/-
The entry array of `struct gpt`: `gpt_entry_offset`, `gpt_entry_get`, the loops
over it, and the functions that create, delete and byte-swap entries.

The array is one allocation of `num_pentries * pentry_size` bytes, and a
`struct gpt_entry *` is an offset into it. Both that product and
`pentry_size * --entry_index` are computed in 32 bits, and a `struct gpt_entry`
has 128 bytes whatever `pentry_size` says. `Gpt.load` and `Gpt.store` are accesses
to all of it; they fault outside the allocation. The byte-swapping loops touch the
56 bytes before the name only (`Gpt.update`), and so does a resize.

`Gpt.Mapped` is the invariant under which no access faults: the allocation has
the size the code computes, and the 128 bytes of every index lie inside it; for the
loops over the first 56 bytes `Gpt.Laid` is enough. Either turns out to keep the
slots from overlapping, even when the products wrap (`slotOffset_apart`), so the
array of a mapped table behaves as a finite map from indices to entries
(`entry_setEntry_self`, `entry_setEntry_of_ne`).
-/
import Iago.GptTypes
import Iago.Slots

set_option autoImplicit false

namespace Iago

section Access

variable {ε : Type} [Platform]

/-! ## Pointers into the array -/

/-- `num_pentries * pentry_size`, a product of two `uint32_t`. -/
def GptHeader.entries_size (h : GptHeader) : UInt32 := h.num_pentries * h.pentry_size

/-- `gpt_entry_offset`: where entry `entry_index` starts, as an offset into
`gpt->entries`. -/
def gpt_entry_offset (entry_index : UInt32) (g : Gpt) : UInt32 :=
  g.header.pentry_size * (entry_index - 1)

/-- `gpt_entry_get`: the same, or NULL for an index out of range. -/
def gpt_entry_get (entry_index : UInt32) (g : Gpt) : Option UInt32 :=
  if entry_index = 0 ∨ entry_index > g.header.num_pentries then none
  else some (gpt_entry_offset entry_index g)

/-- The table with `gpt->entries` pointing at other bytes. -/
def Gpt.withBuf (g : Gpt) (buf : List UInt8) : Gpt := { g with entries := .live buf }

/-- Reading the `struct gpt_entry` at an offset. -/
def Gpt.load (g : Gpt) (off : UInt32) : Exec ε GptEntry :=
  match g.entries with
  | .live buf =>
    if off.toNat + 128 ≤ buf.length then .ret (GptEntry.codec.dec (slice buf off.toNat 128))
    else .fault
  | _ => .fault

/-- Storing a `struct gpt_entry` at an offset. -/
def Gpt.store (g : Gpt) (off : UInt32) (e : GptEntry) : Exec ε Gpt :=
  match g.entries with
  | .live buf =>
    if off.toNat + 128 ≤ buf.length then
      .ret (g.withBuf (splice buf off.toNat (GptEntry.codec.enc e)))
    else .fault
  | _ => .fault

/-- Replacing the fields before the name of the `struct gpt_entry` at an offset by their
images. The name is neither read nor written. -/
def Gpt.update (g : Gpt) (off : UInt32) (f : GptEntryHead → GptEntryHead) : Exec ε Gpt :=
  match g.entries with
  | .live buf =>
    if off.toNat + 56 ≤ buf.length then
      .ret (g.withBuf (Slots.modify GptEntryHead.codec f buf off.toNat))
    else .fault
  | _ => .fault

/-- The units in a stretch of memory. -/
def units : List UInt8 → List UInt16
  | a :: b :: bs => u16.dec [a, b] :: units bs
  | _ => []

/-- `gpt_entry_get_name` of the `struct gpt_entry` at an offset: where no zero unit ends the
name, the entries behind it are read, and the memory behind the array. -/
def gpt_entry_get_name (off : UInt32) (g : Gpt) : Exec ε CStr :=
  match g.entries with
  | .live buf =>
    if off.toNat + 56 ≤ buf.length then
      lechar16_to_ascii (units (buf.drop (off.toNat + 56) ++ Platform.behind .table))
    else .fault
  | _ => .fault

/-! ## The loops over the array -/

/-- A loop over a list, which the body can leave with a result. -/
def forEach {α σ ρ : Type} (f : α → σ → Exec ε (σ ⊕ ρ)) : List α → σ → Exec ε (σ ⊕ ρ)
  | [], s => .ret (.inl s)
  | a :: as, s => do
    match ← f a s with
    | .inl s' => forEach f as s'
    | .inr r => .ret (.inr r)

/-- The values of `i` in `for (i = 1; i <= num_pentries; i++)`. -/
def indices (num_pentries : UInt32) : List UInt32 :=
  (List.range num_pentries.toNat).map fun k => UInt32.ofNat (k + 1)

/-- `partition_for_each(gpt, i, e)`: the body runs at every index whose entry
has a `first_lba` at that moment. `tab` finds the table in the loop's state. -/
def partition_for_each {σ ρ : Type} (tab : σ → Gpt)
    (body : UInt32 → GptEntry → σ → Exec ε (σ ⊕ ρ)) (s : σ) : Exec ε (σ ⊕ ρ) :=
  forEach (fun i s => do
    let e ← (tab s).load (gpt_entry_offset i (tab s))
    if e.first_lba = 0 then .ret (.inl s) else body i e s)
    (indices (tab s).header.num_pentries) s

/-- `gpt_next_index`: the first index that is not in use, or 0. -/
def gpt_next_index (g : Gpt) : Exec ε UInt32 := do
  let r ← forEach (fun i (_ : Unit) => do
    let e ← g.load (gpt_entry_offset i g)
    if e.first_lba = 0 then .ret (.inr i) else .ret (.inl ())) (indices g.header.num_pentries) ()
  match r with
  | .inl _ => .ret 0
  | .inr i => .ret i

/-- `gpt_guid_bytes_to_host`. -/
def gpt_guid_bytes_to_host (g : Guid) : Guid :=
  { g with data1 := letoh32 g.data1, data2 := letoh16 g.data2, data3 := letoh16 g.data3 }

/-- `gpt_guid_bytes_to_le`. -/
def gpt_guid_bytes_to_le (g : Guid) : Guid :=
  { g with data1 := htole32 g.data1, data2 := htole16 g.data2, data3 := htole16 g.data3 }

/-- The body of the loop of `gpt_entries_bytes_to_host`. -/
def entry_bytes_to_host (e : GptEntryHead) : GptEntryHead :=
  { e with
    first_lba := letoh64 e.first_lba
    last_lba := letoh64 e.last_lba
    flags := letoh64 e.flags
    type_guid := gpt_guid_bytes_to_host e.type_guid
    part_guid := gpt_guid_bytes_to_host e.part_guid }

/-- The body of the loop of `gpt_entries_bytes_to_le`. -/
def entry_bytes_to_le (e : GptEntryHead) : GptEntryHead :=
  { e with
    first_lba := htole64 e.first_lba
    last_lba := htole64 e.last_lba
    flags := htole64 e.flags
    type_guid := gpt_guid_bytes_to_le e.type_guid
    part_guid := gpt_guid_bytes_to_le e.part_guid }

/-- `for (i = 0; i < num_pentries; i++)` over `gpt->entries + pentry_size * i`,
replacing the fields before the name of each entry by their images. -/
def for_each_slot (f : GptEntryHead → GptEntryHead) (g : Gpt) : Exec ε Gpt :=
  (List.range g.header.num_pentries.toNat).foldlM
    (fun g i => g.update (g.header.pentry_size * UInt32.ofNat i) f) g

def gpt_entries_bytes_to_host (g : Gpt) : Exec ε Gpt := for_each_slot entry_bytes_to_host g

def gpt_entries_bytes_to_le (g : Gpt) : Exec ε Gpt := for_each_slot entry_bytes_to_le g

/-! ## Creating and deleting entries -/

/-- `gpt_entry_create`: the index of the new entry, or 0. The fields are stored
as they are computed, so a name that is too long or a failing random source
leaves what was stored before it. -/
def gpt_entry_create (g : Gpt) (name : CStr) (type : PartType) (flags first_lba last_lba : UInt64)
    (r : Urandom) : Exec ε (UInt32 × Gpt × Urandom) := do
  let i ← gpt_next_index g
  match gpt_entry_get i g with
  | none => .ret (0, g, r)
  | some off =>
    let e ← g.load off
    let e := { e with flags := flags, first_lba := first_lba, last_lba := last_lba }
    match gpt_entry_set_name e name with
    | (0, e) =>
      let e := gpt_entry_set_type e type
      match generate_uuid r with
      | (none, r) =>
        let g ← g.store off e
        .ret (0, g, r)
      | (some uuid, r) =>
        let g ← g.store off { e with part_guid := uuid }
        .ret (i, g, r)
    | (_, e) =>
      let g ← g.store off e
      .ret (0, g, r)

/-- `gpt_entry_delete`: -1 for an index out of range. -/
def gpt_entry_delete (g : Gpt) (index : UInt32) : Exec ε (Int × Gpt) :=
  match gpt_entry_get index g with
  | none => .ret (-1, g)
  | some off => do
    let g ← g.store off GptEntry.zero
    .ret (0, g)

end Access

/-! ## When accesses stay inside the allocation -/

/-- Where slot `k` (counted from 0) starts, in the code's 32-bit arithmetic. -/
def GptHeader.slotOffset (h : GptHeader) (k : ℕ) : ℕ := (h.pentry_size.toNat * k) % 2 ^ 32

/-- The first `w` bytes of every slot lie inside an allocation of `entries_size` bytes. -/
def GptHeader.Hold (h : GptHeader) (w : ℕ) : Prop :=
  ∀ k, k < h.num_pentries.toNat → h.slotOffset k + w ≤ h.entries_size.toNat

/-- All 128 bytes of every slot do. -/
def GptHeader.InBounds (h : GptHeader) : Prop := h.Hold 128

theorem GptHeader.Hold.mono {h : GptHeader} {v w : ℕ} (hb : h.Hold w) (hvw : v ≤ w) : h.Hold v :=
  fun k hk => (Nat.add_le_add_left hvw _).trans (hb k hk)

/-- The size of the array is computed in 32 bits. -/
theorem GptHeader.entries_size_toNat (h : GptHeader) :
    h.entries_size.toNat = (h.num_pentries.toNat * h.pentry_size.toNat) % 2 ^ 32 :=
  UInt32.toNat_mul _ _

/-- Offsets add up, in 32 bits. -/
theorem GptHeader.slotOffset_add (h : GptHeader) (a b : ℕ) :
    h.slotOffset (a + b) = (h.slotOffset a + h.slotOffset b) % 2 ^ 32 := by
  rw [slotOffset, Nat.mul_add, Nat.add_mod]
  rfl

/-- The slot behind the last would start where the array ends. -/
theorem GptHeader.slotOffset_num (h : GptHeader) :
    h.slotOffset h.num_pentries.toNat = h.entries_size.toNat := by
  rw [h.entries_size_toNat, slotOffset, Nat.mul_comm]

/-- **Slots in bounds do not overlap**, even where the offsets wrap. If slot `j`
started less than `w` bytes above slot `i`, the slot as far from the end of the
array as they are from each other would reach past the end. -/
theorem GptHeader.slotOffset_apart {h : GptHeader} {w : ℕ} (hb : h.Hold w) {i j : ℕ}
    (hi : i < h.num_pentries.toNat) (hj : j < h.num_pentries.toNat) (hij : i ≠ j) :
    h.slotOffset i + w ≤ h.slotOffset j ∨ h.slotOffset j + w ≤ h.slotOffset i := by
  -- `i` may be taken to be the slot with the lower offset
  wlog hle : h.slotOffset i ≤ h.slotOffset j generalizing i j with H
  · exact (H hj hi hij.symm (by omega)).symm
  by_contra hcon
  have hsize : h.entries_size.toNat < 2 ^ 32 := h.entries_size.toNat_lt
  have hend := h.slotOffset_num
  rcases Nat.lt_or_ge i j with hlt | hge
  · have hsum := h.slotOffset_add i (j - i)
    have hlast := h.slotOffset_add (h.num_pentries.toNat - (j - i)) (j - i)
    rw [show i + (j - i) = j by omega] at hsum
    rw [show h.num_pentries.toNat - (j - i) + (j - i) = h.num_pentries.toNat by omega] at hlast
    have hm := hb (h.num_pentries.toNat - (j - i)) (by omega)
    have hk := hb (j - i) (by omega)
    omega
  · have hsum := h.slotOffset_add j (i - j)
    have hlast := h.slotOffset_add (h.num_pentries.toNat - (i - j)) (i - j)
    rw [show j + (i - j) = i by omega] at hsum
    rw [show h.num_pentries.toNat - (i - j) + (i - j) = h.num_pentries.toNat by omega] at hlast
    have hm := hb (h.num_pentries.toNat - (i - j)) (by omega)
    have hk := hb (i - j) (by omega)
    omega

/-- Where the product of count and size does not wrap, no offset does. -/
theorem GptHeader.slotOffset_of_lt {h : GptHeader}
    (hns : h.num_pentries.toNat * h.pentry_size.toNat < 2 ^ 32) {k : ℕ}
    (hk : k < h.num_pentries.toNat) : h.slotOffset k = k * h.pentry_size.toNat := by
  have hle : k * h.pentry_size.toNat ≤ h.num_pentries.toNat * h.pentry_size.toNat :=
    Nat.mul_le_mul_right _ (Nat.le_of_lt hk)
  rw [slotOffset, Nat.mul_comm, Nat.mod_eq_of_lt (by omega)]

/-- Without wrapping, so many bytes of the slots are inside the allocation exactly when there
are no slots or each has room for them. -/
theorem GptHeader.hold_iff {h : GptHeader} {w : ℕ}
    (hns : h.num_pentries.toNat * h.pentry_size.toNat < 2 ^ 32) :
    h.Hold w ↔ h.num_pentries.toNat = 0 ∨ w ≤ h.pentry_size.toNat := by
  have hsize : h.entries_size.toNat = h.num_pentries.toNat * h.pentry_size.toNat := by
    rw [h.entries_size_toNat, Nat.mod_eq_of_lt hns]
  constructor
  · intro hb
    rcases Nat.eq_zero_or_pos h.num_pentries.toNat with h0 | hpos
    · exact .inl h0
    · -- the last slot ends at the end of the array at the latest
      right
      have hlast := hb (h.num_pentries.toNat - 1) (by omega)
      rw [slotOffset_of_lt hns (by omega), hsize, Nat.sub_mul, Nat.one_mul] at hlast
      have : h.pentry_size.toNat ≤ h.num_pentries.toNat * h.pentry_size.toNat :=
        Nat.le_mul_of_pos_left _ hpos
      omega
  · rintro hor k hk
    have hle : (k + 1) * h.pentry_size.toNat ≤ h.num_pentries.toNat * h.pentry_size.toNat :=
      Nat.mul_le_mul_right _ hk
    rw [slotOffset_of_lt hns hk, hsize]
    rw [Nat.succ_mul] at hle
    omega

/-- The same for whole entries. -/
theorem GptHeader.inBounds_iff {h : GptHeader}
    (hns : h.num_pentries.toNat * h.pentry_size.toNat < 2 ^ 32) :
    h.InBounds ↔ h.num_pentries.toNat = 0 ∨ 128 ≤ h.pentry_size.toNat :=
  GptHeader.hold_iff hns

/-! ## The array as a finite map -/

/-- The bytes `gpt->entries` points at. -/
def Gpt.buf (g : Gpt) : List UInt8 :=
  match g.entries with
  | .live buf => buf
  | _ => []

/-- The invariant of a table whose entries can be byte-swapped: an allocation of the size the
code computes, with the fields before the name of every entry inside it. -/
structure Gpt.Laid (g : Gpt) : Prop where
  live : g.entries = .live g.buf
  size : g.buf.length = g.header.entries_size.toNat
  heads : g.header.Hold 56

/-- The invariant of a table whose entries can be reached: an allocation of the
size the code computes, with every slot inside it. -/
structure Gpt.Mapped (g : Gpt) : Prop where
  live : g.entries = .live g.buf
  size : g.buf.length = g.header.entries_size.toNat
  inBounds : g.header.InBounds

theorem Gpt.Mapped.laid {g : Gpt} (hg : g.Mapped) : g.Laid :=
  ⟨hg.live, hg.size, hg.inBounds.mono (by decide)⟩

theorem Gpt.Laid.mapped {g : Gpt} (hg : g.Laid) (hin : g.header.InBounds) : g.Mapped :=
  ⟨hg.live, hg.size, hin⟩

/-- The table with other bytes in its array. -/
def Gpt.Rewritten (g g' : Gpt) : Prop := ∃ buf, g' = g.withBuf buf ∧ buf.length = g.buf.length

/-- Putting back the array that is there changes nothing. -/
theorem withBuf_of_live {g : Gpt} (hlive : g.entries = .live g.buf) : g.withBuf g.buf = g := by
  show Gpt.mk g.header (.live g.buf) g.lba_size g.sectors g.device = g
  rw [← hlive]

namespace Gpt.Rewritten

variable {g g' g₂ : Gpt}

theorem refl (hlive : g.entries = .live g.buf) : g.Rewritten g :=
  ⟨g.buf, (withBuf_of_live hlive).symm, rfl⟩

/-- The array of a table that was rewritten is there. -/
theorem live (h : g.Rewritten g') : g'.entries = .live g'.buf := by
  obtain ⟨buf, rfl, -⟩ := h
  rfl

/-- It has the length it had. -/
theorem length (h : g.Rewritten g') : g'.buf.length = g.buf.length := by
  obtain ⟨buf, rfl, hlen⟩ := h
  exact hlen

theorem header (h : g.Rewritten g') : g'.header = g.header := by
  obtain ⟨buf, rfl, -⟩ := h
  rfl

theorem device (h : g.Rewritten g') : g'.device = g.device := by
  obtain ⟨buf, rfl, -⟩ := h
  rfl

theorem trans (h : g.Rewritten g') (h' : g'.Rewritten g₂) : g.Rewritten g₂ := by
  obtain ⟨buf, rfl, hlen⟩ := h
  obtain ⟨buf', rfl, hlen'⟩ := h'
  exact ⟨buf', rfl, hlen'.trans hlen⟩

/-- An array that is laid out stays so. -/
theorem laid (h : g.Rewritten g') (hg : g.Laid) : g'.Laid := by
  obtain ⟨buf, rfl, hlen⟩ := h
  exact ⟨rfl, hlen.trans hg.size, hg.heads⟩

end Gpt.Rewritten

/-- The indices of the table: 1 to `num_pentries`. -/
def Gpt.Index (g : Gpt) (i : UInt32) : Prop := i ≠ 0 ∧ i ≤ g.header.num_pentries

instance (g : Gpt) (i : UInt32) : Decidable (g.Index i) :=
  inferInstanceAs (Decidable (_ ∧ _))

section Index

variable {g : Gpt} {i j : UInt32}

/-- An index of the table has an entry. -/
theorem gpt_entry_get_of_index (hi : g.Index i) :
    gpt_entry_get i g = some (gpt_entry_offset i g) := by
  have hle : ¬ i > g.header.num_pentries := by
    have := hi.2
    rw [UInt32.le_iff_toNat_le] at this
    rw [gt_iff_lt, UInt32.lt_iff_toNat_lt]
    omega
  rw [gpt_entry_get, if_neg (by rintro (h | h); exacts [hi.1 h, hle h])]

theorem gpt_entry_get_of_not_index (hi : ¬ g.Index i) : gpt_entry_get i g = none := by
  rw [gpt_entry_get, if_pos]
  by_contra hcon
  rw [not_or] at hcon
  refine hi ⟨hcon.1, ?_⟩
  have := hcon.2
  rw [gt_iff_lt, UInt32.lt_iff_toNat_lt] at this
  rw [UInt32.le_iff_toNat_le]
  omega

/-- The indices are the numbers from 1 to that of the entries. -/
theorem index_toNat (hi : g.Index i) : 0 < i.toNat ∧ i.toNat ≤ g.header.num_pentries.toNat := by
  refine ⟨?_, UInt32.le_iff_toNat_le.mp hi.2⟩
  rw [Nat.pos_iff_ne_zero]
  intro h
  exact hi.1 (UInt32.toNat_inj.mp h)

/-- The entry at an index is in the slot before it, counted from 0. -/
theorem gpt_entry_offset_toNat (hi : g.Index i) :
    (gpt_entry_offset i g).toNat = g.header.slotOffset (i.toNat - 1) := by
  have hpos := (index_toNat hi).1
  have hlt := i.toNat_lt
  have hsub : (i - 1).toNat = i.toNat - 1 := by
    rw [UInt32.toNat_sub]
    simp only [UInt32.toNat_one]
    omega
  rw [gpt_entry_offset, UInt32.toNat_mul, hsub]
  rfl

/-- Every entry lies inside the array. -/
theorem gpt_entry_offset_fits (hg : g.Mapped) (hi : g.Index i) :
    (gpt_entry_offset i g).toNat + 128 ≤ g.buf.length := by
  have hidx := index_toNat hi
  rw [gpt_entry_offset_toNat hi, hg.size]
  exact hg.inBounds _ (by omega)

/-- Two of them do not overlap. -/
theorem gpt_entry_offset_apart (hg : g.Mapped) (hi : g.Index i) (hj : g.Index j) (hij : i ≠ j) :
    (gpt_entry_offset i g).toNat + 128 ≤ (gpt_entry_offset j g).toNat ∨
      (gpt_entry_offset j g).toNat + 128 ≤ (gpt_entry_offset i g).toNat := by
  have hi' := index_toNat hi
  have hj' := index_toNat hj
  have hne : i.toNat ≠ j.toNat := fun h => hij (UInt32.toNat_inj.mp h)
  rw [gpt_entry_offset_toNat hi, gpt_entry_offset_toNat hj]
  exact GptHeader.slotOffset_apart hg.inBounds (by omega) (by omega) (by omega)

end Index

section Map

variable {ε : Type} [Platform]

/-- The entry at an index. -/
def Gpt.entry (g : Gpt) (i : UInt32) : GptEntry :=
  GptEntry.codec.dec (slice g.buf (gpt_entry_offset i g).toNat 128)

/-- The table with the entry at an index replaced. -/
def Gpt.setEntry (g : Gpt) (i : UInt32) (e : GptEntry) : Gpt :=
  g.withBuf (splice g.buf (gpt_entry_offset i g).toNat (GptEntry.codec.enc e))

/-- An index is in use when its entry has a `first_lba`. -/
def Gpt.InUse (g : Gpt) (i : UInt32) : Prop := g.Index i ∧ (g.entry i).first_lba ≠ 0

instance (g : Gpt) (i : UInt32) : Decidable (g.InUse i) :=
  inferInstanceAs (Decidable (_ ∧ _))

@[simp] theorem setEntry_header (g : Gpt) (i : UInt32) (e : GptEntry) :
    (g.setEntry i e).header = g.header := rfl

@[simp] theorem setEntry_lba_size (g : Gpt) (i : UInt32) (e : GptEntry) :
    (g.setEntry i e).lba_size = g.lba_size := rfl

@[simp] theorem setEntry_sectors (g : Gpt) (i : UInt32) (e : GptEntry) :
    (g.setEntry i e).sectors = g.sectors := rfl

@[simp] theorem setEntry_device (g : Gpt) (i : UInt32) (e : GptEntry) :
    (g.setEntry i e).device = g.device := rfl

@[simp] theorem index_setEntry (g : Gpt) (i j : UInt32) (e : GptEntry) :
    (g.setEntry i e).Index j ↔ g.Index j := Iff.rfl

@[simp] theorem gpt_entry_offset_setEntry (g : Gpt) (i j : UInt32) (e : GptEntry) :
    gpt_entry_offset j (g.setEntry i e) = gpt_entry_offset j g := rfl

variable {g : Gpt} {i j : UInt32} {e : GptEntry}

/-- An entry that is loaded is the one at the index. -/
theorem load_entry (hg : g.Mapped) (hi : g.Index i) :
    (g.load (gpt_entry_offset i g) : Exec ε GptEntry) = .ret (g.entry i) := by
  rw [Gpt.load, hg.live]
  simp only
  rw [if_pos (gpt_entry_offset_fits hg hi), Gpt.entry]

theorem store_entry (hg : g.Mapped) (hi : g.Index i) :
    (g.store (gpt_entry_offset i g) e : Exec ε Gpt) = .ret (g.setEntry i e) := by
  rw [Gpt.store, hg.live]
  simp only
  rw [if_pos (gpt_entry_offset_fits hg hi), Gpt.setEntry]

theorem setEntry_mapped (hg : g.Mapped) (hi : g.Index i) : (g.setEntry i e).Mapped where
  live := rfl
  size := by
    show (splice g.buf _ _).length = _
    rw [length_splice, hg.size, setEntry_header]
    rw [GptEntry.length_enc]
    exact gpt_entry_offset_fits hg hi
  inBounds := hg.inBounds

/-- Reading back the entry just stored. -/
@[simp] theorem entry_setEntry_self (hg : g.Mapped) (hi : g.Index i) :
    (g.setEntry i e).entry i = e := by
  have hfit := gpt_entry_offset_fits hg hi
  have hroom : (gpt_entry_offset i g).toNat + (GptEntry.codec.enc e).length ≤ g.buf.length := by
    rw [GptEntry.length_enc]
    exact hfit
  have hself := slice_splice_self hroom
  rw [GptEntry.length_enc] at hself
  show GptEntry.codec.dec (slice (splice g.buf _ _) _ 128) = e
  rw [gpt_entry_offset_setEntry, hself, GptEntry.codec.dec_enc]

/-- Storing at one index leaves the entry at every other one alone. -/
theorem entry_setEntry_of_ne (hg : g.Mapped) (hi : g.Index i) (hj : g.Index j) (hij : i ≠ j) :
    (g.setEntry i e).entry j = g.entry j := by
  show GptEntry.codec.dec (slice (splice g.buf _ _) _ 128) = _
  rw [gpt_entry_offset_setEntry, slice_splice_of_disjoint, Gpt.entry]
  · rw [GptEntry.length_enc]
    exact gpt_entry_offset_fits hg hi
  · rw [GptEntry.length_enc]
    exact gpt_entry_offset_apart hg hj hi hij.symm

/-- The entries after one has been stored. -/
theorem entry_setEntry (hg : g.Mapped) (hi : g.Index i) (hj : g.Index j) :
    (g.setEntry i e).entry j = if j = i then e else g.entry j := by
  split_ifs with h
  · rw [h, entry_setEntry_self hg hi]
  · exact entry_setEntry_of_ne hg hi hj (fun h' => h h'.symm)

/-- Storing the entry that is there changes nothing. -/
theorem setEntry_entry (hg : g.Mapped) (hi : g.Index i) : g.setEntry i (g.entry i) = g := by
  have hfit := gpt_entry_offset_fits hg hi
  have hback : GptEntry.codec.enc (g.entry i) = slice g.buf (gpt_entry_offset i g).toNat 128 :=
    GptEntry.codec.enc_dec _ (by rw [length_slice hfit, GptEntry.width_codec])
  rw [Gpt.setEntry, hback, splice_slice hfit, withBuf_of_live hg.live]

end Map

/-! ## Names in the array -/

section Names

variable {ε : Type} [Platform] {g : Gpt} {i : UInt32}

/-- The bytes of a name. -/
theorem enc_name (hg : g.Mapped) (hi : g.Index i) : (u16.vector 36).enc (g.entry i).name
    = slice g.buf ((gpt_entry_offset i g).toNat + 56) 72 := by
  have hslice := length_slice (gpt_entry_offset_fits hg hi)
  have hback : GptEntry.codec.enc (g.entry i) = slice g.buf (gpt_entry_offset i g).toNat 128 :=
    GptEntry.codec.enc_dec _ (by rw [hslice, GptEntry.width_codec])
  have hdrop := congrArg (List.drop 56) hback
  rw [GptEntry.enc_eq, List.drop_left' (by rw [GptEntryHead.codec.length_enc,
    GptEntryHead.width_codec])] at hdrop
  rw [hdrop, slice, slice, List.drop_take, List.drop_drop]

/-- The units of whole units, and then of the rest. -/
theorem units_append {bs : List UInt8} (h : 2 ∣ bs.length) (rest : List UInt8) :
    units (bs ++ rest) = units bs ++ units rest := by
  induction bs using units.induct with
  | case1 a b bs ih =>
    rw [List.length_cons, List.length_cons] at h
    rw [List.cons_append, List.cons_append, units, units, ih (by omega), List.cons_append]
  | case2 bs hshort =>
    match bs with
    | [] => rfl
    | [a] =>
      rw [List.length_singleton] at h
      omega
    | a :: b :: bs => exact absurd rfl (hshort a b bs)

/-- The units of a name field. -/
theorem units_enc {n : ℕ} (v : List.Vector UInt16 n) : units ((u16.vector n).enc v) = v.toList := by
  induction n with
  | zero =>
    rw [List.Vector.eq_nil v]
    rfl
  | succ n ih =>
    have henc : (u16.vector (n + 1)).enc v = u16.enc v.head ++ (u16.vector n).enc v.tail := rfl
    have hlen : (u16.enc v.head).length = 2 := u16.length_enc _
    have hhead : units (u16.enc v.head) = [v.head] := by
      obtain ⟨a, b, hab⟩ := List.length_eq_two.mp hlen
      rw [hab, units, ← hab, u16.dec_enc]
      rfl
    rw [henc, units_append (by rw [hlen]), hhead, ih]
    conv_rhs => rw [← List.Vector.cons_head_tail v, List.Vector.toList_cons]
    rfl

/-- The units from the name of an entry on, as far as memory can be read. -/
def Gpt.name_units (g : Gpt) (i : UInt32) : List UInt16 :=
  units (g.buf.drop ((gpt_entry_offset i g).toNat + 56) ++ Platform.behind .table)

/-- The units behind an entry. -/
def Gpt.behind (g : Gpt) (i : UInt32) : List UInt16 :=
  units (g.buf.drop ((gpt_entry_offset i g).toNat + 128) ++ Platform.behind .table)

/-- The scan for the name of an entry is one of the units from there on. -/
theorem get_name_eq (hg : g.Mapped) (hi : g.Index i) :
    (gpt_entry_get_name (gpt_entry_offset i g) g : Exec ε CStr)
      = lechar16_to_ascii (g.name_units i) := by
  have hfit := gpt_entry_offset_fits hg hi
  have hname : (gpt_entry_offset i g).toNat + 56 ≤ g.buf.length := by omega
  rw [gpt_entry_get_name, hg.live]
  exact if_pos hname

/-- The name, and then what is behind the entry. -/
theorem name_units_eq (hg : g.Mapped) (hi : g.Index i) :
    g.name_units i = (g.entry i).name.toList ++ g.behind i := by
  have hfit := gpt_entry_offset_fits hg hi
  have hname := enc_name hg hi
  have hlen : ((u16.vector 36).enc (g.entry i).name).length = 72 := by
    rw [(u16.vector 36).length_enc, Codec.width_vector]
    rfl
  have hsplit : g.buf.drop ((gpt_entry_offset i g).toNat + 56)
      = slice g.buf ((gpt_entry_offset i g).toNat + 56) 72
        ++ g.buf.drop ((gpt_entry_offset i g).toNat + 128) := by
    conv_lhs => rw [← List.take_append_drop 72 (g.buf.drop _), List.drop_drop]
    rfl
  rw [Gpt.name_units, hsplit, ← hname, List.append_assoc,
    units_append (by rw [hlen]; decide), units_enc]
  rfl

/-- **Where the name of an entry ends within its field**, it is what the entry says. -/
theorem get_name_of_mem (hg : g.Mapped) (hi : g.Index i) (h : 0 ∈ (g.entry i).name.toList) :
    (gpt_entry_get_name (gpt_entry_offset i g) g : Exec ε CStr)
      = .ret (entry_name (g.entry i)) := by
  rw [get_name_eq hg hi, name_units_eq hg hi, lechar16_to_ascii_eq,
    if_pos (List.mem_append_left _ h), up_to_zero_append_of_mem h]
  rfl

/-- A name that was set is read back from the table. -/
theorem get_name_overwriteName (hg : g.Mapped) (hi : g.Index i) {name : CStr}
    (h : name.length ≤ 35) (h0 : 0 ∉ name) {old : List.Vector UInt16 36}
    (he : (g.entry i).name = overwriteName old name h) :
    (gpt_entry_get_name (gpt_entry_offset i g) g : Exec ε CStr) = .ret (name.map shown) := by
  have hmem : 0 ∈ (g.entry i).name.toList := by
    rw [he]
    exact zero_mem_overwriteName old h
  rw [get_name_of_mem hg hi hmem, entry_name_overwriteName h h0 he]

/-- A name that does not end is read on behind the field, and starts with the field. -/
theorem get_name_of_not_mem (hg : g.Mapped) (hi : g.Index i)
    (h : 0 ∉ (g.entry i).name.toList) {name : CStr}
    (hret : (gpt_entry_get_name (gpt_entry_offset i g) g : Exec ε CStr) = .ret name) :
    (∃ more, name = entry_name (g.entry i) ++ more) ∧ (entry_name (g.entry i)).length = 36 := by
  have hall : up_to_zero (g.entry i).name.toList = (g.entry i).name.toList := by
    have happ := up_to_zero_append_of_not_mem h []
    rw [List.append_nil] at happ
    exact happ.trans (List.append_nil _)
  rw [get_name_eq hg hi, name_units_eq hg hi, lechar16_to_ascii_eq,
    up_to_zero_append_of_not_mem h, List.map_append] at hret
  split_ifs at hret
  injection hret with hret
  refine ⟨⟨(up_to_zero (g.behind i)).map ascii_of_unit, ?_⟩, ?_⟩
  · rw [entry_name, hall]
    exact hret.symm
  · rw [entry_name, hall, List.length_map, List.Vector.toList_length]

end Names

/-! ## What the loops compute -/

section Loops

variable {ε : Type}

@[simp] theorem forEach_nil {α σ ρ : Type} (f : α → σ → Exec ε (σ ⊕ ρ)) (s : σ) :
    forEach f [] s = .ret (.inl s) := rfl

theorem forEach_cons {α σ ρ : Type} (f : α → σ → Exec ε (σ ⊕ ρ)) (a : α) (as : List α) (s : σ) :
    forEach f (a :: as) s = f a s >>= fun r =>
      match r with
      | .inl s' => forEach f as s'
      | .inr r => .ret (.inr r) := rfl

/-- A loop depends on its body only at the elements it visits. -/
theorem forEach_congr {α σ ρ : Type} {f f' : α → σ → Exec ε (σ ⊕ ρ)} {as : List α}
    (h : ∀ a ∈ as, ∀ s, f a s = f' a s) (s : σ) : forEach f as s = forEach f' as s := by
  induction as generalizing s with
  | nil => rfl
  | cons a as ih =>
    rw [forEach_cons, forEach_cons, h a List.mem_cons_self]
    congr 1
    funext r
    cases r with
    | inl s' => exact ih (fun b hb => h b (List.mem_cons_of_mem _ hb)) s'
    | inr r => rfl

/-- A loop whose body skips some elements visits the others. -/
theorem forEach_filter {α σ ρ : Type} (p : α → Bool) (f : α → σ → Exec ε (σ ⊕ ρ)) (as : List α)
    (s : σ) :
    forEach (fun a s => if p a then f a s else .ret (.inl s)) as s = forEach f (as.filter p) s := by
  induction as generalizing s with
  | nil => rfl
  | cons a as ih =>
    rw [forEach_cons]
    by_cases hp : p a
    · rw [List.filter_cons_of_pos hp, forEach_cons, if_pos hp]
      congr 1
      funext r
      cases r with
      | inl s' => exact ih s'
      | inr r => rfl
    · rw [List.filter_cons_of_neg hp, if_neg hp, Exec.ret_bind]
      exact ih s

/-- A search loop finds the first element with the property. -/
theorem forEach_find {α : Type} (p : α → Bool) (as : List α) :
    forEach (ε := ε) (fun a (_ : Unit) => if p a then .ret (.inr a) else .ret (.inl ())) as ()
      = .ret (match as.find? p with | none => .inl () | some a => .inr a) := by
  induction as with
  | nil => rfl
  | cons a as ih =>
    rw [forEach_cons]
    by_cases hp : p a
    · rw [if_pos hp, Exec.ret_bind, List.find?_cons_of_pos hp]
    · rw [if_neg hp, Exec.ret_bind, List.find?_cons_of_neg hp]
      exact ih

/-- A loop that only accumulates is a fold. -/
theorem forEach_foldl {α σ ρ : Type} (f : σ → α → σ) (as : List α) (s : σ) :
    forEach (ε := ε) (ρ := ρ) (fun a s => .ret (.inl (f s a))) as s
      = .ret (.inl (as.foldl f s)) := by
  induction as generalizing s with
  | nil => rfl
  | cons a as ih => exact ih (f s a)

/-- The loop runs over the indices of the table. -/
theorem mem_indices {n i : UInt32} : i ∈ indices n ↔ i ≠ 0 ∧ i ≤ n := by
  have hn := n.toNat_lt
  rw [indices, List.mem_map]
  constructor
  · rintro ⟨k, hk, rfl⟩
    rw [List.mem_range] at hk
    have hval : (UInt32.ofNat (k + 1)).toNat = k + 1 := by
      rw [UInt32.toNat_ofNat']; omega
    refine ⟨fun h => ?_, ?_⟩
    · rw [h] at hval
      simp only [UInt32.toNat_zero] at hval
      omega
    · rw [UInt32.le_iff_toNat_le, hval]; omega
  · rintro ⟨h0, hle⟩
    have hpos : i.toNat ≠ 0 := fun h => h0 (UInt32.toNat_inj.mp h)
    rw [UInt32.le_iff_toNat_le] at hle
    refine ⟨i.toNat - 1, List.mem_range.mpr (by omega), ?_⟩
    rw [show i.toNat - 1 + 1 = i.toNat by omega, UInt32.ofNat_toNat]

theorem nodup_indices (n : UInt32) : (indices n).Nodup := by
  have hn := n.toNat_lt
  rw [indices]
  refine List.Nodup.map_on ?_ List.nodup_range
  intro a ha b hb hab
  rw [List.mem_range] at ha hb
  have h := congrArg UInt32.toNat hab
  rw [UInt32.toNat_ofNat', UInt32.toNat_ofNat'] at h
  omega

variable [Platform] {g : Gpt}

/-- The in-use entries in index order, as `partition_for_each` visits them. -/
def Gpt.inUse (g : Gpt) : List (UInt32 × GptEntry) :=
  ((indices g.header.num_pentries).filter fun i => (g.entry i).first_lba ≠ 0).map
    fun i => (i, g.entry i)

/-- The list has the entries in use, under their indices. -/
theorem mem_inUse {i : UInt32} {e : GptEntry} :
    (i, e) ∈ g.inUse ↔ g.InUse i ∧ e = g.entry i := by
  simp only [Gpt.inUse, List.mem_map, List.mem_filter, mem_indices, decide_eq_true_eq,
    Prod.mk.injEq, Gpt.InUse, Gpt.Index]
  constructor
  · rintro ⟨j, ⟨hj, hne⟩, rfl, rfl⟩
    exact ⟨⟨hj, hne⟩, rfl⟩
  · rintro ⟨⟨hi, hne⟩, rfl⟩
    exact ⟨i, ⟨hi, hne⟩, rfl, rfl⟩

/-- Every slot the loops visit can be loaded. This is all reading needs, and a table
can have it without being mapped. -/
def Gpt.Readable (g : Gpt) : Prop :=
  ∀ i, g.Index i → g.entries = .live g.buf ∧ (gpt_entry_offset i g).toNat + 128 ≤ g.buf.length

omit [Platform] in
/-- On a mapped table every slot can be read. -/
theorem Gpt.Mapped.readable (hg : g.Mapped) : g.Readable := fun _ hi =>
  ⟨hg.live, gpt_entry_offset_fits hg hi⟩

omit [Platform] in
/-- A table all of whose slots can be loaded has them in bounds. -/
theorem Gpt.Laid.inBounds_of_readable (hg : g.Laid) (h : g.Readable) : g.header.InBounds := by
  intro k hk
  have hlt := g.header.num_pentries.toNat_lt
  have hnat : (UInt32.ofNat (k + 1)).toNat = k + 1 := by
    rw [UInt32.toNat_ofNat']
    omega
  have hi : g.Index (UInt32.ofNat (k + 1)) := by
    refine ⟨fun h0 => ?_, UInt32.le_iff_toNat_le.mpr (by omega)⟩
    have := congrArg UInt32.toNat h0
    rw [hnat, UInt32.toNat_zero] at this
    omega
  have hfits := (h _ hi).2
  rw [gpt_entry_offset_toNat hi, hnat, Nat.add_sub_cancel, hg.size] at hfits
  exact hfits

/-- What is readable is read, whatever the size of the array is. -/
theorem load_entry_of_readable (hg : g.Readable) {i : UInt32} (hi : g.Index i) :
    (g.load (gpt_entry_offset i g) : Exec ε GptEntry) = .ret (g.entry i) := by
  rw [Gpt.load, (hg i hi).1]
  simp only
  rw [if_pos (hg i hi).2, Gpt.entry]

omit [Platform] in
/-- A loop that meets a fault somewhere, and nothing else that would end it, faults. -/
theorem forEach_fault {α σ ρ : Type} {f : α → σ → Exec ε (σ ⊕ ρ)} {as : List α}
    (hf : ∀ a ∈ as, (∀ s, f a s = .fault) ∨ ∀ s, ∃ s', f a s = .ret (.inl s'))
    (h : ∃ a ∈ as, ∀ s, f a s = .fault) (s : σ) : forEach f as s = .fault := by
  induction as generalizing s with
  | nil =>
    obtain ⟨a, ha, -⟩ := h
    exact absurd ha List.not_mem_nil
  | cons a as ih =>
    rw [forEach_cons]
    rcases hf a List.mem_cons_self with hfault | hret
    · rw [hfault s, Exec.fault_bind]
    · obtain ⟨s', hs'⟩ := hret s
      rw [hs', Exec.ret_bind]
      refine ih (fun b hb => hf b (List.mem_cons_of_mem _ hb)) ?_ s'
      obtain ⟨b, hb, hfault⟩ := h
      rcases List.mem_cons.mp hb with rfl | hb
      · rw [hfault s] at hs'
        cases hs'
      · exact ⟨b, hb, hfault⟩

/-- Over a table the body does not change, the macro is a loop over the in-use
entries. -/
theorem partition_for_each_const {σ ρ : Type} (hg : g.Readable)
    (body : UInt32 → GptEntry → σ → Exec ε (σ ⊕ ρ)) (s : σ) :
    partition_for_each (fun _ => g) body s = forEach (fun p s => body p.1 p.2 s) g.inUse s := by
  have hmap : ∀ (is : List UInt32) (s : σ),
      forEach (fun i s => body i (g.entry i) s) is s
        = forEach (fun p s => body p.1 p.2 s) (is.map fun i => (i, g.entry i)) s := by
    intro is
    induction is with
    | nil => intro s; rfl
    | cons i is ih =>
      intro s
      rw [List.map_cons, forEach_cons, forEach_cons]
      congr 1
      funext r
      cases r with
      | inl s' => exact ih s'
      | inr r => rfl
  rw [Gpt.inUse, ← hmap, ← forEach_filter, partition_for_each]
  apply forEach_congr
  intro i hi s
  rw [load_entry_of_readable hg (mem_indices.mp hi), Exec.ret_bind]
  by_cases h0 : (g.entry i).first_lba = 0
  · rw [if_pos h0, if_neg (by simp [h0])]
  · rw [if_neg h0, if_pos (by simp [h0])]

/-- Over a table it cannot read, a loop that only accumulates faults. -/
theorem partition_for_each_fault {σ ρ : Type} (hg : ¬ g.Readable) (f : UInt32 → GptEntry → σ → σ)
    (s : σ) :
    partition_for_each (ε := ε) (ρ := ρ) (fun _ => g) (fun i e s => .ret (.inl (f i e s))) s
      = .fault := by
  have hload (i : UInt32) : (g.load (gpt_entry_offset i g) : Exec ε GptEntry) = .fault ∨
      (g.load (gpt_entry_offset i g) : Exec ε GptEntry) = .ret (g.entry i) ∧
        g.entries = .live g.buf ∧ (gpt_entry_offset i g).toNat + 128 ≤ g.buf.length := by
    rw [Gpt.load, Gpt.entry, Gpt.buf]
    cases g.entries with
    | live buf =>
      simp only
      by_cases hfit : (gpt_entry_offset i g).toNat + 128 ≤ buf.length
      · exact .inr ⟨by rw [if_pos hfit], trivial, hfit⟩
      · exact .inl (by rw [if_neg hfit])
    | null => exact .inl rfl
    | freed => exact .inl rfl
  rw [partition_for_each]
  -- Entries that can be read only change what is accumulated; the first that cannot ends the loop.
  refine forEach_fault (fun i _ => ?_) ?_ s
  · rcases hload i with hfault | ⟨hret, -⟩
    · exact .inl fun s => by rw [hfault, Exec.fault_bind]
    · refine .inr fun s => ?_
      rw [hret, Exec.ret_bind]
      split_ifs
      · exact ⟨s, rfl⟩
      · exact ⟨_, rfl⟩
  · rw [Gpt.Readable, not_forall] at hg
    obtain ⟨i, hi⟩ := hg
    rw [Classical.not_imp] at hi
    refine ⟨i, mem_indices.mpr hi.1, fun s => ?_⟩
    rcases hload i with hfault | ⟨-, hlive⟩
    · rw [hfault, Exec.fault_bind]
    · exact absurd hlive hi.2

/-- The first index that is not in use, if there is one. -/
def Gpt.firstFree (g : Gpt) : Option UInt32 :=
  (indices g.header.num_pentries).find? fun i => (g.entry i).first_lba = 0

/-- `gpt_next_index` is the first free index, or 0. -/
theorem gpt_next_index_eq (hg : g.Mapped) :
    (gpt_next_index g : Exec ε UInt32) = .ret (g.firstFree.getD 0) := by
  have hbody : ∀ i ∈ indices g.header.num_pentries, ∀ u : Unit,
      (g.load (gpt_entry_offset i g) >>= fun e =>
        if e.first_lba = 0 then (.ret (.inr i) : Exec ε (Unit ⊕ UInt32)) else .ret (.inl ()))
        = if decide ((g.entry i).first_lba = 0) then .ret (.inr i) else .ret (.inl ()) := by
    intro i hi u
    rw [load_entry hg (mem_indices.mp hi), Exec.ret_bind]
    simp only [decide_eq_true_eq]
  rw [gpt_next_index, forEach_congr hbody, forEach_find, Exec.ret_bind, Gpt.firstFree]
  cases List.find? _ (indices g.header.num_pentries) <;> rfl

/-- It is an index of the table, and free. -/
theorem firstFree_spec {i : UInt32} (h : g.firstFree = some i) : g.Index i ∧ ¬ g.InUse i := by
  have hmem := List.mem_of_find?_eq_some h
  have hp := List.find?_some h
  refine ⟨mem_indices.mp hmem, fun hin => hin.2 ?_⟩
  simpa using hp

/-- There is none exactly if the table is full. -/
theorem firstFree_eq_none : g.firstFree = none ↔ ∀ i, g.Index i → g.InUse i := by
  rw [Gpt.firstFree, List.find?_eq_none]
  simp only [mem_indices, decide_eq_true_eq]
  exact ⟨fun h i hi => ⟨hi, h i hi⟩, fun h i hi => (h i hi).2⟩

end Loops

/-! ## Creating, deleting and swapping entries, on the map -/

section Updates

variable {ε : Type} [Platform] {g g' : Gpt}

/-- The entry `gpt_entry_create` leaves in a slot that held `old`. -/
def GptEntry.created (old : GptEntry) (name : CStr) (h : name.length ≤ 35) (type : PartType)
    (flags first_lba last_lba : UInt64) (uuid : Guid) : GptEntry where
  type_guid := get_guid_type type
  part_guid := uuid
  first_lba := first_lba
  last_lba := last_lba
  flags := flags
  name := overwriteName old.name name h

/-- A name that fits is stored. -/
theorem gpt_entry_set_name_of_le {e : GptEntry} {name : CStr} (h : name.length ≤ 35) :
    gpt_entry_set_name e name = (0, { e with name := overwriteName e.name name h }) := by
  rw [gpt_entry_set_name, dif_pos h]

theorem gpt_entry_set_name_of_gt {e : GptEntry} {name : CStr} (h : ¬ name.length ≤ 35) :
    gpt_entry_set_name e name = (-1, e) := by
  rw [gpt_entry_set_name, dif_neg h]

/-- `gpt_entry_create` on a mapped table, with nothing left to fault. -/
theorem gpt_entry_create_eq (hg : g.Mapped) (name : CStr) (type : PartType)
    (flags first_lba last_lba : UInt64) (r : Urandom) :
    (gpt_entry_create g name type flags first_lba last_lba r : Exec ε _) =
      match g.firstFree with
      | none => .ret (0, g, r)
      | some i =>
        let e := { g.entry i with flags := flags, first_lba := first_lba, last_lba := last_lba }
        if h : name.length ≤ 35 then
          match generate_uuid r with
          | (none, r') =>
            .ret (0, g.setEntry i
              (GptEntry.created e name h type flags first_lba last_lba e.part_guid), r')
          | (some uuid, r') =>
            .ret (i, g.setEntry i
              (GptEntry.created e name h type flags first_lba last_lba uuid), r')
        else .ret (0, g.setEntry i e, r) := by
  rw [gpt_entry_create, gpt_next_index_eq hg, Exec.ret_bind]
  cases hfree : g.firstFree with
  | none =>
    -- Without a free slot the index is 0, which `gpt_entry_get` refuses.
    have h0 : gpt_entry_get 0 g = none := gpt_entry_get_of_not_index fun h => h.1 rfl
    simp only [Option.getD_none, h0]
  | some i =>
    have hi := (firstFree_spec hfree).1
    simp only [Option.getD_some, gpt_entry_get_of_index hi, load_entry hg hi, Exec.ret_bind]
    by_cases hname : name.length ≤ 35
    · rw [gpt_entry_set_name_of_le hname, dif_pos hname]
      simp only
      rcases hu : generate_uuid r with ⟨none | uuid, r'⟩
      · simp only [store_entry hg hi, Exec.ret_bind]
        rfl
      · simp only [store_entry hg hi, Exec.ret_bind]
        rfl
    -- A name that is too long stops the call when the LBAs have been stored already.
    · rw [gpt_entry_set_name_of_gt hname, dif_neg hname]
      simp only [store_entry hg hi, Exec.ret_bind]

/-- What a successful `gpt_entry_create` did: it filled the first free slot. -/
theorem gpt_entry_create_spec (hg : g.Mapped) {name : CStr} {type : PartType}
    {flags first_lba last_lba : UInt64} {r r' : Urandom} {i : UInt32}
    (h : (gpt_entry_create g name type flags first_lba last_lba r : Exec ε _) = .ret (i, g', r'))
    (hi : i ≠ 0) :
    g.firstFree = some i ∧ ∃ (hn : name.length ≤ 35) (uuid : Guid),
      generate_uuid r = (some uuid, r') ∧
      g' = g.setEntry i (GptEntry.created (g.entry i) name hn type flags first_lba last_lba uuid) := by
  rw [gpt_entry_create_eq hg] at h
  cases hfree : g.firstFree with
  | none =>
    rw [hfree] at h
    injection h with h
    exact absurd (congrArg Prod.fst h).symm hi
  | some k =>
    rw [hfree] at h
    simp only at h
    by_cases hname : name.length ≤ 35
    · rw [dif_pos hname] at h
      -- Every other way out returns index 0.
      rcases hu : generate_uuid r with ⟨none | uuid, r₁⟩
      · rw [hu] at h
        injection h with h
        exact absurd (congrArg Prod.fst h).symm hi
      · rw [hu] at h
        injection h with h
        injection h with hk h
        injection h with hg' hr
        subst hk hr hg'
        exact ⟨rfl, hname, uuid, rfl, rfl⟩
    · rw [dif_neg hname] at h
      injection h with h
      exact absurd (congrArg Prod.fst h).symm hi

/-- Deleting zeroes the entry. -/
theorem gpt_entry_delete_of_index (hg : g.Mapped) {i : UInt32} (hi : g.Index i) :
    (gpt_entry_delete g i : Exec ε _) = .ret (0, g.setEntry i GptEntry.zero) := by
  rw [gpt_entry_delete, gpt_entry_get_of_index hi]
  simp only [store_entry hg hi, Exec.ret_bind]

theorem gpt_entry_delete_of_not_index {i : UInt32} (hi : ¬ g.Index i) :
    (gpt_entry_delete g i : Exec ε _) = .ret (-1, g) := by
  rw [gpt_entry_delete, gpt_entry_get_of_not_index hi]

/-- A store changes bytes of the array, and not its length. -/
theorem store_ret {off : UInt32} {e : GptEntry} (h : (g.store off e : Exec ε Gpt) = .ret g') :
    g.Rewritten g' := by
  rw [Gpt.store] at h
  cases hentries : g.entries with
  | live buf =>
    have hbuf : g.buf = buf := by rw [Gpt.buf, hentries]
    rw [hentries] at h
    simp only at h
    split_ifs at h with hfit
    injection h with h
    exact ⟨_, h.symm, by rw [hbuf, length_splice (by rw [GptEntry.length_enc]; exact hfit)]⟩
  | null =>
    rw [hentries] at h
    cases h
  | freed =>
    rw [hentries] at h
    cases h

/-- Whatever the table, `gpt_entry_create` stores one entry at most. -/
theorem gpt_entry_create_ret {name : CStr} {type : PartType} {flags first_lba last_lba : UInt64}
    {r r' : Urandom} {i : UInt32}
    (h : (gpt_entry_create g name type flags first_lba last_lba r : Exec ε _) = .ret (i, g', r')) :
    g' = g ∨ ∃ off e, (g.store off e : Exec ε Gpt) = .ret g' := by
  rw [gpt_entry_create] at h
  obtain ⟨k, -, h⟩ := Exec.bind_eq_ret.mp h
  cases hget : gpt_entry_get k g with
  | none =>
    rw [hget] at h
    simp only [Exec.ret.injEq, Prod.mk.injEq] at h
    exact .inl h.2.1.symm
  | some off =>
    rw [hget] at h
    obtain ⟨e, -, h⟩ := Exec.bind_eq_ret.mp h
    -- every way on ends with one store
    have hdone : ∀ {i' : UInt32} {e' : GptEntry} {s : Urandom},
        (g.store off e' >>= fun g => (.ret (i', g, s) : Exec ε (UInt32 × Gpt × Urandom)))
          = .ret (i, g', r') → ∃ off e, (g.store off e : Exec ε Gpt) = .ret g' := by
      intro i' e' s h
      obtain ⟨g₁, hstore, h⟩ := Exec.bind_eq_ret.mp h
      simp only [Exec.ret.injEq, Prod.mk.injEq] at h
      exact ⟨off, e', h.2.1 ▸ hstore⟩
    right
    simp only at h
    by_cases hname : name.length ≤ 35
    · rw [gpt_entry_set_name_of_le hname] at h
      simp only at h
      rcases hu : generate_uuid r with ⟨_ | uuid, s⟩
      · rw [hu] at h
        exact hdone h
      · rw [hu] at h
        exact hdone h
    · rw [gpt_entry_set_name_of_gt hname] at h
      exact hdone h

/-- The offsets of the slots, in order. -/
def GptHeader.slotOffsets (h : GptHeader) : List ℕ :=
  (List.range h.num_pentries.toNat).map h.slotOffset

omit [Platform] in
/-- The first bytes of the slots are apart and inside the allocation. -/
theorem slots_of_hold {h : GptHeader} {w : ℕ} (hb : h.Hold w) :
    Slots w h.slotOffsets h.entries_size.toNat where
  fits o ho := by
    obtain ⟨k, hk, rfl⟩ := List.mem_map.mp ho
    exact hb k (List.mem_range.mp hk)
  apart := by
    rw [GptHeader.slotOffsets, List.pairwise_map]
    refine List.Pairwise.imp_of_mem ?_ List.nodup_range
    intro i j hi hj hij
    exact GptHeader.slotOffset_apart hb (List.mem_range.mp hi) (List.mem_range.mp hj) hij

/-- The heads of the entries are slots of the array. -/
theorem slots_of_laid (hg : g.Laid) :
    Slots GptEntryHead.codec.width g.header.slotOffsets g.buf.length := by
  rw [hg.size, GptEntryHead.width_codec]
  exact slots_of_hold hg.heads

/-- Replacing the fields of an entry before its name is replacing the entry. -/
theorem update_entry (hg : g.Mapped) {i : UInt32} (hi : g.Index i)
    (f : GptEntryHead → GptEntryHead) : (g.update (gpt_entry_offset i g) f : Exec ε Gpt)
      = .ret (g.setEntry i ((g.entry i).withHead (f (g.entry i).head))) := by
  have hfit := gpt_entry_offset_fits hg hi
  have hslice := length_slice hfit
  rw [Gpt.update, hg.live]
  simp only
  rw [if_pos (by omega), Gpt.setEntry, Slots.modify, GptEntryHead.width_codec]
  congr 2
  -- the name is stored as it was loaded
  have hhead : (g.entry i).head
      = GptEntryHead.codec.dec (slice g.buf (gpt_entry_offset i g).toNat 56) := by
    rw [Gpt.entry, GptEntry.head_dec, slice, slice, List.take_take, Nat.min_eq_left (by decide)]
  have henc : GptEntry.codec.enc ((g.entry i).withHead (f (g.entry i).head))
      = GptEntryHead.codec.enc (f (g.entry i).head) ++ (u16.vector 36).enc (g.entry i).name :=
    GptEntry.enc_eq _
  rw [henc, enc_name hg hi, ← hhead]
  exact (splice_append_slice (by rw [GptEntryHead.codec.length_enc, GptEntryHead.width_codec])
    (by omega)).symm

/-- So does an update. -/
theorem update_ret {off : UInt32} {f : GptEntryHead → GptEntryHead}
    (h : (g.update off f : Exec ε Gpt) = .ret g') : g.Rewritten g' := by
  rw [Gpt.update] at h
  cases hentries : g.entries with
  | live buf =>
    have hbuf : g.buf = buf := by rw [Gpt.buf, hentries]
    rw [hentries] at h
    simp only at h
    split_ifs at h with hfit
    injection h with h
    refine ⟨_, h.symm, ?_⟩
    rw [hbuf]
    exact Slots.length_modify (by rw [GptEntryHead.width_codec]; exact hfit)
  | null =>
    rw [hentries] at h
    cases h
  | freed =>
    rw [hentries] at h
    cases h

/-- Going through the slots keeps the length of the array. -/
theorem for_each_slot_length {f : GptEntryHead → GptEntryHead}
    (h : (for_each_slot f g : Exec ε Gpt) = .ret g') : g'.buf.length = g.buf.length := by
  rw [for_each_slot] at h
  generalize List.range g.header.num_pentries.toNat = ks at h
  induction ks generalizing g with
  | nil =>
    injection h with h
    rw [h]
  | cons k ks ih =>
    rw [List.foldlM_cons] at h
    obtain ⟨g₁, hstep, h⟩ := Exec.bind_eq_ret.mp h
    exact (ih h).trans (update_ret hstep).length

/-- One step of the loop over the slots, on any array of the right length: the
slot is replaced if it lies inside, and the access faults if it does not. -/
theorem update_slot (f : GptEntryHead → GptEntryHead) (buf : List UInt8) {k : ℕ}
    (hk : k < g.header.num_pentries.toNat) :
    ((g.withBuf buf).update (g.header.pentry_size * UInt32.ofNat k) f : Exec ε Gpt) =
      if g.header.slotOffset k + 56 ≤ buf.length then
        .ret (g.withBuf (Slots.modify GptEntryHead.codec f buf (g.header.slotOffset k)))
      else .fault := by
  have hn := g.header.num_pentries.toNat_lt
  have hoff : (g.header.pentry_size * UInt32.ofNat k).toNat = g.header.slotOffset k := by
    rw [UInt32.toNat_mul, UInt32.toNat_ofNat', Nat.mod_eq_of_lt (show k < 2 ^ 32 by omega)]
    rfl
  simp only [Gpt.update, Gpt.withBuf, hoff]

/-- The loop over the slots replaces the fields of every entry by their images. -/
theorem for_each_slot_eq (hg : g.Laid) (f : GptEntryHead → GptEntryHead) :
    (for_each_slot f g : Exec ε Gpt)
      = .ret (g.withBuf (Slots.modifyAll GptEntryHead.codec f g.header.slotOffsets g.buf)) := by
  -- the loop from any table with this header, over any of the slots
  have hloop : ∀ (ks : List ℕ) (buf : List UInt8), buf.length = g.buf.length →
      (∀ k ∈ ks, k < g.header.num_pentries.toNat) →
      (ks.foldlM (fun (g : Gpt) i => g.update (g.header.pentry_size * UInt32.ofNat i) f)
          (g.withBuf buf) : Exec ε Gpt)
        = .ret (g.withBuf
            (Slots.modifyAll GptEntryHead.codec f (ks.map g.header.slotOffset) buf)) := by
    intro ks
    induction ks with
    | nil => intro buf _ _; rfl
    | cons k ks ih =>
      intro buf hlen hks
      have hk := hks k List.mem_cons_self
      have hfit := hg.heads k hk
      rw [← hg.size, ← hlen] at hfit
      have hfit' : g.header.slotOffset k + GptEntryHead.codec.width ≤ buf.length := by
        rw [GptEntryHead.width_codec]
        exact hfit
      rw [List.foldlM_cons]
      show ((g.withBuf buf).update (g.header.pentry_size * UInt32.ofNat k) f >>= _) = _
      rw [update_slot f buf hk, if_pos hfit, Exec.ret_bind,
        ih _ (by rw [Slots.length_modify hfit', hlen])
          fun k' hk' => hks k' (List.mem_cons_of_mem _ hk'), List.map_cons]
      rfl
  have h := hloop (List.range g.header.num_pentries.toNat) g.buf rfl
    fun k hk => List.mem_range.mp hk
  rw [withBuf_of_live hg.live] at h
  exact h

/-- Replacing the fields of every entry by their images keeps the invariant. -/
theorem modifyAll_laid (hg : g.Laid) (f : GptEntryHead → GptEntryHead) :
    (g.withBuf (Slots.modifyAll GptEntryHead.codec f g.header.slotOffsets g.buf)).Laid where
  live := rfl
  size := (Slots.length_modifyAll (slots_of_laid hg)).trans hg.size
  heads := hg.heads

/-- If the fields of some entry reach past the allocation, the loop over the slots faults. -/
theorem for_each_slot_fault (hlive : g.entries = .live g.buf)
    (hsize : g.buf.length = g.header.entries_size.toNat) (hout : ¬ g.header.Hold 56)
    (f : GptEntryHead → GptEntryHead) : (for_each_slot f g : Exec ε Gpt) = .fault := by
  -- the loop runs up to the first slot that does not fit
  have hloop : ∀ (ks : List ℕ) (buf : List UInt8), buf.length = g.buf.length →
      (∀ k ∈ ks, k < g.header.num_pentries.toNat) →
      (∃ k ∈ ks, ¬ g.header.slotOffset k + 56 ≤ g.buf.length) →
      (ks.foldlM (fun (g : Gpt) i => g.update (g.header.pentry_size * UInt32.ofNat i) f)
          (g.withBuf buf) : Exec ε Gpt) = .fault := by
    intro ks
    induction ks with
    | nil => rintro buf _ _ ⟨k, hk, _⟩; cases hk
    | cons k ks ih =>
      rintro buf hlen hks ⟨k', hk', hbad⟩
      rw [List.foldlM_cons]
      show ((g.withBuf buf).update (g.header.pentry_size * UInt32.ofNat k) f >>= _) = _
      rw [update_slot f buf (hks k List.mem_cons_self)]
      by_cases hfit : g.header.slotOffset k + 56 ≤ buf.length
      · have hfit' : g.header.slotOffset k + GptEntryHead.codec.width ≤ buf.length := by
          rw [GptEntryHead.width_codec]
          exact hfit
        rw [if_pos hfit, Exec.ret_bind]
        refine ih _ (by rw [Slots.length_modify hfit', hlen])
          (fun k' hk' => hks k' (List.mem_cons_of_mem _ hk')) ⟨k', ?_, hbad⟩
        rcases List.mem_cons.mp hk' with rfl | hmem
        · rw [hlen] at hfit
          exact absurd hfit hbad
        · exact hmem
      · rw [if_neg hfit, Exec.fault_bind]
  have hbad : ∃ k ∈ List.range g.header.num_pentries.toNat,
      ¬ g.header.slotOffset k + 56 ≤ g.buf.length := by
    rw [hsize]
    simp only [GptHeader.Hold, not_forall] at hout
    obtain ⟨k, hk, hno⟩ := hout
    exact ⟨k, List.mem_range.mpr hk, hno⟩
  have h := hloop (List.range g.header.num_pentries.toNat) g.buf rfl
    (fun k hk => List.mem_range.mp hk) hbad
  rw [withBuf_of_live hlive] at h
  exact h

/-- Byte-swapping the fields twice gives them back. -/
theorem entry_bytes_to_host_to_le (e : GptEntryHead) :
    entry_bytes_to_host (entry_bytes_to_le e) = e := by
  simp only [entry_bytes_to_host, entry_bytes_to_le, gpt_guid_bytes_to_host, gpt_guid_bytes_to_le,
    htole16, htole32, htole64, letoh16_letoh16, letoh32_letoh32, letoh64_letoh64]

end Updates

end Iago
