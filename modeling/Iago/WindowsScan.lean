/-
The Windows installation the scan of the disks publishes.

`check_for_ptn` finds the first entry in use that is Microsoft-reserved, and the scan takes
the data partition to be the next entry, `ptn_index + 1`. The bound in `partitioner_prepare`
is on `ptn_index`; the entry behind it is reached with `gpt_entry_offset`, which checks
nothing, and in `get_ntfs_min_size` with `gpt_entry_get`, whose `NULL` is not looked at.
-/
import Iago.FreeSpace
import Iago.Partitioner
import Mathlib.Data.Finset.Card
import Mathlib.Data.Finset.Range
import Mathlib.Data.Int.ModEq

set_option autoImplicit false

namespace Iago

section Find

variable {ε : Type} [Platform] {g : Gpt}

/-! ## The first entry of a type -/

/-- The index of the first entry in use that has the type. -/
def Gpt.firstOf (g : Gpt) (guid : Guid) : Option UInt32 :=
  (g.inUse.find? fun p => guid = p.2.type_guid).map Prod.fst

/-- The first entry of a type is in use, and has the type. -/
theorem firstOf_spec {guid : Guid} {i : UInt32} (h : g.firstOf guid = some i) :
    g.InUse i ∧ guid = (g.entry i).type_guid := by
  obtain ⟨⟨j, e⟩, hfind, rfl⟩ := Option.map_eq_some_iff.mp h
  have hmem := mem_inUse.mp (List.mem_of_find?_eq_some hfind)
  have htype : guid = e.type_guid := by simpa using List.find?_some hfind
  rw [hmem.2] at htype
  exact ⟨hmem.1, htype⟩

/-- `check_for_ptn` finds it, or returns -1. -/
theorem check_for_ptn_eq (hg : g.Mapped) (guid : Guid) :
    (check_for_ptn g guid : Exec ε Int32) =
      .ret (((g.firstOf guid).map UInt32.toInt32).getD (-1)) := by
  have hloop : ∀ ps : List (UInt32 × GptEntry),
      (forEach (fun p (_ : Unit) =>
        if guid = p.2.type_guid then .ret (.inr p.1.toInt32) else .ret (.inl ())) ps () :
          Exec ε (Unit ⊕ Int32)) =
        .ret (((ps.find? fun p => guid = p.2.type_guid).map fun p => Sum.inr p.1.toInt32).getD
          (Sum.inl ())) := by
    intro ps
    induction ps with
    | nil => rfl
    | cons p ps ih =>
      rw [forEach_cons]
      by_cases htype : guid = p.2.type_guid
      · rw [if_pos htype, List.find?_cons_of_pos (by simpa using htype)]
        rfl
      · rw [if_neg htype, List.find?_cons_of_neg (by simpa using htype)]
        exact ih
  rw [check_for_ptn, partition_for_each_const hg.readable, hloop, Exec.ret_bind, Gpt.firstOf]
  cases g.inUse.find? fun p => guid = p.2.type_guid <;> rfl

omit [Platform] in
/-- Slots of 128 bytes that do not overlap, in an array of less than 2^32 bytes. -/
theorem num_pentries_le {h : GptHeader} (hin : h.InBounds) : h.num_pentries.toNat ≤ 2 ^ 25 := by
  have hmaps : ∀ k ∈ Finset.range h.num_pentries.toNat,
      h.slotOffset k / 128 ∈ Finset.range (2 ^ 25) := by
    intro k hk
    have hfit := hin k (Finset.mem_range.mp hk)
    have hsize := h.entries_size.toNat_lt
    rw [Finset.mem_range]
    omega
  have hinj : Set.InjOn (fun k => h.slotOffset k / 128) (Finset.range h.num_pentries.toNat) := by
    intro a ha b hb hab
    by_contra hne
    have hapart := GptHeader.slotOffset_apart hin (Finset.mem_range.mp ha)
      (Finset.mem_range.mp hb) hne
    simp only at hab
    omega
  have hcard := Finset.card_le_card_of_injOn _ hmaps hinj
  rwa [Finset.card_range, Finset.card_range] at hcard

omit [Platform] in
/-- So an index and the one after it are the same number as an `int`. -/
theorem toInt32_index (hg : g.Mapped) {i : UInt32} (hi : g.Index i) :
    0 < i.toInt32 ∧ i.toInt32.toUInt32 = i ∧ i.toInt32.toInt = i.toNat ∧
      (i.toInt32 + 1).toUInt32 = i + 1 ∧ (i.toInt32 + 1).toInt = (i.toNat + 1 : ℕ) := by
  have hle := num_pentries_le hg.inBounds
  have hidx := index_toNat hi
  have hint : i.toInt32.toInt = i.toNat := by
    show i.toBitVec.toInt = i.toNat
    rw [BitVec.toInt_eq_toNat_of_lt]
    · rfl
    · show 2 * i.toNat < 2 ^ 32
      omega
  have hsucc : (i.toInt32 + 1).toInt = (i.toNat + 1 : ℕ) := by
    rw [Int32.toInt_add, hint]
    show ((i.toNat : ℤ) + 1).bmod (2 ^ 32) = _
    rw [Int.bmod_eq_of_le] <;> omega
  refine ⟨?_, rfl, hint, rfl, hsucc⟩
  rw [Int32.lt_iff_toInt_lt, hint]
  show (0 : ℤ) < i.toNat
  omega

end Find

/-! ## What is published -/

section Publish

variable [Platform]

/-- What `publish_windows` does before it asks `ntfsresize`: the index taken for the data
partition, if there is a reserved one. -/
def publish_msdata (d_name : CStr) (g : Gpt) (opts : Hashmap) :
    Exec Die (Hashmap × Option UInt32) := do
  let ptn_index ← check_for_ptn g (get_guid_type .PART_MS_RESERVED)
  if 0 < ptn_index ∧ ptn_index.toUInt32 ≤ g.header.num_pentries then do
    let ms_data_idx := (ptn_index + 1).toUInt32
    let e ← g.load (gpt_entry_offset ms_data_idx g)
    let size := gpt_entry_get_size g e
    let opts := xhashmapPut opts (disk_key d_name "msdata_index") (decInt (ptn_index + 1).toInt)
    .ret (xhashmapPut opts (disk_key d_name "msdata_size") (dec size.toNat), some ms_data_idx)
  else .ret (opts, none)

/-- And what it does with the answer of `get_ntfs_min_size`. -/
def publish_minsize (m : Machine) (interactive : Bool) (d_name : CStr) (g : Gpt) (opts : Hashmap)
    (ms_data_idx : UInt32) : Exec Die Hashmap :=
  if interactive then do
    let ret ← get_ntfs_min_size m ms_data_idx g
    if ret = -22 ∨ ret = -5 ∨ ret = -30 then .ret opts
    else .ret (xhashmapPut opts (disk_key d_name "msdata_minsize") (dec ret.toUInt64.toNat))
  else .ret opts

variable {m : Machine} {interactive : Bool} {d_name : CStr} {g : Gpt} {opts : Hashmap}

/-- The scan for Windows is one for its index, and one for its size. -/
theorem publish_windows_eq :
    publish_windows m interactive d_name g opts =
      (publish_msdata d_name g opts).bind fun r =>
        match r.2 with
        | none => .ret r.1
        | some ms_data_idx => publish_minsize m interactive d_name g r.1 ms_data_idx := by
  rw [publish_windows, publish_msdata]
  cases check_for_ptn (ε := Die) g (get_guid_type .PART_MS_RESERVED) with
  | ret ptn_index =>
    simp only [Exec.ret_bind]
    split
    · cases g.load (ε := Die) (gpt_entry_offset (ptn_index + 1).toUInt32 g) <;> rfl
    · rfl
  | die e => rfl
  | fault => rfl
  | hang => rfl

/-- Behind the last index there is no entry, and loading one leaves the array. -/
theorem load_behind_last (hg : g.Mapped) {i : UInt32} (hi : g.Index i) (hlast : ¬ g.Index (i + 1)) :
    (g.load (gpt_entry_offset (i + 1) g) : Exec Die GptEntry) = .fault := by
  have hle := num_pentries_le hg.inBounds
  have hidx := index_toNat hi
  have hsucc : (i + 1).toNat = i.toNat + 1 := by
    rw [UInt32.toNat_add, UInt32.toNat_one]
    omega
  have hnum : i = g.header.num_pentries := by
    by_contra hne
    refine hlast ⟨fun h0 => ?_, UInt32.le_iff_toNat_le.mpr ?_⟩
    · rw [h0] at hsucc
      cases hsucc
    · have hne' : i.toNat ≠ g.header.num_pentries.toNat := fun h => hne (UInt32.toNat_inj.mp h)
      omega
  have hoff : gpt_entry_offset (i + 1) g = g.header.entries_size := by
    rw [gpt_entry_offset, UInt32.add_sub_cancel, hnum, UInt32.mul_comm, GptHeader.entries_size]
  rw [hoff, Gpt.load, hg.live]
  simp only
  rw [if_neg]
  rw [hg.size]
  omega

/-- Its index is the one behind the reserved partition. -/
theorem publish_msdata_eq (hg : g.Mapped) :
    publish_msdata d_name g opts =
      match g.firstOf (get_guid_type .PART_MS_RESERVED) with
      | none => .ret (opts, none)
      | some i =>
        if g.Index (i + 1) then
          .ret (xhashmapPut (xhashmapPut opts (disk_key d_name "msdata_index") (dec (i + 1).toNat))
            (disk_key d_name "msdata_size")
            (dec (gpt_entry_get_size g (g.entry (i + 1))).toNat), some (i + 1))
        else .fault := by
  rw [publish_msdata, check_for_ptn_eq hg, Exec.ret_bind]
  cases hfirst : g.firstOf (get_guid_type .PART_MS_RESERVED) with
  | none =>
    have hneg : ¬ (0 : Int32) < -1 := by decide
    exact if_neg fun h => hneg h.1
  | some i =>
    have hi := (firstOf_spec hfirst).1.1
    obtain ⟨hpos, hback, -, hsucc, hint⟩ := toInt32_index hg hi
    simp only [Option.map_some, Option.getD_some, hback, hsucc, hint]
    rw [if_pos ⟨hpos, hi.2⟩]
    by_cases hnext : g.Index (i + 1)
    -- The index is printed as an `int` and read back as an unsigned number; it is small.
    · have hdec : decInt ((i.toNat + 1 : ℕ) : ℤ) = dec (i + 1).toNat := by
        have hle := index_toNat hnext
        have hadd : (i + 1).toNat = i.toNat + 1 := by
          rw [UInt32.toNat_add, UInt32.toNat_one] at hle ⊢
          have hnum := num_pentries_le hg.inBounds
          have hi' := index_toNat hi
          omega
        rw [hadd]
        rfl
      rw [load_entry_of_readable hg.readable hnext, Exec.ret_bind, if_pos hnext, hdec]
    · rw [load_behind_last hg hi hnext, if_neg hnext, Exec.fault_bind]

omit [Platform] in
/-- A disk with a name has device nodes. -/
theorem gpt_get_device_node_ne_fault (hdevice : g.device ≠ []) (i : UInt32) :
    ∃ node, (gpt_get_device_node i g : Exec Die CStr) = .ret node := by
  rw [gpt_get_device_node]
  cases hlast : g.device.getLast? with
  | none => exact absurd (List.getLast?_eq_none_iff.mp hlast) hdevice
  | some c =>
    simp only
    split
    · exact ⟨_, rfl⟩
    · exact ⟨_, rfl⟩

omit [Platform] in
/-- Reading a number does not fault. -/
theorem xatoll_ne_fault (nptr : CStr) : xatoll nptr ≠ .fault := by
  intro h
  rw [xatoll, xato] at h
  split at h
  · cases h
  · split at h
    · cases h
    · cases h

/-- `ntfsresize` is asked about an entry of the table, and nothing faults. -/
theorem get_ntfs_min_size_ne_fault (hg : g.Mapped) (hdevice : g.device ≠ []) {i : UInt32}
    (hi : g.Index i) : get_ntfs_min_size m i g ≠ .fault := by
  intro h
  obtain ⟨node, hnode⟩ := gpt_get_device_node_ne_fault hdevice i
  rw [get_ntfs_min_size, gpt_entry_get_of_index hi] at h
  simp only [load_entry_of_readable hg.readable hi, Exec.ret_bind, hnode] at h
  split at h
  · cases h
  · split at h
    · cases h
    · split at h
      · cases h
      · split at h
        · cases h
        · exact xatoll_ne_fault _ h

/-- Nor does looking for the smallest size of an entry of the table. -/
theorem publish_minsize_ne_fault (hg : g.Mapped) (hdevice : g.device ≠ []) {i : UInt32}
    (hi : g.Index i) : publish_minsize m interactive d_name g opts i ≠ .fault := by
  intro h
  have hmin := get_ntfs_min_size_ne_fault (m := m) hg hdevice hi
  rw [publish_minsize] at h
  split at h
  · cases hret : get_ntfs_min_size m i g with
    | ret ret =>
      rw [hret, Exec.ret_bind] at h
      split at h
      · cases h
      · cases h
    | die e =>
      rw [hret] at h
      cases h
    | fault => exact hmin hret
    | hang =>
      rw [hret] at h
      cases h
  · cases h

/-! ## Real entries -/

/-- The bytes of an entry, from `first_lba` to `last_lba`. -/
def byte_size (g : Gpt) (e : GptEntry) : ℤ :=
  ((e.last_lba.toNat : ℤ) + 1 - e.first_lba.toNat) * g.lba_size.toNat

omit [Platform] in
/-- The size of an entry, in 64 bits. -/
theorem gpt_entry_get_size_toNat (g : Gpt) (e : GptEntry) :
    ((gpt_entry_get_size g e).toNat : ℤ) = byte_size g e % 2 ^ 64 := by
  have hspan : (((e.last_lba + 1) - e.first_lba).toNat : ℤ) ≡
      (e.last_lba.toNat : ℤ) + 1 - e.first_lba.toNat [ZMOD 2 ^ 64] := by
    have hlast := e.last_lba.toNat_lt
    have hfirst := e.first_lba.toNat_lt
    rw [Int.ModEq, UInt64.toNat_sub, UInt64.toNat_add, UInt64.toNat_one]
    omega
  rw [gpt_entry_get_size, UInt64.toNat_mul, UInt32.toNat_toUInt64, byte_size, Int.natCast_mod,
    Nat.cast_mul]
  exact hspan.mul_right _

omit [Platform] in
/-- It is exact if the size is not negative and fits. -/
theorem gpt_entry_get_size_iff (g : Gpt) (e : GptEntry) :
    ((gpt_entry_get_size g e).toNat : ℤ) = byte_size g e ↔
      0 ≤ byte_size g e ∧ byte_size g e < 2 ^ 64 := by
  rw [gpt_entry_get_size_toNat]
  omega

/-- The scan of a table stays among its entries, and what it publishes is the index of an
entry in use and the size of that entry. -/
structure ScansRealEntries (m : Machine) (interactive : Bool) (d_name : CStr) (g : Gpt)
    (opts : Hashmap) : Prop where
  in_range : publish_windows m interactive d_name g opts ≠ .fault
  real : ∀ opts' i, publish_msdata d_name g opts = .ret (opts', some i) →
    g.InUse i ∧ opts' (disk_key d_name "msdata_index") = some (dec i.toNat) ∧
      ∃ size : ℕ, opts' (disk_key d_name "msdata_size") = some (dec size) ∧
        (size : ℤ) = byte_size g (g.entry i)
  nothing : ∀ opts', publish_msdata d_name g opts = .ret (opts', none) → opts' = opts

/-- The entry behind the first reserved one is in use, and its size is a `uint64_t`. -/
def NextIsReal (g : Gpt) : Prop :=
  ∀ i, g.firstOf (get_guid_type .PART_MS_RESERVED) = some i →
    g.InUse (i + 1) ∧ 0 ≤ byte_size g (g.entry (i + 1)) ∧ byte_size g (g.entry (i + 1)) < 2 ^ 64

/-- **The scan uses real entries exactly if the entry behind the first reserved one is real.** -/
theorem windows_scan_iff (hg : g.Mapped) (hdevice : g.device = cstr "/dev/block/" ++ d_name) :
    ScansRealEntries m interactive d_name g opts ↔ NextIsReal g := by
  have hdev : g.device ≠ [] := by
    rw [hdevice]
    exact List.cons_ne_nil _ _
  have hkeys : disk_key d_name "msdata_index" ≠ disk_key d_name "msdata_size" := by
    intro heq
    have hfield := (disk_key_inj (by decide) (by decide) heq).2
    revert hfield
    decide
  have hscan : publish_msdata d_name g opts = _ := publish_msdata_eq hg
  constructor
  · intro hreal i hfirst
    rw [hfirst] at hscan
    simp only at hscan
    -- The scan takes i + 1 unseen: what it publishes shows whether there is such an entry.
    by_cases hnext : g.Index (i + 1)
    · rw [if_pos hnext] at hscan
      obtain ⟨hin, -, size, hsize, htrue⟩ := hreal.real _ _ hscan
      rw [xhashmapPut_self] at hsize
      injection hsize with hsize
      rw [← dec_injective hsize] at htrue
      exact ⟨hin, (gpt_entry_get_size_iff g _).mp htrue⟩
    · rw [if_neg hnext] at hscan
      -- There is no slot i + 1: the scan reads outside the array.
      refine absurd ?_ hreal.in_range
      rw [publish_windows_eq, hscan]
      rfl
  · intro hnext
    cases hfirst : g.firstOf (get_guid_type .PART_MS_RESERVED) with
    | none =>
      rw [hfirst] at hscan
      simp only at hscan
      constructor
      · rw [publish_windows_eq, hscan]
        exact fun h => by cases h
      · intro opts' i h
        rw [hscan] at h
        cases h
      · intro opts' h
        rw [hscan] at h
        injection h with h
        injection h with h _
        exact h.symm
    | some i =>
      obtain ⟨hin, hfits⟩ := hnext i hfirst
      rw [hfirst] at hscan
      simp only at hscan
      rw [if_pos hin.1] at hscan
      constructor
      · rw [publish_windows_eq, hscan]
        exact publish_minsize_ne_fault hg hdev hin.1
      · intro opts' j h
        rw [hscan] at h
        injection h with h
        injection h with hopts hj
        injection hj with hj
        subst hj hopts
        refine ⟨hin, ?_, _, xhashmapPut_self, (gpt_entry_get_size_iff g _).mpr hfits⟩
        -- The size is put first, and the index behind it leaves it as it is.
        rw [xhashmapPut_of_ne hkeys, xhashmapPut_self]
      · intro opts' h
        rw [hscan] at h
        injection h with h
        injection h with _ h
        cases h

end Publish

/-! ## Two disks with a reserved partition only -/

section ReservedOnly

attribute [local instance] x86 insertionQsort

def sda : Gpt := { small_gpt with device := cstr "/dev/block/sda" }

def reserved_entry : GptEntry :=
  { region_entry 3 4 with type_guid := get_guid_type .PART_MS_RESERVED }

/-- A disk whose table starts with the reserved entry and `others`. -/
def reserved_disk (h : GptHeader) (others : List UInt8) : Dev :=
  (small_disk h).withData
    ((small_disk h).data.write 1024 (GptEntry.codec.enc reserved_entry ++ others))

def reserved_gpt (h : GptHeader) (others : List UInt8) : Gpt :=
  (sda.withHeader h).withBuf (GptEntry.codec.enc reserved_entry ++ others)

/-- A table of one slot, and one of two slots, the second of them free. -/
def full_header : GptHeader := small_header 1 900309262 1491756112

def gap_header : GptHeader := small_header 2 453182348 3325573318

def no_machine : Machine where
  gpt_init := none
  dev := small_disk zero_header
  reads := []
  command _ := 0
  command_output _ := (0, [])
  urandom _ := none

/-- The disk whose reserved partition is in the last slot. -/
theorem full_read : gpt_read (ε := Empty) (reserved_disk full_header []) (List.replicate 3 .all) sda =
    .ret (0, reserved_gpt full_header [], []) := by
  decide +kernel

theorem gap_read : gpt_read (ε := Empty) (reserved_disk gap_header (List.replicate 128 0))
    (List.replicate 3 .all) sda = .ret (0, reserved_gpt gap_header (List.replicate 128 0), []) := by
  decide +kernel

theorem full_mapped : (reserved_gpt full_header []).Mapped :=
  (Gpt.Obtained.read full_read).sound.toLaid.mapped
    ((GptHeader.inBounds_iff (by decide)).mpr (.inr (by decide)))

theorem gap_mapped : (reserved_gpt gap_header (List.replicate 128 0)).Mapped :=
  (Gpt.Obtained.read gap_read).sound.toLaid.mapped
    ((GptHeader.inBounds_iff (by decide)).mpr (.inr (by decide)))

/-- With one slot the scan leaves the array; with a free one behind, it publishes that, as a
partition of one sector. -/
theorem reserved_scans_behind :
    (gpt_read (ε := Empty) (reserved_disk full_header []) (List.replicate 3 .all) sda =
        .ret (0, reserved_gpt full_header [], []) ∧
      ¬ ScansRealEntries no_machine false (cstr "sda") (reserved_gpt full_header []) fun _ => none) ∧
    (gpt_read (ε := Empty) (reserved_disk gap_header (List.replicate 128 0))
        (List.replicate 3 .all) sda = .ret (0, reserved_gpt gap_header (List.replicate 128 0), []) ∧
      ¬ ScansRealEntries no_machine false (cstr "sda")
        (reserved_gpt gap_header (List.replicate 128 0)) fun _ => none) := by
  refine ⟨⟨full_read, fun hreal => hreal.in_range ?_⟩, ⟨gap_read, fun hreal => ?_⟩⟩
  · have hfirst : (reserved_gpt full_header []).firstOf (get_guid_type .PART_MS_RESERVED) =
        some 1 := by
      decide +kernel
    rw [publish_windows_eq, publish_msdata_eq full_mapped, hfirst]
    rfl
  · have hfirst : (reserved_gpt gap_header (List.replicate 128 0)).firstOf
        (get_guid_type .PART_MS_RESERVED) = some 1 := by
      decide +kernel
    have hpublish : publish_msdata (cstr "sda") (reserved_gpt gap_header (List.replicate 128 0))
        (fun _ => none) = _ :=
      publish_msdata_eq gap_mapped
    rw [hfirst] at hpublish
    -- slot 2 is an index, and free
    refine (hreal.real _ 2 hpublish).1.2 ?_
    decide +kernel

/-- What the theorem says of the first. -/
theorem reserved_scan_iff :
    ScansRealEntries no_machine false (cstr "sda") (reserved_gpt full_header []) (fun _ => none) ↔
      NextIsReal (reserved_gpt full_header []) :=
  windows_scan_iff full_mapped rfl

end ReservedOnly

end Iago
