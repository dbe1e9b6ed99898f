/-
Every image in its own partition, where the 32 bits of the offset are enough.

The sectors of the committed table lie one behind the other (`areas_stretches`): sector 0,
the primary partitions, and each logical one behind its boot record. An image that stays
in the sectors of its partition therefore meets no other, and whether it stays there is a
matter of two numbers. The offset is the product of the start and the sector size in 32
bits, so it is the exact one for a start below 4 GiB and some earlier place otherwise, in
front of the partition it was meant for. And the length of the partition is made from the
size of the last file that was mapped to it, rounded up to KB and cut to 32 bits.

`images_land_iff` has both, for a layout whose starts are sector numbers of 32 bits.
-/
import Iago.LayoutTwice
import Iago.WriteImages

set_option autoImplicit false

namespace Iago

namespace EditDiskLbl

/-! ## The sectors the table records -/

/-- The sectors consecutive partitions are recorded with, and the `e` sectors of a boot record
in front of each. -/
def DiskInfo.areas (v : DiskInfo) (e : UInt32) : (part : ℕ) → List PartInfo → (lba : UInt32) →
    List (Option ℕ × ℕ × ℕ)
  | _, [], _ => []
  | part, p :: parts, lba =>
    (none, lba.toNat, e.toNat) :: (some part, (lba + e).toNat, (v.len_lba p (lba + e)).toNat) ::
      DiskInfo.areas v e (part + 1) parts (v.after e lba p)

/-- All the sectors that are in use: sector 0 and the boot records under `none`, partition `i`
under `some i`. -/
def DiskInfo.disk_areas (v : DiskInfo) : List (Option ℕ × ℕ × ℕ) :=
  (none, 0, 1) :: v.areas 0 0 v.primary v.skip_lba ++
    v.areas 1 v.primary.length v.logical v.ext_lba

/-- The exact first sector of a partition. -/
def DiskInfo.exact_start (v : DiskInfo) (part : ℕ) : ℕ :=
  if part < v.primary.length then v.skip_lba.toNat + v.needs 0 (v.primary.take part)
  else v.skip_lba.toNat + v.needs 0 v.primary +
    v.needs 1 (v.logical.take (part - v.primary.length)) + 1

/-- Every partition starts below sector `2 ^ 32`. -/
def DiskInfo.StartsBelow (v : DiskInfo) : Prop := ∀ part < v.num_parts, v.exact_start part < 2 ^ 32

section Areas

variable {v : DiskInfo} {e lba : UInt32} {parts : List PartInfo}

/-- An area is that of one of the partitions. -/
theorem part_of_mem_areas {i k : ℕ} {r : ℕ × ℕ} (h : (some i, r) ∈ v.areas e k parts lba) :
    k ≤ i ∧ i < k + parts.length := by
  induction parts generalizing k lba with
  | nil => cases h
  | cons p parts ih =>
    rw [DiskInfo.areas, List.mem_cons, List.mem_cons] at h
    rw [List.length_cons]
    rcases h with h | h | h
    · cases h
    · simp only [Prod.mk.injEq, Option.some.injEq] at h
      omega
    · have := ih h
      omega

/-- Consecutive partitions start below sector `2 ^ 32`. -/
def Below (v : DiskInfo) (e : UInt32) (parts : List PartInfo) (lba : UInt32) : Prop :=
  ∀ i < parts.length, lba.toNat + v.needs e.toNat (parts.take i) + e.toNat < 2 ^ 32

/-- A step of the running LBA, as long as there is another partition. -/
theorem Below.step (hsect : v.PowerOfTwo) {p : PartInfo} (hlast : FillLast (p :: parts))
    (h : Below v e (p :: parts) lba) :
    (lba + e).toNat = lba.toNat + e.toNat ∧ Below v e parts (v.after e lba p) ∧
      (parts ≠ [] → p.len_kb ≠ FILL ∧ (v.len_lba p (lba + e)).toNat = v.exact p ∧
        (v.after e lba p).toNat = lba.toNat + e.toNat + v.exact p) := by
  have hfirst := h 0 (Nat.succ_pos _)
  rw [List.take_zero, DiskInfo.needs_nil, Nat.add_zero] at hfirst
  have hrest : parts ≠ [] → p.len_kb ≠ FILL ∧ (v.len_lba p (lba + e)).toNat = v.exact p ∧
      (v.after e lba p).toNat = lba.toNat + e.toNat + v.exact p := by
    intro hne
    have hsized : p.len_kb ≠ FILL := fun hfill => hne (hlast.head hfill)
    have hpos := List.length_pos_of_ne_nil hne
    -- The next partition starts below 2^32, so this one's length has not wrapped.
    have hsecond := h 1 (by rw [List.length_cons]; omega)
    rw [List.take_succ_cons, List.take_zero, DiskInfo.needs_cons, DiskInfo.needs_nil,
      needed_of_sized hsized] at hsecond
    obtain ⟨-, hlen, hafter⟩ := toNat_after hsect hsized (show
      lba.toNat + (e.toNat + v.exact p) < 2 ^ 32 by omega)
    exact ⟨hsized, hlen, by rw [hafter, Nat.add_assoc]⟩
  refine ⟨toNat_add_of_lt hfirst, fun i hi => ?_, hrest⟩
  have hne : parts ≠ [] := by
    rintro rfl
    exact absurd hi (Nat.not_lt_zero i)
  obtain ⟨hsized, -, hafter⟩ := hrest hne
  have hi' := h (i + 1) (by rw [List.length_cons]; omega)
  rw [List.take_succ_cons, DiskInfo.needs_cons, needed_of_sized hsized] at hi'
  omega

/-- They lie one behind the other. -/
theorem areas_stretches (hsect : v.PowerOfTwo) (hlast : FillLast parts)
    (hbelow : Below v e parts lba) (k : ℕ) :
    ∃ hi, Stretches lba.toNat hi ((v.areas e k parts lba).map Prod.snd) ∧
      (Sized parts → lba.toNat + v.needs e.toNat parts < 2 ^ 32 →
        hi = (v.end_lba e parts lba).toNat) := by
  induction parts generalizing lba k with
  | nil => exact ⟨lba.toNat, Nat.le_refl _, fun _ _ => rfl⟩
  | cons p parts ih =>
    obtain ⟨hstart, hbelow', hstep⟩ := hbelow.step hsect hlast
    obtain ⟨hi, hrest, hend⟩ := ih hlast.tail hbelow' (k + 1)
    rw [DiskInfo.areas, List.map_cons, List.map_cons, DiskInfo.end_lba]
    -- The last one may fill, so nothing is said of where it ends unless all are sized.
    by_cases hne : parts = []
    · subst hne
      refine ⟨(lba + e).toNat + (v.len_lba p (lba + e)).toNat,
        ⟨Nat.le_refl _, Nat.le_of_eq hstart.symm, Nat.le_refl _⟩, fun hsized hsum => ?_⟩
      rw [DiskInfo.needs_cons, DiskInfo.needs_nil, needed_of_sized hsized.head] at hsum
      obtain ⟨-, hlen, hafter⟩ := toNat_after hsect hsized.head (show
        lba.toNat + (e.toNat + v.exact p) < 2 ^ 32 by omega)
      rw [DiskInfo.end_lba, hafter, hlen, hstart, Nat.add_assoc]
    · obtain ⟨hsized, hlen, hafter⟩ := hstep hne
      refine ⟨hi, ⟨Nat.le_refl _, Nat.le_of_eq hstart.symm, hrest.mono ?_ (Nat.le_refl _)⟩,
        fun hall hsum => hend hall.tail ?_⟩
      · simp only
        omega
      · rw [DiskInfo.needs_cons, needed_of_sized hsized] at hsum
        omega

/-- A partition is recorded once, where it has been placed, and that is where the exact sum
says. -/
theorem area_of_part (hsect : v.PowerOfTwo) (hlast : FillLast parts)
    (hbelow : Below v e parts lba) {i : ℕ} {p : PartInfo} (hp : parts[i]? = some p) (k : ℕ) :
    ∃ lba', (v.place e parts lba)[i]? = some (v.placed e lba' p) ∧
      (lba' + e).toNat = lba.toNat + v.needs e.toNat (parts.take i) + e.toNat ∧
      ∀ r, (some (k + i), r) ∈ v.areas e k parts lba ↔
        r = ((lba' + e).toNat, (v.len_lba p (lba' + e)).toNat) := by
  induction parts generalizing lba i k with
  | nil => cases hp
  | cons q parts ih =>
    obtain ⟨hstart, hbelow', hstep⟩ := hbelow.step hsect hlast
    cases i with
    | zero =>
      rw [List.getElem?_cons_zero, Option.some.injEq] at hp
      subst hp
      refine ⟨lba, rfl, hstart, fun r => ?_⟩
      rw [DiskInfo.areas, List.mem_cons, List.mem_cons]
      constructor
      · rintro (h | h | h)
        · cases h
        · simp only [Prod.mk.injEq] at h
          exact h.2
        -- The areas behind it belong to partitions with a higher number.
        · have := (part_of_mem_areas h).1
          omega
      · rintro rfl
        exact .inr (.inl rfl)
    | succ i =>
      rw [List.getElem?_cons_succ] at hp
      have hne : parts ≠ [] := by
        rintro rfl
        cases hp
      obtain ⟨hsized, -, hafter⟩ := hstep hne
      obtain ⟨lba', hplace, hexact, hiff⟩ := ih hlast.tail hbelow' hp (k + 1)
      refine ⟨lba', by rwa [DiskInfo.place, List.getElem?_cons_succ], ?_, fun r => ?_⟩
      · rw [hexact, List.take_succ_cons, DiskInfo.needs_cons, needed_of_sized hsized, hafter]
        omega
      · rw [← hiff r, DiskInfo.areas, List.mem_cons, List.mem_cons,
          show k + (i + 1) = k + 1 + i by omega]
        constructor
        · rintro (h | h | h)
          · cases h
          · simp only [Prod.mk.injEq, Option.some.injEq] at h
            omega
          · exact h
        · exact fun h => .inr (.inr h)

end Areas

/-! ## The layout as a whole -/

section Layout

variable {v : DiskInfo}

theorem length_logical (v : DiskInfo) : v.primary.length + v.logical.length = v.num_parts := by
  rw [← List.length_append, primary_append_logical]
  rfl

/-- A partition that fills the disk is the last of the list. -/
theorem fillLast_primary_logical (hlast : FillLast v.part_lst) :
    FillLast v.primary ∧ FillLast v.logical ∧ (v.logical ≠ [] → Sized v.primary) := by
  rw [← primary_append_logical v] at hlast
  exact ⟨hlast.of_append.1, hlast.of_append.2, sized_of_fillLast hlast⟩

/-- The extended partition starts at the exact sum. -/
theorem DiskInfo.StartsBelow.ext (hbelow : v.StartsBelow) (hsect : v.PowerOfTwo)
    (hlast : FillLast v.part_lst) (hne : v.logical ≠ []) :
    v.ext_lba.toNat = v.skip_lba.toNat + v.needs 0 v.primary ∧
      v.skip_lba.toNat + v.needs 0 v.primary + 1 < 2 ^ 32 := by
  have hsized := (fillLast_primary_logical hlast).2.2 hne
  have hpos := List.length_pos_of_ne_nil hne
  have hlength := length_logical v
  have hfirst := hbelow v.primary.length (by omega)
  rw [DiskInfo.exact_start, if_neg (Nat.lt_irrefl _), Nat.sub_self, List.take_zero,
    DiskInfo.needs_nil] at hfirst
  refine ⟨?_, hfirst⟩
  rw [needs_of_sized hsized] at hfirst ⊢
  exact toNat_end_lba hsect hsized (show v.skip_lba.toNat + v.total (0 : UInt32).toNat v.primary
    < 2 ^ 32 by rw [UInt32.toNat_zero]; omega)

/-- The primary partitions start on the disk. -/
theorem DiskInfo.StartsBelow.primary (hbelow : v.StartsBelow) : Below v 0 v.primary v.skip_lba := by
  intro i hi
  have hlength := length_logical v
  have hstart := hbelow i (by omega)
  rw [DiskInfo.exact_start, if_pos hi] at hstart
  rw [UInt32.toNat_zero]
  exact hstart

theorem DiskInfo.StartsBelow.logical (hbelow : v.StartsBelow) (hsect : v.PowerOfTwo)
    (hlast : FillLast v.part_lst) : Below v 1 v.logical v.ext_lba := by
  intro i hi
  have hne : v.logical ≠ [] := List.ne_nil_of_length_pos (by omega)
  have hlength := length_logical v
  have hstart := hbelow (v.primary.length + i) (by omega)
  rw [DiskInfo.exact_start, if_neg (by omega), Nat.add_sub_cancel_left] at hstart
  rw [(hbelow.ext hsect hlast hne).1, UInt32.toNat_one]
  exact hstart

/-- No two of the sectors in use overlap, unless they are those of the same partition. -/
theorem disk_areas_pairwise (hsect : v.PowerOfTwo) (hlast : FillLast v.part_lst)
    (hskip : v.skip_lba ≠ 0) (hbelow : v.StartsBelow) :
    v.disk_areas.Pairwise fun a b => a.2.1 + a.2.2 ≤ b.2.1 := by
  obtain ⟨hpri, hlog, hsized⟩ := fillLast_primary_logical hlast
  obtain ⟨hi, hprimary, hend⟩ := areas_stretches hsect hpri hbelow.primary 0
  obtain ⟨hi', hlogical, -⟩ := areas_stretches hsect hlog
    (hbelow.logical hsect hlast) v.primary.length
  have hpos : 1 ≤ v.skip_lba.toNat := by
    rw [Nat.one_le_iff_ne_zero, ne_eq, ← UInt32.toNat_zero, UInt32.toNat_inj]
    exact hskip
  have hfirst : Stretches 0 hi ((0, 1) :: (v.areas 0 0 v.primary v.skip_lba).map Prod.snd) :=
    ⟨Nat.le_refl 0, hprimary.mono hpos (Nat.le_refl _)⟩
  have hall : ∃ top, Stretches 0 top (v.disk_areas.map Prod.snd) := by
    rw [DiskInfo.disk_areas, List.map_append, List.map_cons]
    by_cases hne : v.logical = []
    · refine ⟨hi, ?_⟩
      rw [hne, DiskInfo.areas, List.map_nil, List.append_nil]
      exact hfirst
    · obtain ⟨hext, hlt⟩ := hbelow.ext hsect hlast hne
      have hmeet : hi = v.ext_lba.toNat := hend (hsized hne) (by rw [UInt32.toNat_zero]; omega)
      rw [hmeet] at hfirst
      exact ⟨hi', hfirst.append hlogical⟩
  obtain ⟨top, hstretches⟩ := hall
  exact List.pairwise_map.mp hstretches.pairwise

/-- Sectors that do not meet. -/
def Apart (a b : Option ℕ × ℕ × ℕ) : Prop := a.2.1 + a.2.2 ≤ b.2.1 ∨ b.2.1 + b.2.2 ≤ a.2.1

instance : Std.Symm Apart := ⟨fun _ _ => Or.symm⟩

/-- The sectors of a partition are apart from all others in use. -/
theorem disk_areas_apart (hsect : v.PowerOfTwo) (hlast : FillLast v.part_lst)
    (hskip : v.skip_lba ≠ 0) (hbelow : v.StartsBelow) {a b : Option ℕ × ℕ × ℕ}
    (ha : a ∈ v.disk_areas) (hb : b ∈ v.disk_areas) (hne : a.1 ≠ b.1) : Apart a b := by
  have hpairwise : v.disk_areas.Pairwise Apart :=
    (disk_areas_pairwise hsect hlast hskip hbelow).imp .inl
  exact hpairwise.forall ha hb fun heq => hne (congrArg Prod.fst heq)

/-- Where partition `part` is recorded, and how it is left. -/
theorem disk_area_of_part (hsect : v.PowerOfTwo) (hlast : FillLast v.part_lst)
    (hbelow : v.StartsBelow) {part : ℕ} {p : PartInfo} (hp : v.part_lst[part]? = some p) :
    ∃ q, v.parts[part]? = some q ∧ q.start_lba.toNat = v.exact_start part ∧
      q.len_kb = (if part < v.primary.length then p.len_kb else v.recorded_kb p q.start_lba) ∧
      ∀ r, (some part, r) ∈ v.disk_areas ↔
        r = (q.start_lba.toNat, (v.len_lba p q.start_lba).toNat) := by
  obtain ⟨hpri, hlog, -⟩ := fillLast_primary_logical hlast
  rw [← primary_append_logical v] at hp
  have hmem : ∀ r, (some part, r) ∈ v.disk_areas ↔
      (some part, r) ∈ v.areas 0 0 v.primary v.skip_lba ∨
        (some part, r) ∈ v.areas 1 v.primary.length v.logical v.ext_lba := by
    intro r
    rw [DiskInfo.disk_areas, List.mem_append, List.mem_cons]
    constructor
    · rintro ((h | h) | h)
      · cases h
      · exact .inl h
      · exact .inr h
    · rintro (h | h)
      · exact .inl (.inr h)
      · exact .inr h
  -- The primary partitions come first in the list, and the logical ones are counted on from them.
  by_cases hpart : part < v.primary.length
  · rw [List.getElem?_append_left hpart] at hp
    obtain ⟨lba, hplace, hexact, hiff⟩ := area_of_part hsect hpri hbelow.primary hp 0
    refine ⟨v.placed 0 lba p, ?_, ?_, ?_, fun r => ?_⟩
    · rw [DiskInfo.parts, List.getElem?_append_left (by rwa [length_place])]
      exact hplace
    · rw [DiskInfo.exact_start, if_pos hpart]
      exact hexact
    · rw [if_pos hpart]
      rfl
    · rw [hmem]
      have hiff' := hiff r
      rw [Nat.zero_add] at hiff'
      constructor
      · rintro (h | h)
        · exact hiff'.mp h
        · have := (part_of_mem_areas h).1
          omega
      · exact fun h => .inl (hiff'.mpr h)
  · rw [List.getElem?_append_right (by omega)] at hp
    obtain ⟨lba, hplace, hexact, hiff⟩ := area_of_part hsect hlog
      (hbelow.logical hsect hlast) hp v.primary.length
    -- With a logical partition there is an extended one that they lie in.
    have hne : v.logical ≠ [] := by
      intro hnil
      rw [hnil] at hp
      cases hp
    refine ⟨v.placed 1 lba p, ?_, ?_, ?_, fun r => ?_⟩
    · rw [DiskInfo.parts, List.getElem?_append_right (by rw [length_place]; omega), length_place]
      exact hplace
    · rw [DiskInfo.exact_start, if_neg hpart, ← (hbelow.ext hsect hlast hne).1]
      exact hexact
    · rw [if_neg hpart]
      rfl
    · rw [hmem]
      have hiff' := hiff r
      rw [Nat.add_sub_cancel' (by omega)] at hiff'
      constructor
      · rintro (h | h)
        · have := (part_of_mem_areas h).2
          omega
        · exact hiff'.mp h
      · exact fun h => .inr (hiff'.mpr h)

end Layout

/-! ## The two passes -/

section Passes

variable {v : DiskInfo} {dev : Device}

/-- What is needed of placed partitions is what was needed of them before, if they have sizes. -/
theorem needs_place {parts : List PartInfo} {e lba : UInt32} (e' : ℕ) {n : ℕ}
    (hsized : Sized (parts.take n)) :
    v.needs e' ((v.place e parts lba).take n) = v.needs e' (parts.take n) := by
  induction parts generalizing lba n with
  | nil => rfl
  | cons p parts ih =>
    cases n with
    | zero => rfl
    | succ n =>
      rw [List.take_succ_cons] at hsized
      have hkb : (v.placed e lba p).len_kb = p.len_kb := placed_len_kb (.inr hsized.head)
      have hneeded : v.needed (v.placed e lba p) = v.needed p := by
        rw [DiskInfo.needed, DiskInfo.needed, DiskInfo.exact, DiskInfo.exact, hkb]
      rw [DiskInfo.place, List.take_succ_cons, List.take_succ_cons, DiskInfo.needs_cons,
        DiskInfo.needs_cons, hneeded, ih hsized.tail]

/-- All in front of the last have sizes. -/
theorem sized_take {parts : List PartInfo} (hlast : FillLast parts) {n : ℕ}
    (hn : n < parts.length) : Sized (parts.take n) := by
  have hdrop : parts.drop n ≠ [] := by
    rw [ne_eq, List.drop_eq_nil_iff]
    omega
  rw [← List.take_append_drop n parts] at hlast
  exact sized_of_fillLast hlast hdrop

/-- The exact starts are the same in the second pass. -/
theorem exact_start_again (hlast : FillLast v.part_lst) {part : ℕ} (hpart : part < v.num_parts) :
    v.laid_out.exact_start part = v.exact_start part := by
  obtain ⟨hpri, hlog, hsized⟩ := fillLast_primary_logical hlast
  obtain ⟨hprimary, hlogical, -, -⟩ := primary_again v
  have hlength := length_logical v
  rw [DiskInfo.exact_start, DiskInfo.exact_start, hprimary, hlogical, length_place]
  by_cases hp : part < v.primary.length
  · rw [if_pos hp, if_pos hp]
    have hneeds : v.needs 0 ((v.place 0 v.primary v.skip_lba).take part)
        = v.needs 0 (v.primary.take part) := needs_place 0 (sized_take hpri hp)
    exact congrArg (v.skip_lba.toNat + ·) hneeds
  · have hne : v.logical ≠ [] := List.ne_nil_of_length_pos (by omega)
    have hall : v.needs 0 ((v.place 0 v.primary v.skip_lba).take v.primary.length)
        = v.needs 0 (v.primary.take v.primary.length) :=
      needs_place 0 (by rw [List.take_length]; exact hsized hne)
    have hrest : v.needs 1 ((v.place 1 v.logical v.ext_lba).take (part - v.primary.length))
        = v.needs 1 (v.logical.take (part - v.primary.length)) :=
      needs_place 1 (sized_take hlog (by omega))
    rw [List.take_of_length_le (by rw [length_place]), List.take_length] at hall
    rw [if_neg hp, if_neg hp, ← hall, ← hrest]
    rfl

/-- The sectors `editdisklbl` gives to a partition it takes to have `len_kb` KB: for
`(uint32_t)-1` the rest of the disk, which the first pass turns to KB if it is logical. -/
def DiskInfo.given (v : DiskInfo) (part : ℕ) (len_kb : UInt32) : UInt32 :=
  let rest := v.num_lba - UInt32.ofNat (v.exact_start part)
  if len_kb ≠ FILL then kb_to_lba len_kb v.sect_size.toUInt32
  else if part < v.primary.length ∨ v.to_kb rest = FILL then rest
  else kb_to_lba (v.to_kb rest) v.sect_size.toUInt32

/-- **Where the second pass records a partition**: at the exact start, with the sectors its
size comes to. -/
theorem committed_area (hsect : v.PowerOfTwo) (hlast : FillLast v.part_lst)
    (hbelow : v.StartsBelow) {part : ℕ} {p : PartInfo} (hp : v.part_lst[part]? = some p) :
    ∃ q, v.laid_out.parts[part]? = some q ∧ q.start_lba.toNat = v.exact_start part ∧
      ∀ r, (some part, r) ∈ v.laid_out.disk_areas ↔
        r = (v.exact_start part, (v.given part p.len_kb).toNat) := by
  have hpart : part < v.num_parts := (List.getElem?_eq_some_iff.mp hp).1
  have hsame := primary_again v
  have hbelow' : v.laid_out.StartsBelow := by
    intro i hi
    rw [hsame.2.2.2] at hi
    rw [exact_start_again hlast hi]
    exact hbelow i hi
  -- the first pass
  obtain ⟨p', hp', hstart, hkb, -⟩ := disk_area_of_part hsect hlast hbelow hp
  -- and the second, which finds what the first has left
  obtain ⟨q, hq, hstart', -, hiff⟩ := disk_area_of_part (v := v.laid_out) hsect
    (fillLast_parts hlast) hbelow' hp'
  rw [exact_start_again hlast hpart] at hstart'
  have hsame_start : q.start_lba = p'.start_lba := by
    rw [← UInt32.toNat_inj, hstart, hstart']
  have hnum : UInt32.ofNat (v.exact_start part) = p'.start_lba := by
    rw [← hstart, UInt32.ofNat_toNat]
  have hlen : v.laid_out.len_lba p' q.start_lba = v.given part p.len_kb := by
    rw [(sameDisk_laid_out v).len_lba, hsame_start, DiskInfo.len_lba, DiskInfo.given, hnum]
    by_cases hfill : p.len_kb = FILL
    · rw [if_neg (not_not.mpr hfill)]
      by_cases hpri : part < v.primary.length
      · rw [if_pos hpri] at hkb
        rw [hkb, if_neg (not_not.mpr hfill), if_pos (.inl hpri)]
      · rw [if_neg hpri, recorded_kb_of_fill hfill] at hkb
        rw [hkb]
        by_cases hrest : v.to_kb (v.num_lba - p'.start_lba) = FILL
        · rw [if_neg (not_not.mpr hrest), if_pos (.inr hrest)]
        · rw [if_pos hrest, if_neg (not_or.mpr ⟨hpri, hrest⟩)]
    · have hkb' : p'.len_kb = p.len_kb := by
        rw [hkb, DiskInfo.recorded_kb, if_pos hfill, ite_self]
      rw [hkb', if_pos hfill, if_pos hfill]
  refine ⟨q, hq, hstart', fun r => ?_⟩
  rw [hiff r, hlen, hstart']

end Passes

/-! ## The images -/

def Files.size (files : Files) (filename : CStr) : ℕ := ((files filename).getD []).length

/-- The size in KB of the last file that is mapped to a partition. -/
def last_kb (files : Files) (part_file_map : List (ℕ × CStr)) (part : ℕ) : UInt32 :=
  file_kb (files.size ((last_file part_file_map part).getD []))

/-- A call of `main` puts its file into its partition, as `w` is committed: at the exact byte
offset, with room for all of its bytes, nothing changed in any other sectors in use, and the
file there if the call has succeeded and none of its `read` and `write` calls was cut short. -/
structure Lands (files : Files) (test : Bool) (w : DiskInfo) (c : ImageCall) : Prop where
  place : ∃ r, (some c.part, r) ∈ w.disk_areas ∧ c.offs = ((r.1 * w.sect : ℕ) : Int) ∧
    r.1 * w.sect + files.size c.filename ≤ (r.1 + r.2) * w.sect
  alone : ∀ a ∈ w.disk_areas, a.1 ≠ some c.part →
    ∀ x, a.2.1 * w.sect ≤ x → x < (a.2.1 + a.2.2) * w.sect → c.after x = c.before x
  whole : test = false → c.rv = 0 → .upto 0 ∉ c.io.reads → Complete c.io.writes →
    ∃ src, files c.filename = some src ∧ c.after = c.before.write c.offs.toNat src

/-- The partition starts below 4 GiB, and the file is no larger than the sectors that the last
file mapped to the partition gets. -/
structure InReach (files : Files) (part_file_map : List (ℕ × CStr)) (v : DiskInfo)
    (c : ImageCall) : Prop where
  offset : v.exact_start c.part * v.sect < 2 ^ 32
  size : files.size c.filename ≤
    (v.given c.part (last_kb files part_file_map c.part)).toNat * v.sect

section Images

variable {files : Files} {dev : Device} {test : Bool} {writes : List IoRes} {io : ℕ → CopyIo}
  {disk disk' : Store} {argv : List CStr} {dinfo d v : DiskInfo}
  {part_file_map : List (ℕ × CStr)} {rv : Int} {calls : List ImageCall} {c : ImageCall}

/-- A partition that is given a file has a last one. -/
theorem last_file_of_mem {part : ℕ} {filename : CStr} (h : (part, filename) ∈ part_file_map) :
    ∃ filename', last_file part_file_map part = some filename' := by
  induction part_file_map with
  | nil => cases h
  | cons entry part_file_map ih =>
    obtain ⟨pinfo, filename'⟩ := entry
    rw [last_file]
    cases hlast : last_file part_file_map part with
    | some filename'' => exact ⟨filename'', Option.some_or⟩
    | none =>
      rw [Option.none_or]
      rcases List.mem_cons.mp h with heq | hmem
      · simp only [Prod.mk.injEq] at heq
        exact ⟨filename', if_pos heq.1.symm⟩
      · obtain ⟨_, hsome⟩ := ih hmem
        rw [hsome] at hlast
        cases hlast

/-- `parse_args` gives a mapped partition the size of its last file. -/
theorem len_kb_of_mapped (hparse : parse_args files argv dinfo = some (d, part_file_map))
    {part : ℕ} {filename : CStr} (hmem : (part, filename) ∈ part_file_map) {p : PartInfo}
    (hp : d.part_lst[part]? = some p) : p.len_kb = last_kb files part_file_map part := by
  unfold parse_args at hparse
  split_ifs at hparse
  have hpart := (parse_pairs_spec hparse).2 part p hp
  obtain ⟨filename', hlast⟩ := last_file_of_mem hmem
  rw [hlast] at hpart
  obtain ⟨file, hfile, hkb⟩ := hpart
  rw [hkb, last_kb, Files.size, hlast, Option.getD_some, hfile, Option.getD_some]

/-- The arguments change the lengths, and nothing else of the layout. -/
theorem parse_args_same (hparse : parse_args files argv dinfo = some (d, part_file_map)) :
    d = { dinfo with part_lst := d.part_lst } := by
  unfold parse_args at hparse
  split_ifs at hparse
  exact (parse_pairs_spec hparse).1

/-- What `apply_disk_config` leaves is what it has committed. -/
theorem apply_disk_config_info {d' : DiskInfo} {ws : List IoRes}
    (h : apply_disk_config dev test writes disk d = .ret (0, d', disk', ws)) :
    ∃ wr_lst, validate_and_config dev d = some (d', wr_lst) := by
  unfold apply_disk_config at h
  cases hconfig : validate_and_config dev d with
  | none =>
    rw [hconfig] at h
    simp at h
  | some r =>
    obtain ⟨d'', wr_lst⟩ := r
    rw [hconfig] at h
    obtain ⟨⟨rv, disk'', ws'⟩, -, h⟩ := Exec.bind_eq_ret.mp h
    simp only at h
    split_ifs at h
    · simp only [Exec.ret.injEq, Prod.mk.injEq] at h
      exact ⟨wr_lst, by rw [h.2.1]⟩
    · simp only [Exec.ret.injEq, Prod.mk.injEq] at h
      exact ⟨wr_lst, by rw [h.2.1]⟩
    · simp only [Exec.ret.injEq, Prod.mk.injEq] at h
      exact ⟨wr_lst, by rw [h.2.1]⟩

/-- The calls `main` makes are made with the layout of the second pass. -/
theorem main_calls (hsect : d.PowerOfTwo)
    (hparse : parse_args files argv dinfo = some (d, part_file_map))
    (hv : validate dev d = some v)
    (h : main files dev test writes io disk argv dinfo = .ret (rv, disk', calls)) :
    (∀ c ∈ calls, c.Of files test v.laid_out.laid_out ∧
      (c.part, c.filename) ∈ part_file_map) ∧
    (rv = 0 → calls.map (fun c => (c.part, c.filename)) = part_file_map ∧
      ∀ c ∈ calls, c.rv = 0) := by
  have hnone : (1, disk', ([] : List ImageCall)) = (rv, disk', calls) →
      (∀ c ∈ calls, c.Of files test v.laid_out.laid_out ∧
        (c.part, c.filename) ∈ part_file_map) ∧
      (rv = 0 → calls.map (fun c => (c.part, c.filename)) = part_file_map ∧
        ∀ c ∈ calls, c.rv = 0) := by
    intro heq
    simp only [Prod.mk.injEq, true_and] at heq
    obtain ⟨rfl, rfl⟩ := heq
    exact ⟨fun _ hc => (by cases hc), fun hzero => by cases hzero⟩
  unfold main at h
  rw [hparse] at h
  simp only at h
  cases hprocess : process_disk_config dev d with
  | none =>
    rw [hprocess] at h
    simp only [Exec.ret.injEq, Prod.mk.injEq] at h
    obtain ⟨hrv, -, hcalls⟩ := h
    exact hnone (by rw [hrv, hcalls])
  | some d₂ =>
    obtain ⟨hvsect, -, hd₂⟩ := process_disk_config_spec hsect hv hprocess
    rw [hprocess] at h
    obtain ⟨⟨rv₁, d₃, disk₁, ws⟩, happly, h⟩ := Exec.bind_eq_ret.mp h
    simp only at h
    split_ifs at h with hrv
    · simp only [Exec.ret.injEq, Prod.mk.injEq] at h
      obtain ⟨hrv', -, hcalls⟩ := h
      exact hnone (by rw [hrv', hcalls])
    · rw [not_not] at hrv
      rw [hrv] at happly
      -- the second pass is over what the first one has left
      obtain ⟨wr_lst, hconfig⟩ := apply_disk_config_info happly
      rw [hd₂, validate_and_config, show ({ v with part_lst := v.parts } : DiskInfo)
        = v.laid_out from rfl, validate_again hv] at hconfig
      have hd₃ : d₃ = v.laid_out.laid_out := by
        split_ifs at hconfig
        · cases hconfig
        · simp only [Option.bind_eq_bind, Option.bind_some] at hconfig
          have hvsect' : v.laid_out.PowerOfTwo := hvsect
          split_ifs at hconfig
          rw [config_mbr_eq hvsect'] at hconfig
          split_ifs at hconfig
          simp only [Option.some.injEq, Prod.mk.injEq] at hconfig
          exact hconfig.1.symm
      rw [hd₃] at h
      obtain ⟨hcalls, hbegins, hall⟩ := write_images_calls h
      refine ⟨fun c hc => ⟨hcalls c hc, ?_⟩, hall⟩
      exact hbegins.subset (List.mem_map_of_mem hc)

/-- One call: it puts its file into its partition exactly if that is in reach. -/
theorem lands_iff_inReach (hsect : d.PowerOfTwo) (hskip : d.skip_lba ≠ 0)
    (hparse : parse_args files argv dinfo = some (d, part_file_map))
    (hv : validate dev d = some v) (hbelow : v.StartsBelow)
    (hof : c.Of files test v.laid_out.laid_out)
    (hmem : (c.part, c.filename) ∈ part_file_map) :
    Lands files test v.laid_out c ↔ InReach files part_file_map v c := by
  obtain ⟨hsame, -, hlast, -⟩ := validate_spec hv
  have hlst : d.part_lst = v.part_lst := by rw [hsame]
  have hvsect : v.PowerOfTwo := by
    rw [hsame]
    exact hsect
  have hvskip : v.laid_out.skip_lba ≠ 0 := by
    show v.skip_lba ≠ 0
    rw [hsame]
    exact hskip
  rw [hlst] at hlast
  obtain ⟨q, hq, hoffs⟩ := hof.offs
  have hq' : v.laid_out.parts[c.part]? = some q := hq
  -- the partition as it was loaded
  have hpart : c.part < v.num_parts := by
    have hlt := (List.getElem?_eq_some_iff.mp hq').1
    rwa [length_parts, (primary_again v).2.2.2] at hlt
  obtain ⟨p, hp⟩ : ∃ p, v.part_lst[c.part]? = some p := ⟨_, List.getElem?_eq_getElem hpart⟩
  have hkb : p.len_kb = last_kb files part_file_map c.part :=
    len_kb_of_mapped hparse hmem (by rw [hlst]; exact hp)
  obtain ⟨q', hq'', hstart, harea⟩ := committed_area hvsect hlast hbelow hp
  rw [hq', Option.some.injEq] at hq''
  subst hq''
  rw [hkb] at harea
  have hproduct : c.offs = ((v.exact_start c.part * v.sect % 2 ^ 32 : ℕ) : Int) := by
    rw [hoffs, UInt32.toNat_mul, hstart]
    exact congrArg (fun s => ((v.exact_start c.part * s % 2 ^ 32 : ℕ) : Int))
      hvsect.toNat_sect_size
  have hws : v.laid_out.sect = v.sect := rfl
  constructor
  · rintro ⟨⟨r, hr, hplace, hroom⟩, -, -⟩
    rw [(harea r).mp hr, hws] at hplace hroom
    simp only at hplace hroom
    rw [hproduct, Int.natCast_inj] at hplace
    refine ⟨?_, ?_⟩
    · rw [← hplace]
      exact Nat.mod_lt _ (by decide)
    · rw [Nat.add_mul] at hroom
      omega
  · rintro ⟨hoffset, hsize⟩
    rw [Nat.mod_eq_of_lt hoffset] at hproduct
    have hr := (harea _).mpr rfl
    refine ⟨⟨_, hr, hproduct, ?_⟩, fun a ha hne x hlo hhi => ?_, fun htest hrv hreads hwrites => ?_⟩
    · rw [hws, Nat.add_mul]
      exact Nat.add_le_add_left hsize _
    · obtain ⟨sent, hafter, hsent⟩ := write_raw_image_frame hof.runs
      have hsent' : sent.length ≤ files.size c.filename := hsent
      have hbelow' : v.laid_out.StartsBelow := by
        intro i hi
        rw [(primary_again v).2.2.2] at hi
        rw [exact_start_again hlast hi]
        exact hbelow i hi
      have hapart := @disk_areas_apart v.laid_out hvsect (fillLast_parts hlast) hvskip hbelow' _ _
        ha hr hne
      rw [hws] at hlo hhi
      rw [hafter, hproduct, Int.toNat_natCast, Store.write_apply_of_outside]
      rcases hapart with hbefore | hbehind
      · have hbytes : (a.2.1 + a.2.2) * v.sect ≤ v.exact_start c.part * v.sect :=
          Nat.mul_le_mul_right v.sect hbefore
        exact .inl (by omega)
      · have hbytes : (v.exact_start c.part +
            (v.given c.part (last_kb files part_file_map c.part)).toNat) * v.sect
            ≤ a.2.1 * v.sect := Nat.mul_le_mul_right v.sect hbehind
        rw [Nat.add_mul] at hbytes
        exact .inr (by omega)
    · have hruns := hof.runs
      rw [htest, hrv] at hruns
      exact write_raw_image_whole hreads hwrites hruns

/-- **When every image lands in its own partition**: exactly if each file that is copied is in
reach. And if `main` returns 0, every file has been copied. -/
theorem images_land_iff (hsect : dinfo.PowerOfTwo) (hskip : dinfo.skip_lba ≠ 0)
    (hparse : parse_args files argv dinfo = some (d, part_file_map))
    (hv : validate dev d = some v) (hbelow : v.StartsBelow)
    (h : main files dev test writes io disk argv dinfo = .ret (rv, disk', calls)) :
    ((∀ c ∈ calls, Lands files test v.laid_out c) ↔
      ∀ c ∈ calls, InReach files part_file_map v c) ∧
    (rv = 0 → calls.map (fun c => (c.part, c.filename)) = part_file_map ∧
      ∀ c ∈ calls, c.rv = 0) := by
  have hsame := parse_args_same hparse
  have hdsect : d.PowerOfTwo := by
    rw [hsame]
    exact hsect
  have hdskip : d.skip_lba ≠ 0 := by
    rw [hsame]
    exact hskip
  obtain ⟨hcalls, hall⟩ := main_calls hdsect hparse hv h
  have hcall : ∀ c ∈ calls, Lands files test v.laid_out c ↔ InReach files part_file_map v c :=
    fun c hc => lands_iff_inReach hdsect hdskip hparse hv hbelow (hcalls c hc).1 (hcalls c hc).2
  exact ⟨⟨fun hlands c hc => (hcall c hc).mp (hlands c hc),
    fun hreach c hc => (hcall c hc).mpr (hreach c hc)⟩, hall⟩

end Images

/-! ## An image that lands and one that does not -/

section Examples

/-- One partition behind `skip_lba` sectors. -/
def behind (skip_lba : UInt32) : DiskInfo where
  device := cstr "disk.img"
  scheme := PART_SCHEME_MBR
  sect_size := 512
  skip_lba
  num_lba := 16777216
  part_lst := [⟨cstr "data", 0, PC_PART_TYPE_LINUX, 1, 0⟩]

/-- A file of 3 bytes. -/
def one_file : Files := fun filename => if filename = cstr "img" then some [1, 2, 3] else none

def copied : ℕ → CopyIo := fun _ => ⟨true, true, [.all, .all], [.all]⟩

theorem behind_power_of_two (skip_lba : UInt32) : (behind skip_lba).PowerOfTwo :=
  ⟨9, Nat.le_refl 9, (by decide : (512 : Int32).toInt = 2 ^ 9)⟩

theorem behind_starts (skip_lba : UInt32) : (behind skip_lba).StartsBelow := by
  intro part hpart
  have hnum : (behind skip_lba).num_parts = 1 := rfl
  have hzero : part = 0 := by omega
  subst hzero
  have hstart : (behind skip_lba).exact_start 0 = skip_lba.toNat := rfl
  rw [hstart]
  exact skip_lba.toNat_lt

/-- Behind one sector the file is copied to byte 512. -/
theorem images_land_behind_one :
    ∃ disk c, main one_file image_file false (List.replicate 5 .all) copied (fun _ => 0)
        [cstr "data=img"] (behind 1) = .ret (0, disk, [c]) ∧
      Lands one_file false (behind 1).laid_out c := by
  have hparse : parse_args one_file [cstr "data=img"] (behind 1)
      = some (behind 1, [(0, cstr "img")]) := rfl
  have hv : validate image_file (behind 1) = some (behind 1) := by decide
  obtain ⟨disk, c, hmain, hpart, hname⟩ : ∃ disk c, main one_file image_file false
      (List.replicate 5 .all) copied (fun _ => 0) [cstr "data=img"] (behind 1)
        = .ret (0, disk, [c]) ∧ c.part = 0 ∧ c.filename = cstr "img" := ⟨_, _, rfl, rfl, rfl⟩
  refine ⟨disk, c, hmain, (images_land_iff (behind_power_of_two 1) (by decide) hparse hv
    (behind_starts 1) hmain).1.mpr (fun c' hc' => ?_) c List.mem_cons_self⟩
  rw [List.mem_singleton.mp hc']
  refine ⟨?_, ?_⟩
  · rw [hpart]
    decide
  · rw [hpart, hname]
    decide

/-- A partition that starts at 4 GiB: the file is copied to byte 0, over the MBR. -/
theorem image_overwrites_mbr :
    ∃ disk c, parse_args one_file [cstr "data=img"] (behind 8388608)
        = some (behind 8388608, [(0, cstr "img")]) ∧
      validate image_file (behind 8388608) = some (behind 8388608) ∧
      (behind 8388608).StartsBelow ∧
      main one_file image_file false (List.replicate 5 .all) copied (fun _ => 0)
        [cstr "data=img"] (behind 8388608) = .ret (0, disk, [c]) ∧
      c.offs = 0 ∧ c.after 0 = 1 ∧ ¬ Lands one_file false (behind 8388608).laid_out c := by
  have hsect := behind_power_of_two 8388608
  have hparse : parse_args one_file [cstr "data=img"] (behind 8388608)
      = some (behind 8388608, [(0, cstr "img")]) := rfl
  have hv : validate image_file (behind 8388608) = some (behind 8388608) := by decide
  obtain ⟨disk, c, hmain, hoffs, hafter⟩ : ∃ disk c, main one_file image_file false
      (List.replicate 5 .all) copied (fun _ => 0) [cstr "data=img"] (behind 8388608)
        = .ret (0, disk, [c]) ∧ c.offs = 0 ∧ c.after 0 = 1 := ⟨_, _, rfl, rfl, rfl⟩
  obtain ⟨hof, hmem⟩ := (main_calls hsect hparse hv hmain).1 c List.mem_cons_self
  refine ⟨disk, c, hparse, hv, behind_starts _, hmain, hoffs, hafter, fun hlands => ?_⟩
  have hreach := (lands_iff_inReach hsect (by decide) hparse hv (behind_starts _) hof hmem).mp hlands
  have hpart : c.part = 0 := by
    rw [List.mem_singleton, Prod.mk.injEq] at hmem
    exact hmem.1
  have hoffset := hreach.offset
  rw [hpart] at hoffset
  exact absurd hoffset (by decide)

end Examples

end EditDiskLbl

end Iago
