/-
Laying out a `disk_info` that has been laid out already.

`editdisklbl` makes the layout twice, once to check it (`process_disk_config`) and once to
commit it (`apply_disk_config`), and the first pass writes into the `disk_info`: the number
of sectors, the starts, and for a logical partition that fills the disk also its size, from
sectors to KB. The second pass takes that for a size that was asked for, from KB to sectors.

The starts are not read, and a number of sectors that has been set is taken as given. So
everything hangs on the size of the partition that fills the disk. With sectors of 512 bytes
half a KB is lost where the number of sectors is odd, and with large sectors the number of KB
can be more than 32 bits hold; otherwise the two conversions are inverse
(`kb_to_lba_to_kb_iff`). If they are, the second pass computes what the first one did
(`same_again_iff`), but on a block device `validate` now also counts the recorded size, and
compares the sum with `num_lba` sectors rather than with the size the device has given.
-/
import Iago.LayoutFits

set_option autoImplicit false

namespace Iago

namespace EditDiskLbl

/-! ## From sectors to KB and back -/

section Conversion

variable {v : DiskInfo}

/-- The size in KB that is recorded for `len` sectors. -/
def DiskInfo.to_kb (v : DiskInfo) (len : UInt32) : UInt32 :=
  (len.toUInt64 * v.sect_size64 / 1024).toUInt32

theorem toNat_to_kb (hsect : v.PowerOfTwo) (len : UInt32) :
    (v.to_kb len).toNat = len.toNat * v.sect / 1024 % 2 ^ 32 := by
  obtain ⟨k, -, hk, hs, -⟩ := hsect.sect_eq
  have hlen := len.toNat_lt
  have hlt : 2 ^ k ≤ 2 ^ 31 := Nat.pow_le_pow_right Nat.two_pos (Nat.le_of_lt hk)
  have hprod : len.toNat * v.sect < 2 ^ 64 := by
    rw [hs]
    calc len.toNat * 2 ^ k ≤ len.toNat * 2 ^ 31 := Nat.mul_le_mul_left _ hlt
      _ < 2 ^ 64 := by omega
  have hmul : (len.toUInt64 * v.sect_size64).toNat = len.toNat * v.sect := by
    rw [UInt64.toNat_mul, UInt32.toNat_toUInt64, hsect.toNat_sect_size64]
    exact Nat.mod_eq_of_lt hprod
  rw [DiskInfo.to_kb, UInt64.toNat_toUInt32, UInt64.toNat_div, hmul]
  rfl

/-- A number of sectors that is a number of KB, one of 32 bits. -/
def DiskInfo.WholeKb (v : DiskInfo) (len : UInt32) : Prop :=
  len.toNat * v.sect % 1024 = 0 ∧ len.toNat * v.sect < 2 ^ 42

/-- Where nothing is dropped, they are as many bytes. -/
theorem DiskInfo.WholeKb.to_kb (hsect : v.PowerOfTwo) {len : UInt32} (h : v.WholeKb len) :
    (v.to_kb len).toNat * 1024 = len.toNat * v.sect := by
  rw [toNat_to_kb hsect, Nat.mod_eq_of_lt (by have := h.2; omega)]
  exact Nat.div_mul_cancel (Nat.dvd_of_mod_eq_zero h.1)

/-- Kilobytes that are whole sectors are those. -/
theorem sectors_mul (sect n : ℕ) (hpos : 0 < sect) {kb : ℕ} (h : kb * 1024 = n * sect) :
    sectors sect kb = n := by
  rw [sectors, h, Nat.ceilDiv_eq_add_pred_div, Nat.add_sub_assoc hpos, Nat.mul_comm,
    Nat.mul_add_div hpos, Nat.div_eq_of_lt (Nat.sub_lt hpos Nat.one_pos), Nat.add_zero]

/-- Sectors of at least 1 KB: what is lost is what does not fit into 32 bits. -/
theorem to_kb_large (hsect : v.PowerOfTwo) {j : ℕ} (hs : v.sect = 2 ^ j * 1024) (hj : j ≤ 20)
    (len : UInt32) :
    (v.to_kb len).toNat = len.toNat % 2 ^ (32 - j) * 2 ^ j ∧
      (v.WholeKb len ↔ len.toNat % 2 ^ (32 - j) = len.toNat) := by
  have hpow : 2 ^ (32 - j) * 2 ^ j = 2 ^ 32 := by
    rw [← Nat.pow_add, Nat.sub_add_cancel (by omega)]
  have hpos : 0 < 2 ^ j := Nat.two_pow_pos j
  constructor
  · rw [toNat_to_kb hsect, hs, ← Nat.mul_assoc, Nat.mul_div_cancel _ (by decide), ← hpow,
      Nat.mul_mod_mul_right]
  · rw [DiskInfo.WholeKb, hs, ← Nat.mul_assoc, Nat.mul_mod_left, eq_self, true_and,
      Nat.mod_eq_iff_lt (Nat.two_pow_pos _).ne']
    constructor
    · intro hlt
      refine Nat.lt_of_mul_lt_mul_right (a := 2 ^ j) ?_
      omega
    · intro hlt
      have := Nat.mul_lt_mul_of_pos_right hlt hpos
      omega

/-- **The two conversions are inverse** exactly on the numbers of sectors that are a number of
KB, one of 32 bits. -/
theorem kb_to_lba_to_kb_iff (hsect : v.PowerOfTwo) (len : UInt32) :
    (v.to_kb len = FILL ∨ kb_to_lba (v.to_kb len) v.sect_size.toUInt32 = len) ↔
      v.WholeKb len := by
  obtain ⟨k, hk, hk', hs, -⟩ := hsect.sect_eq
  have hlen := len.toNat_lt
  have hpos : 0 < v.sect := by
    have := hsect.sect_ge
    omega
  have hback : kb_to_lba (v.to_kb len) v.sect_size.toUInt32 = len ↔
      sectors v.sect (v.to_kb len).toNat % 2 ^ 32 = len.toNat := by
    rw [← UInt32.toNat_inj, toNat_kb_to_lba hsect]
  have hfill : v.to_kb len = FILL ↔ (v.to_kb len).toNat = 2 ^ 32 - 1 := by
    rw [← UInt32.toNat_inj]
    rfl
  have hwhole : v.WholeKb len → kb_to_lba (v.to_kb len) v.sect_size.toUInt32 = len := by
    intro h
    rw [hback, sectors_mul v.sect len.toNat hpos (h.to_kb hsect)]
    exact Nat.mod_eq_of_lt hlen
  refine ⟨fun h => ?_, fun h => .inr (hwhole h)⟩
  by_cases hsmall : k = 9
  · -- half a KB
    subst hsmall
    have hkb : (v.to_kb len).toNat = len.toNat / 2 := by
      rw [toNat_to_kb hsect, hs]
      omega
    rw [hfill, hback, hkb, hs, sectors, Nat.ceilDiv_eq_add_pred_div] at h
    rw [DiskInfo.WholeKb, hs]
    omega
  · have hs' : v.sect = 2 ^ (k - 10) * 1024 := by
      rw [hs, show 1024 = 2 ^ 10 from rfl, ← Nat.pow_add, Nat.sub_add_cancel (by omega)]
    obtain ⟨hkb, hiff⟩ := to_kb_large hsect hs' (by omega) len
    rw [hiff]
    have hmod : len.toNat % 2 ^ (32 - (k - 10)) ≤ len.toNat := Nat.mod_le _ _
    rcases h with h | h
    · -- an odd number of KB means sectors of 1 KB
      rw [hfill, hkb] at h
      by_cases hten : k = 10
      · subst hten
        rw [Nat.mod_eq_of_lt (by simpa using hlen)]
      · have heven : 2 ∣ 2 ^ (k - 10) := dvd_pow_self 2 (by omega)
        have := Nat.dvd_trans heven (Dvd.intro_left _ h)
        omega
    · rw [hback, sectors_mul v.sect (len.toNat % 2 ^ (32 - (k - 10))) hpos
        (by rw [hkb, hs', Nat.mul_assoc])] at h
      omega

end Conversion

/-! ## The second pass over a run of partitions -/

section Again

variable {v w : DiskInfo}

/-- Two `disk_info` that differ at most in their partitions. -/
def SameDisk (v w : DiskInfo) : Prop := w.sect_size = v.sect_size ∧ w.num_lba = v.num_lba

/-- A partition that has been placed has the length it had before, in the same place. -/
def DiskInfo.Keeps (v : DiskInfo) (e lba : UInt32) (p : PartInfo) : Prop :=
  v.len_lba (v.placed e lba p) (lba + e) = v.len_lba p (lba + e)

/-- So have all of a run. -/
def DiskInfo.KeepsAll (v : DiskInfo) (e : UInt32) : List PartInfo → UInt32 → Prop
  | [], _ => True
  | p :: parts, lba => v.Keeps e lba p ∧ DiskInfo.KeepsAll v e parts (v.after e lba p)

/-- On the same disk a partition has the same length. -/
theorem SameDisk.len_lba (h : SameDisk v w) (p : PartInfo) (lba : UInt32) :
    w.len_lba p lba = v.len_lba p lba := by
  rw [DiskInfo.len_lba, DiskInfo.len_lba, h.1, h.2]

theorem SameDisk.recorded_kb (h : SameDisk v w) (p : PartInfo) (lba : UInt32) :
    w.recorded_kb p lba = v.recorded_kb p lba := by
  rw [DiskInfo.recorded_kb, DiskInfo.recorded_kb, DiskInfo.sect_size64, DiskInfo.sect_size64,
    h.1, h.2]

theorem SameDisk.nospace (h : SameDisk v w) (p : PartInfo) (lba e : UInt32) :
    nospace w p lba e = nospace v p lba e := by
  unfold EditDiskLbl.nospace
  rw [h.1, h.2]

/-- For a partition that fills the disk the rest is recorded. -/
theorem recorded_kb_of_fill {p : PartInfo} (hp : p.len_kb = FILL) (lba : UInt32) :
    v.recorded_kb p lba = v.to_kb (v.num_lba - lba) :=
  if_neg (not_not.mpr hp)

/-- Placing a placed partition changes nothing. -/
theorem placed_again (h : SameDisk v w) (e lba : UInt32) (p : PartInfo) :
    w.placed e lba (v.placed e lba p) = v.placed e lba p := by
  have hkb : (if e = 0 then (v.placed e lba p).len_kb
      else w.recorded_kb (v.placed e lba p) (lba + e)) = (v.placed e lba p).len_kb := by
    by_cases he : e = 0
    · rw [if_pos he]
    rw [if_neg he, h.recorded_kb]
    by_cases hfill : (v.placed e lba p).len_kb = FILL
    · -- the recorded size happens to mean the rest of the disk
      rw [recorded_kb_of_fill hfill]
      have hplaced : (v.placed e lba p).len_kb = v.recorded_kb p (lba + e) := if_neg he
      by_cases hp : p.len_kb = FILL
      · rw [hplaced, recorded_kb_of_fill hp]
      · rw [hplaced, DiskInfo.recorded_kb, if_pos hp] at hfill
        exact absurd hfill hp
    · exact if_pos hfill
  conv_lhs => rw [DiskInfo.placed, hkb]
  rfl

/-- A partition that keeps its length ends where it ended. -/
theorem after_again (h : SameDisk v w) {e lba : UInt32} {p : PartInfo} (hkeeps : v.Keeps e lba p) :
    w.after e lba (v.placed e lba p) = v.after e lba p := by
  rw [DiskInfo.after, DiskInfo.after, h.len_lba, hkeeps]

theorem place_again (h : SameDisk v w) {e : UInt32} {parts : List PartInfo} {lba : UInt32}
    (hkeeps : v.KeepsAll e parts lba) :
    w.place e (v.place e parts lba) lba = v.place e parts lba ∧
      w.end_lba e (v.place e parts lba) lba = v.end_lba e parts lba := by
  induction parts generalizing lba with
  | nil => exact ⟨rfl, rfl⟩
  | cons p parts ih =>
    obtain ⟨hp, hparts⟩ := hkeeps
    obtain ⟨hplace, hend⟩ := ih hparts
    constructor
    · rw [DiskInfo.place, DiskInfo.place, placed_again h, after_again h hp, hplace]
    · rw [DiskInfo.place, DiskInfo.end_lba, DiskInfo.end_lba, after_again h hp, hend]

/-- The primary entries are the same then. -/
theorem pri_items_again (h : SameDisk v w) {parts : List PartInfo} {cnt : ℕ} {lba : UInt32}
    (hkeeps : v.KeepsAll 0 parts lba) :
    w.pri_items cnt (v.place 0 parts lba) lba = v.pri_items cnt parts lba := by
  induction parts generalizing cnt lba with
  | nil => rfl
  | cons p parts ih =>
    obtain ⟨hp, hparts⟩ := hkeeps
    have hlen : w.len_lba (v.placed 0 lba p) lba = v.len_lba p lba := by
      have hp' : v.len_lba (v.placed 0 lba p) (lba + 0) = v.len_lba p (lba + 0) := hp
      rw [UInt32.add_zero] at hp'
      rw [h.len_lba, hp']
    rw [DiskInfo.place, DiskInfo.pri_items, DiskInfo.pri_items, after_again h hp, ih hparts,
      DiskInfo.pri_pentry, DiskInfo.pri_pentry, hlen]
    rfl

/-- The pointer to the next boot record counts that record and its partition. -/
theorem next_pentry_eq (ext_lba lba : UInt32) (p : PartInfo) :
    v.next_pentry ext_lba lba p =
      cfg_pentry PC_PART_NORMAL PC_PART_TYPE_EXTENDED (lba - ext_lba)
        (1 + v.len_lba p (lba + 1)) := by
  rw [DiskInfo.next_pentry, DiskInfo.len_lba]
  by_cases hp : p.len_kb ≠ FILL
  · rw [if_pos hp, if_pos hp]
  · have hsub : v.num_lba - lba = 1 + (v.num_lba - (lba + 1)) := by
      grind
    rw [if_neg hp, if_neg hp, hsub]

/-- The boot records are the same exactly if the lengths are. -/
theorem log_items_again_iff (h : SameDisk v w) (ext_lba : UInt32) {parts : List PartInfo}
    {lba : UInt32} :
    w.log_items ext_lba (v.place 1 parts lba) lba = v.log_items ext_lba parts lba ↔
      v.KeepsAll 1 parts lba := by
  induction parts generalizing lba with
  | nil => exact ⟨fun _ => trivial, fun _ => rfl⟩
  | cons p parts ih =>
    rw [DiskInfo.place, DiskInfo.log_items, DiskInfo.log_items]
    constructor
    · intro heq
      rw [List.cons.injEq] at heq
      have hdata := congrArg WriteItem.data heq.1
      -- A boot record says how long its partition is.
      have hrecord := PcBootRecord.codec.enc_injective hdata
      have hentry := congrArg (fun r : PcBootRecord => (r.ptable.get 0).len_lba) hrecord
      have hp : v.Keeps 1 lba p := by
        rw [DiskInfo.Keeps, ← h.len_lba]
        exact hentry
      rw [after_again h hp] at heq
      exact ⟨hp, ih.mp heq.2⟩
    · rintro ⟨hp, hparts⟩
      rw [after_again h hp, ih.mpr hparts, List.cons.injEq]
      refine ⟨?_, rfl⟩
      have hitem : ∀ r, w.ebr_item lba r = v.ebr_item lba r := by
        intro r
        rw [DiskInfo.ebr_item, DiskInfo.ebr_item, h.1]
      have hlog : w.log_pentry (v.placed 1 lba p) lba = v.log_pentry p lba := by
        have hlen : w.len_lba (v.placed 1 lba p) (lba + 1) = v.len_lba p (lba + 1) := by
          rw [h.len_lba]
          exact hp
        rw [DiskInfo.log_pentry, DiskInfo.log_pentry, hlen]
        rfl
      -- The link to the next record holds that one's length as well.
      have hnext : ((v.place 1 parts (v.after 1 lba p)).head?.map
          (w.next_pentry ext_lba (v.after 1 lba p)))
          = parts.head?.map (v.next_pentry ext_lba (v.after 1 lba p)) := by
        cases parts with
        | nil => rfl
        | cons q parts =>
          have hq : v.Keeps 1 (v.after 1 lba p) q := hparts.1
          rw [DiskInfo.place, List.head?_cons, List.head?_cons, Option.map_some, Option.map_some,
            next_pentry_eq, next_pentry_eq, h.len_lba, hq]
      rw [hitem, DiskInfo.ebr, DiskInfo.ebr, after_again h hp, hlog, hnext]

/-- A length that is recorded as it was is kept. -/
theorem keeps_of_len_kb {e lba : UInt32} {p : PartInfo}
    (h : (v.placed e lba p).len_kb = p.len_kb) : v.Keeps e lba p := by
  rw [DiskInfo.Keeps, DiskInfo.len_lba, DiskInfo.len_lba, h]

/-- A size that was asked for is kept. -/
theorem placed_len_kb {e lba : UInt32} {p : PartInfo} (h : e = 0 ∨ p.len_kb ≠ FILL) :
    (v.placed e lba p).len_kb = p.len_kb := by
  rw [DiskInfo.placed]
  rcases h with rfl | hp
  · rfl
  · rw [DiskInfo.recorded_kb, if_pos hp, ite_self]

/-- The primary partitions always keep theirs. -/
theorem keepsAll_primary (parts : List PartInfo) (lba : UInt32) : v.KeepsAll 0 parts lba := by
  induction parts generalizing lba with
  | nil => trivial
  | cons p parts ih => exact ⟨keeps_of_len_kb (placed_len_kb (.inl rfl)), ih _⟩

/-- A logical partition that fills the disk keeps its length if it is a number of KB. -/
theorem keeps_fill_iff (hsect : v.PowerOfTwo) {p : PartInfo} (hp : p.len_kb = FILL)
    (lba : UInt32) : v.Keeps 1 lba p ↔ v.WholeKb (v.num_lba - (lba + 1)) := by
  have hplaced : (v.placed 1 lba p).len_kb = v.to_kb (v.num_lba - (lba + 1)) :=
    recorded_kb_of_fill hp (lba + 1)
  have hlen : v.len_lba p (lba + 1) = v.num_lba - (lba + 1) := if_neg (not_not.mpr hp)
  rw [← kb_to_lba_to_kb_iff hsect, DiskInfo.Keeps, hlen, DiskInfo.len_lba, hplaced]
  by_cases hfill : v.to_kb (v.num_lba - (lba + 1)) = FILL
  · rw [if_neg (not_not.mpr hfill)]
    exact ⟨fun _ => .inl hfill, fun _ => rfl⟩
  · rw [if_pos hfill]
    exact ⟨.inr, fun h => h.resolve_left hfill⟩

theorem no_fill_nil : ¬ ∃ p ∈ ([] : List PartInfo), p.len_kb = FILL := by
  rintro ⟨p, hp, -⟩
  cases hp

theorem exists_fill_cons {p : PartInfo} {rest : List PartInfo} (hp : ¬ p.len_kb = FILL) :
    (∃ q ∈ p :: rest, q.len_kb = FILL) ↔ ∃ q ∈ rest, q.len_kb = FILL := by
  constructor
  · rintro ⟨q, hq, hqfill⟩
    rcases List.mem_cons.mp hq with rfl | hmem
    · exact absurd hqfill hp
    · exact ⟨q, hmem, hqfill⟩
  · rintro ⟨q, hq, hqfill⟩
    exact ⟨q, List.mem_cons_of_mem _ hq, hqfill⟩

/-- **The logical ones keep theirs** if the rest of the disk, where one takes it, is whole
kilobytes. -/
theorem keepsAll_logical_iff (hsect : v.PowerOfTwo) {parts : List PartInfo}
    (hlast : FillLast parts) (lba : UInt32) :
    v.KeepsAll 1 parts lba ↔ ((∃ p ∈ parts, p.len_kb = FILL) →
      v.WholeKb (v.num_lba - (v.end_lba 1 parts.dropLast lba + 1))) := by
  induction parts generalizing lba with
  | nil => exact ⟨fun _ h => absurd h no_fill_nil, fun _ => trivial⟩
  | cons p rest ih =>
    by_cases hp : p.len_kb = FILL
    · have hnil := hlast.head hp
      subst hnil
      constructor
      · intro h _
        exact (keeps_fill_iff hsect hp lba).mp h.1
      · intro h
        exact ⟨(keeps_fill_iff hsect hp lba).mpr (h ⟨p, List.mem_cons_self, hp⟩), trivial⟩
    · have hkeeps : v.Keeps 1 lba p := keeps_of_len_kb (placed_len_kb (.inr hp))
      have hrest : v.KeepsAll 1 (p :: rest) lba ↔ v.KeepsAll 1 rest (v.after 1 lba p) :=
        ⟨fun h => h.2, fun h => ⟨hkeeps, h⟩⟩
      rw [hrest, ih hlast.tail, exists_fill_cons hp]
      cases rest with
      | nil => exact ⟨fun _ h => absurd h no_fill_nil, fun _ h => absurd h no_fill_nil⟩
      | cons q rest => exact Iff.rfl

/-! ## The tests of the second pass -/

theorem nospace_congr {p q : PartInfo} (h : p.len_kb = q.len_kb) (lba e : UInt32) :
    nospace v p lba e = nospace v q lba e := by
  unfold nospace
  rw [h]

/-- The recorded size passes the test that its partition has passed without one. -/
theorem nospace_recorded (hsect : v.PowerOfTwo) {p : PartInfo} {lba : UInt32}
    (hp : p.len_kb = FILL) (hwhole : v.WholeKb (v.num_lba - (lba + 1)))
    (h : nospace v p lba 1 = false) : nospace v (v.placed 1 lba p) lba 1 = false := by
  have hplaced : (v.placed 1 lba p).len_kb = v.to_kb (v.num_lba - (lba + 1)) :=
    recorded_kb_of_fill hp (lba + 1)
  have hfree : ¬ (v.num_lba ≠ 0 ∧ lba + 1 ≥ v.num_lba) := by
    intro hfull
    unfold nospace at h
    rw [if_pos hfull] at h
    cases h
  unfold nospace
  rw [if_neg hfree]
  by_cases hfill : (v.placed 1 lba p).len_kb = FILL
  · rw [if_neg (not_not.mpr hfill)]
  rw [if_pos hfill, hplaced]
  refine decide_eq_false ?_
  rintro ⟨hnum, hgt⟩
  -- `kb / sect * 1024` is at most the length the KB were computed from
  have hlt : (lba + 1).toNat < v.num_lba.toNat := by
    rw [not_and, ge_iff_le, UInt32.le_iff_toNat_le] at hfree
    exact Nat.lt_of_not_le (hfree hnum)
  have hlen : (v.num_lba - (lba + 1)).toNat = v.num_lba.toNat - (lba + 1).toNat :=
    UInt32.toNat_sub_of_le _ _ (UInt32.le_iff_toNat_le.mpr (Nat.le_of_lt hlt))
  have hkb := hwhole.to_kb hsect
  have hpos : 0 < v.sect := by
    have := hsect.sect_ge
    omega
  have hdiv : (v.to_kb (v.num_lba - (lba + 1))).toNat / v.sect * 1024
      ≤ (v.num_lba - (lba + 1)).toNat := by
    calc (v.to_kb (v.num_lba - (lba + 1))).toNat / v.sect * 1024
        ≤ (v.to_kb (v.num_lba - (lba + 1))).toNat * 1024 / v.sect := by
          rw [Nat.le_div_iff_mul_le hpos, Nat.mul_right_comm]
          exact Nat.mul_le_mul_right _ (Nat.div_mul_le_self _ _)
      _ = (v.num_lba - (lba + 1)).toNat := by rw [hkb, Nat.mul_div_cancel _ hpos]
  have hnumlt := v.num_lba.toNat_lt
  have hsz : (v.to_kb (v.num_lba - (lba + 1)) / v.sect_size.toUInt32 * 1024).toNat
      = (v.to_kb (v.num_lba - (lba + 1))).toNat / v.sect * 1024 := by
    rw [UInt32.toNat_mul, UInt32.toNat_div, hsect.toNat_sect_size]
    exact Nat.mod_eq_of_lt (by
      show (v.to_kb (v.num_lba - (lba + 1))).toNat / v.sect * 1024 < 2 ^ 32
      omega)
  rw [gt_iff_lt, UInt32.lt_iff_toNat_lt, UInt32.add_assoc, UInt32.add_comm _ 1,
    ← UInt32.add_assoc, toNat_add_of_lt (by omega), hsz] at hgt
  omega

/-- So there is room again. -/
theorem rooms_again (hsect : v.PowerOfTwo) (h : SameDisk v w) {e : UInt32} (he : e = 0 ∨ e = 1)
    {parts : List PartInfo} {lba : UInt32} (hrooms : v.rooms e parts lba = true)
    (hkeeps : v.KeepsAll e parts lba) : w.rooms e (v.place e parts lba) lba = true := by
  induction parts generalizing lba with
  | nil => rfl
  | cons p rest ih =>
    obtain ⟨hp, hrest⟩ := hkeeps
    rw [DiskInfo.rooms, decide_eq_true_eq] at hrooms
    obtain ⟨hspace, hfill, hrooms⟩ := hrooms
    rw [DiskInfo.place, DiskInfo.rooms, decide_eq_true_eq, after_again h hp, h.nospace]
    refine ⟨?_, ?_, ih hrooms hrest⟩
    · rw [Bool.not_eq_true] at hspace ⊢
      by_cases hsized : e = 0 ∨ p.len_kb ≠ FILL
      · rw [nospace_congr (placed_len_kb hsized)]
        exact hspace
      · rw [not_or, not_not] at hsized
        obtain rfl := he.resolve_left hsized.1
        exact nospace_recorded hsect hsized.2 ((keeps_fill_iff hsect hsized.2 lba).mp hp) hspace
    · rcases hfill with h0 | hsized | hnil
      · exact .inl h0
      · rw [placed_len_kb (.inr hsized)]
        exact .inr (.inl hsized)
      · subst hnil
        exact .inr (.inr rfl)

end Again

/-! ## The second pass of `config_mbr` -/

section Config

variable {v : DiskInfo}

/-- The `disk_info` the first pass leaves. -/
def DiskInfo.laid_out (v : DiskInfo) : DiskInfo := { v with part_lst := v.parts }

/-- The layout is for the disk it was made for. -/
theorem sameDisk_laid_out (v : DiskInfo) : SameDisk v v.laid_out := ⟨rfl, rfl⟩

/-- The primary partitions and the start of the extended one are as before. -/
theorem primary_again (v : DiskInfo) :
    v.laid_out.primary = v.place 0 v.primary v.skip_lba ∧
      v.laid_out.logical = v.place 1 v.logical v.ext_lba ∧ v.laid_out.ext_lba = v.ext_lba ∧
      v.laid_out.num_parts = v.num_parts := by
  obtain ⟨hprimary, hlogical⟩ := @parts_split v
  have hprimary' : v.laid_out.primary = v.place 0 v.primary v.skip_lba := hprimary
  refine ⟨hprimary', hlogical, ?_, length_parts⟩
  have hend := (place_again (sameDisk_laid_out v) (keepsAll_primary v.primary v.skip_lba)).2
  rw [DiskInfo.ext_lba, hprimary']
  exact hend

/-- It has the extended entry it had. -/
theorem ext_pentry_again (v : DiskInfo) :
    v.laid_out.ext_pentry v.laid_out.ext_lba = v.ext_pentry v.ext_lba := by
  rw [(primary_again v).2.2.1]
  rfl

/-- The items are the same exactly if the lengths of the logical partitions are. -/
theorem items_again_iff (v : DiskInfo) :
    v.laid_out.items = v.items ↔ v.KeepsAll 1 v.logical v.ext_lba := by
  obtain ⟨hprimary, hlogical, hext, hnum⟩ := primary_again v
  have hpri := @pri_items_again v v.laid_out (sameDisk_laid_out v) v.primary 0 v.skip_lba
    (keepsAll_primary v.primary v.skip_lba)
  have hlog := @log_items_again_iff v v.laid_out (sameDisk_laid_out v) v.ext_lba v.logical v.ext_lba
  unfold DiskInfo.items
  rw [hprimary, hnum, ext_pentry_again]
  have hskip : v.laid_out.skip_lba = v.skip_lba := rfl
  rw [hskip, hpri, List.append_cancel_left_eq]
  by_cases hparts : v.num_parts ≤ 4
  · rw [if_pos hparts, if_pos hparts, show v.logical = [] from if_pos hparts]
    exact ⟨fun _ => trivial, fun _ => rfl⟩
  · rw [if_neg hparts, if_neg hparts, List.cons.injEq, hext, hlogical, hlog]
    exact ⟨fun h => h.2, fun h => ⟨rfl, h⟩⟩

/-- **The second pass of `config_mbr`** makes the same items exactly if the lengths of the
logical partitions are kept, and then it also leaves the same `disk_info`. -/
theorem config_mbr_again_iff (hsect : v.PowerOfTwo) (hroom : v.room = true) :
    (∃ d, config_mbr v.laid_out = some (d, mk_empty_ptable :: v.items.reverse) ∧
      d.part_lst.map PartInfo.start_lba = v.parts.map PartInfo.start_lba) ↔
    v.KeepsAll 1 v.logical v.ext_lba := by
  have hsect' : v.laid_out.PowerOfTwo := hsect
  rw [config_mbr_eq hsect']
  constructor
  · rintro ⟨d, hconfig, -⟩
    split_ifs at hconfig
    simp only [Option.some.injEq, Prod.mk.injEq, List.cons.injEq, true_and,
      List.reverse_inj] at hconfig
    exact (items_again_iff v).mp hconfig.2
  · intro hkeeps
    obtain ⟨hprimary, hlogical, hext, -⟩ := primary_again v
    have hskip : v.laid_out.skip_lba = v.skip_lba := rfl
    have hpri := keepsAll_primary (v := v) v.primary v.skip_lba
    rw [DiskInfo.room, Bool.and_eq_true] at hroom
    -- There is room the second time, since every length that counts is the old one.
    have hroom' : v.laid_out.room = true := by
      rw [DiskInfo.room, hprimary, hlogical, hext, hskip,
        rooms_again hsect (sameDisk_laid_out v) (.inl rfl) hroom.1 hpri,
        rooms_again hsect (sameDisk_laid_out v) (.inr rfl) hroom.2 hkeeps]
      rfl
    have hparts : v.laid_out.parts = v.parts := by
      rw [DiskInfo.parts, DiskInfo.parts, hprimary, hlogical, hext, hskip,
        (place_again (sameDisk_laid_out v) hpri).1, (place_again (sameDisk_laid_out v) hkeeps).1]
    rw [if_pos hroom', (items_again_iff v).mpr hkeeps]
    exact ⟨_, rfl, congrArg _ hparts⟩

end Config

/-! ## The second pass of `validate` -/

section Validate

variable {dev : Device} {dinfo v : DiskInfo}

/-- The number of bytes the second pass compares with. -/
def DiskInfo.capacity (v : DiskInfo) (dev : Device) : UInt64 :=
  if v.num_lba ≠ 0 then v.num_lba.toUInt64 * v.sect_size64 else dev.blkgetsize64.getD 0

/-- The bytes `validate` counts for a list of partitions. -/
def DiskInfo.bytes (v : DiskInfo) (parts : List PartInfo) : UInt64 :=
  (v.skip_lba * v.sect_size.toUInt32).toUInt64 + (parts.map size_added).sum

/-- The device is as it was, so the second pass finds the same number of sectors. -/
theorem disk_size_again {sect_size : Int32} {num_lba num_lba' : UInt32} {size : UInt64}
    (h : disk_size dev sect_size num_lba = some (num_lba', size)) :
    ∃ size', disk_size dev sect_size num_lba' = some (num_lba', size') ∧
      (dev.mode = .blk → size' = if num_lba' ≠ 0 then
        num_lba'.toUInt64 * sect_size.toInt64.toUInt64 else dev.blkgetsize64.getD 0) := by
  by_cases hgiven : num_lba' = 0
  · -- nothing has been recorded
    have hzero : num_lba = 0 := by
      by_contra hne
      exact hne ((disk_size_spec h hne).symm.trans hgiven)
    rw [hzero, ← hgiven] at h
    refine ⟨size, h, fun hmode => ?_⟩
    rw [if_neg (not_not.mpr hgiven)]
    unfold disk_size at h
    rw [hmode, hgiven] at h
    simp only at h
    split at h
    · cases h
    · split_ifs at h
      cases hsize : dev.blkgetsize64 with
      | none =>
        rw [hsize] at h
        cases h
      | some disk_size =>
        rw [hsize, Option.map_some, Option.some.injEq, Prod.mk.injEq] at h
        exact h.2.symm
  · refine ⟨num_lba'.toUInt64 * sect_size.toInt64.toUInt64, ?_, fun _ => (if_pos hgiven).symm⟩
    unfold disk_size at h ⊢
    split at h
    · split at h
      · cases h
      · split_ifs at h with hsect _
        · simp only [if_neg hsect, if_neg hgiven]
        · simp only [if_neg hsect, if_neg hgiven]
    · split_ifs at h with hsect _
      · simp only [if_neg hsect, if_neg hgiven]
      · simp only [if_neg hsect, if_neg hgiven]
    · cases h

/-- A placed partition, and the one it was. -/
theorem getElem?_place {e : UInt32} {parts : List PartInfo} {lba : UInt32} {i : ℕ} {q : PartInfo}
    (h : (v.place e parts lba)[i]? = some q) :
    ∃ p lba', parts[i]? = some p ∧ q = v.placed e lba' p := by
  induction parts generalizing lba i with
  | nil => cases h
  | cons p parts ih =>
    rw [DiskInfo.place] at h
    cases i with
    | zero =>
      rw [List.getElem?_cons_zero, Option.some.injEq] at h
      exact ⟨p, lba, rfl, h.symm⟩
    | succ i =>
      rw [List.getElem?_cons_succ] at h
      obtain ⟨p', lba', hp', hq⟩ := ih h
      exact ⟨p', lba', hp', hq⟩

theorem getElem?_parts {i : ℕ} {q : PartInfo} (h : v.parts[i]? = some q) :
    ∃ p, v.part_lst[i]? = some p ∧ q.type = p.type ∧ (q.len_kb = FILL → p.len_kb = FILL) := by
  have hplaced : ∀ (e lba : UInt32) (p : PartInfo), (v.placed e lba p).len_kb = FILL →
      p.len_kb = FILL := by
    intro e lba p hfill
    by_contra hne
    rw [placed_len_kb (.inr hne)] at hfill
    exact hne hfill
  rw [← primary_append_logical v]
  by_cases hi : i < v.primary.length
  · rw [DiskInfo.parts, List.getElem?_append_left (by rwa [length_place])] at h
    obtain ⟨p, lba, hp, rfl⟩ := getElem?_place h
    exact ⟨p, by rwa [List.getElem?_append_left hi], rfl, hplaced 0 lba p⟩
  · rw [DiskInfo.parts, List.getElem?_append_right (by rw [length_place]; omega),
      length_place] at h
    obtain ⟨p, lba, hp, rfl⟩ := getElem?_place h
    exact ⟨p, by rwa [List.getElem?_append_right (by omega)], rfl, hplaced 1 lba p⟩

/-- If any fills the disk, it still is the last. -/
theorem fillLast_parts (h : FillLast v.part_lst) : FillLast v.parts := by
  rw [fillLast_iff] at h ⊢
  intro i q hq hfill
  obtain ⟨p, hp, -, himp⟩ := getElem?_parts hq
  rw [length_parts]
  exact h i p hp (himp hfill)

/-- **The second pass of `validate`** accepts unless the device is a block device on which the
bytes of the recorded sizes do not fit. -/
theorem validate_again (hv : validate dev dinfo = some v) :
    validate dev v.laid_out =
      if dev.mode = .blk ∧ v.bytes v.parts > v.capacity dev then none else some v.laid_out := by
  obtain ⟨hnum, -, hlast, htypes⟩ := validate_spec hv
  have hlst : dinfo.part_lst = v.part_lst := by rw [hnum]
  rw [hlst] at hlast htypes
  unfold validate at hv
  split_ifs at hv with hopen
  simp only [Option.bind_eq_bind, Option.bind_eq_some_iff] at hv
  obtain ⟨⟨num_lba, size⟩, hsize, total, -, hv⟩ := hv
  split_ifs at hv
  rw [Option.some.injEq] at hv
  subst hv
  obtain ⟨size', hsize', hcapacity⟩ := disk_size_again hsize
  -- The types of the laid out partitions are the old ones, so only the sum can refuse them.
  have hsum := sum_parts_eq (fillLast_parts hlast) (fun q hq => by
    obtain ⟨i, hi⟩ := List.getElem?_of_mem hq
    obtain ⟨p, hp, htype, -⟩ := getElem?_parts hi
    rw [htype]
    exact htypes p (List.mem_of_getElem? hp))
  unfold validate
  rw [if_pos hopen]
  have hdisk : disk_size dev (DiskInfo.laid_out { dinfo with num_lba }).sect_size
      (DiskInfo.laid_out { dinfo with num_lba }).num_lba = some (num_lba, size') := hsize'
  rw [hdisk]
  simp only [Option.bind_eq_bind, Option.bind_some]
  refine Eq.trans (congrArg (Option.bind · _) (hsum _)) ?_
  simp only [Option.bind_some]
  by_cases hmode : dev.mode = .blk
  · rw [hcapacity hmode]
    rfl
  · rw [if_neg (fun h => hmode h.1), if_neg (fun h => hmode h.1)]
    rfl

end Validate

/-! ## Both passes -/

section Both

variable {dev : Device} {dinfo dinfo' v : DiskInfo}

/-- The last partition is a logical one and fills the disk. -/
def DiskInfo.FillsLogical (v : DiskInfo) : Prop := ∃ p ∈ v.logical, p.len_kb = FILL

instance (v : DiskInfo) : Decidable v.FillsLogical :=
  inferInstanceAs (Decidable (∃ p ∈ v.logical, _))

/-- The sectors that are left for it. -/
def DiskInfo.fill_len (v : DiskInfo) : UInt32 :=
  v.num_lba - (v.end_lba 1 v.logical.dropLast v.ext_lba + 1)

/-- The bytes that `validate` counts for it in the second pass. -/
def DiskInfo.fill_bytes (v : DiskInfo) : UInt64 :=
  if v.FillsLogical ∧ v.to_kb v.fill_len ≠ FILL then (v.to_kb v.fill_len * 1024).toUInt64 else 0

theorem size_added_congr {p q : PartInfo} (h : p.len_kb = q.len_kb) :
    size_added p = size_added q := by
  rw [size_added, size_added, h]

/-- Laying out the primary partitions keeps the sum of the sizes. -/
theorem bytes_place_primary (parts : List PartInfo) (lba : UInt32) :
    ((v.place 0 parts lba).map size_added).sum = (parts.map size_added).sum := by
  induction parts generalizing lba with
  | nil => rfl
  | cons p parts ih =>
    rw [DiskInfo.place, List.map_cons, List.map_cons, List.sum_cons, List.sum_cons, ih,
      size_added_congr (placed_len_kb (.inl rfl))]

theorem bytes_place_logical {parts : List PartInfo} (hlast : FillLast parts) (lba : UInt32) :
    ((v.place 1 parts lba).map size_added).sum = (parts.map size_added).sum +
      (if (∃ p ∈ parts, p.len_kb = FILL) ∧
          v.to_kb (v.num_lba - (v.end_lba 1 parts.dropLast lba + 1)) ≠ FILL then
        (v.to_kb (v.num_lba - (v.end_lba 1 parts.dropLast lba + 1)) * 1024).toUInt64 else 0) := by
  induction parts generalizing lba with
  | nil => rw [if_neg (fun h => no_fill_nil h.1)]; rfl
  | cons p rest ih =>
    rw [DiskInfo.place, List.map_cons, List.map_cons, List.sum_cons, List.sum_cons]
    by_cases hp : p.len_kb = FILL
    · have hnil := hlast.head hp
      subst hnil
      have hplaced : (v.placed 1 lba p).len_kb = v.to_kb (v.num_lba - (lba + 1)) :=
        recorded_kb_of_fill hp (lba + 1)
      have hsize : size_added p = 0 := if_neg (not_not.mpr hp)
      have hexists : ∃ q ∈ [p], q.len_kb = FILL := ⟨p, List.mem_cons_self, hp⟩
      rw [hsize, size_added, hplaced, DiskInfo.place, List.map_nil, List.sum_nil, UInt64.add_zero,
        UInt64.zero_add, UInt64.zero_add]
      simp only [hexists, true_and, List.dropLast_singleton, DiskInfo.end_lba]
    · rw [ih hlast.tail, size_added_congr (placed_len_kb (.inr hp)), ← UInt64.add_assoc]
      congr 1
      have hfill := @exists_fill_cons p rest hp
      cases rest with
      | nil => rw [if_neg (fun h => no_fill_nil h.1), if_neg (fun h => no_fill_nil (hfill.mp h.1))]
      | cons q rest =>
        simp only [hfill, List.dropLast_cons_cons, DiskInfo.end_lba]

/-- What the second pass of `validate` counts. -/
theorem bytes_parts (hlast : FillLast v.part_lst) :
    v.bytes v.parts = v.bytes v.part_lst + v.fill_bytes := by
  have hsplit := primary_append_logical v
  have hlogical : FillLast v.logical := by
    rw [← hsplit] at hlast
    exact hlast.of_append.2
  have hsum : (v.part_lst.map size_added).sum
      = (v.primary.map size_added).sum + (v.logical.map size_added).sum := by
    rw [← hsplit, List.map_append, List.sum_append]
  rw [DiskInfo.bytes, DiskInfo.bytes, DiskInfo.parts, List.map_append, List.sum_append,
    bytes_place_primary, bytes_place_logical hlogical, hsum, UInt64.add_assoc, UInt64.add_assoc]
  rfl

/-- The second pass computes the same write list and the same starts. -/
def SameAgain (dev : Device) (dinfo' : DiskInfo) (wr_list : List WriteItem) : Prop :=
  ∃ dinfo'', validate_and_config dev dinfo' = some (dinfo'', wr_list) ∧
    dinfo''.part_lst.map PartInfo.start_lba = dinfo'.part_lst.map PartInfo.start_lba

/-- A second pass does the same exactly if the lengths are kept and still fit. -/
theorem sameAgain_iff_keepsAll {wr_list : List WriteItem} (hsect : dinfo.PowerOfTwo)
    (hv : validate dev dinfo = some v)
    (h : validate_and_config dev dinfo = some (dinfo', wr_list)) :
    SameAgain dev dinfo' wr_list ↔
      v.KeepsAll 1 v.logical v.ext_lba ∧
        (dev.mode = .blk → v.bytes v.part_lst + v.fill_bytes ≤ v.capacity dev) := by
  obtain ⟨hnum, -, hlast, -⟩ := validate_spec hv
  have hvsect : v.PowerOfTwo := by
    rw [hnum]
    exact hsect
  have hlast' : FillLast v.part_lst := by
    rw [hnum]
    exact hlast
  rw [validate_and_config, hv] at h
  simp only [Option.bind_eq_bind, Option.bind_some] at h
  split_ifs at h with hscheme
  rw [config_mbr_eq hvsect] at h
  split_ifs at h with hroom
  simp only [Option.some.injEq, Prod.mk.injEq] at h
  obtain ⟨rfl, rfl⟩ := h
  -- The second pass runs on the layout: the primary ones are as before, the logical ones decide.
  have hconfig := config_mbr_again_iff hvsect hroom
  have hvalidate := validate_again hv
  rw [bytes_parts hlast'] at hvalidate
  have hfits : ¬ (dev.mode = .blk ∧ v.bytes v.part_lst + v.fill_bytes > v.capacity dev) ↔
      (dev.mode = .blk → v.bytes v.part_lst + v.fill_bytes ≤ v.capacity dev) := by
    rw [not_and, gt_iff_lt]
    exact imp_congr_right fun _ => UInt64.not_lt
  rw [← hfits]
  show (∃ dinfo'', validate_and_config dev v.laid_out = some (dinfo'', _) ∧ _) ↔ _
  rw [validate_and_config, hvalidate]
  by_cases hblk : dev.mode = .blk ∧ v.bytes v.part_lst + v.fill_bytes > v.capacity dev
  · rw [if_pos hblk]
    constructor
    · rintro ⟨d, hd, -⟩
      cases hd
    · intro hcond
      exact absurd hblk hcond.2
  · rw [if_neg hblk]
    simp only [Option.bind_eq_bind, Option.bind_some,
      if_pos (show v.laid_out.scheme = PART_SCHEME_MBR from hscheme)]
    exact hconfig.trans ⟨fun h => ⟨h, hblk⟩, fun h => h.1⟩

/-- What is left for a partition that fills the disk, in terms of the whole run. -/
theorem keepsAll_iff_wholeKb (hsect : v.PowerOfTwo) (hlast : FillLast v.part_lst) :
    v.KeepsAll 1 v.logical v.ext_lba ↔ (v.FillsLogical → v.WholeKb v.fill_len) := by
  rw [← primary_append_logical v] at hlast
  exact keepsAll_logical_iff hsect hlast.of_append.2 v.ext_lba

/-- **When a layout is the same the second time**: exactly if what is left for a logical
partition that fills the disk is a whole number of KB of 32 bits, and, on a block device, the
bytes that are then counted for it fit as well. -/
theorem same_again_iff {wr_list : List WriteItem} (hsect : dinfo.PowerOfTwo)
    (hv : validate dev dinfo = some v)
    (h : validate_and_config dev dinfo = some (dinfo', wr_list)) :
    SameAgain dev dinfo' wr_list ↔
      (v.FillsLogical → v.WholeKb v.fill_len) ∧
        (dev.mode = .blk → v.bytes v.part_lst + v.fill_bytes ≤ v.capacity dev) := by
  obtain ⟨hnum, -, hlast, -⟩ := validate_spec hv
  have hvsect : v.PowerOfTwo := by
    rw [hnum]
    exact hsect
  have hlast' : FillLast v.part_lst := by
    rw [hnum]
    exact hlast
  rw [sameAgain_iff_keepsAll hsect hv h, keepsAll_iff_wholeKb hvsect hlast']

end Both

/-! ## A partition that fills the disk -/

section Filled

/-- The five partitions with the last one taking the rest of `num_lba` sectors. -/
def filled (num_lba : UInt32) : DiskInfo :=
  { five with
    num_lba
    part_lst := five.part_lst.take 4 ++ [⟨cstr "data", 0, PC_PART_TYPE_LINUX, FILL, 0⟩] }

/-- With a disk of whole kilobytes, it does. -/
theorem same_again_filled :
    ∃ dinfo' wr_list, validate_and_config image_file (filled 32769) = some (dinfo', wr_list) ∧
      SameAgain image_file dinfo' wr_list := by
  have hsect : (filled 32769).PowerOfTwo := five_power_of_two
  have hv : validate image_file (filled 32769) = some (filled 32769) := by decide
  have h := validate_and_config_of_room hsect hv rfl (by decide)
  exact ⟨_, _, h, (same_again_iff hsect hv h).mpr
    ⟨fun _ => ⟨by decide, by decide⟩, fun hmode => by cases hmode⟩⟩

/-- With one sector less an odd number is left, 24511, and the second pass counts 24510. -/
theorem odd_fill_not_same_again :
    ∃ dinfo' wr_list, validate_and_config image_file (filled 32768) = some (dinfo', wr_list) ∧
      ¬ SameAgain image_file dinfo' wr_list := by
  have hsect : (filled 32768).PowerOfTwo := five_power_of_two
  have hv : validate image_file (filled 32768) = some (filled 32768) := by decide
  have h := validate_and_config_of_room hsect hv rfl (by decide)
  refine ⟨_, _, h, fun hsame => ?_⟩
  have hlast : FillLast (filled 32768).part_lst := (validate_spec hv).2.2.1
  have hkeeps := ((sameAgain_iff_keepsAll hsect hv h).mp hsame).1
  have hwhole := (keepsAll_iff_wholeKb hsect hlast).mp hkeeps (by decide)
  exact absurd hwhole.1 (by decide)

end Filled

end EditDiskLbl

end Iago
