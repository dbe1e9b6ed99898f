/-
`gpt_find_contiguous_free_space`: where on the disk a new system can go.

The function collects the `[first_lba, last_lba]` of the entries in use, sorts
them by `first_lba` and sweeps over the result, keeping the largest gap seen. The
region it returns is formatted, so the question is whether anything is in it.

The sweep never looks back: each region moves the base to its own end plus one,
in 64 bits, also when that is behind the end of an earlier region. So the answer
is the first longest of the gaps *the sweep* sees (`find_eq`), and it is free
exactly when no gap that is not free wins (`free_region_iff`). On a well-formed
table every gap the sweep sees is free, and the answer is the lowest longest run
of free usable LBAs (`find_wellFormed`).
-/
import Iago.Gaps
import Iago.GptRoundTrip
import Mathlib.Data.List.Sort

set_option autoImplicit false

namespace Iago

/-! ## `qsort`

C promises a permutation of the array, sorted if the comparison is consistent on
its elements. What comes of an inconsistent comparison it leaves open, and so
does the model: the sort is a parameter. -/

/-- The comparison orders the elements of the array. -/
def Consistent {α : Type} (cmp : α → α → Int) (xs : List α) : Prop :=
  (∀ a ∈ xs, ∀ b ∈ xs, cmp a b < 0 ↔ 0 < cmp b a) ∧
    ∀ a ∈ xs, ∀ b ∈ xs, ∀ c ∈ xs, cmp a b ≤ 0 → cmp b c ≤ 0 → cmp a c ≤ 0

/-- The C library's `qsort`. -/
class Qsort where
  qsort {α : Type} (cmp : α → α → Int) (xs : List α) : List α
  perm {α : Type} (cmp : α → α → Int) (xs : List α) : (qsort cmp xs).Perm xs
  sorted {α : Type} {cmp : α → α → Int} {xs : List α} (h : Consistent cmp xs) :
    (qsort cmp xs).Pairwise fun a b => cmp a b ≤ 0

export Qsort (qsort)

/-- Insertion sort is a `qsort`. -/
@[reducible] def insertionQsort : Qsort where
  qsort cmp xs :=
    (xs.attach.insertionSort fun a b => cmp a.1 b.1 ≤ 0).map Subtype.val
  perm cmp xs := by
    have h := (List.perm_insertionSort (fun a b => cmp a.1 b.1 ≤ 0) xs.attach).map Subtype.val
    rwa [List.attach_map_subtype_val] at h
  sorted {α cmp xs} h := by
    have htotal : Std.Total fun a b : {x // x ∈ xs} => cmp a.1 b.1 ≤ 0 :=
      ⟨fun a b => by
        rcases Int.lt_or_le 0 (cmp a.1 b.1) with hpos | hle
        · exact .inr (Int.le_of_lt ((h.1 b.1 b.2 a.1 a.2).mpr hpos))
        · exact .inl hle⟩
    have htrans : IsTrans {x // x ∈ xs} fun a b => cmp a.1 b.1 ≤ 0 :=
      ⟨fun a b c => h.2 a.1 a.2 b.1 b.2 c.1 c.2⟩
    rw [List.pairwise_map]
    exact List.pairwise_insertionSort _ _

/-! ## The search -/

section Model

variable {ε : Type} [Platform] [Qsort]

/-- `struct ptn_region`. -/
structure PtnRegion where
  start : UInt64
  end_ : UInt64
  size : UInt64
  deriving DecidableEq, Repr

/-- `regioncmp`: the sign of the difference of the starts, read as an `int64_t`. -/
def regioncmp (pa pb : PtnRegion) : Int :=
  let d := (pa.start - pb.start).toInt64
  if d < 0 then -1 else if d > 0 then 1 else 0

/-- `largest_update`. -/
def largest_update (largest : PtnRegion) (base start : UInt64) : PtnRegion :=
  if start > base then
    let size := start - base
    if size > largest.size then { start := base, end_ := start - 1, size := size } else largest
  else largest

/-- The body of the sweep: the base and the largest gap so far. -/
def sweep_region (s : UInt64 × PtnRegion) (region : PtnRegion) : UInt64 × PtnRegion :=
  (region.end_ + 1, largest_update s.2 s.1 region.start)

/-- `gpt_find_contiguous_free_space`: `none` is the return value -1, `some` the
return value 0 with `*start_lba` and `*end_lba`. -/
def gpt_find_contiguous_free_space (g : Gpt) : Exec ε (Option (UInt64 × UInt64)) := do
  let r ← partition_for_each (ρ := Empty) (fun _ => g)
    (fun _ e regions => .ret (.inl (regions ++ [⟨e.first_lba, e.last_lba, 0⟩]))) []
  let regions := qsort regioncmp (Sum.elim id Empty.elim r)
  let s := regions.foldl sweep_region (g.header.first_usable_lba, ⟨0, 0, 0⟩)
  let largest := largest_update s.2 s.1 (g.header.last_usable_lba + 1)
  if largest.size = 0 then .ret none else .ret (some (largest.start, largest.end_))

end Model

/-! ## What the sweep computes -/

section Sweep

/-- How much a gap holds. -/
def len (p : ℕ × ℕ) : ℕ := p.2 - p.1

/-- What `largest` holds once the first longest gap is known. -/
def largest_of : Option (ℕ × ℕ) → PtnRegion
  | none => ⟨0, 0, 0⟩
  | some p => ⟨UInt64.ofNat p.1, UInt64.ofNat (p.2 - 1), UInt64.ofNat (len p)⟩

/-- A gap between two LBAs. -/
def IsGap (p : ℕ × ℕ) : Prop := p.1 < p.2 ∧ p.2 < 2 ^ 64

/-- `largest_update` goes from the first longest of some gaps to the first longest of
these and one more. -/
theorem largest_update_eq {ps : List (ℕ × ℕ)} (hps : ∀ p ∈ ps, IsGap p) (base start : UInt64) :
    largest_update (largest_of (ps.argmax len)) base start
      = largest_of ((ps ++ gap base.toNat start.toNat).argmax len) := by
  have hstart := start.toNat_lt
  rw [largest_update, gap]
  by_cases hlt : base < start
  · have hlt' := UInt64.lt_iff_toNat_lt.mp hlt
    have hsize : (start - base).toNat = start.toNat - base.toNat := by
      rw [UInt64.toNat_sub]
      omega
    have hend : (start - 1).toNat = start.toNat - 1 := by
      rw [UInt64.toNat_sub, UInt64.toNat_one]
      omega
    have hnew : (⟨base, start - 1, start - base⟩ : PtnRegion)
        = largest_of (some (base.toNat, start.toNat)) := by
      rw [largest_of, len, UInt64.ofNat_toNat, ← hsize, UInt64.ofNat_toNat, ← hend,
        UInt64.ofNat_toNat]
    rw [if_pos hlt, if_pos hlt', List.argmax_concat]
    cases hmax : ps.argmax len with
    | none =>
      have hpos : start - base > 0 := by
        rw [gt_iff_lt, UInt64.lt_iff_toNat_lt, hsize, UInt64.toNat_zero]
        omega
      simp only [largest_of, hpos, if_true]
      exact hnew
    | some p =>
      have hp := hps p (List.argmax_mem hmax)
      have hlen : (UInt64.ofNat (len p)).toNat = len p := by
        rw [UInt64.toNat_ofNat', Nat.mod_eq_of_lt]
        exact Nat.lt_of_le_of_lt (Nat.sub_le _ _) hp.2
      -- The code's comparison of sizes is that of the gaps, so the first of the longest stays.
      have hiff : start - base > (largest_of (some p)).size
          ↔ len p < len (base.toNat, start.toNat) := by
        show start - base > UInt64.ofNat (len p) ↔ _
        rw [gt_iff_lt, UInt64.lt_iff_toNat_lt, hlen, hsize, len, len]
      by_cases hlonger : len p < len (base.toNat, start.toNat)
      · simp only [hiff.mpr hlonger, hlonger, if_true]
        exact hnew
      · simp only [show ¬ start - base > (largest_of (some p)).size from
          fun h => hlonger (hiff.mp h), hlonger, if_false]
  · rw [if_neg hlt, if_neg fun h => hlt (UInt64.lt_iff_toNat_lt.mpr h), List.append_nil]

/-- The stretch a region takes, in the sweep's arithmetic. -/
def PtnRegion.interval (r : PtnRegion) : ℕ × ℕ := (r.start.toNat, (r.end_ + 1).toNat)

/-- Between two regions there is a gap. -/
theorem isGap_gap {base start : UInt64} {p : ℕ × ℕ} (hp : p ∈ gap base.toNat start.toNat) :
    IsGap p := by
  obtain ⟨rfl, hlt⟩ := mem_gap.mp hp
  exact ⟨hlt, start.toNat_lt⟩

/-- The whole sweep, from any base and any gaps found before. -/
theorem sweep_eq (regions : List PtnRegion) {ps : List (ℕ × ℕ)} (hps : ∀ p ∈ ps, IsGap p)
    (base hi : UInt64) :
    let s := regions.foldl sweep_region (base, largest_of (ps.argmax len))
    largest_update s.2 s.1 hi
      = largest_of
        ((ps ++ gaps base.toNat (regions.map PtnRegion.interval) hi.toNat).argmax len) := by
  induction regions generalizing base ps with
  | nil => exact largest_update_eq hps base hi
  | cons r regions ih =>
    have hps' : ∀ p ∈ ps ++ gap base.toNat r.start.toNat, IsGap p := fun p hp =>
      (List.mem_append.mp hp).elim (hps p) isGap_gap
    rw [List.foldl_cons, sweep_region, largest_update_eq hps, List.map_cons, gaps,
      ← List.append_assoc]
    exact ih hps' (r.end_ + 1)

/-- So there is between any two that are next to each other. -/
theorem isGap_gaps {regions : List PtnRegion} {base hi : UInt64} {p : ℕ × ℕ}
    (hp : p ∈ gaps base.toNat (regions.map PtnRegion.interval) hi.toNat) : IsGap p := by
  induction regions generalizing base with
  | nil => exact isGap_gap hp
  | cons r regions ih =>
    rcases List.mem_append.mp hp with hp | hp
    · exact isGap_gap hp
    · exact ih hp

variable {ε : Type} [Platform] [Qsort] {g : Gpt}

/-- The entries in use as the regions that are sorted. -/
def used_regions (g : Gpt) : List PtnRegion := g.inUse.map fun p => ⟨p.2.first_lba, p.2.last_lba, 0⟩

/-- The gaps the sweep sees. -/
def sweep_gaps (g : Gpt) : List (ℕ × ℕ) :=
  gaps g.header.first_usable_lba.toNat ((qsort regioncmp (used_regions g)).map PtnRegion.interval)
    (g.header.last_usable_lba + 1).toNat

/-- **The answer is the first longest gap of the sweep**, when the entries can be
read at all. -/
theorem find_eq (hg : g.Readable) :
    (gpt_find_contiguous_free_space g : Exec ε _) = .ret (((sweep_gaps g).argmax len).map
      fun p => (UInt64.ofNat p.1, UInt64.ofNat (p.2 - 1))) := by
  -- The callback collects the entries in use, in the order of the table.
  have hcollect (ps : List (UInt32 × GptEntry)) (rs : List PtnRegion) :
      ps.foldl (fun rs p => rs ++ [(⟨p.2.first_lba, p.2.last_lba, 0⟩ : PtnRegion)]) rs
        = rs ++ ps.map fun p => ⟨p.2.first_lba, p.2.last_lba, 0⟩ := by
    induction ps generalizing rs with
    | nil => rw [List.map_nil, List.append_nil]; rfl
    | cons p ps ih => rw [List.foldl_cons, ih, List.map_cons, List.append_assoc]; rfl
  have hnil : ∀ p ∈ ([] : List (ℕ × ℕ)), IsGap p := fun _ h => absurd h List.not_mem_nil
  have hsweep := sweep_eq (qsort regioncmp (used_regions g)) hnil g.header.first_usable_lba (g.header.last_usable_lba + 1)
  rw [List.nil_append, List.argmax_nil] at hsweep
  have hgap (p : ℕ × ℕ) (hp : p ∈ (sweep_gaps g).argmax len) :
      (UInt64.ofNat (len p)).toNat = len p ∧ 0 < len p := by
    have := isGap_gaps (List.argmax_mem hp)
    rw [UInt64.toNat_ofNat', len, Nat.mod_eq_of_lt (by have := this.2; omega)]
    exact ⟨rfl, Nat.sub_pos_of_lt this.1⟩
  rw [gpt_find_contiguous_free_space, partition_for_each_const hg, forEach_foldl, hcollect,
    List.nil_append, Exec.ret_bind]
  simp only [Sum.elim_inl, id_eq]
  change largest_update _ _ _ = largest_of ((sweep_gaps g).argmax len) at hsweep
  change (if (largest_update _ _ _).size = 0 then _ else _) = _
  rw [show (List.map (fun p => (⟨p.2.first_lba, p.2.last_lba, 0⟩ : PtnRegion)) g.inUse)
    = used_regions g from rfl]
  rw [show largest_of none = ⟨0, 0, 0⟩ from rfl] at hsweep
  rw [hsweep]
  -- No gap at all leaves the initial region of size 0, which is what -1 is returned for.
  cases hmax : (sweep_gaps g).argmax len with
  | none => rfl
  | some p =>
    obtain ⟨hlen, hpos⟩ := hgap p hmax
    have hne : ¬ (largest_of (some p)).size = 0 := by
      intro h0
      have h0' : (UInt64.ofNat (len p)).toNat = (0 : UInt64).toNat := congrArg UInt64.toNat h0
      rw [hlen, UInt64.toNat_zero] at h0'
      omega
    rw [if_neg hne]
    rfl

/-- A table that cannot be read is not searched. -/
theorem find_fault (hg : ¬ g.Readable) :
    (gpt_find_contiguous_free_space g : Exec ε _) = .fault := by
  rw [gpt_find_contiguous_free_space, partition_for_each_fault hg, Exec.fault_bind]

theorem find_returns (hg : g.Readable) :
    ∃ r, (gpt_find_contiguous_free_space g : Exec ε _) = .ret r := ⟨_, find_eq hg⟩

/-- A search that returned has looked at every slot. -/
theorem mapped_of_find (hg : g.Laid) {r : Option (UInt64 × UInt64)}
    (h : (gpt_find_contiguous_free_space g : Exec ε _) = .ret r) : g.Mapped := by
  by_cases hread : g.Readable
  · exact hg.mapped (hg.inBounds_of_readable hread)
  · rw [find_fault hread] at h
    cases h

/-- What a successful search returned: a gap, the first longest one. -/
theorem find_spec {s e : UInt64}
    (h : (gpt_find_contiguous_free_space g : Exec ε _) = .ret (some (s, e))) :
    ∃ p ∈ (sweep_gaps g).argmax len, IsGap p ∧ s.toNat = p.1 ∧ e.toNat + 1 = p.2 := by
  have hg : g.Readable := by
    by_contra hg
    rw [find_fault hg] at h
    cases h
  rw [find_eq hg] at h
  simp only [Exec.ret.injEq, Option.map_eq_some_iff, Prod.mk.injEq] at h
  obtain ⟨p, hmax, rfl, rfl⟩ := h
  have hp : IsGap p := isGap_gaps (List.argmax_mem hmax)
  refine ⟨p, hmax, hp, ?_, ?_⟩
  · rw [UInt64.toNat_ofNat', Nat.mod_eq_of_lt (hp.1.trans hp.2)]
  · have hlt := hp.1
    rw [UInt64.toNat_ofNat', Nat.mod_eq_of_lt (by have := hp.2; omega)]
    omega

end Sweep

/-! ## When the answer is free -/

section Free

variable {ε : Type} [Platform] {g : Gpt} {s e : UInt64}

/-- An LBA of an entry in use. -/
def Gpt.Occupied (g : Gpt) (x : ℕ) : Prop :=
  ∃ i, g.InUse i ∧ (g.entry i).first_lba.toNat ≤ x ∧ x ≤ (g.entry i).last_lba.toNat

/-- The region from `s` to `e` is inside the usable range and meets no entry in use. -/
structure FreeRegion (g : Gpt) (s e : UInt64) : Prop where
  first : g.header.first_usable_lba ≤ s
  le : s ≤ e
  last : e ≤ g.header.last_usable_lba
  free : ∀ lba, s ≤ lba → lba ≤ e →
    ∀ i, g.InUse i → ¬ ((g.entry i).first_lba ≤ lba ∧ lba ≤ (g.entry i).last_lba)

/-- The same of a gap, which ends before its second component. -/
structure Clean (g : Gpt) (p : ℕ × ℕ) : Prop where
  first : g.header.first_usable_lba.toNat ≤ p.1
  last : p.2 ≤ g.header.last_usable_lba.toNat + 1
  free : ∀ x ∈ Set.Ico p.1 p.2, ¬ g.Occupied x

/-- A region is free if no entry meets its sectors. -/
theorem freeRegion_iff_clean {p : ℕ × ℕ} (hp : p.1 < p.2) (hs : s.toNat = p.1)
    (he : e.toNat + 1 = p.2) : FreeRegion g s e ↔ Clean g p := by
  constructor
  · rintro ⟨hfirst, -, hlast, hfree⟩
    rw [UInt64.le_iff_toNat_le] at hfirst hlast
    refine ⟨by omega, by omega, ?_⟩
    rintro x ⟨hsx, hxe⟩ ⟨i, hi, hfx, hxl⟩
    have hx : (UInt64.ofNat x).toNat = x := by
      have := e.toNat_lt
      rw [UInt64.toNat_ofNat', Nat.mod_eq_of_lt (by omega)]
    refine hfree (UInt64.ofNat x) ?_ ?_ i hi ⟨?_, ?_⟩ <;> rw [UInt64.le_iff_toNat_le, hx] <;> omega
  · rintro ⟨hfirst, hlast, hfree⟩
    refine ⟨?_, ?_, ?_, fun lba hsl hle i hi hin => ?_⟩
    · rw [UInt64.le_iff_toNat_le]; omega
    · rw [UInt64.le_iff_toNat_le]; omega
    · rw [UInt64.le_iff_toNat_le]; omega
    · rw [UInt64.le_iff_toNat_le] at hsl hle
      rw [UInt64.le_iff_toNat_le, UInt64.le_iff_toNat_le] at hin
      exact hfree lba.toNat ⟨by omega, by omega⟩ ⟨i, hi, hin⟩

/-- **When the region found is free**: exactly when each gap of the sweep that is not
is beaten by one that is, a longer one or one as long that comes before it. -/
theorem free_region_iff [Qsort]
    (h : gpt_find_contiguous_free_space (ε := Empty) g = .ret (some (s, e))) :
    FreeRegion g s e ↔ ∀ p ∈ sweep_gaps g, ¬ Clean g p → ∃ q ∈ sweep_gaps g,
      Clean g q ∧ Beats len (sweep_gaps g) q p := by
  obtain ⟨p, hmax, hp, hs, he⟩ := find_spec h
  rw [freeRegion_iff_clean hp.1 hs he]
  exact argmax_satisfies_iff hmax

end Free

/-! ### Two disks -/

section SmallRegions

attribute [local instance] x86 insertionQsort

def region_entry (first last : UInt64) : GptEntry :=
  { GptEntry.zero with first_lba := first, last_lba := last }

/-- Four slots and the usable LBAs 3 to 20. -/
def gaps_header : GptHeader := { four_header with last_usable_lba := 20 }

/-- Two entries, the later one in the earlier slot, and three gaps: LBAs 3 to 4, 9 to 13 and 16
to 20, of which the last two are as long. -/
def gaps_gpt : Gpt :=
  ((four_gpt.withHeader gaps_header).setEntry 1 (region_entry 14 15)).setEntry 3 (region_entry 5 8)

theorem gaps_mapped : gaps_gpt.Mapped := by
  have hfour := four_mapped
  have hheader : (four_gpt.withHeader gaps_header).Mapped := ⟨rfl, hfour.size, hfour.inBounds⟩
  exact setEntry_mapped (setEntry_mapped hheader (by decide)) (by decide)

theorem gaps_inUse : gaps_gpt.inUse = [(1, region_entry 14 15), (3, region_entry 5 8)] := by
  decide +kernel

/-- The first of the two is found, and it is free. -/
theorem gaps_free_region_iff :
    gpt_find_contiguous_free_space (ε := Empty) gaps_gpt = .ret (some (9, 13)) ∧
    (FreeRegion gaps_gpt 9 13 ↔ ∀ p ∈ sweep_gaps gaps_gpt, ¬ Clean gaps_gpt p →
      ∃ q ∈ sweep_gaps gaps_gpt, Clean gaps_gpt q ∧ Beats len (sweep_gaps gaps_gpt) q p) :=
  have hfind : gpt_find_contiguous_free_space (ε := Empty) gaps_gpt = .ret (some (9, 13)) := by
    decide +kernel
  ⟨hfind, free_region_iff hfind⟩

/-- An entry over the whole usable range, and one inside it. -/
def nested_entries : List UInt8 :=
  GptEntry.codec.enc (region_entry 3 5) ++ GptEntry.codec.enc (region_entry 4 4)

def nested_header : GptHeader := small_header 2 0x889a41d7 0x2f10c6f9

def nested_disk : Dev :=
  (small_disk nested_header).withData ((small_disk nested_header).data.write 1024 nested_entries)

def nested_gpt : Gpt := (small_gpt.withHeader nested_header).withBuf nested_entries

/-- The inner entry moves the base back into the outer one, and LBA 5 of the outer
one is found free. -/
theorem nested_not_free_region :
    gpt_read (ε := Empty) nested_disk (List.replicate 3 .all) small_gpt = .ret (0, nested_gpt, []) ∧
    gpt_find_contiguous_free_space (ε := Empty) nested_gpt = .ret (some (5, 5)) ∧
    ¬ FreeRegion nested_gpt 5 5 := by
  refine ⟨by decide +kernel, by decide +kernel, fun h => ?_⟩
  exact h.free 5 (by decide) (by decide) 1 (by decide +kernel) (by decide +kernel)

end SmallRegions

/-! ## Well-formed tables -/

section WellFormed

variable {ε : Type} [Platform] {g : Gpt}

/-- Entries in use that end no earlier than they start, inside the usable range,
with no LBA in common. -/
structure Gpt.WellFormed (g : Gpt) : Prop where
  le : ∀ i, g.InUse i → (g.entry i).first_lba ≤ (g.entry i).last_lba
  inside : ∀ i, g.InUse i → g.header.first_usable_lba ≤ (g.entry i).first_lba ∧
    (g.entry i).last_lba ≤ g.header.last_usable_lba
  apart : ∀ i j, g.InUse i → g.InUse j → i ≠ j →
    (g.entry i).last_lba < (g.entry j).first_lba ∨ (g.entry j).last_lba < (g.entry i).first_lba

omit [Platform] in
/-- A word read as a signed number. -/
theorem toInt_toInt64 (x : UInt64) :
    x.toInt64.toInt = if x.toNat < 2 ^ 63 then (x.toNat : Int) else x.toNat - 2 ^ 64 := by
  show x.toBitVec.toInt = _
  rw [BitVec.toInt_eq_toNat_cond]
  show (if 2 * x.toNat < 2 ^ 64 then (x.toNat : Int) else x.toNat - (2 ^ 64 : ℕ)) = _
  split_ifs <;> omega

omit [Platform] in
theorem toNat_toUInt64_of_nonneg {x : Int64} (h : 0 ≤ x.toInt) :
    (x.toUInt64.toNat : ℤ) = x.toInt ∧ x.toUInt64.toNat < 2 ^ 63 := by
  have hback : x.toInt = x.toUInt64.toInt64.toInt := rfl
  rw [hback, toInt_toInt64] at h ⊢
  have hlt := x.toUInt64.toNat_lt
  split_ifs at h ⊢ <;> omega

omit [Platform] in
theorem toInt_toInt64_of_lt {x : UInt64} (h : x.toNat < 2 ^ 63) :
    x.toInt64.toInt = x.toNat := by
  rw [toInt_toInt64, if_pos h]

omit [Platform] in
/-- Of starts below `2 ^ 63` the signed difference has the right sign. -/
theorem regioncmp_eq {a b : PtnRegion} (ha : a.start.toNat < 2 ^ 63)
    (hb : b.start.toNat < 2 ^ 63) :
    regioncmp a b = if a.start.toNat < b.start.toNat then -1
      else if b.start.toNat < a.start.toNat then 1 else 0 := by
  have hd : (a.start - b.start).toInt64.toInt = (a.start.toNat : Int) - b.start.toNat := by
    rw [toInt_toInt64, UInt64.toNat_sub]
    split_ifs <;> omega
  rw [regioncmp]
  simp only [Int64.lt_iff_toInt_lt, gt_iff_lt, Int64.toInt_zero, hd]
  split_ifs <;> first | rfl | omega

variable {rs : List PtnRegion}

omit [Platform] in
/-- The comparison orders regions that start below 2^63. -/
theorem regioncmp_consistent (h : ∀ r ∈ rs, r.start.toNat < 2 ^ 63) : Consistent regioncmp rs := by
  constructor
  · intro a ha b hb
    rw [regioncmp_eq (h a ha) (h b hb), regioncmp_eq (h b hb) (h a ha)]
    split_ifs <;> omega
  · intro a ha b hb c hc
    rw [regioncmp_eq (h a ha) (h b hb), regioncmp_eq (h b hb) (h c hc),
      regioncmp_eq (h a ha) (h c hc)]
    split_ifs <;> omega

omit [Platform] in
/-- Regions with such starts are sorted by them. -/
theorem qsort_starts [Qsort] (h : ∀ r ∈ rs, r.start.toNat < 2 ^ 63) :
    (qsort regioncmp rs).Pairwise fun a b => a.start.toNat ≤ b.start.toNat := by
  refine (Qsort.sorted (regioncmp_consistent h)).imp_of_mem fun {a b} ha hb hab => ?_
  have hperm := Qsort.perm regioncmp rs
  rw [regioncmp_eq (h a (hperm.mem_iff.mp ha)) (h b (hperm.mem_iff.mp hb))] at hab
  split_ifs at hab <;> omega

/-- The regions are those of the entries in use. -/
theorem mem_used_regions {r : PtnRegion} :
    r ∈ used_regions g ↔ ∃ i, g.InUse i ∧ r = ⟨(g.entry i).first_lba, (g.entry i).last_lba, 0⟩ := by
  rw [used_regions, List.mem_map]
  constructor
  · rintro ⟨⟨i, e⟩, hp, rfl⟩
    obtain ⟨hi, rfl⟩ := mem_inUse.mp hp
    exact ⟨i, hi, rfl⟩
  · rintro ⟨i, hi, rfl⟩
    exact ⟨(i, g.entry i), mem_inUse.mpr ⟨hi, rfl⟩, rfl⟩

/-- Whether a table is in order can be seen from the list of its entries in use. -/
theorem wellFormed_iff_inUse : g.WellFormed ↔
    (∀ p ∈ g.inUse, p.2.first_lba ≤ p.2.last_lba ∧ g.header.first_usable_lba ≤ p.2.first_lba ∧
      p.2.last_lba ≤ g.header.last_usable_lba) ∧
    ∀ p ∈ g.inUse, ∀ q ∈ g.inUse, p.1 ≠ q.1 →
      p.2.last_lba < q.2.first_lba ∨ q.2.last_lba < p.2.first_lba := by
  constructor
  · intro hwf
    constructor
    · rintro ⟨i, e⟩ hp
      obtain ⟨hi, rfl⟩ := mem_inUse.mp hp
      exact ⟨hwf.le i hi, hwf.inside i hi⟩
    · rintro ⟨i, e⟩ hp ⟨j, e'⟩ hq hij
      obtain ⟨hi, rfl⟩ := mem_inUse.mp hp
      obtain ⟨hj, rfl⟩ := mem_inUse.mp hq
      exact hwf.apart i j hi hj hij
  · rintro ⟨hsound, hapart⟩
    have hmem (i : UInt32) (hi : g.InUse i) : (i, g.entry i) ∈ g.inUse := mem_inUse.mpr ⟨hi, rfl⟩
    constructor
    · intro i hi
      exact (hsound _ (hmem i hi)).1
    · intro i hi
      exact (hsound _ (hmem i hi)).2
    · intro i j hi hj hij
      exact hapart _ (hmem i hi) _ (hmem j hj) hij

instance (g : Gpt) : Decidable g.WellFormed := decidable_of_iff _ wellFormed_iff_inUse.symm

/-- The indices in use are listed once. -/
theorem inUse_pairwise_ne : g.inUse.Pairwise fun p q => p.1 ≠ q.1 := by
  rw [Gpt.inUse, List.pairwise_map]
  exact (nodup_indices _).filter _

/-- Nothing the sweep computes wraps: the entries in use end below `2 ^ 63`, and the usable
range before the last LBA there can be. -/
structure Gpt.Sweepable (g : Gpt) : Prop where
  small : ∀ i, g.InUse i → (g.entry i).last_lba.toNat < 2 ^ 63
  last : g.header.last_usable_lba.toNat + 1 < 2 ^ 64

/-- The end of the usable area does not wrap. -/
theorem Gpt.Sweepable.toNat_last (hsweep : g.Sweepable) :
    (g.header.last_usable_lba + 1).toNat = g.header.last_usable_lba.toNat + 1 := by
  rw [UInt64.toNat_add, UInt64.toNat_one, Nat.mod_eq_of_lt hsweep.last]

/-- The stretch of a region, with nothing wrapped. -/
theorem Gpt.Sweepable.interval_eq (hsweep : g.Sweepable)
    {i : UInt32} (hi : g.InUse i) :
    (⟨(g.entry i).first_lba, (g.entry i).last_lba, 0⟩ : PtnRegion).interval
      = ((g.entry i).first_lba.toNat, (g.entry i).last_lba.toNat + 1) := by
  have hsmall := hsweep.small i hi
  have hend : ((g.entry i).last_lba + 1).toNat = (g.entry i).last_lba.toNat + 1 := by
    rw [UInt64.toNat_add, UInt64.toNat_one, Nat.mod_eq_of_lt (by omega)]
  rw [PtnRegion.interval, hend]

/-- An entry starts where it ends at the latest. -/
theorem Gpt.WellFormed.start_small (hwf : g.WellFormed)
    (hsmall : ∀ i, g.InUse i → (g.entry i).last_lba.toNat < 2 ^ 63) {i : UInt32} (hi : g.InUse i) :
    (g.entry i).first_lba.toNat < 2 ^ 63 :=
  (UInt64.le_iff_toNat_le.mp (hwf.le i hi)).trans_lt (hsmall i hi)

/-- A well-formed table of a disk below 2^63 sectors can be swept. -/
theorem Gpt.WellFormed.sweepable (hwf : g.WellFormed)
    (hlast : g.header.last_usable_lba.toNat < 2 ^ 63) : g.Sweepable where
  small i hi := by
    have hle := UInt64.le_iff_toNat_le.mp (hwf.inside i hi).2
    omega
  last := by omega

namespace Gpt.WellFormed

variable [Qsort]

/-- **Sorted, the regions of a well-formed table are a chain.** -/
theorem chain (hwf : g.WellFormed) (hsweep : g.Sweepable) :
    Chain g.header.first_usable_lba.toNat
      ((qsort regioncmp (used_regions g)).map PtnRegion.interval)
      (g.header.last_usable_lba + 1).toNat := by
  have hmem {r : PtnRegion} (hr : r ∈ qsort regioncmp (used_regions g)) :
      ∃ i, g.InUse i ∧ r = ⟨(g.entry i).first_lba, (g.entry i).last_lba, 0⟩ :=
    mem_used_regions.mp ((Qsort.perm regioncmp (used_regions g)).mem_iff.mp hr)
  have hsmall : ∀ r ∈ used_regions g, r.start.toNat < 2 ^ 63 := by
    intro r hr
    obtain ⟨i, hi, rfl⟩ := mem_used_regions.mp hr
    exact hwf.start_small hsweep.small hi
  have hend := hsweep.toNat_last
  refine chain_of_sorted ?_ ?_ ?_ ?_
  · rw [List.pairwise_map]
    exact qsort_starts hsmall
  · rintro p hp
    obtain ⟨r, hr, rfl⟩ := List.mem_map.mp hp
    obtain ⟨i, hi, rfl⟩ := hmem hr
    rw [hsweep.interval_eq hi]
    exact Nat.lt_succ_of_le (UInt64.le_iff_toNat_le.mp (hwf.le i hi))
  · rintro p hp
    obtain ⟨r, hr, rfl⟩ := List.mem_map.mp hp
    obtain ⟨i, hi, rfl⟩ := hmem hr
    rw [hsweep.interval_eq hi, hend]
    exact ⟨UInt64.le_iff_toNat_le.mp (hwf.inside i hi).1,
      Nat.succ_le_succ (UInt64.le_iff_toNat_le.mp (hwf.inside i hi).2)⟩
  · -- that two regions are apart does not depend on the order they are in
    have hsymm : ∀ r r' : PtnRegion, r.interval.2 ≤ r'.interval.1 ∨ r'.interval.2 ≤ r.interval.1 →
        r'.interval.2 ≤ r.interval.1 ∨ r.interval.2 ≤ r'.interval.1 := fun _ _ => Or.symm
    rw [List.pairwise_map, (Qsort.perm regioncmp (used_regions g)).pairwise_iff
      (fun {r r'} => hsymm r r'), used_regions, List.pairwise_map]
    refine inUse_pairwise_ne.imp_of_mem ?_
    rintro ⟨i, e⟩ ⟨j, e'⟩ hp hq hne
    obtain ⟨hi, rfl⟩ := mem_inUse.mp hp
    obtain ⟨hj, rfl⟩ := mem_inUse.mp hq
    rw [hsweep.interval_eq hi, hsweep.interval_eq hj]
    have hap := hwf.apart i j hi hj hne
    rw [UInt64.lt_iff_toNat_lt, UInt64.lt_iff_toNat_lt] at hap
    show _ + 1 ≤ _ ∨ _ + 1 ≤ _
    exact hap.imp Nat.succ_le_of_lt Nat.succ_le_of_lt

/-- Free for the sweep is free of entries in use. -/
theorem free_iff (hsweep : g.Sweepable) (x : ℕ) :
    Free ((qsort regioncmp (used_regions g)).map PtnRegion.interval) x ↔ ¬ g.Occupied x := by
  constructor
  · rintro hfree ⟨i, hi, hin⟩
    refine hfree _ (List.mem_map_of_mem ((Qsort.perm regioncmp (used_regions g)).mem_iff.mpr
      (mem_used_regions.mpr ⟨i, hi, rfl⟩))) ?_
    rw [hsweep.interval_eq hi]
    exact ⟨hin.1, Nat.lt_succ_of_le hin.2⟩
  · rintro hfree p hp hx
    obtain ⟨r, hr, rfl⟩ := List.mem_map.mp hp
    obtain ⟨i, hi, rfl⟩ := mem_used_regions.mp
      ((Qsort.perm regioncmp (used_regions g)).mem_iff.mp hr)
    rw [hsweep.interval_eq hi] at hx
    exact hfree ⟨i, hi, hx.1, Nat.le_of_lt_succ hx.2⟩

/-- **What the sweep finds is free**. -/
theorem clean_of_mem (hwf : g.WellFormed) (hsweep : g.Sweepable)
    {p : ℕ × ℕ} (hp : p ∈ sweep_gaps g) : Clean g p := by
  obtain ⟨hfirst, hend, hfree⟩ := gap_free (hwf.chain hsweep) hp
  refine ⟨hfirst, ?_, fun x hx => (free_iff hsweep x).mp (hfree x hx)⟩
  rwa [hsweep.toNat_last] at hend

theorem exists_gap_of_clean (hwf : g.WellFormed)
    (hsweep : g.Sweepable) {p : ℕ × ℕ} (hne : p.1 < p.2)
    (hp : Clean g p) : ∃ q ∈ sweep_gaps g, q.1 ≤ p.1 ∧ p.2 ≤ q.2 := by
  refine exists_gap_of_run (hwf.chain hsweep) hp.first hne ?_ fun x hx =>
    (free_iff hsweep x).mpr (hp.free x hx)
  rw [hsweep.toNat_last]
  exact hp.last

end Gpt.WellFormed

/-- **On a well-formed table the search finds the lowest longest run of free usable
LBAs.** -/
theorem find_sweepable [Qsort] (hwf : g.WellFormed) (hsweep : g.Sweepable) {s e : UInt64}
    (h : (gpt_find_contiguous_free_space g : Exec ε _) = .ret (some (s, e))) :
    FreeRegion g s e ∧ ∀ p : ℕ × ℕ, p.1 < p.2 → Clean g p →
      len p ≤ e.toNat + 1 - s.toNat ∧ (len p = e.toNat + 1 - s.toNat → s.toNat ≤ p.1) := by
  obtain ⟨m, hmax, hm, hs, he⟩ := find_spec h
  refine ⟨(freeRegion_iff_clean hm.1 hs he).mpr (hwf.clean_of_mem hsweep (List.argmax_mem hmax)),
    fun p hne hp => ?_⟩
  obtain ⟨q, hq, hqp, hpq⟩ := hwf.exists_gap_of_clean hsweep hne hp
  have hle : len q ≤ len m := List.le_of_mem_argmax hq hmax
  rw [hs, he]
  simp only [len] at hle ⊢
  refine ⟨by omega, fun heq => ?_⟩
  have hsame : len q = len m := by
    simp only [len]
    omega
  rcases le_of_not_beaten (gaps_ascending (hwf.chain hsweep)) hmax hq hsame with rfl | hbefore
  · omega
  · have := hm.1
    omega

/-- And it fails only when no usable LBA is free. -/
theorem find_sweepable_none [Qsort] (hwf : g.WellFormed) (hsweep : g.Sweepable)
    (h : (gpt_find_contiguous_free_space g : Exec ε _) = .ret none) {p : ℕ × ℕ} (hne : p.1 < p.2) :
    ¬ Clean g p := by
  intro hp
  have hg : g.Readable := by
    by_contra hg
    rw [find_fault hg] at h
    cases h
  obtain ⟨q, hq, -⟩ := hwf.exists_gap_of_clean hsweep hne hp
  rw [find_eq hg] at h
  simp only [Exec.ret.injEq, Option.map_eq_none_iff, List.argmax_eq_none] at h
  rw [h] at hq
  exact absurd hq List.not_mem_nil

/-- The same of a table that ends below `2 ^ 63`. -/
theorem find_wellFormed [Qsort] (hwf : g.WellFormed)
    (hlast : g.header.last_usable_lba.toNat < 2 ^ 63) {s e : UInt64}
    (h : (gpt_find_contiguous_free_space g : Exec ε _) = .ret (some (s, e))) :
    FreeRegion g s e ∧ ∀ p : ℕ × ℕ, p.1 < p.2 → Clean g p →
      len p ≤ e.toNat + 1 - s.toNat ∧ (len p = e.toNat + 1 - s.toNat → s.toNat ≤ p.1) :=
  find_sweepable hwf (hwf.sweepable hlast) h

/-- If it finds nothing, nothing is free. -/
theorem find_wellFormed_none [Qsort] (hwf : g.WellFormed)
    (hlast : g.header.last_usable_lba.toNat < 2 ^ 63)
    (h : (gpt_find_contiguous_free_space g : Exec ε _) = .ret none) {p : ℕ × ℕ} (hne : p.1 < p.2) :
    ¬ Clean g p :=
  find_sweepable_none hwf (hwf.sweepable hlast) h hne

end WellFormed

end Iago
