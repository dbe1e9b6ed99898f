/-
The largest free region, and the order of the entries.

On a table whose entries in use end no earlier than they start, lie in the usable range and
share no LBA, the search finds the lowest of the longest runs of free usable LBAs, or says
that there is none (`find_sweepable`). What is added here is that the run is maximal, that
the order the entries are stored in does not matter, and where all of it ends: the sweep
takes `last_usable_lba + 1` for the start of what is behind the disk, and that is 0 when the
usable range ends with the last LBA there is. Then the space behind the last entry, which is
the longest, is not seen.
-/
import Iago.FreeSpace

set_option autoImplicit false

namespace Iago

section Order

variable {ε : Type} [Platform] [Qsort] {g g' : Gpt}

/-! ## The order of the entries -/

/-- The same entries in use, stored in some other order, and the same usable range. -/
structure Reordered (g g' : Gpt) : Prop where
  readable : g'.Readable
  first : g'.header.first_usable_lba = g.header.first_usable_lba
  last : g'.header.last_usable_lba = g.header.last_usable_lba
  entries : (g'.inUse.map Prod.snd).Perm (g.inUse.map Prod.snd)

omit [Qsort] in
/-- The regions are the same, in another order. -/
theorem Reordered.regions (h : Reordered g g') : (used_regions g').Perm (used_regions g) := by
  have hmap := h.entries.map fun e => (⟨e.first_lba, e.last_lba, 0⟩ : PtnRegion)
  rw [List.map_map, List.map_map] at hmap
  exact hmap

omit [Qsort] in
/-- Regions of a well-formed table that start at the same LBA are the same. -/
theorem region_eq_of_start (hwf : g.WellFormed) {a b : PtnRegion} (ha : a ∈ used_regions g)
    (hb : b ∈ used_regions g) (hstart : a.start.toNat = b.start.toNat) : a = b := by
  obtain ⟨i, hi, rfl⟩ := mem_used_regions.mp ha
  obtain ⟨j, hj, rfl⟩ := mem_used_regions.mp hb
  by_cases hij : i = j
  · rw [hij]
  · exfalso
    have hle := UInt64.le_iff_toNat_le.mp (hwf.le i hi)
    have hle' := UInt64.le_iff_toNat_le.mp (hwf.le j hj)
    have hapart := hwf.apart i j hi hj hij
    rw [UInt64.lt_iff_toNat_lt, UInt64.lt_iff_toNat_lt] at hapart
    simp only at hstart
    omega

/-- So sorting them gives one list only, whatever the order before. -/
theorem qsort_eq_of_perm (hwf : g.WellFormed)
    (hsmall : ∀ i, g.InUse i → (g.entry i).last_lba.toNat < 2 ^ 63) {rs : List PtnRegion}
    (hperm : rs.Perm (used_regions g)) : qsort regioncmp rs = qsort regioncmp (used_regions g) := by
  have hstart : ∀ r ∈ used_regions g, r.start.toNat < 2 ^ 63 := by
    intro r hr
    obtain ⟨i, hi, rfl⟩ := mem_used_regions.mp hr
    exact hwf.start_small hsmall hi
  have hrs := Qsort.perm regioncmp rs
  have hused := Qsort.perm regioncmp (used_regions g)
  refine List.Perm.eq_of_pairwise ?_ (qsort_starts fun r hr => hstart r (hperm.mem_iff.mp hr))
    (qsort_starts hstart) ((hrs.trans hperm).trans hused.symm)
  intro a b ha hb hab hba
  exact region_eq_of_start hwf (hperm.mem_iff.mp (hrs.mem_iff.mp ha)) (hused.mem_iff.mp hb)
    (Nat.le_antisymm hab hba)

/-- So the same one is found. -/
theorem find_reordered (hwf : g.WellFormed)
    (hsmall : ∀ i, g.InUse i → (g.entry i).last_lba.toNat < 2 ^ 63) (hg : g.Readable)
    (h : Reordered g g') :
    (gpt_find_contiguous_free_space g' : Exec ε _) = gpt_find_contiguous_free_space g := by
  have hgaps : sweep_gaps g' = sweep_gaps g := by
    rw [sweep_gaps, sweep_gaps, h.first, h.last, qsort_eq_of_perm hwf hsmall h.regions]
  rw [find_eq h.readable, find_eq hg, hgaps]

/-! ## The best run -/

/-- The answer of the search is the best there is: -1 exactly if every usable LBA is in use,
and otherwise a maximal free run, no shorter than any other and lower than any as long; and
it is the same in whatever order the entries are stored. -/
structure FindsBest (g : Gpt) : Prop where
  returns : ∃ r, (gpt_find_contiguous_free_space g : Exec Empty _) = .ret r
  full : (gpt_find_contiguous_free_space g : Exec Empty _) = .ret none ↔
    ∀ lba, g.header.first_usable_lba ≤ lba → lba ≤ g.header.last_usable_lba →
      ∃ i, g.InUse i ∧ (g.entry i).first_lba ≤ lba ∧ lba ≤ (g.entry i).last_lba
  free : ∀ s e, (gpt_find_contiguous_free_space g : Exec Empty _) = .ret (some (s, e)) →
    FreeRegion g s e
  maximal : ∀ s e, (gpt_find_contiguous_free_space g : Exec Empty _) = .ret (some (s, e)) →
    ∀ s' e', FreeRegion g s' e' → s' ≤ s → e ≤ e' → s' = s ∧ e' = e
  longest : ∀ s e, (gpt_find_contiguous_free_space g : Exec Empty _) = .ret (some (s, e)) →
    ∀ s' e', FreeRegion g s' e' →
      e'.toNat - s'.toNat ≤ e.toNat - s.toNat ∧ (e'.toNat - s'.toNat = e.toNat - s.toNat → s ≤ s')
  order : ∀ g', Reordered g g' →
    (gpt_find_contiguous_free_space g' : Exec Empty _) = gpt_find_contiguous_free_space g

omit [Qsort] in
/-- A run of free LBAs, as the sweep's gaps are counted. -/
theorem clean_of_freeRegion {s e : UInt64} (h : FreeRegion g s e) :
    Clean g (s.toNat, e.toNat + 1) := by
  have hle := UInt64.le_iff_toNat_le.mp h.le
  have hlt : (s.toNat, e.toNat + 1).1 < (s.toNat, e.toNat + 1).2 := Nat.lt_succ_of_le hle
  exact (freeRegion_iff_clean hlt rfl rfl).mp h

omit [Qsort] in
/-- A single free LBA is a run. -/
theorem freeRegion_single {lba : UInt64} (hfirst : g.header.first_usable_lba ≤ lba)
    (hlast : lba ≤ g.header.last_usable_lba)
    (hfree : ¬ ∃ i, g.InUse i ∧ (g.entry i).first_lba ≤ lba ∧ lba ≤ (g.entry i).last_lba) :
    FreeRegion g lba lba := by
  refine ⟨hfirst, UInt64.le_refl lba, hlast, fun x hx hx' i hi hin => ?_⟩
  have hsame : x = lba := UInt64.le_antisymm hx' hx
  subst hsame
  exact hfree ⟨i, hi, hin⟩

/-- The longest of some runs, and the lowest of those that are as long. -/
structure BestOf (run : UInt64 → UInt64 → Prop) (s e : UInt64) : Prop where
  mem : run s e
  longest : ∀ s' e', run s' e' →
    e'.toNat - s'.toNat ≤ e.toNat - s.toNat ∧ (e'.toNat - s'.toNat = e.toNat - s.toNat → s ≤ s')

omit [Platform] [Qsort] in
/-- There is one at most. -/
theorem BestOf.unique {run : UInt64 → UInt64 → Prop} {s e s' e' : UInt64}
    (hle : ∀ s e, run s e → s ≤ e) (h : BestOf run s e) (h' : BestOf run s' e') :
    s' = s ∧ e' = e := by
  obtain ⟨hlen, htie⟩ := h.longest s' e' h'.mem
  obtain ⟨hlen', htie'⟩ := h'.longest s e h.mem
  have hsame : e'.toNat - s'.toNat = e.toNat - s.toNat := Nat.le_antisymm hlen hlen'
  have hstart : s' = s := UInt64.le_antisymm (htie' hsame.symm) (htie hsame)
  subst hstart
  have hse := UInt64.le_iff_toNat_le.mp (hle s' e h.mem)
  have hse' := UInt64.le_iff_toNat_le.mp (hle s' e' h'.mem)
  exact ⟨rfl, UInt64.toNat_inj.mp (by omega)⟩

/-- What is found is the longest run, and the lowest of those as long. -/
theorem find_bestOf (hwf : g.WellFormed) (hsweep : g.Sweepable) {s e : UInt64}
    (hfind : (gpt_find_contiguous_free_space g : Exec ε _) = .ret (some (s, e))) :
    BestOf (FreeRegion g) s e := by
  obtain ⟨hfree, hmax⟩ := find_sweepable hwf hsweep hfind
  refine ⟨hfree, fun s' e' hrun => ?_⟩
  have hle := UInt64.le_iff_toNat_le.mp hfree.le
  have hle' := UInt64.le_iff_toNat_le.mp hrun.le
  obtain ⟨hlen, htie⟩ := hmax (s'.toNat, e'.toNat + 1) (Nat.lt_succ_of_le hle')
    (clean_of_freeRegion hrun)
  simp only [len] at hlen htie
  exact ⟨by omega, fun heq => UInt64.le_iff_toNat_le.mpr (htie (by omega))⟩

/-- **The search finds the best run of free LBAs**, if there is any. -/
theorem find_eq_some_iff (hwf : g.WellFormed) (hsweep : g.Sweepable) (hg : g.Readable)
    {s e : UInt64} : (gpt_find_contiguous_free_space g : Exec ε _) = .ret (some (s, e)) ↔
      BestOf (FreeRegion g) s e := by
  refine ⟨find_bestOf hwf hsweep, fun hbest => ?_⟩
  obtain ⟨r, hr⟩ := find_returns (ε := ε) hg
  cases r with
  | none =>
    have hle := UInt64.le_iff_toNat_le.mp hbest.mem.le
    exact absurd (clean_of_freeRegion hbest.mem)
      (find_sweepable_none hwf hsweep hr (Nat.lt_succ_of_le hle))
  | some p =>
    obtain ⟨hs, he⟩ := hbest.unique (fun _ _ h => h.le) (find_bestOf hwf hsweep hr)
    rw [hr, ← hs, ← he]

/-- On a table that can be swept the search does all it should. -/
theorem findsBest_of_sweepable (hwf : g.WellFormed) (hsweep : g.Sweepable) (hg : g.Readable) :
    FindsBest g := by
  have hbest : ∀ s e, (gpt_find_contiguous_free_space g : Exec Empty _) = .ret (some (s, e)) →
      ∀ s' e', FreeRegion g s' e' →
        e'.toNat - s'.toNat ≤ e.toNat - s.toNat ∧
          (e'.toNat - s'.toNat = e.toNat - s.toNat → s ≤ s') :=
    fun s e hfind => (find_bestOf hwf hsweep hfind).longest
  refine ⟨find_returns hg, ?_, ?_, ?_, hbest, fun g' h => find_reordered hwf hsweep.small hg h⟩
  · constructor
    · intro hnone lba hfirst hlast
      -- A free LBA would be a region of its own, and the search would have found one.
      by_contra hfree
      have hrun := freeRegion_single hfirst hlast hfree
      exact find_sweepable_none hwf hsweep hnone (Nat.lt_succ_self _) (clean_of_freeRegion hrun)
    · intro hfull
      obtain ⟨r, hr⟩ := find_returns (ε := Empty) hg
      cases r with
      | none => exact hr
      | some p =>
        exfalso
        obtain ⟨hfree, -⟩ := find_sweepable hwf hsweep hr
        obtain ⟨i, hi, hin⟩ := hfull p.1 hfree.first (UInt64.le_trans hfree.le hfree.last)
        exact hfree.free p.1 (UInt64.le_refl _) hfree.le i hi hin
  · intro s e hfind
    exact (find_sweepable hwf hsweep hfind).1
  · intro s e hfind s' e' hrun hs he
    have hlen := (hbest s e hfind s' e' hrun).1
    have hle := UInt64.le_iff_toNat_le.mp (find_sweepable hwf hsweep hfind).1.le
    rw [UInt64.le_iff_toNat_le] at hs he
    refine ⟨UInt64.toNat_inj.mp ?_, UInt64.toNat_inj.mp ?_⟩ <;> omega

/-! ## A usable range that ends with the last LBA -/

omit [Platform] [Qsort] in
/-- A sweep that ends at 0 sees gaps before intervals only. -/
theorem gap_before_interval {base : ℕ} {rs : List (ℕ × ℕ)} {p : ℕ × ℕ} (hp : p ∈ gaps base rs 0) :
    ∃ r ∈ rs, p.2 = r.1 := by
  induction rs generalizing base with
  | nil =>
    obtain ⟨-, hlt⟩ := mem_gap.mp hp
    exact absurd hlt (Nat.not_lt_zero _)
  | cons r rs ih =>
    rcases List.mem_append.mp hp with hp | hp
    · obtain ⟨rfl, -⟩ := mem_gap.mp hp
      exact ⟨r, List.mem_cons_self, rfl⟩
    · obtain ⟨r', hr', hstart⟩ := ih hp
      exact ⟨r', List.mem_cons_of_mem r hr', hstart⟩

/-- Then the run behind the last entry is longer than what is found. -/
theorem not_findsBest_of_last (hwf : g.WellFormed)
    (hsmall : ∀ i, g.InUse i → (g.entry i).last_lba.toNat < 2 ^ 63)
    (hlast : g.header.last_usable_lba.toNat = 2 ^ 64 - 1) : ¬ FindsBest g := by
  intro hbest
  have hend : (g.header.last_usable_lba + 1).toNat = 0 := by
    rw [UInt64.toNat_add, UInt64.toNat_one, hlast]
    rfl
  have hfirst : g.header.first_usable_lba ≤ g.header.last_usable_lba := by
    have hlt := g.header.first_usable_lba.toNat_lt
    rw [UInt64.le_iff_toNat_le]
    omega
  obtain ⟨r, hr⟩ := hbest.returns
  cases r with
  | none =>
    -- the last LBA is usable and no entry's
    obtain ⟨i, hi, -, hin⟩ := hbest.full.mp hr g.header.last_usable_lba hfirst (UInt64.le_refl _)
    have hlt := hsmall i hi
    rw [UInt64.le_iff_toNat_le] at hin
    omega
  | some p =>
    obtain ⟨q, hmax, hq, hs, he⟩ := find_spec (s := p.1) (e := p.2) hr
    have hmem := List.argmax_mem hmax
    rw [sweep_gaps, hend] at hmem
    obtain ⟨iv, hiv, hstart⟩ := gap_before_interval hmem
    obtain ⟨region, hregion, rfl⟩ := List.mem_map.mp hiv
    have hused := (Qsort.perm regioncmp (used_regions g)).mem_iff.mp hregion
    obtain ⟨i, hi, rfl⟩ := mem_used_regions.mp hused
    have hstart' : q.2 = (g.entry i).first_lba.toNat := hstart
    have hbefore := hwf.start_small hsmall hi
    have hinside := UInt64.le_iff_toNat_le.mp (hwf.inside i hi).1
    -- the upper half of the LBAs is free
    have hhalf : (0x8000000000000000 : UInt64).toNat = 2 ^ 63 := rfl
    have hrun : FreeRegion g 0x8000000000000000 g.header.last_usable_lba := by
      refine ⟨?_, ?_, UInt64.le_refl _, fun lba hlba _ j hj hin => ?_⟩
      · rw [UInt64.le_iff_toNat_le, hhalf]
        omega
      · rw [UInt64.le_iff_toNat_le, hhalf, hlast]
        omega
      · have hlt := hsmall j hj
        have hle := hin.2
        rw [UInt64.le_iff_toNat_le] at hlba hle
        rw [hhalf] at hlba
        omega
    have hlen := (hbest.longest p.1 p.2 hr _ _ hrun).1
    rw [hhalf, hlast] at hlen
    omega

/-- **The search finds the best run exactly if** the usable range does not end with the last
LBA that can be numbered. -/
theorem findsBest_iff (hg : g.Mapped) (hwf : g.WellFormed)
    (hsmall : ∀ i, g.InUse i → (g.entry i).last_lba.toNat < 2 ^ 63) :
    FindsBest g ↔ g.header.last_usable_lba ≠ 0xFFFFFFFFFFFFFFFF := by
  have hmax : (0xFFFFFFFFFFFFFFFF : UInt64).toNat = 2 ^ 64 - 1 := rfl
  constructor
  · intro hbest hlast
    exact not_findsBest_of_last hwf hsmall (hlast ▸ hmax) hbest
  · intro hlast
    have hne : g.header.last_usable_lba.toNat ≠ 2 ^ 64 - 1 := fun h =>
      hlast (UInt64.toNat_inj.mp (h.trans hmax.symm))
    have hlt := g.header.last_usable_lba.toNat_lt
    exact findsBest_of_sweepable hwf ⟨hsmall, by omega⟩ hg.readable

end Order

/-! ### An empty table, and one with gaps -/

section Empty

attribute [local instance] x86 insertionQsort

/-- The table of four free slots, with a usable range that ends with the last LBA. -/
def endless_header : GptHeader :=
  { small_header 4 2374917804 0xb2aa7578 with last_usable_lba := 0xFFFFFFFFFFFFFFFF }

def endless_gpt : Gpt := (small_gpt.withHeader endless_header).withBuf (List.replicate 512 0)

set_option maxRecDepth 100000 in
/-- The table of the example is the one on its disk. -/
theorem endless_read : gpt_read (ε := Empty) (small_disk endless_header) (List.replicate 3 .all)
    small_gpt = .ret (0, endless_gpt, []) := by
  decide +kernel

/-- Entries that are all free are in order. -/
theorem empty_wellFormed {g : Gpt} (hempty : g.inUse = []) : g.WellFormed ∧
    ∀ i, g.InUse i → (g.entry i).last_lba.toNat < 2 ^ 63 := by
  have hnone : ∀ i, ¬ g.InUse i := by
    intro i hi
    have hmem := mem_inUse.mpr ⟨hi, rfl⟩
    rw [hempty] at hmem
    exact List.not_mem_nil hmem
  refine ⟨⟨?_, ?_, ?_⟩, ?_⟩
  · intro i hi
    exact absurd hi (hnone i)
  · intro i hi
    exact absurd hi (hnone i)
  · intro i _ hi
    exact absurd hi (hnone i)
  · intro i hi
    exact absurd hi (hnone i)

/-- It is accepted, it has no partition, and the search says that it is full. -/
theorem endless_not_best :
    gpt_read (ε := Empty) (small_disk endless_header) (List.replicate 3 .all) small_gpt =
        .ret (0, endless_gpt, []) ∧
      endless_gpt.WellFormed ∧ endless_gpt.inUse = [] ∧
      gpt_find_contiguous_free_space (ε := Empty) endless_gpt = .ret none ∧
      ¬ FindsBest endless_gpt := by
  have hempty : endless_gpt.inUse = [] := by
    decide +kernel
  obtain ⟨hwf, hsmall⟩ := empty_wellFormed hempty
  refine ⟨endless_read, hwf, hempty, by decide +kernel, ?_⟩
  exact not_findsBest_of_last hwf hsmall (by decide)

/-- Two entries and gaps of the same length: the first of them is found. -/
theorem gaps_finds_best_iff :
    FindsBest gaps_gpt ↔ gaps_gpt.header.last_usable_lba ≠ 0xFFFFFFFFFFFFFFFF := by
  have hwf : gaps_gpt.WellFormed := by
    rw [wellFormed_iff_inUse, gaps_inUse]
    decide
  have hsmall : ∀ i, gaps_gpt.InUse i → (gaps_gpt.entry i).last_lba.toNat < 2 ^ 63 := by
    intro i hi
    have hmem := mem_inUse.mpr ⟨hi, rfl⟩
    rw [gaps_inUse, List.mem_cons, List.mem_singleton, Prod.mk.injEq, Prod.mk.injEq] at hmem
    rcases hmem with ⟨-, he⟩ | ⟨-, he⟩ <;> rw [he] <;> decide
  exact findsBest_iff gaps_mapped hwf hsmall

end Empty

end Iago
