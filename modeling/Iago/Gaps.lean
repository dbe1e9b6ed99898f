/-
The gaps a sweep over intervals finds.

A sweep keeps one number, the base: it takes the intervals in the order it is
given, looks for room between the base and the start of the next interval, and
moves the base to that interval's end. Nothing in it looks back, so what it
finds depends on the order, and a nested interval can move the base *back* and
make a gap out of occupied space.

This file says what such a sweep finds when the intervals come in order and do
not meet (`Chain`): exactly the runs of free positions (`gap_free`,
`exists_gap_of_run`), in ascending order (`gaps_ascending`). The last section is
about taking the first longest of a list, in any order.

Intervals are half open, `a` to just before `b`, over any linear order.
-/
import Mathlib.Data.List.MinMax
import Mathlib.Order.Interval.Set.Basic
import Mathlib.Data.Set.Basic

set_option autoImplicit false

namespace Iago

/-! ## The sweep -/

section Sweep

variable {α : Type} [LinearOrder α]

/-- The room between the base and the start of the next interval, if there is
any. -/
def gap (base start : α) : List (α × α) := if base < start then [(base, start)] else []

/-- The gaps of a sweep that starts at `base` and ends at `hi`. -/
def gaps (base : α) : List (α × α) → α → List (α × α)
  | [], hi => gap base hi
  | r :: rs, hi => gap base r.1 ++ gaps r.2 rs hi

theorem mem_gap {base start : α} {p : α × α} :
    p ∈ gap base start ↔ p = (base, start) ∧ base < start := by
  rw [gap]
  split_ifs with h
  · rw [List.mem_singleton]
    exact ⟨fun hp => ⟨hp, h⟩, fun hp => hp.1⟩
  · exact ⟨fun hp => absurd hp List.not_mem_nil, fun hp => absurd hp.2 h⟩

/-! ## Intervals in order -/

/-- A position no interval covers. -/
def Free (rs : List (α × α)) (x : α) : Prop := ∀ r ∈ rs, x ∉ Set.Ico r.1 r.2

/-- Nonempty intervals between `base` and `hi`, each of which starts where the one
before it has ended. -/
def Chain (base : α) : List (α × α) → α → Prop
  | [], _ => True
  | r :: rs, hi => base ≤ r.1 ∧ r.1 < r.2 ∧ r.2 ≤ hi ∧ Chain r.2 rs hi

/-- The intervals of a chain lie behind its base. -/
theorem Chain.base_le {base hi : α} {rs : List (α × α)} (h : Chain base rs hi) {r : α × α}
    (hr : r ∈ rs) : base ≤ r.1 := by
  induction rs generalizing base with
  | nil => exact absurd hr List.not_mem_nil
  | cons r₀ rs ih =>
    obtain ⟨hbase, hlt, -, hrest⟩ := h
    rcases List.mem_cons.mp hr with rfl | hr
    · exact hbase
    · exact hbase.trans (hlt.le.trans (ih hrest hr))

/-- Intervals sorted by their starts, nonempty, apart and within bounds make a
chain. -/
theorem chain_of_sorted {base hi : α} {rs : List (α × α)}
    (hsorted : rs.Pairwise fun r r' => r.1 ≤ r'.1) (hne : ∀ r ∈ rs, r.1 < r.2)
    (hin : ∀ r ∈ rs, base ≤ r.1 ∧ r.2 ≤ hi)
    (happart : rs.Pairwise fun r r' => r.2 ≤ r'.1 ∨ r'.2 ≤ r.1) : Chain base rs hi := by
  induction rs generalizing base with
  | nil => trivial
  | cons r rs ih =>
    obtain ⟨hle, hsorted⟩ := List.pairwise_cons.mp hsorted
    obtain ⟨hap, happart⟩ := List.pairwise_cons.mp happart
    have hr := hin r List.mem_cons_self
    refine ⟨hr.1, hne r List.mem_cons_self, hr.2, ih hsorted
      (fun r' hr' => hne r' (List.mem_cons_of_mem _ hr')) (fun r' hr' => ⟨?_, ?_⟩) happart⟩
    · -- of two that are apart, the one that starts first ends before the other starts
      rcases hap r' hr' with h | h
      · exact h
      · exact absurd (h.trans (hle r' hr')) (not_le.mpr (hne r' (List.mem_cons_of_mem _ hr')))
    · exact (hin r' (List.mem_cons_of_mem _ hr')).2

/-- **What the sweep calls a gap is free** and lies between its bounds. -/
theorem gap_free {base hi : α} {rs : List (α × α)} (h : Chain base rs hi) {p : α × α}
    (hp : p ∈ gaps base rs hi) :
    base ≤ p.1 ∧ p.2 ≤ hi ∧ ∀ x ∈ Set.Ico p.1 p.2, Free rs x := by
  induction rs generalizing base with
  | nil =>
    obtain ⟨rfl, -⟩ := mem_gap.mp hp
    exact ⟨le_refl _, le_refl _, fun _ _ _ hr => absurd hr List.not_mem_nil⟩
  | cons r rs ih =>
    obtain ⟨hbase, hlt, hhi, hrest⟩ := h
    rcases List.mem_append.mp hp with hp | hp
    · obtain ⟨rfl, -⟩ := mem_gap.mp hp
      refine ⟨le_refl _, hlt.le.trans hhi, fun x hx r' hr' hxr => ?_⟩
      rcases List.mem_cons.mp hr' with rfl | hr'
      · exact absurd hx.2 (not_lt.mpr hxr.1)
      · exact absurd (hx.2.trans (hlt.trans_le (hrest.base_le hr'))) (not_lt.mpr hxr.1)
    · obtain ⟨hb, hh, hfree⟩ := ih hrest hp
      refine ⟨hbase.trans (hlt.le.trans hb), hh, fun x hx r' hr' hxr => ?_⟩
      rcases List.mem_cons.mp hr' with rfl | hr'
      · exact absurd (hb.trans hx.1) (not_le.mpr hxr.2)
      · exact hfree x hx r' hr' hxr

/-- **Every run of free positions lies in one gap.** -/
theorem exists_gap_of_run {base hi s e : α} {rs : List (α × α)} (h : Chain base rs hi)
    (hs : base ≤ s) (hse : s < e) (he : e ≤ hi) (hfree : ∀ x ∈ Set.Ico s e, Free rs x) :
    ∃ p ∈ gaps base rs hi, p.1 ≤ s ∧ e ≤ p.2 := by
  induction rs generalizing base with
  | nil => exact ⟨(base, hi), mem_gap.mpr ⟨rfl, hs.trans_lt (hse.trans_le he)⟩, hs, he⟩
  | cons r rs ih =>
    obtain ⟨-, hlt, -, hrest⟩ := h
    by_cases hend : e ≤ r.1
    · exact ⟨(base, r.1),
        List.mem_append_left _ (mem_gap.mpr ⟨rfl, hs.trans_lt (hse.trans_le hend)⟩), hs, hend⟩
    · -- the run cannot straddle the interval, so it starts behind it
      have hbehind : r.2 ≤ s := by
        by_contra hin
        have hmax : max s r.1 < r.2 := max_lt (not_le.mp hin) hlt
        exact hfree (max s r.1) ⟨le_max_left _ _, max_lt hse (not_le.mp hend)⟩ r
          List.mem_cons_self ⟨le_max_right _ _, hmax⟩
      obtain ⟨p, hp, hps, hpe⟩ := ih hrest hbehind fun x hx r' hr' =>
        hfree x hx r' (List.mem_cons_of_mem _ hr')
      exact ⟨p, List.mem_append_right _ hp, hps, hpe⟩

/-- The gaps come in ascending order. -/
theorem gaps_ascending {base hi : α} {rs : List (α × α)} (h : Chain base rs hi) :
    (gaps base rs hi).Pairwise fun p q => p.2 ≤ q.1 := by
  induction rs generalizing base with
  | nil =>
    rw [gaps, gap]
    split_ifs
    · exact List.pairwise_singleton _ _
    · exact List.Pairwise.nil
  | cons r rs ih =>
    obtain ⟨-, hlt, -, hrest⟩ := h
    rw [gaps, List.pairwise_append]
    refine ⟨?_, ih hrest, fun p hp q hq => ?_⟩
    · rw [gap]
      split_ifs
      · exact List.pairwise_singleton _ _
      · exact List.Pairwise.nil
    · obtain ⟨rfl, -⟩ := mem_gap.mp hp
      exact hlt.le.trans (gap_free hrest hq).1

end Sweep

/-! ## The first longest -/

section Longest

variable {α β : Type} [DecidableEq α] [LinearOrder β] {f : α → β} {l : List α} {m : α}

/-- `b` beats `a` in the list: it is larger, or as large and further to the front. -/
def Beats (f : α → β) (l : List α) (b a : α) : Prop :=
  f a < f b ∨ f a = f b ∧ l.idxOf b < l.idxOf a

/-- The first largest element has a property exactly when every element without it
is beaten by one with it. -/
theorem argmax_satisfies_iff {P : α → Prop} (hm : m ∈ l.argmax f) :
    P m ↔ ∀ a ∈ l, ¬ P a → ∃ b ∈ l, P b ∧ Beats f l b a := by
  obtain ⟨hmem, hmax, hfirst⟩ := List.mem_argmax_iff.mp hm
  constructor
  · intro hP a ha hPa
    refine ⟨m, hmem, hP, ?_⟩
    rcases (hmax a ha).lt_or_eq with hlt | heq
    · exact .inl hlt
    · refine .inr ⟨heq, lt_of_le_of_ne (hfirst a ha heq.ge) fun hidx => hPa ?_⟩
      rwa [← (List.idxOf_inj hmem).mp hidx]
  · intro hbeat
    by_contra hPm
    obtain ⟨b, hb, -, hlt | ⟨heq, hidx⟩⟩ := hbeat m hmem hPm
    · exact absurd (hmax b hb) (not_le.mpr hlt)
    · exact absurd (hfirst b hb heq.le) (not_le.mpr hidx)

/-- In a list in ascending order, one that is not beaten comes first. -/
theorem le_of_not_beaten {R : α → α → Prop} (hl : l.Pairwise R) (hm : m ∈ l.argmax f) {a : α}
    (ha : a ∈ l) (hfa : f a = f m) : m = a ∨ R m a := by
  obtain ⟨hmem, -, hfirst⟩ := List.mem_argmax_iff.mp hm
  rcases (hfirst a ha hfa.ge).lt_or_eq with hlt | heq
  · right
    have h := List.pairwise_iff_getElem.mp hl _ _ (List.idxOf_lt_length_of_mem hmem)
      (List.idxOf_lt_length_of_mem ha) hlt
    rwa [List.getElem_idxOf, List.getElem_idxOf] at h
  · exact .inl ((List.idxOf_inj hmem).mp heq)

end Longest

end Iago
