/-
Splitting a list at separators that may be repeated.

The tokens of a list are its maximal runs without a separator (`Runs`), whatever there is of
separators before, between and behind them; there is exactly one list of them
(`runs_iff`). Two lists with a separator between them have the tokens of both, which is what
makes joining and splitting inverse to each other (`runs_append_cons`).

Nothing here is about strings: the elements are of any type, and separators are those for which
a predicate holds.
-/
import Mathlib.Data.List.TakeWhile
import Mathlib.Data.List.Basic

set_option autoImplicit false

namespace Iago

variable {α : Type} (p : α → Bool)

/-- The tokens of a list. -/
def runs (s : List α) : List (List α) := (s.splitOnP p).filter (· ≠ [])

/-- These are the maximal runs without a separator, in order. -/
inductive Runs : List α → List (List α) → Prop where
  | blank (s : List α) (hs : ∀ c ∈ s, p c = true) : Runs s []
  | run (lead t rest : List α) (ts : List (List α)) (hlead : ∀ c ∈ lead, p c = true) (hne : t ≠ [])
    (ht : ∀ c ∈ t, p c = false) (hend : ∀ c ∈ rest.head?, p c = true) (hrest : Runs rest ts) :
    Runs (lead ++ (t ++ rest)) (t :: ts)

variable {p}

@[simp] theorem runs_nil : runs p [] = [] := rfl

/-- A separator between two lists. -/
theorem runs_append_cons (s s' : List α) {c : α} (hc : p c = true) :
    runs p (s ++ c :: s') = runs p s ++ runs p s' := by
  rw [runs, List.splitOnP_append_cons s s' hc, List.filter_append]
  rfl

theorem runs_cons (s : List α) {c : α} (hc : p c = true) : runs p (c :: s) = runs p s := by
  have happ := runs_append_cons [] s hc
  rwa [List.nil_append, runs_nil, List.nil_append] at happ

/-- Separators in front do not matter. -/
theorem runs_lead {lead : List α} (hlead : ∀ c ∈ lead, p c = true) (s : List α) :
    runs p (lead ++ s) = runs p s := by
  induction lead with
  | nil => rfl
  | cons c lead ih =>
    rw [List.cons_append, runs_cons _ (hlead c List.mem_cons_self)]
    exact ih fun d hd => hlead d (List.mem_cons_of_mem c hd)

theorem runs_blank {s : List α} (hs : ∀ c ∈ s, p c = true) : runs p s = [] := by
  have hlead := runs_lead hs []
  rwa [List.append_nil, runs_nil] at hlead

/-- A token alone. -/
theorem runs_token {t : List α} (hne : t ≠ []) (ht : ∀ c ∈ t, p c = false) : runs p t = [t] := by
  rw [runs, List.splitOnP_eq_singleton ht]
  simp [hne]

/-- A token in front of a separator. -/
theorem runs_token_append {t rest : List α} (hne : t ≠ []) (ht : ∀ c ∈ t, p c = false)
    (hend : ∀ c ∈ rest.head?, p c = true) : runs p (t ++ rest) = t :: runs p rest := by
  cases rest with
  | nil => rw [List.append_nil, runs_token hne ht, runs_nil]
  | cons c rest =>
    have hc : p c = true := hend c rfl
    rw [runs_append_cons t rest hc, runs_token hne ht, runs_cons rest hc]
    rfl

/-- A list is separators, and then nothing or a token and what is behind it. -/
theorem exists_token (s : List α) : (∀ c ∈ s, p c = true) ∨
    ∃ lead t rest, s = lead ++ (t ++ rest) ∧ (∀ c ∈ lead, p c = true) ∧ t ≠ [] ∧
      (∀ c ∈ t, p c = false) ∧ ∀ c ∈ rest.head?, p c = true := by
  have hlead : ∀ c ∈ s.takeWhile p, p c = true := fun c hc => List.mem_takeWhile_imp hc
  have hfirst := List.head?_dropWhile_not p s
  have hsplit : s.takeWhile p ++ s.dropWhile p = s := List.takeWhile_append_dropWhile
  cases hdrop : s.dropWhile p with
  | nil =>
    rw [hdrop, List.append_nil] at hsplit
    exact .inl fun c hc => hlead c (hsplit.symm ▸ hc)
  | cons d s' =>
    rw [hdrop] at hfirst hsplit
    have hd : p d = false := hfirst
    right
    refine ⟨s.takeWhile p, (d :: s').takeWhile fun c => !p c, (d :: s').dropWhile fun c => !p c,
      ?_, hlead, ?_, fun c hc => ?_, fun c hc => ?_⟩
    · rw [List.takeWhile_append_dropWhile, hsplit]
    · rw [List.takeWhile_cons_of_pos (by rw [hd]; rfl)]
      exact List.cons_ne_nil _ _
    · simpa using List.mem_takeWhile_imp hc
    · have hstop := List.head?_dropWhile_not (fun c => !p c) (d :: s')
      rw [Option.mem_def.mp hc] at hstop
      simpa using hstop

/-- A token is not empty, and has no separator in it. -/
theorem Runs.token {s : List α} {ts : List (List α)} (h : Runs p s ts) {t : List α} (ht : t ∈ ts) :
    t ≠ [] ∧ ∀ c ∈ t, p c = false := by
  induction h with
  | blank s hs => exact absurd ht List.not_mem_nil
  | run lead t' rest ts hlead hne hsolid hend hrest ih =>
    rcases List.mem_cons.mp ht with rfl | ht
    · exact ⟨hne, hsolid⟩
    · exact ih ht

/-- **The tokens are the maximal runs without a separator**, and nothing else is. -/
theorem runs_iff {s : List α} {ts : List (List α)} : Runs p s ts ↔ ts = runs p s := by
  constructor
  · intro h
    induction h with
    | blank s hs => exact (runs_blank hs).symm
    | run lead t rest ts hlead hne ht hend hrest ih =>
      rw [runs_lead hlead, runs_token_append hne ht hend, ih]
  · rintro rfl
    induction hlen : s.length using Nat.strong_induction_on generalizing s with
    | _ len ih =>
      rcases exists_token (p := p) s with hblank | ⟨lead, t, rest, rfl, hlead, hne, ht, hend⟩
      · rw [runs_blank hblank]
        exact .blank s hblank
      · rw [runs_lead hlead, runs_token_append hne ht hend]
        refine .run lead t rest _ hlead hne ht hend (ih rest.length ?_ rfl)
        rw [← hlen, List.length_append, List.length_append]
        have hpos := List.length_pos_iff.mpr hne
        omega

end Iago
