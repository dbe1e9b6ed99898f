/-
Histories of a table that hands out its indices.

A table of slots is used through two requests: put this somewhere, and clear that
slot. What it holds at any time is a finite partial map, and the map is determined
by the answers given so far. `replay` computes it; `Live` says the same in words, that
an index holds a value if the value was put there and nothing has happened at that
index since, and `replay_eq_some_iff` is their agreement.

Which index a request gets is up to the table. One that searches its slots in order
gives the least free one, `isLeast_of_find?`.
-/
import Mathlib.Data.List.Basic
import Mathlib.Logic.Function.Basic
import Mathlib.Order.Bounds.Basic

set_option autoImplicit false

namespace Iago

/-- A request and its answer: a value and the index it was given, if any; an index and
whether it was cleared. -/
inductive Event (ι α : Type) where
  | created (a : α) (i : Option ι)
  | deleted (i : ι) (ok : Bool)

section History

variable {ι α : Type}

/-- Something happened at `i`. -/
def Event.At : Event ι α → ι → Prop
  | created _ r, i => r = some i
  | deleted j ok, i => ok = true ∧ j = i

/-- After the history `h`, index `i` holds `a`: it was put there, and nothing has
happened at `i` since. -/
def Live (h : List (Event ι α)) (i : ι) (a : α) : Prop :=
  ∃ before after, h = before ++ .created a (some i) :: after ∧ ∀ e ∈ after, ¬ e.At i

variable [DecidableEq ι]

/-- The map after one more event. -/
def Event.apply (m : ι → Option α) : Event ι α → ι → Option α
  | created a (some i) => Function.update m i (some a)
  | created _ none => m
  | deleted i true => Function.update m i none
  | deleted _ false => m

/-- The map after a history. -/
def replay (h : List (Event ι α)) : ι → Option α := h.foldl Event.apply fun _ => none

@[simp] theorem replay_nil (i : ι) : replay ([] : List (Event ι α)) i = none := rfl

@[simp] theorem replay_snoc (h : List (Event ι α)) (e : Event ι α) :
    replay (h ++ [e]) = e.apply (replay h) := by
  rw [replay, List.foldl_append]
  rfl

/-- An event changes the map only where something happens. -/
theorem Event.apply_of_not_at {m : ι → Option α} {e : Event ι α} {i : ι} (h : ¬ e.At i) :
    e.apply m i = m i := by
  cases e with
  | created a r =>
    cases r with
    | none => rfl
    | some j =>
      exact Function.update_of_ne (fun hij => h (congrArg some hij.symm)) _ _
  | deleted j ok =>
    cases ok with
    | false => rfl
    | true => exact Function.update_of_ne (fun hij => h ⟨rfl, hij.symm⟩) _ _

/-- Where something happens, it holds the value that was put there, or nothing. -/
theorem Event.apply_of_at {m : ι → Option α} {e : Event ι α} {i : ι} (h : e.At i) {a : α} :
    e.apply m i = some a ↔ e = .created a (some i) := by
  cases e with
  | created b r =>
    simp only [Event.At] at h
    subst h
    simp [Event.apply]
  | deleted j ok =>
    obtain ⟨rfl, rfl⟩ := h
    simp [Event.apply]

/-- The map and the words agree. The induction is on the history, from any map it
may start with. -/
theorem foldl_apply_eq_some_iff (h : List (Event ι α)) (m : ι → Option α) {i : ι} {a : α} :
    h.foldl Event.apply m i = some a ↔ Live h i a ∨ m i = some a ∧ ∀ e ∈ h, ¬ e.At i := by
  induction h generalizing m with
  | nil => simp [Live]
  | cons e h ih =>
    rw [List.foldl_cons, ih]
    constructor
    · rintro (⟨before, after, rfl, hafter⟩ | ⟨hm, hh⟩)
      · exact .inl ⟨e :: before, after, rfl, hafter⟩
      -- The first event decides only if no later one is about the same index.
      · by_cases hat : e.At i
        · rw [Event.apply_of_at hat] at hm
          exact .inl ⟨[], h, by rw [hm]; rfl, hh⟩
        · rw [Event.apply_of_not_at hat] at hm
          refine .inr ⟨hm, fun e' he' => ?_⟩
          rcases List.mem_cons.mp he' with rfl | he'
          · exact hat
          · exact hh e' he'
    · rintro (⟨before, after, heq, hafter⟩ | ⟨hm, hh⟩)
      · cases before with
        | nil =>
          simp only [List.nil_append, List.cons.injEq] at heq
          obtain ⟨rfl, rfl⟩ := heq
          have hat : Event.At (.created a (some i)) i := rfl
          exact .inr ⟨(Event.apply_of_at hat).mpr rfl, hafter⟩
        | cons b before =>
          simp only [List.cons_append, List.cons.injEq] at heq
          exact .inl ⟨before, after, heq.2, hafter⟩
      · have hat : ¬ e.At i := hh e List.mem_cons_self
        exact .inr ⟨by rw [Event.apply_of_not_at hat, hm],
          fun e' he' => hh e' (List.mem_cons_of_mem _ he')⟩

/-- What is there is what is live. -/
theorem replay_eq_some_iff {h : List (Event ι α)} {i : ι} {a : α} :
    replay h i = some a ↔ Live h i a := by
  rw [replay, foldl_apply_eq_some_iff]
  simp

theorem replay_eq_none_iff {h : List (Event ι α)} {i : ι} :
    replay h i = none ↔ ¬ ∃ a, Live h i a := by
  rw [← Option.not_isSome_iff_eq_none, Option.isSome_iff_exists]
  simp only [replay_eq_some_iff]

end History

/-! ## The least free index -/

/-- A search through a list in ascending order finds the least element with the
property. -/
theorem isLeast_of_find? {ι : Type} [LE ι] {l : List ι} {p : ι → Bool} {i : ι}
    (hl : l.Pairwise (· ≤ ·)) (hrefl : i ≤ i) (h : l.find? p = some i) :
    IsLeast {j | j ∈ l ∧ p j = true} i := by
  obtain ⟨hp, before, after, rfl, hbefore⟩ := List.find?_eq_some_iff_append.mp h
  refine ⟨⟨by simp, hp⟩, ?_⟩
  rintro j ⟨hj, hpj⟩
  rcases List.mem_append.mp hj with hj | hj
  · have := hbefore j hj
    rw [hpj] at this
    cases this
  · rcases List.mem_cons.mp hj with rfl | hj
    · exact hrefl
    · exact (List.pairwise_cons.mp (List.pairwise_append.mp hl).2.1).1 j hj

end Iago
