/-
Endless sequences of call outcomes.

A script of finitely many outcomes says what a loop does as long as the script
lasts. Whether the loop ever ends is a question about a sequence that does not run
out, and about one that lets it get on: a call that succeeds transfers at least one
byte, and no signal keeps interrupting for ever. `Calls` is such a sequence; a loop
ends on it when it returns on one of its beginnings.

`Calls.induct` is the rule for a loop that repeats an interrupted call: consider the
call that is not interrupted, and skip the ones before it. `Ends.bind` is the rule for
one piece of code after another.
-/
import Iago.GptRead

set_option autoImplicit false

namespace Iago

/-- What holds again and again holds again and again from any point on. -/
theorem exists_from {p : ℕ → Prop} (h : ∀ k, ∃ j, k ≤ j ∧ p j) (n k : ℕ) :
    ∃ j, k ≤ j ∧ p (n + j) := by
  obtain ⟨j, hj, hp⟩ := h (n + k)
  refine ⟨j - n, by omega, ?_⟩
  rwa [show n + (j - n) = j by omega]

/-- Outcomes without errors, in which something is transferred by every call that
is not interrupted, and not all calls are from some point on. -/
structure Calls where
  outcome : ℕ → IoRes
  noErr : ∀ k, outcome k ≠ .err
  moves : ∀ k n, outcome k = .upto n → 0 < n
  calm : ∀ k, ∃ j, k ≤ j ∧ outcome j ≠ .eintr

namespace Calls

/-- The first `n` outcomes. -/
def first (c : Calls) (n : ℕ) : List IoRes := (List.range n).map c.outcome

/-- What follows the first `n`. -/
def after (c : Calls) (n : ℕ) : Calls where
  outcome k := c.outcome (n + k)
  noErr k := c.noErr (n + k)
  moves k := c.moves (n + k)
  calm := exists_from c.calm n

/-- Calls that all transfer what they can. -/
def all : Calls where
  outcome _ := .all
  noErr _ := IoRes.noConfusion
  moves _ _ h := IoRes.noConfusion h
  calm k := ⟨k, Nat.le_refl k, IoRes.noConfusion⟩

@[simp] theorem first_zero (c : Calls) : c.first 0 = [] := rfl

theorem first_add (c : Calls) (m n : ℕ) : c.first (m + n) = c.first m ++ (c.after m).first n := by
  rw [first, first, first, List.range_add, List.map_append, List.map_map]
  rfl

theorem first_succ (c : Calls) (n : ℕ) :
    c.first (n + 1) = c.outcome 0 :: (c.after 1).first n := by
  rw [Nat.add_comm, first_add]
  rfl

/-- None of the outcomes is an error. -/
theorem err_not_mem_first (c : Calls) (n : ℕ) : .err ∉ c.first n := by
  intro h
  obtain ⟨k, -, hk⟩ := List.mem_map.mp h
  exact c.noErr k hk

/-- A call that is not interrupted transfers something if there is something. -/
theorem amount_pos (c : Calls) (h : c.outcome 0 ≠ .eintr) {avail : ℕ} (havail : 0 < avail) :
    0 < (c.outcome 0).amount avail := by
  cases hr : c.outcome 0 with
  | all => exact havail
  | upto n =>
    have := c.moves 0 n hr
    simp only [IoRes.amount]
    omega
  | eintr => exact absurd hr h
  | err => exact absurd hr (c.noErr 0)

/-- Skipping the interrupted calls. -/
theorem induct {P : Calls → Prop} (call : ∀ c : Calls, c.outcome 0 ≠ .eintr → P c)
    (skip : ∀ c : Calls, c.outcome 0 = .eintr → P (c.after 1) → P c) (c : Calls) : P c := by
  obtain ⟨j, -, hj⟩ := c.calm 0
  -- by induction on how many calls are interrupted at most before the first that is not
  induction j generalizing c with
  | zero => exact call c hj
  | succ j ih =>
    by_cases h0 : c.outcome 0 = .eintr
    · refine skip c h0 (ih (c.after 1) ?_)
      show c.outcome (1 + j) ≠ .eintr
      rwa [Nat.add_comm]
    · exact call c h0

end Calls

/-! ## Code that ends -/

section Ends

variable {ε β γ : Type} {f f' : List IoRes → Exec ε β} {c : Calls}
  {Q : (List IoRes → β) → Prop} {Q' : (List IoRes → γ) → Prop}

/-- A piece of code that comes to an end: after finitely many calls it has finished, takes
nothing of what follows them, and returns what `Q` says. -/
def Ends (f : List IoRes → Exec ε β) (c : Calls) (Q : (List IoRes → β) → Prop) : Prop :=
  ∃ n, (∀ rs, f (c.first n ++ rs) = .fault) ∨
    ∃ out, Q out ∧ ∀ rs, f (c.first n ++ rs) = .ret (out rs)

/-- No calls are made. -/
theorem Ends.ret {out : List IoRes → β} (hq : Q out) (h : ∀ rs, f rs = .ret (out rs)) :
    Ends f c Q :=
  ⟨0, .inr ⟨out, hq, h⟩⟩

/-- A run that faults ends. -/
theorem Ends.fault (h : ∀ rs, f rs = .fault) : Ends f c Q := ⟨0, .inl h⟩

/-- What is left to do after `n` calls ends. -/
theorem Ends.after {n : ℕ} (h : ∀ rs, f (c.first n ++ rs) = f' rs) (hrest : Ends f' (c.after n) Q) :
    Ends f c Q := by
  obtain ⟨m, hm⟩ := hrest
  have hboth (rs : List IoRes) : f (c.first (n + m) ++ rs) = f' ((c.after n).first m ++ rs) := by
    rw [Calls.first_add, List.append_assoc, h]
  refine ⟨n + m, ?_⟩
  rcases hm with hfault | ⟨out, hq, hret⟩
  · exact .inl fun rs => (hboth rs).trans (hfault rs)
  · exact .inr ⟨out, hq, fun rs => (hboth rs).trans (hret rs)⟩

/-- One piece after the other: the second is told what the first returned after `n` calls. -/
theorem Ends.bind {k : β → Exec ε γ} (h : Ends f c Q) (hk : ∀ n out, Q out →
      (∀ rs, f (c.first n ++ rs) = .ret (out rs)) → Ends (fun rs => k (out rs)) (c.after n) Q') :
    Ends (fun rs => f rs >>= k) c Q' := by
  obtain ⟨n, hfault | ⟨out, hq, hret⟩⟩ := h
  · refine ⟨n, .inl fun rs => ?_⟩
    show (f (c.first n ++ rs) >>= k) = .fault
    rw [hfault, Exec.fault_bind]
  · refine Ends.after (n := n) (fun rs => ?_) (hk n out hq hret)
    show (f (c.first n ++ rs) >>= k) = k (out rs)
    rw [hret, Exec.ret_bind]

/-- It returns or faults on a beginning of the sequence. -/
theorem Ends.exists_ne_hang (h : Ends f c Q) : ∃ n, f (c.first n) ≠ .hang := by
  obtain ⟨n, hn⟩ := h
  refine ⟨n, ?_⟩
  rcases hn with hfault | ⟨out, -, hret⟩
  · have h := hfault []
    rw [List.append_nil] at h
    rw [h]
    exact fun h => by cases h
  · have h := hret []
    rw [List.append_nil] at h
    rw [h]
    exact fun h => by cases h

end Ends

end Iago
