/-
What running a piece of C can come to: the result type every model in this
development returns.

A C function of the repository ends in one of four ways, and the difference
between them is what most of the theorems are about. It *returns* a value; it
calls `die()`, which ends the process with a message; it touches memory outside
the object it was given, after which C promises nothing; or it sits in a loop
that never ends. `Exec` keeps the four apart, so that "the function returns 0"
can never be read off a run that in fact crashed or hung.

The type is generic in the message type: library code that never dies is
polymorphic in it, and its runs can be sequenced with installer code that does.
-/
import Mathlib.Logic.Basic

set_option autoImplicit false

namespace Iago

/-- The outcome of running C code: a value, a `die()`, an access outside an
object (undefined behaviour), or no end at all. -/
inductive Exec (ε α : Type) where
  | ret (a : α)
  | die (e : ε)
  | fault
  | hang
  deriving DecidableEq, Repr

namespace Exec

variable {ε α β : Type}

/-- Sequencing: only a returned value is passed on. -/
protected def bind : Exec ε α → (α → Exec ε β) → Exec ε β
  | ret a, f => f a
  | die e, _ => die e
  | fault, _ => fault
  | hang, _ => hang

instance : Monad (Exec ε) where
  pure := ret
  bind := Exec.bind

/-! ## Sequencing, as rewriting

The four equations `simp` runs a `do` block with, and the inversion that takes a
returned value apart into the returned values of the two halves. -/

@[simp] theorem pure_eq (a : α) : (pure a : Exec ε α) = ret a := rfl

@[simp] theorem ret_bind (a : α) (f : α → Exec ε β) : (ret a >>= f) = f a := rfl

@[simp] theorem die_bind (e : ε) (f : α → Exec ε β) : ((die e : Exec ε α) >>= f) = die e := rfl

@[simp] theorem fault_bind (f : α → Exec ε β) : ((fault : Exec ε α) >>= f) = fault := rfl

@[simp] theorem hang_bind (f : α → Exec ε β) : ((hang : Exec ε α) >>= f) = hang := rfl

/-- A sequence returns exactly when its first half does and the second half,
run on that value, does. -/
theorem bind_eq_ret {x : Exec ε α} {f : α → Exec ε β} {b : β} :
    (x >>= f) = ret b ↔ ∃ a, x = ret a ∧ f a = ret b := by
  cases x with
  | ret a => simp
  | die e => simp
  | fault => simp
  | hang => simp

/-- A sequence dies either in its first half or in its second. -/
theorem bind_eq_die {x : Exec ε α} {f : α → Exec ε β} {e : ε} :
    (x >>= f) = die e ↔ x = die e ∨ ∃ a, x = ret a ∧ f a = die e := by
  cases x with
  | ret a => simp
  | die e => simp
  | fault => simp
  | hang => simp

/-- What comes next may be grouped in either way. -/
theorem bind_assoc {γ : Type} (x : Exec ε α) (f : α → Exec ε β) (g : β → Exec ε γ) :
    (x >>= f >>= g) = (x >>= fun a => f a >>= g) := by
  cases x <;> rfl

/-- Two sequences that start alike, one of which goes on with `k`, do so step by step. -/
theorem bind_then {γ : Type} {x : Exec ε α} {f : α → Exec ε γ} {g : α → Exec ε β}
    {k : β → Exec ε γ} (h : ∀ a, f a = (g a).bind k) : (x >>= f) = (x >>= g).bind k := by
  cases x with
  | ret a => exact h a
  | die e => rfl
  | fault => rfl
  | hang => rfl

/-- The run returns a value that passes a test; for runs on inputs that are given. -/
def returns (p : α → Bool) : Exec ε α → Bool
  | ret a => p a
  | _ => false

/-- A run that returns something that passes a test has a result that does. -/
theorem exists_of_returns {x : Exec ε α} {p : α → Bool} (h : x.returns p = true) :
    ∃ a, x = ret a ∧ p a = true := by
  cases x with
  | ret a => exact ⟨a, rfl, h⟩
  | die e => cases h
  | fault => cases h
  | hang => cases h

/-- And the run dies with a message that does. -/
def dies (p : ε → Bool) : Exec ε α → Bool
  | die e => p e
  | _ => false

/-- And a run that dies of something that passes one has died of it. -/
theorem exists_of_dies {x : Exec ε α} {p : ε → Bool} (h : x.dies p = true) :
    ∃ e, x = die e ∧ p e = true := by
  cases x with
  | ret a => cases h
  | die e => exact ⟨e, rfl, h⟩
  | fault => cases h
  | hang => cases h

/-- A choice in the first half of a sequence is a choice between two sequences. -/
theorem ite_bind {c : Prop} [Decidable c] (x y : Exec ε α) (f : α → Exec ε β) :
    ((if c then x else y) >>= f) = if c then x >>= f else y >>= f := by
  by_cases hc : c
  · rw [if_pos hc, if_pos hc]
  · rw [if_neg hc, if_neg hc]

/-! ## Runs that end -/

/-- The run ends in order: with a value or with a message. -/
def Ended (x : Exec ε α) : Prop := x ≠ fault ∧ x ≠ hang

@[simp] theorem ended_ret (a : α) : (ret a : Exec ε α).Ended := ⟨nofun, nofun⟩

@[simp] theorem ended_die (e : ε) : (die e : Exec ε α).Ended := ⟨nofun, nofun⟩

/-- A sequence does if its first half does, and the second one on what that returns. -/
theorem Ended.bind {x : Exec ε α} {f : α → Exec ε β} (hx : x.Ended)
    (hf : ∀ a, x = ret a → (f a).Ended) : (x >>= f).Ended := by
  cases x with
  | ret a => exact hf a rfl
  | die e => exact ended_die e
  | fault => exact absurd rfl hx.1
  | hang => exact absurd rfl hx.2

/-- What ends has died, or returned. -/
theorem Ended.die_or_ret {x : Exec ε α} (hx : x.Ended) :
    (∃ e, x = die e) ∨ ∃ a, x = ret a := by
  cases x with
  | ret a => exact .inr ⟨a, rfl⟩
  | die e => exact .inl ⟨e, rfl⟩
  | fault => exact absurd rfl hx.1
  | hang => exact absurd rfl hx.2

end Exec

end Iago
