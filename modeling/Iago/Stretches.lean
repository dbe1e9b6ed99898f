/-
Stretches that lie one behind the other.

A stretch is a first place and a length: bytes of a store, sectors of a disk. That a
layout keeps its parts apart is mostly shown by walking through them in order, each
from where the one before it ended. `Stretches lo hi` is that walk as a predicate: it
composes (`append`), it may start earlier and end later (`mono`), and what it is for
follows from it once, that no two of the stretches meet (`pairwise`) and that all lie
between the ends (`mem`).

For a store, writes to stretches that do not meet read back in whatever order they are
made (`read_apply_of_mem`), and nothing else has changed (`apply_of_outside`).
-/
import Iago.Store

set_option autoImplicit false

namespace Iago

/-- Stretches, each a first place and a length, one behind the other from `lo` to `hi`. -/
def Stretches (lo hi : ℕ) : List (ℕ × ℕ) → Prop
  | [] => lo ≤ hi
  | r :: rs => lo ≤ r.1 ∧ Stretches (r.1 + r.2) hi rs

namespace Stretches

variable {lo mid hi : ℕ} {rs ts : List (ℕ × ℕ)}

theorem le (h : Stretches lo hi rs) : lo ≤ hi := by
  induction rs generalizing lo with
  | nil => exact h
  | cons r rs ih =>
    have := ih h.2
    have := h.1
    omega

theorem mono {lo' hi' : ℕ} (h : Stretches lo hi rs) (hlo : lo' ≤ lo) (hhi : hi ≤ hi') :
    Stretches lo' hi' rs := by
  induction rs generalizing lo lo' with
  | nil => exact Nat.le_trans hlo (Nat.le_trans h hhi)
  | cons r rs ih => exact ⟨Nat.le_trans hlo h.1, ih h.2 (Nat.le_refl _)⟩

theorem append (h : Stretches lo mid rs) (h' : Stretches mid hi ts) :
    Stretches lo hi (rs ++ ts) := by
  induction rs generalizing lo with
  | nil => exact h'.mono h (Nat.le_refl _)
  | cons r rs ih => exact ⟨h.1, ih h.2⟩

/-- All of them lie between the ends. -/
theorem mem (h : Stretches lo hi rs) {r : ℕ × ℕ} (hr : r ∈ rs) : lo ≤ r.1 ∧ r.1 + r.2 ≤ hi := by
  induction rs generalizing lo with
  | nil => cases hr
  | cons t rs ih =>
    rcases List.mem_cons.mp hr with rfl | hmem
    · exact ⟨h.1, h.2.le⟩
    · have := ih h.2 hmem
      have := h.1
      omega

/-- No two of them meet. -/
theorem pairwise (h : Stretches lo hi rs) : rs.Pairwise fun r t => r.1 + r.2 ≤ t.1 := by
  induction rs generalizing lo with
  | nil => exact List.Pairwise.nil
  | cons r rs ih =>
    refine List.Pairwise.cons (fun t ht => ?_) (ih h.2)
    exact (h.2.mem ht).1

end Stretches

namespace Store

/-- The stretch a write goes to. -/
def stretch (w : ℕ × List UInt8) : ℕ × ℕ := (w.1, w.2.length)

/-- Each of a sequence of writes that do not meet reads back. -/
theorem read_apply_of_mem {ws : List (ℕ × List UInt8)}
    (hapart : ws.Pairwise fun v w => v.1 + v.2.length ≤ w.1 ∨ w.1 + w.2.length ≤ v.1)
    {w : ℕ × List UInt8} (hw : w ∈ ws) (s : Store) :
    (s.apply ws).read w.1 w.2.length = w.2 := by
  induction hapart generalizing s with
  | nil => cases hw
  | @cons v ws hv _ ih =>
    rw [apply_cons]
    rcases List.mem_cons.mp hw with rfl | hmem
    · rw [read_apply_of_disjoint fun u hu => hv u hu, read_write_self]
    · exact ih hmem _

/-- The same for writes to stretches that lie one behind the other, made in the reverse
order. -/
theorem read_apply_reverse {ws : List (ℕ × List UInt8)} {lo hi : ℕ}
    (h : Stretches lo hi (ws.map stretch)) {w : ℕ × List UInt8} (hw : w ∈ ws) (s : Store) :
    (s.apply ws.reverse).read w.1 w.2.length = w.2 := by
  refine read_apply_of_mem ?_ (List.mem_reverse.mpr hw) s
  rw [List.pairwise_reverse]
  exact (List.pairwise_map.mp h.pairwise).imp fun hle => .inr hle

/-- What no write goes to has not changed. -/
theorem apply_of_outside {ws : List (ℕ × List UInt8)} {p : ℕ}
    (h : ∀ w ∈ ws, p < w.1 ∨ w.1 + w.2.length ≤ p) (s : Store) : s.apply ws p = s p := by
  induction ws generalizing s with
  | nil => rfl
  | cons w ws ih =>
    rw [apply_cons, ih fun v hv => h v (List.mem_cons_of_mem _ hv)]
    exact write_apply_of_outside (h w List.mem_cons_self)

end Store

end Iago
