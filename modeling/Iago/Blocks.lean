/-
Blocks of one size, each made by overwriting some stretches, and written one behind the other.

A stretch of a block that was overwritten reads back as it was written, if nothing that came
later meets it (`slice_splices_of_mem`), and it is the block's own if nothing meets it at all. A
store that has been filled block by block reads back block by block, whatever was there
before, and is what it was in front of the first block and behind the last one. A stretch of
several blocks reads back as one after the other (`read_fill_blocks`).
-/
import Iago.Store
import Mathlib.Algebra.Order.BigOperators.Group.List
import Mathlib.Tactic.Linarith

set_option autoImplicit false

namespace Iago

/-! ## Overwriting several stretches -/

/-- `bs` with each of the strings at its place, one after the other. -/
def splices (bs : List UInt8) (ps : List (ℕ × List UInt8)) : List UInt8 :=
  ps.foldl (fun bs p => splice bs p.1 p.2) bs

@[simp] theorem splices_nil (bs : List UInt8) : splices bs [] = bs := rfl

@[simp] theorem splices_cons (bs : List UInt8) (p : ℕ × List UInt8)
    (ps : List (ℕ × List UInt8)) : splices bs (p :: ps) = splices (splice bs p.1 p.2) ps := rfl

theorem splices_append (bs : List UInt8) (ps qs : List (ℕ × List UInt8)) :
    splices bs (ps ++ qs) = splices (splices bs ps) qs := List.foldl_append

/-- Zeros that start with something else. -/
theorem splice_zeros (w : ℕ) (bs : List UInt8) :
    splice (List.replicate w 0) 0 bs = bs ++ List.replicate (w - bs.length) 0 := by
  rw [splice, List.take_zero, List.nil_append, List.drop_replicate, Nat.zero_add]

/-- Zeros behind something that are overwritten further on. -/
theorem splice_behind {as bs : List UInt8} {n g off : ℕ} (hoff : off = as.length + g)
    (h : g + bs.length ≤ n) : splice (as ++ List.replicate n 0) off bs
      = as ++ List.replicate g 0 ++ bs ++ List.replicate (n - g - bs.length) 0 := by
  rw [splice, hoff, List.take_length_add_append, List.take_replicate, Nat.min_eq_left (by omega),
    Nat.add_assoc, List.drop_length_add_append, List.drop_replicate, Nat.sub_add_eq]

section Splices

variable {bs xs : List UInt8} {ps qs : List (ℕ × List UInt8)} {off n : ℕ}

theorem length_splices (h : ∀ p ∈ ps, p.1 + p.2.length ≤ bs.length) :
    (splices bs ps).length = bs.length := by
  induction ps generalizing bs with
  | nil => rfl
  | cons p ps ih =>
    have hp := length_splice (h p List.mem_cons_self)
    rw [splices_cons, ih fun q hq => ?_, hp]
    rw [hp]
    exact h q (List.mem_cons_of_mem p hq)

/-- A stretch that nothing meets. -/
theorem slice_splices_of_disjoint (h : ∀ p ∈ ps, p.1 + p.2.length ≤ bs.length)
    (hd : ∀ p ∈ ps, off + n ≤ p.1 ∨ p.1 + p.2.length ≤ off) :
    slice (splices bs ps) off n = slice bs off n := by
  induction ps generalizing bs with
  | nil => rfl
  | cons p ps ih =>
    have hp := h p List.mem_cons_self
    rw [splices_cons, ih, slice_splice_of_disjoint hp (hd p List.mem_cons_self)]
    · intro q hq
      rw [length_splice hp]
      exact h q (List.mem_cons_of_mem p hq)
    · exact fun q hq => hd q (List.mem_cons_of_mem p hq)

/-- And one of them that nothing meets that comes behind it. -/
theorem slice_splices_of_mem (hps : ps = qs ++ (off, xs) :: ps.drop (qs.length + 1))
    (h : ∀ p ∈ ps, p.1 + p.2.length ≤ bs.length)
    (hd : ∀ p ∈ ps.drop (qs.length + 1), off + xs.length ≤ p.1 ∨ p.1 + p.2.length ≤ off) :
    slice (splices bs ps) off xs.length = xs := by
  generalize ps.drop (qs.length + 1) = rs at *
  subst hps
  have hlen : (splices bs qs).length = bs.length :=
    length_splices fun p hp => h p (List.mem_append_left _ hp)
  have hoff : off + xs.length ≤ (splices bs qs).length := by
    rw [hlen]
    exact h (off, xs) (List.mem_append_right _ List.mem_cons_self)
  rw [splices_append, splices_cons, slice_splices_of_disjoint _ hd, slice_splice_self hoff]
  intro p hp
  rw [length_splice hoff, hlen]
  exact h p (List.mem_append_right _ (List.mem_cons_of_mem _ hp))

/-- If no two of them meet, each reads back as it was written. -/
theorem slice_splices_of_pairwise (h : ∀ p ∈ ps, p.1 + p.2.length ≤ bs.length)
    (hd : ps.Pairwise fun p q => p.1 + p.2.length ≤ q.1 ∨ q.1 + q.2.length ≤ p.1)
    {p : ℕ × List UInt8} (hp : p ∈ ps) : slice (splices bs ps) p.1 p.2.length = p.2 := by
  obtain ⟨qs, rs, rfl⟩ := List.append_of_mem hp
  have hdrop : (qs ++ p :: rs).drop (qs.length + 1) = rs := by
    rw [List.drop_length_add_append]
    rfl
  refine slice_splices_of_mem (by rw [hdrop]) h fun q hq => ?_
  rw [hdrop] at hq
  exact List.rel_of_pairwise_cons (List.pairwise_append.mp hd).2.1 hq

end Splices

namespace Store

/-- The store after the first `n` blocks of `f` have been written from `off` on. -/
def fill (s : Store) (off w : ℕ) (f : ℕ → List UInt8) : (n : ℕ) → Store
  | 0 => s
  | n + 1 => (fill s off w f n).write (off + n * w) (f n)

section Fill

variable {s : Store} {off w : ℕ} {f : ℕ → List UInt8}

/-- In front of the blocks and behind them nothing changes. -/
theorem fill_outside {n : ℕ} (hlen : ∀ k < n, (f k).length = w) {p : ℕ}
    (hp : p < off ∨ off + n * w ≤ p) : s.fill off w f n p = s p := by
  induction n with
  | zero => rfl
  | succ n ih =>
    have hsucc : (n + 1) * w = n * w + w := Nat.succ_mul n w
    have hn := hlen n (Nat.lt_succ_self n)
    rw [fill, write_apply_of_outside (by omega)]
    exact ih (fun k hk => hlen k (Nat.lt_succ_of_lt hk)) (by omega)

/-- A block reads back. -/
theorem read_fill {n k : ℕ} (hlen : ∀ k < n, (f k).length = w) (hk : k < n) :
    (s.fill off w f n).read (off + k * w) w = f k := by
  induction n with
  | zero => exact absurd hk (Nat.not_lt_zero k)
  | succ n ih =>
    have hn := hlen n (Nat.lt_succ_self n)
    rw [fill]
    by_cases hkn : k = n
    · have hself := read_write_self (s.fill off w f n) (off + n * w) (f n)
      rw [hn] at hself
      rw [hkn]
      exact hself
    · have hmul : (k + 1) * w ≤ n * w := Nat.mul_le_mul_right w (by omega)
      have hsucc : (k + 1) * w = k * w + w := Nat.succ_mul k w
      rw [read_write_of_disjoint (by omega)]
      exact ih (fun k hk => hlen k (Nat.lt_succ_of_lt hk)) (by omega)

/-- So do several blocks. -/
theorem read_fill_blocks {n k m : ℕ} (hlen : ∀ k < n, (f k).length = w) (hk : k + m ≤ n) :
    (s.fill off w f n).read (off + k * w) (m * w)
      = ((List.range m).map fun i => f (k + i)).flatten := by
  induction m with
  | zero =>
    rw [Nat.zero_mul]
    rfl
  | succ m ih =>
    rw [List.range_succ, List.map_append, List.flatten_append, List.map_singleton,
      List.flatten_singleton, ← ih (by omega), Nat.succ_mul, ← read_append, Nat.add_assoc,
      ← Nat.add_mul, read_fill hlen (by omega)]

/-- What is filled in does not depend on what was there. -/
theorem fill_congr {t : Store} {n : ℕ} (hlen : ∀ k < n, (f k).length = w) {p : ℕ}
    (hp : off ≤ p) (hpn : p < off + n * w) : s.fill off w f n p = t.fill off w f n p := by
  induction n with
  | zero => omega
  | succ n ih =>
    have hn := hlen n (Nat.lt_succ_self n)
    have hsucc : (n + 1) * w = n * w + w := Nat.succ_mul n w
    rw [fill, fill]
    by_cases hlast : off + n * w ≤ p
    · rw [write_apply_of_inside hlast (by omega), write_apply_of_inside hlast (by omega)]
    · rw [write_apply_of_outside (by omega), write_apply_of_outside (by omega)]
      exact ih (fun k hk => hlen k (Nat.lt_succ_of_lt hk)) (by omega)

end Fill

end Store

end Iago
