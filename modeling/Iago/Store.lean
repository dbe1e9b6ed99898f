/-
A byte-addressed store, sequences of writes to it, and writes cut short.

A store is a function from addresses to bytes. The rules here are the frame
rules a storage proof runs on: a stretch that was written reads back as written,
a stretch no write meets reads back as before. A sequence of writes cut after
its first `k` bytes (`tear`) is again a sequence of writes, each of them a prefix
of the original, so the same two rules say what a crash can leave behind; the
one extra shape is the stretch in the middle of which the cut fell, which reads
back as new bytes followed by old ones (`read_write_take`).
-/
import Iago.Bytes

set_option autoImplicit false

namespace Iago

/-- The contents of a byte-addressed device. -/
abbrev Store := ℕ → UInt8

namespace Store

/-- The `n` bytes at `off`. -/
def read (s : Store) (off n : ℕ) : List UInt8 := (List.range n).map fun i => s (off + i)

/-- The store after `bs` has been written at `off`. -/
def write (s : Store) (off : ℕ) (bs : List UInt8) : Store :=
  fun p => if off ≤ p ∧ p < off + bs.length then bs.getD (p - off) 0 else s p

@[simp] theorem length_read (s : Store) (off n : ℕ) : (s.read off n).length = n := by
  rw [read, List.length_map, List.length_range]

theorem getElem?_read (s : Store) {off n i : ℕ} (hi : i < n) :
    (s.read off n)[i]? = some (s (off + i)) := by
  rw [read, List.getElem?_map, List.getElem?_range hi]
  rfl

theorem read_congr {s t : Store} {off n : ℕ} (h : ∀ p, off ≤ p → p < off + n → s p = t p) :
    s.read off n = t.read off n := by
  apply List.map_congr_left
  intro i hi
  rw [List.mem_range] at hi
  exact h _ (by omega) (by omega)

/-- Reading a stretch is reading its two parts. -/
theorem read_append (s : Store) (off m n : ℕ) :
    s.read off m ++ s.read (off + m) n = s.read off (m + n) := by
  rw [read, read, read, List.range_add, List.map_append, List.map_map]
  congr 1
  apply List.map_congr_left
  intro i _
  simp only [Function.comp, Nat.add_assoc]

theorem slice_read (s : Store) {off n o w : ℕ} (h : o + w ≤ n) :
    slice (s.read off n) o w = s.read (off + o) w := by
  apply List.ext_getElem?
  intro p
  by_cases hp : p < w
  · rw [getElem?_slice hp, getElem?_read s (by omega), getElem?_read s hp, Nat.add_assoc]
  · rw [List.getElem?_eq_none (by rw [length_slice (by rw [length_read]; omega)]; omega),
      List.getElem?_eq_none (by rw [length_read]; omega)]

/-- A write changes nothing outside it. -/
theorem write_apply_of_outside {s : Store} {off p : ℕ} {bs : List UInt8}
    (hp : p < off ∨ off + bs.length ≤ p) : s.write off bs p = s p := by
  rw [write, if_neg (by omega)]

theorem write_apply_of_inside {s : Store} {off p : ℕ} {bs : List UInt8}
    (h1 : off ≤ p) (h2 : p < off + bs.length) : s.write off bs p = bs.getD (p - off) 0 := by
  rw [write, if_pos ⟨h1, h2⟩]

@[simp] theorem write_nil (s : Store) (off : ℕ) : s.write off [] = s := by
  funext p
  exact write_apply_of_outside (by rw [List.length_nil]; omega)

/-- Two writes, the second where the first stopped, are one. -/
theorem write_write (s : Store) (off : ℕ) (as bs : List UInt8) :
    (s.write off as).write (off + as.length) bs = s.write off (as ++ bs) := by
  funext p
  by_cases h1 : p < off + as.length
  · rw [write_apply_of_outside (.inl h1)]
    by_cases h0 : off ≤ p
    · rw [write_apply_of_inside h0 h1, write_apply_of_inside h0 (by rw [List.length_append]; omega),
        List.getD_eq_getElem?_getD, List.getD_eq_getElem?_getD,
        List.getElem?_append_left (by omega)]
    · rw [write_apply_of_outside (by omega), write_apply_of_outside (by omega)]
  · by_cases h2 : p < off + as.length + bs.length
    · rw [write_apply_of_inside (by omega) h2,
        write_apply_of_inside (by omega) (by rw [List.length_append]; omega),
        List.getD_eq_getElem?_getD, List.getD_eq_getElem?_getD,
        List.getElem?_append_right (by omega), Nat.sub_add_eq]
    · rw [write_apply_of_outside (by omega), write_apply_of_outside (by omega),
        write_apply_of_outside (by rw [List.length_append]; omega)]

/-- What was written reads back. -/
theorem read_write_self (s : Store) (off : ℕ) (bs : List UInt8) :
    (s.write off bs).read off bs.length = bs := by
  apply List.ext_getElem?
  intro i
  by_cases hi : i < bs.length
  · rw [getElem?_read _ hi, write_apply_of_inside (by omega) (by omega), Nat.add_sub_cancel_left,
      List.getD_eq_getElem?_getD, List.getElem?_eq_getElem hi, Option.getD_some]
  · rw [List.getElem?_eq_none (by rw [length_read]; omega), List.getElem?_eq_none (by omega)]

/-- A stretch the write does not meet reads back as before. -/
theorem read_write_of_disjoint {s : Store} {off off' n : ℕ} {bs : List UInt8}
    (h : off' + n ≤ off ∨ off + bs.length ≤ off') :
    (s.write off bs).read off' n = s.read off' n :=
  read_congr fun _ h1 h2 => write_apply_of_outside (by omega)

/-- A stretch that a write from further left reaches into: the end of what was
written, and what is left of the stretch behind it. -/
theorem read_write_of_le (s : Store) {off off' : ℕ} (h : off ≤ off') (n : ℕ) (bs : List UInt8) :
    (s.write off bs).read off' n
      = (bs.drop (off' - off)).take n ++ (s.read off' n).drop (bs.drop (off' - off)).length := by
  apply List.ext_getElem?
  intro i
  have hdrop : (bs.drop (off' - off)).length = bs.length - (off' - off) := List.length_drop
  have hlen : ((bs.drop (off' - off)).take n).length = min n (bs.length - (off' - off)) := by
    rw [List.length_take, hdrop]
  by_cases hi : i < n
  · rw [getElem?_read _ hi]
    by_cases hin : off' + i < off + bs.length
    · rw [write_apply_of_inside (by omega) hin, List.getElem?_append_left (by omega),
        List.getElem?_take_of_lt hi, List.getElem?_drop, List.getD_eq_getElem?_getD,
        List.getElem?_eq_getElem (by omega), List.getElem?_eq_getElem (by omega)]
      simp only [Option.getD_some]
      congr 2
      omega
    · rw [write_apply_of_outside (by omega), List.getElem?_append_right (by omega), hlen, hdrop,
        Nat.min_eq_right (by omega), List.getElem?_drop, getElem?_read _ (by omega)]
      congr 3
      omega
  · rw [List.getElem?_eq_none (by rw [length_read]; omega),
      List.getElem?_eq_none (by
        rw [List.length_append, List.length_drop, length_read, hlen, hdrop]
        omega)]

/-- A write that leaves a stretch around it as it was leaves everything as it was. -/
theorem write_eq_self {s : Store} {off n : ℕ} {bs : List UInt8} (hlen : bs.length ≤ n)
    (h : (s.write off bs).read off n = s.read off n) : s.write off bs = s := by
  funext p
  by_cases hp : off ≤ p ∧ p < off + bs.length
  · have hbyte := congrArg (fun l => l[p - off]?) h
    rw [getElem?_read _ (by omega), getElem?_read _ (by omega),
      show off + (p - off) = p by omega] at hbyte
    injection hbyte
  · exact write_apply_of_outside (by omega)

/-- A write of a prefix leaves the rest of the stretch as it was. -/
theorem read_write_take (s : Store) (off k : ℕ) (bs : List UInt8) :
    (s.write off (bs.take k)).read off bs.length
      = bs.take k ++ (s.read off bs.length).drop k := by
  have hprefix : (bs.take k).length = min k bs.length := List.length_take
  rw [read_write_of_le s (Nat.le_refl off), Nat.sub_self, List.drop_zero,
    List.take_of_length_le (by omega), hprefix]
  congr 1
  by_cases hk : k ≤ bs.length
  · rw [Nat.min_eq_left hk]
  · rw [List.drop_of_length_le (by rw [length_read]; omega),
      List.drop_of_length_le (by rw [length_read]; omega)]

/-! ## Sequences of writes -/

/-- The store after a sequence of writes, each an address and the bytes. -/
def apply (s : Store) (ws : List (ℕ × List UInt8)) : Store :=
  ws.foldl (fun s w => s.write w.1 w.2) s

@[simp] theorem apply_nil (s : Store) : s.apply [] = s := rfl

@[simp] theorem apply_cons (s : Store) (w : ℕ × List UInt8) (ws : List (ℕ × List UInt8)) :
    s.apply (w :: ws) = (s.write w.1 w.2).apply ws := rfl

theorem apply_append (s : Store) (ws vs : List (ℕ × List UInt8)) :
    s.apply (ws ++ vs) = (s.apply ws).apply vs := by
  rw [apply, List.foldl_append]
  rfl

/-- A stretch no write of the sequence meets reads back as before. -/
theorem read_apply_of_disjoint {ws : List (ℕ × List UInt8)} {off n : ℕ}
    (h : ∀ w ∈ ws, off + n ≤ w.1 ∨ w.1 + w.2.length ≤ off) (s : Store) :
    (s.apply ws).read off n = s.read off n := by
  induction ws generalizing s with
  | nil => rfl
  | cons w ws ih =>
    rw [apply_cons, ih (fun v hv => h v (List.mem_cons_of_mem _ hv)),
      read_write_of_disjoint (h w List.mem_cons_self)]

/-! ## Writes cut short -/

/-- The sequence of writes cut after its first `k` bytes. -/
def tear : ℕ → List (ℕ × List UInt8) → List (ℕ × List UInt8)
  | _, [] => []
  | k, (off, bs) :: ws => (off, bs.take k) :: tear (k - bs.length) ws

end Store

end Iago
