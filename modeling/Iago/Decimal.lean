/-
Numbers as text: what `printf` writes for a number and what the `strto…` family
reads back.

The installer keeps everything it decides in a table of strings, so every number
it passes on is printed in one place and parsed in another. Printing is `dec`;
parsing is `numeral`, which like the C functions skips leading white space, takes
one sign, reads the longest run of digits of its base and ignores what follows.
`numeral_dec` is the fact the rest of the development rests on: what is printed is
read back.
-/
import Mathlib.Data.Nat.Basic
import Mathlib.Data.List.TakeWhile
import Mathlib.Tactic.IntervalCases

set_option autoImplicit false

namespace Iago

/-! ## Printing -/

/-- The last `fuel` decimal digits of a number at most, without leading zeros. -/
def decDigits : ℕ → ℕ → List UInt8
  | 0, _ => []
  | fuel + 1, n =>
    if n < 10 then [UInt8.ofNat (48 + n)]
    else decDigits fuel (n / 10) ++ [UInt8.ofNat (48 + n % 10)]

/-- A number in decimal, as `%llu` prints it. -/
def dec (n : ℕ) : List UInt8 := decDigits (n + 1) n

/-- A number in decimal with its sign, as `%lld` prints it. -/
def decInt (n : Int) : List UInt8 := if n < 0 then 45 :: dec n.natAbs else dec n.toNat

/-! ## Parsing -/

/-- What a character is worth as a digit: less than 36 for the digits and the
letters, and 36, too much for any base, for everything else. -/
def digit (c : UInt8) : ℕ :=
  if 48 ≤ c ∧ c ≤ 57 then c.toNat - 48
  else if 65 ≤ c ∧ c ≤ 90 then c.toNat - 55
  else if 97 ≤ c ∧ c ≤ 122 then c.toNat - 87
  else 36

/-- `isspace`. -/
def isspace (c : UInt8) : Bool := c = 32 ∨ 9 ≤ c ∧ c ≤ 13

/-- The value of a string of digits. -/
def digitsVal (base : ℕ) (ds : List UInt8) : ℕ := ds.foldl (fun n c => n * base + digit c) 0

/-- The number a string starts with, if it starts with one. -/
def number (base : ℕ) (s : List UInt8) : Option ℕ :=
  let ds := s.takeWhile fun c => digit c < base
  if ds = [] then none else some (digitsVal base ds)

/-- The signed number a string starts with, after white space. -/
def numeral (base : ℕ) (s : List UInt8) : Option Int :=
  match s.dropWhile isspace with
  | [] => none
  | c :: s =>
    if c = 45 then (number base s).map fun n => -(n : Int)
    else if c = 43 then (number base s).map fun n => (n : Int)
    else (number base (c :: s)).map fun n => (n : Int)

/-! ## Printing, then parsing -/

/-- A decimal digit as a character: its value, and that it is neither a space nor a
sign. -/
theorem digit_decimal {d : ℕ} (hd : d < 10) :
    digit (UInt8.ofNat (48 + d)) = d ∧ isspace (UInt8.ofNat (48 + d)) = false ∧
      UInt8.ofNat (48 + d) ≠ 45 ∧ UInt8.ofNat (48 + d) ≠ 43 := by
  interval_cases d <;> decide

theorem decDigits_ne_nil {fuel n : ℕ} (h : n < fuel) : decDigits fuel n ≠ [] := by
  cases fuel with
  | zero => exact absurd h (Nat.not_lt_zero n)
  | succ fuel =>
    rw [decDigits]
    split_ifs
    · exact List.cons_ne_nil _ _
    · exact List.append_ne_nil_of_right_ne_nil _ (List.cons_ne_nil _ _)

theorem mem_decDigits {fuel n : ℕ} {c : UInt8} (hc : c ∈ decDigits fuel n) :
    ∃ d, d < 10 ∧ c = UInt8.ofNat (48 + d) := by
  induction fuel generalizing n with
  | zero => exact absurd hc List.not_mem_nil
  | succ fuel ih =>
    rw [decDigits] at hc
    split_ifs at hc with hn
    · exact ⟨n, hn, List.mem_singleton.mp hc⟩
    · rcases List.mem_append.mp hc with hc | hc
      · exact ih hc
      · exact ⟨n % 10, Nat.mod_lt _ (by decide), List.mem_singleton.mp hc⟩

/-- The digits printed are worth the number printed. -/
theorem digitsVal_decDigits {fuel n : ℕ} (h : n < fuel) : digitsVal 10 (decDigits fuel n) = n := by
  induction fuel generalizing n with
  | zero => exact absurd h (Nat.not_lt_zero n)
  | succ fuel ih =>
    rw [decDigits]
    split_ifs with hn
    · rw [digitsVal, List.foldl_cons, List.foldl_nil, (digit_decimal hn).1, Nat.zero_mul,
        Nat.zero_add]
    · have hrest : digitsVal 10 (decDigits fuel (n / 10)) = n / 10 := ih (by omega)
      rw [digitsVal] at hrest ⊢
      rw [List.foldl_append, hrest, List.foldl_cons, List.foldl_nil,
        (digit_decimal (Nat.mod_lt _ (by decide))).1]
      omega

theorem dec_ne_nil (n : ℕ) : dec n ≠ [] := decDigits_ne_nil (Nat.lt_succ_self n)

/-- A printed digit has a value below 10. -/
theorem digit_of_printed {ds : List UInt8} (hds : ∀ c ∈ ds, ∃ d, d < 10 ∧ c = UInt8.ofNat (48 + d)) :
    ∀ c ∈ ds, decide (digit c < 10) = true := by
  intro c hc
  obtain ⟨k, hk, rfl⟩ := hds c hc
  rw [(digit_decimal hk).1]
  exact decide_eq_true hk

/-- Digits end where the text does, or at anything that is no digit. -/
theorem number_digits_before {ds s : List UInt8} (hne : ds ≠ [])
    (hds : ∀ c ∈ ds, ∃ d, d < 10 ∧ c = UInt8.ofNat (48 + d)) (hs : ∀ c ∈ s.head?, ¬ digit c < 10) :
    number 10 (ds ++ s) = some (digitsVal 10 ds) := by
  have hrest : s.takeWhile (fun c => decide (digit c < 10)) = [] := by
    cases s with
    | nil => rfl
    | cons c s =>
      have hc : ¬ digit c < 10 := hs c rfl
      exact List.takeWhile_cons_of_neg (by simpa using hc)
  have hdigits : (ds ++ s).takeWhile (fun c => decide (digit c < 10)) = ds := by
    rw [List.takeWhile_append_of_pos (digit_of_printed hds), hrest, List.append_nil]
  rw [number]
  simp only [hdigits, hne, if_false]

/-- Digits are a number without a sign. -/
theorem numeral_digits_before {ds s : List UInt8} (hne : ds ≠ [])
    (hds : ∀ c ∈ ds, ∃ d, d < 10 ∧ c = UInt8.ofNat (48 + d)) (hs : ∀ c ∈ s.head?, ¬ digit c < 10) :
    numeral 10 (ds ++ s) = some (digitsVal 10 ds : Int) := by
  have hnum := number_digits_before hne hds hs
  cases hd : ds with
  | nil => exact absurd hd hne
  | cons d rest =>
    obtain ⟨k, hk, rfl⟩ := hds d (hd ▸ List.mem_cons_self)
    obtain ⟨-, hspace, hminus, hplus⟩ := digit_decimal hk
    rw [List.cons_append, numeral, List.dropWhile_cons_of_neg (by rw [hspace]; decide)]
    simp only [hminus, hplus, if_false]
    rw [← List.cons_append, ← hd, hnum]
    rfl

/-- The digits of a printed number are its value. -/
theorem number_dec_before (n : ℕ) {s : List UInt8} (hs : ∀ c ∈ s.head?, ¬ digit c < 10) :
    number 10 (dec n ++ s) = some n := by
  rw [number_digits_before (dec_ne_nil n) (fun _ hc => mem_decDigits hc) hs, dec,
    digitsVal_decDigits (Nat.lt_succ_self n)]

/-- A printed number is read back from what starts with it. -/
theorem numeral_dec_before (n : ℕ) {s : List UInt8} (hs : ∀ c ∈ s.head?, ¬ digit c < 10) :
    numeral 10 (dec n ++ s) = some (n : Int) := by
  rw [numeral_digits_before (dec_ne_nil n) (fun _ hc => mem_decDigits hc) hs, dec,
    digitsVal_decDigits (Nat.lt_succ_self n)]

/-- **What is printed is read back.** -/
theorem numeral_dec (n : ℕ) : numeral 10 (dec n) = some (n : Int) := by
  have h := numeral_dec_before n (s := []) fun c hc => by cases hc
  rwa [List.append_nil] at h

/-- Different numbers are printed differently. -/
theorem dec_injective {n k : ℕ} (h : dec n = dec k) : n = k := by
  have hn := numeral_dec n
  rw [h, numeral_dec k] at hn
  injection hn with hn
  exact (Int.ofNat.inj hn).symm

/-- A line break is no digit, so it ends a number. -/
theorem newline_no_digit (s : List UInt8) : ∀ c ∈ (10 :: s).head?, ¬ digit c < 10 := by
  rintro c ⟨⟩
  decide

/-- No number but 0 is printed with a 0 in front. -/
theorem decDigits_head_ne {fuel n : ℕ} (hpos : 0 < n) (h : n < fuel) :
    ∃ d ds, d ≠ 48 ∧ decDigits fuel n = d :: ds := by
  induction fuel generalizing n with
  | zero => exact absurd h (Nat.not_lt_zero n)
  | succ fuel ih =>
    rw [decDigits]
    split_ifs with hn
    · refine ⟨_, _, ?_, rfl⟩
      interval_cases n <;> decide
    · obtain ⟨d, ds, hd, hrest⟩ := ih (n := n / 10) (by omega) (by omega)
      rw [hrest]
      exact ⟨d, ds ++ [UInt8.ofNat (48 + n % 10)], hd, rfl⟩

/-! ## Where a number ends -/

section End

variable {s u : List UInt8}

/-- How many bytes of a string its number is read from: white space, a sign and the digits. -/
def numeral_end (s : List UInt8) : ℕ :=
  let sign := if (s.dropWhile isspace).head? = some 45 ∨ (s.dropWhile isspace).head? = some 43
    then 1 else 0
  (s.takeWhile isspace).length + sign +
    (((s.dropWhile isspace).drop sign).takeWhile fun c => digit c < 10).length

/-- Digits end where something else begins. -/
theorem takeWhile_digits (hu : ∀ c ∈ u.head?, ¬ digit c < 10) :
    (s.takeWhile (fun c => decide (digit c < 10)) ++ u).takeWhile (fun c => decide (digit c < 10))
      = s.takeWhile fun c => decide (digit c < 10) := by
  have hrest : u.takeWhile (fun c => decide (digit c < 10)) = [] := by
    cases u with
    | nil => rfl
    | cons c u => exact List.takeWhile_cons_of_neg (by simpa using hu c rfl)
  have hdigits : ∀ c ∈ s.takeWhile (fun c => decide (digit c < 10)), decide (digit c < 10) = true :=
    fun _ hc => List.mem_takeWhile_imp (p := fun c => decide (digit c < 10)) hc
  rw [List.takeWhile_append_of_pos hdigits, hrest, List.append_nil]

/-- A number is read from its digits alone, whatever else is behind them. -/
theorem number_of_digits (hu : ∀ c ∈ u.head?, ¬ digit c < 10) :
    number 10 (s.takeWhile (fun c => decide (digit c < 10)) ++ u) = number 10 s := by
  rw [number, number, takeWhile_digits hu]

/-- White space, and what follows it. -/
theorem take_spaces (s : List UInt8) (n : ℕ) : s.take ((s.takeWhile isspace).length + n)
    = s.takeWhile isspace ++ (s.dropWhile isspace).take n := by
  have h := @List.take_length_add_append _ (s.takeWhile isspace) (s.dropWhile isspace) n
  rwa [List.takeWhile_append_dropWhile] at h

/-- The digits are the first characters. -/
theorem take_digits (s : List UInt8) :
    s.take (s.takeWhile fun c => decide (digit c < 10)).length
      = s.takeWhile fun c => decide (digit c < 10) :=
  (List.prefix_iff_eq_take.mp (List.takeWhile_prefix _)).symm

/-- Behind white space the text goes on. -/
theorem drop_spaces (s t : List UInt8) :
    (s.takeWhile isspace ++ t).dropWhile isspace = t.dropWhile isspace := by
  rw [List.dropWhile_append_of_pos fun c hc => List.mem_takeWhile_imp hc]

/-- A number ends where the text does, at the latest. -/
theorem numeral_end_le (s : List UInt8) : numeral_end s ≤ s.length := by
  have hparts := congrArg List.length (List.takeWhile_append_dropWhile (p := isspace) (l := s))
  rw [List.length_append] at hparts
  simp only [numeral_end]
  -- a sign is one character of what the spaces leave
  generalize s.dropWhile isspace = rest at hparts ⊢
  split_ifs with hsign
  · have hdigits := (List.takeWhile_sublist (l := rest.drop 1) fun c => digit c < 10).length_le
    rw [List.length_drop] at hdigits
    have hpos : rest ≠ [] := by
      rintro rfl
      rcases hsign with h | h <;> cases h
    have := List.length_pos_iff.mpr hpos
    omega
  · have hdigits := (List.takeWhile_sublist (l := rest.drop 0) fun c => digit c < 10).length_le
    rw [List.length_drop] at hdigits
    omega

/-- **A number depends on its own bytes only.** -/
theorem numeral_of_end {n : ℤ} (h : numeral 10 s = some n) (hu : ∀ c ∈ u.head?, ¬ digit c < 10) :
    numeral 10 (s.take (numeral_end s) ++ u) = some n := by
  unfold numeral_end
  unfold numeral at h
  cases hrest : s.dropWhile isspace with
  | nil => rw [hrest] at h; cases h
  | cons c t =>
    have hc : isspace c = false := by
      have := List.head_dropWhile_not isspace (l := s) (by rw [hrest]; exact List.cons_ne_nil _ _)
      simpa [hrest] using this
    rw [hrest] at h
    simp only [List.head?_cons, Option.some.injEq] at h ⊢
    by_cases hsign : c = 45 ∨ c = 43
    · rw [if_pos hsign, Nat.add_assoc, take_spaces, hrest, List.drop_one, List.tail_cons,
        Nat.add_comm 1, List.take_succ_cons, take_digits, List.append_assoc, numeral, drop_spaces,
        List.cons_append, List.dropWhile_cons_of_neg (by rw [hc]; decide)]
      simp only [number_of_digits hu]
      rcases hsign with rfl | rfl <;> exact h
    · rw [if_neg hsign, Nat.add_zero, take_spaces, hrest, List.drop_zero, take_digits]
      obtain ⟨hminus, hplus⟩ := not_or.mp hsign
      rw [if_neg hminus, if_neg hplus] at h
      -- there are digits, and the first of them is where the spaces end
      have hdigit : digit c < 10 := by
        by_contra hno
        rw [number, List.takeWhile_cons_of_neg (by simpa using hno)] at h
        cases h
      have hdigits : (c :: t).takeWhile (fun c => decide (digit c < 10))
          = c :: t.takeWhile fun c => decide (digit c < 10) :=
        List.takeWhile_cons_of_pos (by simpa using hdigit)
      have hnumber := number_of_digits (s := c :: t) hu
      rw [hdigits, List.cons_append] at hnumber
      rw [hdigits, List.append_assoc, numeral, drop_spaces, List.cons_append,
        List.dropWhile_cons_of_neg (by rw [hc]; decide)]
      simp only [hminus, hplus, if_false, hnumber]
      exact h

end End

end Iago
