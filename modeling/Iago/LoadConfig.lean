/-
`diskconfig.c`: reading a layout from its configuration tree.

The tree is made by the configuration parser of a system library, which is not here: a node
has a name, a value and children, and the three functions that look a key up are parameters
(`ConfigUtils`). `parse_len` reads the length of a partition, `load_partitions` the list of
them, and `load_diskconfig` the rest.

A length is a number with a suffix, and what it denotes is a number of kilobytes. The code
rescales its multiplier with a test that leaves out `K`, multiplies in 64 bits before it
looks at the range, lets the largest 32-bit number pass, which is the mark of a partition
that fills the disk, and reads a leading zero as octal. `parse_len_right_iff` says for which
strings none of this shows.

The list goes into an array of `MAX_NUM_PARTS` elements, and nothing compares the two
(`load_partitions_inside_iff`).
-/
import Iago.DiskConfig
import Iago.NumberPrompts

set_option autoImplicit false

namespace Iago

namespace EditDiskLbl

/-! ## Lengths -/

section Len

/-- The second half of `parse_len`: the number scaled to kilobytes. -/
def scale_len (multiple : UInt32) (plen : UInt64) : Option UInt64 :=
  if plen = 0 then none
  else if plen = 0xffffffffffffffff then
    if 1 < multiple then none else some plen
  else
    let multiple := if 1024 < multiple then multiple >>> 10 else multiple
    let plen := plen * multiple.toUInt64
    if 0xffffffff < plen then none else some plen

/-- `parse_len`, with the number if what is returned is 0. A string that does not fit the
buffer is cut; the case `M` falls through to the case `K`. -/
def parse_len (str : CStr) : Option UInt64 :=
  let tmp := str.take 63
  match tmp.getLast? with
  | none => none
  | some c =>
    if c = 77 ∨ c = 109 then scale_len (((1 : UInt32) <<< 10) <<< 10) (strtoull tmp.dropLast).1
    else if c = 75 ∨ c = 107 then scale_len ((1 : UInt32) <<< 10) (strtoull tmp.dropLast).1
    else scale_len 1 (strtoull tmp).1

/-! ### What a length denotes -/

/-- A decimal number. -/
def IsDecimal (ds : CStr) : Prop := ds ≠ [] ∧ ∀ c ∈ ds, digit c < 10

instance (ds : CStr) : Decidable (IsDecimal ds) :=
  inferInstanceAs (Decidable (ds ≠ [] ∧ ∀ c ∈ ds, digit c < 10))

/-- A suffix and the kilobytes it stands for. -/
structure LenUnit where
  suffix : CStr
  kb : ℕ
  deriving DecidableEq

def len_units : List LenUnit :=
  [⟨[], 1⟩, ⟨cstr "K", 1⟩, ⟨cstr "k", 1⟩, ⟨cstr "M", 1024⟩, ⟨cstr "m", 1024⟩]

/-- The string is a decimal number and a suffix, and denotes that many kilobytes. -/
def Denotes (str : CStr) (kb : ℕ) : Prop :=
  ∃ ds, IsDecimal ds ∧ ∃ u ∈ len_units, str = ds ++ u.suffix ∧ kb = digitsVal 10 ds * u.kb

/-- What is stored for a length makes the partition fill the disk. -/
def Fills (str : CStr) : Prop := ∃ plen, parse_len str = some plen ∧ plen.toUInt32 = FILL

/-- A length denotes what it says: it is accepted exactly if it is positive and less than
the mark, and is that number then; and it is the mark exactly when it is `-1`. -/
structure LenRight (str : CStr) : Prop where
  accepted : str.length < 64 → ∀ kb, Denotes str kb →
    ((∃ plen, parse_len str = some plen) ↔ 0 < kb ∧ kb < 0xffffffff)
  value : str.length < 64 → ∀ kb, Denotes str kb →
    ∀ plen, parse_len str = some plen → plen.toNat = kb
  fill : Fills str ↔ str = cstr "-1"

/-! ### What is read -/

/-- Without a suffix, the number is taken as it is. -/
theorem scale_len_one (plen : UInt64) : scale_len 1 plen =
    if plen = 0 ∨ plen ≠ 0xffffffffffffffff ∧ 0xffffffff < plen then none else some plen := by
  unfold scale_len
  by_cases h0 : plen = 0
  · rw [if_pos h0, if_pos (.inl h0)]
  rw [if_neg h0]
  by_cases hmax : plen = 0xffffffffffffffff
  · rw [if_pos hmax, if_neg (by decide), if_neg fun h => h.elim h0 fun h => h.1 hmax]
  · have hone : plen * ((1 : UInt32).toUInt64) = plen := UInt64.mul_one plen
    rw [if_neg hmax]
    simp only [if_neg (show ¬ (1024 : UInt32) < 1 by decide), hone, h0, false_or, ne_eq, hmax,
      not_false_eq_true, true_and]

/-- With a suffix, whichever, the number is multiplied by 1024. -/
theorem scale_len_suffix {multiple : UInt32}
    (h : multiple = (1 : UInt32) <<< 10 ∨ multiple = ((1 : UInt32) <<< 10) <<< 10)
    (plen : UInt64) : scale_len multiple plen =
      if plen = 0 ∨ plen = 0xffffffffffffffff ∨ 0xffffffff < plen * 1024 then none
      else some (plen * 1024) := by
  have hone : 1 < multiple := by
    rcases h with rfl | rfl
    · decide
    · decide
  have hscale : (if 1024 < multiple then multiple >>> 10 else multiple).toUInt64 = 1024 := by
    rcases h with rfl | rfl
    · decide
    · decide
  unfold scale_len
  by_cases h0 : plen = 0
  · rw [if_pos h0, if_pos (.inl h0)]
  rw [if_neg h0]
  by_cases hmax : plen = 0xffffffffffffffff
  · rw [if_pos hmax, if_pos hone, if_pos (.inr (.inl hmax))]
  · rw [if_neg hmax]
    simp only [hscale, h0, hmax, false_or]

/-- What is left of `parse_len` when the suffixes are taken together. -/
theorem parse_len_of_last {str : CStr} {c : UInt8} (hc : (str.take 63).getLast? = some c) :
    parse_len str =
      if c ∈ ([77, 109, 75, 107] : CStr) then
        let plen := (strtoull (str.take 63).dropLast).1
        if plen = 0 ∨ plen = 0xffffffffffffffff ∨ 0xffffffff < plen * 1024 then none
        else some (plen * 1024)
      else
        let plen := (strtoull (str.take 63)).1
        if plen = 0 ∨ plen ≠ 0xffffffffffffffff ∧ 0xffffffff < plen then none else some plen := by
  have hM : c = 77 ∨ c = 109 → c ∈ ([77, 109, 75, 107] : CStr) := by
    rintro (rfl | rfl)
    · decide
    · decide
  have hK : c = 75 ∨ c = 107 → c ∈ ([77, 109, 75, 107] : CStr) := by
    rintro (rfl | rfl)
    · decide
    · decide
  unfold parse_len
  simp only [hc]
  -- the two tests of the code, M before K; the third case is neither
  by_cases h77 : c = 77 ∨ c = 109
  · rw [if_pos h77, if_pos (hM h77), scale_len_suffix (.inr rfl)]
  rw [if_neg h77]
  by_cases h75 : c = 75 ∨ c = 107
  · rw [if_pos h75, if_pos (hK h75), scale_len_suffix (.inl rfl)]
  have hnone : c ∉ ([77, 109, 75, 107] : CStr) := by
    simp only [not_or] at h77 h75
    simp only [List.mem_cons, List.not_mem_nil, or_false, not_or]
    exact ⟨h77.1, h77.2, h75.1, h75.2⟩
  rw [if_neg h75, if_neg hnone, scale_len_one]

/-- What is read of decimal digits: behind a 0 the octal ones among the first, and no more than
64 bits hold. -/
def digits_read (ds : CStr) : ℕ :=
  min (2 ^ 64 - 1)
    (if ds.head? = some 48 then digitsVal 8 (ds.takeWhile fun c => digit c < 8)
      else digitsVal 10 ds)

/-- A digit is no suffix. -/
theorem digit_not_suffix {c : UInt8} (h : digit c < 10) : c ∉ ([77, 109, 75, 107] : CStr) := by
  intro hmem
  simp only [List.mem_cons, List.not_mem_nil, or_false] at hmem
  rcases hmem with rfl | rfl | rfl | rfl
  all_goals exact absurd h (by decide)

/-- Nor is it white space, a sign or the `x` of a hexadecimal number. -/
theorem digit_plain {c : UInt8} (h : digit c < 10) :
    isspace c = false ∧ c ≠ 45 ∧ c ≠ 43 ∧ c ≠ 120 ∧ c ≠ 88 := by
  refine ⟨?_, ?_, ?_, ?_, ?_⟩
  · rw [Bool.eq_false_iff]
    intro hspace
    rw [isspace, decide_eq_true_eq, UInt8.le_iff_toNat_le, UInt8.le_iff_toNat_le] at hspace
    have hrange : 48 ≤ c := by
      by_contra hlow
      have hnone : digit c = 36 := by
        rw [digit, if_neg fun hc => hlow hc.1, if_neg, if_neg]
        all_goals
          rintro ⟨hc, -⟩
          rw [UInt8.le_iff_toNat_le] at hlow hc
          simp only [UInt8.reduceToNat] at hlow hc
          omega
      omega
    rw [UInt8.le_iff_toNat_le] at hrange
    rcases hspace with rfl | hspace
    · exact absurd hrange (by decide)
    · simp only [UInt8.reduceToNat] at hspace hrange
      omega
  all_goals
    rintro rfl
    exact absurd h (by decide)

/-- The digits give away their base by a 0 in front. -/
theorem strtoull_digits_decimal {ds : CStr} (hds : IsDecimal ds) :
    strtoull_digits ds = some (if ds.head? = some 48 then
      digitsVal 8 (ds.takeWhile fun c => digit c < 8) else digitsVal 10 ds) := by
  obtain ⟨hne, hdigits⟩ := hds
  have hdecimal : number 10 ds = some (digitsVal 10 ds) := by
    have hall : ds.takeWhile (fun c => decide (digit c < 10)) = ds :=
      List.takeWhile_eq_self_iff.mpr fun c hc => decide_eq_true (hdigits c hc)
    rw [number]
    simp only [hall, hne, if_false]
  rw [strtoull_digits.eq_def]
  split
  · next c rest =>
    obtain ⟨-, -, -, hx, hX⟩ := digit_plain (hdigits c (by simp))
    have hzero : (48 :: c :: rest).takeWhile (fun c => decide (digit c < 8)) ≠ [] := by
      rw [List.takeWhile_cons_of_pos (by decide)]
      exact List.cons_ne_nil _ _
    rw [if_neg (not_or.mpr ⟨hx, hX⟩), List.head?_cons, if_pos rfl, number]
    simp only [hzero, if_false]
  · next hshort =>
    rw [hdecimal]
    congr 1
    split_ifs with hhead
    · -- a single 0 is 0 in either base
      cases ds with
      | nil => cases hhead
      | cons c rest =>
        injection hhead with hc
        subst hc
        cases rest with
        | nil => decide
        | cons c rest => exact absurd rfl (hshort c rest)
    · rfl

/-- **What `strtoull` reads of a decimal number.** -/
theorem strtoull_decimal {ds : CStr} (hds : IsDecimal ds) :
    (strtoull ds).1.toNat = digits_read ds := by
  have hvalue := strtoull_digits_decimal hds
  rw [digits_read]
  generalize (if ds.head? = some 48 then digitsVal 8 (ds.takeWhile fun c => digit c < 8)
    else digitsVal 10 ds) = n at hvalue ⊢
  obtain ⟨hne, hdigits⟩ := hds
  cases ds with
  | nil => exact absurd rfl hne
  | cons c s =>
    obtain ⟨hspace, hminus, hplus, -, -⟩ := digit_plain (hdigits c List.mem_cons_self)
    rw [strtoull, List.dropWhile_cons_of_neg (by rw [hspace]; decide)]
    simp only [hminus, hplus, or_self, if_false, hvalue]
    split_ifs with hbig
    · rw [Nat.min_eq_left (by omega)]
      rfl
    · rw [Nat.min_eq_right (by omega), UInt64.toNat_ofNat', Nat.mod_eq_of_lt (by omega)]

/-- The number `v` that is read for `n` does no harm behind a suffix, or without one: either
it comes to the kilobytes meant, or it is refused and so should it be. -/
def LenUnit.Harmless (u : LenUnit) (n v : ℕ) : Prop :=
  if u.suffix = [] then
    v = n ∧ n ≠ 2 ^ 32 - 1 ∧ n ≠ 2 ^ 64 - 1 ∨
      (n = 0 ∨ 2 ^ 32 - 1 ≤ n) ∧ (v = 0 ∨ 2 ^ 32 ≤ v ∧ v ≠ 2 ^ 64 - 1)
  else
    v * 1024 % 2 ^ 64 = n * u.kb ∧ v ≠ 0 ∧ v ≠ 2 ^ 64 - 1 ∧ n ≠ 0 ∧ n * u.kb < 2 ^ 32 - 1 ∨
      (n = 0 ∨ 2 ^ 32 - 1 ≤ n * u.kb) ∧ (v = 0 ∨ v = 2 ^ 64 - 1 ∨ 2 ^ 32 ≤ v * 1024 % 2 ^ 64)

/-- What is made of a decimal number with a suffix. -/
theorem parse_len_decimal {ds : CStr} {u : LenUnit} (hds : IsDecimal ds) (hu : u ∈ len_units)
    (hlen : (ds ++ u.suffix).length < 64) :
    parse_len (ds ++ u.suffix) =
      let plen := (strtoull ds).1
      if u.suffix = [] then
        if plen = 0 ∨ plen ≠ 0xffffffffffffffff ∧ 0xffffffff < plen then none else some plen
      else if plen = 0 ∨ plen = 0xffffffffffffffff ∨ 0xffffffff < plen * 1024 then none
      else some (plen * 1024) := by
  have htake : (ds ++ u.suffix).take 63 = ds ++ u.suffix := List.take_of_length_le (by omega)
  -- the last character is a digit, or the suffix behind the digits
  by_cases hnil : u.suffix = []
  · rw [hnil, List.append_nil] at htake ⊢
    have hlast : (ds.take 63).getLast? = some (ds.getLast hds.1) := by
      rw [htake, List.getLast?_eq_getLast_of_ne_nil hds.1]
    rw [parse_len_of_last hlast, htake,
      if_neg (digit_not_suffix (hds.2 _ (List.getLast_mem hds.1))), if_pos rfl]
  · obtain ⟨c, hsuffix, hc⟩ : ∃ c, u.suffix = [c] ∧ c ∈ ([77, 109, 75, 107] : CStr) := by
      simp only [len_units, List.mem_cons, List.not_mem_nil, or_false] at hu
      rcases hu with rfl | rfl | rfl | rfl | rfl
      · exact absurd rfl hnil
      · exact ⟨75, by decide, by decide⟩
      · exact ⟨107, by decide, by decide⟩
      · exact ⟨77, by decide, by decide⟩
      · exact ⟨109, by decide, by decide⟩
    have hlast : ((ds ++ u.suffix).take 63).getLast? = some c := by
      rw [htake, hsuffix, List.getLast?_concat]
    rw [parse_len_of_last hlast, htake, if_pos hc, if_neg hnil, hsuffix, List.dropLast_concat]

/-- A result that is there exactly when it should be, and right if it is. -/
theorem guarded_right_iff {α : Type} {bad right : Prop} [Decidable bad] {a : α} {good : α → Prop} :
    (((∃ b, (if bad then none else some a) = some b) ↔ right) ∧
      ∀ b, (if bad then none else some a) = some b → good b) ↔
    (bad ∧ ¬ right) ∨ (¬ bad ∧ right ∧ good a) := by
  by_cases hbad : bad
  · simp [hbad]
  · simp [hbad]

/-- On a decimal number with a suffix the two halves of the claim come to that. -/
theorem parse_len_decimal_iff {ds : CStr} {u : LenUnit} (hds : IsDecimal ds) (hu : u ∈ len_units)
    (hlen : (ds ++ u.suffix).length < 64) :
    (((∃ plen, parse_len (ds ++ u.suffix) = some plen) ↔
        0 < digitsVal 10 ds * u.kb ∧ digitsVal 10 ds * u.kb < 0xffffffff) ∧
      ∀ plen, parse_len (ds ++ u.suffix) = some plen → plen.toNat = digitsVal 10 ds * u.kb) ↔
    u.Harmless (digitsVal 10 ds) (digits_read ds) := by
  rw [parse_len_decimal hds hu hlen, LenUnit.Harmless, ← strtoull_decimal hds]
  -- from here on only two numbers matter: the one meant and the one read
  generalize digitsVal 10 ds = n
  generalize (strtoull ds).1 = plen
  have hkb : 0 < u.kb ∧ (u.suffix = [] → u.kb = 1) := by
    simp only [len_units, List.mem_cons, List.not_mem_nil, or_false] at hu
    rcases hu with rfl | rfl | rfl | rfl | rfl
    all_goals exact ⟨by decide, by decide⟩
  have hzero : n * u.kb = 0 ↔ n = 0 := by
    rw [Nat.mul_eq_zero, or_iff_left (Nat.pos_iff_ne_zero.mp hkb.1)]
  by_cases hnil : u.suffix = []
  · simp only [if_pos hnil, hkb.2 hnil, Nat.mul_one]
    rw [guarded_right_iff]
    simp only [← UInt64.toNat_inj, UInt64.lt_iff_toNat_lt, ne_eq, UInt64.reduceToNat]
    omega
  · simp only [if_neg hnil]
    rw [guarded_right_iff]
    simp only [← UInt64.toNat_inj, UInt64.lt_iff_toNat_lt, UInt64.reduceToNat, UInt64.toNat_mul]
    generalize n * u.kb = kb at hzero
    omega

/-! ### The mark -/

/-- The integer is the largest number of 32 or of 64 bits when it is cut down to 64, or has
more. -/
def IsMark (z : ℤ) : Prop :=
  z = 2 ^ 32 - 1 ∨ z = 2 ^ 32 - 1 - 2 ^ 64 ∨ z = -1 ∨ 2 ^ 64 - 1 ≤ z ∨ z ≤ -2 ^ 64

/-- A string without a suffix that starts with one of these. -/
def ReadsMark (str : CStr) : Prop :=
  ∃ c, (str.take 63).getLast? = some c ∧ c ∉ ([77, 109, 75, 107] : CStr) ∧
    IsMark (leading c_digits (str.take 63))

/-- Those integers are the ones that `strtoull` makes one of the two marks. -/
theorem strtoull_isMark (s : CStr) :
    (strtoull s).1.toNat ∈ [2 ^ 32 - 1, 2 ^ 64 - 1] ↔ IsMark (leading c_digits s) := by
  rw [strtoull_eq, IsMark]
  generalize leading c_digits s = z
  simp only [List.mem_cons, List.not_mem_nil, or_false]
  split_ifs with hbig
  · have hmax : (UInt64.ofNat (2 ^ 64 - 1)).toNat = 2 ^ 64 - 1 := rfl
    rw [hmax]
    omega
  · have hcut : (UInt64.ofInt z).toNat = (z % 2 ^ 64).toNat := by
      rw [UInt64.ofInt, UInt64.toNat_ofNat']
      omega
    rw [hcut]
    omega

/-- **Which strings make a partition fill the disk.** -/
theorem fills_iff_readsMark (str : CStr) : Fills str ↔ ReadsMark str := by
  cases hlast : (str.take 63).getLast? with
  | none =>
    have hnone : parse_len str = none := by
      unfold parse_len
      simp only [hlast]
    simp [Fills, ReadsMark, hnone, hlast]
  | some c =>
    simp only [Fills, ReadsMark, ← strtoull_isMark, hlast, Option.some.injEq, exists_eq_left']
    rw [parse_len_of_last hlast]
    by_cases hc : c ∈ ([77, 109, 75, 107] : CStr)
    · -- a multiple of 1024 is not the mark
      rw [if_pos hc]
      refine iff_of_false ?_ fun h => h.1 hc
      rintro ⟨plen, hplen, hfill⟩
      rw [Option.ite_none_left_eq_some, Option.some.injEq] at hplen
      obtain ⟨hgood, rfl⟩ := hplen
      simp only [not_or, UInt64.lt_iff_toNat_lt, UInt64.toNat_mul, UInt64.reduceToNat] at hgood
      have hnat := congrArg UInt32.toNat hfill
      rw [UInt64.toNat_toUInt32, UInt64.toNat_mul, show (1024 : UInt64).toNat = 1024 from rfl,
        show FILL.toNat = 2 ^ 32 - 1 from rfl] at hnat
      omega
    · -- without a suffix the number itself is what is truncated to 32 bits
      rw [if_neg hc, and_iff_right hc]
      generalize (strtoull (str.take 63)).1 = v
      simp only [List.mem_cons, List.not_mem_nil, or_false]
      constructor
      · rintro ⟨plen, hplen, hfill⟩
        rw [Option.ite_none_left_eq_some, Option.some.injEq] at hplen
        obtain ⟨hgood, rfl⟩ := hplen
        simp only [← UInt64.toNat_inj, UInt64.lt_iff_toNat_lt, ne_eq, UInt64.reduceToNat] at hgood
        have hnat := congrArg UInt32.toNat hfill
        rw [UInt64.toNat_toUInt32, show FILL.toNat = 2 ^ 32 - 1 from rfl] at hnat
        omega
      · intro hv
        refine ⟨v, ?_, ?_⟩
        · rw [if_neg]
          simp only [← UInt64.toNat_inj, UInt64.lt_iff_toNat_lt, ne_eq, UInt64.reduceToNat]
          omega
        · rw [← UInt32.toNat_inj, UInt64.toNat_toUInt32, show FILL.toNat = 2 ^ 32 - 1 from rfl]
          omega

/-- **For which strings a length denotes what it says.** -/
theorem parse_len_right_iff (str : CStr) : LenRight str ↔
    (str.length < 64 → ∀ ds, IsDecimal ds → ∀ u ∈ len_units, str = ds ++ u.suffix →
      u.Harmless (digitsVal 10 ds) (digits_read ds)) ∧
    (ReadsMark str → str = cstr "-1") := by
  constructor
  · intro h
    refine ⟨?_, fun hmark => h.fill.mp ((fills_iff_readsMark str).mpr hmark)⟩
    rintro hlen ds hds u hu rfl
    have hdenotes : Denotes (ds ++ u.suffix) (digitsVal 10 ds * u.kb) :=
      ⟨ds, hds, u, hu, rfl, rfl⟩
    exact (parse_len_decimal_iff hds hu hlen).mp ⟨h.accepted hlen _ hdenotes, h.value hlen _ hdenotes⟩
  · rintro ⟨hnumber, hfill⟩
    have hright : str.length < 64 → ∀ kb, Denotes str kb →
        ((∃ plen, parse_len str = some plen) ↔ 0 < kb ∧ kb < 0xffffffff) ∧
          ∀ plen, parse_len str = some plen → plen.toNat = kb := by
      rintro hlen _ ⟨ds, hds, u, hu, rfl, rfl⟩
      exact (parse_len_decimal_iff hds hu hlen).mpr (hnumber hlen ds hds u hu rfl)
    refine ⟨fun hlen kb h => (hright hlen kb h).1, fun hlen kb h => (hright hlen kb h).2,
      fun h => hfill ((fills_iff_readsMark str).mp h), ?_⟩
    rintro rfl
    exact ⟨0xffffffffffffffff, by decide, by decide⟩

/-- Five kilobytes are not five kilobytes, and the largest 32-bit number fills the disk. -/
theorem parse_len_not_right : ¬ LenRight (cstr "5K") ∧ ¬ LenRight (cstr "4294967295") := by
  constructor
  · intro h
    have hdenotes : Denotes (cstr "5K") 5 :=
      ⟨cstr "5", by decide +kernel, ⟨cstr "K", 1⟩, by decide, by decide +kernel, by decide +kernel⟩
    have hvalue : (5120 : UInt64).toNat = 5 :=
      h.value (by decide) 5 hdenotes 5120 (by decide +kernel)
    exact absurd hvalue (by decide)
  · intro h
    have hfills : cstr "4294967295" = cstr "-1" :=
      h.fill.mp ⟨0xffffffff, by decide +kernel, by decide⟩
    exact absurd hfills (by decide)

end Len

/-! ## The tree -/

/-- `cnode`, with the children as a list. -/
inductive Cnode where
  | mk (name value : CStr) (children : List Cnode)

def Cnode.name : Cnode → CStr
  | mk name _ _ => name

def Cnode.value : Cnode → CStr
  | mk _ value _ => value

def Cnode.children : Cnode → List Cnode
  | mk _ _ children => children

/-- The functions of the system library that look a key up below a node. -/
structure ConfigUtils where
  config_find : Cnode → CStr → Option Cnode
  config_str : Cnode → CStr → Option CStr → Option CStr
  config_bool : Cnode → CStr → Int32 → Int32

section Parts

variable (cu : ConfigUtils)

/-! ## The list of partitions -/

/-- The type of a partition by the name it has in the file. -/
def part_type (tmp : CStr) : Option UInt8 :=
  if tmp = cstr "linux" then some PC_PART_TYPE_LINUX
  else if tmp = cstr "fat32" then some PC_PART_TYPE_FAT32
  else none

/-- Its length: 0 if there is none. -/
def part_len (partnode : Cnode) : Option UInt32 :=
  match cu.config_str partnode (cstr "len") none with
  | some tmp => (parse_len tmp).map fun len => len.toUInt32
  | none => some 0

/-- What one round of `load_partitions` makes of its element of the array, unless it
returns an error. -/
def load_partition (partnode : Cnode) (pinfo : PartInfo) : Option PartInfo :=
  let flags :=
    if cu.config_bool partnode (cstr "active") 0 ≠ 0 then pinfo.flags ||| PART_ACTIVE_FLAG
    else pinfo.flags
  match cu.config_str partnode (cstr "type") none with
  | none => none
  | some tmp =>
    match part_type tmp, part_len cu partnode with
    | some type, some len_kb => some { pinfo with name := partnode.name, flags, type, len_kb }
    | _, _ => none

/-- The loop of `load_partitions`: the array and `num_parts`, or none where it returns 1.
The name is stored first of all, whatever the index is. -/
def load_partitions_loop : List Cnode → List PartInfo → ℕ → Exec Empty (Option (List PartInfo × ℕ))
  | [], part_lst, num_parts => .ret (some (part_lst, num_parts))
  | partnode :: next, part_lst, num_parts =>
    match part_lst[num_parts]? with
    | none => .fault
    | some pinfo =>
      match load_partition cu partnode pinfo with
      | none => .ret none
      | some pinfo => load_partitions_loop next (part_lst.set num_parts pinfo) (num_parts + 1)

/-- `load_partitions`. -/
def load_partitions (root : Cnode) (part_lst : List PartInfo) :
    Exec Empty (Option (List PartInfo × ℕ)) :=
  load_partitions_loop cu root.children part_lst 0

/-- An element of the array as `memset` leaves it. -/
def PartInfo.zero : PartInfo := ⟨[], 0, 0, 0, 0⟩

/-! ### What the list should be -/

/-- The element is the partition that the node describes, with no place on the disk yet. -/
structure Describes (partnode : Cnode) (p : PartInfo) : Prop where
  name : p.name = partnode.name
  flags : p.flags = if cu.config_bool partnode (cstr "active") 0 = 0 then 0 else PART_ACTIVE_FLAG
  type : cu.config_str partnode (cstr "type") none = some (cstr "linux") ∧
      p.type = PC_PART_TYPE_LINUX ∨
    cu.config_str partnode (cstr "type") none = some (cstr "fat32") ∧ p.type = PC_PART_TYPE_FAT32
  len : cu.config_str partnode (cstr "len") none = none ∧ p.len_kb = 0 ∨
    ∃ tmp len, cu.config_str partnode (cstr "len") none = some tmp ∧ parse_len tmp = some len ∧
      p.len_kb = len.toUInt32
  start_lba : p.start_lba = 0

/-- A node that describes a partition: it has a type that is known, and a length that can be
parsed if it has one. -/
def Loads (partnode : Cnode) : Prop := ∃ p, Describes cu partnode p

/-- The list is loaded inside the array: there is an error, or all of the children are
there. -/
def LoadsInside (root : Cnode) : Prop :=
  ∃ r, load_partitions cu root (List.replicate MAX_NUM_PARTS .zero) = .ret r ∧
    ∀ part_lst num_parts, r = some (part_lst, num_parts) →
      num_parts = root.children.length ∧ num_parts ≤ MAX_NUM_PARTS ∧
        List.Forall₂ (Describes cu) root.children (part_lst.take num_parts)

/-! ### What the loop does -/

variable {cu}

/-- Two types are known. -/
theorem part_type_eq_some_iff {tmp : CStr} {type : UInt8} : part_type tmp = some type ↔
    tmp = cstr "linux" ∧ type = PC_PART_TYPE_LINUX ∨
      tmp = cstr "fat32" ∧ type = PC_PART_TYPE_FAT32 := by
  have hne : cstr "fat32" ≠ cstr "linux" := by decide
  unfold part_type
  by_cases hlinux : tmp = cstr "linux"
  · simp [hlinux, hne.symm, eq_comm]
  by_cases hfat : tmp = cstr "fat32"
  · simp [hfat, hne, eq_comm]
  · simp [hlinux, hfat]

theorem part_len_eq_some_iff {partnode : Cnode} {len_kb : UInt32} :
    part_len cu partnode = some len_kb ↔
      cu.config_str partnode (cstr "len") none = none ∧ len_kb = 0 ∨
        ∃ tmp len, cu.config_str partnode (cstr "len") none = some tmp ∧ parse_len tmp = some len ∧
          len_kb = len.toUInt32 := by
  unfold part_len
  cases cu.config_str partnode (cstr "len") none with
  | none => simp [eq_comm]
  | some tmp => simp [eq_comm]

/-- A round succeeds exactly with the partition described. -/
theorem load_partition_eq_some_iff {partnode : Cnode} {p : PartInfo} :
    load_partition cu partnode .zero = some p ↔ Describes cu partnode p := by
  have hflags : (if cu.config_bool partnode (cstr "active") 0 ≠ 0 then
      PartInfo.zero.flags ||| PART_ACTIVE_FLAG else PartInfo.zero.flags) =
        if cu.config_bool partnode (cstr "active") 0 = 0 then 0 else PART_ACTIVE_FLAG := by
    rw [ite_not]
    rfl
  constructor
  · intro h
    unfold load_partition at h
    simp only [hflags] at h
    -- no type, or a type or a length that is refused: `goto fail`
    split at h
    · cases h
    · next tmp htmp =>
      split at h
      · next type len_kb htype hlen =>
        rw [Option.some.injEq] at h
        subst h
        refine ⟨rfl, rfl, ?_, part_len_eq_some_iff.mp hlen, rfl⟩
        rw [htmp]
        simpa only [Option.some.injEq] using part_type_eq_some_iff.mp htype
      · cases h
  · rintro ⟨hname, hflag, htype, hlen, hstart⟩
    obtain ⟨tmp, htmp, htype⟩ : ∃ tmp, cu.config_str partnode (cstr "type") none = some tmp ∧
        part_type tmp = some p.type := by
      rcases htype with ⟨h, htype⟩ | ⟨h, htype⟩
      · exact ⟨_, h, part_type_eq_some_iff.mpr (.inl ⟨rfl, htype⟩)⟩
      · exact ⟨_, h, part_type_eq_some_iff.mpr (.inr ⟨rfl, htype⟩)⟩
    unfold load_partition
    simp only [hflags, htmp, htype, part_len_eq_some_iff.mpr hlen, ← hflag, ← hname]
    rw [show PartInfo.zero.start_lba = p.start_lba from hstart.symm]

/-- A node is an error if it describes no partition. -/
theorem load_partition_eq_none_iff {partnode : Cnode} :
    load_partition cu partnode .zero = none ↔ ¬ Loads cu partnode := by
  rw [Option.eq_none_iff_forall_ne_some]
  constructor
  · rintro h ⟨p, hp⟩
    exact h p (load_partition_eq_some_iff.mpr hp)
  · intro h p hp
    exact h ⟨p, load_partition_eq_some_iff.mp hp⟩

/-- The loop over an array of which `pre` is done and `k` elements are left. -/
theorem load_partitions_loop_eq (cs : List Cnode) (pre : List PartInfo) (k : ℕ) :
    load_partitions_loop cu cs (pre ++ List.replicate k .zero) pre.length =
      match (cs.take k).mapM fun c => load_partition cu c .zero with
      | none => .ret none
      | some ps =>
        if cs.length ≤ k then
          .ret (some (pre ++ ps ++ List.replicate (k - cs.length) .zero, pre.length + cs.length))
        else .fault := by
  induction cs generalizing pre k with
  | nil =>
    rw [List.take_nil, List.mapM_nil, load_partitions_loop]
    simp
  | cons c cs ih =>
    rw [load_partitions_loop]
    -- no element left means that this round writes behind the array
    cases k with
    | zero => simp
    | succ k =>
      have hget : (pre ++ List.replicate (k + 1) PartInfo.zero)[pre.length]? = some .zero := by
        simp
      rw [hget, List.take_succ_cons, List.mapM_cons]
      simp only
      cases hc : load_partition cu c .zero with
      | none => rfl
      | some p =>
        have hset : (pre ++ List.replicate (k + 1) PartInfo.zero).set pre.length p =
            (pre ++ [p]) ++ List.replicate k .zero := by
          simp [List.replicate_succ]
        have hlength : pre.length + 1 = (pre ++ [p]).length := by simp
        simp only
        -- the induction goes on with one more element done
        rw [hset, hlength, ih (pre ++ [p]) k]
        cases (cs.take k).mapM fun c => load_partition cu c .zero with
        | none => rfl
        | some ps =>
          have hk : k + 1 - (cs.length + 1) = k - cs.length := by omega
          simp only [bind, Option.bind, pure, List.append_assoc, List.length_append,
            List.length_cons, List.length_nil, List.cons_append, List.nil_append,
            Nat.add_le_add_iff_right, hk, Nat.add_assoc, Nat.add_comm 1]

/-- A list of rounds succeeds with a list exactly if each does with its element. -/
theorem mapM_eq_some_iff {α β : Type} {f : α → Option β} {l : List α} {bs : List β} :
    l.mapM f = some bs ↔ List.Forall₂ (fun a b => f a = some b) l bs := by
  induction l generalizing bs with
  | nil => simp [eq_comm]
  | cons a l ih =>
    rw [List.mapM_cons]
    constructor
    · intro h
      simp only [Option.bind_eq_bind, Option.bind_eq_some_iff, Option.pure_def,
        Option.some.injEq] at h
      obtain ⟨b, hb, bs, hbs, rfl⟩ := h
      exact .cons hb (ih.mp hbs)
    · rintro (_ | ⟨hb, hbs⟩)
      rw [hb, ih.mpr hbs]
      rfl

/-- And it fails exactly if one of them does. -/
theorem mapM_eq_none_iff {α β : Type} {f : α → Option β} {l : List α} :
    l.mapM f = none ↔ ∃ a ∈ l, f a = none := by
  induction l with
  | nil => simp
  | cons a l ih =>
    rw [List.mapM_cons]
    simp only [Option.bind_eq_bind, List.mem_cons, exists_eq_or_imp]
    cases ha : f a with
    | none => simp
    | some b =>
      rw [← ih]
      cases l.mapM f <;> simp

/-- `load_partitions` on the array as `load_diskconfig` has it. -/
theorem load_partitions_eq (root : Cnode) :
    load_partitions cu root (List.replicate MAX_NUM_PARTS .zero) =
      match (root.children.take MAX_NUM_PARTS).mapM fun c => load_partition cu c .zero with
      | none => .ret none
      | some ps =>
        if root.children.length ≤ MAX_NUM_PARTS then
          .ret (some (ps ++ List.replicate (MAX_NUM_PARTS - root.children.length) .zero,
            root.children.length))
        else .fault := by
  have hloop := @load_partitions_loop_eq cu root.children [] MAX_NUM_PARTS
  rw [load_partitions]
  simpa only [List.nil_append, List.length_nil, Nat.zero_add] using hloop

/-- Whatever is returned as the list is the whole of it. -/
theorem load_partitions_describes {root : Cnode} {part_lst : List PartInfo} {num_parts : ℕ}
    (h : load_partitions cu root (List.replicate MAX_NUM_PARTS .zero) =
      .ret (some (part_lst, num_parts))) :
    num_parts = root.children.length ∧ num_parts ≤ MAX_NUM_PARTS ∧
      List.Forall₂ (Describes cu) root.children (part_lst.take num_parts) := by
  rw [load_partitions_eq] at h
  cases hps : (root.children.take MAX_NUM_PARTS).mapM fun c => load_partition cu c .zero with
  | none =>
    rw [hps] at h
    cases h
  | some ps =>
    have hall := mapM_eq_some_iff.mp hps
    simp only [hps] at h
    split_ifs at h with hfits
    simp only [Exec.ret.injEq, Option.some.injEq, Prod.mk.injEq] at h
    obtain ⟨rfl, rfl⟩ := h
    rw [List.take_of_length_le hfits] at hall
    refine ⟨rfl, hfits, ?_⟩
    rw [hall.length_eq, List.take_left]
    exact hall.imp fun _ _ => load_partition_eq_some_iff.mp

/-- **The list is loaded inside the array exactly if it fits, or something else is wrong
with a partition that does.** -/
theorem load_partitions_inside_iff (cu : ConfigUtils) (root : Cnode) : LoadsInside cu root ↔
    root.children.length ≤ MAX_NUM_PARTS ∨
      ∃ c ∈ root.children.take MAX_NUM_PARTS, ¬ Loads cu c := by
  -- it is enough that something is returned
  have hreturns : LoadsInside cu root ↔
      ∃ r, load_partitions cu root (List.replicate MAX_NUM_PARTS .zero) = .ret r := by
    constructor
    · rintro ⟨r, hr, -⟩
      exact ⟨r, hr⟩
    · rintro ⟨r, hr⟩
      refine ⟨r, hr, ?_⟩
      rintro part_lst num_parts rfl
      exact load_partitions_describes hr
  have hnone := mapM_eq_none_iff (f := fun c => load_partition cu c .zero)
    (l := root.children.take MAX_NUM_PARTS)
  simp only [load_partition_eq_none_iff] at hnone
  rw [hreturns, load_partitions_eq, ← hnone]
  -- a partition that is refused ends the loop before the array does
  cases hps : (root.children.take MAX_NUM_PARTS).mapM fun c => load_partition cu c .zero with
  | none => exact iff_of_true ⟨none, rfl⟩ (.inr rfl)
  | some ps =>
    simp only [reduceCtorEq, or_false]
    by_cases hfits : root.children.length ≤ MAX_NUM_PARTS
    · rw [if_pos hfits]
      exact iff_of_true ⟨_, rfl⟩ hfits
    · rw [if_neg hfits]
      refine iff_of_false ?_ hfits
      rintro ⟨r, hr⟩
      cases hr

/-- The functions as they are documented: the newest child of that name counts. -/
def ConfigUtils.newest : ConfigUtils where
  config_find root name := root.children.reverse.find? (·.name = name)
  config_str root name dfl :=
    ((root.children.reverse.find? (·.name = name)).map Cnode.value).or dfl
  config_bool root name dfl :=
    match (root.children.reverse.find? (·.name = name)).map Cnode.value with
    | none => dfl
    | some value => if value.head? ∈ [some 121, some 89, some 49] then 1 else 0

/-- Seventeen partitions, and nothing wrong with any of them, do not fit. -/
theorem seventeen_not_inside : ¬ LoadsInside .newest (.mk (cstr "partitions") []
    (List.replicate 17 (.mk (cstr "data") [] [.mk (cstr "type") (cstr "linux") []]))) := by
  rintro ⟨r, hr, -⟩
  have hfault : load_partitions .newest (.mk (cstr "partitions") []
      (List.replicate 17 (.mk (cstr "data") [] [.mk (cstr "type") (cstr "linux") []])))
      (List.replicate MAX_NUM_PARTS .zero) = .fault := by
    rfl
  rw [hfault] at hr
  cases hr

/-! ## The rest of the file -/

/-- `strtol` with base 0. -/
def strtol (nptr : CStr) : Int64 :=
  match nptr.dropWhile isspace with
  | [] => 0
  | c :: s =>
    match strtoull_digits (if c = 45 ∨ c = 43 then s else c :: s) with
    | none => 0
    | some n =>
      let val : Int := if c = 45 then -n else n
      Int64.ofInt (max (-2 ^ 63) (min val (2 ^ 63 - 1)))

/-- `goto fail` where a call returns `NULL`. -/
def orFail {α β : Type} (x : Option α) (next : α → Exec Empty (Option β)) :
    Exec Empty (Option β) :=
  match x with
  | none => .ret none
  | some a => next a

/-- `load_diskconfig`, from the tree that `config_load_file` leaves. -/
def load_diskconfig (cu : ConfigUtils) (root : Cnode) (path_override : Option CStr) :
    Exec Empty (Option DiskInfo) :=
  if root.children.isEmpty then .ret none
  else
    orFail (cu.config_find root (cstr "device")) fun devroot =>
    orFail (cu.config_str devroot (cstr "path") path_override) fun device =>
    orFail (cu.config_str devroot (cstr "scheme") none) fun scheme =>
    if scheme ≠ cstr "mbr" then .ret none
    else
      match cu.config_str devroot (cstr "sector_size") (some (cstr "512")) with
      | none => .fault
      | some tmp =>
        -- `long` into `int`.
        let sect_size := (strtol tmp).toInt32
        if sect_size = 0 then .ret none
        else
          orFail (cu.config_str devroot (cstr "start_lba") none) fun tmp =>
          -- `long` into `uint32_t`, so a negative number becomes a large one.
          let skip_lba := (strtol tmp).toUInt64.toUInt32
          if skip_lba = 0 then .ret none
          else
            orFail (cu.config_str devroot (cstr "num_lba") none) fun tmp =>
            orFail (cu.config_find devroot (cstr "partitions")) fun partnode => do
            let loaded ← load_partitions cu partnode (List.replicate MAX_NUM_PARTS .zero)
            match loaded with
            | none => .ret none
            | some (part_lst, num_parts) =>
              .ret (some {
                device, scheme := PART_SCHEME_MBR, sect_size, skip_lba
                num_lba := (strtoull tmp).1.toUInt32
                part_lst := part_lst.take num_parts })

/-- What comes behind a failure is not reached. -/
theorem orFail_eq_some {α β : Type} {x : Option α} {next : α → Exec Empty (Option β)} {b : β} :
    orFail x next = .ret (some b) ↔ ∃ a, x = some a ∧ next a = .ret (some b) := by
  cases x with
  | none => simp [orFail]
  | some a => simp [orFail]

/-- What later code is handed is the partitions of the file, and no more than there is room
for: where there are more, nothing is handed to it. -/
theorem load_diskconfig_parts {cu : ConfigUtils} {root : Cnode} {path_override : Option CStr}
    {dinfo : DiskInfo} (h : load_diskconfig cu root path_override = .ret (some dinfo)) :
    dinfo.num_parts ≤ MAX_NUM_PARTS ∧
      ∃ partnode : Cnode, List.Forall₂ (Describes cu) partnode.children dinfo.part_lst := by
  -- every way to fail returns nothing
  unfold load_diskconfig at h
  split_ifs at h
  · cases h
  simp only [orFail_eq_some] at h
  obtain ⟨devroot, -, device, -, scheme, -, h⟩ := h
  split_ifs at h
  · cases h
  split at h
  · cases h
  split_ifs at h
  · cases h
  rw [orFail_eq_some] at h
  obtain ⟨start_lba, -, h⟩ := h
  split_ifs at h
  · cases h
  simp only [orFail_eq_some] at h
  obtain ⟨num_lba, -, partnode, -, h⟩ := h
  -- the list, and as much of it as has been counted
  obtain ⟨loaded, hloaded, h⟩ := Exec.bind_eq_ret.mp h
  cases loaded with
  | none => cases h
  | some loaded =>
    obtain ⟨part_lst, num_parts⟩ := loaded
    simp only [Exec.ret.injEq, Option.some.injEq] at h
    subst h
    obtain ⟨hnum, hmax, hall⟩ := load_partitions_describes hloaded
    refine ⟨?_, partnode, hall⟩
    exact (List.length_take_le num_parts part_lst).trans hmax

end Parts

end EditDiskLbl

end Iago
