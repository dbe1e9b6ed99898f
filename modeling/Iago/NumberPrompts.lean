/-
Typed numbers: what a line says, and what `ui_get_value` makes of it.

A line says a number if it consists of one, in the notation of C, and white space around it
(`spelled`). `ui_get_value` calls `strtoull`, which reads the number a string starts with,
however it goes on, is content with none at all, and takes a sign as an instruction to
subtract in 64 bits; and what is left of the number after that is cut down to 32 bits before
it is compared with the bounds. So there are numbers that are taken for others, and lines that
are no numbers at all and are taken for one. `ui_get_value_right_iff` says which answers are
right: it is exact for all lines, also those that do not fit the buffer.
-/
import Iago.Asking
import Iago.FreeSpace

set_option autoImplicit false

namespace Iago

/-! ## Numbers in a line -/

/-- The digits a string starts with as a number, and what follows them. -/
def decimal_digits (s : List UInt8) : Option (ℕ × List UInt8) :=
  (number 10 s).map fun n => (n, s.dropWhile fun c => digit c < 10)

/-- The same in the notation of C, in which the start of a number gives away its base. -/
def c_digits (s : List UInt8) : Option (ℕ × List UInt8) :=
  match s with
  | 48 :: c :: rest =>
    if c = 120 ∨ c = 88 then
      match number 16 rest with
      | some n => some (n, rest.dropWhile fun c => digit c < 16)
      | none => some (0, c :: rest)
    else (number 8 s).map fun n => (n, s.dropWhile fun c => digit c < 8)
  | _ => decimal_digits s

/-- The number a string starts with, after white space and a sign, and what follows it. -/
def signed (digits : List UInt8 → Option (ℕ × List UInt8)) (s : List UInt8) :
    Option (ℤ × List UInt8) :=
  match s.dropWhile isspace with
  | [] => none
  | c :: s =>
    if c = 45 then (digits s).map fun r => (-(r.1 : ℤ), r.2)
    else if c = 43 then (digits s).map fun r => ((r.1 : ℤ), r.2)
    else (digits (c :: s)).map fun r => ((r.1 : ℤ), r.2)

/-- The number a string spells, with nothing but white space behind it. -/
def spelled (digits : List UInt8 → Option (ℕ × List UInt8)) (s : List UInt8) : Option ℤ :=
  (signed digits s).bind fun r => if r.2.all isspace then some r.1 else none

/-- The number it starts with, and 0 if it starts with none. -/
def leading (digits : List UInt8 → Option (ℕ × List UInt8)) (s : List UInt8) : ℤ :=
  ((signed digits s).map Prod.fst).getD 0

/-- A number that is spelled is the one the line starts with. -/
theorem leading_of_spelled {digits : List UInt8 → Option (ℕ × List UInt8)} {s : List UInt8} {z : ℤ}
    (h : spelled digits s = some z) : leading digits s = z := by
  obtain ⟨r, hr, hz⟩ := Option.bind_eq_some_iff.mp h
  split_ifs at hz
  rw [Option.some.injEq] at hz
  rw [leading, hr, ← hz]
  rfl

/-- `strtoull` reads these digits. -/
theorem c_digits_value (s : List UInt8) :
    ((c_digits s).map Prod.fst).getD 0 = (strtoull_digits s).getD 0 := by
  have hdecimal : ∀ s, ((decimal_digits s).map Prod.fst).getD 0 = (number 10 s).getD 0 := by
    intro s
    rw [decimal_digits, Option.map_map]
    cases number 10 s with
    | none => rfl
    | some n => rfl
  -- behind a 0 the base is 16 or 8, and otherwise 10
  rw [c_digits.eq_def]
  split
  · next c rest =>
    rw [strtoull_digits]
    split_ifs
    · cases number 16 rest with
      | none => rfl
      | some n => rfl
    · cases number 8 (48 :: c :: rest) with
      | none => rfl
      | some n => rfl
  · next hs =>
    rw [strtoull_digits.eq_def]
    split
    · next c rest => exact absurd rfl (hs c rest)
    · exact hdecimal s

/-- `strtoull` is that number in 64 bits, and an error if it is too large for them before the
sign is applied. -/
theorem strtoull_eq (s : List UInt8) :
    strtoull s =
      if 2 ^ 64 ≤ (leading c_digits s).natAbs then (UInt64.ofNat (2 ^ 64 - 1), true)
      else (UInt64.ofInt (leading c_digits s), false) := by
  -- what is read of the digits, with and without a sign
  have hneg : ∀ t, ((((c_digits t).map fun r => (-(r.1 : ℤ), r.2)).map Prod.fst).getD 0) =
      -(((strtoull_digits t).getD 0 : ℕ) : ℤ) := by
    intro t
    rw [← c_digits_value]
    cases c_digits t with
    | none => rfl
    | some r => rfl
  have hpos : ∀ t, ((((c_digits t).map fun r => ((r.1 : ℤ), r.2)).map Prod.fst).getD 0) =
      (((strtoull_digits t).getD 0 : ℕ) : ℤ) := by
    intro t
    rw [← c_digits_value]
    cases c_digits t with
    | none => rfl
    | some r => rfl
  have hofPos : ∀ n : ℕ, UInt64.ofInt (n : ℤ) = UInt64.ofNat n := by
    intro n
    have hmod : ((n : ℤ) % 2 ^ 64).toNat = n % 2 ^ 64 := by omega
    rw [UInt64.ofInt, hmod, ← UInt64.toNat_inj, UInt64.toNat_ofNat', UInt64.toNat_ofNat',
      Nat.mod_mod]
  have hofNeg : ∀ n : ℕ, UInt64.ofInt (-(n : ℤ)) = 0 - UInt64.ofNat n := by
    intro n
    rw [UInt64.ofInt_neg, UInt64.zero_sub, hofPos]
  unfold strtoull leading signed
  cases s.dropWhile isspace with
  | nil => rfl
  | cons c s =>
    by_cases h45 : c = 45
    · simp only [h45, true_or, if_true, hneg, Int.natAbs_neg, Int.natAbs_natCast]
      cases strtoull_digits s with
      | none => rfl
      | some n => simp only [Option.getD_some, hofNeg]
    · by_cases h43 : c = 43
      · subst h43
        simp only [h45, or_true, if_true, if_false, hpos, Int.natAbs_natCast]
        cases strtoull_digits s with
        | none => rfl
        | some n => simp only [Option.getD_some, hofPos]
      · simp only [h45, h43, or_self, if_false, hpos, Int.natAbs_natCast]
        cases strtoull_digits (c :: s) with
        | none => rfl
        | some n => simp only [Option.getD_some, hofPos]

/-! ## Answers -/

section Answers

variable (dfl min max : Int64)

/-- What a line says: the default if it is empty, and a number that is between the bounds. -/
def value_typed (l : Line) : Option Int64 :=
  if l.chars = [] then some dfl
  else
    (spelled c_digits l.typed).bind fun z =>
      if min.toInt ≤ z ∧ z ≤ max.toInt then some (Int64.ofInt z) else none

/-- One round of `ui_get_value`. -/
def value_verdict (_ : Unit) (buf : List UInt8) : Verdict Unit Int64 :=
  if buf.head? = some 10 then .take dfl
  else
    let (value, errno) := strtoull buf
    let result := value.toUInt32
    if errno ∨ result.toUInt64.toInt64 < min ∨ max < result.toUInt64.toInt64 then .again ()
    else .take result.toUInt64.toInt64

/-- What is compared with the bounds: 32 bits of the number a piece starts with, unless it is
too large for 64. -/
def compared (buf : List UInt8) : Option ℤ :=
  if 2 ^ 64 ≤ (leading c_digits buf).natAbs then none else some (leading c_digits buf % 2 ^ 32)

/-- A piece that is refused. -/
def Declined (buf : List UInt8) : Prop :=
  buf.head? ≠ some 10 ∧ ∀ v, compared buf = some v → ¬ (min.toInt ≤ v ∧ v ≤ max.toInt)

/-- The pieces of a line come to what it says: either they are all refused, and should be, or
only the last is not, and is what the line says. -/
def ValueRight (l : Line) : Prop :=
  match value_typed dfl min max l with
  | none => ∀ p ∈ pieces 4095 l.typed, Declined min max p
  | some v => ∃ init p, pieces 4095 l.typed = init ++ [p] ∧ (∀ q ∈ init, Declined min max q) ∧
      if p.head? = some 10 then v = dfl else compared p = some v.toInt

variable {dfl min max}

/-- `ui_get_value` is the question with these rounds. -/
theorem ui_get_value_eq (buf : CStr) (stdin : List UInt8) :
    ui_get_value buf dfl min max stdin =
      ask (value_verdict dfl min max) () (answers 4095 buf stdin) >>=
        fun r => .ret (r.1, r.2.flatten) := by
  refine loop_eq_ask (n := 4095)
    (f := fun fuel buf _ stdin => ui_get_value_again dfl min max fuel buf stdin)
    (fun _ _ _ => rfl) ?_ ?_ (by decide) buf () stdin
  · intro fuel buf s stdin
    rw [ui_get_value_again, value_verdict]
    generalize fgets_into buf 4095 stdin = x
    simp only
    split_ifs with hnl hbad
    · rfl
    · rfl
    · rfl
  · exact fun _ _ _ h => h

/-- Without a state, pieces are refused one by one. -/
theorem refused_unit_iff {α : Type} {judge : Unit → List UInt8 → Verdict Unit α}
    {ps : List (List UInt8)} :
    refused judge () ps = some () ↔ ∀ p ∈ ps, judge () p = .again () := by
  induction ps with
  | nil => exact iff_of_true rfl nofun
  | cons p ps ih =>
    rw [refused, List.forall_mem_cons]
    cases judge () p with
    | again s => simp only [ih, true_and]
    | take a => simp
    | fault => simp

/-- The 32 bits that are left. -/
theorem low_toInt (z : ℤ) : (UInt64.ofInt z).toUInt32.toUInt64.toInt64.toInt = z % 2 ^ 32 := by
  have hnat : (UInt64.ofInt z).toUInt32.toUInt64.toNat = (z % 2 ^ 32).toNat := by
    rw [UInt32.toNat_toUInt64, UInt64.toNat_toUInt32, UInt64.ofInt, UInt64.toNat_ofNat']
    omega
  rw [toInt_toInt64_of_lt (by omega), hnat]
  omega

/-- One round by cases. -/
theorem value_verdict_eq (buf : List UInt8) :
    value_verdict dfl min max () buf =
      if buf.head? = some 10 then .take dfl
      else
        match compared buf with
        | none => .again ()
        | some v => if min.toInt ≤ v ∧ v ≤ max.toInt then .take (Int64.ofInt v) else .again () := by
  rw [value_verdict]
  by_cases hnl : buf.head? = some 10
  · rw [if_pos hnl, if_pos hnl]
  · rw [if_neg hnl, if_neg hnl, strtoull_eq, compared]
    -- an overflow is refused without a look at the bounds
    by_cases hbig : 2 ^ 64 ≤ (leading c_digits buf).natAbs
    · simp only [if_pos hbig, true_or, if_true]
    · simp only [if_neg hbig, Bool.false_eq_true, false_or, Int64.lt_iff_toInt_lt, low_toInt]
      -- the comparison is made with the low 32 bits
      have hlow : (UInt64.ofInt (leading c_digits buf)).toUInt32.toUInt64.toInt64 =
          Int64.ofInt (leading c_digits buf % 2 ^ 32) := by
        rw [← low_toInt, Int64.ofInt_toInt]
      rw [hlow]
      by_cases hin : min.toInt ≤ leading c_digits buf % 2 ^ 32 ∧
          leading c_digits buf % 2 ^ 32 ≤ max.toInt
      · rw [if_pos hin, if_neg (by omega)]
      · rw [if_neg hin, if_pos (by omega)]

/-- A piece is refused exactly if it is no newline and nothing between the bounds is left of
the number. -/
theorem declined_iff {buf : List UInt8} :
    value_verdict dfl min max () buf = .again () ↔ Declined min max buf := by
  rw [value_verdict_eq, Declined]
  by_cases hnl : buf.head? = some 10
  · simp [hnl]
  · rw [if_neg hnl, and_iff_right hnl]
    cases compared buf with
    | none => simp
    | some v =>
      simp only [Option.some.injEq, forall_eq']
      by_cases hin : min.toInt ≤ v ∧ v ≤ max.toInt
      · rw [if_pos hin]
        exact iff_of_false nofun (not_not.mpr hin)
      · rw [if_neg hin]
        exact iff_of_true rfl hin

/-- What is compared fits a signed number. -/
theorem toInt_ofInt_compared {buf : List UInt8} {v : ℤ} (h : compared buf = some v) :
    (Int64.ofInt v).toInt = v := by
  rw [compared, Option.ite_none_left_eq_some, Option.some.injEq] at h
  rw [Int64.toInt_ofInt_of_le (by omega) (by omega)]

/-- And taken for `v` exactly if it is a newline and `v` the default, or `v` is what is left. -/
theorem taken_iff {buf : List UInt8} {v : Int64} :
    value_verdict dfl min max () buf = .take v ↔
      if buf.head? = some 10 then v = dfl
      else compared buf = some v.toInt ∧ min.toInt ≤ v.toInt ∧ v.toInt ≤ max.toInt := by
  rw [value_verdict_eq]
  by_cases hnl : buf.head? = some 10
  · simp [hnl, eq_comm]
  · rw [if_neg hnl, if_neg hnl]
    cases hz : compared buf with
    | none => simp
    | some z =>
      have hexact := toInt_ofInt_compared hz
      simp only [Option.some.injEq]
      constructor
      · intro h
        split_ifs at h with hin
        rw [Verdict.take.injEq] at h
        rw [← h, hexact]
        exact ⟨rfl, hin⟩
      · rintro ⟨rfl, hin⟩
        rw [if_pos hin, Int64.ofInt_toInt]

/-- The pieces that are refused are those whose number is out of bounds. -/
theorem refused_iff_declined {ps : List (List UInt8)} :
    refused (value_verdict dfl min max) () ps = some () ↔ ∀ p ∈ ps, Declined min max p := by
  rw [refused_unit_iff]
  exact forall₂_congr fun p _ => declined_iff

/-- What a line says is between the bounds, or the default because it is empty. -/
theorem value_typed_eq_some {l : Line} {v : Int64} (h : value_typed dfl min max l = some v) :
    l.chars = [] ∧ v = dfl ∨ min.toInt ≤ v.toInt ∧ v.toInt ≤ max.toInt := by
  rw [value_typed] at h
  split_ifs at h with hnil
  · rw [Option.some.injEq] at h
    exact .inl ⟨hnil, h.symm⟩
  · obtain ⟨z, -, hz⟩ := Option.bind_eq_some_iff.mp h
    split_ifs at hz with hin
    rw [Option.some.injEq] at hz
    have hlo := min.le_toInt
    have hhi := max.toInt_lt
    rw [← hz, Int64.toInt_ofInt_of_le (by omega) (by omega)]
    exact .inr hin

/-- A line is treated right exactly if its pieces come to what it says. -/
theorem lineRight_iff (l : Line) :
    LineRight (value_typed dfl min max) (value_verdict dfl min max) 4095 () l ↔
      ValueRight dfl min max l := by
  rw [LineRight, ValueRight]
  -- a line that says nothing is refused, and so are all of its pieces
  cases hl : value_typed dfl min max l with
  | none =>
    simp only [ask_eq_hang_iff]
    rw [← @refused_iff_declined dfl min max]
    constructor
    · rintro ⟨s', hs'⟩
      exact hs'
    · exact fun h => ⟨(), h⟩
  | some v =>
    simp only [ask_eq_ret_nil_iff]
    refine exists₂_congr fun init p => ?_
    constructor
    · rintro ⟨s', hsplit, hinit, hp⟩
      refine ⟨hsplit, refused_iff_declined.mp hinit, ?_⟩
      have htaken := taken_iff.mp hp
      split_ifs at htaken ⊢
      · exact htaken
      · exact htaken.1
    · rintro ⟨hsplit, hinit, hp⟩
      refine ⟨(), hsplit, refused_iff_declined.mpr hinit, taken_iff.mpr ?_⟩
      split_ifs at hp ⊢ with hnl
      · exact hp
      · refine ⟨hp, ?_⟩
        rcases value_typed_eq_some hl with ⟨hnil, -⟩ | hin
        · -- an empty line is a newline
          have hshort : l.chars.length < 4095 := by rw [hnil, List.length_nil]; decide
          rw [pieces_short hshort] at hsplit
          have hone : [] ++ [l.typed] = init ++ [p] := hsplit
          have hp : l.typed = p := by simpa using (List.append_inj' hone rfl).2
          rw [← hp, Line.typed, hnil] at hnl
          exact absurd rfl hnl
        · exact hin

/-- **When `ui_get_value` returns the number that was typed**: exactly if the pieces of every
line that is asked for come to what the line says, and if no line is typed at all, what is in the
buffer is refused. -/
theorem ui_get_value_right_iff (buf : CStr) (dfl min max : Int64) (lines : List Line) :
    ui_get_value buf dfl min max (typed lines) = expected (value_typed dfl min max) lines ↔
      (lines = [] → Declined min max buf) ∧
      ∀ init l rest, lines = init ++ l :: rest →
        (∀ x ∈ init, value_typed dfl min max x = none) → ValueRight dfl min max l := by
  have hbuf : (∃ s', value_verdict dfl min max () buf = .again s') ↔ Declined min max buf := by
    rw [← @declined_iff dfl min max]
    exact ⟨fun ⟨_, h⟩ => h, fun h => ⟨(), h⟩⟩
  rw [ui_get_value_eq, answers_right_iff (by decide), hbuf]
  refine and_congr_right fun _ => ?_
  exact linesRight_iff (n := 4095) (I := fun _ _ => True) (by decide)
    (fun _ _ l _ => lineRight_iff l) (fun _ _ _ _ _ _ _ => trivial) true trivial lines

/-- A line that is not empty does not start with its newline. -/
theorem head_typed_ne {l : Line} (hne : l.chars ≠ []) : l.typed.head? ≠ some 10 := by
  obtain ⟨chars, hends⟩ := l
  cases chars with
  | nil => exact absurd rfl hne
  | cons c chars =>
    intro h
    rw [Line.typed, List.cons_append, List.head?_cons, Option.some.injEq] at h
    exact hends (h ▸ List.mem_cons_self)

/-- Of a line that fits the buffer: a number between the bounds has to be one of 32 bits, and
any other number one of which nothing between the bounds is left. -/
theorem valueRight_short_iff {l : Line} (hne : l.chars ≠ []) (hshort : l.chars.length < 4095) :
    ValueRight dfl min max l ↔
      match spelled c_digits l.typed with
      | some z =>
        if min.toInt ≤ z ∧ z ≤ max.toInt then 0 ≤ z ∧ z < 2 ^ 32
        else 2 ^ 64 ≤ z.natAbs ∨ ¬ (min.toInt ≤ z % 2 ^ 32 ∧ z % 2 ^ 32 ≤ max.toInt)
      | none => Declined min max l.typed := by
  have hhead := head_typed_ne hne
  have hlast : ∀ init p, [l.typed] = init ++ [p] ↔ init = [] ∧ p = l.typed := by
    intro init p
    constructor
    · intro h
      have hparts := List.append_inj' (show [] ++ [l.typed] = init ++ [p] from h) rfl
      exact ⟨hparts.1.symm, by simpa using hparts.2.symm⟩
    · rintro ⟨rfl, rfl⟩
      rfl
  rw [ValueRight, pieces_short hshort, value_typed, if_neg hne]
  -- the line is its own only piece
  cases hz : spelled c_digits l.typed with
  | none => simp
  | some z =>
    have hcompared : compared l.typed = if 2 ^ 64 ≤ z.natAbs then none else some (z % 2 ^ 32) := by
      rw [compared, leading_of_spelled hz]
    have hlo := min.le_toInt
    have hhi := max.toInt_lt
    simp only [Option.bind_some]
    by_cases hin : min.toInt ≤ z ∧ z ≤ max.toInt
    · have hexact : (Int64.ofInt z).toInt = z := Int64.toInt_ofInt_of_le (by omega) (by omega)
      rw [if_neg (by omega)] at hcompared
      simp only [if_pos hin, hlast]
      constructor
      · rintro ⟨init, p, ⟨rfl, rfl⟩, -, h⟩
        rw [if_neg hhead, hcompared, hexact, Option.some.injEq] at h
        omega
      · intro h
        refine ⟨[], l.typed, ⟨rfl, rfl⟩, nofun, ?_⟩
        rw [if_neg hhead, hcompared, hexact, Option.some.injEq]
        omega
    · simp only [if_neg hin, List.forall_mem_singleton, Declined, and_iff_right hhead]
      -- too large for `strtoull`, or refused by what is left of it
      by_cases hbig : 2 ^ 64 ≤ z.natAbs
      · rw [if_pos hbig] at hcompared
        rw [hcompared]
        exact iff_of_true nofun (.inl hbig)
      · rw [if_neg hbig] at hcompared
        rw [hcompared, or_iff_right hbig]
        simp only [Option.some.injEq, forall_eq']

/-- A number that is taken for another. -/
theorem ui_get_value_not_right : (0 : Int64) ≤ 5 ∧ (5 : Int64) ≤ 10 ∧
    ui_get_value [] 5 0 10 (typed [⟨cstr "4294967297", by decide⟩])
      ≠ expected (value_typed 5 0 10) [⟨cstr "4294967297", by decide⟩] := by
  decide

end Answers

end Iago
