/-
Menus: what a line selects, and what `ui_option_get` makes of it.

A line selects an entry if it is the entry's number; an empty line selects the first. The code
keeps the selection in an `unsigned` that starts at 1 and is set by every line that is not
empty, so that behind a line that was refused an empty one is refused too. It compares it with
the number of entries, and not with 0: there the count that walks along the list wraps, and goes
round the ring that the list is, with the head as one of its nodes. `atoi` takes what a line
starts with, 0 if that is no number, and cuts it down to 32 bits. And an empty list passes for
one with a single entry, which is returned without a question.

`ui_option_get_right_iff` says which lines do not show any of this.
-/
import Iago.NumberPrompts

set_option autoImplicit false

namespace Iago

section Menu

variable (options : List CStr)

/-! ## What a line selects -/

/-- The entry a line selects: the first if it is empty, and otherwise the one whose number it
is. -/
def option_typed (l : Line) : Option CStr :=
  if l.chars = [] then options[0]?
  else
    (spelled decimal_digits l.typed).bind fun z =>
      if 1 ≤ z then options[z.toNat - 1]? else none

/-- What `ui_option_get` should come to: of an empty list nothing can be selected, of a single
entry nothing has to be. -/
def OptionRight (buf : CStr) (lines : List Line) : Prop :=
  match options with
  | [] => ∃ e, ui_option_get buf [] (typed lines) = .die e
  | [option] => ui_option_get buf [option] (typed lines) = .ret (option, typed lines)
  | options => ui_option_get buf options (typed lines) = expected (option_typed options) lines

/-! ## Which lines show none of it -/

/-- The number a piece of a line starts with, 0 if there is none, in 32 bits. -/
def selected (buf : CStr) : ℕ := kept 32 (leading decimal_digits buf)

/-- A piece that is refused: a newline that is left of a line that was refused, or one that
starts with a number that is too large. -/
def Dismissed (buf : CStr) : Prop :=
  buf.head? = some 10 ∨ options.length % 2 ^ 32 < selected buf

/-- The place in the ring of the entries and the head of the list that a number is for, which a 0
is for all the same. -/
def ring_place (number : ℕ) : ℕ := (number + (2 ^ 32 - 1)) % 2 ^ 32 % (options.length + 1)

/-- The pieces of a line come to what it selects. An empty line has to be the first. -/
def SelectionRight (first : Bool) (l : Line) : Prop :=
  if l.chars = [] then first = true ∧ ¬ 2 ^ 32 ∣ options.length
  else
    match option_typed options l with
    | none => ∀ p ∈ pieces 31 l.typed, Dismissed options p
    | some option => ∃ init p, pieces 31 l.typed = init ++ [p] ∧
        (∀ q ∈ init, Dismissed options q) ∧ p.head? ≠ some 10 ∧
          selected p ≤ options.length % 2 ^ 32 ∧
            options[ring_place options (selected p)]? = some option

/-- What is in the buffer when nothing has been typed selects nothing. -/
def NothingLeft (buf : CStr) : Prop :=
  if buf.head? = some 10 then 2 ^ 32 ∣ options.length
  else options.length % 2 ^ 32 < selected buf

/-! ## What the code makes of it -/

/-- `i`, when the list has been printed. -/
def option_count : UInt32 := UInt32.ofNat options.length

/-- The option that the walk ends at. -/
def option_at (select : UInt32) : Option CStr := options[option_walk options select 0]?

/-- One round of `ui_option_get`. -/
def option_verdict (select : UInt32) (buf : List UInt8) : Verdict UInt32 CStr :=
  let select := if buf.head? = some 10 then select else (atoi buf).toUInt32
  if option_count options < select then .again select
  else
    match option_at options select with
    | some option => .take option
    | none => .fault

variable {options}

/-- `strtol` reads these digits. -/
theorem numeral_eq (s : List UInt8) : numeral 10 s = (signed decimal_digits s).map Prod.fst := by
  unfold numeral signed decimal_digits
  cases s.dropWhile isspace with
  | nil => rfl
  | cons c s =>
    simp only
    split_ifs
    · cases number 10 s with
      | none => rfl
      | some n => rfl
    · cases number 10 s with
      | none => rfl
      | some n => rfl
    · cases number 10 (c :: s) with
      | none => rfl
      | some n => rfl

/-- `atoi` is the number in 32 bits. -/
theorem atoi_selected (buf : CStr) : (atoi buf).toUInt32.toNat = selected buf := by
  rw [atoi_eq, numeral_eq, selected, leading]

theorem toNat_option_count : (option_count options).toNat = options.length % 2 ^ 32 := by
  rw [option_count, UInt32.toNat_ofNat']

theorem option_count_eq_zero_iff : option_count options = 0 ↔ 2 ^ 32 ∣ options.length := by
  rw [← UInt32.toNat_inj, toNat_option_count, UInt32.toNat_zero, Nat.dvd_iff_mod_eq_zero]

/-- What is compared with the number of options is the number that was selected. -/
theorem option_count_lt_iff {buf : CStr} : option_count options < (atoi buf).toUInt32 ↔
    options.length % 2 ^ 32 < selected buf := by
  rw [UInt32.lt_iff_toNat_lt, toNat_option_count, atoi_selected]

/-- The walk ends at the place of the number. -/
theorem option_at_eq (buf : CStr) : option_at options (atoi buf).toUInt32
    = options[ring_place options (selected buf)]? := by
  have hless : ((atoi buf).toUInt32 - 1).toNat = (selected buf + (2 ^ 32 - 1)) % 2 ^ 32 := by
    rw [UInt32.toNat_sub, atoi_selected, Nat.add_comm (selected buf)]
    rfl
  rw [option_at, option_walk_eq options _ (Nat.zero_le _), Nat.zero_add, ring_place, hless]

/-- A selection that is refused is refused again. -/
theorem option_verdict_stays {select select' : UInt32} {buf : CStr}
    (h : option_verdict options select buf = .again select') :
    option_verdict options select' buf = .again select' := by
  rw [option_verdict] at h ⊢
  by_cases hnl : buf.head? = some 10
  · simp only [if_pos hnl] at h ⊢
    split_ifs at h with hbig
    · rw [Verdict.again.injEq] at h
      rw [← h, if_pos hbig]
    · cases hat : option_at options select with
      | none => rw [hat] at h; cases h
      | some option => rw [hat] at h; cases h
  · simp only [if_neg hnl] at h ⊢
    exact h

/-- `ui_option_get` on two entries or more is the question with these rounds. -/
theorem ui_option_again_eq (buf : CStr) (select : UInt32) (stdin : List UInt8) :
    ui_option_again options (stdin.length + 1) buf select stdin =
      ask (option_verdict options) select (answers 31 buf stdin) >>=
        fun r => .ret (r.1, r.2.flatten) := by
  refine loop_eq_ask (n := 31)
    (f := fun fuel buf select stdin => ui_option_again options fuel buf select stdin)
    (fun _ _ _ => rfl) ?_ ?_ (by decide) buf select stdin
  · intro fuel buf select stdin
    rw [ui_option_again]
    generalize fgets_into buf 31 stdin = x
    simp only [option_verdict, option_at]
    generalize (if x.1.head? = some 10 then select else (atoi x.1).toUInt32) = select
    by_cases hbig : option_count options < select
    · rw [if_pos (show UInt32.ofNat options.length < select from hbig), if_pos hbig]
    · rw [if_neg (show ¬ UInt32.ofNat options.length < select from hbig), if_neg hbig]
      cases options[option_walk options select 0]? with
      | none => rfl
      | some option => rfl
  · exact fun _ _ _ => option_verdict_stays

/-! ## One line -/

/-- A piece behind which the question goes on is dismissed. -/
theorem dismissed_of_again {select select' : UInt32} {buf : List UInt8}
    (h : option_verdict options select buf = .again select') :
    Dismissed options buf ∧ option_count options < select' := by
  rw [option_verdict] at h
  split_ifs at h with hnl hbig hbig
  · rw [Verdict.again.injEq] at h
    exact ⟨.inl hnl, h ▸ hbig⟩
  · cases hat : option_at options select with
    | none => rw [hat] at h; cases h
    | some option => rw [hat] at h; cases h
  · rw [Verdict.again.injEq] at h
    exact ⟨.inr (option_count_lt_iff.mp hbig), h ▸ hbig⟩
  · cases hat : option_at options (atoi buf).toUInt32 with
    | none => rw [hat] at h; cases h
    | some option => rw [hat] at h; cases h

/-- What is refused stays refused behind a selection that is too large. -/
theorem again_of_dismissed {select : UInt32} {buf : List UInt8}
    (hsel : buf.head? = some 10 → option_count options < select)
    (h : Dismissed options buf) :
    ∃ select', option_verdict options select buf = .again select' ∧
      option_count options < select' := by
  rw [option_verdict]
  by_cases hnl : buf.head? = some 10
  · simp only [if_pos hnl, if_pos (hsel hnl)]
    exact ⟨select, rfl, hsel hnl⟩
  · have hbig := option_count_lt_iff.mpr (h.resolve_left hnl)
    simp only [if_neg hnl, if_pos hbig]
    exact ⟨_, rfl, hbig⟩

theorem dismissed_of_refused {select select' : UInt32} {ps : List (List UInt8)}
    (h : refused (option_verdict options) select ps = some select') :
    (∀ p ∈ ps, Dismissed options p) ∧ (ps ≠ [] → option_count options < select') := by
  induction ps generalizing select with
  | nil => exact ⟨nofun, fun hne => absurd rfl hne⟩
  | cons p ps ih =>
    rw [refused] at h
    cases hp : option_verdict options select p with
    | again select₁ =>
      simp only [hp] at h
      obtain ⟨hdismissed, hbig⟩ := dismissed_of_again hp
      obtain ⟨hall, hlast⟩ := ih h
      refine ⟨List.forall_mem_cons.mpr ⟨hdismissed, hall⟩, fun _ => ?_⟩
      -- the selection the last piece leaves is too large
      cases ps with
      | nil =>
        rw [refused, Option.some.injEq] at h
        exact h ▸ hbig
      | cons q ps => exact hlast (List.cons_ne_nil q ps)
    | take option =>
      rw [hp] at h
      cases h
    | fault =>
      rw [hp] at h
      cases h

/-- Pieces that are dismissed are refused. -/
theorem refused_of_dismissed {select : UInt32} {ps : List (List UInt8)}
    (hsel : (∃ buf ∈ ps.head?, buf.head? = some 10) → option_count options < select)
    (h : ∀ p ∈ ps, Dismissed options p) :
    ∃ select', refused (option_verdict options) select ps = some select' := by
  induction ps generalizing select with
  | nil => exact ⟨select, rfl⟩
  | cons p ps ih =>
    obtain ⟨hp, hps⟩ := List.forall_mem_cons.mp h
    obtain ⟨select₁, hagain, hbig⟩ :=
      again_of_dismissed (fun hnl => hsel ⟨p, rfl, hnl⟩) hp
    rw [refused, hagain]
    exact ih (fun _ => hbig) hps

/-- A piece is taken with a selection that is not too large. -/
theorem option_taken_iff {select : UInt32} {buf : List UInt8} {option : CStr}
    (hsel : buf.head? = some 10 → option_count options < select) :
    option_verdict options select buf = .take option ↔
      buf.head? ≠ some 10 ∧ selected buf ≤ options.length % 2 ^ 32 ∧
        options[ring_place options (selected buf)]? = some option := by
  rw [option_verdict, ← option_at_eq, ← Nat.not_lt, ← option_count_lt_iff]
  by_cases hnl : buf.head? = some 10
  · simp only [if_pos hnl, if_pos (hsel hnl)]
    exact iff_of_false nofun fun h => h.1 hnl
  · rw [and_iff_right hnl]
    simp only [if_neg hnl]
    by_cases hbig : option_count options < (atoi buf).toUInt32
    · rw [if_pos hbig]
      exact iff_of_false nofun fun h => h.1 hbig
    · rw [if_neg hbig, and_iff_right hbig]
      cases option_at options (atoi buf).toUInt32 with
      | none => simp
      | some o => simp

/-- The first piece of a line that is not empty is no newline. -/
theorem head_pieces {l : Line} (hne : l.chars ≠ []) {buf : List UInt8}
    (h : (pieces 31 l.typed).head? = some buf) : buf.head? ≠ some 10 := by
  intro hnl
  have hflat := flatten_pieces (n := 31) (by decide) l.typed
  have htyped := head_typed_ne hne
  cases hps : pieces 31 l.typed with
  | nil =>
    rw [hps] at h
    cases h
  | cons p ps =>
    rw [hps, List.head?_cons, Option.some.injEq] at h
    rw [hps, List.flatten_cons, h] at hflat
    cases buf with
    | nil => cases hnl
    | cons c buf =>
      rw [← hflat, List.cons_append, List.head?_cons] at htyped
      exact htyped hnl

/-- A line that is not empty is treated right, whatever has been selected before, exactly if its
pieces come to what it selects. -/
theorem lineRight_of_ne_nil (select : UInt32) {l : Line} (hne : l.chars ≠ []) (first : Bool) :
    LineRight (option_typed options) (option_verdict options) 31 select l ↔
      SelectionRight options first l := by
  have hhead : ∀ {buf}, (pieces 31 l.typed).head? = some buf → buf.head? ≠ some 10 :=
    head_pieces hne
  rw [LineRight, SelectionRight, if_neg hne]
  -- a line that selects nothing has all of its pieces dismissed
  cases hl : option_typed options l with
  | none =>
    simp only [ask_eq_hang_iff]
    constructor
    · rintro ⟨select', h⟩
      exact (dismissed_of_refused h).1
    · intro h
      refine refused_of_dismissed ?_ h
      rintro ⟨buf, hbuf, hnl⟩
      exact absurd hnl (hhead hbuf)
  | some option =>
    simp only [ask_eq_ret_nil_iff]
    refine exists₂_congr fun init p => ?_
    constructor
    · rintro ⟨select', hsplit, hinit, hp⟩
      -- no piece of the line is empty, so the selection before it does not matter
      obtain ⟨hall, hbig⟩ := dismissed_of_refused hinit
      refine ⟨hsplit, hall, (option_taken_iff fun hnl => hbig ?_).mp hp⟩
      rintro rfl
      exact hhead (by rw [hsplit]; rfl) hnl
    · rintro ⟨hsplit, hall, hp⟩
      have hfirst : (∃ buf ∈ init.head?, buf.head? = some 10) → option_count options < select := by
        rintro ⟨buf, hbuf, hnl⟩
        refine absurd hnl (hhead ?_)
        rw [hsplit, List.head?_append, hbuf]
        rfl
      obtain ⟨select', hinit⟩ := refused_of_dismissed hfirst hall
      exact ⟨select', hsplit, hinit, (option_taken_iff fun hnl => absurd hnl hp.1).mpr hp⟩

/-- An empty line selects the first entry if nothing has been selected before. -/
theorem lineRight_of_nil {select : UInt32} {l : Line} (hnil : l.chars = []) (hopt : options ≠ [])
    {first : Bool} (hsel : if first then select = 1 else option_count options < select) :
    LineRight (option_typed options) (option_verdict options) 31 select l ↔
      SelectionRight options first l := by
  obtain ⟨o, ho⟩ : ∃ o, options[0]? = some o := by
    cases options with
    | nil => exact absurd rfl hopt
    | cons o more => exact ⟨o, rfl⟩
  have htyped : option_typed options l = some o := by rw [option_typed, if_pos hnil, ho]
  have hpieces : pieces 31 l.typed = [[10]] := by
    rw [pieces_short (by rw [hnil]; decide), Line.typed, hnil]
    rfl
  rw [LineRight, SelectionRight, if_pos hnil, htyped, hpieces, ask, option_verdict]
  -- at first 1 is selected, which is taken unless the count is 0 in 32 bits
  cases first with
  | true =>
    have hone : select = 1 := hsel
    have hat : option_at options 1 = some o := by
      rw [option_at, option_walk_eq options 1 (Nat.zero_le _),
        show ((1 : UInt32) - 1).toNat = 0 from rfl, Nat.zero_mod, ho]
    simp only [List.head?_cons, if_true, hone, true_and, hat, ← option_count_eq_zero_iff]
    by_cases hzero : option_count options = 0
    · rw [hzero]
      exact iff_of_false (fun h => by cases h) fun h => h rfl
    · have hge : ¬ option_count options < 1 := by
        rw [UInt32.lt_iff_toNat_lt, show (1 : UInt32).toNat = 1 from rfl]
        have hpos : (option_count options).toNat ≠ 0 := fun h => hzero (UInt32.toNat_inj.mp h)
        omega
      rw [if_neg hge]
      exact iff_of_true rfl hzero
  | false =>
    -- later it is the number that has been refused
    have hbig : option_count options < select := by simpa using hsel
    simp only [List.head?_cons, if_true, if_pos hbig, ask]
    exact iff_of_false (fun h => by cases h) fun h => Bool.false_ne_true h.1

/-- What is in the buffer at first is refused exactly if it selects nothing. -/
theorem nothingLeft_iff {buf : CStr} :
    (∃ select, option_verdict options 1 buf = .again select) ↔ NothingLeft options buf := by
  have hagain : (∃ select, option_verdict options 1 buf = .again select) ↔
      option_count options < (if buf.head? = some 10 then 1 else (atoi buf).toUInt32) := by
    rw [option_verdict]
    generalize (if buf.head? = some 10 then 1 else (atoi buf).toUInt32) = select
    by_cases hbig : option_count options < select
    · simp only [if_pos hbig]
      exact iff_of_true ⟨select, rfl⟩ hbig
    · simp only [if_neg hbig]
      cases option_at options select with
      | none => exact iff_of_false (fun ⟨_, h⟩ => by cases h) hbig
      | some option => exact iff_of_false (fun ⟨_, h⟩ => by cases h) hbig
  rw [hagain, NothingLeft]
  by_cases hnl : buf.head? = some 10
  · rw [if_pos hnl, if_pos hnl, ← option_count_eq_zero_iff]
    exact UInt32.lt_one_iff
  · rw [if_neg hnl, if_neg hnl]
    exact option_count_lt_iff

/-- Behind a line that is refused the selection is too large. -/
theorem selection_of_refused {select select' : UInt32} {l : Line}
    (href : refused (option_verdict options) select (pieces 31 l.typed) = some select') :
    option_count options < select' := by
  refine (dismissed_of_refused href).2 fun hnil => ?_
  have hflat := flatten_pieces (n := 31) (by decide) l.typed
  rw [hnil, Line.typed] at hflat
  exact List.append_ne_nil_of_right_ne_nil _ (List.cons_ne_nil _ _) hflat.symm

/-! ### Lines that fit the buffer -/

/-- A line that is a number of 32 bits selects it. -/
theorem selected_of_spelled {s : CStr} {z : ℤ} (h : spelled decimal_digits s = some z)
    (hlo : 0 ≤ z) (hhi : z < 2 ^ 32) : selected s = z.toNat := by
  obtain ⟨n, rfl⟩ := Int.eq_ofNat_of_zero_le hlo
  rw [selected, leading_of_spelled h]
  exact (kept_iff (.inl rfl)).mpr (by rw [show min 32 63 = 32 from rfl]; omega)

/-- Of a line that fits the buffer: a number of an entry selects it, and everything else has to
come to a number that is too large. -/
theorem selectionRight_short_iff {l : Line} {first : Bool} (hne : l.chars ≠ [])
    (hshort : l.chars.length < 31) (hcount : options.length < 2 ^ 32) :
    SelectionRight options first l ↔
      option_typed options l ≠ none ∨ options.length < selected l.typed := by
  have hmod : options.length % 2 ^ 32 = options.length := Nat.mod_eq_of_lt hcount
  have hhead := head_typed_ne hne
  rw [SelectionRight, if_neg hne, pieces_short hshort]
  cases hl : option_typed options l with
  | none =>
    simp only [List.forall_mem_singleton, Dismissed, ne_eq, not_true, false_or, hmod]
    rw [or_iff_right hhead]
  | some o =>
    -- the number of an entry is read as it is
    refine iff_of_true ?_ (.inl nofun)
    rw [option_typed, if_neg hne] at hl
    obtain ⟨z, hz, hsel⟩ := Option.bind_eq_some_iff.mp hl
    split_ifs at hsel with hpos
    have hlt : z.toNat - 1 < options.length := (List.getElem?_eq_some_iff.mp hsel).1
    have hnumber := selected_of_spelled hz (by omega) (by omega)
    have hplace : ring_place options (selected l.typed) = z.toNat - 1 := by
      rw [ring_place, hnumber]
      have hwrap : (z.toNat + (2 ^ 32 - 1)) % 2 ^ 32 = z.toNat - 1 := by omega
      rw [hwrap, Nat.mod_eq_of_lt (by omega)]
    refine ⟨[], l.typed, rfl, nofun, hhead, ?_, by rw [hplace]; exact hsel⟩
    rw [hmod, hnumber]
    omega

/-- **When `ui_option_get` returns what was selected.** -/
theorem ui_option_get_right_iff (buf : CStr) (options : List CStr) (lines : List Line) :
    OptionRight options buf lines ↔
      options ≠ [] ∧ (options.length = 1 ∨ (lines = [] → NothingLeft options buf) ∧
        ∀ init l rest, lines = init ++ l :: rest →
          (∀ x ∈ init, option_typed options x = none) →
            SelectionRight options init.isEmpty l) := by
  -- With one option there is no question, and with none the ring has no first element.
  match options with
  | [] =>
    refine iff_of_false ?_ fun h => h.1 rfl
    rintro ⟨e, ⟨⟩⟩
  | [option] => exact iff_of_true rfl ⟨List.cons_ne_nil _ _, .inl rfl⟩
  | o₁ :: o₂ :: more =>
    have hne : o₁ :: o₂ :: more ≠ [] := List.cons_ne_nil _ _
    have hlength : (o₁ :: o₂ :: more).length ≠ 1 := by simp
    have hagain : ui_option_get buf (o₁ :: o₂ :: more) (typed lines) =
      ui_option_again (o₁ :: o₂ :: more) ((typed lines).length + 1) buf 1 (typed lines) := rfl
    rw [and_iff_right hne, or_iff_right hlength, OptionRight, hagain, ui_option_again_eq,
      answers_right_iff (by decide), nothingLeft_iff]
    · refine and_congr_right fun _ => ?_
      exact linesRight_iff (n := 31) (by decide)
        (I := fun first select => if first then select = 1 else
          option_count (o₁ :: o₂ :: more) < select)
        (R := fun first l => SelectionRight (o₁ :: o₂ :: more) first l)
        (fun first select l hsel => by
          by_cases hnil : l.chars = []
          · exact lineRight_of_nil hnil hne hsel
          · exact lineRight_of_ne_nil select hnil first)
        (fun first select select' l hsel hl href => by
          rw [if_neg Bool.false_ne_true]
          exact selection_of_refused href) true (s := 1) (by rw [if_pos rfl]) lines
    · rintro ⟨⟩
    · rintro o ⟨⟩

/-- A 0 is taken for the entry that `2 ^ 32 - 1` steps round the ring lead to. -/
theorem zero_taken : option_verdict [cstr "sda", cstr "sdb"] 1 [48, 10] = .take (cstr "sda") := by
  rw [option_taken_iff (fun h => absurd h (by decide))]
  decide

/-- Of two disks, a 0 selects one, an empty line behind a number that is too large selects none,
and of no disks at all nothing is selected but what is behind the head of the list. -/
theorem ui_option_get_not_right :
    ¬ OptionRight [cstr "sda", cstr "sdb"] [] [⟨cstr "0", by decide⟩, ⟨cstr "2", by decide⟩] ∧
    ¬ OptionRight [cstr "sda", cstr "sdb"] [] [⟨cstr "9", by decide⟩, ⟨[], by decide⟩] ∧
    ¬ OptionRight [] [] [] := by
  have hask (lines : List Line) : ui_option_get [] [cstr "sda", cstr "sdb"] (typed lines) =
      ask (option_verdict [cstr "sda", cstr "sdb"]) 1 (answers 31 [] (typed lines)) >>=
        fun r => .ret (r.1, r.2.flatten) := ui_option_again_eq [] 1 (typed lines)
  refine ⟨?_, ?_, ?_⟩
  · rw [OptionRight, hask]
    · have hanswers : answers 31 [] (typed [⟨cstr "0", by decide⟩, ⟨cstr "2", by decide⟩])
          = [[48, 10], [50, 10]] := by decide
      rw [hanswers, ask, zero_taken]
      decide
    · rintro ⟨⟩
    · rintro o ⟨⟩
  · rw [OptionRight]
    · decide
    · rintro ⟨⟩
    · rintro o ⟨⟩
  · rintro ⟨e, ⟨⟩⟩

end Menu

end Iago
