/-
Questions that are asked again until an answer will do.

What is typed is a list of lines, and the program does not see the lines: it calls `fgets`
with a buffer that may be too short for one of them, and gets its pieces (`pieces`). Every
piece is an answer to the question (`ask`): it is refused, and the question asked again, or
it is taken, or something goes wrong. What is taken of earlier answers is kept in a state.

Against this stands what a reader expects (`answered`): a line is an answer, and the first one
that is acceptable is the answer. `answers_right_iff` says when the two agree: exactly when
every line that comes before an answer, and the answer itself, is treated right on its own.
-/
import Iago.Prompts

set_option autoImplicit false

namespace Iago

/-! ## `fgets` and lines -/

section Pieces

variable {n : ℕ}

/-- What is stored and what is left is what was there. -/
theorem fgets_append (n : ℕ) (stdin : List UInt8) :
    (fgets n stdin).1 ++ (fgets n stdin).2 = stdin := by
  induction stdin generalizing n with
  | nil => cases n <;> rfl
  | cons c stdin ih =>
    cases n with
    | zero => rfl
    | succ n =>
      rw [fgets]
      split_ifs with hc
      · rw [hc]
        rfl
      · simp only [List.cons_append, ih n]

theorem fgets_ne_nil (c : UInt8) (stdin : List UInt8) : (fgets (n + 1) (c :: stdin)).1 ≠ [] := by
  rw [fgets]
  split_ifs
  · exact List.cons_ne_nil _ _
  · exact List.cons_ne_nil _ _

/-- What the calls of `fgets` with room for `n` characters store, in turn. -/
def fgets_all (n : ℕ) : ℕ → List UInt8 → List (List UInt8)
  | 0, _ => []
  | fuel + 1, stdin =>
    match fgets n stdin with
    | ([], _) => []
    | (c :: buf, stdin) => (c :: buf) :: fgets_all n fuel stdin

/-- All of them: there are no more than bytes. -/
def pieces (n : ℕ) (stdin : List UInt8) : List (List UInt8) := fgets_all n stdin.length stdin

/-- What a call leaves is shorter than what it found. -/
theorem fgets_rest_lt {c : UInt8} {buf stdin rest : List UInt8}
    (h : fgets n stdin = (c :: buf, rest)) : rest.length < stdin.length := by
  have happ := congrArg List.length (fgets_append n stdin)
  rw [h, List.length_append, List.length_cons] at happ
  simp only at happ
  omega

/-- More rounds than there are bytes read no more. -/
theorem fgets_all_fuel {fuel : ℕ} {stdin : List UInt8} (hfuel : stdin.length ≤ fuel) :
    fgets_all n fuel stdin = pieces n stdin := by
  -- each call that reads something shortens the input
  have hany : ∀ (fuel fuel' : ℕ) (stdin : List UInt8), stdin.length ≤ fuel →
      stdin.length ≤ fuel' → fgets_all n fuel stdin = fgets_all n fuel' stdin := by
    intro fuel
    induction fuel with
    | zero =>
      intro fuel' stdin h _
      rw [List.length_eq_zero_iff.mp (Nat.le_zero.mp h)]
      cases fuel' with
      | zero => rfl
      | succ fuel' => cases n <;> rfl
    | succ fuel ih =>
      intro fuel' stdin h h'
      cases fuel' with
      | zero =>
        rw [List.length_eq_zero_iff.mp (Nat.le_zero.mp h')]
        cases n <;> rfl
      | succ fuel' =>
        rw [fgets_all, fgets_all]
        rcases hline : fgets n stdin with ⟨_ | ⟨c, buf⟩, rest⟩
        · rfl
        · have hlt := fgets_rest_lt hline
          simp only [ih fuel' rest (by omega) (by omega)]
  exact hany _ _ _ hfuel (le_refl _)

/-- One call, then the others. -/
theorem pieces_eq (n : ℕ) (stdin : List UInt8) :
    pieces n stdin =
      match fgets n stdin with
      | ([], _) => []
      | (c :: buf, rest) => (c :: buf) :: pieces n rest := by
  cases stdin with
  | nil => cases n <;> rfl
  | cons d stdin =>
    rw [pieces, List.length_cons, fgets_all]
    rcases hline : fgets n (d :: stdin) with ⟨_ | ⟨c, buf⟩, rest⟩
    · rfl
    · have hlt := fgets_rest_lt hline
      rw [List.length_cons] at hlt
      simp only [fgets_all_fuel (Nat.lt_succ_iff.mp hlt)]

theorem pieces_nil (n : ℕ) : pieces n [] = [] := rfl

/-- No piece is empty. -/
theorem ne_nil_of_mem_pieces {p stdin : List UInt8} (h : p ∈ pieces n stdin) : p ≠ [] := by
  induction hlen : stdin.length using Nat.strong_induction_on generalizing stdin with
  | _ len ih =>
    rw [pieces_eq] at h
    rcases hline : fgets n stdin with ⟨_ | ⟨c, buf⟩, rest⟩
    · rw [hline] at h
      exact absurd h List.not_mem_nil
    · rw [hline] at h
      rcases List.mem_cons.mp h with rfl | h
      · exact List.cons_ne_nil _ _
      · exact ih _ (hlen ▸ fgets_rest_lt hline) h rfl

/-- Nothing is lost. -/
theorem flatten_pieces (hn : 0 < n) (stdin : List UInt8) : (pieces n stdin).flatten = stdin := by
  obtain ⟨n, rfl⟩ : ∃ m, n = m + 1 := ⟨n - 1, by omega⟩
  induction hlen : stdin.length using Nat.strong_induction_on generalizing stdin with
  | _ len ih =>
    cases stdin with
    | nil => rfl
    | cons d stdin =>
      have hne := fgets_ne_nil (n := n) d stdin
      have happ := fgets_append (n + 1) (d :: stdin)
      rw [pieces_eq]
      rcases hline : fgets (n + 1) (d :: stdin) with ⟨_ | ⟨c, buf⟩, rest⟩
      · rw [hline] at hne
        exact absurd rfl hne
      · rw [hline] at happ
        simp only [List.flatten_cons]
        rw [ih _ (hlen ▸ fgets_rest_lt hline) rest rfl, ← happ]

/-- A line that fits is read whole. -/
theorem fgets_line {line rest : List UInt8} (h10 : 10 ∉ line) (hfits : line.length < n) :
    fgets n (line ++ 10 :: rest) = (line ++ [10], rest) := by
  induction line generalizing n with
  | nil =>
    cases n with
    | zero => exact absurd hfits (Nat.not_lt_zero 0)
    | succ n => rfl
  | cons c line ih =>
    cases n with
    | zero => exact absurd hfits (Nat.not_lt_zero _)
    | succ n =>
      have hc : c ≠ 10 := fun h => h10 (h ▸ List.mem_cons_self)
      have hline : 10 ∉ line := fun h => h10 (List.mem_cons_of_mem c h)
      rw [List.cons_append, fgets, if_neg hc, ih hline (Nat.lt_of_succ_lt_succ hfits)]
      rfl

/-- Of a line that does not, as much as fits. -/
theorem fgets_long {line rest : List UInt8} (h10 : 10 ∉ line) (hlong : n ≤ line.length) :
    fgets n (line ++ rest) = (line.take n, line.drop n ++ rest) := by
  induction line generalizing n with
  | nil =>
    rw [Nat.le_zero.mp hlong]
    cases rest <;> rfl
  | cons c line ih =>
    cases n with
    | zero => rfl
    | succ n =>
      have hc : c ≠ 10 := fun h => h10 (h ▸ List.mem_cons_self)
      have hline : 10 ∉ line := fun h => h10 (List.mem_cons_of_mem c h)
      rw [List.cons_append, fgets, if_neg hc, ih hline (Nat.le_of_succ_le_succ hlong)]
      rfl

/-- A line that fits is read in one piece. -/
theorem pieces_line_of_lt {chars : List UInt8} (hends : 10 ∉ chars) (hfits : chars.length < n)
    (rest : List UInt8) : pieces n (chars ++ 10 :: rest) = (chars ++ [10]) :: pieces n rest := by
  rw [pieces_eq, fgets_line hends hfits]
  cases chars with
  | nil => rfl
  | cons c chars => rfl

theorem pieces_line_of_le (hn : 0 < n) {chars : List UInt8} (hends : 10 ∉ chars)
    (hlong : n ≤ chars.length) (rest : List UInt8) :
    pieces n (chars ++ rest) = chars.take n :: pieces n (chars.drop n ++ rest) := by
  rw [pieces_eq, fgets_long hends hlong]
  cases htake : chars.take n with
  | nil =>
    have hlength := congrArg List.length htake
    rw [List.length_take, List.length_nil] at hlength
    omega
  | cons c buf => rfl

/-- The pieces of a line are pieces of it alone: a newline ends a piece. -/
theorem pieces_line (hn : 0 < n) {chars : List UInt8} (hends : 10 ∉ chars) (rest : List UInt8) :
    pieces n (chars ++ 10 :: rest) = pieces n (chars ++ [10]) ++ pieces n rest := by
  induction hlen : chars.length using Nat.strong_induction_on generalizing chars with
  | _ len ih =>
    by_cases hfits : chars.length < n
    · rw [pieces_line_of_lt hends hfits, pieces_line_of_lt hends hfits, pieces_nil]
      rfl
    · have hlong := Nat.le_of_not_lt hfits
      have hdrop : 10 ∉ chars.drop n := fun h => hends (List.mem_of_mem_drop h)
      rw [pieces_line_of_le hn hends hlong, pieces_line_of_le hn hends hlong,
        ih (chars.drop n).length (by rw [List.length_drop]; omega) hdrop rfl, List.cons_append]

end Pieces

/-! ## The question -/

/-- What an answer comes to. -/
inductive Verdict (σ α : Type) where
  | again (s : σ)
  | take (a : α)
  | fault
  deriving DecidableEq

section Ask

variable {σ α : Type} {judge : σ → List UInt8 → Verdict σ α} {s s' : σ}
  {ps qs : List (List UInt8)} {a : α}

/-- The question asked until a piece is taken, with the pieces that are left. -/
def ask (judge : σ → List UInt8 → Verdict σ α) :
    σ → List (List UInt8) → Exec Die (α × List (List UInt8))
  | _, [] => .hang
  | s, p :: ps =>
    match judge s p with
    | .again s => ask judge s ps
    | .take a => .ret (a, ps)
    | .fault => .fault

/-- The state behind pieces all of which are refused. -/
def refused (judge : σ → List UInt8 → Verdict σ α) : σ → List (List UInt8) → Option σ
  | s, [] => some s
  | s, p :: ps =>
    match judge s p with
    | .again s => refused judge s ps
    | _ => none

/-- What is taken for an answer: the pieces of what is typed, or what is in the buffer if nothing
is. -/
def answers (n : ℕ) (buf : CStr) (stdin : List UInt8) : List (List UInt8) :=
  if stdin = [] then [buf] else pieces n stdin

section Loop

variable {n : ℕ} {f : ℕ → CStr → σ → List UInt8 → Exec Die (α × List UInt8)}
  (hzero : ∀ buf s stdin, f 0 buf s stdin = .hang)
  (hsucc : ∀ fuel buf s stdin, f (fuel + 1) buf s stdin =
    match judge s (fgets_into buf n stdin).1 with
    | .again s => f fuel (fgets_into buf n stdin).1 s (fgets_into buf n stdin).2
    | .take a => .ret (a, (fgets_into buf n stdin).2)
    | .fault => .fault)
  (hstays : ∀ s p s', judge s p = .again s' → judge s' p = .again s')
include hzero hsucc

/-- At the end of the input an answer that has been refused is refused for ever. -/
theorem loop_hangs {buf : CStr} {s : σ} (h : judge s buf = .again s) (fuel : ℕ) :
    f fuel buf s [] = .hang := by
  have hfgets : fgets_into buf n [] = (buf, []) := by
    rw [fgets_into]
    cases n <;> rfl
  induction fuel with
  | zero => exact hzero buf s []
  | succ fuel ih =>
    rw [hsucc, hfgets]
    simp only [h]
    exact ih

include hstays

/-- A loop that has been given an answer before, or is given one now. -/
theorem loop_eq_ask_pieces (hn : 0 < n) {fuel : ℕ} {stdin : List UInt8}
    (hfuel : stdin.length < fuel) {buf : CStr} {s : σ} (hbuf : stdin = [] → judge s buf = .again s) :
    f fuel buf s stdin = ask judge s (pieces n stdin) >>= fun r => .ret (r.1, r.2.flatten) := by
  induction fuel generalizing stdin buf s with
  | zero => exact absurd hfuel (Nat.not_lt_zero _)
  | succ fuel ih =>
    cases stdin with
    | nil =>
      rw [loop_hangs hzero hsucc (hbuf rfl)]
      rfl
    | cons d stdin =>
      -- a round is a piece, and what it leaves is shorter
      rw [hsucc, pieces_eq, fgets_into]
      rcases hline : fgets n (d :: stdin) with ⟨_ | ⟨c, line⟩, rest⟩
      · obtain ⟨n, rfl⟩ := Nat.exists_eq_succ_of_ne_zero (Nat.ne_of_gt hn)
        exact absurd (congrArg Prod.fst hline) (fgets_ne_nil d stdin)
      · have hlt := fgets_rest_lt hline
        simp only [ask]
        cases hjudge : judge s (c :: line) with
        | again s => exact ih (by omega) fun _ => hstays _ _ _ hjudge
        | take a => simp only [Exec.ret_bind, flatten_pieces hn]
        | fault => rfl

/-- A loop over what is typed that calls `fgets` in every round is such a question. -/
theorem loop_eq_ask (hn : 0 < n) (buf : CStr) (s : σ) (stdin : List UInt8) :
    f (stdin.length + 1) buf s stdin =
      ask judge s (answers n buf stdin) >>= fun r => .ret (r.1, r.2.flatten) := by
  by_cases hend : stdin = []
  · have hfgets : fgets_into buf n [] = (buf, []) := by
      rw [fgets_into]
      cases n <;> rfl
    rw [hend, answers, if_pos rfl, List.length_nil, hsucc, hfgets, ask]
    simp only
    cases judge s buf with
    | again s' => exact hzero buf s' []
    | take a => rfl
    | fault => rfl
  · rw [answers, if_neg hend]
    exact loop_eq_ask_pieces hzero hsucc hstays hn (Nat.lt_succ_self _) fun h => absurd h hend

end Loop

/-- Behind pieces that are refused the question goes on. -/
theorem ask_append_of_refused (h : refused judge s ps = some s') :
    ask judge s (ps ++ qs) = ask judge s' qs := by
  induction ps generalizing s with
  | nil =>
    rw [refused, Option.some.injEq] at h
    rw [h, List.nil_append]
  | cons p ps ih =>
    rw [refused] at h
    rw [List.cons_append, ask]
    cases hp : judge s p with
    | again s =>
      rw [hp] at h
      exact ih h
    | take a =>
      rw [hp] at h
      cases h
    | fault =>
      rw [hp] at h
      cases h

/-- If a piece is not refused, what follows is not looked at. -/
theorem ask_append_of_not_refused (h : refused judge s ps = none) :
    ask judge s (ps ++ qs) = ask judge s ps >>= fun r => .ret (r.1, r.2 ++ qs) := by
  induction ps generalizing s with
  | nil => cases h
  | cons p ps ih =>
    rw [refused] at h
    rw [List.cons_append, ask, ask]
    cases hp : judge s p with
    | again s =>
      rw [hp] at h
      exact ih h
    | take a => rfl
    | fault => rfl

theorem refused_append : refused judge s (ps ++ qs) =
    (refused judge s ps).bind fun s => refused judge s qs := by
  induction ps generalizing s with
  | nil => rfl
  | cons p ps ih =>
    rw [List.cons_append, refused, refused]
    cases judge s p with
    | again s => exact ih
    | take a => rfl
    | fault => rfl

/-- The question is never answered exactly if everything is refused. -/
theorem ask_eq_hang_iff : ask judge s ps = .hang ↔ ∃ s', refused judge s ps = some s' := by
  induction ps generalizing s with
  | nil => exact iff_of_true rfl ⟨s, rfl⟩
  | cons p ps ih =>
    rw [ask, refused]
    cases judge s p with
    | again s => exact ih
    | take a => simp
    | fault => simp

/-- The last piece is the answer exactly if those before it are refused. -/
theorem ask_eq_ret_nil_iff : ask judge s ps = .ret (a, []) ↔
    ∃ init p s', ps = init ++ [p] ∧ refused judge s init = some s' ∧ judge s' p = .take a := by
  constructor
  · intro h
    induction ps generalizing s with
    | nil => cases h
    | cons p ps ih =>
      rw [ask] at h
      cases hp : judge s p with
      | again s₁ =>
        rw [hp] at h
        obtain ⟨init, q, s', rfl, hinit, hq⟩ := ih h
        refine ⟨p :: init, q, s', rfl, ?_, hq⟩
        rw [refused, hp]
        exact hinit
      | take b =>
        rw [hp] at h
        simp only [Exec.ret.injEq, Prod.mk.injEq] at h
        obtain ⟨rfl, rfl⟩ := h
        exact ⟨[], p, s, rfl, rfl, hp⟩
      | fault =>
        rw [hp] at h
        cases h
  · rintro ⟨init, p, s', rfl, hinit, hp⟩
    rw [ask_append_of_refused hinit, ask, hp]

/-- Something is read for an answer. -/
theorem ask_rest (h : ask judge s ps = .ret (a, qs)) : ∃ p front, ps = p :: (front ++ qs) := by
  induction ps generalizing s with
  | nil => cases h
  | cons p ps ih =>
    rw [ask] at h
    cases hp : judge s p with
    | again s =>
      rw [hp] at h
      obtain ⟨q, front, rfl⟩ := ih h
      exact ⟨p, q :: front, rfl⟩
    | take a =>
      rw [hp] at h
      simp only [Exec.ret.injEq, Prod.mk.injEq] at h
      exact ⟨p, [], by rw [h.2, List.nil_append]⟩
    | fault =>
      rw [hp] at h
      cases h

end Ask

/-! ## The answer expected -/

/-- A line as it is typed, without the newline behind it. -/
structure Line where
  chars : List UInt8
  ends : 10 ∉ chars

/-- A line with its newline. -/
def Line.typed (l : Line) : List UInt8 := l.chars ++ [10]

/-- What has been typed when the lines have been. -/
def typed (lines : List Line) : List UInt8 := lines.flatMap Line.typed

section Lines

variable {σ α : Type} (accept : Line → Option α)

/-- The first line that is acceptable is the answer. -/
def answered : List Line → Option (α × List Line)
  | [] => none
  | l :: rest =>
    match accept l with
    | some a => some (a, rest)
    | none => answered rest

/-- The same as the outcome of a program, which waits for ever if there is no such line. -/
def expected (lines : List Line) : Exec Die (α × List UInt8) :=
  match answered accept lines with
  | none => .hang
  | some (a, rest) => .ret (a, typed rest)

/-- A line is treated right on its own: it is the answer if it is acceptable, and refused if it
is not. -/
def LineRight (judge : σ → List UInt8 → Verdict σ α) (n : ℕ) (s : σ) (l : Line) : Prop :=
  ask judge s (pieces n l.typed) =
    match accept l with
    | some a => .ret (a, [])
    | none => .hang

variable {accept} {judge : σ → List UInt8 → Verdict σ α} {n : ℕ}

theorem typed_cons (l : Line) (lines : List Line) : typed (l :: lines) = l.typed ++ typed lines :=
  rfl

theorem pieces_typed_cons (hn : 0 < n) (l : Line) (lines : List Line) :
    pieces n (typed (l :: lines)) = pieces n l.typed ++ pieces n (typed lines) := by
  rw [typed_cons, Line.typed, List.append_assoc]
  exact pieces_line hn l.ends (typed lines)

/-- A line that fits is one piece. -/
theorem pieces_short {l : Line} (hshort : l.chars.length < n) : pieces n l.typed = [l.typed] := by
  rw [Line.typed, pieces_line_of_lt l.ends hshort, pieces_nil]

/-- An answer expected leaves less than was typed. -/
theorem length_of_answered {lines rest : List Line} {a : α}
    (h : answered accept lines = some (a, rest)) : (typed rest).length < (typed lines).length := by
  induction lines with
  | nil => cases h
  | cons l lines ih =>
    rw [answered] at h
    rw [typed_cons, Line.typed, List.length_append, List.length_append, List.length_singleton]
    cases hl : accept l with
    | some b =>
      rw [hl] at h
      simp only [Option.some.injEq, Prod.mk.injEq] at h
      rw [h.2]
      omega
    | none =>
      rw [hl] at h
      have hlt := ih h
      omega

/-- And so does an answer taken. -/
theorem length_of_ask {s : σ} {stdin : List UInt8} {a : α} {qs : List (List UInt8)} (hn : 0 < n)
    (h : ask judge s (pieces n stdin) = .ret (a, qs)) : qs.flatten.length < stdin.length := by
  obtain ⟨p, front, hps⟩ := ask_rest h
  have hp : p ∈ pieces n stdin := hps ▸ List.mem_cons_self
  have hlength := List.length_pos_iff.mpr (ne_nil_of_mem_pieces hp)
  rw [← flatten_pieces hn stdin, hps]
  simp only [List.flatten_cons, List.flatten_append, List.length_append]
  omega

/-- Behind a line that is refused the question is asked about the others. -/
theorem ask_typed_of_refused {s s' : σ} {l : Line} (hn : 0 < n)
    (h : refused judge s (pieces n l.typed) = some s') (lines : List Line) :
    ask judge s (pieces n (typed (l :: lines))) = ask judge s' (pieces n (typed lines)) := by
  rw [pieces_typed_cons hn, ask_append_of_refused h]

/-- A line that is not refused leaves all of the others. -/
theorem ask_typed_of_not_refused {s : σ} {l : Line} {lines : List Line} {a : α}
    {stdin : List UInt8} (hn : 0 < n) (h : refused judge s (pieces n l.typed) = none)
    (hask : (ask judge s (pieces n (typed (l :: lines))) >>=
      fun r => (.ret (r.1, r.2.flatten) : Exec Die (α × List UInt8))) = .ret (a, stdin)) :
    ∃ ps, ask judge s (pieces n l.typed) = .ret (a, ps) ∧ stdin = ps.flatten ++ typed lines := by
  rw [pieces_typed_cons hn, ask_append_of_not_refused h] at hask
  obtain ⟨⟨b, ps⟩, hps, hret⟩ := Exec.bind_eq_ret.mp hask
  obtain ⟨⟨b', ps'⟩, hps', hret'⟩ := Exec.bind_eq_ret.mp hps
  simp only [Exec.ret.injEq, Prod.mk.injEq] at hret hret'
  obtain ⟨rfl, rfl⟩ := hret'
  obtain ⟨rfl, rfl⟩ := hret
  exact ⟨ps', hps', by rw [List.flatten_append, flatten_pieces hn]⟩

/-- A line that is acceptable is the answer exactly if it is treated right. -/
theorem ask_accepted_iff {s : σ} {l : Line} {a : α} (hn : 0 < n) (hl : accept l = some a)
    (lines : List Line) :
    (ask judge s (pieces n (typed (l :: lines))) >>=
        fun r => (.ret (r.1, r.2.flatten) : Exec Die (α × List UInt8))) = .ret (a, typed lines) ↔
      LineRight accept judge n s l := by
  rw [LineRight, hl]
  cases href : refused judge s (pieces n l.typed) with
  | some s' =>
    -- all of it is refused, and a later answer leaves less
    rw [ask_typed_of_refused hn href, ask_eq_hang_iff.mpr ⟨s', href⟩]
    refine iff_of_false ?_ nofun
    intro h
    obtain ⟨⟨b, ps⟩, hps, hret⟩ := Exec.bind_eq_ret.mp h
    simp only [Exec.ret.injEq, Prod.mk.injEq] at hret
    have hlt := length_of_ask hn hps
    rw [hret.2] at hlt
    exact lt_irrefl _ hlt
  | none =>
    constructor
    · intro h
      obtain ⟨ps, hps, hstdin⟩ := ask_typed_of_not_refused hn href h
      obtain ⟨p, front, hall⟩ := ask_rest hps
      cases ps with
      | nil => exact hps
      | cons q ps =>
        have hq : q ∈ pieces n l.typed := by
          rw [hall]
          exact List.mem_cons_of_mem p (List.mem_append_right front List.mem_cons_self)
        have hlength := congrArg List.length hstdin
        have hpos := List.length_pos_iff.mpr (ne_nil_of_mem_pieces hq)
        rw [List.flatten_cons, List.length_append, List.length_append] at hlength
        omega
    · intro hright
      rw [pieces_typed_cons hn, ask_append_of_not_refused href, hright]
      simp only [Exec.ret_bind, List.nil_append, flatten_pieces hn]

/-- What only wraps a result waits where the rest does. -/
theorem bind_ret_eq_hang {β γ : Type} {x : Exec Die β} {f : β → γ}
    (h : (x >>= fun r => (.ret (f r) : Exec Die γ)) = .hang) : x = .hang := by
  cases x with
  | ret b => cases h
  | die e => cases h
  | fault => cases h
  | hang => rfl

/-- An answer that is found in a line that is not acceptable is found too early. -/
theorem ask_ne_expected {s : σ} {l : Line} (hn : 0 < n)
    (href : refused judge s (pieces n l.typed) = none) (lines : List Line) :
    (ask judge s (pieces n (typed (l :: lines))) >>= fun r => .ret (r.1, r.2.flatten))
      ≠ expected accept lines := by
  intro h
  -- nothing expected: the loop would have to read on, and it does not
  cases hans : answered accept lines with
  | none =>
    have hhang : ask judge s (pieces n (typed (l :: lines))) = .hang := by
      rw [expected, hans] at h
      exact bind_ret_eq_hang h
    rw [ask_eq_hang_iff, pieces_typed_cons hn, refused_append, href] at hhang
    obtain ⟨_, ⟨⟩⟩ := hhang
  | some r =>
    -- an answer from a later line: this one would have to be read whole
    have hlt := length_of_answered hans
    rw [expected, hans] at h
    obtain ⟨ps, -, hstdin⟩ := ask_typed_of_not_refused hn href h
    have hlength := congrArg List.length hstdin
    rw [List.length_append] at hlength
    omega

variable (accept judge n) in
/-- Every line before the first that is acceptable, and that one, is treated right on its own,
in the state the lines before it leave. -/
def LinesRight (s : σ) (lines : List Line) : Prop :=
  ∀ init l rest, lines = init ++ l :: rest → (∀ x ∈ init, accept x = none) →
    ∃ s', refused judge s (pieces n (typed init)) = some s' ∧ LineRight accept judge n s' l

/-- The lines that are asked for are the first, and those behind it if it is not acceptable. -/
theorem reached_cons {Q : List Line → Line → Prop} {l : Line} {lines : List Line} :
    (∀ init x rest, l :: lines = init ++ x :: rest → (∀ y ∈ init, accept y = none) → Q init x) ↔
      Q [] l ∧ (accept l = none → ∀ init x rest, lines = init ++ x :: rest →
        (∀ y ∈ init, accept y = none) → Q (l :: init) x) := by
  constructor
  · intro h
    refine ⟨h [] l lines rfl nofun, fun hl init x rest hsplit hnone => ?_⟩
    exact h (l :: init) x rest (by rw [hsplit, List.cons_append])
      (List.forall_mem_cons.mpr ⟨hl, hnone⟩)
  · rintro ⟨hfirst, hlater⟩ init x rest hsplit hnone
    cases init with
    | nil =>
      rw [List.nil_append, List.cons.injEq] at hsplit
      rw [← hsplit.1]
      exact hfirst
    | cons y init =>
      rw [List.cons_append, List.cons.injEq] at hsplit
      rw [← hsplit.1] at hnone ⊢
      obtain ⟨hl, hnone⟩ := List.forall_mem_cons.mp hnone
      exact hlater hl init x rest hsplit.2 hnone

/-- Of no lines none is asked for. -/
theorem reached_nil {Q : List Line → Line → Prop} :
    ∀ init x rest, [] = init ++ x :: rest → (∀ y ∈ init, accept y = none) → Q init x := by
  intro init x rest hsplit
  exact absurd hsplit.symm (List.append_ne_nil_of_right_ne_nil _ (List.cons_ne_nil _ _))

/-- A line that is treated right and not acceptable is refused. -/
theorem LineRight.refused {s : σ} {l : Line} (h : LineRight accept judge n s l)
    (hl : accept l = none) : ∃ s₁, refused judge s (pieces n l.typed) = some s₁ := by
  rw [LineRight, hl] at h
  exact ask_eq_hang_iff.mp h

/-- The first line, and the others in the state it leaves. -/
theorem linesRight_cons (hn : 0 < n) {s : σ} {l : Line} {lines : List Line} :
    LinesRight accept judge n s (l :: lines) ↔
      LineRight accept judge n s l ∧ (accept l = none → ∀ s₁,
        refused judge s (pieces n l.typed) = some s₁ → LinesRight accept judge n s₁ lines) := by
  have hfirst : (∃ s', refused judge s (pieces n (typed [])) = some s' ∧
      LineRight accept judge n s' l) ↔ LineRight accept judge n s l := by
    rw [show typed [] = [] from rfl, pieces_nil]
    constructor
    · rintro ⟨s', hs', h⟩
      rw [Iago.refused, Option.some.injEq] at hs'
      rwa [hs']
    · exact fun h => ⟨s, rfl, h⟩
  have hstep (init : List Line) : refused judge s (pieces n (typed (l :: init))) =
      (refused judge s (pieces n l.typed)).bind
        fun s₁ => refused judge s₁ (pieces n (typed init)) := by
    rw [pieces_typed_cons hn, refused_append]
  rw [LinesRight, reached_cons, hfirst]
  refine and_congr_right fun hline => imp_congr_right fun hl => ?_
  -- the state behind a line is the one it leaves
  obtain ⟨s₁, href⟩ := hline.refused hl
  simp only [hstep, href, Option.bind_some, Option.some.injEq, forall_eq']
  rfl

/-- **When the lines get the answer expected.** The induction is on the lines: an acceptable one
ends the question, and another one leaves the rest to be read in the state behind it. -/
theorem ask_lines_right_iff (hn : 0 < n) (s : σ) (lines : List Line) :
    (ask judge s (pieces n (typed lines)) >>= fun r => .ret (r.1, r.2.flatten))
        = expected accept lines ↔ LinesRight accept judge n s lines := by
  induction lines generalizing s with
  | nil => exact iff_of_true rfl reached_nil
  | cons l lines ih =>
    rw [linesRight_cons hn]
    cases hl : accept l with
    | some a =>
      have hexp : expected accept (l :: lines) = .ret (a, typed lines) := by
        simp only [expected, answered, hl]
      rw [hexp, ask_accepted_iff hn hl, and_iff_left nofun]
    | none =>
      have hexp : expected accept (l :: lines) = expected accept lines := by
        simp only [expected, answered, hl]
      rw [hexp]
      cases href : refused judge s (pieces n l.typed) with
      | some s₁ =>
        have hline : LineRight accept judge n s l := by
          rw [LineRight, hl]
          exact ask_eq_hang_iff.mpr ⟨s₁, href⟩
        rw [ask_typed_of_refused hn href, ih s₁, and_iff_right hline]
        simp only [Option.some.injEq, forall_eq', forall_const]
      | none =>
        -- a line that is neither refused nor acceptable is wrong, and so is all behind it
        refine iff_of_false (ask_ne_expected hn href lines) fun h => ?_
        obtain ⟨s₁, hs₁⟩ := h.1.refused hl
        rw [href] at hs₁
        cases hs₁

/-- **When a question gets the answer expected**: also what is in the buffer must not be taken for
one if no line is typed. -/
theorem answers_right_iff (hn : 0 < n) (buf : CStr) (s : σ) (lines : List Line) :
    (ask judge s (answers n buf (typed lines)) >>= fun r => .ret (r.1, r.2.flatten))
        = expected accept lines ↔
      (lines = [] → ∃ s', judge s buf = .again s') ∧ LinesRight accept judge n s lines := by
  cases lines with
  | nil =>
    have hnone : LinesRight accept judge n s [] := reached_nil
    have hanswers : answers n buf (typed []) = [buf] := if_pos rfl
    have hexp : expected accept [] = .hang := rfl
    rw [and_iff_left hnone, hanswers, hexp, ask]
    cases judge s buf with
    | again s' => exact iff_of_true rfl fun _ => ⟨s', rfl⟩
    | take a => exact iff_of_false nofun fun h => by obtain ⟨_, h⟩ := h rfl; cases h
    | fault => exact iff_of_false nofun fun h => by obtain ⟨_, h⟩ := h rfl; cases h
  | cons l lines =>
    have hne : typed (l :: lines) ≠ [] := by
      rw [typed_cons, Line.typed, List.append_assoc]
      exact List.append_ne_nil_of_right_ne_nil _ (List.cons_ne_nil _ _)
    rw [and_iff_right fun h => absurd h (List.cons_ne_nil _ _), answers, if_neg hne]
    exact ask_lines_right_iff hn s _

/-- Where all that matters of the state is whether a line has been refused before, so does
whether the lines are treated right. The invariant `I` says what the state is like. -/
theorem linesRight_iff {I : Bool → σ → Prop} {R : Bool → Line → Prop} (hn : 0 < n)
    (hright : ∀ first s l, I first s → (LineRight accept judge n s l ↔ R first l))
    (hinv : ∀ first s s' l, I first s → accept l = none →
      refused judge s (pieces n l.typed) = some s' → I false s')
    (first : Bool) {s : σ} (hs : I first s) (lines : List Line) :
    LinesRight accept judge n s lines ↔
      ∀ init l rest, lines = init ++ l :: rest → (∀ x ∈ init, accept x = none) →
        R (first && init.isEmpty) l := by
  induction lines generalizing first s with
  | nil => exact iff_of_true reached_nil reached_nil
  | cons l lines ih =>
    rw [linesRight_cons hn, reached_cons, List.isEmpty_nil, Bool.and_true, hright first s l hs]
    refine and_congr_right fun hline => imp_congr_right fun hl => ?_
    -- the line has been refused, so the others are not the first
    obtain ⟨s₁, href⟩ := ((hright first s l hs).mpr hline).refused hl
    simp only [href, Option.some.injEq, forall_eq', List.isEmpty_cons, Bool.and_false]
    rw [ih false (hinv first s s₁ l hs hl href)]
    simp only [Bool.false_and]

end Lines

end Iago
