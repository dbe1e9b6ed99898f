/-
`getopt` as POSIX has it, with what it remembers.

There is one scanner in a process. It keeps the index of the argument it is at and, inside a
group of options, how far it is in the group; nothing starts it again when somebody else's
arguments come. So what a call finds depends on the calls before it, and `getopt` is a
function of that state as well as of the arguments.

Every option that is found uses up something of the arguments (`getopt_left`), which is why the
loop around `getopt` ends. It ends where it stands if the argument there is an operand
(`getopt_loop_operand`).
-/
import Iago.Exec
import Mathlib.Algebra.GroupWithZero.Nat
import Mathlib.Data.List.Basic

set_option autoImplicit false

namespace Iago

/-! ## One call -/

/-- What is kept from one call to the next: `optind`, and what is left of a group of
options. -/
structure Getopt where
  optind : ℕ
  place : List UInt8
  deriving DecidableEq, Repr

/-- At the start of the process. -/
def Getopt.initial : Getopt := ⟨1, []⟩

/-- What is found: an option with `optarg`, which is empty for one without an argument, or the
`?` for an option that there is not or that misses its argument. -/
inductive OptChar where
  | opt (c : UInt8) (optarg : List UInt8)
  | question
  deriving DecidableEq, Repr

/-- Whether `c` is an option, and if so whether a colon behind it says that it takes an
argument. -/
def takes_argument (opts : List UInt8) (c : UInt8) : Option Bool :=
  if c = 58 then none
  else
    match opts.dropWhile (· ≠ c) with
    | [] => none
    | _ :: rest => some (rest.head? = some 58)

/-- At the character `c` of argument `optind`, with `rest` behind it. -/
def getopt_at (argv : List (List UInt8)) (opts : List UInt8) (optind : ℕ) (c : UInt8)
    (rest : List UInt8) : OptChar × Getopt :=
  let next : Getopt := if rest = [] then ⟨optind + 1, []⟩ else ⟨optind, rest⟩
  match takes_argument opts c with
  | none => (.question, next)
  | some false => (.opt c [], next)
  | some true =>
    if rest ≠ [] then (.opt c rest, ⟨optind + 1, []⟩)
    else
      match argv[optind + 1]? with
      | some optarg => (.opt c optarg, ⟨optind + 2, []⟩)
      | none => (.question, ⟨optind + 2, []⟩)

/-- `getopt`, with `none` for -1. -/
def getopt (argv : List (List UInt8)) (opts : List UInt8) (g : Getopt) : Option OptChar × Getopt :=
  match g.place with
  | c :: rest => (getopt_at argv opts g.optind c rest).map some id
  | [] =>
    match argv[g.optind]? with
    | some (45 :: c :: rest) =>
      if c = 45 ∧ rest = [] then (none, ⟨g.optind + 1, []⟩)
      else (getopt_at argv opts g.optind c rest).map some id
    | _ => (none, g)

/-! ## The loop ends -/

section Loop

variable {ε σ : Type} {argv : List (List UInt8)} {opts : List UInt8} {g g' : Getopt}

/-- The characters of the arguments from index `i` on. -/
def chars_from (argv : List (List UInt8)) (i : ℕ) : ℕ := ((argv.drop i).map List.length).sum

theorem chars_from_succ_le (argv : List (List UInt8)) (i : ℕ) :
    chars_from argv (i + 1) ≤ chars_from argv i := by
  rw [chars_from, chars_from]
  by_cases hi : i < argv.length
  · rw [List.drop_eq_getElem_cons hi, List.map_cons, List.sum_cons]
    exact Nat.le_add_left _ _
  · have hnil : argv.drop i = [] := List.drop_eq_nil_of_le (Nat.le_of_not_lt hi)
    exact Nat.le_of_eq (by rw [hnil, List.drop_eq_nil_of_le (by omega)])

theorem chars_from_of_getElem {i : ℕ} {a : List UInt8} (h : argv[i]? = some a) :
    chars_from argv i = a.length + chars_from argv (i + 1) := by
  obtain ⟨hi, rfl⟩ := List.getElem?_eq_some_iff.mp h
  rw [chars_from, List.drop_eq_getElem_cons hi, List.map_cons, List.sum_cons, chars_from]

/-- The characters that are still to be looked at. -/
def Getopt.left (argv : List (List UInt8)) (g : Getopt) : ℕ :=
  if g.place = [] then chars_from argv g.optind
  else g.place.length + chars_from argv (g.optind + 1)

/-- Behind a character there is at most what is behind it. -/
theorem getopt_at_left (argv : List (List UInt8)) (opts : List UInt8) (optind : ℕ) (c : UInt8)
    (rest : List UInt8) :
    (getopt_at argv opts optind c rest).2.left argv
      ≤ rest.length + chars_from argv (optind + 1) := by
  have hskip : (⟨optind + 1, []⟩ : Getopt).left argv ≤ rest.length + chars_from argv (optind + 1) :=
    Nat.le_add_left _ _
  have hskip₂ : (⟨optind + 2, []⟩ : Getopt).left argv
      ≤ rest.length + chars_from argv (optind + 1) :=
    Nat.le_trans (chars_from_succ_le argv (optind + 1)) hskip
  have hnext : (if rest = [] then ⟨optind + 1, []⟩ else ⟨optind, rest⟩ : Getopt).left argv
      ≤ rest.length + chars_from argv (optind + 1) := by
    split_ifs with hrest
    · exact hskip
    · exact Nat.le_of_eq (if_neg hrest)
  rw [getopt_at]
  -- An argument uses up the rest of its word, or the next word as well.
  cases takes_argument opts c with
  | none => exact hnext
  | some takes =>
    cases takes with
    | false => exact hnext
    | true =>
      simp only
      split_ifs with hrest
      · exact hskip
      · cases argv[optind + 1]? with
        | none => exact hskip₂
        | some optarg => exact hskip₂

/-- What is found uses up a character at least. -/
theorem getopt_left {ch : OptChar} (h : getopt argv opts g = (some ch, g')) :
    g'.left argv < g.left argv := by
  rw [getopt] at h
  cases hplace : g.place with
  | cons c rest =>
    rw [hplace] at h
    have hg' : g' = (getopt_at argv opts g.optind c rest).2 := (congrArg Prod.snd h).symm
    have hle := getopt_at_left argv opts g.optind c rest
    rw [hg', Getopt.left.eq_def argv g, hplace, if_neg (List.cons_ne_nil c rest), List.length_cons]
    omega
  | nil =>
    rw [hplace] at h
    simp only at h
    split at h
    · next c rest harg =>
      split_ifs at h
      · cases h
      have hg' : g' = (getopt_at argv opts g.optind c rest).2 := (congrArg Prod.snd h).symm
      have hle := getopt_at_left argv opts g.optind c rest
      rw [hg', Getopt.left.eq_def argv g, hplace, if_pos rfl, chars_from_of_getElem harg,
        List.length_cons, List.length_cons]
      omega
    · cases h

/-- `while ((ch = getopt(argc, argv, opts)) != -1) switch (ch) { … }` -/
def getopt_loop (argv : List (List UInt8)) (opts : List UInt8)
    (switch : OptChar → σ → Exec ε σ) (s : σ) (g : Getopt) : Exec ε (σ × Getopt) :=
  match _h : getopt argv opts g with
  | (none, g') => .ret (s, g')
  | (some ch, g') => (switch ch s).bind fun s => getopt_loop argv opts switch s g'
termination_by g.left argv
decreasing_by exact getopt_left _h

variable {switch : OptChar → σ → Exec ε σ} {s : σ}

/-- One round of the loop. -/
theorem getopt_loop_opt {ch : OptChar} (h : getopt argv opts g = (some ch, g')) :
    getopt_loop argv opts switch s g
      = (switch ch s).bind fun s => getopt_loop argv opts switch s g' := by
  rw [getopt_loop]
  split
  · next h' =>
    rw [h] at h'
    cases h'
  · next h' =>
    rw [h] at h'
    cases h'
    rfl

theorem getopt_loop_end (h : getopt argv opts g = (none, g')) :
    getopt_loop argv opts switch s g = .ret (s, g') := by
  rw [getopt_loop]
  split
  · next h' =>
    rw [h] at h'
    cases h'
    rfl
  · next h' =>
    rw [h] at h'
    cases h'

/-- What every option leaves true is true behind the loop. -/
theorem getopt_loop_invariant {P : σ → Prop} {s' : σ}
    (hstep : ∀ ch s s', P s → switch ch s = .ret s' → P s') (hs : P s)
    (h : getopt_loop argv opts switch s g = .ret (s', g')) : P s' := by
  -- the measure that the loop itself goes by
  induction hleft : g.left argv using Nat.strongRecOn generalizing s g with
  | ind left ih =>
    cases hg : getopt argv opts g with
    | mk ch g₁ =>
      cases ch with
      | none =>
        rw [getopt_loop_end hg] at h
        injection h with h
        have hs' : s = s' := congrArg Prod.fst h
        rwa [← hs']
      | some ch =>
        rw [getopt_loop_opt hg] at h
        obtain ⟨s₁, hs₁, h⟩ := Exec.bind_eq_ret.mp h
        exact ih _ (hleft ▸ getopt_left hg) (hstep ch s s₁ hs hs₁) h rfl

/-! ## Operands, and options with an argument of their own -/

/-- An argument that does not start with a dash is an operand. -/
theorem getopt_operand {i : ℕ} {a : List UInt8} (ha : argv[i]? = some a)
    (hdash : a.head? ≠ some 45) :
    getopt argv opts ⟨i, []⟩ = (none, ⟨i, []⟩) := by
  simp only [getopt, ha]
  split
  · next h =>
    cases h
    exact absurd rfl hdash
  · rfl

/-- At an operand the loop is over before it starts. -/
theorem getopt_loop_operand {i : ℕ} {a : List UInt8} (ha : argv[i]? = some a)
    (hdash : a.head? ≠ some 45) :
    getopt_loop argv opts switch s ⟨i, []⟩ = .ret (s, ⟨i, []⟩) :=
  getopt_loop_end (getopt_operand ha hdash)

/-- An option alone in its argument, with the next argument for its own: whatever that is. -/
theorem getopt_separate {i : ℕ} {c : UInt8} {optarg : List UInt8} (hc : argv[i]? = some [45, c])
    (hdash : c ≠ 45) (htakes : takes_argument opts c = some true)
    (harg : argv[i + 1]? = some optarg) :
    getopt argv opts ⟨i, []⟩ = (some (.opt c optarg), ⟨i + 2, []⟩) := by
  simp only [getopt, hc]
  rw [if_neg fun h => hdash h.1, getopt_at, htakes]
  simp only [ne_eq, not_true_eq_false, if_false, harg]
  rfl

end Loop

end Iago
