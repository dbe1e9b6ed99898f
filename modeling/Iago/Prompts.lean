/-
Asking the user: `ui_ask`, `ui_get_value` and `ui_option_get` of `util.c`.

Standard input is the bytes the user will type. `fgets` takes a line of it, or as
much of a line as its buffer holds, so a long line answers several questions. A
question is asked again until the answer will do. At the end of the input `fgets`
leaves the buffer as it was, and nobody looks at what it returns: an answer that has
been refused is refused for ever, which is `hang`, and if there has been no answer yet
the question is answered by what the stack has left in the buffer. What is printed is
left out.

The only thing later files need of an answer is its range
(`ui_get_value_range`): a number is between the bounds, or it is the default.
-/
import Iago.Options

set_option autoImplicit false

namespace Iago

/-- `fgets` with room for `n` characters: what it stores, and the rest of the input.
It stores nothing only at the end of the input. -/
def fgets : ℕ → List UInt8 → List UInt8 × List UInt8
  | 0, stdin => ([], stdin)
  | _ + 1, [] => ([], [])
  | n + 1, c :: stdin =>
    if c = 10 then ([c], stdin)
    else
      let r := fgets n stdin
      (c :: r.1, r.2)

/-- `toupper`. -/
def toupper (c : UInt8) : UInt8 := if 97 ≤ c ∧ c ≤ 122 then c - 32 else c

/-- The string in a buffer with room for `n` characters after `fgets`, and the rest of the
input: at its end the buffer is as it was. -/
def fgets_into (buf : CStr) (n : ℕ) (stdin : List UInt8) : CStr × List UInt8 :=
  match fgets n stdin with
  | ([], stdin) => (buf, stdin)
  | (c :: line, stdin) => (c :: line, stdin)

/-- The questions the installer asks, each of them once at most. -/
inductive Question where
  | disk
  | dual_boot
  | resize_windows
  | new_windows_size
  | go_on
  | gummiboot
  | timeout
  | syslinux

/-- What the stack has left in the buffers for the answers, as strings. -/
class Stack where
  buf : Question → CStr

/-- A stack with nothing on it. -/
abbrev clean_stack : Stack where
  buf _ := []

/-- The loop of `ui_ask`. A round that is not the last takes a byte at least, or changes nothing
any more, so one round more than there are bytes is enough. -/
def ui_ask_again (dfl : Bool) : ℕ → CStr → List UInt8 → Exec Die (Bool × List UInt8)
  | 0, _, _ => .hang
  | fuel + 1, buf, stdin =>
    let (buf, stdin) := fgets_into buf 31 stdin
    let c := toupper (buf.headD 0)
    if c = 89 then .ret (true, stdin)
    else if c = 78 then .ret (false, stdin)
    else if c = 10 then .ret (dfl, stdin)
    else ui_ask_again dfl fuel buf stdin

/-- `ui_ask`, with what is in its buffer. -/
def ui_ask (buf : CStr) (dfl : Bool) (stdin : List UInt8) : Exec Die (Bool × List UInt8) :=
  ui_ask_again dfl (stdin.length + 1) buf stdin

/-- The digits behind the prefix that gives away the base: `0x`, `0` or none. -/
def strtoull_digits (s : List UInt8) : Option ℕ :=
  match s with
  | 48 :: c :: rest => if c = 120 ∨ c = 88 then number 16 rest else number 8 s
  | _ => number 10 s

/-- `strtoull` with base 0: the value, and whether `errno` was set. -/
def strtoull (nptr : List UInt8) : UInt64 × Bool :=
  match nptr.dropWhile isspace with
  | [] => (0, false)
  | c :: s =>
    match strtoull_digits (if c = 45 ∨ c = 43 then s else c :: s) with
    | none => (0, false)
    | some n =>
      if 2 ^ 64 ≤ n then (UInt64.ofNat (2 ^ 64 - 1), true)
      else if c = 45 then (0 - UInt64.ofNat n, false)
      else (UInt64.ofNat n, false)

/-- The loop of `ui_get_value`. The number is cut down to an `unsigned int` before it
is compared with the bounds. -/
def ui_get_value_again (dfl min max : Int64) :
    ℕ → CStr → List UInt8 → Exec Die (Int64 × List UInt8)
  | 0, _, _ => .hang
  | fuel + 1, buf, stdin =>
    let (buf, stdin) := fgets_into buf 4095 stdin
    if buf.head? = some 10 then .ret (dfl, stdin)
    else
      let (value, errno) := strtoull buf
      let result := value.toUInt32
      if errno ∨ result.toUInt64.toInt64 < min ∨ max < result.toUInt64.toInt64 then
        ui_get_value_again dfl min max fuel buf stdin
      else .ret (result.toUInt64.toInt64, stdin)

/-- `ui_get_value`, with what is in its buffer. -/
def ui_get_value (buf : CStr) (dfl min max : Int64) (stdin : List UInt8) :
    Exec Die (Int64 × List UInt8) :=
  ui_get_value_again dfl min max (stdin.length + 1) buf stdin

/-- `node->next` in the ring of the options and the head of the list, which comes behind the last
of them and is the node with the number of options for its own. -/
def next_node (options : List CStr) (node : ℕ) : ℕ := if node = options.length then 0 else node + 1

/-- The loop at the end of `ui_option_get`: the node it stops at. The counter is taken down before
it is looked at, so that a 0 has `2 ^ 32 - 1` rounds to go. -/
def option_walk (options : List CStr) (select : UInt32) (node : ℕ) : ℕ :=
  if select - 1 = 0 then node else option_walk options (select - 1) (next_node options node)
termination_by (select - 1).toNat
decreasing_by
  rename_i hgo
  have hpos : (select - 1).toNat ≠ 0 := fun h => hgo (UInt32.toNat_inj.mp h)
  have hone : (1 : UInt32) ≤ select - 1 := by
    rw [UInt32.le_iff_toNat_le, show (1 : UInt32).toNat = 1 from rfl]
    omega
  rw [UInt32.toNat_sub_of_le _ _ hone, show (1 : UInt32).toNat = 1 from rfl]
  omega

/-- The loop of `ui_option_get`, over two options or more. A selection of 0 is not
rejected. The head of the list is no option. -/
def ui_option_again (options : List CStr) :
    ℕ → CStr → UInt32 → List UInt8 → Exec Die (CStr × List UInt8)
  | 0, _, _, _ => .hang
  | fuel + 1, buf, select, stdin =>
    let (buf, stdin) := fgets_into buf 31 stdin
    let select := if buf.head? = some 10 then select else (atoi buf).toUInt32
    if UInt32.ofNat options.length < select then ui_option_again options fuel buf select stdin
    else
      match options[option_walk options select 0]? with
      | some option => .ret (option, stdin)
      | none => .fault

/-- `ui_option_get`, with what is in its buffer. A single option is taken without asking; so, by
the same test, is the head of an empty list, which is no option. -/
def ui_option_get (buf : CStr) (options : List CStr) (stdin : List UInt8) :
    Exec Die (CStr × List UInt8) :=
  match options with
  | [] => .fault
  | [option] => .ret (option, stdin)
  | _ => ui_option_again options (stdin.length + 1) buf 1 stdin

/-! ## What an answer can be -/

/-- The walk as index arithmetic. -/
theorem option_walk_eq (options : List CStr) (select : UInt32) {node : ℕ}
    (hnode : node ≤ options.length) : option_walk options select node
      = (node + (select - 1).toNat) % (options.length + 1) := by
  induction hrounds : (select - 1).toNat generalizing select node with
  | zero =>
    rw [option_walk, if_pos (UInt32.toNat_inj.mp hrounds), Nat.add_zero, Nat.mod_eq_of_lt (by omega)]
  | succ rounds ih =>
    have hgo : select - 1 ≠ 0 := fun h => by rw [h] at hrounds; cases hrounds
    have hone : (1 : UInt32) ≤ select - 1 := by
      rw [UInt32.le_iff_toNat_le, hrounds, show (1 : UInt32).toNat = 1 from rfl]
      omega
    have hless : (select - 1 - 1).toNat = rounds := by
      rw [UInt32.toNat_sub_of_le _ _ hone, hrounds]
      rfl
    rw [option_walk, if_neg hgo, next_node]
    -- one step round the ring
    split_ifs with hhead
    · rw [ih (select - 1) (Nat.zero_le _) hless, hhead, Nat.zero_add, Nat.add_comm rounds 1,
        ← Nat.add_assoc, Nat.add_mod_left]
    · rw [ih (select - 1) (by omega) hless]
      congr 1
      omega

theorem ui_get_value_range {buf : CStr} {dfl min max v : Int64} {stdin rest : List UInt8}
    (h : ui_get_value buf dfl min max stdin = .ret (v, rest)) : v = dfl ∨ min ≤ v ∧ v ≤ max := by
  rw [ui_get_value] at h
  generalize stdin.length + 1 = fuel at h
  induction fuel generalizing buf stdin with
  | zero => cases h
  | succ fuel ih =>
    rw [ui_get_value_again] at h
    generalize fgets_into buf 4095 stdin = x at h
    simp only at h
    split_ifs at h with hnl hbad
    · simp only [Exec.ret.injEq, Prod.mk.injEq] at h
      exact .inl h.1.symm
    · exact ih h
    · simp only [Exec.ret.injEq, Prod.mk.injEq] at h
      rw [← h.1]
      simp only [not_or, Int64.not_lt] at hbad
      exact .inr hbad.2

end Iago
