/-
Paths, and where they lead when file systems are mounted.

A path is read name by name from the root (`resolve`); `.` stays where it is, `..` goes
back one name, and separators may be repeated. There are no links here, so nothing else can
happen on the way.

The mounts are a list, the last one first. A directory belongs to the last file system that
was mounted on it or on a directory above it (`locate`); within that file system it is what
is left of the path.
-/
import Iago.GptTypes
import Iago.Tokens

set_option autoImplicit false

namespace Iago

namespace Path

/-! ## Names -/

/-- The names in a path, between its slashes. -/
def names (path : CStr) : List CStr := runs (fun c => c = 47) path

/-- From a directory to the one a name stands for. -/
def enter (dir : List CStr) (name : CStr) : List CStr :=
  if name = cstr "." then dir else if name = cstr ".." then dir.dropLast else dir ++ [name]

/-- The directories on the way to what a path stands for, and the thing itself. -/
def resolve (path : CStr) : List CStr := (names path).foldl enter []

example : resolve (cstr "/mnt/bootloader//loader/./entries/../loader.conf")
    = [cstr "mnt", cstr "bootloader", cstr "loader", cstr "loader.conf"] := by
  decide +kernel

/-- A name that is the name of a file. -/
structure IsName (name : CStr) : Prop where
  solid : 47 ∉ name
  here : name ≠ cstr "."
  up : name ≠ cstr ".."

theorem resolve_slash (dir rest : CStr) :
    resolve (dir ++ 47 :: rest) = (names rest).foldl enter (resolve dir) := by
  rw [resolve, names, runs_append_cons dir rest (by decide), List.foldl_append]
  rfl

/-- The last name of a path. -/
theorem resolve_name (dir : CStr) {name : CStr} (hne : name ≠ []) (h : IsName name) :
    resolve (dir ++ 47 :: name) = resolve dir ++ [name] := by
  have hnames : names name = [name] := by
    refine runs_token hne ?_
    intro c hc
    exact decide_eq_false fun heq => h.solid (heq ▸ hc)
  rw [resolve_slash, hnames, List.foldl_cons, List.foldl_nil, enter, if_neg h.here, if_neg h.up]

/-! ## Mounts -/

variable {δ : Type} {mounts : List (List CStr × δ)} {dir rest path : List CStr} {d : δ}

/-- The file system a path leads to, and the path in it. -/
def locate : (mounts : List (List CStr × δ)) → (path : List CStr) → Option δ × List CStr
  | [], path => (none, path)
  | (dir, d) :: mounts, path =>
    if dir <+: path then (some d, path.drop dir.length) else locate mounts path

/-- Under the last mount. -/
theorem locate_append : locate ((dir, d) :: mounts) (dir ++ rest) = (some d, rest) := by
  rw [locate, if_pos (List.prefix_append dir rest), List.drop_left]

/-- Away from it. -/
theorem locate_of_not_prefix (h : ¬ dir <+: path) :
    locate ((dir, d) :: mounts) path = locate mounts path := by
  rw [locate, if_neg h]

end Path

end Iago
