/-
What the installer knows, and how it gives up: the parts of `util.c` that every
plug-in is written with.

Options are strings under formatted keys, `partition.NAME:FIELD` and
`disk.NAME:FIELD`. Two keys with different fields are different whatever the names
are (`field_key_inj`), which is why a plug-in that publishes one field cannot
disturb another; the names themselves may contain anything.

Numbers are kept as text. `xatol` and `xatoll` read them back and die on text
without digits and on numbers that do not fit; `long` is 64 bits wide here, so
they are the same function but for what they say.

`die()` prints a message and ends the process. `Die` has a constructor for every
place in the modelled code that dies, with what the message quotes; the file and
line `die` puts before it and the `strerror` text `die_errno` puts behind it are
left out.
-/
import Iago.Decimal
import Iago.Exec
import Iago.GptTypes

set_option autoImplicit false

namespace Iago

/-! ## Dying -/

/-- Why the installer died. -/
inductive Die where
  -- util.c
  | missing_option (key : CStr)
  | no_digits (nptr : CStr)
  | strtol (nptr : CStr)
  | strtoll (nptr : CStr)
  | open_file (pathname : CStr)
  | read
  | write
  -- partitioner.c
  | ntfsresize_returned (buf : CStr)
  | invalid_index (index : Int)
  | resize_dry_run
  | resize_failed
  | delete_partition
  | gpt_allocation
  | no_room
  | insufficient_free_space
  | aborted
  | insufficient_disk_size (available need : UInt64)
  | unknown_flag (flag : CStr)
  | unknown_type (type : CStr)
  | name_too_long (entry : CStr)
  | creating_partition (entry : CStr)
  | no_unpartitioned_space
  | insufficient_disk_space (have_ need : UInt64)
  | gpt_init
  | no_esp
  | read_gpt
  | reference_esp
  | name_bootloader
  | create_gpt
  | write_gpt
  deriving DecidableEq, Repr

/-- What it says. -/
def Die.message : Die → CStr
  | missing_option key => cstr "failed to find required option entry '" ++ key ++ cstr "'"
  | no_digits nptr => cstr "no digits found in '" ++ nptr ++ cstr "'"
  | strtol nptr => cstr "strtol '" ++ nptr ++ cstr "'"
  | strtoll nptr => cstr "strtoll '" ++ nptr ++ cstr "'"
  | open_file pathname => cstr "open '" ++ pathname ++ cstr "'"
  | read => cstr "read"
  | write => cstr "write"
  | ntfsresize_returned buf => cstr "ntfsresize returned '" ++ buf ++ cstr "'"
  | invalid_index index => cstr "invalid index " ++ decInt index
  | resize_dry_run => cstr "ntfs resize operation dry run failed"
  | resize_failed => cstr "ntfs resize operation failed. disk is likely corrupted!!"
  | delete_partition => cstr "Couldn't delete partition"
  | gpt_allocation => cstr "gpt allocation"
  | no_room =>
    cstr "Not enough free room on the disk to install Android, and Windows cannot be shrunk enough to make space"
  | insufficient_free_space => cstr "Insufficient free space to proceed."
  | aborted => cstr "Aborted installation due to user request"
  | insufficient_disk_size available need =>
    cstr "Insuffcient disk size (" ++ dec available.toNat
      ++ cstr " MiB available) to install Android (need " ++ dec need.toNat ++ cstr " MiB)"
  | unknown_flag flag => cstr "unknown partition flag '" ++ flag ++ cstr "'"
  | unknown_type type => cstr "Unknown partition type " ++ type
  | name_too_long entry => cstr "Partition '" ++ entry ++ cstr "' name too long!"
  | creating_partition entry => cstr "failure creating new " ++ entry ++ cstr " partition"
  | no_unpartitioned_space => cstr "Couldn't calculate unpartitioned disk space"
  | insufficient_disk_space have_ need =>
    cstr "Insufficient disk space (have " ++ dec have_.toNat ++ cstr " MiB need " ++
      dec need.toNat ++ cstr " MiB)"
  | gpt_init => cstr "gpt_init"
  | no_esp => cstr "Please use the interactive installer to re-partition the disk."
  | read_gpt => cstr "Couldn't read existing GPT."
  | reference_esp => cstr "couldn't reference ESP"
  | name_bootloader => cstr "failure setting partition name to 'bootloader'"
  | create_gpt => cstr "coudln't create new GPT"
  | write_gpt => cstr "Couldn't write GPT"

/-! ## The options -/

/-- A hash map from strings to strings. -/
abbrev Hashmap := CStr → Option CStr

/-- `hashmapGetPrintf`, with the key formatted and `NULL` for no default. -/
def hashmapGetPrintf (h : Hashmap) (dfl : Option CStr) (key : CStr) : Exec Die CStr :=
  match h key with
  | some value => .ret value
  | none =>
    match dfl with
    | some value => .ret value
    | none => .die (.missing_option key)

/-- `xhashmapPut`. -/
def xhashmapPut (h : Hashmap) (key value : CStr) : Hashmap :=
  fun k => if k = key then some value else h k

/-- `partition.%s:FIELD`. -/
def partition_key (entry : CStr) (field : String) : CStr :=
  cstr "partition." ++ entry ++ cstr ":" ++ cstr field

/-- `disk.%s:FIELD`. -/
def disk_key (disk : CStr) (field : String) : CStr :=
  cstr "disk." ++ disk ++ cstr ":" ++ cstr field

def BASE_PTN_LIST : CStr := cstr "base:partitions"
def BASE_DISK_LIST : CStr := cstr "base:disks"
def BASE_INSTALL_DISK : CStr := cstr "base:install_disk"
def BASE_INTERACTIVE : CStr := cstr "base:interactive_mode"
def BASE_DUALBOOT : CStr := cstr "base:dualboot"

/-- `ictx`, as far as the partitioner uses it. -/
structure Ictx where
  opts : Hashmap
  iprops : Hashmap

def Ictx.put (ictx : Ictx) (key value : CStr) : Ictx :=
  { ictx with opts := xhashmapPut ictx.opts key value }

section Keys

variable {h : Hashmap} {key key' value : CStr}

/-- An option that is put is there. -/
@[simp] theorem xhashmapPut_self : xhashmapPut h key value key = some value := by
  rw [xhashmapPut, if_pos rfl]

theorem xhashmapPut_of_ne (hne : key' ≠ key) : xhashmapPut h key value key' = h key' := by
  rw [xhashmapPut, if_neg hne]

/-- Without a default the option has to be there. -/
theorem hashmapGetPrintf_none : hashmapGetPrintf h none key = .ret value ↔ h key = some value := by
  rw [hashmapGetPrintf]
  cases h key with
  | none => exact ⟨fun hd => (nomatch hd), fun hn => (nomatch hn)⟩
  | some v =>
    simp only [Exec.ret.injEq, Option.some.injEq]

/-- The field of a key is what follows its last colon. -/
theorem field_key_inj {e e' f f' : CStr} (hf : 58 ∉ f) (hf' : 58 ∉ f')
    (heq : e ++ 58 :: f = e' ++ 58 :: f') : e = e' ∧ f = f' := by
  have hrev := congrArg List.reverse heq
  rw [List.reverse_append, List.reverse_append, List.reverse_cons, List.reverse_cons,
    List.append_assoc, List.append_assoc] at hrev
  have htake (g e : CStr) (hg : 58 ∉ g) :
      (g.reverse ++ ([58] ++ e.reverse)).takeWhile (· ≠ 58) = g.reverse := by
    rw [List.takeWhile_append_of_pos fun c hc => by
      rw [List.mem_reverse] at hc
      exact decide_eq_true fun h => hg (h ▸ hc)]
    rw [List.singleton_append, List.takeWhile_cons_of_neg (by decide), List.append_nil]
  have hfield : f.reverse = f'.reverse := by
    rw [← htake f e hf, ← htake f' e' hf', hrev]
  rw [List.reverse_inj] at hfield
  subst hfield
  exact ⟨List.append_cancel_right heq, rfl⟩

/-- Two fields of two partitions have two keys. -/
theorem partition_key_inj {e e' : CStr} {f f' : String} (hf : 58 ∉ cstr f) (hf' : 58 ∉ cstr f')
    (heq : partition_key e f = partition_key e' f') : e = e' ∧ cstr f = cstr f' := by
  rw [partition_key, partition_key, List.append_assoc, List.append_assoc, List.append_assoc,
    List.append_assoc] at heq
  exact field_key_inj hf hf' (List.append_cancel_left heq)

theorem disk_key_inj {e e' : CStr} {f f' : String} (hf : 58 ∉ cstr f) (hf' : 58 ∉ cstr f')
    (heq : disk_key e f = disk_key e' f') : e = e' ∧ cstr f = cstr f' := by
  rw [disk_key, disk_key, List.append_assoc, List.append_assoc, List.append_assoc,
    List.append_assoc] at heq
  exact field_key_inj hf hf' (List.append_cancel_left heq)

/-- The kinds of keys are told apart by their first letters. -/
theorem partition_key_ne {entry : CStr} {field : String} (h : key.head? ≠ some 112) :
    partition_key entry field ≠ key := fun heq => h (heq ▸ rfl)

/-- A key that does not start with a `d` is not that of a disk. -/
theorem disk_key_ne {disk : CStr} {field : String} (h : key.head? ≠ some 100) :
    disk_key disk field ≠ key := fun heq => h (heq ▸ rfl)

end Keys

/-! ## Numbers -/

/-- What `xatol` and `xatoll` share: the number a string starts with, with a way to
die for each way of not having one that fits. -/
def xato (range : CStr → Die) (nptr : CStr) : Exec Die Int64 :=
  match numeral 10 nptr with
  | none => .die (.no_digits nptr)
  | some val => if val < -2 ^ 63 ∨ 2 ^ 63 ≤ val then .die (range nptr) else .ret (.ofInt val)

/-- `xatol`. -/
def xatol : CStr → Exec Die Int64 := xato .strtol

/-- `xatoll`. -/
def xatoll : CStr → Exec Die Int64 := xato .strtoll

/-- A printed number that fits is read back. -/
theorem xato_dec {range : CStr → Die} {n : ℕ} (hn : n < 2 ^ 63) :
    xato range (dec n) = .ret (.ofInt n) := by
  rw [xato, numeral_dec]
  simp only
  rw [if_neg (by omega)]

/-- A printed number is read back. -/
theorem xatoll_dec {n : ℕ} (hn : n < 2 ^ 63) : xatoll (dec n) = .ret (.ofInt n) := xato_dec hn

theorem xatol_dec {n : ℕ} (hn : n < 2 ^ 63) : xatol (dec n) = .ret (.ofInt n) := xato_dec hn

/-- `atoi`: no error, and only the lower half of the number. -/
def atoi (nptr : CStr) : Int32 :=
  match numeral 10 nptr with
  | none => 0
  | some val => Int32.ofInt (max (-2 ^ 63) (min val (2 ^ 63 - 1)))

/-- A number in a variable of so many bits: the nearest number of 64 bits, and of that the lowest
bits. -/
def kept (bits : ℕ) (z : ℤ) : ℕ := (max (-2 ^ 63) (min z (2 ^ 63 - 1)) % 2 ^ bits).toNat

/-- A number that fits is kept as it is. -/
theorem kept_iff {bits n : ℕ} (hbits : bits = 32 ∨ bits = 64) :
    kept bits n = n ↔ n < 2 ^ min bits 63 := by
  unfold kept
  rcases hbits with rfl | rfl
  · rw [show min 32 63 = 32 from rfl]
    omega
  · rw [show min 64 63 = 63 from rfl]
    omega

/-- `atoi` keeps 32 bits of the number a string starts with. -/
theorem atoi_eq (s : CStr) : (atoi s).toUInt32.toNat = kept 32 ((numeral 10 s).getD 0) := by
  rw [atoi, kept]
  cases numeral 10 s with
  | none => rfl
  | some z =>
    simp only [Option.getD_some]
    show (BitVec.ofInt 32 _).toNat = _
    rw [BitVec.toNat_ofInt]
    rfl

/-! ## String lists -/

/-- The entries of a string list: the runs of characters that are neither space nor
tab. -/
def entries (stringlist : CStr) : List CStr :=
  (stringlist.splitOnP fun c => c = 32 ∨ c = 9).filter (· ≠ [])

/-- The loop of `string_list_iterate`, from the entry with number `idx` on. -/
def iterate {ε σ : Type} (cb : CStr → ℕ → σ → Exec ε (Bool × σ)) :
    List CStr → ℕ → σ → Exec ε σ
  | [], _, s => .ret s
  | entry :: list, idx, s => do
    let (go, s) ← cb entry idx s
    if go then iterate cb list (idx + 1) s else .ret s

/-- `string_list_iterate`: the callback is run on each entry with its number, until
it returns false. -/
def string_list_iterate {ε σ : Type} (stringlist : CStr)
    (cb : CStr → ℕ → σ → Exec ε (Bool × σ)) (s : σ) : Exec ε σ :=
  iterate cb (entries stringlist) 0 s

/-- `string_list_append`. -/
def string_list_append (list entry : CStr) : CStr :=
  if list = [] then entry else list ++ cstr " " ++ entry

end Iago
