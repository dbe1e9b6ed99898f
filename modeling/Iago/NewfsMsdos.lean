/-
The formatting of FAT partitions: `execute_cb` of `imagewriter.c` and the command line of
`newfs_msdos_main`.

`newfs_msdos_main` used to be the `main` of a program, and here it is called in process, once
for every partition with the mode "format" and the type "vfat" or "esp". It takes its
arguments apart with `getopt`, and nobody resets `optind` between the calls: the first call
leaves it at the device, and there every later call starts, behind its `-L` and the label. And
the label is a name that may have 27 characters for the partitioner but only 11 for
`oklabel`, which ends the process of the installer otherwise.

So all goes well exactly if there is no more than one such partition among those that the
installer gets to, and its name has 11 characters at most (`formats_right_iff`). Any other
call that is made formats its device without a label (`later_calls_unlabelled`).

What `newfs_msdos_main` does once it has its arguments, the other ways of filling a partition,
and the time a device takes to appear, are in `Work`: whether they get through.
-/
import Iago.Getopt
import Iago.NumberPrompts
import Iago.PublishedOptions
import Iago.StringLists

set_option autoImplicit false

namespace Iago

namespace NewfsMsdos

/-! ## `newfs_msdos.c` -/

/-- Why the process ends in `newfs_msdos_main`. -/
inductive Exit where
  | bad (arg : CStr) (msg : String)
  | not_supported_yet (arg : CStr) (msg : String)
  | usage
  deriving DecidableEq

/-- What it says, with `usage` for the text that lists the options. -/
def Exit.message (usage : CStr) : Exit → CStr
  | bad arg msg => arg ++ cstr ": bad " ++ cstr msg
  | not_supported_yet arg msg => cstr msg ++ cstr ": not supported yet " ++ arg
  | .usage => usage

/-- `argtou`. -/
def argtou (arg : CStr) (lo hi : ℕ) (msg : String) : Exec Exit UInt32 :=
  match signed c_digits arg with
  | none => .die (.bad arg msg)
  | some (z, s) =>
    let x := (z % 2 ^ 64).toNat
    if 2 ^ 64 ≤ z.natAbs ∨ s ≠ [] ∨ x < lo ∨ hi < x then .die (.bad arg msg)
    else .ret (UInt32.ofNat x)

def argto1 (arg : CStr) (lo : ℕ) (msg : String) : Exec Exit UInt32 := argtou arg lo 0xff msg
def argto2 (arg : CStr) (lo : ℕ) (msg : String) : Exec Exit UInt32 := argtou arg lo 0xffff msg
def argto4 (arg : CStr) (lo : ℕ) (msg : String) : Exec Exit UInt32 := argtou arg lo 0xffffffff msg
def argtox (arg : CStr) (lo : ℕ) (msg : String) : Exec Exit UInt32 := argtou arg lo 0xffffffff msg

/-- `x <<= n`, of an `off_t` that is not negative. -/
def shift_off (x : ℤ) (n : ℕ) : Exec Exit ℤ :=
  if x * 2 ^ n < 2 ^ 63 then .ret (x * 2 ^ n) else .fault

/-- `argtooff`, which does not clear `errno` first. -/
def argtooff (arg : CStr) (msg : String) (errno : Bool) : Exec Exit ℤ :=
  let (x, s) := (signed c_digits arg).getD (0, arg)
  if errno ∨ x < 0 ∨ 2 ^ 63 ≤ x ∨ 2 ≤ s.length then .die (.bad arg msg)
  else
    match s.head?.map fun c => Char.ofNat c.toNat with
    | none => .ret x
    | some 's' | some 'S' => shift_off x 9
    | some 'k' | some 'K' => shift_off x 10
    | some 'm' | some 'M' => shift_off x 20
    | some 'g' | some 'G' => shift_off x 30
    | some 'p' | some 'P' | some 'l' | some 'L' => .die (.not_supported_yet arg msg)
    | some _ => .die (.bad arg msg)

/-- The characters that `oklabel` looks for with `strchr`. -/
def LABEL_STOPS : CStr := cstr "\"*+,./:;<=>?[\\]|"

/-- `c < ' ' + !i || strchr("\"*+,./:;<=>?[\\]|", c)` -/
def label_stop (i : ℕ) (c : UInt8) : Bool :=
  c.toNat < 32 + (if i = 0 then 1 else 0) ∨ c = 0 ∨ c ∈ LABEL_STOPS

/-- The loop of `oklabel`, with the rounds that are left: `i` and `c` when it is over. -/
def oklabel_loop : (rounds : ℕ) → (i : ℕ) → (c : UInt8) → (src : CStr) → ℕ × UInt8
  | 0, i, c, _ => (i, c)
  | rounds + 1, i, _, src =>
    let c := src.headD 0
    if label_stop i c then (i, c)
    else oklabel_loop rounds (i + 1) c src.tail

/-- `oklabel`. -/
def oklabel (src : CStr) : Bool :=
  let (i, c) := oklabel_loop 12 0 0 src
  i ≠ 0 ∧ c = 0

/-- The variables that the options set, and `errno`. -/
structure Opts where
  opt_B : Option CStr := none
  opt_L : Option CStr := none
  opt_O : Option CStr := none
  opt_f : Option CStr := none
  opt_F : UInt32 := 0
  opt_I : UInt32 := 0
  opt_S : UInt32 := 0
  opt_a : UInt32 := 0
  opt_b : UInt32 := 0
  opt_c : UInt32 := 0
  opt_e : UInt32 := 0
  opt_h : UInt32 := 0
  opt_i : UInt32 := 0
  opt_k : UInt32 := 0
  opt_m : UInt32 := 0
  opt_n : UInt32 := 0
  opt_o : UInt32 := 0
  opt_r : UInt32 := 0
  opt_s : UInt32 := 0
  opt_u : UInt32 := 0
  opt_N : Bool := false
  Iflag : Bool := false
  mflag : Bool := false
  oflag : Bool := false
  opt_create : ℤ := 0
  opt_ofs : ℤ := 0
  errno : Bool

/-- An option with a number: `argtou` has cleared `errno`. -/
def Opts.number (o : Opts) (x : Exec Exit UInt32) (set : Opts → UInt32 → Opts) : Exec Exit Opts :=
  x.bind fun x => .ret (set { o with errno := false } x)

/-- The `switch` over the options. -/
def Opts.switch (ch : OptChar) (o : Opts) : Exec Exit Opts :=
  match ch with
  | .question => .die .usage
  | .opt c optarg =>
    match Char.ofNat c.toNat with
    | '@' => (argtooff optarg "offset" o.errno).bind fun x => .ret { o with opt_ofs := x }
    | 'N' => .ret { o with opt_N := true }
    | 'B' => .ret { o with opt_B := some optarg }
    | 'C' => (argtooff optarg "create size" o.errno).bind fun x => .ret { o with opt_create := x }
    | 'F' =>
      if optarg ≠ cstr "12" ∧ optarg ≠ cstr "16" ∧ optarg ≠ cstr "32" then
        .die (.bad optarg "FAT type")
      else .ret { o with opt_F := (atoi optarg).toUInt32 }
    | 'I' => o.number (argto4 optarg 0 "volume ID") fun o x => { o with opt_I := x, Iflag := true }
    | 'L' =>
      if ¬ oklabel optarg then .die (.bad optarg "volume label")
      else .ret { o with opt_L := some optarg }
    | 'O' =>
      if 8 < optarg.length then .die (.bad optarg "OEM string")
      else .ret { o with opt_O := some optarg }
    | 'S' => o.number (argto2 optarg 1 "bytes/sector") fun o x => { o with opt_S := x }
    | 'a' => o.number (argto4 optarg 1 "sectors/FAT") fun o x => { o with opt_a := x }
    | 'b' => o.number (argtox optarg 1 "block size") fun o x => { o with opt_b := x, opt_c := 0 }
    | 'c' =>
      o.number (argto1 optarg 1 "sectors/cluster") fun o x => { o with opt_c := x, opt_b := 0 }
    | 'e' => o.number (argto2 optarg 1 "directory entries") fun o x => { o with opt_e := x }
    | 'f' => .ret { o with opt_f := some optarg }
    | 'h' => o.number (argto2 optarg 1 "drive heads") fun o x => { o with opt_h := x }
    | 'i' => o.number (argto2 optarg 1 "info sector") fun o x => { o with opt_i := x }
    | 'k' => o.number (argto2 optarg 1 "backup sector") fun o x => { o with opt_k := x }
    | 'm' =>
      o.number (argto1 optarg 0 "media descriptor") fun o x => { o with opt_m := x, mflag := true }
    | 'n' => o.number (argto1 optarg 1 "number of FATs") fun o x => { o with opt_n := x }
    | 'o' =>
      o.number (argto4 optarg 0 "hidden sectors") fun o x => { o with opt_o := x, oflag := true }
    | 'r' => o.number (argto2 optarg 1 "reserved sectors") fun o x => { o with opt_r := x }
    | 's' => o.number (argto4 optarg 1 "file system size") fun o x => { o with opt_s := x }
    | 'u' => o.number (argto2 optarg 1 "sectors/track") fun o x => { o with opt_u := x }
    | _ => .die .usage

/-- `opts`. -/
def OPTS : CStr := cstr "@:NB:C:F:I:L:O:S:a:b:c:e:f:h:i:k:m:n:o:r:s:u:"

def MAXPATHLEN : ℕ := 4096

/-- What `newfs_msdos_main` has its arguments for. -/
structure Args where
  opts : Opts
  fname : CStr
  dtype : Option CStr

/-- The device, which is looked for in `_PATH_DEV` if it is no path. -/
def special (o : Opts) (fname : CStr) : CStr :=
  if o.opt_create = 0 ∧ 47 ∉ fname then (cstr "/dev/" ++ fname).take (MAXPATHLEN - 1) else fname

/-- The start of `newfs_msdos_main`: its arguments. -/
def newfs_msdos_args (errno : Bool) (argv : List CStr) (g : Getopt) : Exec Exit (Args × Getopt) :=
  (getopt_loop argv OPTS Opts.switch { errno } g).bind fun (o, g) =>
    match argv.drop g.optind with
    | [fname] => .ret (⟨o, special o fname, none⟩, g)
    | [fname, dtype] => .ret (⟨o, special o fname, some dtype⟩, g)
    | _ => .die .usage

/-! ## `imagewriter.c` -/

/-- Why the process ends while partitions are filled. -/
inductive Stop where
  | options (e : Die)
  | stat (device : CStr)
  | unsupported_fs (type : CStr)
  | unsupported_mode (mode : CStr)
  | newfs_msdos (e : Exit)
  | failed (entry : CStr)

/-- A run inside one that has more reasons to end. -/
def within {ε ε' α : Type} (f : ε → ε') : Exec ε α → Exec ε' α
  | .ret a => .ret a
  | .die e => .die (f e)
  | .fault => .fault
  | .hang => .hang

/-- `hashmapGetPrintf` for a field of a partition. -/
def field (opts : Hashmap) (dfl : Option CStr) (entry : CStr) (name : String) : Exec Stop CStr :=
  within .options (hashmapGetPrintf opts dfl (partition_key entry name))

/-- What is run on a partition an image has been written to. -/
inductive Check where
  | ext4 (footer : Int32)
  | vfat
  | none

/-- What is to be done about a partition. -/
inductive Task where
  | ext4 (device : CStr) (footer : Int64)
  | fat (device : CStr)
  | image (src device : CStr) (check : Check)
  | zero (device : CStr)
  | skip

def Task.isFat : Task → Bool
  | fat _ => true
  | _ => false

/-- The check of an image by its type. -/
def image_check (opts : Hashmap) (entry type : CStr) : Exec Stop Check :=
  if type = cstr "ext4" then do
    let footer ← field opts (some (cstr "0")) entry "footer"
    .ret (.ext4 (atoi footer))
  else if type = cstr "vfat" then .ret .vfat
  else .ret .none

/-- What `execute_cb` decides on by the mode and the type. -/
def task (opts : Hashmap) (entry type device mode : CStr) : Exec Stop Task :=
  if mode = cstr "format" then
    if type = cstr "ext4" then do
      let footer ← field opts (some (cstr "0")) entry "footer"
      let footer ← within .options (xatol footer)
      .ret (.ext4 device footer)
    else if type = cstr "vfat" ∨ type = cstr "esp" then .ret (.fat device)
    else .die (.unsupported_fs type)
  else if mode = cstr "image" then do
    let src ← field opts none entry "src"
    let check ← image_check opts entry type
    .ret (.image (cstr "/installmedia/images/" ++ src) device check)
  else if mode = cstr "zero" then .ret (.zero device)
  else if mode = cstr "skip" then .ret .skip
  else .die (.unsupported_mode mode)

/-- `execute_cb` up to there; `stat` is whether the device appears in time. -/
def plan (opts : Hashmap) (stat : Bool) (entry : CStr) : Exec Stop Task := do
  let type ← field opts none entry "type"
  let device ← field opts none entry "device"
  let mode ← field opts none entry "mode"
  if stat then task opts entry type device mode else .die (.stat device)

/-- What is not modelled of the work on one partition: whether its device appears, what
`errno` is when `newfs_msdos_main` is called, and whether the device is filled. -/
structure Work where
  stat : Bool
  errno : Bool
  filled : Bool

/-- Nothing goes wrong. -/
def Work.Good (work : Work) : Prop := work.stat = true ∧ work.filled = true

/-- `argv` for the formatter. -/
def newfs_argv (entry device : CStr) : List CStr :=
  [cstr "newfs_msdos", cstr "-L", entry, device]

/-- A call of `newfs_msdos_main`, and what it takes its arguments for. -/
structure Call where
  entry : CStr
  parsed : Exec Exit (Args × Getopt)

/-- The rest of `execute_cb`. -/
def Work.fill (work : Work) (entry : CStr) (g : Getopt) : Exec Stop Getopt :=
  if work.filled then .ret g else .die (.failed entry)

/-- `execute_cb`: the calls of `newfs_msdos_main` it makes, and what `getopt` knows then. -/
def execute_cb (opts : Hashmap) (work : Work) (entry : CStr) (g : Getopt) :
    List Call × Exec Stop Getopt :=
  match plan opts work.stat entry with
  | .ret (.fat device) =>
    let parsed := newfs_msdos_args work.errno (newfs_argv entry device) g
    ([⟨entry, parsed⟩], (within .newfs_msdos parsed).bind fun (_, g) => work.fill entry g)
  | .ret _ => ([], work.fill entry g)
  | .die e => ([], .die e)
  | .fault => ([], .fault)
  | .hang => ([], .hang)

/-- The iteration over the list, from entry `idx` on. -/
def execute_from (opts : Hashmap) (work : ℕ → Work) :
    (idx : ℕ) → (list : List CStr) → Getopt → List Call × Exec Stop Getopt
  | _, [], g => ([], .ret g)
  | idx, entry :: list, g =>
    match execute_cb opts (work idx) entry g with
    | (calls, .ret g) =>
      let (calls', r) := execute_from opts work (idx + 1) list g
      (calls ++ calls', r)
    | (calls, r) => (calls, r)

/-- `imagewriter_execute`, in a process that has not called `getopt` before. -/
def imagewriter_execute (opts : Hashmap) (work : ℕ → Work) : List Call × Exec Stop Getopt :=
  match within Stop.options (hashmapGetPrintf opts none BASE_PTN_LIST) with
  | .ret partitions => execute_from opts work 0 (entries partitions) .initial
  | .die e => ([], .die e)
  | .fault => ([], .fault)
  | .hang => ([], .hang)

/-! ## Every FAT partition under its own name -/

/-- The options with a list of partitions as the partitioner accepts it: names of at most 27
characters, none of them forbidden in a FAT name, and devices by their paths. -/
structure Accepted where
  opts : Hashmap
  partitions : CStr
  listed : opts BASE_PTN_LIST = some partitions
  short : ∀ entry ∈ entries partitions, entry.length ≤ 27
  plain : ∀ entry ∈ entries partitions, ∀ c ∈ entry, 32 ≤ c ∧ c ∉ LABEL_STOPS
  device : ∀ entry ∈ entries partitions, ∀ node ∈ opts (partition_key entry "device"),
    node.head? = some 47

section Lists

variable (opts : Hashmap) (entry : CStr)

/-- The partition has the option, with one of the values. -/
def option_in (name : String) (values : List CStr) : Bool :=
  (opts (partition_key entry name)).any (· ∈ values)

/-- The partition has the option. -/
def option_given (name : String) : Bool := (opts (partition_key entry name)).isSome

/-- If it has a footer, that starts with a number for a `long`. -/
def footer_fits : Bool :=
  (opts (partition_key entry "footer")).all fun footer =>
    (numeral 10 footer).any fun n => -2 ^ 63 ≤ n ∧ n < 2 ^ 63

/-- The partition is to be formatted with a FAT file system: its mode is "format" and its type
"vfat" or "esp". -/
def formats_fat : Bool :=
  option_in opts entry "mode" [cstr "format"] &&
    option_in opts entry "type" [cstr "vfat", cstr "esp"]

/-- The partition has all its options, and they say something that can be done: a FAT or an "ext4"
file system, an image, zeros or nothing. -/
def gets_past : Bool :=
  option_given opts entry "type" && option_given opts entry "device" &&
    (formats_fat opts entry ||
      (option_in opts entry "mode" [cstr "format"] &&
        option_in opts entry "type" [cstr "ext4"] && footer_fits opts entry) ||
      (option_in opts entry "mode" [cstr "image"] && option_given opts entry "src") ||
      option_in opts entry "mode" [cstr "zero", cstr "skip"])

/-- The partitions to format with a FAT file system, up to the first one whose options say nothing
that can be done. -/
def fat_entries (list : List CStr) : List CStr :=
  (list.takeWhile (gets_past opts)).filter (formats_fat opts)

end Lists

def Accepted.fats (p : Accepted) : List CStr := fat_entries p.opts (entries p.partitions)

/-! ### What the partitioner accepts -/

section Partitioner

variable [Platform]

/-- An entry that gets a partition has a name of 27 characters at most. -/
theorem mkpart_cb_short {entry : CStr} {idx : ℕ} {mc mc' : MkpartCtx} {go : Bool}
    (h : mkpart_cb entry idx mc = .ret (go, mc')) : entry.length ≤ 27 := by
  rw [mkpart_cb] at h
  by_cases hskip : mc.skip_bootloader = true ∧ entry = cstr "bootloader"
  · rw [hskip.2]
    decide
  rw [if_neg hskip] at h
  obtain ⟨flags_list, -, h⟩ := Exec.bind_eq_ret.mp h
  obtain ⟨ptype, -, h⟩ := Exec.bind_eq_ret.mp h
  obtain ⟨flags, -, h⟩ := Exec.bind_eq_ret.mp h
  by_contra hlong
  rw [if_pos (Nat.lt_of_not_le hlong)] at h
  cases h

/-- A list it gets through has short names only. -/
theorem short_of_iterate {list : List CStr} {idx : ℕ} {mc mc' : MkpartCtx}
    (h : iterate mkpart_cb list idx mc = .ret mc') (hg : mc.gpt.Mapped) :
    ∀ entry ∈ list, entry.length ≤ 27 := by
  induction list generalizing idx mc with
  | nil => exact fun entry he => absurd he List.not_mem_nil
  | cons n list ih =>
    rw [iterate] at h
    obtain ⟨⟨go, mc₁⟩, hcb, h⟩ := Exec.bind_eq_ret.mp h
    obtain ⟨rfl, hstep⟩ := mkpart_cb_spec hg hcb
    have hmap : mc₁.gpt.Mapped := by
      rcases hstep with ⟨-, rfl⟩ | ⟨_, _, _, hmade⟩
      · exact hg
      · exact (hmade.kept hg).mapped
    intro entry he
    rcases List.mem_cons.mp he with rfl | he
    · exact mkpart_cb_short hcb
    · exact ih h hmap entry he

/-- The devices it publishes are paths. -/
theorem path_of_published {disk : CStr} {g : Gpt} {opts : Hashmap} {list : List CStr}
    (h : PublishesTable disk g opts list) : ∀ entry ∈ list,
      ∀ node ∈ opts (partition_key entry "device"), node.head? = some 47 := by
  intro entry he node hnode
  obtain ⟨i, hpub⟩ := h.published entry he
  obtain ⟨node', hget, hopt⟩ := hpub.device
  rw [Option.mem_def.mp hnode, Option.some.injEq] at hopt
  subst hopt
  have hdisk : ∀ rest : CStr, (g.device ++ rest).head? = some 47 := by
    intro rest
    rw [hpub.install_disk]
    rfl
  -- a `p` may stand between the disk and the number
  rw [gpt_get_device_node] at hget
  cases hlast : g.device.getLast? with
  | none =>
    rw [hlast] at hget
    cases hget
  | some c =>
    rw [hlast] at hget
    simp only at hget
    split_ifs at hget
    · injection hget with hget
      rw [← hget, List.append_assoc]
      exact hdisk _
    · injection hget with hget
      rw [← hget]
      exact hdisk _

/-- So with FAT names the options it leaves are of that kind. -/
theorem exists_accepted {disk partitions : CStr} {g : Gpt} {opts : Hashmap} {idx : ℕ}
    {mc mc' : MkpartCtx} (hlist : opts BASE_PTN_LIST = some partitions)
    (h : iterate mkpart_cb (entries partitions) idx mc = .ret mc') (hg : mc.gpt.Mapped)
    (hpub : PublishesTable disk g opts (entries partitions))
    (hplain : ∀ entry ∈ entries partitions, ∀ c ∈ entry, 32 ≤ c ∧ c ∉ LABEL_STOPS) :
    ∃ p : Accepted, p.opts = opts ∧ p.partitions = partitions :=
  ⟨⟨opts, partitions, hlist, short_of_iterate h hg, hplain, path_of_published hpub⟩, rfl, rfl⟩

end Partitioner

/-- The call formats the device of its entry and labels it with the name. -/
def Call.Right (opts : Hashmap) (c : Call) : Prop :=
  ∃ args g, c.parsed = .ret (args, g) ∧
    opts (partition_key c.entry "device") = some args.fname ∧ args.opts.opt_L = some c.entry

/-- All calls do, whatever becomes of the rest of the work; and if nothing else stops the
installer there is one for every such partition. -/
structure FormatsRight (p : Accepted) : Prop where
  right : ∀ work, ∀ c ∈ (imagewriter_execute p.opts work).1, c.Right p.opts
  every : ∀ work : ℕ → Work, (∀ idx, (work idx).Good) →
    (imagewriter_execute p.opts work).1.map Call.entry = p.fats

/-! ## Labels -/

/-- A character that may be anywhere in a label. -/
def Plain (c : UInt8) : Prop := 32 < c ∧ c ∉ LABEL_STOPS

/-- A plain character does not stop the check of a label. -/
theorem plain_stop {c : UInt8} (hc : Plain c) (i : ℕ) : ¬ label_stop i c = true := by
  have h32 : 32 < c.toNat := hc.1
  rw [label_stop, decide_eq_true_eq]
  rintro (hlt | rfl | hstop)
  · split_ifs at hlt <;> omega
  · exact absurd h32 (by decide)
  · exact hc.2 hstop

/-- So the check goes on to the next. -/
theorem oklabel_loop_plain {d : UInt8} (hd : Plain d) (rounds i : ℕ) (c : UInt8) (src : CStr) :
    oklabel_loop (rounds + 1) i c (d :: src) = oklabel_loop rounds (i + 1) d src :=
  if_neg (plain_stop hd i)

/-- A name that ends before the rounds do: the loop is left at its end. -/
theorem oklabel_loop_end {src : CStr} (hsrc : ∀ c ∈ src, Plain c) {rounds i : ℕ} {c : UInt8}
    (hlen : src.length < rounds) : oklabel_loop rounds i c src = (i + src.length, 0) := by
  induction src generalizing rounds i c with
  | nil =>
    obtain ⟨rounds, rfl⟩ := Nat.exists_eq_succ_of_ne_zero (Nat.ne_of_gt hlen)
    rw [oklabel_loop]
    simp only [List.headD_nil]
    exact if_pos (decide_eq_true (.inr (.inl rfl)))
  | cons d src ih =>
    obtain ⟨rounds, rfl⟩ := Nat.exists_eq_succ_of_ne_zero (Nat.ne_of_gt (Nat.zero_lt_of_lt hlen))
    rw [Nat.succ_eq_add_one, oklabel_loop_plain (hsrc d List.mem_cons_self),
      ih (fun e he => hsrc e (List.mem_cons_of_mem d he)) (Nat.lt_of_succ_lt_succ hlen),
      List.length_cons, Nat.add_assoc, Nat.add_comm 1]

/-- A name that does not: the loop is over at a character of it. -/
theorem oklabel_loop_long {src : CStr} (hsrc : ∀ c ∈ src, Plain c) {rounds i : ℕ} {c : UInt8}
    (hc : c ≠ 0 ∨ 0 < rounds) (hlen : rounds ≤ src.length) :
    (oklabel_loop rounds i c src).2 ≠ 0 := by
  induction rounds generalizing i c src with
  | zero =>
    rw [oklabel_loop]
    exact hc.resolve_right (Nat.lt_irrefl 0)
  | succ rounds ih =>
    cases src with
    | nil => exact absurd hlen (Nat.not_succ_le_zero rounds)
    | cons d src =>
      have hd := hsrc d List.mem_cons_self
      have hne : d ≠ 0 := fun h => absurd hd.1 (h ▸ by decide)
      rw [oklabel_loop_plain hd]
      exact ih (fun e he => hsrc e (List.mem_cons_of_mem d he)) (.inl hne)
        (Nat.le_of_succ_le_succ hlen)

/-- Of the plain names, those that have 1 to 11 characters are labels. -/
theorem oklabel_iff {src : CStr} (hsrc : ∀ c ∈ src, Plain c) :
    oklabel src = true ↔ src ≠ [] ∧ src.length ≤ 11 := by
  by_cases hlen : src.length < 12
  · have hloop := oklabel_loop_end hsrc (i := 0) (c := 0) hlen
    rw [oklabel, hloop, Nat.zero_add]
    simp only [decide_eq_true_eq, ne_eq, List.length_eq_zero_iff, and_true]
    exact ⟨fun hne => ⟨hne, by omega⟩, And.left⟩
  · have hloop := oklabel_loop_long hsrc (i := 0) (c := 0) (.inr (by decide))
      (Nat.le_of_not_lt hlen)
    rw [oklabel]
    simp only [decide_eq_true_eq]
    exact ⟨fun h => absurd h.2 hloop, fun h => absurd h.2 (by omega)⟩

/-- The names of an accepted list are plain, and there is something of them. -/
theorem Accepted.plain_entry (p : Accepted) {entry : CStr} (he : entry ∈ entries p.partitions) :
    entry ≠ [] ∧ ∀ c ∈ entry, Plain c := by
  obtain ⟨hne, hsolid⟩ := runs_iff.mpr (entries_eq p.partitions) |>.token he
  refine ⟨hne, fun c hc => ?_⟩
  obtain ⟨hle, hstop⟩ := p.plain entry he c hc
  refine ⟨UInt8.lt_of_le_of_ne hle ?_, hstop⟩
  rintro rfl
  exact absurd (hsolid 32 hc) (by decide)

/-! ## The arguments of a call -/

section Arguments

variable {entry device : CStr} (hdevice : device.head? = some 47) (errno : Bool)
include hdevice

/-- A path is taken as it is. -/
theorem special_path (o : Opts) : special o device = device := by
  have hmem : 47 ∈ device := List.mem_of_mem_head? hdevice
  rw [special, if_neg fun h => h.2 hmem]

/-- The first call reads its label, if it is one, and leaves `optind` at the device. -/
theorem args_first : newfs_msdos_args errno (newfs_argv entry device) .initial
    = if oklabel entry then
        .ret (⟨{ opt_L := some entry, errno }, device, none⟩, ⟨3, []⟩)
      else .die (.bad entry "volume label") := by
  -- -L and its label are two arguments; the device behind them is no option
  have hopt : getopt (newfs_argv entry device) OPTS .initial
      = (some (.opt 76 entry), ⟨3, []⟩) :=
    getopt_separate rfl (by decide) (by decide) rfl
  have hend : ∀ o : Opts, getopt_loop (newfs_argv entry device) OPTS Opts.switch o ⟨3, []⟩
      = .ret (o, ⟨3, []⟩) := fun o =>
    getopt_loop_operand (a := device) rfl (by rw [hdevice]; decide)
  have hswitch : ∀ o : Opts, Opts.switch (.opt 76 entry) o
      = if ¬ oklabel entry then .die (.bad entry "volume label")
        else .ret { o with opt_L := some entry } := fun o => rfl
  rw [newfs_msdos_args, getopt_loop_opt hopt, hswitch]
  by_cases hok : oklabel entry = true
  · rw [if_neg (not_not.mpr hok), if_pos hok]
    simp only [Exec.bind, hend]
    have hdrop : (newfs_argv entry device).drop 3 = [device] := rfl
    rw [hdrop]
    simp only [special_path hdevice]
  · rw [if_pos hok, if_neg hok]
    rfl

/-- A later call is there from the start, and has no label. -/
theorem args_later : newfs_msdos_args errno (newfs_argv entry device) ⟨3, []⟩
    = .ret (⟨{ errno }, device, none⟩, ⟨3, []⟩) := by
  have hend : getopt_loop (newfs_argv entry device) OPTS Opts.switch { errno } ⟨3, []⟩
      = .ret ({ errno }, ⟨3, []⟩) :=
    getopt_loop_operand (a := device) rfl (by rw [hdevice]; decide)
  rw [newfs_msdos_args, hend]
  have hdrop : (newfs_argv entry device).drop 3 = [device] := rfl
  simp only [Exec.bind, hdrop, special_path hdevice]

end Arguments

/-! ## One entry -/

section Entries

variable {opts : Hashmap} {entry device : CStr} {work : Work} {g g' : Getopt}

/-- `c` is a call for its own entry, made when `getopt` knew `g`. -/
def Call.From (opts : Hashmap) (g : Getopt) (c : Call) : Prop :=
  ∃ errno device, opts (partition_key c.entry "device") = some device ∧
    c.parsed = newfs_msdos_args errno (newfs_argv c.entry device) g

/-- What one entry can come to. -/
inductive Turn (opts : Hashmap) (work : Work) (entry : CStr) (g : Getopt) :
    List Call × Exec Stop Getopt → Prop where
  | stuck (r : Exec Stop Getopt) (hr : ∀ g', r ≠ .ret g')
    (hgood : work.Good → gets_past opts entry = false) : Turn opts work entry g ([], r)
  | other (hpast : gets_past opts entry = true) (hfat : formats_fat opts entry = false) :
    Turn opts work entry g ([], .ret g)
  | stopped (c : Call) (r : Exec Stop Getopt) (hentry : c.entry = entry) (hc : c.From opts g)
    (hpast : gets_past opts entry = true) (hfat : formats_fat opts entry = true)
    (hr : ∀ g', r ≠ .ret g') (hgood : work.Good → ∀ r, c.parsed ≠ .ret r) :
    Turn opts work entry g ([c], r)
  | formatted (c : Call) (args : Args) (g' : Getopt) (hentry : c.entry = entry)
    (hc : c.From opts g) (hpast : gets_past opts entry = true)
    (hfat : formats_fat opts entry = true) (hparsed : c.parsed = .ret (args, g')) :
    Turn opts work entry g ([c], .ret g')

/-- Naming an error changes no result. -/
theorem within_eq_ret {ε ε' α : Type} {f : ε → ε'} {x : Exec ε α} {a : α} :
    within f x = .ret a ↔ x = .ret a := by
  cases x <;> simp [within]

/-- An option that must be there is read if it is. -/
theorem field_eq_ret {name : String} {value : CStr} :
    field opts none entry name = .ret value ↔ opts (partition_key entry name) = some value := by
  rw [field, within_eq_ret, hashmapGetPrintf_none]

/-- A decision to format a FAT partition is about the entry's device. -/
theorem device_of_plan {stat : Bool} (h : plan opts stat entry = .ret (.fat device)) :
    opts (partition_key entry "device") = some device := by
  rw [plan] at h
  obtain ⟨type, -, h⟩ := Exec.bind_eq_ret.mp h
  obtain ⟨device', hdevice, h⟩ := Exec.bind_eq_ret.mp h
  obtain ⟨mode, -, h⟩ := Exec.bind_eq_ret.mp h
  split_ifs at h
  rw [task] at h
  split_ifs at h
  · obtain ⟨_, -, h⟩ := Exec.bind_eq_ret.mp h
    obtain ⟨_, -, h⟩ := Exec.bind_eq_ret.mp h
    cases h
  · cases h
    exact field_eq_ret.mp hdevice
  · obtain ⟨_, -, h⟩ := Exec.bind_eq_ret.mp h
    obtain ⟨_, -, h⟩ := Exec.bind_eq_ret.mp h
    cases h
  · cases h
  · cases h

/-- A device that does not appear only keeps a decision from being made. -/
theorem plan_true {stat : Bool} {t : Task} (h : plan opts stat entry = .ret t) :
    plan opts true entry = .ret t := by
  cases stat with
  | true => exact h
  | false =>
    rw [plan] at h
    obtain ⟨_, -, h⟩ := Exec.bind_eq_ret.mp h
    obtain ⟨_, -, h⟩ := Exec.bind_eq_ret.mp h
    obtain ⟨_, -, h⟩ := Exec.bind_eq_ret.mp h
    cases h

/-- Whether the values of three options that are there say something that can be done, and whether
that is a FAT file system. -/
theorem options_of_given {type device mode : CStr}
    (htype : opts (partition_key entry "type") = some type)
    (hdevice : opts (partition_key entry "device") = some device)
    (hmode : opts (partition_key entry "mode") = some mode) :
    (formats_fat opts entry = true ↔
      mode = cstr "format" ∧ (type = cstr "vfat" ∨ type = cstr "esp")) ∧
    (gets_past opts entry = true ↔
      mode = cstr "format" ∧ (type = cstr "vfat" ∨ type = cstr "esp" ∨
        type = cstr "ext4" ∧ footer_fits opts entry = true) ∨
      mode = cstr "image" ∧ option_given opts entry "src" = true ∨
      mode = cstr "zero" ∨ mode = cstr "skip") := by
  unfold gets_past formats_fat option_in
  rw [option_given, option_given, htype, hdevice, hmode]
  simp only [Option.any_some, Option.isSome_some, List.mem_cons, List.not_mem_nil, or_false,
    Bool.and_eq_true, Bool.or_eq_true, decide_eq_true_eq, true_and]
  tauto

/-- What `xatol` returns for: a number in the range of a `long`. -/
theorem xatol_returns_iff {footer : CStr} : (∃ n, xatol footer = .ret n) ↔
    ((numeral 10 footer).any fun n => -2 ^ 63 ≤ n ∧ n < 2 ^ 63) = true := by
  rw [xatol, xato]
  cases numeral 10 footer with
  | none => simp
  | some z =>
    simp only [Option.any_some, decide_eq_true_eq]
    split_ifs with hout
    · simp only [exists_false, false_iff]
      omega
    · exact ⟨fun _ => by omega, fun _ => ⟨_, rfl⟩⟩

/-- The footer of an "ext4" file system is read if it fits, and if there is none. -/
theorem footer_fits_iff : footer_fits opts entry = true ↔
    ∃ footer n, field opts (some (cstr "0")) entry "footer" = .ret footer ∧
      xatol footer = .ret n := by
  rw [footer_fits, field, hashmapGetPrintf]
  cases opts (partition_key entry "footer") with
  | none => exact ⟨fun _ => ⟨cstr "0", 0, rfl, rfl⟩, fun _ => rfl⟩
  | some footer =>
    rw [Option.all_some, ← xatol_returns_iff]
    simp only [within, Exec.ret.injEq, exists_eq_left', exists_and_left]

/-- `task` decides by the mode and the type. -/
theorem task_ret {type mode : CStr} {t : Task}
    (h : task opts entry type device mode = .ret t) :
    (mode = cstr "format" ∧ (type = cstr "vfat" ∨ type = cstr "esp") ∧ t = .fat device) ∨
      t.isFat = false ∧ ¬ (mode = cstr "format" ∧ (type = cstr "vfat" ∨ type = cstr "esp")) ∧
        (mode = cstr "format" ∧ type = cstr "ext4" ∧ footer_fits opts entry = true ∨
          mode = cstr "image" ∧ option_given opts entry "src" = true ∨
          mode = cstr "zero" ∨ mode = cstr "skip") := by
  rw [task] at h
  -- The branches of `execute_cb`, in its order.
  split_ifs at h with hformat hext4 hfat himage hzero hskip
  · obtain ⟨footer, hfooter, h⟩ := Exec.bind_eq_ret.mp h
    obtain ⟨n, hn, h⟩ := Exec.bind_eq_ret.mp h
    injection h with h
    subst h hext4
    refine .inr ⟨rfl, fun hf => absurd hf.2 (by decide), .inl ⟨hformat, rfl, ?_⟩⟩
    exact footer_fits_iff.mpr ⟨footer, n, hfooter, within_eq_ret.mp hn⟩
  · injection h with h
    exact .inl ⟨hformat, hfat, h.symm⟩
  · obtain ⟨src, hsrc, h⟩ := Exec.bind_eq_ret.mp h
    obtain ⟨check, -, h⟩ := Exec.bind_eq_ret.mp h
    injection h with h
    subst h
    refine .inr ⟨rfl, fun hf => hformat hf.1, .inr (.inl ⟨himage, ?_⟩)⟩
    rw [option_given, field_eq_ret.mp hsrc]
    rfl
  · injection h with h
    subst h
    exact .inr ⟨rfl, fun hf => hformat hf.1, .inr (.inr (.inl hzero))⟩
  · injection h with h
    subst h
    exact .inr ⟨rfl, fun hf => hformat hf.1, .inr (.inr (.inr hskip))⟩

/-- `execute_cb` comes to a decision about the partitions whose options say what can be done, and
to the decision they say. -/
theorem plan_ret {t : Task} (h : plan opts true entry = .ret t) :
    gets_past opts entry = true ∧ formats_fat opts entry = t.isFat := by
  rw [plan] at h
  obtain ⟨type, htype, h⟩ := Exec.bind_eq_ret.mp h
  obtain ⟨device, hdevice, h⟩ := Exec.bind_eq_ret.mp h
  obtain ⟨mode, hmode, h⟩ := Exec.bind_eq_ret.mp h
  rw [if_pos rfl] at h
  obtain ⟨hfat, hpast⟩ := options_of_given (field_eq_ret.mp htype) (field_eq_ret.mp hdevice)
    (field_eq_ret.mp hmode)
  rcases task_ret h with ⟨hformat, hkind, rfl⟩ | ⟨hother, hno, hsome⟩
  · refine ⟨hpast.mpr (.inl ⟨hformat, hkind.elim .inl fun h => .inr (.inl h)⟩), ?_⟩
    exact hfat.mpr ⟨hformat, hkind⟩
  · rw [hother]
    refine ⟨hpast.mpr ?_, Bool.eq_false_iff.mpr fun hf => hno (hfat.mp hf)⟩
    exact hsome.imp (fun ⟨hm, ht, hn⟩ => ⟨hm, .inr (.inr ⟨ht, hn⟩)⟩) id

/-- The footer of an image has a default and is only taken for a number. -/
theorem image_check_ret (type : CStr) : ∃ check, image_check opts entry type = .ret check := by
  rw [image_check, field, hashmapGetPrintf]
  split_ifs
  · cases opts (partition_key entry "footer") <;> exact ⟨_, rfl⟩
  · exact ⟨_, rfl⟩
  · exact ⟨_, rfl⟩

/-- An entry that is got past has a plan. -/
theorem plan_of_gets_past (h : gets_past opts entry = true) :
    ∃ t, plan opts true entry = .ret t := by
  have hgiven := h
  rw [gets_past, Bool.and_eq_true, Bool.and_eq_true] at hgiven
  obtain ⟨⟨htype, hdevice⟩, hdecided⟩ := hgiven
  obtain ⟨type, htype⟩ := Option.isSome_iff_exists.mp htype
  obtain ⟨device, hdevice⟩ := Option.isSome_iff_exists.mp hdevice
  cases hmode : opts (partition_key entry "mode") with
  | none =>
    have hno : ∀ values, option_in opts entry "mode" values = false := fun values => by
      rw [option_in, hmode, Option.any_none]
    rw [formats_fat, hno, hno, hno] at hdecided
    exact absurd hdecided (by simp)
  | some mode =>
    have hplan : plan opts true entry = task opts entry type device mode := by
      rw [plan, field_eq_ret.mpr htype, field_eq_ret.mpr hdevice, field_eq_ret.mpr hmode]
      rfl
    rw [hplan, task]
    -- The ways past an entry: formatting as FAT or ext4, an image, `zero` and `skip`.
    rcases (options_of_given htype hdevice hmode).2.mp h with
      ⟨rfl, hfat | hfat | ⟨rfl, hfits⟩⟩ | ⟨rfl, hsrc⟩ | rfl | rfl
    · subst hfat
      exact ⟨_, rfl⟩
    · subst hfat
      exact ⟨_, rfl⟩
    · obtain ⟨footer, n, hfooter, hn⟩ := footer_fits_iff.mp hfits
      rw [if_pos rfl, if_pos rfl, hfooter]
      exact ⟨_, by rw [Exec.ret_bind, hn]; rfl⟩
    · obtain ⟨src, hsrc⟩ := Option.isSome_iff_exists.mp hsrc
      obtain ⟨check, hcheck⟩ : ∃ check, image_check opts entry type = .ret check :=
        image_check_ret type
      rw [if_neg (by decide), if_pos rfl, field_eq_ret.mpr hsrc]
      exact ⟨_, by rw [Exec.ret_bind, hcheck]; rfl⟩
    · exact ⟨_, rfl⟩
    · exact ⟨_, rfl⟩

/-- Filling a partition goes well, or stops the plug-in. -/
theorem fill_cases (work : Work) (entry : CStr) (g : Getopt) :
    work.fill entry g = .ret g ∨ work.fill entry g = .die (.failed entry) ∧ ¬ work.Good := by
  rw [Work.fill]
  split_ifs with hfilled
  · exact .inl rfl
  · exact .inr ⟨rfl, fun hgood => hfilled hgood.2⟩

/-- What one turn of the plug-in does with an entry. -/
theorem execute_cb_turn (opts : Hashmap) (work : Work) (entry : CStr) (g : Getopt) :
    Turn opts work entry g (execute_cb opts work entry g) := by
  -- a run that does not come to a decision
  have hstuck : ∀ r : Exec Stop Getopt, (∀ g', r ≠ .ret g') →
      (∀ t, plan opts work.stat entry ≠ .ret t) → Turn opts work entry g ([], r) := by
    intro r hr hplan
    refine .stuck r hr fun hgood => ?_
    rw [hgood.1] at hplan
    refine Bool.eq_false_iff.mpr fun hpast => ?_
    obtain ⟨t, ht⟩ := plan_of_gets_past hpast
    exact hplan t ht
  rw [execute_cb]
  cases hplan : plan opts work.stat entry with
  | die e => exact hstuck _ (fun g' h => by cases h) fun t h => by rw [hplan] at h; cases h
  | fault => exact hstuck _ (fun g' h => by cases h) fun t h => by rw [hplan] at h; cases h
  | hang => exact hstuck _ (fun g' h => by cases h) fun t h => by rw [hplan] at h; cases h
  | ret t =>
    obtain ⟨hpast, hfat⟩ := plan_ret (plan_true hplan)
    -- a decision for anything but a FAT file system
    have hother : t.isFat = false →
        Turn opts work entry g ([], work.fill entry g) := by
      intro ht
      rcases fill_cases work entry g with hfill | ⟨hfill, hbad⟩
      · rw [hfill]
        exact .other hpast (hfat.trans ht)
      · rw [hfill]
        exact .stuck _ (fun g' h => by cases h) fun hgood => absurd hgood hbad
    cases t with
    | ext4 device footer => exact hother rfl
    | image src device check => exact hother rfl
    | zero device => exact hother rfl
    | skip => exact hother rfl
    | fat device =>
      simp only
      set parsed := newfs_msdos_args work.errno (newfs_argv entry device) g with hparsed
      have hc : Call.From opts g ⟨entry, parsed⟩ :=
        ⟨work.errno, device, device_of_plan hplan, hparsed⟩
      cases hp : parsed with
      | ret r =>
        obtain ⟨args, g'⟩ := r
        rw [hp] at hc
        simp only [within, Exec.bind]
        rcases fill_cases work entry g' with hfill | ⟨hfill, hbad⟩
        · rw [hfill]
          exact .formatted _ args g' rfl hc hpast hfat rfl
        · rw [hfill]
          exact .stopped _ _ rfl hc hpast hfat (fun g' h => by cases h) fun hgood =>
            absurd hgood hbad
      | die e =>
        rw [hp] at hc
        exact .stopped _ _ rfl hc hpast hfat (fun g' h => by cases h) fun _ r h => by cases h
      | fault =>
        rw [hp] at hc
        exact .stopped _ _ rfl hc hpast hfat (fun g' h => by cases h) fun _ r h => by cases h
      | hang =>
        rw [hp] at hc
        exact .stopped _ _ rfl hc hpast hfat (fun g' h => by cases h) fun _ r h => by cases h

end Entries

/-! ## All entries -/

section Run

variable {opts : Hashmap} {work : ℕ → Work} {entry : CStr} {list : List CStr} {idx : ℕ}
  {g g' : Getopt} {calls : List Call} {c : Call}

/-- The turn that stops is the last. -/
theorem execute_from_stop {r : Exec Stop Getopt}
    (h : execute_cb opts (work idx) entry g = (calls, r)) (hr : ∀ g', r ≠ .ret g') :
    execute_from opts work idx (entry :: list) g = (calls, r) := by
  rw [execute_from, h]
  cases r with
  | ret g' => exact absurd rfl (hr g')
  | die e => rfl
  | fault => rfl
  | hang => rfl

theorem execute_from_next (h : execute_cb opts (work idx) entry g = (calls, .ret g')) :
    (execute_from opts work idx (entry :: list) g).1
      = calls ++ (execute_from opts work (idx + 1) list g').1 := by
  rw [execute_from, h]

/-- The entries to be formatted, behind one that is got past. -/
theorem fat_entries_past (hpast : gets_past opts entry = true) :
    fat_entries opts (entry :: list)
      = if formats_fat opts entry then entry :: fat_entries opts list
        else fat_entries opts list := by
  rw [fat_entries, List.takeWhile_cons_of_pos hpast, List.filter_cons]
  rfl

theorem fat_entries_stuck (hpast : gets_past opts entry = false) :
    fat_entries opts (entry :: list) = [] := by
  rw [fat_entries, List.takeWhile_cons_of_neg (by rw [hpast]; decide), List.filter_nil]

/-- Calls one after the other, each of which finds `getopt` as the one before has left it. -/
inductive Chained (opts : Hashmap) : Getopt → List Call → Prop where
  | nil (g : Getopt) : Chained opts g []
  | last {g : Getopt} {c : Call} (hc : c.From opts g) : Chained opts g [c]
  | next {g g' : Getopt} {c : Call} {args : Args} {calls : List Call} (hc : c.From opts g)
    (hparsed : c.parsed = .ret (args, g')) (hcalls : Chained opts g' calls) :
    Chained opts g (c :: calls)

/-- What the iteration over a list has done: one call after the other, for the first of the
partitions to format, and for all of them if nothing goes wrong. -/
structure Executed (opts : Hashmap) (work : ℕ → Work) (g : Getopt) (list : List CStr)
    (calls : List Call) : Prop where
  chained : Chained opts g calls
  first : calls.map Call.entry <+: fat_entries opts list
  all : (∀ idx, (work idx).Good) → (∀ c ∈ calls, ∃ r, c.parsed = .ret r) →
    calls.map Call.entry = fat_entries opts list

/-- The calls of a run are those its turns make. -/
theorem execute_from_executed (list : List CStr) (idx : ℕ) (g : Getopt) :
    Executed opts work g list (execute_from opts work idx list g).1 := by
  induction list generalizing idx g with
  | nil => exact ⟨.nil g, List.prefix_rfl, fun _ _ => rfl⟩
  | cons entry list ih =>
    have hturn := execute_cb_turn opts (work idx) entry g
    generalize hcb : execute_cb opts (work idx) entry g = x at hturn
    cases hturn with
    | stuck r hr hgood =>
      -- this entry ends the iteration without a call
      rw [execute_from_stop hcb hr]
      refine ⟨.nil g, List.nil_prefix, fun hwork _ => ?_⟩
      rw [fat_entries_stuck (hgood (hwork idx))]
      rfl
    | other hpast hfat =>
      rw [execute_from_next hcb, List.nil_append]
      -- nothing to format here, and `getopt` has not been called
      have hrest := ih (idx + 1) g
      have hlist : fat_entries opts (entry :: list) = fat_entries opts list := by
        rw [fat_entries_past hpast, hfat]
        rfl
      exact ⟨hrest.chained, hlist ▸ hrest.first, hlist ▸ hrest.all⟩
    | stopped c r hentry hc hpast hfat hr hgood =>
      rw [execute_from_stop hcb hr]
      refine ⟨.last hc, ?_, fun hwork hret => ?_⟩
      · rw [fat_entries_past hpast, if_pos hfat, List.map_singleton, hentry]
        exact List.prefix_cons_inj entry |>.mpr List.nil_prefix
      · -- the last call did not return, or there was another failure
        obtain ⟨r', hr'⟩ := hret c List.mem_cons_self
        exact absurd hr' (hgood (hwork idx) r')
    | formatted c args g' hentry hc hpast hfat hparsed =>
      rw [execute_from_next hcb, List.singleton_append]
      -- the next call finds `getopt` as this one has left it
      have hrest := ih (idx + 1) g'
      refine ⟨.next hc hparsed hrest.chained, ?_, fun hwork hret => ?_⟩
      · rw [fat_entries_past hpast, if_pos hfat, List.map_cons, hentry]
        exact List.prefix_cons_inj entry |>.mpr hrest.first
      · rw [fat_entries_past hpast, if_pos hfat, List.map_cons, hentry,
          hrest.all hwork fun c' hc' => hret c' (List.mem_cons_of_mem c hc')]

/-- So are those of the plug-in. -/
theorem Accepted.executed (p : Accepted) (work : ℕ → Work) :
    Executed p.opts work .initial (entries p.partitions) (imagewriter_execute p.opts work).1 := by
  rw [imagewriter_execute, hashmapGetPrintf_none.mpr p.listed]
  exact execute_from_executed _ 0 _

/-- What is formatted is in the list. -/
theorem fat_entries_subset (hentry : entry ∈ fat_entries opts list) : entry ∈ list :=
  List.takeWhile_subset _ (List.mem_filter.mp hentry).1

/-- A call is for an entry of the list. -/
theorem Executed.mem (h : Executed opts work g list calls) (hc : c ∈ calls) : c.entry ∈ list :=
  fat_entries_subset (h.first.subset (List.mem_map_of_mem hc))

end Run

/-! ## When it goes right -/

section Right

variable {p : Accepted} {c : Call} {calls : List Call} {work : ℕ → Work}

/-- What becomes of the first call. -/
theorem Call.From.first (hc : c.From p.opts .initial) (hmem : c.entry ∈ entries p.partitions) :
    (oklabel c.entry = true ∧ c.Right p.opts ∧
        ∀ args g, c.parsed = .ret (args, g) → g = ⟨3, []⟩) ∨
      oklabel c.entry = false ∧ c.parsed = .die (.bad c.entry "volume label") := by
  obtain ⟨errno, device, hdevice, hparsed⟩ := hc
  rw [args_first (p.device c.entry hmem device hdevice)] at hparsed
  by_cases hok : oklabel c.entry = true
  · rw [if_pos hok] at hparsed
    refine .inl ⟨hok, ⟨_, _, hparsed, hdevice, rfl⟩, fun args g hret => ?_⟩
    rw [hparsed, Exec.ret.injEq, Prod.mk.injEq] at hret
    exact hret.2.symm
  · rw [if_neg hok] at hparsed
    exact .inr ⟨Bool.eq_false_iff.mpr hok, hparsed⟩

/-- The device is the right one, and there is no label. -/
def Call.Unlabelled (opts : Hashmap) (c : Call) : Prop :=
  ∃ args, c.parsed = .ret (args, ⟨3, []⟩) ∧
    opts (partition_key c.entry "device") = some args.fname ∧ args.opts.opt_L = none

/-- A call that starts with the index of an earlier one has no label. -/
theorem Call.From.later (hc : c.From p.opts ⟨3, []⟩) (hmem : c.entry ∈ entries p.partitions) :
    c.Unlabelled p.opts := by
  obtain ⟨errno, device, hdevice, hparsed⟩ := hc
  rw [args_later (p.device c.entry hmem device hdevice)] at hparsed
  exact ⟨_, hparsed, hdevice, rfl⟩

/-- Once `optind` is at the device it stays there. -/
theorem Chained.later (h : Chained p.opts ⟨3, []⟩ calls)
    (hmem : ∀ c ∈ calls, c.entry ∈ entries p.partitions) : ∀ c ∈ calls, c.Unlabelled p.opts := by
  generalize hg : (⟨3, []⟩ : Getopt) = g at h
  induction h with
  | nil g => exact fun c hc => absurd hc List.not_mem_nil
  | last hc =>
    subst hg
    intro c' hc'
    rw [List.mem_singleton.mp hc']
    exact hc.later (hmem _ List.mem_cons_self)
  | next hc hparsed hcalls ih =>
    subst hg
    have hfirst := hc.later (hmem _ List.mem_cons_self)
    obtain ⟨args, hret, -⟩ := hfirst
    rw [hparsed, Exec.ret.injEq, Prod.mk.injEq] at hret
    intro c' hc'
    rcases List.mem_cons.mp hc' with rfl | hc'
    · exact hc.later (hmem _ List.mem_cons_self)
    · exact ih (fun c hc => hmem c (List.mem_cons_of_mem _ hc)) hret.2.symm c' hc'

theorem Chained.head {g : Getopt} (h : Chained p.opts g (c :: calls)) : c.From p.opts g := by
  cases h with
  | last hc => exact hc
  | next hc hparsed hcalls => exact hc

/-- All behind the first are without a label. -/
theorem Chained.behind (h : Chained p.opts .initial calls)
    (hmem : ∀ c ∈ calls, c.entry ∈ entries p.partitions) :
    ∀ c ∈ calls.tail, c.Unlabelled p.opts := by
  cases h with
  | nil g => exact fun c hc => absurd hc List.not_mem_nil
  | last hc => exact fun c hc => absurd hc List.not_mem_nil
  | next hc hparsed hcalls =>
    rcases hc.first (hmem _ List.mem_cons_self) with ⟨-, -, hg⟩ | ⟨-, hdie⟩
    · rw [hg _ _ hparsed] at hcalls
      exact hcalls.later fun c hc => hmem c (List.mem_cons_of_mem _ hc)
    · rw [hdie] at hparsed
      cases hparsed

/-- **Every call but the first formats its device without a label**, in every run. -/
theorem later_calls_unlabelled (p : Accepted) (work : ℕ → Work) :
    ∀ c ∈ (imagewriter_execute p.opts work).1.tail, c.Unlabelled p.opts :=
  (p.executed work).chained.behind fun _ hc => (p.executed work).mem hc

/-- And so they are not what they should be. -/
theorem Call.Unlabelled.not_right (h : c.Unlabelled p.opts) : ¬ c.Right p.opts := by
  rintro ⟨args, g, hparsed, -, hlabel⟩
  obtain ⟨args', hparsed', -, hnone⟩ := h
  rw [hparsed, Exec.ret.injEq, Prod.mk.injEq] at hparsed'
  rw [hparsed'.1, hnone] at hlabel
  cases hlabel

/-- The work with nothing going wrong. -/
def smooth : ℕ → Work := fun _ => ⟨true, false, true⟩

/-- Where nothing goes wrong, every filling goes well. -/
theorem smooth_good (idx : ℕ) : (smooth idx).Good := ⟨rfl, rfl⟩

/-- If all calls are right, a call is the first. -/
theorem FormatsRight.alone (h : FormatsRight p) (hc : c ∈ (imagewriter_execute p.opts work).1) :
    (imagewriter_execute p.opts work).1 = [c] := by
  have hlater := later_calls_unlabelled p work
  have hright := h.right work
  generalize (imagewriter_execute p.opts work).1 = calls at *
  match calls, hlater, hright with
  | [], _, _ => exact absurd hc List.not_mem_nil
  | [c'], _, _ => rw [List.mem_singleton.mp hc]
  | c₁ :: c₂ :: calls, hlater, hright =>
    exact absurd (hright c₂ (List.mem_cons_of_mem _ List.mem_cons_self))
      (hlater c₂ List.mem_cons_self).not_right

/-- If all are right, there is one at most. -/
theorem FormatsRight.le_one (h : FormatsRight p) : p.fats.length ≤ 1 := by
  rw [← h.every smooth smooth_good, List.length_map]
  by_contra hlen
  obtain ⟨c, hc⟩ := List.exists_mem_of_length_pos (Nat.zero_lt_of_lt (Nat.lt_of_not_le hlen))
  rw [h.alone hc] at hlen
  exact hlen (Nat.le_refl 1)

/-- And it has a name that can be a label. -/
theorem FormatsRight.short (h : FormatsRight p) {entry : CStr} (he : entry ∈ p.fats) :
    entry.length ≤ 11 := by
  have hex := p.executed smooth
  rw [← h.every smooth smooth_good] at he
  obtain ⟨c, hc, rfl⟩ := List.mem_map.mp he
  have hmem := hex.mem hc
  obtain ⟨args, g, hparsed, -⟩ := h.right smooth c hc
  have hchained := hex.chained
  rw [h.alone hc] at hchained
  rcases hchained.head.first hmem with ⟨hok, -, -⟩ | ⟨-, hdie⟩
  · exact ((oklabel_iff (p.plain_entry hmem).2).mp hok).2
  · rw [hdie] at hparsed
    cases hparsed

/-- **When every FAT partition is formatted under its own name, and none ends the process**: if
there is at most one to format, and its name has 11 characters at most. -/
theorem formats_right_iff (p : Accepted) :
    FormatsRight p ↔ p.fats.length ≤ 1 ∧ ∀ entry ∈ p.fats, entry.length ≤ 11 := by
  refine ⟨fun h => ⟨h.le_one, fun entry he => h.short he⟩, fun ⟨hone, hshort⟩ => ?_⟩
  have hright : ∀ work, ∀ c ∈ (imagewriter_execute p.opts work).1, c.Right p.opts := by
    intro work c hc
    have hex := p.executed work
    have hmem := hex.mem hc
    have hfat : c.entry ∈ p.fats := hex.first.subset (List.mem_map_of_mem hc)
    have hlen : (imagewriter_execute p.opts work).1.length ≤ 1 := by
      rw [← List.length_map (f := Call.entry)]
      exact hex.first.length_le.trans hone
    -- so it is the only one
    obtain ⟨c', hc'⟩ := List.length_eq_one_iff.mp (hlen.antisymm (List.length_pos_of_mem hc))
    have hchained := hex.chained
    rw [hc'] at hc hchained
    rw [← List.mem_singleton.mp hc] at hchained
    have hok : oklabel c.entry = true :=
      (oklabel_iff (p.plain_entry hmem).2).mpr ⟨(p.plain_entry hmem).1, hshort _ hfat⟩
    rcases hchained.head.first hmem with ⟨-, hright, -⟩ | ⟨hbad, -⟩
    · exact hright
    · exact absurd hok (Bool.eq_false_iff.mp hbad)
  refine ⟨hright, fun work hwork => (p.executed work).all hwork fun c hc => ?_⟩
  obtain ⟨args, g, hparsed, -⟩ := hright work c hc
  exact ⟨_, hparsed⟩

end Right

/-! ### A second partition, and a long name -/

/-- The options of partitions to format as "vfat", with their devices. -/
def vfat_options : List (CStr × CStr) → List (CStr × CStr)
  | [] => []
  | (entry, device) :: list =>
    (partition_key entry "mode", cstr "format") :: (partition_key entry "type", cstr "vfat") ::
      (partition_key entry "device", device) :: vfat_options list

/-- Two of them. -/
def two_fat : Accepted where
  opts key := ((BASE_PTN_LIST, cstr "bootloader bootloader2") ::
    vfat_options [(cstr "bootloader", cstr "/dev/block/sda1"),
      (cstr "bootloader2", cstr "/dev/block/sda2")]).lookup key
  partitions := cstr "bootloader bootloader2"
  listed := by decide +kernel
  short := by decide +kernel
  plain := by decide +kernel
  device := by decide +kernel

/-- One whose name has 14 characters. -/
def long_fat : Accepted where
  opts key := ((BASE_PTN_LIST, cstr "bootloader_two") ::
    vfat_options [(cstr "bootloader_two", cstr "/dev/block/sda1")]).lookup key
  partitions := cstr "bootloader_two"
  listed := by decide +kernel
  short := by decide +kernel
  plain := by decide +kernel
  device := by decide +kernel

/-- Two partitions are one too many, and so is a long name. -/
theorem not_formats_right : ¬ FormatsRight two_fat ∧ ¬ FormatsRight long_fat := by
  constructor
  · intro h
    exact absurd h.le_one (by decide +kernel)
  · intro h
    exact absurd (h.short (by decide +kernel : cstr "bootloader_two" ∈ long_fat.fats))
      (by decide +kernel)

end NewfsMsdos

end Iago
