/-
What is outside the installer's process, and the helpers of `util.c` that reach for it.

The outside is the files on every file system that is mounted while the plug-ins run, the
mounts, and the programs that have been run. A path is looked up under the mounts there are
when it is opened, so a file can land on another file system than the one it is meant for.
How a call comes out is a matter of its number (`Fate`); what is proved holds for every fate.

`mount_partition_device` takes `EBUSY` for success and `nftw` is not asked whether it has
removed anything. Both are left to the fate.

The text of a file is put down by `xopen`, some calls of `put_string` and `xclose`. `Written`
is what such a sequence has done so far: one file has changed, and nothing else.
-/
import Iago.CopyFile
import Iago.FsChecks
import Iago.NewfsMsdos
import Iago.Paths
import Mathlib.Logic.Function.Basic

set_option autoImplicit false

namespace Iago

namespace Util

/-- What `xwrite` has written when it returns, whatever the calls did. -/
theorem xwrite_puts {ws ws' : List IoRes} {ofd ofd' : Dest} {buf : List UInt8} {t t' : ℕ}
    (h : xwrite ws ofd buf t = .ret (t', ofd', ws')) : ofd' = ofd.put buf := by
  induction ws generalizing ofd buf t with
  | nil =>
    cases buf with
    | nil =>
      rw [xwrite] at h
      simp only [Exec.ret.injEq, Prod.mk.injEq] at h
      rw [Dest.put_nil, h.2.1]
    | cons b buf => cases h
  | cons w ws ih =>
    cases buf with
    | nil =>
      rw [xwrite] at h
      simp only [Exec.ret.injEq, Prod.mk.injEq] at h
      rw [Dest.put_nil, h.2.1]
    | cons b buf =>
      -- What a call leaves of the buffer is what the next one writes.
      cases w with
      | err => cases h
      | eintr => exact ih h
      | all =>
        have hput := ih h
        rw [hput, Dest.put_put, List.take_append_drop]
      | upto n =>
        have hput := ih h
        rw [hput, Dest.put_put, List.take_append_drop]

/-- And what `__dd` has: a beginning of the source. -/
theorem dd_loop_puts {fuel t t' : ℕ} {rs ws : List IoRes} {src : List UInt8} {ofd ofd' : Dest}
    (h : dd_loop fuel rs ws src ofd t = .ret (t', ofd')) : ∃ n, ofd' = ofd.put (src.take n) := by
  induction fuel generalizing rs ws src ofd t with
  | zero => cases h
  | succ fuel ih =>
    obtain ⟨⟨buf, src', rs'⟩, hread, h⟩ := Exec.bind_eq_ret.mp h
    simp only at h
    split_ifs at h with hbuf
    · simp only [Exec.ret.injEq, Prod.mk.injEq] at h
      exact ⟨0, by rw [List.take_zero, Dest.put_nil, h.2]⟩
    obtain ⟨⟨written, ofd₁, ws'⟩, hwrite, h⟩ := Exec.bind_eq_ret.mp h
    obtain ⟨n, hn⟩ := ih h
    -- the bytes that were read are the first ones of the source
    have hsplit : src = buf ++ src' := by
      cases rs with
      | nil => cases hread
      | cons r rs =>
        by_cases herr : r = .err
        · rw [herr] at hread
          cases hread
        by_cases hintr : r = .eintr
        · rw [hintr, robust_read_interrupted] at hread
          simp only [Exec.ret.injEq, Prod.mk.injEq] at hread
          rw [← hread.1, ← hread.2.1, List.nil_append]
        · rw [robust_read_short herr hintr] at hread
          simp only [Exec.ret.injEq, Prod.mk.injEq] at hread
          rw [← hread.1, ← hread.2.1, List.take_append_drop]
    refine ⟨buf.length + n, ?_⟩
    rw [hn, xwrite_puts hwrite, Dest.put_put, hsplit, List.take_length_add_append]

end Util

namespace Dest

/-- An empty file fits anywhere. -/
theorem empty_le : 0 ≤ ([] : List UInt8).length := Nat.le_refl 0

/-- Writing from the start of a file leaves what is behind. -/
theorem put_start {f : Dest} (h : f.pos = 0) (text : List UInt8) :
    (f.put text).bytes = text ++ f.bytes.drop text.length := by
  rw [put]
  simp only [h, List.take_zero, List.nil_append, Nat.zero_add]

/-- In an empty file there is nothing behind. -/
theorem put_empty {f : Dest} (h : f.bytes = []) (text : List UInt8) : (f.put text).bytes = text := by
  have hpos : f.pos = 0 := by
    have hle := f.pos_le
    rw [h] at hle
    exact Nat.le_zero.mp hle
  rw [put_start hpos, h, List.drop_nil, List.append_nil]

/-- Writing at the end of a file adds to it. -/
theorem put_end {f : Dest} (h : f.pos = f.bytes.length) (text : List UInt8) :
    (f.put text).bytes = f.bytes ++ text := by
  rw [put]
  simp only [h, List.take_length, List.drop_of_length_le (Nat.le_add_right _ _), List.append_nil]

end Dest

namespace Installer

open NewfsMsdos (within within_eq_ret)
open FsChecks (WaitStatus FsckDie)

/-! ## How calls come out -/

inductive MountRes where
  | ok
  | busy
  | err
  deriving DecidableEq

/-- How the calls of a run come out, by their number: whether a call gets through that does
or does not; what `mount` says, what a removal takes with it, how `read` and `write` cut a
transfer, and the status of a program. -/
structure Fate where
  ok : ℕ → Bool
  mount : ℕ → MountRes
  removes : ℕ → List CStr → Bool
  reads : ℕ → List IoRes
  writes : ℕ → List IoRes
  /-- whether there is a `/system/bin/sh` -/
  shell : Bool
  status : ℕ → WaitStatus

/-- Why the process ends. -/
inductive Fatal where
  | util (e : Die)
  | stop (e : NewfsMsdos.Stop)
  | command (e : FsckDie)
  | mkdir
  | mount
  | close
  | mkdtemp
  | syslinux (rv : ℤ)
  | efibootmgr (status : ℤ)
  | load_ini (path : CStr)
  | no_ini
  | no_gui

/-! ## The outside -/

/-- A file system, or none if no plug-in has mounted it, and a path in it. -/
abbrev Place := Option CStr × List CStr

/-- A program that has been run: by the shell, or with its arguments. -/
inductive Program where
  | shell (cmd : CStr)
  | direct (argv : List CStr)
  deriving DecidableEq

structure Host where
  files : Place → Option (List UInt8)
  /-- directories, and the devices mounted on them; the last one first -/
  mounts : List (List CStr × CStr)
  /-- whole disks, by their nodes -/
  disks : CStr → Dev
  /-- the programs, and how they ended; the last one last -/
  ran : List (Program × WaitStatus)
  calls : ℕ

namespace Host

/-- A call has been made. -/
def tick (w : Host) : Host := { w with calls := w.calls + 1 }

/-- Where a path leads. -/
def place (w : Host) (path : CStr) : Place := Path.locate w.mounts (Path.resolve path)

/-- The file there now holds `bytes`. -/
def put (w : Host) (p : Place) (bytes : List UInt8) : Host :=
  { w with files := Function.update w.files p (some bytes) }

/-- The disk with this node is now `d`. -/
def setDisk (w : Host) (node : CStr) (d : Dev) : Host :=
  { w with disks := Function.update w.disks node d }

end Host

variable (fate : Fate)

/-- A call that gets through or does not. -/
def call (e : Fatal) (w : Host) : Exec Fatal Host :=
  if fate.ok w.calls then .ret w.tick else .die e

/-! ## `util.c` -/

/-- `xmkdir`; that there is such a directory is all right. -/
def xmkdir (_path : CStr) (w : Host) : Exec Fatal Host := call fate .mkdir w

/-- `mount_partition_device`. -/
def mount_partition_device (device _type mountpoint : CStr) (w : Host) : Exec Fatal Host := do
  let w ← xmkdir fate mountpoint w
  match fate.mount w.calls with
  | .ok => .ret { w.tick with mounts := (Path.resolve mountpoint, device) :: w.mounts }
  | .busy => .ret w.tick
  | .err => .die .mount

/-- `umount`, of which nobody asks how it came out. -/
def umount (mountpoint : CStr) (w : Host) : Host :=
  if fate.ok w.calls then
    { w.tick with mounts := w.mounts.eraseP fun m => m.1 = Path.resolve mountpoint }
  else w.tick

/-- A descriptor open for writing. -/
structure Fd where
  place : Place
  dest : Dest

/-- The flags of `xopen` besides `O_WRONLY`. -/
structure Flags where
  creat : Bool
  trunc : Bool
  append : Bool

/-- `xopen` for writing. -/
def xopen (pathname : CStr) (flags : Flags) (w : Host) : Exec Fatal (Fd × Host) := do
  let w' ← call fate (.util (.open_file pathname)) w
  match w.files (w.place pathname) with
  | none =>
    if flags.creat then .ret (⟨w.place pathname, ⟨[], 0, Dest.empty_le⟩⟩, w'.put (w.place pathname) [])
    else .die (.util (.open_file pathname))
  | some bytes =>
    let bytes := if flags.trunc then [] else bytes
    let dest : Dest := if flags.append then ⟨bytes, bytes.length, Nat.le_refl _⟩
      else ⟨bytes, 0, Nat.zero_le _⟩
    .ret (⟨w.place pathname, dest⟩, w'.put (w.place pathname) bytes)

/-- `put_string`, and `xwrite` of a string: the same loop. -/
def put_string (text : CStr) (fd : Fd) (w : Host) : Exec Fatal (Fd × Host) := do
  let (_, dest, _) ← within .util (Util.xwrite (fate.writes w.calls) fd.dest text 0)
  .ret (⟨fd.place, dest⟩, w.tick.put fd.place dest.bytes)

/-- `xclose`. -/
def xclose (w : Host) : Exec Fatal Host := call fate .close w

/-- `copy_file` to a regular file. -/
def copy_file (src dest : CStr) (w : Host) : Exec Fatal Host := do
  let (_, ofd) ← within .util (Util.copy_file (fate.reads w.calls) (fate.writes w.calls)
    (src, w.files (w.place src)) (dest, (w.files (w.place dest)).map fun bytes => ⟨bytes, true⟩))
  let w' ← call fate (.util (.open_file dest)) w
  .ret (w'.put (w.place dest) ofd.bytes)

/-- `append_file` to a regular file. -/
def append_file (src dest : CStr) (w : Host) : Exec Fatal Host := do
  let (_, ofd) ← within .util (Util.append_file (fate.reads w.calls) (fate.writes w.calls)
    (src, w.files (w.place src)) (dest, (w.files (w.place dest)).map fun bytes => ⟨bytes, true⟩))
  let w' ← call fate (.util (.open_file dest)) w
  .ret (w'.put (w.place dest) ofd.bytes)

/-- `dd` to a disk, which does not grow. -/
def dd (src node : CStr) (w : Host) : Exec Fatal Host := do
  let d := w.disks node
  let (_, ofd) ← within .util (Util.dd (fate.reads w.calls) (fate.writes w.calls)
    (src, w.files (w.place src)) (node, some ⟨d.data.read 0 d.size, false⟩))
  if d.size < ofd.bytes.length then .die (.util .write)
  else do
    let w' ← call fate (.util (.open_file node)) w
    .ret (w'.setDisk node (d.withData (d.data.write 0 ofd.bytes)))

/-- `nftw` over a directory with `delete_cb`. -/
def delete_all (dir : CStr) (w : Host) : Host :=
  { w.tick with
    files := fun p =>
      if p.1 = (w.place dir).1 ∧ (w.place dir).2 <+: p.2 ∧ fate.removes w.calls p.2 then none
      else w.files p }

/-- `execute_command`. -/
def execute_command (cmd : CStr) (w : Host) : Exec Fatal (ℤ × Host) :=
  match FsChecks.execute_command fate.shell (fate.status w.calls) with
  | .error e => .die (.command e)
  | .ok ret => .ret (ret, { w.tick with ran := w.ran ++ [(.shell cmd, fate.status w.calls)] })

/-- `execute_command_no_shell`: the status as `waitpid` gives it. -/
def execute_command_no_shell (argv : List CStr) (w : Host) : ℤ × Host :=
  ((fate.status w.calls).toInt,
    { w.tick with ran := w.ran ++ [(.direct argv, fate.status w.calls)] })

/-! ## One file has been written -/

section Written

variable {fate} {w w' w₁ : Host} {p : Place} {bytes : List UInt8} {fd fd' : Fd} {text path : CStr}

/-- Between `w` and `w'` the file at `p` was given its contents, and nothing else happened to
files, mounts and programs. -/
structure Written (w w' : Host) (p : Place) (bytes : List UInt8) : Prop where
  files : w'.files = Function.update w.files p (some bytes)
  mounts : w'.mounts = w.mounts
  disks : w'.disks = w.disks
  ran : w'.ran = w.ran

/-- Nothing did. -/
structure Untouched (w w' : Host) : Prop where
  files : w'.files = w.files
  mounts : w'.mounts = w.mounts
  disks : w'.disks = w.disks
  ran : w'.ran = w.ran

/-- A call that succeeds is one more that has been made. -/
theorem call_ret {e : Fatal} (h : call fate e w = .ret w') : w' = w.tick := by
  unfold call at h
  split_ifs at h
  injection h with h
  exact h.symm

theorem call_untouched {e : Fatal} (h : call fate e w = .ret w') : Untouched w w' := by
  rw [call_ret h]
  exact ⟨rfl, rfl, rfl, rfl⟩

theorem Untouched.place (h : Untouched w w') (path : CStr) : w'.place path = w.place path := by
  rw [Host.place, h.mounts]
  rfl

theorem Untouched.trans (h : Untouched w w₁) (h' : Untouched w₁ w') : Untouched w w' where
  files := h'.files.trans h.files
  mounts := h'.mounts.trans h.mounts
  disks := h'.disks.trans h.disks
  ran := h'.ran.trans h.ran

theorem Written.place (h : Written w w' p bytes) (path : CStr) : w'.place path = w.place path := by
  rw [Host.place, h.mounts]
  rfl

theorem Untouched.written (h : Untouched w w₁) (h' : Written w₁ w' p bytes) :
    Written w w' p bytes where
  files := by rw [h'.files, h.files]
  mounts := h'.mounts.trans h.mounts
  disks := h'.disks.trans h.disks
  ran := h'.ran.trans h.ran

/-- What is written to the file afterwards is all that counts. -/
theorem Written.trans {bytes' : List UInt8} (h : Written w w₁ p bytes)
    (h' : Written w₁ w' p bytes') : Written w w' p bytes' where
  files := by rw [h'.files, h.files, Function.update_idem]
  mounts := h'.mounts.trans h.mounts
  disks := h'.disks.trans h.disks
  ran := h'.ran.trans h.ran

theorem Written.untouched (h : Written w w₁ p bytes) (h' : Untouched w₁ w') :
    Written w w' p bytes where
  files := by rw [h'.files, h.files]
  mounts := h'.mounts.trans h.mounts
  disks := h'.disks.trans h.disks
  ran := h'.ran.trans h.ran

theorem Written.self (h : Written w w' p bytes) : w'.files p = some bytes := by
  rw [h.files, Function.update_self]

theorem Written.of_ne (h : Written w w' p bytes) {q : Place} (hne : q ≠ p) :
    w'.files q = w.files q := by
  rw [h.files, Function.update_of_ne hne]

/-- Putting bytes in a place writes them. -/
theorem written_put (w : Host) (p : Place) (bytes : List UInt8) : Written w (w.put p bytes) p bytes :=
  ⟨rfl, rfl, rfl, rfl⟩

/-- A file that is open, with what it holds so far. -/
structure Opened (w w' : Host) (p : Place) (fd : Fd) : Prop where
  place : fd.place = p
  written : Written w w' p fd.dest.bytes

/-- What `xopen` leaves in the file, and where the descriptor is. -/
theorem xopen_ret {flags : Flags} (h : xopen fate path flags w = .ret (fd, w')) :
    Opened w w' (w.place path) fd ∧
      fd.dest.bytes = (if flags.trunc then [] else (w.files (w.place path)).getD []) ∧
      fd.dest.pos = if flags.append then fd.dest.bytes.length else 0 := by
  unfold xopen at h
  obtain ⟨w₁, hcall, h⟩ := Exec.bind_eq_ret.mp h
  have hsame := call_untouched hcall
  -- A file that is not there is made, if the flags say so.
  cases hfile : w.files (w.place path) with
  | none =>
    rw [hfile] at h
    simp only at h
    split_ifs at h
    simp only [Exec.ret.injEq, Prod.mk.injEq] at h
    obtain ⟨rfl, rfl⟩ := h
    refine ⟨⟨rfl, hsame.written (written_put _ _ _)⟩, ?_, ?_⟩
    · split_ifs
      · rfl
      · rfl
    · split_ifs
      · rfl
      · rfl
  | some bytes =>
    rw [hfile] at h
    simp only [Exec.ret.injEq, Prod.mk.injEq] at h
    obtain ⟨rfl, rfl⟩ := h
    have hbytes : (if flags.append then
        (⟨if flags.trunc then [] else bytes, _, Nat.le_refl _⟩ : Dest)
        else ⟨if flags.trunc then [] else bytes, 0, Nat.zero_le _⟩).bytes
          = if flags.trunc then [] else bytes := by
      split_ifs
      all_goals rfl
    refine ⟨⟨rfl, ?_⟩, hbytes, ?_⟩
    · rw [hbytes]
      exact hsame.written (written_put _ _ _)
    · split_ifs
      all_goals rfl

/-- What `put_string` adds. -/
theorem put_string_ret (h : put_string fate text fd w₁ = .ret (fd', w'))
    (hopen : Opened w w₁ p fd) : Opened w w' p fd' ∧ fd'.dest = fd.dest.put text := by
  unfold put_string at h
  obtain ⟨⟨n, dest, ws⟩, hwrite, h⟩ := Exec.bind_eq_ret.mp h
  have hput := Util.xwrite_puts (within_eq_ret.mp hwrite)
  simp only [Exec.ret.injEq, Prod.mk.injEq] at h
  obtain ⟨rfl, rfl⟩ := h
  refine ⟨⟨hopen.place, ?_⟩, hput⟩
  have hlast : Written w₁ (w₁.tick.put fd.place dest.bytes) p dest.bytes := by
    rw [hopen.place]
    exact ⟨rfl, rfl, rfl, rfl⟩
  exact hopen.written.trans hlast

/-- A file that is closed has what was written to it. -/
theorem xclose_ret (h : xclose fate w₁ = .ret w') (hopen : Opened w w₁ p fd) :
    Written w w' p fd.dest.bytes := hopen.written.untouched (call_untouched h)

end Written

/-! ## Steps that keep to some places -/

section Within

variable {fate} {w w' w₁ : Host} {P Q : Place → Prop} {p : Place} {bytes : List UInt8}
  {path dir device type mountpoint : CStr}

/-- Between `w` and `w'` no file changed but at the places `P`. -/
structure Within (P : Place → Prop) (w w' : Host) : Prop where
  files : ∀ p, ¬ P p → w'.files p = w.files p
  mounts : w'.mounts = w.mounts
  disks : w'.disks = w.disks
  ran : w'.ran = w.ran

theorem Untouched.within (h : Untouched w w') : Within P w w' where
  files p _ := by rw [h.files]
  mounts := h.mounts
  disks := h.disks
  ran := h.ran

theorem Written.within (h : Written w w' p bytes) (hp : P p) : Within P w w' where
  files _ hq := h.of_ne fun heq => hq (heq ▸ hp)
  mounts := h.mounts
  disks := h.disks
  ran := h.ran

theorem Within.trans (h : Within P w w₁) (h' : Within P w₁ w') : Within P w w' where
  files p hp := (h'.files p hp).trans (h.files p hp)
  mounts := h'.mounts.trans h.mounts
  disks := h'.disks.trans h.disks
  ran := h'.ran.trans h.ran

theorem Within.mono (h : Within P w w') (hPQ : ∀ p, P p → Q p) : Within Q w w' where
  files p hp := h.files p fun hP => hp (hPQ p hP)
  mounts := h.mounts
  disks := h.disks
  ran := h.ran

theorem Within.place (h : Within P w w') (path : CStr) : w'.place path = w.place path := by
  rw [Host.place, h.mounts]
  rfl

/-- Where a path leads under the last mount. -/
theorem place_mounted {table : List (List CStr × CStr)} {r : List CStr}
    (hmounts : w.mounts = (Path.resolve dir, device) :: table)
    (hpath : Path.resolve path = Path.resolve dir ++ r) : w.place path = (some device, r) := by
  rw [Host.place, hmounts, hpath, Path.locate_append]

/-- A directory is no file. -/
theorem xmkdir_ret (h : xmkdir fate path w = .ret w') : Untouched w w' := call_untouched h

/-- What `mount_partition_device` has done: it mounts, unless `mount` says `EBUSY`. -/
theorem mount_ret (h : mount_partition_device fate device type mountpoint w = .ret w') :
    w'.files = w.files ∧ w'.ran = w.ran ∧ w'.disks = w.disks ∧
      w'.mounts = if fate.mount (w.calls + 1) = .busy then w.mounts
        else (Path.resolve mountpoint, device) :: w.mounts := by
  unfold mount_partition_device at h
  obtain ⟨w₁, hmkdir, h⟩ := Exec.bind_eq_ret.mp h
  obtain rfl := call_ret hmkdir
  have hcalls : w.tick.calls = w.calls + 1 := rfl
  rw [hcalls] at h
  cases hres : fate.mount (w.calls + 1) with
  | ok =>
    rw [hres] at h
    injection h with h
    rw [← h]
    exact ⟨rfl, rfl, rfl, rfl⟩
  | busy =>
    rw [hres] at h
    injection h with h
    rw [← h]
    exact ⟨rfl, rfl, rfl, rfl⟩
  | err =>
    rw [hres] at h
    cases h

/-- Writing what is there changes nothing behind what is new. -/
theorem write_over (s : Store) {n : ℕ} {bs : List UInt8} (hlen : bs.length ≤ n) :
    s.write 0 (bs ++ (s.read 0 n).drop bs.length) = s.write 0 bs := by
  rw [← Store.write_write, Nat.zero_add]
  refine Store.write_eq_self (n := n - bs.length) ?_ ?_
  · rw [List.length_drop, Store.length_read]
  · have hread : (s.read 0 n).drop bs.length = (s.write 0 bs).read bs.length (n - bs.length) := by
      rw [Store.read_write_of_disjoint (.inr (by omega))]
      have happ := Store.read_append s 0 bs.length (n - bs.length)
      rw [Nat.zero_add, Nat.add_sub_cancel' hlen] at happ
      rw [← happ, List.drop_left' (Store.length_read s 0 bs.length)]
    have hself := Store.read_write_self (s.write 0 bs) bs.length
      ((s.write 0 bs).read bs.length (n - bs.length))
    rw [Store.length_read] at hself
    rw [hread, hself]

/-- What `copy_file` leaves at its destination: the beginning of the source. -/
theorem copy_file_ret {src dest : CStr} (h : copy_file fate src dest w = .ret w') :
    ∃ bytes n, w.files (w.place src) = some bytes ∧
      Written w w' (w.place dest) (bytes.take n) := by
  unfold copy_file at h
  obtain ⟨⟨n, ofd⟩, hcopy, h⟩ := Exec.bind_eq_ret.mp h
  obtain ⟨w₁, hcall, h⟩ := Exec.bind_eq_ret.mp h
  injection h with h
  have hcopy := within_eq_ret.mp hcopy
  unfold Util.copy_file Util.__dd at hcopy
  cases hsrc : w.files (w.place src) with
  | none =>
    rw [hsrc] at hcopy
    cases hcopy
  | some bytes =>
    rw [hsrc] at hcopy
    obtain ⟨fd, hopen, hcopy⟩ := Exec.bind_eq_ret.mp hcopy
    obtain ⟨n, hput⟩ := Util.dd_loop_puts hcopy
    -- the destination is empty when the loop starts
    have hempty : fd = ⟨[], 0, Nat.le_refl 0⟩ := by
      unfold Util.xopen_dest at hopen
      cases hdest : w.files (w.place dest) with
      | none =>
        rw [hdest] at hopen
        injection hopen with hopen
        exact hopen.symm
      | some old =>
        rw [hdest] at hopen
        injection hopen with hopen
        exact hopen.symm
    refine ⟨bytes, n, rfl, ?_⟩
    have hbytes : ofd.bytes = bytes.take n := by
      rw [hput, hempty, Dest.put]
      simp
    rw [← h, ← hbytes]
    exact (call_untouched hcall).written (written_put _ _ _)

/-- What `dd` leaves on a disk: the beginning of the source at its start, and the rest as it
was. -/
theorem dd_ret {src node : CStr} (h : dd fate src node w = .ret w') :
    ∃ bytes n, w.files (w.place src) = some bytes ∧
      (bytes.take n).length ≤ (w.disks node).size ∧
      w' = w.tick.setDisk node
        ((w.disks node).withData ((w.disks node).data.write 0 (bytes.take n))) := by
  unfold dd at h
  obtain ⟨⟨total, ofd⟩, hdd, h⟩ := Exec.bind_eq_ret.mp h
  have hdd := within_eq_ret.mp hdd
  unfold Util.dd Util.__dd at hdd
  cases hsrc : w.files (w.place src) with
  | none =>
    rw [hsrc] at hdd
    cases hdd
  | some bytes =>
    rw [hsrc] at hdd
    obtain ⟨fd, hopen, hdd⟩ := Exec.bind_eq_ret.mp hdd
    obtain ⟨n, hput⟩ := Util.dd_loop_puts hdd
    injection hopen with hopen
    -- what was read goes over what was there
    have hbytes : ofd.bytes = bytes.take n
        ++ ((w.disks node).data.read 0 (w.disks node).size).drop (bytes.take n).length := by
      rw [hput, Dest.put_start (by rw [← hopen]), ← hopen]
      rfl
    have hlen := congrArg List.length hbytes
    rw [List.length_append, List.length_drop, Store.length_read] at hlen
    simp only at h
    split_ifs at h with hsize
    obtain ⟨w₁, hcall, h⟩ := Exec.bind_eq_ret.mp h
    injection h with h
    refine ⟨bytes, n, rfl, by omega, ?_⟩
    rw [← h, call_ret hcall, hbytes, write_over _ (by omega)]

@[simp] theorem umount_files (w : Host) (mountpoint : CStr) :
    (umount fate mountpoint w).files = w.files := by
  unfold umount
  split_ifs
  · rfl
  · rfl

@[simp] theorem umount_ran (w : Host) (mountpoint : CStr) :
    (umount fate mountpoint w).ran = w.ran := by
  unfold umount
  split_ifs
  · rfl
  · rfl

@[simp] theorem umount_disks (w : Host) (mountpoint : CStr) :
    (umount fate mountpoint w).disks = w.disks := by
  unfold umount
  split_ifs
  · rfl
  · rfl

/-- `delete_all` keeps to its directory. -/
theorem delete_all_within (h : ∀ p, p.1 = (w.place dir).1 → (w.place dir).2 <+: p.2 → P p) :
    Within P w (delete_all fate dir w) where
  files p hp := by
    refine if_neg fun hdel => hp (h p hdel.1 hdel.2.1)
  mounts := rfl
  disks := rfl
  ran := rfl

end Within

end Installer

end Iago
