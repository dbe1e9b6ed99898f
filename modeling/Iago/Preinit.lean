/-
Pre-init: finding the installation media and mounting it.

Before the real `init` runs, every block device in `/sys/block` and every partition of
it is tried: a device node is made for it under a temporary name, a file system that is
recognised on it is mounted on `INSTALL_MOUNT`, a directory of that is bound to
`INSTALL_MEDIA`, and if there is a cookie in it that is the media. Otherwise the mounts
are undone and the next device is tried. If none of them is the media the whole scan is
repeated, up to sixteen times.

What the calls of one scan return is an input, an `Attempt`: the directory entries, and
for each node what `open`, `read`, `mknod`, `mount` and `stat` come to for it. What is
mounted is state. A mount goes on top of what is mounted there already, and `umount`
takes the topmost one away. So an undo that is forgotten shows in the next scan.

`is_install_media` forgets nothing (`is_install_media_eq`), and a scan leaves either no
mount or those of the first node with a cookie (`scan_disks_eq`). What is forgotten is at
the very end: when the name of the media cannot be appended to `/default.prop`, after the
label `success`, `mount_device` reports a failure with the media still mounted.
`mounts_clean_iff` shows this to be all.
-/
import Iago.Options
import Mathlib.Data.List.Infix

set_option autoImplicit false

namespace Iago

namespace Preinit

def INSTALL_MOUNT : CStr := cstr "/installmnt"
def INSTALL_MEDIA : CStr := cstr "/installmedia"
def TMP_NODE : CStr := cstr "/dev/__iago_blkdev"

/-! ## The mount table -/

/-- `dev_t`, as `makedev` is given it. -/
abbrev DevT := Int32 × Int32

/-- A mount: where, from what, and which device holds the files that are seen there. -/
structure Mount where
  target : CStr
  source : CStr
  fst : CStr
  device : Option DevT
  deriving DecidableEq

/-- The mounts, the last one first, and what the temporary node stands for if it is
there. -/
structure World where
  mounts : List Mount
  node : Option DevT

namespace World

/-- The mounts on a directory. -/
def mountsOn (w : World) (target : CStr) : List Mount := w.mounts.filter (·.target = target)

/-- The device whose files are seen in a directory something is mounted on. -/
def deviceAt (w : World) (target : CStr) : Option DevT :=
  (w.mountsOn target).head?.bind (·.device)

/-- `mknod` of the temporary node, which must not be there. -/
def mknod (w : World) (ok : Bool) (dev : DevT) : Option World :=
  if ok = true ∧ w.node = none then some { w with node := some dev } else none

def unlink (w : World) : World := { w with node := none }

/-- `mount` on `target` of what `device` holds. -/
def mount (w : World) (ok : Bool) (source target fst : CStr) (device : Option DevT) :
    Option World :=
  if ok then some { w with mounts := ⟨target, source, fst, device⟩ :: w.mounts } else none

/-- `umount`, of the topmost mount if there is one. -/
def umount (w : World) (target : CStr) : World :=
  { w with mounts := w.mounts.eraseP (·.target = target) }

end World

/-! ## `detect_fs` -/

/-- What the calls about one node come to. -/
structure Node where
  /-- what `open` and `read` of its `dev` file yield -/
  dev : Option (List UInt8)
  mknod : Bool
  /-- what `open` of the device and `seek_and_read` at an offset yield -/
  blk : Option (ℕ → ℕ → Option (List UInt8))
  mount : Bool
  mount_bind : Bool
  /-- `stat` of the cookie -/
  cookie : Bool

section Detect

variable [Platform]

/-- `is_vfat`. -/
def is_vfat (fd : ℕ → ℕ → Option (List UInt8)) : Bool :=
  fd 0x1FE 2 = some [0x55, 0xAA] ∧ fd 0x10 1 = some [2] ∧ fd 0x0B 2 = some [0x00, 0x02]

/-- `is_iso9660`. -/
def is_iso9660 (fd : ℕ → ℕ → Option (List UInt8)) : Bool :=
  fd (16 * 2048 + 1) 5 = some (cstr "CD001")

/-- `is_extN`, on the fields of the superblock it looks at. -/
def is_extN (fd : ℕ → ℕ → Option (List UInt8)) : Option CStr :=
  match fd 1024 1024 with
  | none => none
  | some sb =>
    let s_magic := u16.dec (slice sb 56 2)
    let s_feature_compat := u32.dec (slice sb 92 4)
    let s_feature_incompat := u32.dec (slice sb 96 4)
    let s_feature_ro_compat := u32.dec (slice sb 100 4)
    if s_magic ≠ 0xEF53 then none
    else if s_feature_compat &&& 0x0004 = 0 then some (cstr "ext2")
    else if s_feature_incompat < 0x0040 ∧ s_feature_ro_compat < 0x0008 then some (cstr "ext3")
    else some (cstr "ext4")

/-- `detect_fs`. -/
def detect_fs (blk : Option (ℕ → ℕ → Option (List UInt8))) : Option CStr :=
  match blk with
  | none => none
  | some fd =>
    if is_vfat fd then some (cstr "vfat")
    else if is_iso9660 fd then some (cstr "iso9660")
    else is_extN fd

end Detect

/-! ## `is_install_media` -/

/-- `strrchr(pathbuf, '/')` and what is before it. -/
def up_to_last_slash (pathbuf : CStr) : CStr := ((pathbuf.reverse.dropWhile (· ≠ 47)).drop 1).reverse

/-- The directory of the media, by the environment. -/
def media_path (getenv : CStr → Option CStr) : CStr :=
  match getenv (cstr "SRC") with
  | some src => INSTALL_MOUNT ++ src
  | none =>
    match getenv (cstr "BOOT_IMAGE") with
    | some src => up_to_last_slash (INSTALL_MOUNT ++ src)
    | none => INSTALL_MOUNT

/-- The device number in the contents of a `dev` file. -/
def devinfo_dev (bytes : List UInt8) : Option DevT :=
  let devinfo := bytes.takeWhile (· ≠ 0)
  match devinfo.dropWhile (· ≠ 58) with
  | [] => none
  | _ :: minor_s => some (atoi (devinfo.takeWhile (· ≠ 58)), atoi minor_s)

section Media

variable [Platform]

/-- `is_install_media`, from the `mknod` to the label `out_unlink`. -/
def try_mounts (getenv : CStr → Option CStr) (n : Node) (dev : DevT) (w : World) :
    Bool × World :=
  match detect_fs n.blk with
  | none => (false, w)
  | some fst =>
    let pathbuf := media_path getenv
    match w.mount n.mount TMP_NODE INSTALL_MOUNT fst (some dev) with
    | none => (false, w)
    | some w =>
      match w.mount n.mount_bind pathbuf INSTALL_MEDIA [] (w.deviceAt INSTALL_MOUNT) with
      | none => (false, w.umount INSTALL_MOUNT)
      | some w =>
        if n.cookie then (true, w) else (false, (w.umount INSTALL_MEDIA).umount INSTALL_MOUNT)

/-- `is_install_media`. -/
def is_install_media (getenv : CStr → Option CStr) (n : Node) (w : World) : Bool × World :=
  match n.dev.bind devinfo_dev with
  | none => (false, w)
  | some dev =>
    match w.mknod n.mknod dev with
    | none => (false, w)
    | some w =>
      let (ret, w) := try_mounts getenv n dev w
      (ret, w.unlink)

end Media

/-! ## `mount_device` and `main` -/

/-- A disk: its name, what the calls about it come to, and what `opendir` of its
directory yields. -/
structure Disk where
  name : CStr
  node : Node
  dir : Option (List (CStr × Node))

/-- One run of `mount_device`: `regcomp`, what `opendir` of `/sys/block` yields, `open` of
`/default.prop` and `put_string`. -/
structure Attempt where
  regcomp : Bool
  dir : Option (List Disk)
  open_prop : Bool
  put_string : Bool

/-- `[0-9]`. -/
def is_digit (c : UInt8) : Bool := 48 ≤ c ∧ c ≤ 57

/-- `regexec` with `DISK_MATCH_REGEX`: a name that starts with a dot, that has `ram` or
`loop` and a digit somewhere, or that ends like an RPMB or boot partition of an MMC
card. -/
def diskreg (name : CStr) : Bool :=
  name.head? = some 46 ||
  name.tails.any (fun t =>
    (cstr "ram" <+: t && (t.drop 3).head?.any is_digit) ||
    (cstr "loop" <+: t && (t.drop 4).head?.any is_digit)) ||
  name.tails.any (fun t =>
    let rest := (t.drop 6).dropWhile is_digit
    cstr "mmcblk" <+: t && (t.drop 6).head?.any is_digit &&
      (rest = cstr "rpmb" ||
        (cstr "boot" <+: rest && rest.drop 4 ≠ [] && (rest.drop 4).all is_digit)))

section Scan

variable [Platform] (getenv : CStr → Option CStr)

/-- The inner loop of `mount_device`, over the directory of the disk `name`. -/
def scan_parts (name : CStr) : List (CStr × Node) → World → Bool × World
  | [], w => (false, w)
  | (part, n) :: parts, w =>
    if diskreg part then scan_parts name parts w
    else if ¬ name <+: part then scan_parts name parts w
    else
      let (ret, w) := is_install_media getenv n w
      if ret then (true, w) else scan_parts name parts w

/-- The outer loop: the name of the disk at the label `success`, or none at `out`. -/
def scan_disks : List Disk → World → Option CStr × World
  | [], w => (none, w)
  | d :: disks, w =>
    if diskreg d.name then scan_disks disks w
    else
      let (ret, w) := is_install_media getenv d.node w
      if ret then (some d.name, w)
      else
        match d.dir with
        | none => (none, w)
        | some parts =>
          let (ret, w) := scan_parts getenv d.name parts w
          if ret then (some d.name, w) else scan_disks disks w

/-- `mount_device`. -/
def mount_device (a : Attempt) (w : World) : Int × World :=
  if a.regcomp then
    match a.dir with
    | none => (-1, w)
    | some disks =>
      match scan_disks getenv disks w with
      | (none, w) => (-1, w)
      | (some _, w) =>
        if a.open_prop then (if a.put_string then 0 else -1, w) else (-1, w)
  else (-1, w)

/-- A call of `mount_device`: its number, what it returned, and what it left. -/
structure Returned where
  number : ℕ
  ret : Int
  left : World

/-- The loop of `main`, with `count` tries to go after this one, and the calls it makes. -/
def retry (attempts : ℕ → Attempt) : (count : ℕ) → (number : ℕ) → World → List Returned
  | 0, number, w =>
    let (ret, w) := mount_device getenv (attempts number) w
    [⟨number, ret, w⟩]
  | count + 1, number, w =>
    let (ret, w) := mount_device getenv (attempts number) w
    if ret = 0 then [⟨number, ret, w⟩]
    else ⟨number, ret, w⟩ :: retry attempts count (number + 1) w

/-- `main` up to the end of its loop: what the calls of `mount_device` have returned and
left. The first two mounts make `/dev`, in which there is no temporary node then, and
`/sys`; whether they succeed is not looked at. -/
def main (dev sys : Bool) (attempts : ℕ → Attempt) (w : World) : List Returned :=
  let w := (w.mount dev (cstr "tmpfs") (cstr "/dev") (cstr "tmpfs") none).getD w
  let w := (w.mount sys (cstr "sysfs") (cstr "/sys") (cstr "sysfs") none).getD w
  retry getenv attempts 15 0 w

end Scan

/-! ## What a scan does

With the undoing out of the way, a node is media or it is not, and the first one that is
gets mounted. -/

section Spec

variable [Platform]

/-- The device and the file system of a node that is media: everything succeeds for it,
and there is a cookie. -/
def Node.media (n : Node) : Option (DevT × CStr) :=
  match n.dev.bind devinfo_dev, detect_fs n.blk with
  | some dev, some fst =>
    if n.mknod ∧ n.mount ∧ n.mount_bind ∧ n.cookie then some (dev, fst) else none
  | _, _ => none

/-- The mount of the media, and that of the directory in it. -/
def disk_mount (m : DevT × CStr) : Mount := ⟨INSTALL_MOUNT, TMP_NODE, m.2, some m.1⟩

variable (getenv : CStr → Option CStr)

def media_mount (m : DevT × CStr) : Mount := ⟨INSTALL_MEDIA, media_path getenv, [], some m.1⟩

/-- The state with the media mounted. -/
def World.withMedia (w : World) (m : DevT × CStr) : World :=
  { w with mounts := media_mount getenv m :: disk_mount m :: w.mounts }

/-- **What `is_install_media` does**: it mounts the media, or nothing. -/
theorem is_install_media_eq (n : Node) {w : World} (hnode : w.node = none) :
    is_install_media getenv n w =
      match n.media with
      | none => (false, w)
      | some m => (true, w.withMedia getenv m) := by
  obtain ⟨mounts, node⟩ := w
  simp only at hnode
  subst hnode
  unfold is_install_media Node.media
  cases n.dev.bind devinfo_dev with
  | none => rfl
  | some dev =>
    simp only
    cases hmknod : n.mknod with
    | false => cases detect_fs n.blk <;> simp [World.mknod]
    | true =>
      simp only [World.mknod, and_self, if_true, try_mounts]
      cases detect_fs n.blk with
      | none => rfl
      | some fst =>
        simp only [World.mount]
        cases n.mount with
        | false => rfl
        | true =>
          simp only [if_true, true_and]
          cases n.mount_bind with
          | false =>
            -- the first mount is taken away again
            simp [World.umount, World.unlink]
          | true =>
            cases n.cookie with
            | false => simp [World.umount, World.unlink]
            | true =>
              simp [World.unlink, World.withMedia, media_mount, disk_mount, World.deviceAt,
                World.mountsOn]

/-- Every mount is undone when the answer is no. -/
theorem is_install_media_restores (n : Node) (w : World)
    (hno : (is_install_media getenv n w).1 = false) :
    (is_install_media getenv n w).2.mounts = w.mounts ∧
      (w.node = none → (is_install_media getenv n w).2.node = none) := by
  cases hnode : w.node with
  | none =>
    rw [is_install_media_eq getenv n hnode] at hno ⊢
    cases hmedia : n.media with
    | none => exact ⟨rfl, fun _ => hnode⟩
    | some m =>
      rw [hmedia] at hno
      cases hno
  | some dev =>
    -- with the node there already, `mknod` fails
    refine ⟨?_, fun h => by cases h⟩
    unfold is_install_media
    cases n.dev.bind devinfo_dev with
    | none => rfl
    | some dev' => simp [World.mknod, hnode]

/-- The nodes of a directory that are tried. -/
def parts_scanned (name : CStr) (parts : List (CStr × Node)) : List Node :=
  (parts.filter fun p => ¬ diskreg p.1 ∧ name <+: p.1).map Prod.snd

/-- The nodes that are tried, as long as none of them is media: a directory that cannot
be opened is the end of the scan. -/
def scanned : List Disk → List Node
  | [] => []
  | d :: disks =>
    if diskreg d.name then scanned disks
    else d.node ::
      match d.dir with
      | none => []
      | some parts => parts_scanned d.name parts ++ scanned disks

theorem scan_parts_eq (name : CStr) (parts : List (CStr × Node)) {w : World}
    (hnode : w.node = none) :
    scan_parts getenv name parts w =
      match (parts_scanned name parts).findSome? Node.media with
      | none => (false, w)
      | some m => (true, w.withMedia getenv m) := by
  induction parts with
  | nil => rfl
  | cons p parts ih =>
    obtain ⟨part, n⟩ := p
    rw [scan_parts, parts_scanned]
    by_cases hskip : diskreg part = true
    · rw [if_pos hskip, List.filter_cons_of_neg (by simp [hskip]), ih]
      rfl
    rw [if_neg hskip]
    by_cases hbegins : name <+: part
    swap
    · rw [if_pos hbegins, List.filter_cons_of_neg (by simp [hbegins]), ih]
      rfl
    rw [if_neg (not_not.mpr hbegins), List.filter_cons_of_pos (by simp [hskip, hbegins]),
      List.map_cons, List.findSome?_cons, is_install_media_eq getenv n hnode]
    cases hmedia : n.media with
    | none =>
      simp only [Bool.false_eq_true, if_false]
      exact ih
    | some m => rfl

/-- **What a scan does**: it mounts the first node that is media, or nothing. -/
theorem scan_disks_eq (disks : List Disk) {w : World} (hnode : w.node = none) :
    ∃ name, scan_disks getenv disks w =
      match (scanned disks).findSome? Node.media with
      | none => (none, w)
      | some m => (some name, w.withMedia getenv m) := by
  induction disks with
  | nil => exact ⟨[], rfl⟩
  | cons d disks ih =>
    rw [scan_disks, scanned]
    -- A disk is tried as a whole first, and its partitions after it.
    by_cases hskip : diskreg d.name = true
    · rw [if_pos hskip, if_pos hskip]
      exact ih
    rw [if_neg hskip, if_neg hskip, List.findSome?_cons, is_install_media_eq getenv d.node hnode]
    cases hmedia : d.node.media with
    | some m => exact ⟨d.name, rfl⟩
    | none =>
      simp only [Bool.false_eq_true, if_false]
      cases hdir : d.dir with
      | none => exact ⟨[], rfl⟩
      | some parts =>
        simp only [List.findSome?_append]
        rw [scan_parts_eq getenv d.name parts hnode]
        cases hparts : (parts_scanned d.name parts).findSome? Node.media with
        | some m => exact ⟨d.name, rfl⟩
        | none =>
          simp only [Bool.false_eq_true, if_false, Option.none_or]
          exact ih

/-! ## One call of `mount_device` -/

/-- The media a call finds: the first node tried that is media. -/
def Attempt.found (a : Attempt) : Option (DevT × CStr) :=
  match a.regcomp, a.dir with
  | true, some disks => (scanned disks).findSome? Node.media
  | _, _ => none

/-- The name of the media has been appended to `/default.prop`. -/
def Attempt.Appended (a : Attempt) : Prop := a.open_prop = true ∧ a.put_string = true

omit [Platform] in
instance (a : Attempt) : Decidable a.Appended := inferInstanceAs (Decidable (_ ∧ _))

/-- The media stays mounted whatever happens after it has been found. -/
theorem mount_device_eq (a : Attempt) {w : World} (hnode : w.node = none) :
    mount_device getenv a w =
      match a.found with
      | none => (-1, w)
      | some m => (if a.Appended then 0 else -1, w.withMedia getenv m) := by
  rw [mount_device, Attempt.found]
  cases a.regcomp with
  | false => rfl
  | true =>
    simp only [if_true]
    cases a.dir with
    | none => rfl
    | some disks =>
      simp only
      obtain ⟨name, hscan⟩ := scan_disks_eq getenv disks hnode
      rw [hscan]
      cases (scanned disks).findSome? Node.media with
      | none => rfl
      | some m =>
        by_cases hopen : a.open_prop = true
        · simp [Attempt.Appended, hopen]
        · simp [Attempt.Appended, hopen]

/-- Nothing is mounted on the two directories. -/
def World.Clean (w : World) : Prop :=
  w.mountsOn INSTALL_MOUNT = [] ∧ w.mountsOn INSTALL_MEDIA = []

/-- **What a caller of `mount_device` relies on**: after a failure nothing is mounted on
the two directories; after a success there is one mount on each, of the first node tried
that has a cookie. -/
def MountsRight (a : Attempt) (ret : Int) (left : World) : Prop :=
  (ret ≠ 0 → left.Clean) ∧
    (ret = 0 → ∃ m, a.found = some m ∧ left.mountsOn INSTALL_MOUNT = [disk_mount m] ∧
      left.mountsOn INSTALL_MEDIA = [media_mount getenv m])

omit [Platform] in
theorem mountsOn_withMedia {w : World} (hw : w.Clean) (m : DevT × CStr) :
    (w.withMedia getenv m).mountsOn INSTALL_MOUNT = [disk_mount m] ∧
      (w.withMedia getenv m).mountsOn INSTALL_MEDIA = [media_mount getenv m] := by
  have hne : INSTALL_MEDIA ≠ INSTALL_MOUNT := by decide
  constructor
  · show List.filter _ (media_mount getenv m :: disk_mount m :: w.mounts) = _
    rw [List.filter_cons_of_neg (by simp [media_mount, hne]),
      List.filter_cons_of_pos (by simp [disk_mount])]
    exact congrArg _ hw.1
  · show List.filter _ (media_mount getenv m :: disk_mount m :: w.mounts) = _
    rw [List.filter_cons_of_pos (by simp [media_mount]),
      List.filter_cons_of_neg (by simp [disk_mount, hne.symm])]
    exact congrArg _ hw.2

/-- The step lemma: a call from a clean state is right unless it finds media and cannot
say so, and then it leaves the media mounted. -/
theorem mountsRight_iff (a : Attempt) {w : World} (hnode : w.node = none) (hw : w.Clean) :
    MountsRight getenv a (mount_device getenv a w).1 (mount_device getenv a w).2 ↔
      (a.found ≠ none → a.Appended) := by
  rw [mount_device_eq getenv a hnode]
  cases hfound : a.found with
  | none =>
    simp only [ne_eq, not_true_eq_false, false_implies, iff_true]
    exact ⟨fun _ => hw, fun h => absurd h (by decide)⟩
  | some m =>
    have hmounts := mountsOn_withMedia getenv hw m
    simp only
    by_cases happ : a.Appended
    · rw [if_pos happ]
      exact ⟨fun _ _ => happ, fun _ => ⟨fun h => absurd rfl h, fun _ => ⟨m, hfound, hmounts⟩⟩⟩
    · rw [if_neg happ]
      constructor
      · intro hright
        have hclean := (hright.1 (by decide)).1
        rw [hmounts.1] at hclean
        cases hclean
      · intro h
        exact absurd (h (fun hno => by cases hno)) happ

/-! ## The retry loop -/

/-- The run lemma, by induction on the tries that are left: as long as no media is found
the next call starts from the same state, and the first that finds some is the last. -/
theorem retry_right_iff (attempts : ℕ → Attempt) {w : World} (hnode : w.node = none)
    (hw : w.Clean) (count number : ℕ) :
    (∀ c ∈ retry getenv attempts count number w,
      MountsRight getenv (attempts c.number) c.ret c.left) ↔
    ∀ k ≤ count, (∀ j < k, (attempts (number + j)).found = none) →
      (attempts (number + k)).found ≠ none → (attempts (number + k)).Appended := by
  induction count generalizing number with
  | zero =>
    have hstep := mountsRight_iff getenv (attempts number) hnode hw
    rw [retry]
    simp only [List.mem_singleton, forall_eq]
    rw [hstep]
    constructor
    · intro h k hk _
      rw [show k = 0 by omega, Nat.add_zero]
      exact h
    · intro h
      exact h 0 (Nat.le_refl 0) (fun j hj => by omega)
  | succ count ih =>
    have hstep := mountsRight_iff getenv (attempts number) hnode hw
    have hcall := mount_device_eq getenv (attempts number) hnode
    rw [retry]
    cases hfound : (attempts number).found with
    | none =>
      -- nothing found, nothing changed
      rw [hfound] at hcall
      simp only at hcall
      simp only [hcall, Int.reduceNeg, reduceCtorEq, if_false, List.mem_cons, forall_eq_or_imp]
      rw [hcall, hfound] at hstep
      simp only at hstep
      rw [hstep, ih]
      constructor
      · rintro ⟨-, h⟩ k hk hbefore
        cases k with
        | zero =>
          rw [Nat.add_zero, hfound]
          exact fun hno => absurd rfl hno
        | succ k =>
          have := h k (by omega) fun j hj => by
            have := hbefore (j + 1) (by omega)
            rwa [show number + (j + 1) = number + 1 + j by omega] at this
          rwa [show number + (k + 1) = number + 1 + k by omega]
      · intro h
        refine ⟨fun hno => absurd rfl hno, fun k hk hbefore => ?_⟩
        have := h (k + 1) (by omega) fun j hj => by
          cases j with
          | zero => rwa [Nat.add_zero]
          | succ j =>
            have := hbefore j (by omega)
            rwa [show number + (j + 1) = number + 1 + j by omega]
        rwa [show number + (k + 1) = number + 1 + k by omega] at this
    | some m =>
      have hfirst : (∀ k ≤ count + 1, (∀ j < k, (attempts (number + j)).found = none) →
          (attempts (number + k)).found ≠ none → (attempts (number + k)).Appended) ↔
          (attempts number).Appended := by
        constructor
        · intro h
          exact h 0 (Nat.zero_le _) (fun j hj => by omega)
            (by rw [Nat.add_zero, hfound]; exact fun hno => by cases hno)
        · intro happ k _ hbefore _
          cases k with
          | zero => exact happ
          | succ k =>
            have := hbefore 0 (by omega)
            rw [Nat.add_zero, hfound] at this
            cases this
      have hnot : some m ≠ none := fun hno => by cases hno
      rw [hfound] at hcall
      simp only at hcall
      rw [hfirst]
      rw [hcall, hfound] at hstep
      rw [hcall]
      by_cases happ : (attempts number).Appended
      · -- the last call
        simp only [if_pos happ, List.mem_singleton, forall_eq, if_true] at hstep ⊢
        rw [hstep]
        exact ⟨fun h => h hnot, fun h _ => h⟩
      · simp only [if_neg happ, Int.reduceNeg] at hstep ⊢
        simp only [Int.reduceEq, if_false, List.mem_cons, forall_eq_or_imp]
        rw [hstep]
        exact ⟨fun h => h.1 hnot, fun h => absurd h happ⟩

omit [Platform] in
/-- The two mounts `main` starts with are on other directories. -/
theorem mount_other {w : World} (ok : Bool) (source fst : CStr) {target : CStr}
    (device : Option DevT) (hmount : target ≠ INSTALL_MOUNT) (hmedia : target ≠ INSTALL_MEDIA)
    (hnode : w.node = none) (hw : w.Clean) :
    ((w.mount ok source target fst device).getD w).node = none ∧
      ((w.mount ok source target fst device).getD w).Clean := by
  unfold World.mount
  cases ok with
  | false => exact ⟨hnode, hw⟩
  | true =>
    refine ⟨hnode, ?_, ?_⟩
    · exact (List.filter_cons_of_neg (by simpa using hmount)).trans hw.1
    · exact (List.filter_cons_of_neg (by simpa using hmedia)).trans hw.2

/-- **No mount is left behind on failure, except by a failed append.** A node that is not
media leaves the mounts as they were and no temporary node. And of the calls of
`mount_device` in a run of `main`, each leaves what it should, if and only if the first
scan that finds media is followed by a successful append to `/default.prop`. -/
theorem mounts_clean_iff :
    (∀ (n : Node) (w : World), (is_install_media getenv n w).1 = false →
      (is_install_media getenv n w).2.mounts = w.mounts ∧
        (w.node = none → (is_install_media getenv n w).2.node = none)) ∧
    ∀ (dev sys : Bool) (attempts : ℕ → Attempt) (w : World), w.node = none → w.Clean →
      ((∀ c ∈ main getenv dev sys attempts w,
          MountsRight getenv (attempts c.number) c.ret c.left) ↔
        ∀ k < 16, (∀ j < k, (attempts j).found = none) →
          (attempts k).found ≠ none → (attempts k).Appended) := by
  refine ⟨is_install_media_restores getenv, fun dev sys attempts w hnode hw => ?_⟩
  obtain ⟨hnode, hw⟩ := mount_other dev (cstr "tmpfs") (cstr "tmpfs") none
    (show cstr "/dev" ≠ INSTALL_MOUNT by decide) (by decide) hnode hw
  obtain ⟨hnode, hw⟩ := mount_other sys (cstr "sysfs") (cstr "sysfs") none
    (show cstr "/sys" ≠ INSTALL_MOUNT by decide) (by decide) hnode hw
  unfold main
  refine (retry_right_iff getenv attempts hnode hw 15 0).trans ?_
  simp only [Nat.zero_add, Nat.lt_succ_iff]

end Spec

/-! ## Media, and a root file system that cannot be written -/

section ReadOnlyRoot

attribute [local instance] x86

/-- A VFAT stick, `sda`, with the cookie on it. -/
def stick : Node where
  dev := some (cstr "8:0\n")
  mknod := true
  blk := some fun offset _ =>
    if offset = 0x1FE then some [0x55, 0xAA]
    else if offset = 0x10 then some [2]
    else if offset = 0x0B then some [0x00, 0x02]
    else none
  mount := true
  mount_bind := true
  cookie := true

/-- The stick is found at every call, and `/default.prop` opens if `open_prop`. -/
def plugged_in (open_prop : Bool) : ℕ → Attempt := fun _ =>
  { regcomp := true, dir := some [⟨cstr "sda", stick, some []⟩], open_prop, put_string := true }

def rootfs : World := ⟨[], none⟩

theorem mounts_clean_plugged_in :
    ∀ c ∈ main (fun _ => none) true true (plugged_in true) rootfs,
      MountsRight (fun _ => none) (plugged_in true c.number) c.ret c.left :=
  ((mounts_clean_iff (fun _ => none)).2 true true (plugged_in true) rootfs rfl
    ⟨rfl, rfl⟩).mpr fun _ _ _ _ => ⟨rfl, rfl⟩

/-- With a `/default.prop` that does not open the media is mounted once more by every one
of the sixteen calls, and each of them reports a failure. -/
theorem read_only_root_stacks :
    (main (fun _ => none) true true (plugged_in false) rootfs).map
        (fun c => (c.ret, (c.left.mountsOn INSTALL_MOUNT).length,
          (c.left.mountsOn INSTALL_MEDIA).length)) =
      (List.range 16).map (fun i => (-1, i + 1, i + 1)) ∧
    ¬ ∀ c ∈ main (fun _ => none) true true (plugged_in false) rootfs,
      MountsRight (fun _ => none) (plugged_in false c.number) c.ret c.left := by
  constructor
  · decide
  · intro hall
    -- the first call already
    have hfirst := hall _ (List.head_mem (by decide))
    exact absurd (hfirst.1 (by decide)).1 (by decide)

end ReadOnlyRoot

end Preinit

end Iago
