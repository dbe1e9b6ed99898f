/-
`newfs_msdos_main`, from the open device to the last sector it writes.

The file system is written sector by sector from its start on: the boot sector, in a FAT32 file
system its backup and the two info sectors, the first sector of each FAT, and the first one of
the root directory, if there is a label; all others are zeros, or come from the bootstrap of
`-B`. Nothing is written behind the root directory.

The clock, the outcomes of the calls and the answers of the kernel are parameters. Warnings and
what is printed about the parameters are left out.
-/
import Iago.BiosParams
import Iago.Blocks
import Iago.GptRead

set_option autoImplicit false

namespace Iago

namespace NewfsMsdos

/-! ## Strings -/

/-- Character `i` of a label: `!i && c == '\xe5' ? 5 : c`. -/
def label_char (i : ℕ) (c : UInt8) : UInt8 := if i = 0 ∧ c = 0xe5 then 5 else c

/-- `mklabel`. -/
def mklabel (src : CStr) : List UInt8 :=
  (List.range 11).map fun i => label_char i ((src[i]?.map toupper).getD 32)

/-- `setstr`. -/
def setstr (src : CStr) (len : ℕ) : List UInt8 := (List.range len).map fun i => src[i]?.getD 32

/-- `mk1`, `mk2` and `mk4`, by the number of bytes. -/
def mk (w : ℕ) (x : UInt32) : List UInt8 := leBytes w x.toNat

/-! ## The sectors -/

/-- `gettimeofday` and `localtime`, as `u_int`. -/
structure Clock where
  tv_usec : UInt32
  tm_sec : UInt32
  tm_min : UInt32
  tm_hour : UInt32
  tm_mday : UInt32
  tm_mon : UInt32
  tm_year : UInt32

def bootcode : List UInt8 :=
  [0xfa, 0x31, 0xc0, 0x8e, 0xd0, 0xbc, 0x00, 0x7c, 0xfb, 0x8e, 0xd8, 0xe8, 0x00, 0x00, 0x5e,
    0x83, 0xc6, 0x19, 0xbb, 0x07, 0x00, 0xfc, 0xac, 0x84, 0xc0, 0x74, 0x06, 0xb4, 0x0e, 0xcd,
    0x10, 0xeb, 0xf5, 0x30, 0xe4, 0xcd, 0x16, 0xcd, 0x19, 0x0d, 0x0a]
    ++ cstr "Non-system disk" ++ [0x0d, 0x0a] ++ cstr "Press any key to reboot"
    ++ [0x0d, 0x0a, 0]

/-- `struct bsbpb`. -/
def bsbpb (b : Bpb) : List UInt8 :=
  mk 2 b.bps ++ mk 1 b.spc ++ mk 2 b.res ++ mk 1 b.nft ++ mk 2 b.rde ++ mk 2 b.sec ++ mk 1 b.mid
    ++ mk 2 b.spf ++ mk 2 b.spt ++ mk 2 b.hds ++ mk 4 b.hid ++ mk 4 b.bsec

/-- `struct bsxbpb`, up to what is reserved. -/
def bsxbpb (b : Bpb) : List UInt8 :=
  mk 4 b.bspf ++ mk 2 0 ++ mk 2 0 ++ mk 4 b.rdcl ++ mk 2 b.infs ++ mk 2 b.bkbs

/-- The volume ID. -/
def volid (o : Opts) (t : Clock) : UInt32 :=
  if o.Iflag then o.opt_I
  else
    let day := (1 + t.tm_mon) <<< (8 : UInt32) ||| t.tm_mday
    let part := t.tm_sec <<< (8 : UInt32) ||| t.tv_usec / 10
    let hour := t.tm_hour <<< (8 : UInt32) ||| t.tm_min
    (day + part) <<< (16 : UInt32) ||| (1900 + t.tm_year + hour)

/-- `struct bsx`, from the signature on. -/
def bsx (o : Opts) (t : Clock) (fat : UInt32) : List UInt8 :=
  0x29 :: mk 4 (volid o t) ++ mklabel (o.opt_L.getD (cstr "NO NAME"))
    ++ setstr (cstr "FAT" ++ fmt_u fat) 8

/-- Where `struct bsx` starts. -/
def bsx_offset (fat : UInt32) : ℕ := if fat = 32 then 64 else 36

/-- The jump and the name in front of the parameters. -/
def bs (o : Opts) (fat : UInt32) : List UInt8 :=
  [0xeb, UInt8.ofNat (bsx_offset fat + 24), 0x90] ++ setstr (o.opt_O.getD (cstr "BSD  4.4")) 8

/-- `DOSMAGIC` -/
def dosmagic : List UInt8 := mk 2 0xaa55

/-- What is put into the boot sector and its backup. -/
def boot_parts (o : Opts) (t : Clock) (l : Layout) : List (ℕ × List UInt8) :=
  (11, bsbpb l.bpb) :: (if l.fat = 32 then [(36, bsxbpb l.bpb)] else [])
    ++ (bsx_offset l.fat + 2, bsx o t l.fat) ::
      if o.opt_B.isSome then []
      else [(0, bs o l.fat), (bsx_offset l.fat + 26, bootcode), (510, dosmagic)]

/-- What is put into the info sector and its backup. -/
def info_parts (l : Layout) : List (ℕ × List UInt8) :=
  [(0, mk 4 0x41615252), (484, mk 4 0x61417272), (488, mk 4 0xffffffff), (492, mk 4 l.bpb.rdcl),
    (510, dosmagic)]

/-- The bytes that a FAT starts with. -/
def fat_start (l : Layout) : List UInt8 :=
  mk 1 l.bpb.mid
    ++ (List.range' 1 ((l.fat * (if l.fat = 32 then 3 else 2) / 8).toNat - 1)).map fun x =>
      if l.fat = 32 ∧ x % 4 = 3 then 0x0f else 0xff

/-- The time and the date of the label. -/
def label_time (t : Clock) : List UInt8 :=
  mk 2 (t.tm_hour <<< (11 : UInt32) ||| t.tm_min <<< (5 : UInt32) ||| t.tm_sec >>> (1 : UInt32))
    ++ mk 2 ((t.tm_year - 80) <<< (9 : UInt32) ||| (t.tm_mon + 1) <<< (5 : UInt32) ||| t.tm_mday)

/-- What is put into the first sector of the root directory: a label. -/
def label_parts (t : Clock) (opt_L : CStr) : List (ℕ × List UInt8) :=
  [(0, mklabel opt_L), (11, [0x28]), (22, label_time t)]

/-- The sectors of a FAT, as `u_int`. -/
def Bpb.spf_or_bspf (b : Bpb) : UInt32 := if b.spf ≠ 0 then b.spf else b.bspf

/-- `dir`. -/
def Layout.dir_lsn (l : Layout) : UInt32 := l.bpb.res + l.bpb.spf_or_bspf * l.bpb.nft

/-- The first sector that is not written. -/
def Layout.end_lsn (l : Layout) : UInt32 :=
  l.dir_lsn + (if l.fat = 32 then l.bpb.spc else l.rds)

def Layout.is_boot (l : Layout) (lsn : UInt32) : Bool :=
  lsn = 0 ∨ l.fat = 32 ∧ l.bpb.bkbs ≠ MAXU16 ∧ lsn = l.bpb.bkbs

def Layout.is_info (l : Layout) (lsn : UInt32) : Bool :=
  l.fat = 32 ∧ l.bpb.infs ≠ MAXU16 ∧
    (lsn = l.bpb.infs ∨ l.bpb.bkbs ≠ MAXU16 ∧ lsn = l.bpb.bkbs + l.bpb.infs)

def Layout.is_fat_start (l : Layout) (lsn : UInt32) : Bool :=
  l.bpb.res ≤ lsn ∧ lsn < l.dir_lsn ∧ (lsn - l.bpb.res) % l.bpb.spf_or_bspf = 0

/-- What is put into sector `lsn`. -/
def sector_parts (o : Opts) (t : Clock) (l : Layout) (lsn : UInt32) : List (ℕ × List UInt8) :=
  if l.is_boot lsn then boot_parts o t l
  else if l.is_info lsn then info_parts l
  else if l.is_fat_start lsn then [(0, fat_start l)]
  else
    match o.opt_L with
    | some opt_L => if lsn = l.dir_lsn then label_parts t opt_L else []
    | none => []

/-- What is written to sector `lsn`, by what is in `img` before. -/
def sector (o : Opts) (t : Clock) (l : Layout) (lsn : UInt32) (img : List UInt8) : List UInt8 :=
  splices img (sector_parts o t l lsn)

/-! ## Writing -/

/-- What becomes of the calls that get at the two files. -/
structure Special where
  opened : Bool
  truncated : Bool
  stat : Bool
  lseek : Bool
  geo : Geometry
  boot : BootFile
  reads : ℕ → IoRes
  writes : ℕ → IoRes

/-- The sector of the bootstrap that goes to `lsn`, and whether it is the first one of a second
copy. -/
def boot_lsn (o : Opts) (l : Layout) (lsn : UInt32) : UInt32 × Bool :=
  if o.opt_B.isSome ∧ l.fat = 32 ∧ l.bpb.bkbs ≠ MAXU16 ∧ l.bss ≤ l.bpb.bkbs ∧ l.bpb.bkbs ≤ lsn then
    (lsn - l.bpb.bkbs, lsn = l.bpb.bkbs)
  else (lsn, false)

/-- The bytes of the bootstrap. -/
def BootFile.contents : BootFile → List UInt8
  | regular contents => contents
  | _ => []

/-- What is in `img` before sector `lsn` is made, and where in the bootstrap the next read is.
`lseek` is taken for an error if it goes anywhere but to the start. -/
def boot_image (o : Opts) (sp : Special) (l : Layout) (lsn : UInt32) (pos : ℕ) :
    Exec Refusal (List UInt8 × ℕ) := do
  let bname := boot_name (o.opt_B.getD [])
  let x := boot_lsn o l lsn
  errx_if (x.2 = true ∧ o.opt_ofs ≠ 0) (.boot bname)
  let pos := if x.2 then 0 else pos
  if o.opt_B.isSome ∧ x.1 < l.bss then do
    errx_if (sp.reads lsn.toNat = .eintr ∨ sp.reads lsn.toNat = .err) (.boot bname)
    let n := (sp.reads lsn.toNat).amount (min l.bpb.bps.toNat (sp.boot.contents.length - pos))
    errx_if (n ≠ l.bpb.bps.toNat) (.boot_sector bname x.1)
    .ret (slice sp.boot.contents pos n, pos + n)
  else .ret (List.replicate l.bpb.bps.toNat 0, pos)

/-- `write` of a sector. -/
def write_sector (a : Args) (sp : Special) (lsn : UInt32) (img : List UInt8) (disk : Store) :
    Store × Exec Refusal Unit :=
  let off := a.opts.opt_ofs.toNat + lsn.toNat * img.length
  match sp.writes lsn.toNat with
  | .all => (disk.write off img, .ret ())
  | .upto n =>
    (disk.write off (img.take n),
      if img.length ≤ n then .ret () else .die (.write_sector a.fname lsn))
  | _ => (disk, .die (.write a.fname))

/-- The loop over the sectors, `left` of them from `lsn` on: what is on the disk then. -/
def write_sectors (a : Args) (sp : Special) (t : Clock) (l : Layout) :
    (left : ℕ) → (lsn : UInt32) → (pos : ℕ) → Store → Store × Exec Refusal Unit
  | 0, _, _, disk => (disk, .ret ())
  | left + 1, lsn, pos, disk =>
    match boot_image a.opts sp l lsn pos with
    | .ret (img, pos) =>
      match write_sector a sp lsn (sector a.opts t l lsn img) disk with
      | (disk, .ret _) => write_sectors a sp t l left (lsn + 1) pos disk
      | (disk, r) => (disk, r)
    | .die e => (disk, .die e)
    | .fault => (disk, .fault)
    | .hang => (disk, .hang)

/-- `newfs_msdos_main` up to `check_mounted`, which does nothing, and to the seek. -/
def open_special (a : Args) (sp : Special) : Exec Refusal Unit := do
  let o := a.opts
  errx_if (o.opt_create ≠ 0 ∧ o.opt_N) .incompatible
  errx_if (o.opt_create ≠ 0 ∧ ¬ sp.opened) (.create a.fname)
  errx_if (o.opt_create ≠ 0 ∧ ¬ sp.truncated) (.truncate o.opt_create)
  errx_if (o.opt_create = 0 ∧ ¬ sp.opened) (.special a.fname)
  errx_if (¬ sp.stat) (.special a.fname)
  errx_if (o.opt_ofs ≠ 0 ∧ ¬ sp.lseek) (.seek o.opt_ofs)

/-- What is in the file before anything is written: nothing, if it is created. -/
def Args.blank (a : Args) (sp : Special) (disk : Store) : Store :=
  if a.opts.opt_create ≠ 0 ∧ ¬ a.opts.opt_N ∧ sp.opened then fun _ => 0 else disk

/-- `newfs_msdos_main` behind its options. -/
def newfs_msdos_main (a : Args) (sp : Special) (t : Clock) (disk : Store) :
    Store × Exec Refusal Unit :=
  let disk := a.blank sp disk
  let prepared : Exec Refusal Layout := do
    open_special a sp
    newfs_msdos_layout a.opts a.fname sp.geo sp.boot
  match prepared with
  | .ret l =>
    if a.opts.opt_N then (disk, .ret ())
    else write_sectors a sp t l l.end_lsn.toNat 0 0 disk
  | .die e => (disk, .die e)
  | .fault => (disk, .fault)
  | .hang => (disk, .hang)

end NewfsMsdos

end Iago
