/-
`newfs_msdos_main` from its arguments to the parameters of the file system.

What the options say, what the kernel says about the device and what a standard format says
is put together in a `struct bpb`, and what nobody says is computed: which kind of FAT it is,
where the info sector and the backup of the boot sector go, how many sectors a cluster has,
and at last how long the FATs are and how many clusters there are. All numbers are `u_int`,
which wraps, apart from the places where the source has a cast or a `sizeof`; there it is 64
bits.

This is the translation; what is true of the parameters is in `FatSizes`.
-/
import Iago.Decimal
import Iago.NewfsMsdos

set_option autoImplicit false

namespace Iago

namespace NewfsMsdos

def MAXU16 : UInt32 := 0xffff
def BPN : UInt32 := 4
def NPB : UInt32 := 2
def MINBPS : UInt32 := 512
def MAXSPC : UInt32 := 128
def MAXNFT : UInt32 := 16
def DEFBLK : UInt32 := 4096
def DEFBLK16 : UInt32 := 2048
def DEFRDE : UInt32 := 512
def RESFTE : UInt32 := 2
def MINCLS12 : UInt32 := 1
def MINCLS16 : UInt32 := 0x1000
def MINCLS32 : UInt32 := 2
def MAXCLS12 : UInt32 := 0xfed
def MAXCLS16 : UInt32 := 0xfff5
def MAXCLS32 : UInt32 := 0xffffff5

def mincls (fat : UInt32) : UInt32 :=
  if fat = 12 then MINCLS12 else if fat = 16 then MINCLS16 else MINCLS32

def maxcls (fat : UInt32) : UInt32 :=
  if fat = 12 then MAXCLS12 else if fat = 16 then MAXCLS16 else MAXCLS32

/-- `howmany`, of 32 bits. -/
def howmany (x y : UInt32) : UInt32 := (x + (y - 1)) / y

/-- `howmany` where a `sizeof` makes it 64 bits. -/
def howmany64 (x y : UInt64) : UInt64 := (x + (y - 1)) / y

/-- `powerof2`. -/
def powerof2 (x : UInt32) : Bool := (x - 1) &&& x = 0

/-- `struct bpb`. -/
structure Bpb where
  bps : UInt32
  spc : UInt32
  res : UInt32
  nft : UInt32
  rde : UInt32
  sec : UInt32
  mid : UInt32
  spf : UInt32
  spt : UInt32
  hds : UInt32
  hid : UInt32
  bsec : UInt32
  bspf : UInt32
  rdcl : UInt32
  infs : UInt32
  bkbs : UInt32
  deriving DecidableEq

/-- `memset(&bpb, 0, sizeof(bpb))` -/
def Bpb.zero : Bpb := ⟨0, 0, 0, 0, 0, 0, 0, 0, 0, 0, 0, 0, 0, 0, 0, 0⟩

/-- An entry of `stdfmt`, with the `BPBGAP`. -/
def Bpb.floppy (bps spc res nft rde sec mid spf spt hds : UInt32) : Bpb :=
  ⟨bps, spc, res, nft, rde, sec, mid, spf, spt, hds, 0, 0, 0, 0, 0, 0⟩

def stdfmt : List (CStr × Bpb) :=
  [(cstr "160", .floppy 512 1 1 2 64 320 0xfe 1 8 1),
    (cstr "180", .floppy 512 1 1 2 64 360 0xfc 2 9 1),
    (cstr "320", .floppy 512 2 1 2 112 640 0xff 1 8 2),
    (cstr "360", .floppy 512 2 1 2 112 720 0xfd 2 9 2),
    (cstr "640", .floppy 512 2 1 2 112 1280 0xfb 2 8 2),
    (cstr "720", .floppy 512 2 1 2 112 1440 0xf9 3 9 2),
    (cstr "1200", .floppy 512 1 1 2 224 2400 0xf9 7 15 2),
    (cstr "1232", .floppy 1024 1 1 2 192 1232 0xfe 2 8 2),
    (cstr "1440", .floppy 512 1 1 2 224 2880 0xf0 9 18 2),
    (cstr "2880", .floppy 512 2 1 2 240 5760 0xf0 9 36 2)]

/-! ## Refusals -/

/-- Why the process ends once the arguments are read. -/
inductive Refusal where
  | incompatible
  | create (fname : CStr)
  | truncate (size : ℤ)
  | special (fname : CStr)
  | seek (ofs : ℤ)
  | unknown_format (fmt : CStr)
  | sector_size
  | block_count
  | no_default (fname : CStr) (msg : String)
  | illegal (fname : CStr) (msg : String) (val : UInt32)
  | bps_power (bps : UInt32)
  | bps_small (bps : UInt32)
  | not_legal (option : Char) (kind : String)
  | block_power (opt_b : UInt32)
  | block_small (opt_b minimum : UInt32)
  | block_large (opt_b maximum : UInt32)
  | spc_power (opt_c : UInt32)
  | fats_large (opt_n : UInt32)
  | media (opt_m : UInt32)
  | boot (bname : CStr)
  | inappropriate (bname : CStr)
  | no_room (what : String)
  | overwrite
  | few_reserved
  | spf_large
  | meta_data
  | few_clusters (cls fat need : UInt32)
  | boot_sector (bname : CStr) (x : UInt32)
  | write (fname : CStr)
  | write_sector (fname : CStr) (lsn : UInt32)
  deriving DecidableEq

/-- `%u` -/
def fmt_u (n : UInt32) : CStr := dec n.toNat

/-- `%#x` -/
def fmt_x (n : UInt32) : CStr :=
  if n = 0 then cstr "0"
  else cstr "0x" ++ (Nat.toDigits 16 n.toNat).map fun c => UInt8.ofNat c.toNat

/-- What it says; `err` puts the error of the system call behind it. -/
def Refusal.message : Refusal → CStr
  | incompatible => cstr "create (-C) is incompatible with -N"
  | create fname => cstr "failed to create " ++ fname
  | truncate size => cstr "failed to initialize " ++ decInt size ++ cstr " bytes"
  | special fname => fname
  | seek ofs => cstr "cannot seek to " ++ decInt ofs
  | unknown_format fmt => fmt ++ cstr ": unknown standard format"
  | sector_size => cstr "Error getting bytes / sector"
  | block_count => cstr "Error getting blocksize"
  | no_default fname msg => fname ++ cstr ": no default " ++ cstr msg
  | illegal fname msg val =>
    fname ++ cstr ": illegal " ++ cstr msg ++ cstr " " ++ decInt val.toInt32.toInt
  | bps_power bps => cstr "bytes/sector (" ++ fmt_u bps ++ cstr ") is not a power of 2"
  | bps_small bps =>
    cstr "bytes/sector (" ++ fmt_u bps ++ cstr ") is too small; minimum is " ++ fmt_u MINBPS
  | not_legal option kind =>
    cstr "-" ++ [UInt8.ofNat option.toNat] ++ cstr " is not a legal FAT" ++ cstr kind
      ++ cstr " option"
  | block_power opt_b => cstr "block size (" ++ fmt_u opt_b ++ cstr ") is not a power of 2"
  | block_small opt_b minimum =>
    cstr "block size (" ++ fmt_u opt_b ++ cstr ") is too small; minimum is " ++ fmt_u minimum
  | block_large opt_b maximum =>
    cstr "block size (" ++ fmt_u opt_b ++ cstr ") is too large; maximum is " ++ fmt_u maximum
  | spc_power opt_c => cstr "sectors/cluster (" ++ fmt_u opt_c ++ cstr ") is not a power of 2"
  | fats_large opt_n =>
    cstr "number of FATs (" ++ fmt_u opt_n ++ cstr ") is too large; maximum is " ++ fmt_u MAXNFT
  | media opt_m => cstr "illegal media descriptor (" ++ fmt_x opt_m ++ cstr ")"
  | boot bname => bname
  | inappropriate bname => bname ++ cstr ": inappropriate file type or format"
  | no_room what => cstr "no room for " ++ cstr what ++ cstr " sector"
  | overwrite => cstr "backup sector would overwrite info sector"
  | few_reserved => cstr "too few reserved sectors"
  | spf_large => cstr "too many sectors/FAT for FAT12/16"
  | meta_data => cstr "meta data exceeds file system size"
  | few_clusters cls fat need =>
    fmt_u cls ++ cstr " clusters too few clusters for FAT" ++ fmt_u fat ++ cstr ", need "
      ++ fmt_u need
  | boot_sector bname x => bname ++ cstr ": can't read sector " ++ fmt_u x
  | write fname => fname
  | write_sector fname lsn => fname ++ cstr ": can't write sector " ++ fmt_u lsn

/-- `if (c) errx(1, ...)` -/
def errx_if (c : Prop) [Decidable c] (e : Refusal) : Exec Refusal Unit :=
  if c then .die e else .ret ()

@[simp] theorem errx_if_eq_ret {c : Prop} [Decidable c] {e : Refusal} {u : Unit} :
    errx_if c e = .ret u ↔ ¬ c := by
  unfold errx_if
  split_ifs with hc
  · exact ⟨fun h => (by cases h), fun h => absurd hc h⟩
  · exact ⟨fun _ => hc, fun _ => rfl⟩

/-! ## What the options and the device say -/

/-- `if (opt) x = opt;` -/
def given (opt x : UInt32) : UInt32 := if opt ≠ 0 then opt else x

/-- `getstdfmt`. -/
def getstdfmt (fmt : CStr) : Exec Refusal Bpb :=
  match stdfmt.lookup fmt with
  | some bpb => .ret bpb
  | none => .die (.unknown_format fmt)

/-- The standard format, with its numbers where those of a large file system are. -/
def format_given (o : Opts) : Exec Refusal Bpb :=
  match o.opt_f with
  | none => .ret .zero
  | some fmt => do
    let bpb ← getstdfmt fmt
    .ret { bpb with bsec := bpb.sec, sec := 0, bspf := bpb.spf, spf := 0 }

/-- The options about the disk. -/
def disk_given (o : Opts) (bpb : Bpb) : Bpb :=
  { bpb with
    hds := given o.opt_h bpb.hds
    spt := given o.opt_u bpb.spt
    bps := given o.opt_S bpb.bps
    bsec := given o.opt_s bpb.bsec
    hid := if o.oflag then o.opt_o else bpb.hid }

/-- What the kernel answers about a device; `HDIO_GETGEO` gives heads and sectors. -/
structure Geometry where
  BLKSSZGET : Option UInt32
  BLKGETSIZE : Option UInt64
  HDIO_GETGEO : Option (UInt8 × UInt8)

/-- `ckgeom`. -/
def ckgeom (fname : CStr) (val : UInt32) (msg : String) : Exec Refusal Unit := do
  errx_if (val = 0) (.no_default fname msg)
  errx_if (MAXU16 < val) (.illegal fname msg val)

/-- The heads, or a value that makes sense. -/
def heads (geo : Geometry) : UInt8 :=
  match geo.HDIO_GETGEO with
  | none => 64
  | some geom => if geom.1 = 0 then 64 else geom.1

/-- The sectors of a track, likewise. -/
def sectors (geo : Geometry) : UInt8 :=
  match geo.HDIO_GETGEO with
  | none => 63
  | some geom => if geom.2 = 0 then 63 else geom.2

/-- `getdiskinfo`. `BLKGETSIZE` stores an `unsigned long` at `&bpb->bsec`: the upper half of
it is `bspf`, the field behind. -/
def getdiskinfo (fname : CStr) (geo : Geometry) (bpb : Bpb) : Exec Refusal Bpb :=
  match geo.BLKSSZGET with
  | none => .die .sector_size
  | some bps => do
    ckgeom fname bps "bytes/sector"
    match geo.BLKGETSIZE with
    | none => .die .block_count
    | some size => do
      ckgeom fname (sectors geo).toUInt32 "sectors/track"
      ckgeom fname (heads geo).toUInt32 "drive heads"
      .ret { bpb with
        bps := bps
        bsec := size.toUInt32
        bspf := (size >>> 32).toUInt32
        spt := (sectors geo).toUInt32
        hds := (heads geo).toUInt32 }

/-- The default of the sectors per cluster. -/
def default_spc (bsec : UInt32) : UInt32 :=
  if bsec ≤ 6000 then 1
  else if bsec ≤ 131072 then 8
  else if bsec ≤ 524288 then 16
  else if bsec ≤ 4194304 then 32
  else 64

/-- The options say all that `getdiskinfo` would. -/
def disk_known (o : Opts) : Bool :=
  o.opt_f.isSome ∨ o.opt_h ≠ 0 ∧ o.opt_u ≠ 0 ∧ o.opt_S ≠ 0 ∧ o.opt_s ≠ 0 ∧ o.oflag

/-- The sectors that are left of `bsec` behind the offset, in whole tracks. -/
def usable_sectors (opt_ofs : ℤ) (bps spt bsec : UInt32) : UInt32 :=
  let bsec := bsec - UInt32.ofInt (opt_ofs.tdiv bps.toNat)
  bsec - bsec % spt

/-- The block around `getdiskinfo`. -/
def disk_asked (o : Opts) (fname : CStr) (geo : Geometry) (bpb : Bpb) : Exec Refusal Bpb :=
  if disk_known o then .ret bpb
  else do
    let bpb ← getdiskinfo fname geo bpb
    let bsec := usable_sectors o.opt_ofs bpb.bps bpb.spt (given o.opt_s bpb.bsec)
    .ret { bpb with bsec := bsec, spc := if bpb.spc = 0 then default_spc bsec else bpb.spc }

/-! ## What is checked -/

/-- The kind of FAT, as far as it is said. -/
def fat_given (o : Opts) : UInt32 :=
  if o.opt_F ≠ 0 then o.opt_F
  else if o.opt_f.isSome then 12
  else if o.opt_e = 0 ∧ (o.opt_i ≠ 0 ∨ o.opt_k ≠ 0) then 32
  else 0

/-- The sectors per cluster, with the options about them. -/
def spc_given (o : Opts) (bps spc : UInt32) : Exec Refusal UInt32 := do
  errx_if (o.opt_b ≠ 0 ∧ ¬ powerof2 o.opt_b) (.block_power o.opt_b)
  errx_if (o.opt_b ≠ 0 ∧ o.opt_b < bps) (.block_small o.opt_b bps)
  errx_if (o.opt_b ≠ 0 ∧ bps * MAXSPC < o.opt_b) (.block_large o.opt_b (bps * MAXSPC))
  let spc := if o.opt_b ≠ 0 then o.opt_b / bps else spc
  errx_if (o.opt_c ≠ 0 ∧ ¬ powerof2 o.opt_c) (.spc_power o.opt_c)
  .ret (given o.opt_c spc)

/-- The checks from `powerof2(bpb.bps)` on, and the options that are left. -/
def checked (o : Opts) (bpb : Bpb) : Exec Refusal Bpb := do
  let fat := fat_given o
  errx_if (¬ powerof2 bpb.bps) (.bps_power bpb.bps)
  errx_if (bpb.bps < MINBPS) (.bps_small bpb.bps)
  errx_if (fat = 32 ∧ o.opt_e ≠ 0 ∨ fat ≠ 32 ∧ (o.opt_i ≠ 0 ∨ o.opt_k ≠ 0))
    (.not_legal (if fat = 32 then 'e' else if o.opt_i ≠ 0 then 'i' else 'k')
      (if fat = 32 then "32" else "12/16"))
  let rde := if o.opt_f.isSome ∧ fat = 32 then 0 else bpb.rde
  let spc ← spc_given o bpb.bps bpb.spc
  errx_if (MAXNFT < o.opt_n) (.fats_large o.opt_n)
  errx_if (o.mflag ∧ o.opt_m < 0xf0) (.media o.opt_m)
  .ret { bpb with
    spc := spc
    res := given o.opt_r bpb.res
    nft := given o.opt_n bpb.nft
    rde := given o.opt_e rde
    mid := if o.mflag then o.opt_m else bpb.mid
    bspf := given o.opt_a bpb.bspf
    infs := given o.opt_i bpb.infs
    bkbs := given o.opt_k bpb.bkbs }

/-- The file of `-B`: it cannot be opened, it is no regular file, or these are its bytes. -/
inductive BootFile where
  | missing
  | irregular
  | regular (contents : List UInt8)

/-- Where it is looked for. -/
def boot_name (opt_B : CStr) : CStr :=
  if 47 ∈ opt_B then opt_B else (cstr "/boot/" ++ opt_B).take (MAXPATHLEN - 1)

/-- The number of its sectors: `bss`. -/
def boot_sectors (o : Opts) (boot : BootFile) (bps : UInt32) : Exec Refusal UInt32 :=
  match o.opt_B with
  | none => .ret 1
  | some opt_B =>
    match boot with
    | .missing => .die (.boot (boot_name opt_B))
    | .irregular => .die (.inappropriate (boot_name opt_B))
    | .regular contents => do
      errx_if (contents.length % bps.toNat ≠ 0 ∨ contents.length < bps.toNat
        ∨ (bps * MAXU16).toNat < contents.length) (.inappropriate (boot_name opt_B))
      .ret (UInt32.ofNat (contents.length / bps.toNat))

/-! ## What is computed -/

/-- The kind of FAT, by the size of the file system. -/
def fat_chosen (bpb : Bpb) (bss : UInt32) : UInt32 :=
  let cls := if bpb.spc ≠ 0 then MINCLS16 else MAXCLS12 + 1
  if bpb.bsec.toUInt64 < (given bpb.res bss
        + howmany ((RESFTE + cls) * ((if bpb.spc ≠ 0 then 16 else 12) / BPN)) (bpb.bps * NPB)
          * bpb.nft).toUInt64
      + howmany64 (given bpb.rde DEFRDE).toUInt64 (bpb.bps.toUInt64 / 32)
      + (cls * given bpb.spc (howmany DEFBLK bpb.bps)).toUInt64 then 12
  else if bpb.rde ≠ 0 ∨ bpb.bsec.toUInt64 < (given bpb.res bss
        + howmany ((RESFTE + MAXCLS16) * 2) bpb.bps * bpb.nft).toUInt64
      + howmany64 DEFRDE.toUInt64 (bpb.bps.toUInt64 / 32)
      + ((MAXCLS16 + 1) * given bpb.spc (howmany 8192 bpb.bps)).toUInt64 then 16
  else 32

/-- The info sector and the backup of the boot sector, and the first sector behind all that. -/
def info_sectors (bpb : Bpb) (fat bss : UInt32) : Exec Refusal (Bpb × UInt32) :=
  if fat = 32 then do
    errx_if (bpb.infs = 0 ∧ (bss = MAXU16 ∨ bss = bpb.bkbs)) (.no_room "info")
    let infs := given bpb.infs bss
    let x := if infs ≠ MAXU16 ∧ bss ≤ infs then infs + 1 else bss
    errx_if (bpb.bkbs = 0 ∧ x = MAXU16) (.no_room "backup")
    errx_if (bpb.bkbs ≠ 0 ∧ bpb.bkbs ≠ MAXU16 ∧ bpb.bkbs = infs) .overwrite
    let bkbs := given bpb.bkbs x
    let x := if bkbs ≠ MAXU16 ∧ x ≤ bkbs then bkbs + 1 else x
    .ret ({ bpb with infs := infs, bkbs := bkbs }, x)
  else .ret (bpb, bss)

/-- The reserved sectors; `x` of them are needed. -/
def reserved (bpb : Bpb) (fat x : UInt32) : Exec Refusal UInt32 := do
  errx_if (bpb.res ≠ 0 ∧ bpb.res < x) .few_reserved
  .ret (given bpb.res (if fat = 32 then max x (max (16384 / bpb.bps) 4) else x))

/-- The condition of the loop for the sectors per cluster. -/
def more_spc (bpb : Bpb) (fat rds spc : UInt32) : Bool :=
  spc < MAXSPC ∧
    (bpb.res + howmany ((RESFTE + maxcls fat) * (fat / BPN)) (bpb.bps * NPB) * bpb.nft
      + rds).toUInt64 + (maxcls fat + 1).toUInt64 * spc.toUInt64 ≤ bpb.bsec.toUInt64

/-- The loop, with the rounds it is given. -/
def spc_loop (bpb : Bpb) (fat rds : UInt32) : (rounds : ℕ) → (spc : UInt32) → Exec Refusal UInt32
  | 0, _ => .hang
  | rounds + 1, spc =>
    if more_spc bpb fat rds spc then spc_loop bpb fat rds rounds (spc <<< 1) else .ret spc

/-- The sectors per cluster: eight rounds take 1 to 128. -/
def spc_computed (bpb : Bpb) (fat rds : UInt32) : Exec Refusal UInt32 :=
  if bpb.spc ≠ 0 then .ret bpb.spc
  else spc_loop bpb fat rds 8 (howmany (if fat = 16 then DEFBLK16 else DEFBLK) bpb.bps)

/-- How many clusters there are, and the sectors of a FAT and of the file system. -/
structure Extent where
  cls : UInt32
  bspf : UInt32
  bsec : UInt32

/-- The clusters behind sector `x1`: no more than the FATs have entries for, and than there are
of this kind. -/
def counted (bpb : Bpb) (fat bspf x1 : UInt32) : Exec Refusal Extent := do
  let cls := (bpb.bsec - x1) / bpb.spc
  let x := (bspf.toUInt64 * bpb.bps.toUInt64 * NPB.toUInt64 / (fat / BPN).toUInt64
    - RESFTE.toUInt64).toUInt32
  let cls := if x < cls then x else cls
  errx_if (cls < mincls fat) (.few_clusters cls fat (mincls fat))
  if maxcls fat < cls then
    .ret ⟨maxcls fat, bspf, x1 + (maxcls fat + 1) * bpb.spc - 1⟩
  else .ret ⟨cls, bspf, bpb.bsec⟩

/-- The sizes: `x1` is the first sector behind the FATs and the root directory. -/
def extent (bpb : Bpb) (fat rds : UInt32) : Exec Refusal Extent := do
  errx_if (fat ≠ 32 ∧ MAXU16 < bpb.bspf) .spf_large
  let x1 := bpb.res + rds
  let x := given bpb.bspf 1
  errx_if (bpb.bsec.toUInt64 < x1.toUInt64 + x.toUInt64 * bpb.nft.toUInt64) .meta_data
  let x1 := x1 + x * bpb.nft
  let x := ((bpb.bsec - x1).toUInt64 * bpb.bps.toUInt64 * NPB.toUInt64
    / (bpb.spc * bpb.bps * NPB + fat / BPN * bpb.nft).toUInt64).toUInt32
  let x2 := howmany ((RESFTE + min x (maxcls fat)) * (fat / BPN)) (bpb.bps * NPB)
  if bpb.bspf = 0 then counted bpb fat x2 (x1 + (x2 - 1) * bpb.nft)
  else counted bpb fat bpb.bspf x1

/-- The last changes before the file system is written: the media descriptor, and the numbers
where a small file system has them. -/
def finished (bpb : Bpb) (fat : UInt32) : Bpb :=
  let small := bpb.hid + bpb.bsec ≤ MAXU16
  { bpb with
    mid := given bpb.mid (if bpb.hid = 0 then 0xf0 else 0xf8)
    rdcl := if fat = 32 then RESFTE else bpb.rdcl
    sec := if small then bpb.bsec else bpb.sec
    bsec := if small then 0 else bpb.bsec
    spf := if fat ≠ 32 then bpb.bspf else bpb.spf
    bspf := if fat ≠ 32 then 0 else bpb.bspf }

/-- What the file system is written by. -/
structure Layout where
  bpb : Bpb
  fat : UInt32
  bss : UInt32
  rds : UInt32
  cls : UInt32
  deriving DecidableEq

/-- What is computed from the checked parameters. -/
def laid_out (o : Opts) (boot : BootFile) (bpb : Bpb) : Exec Refusal Layout := do
  let bss ← boot_sectors o boot bpb.bps
  let bpb := { bpb with nft := given bpb.nft 2 }
  let fat := given (fat_given o) (fat_chosen bpb bss)
  let r ← info_sectors bpb fat bss
  let res ← reserved r.1 fat r.2
  let bpb := { r.1 with res := res, rde := if fat ≠ 32 then given r.1.rde DEFRDE else r.1.rde }
  let rds := (howmany64 bpb.rde.toUInt64 (bpb.bps.toUInt64 / 32)).toUInt32
  let spc ← spc_computed bpb fat rds
  let bpb := { bpb with spc := spc }
  let e ← extent bpb fat rds
  .ret ⟨finished { bpb with bspf := e.bspf, bsec := e.bsec } fat, fat, bss, rds, e.cls⟩

/-- `newfs_msdos_main` from the offset on, up to `print_bpb`. -/
def newfs_msdos_layout (o : Opts) (fname : CStr) (geo : Geometry) (boot : BootFile) :
    Exec Refusal Layout := do
  let bpb ← format_given o
  let bpb ← disk_asked o fname geo (disk_given o bpb)
  let bpb ← checked o bpb
  laid_out o boot bpb

end NewfsMsdos

end Iago
