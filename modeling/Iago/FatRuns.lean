/-
Whole runs of `newfs_msdos_main`, with any arguments.

A run never changes a byte outside the file system it has computed, whatever becomes of its
calls (`only_the_file_system_changes`), and one that returns leaves an empty file system behind,
with the parameters that it computed and the label that it was given (`formatted_fresh`). What is
on the disk in the written part then depends on nothing that was there before. In a FAT32 file
system the boot sector and the info sector are there twice (`backups_equal`).

There is one use of the options that never gets through: a bootstrap that is to be written
twice, in a file system at an offset. The second copy takes the position in the file of the
bootstrap back to the offset of the file system, and any position but 0 is taken for an error
(`second_copy_at_offset`).
-/
import Iago.FatFresh

set_option autoImplicit false

namespace Iago

namespace NewfsMsdos

/-- These are the arguments of some call, and it is not one to show the parameters only. -/
structure Args.Formats (a : Args) : Prop where
  given : ∃ errno argv g g', newfs_msdos_args errno argv g = .ret (a, g')
  opt_N : a.opts.opt_N = false

/-- The options of a call are in their ranges. -/
theorem Args.Formats.ranged {a : Args} (ha : a.Formats) : a.opts.Ranged := by
  obtain ⟨errno, argv, g, g', h⟩ := ha.given
  exact args_ranged h

section Runs

variable {a : Args} {sp : Special} {t : Clock} {disk s : Store}

/-- The parameters, once the device is open. -/
def prepared (a : Args) (sp : Special) : Exec Refusal Layout := do
  open_special a sp
  newfs_msdos_layout a.opts a.fname sp.geo sp.boot

/-- The parameters a run writes by are those of `newfs_msdos_layout`. -/
theorem prepared_eq_ret {l : Layout} (h : prepared a sp = .ret l) :
    newfs_msdos_layout a.opts a.fname sp.geo sp.boot = .ret l := by
  obtain ⟨_, -, h⟩ := Exec.bind_eq_ret.mp h
  exact h

/-- What is made of the parameters. -/
def write_out (a : Args) (sp : Special) (t : Clock) (disk : Store) :
    Exec Refusal Layout → Store × Exec Refusal Unit
  | .ret l =>
    if a.opts.opt_N then (a.blank sp disk, .ret ())
    else write_sectors a sp t l l.end_lsn.toNat 0 0 (a.blank sp disk)
  | .die e => (a.blank sp disk, .die e)
  | .fault => (a.blank sp disk, .fault)
  | .hang => (a.blank sp disk, .hang)

/-- A run that is not for show computes the parameters, and then writes. -/
theorem main_eq (t : Clock) (disk : Store) :
    newfs_msdos_main a sp t disk = write_out a sp t disk (prepared a sp) := rfl

/-- A run is the writing of the sectors, if there is anything to write by. -/
theorem main_cases (ha : a.Formats) (t : Clock) (disk : Store) :
    (∃ l, prepared a sp = .ret l ∧ l.Sound ∧ newfs_msdos_main a sp t disk
        = write_sectors a sp t l l.end_lsn.toNat 0 0 (a.blank sp disk)) ∨
      (newfs_msdos_main a sp t disk).1 = a.blank sp disk ∧
        (newfs_msdos_main a sp t disk).2 ≠ .ret () := by
  rw [main_eq]
  cases hp : prepared a sp with
  | ret l =>
    refine .inl ⟨l, rfl, layout_sound ha.ranged (prepared_eq_ret hp), ?_⟩
    simp only [write_out, ha.opt_N, Bool.false_eq_true, if_false]
  | die e => exact .inr ⟨rfl, fun h => by cases h⟩
  | fault => exact .inr ⟨rfl, fun h => by cases h⟩
  | hang => exact .inr ⟨rfl, fun h => by cases h⟩

theorem Layout.boot_pos_zero (o : Opts) (l : Layout) : boot_pos o l 0 = 0 := by
  unfold boot_pos
  rw [if_neg fun h => Nat.not_lt_zero _ h.2, Nat.zero_min, Nat.zero_mul]

/-- **A run that returns has written every sector.** -/
theorem main_filled (ha : a.Formats) (h : newfs_msdos_main a sp t disk = (s, .ret ())) :
    ∃ l, newfs_msdos_layout a.opts a.fname sp.geo sp.boot = .ret l ∧ l.Sound ∧
      Filled a sp t l (a.blank sp disk) s := by
  rcases main_cases ha t disk with ⟨l, hp, hl, hrun⟩ | ⟨-, hne⟩
  · rw [h] at hrun
    have hlt : (0 : UInt32).toNat + l.end_lsn.toNat < 2 ^ 32 := by
      rw [UInt32.toNat_zero, Nat.zero_add]
      exact l.end_lsn.toNat_lt
    obtain ⟨hfill, hbase⟩ := write_sectors_filled hl hlt
      (fun _ => (l.boot_pos_zero a.opts).symm) hrun.symm
    rw [UInt32.toNat_zero, Nat.zero_add] at hfill hbase
    exact ⟨l, prepared_eq_ret hp, hl, hfill, fun k hk => hbase k (Nat.zero_le k) hk⟩
  · rw [h] at hne
    exact absurd rfl hne

end Runs

/-! ## When all goes well -/

section Good

variable {l : Layout}

/-- A device all calls on which go well. -/
structure Special.Good (sp : Special) : Prop where
  opened : sp.opened = true
  stat : sp.stat = true
  writes : ∀ k, sp.writes k = .all

/-- On a device where all goes well, without a bootstrap, every sector is written. -/
theorem write_sectors_good {a : Args} {sp : Special} {t : Clock} {disk : Store}
    (hsp : sp.Good) (hB : a.opts.opt_B = none) (left : ℕ) (lsn : UInt32) (pos : ℕ) :
    (write_sectors a sp t l left lsn pos disk).2 = .ret () := by
  induction left generalizing lsn pos disk with
  | zero => rfl
  | succ left ih =>
    have hnone : ¬ a.opts.opt_B.isSome = true := by
      rw [hB]
      exact Bool.false_ne_true
    have hlsn : boot_lsn a.opts l lsn = (lsn, false) := if_neg fun h => hnone h.1
    have himg : boot_image a.opts sp l lsn pos
        = .ret (List.replicate l.bpb.bps.toNat 0, pos) := by
      unfold boot_image
      simp only [hlsn, hnone, Bool.false_eq_true, false_and, if_false]
      rfl
    unfold write_sectors
    simp only [himg]
    unfold write_sector
    simp only [hsp.writes]
    exact ih (lsn + 1) pos

/-- Then a run with parameters to write by, and no bootstrap to read, returns. -/
theorem main_good {a : Args} {sp : Special} {t : Clock} {disk : Store} (ha : a.Formats)
    (hsp : sp.Good) (hB : a.opts.opt_B = none) (hp : prepared a sp = .ret l) :
    (newfs_msdos_main a sp t disk).2 = .ret () := by
  have hmain : newfs_msdos_main a sp t disk
      = write_sectors a sp t l l.end_lsn.toNat 0 0 (a.blank sp disk) := by
    unfold newfs_msdos_main
    unfold prepared at hp
    simp only [hp, ha.opt_N, Bool.false_eq_true, if_false]
  rw [hmain]
  exact write_sectors_good hsp hB _ _ _

end Good

/-! ### A call with a label -/

/-- `newfs_msdos -L BOOT /dev/block/sda1` -/
def boot_args : Args :=
  ⟨{ opt_L := some (cstr "BOOT"), errno := false }, cstr "/dev/block/sda1", none⟩

theorem boot_args_given : newfs_msdos_args false
    (newfs_argv (cstr "BOOT") (cstr "/dev/block/sda1")) .initial = .ret (boot_args, ⟨3, []⟩) := by
  rw [args_first (by decide), if_pos (by decide)]
  rfl

theorem boot_args_formats : boot_args.Formats where
  given := ⟨_, _, _, _, boot_args_given⟩
  opt_N := rfl

/-- A device with so many sectors of 512 bytes, on which all goes well. -/
def good_device (size : UInt64) (boot : BootFile) : Special where
  opened := true
  truncated := true
  stat := true
  lseek := true
  geo := ⟨some 512, some size, some (1, 63)⟩
  boot := boot
  reads _ := .all
  writes _ := .all

/-- Such a device answers every call. -/
theorem good_device_good (size : UInt64) (boot : BootFile) : (good_device size boot).Good :=
  ⟨rfl, rfl, fun _ => rfl⟩

/-- New year of 2012. -/
def new_year : Clock := ⟨0, 0, 0, 0, 1, 0, 112⟩

/-- A disk that has been used. -/
def used_disk : Store := fun p => UInt8.ofNat (p + 1)

/-- What becomes of a device with 63 sectors. -/
def small_layout : Layout :=
  ⟨⟨512, 1, 1, 2, 512, 63, 240, 1, 63, 1, 0, 0, 0, 0, 0, 0⟩, 12, 1, 32, 28⟩

theorem small_prepared : prepared boot_args (good_device 63 .missing) = .ret small_layout := by
  decide +kernel

def small_disk : Store :=
  (newfs_msdos_main boot_args (good_device 63 .missing) new_year used_disk).1

/-- A run that returns, as a pair. -/
theorem returned {x : Store × Exec Refusal Unit} (h : x.2 = .ret ()) : x = (x.1, .ret ()) := by
  rw [← h]

theorem small_run : newfs_msdos_main boot_args (good_device 63 .missing) new_year used_disk
    = (small_disk, .ret ()) :=
  returned (main_good boot_args_formats (good_device_good 63 .missing) rfl small_prepared)

/-! ## The parameters -/

/-- **The parameters of every call are sound**: whatever the arguments are taken for, and whatever
the device and the bootstrap turn out to be, it dies with a message or has computed sizes that fit.
The backup of the info sector, `infs` sectors behind that of the boot sector, is not among them. -/
theorem parameters_sound {errno : Bool} {argv : List CStr} {g g' : Getopt} {a : Args}
    (h : newfs_msdos_args errno argv g = .ret (a, g')) (fname : CStr) (geo : Geometry)
    (boot : BootFile) :
    (∃ e, newfs_msdos_layout a.opts fname geo boot = .die e) ∨
      ∃ l, newfs_msdos_layout a.opts fname geo boot = .ret l ∧ l.Sound := by
  have ho := args_ranged h
  rcases (layout_ended ho fname geo boot).die_or_ret with he | ⟨l, hl⟩
  · exact .inl he
  · exact .inr ⟨l, hl, layout_sound ho hl⟩

/-- The call with a label has computed them. -/
theorem parameters_sound_boot :
    ∃ l, newfs_msdos_layout boot_args.opts boot_args.fname (good_device 63 .missing).geo .missing
      = .ret l ∧ l.Sound := by
  refine (parameters_sound boot_args_given boot_args.fname _ _).resolve_left ?_
  rintro ⟨e, hdie⟩
  have hret := hdie.symm.trans (prepared_eq_ret small_prepared)
  cases hret

/-! ## What a run changes -/

section Changes

variable {a : Args} {sp : Special} {t : Clock} {disk disk' s : Store}

/-- **A run changes nothing outside the file system** that it has computed, whatever becomes of
its calls, and nothing at all if it has not come to compute one. -/
theorem only_the_file_system_changes (ha : a.Formats) {p : ℕ}
    (hp : ∀ l, newfs_msdos_layout a.opts a.fname sp.geo sp.boot = .ret l →
      p < a.opts.opt_ofs.toNat ∨
        a.opts.opt_ofs.toNat + l.bpb.total * l.bpb.bps.toNat ≤ p) :
    (newfs_msdos_main a sp t disk).1 p = a.blank sp disk p := by
  rcases main_cases ha t disk with ⟨l, hl, hsound, hrun⟩ | ⟨hsame, -⟩
  · have hend : l.end_lsn.toNat * l.bpb.bps.toNat ≤ l.bpb.total * l.bpb.bps.toNat :=
      Nat.mul_le_mul_right _ hsound.end_le
    have hout := hp l (prepared_eq_ret hl)
    rw [hrun]
    apply write_sectors_outside hsound
    · rw [UInt32.toNat_zero, Nat.zero_add]
      exact l.end_lsn.toNat_lt
    · exact fun _ => (l.boot_pos_zero a.opts).symm
    · rw [UInt32.toNat_zero, Nat.zero_mul, Nat.zero_add]
      omega
  · rw [hsame]

/-- Behind the volume the disk is as it was. -/
theorem byte_behind_small : (newfs_msdos_main boot_args (good_device 63 .missing) new_year
    used_disk).1 (63 * 512) = boot_args.blank (good_device 63 .missing) used_disk (63 * 512) := by
  refine only_the_file_system_changes boot_args_formats fun l hl => .inr ?_
  have hsame : l = small_layout :=
    Exec.ret.inj (hl.symm.trans (prepared_eq_ret small_prepared))
  rw [hsame]
  decide

/-- What a call comes to does not depend on what is on the disk. -/
theorem write_sector_outcome (a : Args) (sp : Special) (disk disk' : Store) (lsn : UInt32)
    (img : List UInt8) :
    (write_sector a sp lsn img disk).2 = (write_sector a sp lsn img disk').2 := by
  unfold write_sector
  cases sp.writes lsn.toNat with
  | all => rfl
  | upto n => rfl
  | eintr => rfl
  | err => rfl

/-- What becomes of the calls does not depend on the disk. -/
theorem write_sectors_outcome (l : Layout) (left : ℕ) (lsn : UInt32) (pos : ℕ) :
    (write_sectors a sp t l left lsn pos disk).2
      = (write_sectors a sp t l left lsn pos disk').2 := by
  induction left generalizing lsn pos disk disk' with
  | zero => rfl
  | succ left ih =>
    unfold write_sectors
    cases boot_image a.opts sp l lsn pos with
    | die e => rfl
    | fault => rfl
    | hang => rfl
    | ret r =>
      have hout := write_sector_outcome a sp disk disk' lsn (sector a.opts t l lsn r.1)
      simp only
      generalize write_sector a sp lsn (sector a.opts t l lsn r.1) disk = w at *
      generalize write_sector a sp lsn (sector a.opts t l lsn r.1) disk' = w' at *
      obtain ⟨d, r⟩ := w
      obtain ⟨d', r'⟩ := w'
      simp only at hout
      subst hout
      cases r with
      | ret _ => exact ih (lsn + 1) _
      | die e => rfl
      | fault => rfl
      | hang => rfl

theorem main_outcome (disk disk' : Store) :
    (newfs_msdos_main a sp t disk).2 = (newfs_msdos_main a sp t disk').2 := by
  rw [main_eq, main_eq]
  cases prepared a sp with
  | ret l =>
    simp only [write_out]
    split_ifs
    · rfl
    · exact write_sectors_outcome l l.end_lsn.toNat 0 0
  | die e => rfl
  | fault => rfl
  | hang => rfl

/-- **To format twice is to format once**: a second run with the same arguments, the same clock
and the same answers returns too, and leaves the disk as the first one did. -/
theorem formatted_again (ha : a.Formats) (h : newfs_msdos_main a sp t disk = (s, .ret ())) :
    newfs_msdos_main a sp t s = (s, .ret ()) := by
  have hout : (newfs_msdos_main a sp t s).2 = .ret () := by
    rw [main_outcome s disk, h]
  obtain ⟨l, hlayout, hl, hfilled⟩ := main_filled ha h
  have hagain : newfs_msdos_main a sp t s = ((newfs_msdos_main a sp t s).1, .ret ()) :=
    returned hout
  obtain ⟨l', hlayout', -, hfilled'⟩ := main_filled ha hagain
  have hsame : l' = l := Exec.ret.inj (hlayout'.symm.trans hlayout)
  subst hsame
  refine Prod.ext ?_ hout
  funext p
  change (newfs_msdos_main a sp t s).1 p = s p
  by_cases hp : a.opts.opt_ofs.toNat ≤ p ∧
      p < a.opts.opt_ofs.toNat + l'.end_lsn.toNat * l'.bpb.bps.toNat
  · -- this byte was written by both
    rw [hfilled'.fill]
    conv_rhs => rw [hfilled.fill]
    exact Store.fill_congr (fun _ => hfilled.length hl) hp.1 hp.2
  · have hkept : s p = a.blank sp disk p := by
      rw [hfilled.fill]
      exact Store.fill_outside (fun _ => hfilled.length hl) (by omega)
    rw [hfilled'.fill, Store.fill_outside (fun _ => hfilled'.length hl) (by omega)]
    unfold Args.blank at hkept ⊢
    split_ifs at hkept ⊢ with hblank
    · exact hkept.symm
    · rfl

theorem small_again : newfs_msdos_main boot_args (good_device 63 .missing) new_year small_disk
    = (small_disk, .ret ()) := formatted_again boot_args_formats small_run

end Changes

/-! ## What it leaves -/

section Leaves

variable {a : Args} {sp : Special} {t : Clock} {disk s : Store} {l : Layout}

/-- The file system and its parameters are what they should be. -/
structure Formatted (a : Args) (l : Layout) (s : Store) : Prop where
  params : Fat.params s a.opts.opt_ofs.toNat = l.params
  valid : l.params.Valid
  kind : l.params.kind = fat_kind l.fat
  clusters : l.params.clusters = l.cls.toNat
  fresh : Fat.Fresh l.params s a.opts.opt_ofs.toNat (a.opts.opt_L.map label_text)

/-- **A run that returns leaves an empty file system**: the parameters are found in it exactly if
the 16 bits there are for a small number of sectors are enough, and if the second copies are in
the reserve, then it is what a driver takes for an empty file system with the label. -/
theorem formatted_fresh (ha : a.Formats) (h : newfs_msdos_main a sp t disk = (s, .ret ())) :
    ∃ l, newfs_msdos_layout a.opts a.fname sp.geo sp.boot = .ret l ∧
      (Fat.params s a.opts.opt_ofs.toNat = l.params ↔ l.bpb.sec.toNat ≤ 0xffff) ∧
      (l.NoWrap → l.bpb.sec.toNat ≤ 0xffff) ∧
      (l.bpb.sec.toNat ≤ 0xffff → l.Small → l.Short → Clear a.opts l → Formatted a l s) := by
  obtain ⟨l, hlayout, hl, hfilled⟩ := main_filled ha h
  refine ⟨l, hlayout, hfilled.params_iff hl, hl.sec_le, fun hsec hsmall hshort hclear => ?_⟩
  exact {
    params := hfilled.params hl hsec
    valid := hl.valid hsmall hshort
    kind := hl.params_kind hsmall
    clusters := hl.params_clusters hsmall hshort
    fresh := hfilled.fresh ha.ranged hl hclear hsmall hshort }

theorem small_formatted : Formatted boot_args small_layout small_disk := by
  obtain ⟨l, hl, -, -, hformatted⟩ := formatted_fresh boot_args_formats small_run
  have hsame : l = small_layout :=
    Exec.ret.inj (hl.symm.trans (prepared_eq_ret small_prepared))
  subst hsame
  have hshort : small_layout.Short := (by decide : 1 * 512 * 8 / 12 ≤ 2 ^ 32)
  refine hformatted (by decide) (fun _ => by decide) hshort ⟨fun h32 => ?_, fun hcopy => ?_⟩
  · exact absurd h32 (by decide)
  · exact absurd hcopy.2.1 (by decide)

end Leaves

/-! ## The second copies -/

section Copies

variable {a : Args} {sp : Special} {t : Clock} {disk s : Store} {l : Layout}

/-- The backup of the boot sector and that of the info sector, if there are any. -/
structure BackedUp (a : Args) (l : Layout) (s : Store) : Prop where
  boot : s.read (a.opts.opt_ofs.toNat + l.bpb.bkbs.toNat * l.bpb.bps.toNat) l.bpb.bps.toNat
    = s.read a.opts.opt_ofs.toNat l.bpb.bps.toNat
  info : l.bpb.infs.toNat ≠ 0xffff →
    l.bpb.bkbs.toNat + l.bpb.infs.toNat < l.end_lsn.toNat →
    s.read (a.opts.opt_ofs.toNat + (l.bpb.bkbs.toNat + l.bpb.infs.toNat) * l.bpb.bps.toNat)
        l.bpb.bps.toNat
      = s.read (a.opts.opt_ofs.toNat + l.bpb.infs.toNat * l.bpb.bps.toNat) l.bpb.bps.toNat

/-- The marks of an info sector, with no number of free clusters and the next one behind the
root directory. -/
structure InfoSector (s : Store) (off : ℕ) : Prop where
  lead : Fat.field s off 4 = 0x41615252
  struct : Fat.field s (off + 484) 4 = 0x61417272
  free : Fat.field s (off + 488) 4 = 0xffffffff
  next : Fat.field s (off + 492) 4 = 2
  trail : Fat.field s (off + 510) 2 = 0xaa55

/-- The first copy of the bootstrap does not go on where the second one starts. -/
theorem boot_base_first (hle : l.bpb.infs.toNat < l.bpb.bkbs.toNat) :
    boot_lsn a.opts l l.bpb.infs = (l.bpb.infs, false) :=
  if_neg fun h => by
    have := UInt32.le_iff_toNat_le.mp h.2.2.2.2
    omega

theorem boot_lsn_zero (hbk : 1 ≤ l.bpb.bkbs.toNat) : boot_lsn a.opts l 0 = (0, false) :=
  if_neg fun h => by
    have := UInt32.le_iff_toNat_le.mp h.2.2.2.2
    rw [UInt32.toNat_zero] at this
    omega

/-- Sector `x` of the second copy is made from what sector `x` of the first one is made from. -/
theorem boot_base_copy {x : UInt32} (h32 : l.fat = 32) (hbk : l.bpb.bkbs ≠ MAXU16)
    (hB : a.opts.opt_B = none ∨ l.bss ≤ l.bpb.bkbs ∧ boot_lsn a.opts l x = (x, false))
    (hx : l.bpb.bkbs.toNat + x.toNat < 2 ^ 32) :
    boot_base a.opts sp l (l.bpb.bkbs + x) = boot_base a.opts sp l x := by
  cases hopt : a.opts.opt_B with
  | none =>
    have hnone : ¬ a.opts.opt_B.isSome = true := by
      rw [hopt]
      exact Bool.false_ne_true
    rw [boot_base_zeros fun h => hnone h.1, boot_base_zeros fun h => hnone h.1]
  | some opt_B =>
    rw [hopt] at hB
    obtain ⟨hbss, hfirst⟩ := hB.resolve_left (Option.some_ne_none _)
    have hsome : a.opts.opt_B.isSome = true := by
      rw [hopt]
      rfl
    have hle : l.bpb.bkbs ≤ l.bpb.bkbs + x := by
      rw [UInt32.le_iff_toNat_le, toNat_add_of_lt hx]
      omega
    -- The second copy counts its sectors from its own start.
    have hsub : l.bpb.bkbs + x - l.bpb.bkbs = x := by
      rw [← UInt32.toNat_inj, toNat_sub_of_le (UInt32.le_iff_toNat_le.mp hle), toNat_add_of_lt hx]
      omega
    have hsecond : (boot_lsn a.opts l (l.bpb.bkbs + x)).1 = x := by
      unfold boot_lsn
      rw [if_pos ⟨hsome, h32, hbk, hbss, hle⟩]
      exact hsub
    unfold boot_base
    rw [hsecond, hfirst]

/-- A sector made with the parts of an info sector has its fields. -/
theorem info_field (himg : 512 ≤ (boot_base a.opts sp l l.bpb.infs).length) {n off : ℕ}
    (h : s.read off n = splices (boot_base a.opts sp l l.bpb.infs) (info_parts l))
    (hrdcl : l.bpb.rdcl.toNat = 2) : InfoSector s off := by
  have hparts : ∀ p ∈ info_parts l, p.1 + p.2.length ≤ 512 := by
    intro p hp
    unfold info_parts at hp
    simp only [List.mem_cons, List.not_mem_nil, or_false] at hp
    rcases hp with rfl | rfl | rfl | rfl | rfl <;> simp
  have hle := fun p hp => Nat.le_trans (hparts p hp) himg
  have hlen : n = (boot_base a.opts sp l l.bpb.infs).length := by
    rw [← Store.length_read s off n, h, length_splices hle]
  have hpair : (info_parts l).Pairwise
      fun p q => p.1 + p.2.length ≤ q.1 ∨ q.1 + q.2.length ≤ p.1 := by
    simp [info_parts]
  -- each of the parts is a field of its own
  have hfield : ∀ p ∈ info_parts l, Fat.field s (off + p.1) p.2.length = leVal p.2 := by
    intro p hp
    have hp512 := hparts p hp
    rw [Fat.field_slice s (n := n) (by omega), h, slice_splices_of_pairwise hle hpair hp]
  have hmk : (mk 4 l.bpb.rdcl).length = 4 := length_mk 4 _
  have hnext := hfield (492, mk 4 l.bpb.rdcl) (by simp [info_parts])
  rw [hmk, leVal_mk (Nat.lt_of_lt_of_le l.bpb.rdcl.toNat_lt (by decide)), hrdcl] at hnext
  exact {
    lead := hfield (0, mk 4 0x41615252) (by simp [info_parts])
    struct := hfield (484, mk 4 0x61417272) (by simp [info_parts])
    free := hfield (488, mk 4 0xffffffff) (by simp [info_parts])
    next := hnext
    trail := hfield (510, dosmagic) (by simp [info_parts]) }

/-- The backup is a boot sector, where there is one. -/
theorem is_boot_bkbs (h32 : l.fat = 32) (hbk : l.bpb.bkbs ≠ MAXU16) :
    l.is_boot l.bpb.bkbs = true := by
  unfold Layout.is_boot
  rw [decide_eq_true_eq]
  exact .inr ⟨h32, hbk, rfl⟩

/-- An info sector, or the backup of it, is no boot sector. -/
theorem info_parts_of {x : UInt32} (hl : l.Sound) (h32 : l.fat = 32)
    (hbk : l.bpb.bkbs ≠ MAXU16) (hinfs : l.bpb.infs ≠ MAXU16)
    (hx : x = l.bpb.infs ∨ x = l.bpb.bkbs + l.bpb.infs) :
    sector_parts a.opts t l x = info_parts l := by
  have hres := hl.res
  have h1 := (hl.infs h32).1
  have hb := (hl.bkbs h32).2.resolve_left (toNat_ne_MAXU16.mp hbk)
  have hi := (hl.infs h32).2.resolve_left (toNat_ne_MAXU16.mp hinfs)
  have hsum := toNat_add_of_lt (a := l.bpb.bkbs) (b := l.bpb.infs) (by omega)
  have hapart : l.bpb.infs.toNat ≠ l.bpb.bkbs.toNat := fun heq =>
    toNat_ne_MAXU16.mp hinfs (hl.apart h32 heq)
  have hboot : ¬ l.is_boot x = true := by
    unfold Layout.is_boot
    rw [decide_eq_true_eq]
    rintro (h0 | ⟨-, -, heq⟩)
    · rw [← UInt32.toNat_inj, UInt32.toNat_zero] at h0
      rcases hx with rfl | rfl <;> omega
    · rw [← UInt32.toNat_inj] at heq
      rcases hx with rfl | rfl <;> omega
  have hinfo : l.is_info x = true := by
    unfold Layout.is_info
    rw [decide_eq_true_eq]
    exact ⟨h32, hinfs, hx.imp_right fun h => ⟨hbk, h⟩⟩
  unfold sector_parts
  rw [if_neg hboot, if_pos hinfo]

/-- **The backups are copies**, as long as the bootstrap and the info sector, if there is a
bootstrap at all, are in front of the first of them. -/
theorem backups_equal (ha : a.Formats) (h : newfs_msdos_main a sp t disk = (s, .ret ()))
    (hlayout : newfs_msdos_layout a.opts a.fname sp.geo sp.boot = .ret l) (h32 : l.fat = 32)
    (hbk : l.bpb.bkbs ≠ MAXU16)
    (hB : a.opts.opt_B = none ∨ l.bss ≤ l.bpb.bkbs ∧ l.bpb.infs < l.bpb.bkbs) :
    BackedUp a l s ∧ (l.bpb.infs ≠ MAXU16 →
      InfoSector s (a.opts.opt_ofs.toNat + l.bpb.infs.toNat * l.bpb.bps.toNat)) := by
  obtain ⟨l', hlayout', hl, hfilled⟩ := main_filled ha h
  have hsame : l' = l := Exec.ret.inj (hlayout'.symm.trans hlayout)
  subst hsame
  have hbps := hl.bps.le
  have hres := hl.res
  have hend := hl.end_lsn
  have hdir : l'.bpb.res.toNat ≤ l'.dir := Nat.le_add_right _ _
  have hb1 := (hl.bkbs h32).1
  have hb := (hl.bkbs h32).2.resolve_left (toNat_ne_MAXU16.mp hbk)
  refine ⟨⟨?_, fun hinfs hlt => ?_⟩, fun hinfs => ?_⟩
  · have hzero := hfilled.read_one hl hl.end_pos
    rw [Nat.zero_mul, Nat.add_zero] at hzero
    -- The boot sector and its backup start from the same bytes and get the same parts.
    have hcopy : boot_base a.opts sp l' (l'.bpb.bkbs + 0) = boot_base a.opts sp l' 0 :=
      boot_base_copy h32 hbk (hB.imp_right fun h => ⟨h.1, boot_lsn_zero hb1⟩)
        (by rw [UInt32.toNat_zero]; omega)
    rw [UInt32.add_zero] at hcopy
    have hboot0 : l'.is_boot 0 = true := by
      unfold Layout.is_boot
      rw [decide_eq_true_eq]
      exact .inl rfl
    rw [hfilled.read_one hl (by omega), hzero]
    unfold sector_at sector sector_parts
    rw [UInt32.ofNat_toNat, show UInt32.ofNat 0 = 0 from rfl, hcopy,
      if_pos (is_boot_bkbs h32 hbk), if_pos hboot0]
  · have hi := (hl.infs h32).2.resolve_left hinfs
    have hne := toNat_ne_MAXU16.mpr hinfs
    -- The second info sector lies as far behind the backup as the first one behind sector 0.
    have hsum := toNat_add_of_lt (a := l'.bpb.bkbs) (b := l'.bpb.infs) (by omega)
    rw [hfilled.read_one hl hlt, hfilled.read_one hl (by omega), ← hsum]
    unfold sector_at sector
    rw [UInt32.ofNat_toNat, UInt32.ofNat_toNat, info_parts_of hl h32 hbk hne (.inl rfl),
      info_parts_of hl h32 hbk hne (.inr rfl), boot_base_copy h32 hbk _ (by omega)]
    exact hB.imp_right fun h => ⟨h.1, boot_base_first (UInt32.lt_iff_toNat_lt.mp h.2)⟩
  · have hi := (hl.infs h32).2.resolve_left (toNat_ne_MAXU16.mp hinfs)
    have hread := hfilled.read_one hl (k := l'.bpb.infs.toNat) (by omega)
    have hlen := hfilled.base l'.bpb.infs.toNat (by omega)
    unfold sector_at sector at hread
    rw [UInt32.ofNat_toNat] at hread hlen
    rw [info_parts_of hl h32 hbk hinfs (.inl rfl)] at hread
    exact info_field (by omega) hread (hl.rdcl h32)

/-- What becomes of a device that is large enough for FAT32. -/
def large_layout : Layout :=
  ⟨⟨512, 32, 32, 2, 0, 0, 240, 0, 63, 1, 0, 2097459, 512, 2, 1, 2⟩, 32, 1, 0, 65512⟩

theorem large_prepared :
    prepared boot_args (good_device 2097459 .missing) = .ret large_layout := by
  decide +kernel

def large_disk : Store :=
  (newfs_msdos_main boot_args (good_device 2097459 .missing) new_year used_disk).1

theorem large_run : newfs_msdos_main boot_args (good_device 2097459 .missing) new_year used_disk
    = (large_disk, .ret ()) :=
  returned (main_good boot_args_formats (good_device_good 2097459 .missing) rfl large_prepared)

theorem large_backups : BackedUp boot_args large_layout large_disk ∧
    (large_layout.bpb.infs ≠ MAXU16 → InfoSector large_disk (boot_args.opts.opt_ofs.toNat
      + large_layout.bpb.infs.toNat * large_layout.bpb.bps.toNat)) :=
  backups_equal boot_args_formats large_run (prepared_eq_ret large_prepared) rfl (by decide)
    (.inl rfl)

end Copies

/-! ## A bootstrap at an offset -/

section Offset

variable {a : Args} {sp : Special} {t : Clock} {disk : Store} {l : Layout}

/-- The sector that the second copy starts with is never made. -/
theorem boot_image_at_offset (hcopy : l.second_copy a.opts) (hofs : a.opts.opt_ofs ≠ 0)
    (pos : ℕ) : boot_image a.opts sp l l.bpb.bkbs pos
      = .die (.boot (boot_name (a.opts.opt_B.getD []))) := by
  have hx : boot_lsn a.opts l l.bpb.bkbs = (l.bpb.bkbs - l.bpb.bkbs, true) := by
    unfold boot_lsn
    rw [if_pos ⟨hcopy.1, hcopy.2.1, hcopy.2.2.1, hcopy.2.2.2, UInt32.le_refl _⟩,
      decide_eq_true (Eq.refl l.bpb.bkbs)]
  unfold boot_image
  simp only [hx]
  unfold errx_if
  rw [if_pos ⟨trivial, hofs⟩]
  rfl

/-- So the loop does not get past it, and nothing is written from there on. -/
theorem write_sectors_at_offset (hl : l.Sound) (hcopy : l.second_copy a.opts)
    (hofs : a.opts.opt_ofs ≠ 0) {left pos : ℕ} {lsn : UInt32}
    (hinv : a.opts.opt_B.isSome → pos = boot_pos a.opts l lsn.toNat)
    (hle : lsn.toNat ≤ l.bpb.bkbs.toNat) (hlt : l.bpb.bkbs.toNat < lsn.toNat + left)
    (hlsn : lsn.toNat + left < 2 ^ 32) :
    (write_sectors a sp t l left lsn pos disk).2 ≠ .ret () ∧
      ∀ p, a.opts.opt_ofs.toNat + l.bpb.bkbs.toNat * l.bpb.bps.toNat ≤ p →
        (write_sectors a sp t l left lsn pos disk).1 p = disk p := by
  induction left generalizing lsn pos disk with
  | zero => omega
  | succ left ih =>
    unfold write_sectors
    -- At the second copy the seek returns the offset, which the source takes for a failure.
    by_cases heq : lsn = l.bpb.bkbs
    · rw [heq, boot_image_at_offset hcopy hofs pos]
      exact ⟨fun h => (by cases h), fun _ _ => rfl⟩
    have hne : lsn.toNat ≠ l.bpb.bkbs.toNat := fun h => heq (UInt32.toNat_inj.mp h)
    cases himg : boot_image a.opts sp l lsn pos with
    | die e => exact ⟨fun h => (by cases h), fun _ _ => rfl⟩
    | fault => exact ⟨fun h => (by cases h), fun _ _ => rfl⟩
    | hang => exact ⟨fun h => (by cases h), fun _ _ => rfl⟩
    | ret r =>
      obtain ⟨img, pos'⟩ := r
      obtain ⟨-, hnext, hlen⟩ := boot_image_step hinv himg
      have hbps := hl.bps.le
      have hsec : (sector a.opts t l lsn img).length = l.bpb.bps.toNat := by
        rw [length_sector hl.kind (by omega), hlen]
      have hone : (1 : UInt32).toNat = 1 := rfl
      have hsucc : (lsn + 1).toNat = lsn.toNat + 1 := by
        rw [toNat_add_of_lt (by omega), hone]
      have hmul : (lsn.toNat + 1) * l.bpb.bps.toNat ≤ l.bpb.bkbs.toNat * l.bpb.bps.toNat :=
        Nat.mul_le_mul_right _ (by omega)
      -- A sector in front of it ends where the second copy begins at the latest.
      have hout : ∀ p, a.opts.opt_ofs.toNat + l.bpb.bkbs.toNat * l.bpb.bps.toNat ≤ p →
          (write_sector a sp lsn (sector a.opts t l lsn img) disk).1 p = disk p := by
        intro p hp
        exact write_sector_outside (by rw [hsec]; omega)
      simp only
      generalize write_sector a sp lsn (sector a.opts t l lsn img) disk = w at *
      obtain ⟨disk', r⟩ := w
      cases r with
      | ret _ =>
        obtain ⟨hstop, hkept⟩ : (write_sectors a sp t l left (lsn + 1) pos' disk').2 ≠ .ret () ∧ _ :=
          ih (by rw [hsucc]; exact hnext) (by omega) (by omega) (by omega)
        exact ⟨hstop, fun p hp => (hkept p hp).trans (hout p hp)⟩
      | die e => exact ⟨fun h => (by cases h), hout⟩
      | fault => exact ⟨fun h => (by cases h), hout⟩
      | hang => exact ⟨fun h => (by cases h), hout⟩

/-- **No file system at an offset gets a second copy of its bootstrap**: such a run never returns,
and it writes nothing from the place of the copy on, so there are no FATs. -/
theorem second_copy_at_offset (ha : a.Formats) (hofs : a.opts.opt_ofs ≠ 0)
    (hlayout : newfs_msdos_layout a.opts a.fname sp.geo sp.boot = .ret l)
    (hcopy : l.second_copy a.opts) :
    (newfs_msdos_main a sp t disk).2 ≠ .ret () ∧
      ∀ p, a.opts.opt_ofs.toNat + l.bpb.bkbs.toNat * l.bpb.bps.toNat ≤ p →
        (newfs_msdos_main a sp t disk).1 p = a.blank sp disk p := by
  rcases main_cases ha t disk with ⟨l', hp, hl, hrun⟩ | ⟨hsame, hne⟩
  · have hsame : l' = l := Exec.ret.inj ((prepared_eq_ret hp).symm.trans hlayout)
    subst hsame
    have hb := (hl.bkbs hcopy.2.1).2.resolve_left (toNat_ne_MAXU16.mp hcopy.2.2.1)
    have hend := hl.end_lsn
    have hdir : l'.bpb.res.toNat ≤ l'.dir := Nat.le_add_right _ _
    have hlt := l'.end_lsn.toNat_lt
    rw [hrun]
    apply write_sectors_at_offset hl hcopy hofs (fun _ => (l'.boot_pos_zero a.opts).symm)
    · rw [UInt32.toNat_zero]
      exact Nat.zero_le _
    · rw [UInt32.toNat_zero]
      omega
    · rw [UInt32.toNat_zero]
      omega
  · exact ⟨hne, fun p _ => by rw [hsame]⟩

/-- `newfs_msdos -@ 512 -B /boot/boot1 -F 32 /dev/block/sda1` -/
def offset_argv : List CStr :=
  [cstr "newfs_msdos", cstr "-@", cstr "512", cstr "-B", cstr "/boot/boot1", cstr "-F", cstr "32",
    cstr "/dev/block/sda1"]

def offset_args : Args :=
  ⟨{ opt_B := some (cstr "/boot/boot1"), opt_F := 32, opt_ofs := 512, errno := false },
    cstr "/dev/block/sda1", none⟩

theorem offset_args_given :
    newfs_msdos_args false offset_argv .initial = .ret (offset_args, ⟨7, []⟩) := by
  have h1 : getopt offset_argv OPTS .initial = (some (.opt 64 (cstr "512")), ⟨3, []⟩) :=
    getopt_separate rfl (by decide) (by decide) rfl
  have h2 : getopt offset_argv OPTS ⟨3, []⟩ = (some (.opt 66 (cstr "/boot/boot1")), ⟨5, []⟩) :=
    getopt_separate rfl (by decide) (by decide) rfl
  have h3 : getopt offset_argv OPTS ⟨5, []⟩ = (some (.opt 70 (cstr "32")), ⟨7, []⟩) :=
    getopt_separate rfl (by decide) (by decide) rfl
  have hend : ∀ o : Opts, getopt_loop offset_argv OPTS Opts.switch o ⟨7, []⟩
      = .ret (o, ⟨7, []⟩) := fun o =>
    getopt_loop_operand (a := cstr "/dev/block/sda1") rfl (by decide)
  -- what each of the options sets
  have e1 : Opts.switch (.opt 64 (cstr "512")) { errno := false }
      = .ret { opt_ofs := 512, errno := false } := rfl
  have e2 : Opts.switch (.opt 66 (cstr "/boot/boot1")) { opt_ofs := 512, errno := false }
      = .ret { opt_B := some (cstr "/boot/boot1"), opt_ofs := 512, errno := false } := rfl
  have e3 : Opts.switch (.opt 70 (cstr "32"))
      { opt_B := some (cstr "/boot/boot1"), opt_ofs := 512, errno := false }
      = .ret offset_args.opts := rfl
  have hdrop : offset_argv.drop 7 = [cstr "/dev/block/sda1"] := rfl
  rw [newfs_msdos_args, getopt_loop_opt h1, e1]
  simp only [Exec.bind]
  rw [getopt_loop_opt h2, e2]
  simp only [Exec.bind]
  rw [getopt_loop_opt h3, e3]
  simp only [Exec.bind, hend, hdrop]
  rfl

/-- A device with 127 sectors, and a bootstrap of one. -/
def offset_device : Special := good_device 127 (.regular (List.replicate 512 0))

def offset_layout : Layout :=
  ⟨⟨512, 1, 32, 2, 0, 126, 240, 0, 63, 1, 0, 0, 1, 2, 1, 2⟩, 32, 1, 0, 92⟩

theorem offset_laid_out : newfs_msdos_layout offset_args.opts offset_args.fname offset_device.geo
    offset_device.boot = .ret offset_layout := by
  decide +kernel

/-- The run dies at the second copy of the bootstrap, and no FAT is written. -/
theorem no_fats_at_offset :
    (newfs_msdos_main offset_args offset_device new_year used_disk).2 ≠ .ret () ∧
      ∀ p, offset_args.opts.opt_ofs.toNat
          + offset_layout.bpb.bkbs.toNat * offset_layout.bpb.bps.toNat ≤ p →
        (newfs_msdos_main offset_args offset_device new_year used_disk).1 p
          = offset_args.blank offset_device used_disk p :=
  second_copy_at_offset ⟨⟨_, _, _, _, offset_args_given⟩, rfl⟩ (by decide) offset_laid_out
    ⟨rfl, rfl, by decide, by decide⟩

end Offset

end NewfsMsdos

end Iago
