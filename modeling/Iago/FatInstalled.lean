/-
The file systems that the installer makes.

The installer calls `newfs_msdos_main` with a label or without, and with no other option, so
everything else follows from the device. On one with sectors of 512 bytes the number of sectors,
in whole tracks, is all that counts: the call goes through exactly if there are 36 of them, the
kind of FAT is the one that `fat_by_size` says, and whatever the size is, what is on the device
then is an empty file system that ends with the device at the latest (`installer_formats`).
-/
import Iago.FatRuns

set_option autoImplicit false

namespace Iago

namespace NewfsMsdos

/-! ## When the sizes come to something -/

section Extent

variable {b : Bpb} {fat rds : UInt32} {f : ℕ}

/-- When the clusters suffice for their kind of FAT, in plain numbers. -/
theorem counted_returns_iff {bspf x1 : UInt32} (hr : Ready b fat rds) (hf : Nibbles fat f)
    (hpos : 0 < bspf.toNat) (hx1 : x1.toNat ≤ b.bsec.toNat)
    (hsmall : bspf.toNat * (b.bps.toNat * 2) / f ≤ 2 ^ 32) :
    (∃ e, counted b fat bspf x1 = .ret e) ↔
      (mincls fat).toNat ≤ (b.bsec.toNat - x1.toNat) / b.spc.toNat ∧
        (mincls fat).toNat + 2 ≤ bspf.toNat * (b.bps.toNat * 2) / f := by
  obtain ⟨hcap, htwo⟩ := capacity_toNat hr hf hpos
  rw [Nat.mod_eq_of_lt (by omega)] at hcap
  have hsub : (b.bsec - x1).toNat = b.bsec.toNat - x1.toNat := toNat_sub_of_le hx1
  unfold counted
  generalize (bspf.toUInt64 * b.bps.toUInt64 * NPB.toUInt64 / (fat / BPN).toUInt64
    - RESFTE.toUInt64).toUInt32 = x at *
  have hdiv : ((b.bsec - x1) / b.spc).toNat = (b.bsec.toNat - x1.toNat) / b.spc.toNat := by
    rw [UInt32.toNat_div, hsub]
  generalize (b.bsec - x1) / b.spc = room at *
  -- it only dies if the smaller of the two numbers is too small
  have hmin : (if x < room then x else room).toNat = min x.toNat room.toNat := by
    split_ifs with hlt
    · rw [UInt32.lt_iff_toNat_lt] at hlt
      exact (Nat.min_eq_left (Nat.le_of_lt hlt)).symm
    · rw [UInt32.lt_iff_toNat_lt] at hlt
      exact (Nat.min_eq_right (Nat.le_of_not_lt hlt)).symm
  simp only
  generalize (if x < room then x else room) = cls at *
  unfold errx_if
  by_cases hfew : cls < mincls fat
  · rw [if_pos hfew, Exec.die_bind]
    rw [UInt32.lt_iff_toNat_lt] at hfew
    refine iff_of_false ?_ (by omega)
    rintro ⟨_, h⟩
    cases h
  · rw [if_neg hfew, Exec.ret_bind]
    rw [UInt32.lt_iff_toNat_lt] at hfew
    refine iff_of_true ?_ (by omega)
    split_ifs
    · exact ⟨_, rfl⟩
    · exact ⟨_, rfl⟩

/-- The length of a FAT that is computed, when `D` sectors are left with one for each. -/
def computed_fat (b : Bpb) (fat : UInt32) (f D : ℕ) : ℕ :=
  (2 + min (D * (b.bps.toNat * 2) / (b.spc.toNat * (b.bps.toNat * 2) + f * b.nft.toNat))
    (maxcls fat).toNat) * f ⌈/⌉ (b.bps.toNat * 2)

/-- If nobody has said how long the FATs are: there must be room for what comes in front of the
clusters, and then for as many clusters as there are at least. -/
theorem extent_returns_iff (hr : Ready b fat rds) (hf : Nibbles fat f) (hb : b.bspf = 0) :
    let X := b.res.toNat + rds.toNat + b.nft.toNat
    let q := computed_fat b fat f (b.bsec.toNat - X)
    (∃ e, extent b fat rds = .ret e) ↔ X ≤ b.bsec.toNat ∧
      (mincls fat).toNat ≤ (b.bsec.toNat - X - (q - 1) * b.nft.toNat) / b.spc.toNat ∧
      (mincls fat).toNat + 2 ≤ q * (b.bps.toNat * 2) / f := by
  intro X q
  have hres := hr.res
  have hrds := hr.rds
  have hnft := hr.nft
  have hgiven : given b.bspf 1 = 1 := by
    rw [hb]
    rfl
  have hone : (1 : UInt32).toNat = 1 := rfl
  have hX : ((b.res + rds).toUInt64 + (1 : UInt32).toUInt64 * b.nft.toUInt64).toNat = X := by
    have hsum : (b.res + rds).toNat = b.res.toNat + rds.toNat := toNat_add_of_lt (by omega)
    have hmul : ((1 : UInt32).toUInt64 * b.nft.toUInt64).toNat = b.nft.toNat := by
      rw [toNat_mul64_of_lt (by rw [UInt32.toNat_toUInt64, UInt32.toNat_toUInt64, hone]; omega),
        UInt32.toNat_toUInt64, UInt32.toNat_toUInt64, hone, Nat.one_mul]
    rw [toNat_add64_of_lt (by rw [hmul, UInt32.toNat_toUInt64, hsum]; omega), hmul,
      UInt32.toNat_toUInt64, hsum]
  have hlarge : ¬ (fat ≠ 32 ∧ MAXU16 < b.bspf) := fun h => by
    rw [hb] at h
    exact absurd h.2 (by decide)
  unfold extent errx_if
  simp only [hgiven, if_neg hlarge, Exec.ret_bind, if_pos hb]
  -- The first of the two ways to stop: the metadata alone does not fit.
  by_cases hmeta : b.bsec.toUInt64 < (b.res + rds).toUInt64
      + (1 : UInt32).toUInt64 * b.nft.toUInt64
  · rw [if_pos hmeta, Exec.die_bind]
    rw [UInt64.lt_iff_toNat_lt, hX, UInt32.toNat_toUInt64] at hmeta
    refine iff_of_false ?_ (by omega)
    rintro ⟨_, h⟩
    cases h
  rw [if_neg hmeta, Exec.ret_bind]
  obtain ⟨hx1, hle⟩ := x1_toNat hr hmeta
  rw [hone, Nat.one_mul] at hx1 hle
  -- From here on the estimate and the length of a FAT are numbers that these two facts describe.
  have hest := estimate_toNat hr hf
    (show (b.res + rds + 1 * b.nft).toNat ≤ b.bsec.toNat by rw [hx1]; exact hle)
  generalize ((b.bsec - (b.res + rds + 1 * b.nft)).toUInt64 * b.bps.toUInt64 * NPB.toUInt64
    / (b.spc * b.bps * NPB + fat / BPN * b.nft).toUInt64).toUInt32 = x at *
  have hq : (howmany ((RESFTE + min x (maxcls fat)) * (fat / BPN)) (b.bps * NPB)).toNat
      = (2 + min x.toNat (maxcls fat).toNat) * f ⌈/⌉ (b.bps.toNat * 2) := x2_toNat hr hf
  generalize howmany ((RESFTE + min x (maxcls fat)) * (fat / BPN)) (b.bps * NPB) = x2 at *
  generalize b.res + rds + 1 * b.nft = x1 at *
  obtain ⟨hpos, hroom, -, hcap⟩ := computed_length hr hf hest hq
  have hqx : x2.toNat = q := by
    rw [hq, hest, hx1]
    rfl
  have hlt : b.bsec.toNat < 2 ^ 32 := b.bsec.toNat_lt
  have hsub : (x2 - 1).toNat = x2.toNat - 1 := by
    rw [toNat_sub_of_le (by rw [hone]; exact hpos), hone]
  have hmul : ((x2 - 1) * b.nft).toNat = (x2.toNat - 1) * b.nft.toNat := by
    rw [toNat_mul_of_lt (by rw [hsub]; omega), hsub]
  have hfront : (x1 + (x2 - 1) * b.nft).toNat = x1.toNat + (x2.toNat - 1) * b.nft.toNat := by
    rw [toNat_add_of_lt (by rw [hmul]; omega), hmul]
  rw [counted_returns_iff hr hf hpos (by omega) hcap, hfront, hx1, hqx, ← Nat.sub_sub]
  exact ⟨fun h => ⟨hle, h⟩, fun h => h.2⟩

end Extent

/-! ## A call with a label at most -/

/-- The options are those of a call of the installer. -/
def Opts.LabelOnly (o : Opts) : Prop := ∃ errno opt_L, o = { errno, opt_L }

/-- The device has sectors of 512 bytes, `size` of them. -/
structure Geometry.Plain (geo : Geometry) (size : UInt64) : Prop where
  logical : geo.BLKSSZGET = some 512
  count : geo.BLKGETSIZE = some size
  small : size.toNat < 2 ^ 32

/-- The sectors in whole tracks. -/
def whole_tracks (geo : Geometry) (size : UInt64) : ℕ :=
  size.toNat - size.toNat % (sectors geo).toNat

/-- The kind of FAT for so many sectors. -/
def fat_by_size (u : ℕ) : UInt32 :=
  if u < 4163 ∨ 6001 ≤ u ∧ u < 32835 then 12 else if u < 2097377 then 16 else 32

/-- The parameters that a device gives. -/
def asked (geo : Geometry) (size : UInt64) : Bpb :=
  let bsec := UInt32.ofNat (whole_tracks geo size)
  { Bpb.zero with
    bps := 512
    spc := default_spc bsec
    bsec := bsec
    spt := (sectors geo).toUInt32
    hds := (heads geo).toUInt32 }

/-- And those that the sizes are computed from. -/
def placed (b : Bpb) (fat : UInt32) : Bpb :=
  { b with
    nft := 2
    infs := if fat = 32 then 1 else 0
    bkbs := if fat = 32 then 2 else 0
    res := if fat = 32 then 32 else 1
    rde := if fat = 32 then 0 else 512 }

section LabelOnly

variable {o : Opts} {fname : CStr} {geo : Geometry} {size : UInt64} {boot : BootFile}

/-- A geometry has sectors. -/
theorem sectors_pos (geo : Geometry) : sectors geo ≠ 0 := by
  unfold sectors
  cases geo.HDIO_GETGEO with
  | none => decide
  | some geom =>
    simp only
    split_ifs with h
    · decide
    · exact h

theorem heads_pos (geo : Geometry) : heads geo ≠ 0 := by
  unfold heads
  cases geo.HDIO_GETGEO with
  | none => decide
  | some geom =>
    simp only
    split_ifs with h
    · decide
    · exact h

/-- A byte of the geometry is accepted if it is not 0. -/
theorem ckgeom_byte {c : UInt8} (hc : c ≠ 0) (fname : CStr) (msg : String) :
    ckgeom fname c.toUInt32 msg = .ret () := by
  have hle := byte_le c
  have hne : ¬ c.toUInt32 = 0 := fun h => hc <| by
    rw [← UInt32.toNat_inj, UInt8.toNat_toUInt32] at h
    rw [← UInt8.toNat_inj]
    exact h
  have hmax : ¬ MAXU16 < c.toUInt32 := by
    rw [UInt32.lt_iff_toNat_lt]
    exact Nat.not_lt.mpr hle
  unfold ckgeom errx_if
  rw [if_neg hne, if_neg hmax]
  rfl

/-- The sectors that are used are whole tracks. -/
theorem usable_sectors_eq (hsmall : size.toNat < 2 ^ 32) :
    usable_sectors 0 512 (sectors geo).toUInt32 size.toUInt32
      = UInt32.ofNat (whole_tracks geo size) := by
  have hz : UInt32.ofInt ((0 : ℤ).tdiv (512 : UInt32).toNat) = 0 := rfl
  have hsize : size.toUInt32.toNat = size.toNat := by
    rw [UInt64.toNat_toUInt32, Nat.mod_eq_of_lt hsmall]
  have hmod := Nat.mod_le size.toNat (sectors geo).toNat
  have hrem : (size.toUInt32 % (sectors geo).toUInt32).toNat
      = size.toNat % (sectors geo).toNat := by
    rw [UInt32.toNat_mod, hsize, UInt8.toNat_toUInt32]
  unfold usable_sectors whole_tracks
  rw [hz, UInt32.sub_zero, ← UInt32.toNat_inj, toNat_sub_of_le (by rw [hrem, hsize]; exact hmod),
    hrem, hsize, toNat_ofNat_of_lt (by omega)]

/-- The device is asked, and nothing else changes what it says. -/
theorem disk_asked_plain (ho : o.LabelOnly) (hgeo : geo.Plain size) :
    disk_asked o fname geo (disk_given o .zero) = .ret (asked geo size) := by
  obtain ⟨errno, opt_L, rfl⟩ := ho
  have hhigh : (size >>> 32).toUInt32 = 0 := by
    have hsmall := hgeo.small
    rw [← UInt32.toNat_inj, UInt64.toNat_toUInt32, UInt64.toNat_shiftRight]
    change size.toNat >>> 32 % 2 ^ 32 = 0
    rw [Nat.shiftRight_eq_div_pow, Nat.div_eq_of_lt hsmall]
  have h512 : ckgeom fname 512 "bytes/sector" = .ret () := by
    unfold ckgeom errx_if
    rw [if_neg (by decide), if_neg (by decide)]
    rfl
  have hunknown : disk_known { errno, opt_L } = false := rfl
  have hgiven : given 0 size.toUInt32 = size.toUInt32 := rfl
  unfold disk_asked
  rw [hunknown, if_neg Bool.false_ne_true]
  unfold getdiskinfo
  rw [hgeo.logical, hgeo.count]
  simp only [h512, ckgeom_byte (sectors_pos geo), ckgeom_byte (heads_pos geo), Exec.ret_bind,
    hhigh, hgiven, usable_sectors_eq hgeo.small]
  rfl

/-- The checks accept what the device says. -/
theorem checked_plain (ho : o.LabelOnly) : checked o (asked geo size) = .ret (asked geo size) := by
  obtain ⟨errno, opt_L, rfl⟩ := ho
  have hbps : (asked geo size).bps = 512 := rfl
  have hpow : powerof2 512 = true := by decide
  have hmin : ¬ (512 : UInt32) < MINBPS := by decide
  have hnft : ¬ MAXNFT < (0 : UInt32) := by decide
  unfold checked spc_given errx_if
  have hfat : ¬ (0 : UInt32) = 32 := by decide
  have hmedia : (0 : UInt32) < 240 := by decide
  simp only [hbps, hpow, hmin, hnft, hfat, hmedia, fat_given, not_true_eq_false, ne_eq, if_false,
    Option.isSome_none, Bool.false_eq_true, or_self, and_false, false_and, UInt32.not_lt_zero,
    Exec.ret_bind]
  rfl

/-- The default of the sectors per cluster, by the number of sectors. -/
theorem default_spc_cases (bsec : UInt32) :
    bsec.toNat ≤ 6000 ∧ default_spc bsec = 1 ∨
      6000 < bsec.toNat ∧ bsec.toNat ≤ 131072 ∧ default_spc bsec = 8 ∨
      131072 < bsec.toNat ∧ bsec.toNat ≤ 524288 ∧ default_spc bsec = 16 ∨
      524288 < bsec.toNat ∧ bsec.toNat ≤ 4194304 ∧ default_spc bsec = 32 ∨
      4194304 < bsec.toNat ∧ default_spc bsec = 64 := by
  have h1 : (6000 : UInt32).toNat = 6000 := rfl
  have h2 : (131072 : UInt32).toNat = 131072 := rfl
  have h3 : (524288 : UInt32).toNat = 524288 := rfl
  have h4 : (4194304 : UInt32).toNat = 4194304 := rfl
  unfold default_spc
  simp only [UInt32.le_iff_toNat_le, h1, h2, h3, h4]
  by_cases c1 : bsec.toNat ≤ 6000
  · exact .inl ⟨c1, if_pos c1⟩
  rw [if_neg c1]
  by_cases c2 : bsec.toNat ≤ 131072
  · exact .inr (.inl ⟨Nat.lt_of_not_le c1, c2, if_pos c2⟩)
  rw [if_neg c2]
  by_cases c3 : bsec.toNat ≤ 524288
  · exact .inr (.inr (.inl ⟨Nat.lt_of_not_le c2, c3, if_pos c3⟩))
  rw [if_neg c3]
  by_cases c4 : bsec.toNat ≤ 4194304
  · exact .inr (.inr (.inr (.inl ⟨Nat.lt_of_not_le c3, c4, if_pos c4⟩)))
  · exact .inr (.inr (.inr (.inr ⟨Nat.lt_of_not_le c4, if_neg c4⟩)))

/-- What the two thresholds come to. -/
theorem fat_chosen_thresholds {b : Bpb} {s : UInt32} (hbps : b.bps = 512) (hspc : b.spc = s)
    (hres : b.res = 0) (hnft : b.nft = 2) (hrde : b.rde = 0)
    (hs : s = 1 ∨ s = 8 ∨ s = 16 ∨ s = 32 ∨ s = 64) :
    fat_chosen b 1 = if b.bsec.toNat < 67 + 4096 * s.toNat then 12
      else if b.bsec.toNat < 545 + 65526 * s.toNat then 16 else 32 := by
  have hlt : ∀ K : UInt64, b.bsec.toUInt64 < K ↔ b.bsec.toNat < K.toNat := fun K => by
    rw [UInt64.lt_iff_toNat_lt, UInt32.toNat_toUInt64]
  have hsame : ∀ {x n m n' m' : ℕ}, n = n' → m = m' →
      (if x < n then 12 else if x < m then 16 else 32 : UInt32)
        = if x < n' then 12 else if x < m' then 16 else 32 := by
    intro x n m n' m' hn hm
    rw [hn, hm]
  unfold fat_chosen
  simp only [hbps, hspc, hres, hnft, hrde, hlt, ne_eq, not_true_eq_false, false_or]
  rcases hs with rfl | rfl | rfl | rfl | rfl
  · exact hsame (by decide) (by decide)
  · exact hsame (by decide) (by decide)
  · exact hsame (by decide) (by decide)
  · exact hsame (by decide) (by decide)
  · exact hsame (by decide) (by decide)

/-- The kind of FAT that is chosen. -/
theorem fat_chosen_plain (hsmall : size.toNat < 2 ^ 32) :
    fat_chosen { asked geo size with nft := 2 } 1 = fat_by_size (whole_tracks geo size) := by
  have hlt : whole_tracks geo size < 2 ^ 32 := Nat.lt_of_le_of_lt (Nat.sub_le _ _) hsmall
  have hbsec : (UInt32.ofNat (whole_tracks geo size)).toNat = whole_tracks geo size :=
    toNat_ofNat_of_lt hlt
  have hcases := default_spc_cases (UInt32.ofNat (whole_tracks geo size))
  rw [fat_chosen_thresholds (s := default_spc (UInt32.ofNat (whole_tracks geo size))) rfl rfl rfl
    rfl rfl (by tauto)]
  change (if (UInt32.ofNat (whole_tracks geo size)).toNat < _ then (12 : UInt32)
    else if (UInt32.ofNat (whole_tracks geo size)).toNat < _ then 16 else 32) = _
  rw [hbsec] at hcases ⊢
  unfold fat_by_size
  have h1 : (1 : UInt32).toNat = 1 := rfl
  have h8 : (8 : UInt32).toNat = 8 := rfl
  have h16 : (16 : UInt32).toNat = 16 := rfl
  have h32 : (32 : UInt32).toNat = 32 := rfl
  have h64 : (64 : UInt32).toNat = 64 := rfl
  rcases hcases with ⟨hle, h⟩ | ⟨hlo, hle, h⟩ | ⟨hlo, hle, h⟩ | ⟨hlo, hle, h⟩ | ⟨hlo, h⟩
  · rw [h, h1]
    split_ifs <;> first | rfl | omega
  · rw [h, h8]
    split_ifs <;> first | rfl | omega
  · rw [h, h16]
    split_ifs <;> first | rfl | omega
  · rw [h, h32]
    split_ifs <;> first | rfl | omega
  · rw [h, h64]
    split_ifs <;> first | rfl | omega

/-- The size settles one of three kinds. -/
theorem fat_by_size_cases (u : ℕ) :
    fat_by_size u = 12 ∨ fat_by_size u = 16 ∨ fat_by_size u = 32 := by
  unfold fat_by_size
  split_ifs
  · exact .inl rfl
  · exact .inr (.inl rfl)
  · exact .inr (.inr rfl)

/-- The sectors of the root directory. -/
def root_of (fat : UInt32) : UInt32 := if fat = 32 then 0 else 32

/-- So the layout is that of the sizes. -/
theorem layout_plain (ho : o.LabelOnly) (hgeo : geo.Plain size) :
    let fat := fat_by_size (whole_tracks geo size)
    let b := placed (asked geo size) fat
    newfs_msdos_layout o fname geo boot = (extent b fat (root_of fat) >>= fun e =>
      .ret ⟨finished { b with bspf := e.bspf, bsec := e.bsec } fat, fat, 1, root_of fat, e.cls⟩) := by
  intro fat b
  -- No switch but -L is given, so every value asked for is a default.
  have hf : format_given o = .ret .zero := by
    obtain ⟨errno, opt_L, rfl⟩ := ho
    rfl
  have hB : o.opt_B = none := by
    obtain ⟨errno, opt_L, rfl⟩ := ho
    rfl
  have hF : fat_given o = 0 := by
    obtain ⟨errno, opt_L, rfl⟩ := ho
    rfl
  have hbss : boot_sectors o boot (asked geo size).bps = .ret 1 := by
    unfold boot_sectors
    rw [hB]
  have hspc : (asked geo size).spc ≠ 0 := by
    change default_spc _ ≠ 0
    rcases default_spc_cases (UInt32.ofNat (whole_tracks geo size)) with
      ⟨-, h⟩ | ⟨-, -, h⟩ | ⟨-, -, h⟩ | ⟨-, -, h⟩ | ⟨-, h⟩ <;> rw [h] <;> decide
  have hnft : given (asked geo size).nft 2 = 2 := rfl
  have hfat : given (fat_given o) (fat_chosen { asked geo size with nft := 2 } 1) = fat := by
    rw [hF, fat_chosen_plain hgeo.small]
    rfl
  unfold newfs_msdos_layout
  rw [hf, Exec.ret_bind, disk_asked_plain ho hgeo, Exec.ret_bind, checked_plain ho, Exec.ret_bind]
  unfold laid_out
  rw [hbss, Exec.ret_bind]
  simp only [hnft, hfat]
  -- FAT32 has the info sector and the backups, and no root directory in front of the clusters.
  by_cases h32 : fat = 32
  · have hinfo : info_sectors { asked geo size with nft := 2 } fat 1
        = .ret ({ asked geo size with nft := 2, infs := 1, bkbs := 2 }, 3) := by
      rw [h32]
      rfl
    have hb : b = { asked geo size with nft := 2, infs := 1, bkbs := 2, res := 32, rde := 0 } := by
      unfold b placed
      simp only [if_pos h32]
    have hres : reserved { asked geo size with nft := 2, infs := 1, bkbs := 2 } fat 3
        = .ret 32 := by
      have hmax : max (3 : UInt32) (max (16384 / 512) 4) = 32 := by decide
      have hres0 : (asked geo size).res = 0 := rfl
      have hbps : (asked geo size).bps = 512 := rfl
      unfold reserved errx_if given
      simp only [hres0, hbps, hmax, h32, if_true, ne_eq, not_true_eq_false, false_and, if_false,
        Exec.ret_bind]
    have hrde : (if fat ≠ 32 then given (asked geo size).rde DEFRDE else (asked geo size).rde)
        = 0 := if_neg (not_not.mpr h32)
    have hrds : (howmany64 (0 : UInt32).toUInt64 ((asked geo size).bps.toUInt64 / 32)).toUInt32
        = root_of fat := by
      have hzero : (howmany64 (0 : UInt32).toUInt64 ((512 : UInt32).toUInt64 / 32)).toUInt32
          = 0 := by decide
      exact hzero.trans (if_pos h32).symm
    rw [hinfo, hb, Exec.ret_bind]
    simp only [hres, hrde, hrds, Exec.ret_bind]
    rw [spc_computed, if_pos hspc, Exec.ret_bind]
  · have hinfo : info_sectors { asked geo size with nft := 2 } fat 1
        = .ret ({ asked geo size with nft := 2 }, 1) := if_neg h32
    have hb : b = { asked geo size with nft := 2, infs := 0, bkbs := 0, res := 1, rde := 512 } := by
      unfold b placed
      simp only [if_neg h32]
    have hres : reserved { asked geo size with nft := 2 } fat 1 = .ret 1 := by
      unfold reserved errx_if
      rw [if_neg h32]
      rfl
    have hrde : (if fat ≠ 32 then given (asked geo size).rde DEFRDE else (asked geo size).rde)
        = 512 := if_pos h32
    have hrds : (howmany64 (512 : UInt32).toUInt64 ((asked geo size).bps.toUInt64 / 32)).toUInt32
        = root_of fat := by
      have hsome : (howmany64 (512 : UInt32).toUInt64 ((512 : UInt32).toUInt64 / 32)).toUInt32
          = 32 := by decide
      exact hsome.trans (if_neg h32).symm
    rw [hinfo, hb, Exec.ret_bind]
    simp only [hres, hrde, hrds, Exec.ret_bind]
    rw [spc_computed, if_pos hspc, Exec.ret_bind]
    rfl

/-- What the computed length is, by multiplication. -/
theorem computed_fat_spec {b : Bpb} {fat : UInt32} {f D m : ℕ} (hbps : 0 < b.bps.toNat)
    (hf : 0 < f)
    (hm : m = min (D * (b.bps.toNat * 2) / (b.spc.toNat * (b.bps.toNat * 2) + f * b.nft.toNat))
      (maxcls fat).toNat) :
    (2 + m) * f ≤ computed_fat b fat f D * (b.bps.toNat * 2) ∧
      (computed_fat b fat f D - 1) * (b.bps.toNat * 2) + 1 ≤ (2 + m) * f ∧
      0 < computed_fat b fat f D := by
  have hM : 0 < b.bps.toNat * 2 := by omega
  have hpos : 0 < (2 + m) * f := Nat.mul_pos (by omega) hf
  unfold computed_fat
  rw [← hm]
  generalize hq : (2 + m) * f ⌈/⌉ (b.bps.toNat * 2) = q
  have hle := (ceilDiv_le_iff_le_mul hM).mp (Nat.le_of_eq hq)
  have hne : q ≠ 0 := fun h0 => by
    rw [h0, Nat.mul_zero] at hle
    omega
  refine ⟨by rw [Nat.mul_comm q]; exact hle, ?_, Nat.pos_of_ne_zero hne⟩
  by_contra hlt
  have hless := (ceilDiv_le_iff_le_mul hM (b := (2 + m) * f) (c := q - 1)).mpr
    (by rw [Nat.mul_comm _ (q - 1)]; omega)
  omega

theorem toNat_placed_bsec (geo : Geometry) (hsmall : size.toNat < 2 ^ 32) (fat : UInt32) :
    (placed (asked geo size) fat).bsec.toNat = whole_tracks geo size :=
  toNat_ofNat_of_lt (Nat.lt_of_le_of_lt (Nat.sub_le _ _) hsmall)

/-- The sizes of clusters, and the kind of FAT once more in terms of it. -/
theorem fat_by_size_spc (geo : Geometry) (hsmall : size.toNat < 2 ^ 32) :
    let u := whole_tracks geo size
    let S := (asked geo size).spc.toNat
    1 ≤ S ∧ S ≤ 64 ∧ (u ≤ 6000 → S = 1) ∧
      fat_by_size u = if u < 67 + 4096 * S then 12 else if u < 545 + 65526 * S then 16 else 32 := by
  have hlt : whole_tracks geo size < 2 ^ 32 := Nat.lt_of_le_of_lt (Nat.sub_le _ _) hsmall
  intro u S
  have hu : (UInt32.ofNat u).toNat = u := toNat_ofNat_of_lt hlt
  -- The table of default sizes, and the thresholds of the kind for each of its entries.
  have hcases := default_spc_cases (UInt32.ofNat u)
  have hchosen := fat_chosen_thresholds (b := { asked geo size with nft := 2 })
    (s := (asked geo size).spc) rfl rfl rfl rfl rfl (show default_spc (UInt32.ofNat u) = 1 ∨
      default_spc (UInt32.ofNat u) = 8 ∨ default_spc (UInt32.ofNat u) = 16 ∨
      default_spc (UInt32.ofNat u) = 32 ∨ default_spc (UInt32.ofNat u) = 64 by tauto)
  rw [fat_chosen_plain hsmall] at hchosen
  change fat_by_size u = if (UInt32.ofNat u).toNat < _ then _ else
    if (UInt32.ofNat u).toNat < _ then _ else _ at hchosen
  rw [hu] at hchosen hcases
  have h1 : (1 : UInt32).toNat = 1 := rfl
  have h8 : (8 : UInt32).toNat = 8 := rfl
  have h16 : (16 : UInt32).toNat = 16 := rfl
  have h32 : (32 : UInt32).toNat = 32 := rfl
  have h64 : (64 : UInt32).toNat = 64 := rfl
  have hS : S = (default_spc (UInt32.ofNat u)).toNat := rfl
  refine ⟨?_, ?_, ?_, hchosen⟩
  · rcases hcases with ⟨-, h⟩ | ⟨-, -, h⟩ | ⟨-, -, h⟩ | ⟨-, -, h⟩ | ⟨-, h⟩ <;> rw [hS, h] <;> decide
  · rcases hcases with ⟨-, h⟩ | ⟨-, -, h⟩ | ⟨-, -, h⟩ | ⟨-, -, h⟩ | ⟨-, h⟩ <;> rw [hS, h] <;> decide
  · intro hle
    rcases hcases with ⟨-, h⟩ | ⟨hlo, -, h⟩ | ⟨hlo, -, h⟩ | ⟨hlo, -, h⟩ | ⟨hlo, h⟩
    · rw [hS, h]
      rfl
    · omega
    · omega
    · omega
    · omega

/-- All is ready for the clusters to be counted. -/
theorem placed_ready (geo : Geometry) (size : UInt64) {fat : UInt32}
    (hfat : fat = 12 ∨ fat = 16 ∨ fat = 32) :
    Ready (placed (asked geo size) fat) fat (root_of fat) where
  bps := ⟨9, Nat.le_refl 9, by decide, rfl⟩
  spc := default_spc_pow _
  res := by
    change (if fat = 32 then (32 : UInt32) else 1).toNat ≤ 0xffff
    split_ifs <;> decide
  nft := ⟨(by decide : 1 ≤ 2), (by decide : 2 ≤ 16)⟩
  rds := by
    unfold root_of
    split_ifs <;> decide
  kind := hfat

/-- The sizes in numbers: `X` sectors come in front, with one for each FAT, and a FAT has `q`. -/
theorem extent_placed_iff (hsmall : size.toNat < 2 ^ 32) {fat : UInt32} {f X : ℕ}
    (hf : Nibbles fat f) (hfat : fat = 12 ∨ fat = 16 ∨ fat = 32)
    (hX : (placed (asked geo size) fat).res.toNat + (root_of fat).toNat + 2 = X) :
    let u := whole_tracks geo size
    let S := (asked geo size).spc.toNat
    let m := min ((u - X) * 1024 / (S * 1024 + f * 2)) (maxcls fat).toNat
    ∃ q, (2 + m) * f ≤ q * 1024 ∧ (q - 1) * 1024 + 1 ≤ (2 + m) * f ∧ 0 < q ∧
      ((∃ e, extent (placed (asked geo size) fat) fat (root_of fat) = .ret e) ↔
        X ≤ u ∧ (mincls fat).toNat ≤ (u - X - (q - 1) * 2) / S ∧
          (mincls fat).toNat + 2 ≤ q * 1024 / f) := by
  intro u S m
  have hf3 := hf.three_le
  have hiff := extent_returns_iff (placed_ready geo size hfat) hf rfl
  have hbsec : (placed (asked geo size) fat).bsec.toNat = u := toNat_placed_bsec geo hsmall fat
  have hnft : (placed (asked geo size) fat).nft.toNat = 2 := rfl
  simp only [hbsec, hnft, hX] at hiff
  have hspec : (2 + m) * f ≤ computed_fat (placed (asked geo size) fat) fat f (u - X) * 1024 ∧
      (computed_fat (placed (asked geo size) fat) fat f (u - X) - 1) * 1024 + 1 ≤ (2 + m) * f ∧
      0 < computed_fat (placed (asked geo size) fat) fat f (u - X) :=
    computed_fat_spec (Nat.zero_lt_succ 511) (by omega) rfl
  exact ⟨_, hspec.1, hspec.2.1, hspec.2.2, hiff⟩

/-- Enough clusters to make the FATs for are enough clusters. -/
theorem clusters_enough {D S f c m q : ℕ} (hS : 0 < S) (hf : 0 < f) (hf8 : f ≤ 8)
    (hm : m * (S * 1024 + f * 2) ≤ D * 1024) (hc : c ≤ m) (hq : (2 + m) * f ≤ q * 1024)
    (hq' : (q - 1) * 1024 + 1 ≤ (2 + m) * f) :
    c ≤ (D - (q - 1) * 2) / S ∧ c + 2 ≤ q * 1024 / f := by
  have hroom := Fat.fats_leave_clusters hm hq' (by omega)
  have hcS : c * S ≤ m * S := Nat.mul_le_mul_right S hc
  have hcf : (c + 2) * f ≤ (2 + m) * f := Nat.mul_le_mul_right f (by omega)
  rw [Nat.le_div_iff_mul_le hS, Nat.le_div_iff_mul_le hf]
  omega

/-- **The sizes come to something exactly from 36 sectors on.** -/
theorem extent_plain_iff (hsmall : size.toNat < 2 ^ 32) :
    let u := whole_tracks geo size
    let fat := fat_by_size u
    (∃ e, extent (placed (asked geo size) fat) fat (root_of fat) = .ret e) ↔ 36 ≤ u := by
  intro u fat
  have hcases : fat = 12 ∨ fat = 16 ∨ fat = 32 := fat_by_size_cases u
  obtain ⟨h1, h64, hone, hkind⟩ := fat_by_size_spc geo hsmall
  change fat = (if u < _ then _ else if u < _ then _ else _) at hkind
  change u ≤ 6000 → _ = 1 at hone
  clear_value fat
  obtain ⟨f, hf⟩ := exists_nibbles hcases
  have hf3 := hf.three_le
  have hf8 := hf.le_eight
  have hbits := hf.bits
  have hX : ∀ fat, (placed (asked geo size) fat).res.toNat + (root_of fat).toNat + 2
      = if fat = 32 then 34 else 35 := by
    intro fat
    change (if fat = 32 then (32 : UInt32) else 1).toNat + (root_of fat).toNat + 2 = _
    unfold root_of
    split_ifs <;> rfl
  obtain ⟨q, hq, hq', hpos, hiff⟩ := extent_placed_iff hsmall hf hcases (hX fat)
  change _ ↔ _ ≤ u ∧ _ ≤ (u - _ - _) / _ ∧ _ at hiff
  change (2 + min ((u - _) * 1024 / _) _) * f ≤ _ at hq
  change _ ≤ (2 + min ((u - _) * 1024 / _) _) * f at hq'
  rw [hiff]
  generalize (asked geo size).spc.toNat = S at *
  have hest : ∀ {D c : ℕ}, c * (S * 1024 + f * 2) ≤ D * 1024 →
      c ≤ D * 1024 / (S * 1024 + f * 2) := by
    intro D c h
    exact (Nat.le_div_iff_mul_le (by omega)).mpr h
  have hmul : ∀ {D n : ℕ},
      min (D * 1024 / (S * 1024 + f * 2)) n * (S * 1024 + f * 2) ≤ D * 1024 := by
    intro D n
    exact Nat.le_trans (Nat.mul_le_mul_right _ (Nat.min_le_left _ _)) (Nat.div_mul_le_self _ _)
  split_ifs at hkind with h12 h16
  · subst hkind
    have hf : f = 3 := by
      have h12 : (12 : UInt32).toNat = 12 := rfl
      omega
    have hmin : (mincls 12).toNat = 1 := rfl
    have hmax : (maxcls 12).toNat = 4077 := rfl
    subst hf
    rw [if_neg (by decide)] at hq hq' hiff ⊢
    rw [hmin, hmax] at *
    refine ⟨fun h => ?_, fun h => ?_⟩
    · -- with 35 sectors or fewer nothing is left for a cluster
      by_contra hlt
      have hS : S = 1 := hone (by omega)
      have hroom := h.2.1
      rw [hS, Nat.div_one] at hroom
      omega
    · refine ⟨by omega, ?_⟩
      by_cases h36 : u = 36
      · -- the estimate is 0 here, but one sector is left
        have hS : S = 1 := hone (by omega)
        subst hS
        have hzero : (u - 35) * 1024 / (1 * 1024 + 3 * 2) = 0 := by
          rw [h36]
        rw [hzero] at hq hq'
        have hq1 : q = 1 := by omega
        subst hq1
        exact ⟨by omega, by omega⟩
      · have henough : 1 ≤ (u - 35) * 1024 / (S * 1024 + 3 * 2) := by
          apply hest
          by_cases hsix : u ≤ 6000
          · have hS := hone hsix
            omega
          · omega
        exact clusters_enough h1 (by decide) hf8 hmul (by omega) hq hq'
  · subst hkind
    have hf : f = 4 := by
      have h16 : (16 : UInt32).toNat = 16 := rfl
      omega
    have hmin : (mincls 16).toNat = 4096 := rfl
    have hmax : (maxcls 16).toNat = 65525 := rfl
    subst hf
    rw [if_neg (by decide)] at hq hq' hiff ⊢
    rw [hmin, hmax] at *
    have henough : 4096 ≤ (u - 35) * 1024 / (S * 1024 + 4 * 2) := hest (by omega)
    have hclusters := clusters_enough h1 (by decide) hf8 hmul
      (by omega : 4096 ≤ min ((u - 35) * 1024 / (S * 1024 + 4 * 2)) 65525) hq hq'
    exact ⟨fun _ => by omega, fun _ => ⟨by omega, hclusters⟩⟩
  · subst hkind
    have hf : f = 8 := by
      have h32 : (32 : UInt32).toNat = 32 := rfl
      omega
    have hmin : (mincls 32).toNat = 2 := rfl
    have hmax : (maxcls 32).toNat = 268435445 := rfl
    subst hf
    rw [if_pos rfl] at hq hq' hiff ⊢
    rw [hmin, hmax] at *
    have henough : 2 ≤ (u - 34) * 1024 / (S * 1024 + 8 * 2) := hest (by omega)
    have hclusters := clusters_enough h1 (by decide) hf8 hmul
      (by omega : 2 ≤ min ((u - 34) * 1024 / (S * 1024 + 8 * 2)) 268435445) hq hq'
    exact ⟨fun _ => by omega, fun _ => ⟨by omega, hclusters⟩⟩

end LabelOnly

/-! ## Calls of the installer -/

section Installer

variable {o : Opts} {fname : CStr} {geo : Geometry} {size : UInt64} {boot : BootFile} {l : Layout}

/-- What a layout is like that comes of such a call. -/
structure Layout.Installed (l : Layout) (u : ℕ) : Prop where
  kind : l.fat = fat_by_size u
  total : l.bpb.total ≤ u
  no_wrap : l.NoWrap
  small : l.Small
  short : l.Short
  clear : ∀ o : Opts, o.opt_B = none → Clear o l

/-- **The layout the installer gets**, in plain numbers, where there is one. -/
theorem layout_installed (ho : o.LabelOnly) (hgeo : geo.Plain size)
    (h : newfs_msdos_layout o fname geo boot = .ret l) :
    l.Installed (whole_tracks geo size) := by
  rw [layout_plain ho hgeo] at h
  obtain ⟨e, he, h⟩ := Exec.bind_eq_ret.mp h
  -- The sizes become variables, so that what follows reads only what was proved about them.
  have hkind := fat_by_size_cases (whole_tracks geo size)
  generalize hfat : fat_by_size (whole_tracks geo size) = fat at *
  have hr := placed_ready geo size hkind
  have hsized := extent_sized hr he
  have hu := toNat_placed_bsec geo hgeo.small fat
  generalize hb : placed (asked geo size) fat = b at *
  have hsec : b.sec = 0 := by
    rw [← hb]
    rfl
  have hspf : b.spf = 0 := by
    rw [← hb]
    rfl
  have hhid : b.hid = 0 := by
    rw [← hb]
    rfl
  have hbspf : b.bspf = 0 := by
    rw [← hb]
    rfl
  have hnft : b.nft.toNat = 2 := by
    rw [← hb]
    rfl
  injection h with h
  have htotal : (finished { b with bspf := e.bspf, bsec := e.bsec } fat).total = e.bsec.toNat :=
    finished_total fat hsec
  have hfats : (finished { b with bspf := e.bspf, bsec := e.bsec } fat).fat_sectors
      = e.bspf.toNat := finished_fat_sectors fat hspf
  -- The computed length of the FATs leaves no more clusters than the entries there are.
  obtain ⟨hshort, hroom⟩ := hsized.computed hbspf
  have hle := hsized.bsec
  rw [hu] at hle
  exact {
    kind := by
      rw [← h]
      exact hfat.symm
    total := by
      rw [← h]
      simp only [htotal]
      exact hle
    no_wrap := by
      have hzero : (finished { b with bspf := e.bspf, bsec := e.bsec } fat).hid.toNat = 0 := by
        change b.hid.toNat = 0
        rw [hhid]
        rfl
      unfold Layout.NoWrap
      rw [← h]
      simp only [hzero, htotal, Nat.zero_add]
      exact e.bsec.toNat_lt
    -- Only FAT12 has a bound on its clusters that the number of entries does not give.
    small := fun h12 => by
      have hdata : l.data = b.front (root_of fat) e.bspf := by
        rw [← h]
        unfold Layout.data Layout.dir Bpb.front
        simp only [hfats]
        exact Nat.add_right_comm _ _ _
      have hl12 : fat = 12 := by
        rw [← h] at h12
        exact h12
      have hmax : (maxcls 12).toNat = 4077 := rfl
      unfold Layout.room
      rw [hdata, ← h]
      simp only [htotal]
      change (e.bsec.toNat - _) / b.spc.toNat ≤ 4084
      rw [hl12, hmax, hnft] at hroom
      rw [hl12]
      omega
    short := by
      unfold Layout.Short
      rw [← h]
      simp only [hfats]
      exact hshort
    clear := fun o hB => {
      info := fun h32 _ _ => by
        have hl32 : fat = 32 := by
          rw [← h] at h32
          exact h32
        rw [← h]
        -- The backups lie at sectors 2 and 3 of the 32 reserved ones.
        change b.bkbs.toNat + b.infs.toNat < b.res.toNat
        rw [← hb, hl32]
        exact (by decide : 2 + 1 < 32)
      boot := fun hcopy => by
        have hsome := hcopy.1
        rw [hB] at hsome
        cases hsome } }

/-- Once its device is open, such a call comes to a layout exactly if the sizes do. -/
theorem prepared_plain_iff {a : Args} {sp : Special} (ho : a.opts.LabelOnly) (hsp : sp.Good)
    (hgeo : sp.geo.Plain size) :
    (∃ l, prepared a sp = .ret l) ↔ 36 ≤ whole_tracks sp.geo size := by
  have hopen : open_special a sp = .ret () := by
    obtain ⟨errno, opt_L, hopts⟩ := ho
    unfold open_special errx_if
    simp only [hopts, hsp.opened, hsp.stat]
    rfl
  have hprep : prepared a sp = newfs_msdos_layout a.opts a.fname sp.geo sp.boot := by
    unfold prepared
    rw [hopen, Exec.ret_bind]
  rw [hprep, layout_plain ho hgeo]
  refine Iff.trans ?_ (extent_plain_iff hgeo.small)
  constructor
  · rintro ⟨l, h⟩
    obtain ⟨e, he, -⟩ := Exec.bind_eq_ret.mp h
    exact ⟨e, he⟩
  · rintro ⟨e, he⟩
    exact ⟨_, Exec.bind_eq_ret.mpr ⟨e, he, rfl⟩⟩

/-- The arguments of every call that is made for one of the partitions. -/
theorem Call.From.label_only {p : Accepted} {c : Call} {g g' : Getopt} {a : Args}
    (hc : c.From p.opts g) (hg : g = .initial ∨ g = ⟨3, []⟩)
    (hmem : c.entry ∈ entries p.partitions) (hparsed : c.parsed = .ret (a, g')) :
    a.opts.LabelOnly ∧ a.Formats ∧ g' = ⟨3, []⟩ := by
  obtain ⟨errno, device, hdevice, hargs⟩ := hc
  have hpath := p.device c.entry hmem device hdevice
  have hgiven : newfs_msdos_args errno (newfs_argv c.entry device) g = .ret (a, g') :=
    hargs.symm.trans hparsed
  have hexists : ∃ errno argv g g', newfs_msdos_args errno argv g = .ret (a, g') :=
    ⟨errno, newfs_argv c.entry device, g, g', hgiven⟩
  rcases hg with rfl | rfl
  · rw [args_first hpath] at hgiven
    split_ifs at hgiven
    rw [Exec.ret.injEq, Prod.mk.injEq] at hgiven
    obtain ⟨rfl, rfl⟩ := hgiven
    exact ⟨⟨errno, some c.entry, rfl⟩, ⟨hexists, rfl⟩, rfl⟩
  · rw [args_later hpath, Exec.ret.injEq, Prod.mk.injEq] at hgiven
    obtain ⟨rfl, rfl⟩ := hgiven
    exact ⟨⟨errno, none, rfl⟩, ⟨hexists, rfl⟩, rfl⟩

/-- The calls the installer makes have a label at most. -/
theorem Chained.label_only {p : Accepted} {g : Getopt} {calls : List Call}
    (h : Chained p.opts g calls) (hg : g = .initial ∨ g = ⟨3, []⟩)
    (hmem : ∀ c ∈ calls, c.entry ∈ entries p.partitions) :
    ∀ c ∈ calls, ∀ a g', c.parsed = .ret (a, g') → a.opts.LabelOnly ∧ a.Formats := by
  induction h with
  | nil g => exact fun c hc => absurd hc List.not_mem_nil
  | last hc =>
    intro c' hc' a g' hparsed
    rw [List.mem_singleton.mp hc'] at hparsed
    have hone := hc.label_only hg (hmem _ List.mem_cons_self) hparsed
    exact ⟨hone.1, hone.2.1⟩
  | next hc hparsed hcalls ih =>
    have hfirst := hc.label_only hg (hmem _ List.mem_cons_self) hparsed
    intro c' hc' a g' hret
    rcases List.mem_cons.mp hc' with rfl | hc'
    · have hone := hc.label_only hg (hmem _ List.mem_cons_self) hret
      exact ⟨hone.1, hone.2.1⟩
    · exact ih (.inr hfirst.2.2) (fun c hc => hmem c (List.mem_cons_of_mem _ hc)) c' hc' a g' hret

/-- **What the installer formats is an empty file system**: on a device with sectors of 512 bytes
every call that gets its arguments through returns exactly if there are 36 of them in whole tracks,
as long as no call of the system fails; and if it returns, then there is an empty file system on
the device, of the kind that goes with its size and no larger than the device. -/
theorem installer_formats (p : Accepted) (work : ℕ → Work) {c : Call}
    (hc : c ∈ (imagewriter_execute p.opts work).1) {a : Args} {g : Getopt}
    (hparsed : c.parsed = .ret (a, g)) {sp : Special} (hgeo : sp.geo.Plain size) (t : Clock)
    (disk : Store) :
    let u := whole_tracks sp.geo size
    (sp.Good → ((newfs_msdos_main a sp t disk).2 = .ret () ↔ 36 ≤ u)) ∧
      ∀ s, newfs_msdos_main a sp t disk = (s, .ret ()) →
        ∃ l, l.fat = fat_by_size u ∧ l.bpb.total ≤ u ∧ Formatted a l s := by
  intro u
  obtain ⟨ho, ha⟩ := (p.executed work).chained.label_only (.inl rfl)
    (fun c hc => (p.executed work).mem hc) c hc a g hparsed
  have hB : a.opts.opt_B = none := by
    obtain ⟨errno, opt_L, hopts⟩ := ho
    rw [hopts]
  refine ⟨fun hsp => ?_, fun s h => ?_⟩
  · have hiff := prepared_plain_iff ho hsp hgeo
    -- Nothing else stops a call whose writes go through: it returns exactly if there is a layout.
    rcases main_cases ha t disk with ⟨l, hp, -, -⟩ | ⟨-, hne⟩
    · exact iff_of_true (main_good ha hsp hB hp) (hiff.mp ⟨l, hp⟩)
    · refine iff_of_false hne fun hu => ?_
      obtain ⟨l, hl⟩ := hiff.mpr hu
      exact hne (main_good ha hsp hB hl)
  · obtain ⟨l, hlayout, hl, hfilled⟩ := main_filled ha h
    have hinst := layout_installed ho hgeo hlayout
    have hsec := hl.sec_le hinst.no_wrap
    exact ⟨l, hinst.kind, hinst.total, {
      params := hfilled.params hl hsec
      valid := hl.valid hinst.small hinst.short
      kind := hl.params_kind hinst.small
      clusters := hl.params_clusters hinst.small hinst.short
      fresh := hfilled.fresh ha.ranged hl (hinst.clear _ hB) hinst.small hinst.short }⟩

end Installer

/-! ### One partition -/

/-- The options of one partition to format. -/
def one_fat : Accepted where
  opts key := ((BASE_PTN_LIST, cstr "BOOT") ::
    vfat_options [(cstr "BOOT", cstr "/dev/block/sda1")]).lookup key
  partitions := cstr "BOOT"
  listed := by decide +kernel
  short := by decide +kernel
  plain := by decide +kernel
  device := by decide +kernel

def boot_call : Call := ⟨cstr "BOOT", .ret (boot_args, ⟨3, []⟩)⟩

/-- The call for the boot partition is made. -/
theorem boot_call_made : boot_call ∈ (imagewriter_execute one_fat.opts smooth).1 := by
  have hlist : within Stop.options (hashmapGetPrintf one_fat.opts none BASE_PTN_LIST)
      = .ret (cstr "BOOT") := by
    rw [within_eq_ret, hashmapGetPrintf_none]
    exact one_fat.listed
  have hentries : entries (cstr "BOOT") = [cstr "BOOT"] := by decide +kernel
  have hplan : plan one_fat.opts true (cstr "BOOT") = .ret (.fat (cstr "/dev/block/sda1")) := rfl
  have hcb : execute_cb one_fat.opts (smooth 0) (cstr "BOOT") .initial
      = ([boot_call], .ret ⟨3, []⟩) := by
    unfold execute_cb smooth
    rw [hplan]
    simp only [boot_args_given]
    rfl
  unfold imagewriter_execute
  rw [hlist]
  simp only [hentries]
  rw [execute_from_next hcb]
  exact List.mem_append_left _ List.mem_cons_self

theorem boot_call_formats :
    let u := whole_tracks (good_device 63 .missing).geo 63
    ((good_device 63 .missing).Good →
      ((newfs_msdos_main boot_args (good_device 63 .missing) new_year used_disk).2 = .ret () ↔
        36 ≤ u)) ∧
      ∀ s, newfs_msdos_main boot_args (good_device 63 .missing) new_year used_disk
          = (s, .ret ()) →
        ∃ l, l.fat = fat_by_size u ∧ l.bpb.total ≤ u ∧ Formatted boot_args l s :=
  installer_formats one_fat smooth boot_call_made rfl ⟨rfl, rfl, by decide⟩ new_year used_disk

end NewfsMsdos

end Iago
