/-
The parameters that `newfs_msdos_main` writes a file system by are sound.

Whatever the arguments, the device and the bootstrap are: if it gets as far as writing, then
every number fits the field it goes to, the reserved sectors hold all that is to be in them,
the FATs have an entry for every cluster, and the clusters lie in the file system
(`layout_sound`).

All of this is computed in 32 bits, and the argument is for most of its length that nothing
wraps there. The one place where that takes more than a bound is the length of a FAT: it is
computed for the clusters that there would be with one sector for each FAT, and is then taken
off the sectors that these clusters were counted in (`fats_leave_room`).
-/
import Iago.BiosParams
import Iago.FatVolume
import Mathlib.GroupTheory.GroupAction.Ring

set_option autoImplicit false

namespace Iago

namespace NewfsMsdos

/-! ## The options -/

/-- What the numbers in the options can be, once they are read. -/
structure Opts.Ranged (o : Opts) : Prop where
  opt_F : o.opt_F = 0 ∨ o.opt_F = 12 ∨ o.opt_F = 16 ∨ o.opt_F = 32
  opt_S : o.opt_S.toNat ≤ 0xffff
  opt_c : o.opt_c.toNat ≤ 0xff
  opt_e : o.opt_e.toNat ≤ 0xffff
  opt_h : o.opt_h.toNat ≤ 0xffff
  opt_i : o.opt_i.toNat ≤ 0xffff
  opt_k : o.opt_k.toNat ≤ 0xffff
  opt_m : o.opt_m.toNat ≤ 0xff
  opt_r : o.opt_r.toNat ≤ 0xffff
  opt_u : o.opt_u.toNat ≤ 0xffff
  opt_ofs : 0 ≤ o.opt_ofs ∧ o.opt_ofs < 2 ^ 63
  opt_L : ∀ l ∈ o.opt_L, oklabel l = true
  opt_O : ∀ s ∈ o.opt_O, s.length ≤ 8

/-- A number that is accepted is within the upper bound of its option. -/
theorem argtou_le {arg : CStr} {lo hi : ℕ} {msg : String} {x : UInt32}
    (h : argtou arg lo hi msg = .ret x) : x.toNat ≤ hi := by
  rw [argtou] at h
  cases hs : signed c_digits arg with
  | none =>
    rw [hs] at h
    cases h
  | some r =>
    rw [hs] at h
    simp only at h
    split_ifs at h with hbad
    injection h with h
    rw [← h, UInt32.toNat_ofNat']
    have hle : (r.1 % 2 ^ 64).toNat ≤ hi := by omega
    exact Nat.le_trans (Nat.mod_le _ _) hle

/-- A numeric option that is accepted has been parsed, and is stored with `errno` clear. -/
theorem Opts.number_eq_ret {o o' : Opts} {x : Exec Exit UInt32} {set : Opts → UInt32 → Opts}
    (h : o.number x set = .ret o') : ∃ n, x = .ret n ∧ o' = set { o with errno := false } n := by
  obtain ⟨n, hn, h⟩ := Exec.bind_eq_ret.mp h
  injection h with h
  exact ⟨n, hn, h.symm⟩

/-- A shifted offset that is accepted is a non-negative `off_t`. -/
theorem shift_off_range {x y : ℤ} {n : ℕ} (hx : 0 ≤ x) (h : shift_off x n = .ret y) :
    0 ≤ y ∧ y < 2 ^ 63 := by
  rw [shift_off] at h
  split_ifs at h with hlt
  injection h with h
  rw [← h]
  exact ⟨Int.mul_nonneg hx (by positivity), hlt⟩

/-- So is an offset that is accepted, whatever its suffix. -/
theorem argtooff_range {arg : CStr} {msg : String} {errno : Bool} {x : ℤ}
    (h : argtooff arg msg errno = .ret x) : 0 ≤ x ∧ x < 2 ^ 63 := by
  rw [argtooff] at h
  generalize (signed c_digits arg).getD (0, arg) = r at h
  simp only at h
  split_ifs at h with hbad
  have hnonneg : 0 ≤ r.1 := by omega
  split at h
  · injection h with h
    omega
  all_goals first
    | exact shift_off_range hnonneg h
    | cases h

/-- Of the texts that are let through each is its own number. -/
theorem atoi_kind {optarg : CStr}
    (h : ¬ (optarg ≠ cstr "12" ∧ optarg ≠ cstr "16" ∧ optarg ≠ cstr "32")) :
    (atoi optarg).toUInt32 = 0 ∨ (atoi optarg).toUInt32 = 12 ∨ (atoi optarg).toUInt32 = 16
      ∨ (atoi optarg).toUInt32 = 32 := by
  simp only [not_and, not_not] at h
  by_cases h12 : optarg = cstr "12"
  · rw [h12]
    decide
  by_cases h16 : optarg = cstr "16"
  · rw [h16]
    decide
  · rw [h h12 h16]
    decide

/-- One round of the option loop keeps the options in their ranges. -/
theorem Opts.switch_ranged (ch : OptChar) (o o' : Opts) (hr : o.Ranged)
    (h : Opts.switch ch o = .ret o') : o'.Ranged := by
  cases ch with
  | question => cases h
  | opt c optarg =>
    rw [Opts.switch.eq_def] at h
    simp only at h
    -- One case per letter, in the order of the source's switch: -@, -N, -B, -C, -F and so on.
    split at h
    · obtain ⟨x, hx, h⟩ := Exec.bind_eq_ret.mp h
      cases h
      exact { hr with opt_ofs := argtooff_range hx }
    · cases h
      exact { hr with }
    · cases h
      exact { hr with }
    · obtain ⟨x, hx, h⟩ := Exec.bind_eq_ret.mp h
      cases h
      exact { hr with }
    · split_ifs at h with hF
      cases h
      exact { hr with opt_F := atoi_kind hF }
    · obtain ⟨x, hx, rfl⟩ := Opts.number_eq_ret h
      exact { hr with }
    · split_ifs at h with hL
      cases h
      exact { hr with opt_L := fun l hl => by
                        cases hl
                        exact hL }
    · split_ifs at h with hO
      cases h
      exact { hr with opt_O := fun s hs => by
                        cases hs
                        exact Nat.le_of_not_lt hO }
    · obtain ⟨x, hx, rfl⟩ := Opts.number_eq_ret h
      exact { hr with opt_S := argtou_le hx }
    · obtain ⟨x, hx, rfl⟩ := Opts.number_eq_ret h
      exact { hr with }
    · obtain ⟨x, hx, rfl⟩ := Opts.number_eq_ret h
      exact { hr with opt_c := Nat.zero_le _ }
    · obtain ⟨x, hx, rfl⟩ := Opts.number_eq_ret h
      exact { hr with opt_c := argtou_le hx }
    · obtain ⟨x, hx, rfl⟩ := Opts.number_eq_ret h
      exact { hr with opt_e := argtou_le hx }
    · cases h
      exact { hr with }
    · obtain ⟨x, hx, rfl⟩ := Opts.number_eq_ret h
      exact { hr with opt_h := argtou_le hx }
    · obtain ⟨x, hx, rfl⟩ := Opts.number_eq_ret h
      exact { hr with opt_i := argtou_le hx }
    · obtain ⟨x, hx, rfl⟩ := Opts.number_eq_ret h
      exact { hr with opt_k := argtou_le hx }
    · obtain ⟨x, hx, rfl⟩ := Opts.number_eq_ret h
      exact { hr with opt_m := argtou_le hx }
    · obtain ⟨x, hx, rfl⟩ := Opts.number_eq_ret h
      exact { hr with }
    · obtain ⟨x, hx, rfl⟩ := Opts.number_eq_ret h
      exact { hr with }
    · obtain ⟨x, hx, rfl⟩ := Opts.number_eq_ret h
      exact { hr with opt_r := argtou_le hx }
    · obtain ⟨x, hx, rfl⟩ := Opts.number_eq_ret h
      exact { hr with }
    · obtain ⟨x, hx, rfl⟩ := Opts.number_eq_ret h
      exact { hr with opt_u := argtou_le hx }
    · cases h

/-- They are in them to begin with. -/
theorem Opts.initial_ranged (errno : Bool) : ({ errno } : Opts).Ranged where
  opt_F := .inl rfl
  opt_S := Nat.zero_le _
  opt_c := Nat.zero_le _
  opt_e := Nat.zero_le _
  opt_h := Nat.zero_le _
  opt_i := Nat.zero_le _
  opt_k := Nat.zero_le _
  opt_m := Nat.zero_le _
  opt_r := Nat.zero_le _
  opt_u := Nat.zero_le _
  opt_ofs := ⟨Int.le_refl 0, (by decide : (0 : ℤ) < 2 ^ 63)⟩
  opt_L := fun l hl => by cases hl
  opt_O := fun s hs => by cases hs

/-- Whatever the arguments are. -/
theorem args_ranged {errno : Bool} {argv : List CStr} {g g' : Getopt} {args : Args}
    (h : newfs_msdos_args errno argv g = .ret (args, g')) : args.opts.Ranged := by
  unfold newfs_msdos_args at h
  obtain ⟨⟨o, g₁⟩, hloop, h⟩ := Exec.bind_eq_ret.mp h
  have ho : o.Ranged :=
    getopt_loop_invariant Opts.switch_ranged (Opts.initial_ranged errno) hloop
  simp only at h
  split at h
  · cases h
    exact ho
  · cases h
    exact ho
  · cases h

/-! ## Numbers of 32 bits -/

theorem toNat_mul_of_lt {a b : UInt32} (h : a.toNat * b.toNat < 2 ^ 32) :
    (a * b).toNat = a.toNat * b.toNat := by
  rw [UInt32.toNat_mul, Nat.mod_eq_of_lt h]

theorem toNat_sub_of_le {a b : UInt32} (h : b.toNat ≤ a.toNat) :
    (a - b).toNat = a.toNat - b.toNat :=
  UInt32.toNat_sub_of_le a b (UInt32.le_iff_toNat_le.mpr h)

theorem toNat_given (opt x : UInt32) :
    (given opt x).toNat = if opt.toNat ≠ 0 then opt.toNat else x.toNat := by
  have hzero : opt ≠ 0 ↔ opt.toNat ≠ 0 := by
    rw [ne_eq, ne_eq, ← UInt32.toNat_inj]
    rfl
  rw [given]
  by_cases h : opt.toNat ≠ 0
  · rw [if_pos h, if_pos (hzero.mpr h)]
  · rw [if_neg h, if_neg fun hne => h (hzero.mp hne)]

/-- What is taken of an option and a default has a bound that both have. -/
theorem given_le {opt x : UInt32} {n : ℕ} (hopt : opt.toNat ≤ n) (hx : x.toNat ≤ n) :
    (given opt x).toNat ≤ n := by
  rw [toNat_given]
  split_ifs
  · exact hopt
  · exact hx

theorem toNat_howmany {x y : UInt32} (hy : 0 < y.toNat) (h : x.toNat + y.toNat ≤ 2 ^ 32) :
    (howmany x y).toNat = x.toNat ⌈/⌉ y.toNat := by
  have hone : (1 : UInt32).toNat = 1 := rfl
  have hsub : (y - 1).toNat = y.toNat - 1 := by
    rw [toNat_sub_of_le (by rw [hone]; exact hy), hone]
  rw [howmany, UInt32.toNat_div, toNat_add_of_lt (by rw [hsub]; omega), hsub,
    Nat.ceilDiv_eq_add_pred_div, Nat.add_sub_assoc hy]

/-- The test of `newfs_msdos` finds powers of two, and 0. -/
theorem powerof2_pow {x : UInt32} (h : powerof2 x = true) (hx : x.toNat ≠ 0) :
    ∃ k, x.toNat = 2 ^ k := by
  have hone : (1 : UInt32).toNat = 1 := rfl
  have hand : x.toNat &&& (x.toNat - 1) = 0 := by
    have h0 := of_decide_eq_true h
    rw [← UInt32.toNat_inj, UInt32.toNat_and,
      toNat_sub_of_le (by rw [hone]; omega), hone] at h0
    rw [Nat.and_comm]
    exact h0
  exact (Nat.and_sub_one_eq_zero_iff_isPowerOfTwo hx).mp hand

/-! ## What is put together -/

/-- The parameters before anything is computed: what is not 0 fits its field. -/
structure Bpb.InRange (b : Bpb) : Prop where
  bps : b.bps.toNat ≤ 0xffff
  spc : b.spc.toNat = 0 ∨ ∃ k, k ≤ 7 ∧ b.spc.toNat = 2 ^ k
  res : b.res.toNat ≤ 0xffff
  nft : b.nft.toNat ≤ 16
  rde : b.rde.toNat ≤ 0xffff
  sec : b.sec = 0
  mid : b.mid.toNat = 0 ∨ 0xf0 ≤ b.mid.toNat ∧ b.mid.toNat ≤ 0xff
  spf : b.spf = 0
  spt : b.spt.toNat ≤ 0xffff
  hds : b.hds.toNat ≤ 0xffff
  rdcl : b.rdcl = 0
  infs : b.infs.toNat ≤ 0xffff
  bkbs : b.bkbs.toNat ≤ 0xffff

/-- A parameter block of zeros fits its fields. -/
theorem Bpb.zero_inRange : Bpb.zero.InRange where
  bps := by decide
  spc := .inl rfl
  res := by decide
  nft := by decide
  rde := by decide
  sec := rfl
  mid := .inl rfl
  spf := rfl
  spt := by decide
  hds := by decide
  rdcl := rfl
  infs := by decide
  bkbs := by decide

/-- The standard formats, each with its numbers moved. -/
theorem stdfmt_inRange : ∀ e ∈ stdfmt,
    ({ e.2 with bsec := e.2.sec, sec := 0, bspf := e.2.spf, spf := 0 } : Bpb).InRange := by
  intro e he
  simp only [stdfmt, List.mem_cons, List.not_mem_nil, or_false] at he
  have hone : (1 : ℕ) = 2 ^ 0 := rfl
  rcases he with rfl | rfl | rfl | rfl | rfl | rfl | rfl | rfl | rfl | rfl
  all_goals
    refine ⟨by decide, .inr ?_, by decide, by decide, by decide, rfl, .inr (by decide), rfl,
      by decide, by decide, rfl, by decide, by decide⟩
    first
      | exact ⟨0, by decide, rfl⟩
      | exact ⟨1, by decide, rfl⟩

/-- So does one of a standard format. -/
theorem format_given_inRange {o : Opts} {b : Bpb} (h : format_given o = .ret b) :
    b.InRange := by
  rw [format_given] at h
  cases hf : o.opt_f with
  | none =>
    rw [hf] at h
    cases h
    exact Bpb.zero_inRange
  | some fmt =>
    rw [hf] at h
    obtain ⟨b₀, hb₀, h⟩ := Exec.bind_eq_ret.mp h
    injection h with h
    rw [getstdfmt] at hb₀
    cases hlook : stdfmt.lookup fmt with
    | none =>
      rw [hlook] at hb₀
      cases hb₀
    | some b₁ =>
      rw [hlook] at hb₀
      injection hb₀ with hb₀
      obtain ⟨l₁, l₂, hsplit, -⟩ := List.lookup_eq_some_iff.mp hlook
      have hmem : (fmt, b₁) ∈ stdfmt := by
        rw [hsplit]
        exact List.mem_append_right _ List.mem_cons_self
      rw [← h, ← hb₀]
      exact stdfmt_inRange _ hmem

/-- And it does with the numbers of the options in it. -/
theorem Bpb.InRange.disk_given {o : Opts} {b : Bpb} (hb : b.InRange) (ho : o.Ranged) :
    (disk_given o b).InRange :=
  { hb with
    bps := given_le ho.opt_S hb.bps
    spt := given_le ho.opt_u hb.spt
    hds := given_le ho.opt_h hb.hds }

/-- A number of the geometry that is accepted fits 16 bits and is not 0. -/
theorem ckgeom_eq_ret {fname : CStr} {val : UInt32} {msg : String} {u : Unit}
    (h : ckgeom fname val msg = .ret u) : val.toNat ≠ 0 ∧ val.toNat ≤ 0xffff := by
  unfold ckgeom at h
  obtain ⟨_, h0, h⟩ := Exec.bind_eq_ret.mp h
  rw [errx_if_eq_ret] at h0 h
  refine ⟨fun hzero => h0 (UInt32.toNat_inj.mp hzero), Nat.le_of_not_lt fun hlt => h ?_⟩
  exact UInt32.lt_iff_toNat_lt.mpr hlt

/-- What `getdiskinfo` stores. -/
theorem getdiskinfo_eq_ret {fname : CStr} {geo : Geometry} {b b' : Bpb}
    (h : getdiskinfo fname geo b = .ret b') :
    ∃ bps size, geo.BLKSSZGET = some bps ∧ geo.BLKGETSIZE = some size ∧ bps.toNat ≠ 0 ∧
      bps.toNat ≤ 0xffff ∧
      b' = { b with
        bps := bps
        bsec := size.toUInt32
        bspf := (size >>> 32).toUInt32
        spt := (sectors geo).toUInt32
        hds := (heads geo).toUInt32 } := by
  unfold getdiskinfo at h
  -- The ioctl has to succeed, and ckgeom bounds what it says.
  cases hbps : geo.BLKSSZGET with
  | none =>
    rw [hbps] at h
    cases h
  | some bps =>
    rw [hbps] at h
    obtain ⟨_, hck, h⟩ := Exec.bind_eq_ret.mp h
    cases hsize : geo.BLKGETSIZE with
    | none =>
      rw [hsize] at h
      cases h
    | some size =>
      rw [hsize] at h
      obtain ⟨_, -, h⟩ := Exec.bind_eq_ret.mp h
      obtain ⟨_, -, h⟩ := Exec.bind_eq_ret.mp h
      injection h with h
      obtain ⟨hne, hle⟩ := ckgeom_eq_ret hck
      exact ⟨bps, size, rfl, rfl, hne, hle, h.symm⟩

/-- A byte fits 16 bits. -/
theorem byte_le (c : UInt8) : c.toUInt32.toNat ≤ 0xffff := by
  rw [UInt8.toNat_toUInt32]
  have := c.toNat_lt
  omega

/-- The default size of a cluster is a power of two up to 128. -/
theorem default_spc_pow (bsec : UInt32) : ∃ k, k ≤ 7 ∧ (default_spc bsec).toNat = 2 ^ k := by
  unfold default_spc
  split_ifs
  · exact ⟨0, by decide, rfl⟩
  · exact ⟨3, by decide, rfl⟩
  · exact ⟨4, by decide, rfl⟩
  · exact ⟨5, by decide, rfl⟩
  · exact ⟨6, by decide, rfl⟩

/-- With the geometry of the device in it, the block still fits its fields. -/
theorem Bpb.InRange.disk_asked {o : Opts} {fname : CStr} {geo : Geometry} {b b' : Bpb}
    (hb : b.InRange) (h : disk_asked o fname geo b = .ret b') : b'.InRange := by
  unfold NewfsMsdos.disk_asked at h
  split_ifs at h with hknown
  · cases h
    exact hb
  · obtain ⟨b₁, h₁, h⟩ := Exec.bind_eq_ret.mp h
    obtain ⟨bps, size, -, -, -, hbps, rfl⟩ := getdiskinfo_eq_ret h₁
    injection h with h
    rw [← h]
    refine { hb with bps := hbps, spt := byte_le _, hds := byte_le _, spc := ?_ }
    simp only
    split_ifs with hspc
    · exact .inr (default_spc_pow _)
    · exact hb.spc

/-! ## What is checked -/

/-- The size of a sector, once it is checked. -/
def SectorPower (n : ℕ) : Prop := ∃ k, 9 ≤ k ∧ k ≤ 15 ∧ n = 2 ^ k

/-- And that of a cluster, in sectors. -/
def ClusterPower (n : ℕ) : Prop := ∃ k, k ≤ 7 ∧ n = 2 ^ k

/-- A sector has from 512 to 32768 bytes. -/
theorem SectorPower.le {n : ℕ} (h : SectorPower n) : 512 ≤ n ∧ n ≤ 32768 := by
  obtain ⟨k, hlo, hhi, rfl⟩ := h
  exact ⟨Nat.pow_le_pow_right (by decide : 0 < 2) hlo, Nat.pow_le_pow_right (by decide) hhi⟩

/-- It has whole directory entries. -/
theorem SectorPower.dvd {n : ℕ} (h : SectorPower n) : 32 ∣ n := by
  obtain ⟨k, hlo, -, rfl⟩ := h
  exact Nat.pow_dvd_pow 2 (Nat.le_trans (by decide : 5 ≤ 9) hlo)

/-- A cluster has from 1 to 128 sectors. -/
theorem ClusterPower.le {n : ℕ} (h : ClusterPower n) : 1 ≤ n ∧ n ≤ 128 := by
  obtain ⟨k, hk, rfl⟩ := h
  exact ⟨Nat.one_le_two_pow, Nat.pow_le_pow_right (by decide) hk⟩

/-- What is left of 16 bits by the checks of the sector size. -/
theorem sector_power {bps : UInt32} (hpow : powerof2 bps = true) (hmin : ¬ bps < MINBPS)
    (hle : bps.toNat ≤ 0xffff) : SectorPower bps.toNat := by
  have hlo : 512 ≤ bps.toNat := by
    rw [UInt32.lt_iff_toNat_lt] at hmin
    exact Nat.le_of_not_lt hmin
  obtain ⟨k, hk⟩ := powerof2_pow hpow (by omega)
  rw [hk] at hlo hle
  refine ⟨k, ?_, ?_, hk⟩
  · by_contra hlt
    have := Nat.pow_le_pow_right (by decide : 0 < 2) (by omega : k ≤ 8)
    omega
  · by_contra hlt
    have := Nat.pow_le_pow_right (by decide : 0 < 2) (by omega : 16 ≤ k)
    omega

/-- What is left of 8 bits by those of the cluster size. -/
theorem cluster_power {spc : UInt32} (hpow : powerof2 spc = true) (h0 : spc.toNat ≠ 0)
    (hle : spc.toNat < 256) : ClusterPower spc.toNat := by
  obtain ⟨k, hk⟩ := powerof2_pow hpow h0
  have h256 : (256 : ℕ) = 2 ^ 8 := rfl
  rw [hk, h256] at hle
  exact ⟨k, Nat.le_of_lt_succ ((Nat.pow_lt_pow_iff_right (by decide : 1 < 2)).mp hle), hk⟩

/-- The number of sectors in a block of `-b`. -/
theorem block_power {opt_b bps : UInt32} (hbps : SectorPower bps.toNat)
    (hpow : powerof2 opt_b = true) (h0 : opt_b.toNat ≠ 0) (hmin : ¬ opt_b < bps)
    (hmax : ¬ bps * MAXSPC < opt_b) : ClusterPower (opt_b / bps).toNat := by
  obtain ⟨j, hj⟩ := powerof2_pow hpow h0
  have hle := hbps.le
  obtain ⟨k, hlo, hhi, hk⟩ := hbps
  have h128 : (128 : ℕ) = 2 ^ 7 := rfl
  have hspc : MAXSPC.toNat = 128 := rfl
  have hmul : (bps * MAXSPC).toNat = bps.toNat * 128 := by
    rw [toNat_mul_of_lt (by rw [hspc]; omega), hspc]
  rw [UInt32.lt_iff_toNat_lt, hj, hk] at hmin
  rw [UInt32.lt_iff_toNat_lt, hmul, hj, hk, h128, ← Nat.pow_add] at hmax
  have hkj : k ≤ j :=
    (Nat.pow_le_pow_iff_right (by decide : 1 < 2)).mp (Nat.le_of_not_lt hmin)
  have hjk : j ≤ k + 7 :=
    (Nat.pow_le_pow_iff_right (by decide : 1 < 2)).mp (Nat.le_of_not_lt hmax)
  refine ⟨j - k, by omega, ?_⟩
  rw [UInt32.toNat_div, hj, hk, Nat.pow_div hkj (by decide)]

theorem toNat_ne_zero {x : UInt32} : x ≠ 0 ↔ x.toNat ≠ 0 := by
  rw [ne_eq, ne_eq, ← UInt32.toNat_inj]
  rfl

/-- A block size that is accepted gives a power of two for the cluster as well. -/
theorem spc_given_power {o : Opts} {bps spc spc' : UInt32} (ho : o.Ranged)
    (hbps : SectorPower bps.toNat) (hspc : spc.toNat = 0 ∨ ClusterPower spc.toNat)
    (h : spc_given o bps spc = .ret spc') : spc'.toNat = 0 ∨ ClusterPower spc'.toNat := by
  unfold spc_given at h
  obtain ⟨_, hpow, h⟩ := Exec.bind_eq_ret.mp h
  obtain ⟨_, hmin, h⟩ := Exec.bind_eq_ret.mp h
  obtain ⟨_, hmax, h⟩ := Exec.bind_eq_ret.mp h
  obtain ⟨_, hcpow, h⟩ := Exec.bind_eq_ret.mp h
  rw [errx_if_eq_ret] at hpow hmin hmax hcpow
  injection h with h
  rw [← h]
  by_cases hc : o.opt_c ≠ 0
  · -- `-c` comes after `-b`
    rw [given, if_pos hc]
    have hcle := ho.opt_c
    have hp : powerof2 o.opt_c = true := by
      by_contra hnot
      exact hcpow ⟨hc, hnot⟩
    exact .inr (cluster_power hp (toNat_ne_zero.mp hc) (by omega))
  rw [given, if_neg hc]
  by_cases hb : o.opt_b ≠ 0
  · rw [if_pos hb]
    have hp : powerof2 o.opt_b = true := by
      by_contra hnot
      exact hpow ⟨hb, hnot⟩
    exact .inr (block_power hbps hp (toNat_ne_zero.mp hb) (fun hlt => hmin ⟨hb, hlt⟩)
      fun hlt => hmax ⟨hb, hlt⟩)
  · rw [if_neg hb]
    exact hspc

/-- The block that has passed the checks fits its fields, and has a sector size. -/
theorem Bpb.InRange.checked {o : Opts} {b b' : Bpb} (hb : b.InRange) (ho : o.Ranged)
    (h : checked o b = .ret b') : b'.InRange ∧ SectorPower b'.bps.toNat := by
  unfold NewfsMsdos.checked at h
  obtain ⟨_, hpow, h⟩ := Exec.bind_eq_ret.mp h
  obtain ⟨_, hmin, h⟩ := Exec.bind_eq_ret.mp h
  obtain ⟨_, -, h⟩ := Exec.bind_eq_ret.mp h
  obtain ⟨spc, hspc, h⟩ := Exec.bind_eq_ret.mp h
  obtain ⟨_, hnft, h⟩ := Exec.bind_eq_ret.mp h
  obtain ⟨_, hmid, h⟩ := Exec.bind_eq_ret.mp h
  rw [errx_if_eq_ret] at hpow hmin hnft hmid
  injection h with h
  rw [← h]
  -- A field that an option sets is in the option's range, and any other one keeps its own.
  have hbps := sector_power (not_not.mp hpow) hmin hb.bps
  refine ⟨{ hb with
    spc := spc_given_power ho hbps hb.spc hspc
    res := given_le ho.opt_r hb.res
    nft := given_le (Nat.le_of_not_lt fun hlt => hnft (UInt32.lt_iff_toNat_lt.mpr hlt)) hb.nft
    rde := given_le ho.opt_e ?_
    mid := ?_
    infs := given_le ho.opt_i hb.infs
    bkbs := given_le ho.opt_k hb.bkbs }, hbps⟩
  · split_ifs
    · exact Nat.zero_le _
    · exact hb.rde
  · simp only
    split_ifs with hm
    · refine .inr ⟨Nat.le_of_not_lt fun hlt => hmid ⟨hm, UInt32.lt_iff_toNat_lt.mpr hlt⟩, ?_⟩
      exact ho.opt_m
    · exact hb.mid

/-! ## The kind of FAT -/

/-- Only three kinds of FAT can be asked for. -/
theorem fat_given_cases {o : Opts} (ho : o.Ranged) :
    fat_given o = 0 ∨ fat_given o = 12 ∨ fat_given o = 16 ∨ fat_given o = 32 := by
  unfold fat_given
  split_ifs
  · exact ho.opt_F
  · exact .inr (.inl rfl)
  · exact .inr (.inr (.inr rfl))
  · exact .inl rfl

/-- Without `-F` it is one of the three, and FAT32 only if there is no root directory. -/
theorem fat_chosen_cases (b : Bpb) (bss : UInt32) :
    fat_chosen b bss = 12 ∨ fat_chosen b bss = 16 ∨ fat_chosen b bss = 32 ∧ b.rde = 0 := by
  -- whatever the two sizes are that it is compared with
  obtain ⟨small, medium, _, _, h⟩ : ∃ (small medium : Prop) (_ : Decidable small)
      (_ : Decidable (b.rde ≠ 0 ∨ medium)),
      fat_chosen b bss = if small then 12 else if b.rde ≠ 0 ∨ medium then 16 else 32 :=
    ⟨_, _, _, _, rfl⟩
  rw [h]
  split_ifs with h12 h16
  · exact .inl rfl
  · exact .inr (.inl rfl)
  · refine .inr (.inr ⟨rfl, ?_⟩)
    by_contra hne
    exact h16 (.inl hne)

/-- There are root directory entries to be had only if the FAT is not FAT32. -/
def NoRoot (o : Opts) (b : Bpb) : Prop := fat_given o = 32 → b.rde = 0

/-- Without a standard format no root directory has been sized yet. -/
theorem format_given_rde {o : Opts} {b : Bpb} (h : format_given o = .ret b)
    (hf : o.opt_f = none) : b.rde = 0 := by
  unfold format_given at h
  rw [hf] at h
  cases h
  rfl

/-- The device does not say how many entries the root directory has. -/
theorem disk_asked_rde {o : Opts} {fname : CStr} {geo : Geometry} {b b' : Bpb}
    (h : disk_asked o fname geo b = .ret b') : b'.rde = b.rde := by
  unfold disk_asked at h
  split_ifs at h with hknown
  · cases h
    rfl
  · obtain ⟨b₁, h₁, h⟩ := Exec.bind_eq_ret.mp h
    obtain ⟨bps, size, -, -, -, -, rfl⟩ := getdiskinfo_eq_ret h₁
    injection h with h
    rw [← h]

/-- What the checks leave of it is what the options say. -/
theorem checked_noRoot {o : Opts} {b b' : Bpb} (hrde : o.opt_f = none → b.rde = 0)
    (h : checked o b = .ret b') : NoRoot o b' := by
  intro h32
  unfold checked at h
  obtain ⟨_, -, h⟩ := Exec.bind_eq_ret.mp h
  obtain ⟨_, -, h⟩ := Exec.bind_eq_ret.mp h
  obtain ⟨_, hlegal, h⟩ := Exec.bind_eq_ret.mp h
  obtain ⟨spc, -, h⟩ := Exec.bind_eq_ret.mp h
  obtain ⟨_, -, h⟩ := Exec.bind_eq_ret.mp h
  obtain ⟨_, -, h⟩ := Exec.bind_eq_ret.mp h
  rw [errx_if_eq_ret] at hlegal
  injection h with h
  rw [← h]
  have he : ¬ o.opt_e ≠ 0 := fun he => hlegal (.inl ⟨h32, he⟩)
  simp only [given, if_neg he]
  by_cases hf : o.opt_f.isSome = true ∧ fat_given o = 32
  · rw [if_pos hf]
  · rw [if_neg hf]
    apply hrde
    rw [← Option.not_isSome_iff_eq_none]
    exact fun hsome => hf ⟨hsome, h32⟩

/-- One of the three kinds, and no root directory of its own with FAT32. -/
inductive KindOf (b : Bpb) : UInt32 → Prop where
  | fat12 : KindOf b 12
  | fat16 : KindOf b 16
  | fat32 (hrde : b.rde = 0) : KindOf b 32

/-- The kind of FAT is settled, with what it says about the root directory. -/
theorem kind_of {o : Opts} {b : Bpb} (ho : o.Ranged) (hroot : NoRoot o b) (bss nft : UInt32) :
    KindOf b (given (fat_given o) (fat_chosen { b with nft := nft } bss)) := by
  rw [given]
  split_ifs with h
  · rcases fat_given_cases ho with h0 | h12 | h16 | h32
    · exact absurd h0 h
    · rw [h12]
      exact .fat12
    · rw [h16]
      exact .fat16
    · rw [h32]
      exact .fat32 (hroot h32)
  · rcases fat_chosen_cases { b with nft := nft } bss with h12 | h16 | ⟨h32, hrde⟩
    · rw [h12]
      exact .fat12
    · rw [h16]
      exact .fat16
    · rw [h32]
      exact .fat32 hrde

/-- It is one of three. -/
theorem KindOf.cases {b : Bpb} {fat : UInt32} (h : KindOf b fat) :
    fat = 12 ∨ fat = 16 ∨ fat = 32 := by
  cases h with
  | fat12 => exact .inl rfl
  | fat16 => exact .inr (.inl rfl)
  | fat32 hrde => exact .inr (.inr rfl)

/-- The entries of the root directory, with the default. -/
theorem KindOf.rde {b : Bpb} {fat : UInt32} (h : KindOf b fat) (hb : b.rde.toNat ≤ 0xffff) :
    (if fat ≠ 32 then given b.rde DEFRDE else b.rde).toNat ≤ 0xffff ∧
      ((if fat ≠ 32 then given b.rde DEFRDE else b.rde).toNat = 0 ↔ fat = 32) := by
  have hdef : DEFRDE.toNat = 512 := rfl
  by_cases h32 : fat = 32
  · rw [if_neg (not_not.mpr h32)]
    refine ⟨hb, fun _ => h32, fun _ => ?_⟩
    cases h with
    | fat12 => exact absurd h32 (by decide)
    | fat16 => exact absurd h32 (by decide)
    | fat32 hrde =>
      rw [hrde]
      rfl
  · rw [if_pos h32]
    refine ⟨given_le hb (by decide), fun h0 => ?_, fun h => absurd h h32⟩
    rw [toNat_given] at h0
    split_ifs at h0 with hne <;> omega

/-! ## The reserved sectors -/

/-- The bootstrap takes at least one sector, and no more than 16 bits of them. -/
theorem boot_sectors_range {o : Opts} {boot : BootFile} {bps bss : UInt32}
    (hbps : SectorPower bps.toNat) (h : boot_sectors o boot bps = .ret bss) :
    1 ≤ bss.toNat ∧ bss.toNat ≤ 0xffff := by
  unfold boot_sectors at h
  cases hB : o.opt_B with
  | none =>
    rw [hB] at h
    cases h
    exact ⟨Nat.le_refl 1, by decide⟩
  | some opt_B =>
    rw [hB] at h
    cases boot with
    | missing => cases h
    | irregular => cases h
    | regular contents =>
      obtain ⟨_, hsize, h⟩ := Exec.bind_eq_ret.mp h
      rw [errx_if_eq_ret] at hsize
      injection h with h
      have hle := hbps.le
      have h16 : MAXU16.toNat = 0xffff := rfl
      -- The largest size that is accepted is a product that does not wrap.
      have hmul : (bps * MAXU16).toNat = bps.toNat * 0xffff := by
        rw [toNat_mul_of_lt (by rw [h16]; omega), h16]
      rw [hmul] at hsize
      have hdiv : contents.length / bps.toNat ≤ 0xffff :=
        Nat.div_le_of_le_mul (by omega)
      rw [← h, UInt32.toNat_ofNat', Nat.mod_eq_of_lt (by omega)]
      exact ⟨Nat.div_pos (by omega) (by omega), hdiv⟩

/-- Where the two sectors are: behind the bootstrap's place in front of `x`, or nowhere. -/
structure Placed (b b' : Bpb) (fat bss x : UInt32) : Prop where
  same : b' = { b with infs := b'.infs, bkbs := b'.bkbs }
  infs_le : b'.infs.toNat ≤ 0xffff
  bkbs_le : b'.bkbs.toNat ≤ 0xffff
  bss_le : bss.toNat ≤ x.toNat
  x_le : x.toNat ≤ 0xffff
  infs : fat = 32 → 1 ≤ b'.infs.toNat ∧ (b'.infs.toNat = 0xffff ∨ b'.infs.toNat < x.toNat)
  bkbs : fat = 32 → 1 ≤ b'.bkbs.toNat ∧ (b'.bkbs.toNat = 0xffff ∨ b'.bkbs.toNat < x.toNat)
  apart : fat = 32 → b'.infs.toNat = b'.bkbs.toNat → b'.infs.toNat = 0xffff

/-- The next free sector: behind `s`, if that is a sector and not in front already. -/
theorem behind_toNat {s x : UInt32} (hs : s.toNat ≤ 0xffff) (hx : x.toNat ≤ 0xffff) :
    let y := if s ≠ MAXU16 ∧ x ≤ s then s + 1 else x
    x.toNat ≤ y.toNat ∧ y.toNat ≤ 0xffff ∧ (s.toNat = 0xffff ∨ s.toNat < y.toNat) := by
  intro y
  have h16 : MAXU16.toNat = 0xffff := rfl
  have hone : (1 : UInt32).toNat = 1 := rfl
  have hne : s ≠ MAXU16 ↔ s.toNat ≠ 0xffff := by
    rw [ne_eq, ← UInt32.toNat_inj, h16]
  by_cases h : s ≠ MAXU16 ∧ x ≤ s
  · have hy : y.toNat = s.toNat + 1 := by
      rw [show y = s + 1 from if_pos h, toNat_add_of_lt (by rw [hone]; omega), hone]
    have hle := UInt32.le_iff_toNat_le.mp h.2
    have hne' := hne.mp h.1
    omega
  · have hy : y = x := if_neg h
    rw [hne, UInt32.le_iff_toNat_le] at h
    rw [hy]
    omega

/-- Where the info sector and the backup of the boot sector are put. -/
theorem info_sectors_placed {b b' : Bpb} {fat bss x : UInt32} (hb : b.InRange)
    (hbss : 1 ≤ bss.toNat ∧ bss.toNat ≤ 0xffff)
    (h : info_sectors b fat bss = .ret (b', x)) : Placed b b' fat bss x := by
  unfold info_sectors at h
  by_cases h32 : fat = 32
  · rw [if_pos h32] at h
    obtain ⟨_, hroom, h⟩ := Exec.bind_eq_ret.mp h
    obtain ⟨_, hback, h⟩ := Exec.bind_eq_ret.mp h
    obtain ⟨_, hover, h⟩ := Exec.bind_eq_ret.mp h
    rw [errx_if_eq_ret] at hroom hback hover
    injection h with h
    rw [Prod.mk.injEq] at h
    obtain ⟨rfl, hx⟩ := h
    have h16 : MAXU16.toNat = 0xffff := rfl
    have hinfs : 1 ≤ (given b.infs bss).toNat ∧ (given b.infs bss).toNat ≤ 0xffff := by
      have := hb.infs
      rw [toNat_given]
      split_ifs <;> omega
    have hx₁ := behind_toNat hinfs.2 hbss.2
    generalize hdef : (if given b.infs bss ≠ MAXU16 ∧ bss ≤ given b.infs bss
      then given b.infs bss + 1 else bss) = x₁ at *
    have hbkbs : 1 ≤ (given b.bkbs x₁).toNat ∧ (given b.bkbs x₁).toNat ≤ 0xffff := by
      have := hb.bkbs
      rw [toNat_given]
      split_ifs <;> omega
    have hx₂ := behind_toNat hbkbs.2 hx₁.2.1
    rw [hx] at hx₂
    simp only at hx₁ hx₂
    have hbefore : (given b.infs bss).toNat = 0xffff ∨ (given b.infs bss).toNat < x.toNat := by
      omega
    refine ⟨rfl, hinfs.2, hbkbs.2, by omega, hx₂.2.1, fun _ => ⟨hinfs.1, hbefore⟩,
      fun _ => ⟨hbkbs.1, hx₂.2.2⟩, ?_⟩
    -- a backup sector that was asked for has been compared, and the other one is behind `infs`
    intro _ heq
    by_cases hgiven : b.bkbs = 0
    · have hsame : (given b.bkbs x₁).toNat = x₁.toNat := by
        rw [toNat_given, hgiven]
        rfl
      simp only [hsame] at heq
      have hne : x₁.toNat ≠ 0xffff := fun h => hback ⟨hgiven, UInt32.toNat_inj.mp h⟩
      omega
    · have hsame : given b.bkbs x₁ = b.bkbs := if_pos hgiven
      simp only [hsame] at heq
      by_contra hne
      refine hover ⟨hgiven, fun h => hne ?_, UInt32.toNat_inj.mp heq.symm⟩
      rw [heq, h]
      rfl
  · rw [if_neg h32] at h
    injection h with h
    rw [Prod.mk.injEq] at h
    obtain ⟨rfl, rfl⟩ := h
    exact ⟨rfl, hb.infs, hb.bkbs, Nat.le_refl _, hbss.2, fun h => absurd h h32, fun h => absurd h h32,
      fun h => absurd h h32⟩

/-- With these two in it, the block still fits its fields. -/
theorem Placed.inRange {b b' : Bpb} {fat bss x : UInt32} (h : Placed b b' fat bss x)
    (hb : b.InRange) : b'.InRange := by
  rw [h.same]
  exact { hb with infs := h.infs_le, bkbs := h.bkbs_le }

/-- The reserved sectors hold what has to be in them, and fit 16 bits. -/
theorem reserved_range {b : Bpb} {fat x res : UInt32}
    (hres : b.res.toNat ≤ 0xffff) (hx : x.toNat ≤ 0xffff) (h : reserved b fat x = .ret res) :
    x.toNat ≤ res.toNat ∧ res.toNat ≤ 0xffff := by
  unfold reserved at h
  obtain ⟨_, hfew, h⟩ := Exec.bind_eq_ret.mp h
  rw [errx_if_eq_ret, UInt32.lt_iff_toNat_lt, toNat_ne_zero] at hfew
  injection h with h
  rw [← h, toNat_given]
  split_ifs with h0 h32
  · exact ⟨Nat.le_of_not_lt fun hlt => hfew ⟨h0, hlt⟩, hres⟩
  · have hdiv : (16384 / b.bps).toNat ≤ 16384 := by
      rw [UInt32.toNat_div]
      exact Nat.div_le_self _ _
    have hmax : ∀ a c : UInt32, (max a c).toNat = max a.toNat c.toNat := by
      intro a c
      rw [show max a c = if a ≤ c then c else a from rfl]
      split_ifs with hac
      · exact (Nat.max_eq_right (UInt32.le_iff_toNat_le.mp hac)).symm
      · rw [UInt32.le_iff_toNat_le] at hac
        exact (Nat.max_eq_left (by omega)).symm
    have h4 : (4 : UInt32).toNat = 4 := rfl
    rw [hmax, hmax, h4]
    omega
  · exact ⟨Nat.le_refl _, hx⟩

/-! ## The root directory and the clusters -/

theorem toNat_mul64_of_lt {a b : UInt64} (h : a.toNat * b.toNat < 2 ^ 64) :
    (a * b).toNat = a.toNat * b.toNat := by
  rw [UInt64.toNat_mul, Nat.mod_eq_of_lt h]

theorem toNat_add64_of_lt {a b : UInt64} (h : a.toNat + b.toNat < 2 ^ 64) :
    (a + b).toNat = a.toNat + b.toNat := by
  rw [UInt64.toNat_add, Nat.mod_eq_of_lt h]

theorem toNat_min (a b : UInt32) : (min a b).toNat = min a.toNat b.toNat := by
  rw [show min a b = if a ≤ b then a else b from rfl]
  split_ifs with h
  · exact (Nat.min_eq_left (UInt32.le_iff_toNat_le.mp h)).symm
  · rw [UInt32.le_iff_toNat_le] at h
    exact (Nat.min_eq_right (by omega)).symm

/-- Rounding up a fraction that is not in its lowest terms. -/
theorem mul_ceilDiv_mul {a b c : ℕ} (hb : 0 < b) (hc : 0 < c) : a * c ⌈/⌉ (b * c) = a ⌈/⌉ b := by
  apply eq_of_forall_ge_iff
  intro n
  rw [ceilDiv_le_iff_le_mul (Nat.mul_pos hb hc), ceilDiv_le_iff_le_mul hb, Nat.mul_right_comm]
  exact Nat.mul_le_mul_right_iff hc

/-- The sectors of the root directory. -/
theorem rds_toNat {rde bps : UInt32} (hbps : SectorPower bps.toNat) :
    (howmany64 rde.toUInt64 (bps.toUInt64 / 32)).toUInt32.toNat
      = rde.toNat * 32 ⌈/⌉ bps.toNat := by
  have hle := hbps.le
  obtain ⟨q, hq⟩ := hbps.dvd
  have hrde : rde.toNat < 2 ^ 32 := rde.toNat_lt
  have h32 : (32 : UInt64).toNat = 32 := rfl
  have hone : (1 : UInt64).toNat = 1 := rfl
  have hdiv : (bps.toUInt64 / 32).toNat = q := by
    rw [UInt64.toNat_div, UInt32.toNat_toUInt64, h32, hq, Nat.mul_div_cancel_left _ (by decide)]
  have hsub : (bps.toUInt64 / 32 - 1).toNat = q - 1 := by
    rw [UInt64.toNat_sub_of_le _ _ (UInt64.le_iff_toNat_le.mpr (by rw [hone, hdiv]; omega)), hdiv,
      hone]
  have hsum : (rde.toUInt64 + (bps.toUInt64 / 32 - 1)).toNat = rde.toNat + (q - 1) := by
    rw [toNat_add64_of_lt (by rw [hsub, UInt32.toNat_toUInt64]; omega), hsub,
      UInt32.toNat_toUInt64]
  have hquot : (rde.toNat + (q - 1)) / q < 2 ^ 32 := Nat.div_lt_of_lt_mul (by omega)
  rw [howmany64, UInt64.toNat_toUInt32, UInt64.toNat_div, hdiv, hsum,
    Nat.mod_eq_of_lt hquot, hq, Nat.mul_comm 32 q, mul_ceilDiv_mul (by omega) (by decide),
    Nat.ceilDiv_eq_add_pred_div, Nat.add_sub_assoc (by omega)]

/-- A power of two divided by another one, upwards. -/
theorem pow_ceilDiv_pow (j k : ℕ) : 2 ^ j ⌈/⌉ 2 ^ k = 2 ^ (j - k) := by
  apply eq_of_forall_ge_iff
  intro n
  rw [ceilDiv_le_iff_le_mul (Nat.two_pow_pos k)]
  rcases Nat.le_total k j with h | h
  · conv_lhs => rw [← Nat.add_sub_cancel' h, Nat.pow_add]
    exact Nat.mul_le_mul_left_iff (Nat.two_pow_pos k)
  · rw [Nat.sub_eq_zero_of_le h, Nat.pow_zero]
    have hle := Nat.pow_le_pow_right (by decide : 0 < 2) h
    constructor
    · intro hn
      have hpos := Nat.two_pow_pos j
      by_contra h0
      rw [Nat.lt_one_iff.mp (Nat.lt_of_not_le h0), Nat.mul_zero] at hn
      omega
    · intro hn
      exact Nat.le_trans hle (Nat.le_mul_of_pos_right _ hn)

/-- The loop for the cluster size starts with a power of two. -/
theorem spc_start {fat bps : UInt32} (hbps : SectorPower bps.toNat) :
    ∃ k, k ≤ 7 ∧ (howmany (if fat = 16 then DEFBLK16 else DEFBLK) bps).toNat = 2 ^ k := by
  have hle := hbps.le
  obtain ⟨k, hlo, hhi, hk⟩ := hbps
  have h11 : DEFBLK16.toNat = 2 ^ 11 := rfl
  have h12 : DEFBLK.toNat = 2 ^ 12 := rfl
  split_ifs
  · rw [toNat_howmany (by omega) (by rw [h11]; omega), h11, hk, pow_ceilDiv_pow]
    exact ⟨11 - k, by omega, rfl⟩
  · rw [toNat_howmany (by omega) (by rw [h12]; omega), h12, hk, pow_ceilDiv_pow]
    exact ⟨12 - k, by omega, rfl⟩

/-- **The loop ends**, and its result is a power of two that the field can have. -/
theorem spc_loop_ends {b : Bpb} {fat rds : UInt32} {rounds k : ℕ} {spc : UInt32}
    (hspc : spc.toNat = 2 ^ k) (hk : k ≤ 7) (hrounds : 8 ≤ k + rounds) :
    ∃ spc', spc_loop b fat rds rounds spc = .ret spc' ∧ ClusterPower spc'.toNat := by
  induction rounds generalizing spc k with
  | zero => omega
  | succ rounds ih =>
    rw [spc_loop]
    split_ifs with hmore
    · -- below the maximum it can still be doubled
      have hlt : spc < MAXSPC := (of_decide_eq_true hmore).1
      have h7 : MAXSPC.toNat = 2 ^ 7 := rfl
      rw [UInt32.lt_iff_toNat_lt, hspc, h7] at hlt
      have hk7 : k < 7 := (Nat.pow_lt_pow_iff_right (by decide : 1 < 2)).mp hlt
      have hle := Nat.pow_le_pow_right (by decide : 0 < 2) (Nat.le_of_lt_succ (by omega : k < 8))
      have hone : (1 : UInt32).toNat = 1 := rfl
      apply ih (k := k + 1) _ (by omega) (by omega)
      rw [UInt32.toNat_shiftLeft, hone, hspc, Nat.shiftLeft_eq, Nat.pow_succ]
      exact Nat.mod_eq_of_lt (by omega)
    · exact ⟨spc, rfl, k, hk, hspc⟩

/-- It ends, with a cluster size. -/
theorem spc_computed_ends {b : Bpb} {fat rds : UInt32} (hb : b.InRange)
    (hbps : SectorPower b.bps.toNat) :
    ∃ spc, spc_computed b fat rds = .ret spc ∧ ClusterPower spc.toNat := by
  unfold spc_computed
  by_cases h : b.spc ≠ 0
  · rw [if_pos h]
    exact ⟨b.spc, rfl, hb.spc.resolve_left (toNat_ne_zero.mp h)⟩
  · rw [if_neg h]
    obtain ⟨k, hk, hstart⟩ := spc_start hbps
    exact spc_loop_ends hstart hk (Nat.le_add_left 8 k)

/-! ## The length of the FATs, and the clusters -/

/-- What the sizes are computed from. -/
structure Ready (b : Bpb) (fat rds : UInt32) : Prop where
  bps : SectorPower b.bps.toNat
  spc : ClusterPower b.spc.toNat
  res : b.res.toNat ≤ 0xffff
  nft : 1 ≤ b.nft.toNat ∧ b.nft.toNat ≤ 16
  rds : rds.toNat ≤ 0xffff
  kind : fat = 12 ∨ fat = 16 ∨ fat = 32

/-- The numbers that come with a kind of FAT, counted in nibbles. -/
structure Nibbles (fat : UInt32) (f : ℕ) : Prop where
  size : (fat / BPN).toNat = f
  bits : fat.toNat = f * 4
  three_le : 3 ≤ f
  le_eight : f ≤ 8
  max : ((maxcls fat).toNat + 2) * f < 2 ^ 31
  min : 1 ≤ (mincls fat).toNat ∧ (mincls fat).toNat ≤ (maxcls fat).toNat
  small : fat ≠ 32 → (2 + (maxcls fat).toNat) * f ≤ 1024 * 0xffff
  slack : ∀ n, SectorPower n →
    (maxcls fat).toNat + 2 < ((2 + (maxcls fat).toNat) * f ⌈/⌉ (n * 2)) * (n * 2) / f

/-- FATs for the highest number of clusters have entries to spare. -/
theorem slack_of {c f : ℕ} (h : ∀ k, k < 7 →
    c + 2 < ((2 + c) * f ⌈/⌉ (2 ^ (9 + k) * 2)) * (2 ^ (9 + k) * 2) / f) {n : ℕ}
    (hn : SectorPower n) : c + 2 < ((2 + c) * f ⌈/⌉ (n * 2)) * (n * 2) / f := by
  obtain ⟨k, hlo, hhi, rfl⟩ := hn
  rw [← Nat.add_sub_cancel' hlo]
  exact h (k - 9) (by omega)

/-- An entry of a FAT has a whole number of half bytes. -/
theorem exists_nibbles {fat : UInt32} (h : fat = 12 ∨ fat = 16 ∨ fat = 32) :
    ∃ f, Nibbles fat f := by
  rcases h with rfl | rfl | rfl
  · exact ⟨3, rfl, rfl, by decide, by decide, by decide, by decide, fun _ => by decide,
      fun _ => slack_of (by decide)⟩
  · exact ⟨4, rfl, rfl, by decide, by decide, by decide, by decide, fun _ => by decide,
      fun _ => slack_of (by decide)⟩
  · exact ⟨8, rfl, rfl, by decide, by decide, by decide, by decide, fun h => absurd rfl h,
      fun _ => slack_of (by decide)⟩

section Extent

variable {b : Bpb} {fat rds : UInt32} {f : ℕ}

/-- The sectors in front of the clusters, with `q` sectors in a FAT. -/
theorem x1_toNat {q : UInt32} (hr : Ready b fat rds)
    (h : ¬ b.bsec.toUInt64 < (b.res + rds).toUInt64 + q.toUInt64 * b.nft.toUInt64) :
    (b.res + rds + q * b.nft).toNat = b.res.toNat + rds.toNat + q.toNat * b.nft.toNat ∧
      b.res.toNat + rds.toNat + q.toNat * b.nft.toNat ≤ b.bsec.toNat := by
  have hres := hr.res
  have hrds := hr.rds
  have hnft := hr.nft
  have hq : q.toNat < 2 ^ 32 := q.toNat_lt
  have hbsec : b.bsec.toNat < 2 ^ 32 := b.bsec.toNat_lt
  have hsum : (b.res + rds).toNat = b.res.toNat + rds.toNat := toNat_add_of_lt (by omega)
  have hprod : q.toNat * b.nft.toNat ≤ q.toNat * 16 := Nat.mul_le_mul_left _ hnft.2
  have hmul : (q.toUInt64 * b.nft.toUInt64).toNat = q.toNat * b.nft.toNat := by
    rw [toNat_mul64_of_lt (by rw [UInt32.toNat_toUInt64, UInt32.toNat_toUInt64]; omega),
      UInt32.toNat_toUInt64, UInt32.toNat_toUInt64]
  rw [UInt64.lt_iff_toNat_lt,
    toNat_add64_of_lt (by rw [hmul, UInt32.toNat_toUInt64, hsum]; omega), hmul,
    UInt32.toNat_toUInt64, UInt32.toNat_toUInt64, hsum] at h
  have hle := Nat.le_of_not_lt h
  refine ⟨?_, hle⟩
  have hmul32 : (q * b.nft).toNat = q.toNat * b.nft.toNat := toNat_mul_of_lt (by omega)
  rw [toNat_add_of_lt (by rw [hsum, hmul32]; omega), hsum, hmul32]

/-- The clusters that there would be. -/
theorem estimate_toNat {x1 : UInt32} (hr : Ready b fat rds) (hf : Nibbles fat f)
    (hx1 : x1.toNat ≤ b.bsec.toNat) :
    ((b.bsec - x1).toUInt64 * b.bps.toUInt64 * NPB.toUInt64
      / (b.spc * b.bps * NPB + fat / BPN * b.nft).toUInt64).toUInt32.toNat
      = (b.bsec.toNat - x1.toNat) * (b.bps.toNat * 2)
        / (b.spc.toNat * (b.bps.toNat * 2) + f * b.nft.toNat) := by
  have hbps := hr.bps.le
  have hspc := hr.spc.le
  have hnft := hr.nft
  have hf8 := hf.le_eight
  have h2 : NPB.toNat = 2 := rfl
  have hbsec : b.bsec.toNat < 2 ^ 32 := b.bsec.toNat_lt
  have hsub : (b.bsec - x1).toNat = b.bsec.toNat - x1.toNat := toNat_sub_of_le hx1
  -- the dividend has 48 bits
  have hd : (b.bsec.toNat - x1.toNat) * b.bps.toNat ≤ (b.bsec.toNat - x1.toNat) * 32768 :=
    Nat.mul_le_mul_left _ hbps.2
  have hdiv1 : ((b.bsec - x1).toUInt64 * b.bps.toUInt64).toNat
      = (b.bsec.toNat - x1.toNat) * b.bps.toNat := by
    rw [toNat_mul64_of_lt (by rw [UInt32.toNat_toUInt64, UInt32.toNat_toUInt64, hsub]; omega),
      UInt32.toNat_toUInt64, UInt32.toNat_toUInt64, hsub]
  have hdiv : ((b.bsec - x1).toUInt64 * b.bps.toUInt64 * NPB.toUInt64).toNat
      = (b.bsec.toNat - x1.toNat) * (b.bps.toNat * 2) := by
    rw [toNat_mul64_of_lt (by rw [hdiv1, UInt32.toNat_toUInt64, h2]; omega), hdiv1,
      UInt32.toNat_toUInt64, h2, Nat.mul_assoc]
  -- and the divisor 24
  have hsb : b.spc.toNat * b.bps.toNat ≤ 128 * 32768 := Nat.mul_le_mul hspc.2 hbps.2
  have hfn : f * b.nft.toNat ≤ 8 * 16 := Nat.mul_le_mul hf8 hnft.2
  have hsb32 : (b.spc * b.bps).toNat = b.spc.toNat * b.bps.toNat := toNat_mul_of_lt (by omega)
  have hsb2 : (b.spc * b.bps * NPB).toNat = b.spc.toNat * (b.bps.toNat * 2) := by
    rw [toNat_mul_of_lt (by rw [hsb32, h2]; omega), hsb32, h2, Nat.mul_assoc]
  have hfn32 : (fat / BPN * b.nft).toNat = f * b.nft.toNat := by
    rw [toNat_mul_of_lt (by rw [hf.size]; omega), hf.size]
  have hsor : (b.spc * b.bps * NPB + fat / BPN * b.nft).toNat
      = b.spc.toNat * (b.bps.toNat * 2) + f * b.nft.toNat := by
    have hassoc := Nat.mul_assoc b.spc.toNat b.bps.toNat 2
    rw [toNat_add_of_lt (by rw [hsb2, hfn32]; omega), hsb2, hfn32]
  rw [UInt64.toNat_toUInt32, UInt64.toNat_div, hdiv, UInt32.toNat_toUInt64, hsor]
  apply Nat.mod_eq_of_lt
  -- there are no more clusters than sectors
  have hle : (b.bsec.toNat - x1.toNat) * (b.bps.toNat * 2)
      / (b.spc.toNat * (b.bps.toNat * 2) + f * b.nft.toNat) ≤ b.bsec.toNat - x1.toNat := by
    apply Nat.div_le_of_le_mul
    rw [Nat.mul_comm]
    apply Nat.mul_le_mul_right
    have := Nat.le_mul_of_pos_left (b.bps.toNat * 2) (by omega : 0 < b.spc.toNat)
    omega
  omega

/-- The sectors of a FAT for `x` clusters. -/
theorem x2_toNat {x : UInt32} (hr : Ready b fat rds) (hf : Nibbles fat f) :
    (howmany ((RESFTE + min x (maxcls fat)) * (fat / BPN)) (b.bps * NPB)).toNat
      = (2 + min x.toNat (maxcls fat).toNat) * f ⌈/⌉ (b.bps.toNat * 2) := by
  have hbps := hr.bps.le
  have h2 : NPB.toNat = 2 := rfl
  have hr2 : RESFTE.toNat = 2 := rfl
  have hmul : (b.bps * NPB).toNat = b.bps.toNat * 2 := by
    rw [toNat_mul_of_lt (by rw [h2]; omega), h2]
  have hmax := hf.max
  have hf3 := hf.three_le
  have hm : min x.toNat (maxcls fat).toNat ≤ (maxcls fat).toNat := Nat.min_le_right _ _
  have hle : (2 + min x.toNat (maxcls fat).toNat) * f ≤ ((maxcls fat).toNat + 2) * f :=
    Nat.mul_le_mul_right f (by omega)
  have hpos : 2 + min x.toNat (maxcls fat).toNat ≤ (2 + min x.toNat (maxcls fat).toNat) * f :=
    Nat.le_mul_of_pos_right _ (by omega)
  have hadd : (RESFTE + min x (maxcls fat)).toNat = 2 + min x.toNat (maxcls fat).toNat := by
    rw [toNat_add_of_lt (by rw [toNat_min, hr2]; omega), toNat_min, hr2]
  have hprod : ((RESFTE + min x (maxcls fat)) * (fat / BPN)).toNat
      = (2 + min x.toNat (maxcls fat).toNat) * f := by
    rw [toNat_mul_of_lt (by rw [hadd, hf.size]; omega), hadd, hf.size]
  rw [toNat_howmany (by rw [hmul]; omega) (by rw [hmul, hprod]; omega), hmul, hprod]

/-- The clusters that FATs of this length have entries for, as far as they are counted. -/
theorem capacity_toNat {bspf : UInt32} (hr : Ready b fat rds) (hf : Nibbles fat f)
    (hpos : 0 < bspf.toNat) :
    (bspf.toUInt64 * b.bps.toUInt64 * NPB.toUInt64 / (fat / BPN).toUInt64
      - RESFTE.toUInt64).toUInt32.toNat
      = (bspf.toNat * (b.bps.toNat * 2) / f - 2) % 2 ^ 32 ∧
    2 ≤ bspf.toNat * (b.bps.toNat * 2) / f := by
  have hbps := hr.bps.le
  have hf3 := hf.three_le
  have hf8 := hf.le_eight
  have h2 : NPB.toNat = 2 := rfl
  have hr2 : RESFTE.toNat = 2 := rfl
  have hlt : bspf.toNat < 2 ^ 32 := bspf.toNat_lt
  have hle : bspf.toNat * b.bps.toNat ≤ bspf.toNat * 32768 := Nat.mul_le_mul_left _ hbps.2
  -- The products are in 64 bits, and far from their end.
  have hmul1 : (bspf.toUInt64 * b.bps.toUInt64).toNat = bspf.toNat * b.bps.toNat := by
    rw [toNat_mul64_of_lt (by rw [UInt32.toNat_toUInt64, UInt32.toNat_toUInt64]; omega),
      UInt32.toNat_toUInt64, UInt32.toNat_toUInt64]
  have hmul : (bspf.toUInt64 * b.bps.toUInt64 * NPB.toUInt64).toNat
      = bspf.toNat * (b.bps.toNat * 2) := by
    rw [toNat_mul64_of_lt (by rw [hmul1, UInt32.toNat_toUInt64, h2]; omega), hmul1,
      UInt32.toNat_toUInt64, h2, Nat.mul_assoc]
  have htwo : 2 ≤ bspf.toNat * (b.bps.toNat * 2) / f := by
    rw [Nat.le_div_iff_mul_le (by omega)]
    have : b.bps.toNat * 2 ≤ bspf.toNat * (b.bps.toNat * 2) := Nat.le_mul_of_pos_left _ hpos
    omega
  refine ⟨?_, htwo⟩
  have hquot : (bspf.toUInt64 * b.bps.toUInt64 * NPB.toUInt64 / (fat / BPN).toUInt64).toNat
      = bspf.toNat * (b.bps.toNat * 2) / f := by
    rw [UInt64.toNat_div, hmul, UInt32.toNat_toUInt64, hf.size]
  have hle2 : RESFTE.toUInt64
      ≤ bspf.toUInt64 * b.bps.toUInt64 * NPB.toUInt64 / (fat / BPN).toUInt64 := by
    rw [UInt64.le_iff_toNat_le, hquot, UInt32.toNat_toUInt64, hr2]
    exact htwo
  rw [UInt64.toNat_toUInt32, UInt64.toNat_sub_of_le _ _ hle2, hquot, UInt32.toNat_toUInt64, hr2]

end Extent

/-- The sectors in front of the clusters. -/
def Bpb.front (b : Bpb) (rds bspf : UInt32) : ℕ :=
  b.res.toNat + rds.toNat + bspf.toNat * b.nft.toNat

/-- What the sizes come to. -/
structure Sized (b : Bpb) (fat rds : UInt32) (e : Extent) : Prop where
  bspf : 0 < e.bspf.toNat
  given : b.bspf ≠ 0 → e.bspf = b.bspf
  spf : fat ≠ 32 → e.bspf.toNat ≤ 0xffff
  bsec : e.bsec.toNat ≤ b.bsec.toNat
  room : b.front rds e.bspf + e.cls.toNat * b.spc.toNat ≤ e.bsec.toNat
  entries : (e.cls.toNat + 2) * fat.toNat ≤ e.bspf.toNat * b.bps.toNat * 8
  lo : (mincls fat).toNat ≤ e.cls.toNat
  hi : e.cls.toNat ≤ (maxcls fat).toNat
  clusters : e.bspf.toNat * b.bps.toNat * 8 / fat.toNat ≤ 2 ^ 32 →
    e.cls.toNat = min ((e.bsec.toNat - b.front rds e.bspf) / b.spc.toNat)
      (e.bspf.toNat * b.bps.toNat * 8 / fat.toNat - 2)
  computed : b.bspf = 0 → e.bspf.toNat * b.bps.toNat * 8 / fat.toNat ≤ 2 ^ 32 ∧
    (e.bsec.toNat - b.front rds e.bspf) / b.spc.toNat < (maxcls fat).toNat + b.nft.toNat

/-- What `counted` comes to, when `x1` is the first sector behind FATs of this length. -/
structure Counted (b : Bpb) (fat bspf x1 : UInt32) (e : Extent) : Prop where
  length : e.bspf = bspf
  bsec : e.bsec.toNat ≤ b.bsec.toNat
  room : x1.toNat + e.cls.toNat * b.spc.toNat ≤ e.bsec.toNat
  entries : (e.cls.toNat + 2) * fat.toNat ≤ bspf.toNat * b.bps.toNat * 8
  lo : (mincls fat).toNat ≤ e.cls.toNat
  hi : e.cls.toNat ≤ (maxcls fat).toNat
  clusters : bspf.toNat * b.bps.toNat * 8 / fat.toNat ≤ 2 ^ 32 →
    e.cls.toNat = min ((e.bsec.toNat - x1.toNat) / b.spc.toNat)
      (bspf.toNat * b.bps.toNat * 8 / fat.toNat - 2)
  trimmed : (maxcls fat).toNat + 2 < bspf.toNat * b.bps.toNat * 8 / fat.toNat →
    bspf.toNat * b.bps.toNat * 8 / fat.toNat ≤ 2 ^ 32 →
    (e.bsec.toNat - x1.toNat) / b.spc.toNat ≤ (maxcls fat).toNat

section Extent

variable {b : Bpb} {fat rds : UInt32} {f : ℕ}

/-- Bits and nibbles. -/
theorem Nibbles.div_eq (hf : Nibbles fat f) (n m : ℕ) :
    n * m * 8 / fat.toNat = n * (m * 2) / f := by
  rw [hf.bits, show n * m * 8 = n * (m * 2) * 4 by ring, Nat.mul_div_mul_right _ _ (by decide)]

/-- **What is counted is right**: the FATs have an entry for every cluster, and the clusters are
there. -/
theorem counted_spec {bspf x1 : UInt32} {e : Extent} (hr : Ready b fat rds) (hf : Nibbles fat f)
    (hpos : 0 < bspf.toNat) (hx1 : x1.toNat ≤ b.bsec.toNat)
    (h : counted b fat bspf x1 = .ret e) : Counted b fat bspf x1 e := by
  have hspc := hr.spc.le
  have hf3 := hf.three_le
  have hlt : b.bsec.toNat < 2 ^ 32 := b.bsec.toNat_lt
  obtain ⟨hcap, htwo⟩ := capacity_toNat hr hf hpos
  have hsub : (b.bsec - x1).toNat = b.bsec.toNat - x1.toNat := toNat_sub_of_le hx1
  unfold counted at h
  obtain ⟨_, hfew, h⟩ := Exec.bind_eq_ret.mp h
  rw [errx_if_eq_ret] at hfew
  generalize hx : (bspf.toUInt64 * b.bps.toUInt64 * NPB.toUInt64 / (fat / BPN).toUInt64
    - RESFTE.toUInt64).toUInt32 = x at *
  generalize hdef : (if x < (b.bsec - x1) / b.spc then x else (b.bsec - x1) / b.spc) = cls at *
  -- the smaller of the two numbers of clusters
  have hcls : cls.toNat = min ((b.bsec.toNat - x1.toNat) / b.spc.toNat) x.toNat := by
    rw [← hdef]
    split_ifs with hlt
    · rw [UInt32.lt_iff_toNat_lt, UInt32.toNat_div, hsub] at hlt
      exact (Nat.min_eq_right (Nat.le_of_lt hlt)).symm
    · rw [UInt32.lt_iff_toNat_lt, UInt32.toNat_div, hsub] at hlt
      rw [UInt32.toNat_div, hsub]
      exact (Nat.min_eq_left (Nat.le_of_not_lt hlt)).symm
  have hxle : x.toNat + 2 ≤ bspf.toNat * (b.bps.toNat * 2) / f := by
    have := Nat.mod_le (bspf.toNat * (b.bps.toNat * 2) / f - 2) (2 ^ 32)
    omega
  have hentries : ∀ c : ℕ, c ≤ x.toNat →
      (c + 2) * fat.toNat ≤ bspf.toNat * b.bps.toNat * 8 := by
    intro c hc
    have hmul : (c + 2) * f ≤ bspf.toNat * (b.bps.toNat * 2) :=
      (Nat.le_div_iff_mul_le (by omega)).mp (by omega)
    have hring : bspf.toNat * b.bps.toNat * 8 = bspf.toNat * (b.bps.toNat * 2) * 4 := by ring
    rw [hf.bits, hring, ← Nat.mul_assoc]
    exact Nat.mul_le_mul_right 4 hmul
  have hmin : (mincls fat).toNat ≤ cls.toNat := by
    rw [UInt32.lt_iff_toNat_lt] at hfew
    exact Nat.le_of_not_lt hfew
  have hdivmul : (b.bsec.toNat - x1.toNat) / b.spc.toNat * b.spc.toNat
      ≤ b.bsec.toNat - x1.toNat := Nat.div_mul_le_self _ _
  split_ifs at h with htrim
  · -- the clusters that are too many are cut off, and the last sector in front of them
    injection h with h
    rw [← h]
    rw [UInt32.lt_iff_toNat_lt] at htrim
    have hmaxle : (maxcls fat).toNat + 1 ≤ (b.bsec.toNat - x1.toNat) / b.spc.toNat := by omega
    have hprod : ((maxcls fat).toNat + 1) * b.spc.toNat ≤ b.bsec.toNat - x1.toNat :=
      Nat.le_trans (Nat.mul_le_mul_right _ hmaxle) hdivmul
    have hone : (1 : UInt32).toNat = 1 := rfl
    have hm1 : (maxcls fat + 1).toNat = (maxcls fat).toNat + 1 := by
      have := hf.max
      have := Nat.le_mul_of_pos_right ((maxcls fat).toNat + 2) (by omega : 0 < f)
      rw [toNat_add_of_lt (by rw [hone]; omega), hone]
    have hmul : ((maxcls fat + 1) * b.spc).toNat = ((maxcls fat).toNat + 1) * b.spc.toNat := by
      rw [toNat_mul_of_lt (by rw [hm1]; omega), hm1]
    have hsum : (x1 + (maxcls fat + 1) * b.spc).toNat
        = x1.toNat + ((maxcls fat).toNat + 1) * b.spc.toNat := by
      rw [toNat_add_of_lt (by rw [hmul]; omega), hmul]
    have hsucc : ((maxcls fat).toNat + 1) * b.spc.toNat
        = (maxcls fat).toNat * b.spc.toNat + b.spc.toNat := Nat.succ_mul _ _
    have hbsec : (x1 + (maxcls fat + 1) * b.spc - 1).toNat
        = x1.toNat + ((maxcls fat).toNat * b.spc.toNat + (b.spc.toNat - 1)) := by
      rw [toNat_sub_of_le (by rw [hsum, hone]; omega), hsum, hone]
      omega
    have hroom : ((x1 + (maxcls fat + 1) * b.spc - 1).toNat - x1.toNat) / b.spc.toNat
        = (maxcls fat).toNat := by
      rw [hbsec, Nat.add_sub_cancel_left, Nat.mul_comm, Nat.mul_add_div (by omega),
        Nat.div_eq_of_lt (by omega), Nat.add_zero]
    exact {
      length := rfl
      bsec := by
        simp only [hbsec]
        omega
      room := by
        simp only [hbsec]
        omega
      entries := hentries (maxcls fat).toNat (by omega)
      lo := hf.min.2
      hi := Nat.le_refl _
      clusters := fun _ => by
        simp only [hroom, hf.div_eq]
        omega
      trimmed := fun _ _ => by
        simp only [hroom]
        exact Nat.le_refl _ }
  · injection h with h
    rw [← h]
    rw [UInt32.lt_iff_toNat_lt] at htrim
    have hroom : cls.toNat * b.spc.toNat ≤ b.bsec.toNat - x1.toNat :=
      Nat.le_trans (Nat.mul_le_mul_right _ (by omega)) hdivmul
    have hwhole : bspf.toNat * b.bps.toNat * 8 / fat.toNat ≤ 2 ^ 32 →
        x.toNat = bspf.toNat * b.bps.toNat * 8 / fat.toNat - 2 := by
      intro hsmall
      rw [hf.div_eq] at hsmall ⊢
      rw [hcap, Nat.mod_eq_of_lt (by omega)]
    exact {
      length := rfl
      bsec := Nat.le_refl _
      room := by
        simp only
        omega
      entries := hentries cls.toNat (by omega)
      lo := hmin
      hi := Nat.le_of_not_lt htrim
      clusters := fun hsmall => by
        rw [← hwhole hsmall]
        exact hcls
      trimmed := fun hbig hsmall => by
        have := hwhole hsmall
        simp only
        omega }

end Extent

section Extent

variable {b : Bpb} {fat rds : UInt32} {f : ℕ}

/-- What is counted behind sectors that are accounted for. -/
theorem Counted.sized {e : Extent} {bspf x1 : UInt32} (hc : Counted b fat bspf x1 e)
    (hpos : 0 < bspf.toNat) (hx1 : x1.toNat = b.front rds bspf)
    (hgiven : b.bspf ≠ 0 → bspf = b.bspf) (hspf : fat ≠ 32 → bspf.toNat ≤ 0xffff)
    (hcomp : b.bspf = 0 → bspf.toNat * b.bps.toNat * 8 / fat.toNat ≤ 2 ^ 32 ∧
      (e.bsec.toNat - x1.toNat) / b.spc.toNat < (maxcls fat).toNat + b.nft.toNat) :
    Sized b fat rds e := by
  obtain ⟨rfl, hbsec, hroom, hentries, hlo, hhi, hclusters, -⟩ := hc
  rw [hx1] at hroom hclusters hcomp
  exact ⟨hpos, hgiven, hspf, hbsec, hroom, hentries, hlo, hhi, hclusters, hcomp⟩

/-- The length that is computed, and what is true of it. -/
theorem computed_length (hr : Ready b fat rds) (hf : Nibbles fat f) {x1 x : UInt32}
    (hx : x.toNat = (b.bsec.toNat - x1.toNat) * (b.bps.toNat * 2)
      / (b.spc.toNat * (b.bps.toNat * 2) + f * b.nft.toNat)) {q : ℕ}
    (hq : q = (2 + min x.toNat (maxcls fat).toNat) * f ⌈/⌉ (b.bps.toNat * 2)) :
    0 < q ∧ (q - 1) * b.nft.toNat ≤ b.bsec.toNat - x1.toNat ∧
      (fat ≠ 32 → q ≤ 0xffff) ∧ q * (b.bps.toNat * 2) / f ≤ 2 ^ 32 := by
  have hbps := hr.bps.le
  have hspc := hr.spc.le
  have hnft := hr.nft
  have hf3 := hf.three_le
  have hf8 := hf.le_eight
  have hM : 0 < b.bps.toNat * 2 := by omega
  have hm : min x.toNat (maxcls fat).toNat ≤ (maxcls fat).toNat := Nat.min_le_right _ _
  have hle : (2 + min x.toNat (maxcls fat).toNat) * f ≤ (2 + (maxcls fat).toNat) * f :=
    Nat.mul_le_mul_right f (by omega)
  refine ⟨?_, ?_, fun h32 => ?_, ?_⟩
  · rw [hq, Nat.pos_iff_ne_zero]
    intro h0
    have := (ceilDiv_le_iff_le_mul hM).mp (Nat.le_of_eq h0)
    rw [Nat.mul_zero] at this
    have := Nat.mul_pos (by omega : 0 < 2 + min x.toNat (maxcls fat).toNat) (by omega : 0 < f)
    omega
  -- The estimate times the size of a cluster and its share of the FATs fits the sectors left.
  · have hest : x.toNat * (b.spc.toNat * (b.bps.toNat * 2) + f * b.nft.toNat)
        ≤ (b.bsec.toNat - x1.toNat) * (b.bps.toNat * 2) := by
      rw [hx]
      exact Nat.div_mul_le_self _ _
    have htwo : b.nft.toNat * (2 * f) ≤ b.spc.toNat * (b.bps.toNat * 2) := by
      have hnf : b.nft.toNat * (2 * f) ≤ 16 * 16 := Nat.mul_le_mul hnft.2 (by omega)
      have hsm := Nat.le_mul_of_pos_left (b.bps.toNat * 2) (by omega : 0 < b.spc.toNat)
      omega
    rw [hq]
    exact Fat.fats_leave_room hM hest (Nat.min_le_left _ _) (by omega) htwo
  -- For FAT12 and FAT16 there are few enough entries for a length of 16 bits.
  · rw [hq, ceilDiv_le_iff_le_mul hM]
    have hsmall := hf.small h32
    have : 1024 * 0xffff ≤ b.bps.toNat * 2 * 0xffff := Nat.mul_le_mul_right _ (by omega)
    omega
  · have hmul : q * (b.bps.toNat * 2)
        ≤ (2 + min x.toNat (maxcls fat).toNat) * f + b.bps.toNat * 2 - 1 := by
      rw [hq, Nat.ceilDiv_eq_add_pred_div]
      exact Nat.div_mul_le_self _ _
    have hmax := hf.max
    apply Nat.div_le_of_le_mul
    rw [Nat.add_comm] at hmax
    omega

/-- With that length there is not room for many more clusters than there can be. -/
theorem computed_room (hr : Ready b fat rds) (hf : Nibbles fat f) {X1 x x1 x2 : UInt32}
    {e : Extent}
    (hx : x.toNat = (b.bsec.toNat - X1.toNat) * (b.bps.toNat * 2)
      / (b.spc.toNat * (b.bps.toNat * 2) + f * b.nft.toNat))
    (hq : x2.toNat = (2 + min x.toNat (maxcls fat).toNat) * f ⌈/⌉ (b.bps.toNat * 2))
    (hx1 : x1.toNat = X1.toNat + (x2.toNat - 1) * b.nft.toNat)
    (hc : Counted b fat x2 x1 e) :
    (e.bsec.toNat - x1.toNat) / b.spc.toNat < (maxcls fat).toNat + b.nft.toNat := by
  have hnft := hr.nft
  have hspc := hr.spc.le
  have hbps := hr.bps.le
  have hf3 := hf.three_le
  obtain ⟨hpos, -, -, hcap⟩ := computed_length hr hf hx hq
  by_cases hmax : x.toNat < (maxcls fat).toNat
  · -- no more than were estimated, and one for each FAT
    have hmono : (e.bsec.toNat - x1.toNat) / b.spc.toNat
        ≤ (b.bsec.toNat - X1.toNat - (x2.toNat - 1) * b.nft.toNat) / b.spc.toNat := by
      apply Nat.div_le_div_right
      have := hc.bsec
      omega
    have hdpos : 0 < b.spc.toNat * (b.bps.toNat * 2) + f * b.nft.toNat :=
      Nat.add_pos_right _ (Nat.mul_pos (by omega) (by omega))
    have hdiv : (b.bsec.toNat - X1.toNat) * (b.bps.toNat * 2)
        < (x.toNat + 1) * (b.spc.toNat * (b.bps.toNat * 2) + f * b.nft.toNat) := by
      rw [hx, Nat.mul_comm (_ + 1)]
      exact Nat.lt_mul_div_succ _ hdpos
    have hfit : (2 + x.toNat) * f ≤ b.bps.toNat * 2 * x2.toNat := by
      rw [Nat.min_eq_left (Nat.le_of_lt hmax)] at hq
      exact (ceilDiv_le_iff_le_mul (by omega)).mp (Nat.le_of_eq hq.symm)
    have hroom := Fat.room_le hspc.1 hdiv hfit hpos
    omega
  · have hspare := hf.slack b.bps.toNat hr.bps
    rw [Nat.min_eq_right (Nat.le_of_not_lt hmax)] at hq
    rw [← hq, ← hf.div_eq] at hspare
    rw [← hf.div_eq] at hcap
    have htrim := hc.trimmed hspare hcap
    omega

/-- If nobody has said how long the FATs are: `X1` counts one sector for each. -/
theorem sized_computed (hr : Ready b fat rds) (hf : Nibbles fat f) {X1 x x2 : UInt32}
    {e : Extent} (hb : b.bspf = 0)
    (hX1 : X1.toNat = b.res.toNat + rds.toNat + b.nft.toNat) (hle : X1.toNat ≤ b.bsec.toNat)
    (hx : x.toNat = (b.bsec.toNat - X1.toNat) * (b.bps.toNat * 2)
      / (b.spc.toNat * (b.bps.toNat * 2) + f * b.nft.toNat))
    (hq : x2.toNat = (2 + min x.toNat (maxcls fat).toNat) * f ⌈/⌉ (b.bps.toNat * 2))
    (h : counted b fat x2 (X1 + (x2 - 1) * b.nft) = .ret e) : Sized b fat rds e := by
  have hone : (1 : UInt32).toNat = 1 := rfl
  have hlt : b.bsec.toNat < 2 ^ 32 := b.bsec.toNat_lt
  obtain ⟨hpos, hroom, hspf, hcap⟩ := computed_length hr hf hx hq
  have hsub : (x2 - 1).toNat = x2.toNat - 1 := by
    rw [toNat_sub_of_le (by rw [hone]; exact hpos), hone]
  have hmul : ((x2 - 1) * b.nft).toNat = (x2.toNat - 1) * b.nft.toNat := by
    rw [toNat_mul_of_lt (by rw [hsub]; omega), hsub]
  have hsum : (X1 + (x2 - 1) * b.nft).toNat = X1.toNat + (x2.toNat - 1) * b.nft.toNat := by
    rw [toNat_add_of_lt (by rw [hmul]; omega), hmul]
  have hfront : (X1 + (x2 - 1) * b.nft).toNat = b.front rds x2 := by
    have hnft := Nat.le_mul_of_pos_left b.nft.toNat hpos
    rw [hsum, hX1, Bpb.front, Nat.sub_mul, Nat.one_mul]
    omega
  have hc := counted_spec hr hf hpos (by omega) h
  refine hc.sized hpos hfront (fun hne => absurd hb hne) hspf fun _ => ⟨?_, ?_⟩
  · rw [hf.div_eq]
    exact hcap
  · exact computed_room hr hf hx hq hsum hc

/-- The same for the whole of `extent`, whether or not the length of a FAT was given. -/
theorem extent_sized {e : Extent} (hr : Ready b fat rds) (h : extent b fat rds = .ret e) :
    Sized b fat rds e := by
  obtain ⟨f, hf⟩ := exists_nibbles hr.kind
  unfold extent at h
  obtain ⟨_, hlarge, h⟩ := Exec.bind_eq_ret.mp h
  obtain ⟨_, hmeta, h⟩ := Exec.bind_eq_ret.mp h
  rw [errx_if_eq_ret] at hlarge hmeta
  obtain ⟨hx1, hle⟩ := x1_toNat hr hmeta
  -- The length is computed when none was given, and else only checked.
  split_ifs at h with hbspf
  · have hgiven : (given b.bspf 1).toNat = 1 := by
      rw [toNat_given, hbspf]
      rfl
    rw [hgiven, Nat.one_mul] at hx1 hle
    have hX1 : (b.res + rds + given b.bspf 1 * b.nft).toNat ≤ b.bsec.toNat := by
      rw [hx1]
      exact hle
    exact sized_computed hr hf hbspf hx1 hX1 (estimate_toNat hr hf hX1) (x2_toNat hr hf) h
  · have hgiven : given b.bspf 1 = b.bspf := if_pos hbspf
    rw [hgiven] at hx1 hle h
    have hpos : 0 < b.bspf.toNat := Nat.pos_of_ne_zero (toNat_ne_zero.mp hbspf)
    have hX1 : (b.res + rds + b.bspf * b.nft).toNat ≤ b.bsec.toNat := by
      rw [hx1]
      exact hle
    refine (counted_spec hr hf hpos hX1 h).sized hpos hx1 (fun _ => rfl) ?_
      fun h0 => absurd h0 hbspf
    intro h32
    by_contra hlt
    exact hlarge ⟨h32, UInt32.lt_iff_toNat_lt.mpr (Nat.lt_of_not_le hlt)⟩

end Extent

/-! ## All of it -/

/-- The sectors of the file system, wherever they are. -/
def Bpb.total (b : Bpb) : ℕ := if b.sec.toNat ≠ 0 then b.sec.toNat else b.bsec.toNat

/-- And those of a FAT. -/
def Bpb.fat_sectors (b : Bpb) : ℕ := if b.spf.toNat ≠ 0 then b.spf.toNat else b.bspf.toNat

/-- The first sector behind the FATs. -/
def Layout.dir (l : Layout) : ℕ := l.bpb.res.toNat + l.bpb.fat_sectors * l.bpb.nft.toNat

/-- And the first one behind the root directory of a FAT12 or FAT16 file system. -/
def Layout.data (l : Layout) : ℕ := l.dir + l.rds.toNat

/-- A sector that is reserved for something, or 0xffff for none. -/
def InReserve (l : Layout) (s : UInt32) : Prop :=
  1 ≤ s.toNat ∧ (s.toNat = 0xffff ∨ s.toNat < l.bpb.res.toNat)

/-- **The parameters make sense**, and each of them fits its field. -/
structure Layout.Sound (l : Layout) : Prop where
  kind : l.fat = 12 ∨ l.fat = 16 ∨ l.fat = 32
  bps : SectorPower l.bpb.bps.toNat
  spc : ClusterPower l.bpb.spc.toNat
  bss : 1 ≤ l.bss.toNat ∧ l.bss.toNat ≤ l.bpb.res.toNat
  res : l.bpb.res.toNat ≤ 0xffff
  nft : 1 ≤ l.bpb.nft.toNat ∧ l.bpb.nft.toNat ≤ 16
  rde : l.bpb.rde.toNat ≤ 0xffff
  root : l.bpb.rde.toNat = 0 ↔ l.fat = 32
  rds : l.rds.toNat = l.bpb.rde.toNat * 32 ⌈/⌉ l.bpb.bps.toNat
  mid : 0xf0 ≤ l.bpb.mid.toNat ∧ l.bpb.mid.toNat ≤ 0xff
  spt : l.bpb.spt.toNat ≤ 0xffff
  hds : l.bpb.hds.toNat ≤ 0xffff
  spf : l.bpb.spf.toNat ≤ 0xffff
  spf32 : l.bpb.spf.toNat = 0 ↔ l.fat = 32
  fats : 0 < l.bpb.fat_sectors
  room : l.data + l.cls.toNat * l.bpb.spc.toNat ≤ l.bpb.total
  entries : (l.cls.toNat + 2) * l.fat.toNat ≤ l.bpb.fat_sectors * l.bpb.bps.toNat * 8
  lo : (mincls l.fat).toNat ≤ l.cls.toNat
  hi : l.cls.toNat ≤ (maxcls l.fat).toNat
  clusters : l.bpb.fat_sectors * l.bpb.bps.toNat * 8 / l.fat.toNat ≤ 2 ^ 32 →
    l.cls.toNat = min ((l.bpb.total - l.data) / l.bpb.spc.toNat)
      (l.bpb.fat_sectors * l.bpb.bps.toNat * 8 / l.fat.toNat - 2)
  sec : l.bpb.sec.toNat = 0 ∨
    l.bpb.bsec.toNat = 0 ∧ (l.bpb.hid.toNat + l.bpb.sec.toNat) % 2 ^ 32 ≤ 0xffff
  rdcl : l.fat = 32 → l.bpb.rdcl.toNat = 2
  infs : l.fat = 32 → InReserve l l.bpb.infs
  bkbs : l.fat = 32 → InReserve l l.bpb.bkbs
  apart : l.fat = 32 → l.bpb.infs.toNat = l.bpb.bkbs.toNat → l.bpb.infs.toNat = 0xffff

section Finished

variable {b : Bpb} (fat : UInt32)

/-- The sectors of the block that is written are those that were computed. -/
theorem finished_total (hsec : b.sec = 0) : (finished b fat).total = b.bsec.toNat := by
  have hzero : (0 : UInt32).toNat = 0 := rfl
  unfold finished Bpb.total
  simp only [hsec]
  by_cases hsmall : b.hid + b.bsec ≤ MAXU16
  · rw [if_pos hsmall, if_pos hsmall]
    split_ifs with hb
    · rfl
    · rw [hzero]
      exact (not_not.mp hb).symm
  · rw [if_neg hsmall, if_neg hsmall, if_neg (not_not.mpr hzero)]

/-- So are those of a FAT. -/
theorem finished_fat_sectors (hspf : b.spf = 0) :
    (finished b fat).fat_sectors = b.bspf.toNat := by
  have hzero : (0 : UInt32).toNat = 0 := rfl
  unfold finished Bpb.fat_sectors
  simp only [hspf]
  by_cases h32 : fat ≠ 32
  · rw [if_pos h32, if_pos h32]
    split_ifs with hb
    · rfl
    · rw [hzero]
      exact (not_not.mp hb).symm
  · rw [if_neg h32, if_neg h32, if_neg (not_not.mpr hzero)]

/-- The 16-bit field has the number of sectors, or 0 where they or the hidden ones are too many. -/
theorem finished_sec (hsec : b.sec = 0) : (finished b fat).sec.toNat = 0 ∨
    (finished b fat).bsec.toNat = 0 ∧
      ((finished b fat).hid.toNat + (finished b fat).sec.toNat) % 2 ^ 32 ≤ 0xffff := by
  unfold finished
  simp only [hsec]
  by_cases hsmall : b.hid + b.bsec ≤ MAXU16
  · rw [if_pos hsmall, if_pos hsmall]
    refine .inr ⟨rfl, ?_⟩
    rw [UInt32.le_iff_toNat_le, UInt32.toNat_add] at hsmall
    exact hsmall
  · rw [if_neg hsmall]
    exact .inl rfl

/-- The length of a FAT stands in the field its kind says. -/
theorem finished_spf {e : Extent} {rds : UInt32} (hspf : b.spf = 0)
    (he : Sized b fat rds e) (cls : UInt32) :
    (finished { b with bspf := e.bspf, bsec := cls } fat).spf.toNat ≤ 0xffff ∧
      ((finished { b with bspf := e.bspf, bsec := cls } fat).spf.toNat = 0 ↔ fat = 32) := by
  unfold finished
  simp only [hspf]
  by_cases h32 : fat = 32
  · rw [if_neg (not_not.mpr h32)]
    exact ⟨by decide, fun _ => h32, fun _ => rfl⟩
  · rw [if_pos h32]
    exact ⟨he.spf h32, fun h0 => absurd h0 (Nat.ne_of_gt he.bspf), fun h => absurd h h32⟩

/-- The media descriptor is one of the sixteen there are. -/
theorem finished_mid (hmid : b.mid.toNat = 0 ∨ 0xf0 ≤ b.mid.toNat ∧ b.mid.toNat ≤ 0xff) :
    0xf0 ≤ (finished b fat).mid.toNat ∧ (finished b fat).mid.toNat ≤ 0xff := by
  have hf0 : (0xf0 : UInt32).toNat = 0xf0 := rfl
  have hf8 : (0xf8 : UInt32).toNat = 0xf8 := rfl
  simp only [finished, toNat_given]
  split_ifs <;> omega

end Finished

/-- What is written by sizes that are right and numbers that are in range. -/
theorem finished_sound {b : Bpb} {fat bss rds x : UInt32} {e : Extent} (hb : b.InRange)
    (hr : Ready b fat rds) (hbss : 1 ≤ bss.toNat ∧ bss.toNat ≤ b.res.toNat)
    (hx : x.toNat ≤ b.res.toNat) (hrde : b.rde.toNat = 0 ↔ fat = 32)
    (hrds : rds.toNat = b.rde.toNat * 32 ⌈/⌉ b.bps.toNat) (he : Sized b fat rds e)
    (hinfs : fat = 32 → 1 ≤ b.infs.toNat ∧ (b.infs.toNat = 0xffff ∨ b.infs.toNat < x.toNat))
    (hbkbs : fat = 32 → 1 ≤ b.bkbs.toNat ∧ (b.bkbs.toNat = 0xffff ∨ b.bkbs.toNat < x.toNat))
    (hapart : fat = 32 → b.infs.toNat = b.bkbs.toNat → b.infs.toNat = 0xffff) :
    Layout.Sound
      ⟨finished { b with bspf := e.bspf, bsec := e.bsec } fat, fat, bss, rds, e.cls⟩ := by
  -- What a reader takes from the finished block, in terms of the computed sizes.
  have htotal : (finished { b with bspf := e.bspf, bsec := e.bsec } fat).total = e.bsec.toNat :=
    finished_total fat hb.sec
  have hfat : (finished { b with bspf := e.bspf, bsec := e.bsec } fat).fat_sectors
      = e.bspf.toNat := finished_fat_sectors fat hb.spf
  have hspf := finished_spf fat hb.spf he e.bsec
  have hdata : Layout.data
      ⟨finished { b with bspf := e.bspf, bsec := e.bsec } fat, fat, bss, rds, e.cls⟩
      = b.front rds e.bspf := by
    unfold Layout.data Layout.dir Bpb.front
    rw [hfat]
    exact Nat.add_right_comm _ _ _
  exact {
    kind := hr.kind
    bps := hr.bps
    spc := hr.spc
    bss := hbss
    res := hb.res
    nft := hr.nft
    rde := hb.rde
    root := hrde
    rds := hrds
    mid := finished_mid (b := { b with bspf := e.bspf, bsec := e.bsec }) fat hb.mid
    spt := hb.spt
    hds := hb.hds
    spf := hspf.1
    spf32 := hspf.2
    fats := hfat ▸ he.bspf
    room := by
      rw [hdata, htotal]
      exact he.room
    entries := by
      rw [hfat]
      exact he.entries
    lo := he.lo
    hi := he.hi
    clusters := by
      rw [hfat, hdata, htotal]
      exact he.clusters
    sec := finished_sec (b := { b with bspf := e.bspf, bsec := e.bsec }) fat hb.sec
    rdcl := fun h32 => by
      simp only [finished, if_pos h32]
      rfl
    infs := fun h32 => ⟨(hinfs h32).1, (hinfs h32).2.imp_right fun h => Nat.lt_of_lt_of_le h hx⟩
    bkbs := fun h32 => ⟨(hbkbs h32).1, (hbkbs h32).2.imp_right fun h => Nat.lt_of_lt_of_le h hx⟩
    apart := hapart }

/-- **The parameters are sound**, given that the block they are computed from fits its fields. -/
theorem laid_out_sound {o : Opts} {boot : BootFile} {b : Bpb} {l : Layout} (ho : o.Ranged)
    (hb : b.InRange) (hbps : SectorPower b.bps.toNat) (hroot : NoRoot o b)
    (h : laid_out o boot b = .ret l) : l.Sound := by
  unfold laid_out at h
  obtain ⟨bss, hbss, h⟩ := Exec.bind_eq_ret.mp h
  obtain ⟨⟨b', x⟩, hinfo, h⟩ := Exec.bind_eq_ret.mp h
  obtain ⟨res, hres, h⟩ := Exec.bind_eq_ret.mp h
  obtain ⟨spc, hspc, h⟩ := Exec.bind_eq_ret.mp h
  obtain ⟨e, he, h⟩ := Exec.bind_eq_ret.mp h
  injection h with h
  rw [← h]
  have hrange := boot_sectors_range hbps hbss
  -- The block is filled in step by step, and each step keeps every field in its range.
  have hkind := kind_of ho hroot bss (given b.nft 2)
  generalize given (fat_given o) (fat_chosen { b with nft := given b.nft 2 } bss) = fat at *
  have hnft : 1 ≤ (given b.nft 2).toNat ∧ (given b.nft 2).toNat ≤ 16 := by
    have h2 : (2 : UInt32).toNat = 2 := rfl
    have hnft16 := hb.nft
    rw [toNat_given]
    split_ifs <;> omega
  have hb₁ : ({ b with nft := given b.nft 2 } : Bpb).InRange := { hb with nft := hnft.2 }
  have hplaced := info_sectors_placed hb₁ hrange hinfo
  have hb' := hplaced.inRange hb₁
  obtain ⟨hsame, -, -, hbssx, hx, hinfs, hbkbs, hapart⟩ := hplaced
  have hresrange := reserved_range hb'.res hx hres
  generalize b'.infs = infs at *
  generalize b'.bkbs = bkbs at *
  subst hsame
  have hrde := hkind.rde hb.rde
  simp only at he hspc ⊢
  generalize (if fat ≠ 32 then given b.rde DEFRDE else b.rde) = rde at *
  have hrds : (howmany64 rde.toUInt64 (b.bps.toUInt64 / 32)).toUInt32.toNat
      = rde.toNat * 32 ⌈/⌉ b.bps.toNat := rds_toNat hbps
  have hb₂ : ({ b with
      nft := given b.nft 2
      infs := infs
      bkbs := bkbs
      res := res
      rde := rde } : Bpb).InRange := { hb' with res := hresrange.2, rde := hrde.1 }
  generalize hrds' : (howmany64 rde.toUInt64 (b.bps.toUInt64 / 32)).toUInt32 = rds at *
  -- Computing the size of a cluster always ends, at a power of two of at most 128 sectors.
  obtain ⟨spc', hspc', hpow⟩ : ∃ spc, spc_computed _ fat rds = .ret spc ∧ ClusterPower spc.toNat :=
    spc_computed_ends hb₂ hbps
  rw [hspc, Exec.ret.injEq] at hspc'
  subst hspc'
  have hb₃ : ({ b with
      nft := given b.nft 2
      infs := infs
      bkbs := bkbs
      res := res
      rde := rde
      spc := spc } : Bpb).InRange := { hb₂ with spc := .inr hpow }
  have hrdsle : rds.toNat ≤ 0xffff := by
    have hle := hbps.le
    rw [hrds, ceilDiv_le_iff_le_mul (by omega)]
    omega
  have hr : Ready { b with
      nft := given b.nft 2
      infs := infs
      bkbs := bkbs
      res := res
      rde := rde
      spc := spc } fat rds := ⟨hbps, hpow, hresrange.2, hnft, hrdsle, hkind.cases⟩
  exact finished_sound hb₃ hr ⟨hrange.1, Nat.le_trans hbssx hresrange.1⟩ hresrange.1 hrde.2 hrds
    (extent_sized hr he) hinfs hbkbs hapart

/-! ## It ends -/

@[simp] theorem errx_if_ended {c : Prop} [Decidable c] {e : Refusal} : (errx_if c e).Ended := by
  unfold errx_if
  split_ifs
  · exact Exec.ended_die e
  · exact Exec.ended_ret ()

section Ended

variable {o : Opts} {fname : CStr} {geo : Geometry} {boot : BootFile} {b : Bpb}
  {fat bss rds : UInt32}

theorem format_given_ended (o : Opts) : (format_given o).Ended := by
  unfold format_given
  cases o.opt_f with
  | none => exact Exec.ended_ret _
  | some fmt =>
    refine Exec.Ended.bind ?_ fun _ _ => Exec.ended_ret _
    unfold getstdfmt
    cases stdfmt.lookup fmt with
    | none => exact Exec.ended_die _
    | some bpb => exact Exec.ended_ret bpb

theorem ckgeom_ended (fname : CStr) (val : UInt32) (msg : String) :
    (ckgeom fname val msg).Ended :=
  errx_if_ended.bind fun _ _ => errx_if_ended

theorem getdiskinfo_ended : (getdiskinfo fname geo b).Ended := by
  unfold getdiskinfo
  cases geo.BLKSSZGET with
  | none => exact Exec.ended_die _
  | some bps =>
    refine (ckgeom_ended _ _ _).bind fun _ _ => ?_
    cases geo.BLKGETSIZE with
    | none => exact Exec.ended_die _
    | some size =>
      exact (ckgeom_ended _ _ _).bind fun _ _ =>
        (ckgeom_ended _ _ _).bind fun _ _ => Exec.ended_ret _

theorem disk_asked_ended : (disk_asked o fname geo b).Ended := by
  unfold disk_asked
  split_ifs
  · exact Exec.ended_ret b
  · exact getdiskinfo_ended.bind fun _ _ => Exec.ended_ret _

theorem checked_ended : (checked o b).Ended := by
  unfold checked spc_given
  refine errx_if_ended.bind fun _ _ => errx_if_ended.bind fun _ _ =>
    errx_if_ended.bind fun _ _ => Exec.Ended.bind ?_ fun _ _ => errx_if_ended.bind fun _ _ =>
    errx_if_ended.bind fun _ _ => Exec.ended_ret _
  exact errx_if_ended.bind fun _ _ => errx_if_ended.bind fun _ _ =>
    errx_if_ended.bind fun _ _ => errx_if_ended.bind fun _ _ => Exec.ended_ret _

theorem boot_sectors_ended {bps : UInt32} : (boot_sectors o boot bps).Ended := by
  unfold boot_sectors
  cases o.opt_B with
  | none => exact Exec.ended_ret 1
  | some opt_B =>
    cases boot with
    | missing => exact Exec.ended_die _
    | irregular => exact Exec.ended_die _
    | regular contents => exact errx_if_ended.bind fun _ _ => Exec.ended_ret _

theorem info_sectors_ended : (info_sectors b fat bss).Ended := by
  unfold info_sectors
  split_ifs
  · exact errx_if_ended.bind fun _ _ => errx_if_ended.bind fun _ _ =>
      errx_if_ended.bind fun _ _ => Exec.ended_ret _
  · exact Exec.ended_ret _

theorem counted_ended {bspf x1 : UInt32} : (counted b fat bspf x1).Ended := by
  unfold counted
  refine errx_if_ended.bind fun _ _ => ?_
  split_ifs <;> exact Exec.ended_ret _

theorem extent_ended : (extent b fat rds).Ended := by
  unfold extent
  refine errx_if_ended.bind fun _ _ => errx_if_ended.bind fun _ _ => ?_
  split_ifs <;> exact counted_ended

/-- What is left is the loop that doubles the sectors per cluster: it is over after eight rounds,
since it starts with a power of two. -/
theorem laid_out_ended (hb : b.InRange) (hbps : SectorPower b.bps.toNat) :
    (laid_out o boot b).Ended := by
  unfold laid_out
  refine boot_sectors_ended.bind fun bss hbss => info_sectors_ended.bind fun r hr =>
    Exec.Ended.bind (errx_if_ended.bind fun _ _ => Exec.ended_ret _) fun res hres => ?_
  have hb₁ : ({ b with nft := given b.nft 2 } : Bpb).InRange :=
    { hb with nft := given_le hb.nft (by decide) }
  have hplaced := info_sectors_placed hb₁ (boot_sectors_range hbps hbss) hr
  have hresle := (reserved_range (hplaced.inRange hb₁).res hplaced.x_le hres).2
  generalize given (fat_given o) (fat_chosen { b with nft := given b.nft 2 } bss) = fat at *
  obtain ⟨b', x⟩ := r
  have hb' := hplaced.inRange hb₁
  have hbps' : SectorPower b'.bps.toNat := by
    have hsame : b'.bps = b.bps := (congrArg Bpb.bps hplaced.same :)
    rw [hsame]
    exact hbps
  simp only
  generalize hrde' : (if fat ≠ 32 then given b'.rde DEFRDE else b'.rde) = rde
  have hrde : rde.toNat ≤ 0xffff := by
    rw [← hrde']
    split_ifs
    · exact given_le hb'.rde (by decide)
    · exact hb'.rde
  have hb₂ : ({ b' with res := res, rde := rde } : Bpb).InRange :=
    { hb' with res := hresle, rde := hrde }
  generalize (howmany64 rde.toUInt64 (b'.bps.toUInt64 / 32)).toUInt32 = rds
  obtain ⟨spc, hspc, -⟩ : ∃ spc, spc_computed { b' with res := res, rde := rde } fat rds
      = .ret spc ∧ ClusterPower spc.toNat := spc_computed_ends hb₂ hbps'
  rw [hspc]
  exact extent_ended.bind fun _ _ => Exec.ended_ret _

theorem layout_ended (ho : o.Ranged) (fname : CStr) (geo : Geometry) (boot : BootFile) :
    (newfs_msdos_layout o fname geo boot).Ended := by
  unfold newfs_msdos_layout
  refine (format_given_ended o).bind fun b hformat => disk_asked_ended.bind fun b' hasked =>
    checked_ended.bind fun b'' hchecked => ?_
  have hb := ((format_given_inRange hformat).disk_given ho).disk_asked hasked
  obtain ⟨hrange, hbps⟩ := hb.checked ho hchecked
  exact laid_out_ended hrange hbps

end Ended

/-- **The parameters are sound**, whatever the arguments, the device and the bootstrap are. -/
theorem layout_sound {o : Opts} {fname : CStr} {geo : Geometry} {boot : BootFile} {l : Layout}
    (ho : o.Ranged) (h : newfs_msdos_layout o fname geo boot = .ret l) : l.Sound := by
  unfold newfs_msdos_layout at h
  obtain ⟨b, hformat, h⟩ := Exec.bind_eq_ret.mp h
  obtain ⟨b', hasked, h⟩ := Exec.bind_eq_ret.mp h
  obtain ⟨b'', hchecked, h⟩ := Exec.bind_eq_ret.mp h
  have hb := ((format_given_inRange hformat).disk_given ho).disk_asked hasked
  obtain ⟨hrange, hbps⟩ := hb.checked ho hchecked
  have hrde : o.opt_f = none → b'.rde = 0 := fun hf => by
    have hdisk : (disk_given o b).rde = b.rde := rfl
    rw [disk_asked_rde hasked, hdisk]
    exact format_given_rde hformat hf
  exact laid_out_sound ho hrange hbps (checked_noRoot hrde hchecked) h

end NewfsMsdos

end Iago
