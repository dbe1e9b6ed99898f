/-
What `newfs_msdos_main` writes is an empty FAT file system.

A driver that mounts what is on the disk then finds the parameters that were computed
(`params_filled`), the kind of FAT that was meant, and as many clusters as were counted. In it
every FAT has its two first entries, no cluster is in use but that of a FAT32 root directory, and
the root directory holds the label and nothing else (`Fat.Fresh`).

That takes three things. The number of sectors must not wrap together with the hidden ones,
or else a large number is cut off to 16 bits. A FAT12 file system must not have room for so many
clusters that it is taken for FAT16. And the backup of the info sector, and of a bootstrap, which
come as far behind the backup of the boot sector as they are behind the first one, must still be in
the reserve (`Clear`): nothing checks that, and behind the reserve there are the FATs.
-/
import Iago.FatWritten

set_option autoImplicit false

namespace Iago

namespace NewfsMsdos

/-! ## The parameters -/

/-- The kind of FAT. -/
def fat_kind (fat : UInt32) : Fat.Kind :=
  if fat = 32 then .fat32 else if fat = 16 then .fat16 else .fat12

/-- A kind is called by the bits of its entries. -/
theorem fat_kind_bits {fat : UInt32} (h : fat = 12 ∨ fat = 16 ∨ fat = 32) :
    (fat_kind fat).bits = fat.toNat := by
  rcases h with rfl | rfl | rfl <;> rfl

/-- 32 stands for FAT32 and nothing else does. -/
theorem fat_kind_eq_fat32 {fat : UInt32} : fat_kind fat = .fat32 ↔ fat = 32 := by
  unfold fat_kind
  by_cases h32 : fat = 32
  · exact iff_of_true (if_pos h32) h32
  · rw [if_neg h32]
    refine iff_of_false ?_ h32
    split_ifs
    · decide
    · decide

/-- The parameters as a driver has them. -/
def Layout.params (l : Layout) : Fat.Params where
  bps := l.bpb.bps.toNat
  spc := l.bpb.spc.toNat
  res := l.bpb.res.toNat
  nft := l.bpb.nft.toNat
  rde := l.bpb.rde.toNat
  sec := l.bpb.sec.toNat
  mid := l.bpb.mid.toNat
  spf := l.bpb.spf.toNat
  spt := l.bpb.spt.toNat
  hds := l.bpb.hds.toNat
  hid := l.bpb.hid.toNat
  bsec := l.bpb.bsec.toNat
  bspf := if l.fat = 32 then l.bpb.bspf.toNat else 0
  rdcl := if l.fat = 32 then l.bpb.rdcl.toNat else 0
  infs := if l.fat = 32 then l.bpb.infs.toNat else 0
  bkbs := if l.fat = 32 then l.bpb.bkbs.toNat else 0

/-- The hidden sectors and those of the file system are counted in 32 bits. -/
def Layout.NoWrap (l : Layout) : Prop := l.bpb.hid.toNat + l.bpb.total < 2 ^ 32

section Params

variable {o : Opts} {t : Clock} {l : Layout} {img : List UInt8}

/-- The parameters are what is in the boot sector where they are looked for. -/
theorem slice_bsbpb (himg : 512 ≤ img.length) :
    slice (splices img (boot_parts o t l)) 11 25 = bsbpb l.bpb := by
  have hoff := bsx_offset_cases l.fat
  rw [← length_bsbpb l.bpb]
  have hparts : boot_parts o t l = [] ++ (11, bsbpb l.bpb) :: (boot_parts o t l).drop 1 := rfl
  refine slice_splices_of_mem hparts (fun p hp => Nat.le_trans (boot_parts_le p hp) himg)
    fun p hp => ?_
  simp only [boot_parts, List.length_nil, List.cons_append, List.drop_succ_cons, List.drop_zero,
    List.mem_append, List.mem_cons] at hp
  rw [length_bsbpb]
  rcases hp with hp | rfl | hp
  · split_ifs at hp
    · rw [List.mem_singleton.mp hp]
      exact .inl (Nat.le_refl 36)
    · cases hp
  · simp only
    omega
  · split_ifs at hp
    · cases hp
    · simp only [List.mem_cons, List.not_mem_nil, or_false] at hp
      rcases hp with rfl | rfl | rfl
      · exact .inr (by rw [length_bs])
      · exact .inl (by simp only; omega)
      · exact .inl (by decide)

theorem slice_bsxbpb (himg : 512 ≤ img.length) (h32 : l.fat = 32) :
    slice (splices img (boot_parts o t l)) 36 16 = bsxbpb l.bpb := by
  have hoff : bsx_offset l.fat = 64 := if_pos h32
  have hparts : boot_parts o t l = [(11, bsbpb l.bpb)] ++ (36, bsxbpb l.bpb) ::
      (boot_parts o t l).drop 2 := by
    simp only [boot_parts, if_pos h32]
    rfl
  rw [← length_bsxbpb l.bpb]
  refine slice_splices_of_mem hparts (fun p hp => Nat.le_trans (boot_parts_le p hp) himg)
    fun p hp => ?_
  simp only [boot_parts, if_pos h32, List.length_cons, List.length_nil, List.cons_append,
    List.nil_append, List.drop_succ_cons, List.drop_zero, List.mem_cons] at hp
  rw [length_bsxbpb]
  rcases hp with rfl | hp
  · exact .inl (by simp only [hoff]; omega)
  · split_ifs at hp
    · cases hp
    · simp only [List.mem_cons, List.not_mem_nil, or_false] at hp
      rcases hp with rfl | rfl | rfl
      · exact .inr (by simp only [length_bs]; omega)
      · exact .inl (by simp only [hoff]; omega)
      · exact .inl (by decide)

end Params

theorem leVal_mk {w : ℕ} {x : UInt32} (h : x.toNat < 256 ^ w) : leVal (mk w x) = x.toNat := by
  rw [mk, leVal_leBytes, Nat.mod_eq_of_lt h]

/-- The number of sectors in the 16-bit field fits it, unless the hidden ones make it wrap. -/
theorem Layout.Sound.sec_le {l : Layout} (hl : l.Sound) (hwrap : l.NoWrap) :
    l.bpb.sec.toNat ≤ 0xffff := by
  rcases hl.sec with h0 | ⟨-, hsmall⟩
  · omega
  · unfold Layout.NoWrap Bpb.total at hwrap
    split_ifs at hwrap with hne
    · rw [Nat.mod_eq_of_lt hwrap] at hsmall
      omega
    · omega

section Read

variable {o : Opts} {t : Clock} {l : Layout} {img : List UInt8} {s : Store} {ofs n : ℕ}

/-- **The boot sector says what was computed.** -/
theorem params_read (hl : l.Sound) (hsec : l.bpb.sec.toNat ≤ 0xffff) (himg : 512 ≤ img.length)
    (h : s.read ofs n = splices img (boot_parts o t l)) : Fat.params s ofs = l.params := by
  have hlen : n = img.length := by
    rw [← Store.length_read s ofs n, h,
      length_splices fun p hp => Nat.le_trans (boot_parts_le p hp) himg]
  -- A field of the BPB is read back where `mk` has put it.
  have hbpb : ∀ (off w : ℕ) (x : UInt32), off + w ≤ 25 → slice (bsbpb l.bpb) off w = mk w x →
      x.toNat < 256 ^ w → Fat.field s (ofs + (11 + off)) w = x.toNat := by
    intro off w x hoff hx hlt
    rw [Fat.field_slice s (n := n) (by omega), h, ← slice_slice hoff, slice_bsbpb himg, hx,
      leVal_mk hlt]
  have hbps := hl.bps.le
  have hspc := hl.spc.le
  have hnft := hl.nft
  have hspf : Fat.field s (ofs + 22) 2 = l.bpb.spf.toNat :=
    hbpb 11 2 _ (by decide) rfl (by have := hl.spf; omega)
  -- So is one of the extended BPB, which a reader takes as 0 unless the kind is FAT32.
  have hx32 : ∀ (off w : ℕ) (x : UInt32), off + w ≤ 16 → slice (bsxbpb l.bpb) off w = mk w x →
      (l.fat = 32 → x.toNat < 256 ^ w) →
      Fat.field32 s ofs (36 + off) w = if l.fat = 32 then x.toNat else 0 := by
    intro off w x hoff hx hlt
    unfold Fat.field32
    rw [hspf]
    by_cases h32 : l.fat = 32
    · rw [if_pos h32, if_pos (hl.spf32.mpr h32), Fat.field_slice s (n := n) (by omega), h,
        ← slice_slice hoff, slice_bsxbpb himg h32, hx, leVal_mk (hlt h32)]
    · rw [if_neg h32, if_neg fun h0 => h32 (hl.spf32.mp h0)]
  unfold Fat.params Layout.params
  rw [Fat.Params.mk.injEq]
  -- The offsets are those of `struct bsbpb` and `struct bsxbpb`.
  refine ⟨hbpb 0 2 _ (by decide) rfl (by omega), hbpb 2 1 _ (by decide) rfl (by omega),
    hbpb 3 2 _ (by decide) rfl (by have := hl.res; omega),
    hbpb 5 1 _ (by decide) rfl (by omega),
    hbpb 6 2 _ (by decide) rfl (by have := hl.rde; omega),
    hbpb 8 2 _ (by decide) rfl (by omega),
    hbpb 10 1 _ (by decide) rfl (by have := hl.mid; omega), hspf,
    hbpb 13 2 _ (by decide) rfl (by have := hl.spt; omega),
    hbpb 15 2 _ (by decide) rfl (by have := hl.hds; omega),
    hbpb 17 4 _ (by decide) rfl l.bpb.hid.toNat_lt,
    hbpb 21 4 _ (by decide) rfl l.bpb.bsec.toNat_lt,
    hx32 0 4 _ (by decide) rfl fun _ => l.bpb.bspf.toNat_lt,
    hx32 8 4 _ (by decide) rfl fun _ => l.bpb.rdcl.toNat_lt,
    hx32 12 2 _ (by decide) rfl fun h32 => ?_, hx32 14 2 _ (by decide) rfl fun h32 => ?_⟩
  · have hres := hl.res
    have hinfs := (hl.infs h32).2
    omega
  · have hres := hl.res
    have hbkbs := (hl.bkbs h32).2
    omega

end Read

/-! ## What follows from them -/

section Follows

variable {l : Layout}

/-- A driver finds the sectors that were computed. -/
theorem Layout.params_sectors (l : Layout) : l.params.sectors = l.bpb.total := rfl

/-- It finds FATs of the length they were given. -/
theorem Layout.Sound.params_fat_sectors (hl : l.Sound) :
    l.params.fat_sectors = l.bpb.fat_sectors := by
  unfold Fat.Params.fat_sectors Bpb.fat_sectors Layout.params
  simp only
  by_cases h32 : l.fat = 32
  · rw [if_pos h32]
  · have hne : l.bpb.spf.toNat ≠ 0 := fun h0 => h32 (hl.spf32.mp h0)
    rw [if_pos hne, if_pos hne]

/-- It finds the root directory where it is. -/
theorem Layout.Sound.params_dir (hl : l.Sound) : l.params.dir = l.dir := by
  unfold Fat.Params.dir Layout.dir
  rw [hl.params_fat_sectors]
  rfl

theorem Layout.Sound.params_data (hl : l.Sound) : l.params.data = l.data := by
  unfold Fat.Params.data Layout.data
  rw [hl.params_dir, hl.rds]
  rfl

/-- The clusters there is room for. -/
def Layout.room (l : Layout) : ℕ := (l.bpb.total - l.data) / l.bpb.spc.toNat

/-- It makes out as many clusters as there is room for. -/
theorem Layout.Sound.params_room (hl : l.Sound) : l.params.room = l.room := by
  unfold Fat.Params.room Layout.room
  rw [hl.params_data]
  rfl

/-- The clusters that were counted are among them. -/
theorem Layout.Sound.cls_le_room (hl : l.Sound) : l.cls.toNat ≤ l.room := by
  have hroom := hl.room
  have hspc := hl.spc.le
  unfold Layout.room
  rw [Nat.le_div_iff_mul_le (by omega)]
  omega

/-- A FAT12 file system does not look like FAT16. -/
def Layout.Small (l : Layout) : Prop := l.fat = 12 → l.room ≤ 4084

/-- **The kind of FAT is the one that was meant.** -/
theorem Layout.Sound.params_kind (hl : l.Sound) (hsmall : l.Small) :
    l.params.kind = fat_kind l.fat := by
  have hspf : l.params.spf = l.bpb.spf.toNat := rfl
  unfold Fat.Params.kind fat_kind
  rw [hl.params_room, hspf]
  by_cases h32 : l.fat = 32
  · rw [if_pos h32, if_pos (hl.spf32.mpr h32)]
  · rw [if_neg h32, if_neg fun h0 => h32 (hl.spf32.mp h0)]
    by_cases h16 : l.fat = 16
    · have hlo := hl.lo
      have hle := hl.cls_le_room
      have hmin : (mincls l.fat).toNat = 4096 := by
        rw [h16]
        rfl
      rw [if_pos h16, if_neg (by omega)]
    · have h12 : l.fat = 12 := (hl.kind.resolve_right fun h => h.elim h16 h32)
      rw [if_neg h16, if_pos (hsmall h12)]

/-- The FATs have no more entries than there are numbers of clusters. -/
def Layout.Short (l : Layout) : Prop :=
  l.bpb.fat_sectors * l.bpb.bps.toNat * 8 / l.fat.toNat ≤ 2 ^ 32

/-- A driver that takes the volume for its kind finds that many entries in a FAT. -/
theorem Layout.Sound.params_fat_entries (hl : l.Sound) (hsmall : l.Small) :
    l.params.fat_entries = l.bpb.fat_sectors * l.bpb.bps.toNat * 8 / l.fat.toNat := by
  unfold Fat.Params.fat_entries
  rw [hl.params_fat_sectors, hl.params_kind hsmall, fat_kind_bits hl.kind]
  rfl

/-- **And the clusters are the ones that were counted.** -/
theorem Layout.Sound.params_clusters (hl : l.Sound) (hsmall : l.Small) (hshort : l.Short) :
    l.params.clusters = l.cls.toNat := by
  unfold Fat.Params.clusters
  rw [hl.params_room, hl.params_fat_entries hsmall, hl.clusters hshort]
  rfl

/-- **The parameters are those of a FAT volume**, where the kind is the one a driver goes by. -/
theorem Layout.Sound.valid (hl : l.Sound) (hsmall : l.Small) (hshort : l.Short) :
    l.params.Valid := by
  have hcls := hl.params_clusters hsmall hshort
  -- The kind by the clusters is the one the sizes were computed for.
  have hkind := hl.params_kind hsmall
  have hlo := hl.lo
  obtain ⟨f, hf⟩ := exists_nibbles hl.kind
  have hmin := hf.min
  exact {
    bps := hl.bps
    spc := hl.spc
    res := by
      have hbss := hl.bss
      exact Nat.lt_of_lt_of_le (by omega : 0 < l.bss.toNat) hbss.2
    nft := hl.nft.1
    mid := hl.mid.1
    fits := by
      rw [hl.params_data, hcls, l.params_sectors]
      exact hl.room
    some := by
      rw [hcls]
      omega
    root := by
      rw [hkind, fat_kind_eq_fat32]
      exact hl.root
    rdcl := fun h => by
      rw [hkind, fat_kind_eq_fat32] at h
      have hr : l.params.rdcl = 2 := (if_pos h).trans (hl.rdcl h)
      rw [hr, hcls]
      omega }

end Follows

/-! ## The sectors behind the reserve -/

/-- The second copies stay in the reserve: that of the info sector and that of a bootstrap. -/
structure Clear (o : Opts) (l : Layout) : Prop where
  info : l.fat = 32 → l.bpb.infs.toNat ≠ 0xffff → l.bpb.bkbs.toNat ≠ 0xffff →
    l.bpb.bkbs.toNat + l.bpb.infs.toNat < l.bpb.res.toNat
  boot : l.second_copy o → l.bpb.bkbs.toNat + l.bss.toNat ≤ l.bpb.res.toNat

section Behind

variable {a : Args} {sp : Special} {t : Clock} {l : Layout} {k : ℕ}

theorem toNat_ne_MAXU16 {x : UInt32} : x ≠ MAXU16 ↔ x.toNat ≠ 0xffff := by
  rw [ne_eq, ne_eq, ← UInt32.toNat_inj]
  rfl

theorem toNat_ofNat_of_lt {k : ℕ} (h : k < 2 ^ 32) : (UInt32.ofNat k).toNat = k := by
  rw [UInt32.toNat_ofNat', Nat.mod_eq_of_lt h]

variable (hl : l.Sound) (hclear : Clear a.opts l) (hk : l.bpb.res.toNat ≤ k) (hlt : k < 2 ^ 32)
include hl hclear hk hlt

/-- Behind the boot sectors a sector is made from zeros. -/
theorem base_behind : boot_base a.opts sp l (UInt32.ofNat k)
    = List.replicate l.bpb.bps.toNat 0 := by
  have hkk := toNat_ofNat_of_lt hlt
  have hbss := hl.bss
  apply boot_base_zeros
  rintro ⟨hB, hx⟩
  rw [UInt32.lt_iff_toNat_lt] at hx
  by_cases h : l.second_copy a.opts ∧ l.bpb.bkbs ≤ UInt32.ofNat k
  · have hle := UInt32.le_iff_toNat_le.mp h.2
    have hcopy := hclear.boot h.1
    have hlsn : boot_lsn a.opts l (UInt32.ofNat k)
        = (UInt32.ofNat k - l.bpb.bkbs, decide (UInt32.ofNat k = l.bpb.bkbs)) :=
      if_pos ⟨h.1.1, h.1.2.1, h.1.2.2.1, h.1.2.2.2, h.2⟩
    rw [hlsn] at hx
    simp only at hx
    rw [toNat_sub_of_le hle, hkk] at hx
    omega
  · have hlsn : boot_lsn a.opts l (UInt32.ofNat k) = (UInt32.ofNat k, false) :=
      if_neg fun h' => h ⟨⟨h'.1, h'.2.1, h'.2.2.1, h'.2.2.2.1⟩, h'.2.2.2.2⟩
    rw [hlsn, hkk] at hx
    omega

omit hclear in
/-- No boot sector is there. -/
theorem not_boot_behind : ¬ l.is_boot (UInt32.ofNat k) = true := by
  have hkk := toNat_ofNat_of_lt hlt
  have hbss := hl.bss
  unfold Layout.is_boot
  rw [decide_eq_true_eq]
  rintro (h0 | ⟨h32, hne, heq⟩)
  · rw [← UInt32.toNat_inj, hkk] at h0
    have hzero : (0 : UInt32).toNat = 0 := rfl
    omega
  · have hin := (hl.bkbs h32).2.resolve_left (toNat_ne_MAXU16.mp hne)
    rw [← UInt32.toNat_inj, hkk] at heq
    omega

theorem not_info_behind : ¬ l.is_info (UInt32.ofNat k) = true := by
  have hkk := toNat_ofNat_of_lt hlt
  have hres := hl.res
  unfold Layout.is_info
  rw [decide_eq_true_eq]
  rintro ⟨h32, hne, heq | ⟨hne', heq⟩⟩
  · have hin := (hl.infs h32).2.resolve_left (toNat_ne_MAXU16.mp hne)
    rw [← UInt32.toNat_inj, hkk] at heq
    omega
  · have hsum := hclear.info h32 (toNat_ne_MAXU16.mp hne) (toNat_ne_MAXU16.mp hne')
    rw [← UInt32.toNat_inj, hkk, toNat_add_of_lt (by omega)] at heq
    omega

/-- Such a sector is the first one of a FAT, the one for the label, or empty. -/
theorem sector_behind : sector_at a sp t l k
    = splices (List.replicate l.bpb.bps.toNat 0)
        (if k < l.dir ∧ (k - l.bpb.res.toNat) % l.bpb.fat_sectors = 0 then [(0, fat_start l)]
          else if k = l.dir then a.opts.opt_L.elim [] (label_parts t) else []) := by
  have hkk := toNat_ofNat_of_lt hlt
  have hstart : l.is_fat_start (UInt32.ofNat k) = true ↔
      k < l.dir ∧ (k - l.bpb.res.toNat) % l.bpb.fat_sectors = 0 := by
    unfold Layout.is_fat_start
    have hzero : (0 : UInt32).toNat = 0 := rfl
    rw [decide_eq_true_eq, UInt32.le_iff_toNat_le, UInt32.lt_iff_toNat_lt, hkk, hl.dir_lsn,
      ← UInt32.toNat_inj, UInt32.toNat_mod, toNat_sub_of_le (by rw [hkk]; exact hk), hkk,
      spf_or_bspf_toNat, hzero]
    exact ⟨And.right, fun h => ⟨hk, h⟩⟩
  have hdir : UInt32.ofNat k = l.dir_lsn ↔ k = l.dir := by
    rw [← UInt32.toNat_inj, hkk, hl.dir_lsn]
  unfold sector_at sector sector_parts
  rw [base_behind hl hclear hk hlt, if_neg (not_boot_behind hl hk hlt),
    if_neg (not_info_behind hl hclear hk hlt)]
  by_cases h1 : l.is_fat_start (UInt32.ofNat k) = true
  · rw [if_pos h1, if_pos (hstart.mp h1)]
  · rw [if_neg h1, if_neg fun h => h1 (hstart.mpr h)]
    cases a.opts.opt_L with
    | none =>
      simp only [Option.elim_none, ite_self]
    | some opt_L =>
      simp only [hdir, Option.elim_some]

end Behind

/-! ## The FATs -/

section Fats

variable {l : Layout}

/-- The bytes that a FAT starts with are those of an empty file system. -/
theorem fat_start_eq (hl : l.Sound) :
    fat_start l = Fat.head (fat_kind l.fat) (UInt8.ofNat l.bpb.mid.toNat) := by
  have hmid : mk 1 l.bpb.mid = [UInt8.ofNat l.bpb.mid.toNat] := by
    have hle := hl.mid.2
    unfold mk
    rw [leBytes, Nat.mod_eq_of_lt (by omega)]
    rfl
  unfold fat_start
  rw [hmid]
  rcases hl.kind with h | h | h
  · rw [h]
    rfl
  · rw [h]
    rfl
  · rw [h]
    rfl

end Fats

/-- A disk on which the file system has been written. -/
structure Filled (a : Args) (sp : Special) (t : Clock) (l : Layout) (disk s : Store) : Prop where
  fill : s = disk.fill a.opts.opt_ofs.toNat l.bpb.bps.toNat (sector_at a sp t l) l.end_lsn.toNat
  base : ∀ k < l.end_lsn.toNat,
    (boot_base a.opts sp l (UInt32.ofNat k)).length = l.bpb.bps.toNat

section Filled

variable {a : Args} {sp : Special} {t : Clock} {l : Layout} {disk s : Store}

theorem Filled.length (h : Filled a sp t l disk s) (hl : l.Sound) {k : ℕ}
    (hk : k < l.end_lsn.toNat) : (sector_at a sp t l k).length = l.bpb.bps.toNat :=
  length_sector_at hl (h.base k hk)

/-- Sectors that follow each other are read as one stretch. -/
theorem Filled.read (h : Filled a sp t l disk s) (hl : l.Sound) {k m : ℕ}
    (hk : k + m ≤ l.end_lsn.toNat) :
    s.read (a.opts.opt_ofs.toNat + k * l.bpb.bps.toNat) (m * l.bpb.bps.toNat)
      = ((List.range m).map fun i => sector_at a sp t l (k + i)).flatten := by
  rw [h.fill]
  exact Store.read_fill_blocks (fun _ => h.length hl) hk

/-- One of them is read as it was made. -/
theorem Filled.read_one (h : Filled a sp t l disk s) (hl : l.Sound) {k : ℕ}
    (hk : k < l.end_lsn.toNat) :
    s.read (a.opts.opt_ofs.toNat + k * l.bpb.bps.toNat) l.bpb.bps.toNat
      = sector_at a sp t l k := by
  rw [h.fill]
  exact Store.read_fill (fun _ => h.length hl) hk

/-- At least one sector is written. -/
theorem Layout.Sound.end_pos (hl : l.Sound) : 0 < l.end_lsn.toNat := by
  have hbss := hl.bss
  rw [hl.end_lsn]
  unfold Layout.dir
  omega

/-- **The parameters** that are found on it. -/
theorem Filled.params (h : Filled a sp t l disk s) (hl : l.Sound)
    (hsec : l.bpb.sec.toNat ≤ 0xffff) : Fat.params s a.opts.opt_ofs.toNat = l.params := by
  have h0 := h.read_one hl hl.end_pos
  have hboot : l.is_boot (UInt32.ofNat 0) = true := by
    unfold Layout.is_boot
    rw [decide_eq_true_eq]
    exact .inl rfl
  have hparts : sector_parts a.opts t l (UInt32.ofNat 0) = boot_parts a.opts t l := if_pos hboot
  have hbps := hl.bps.le
  rw [Nat.zero_mul, Nat.add_zero] at h0
  unfold sector_at sector at h0
  rw [hparts] at h0
  refine params_read hl hsec ?_ h0
  rw [h.base 0 hl.end_pos]
  exact hbps.1

/-- They are those that were computed exactly if the sectors are not cut off. -/
theorem Filled.params_iff (h : Filled a sp t l disk s) (hl : l.Sound) :
    Fat.params s a.opts.opt_ofs.toNat = l.params ↔ l.bpb.sec.toNat ≤ 0xffff := by
  refine ⟨fun hp => ?_, h.params hl⟩
  have hsec : Fat.field s (a.opts.opt_ofs.toNat + 19) 2 = l.bpb.sec.toNat :=
    congrArg Fat.Params.sec hp
  have hlt := leVal_lt (s.read (a.opts.opt_ofs.toNat + 19) 2)
  rw [Store.length_read] at hlt
  unfold Fat.field at hsec
  omega

/-- What `m` sectors from `k` on hold, if the first starts with `bs` and there are zeros behind. -/
theorem Filled.read_zeros (h : Filled a sp t l disk s) (hl : l.Sound) {k m : ℕ} {bs : List UInt8}
    (hk : k + m ≤ l.end_lsn.toNat) (hm : 0 < m) (hbs : bs.length ≤ l.bpb.bps.toNat)
    (hfirst : sector_at a sp t l k = splices (List.replicate l.bpb.bps.toNat 0) [(0, bs)])
    (hrest : ∀ i, 0 < i → i < m →
      sector_at a sp t l (k + i) = List.replicate l.bpb.bps.toNat 0) :
    s.read (a.opts.opt_ofs.toNat + k * l.bpb.bps.toNat) (m * l.bpb.bps.toNat)
      = bs ++ List.replicate (m * l.bpb.bps.toNat - bs.length) 0 := by
  obtain ⟨m, rfl⟩ := Nat.exists_eq_succ_of_ne_zero (Nat.ne_of_gt hm)
  have hzeros : (List.range m).map (fun i => sector_at a sp t l (k + i.succ))
      = List.replicate m (List.replicate l.bpb.bps.toNat 0) := by
    rw [List.eq_replicate_iff]
    refine ⟨by rw [List.length_map, List.length_range], fun b hb => ?_⟩
    obtain ⟨i, hi, rfl⟩ := List.mem_map.mp hb
    rw [List.mem_range] at hi
    exact hrest i.succ (Nat.succ_pos i) (Nat.succ_lt_succ hi)
  rw [h.read hl hk, List.range_succ_eq_map, List.map_cons, List.map_map, List.flatten_cons,
    Nat.add_zero, hfirst]
  change _ ++ ((List.range m).map fun i => sector_at a sp t l (k + i.succ)).flatten = _
  rw [hzeros, List.flatten_replicate_replicate, splices_cons, splices_nil, splice_zeros,
    List.append_assoc, List.replicate_append_replicate, Nat.succ_mul]
  simp only
  congr 2
  omega

/-- **The FATs** have the bytes of an empty one. -/
theorem Filled.read_fat (h : Filled a sp t l disk s) (hl : l.Sound) (hclear : Clear a.opts l)
    {copy : ℕ} (hc : copy < l.bpb.nft.toNat) :
    let bs := Fat.head (fat_kind l.fat) (UInt8.ofNat l.bpb.mid.toNat)
    s.read (a.opts.opt_ofs.toNat
        + (l.bpb.res.toNat + copy * l.bpb.fat_sectors) * l.bpb.bps.toNat)
        (l.bpb.fat_sectors * l.bpb.bps.toNat)
      = bs ++ List.replicate (l.bpb.fat_sectors * l.bpb.bps.toNat - bs.length) 0 := by
  have hlt := l.total_lt
  have hend := hl.end_lsn
  have hle := hl.end_le
  have hpos := hl.fats
  have hbps := hl.bps.le
  have hlen := length_fat_start hl.kind
  have hdir : l.dir = l.bpb.res.toNat + l.bpb.fat_sectors * l.bpb.nft.toNat := rfl
  have hcopy : (copy + 1) * l.bpb.fat_sectors ≤ l.bpb.fat_sectors * l.bpb.nft.toNat := by
    rw [Nat.mul_comm]
    exact Nat.mul_le_mul_left _ hc
  rw [Nat.succ_mul] at hcopy
  intro bs
  have hbs : bs = fat_start l := (fat_start_eq hl).symm
  -- only the first sector of a FAT has anything in it
  have hmod : ∀ i < l.bpb.fat_sectors,
      (l.bpb.res.toNat + copy * l.bpb.fat_sectors + i - l.bpb.res.toNat) % l.bpb.fat_sectors
        = i := by
    intro i hi
    rw [Nat.add_assoc, Nat.add_sub_cancel_left, Nat.add_comm, Nat.add_mul_mod_self_right,
      Nat.mod_eq_of_lt hi]
  rw [hbs]
  refine h.read_zeros hl (by omega) hpos (by omega) ?_ fun i hi0 hi => ?_
  · have h0 := hmod 0 hpos
    rw [Nat.add_zero] at h0
    rw [sector_behind hl hclear (by omega) (by omega), if_pos ⟨by omega, h0⟩]
  · have h1 := hmod i hi
    rw [sector_behind hl hclear (by omega) (by omega), if_neg (by omega), if_neg (by omega),
      splices_nil]

end Filled

end NewfsMsdos

end Iago
