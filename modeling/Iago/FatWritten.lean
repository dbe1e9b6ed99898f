/-
What `newfs_msdos_main` leaves on the disk.

Whatever becomes of its calls, it changes nothing in front of the offset of the file system and
nothing behind the number of sectors the file system has (`write_sectors_outside` with
`Layout.Sound.end_le`). And if it returns, then the disk is the old one with the sectors filled
in from that offset on, each as `sector` makes it: from zeros, or from the place in the bootstrap
that the position in its file has come to (`write_sectors_filled`).
-/
import Iago.Blocks
import Iago.FatSectors
import Iago.FatSizes

set_option autoImplicit false

namespace Iago

namespace NewfsMsdos

/-! ## Where things are -/

section Places

variable {l : Layout}

/-- The length of a FAT, from whichever field it stands in. -/
theorem spf_or_bspf_toNat (b : Bpb) : b.spf_or_bspf.toNat = b.fat_sectors := by
  unfold Bpb.spf_or_bspf Bpb.fat_sectors
  by_cases h : b.spf ≠ 0
  · rw [if_pos h, if_pos (toNat_ne_zero.mp h)]
  · rw [if_neg h, if_neg fun hne => h (toNat_ne_zero.mpr hne)]

/-- A volume has less than 2^32 sectors. -/
theorem Layout.total_lt (l : Layout) : l.bpb.total < 2 ^ 32 := by
  unfold Bpb.total
  split_ifs
  · exact l.bpb.sec.toNat_lt
  · exact l.bpb.bsec.toNat_lt

/-- The clusters start inside the volume. -/
theorem Layout.Sound.data_le (hl : l.Sound) : l.data ≤ l.bpb.total :=
  Nat.le_trans (Nat.le_add_right _ _) hl.room

/-- The sector of the root directory does not wrap. -/
theorem Layout.Sound.dir_lsn (hl : l.Sound) : l.dir_lsn.toNat = l.dir := by
  have hlt := l.total_lt
  have hle := hl.data_le
  unfold Layout.data Layout.dir at hle
  unfold Layout.dir_lsn Layout.dir
  have hmul : (l.bpb.spf_or_bspf * l.bpb.nft).toNat = l.bpb.fat_sectors * l.bpb.nft.toNat := by
    rw [toNat_mul_of_lt (by rw [spf_or_bspf_toNat]; omega), spf_or_bspf_toNat]
  rw [toNat_add_of_lt (by rw [hmul]; omega), hmul]

/-- The sectors of the root directory, or of its first cluster. -/
def Layout.root_sectors (l : Layout) : ℕ := if l.fat = 32 then l.bpb.spc.toNat else l.rds.toNat

/-- What is written of the root directory lies inside the volume. -/
theorem Layout.Sound.root_le (hl : l.Sound) : l.dir + l.root_sectors ≤ l.bpb.total := by
  have hroom := hl.room
  have hlo := hl.lo
  unfold Layout.data at hroom
  unfold Layout.root_sectors
  split_ifs with h32
  · have hcls : 2 ≤ l.cls.toNat := by
      rw [h32] at hlo
      exact hlo
    have := Nat.le_mul_of_pos_left l.bpb.spc.toNat (by omega : 0 < l.cls.toNat)
    omega
  · omega

/-- The loop over the sectors ends behind the root directory. -/
theorem Layout.Sound.end_lsn (hl : l.Sound) : l.end_lsn.toNat = l.dir + l.root_sectors := by
  have hlt := l.total_lt
  have hle := hl.root_le
  have hsame : (if l.fat = 32 then l.bpb.spc else l.rds).toNat = l.root_sectors := by
    unfold Layout.root_sectors
    split_ifs <;> rfl
  unfold Layout.end_lsn
  rw [toNat_add_of_lt (by rw [hl.dir_lsn, hsame]; omega), hl.dir_lsn, hsame]

/-- It all lies in the file system. -/
theorem Layout.Sound.end_le (hl : l.Sound) : l.end_lsn.toNat ≤ l.bpb.total := by
  rw [hl.end_lsn]
  exact hl.root_le

end Places

/-! ## Sectors have their size -/

section Sizes

variable {o : Opts} {t : Clock} {l : Layout} {lsn : UInt32} {img : List UInt8}

@[simp] theorem length_mk (w : ℕ) (x : UInt32) : (mk w x).length = w := length_leBytes w x.toNat

@[simp] theorem length_mklabel (src : CStr) : (mklabel src).length = 11 := by
  rw [mklabel, List.length_map, List.length_range]

@[simp] theorem length_setstr (src : CStr) (len : ℕ) : (setstr src len).length = len := by
  rw [setstr, List.length_map, List.length_range]

@[simp] theorem length_bsbpb (b : Bpb) : (bsbpb b).length = 25 := rfl

@[simp] theorem length_bsxbpb (b : Bpb) : (bsxbpb b).length = 16 := rfl

@[simp] theorem length_bsx (o : Opts) (t : Clock) (fat : UInt32) : (bsx o t fat).length = 24 := by
  rw [bsx]
  simp only [List.length_append, List.length_cons, length_mk, length_mklabel, length_setstr]

@[simp] theorem length_bs (o : Opts) (fat : UInt32) : (bs o fat).length = 11 := by
  rw [bs]
  simp only [List.length_append, List.length_cons, List.length_nil, length_setstr]

theorem length_bootcode : bootcode.length ≤ 420 := by decide

@[simp] theorem length_dosmagic : dosmagic.length = 2 := rfl

@[simp] theorem length_label_time (t : Clock) : (label_time t).length = 4 := rfl

theorem length_fat_start (hkind : l.fat = 12 ∨ l.fat = 16 ∨ l.fat = 32) :
    (fat_start l).length ≤ 12 := by
  rw [fat_start, List.length_append, List.length_map, List.length_range', length_mk]
  rcases hkind with h | h | h
  · rw [h]
    decide
  · rw [h]
    decide
  · rw [h]
    decide

/-- The extended part stands behind the FAT32 fields, where there are any. -/
theorem bsx_offset_cases (fat : UInt32) :
    fat = 32 ∧ bsx_offset fat = 64 ∨ fat ≠ 32 ∧ bsx_offset fat = 36 := by
  unfold bsx_offset
  by_cases h : fat = 32
  · exact .inl ⟨h, if_pos h⟩
  · exact .inr ⟨h, if_neg h⟩

/-- The kinds of sectors, one after the other. -/
theorem sector_parts_cases {P : List (ℕ × List UInt8) → Prop}
    (hboot : l.is_boot lsn = true → P (boot_parts o t l))
    (hinfo : l.is_info lsn = true → P (info_parts l))
    (hfat : l.is_fat_start lsn = true → P [(0, fat_start l)])
    (hlabel : ∀ opt_L ∈ o.opt_L, lsn = l.dir_lsn → P (label_parts t opt_L)) (hnil : P []) :
    P (sector_parts o t l lsn) := by
  unfold sector_parts
  -- The source asks in this order, so a sector that is two of them counts as the first.
  by_cases h1 : l.is_boot lsn = true
  · rw [if_pos h1]
    exact hboot h1
  rw [if_neg h1]
  by_cases h2 : l.is_info lsn = true
  · rw [if_pos h2]
    exact hinfo h2
  rw [if_neg h2]
  by_cases h3 : l.is_fat_start lsn = true
  · rw [if_pos h3]
    exact hfat h3
  rw [if_neg h3]
  cases hL : o.opt_L with
  | none => exact hnil
  | some opt_L =>
    simp only
    by_cases h4 : lsn = l.dir_lsn
    · rw [if_pos h4]
      exact hlabel opt_L hL h4
    · rw [if_neg h4]
      exact hnil

/-- Nothing of a boot sector is behind its first 512 bytes. -/
theorem boot_parts_le : ∀ p ∈ boot_parts o t l, p.1 + p.2.length ≤ 512 := by
  have hoff := bsx_offset_cases l.fat
  have hcode := length_bootcode
  intro p hp
  unfold boot_parts at hp
  simp only [List.cons_append, List.mem_cons, List.mem_append] at hp
  rcases hp with rfl | hp | rfl | hp
  · simp only [length_bsbpb]
    omega
  · split_ifs at hp
    · rw [List.mem_singleton.mp hp]
      simp only [length_bsxbpb]
      omega
    · cases hp
  · simp only [length_bsx]
    omega
  · split_ifs at hp
    · cases hp
    · simp only [List.mem_cons, List.not_mem_nil, or_false] at hp
      rcases hp with rfl | rfl | rfl
      · simp only [length_bs]
        omega
      · simp only
        omega
      · simp only [length_dosmagic]
        omega

/-- Whatever is put into a sector fits even the smallest one. -/
theorem sector_parts_le (hkind : l.fat = 12 ∨ l.fat = 16 ∨ l.fat = 32) :
    ∀ p ∈ sector_parts o t l lsn, p.1 + p.2.length ≤ 512 := by
  apply sector_parts_cases (P := fun ps => ∀ p ∈ ps, p.1 + p.2.length ≤ 512)
  · exact fun _ => boot_parts_le
  · intro _ p hp
    unfold info_parts at hp
    simp only [List.mem_cons, List.not_mem_nil, or_false] at hp
    rcases hp with rfl | rfl | rfl | rfl | rfl <;> simp
  · intro _ p hp
    have hlen := length_fat_start hkind
    rw [List.mem_singleton.mp hp]
    simp only
    omega
  · intro opt_L _ _ p hp
    unfold label_parts at hp
    simp only [List.mem_cons, List.not_mem_nil, or_false] at hp
    rcases hp with rfl | rfl | rfl <;> simp
  · exact fun p hp => absurd hp List.not_mem_nil

theorem length_sector (hkind : l.fat = 12 ∨ l.fat = 16 ∨ l.fat = 32) (himg : 512 ≤ img.length) :
    (sector o t l lsn img).length = img.length :=
  length_splices fun p hp => Nat.le_trans (sector_parts_le hkind p hp) himg

end Sizes

/-! ## The bootstrap -/

section Bootstrap

variable {o : Opts} {sp : Special} {l : Layout} {lsn : UInt32} {pos pos' : ℕ}
  {img : List UInt8}

/-- The bootstrap is written a second time, from the backup of the boot sector on. -/
def Layout.second_copy (o : Opts) (l : Layout) : Prop :=
  o.opt_B.isSome = true ∧ l.fat = 32 ∧ l.bpb.bkbs ≠ MAXU16 ∧ l.bss ≤ l.bpb.bkbs

instance : Decidable (l.second_copy o) :=
  inferInstanceAs (Decidable (_ = true ∧ _ = _ ∧ _ ≠ _ ∧ _ ≤ _))

/-- What is in `img` before sector `lsn` is made. -/
def boot_base (o : Opts) (sp : Special) (l : Layout) (lsn : UInt32) : List UInt8 :=
  if o.opt_B.isSome ∧ (boot_lsn o l lsn).1 < l.bss then
    slice sp.boot.contents ((boot_lsn o l lsn).1.toNat * l.bpb.bps.toNat) l.bpb.bps.toNat
  else List.replicate l.bpb.bps.toNat 0

/-- Where in the bootstrap the position is before sector `k`. -/
def boot_pos (o : Opts) (l : Layout) (k : ℕ) : ℕ :=
  if l.second_copy o ∧ l.bpb.bkbs.toNat < k then
    min (k - l.bpb.bkbs.toNat) l.bss.toNat * l.bpb.bps.toNat
  else min k l.bss.toNat * l.bpb.bps.toNat

/-- The sector of the bootstrap, and the position once a seek has been made. -/
theorem boot_lsn_cases (hpos : pos = boot_pos o l lsn.toNat) :
    let x := boot_lsn o l lsn
    (if x.2 then 0 else pos) = min x.1.toNat l.bss.toNat * l.bpb.bps.toNat ∧
      boot_pos o l (lsn.toNat + 1) = min (x.1.toNat + 1) l.bss.toNat * l.bpb.bps.toNat := by
  intro x
  -- From the second copy on the bootstrap is counted from there, and the seek starts it again.
  by_cases h : l.second_copy o ∧ l.bpb.bkbs ≤ lsn
  · obtain ⟨⟨hB, h32, hne, hbss⟩, hle⟩ := h
    have hx : x = (lsn - l.bpb.bkbs, decide (lsn = l.bpb.bkbs)) :=
      if_pos ⟨hB, h32, hne, hbss, hle⟩
    have hlen := UInt32.le_iff_toNat_le.mp hle
    have hsub : (lsn - l.bpb.bkbs).toNat = lsn.toNat - l.bpb.bkbs.toNat := toNat_sub_of_le hlen
    have hnext : boot_pos o l (lsn.toNat + 1)
        = min (lsn.toNat + 1 - l.bpb.bkbs.toNat) l.bss.toNat * l.bpb.bps.toNat :=
      if_pos ⟨⟨hB, h32, hne, hbss⟩, by omega⟩
    rw [hx, hnext]
    simp only [hsub, decide_eq_true_eq]
    refine ⟨?_, by rw [Nat.sub_add_comm hlen]⟩
    by_cases heq : lsn = l.bpb.bkbs
    · rw [if_pos heq, heq, Nat.sub_self, Nat.zero_min, Nat.zero_mul]
    · have hlt : l.bpb.bkbs.toNat < lsn.toNat :=
        Nat.lt_of_le_of_ne hlen fun h => heq (UInt32.toNat_inj.mp h).symm
      rw [if_neg heq, hpos]
      exact if_pos ⟨⟨hB, h32, hne, hbss⟩, hlt⟩
  · have hx : x = (lsn, false) :=
      if_neg fun h' => h ⟨⟨h'.1, h'.2.1, h'.2.2.1, h'.2.2.2.1⟩, h'.2.2.2.2⟩
    rw [UInt32.le_iff_toNat_le] at h
    have hnow : boot_pos o l lsn.toNat = min lsn.toNat l.bss.toNat * l.bpb.bps.toNat :=
      if_neg fun h' => h ⟨h'.1, Nat.le_of_lt h'.2⟩
    have hnext : boot_pos o l (lsn.toNat + 1)
        = min (lsn.toNat + 1) l.bss.toNat * l.bpb.bps.toNat :=
      if_neg fun h' => h ⟨h'.1, Nat.le_of_lt_succ h'.2⟩
    rw [hx, hnext]
    exact ⟨hpos.trans hnow, rfl⟩

/-- One sector: what is read is what belongs there, and so is the position behind it. -/
theorem boot_image_step (hpos : o.opt_B.isSome → pos = boot_pos o l lsn.toNat)
    (h : boot_image o sp l lsn pos = .ret (img, pos')) :
    img = boot_base o sp l lsn ∧ (o.opt_B.isSome → pos' = boot_pos o l (lsn.toNat + 1)) ∧
      img.length = l.bpb.bps.toNat := by
  unfold boot_image at h
  obtain ⟨_, -, h⟩ := Exec.bind_eq_ret.mp h
  by_cases hB : o.opt_B.isSome = true
  · obtain ⟨hseek, hnext⟩ := boot_lsn_cases (hpos hB)
    unfold boot_base
    rw [hnext]
    generalize boot_lsn o l lsn = x at *
    generalize (if x.2 = true then 0 else pos) = pos₁ at *
    by_cases hx : x.1 < l.bss
    · simp only [hB, hx, and_self, if_true] at h ⊢
      obtain ⟨_, -, h⟩ := Exec.bind_eq_ret.mp h
      obtain ⟨_, hall, h⟩ := Exec.bind_eq_ret.mp h
      rw [errx_if_eq_ret, not_not] at hall
      rw [hall, Exec.ret.injEq, Prod.mk.injEq] at h
      have hlt := UInt32.lt_iff_toNat_lt.mp hx
      rw [Nat.min_eq_left (Nat.le_of_lt hlt)] at hseek
      -- the read has found a whole sector
      have hle : pos₁ + l.bpb.bps.toNat ≤ sp.boot.contents.length ∨ l.bpb.bps.toNat = 0 := by
        have hmin : (sp.reads lsn.toNat).amount
            (min l.bpb.bps.toNat (sp.boot.contents.length - pos₁))
            ≤ min l.bpb.bps.toNat (sp.boot.contents.length - pos₁) := by
          cases sp.reads lsn.toNat with
          | all => exact Nat.le_refl _
          | upto n => exact Nat.min_le_right _ _
          | eintr => exact Nat.zero_le _
          | err => exact Nat.zero_le _
        omega
      obtain ⟨rfl, rfl⟩ := h
      refine ⟨by rw [hseek], fun _ => ?_, ?_⟩
      · rw [hseek, Nat.min_eq_left (by omega), Nat.succ_mul]
      · rcases hle with hle | hzero
        · exact length_slice hle
        · rw [hzero, slice, List.take_zero]
          rfl
    · simp only [hx, and_false, if_false] at h ⊢
      rw [Exec.ret.injEq, Prod.mk.injEq] at h
      obtain ⟨rfl, rfl⟩ := h
      rw [UInt32.lt_iff_toNat_lt] at hx
      refine ⟨rfl, fun _ => ?_, List.length_replicate⟩
      rw [hseek, Nat.min_eq_right (by omega), Nat.min_eq_right (by omega)]
  · unfold boot_base
    simp only [hB, false_and, if_false, Bool.false_eq_true] at h ⊢
    rw [Exec.ret.injEq, Prod.mk.injEq] at h
    obtain ⟨rfl, rfl⟩ := h
    exact ⟨rfl, fun h => absurd h id, List.length_replicate⟩

/-- Without a bootstrap every sector is made from zeros. -/
theorem boot_base_zeros (h : ¬ (o.opt_B.isSome = true ∧ (boot_lsn o l lsn).1 < l.bss)) :
    boot_base o sp l lsn = List.replicate l.bpb.bps.toNat 0 := if_neg h

end Bootstrap

/-! ## All sectors -/

section Run

variable {a : Args} {sp : Special} {t : Clock} {l : Layout}

/-- Sector `k` of the file system. -/
def sector_at (a : Args) (sp : Special) (t : Clock) (l : Layout) (k : ℕ) : List UInt8 :=
  sector a.opts t l (UInt32.ofNat k) (boot_base a.opts sp l (UInt32.ofNat k))

theorem length_sector_at (hl : l.Sound) {k : ℕ}
    (h : (boot_base a.opts sp l (UInt32.ofNat k)).length = l.bpb.bps.toNat) :
    (sector_at a sp t l k).length = l.bpb.bps.toNat := by
  have hbps := hl.bps.le
  unfold sector_at
  rw [length_sector hl.kind (by omega), h]

/-- Writing a sector leaves the others alone, whether it succeeds or not. -/
theorem write_sector_outside {lsn : UInt32} {img : List UInt8} {disk : Store} {p : ℕ}
    (hp : p < a.opts.opt_ofs.toNat + lsn.toNat * img.length ∨
      a.opts.opt_ofs.toNat + (lsn.toNat + 1) * img.length ≤ p) :
    (write_sector a sp lsn img disk).1 p = disk p := by
  have hsucc : (lsn.toNat + 1) * img.length = lsn.toNat * img.length + img.length :=
    Nat.succ_mul _ _
  unfold write_sector
  cases sp.writes lsn.toNat with
  | all => exact Store.write_apply_of_outside (by omega)
  | upto n =>
    have hlen : (img.take n).length ≤ img.length := List.length_take_le' n img
    exact Store.write_apply_of_outside (by omega)
  | eintr => rfl
  | err => rfl

/-- Where it succeeds, the sector is there. -/
theorem write_sector_ret {lsn : UInt32} {img : List UInt8} {disk disk' : Store}
    (h : write_sector a sp lsn img disk = (disk', .ret ())) :
    disk' = disk.write (a.opts.opt_ofs.toNat + lsn.toNat * img.length) img := by
  unfold write_sector at h
  cases hw : sp.writes lsn.toNat with
  | all =>
    rw [hw, Prod.mk.injEq] at h
    exact h.1.symm
  | upto n =>
    rw [hw, Prod.mk.injEq] at h
    obtain ⟨hd, h⟩ := h
    split_ifs at h with hle
    rw [← hd, List.take_of_length_le hle]
  | eintr =>
    rw [hw, Prod.mk.injEq] at h
    cases h.2
  | err =>
    rw [hw, Prod.mk.injEq] at h
    cases h.2

/-- **Whatever becomes of the calls**, only the sectors that it gets to change. -/
theorem write_sectors_outside (hl : l.Sound) {left pos : ℕ} {lsn : UInt32} {disk : Store} {p : ℕ}
    (hlsn : lsn.toNat + left < 2 ^ 32)
    (hinv : a.opts.opt_B.isSome → pos = boot_pos a.opts l lsn.toNat)
    (hp : p < a.opts.opt_ofs.toNat + lsn.toNat * l.bpb.bps.toNat ∨
      a.opts.opt_ofs.toNat + (lsn.toNat + left) * l.bpb.bps.toNat ≤ p) :
    (write_sectors a sp t l left lsn pos disk).1 p = disk p := by
  induction left generalizing lsn pos disk with
  | zero => rfl
  | succ left ih =>
    unfold write_sectors
    cases himg : boot_image a.opts sp l lsn pos with
    | die e => rfl
    | fault => rfl
    | hang => rfl
    | ret r =>
      obtain ⟨img, pos'⟩ := r
      obtain ⟨-, hnext, hlen⟩ := boot_image_step hinv himg
      have hbps := hl.bps.le
      have hsec : (sector a.opts t l lsn img).length = l.bpb.bps.toNat := by
        rw [length_sector hl.kind (by omega), hlen]
      have hone : (1 : UInt32).toNat = 1 := rfl
      have hsucc : (lsn + 1).toNat = lsn.toNat + 1 := by
        rw [toNat_add_of_lt (by omega), hone]
      -- The round's sector lies inside the stretch, and so does what is left of it behind.
      have hmul : (lsn.toNat + 1) * l.bpb.bps.toNat
          ≤ (lsn.toNat + (left + 1)) * l.bpb.bps.toNat := Nat.mul_le_mul_right _ (by omega)
      have hmul' : lsn.toNat * l.bpb.bps.toNat ≤ (lsn.toNat + 1) * l.bpb.bps.toNat :=
        Nat.mul_le_mul_right _ (by omega)
      have hout : (write_sector a sp lsn (sector a.opts t l lsn img) disk).1 p = disk p :=
        write_sector_outside (by rw [hsec]; omega)
      simp only
      generalize write_sector a sp lsn (sector a.opts t l lsn img) disk = w at *
      obtain ⟨disk', r⟩ := w
      cases r with
      | ret _ =>
        refine (ih (by omega) ?_ ?_).trans hout
        · rw [hsucc]
          exact hnext
        · rw [hsucc, Nat.add_right_comm, Nat.add_assoc]
          omega
      | die e => exact hout
      | fault => exact hout
      | hang => exact hout

/-- **A run that returns** has filled in one sector after the other. -/
theorem write_sectors_filled (hl : l.Sound) {left pos : ℕ} {lsn : UInt32} {disk disk' : Store}
    (hlsn : lsn.toNat + left < 2 ^ 32)
    (hinv : a.opts.opt_B.isSome → pos = boot_pos a.opts l lsn.toNat)
    (h : write_sectors a sp t l left lsn pos (disk.fill a.opts.opt_ofs.toNat l.bpb.bps.toNat
      (sector_at a sp t l) lsn.toNat) = (disk', .ret ())) :
    disk' = disk.fill a.opts.opt_ofs.toNat l.bpb.bps.toNat (sector_at a sp t l)
        (lsn.toNat + left) ∧
      ∀ k, lsn.toNat ≤ k → k < lsn.toNat + left →
        (boot_base a.opts sp l (UInt32.ofNat k)).length = l.bpb.bps.toNat := by
  -- Sector by sector; the invariant on pos is that of the boot code, which is copied in order.
  induction left generalizing lsn pos with
  | zero =>
    injection h with h
    exact ⟨h.symm, fun k _ _ => by omega⟩
  | succ left ih =>
    unfold write_sectors at h
    cases himg : boot_image a.opts sp l lsn pos with
    | die e =>
      rw [himg] at h
      cases h
    | fault =>
      rw [himg] at h
      cases h
    | hang =>
      rw [himg] at h
      cases h
    | ret r =>
      obtain ⟨img, pos'⟩ := r
      obtain ⟨hbase, hnext, hlen⟩ := boot_image_step hinv himg
      have hbps := hl.bps.le
      have hsec : (sector a.opts t l lsn img).length = l.bpb.bps.toNat := by
        rw [length_sector hl.kind (by omega), hlen]
      have hone : (1 : UInt32).toNat = 1 := rfl
      have hsucc : (lsn + 1).toNat = lsn.toNat + 1 := by
        rw [toNat_add_of_lt (by omega), hone]
      have hat : sector_at a sp t l lsn.toNat = sector a.opts t l lsn img := by
        unfold sector_at
        rw [UInt32.ofNat_toNat, ← hbase]
      rw [himg] at h
      simp only at h
      generalize hw : write_sector a sp lsn (sector a.opts t l lsn img)
        (disk.fill a.opts.opt_ofs.toNat l.bpb.bps.toNat (sector_at a sp t l) lsn.toNat) = w at h
      obtain ⟨disk₁, r⟩ := w
      cases r with
      | die e => cases h
      | fault => cases h
      | hang => cases h
      | ret _ =>
        -- The round's sector is the one the filled-in part goes on with.
        have hfill : disk₁ = disk.fill a.opts.opt_ofs.toNat l.bpb.bps.toNat (sector_at a sp t l)
            (lsn + 1).toNat := by
          rw [write_sector_ret hw, hsucc, Store.fill, hat, hsec]
        simp only [hfill] at h
        obtain ⟨hdisk, hrest⟩ := ih (by omega)
          (by rw [hsucc]; exact hnext) h
        rw [hsucc, Nat.add_assoc, Nat.add_comm 1 left] at hdisk hrest
        refine ⟨hdisk, fun k hk hk' => ?_⟩
        by_cases heq : k = lsn.toNat
        · rw [heq, UInt32.ofNat_toNat, ← hbase, hlen]
        · exact hrest k (by omega) hk'

end Run

end NewfsMsdos

end Iago
