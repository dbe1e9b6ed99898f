/-
Which accepted layouts fit the disk.

`process_disk_config` accepts a layout after two checks of the sizes. `validate` adds up
32-bit products of bytes, and only minds the sum on a block device. `config_mbr` looks at
each partition when it comes to it: there must be a sector left, and the size must fit,
for which it takes `len_kb / sect_size * 1024` for a number of sectors, which rounds down
where the entry is made from a size rounded up. Both are in 32 bits, and a `num_lba` of 0
switches the second one off.

So what can be accepted and not fit is this (`NothingMissed`): a partition of size 0; any
layout, if the number of sectors came out as 0; a layout whose sum passes `2 ^ 32`
sectors; and a last partition that, rounded up, ends behind the disk. A partition in front
of another one cannot end behind the disk, because there is a sector left for the other.
`accepted_layout_fits_iff` says that there is nothing else.
-/
import Iago.DiskConfig
import Iago.MbrDecodes

set_option autoImplicit false

namespace Iago

namespace EditDiskLbl

/-! ## What it is to fit -/

/-- A partition as it was asked for and as it has been placed, with `e` sectors for a boot
record in front: all of it is on the disk and behind the skipped sectors, and the length in
its entry is the exact one and not 0. -/
structure Inside (v : DiskInfo) (e : ℕ) (p p' : PartInfo) : Prop where
  behind : v.skip_lba.toNat + e ≤ p'.start_lba.toNat
  pos : 0 < (v.len_lba p p'.start_lba).toNat
  fits : p'.start_lba.toNat + (v.len_lba p p'.start_lba).toNat ≤ v.num_lba.toNat
  exact : (v.len_lba p p'.start_lba).toNat =
    if p.len_kb = FILL then v.num_lba.toNat - p'.start_lba.toNat else v.exact p

/-- A layout `dinfo'` of the validated `v` fits the disk. -/
structure Fits (v dinfo' : DiskInfo) : Prop where
  nonzero : ∀ p ∈ v.part_lst, p.len_kb ≠ 0
  fill_last : FillLast v.part_lst
  primary : ∀ q ∈ v.primary.zip dinfo'.primary, Inside v 0 q.1 q.2
  logical : ∀ q ∈ v.logical.zip dinfo'.logical, Inside v 1 q.1 q.2

/-! ## What is not checked -/

/-- The number of sectors a partition must have. -/
def DiskInfo.needed (v : DiskInfo) (p : PartInfo) : ℕ :=
  if p.len_kb = FILL then 0 else v.exact p

/-- The sectors consecutive partitions must have, with `e` for the boot record of each. -/
def DiskInfo.needs (v : DiskInfo) (e : ℕ) (parts : List PartInfo) : ℕ :=
  (parts.map fun p => e + v.needed p).sum

/-- The exact end of the layout, without the sectors of one that fills the disk. -/
def DiskInfo.layout_end (v : DiskInfo) : ℕ :=
  v.skip_lba.toNat + v.needs 0 v.primary + v.needs 1 v.logical

/-- What must hold of a validated `disk_info` besides what the code checks. -/
structure NothingMissed (v : DiskInfo) : Prop where
  nonzero : ∀ p ∈ v.part_lst, p.len_kb ≠ 0
  known : v.part_lst ≠ [] → v.num_lba ≠ 0
  below : v.layout_end < 2 ^ 32
  last : v.part_lst ≠ [] → Sized v.part_lst → v.layout_end ≤ v.num_lba.toNat

section Runs

variable {v : DiskInfo}

@[simp] theorem DiskInfo.needs_nil (e : ℕ) : v.needs e [] = 0 := rfl

@[simp] theorem DiskInfo.needs_cons (e : ℕ) (p : PartInfo) (parts : List PartInfo) :
    v.needs e (p :: parts) = e + v.needed p + v.needs e parts := by
  rw [needs, List.map_cons, List.sum_cons, needs]

/-- A partition with a length needs exactly that. -/
theorem needed_of_sized {p : PartInfo} (hp : p.len_kb ≠ FILL) : v.needed p = v.exact p :=
  if_neg hp

/-- So do all of them. -/
theorem needs_of_sized {parts : List PartInfo} (hparts : Sized parts) (e : ℕ) :
    v.needs e parts = v.total e parts := by
  rw [DiskInfo.needs, DiskInfo.total]
  congr 1
  exact List.map_congr_left fun p hp => by rw [needed_of_sized (hparts p hp)]

/-- Another one with a length may be in front. -/
theorem Sized.cons {p : PartInfo} {parts : List PartInfo} (hp : p.len_kb ≠ FILL)
    (h : Sized parts) : Sized (p :: parts) := by
  intro q hq
  rcases List.mem_cons.mp hq with rfl | hmem
  · exact hp
  · exact h q hmem

/-- In front of another partition there is none that fills the disk. -/
theorem sized_of_fillLast {first rest : List PartInfo} (h : FillLast (first ++ rest))
    (hne : rest ≠ []) : Sized first := by
  intro p hp hfill
  obtain ⟨init, tail, rfl⟩ := List.append_of_mem hp
  have hnil := h init (tail ++ rest) p (by rw [List.append_assoc, List.cons_append]) hfill
  exact hne (List.append_eq_nil_iff.mp hnil).2

theorem FillLast.of_append {first rest : List PartInfo} (h : FillLast (first ++ rest)) :
    FillLast first ∧ FillLast rest := by
  constructor
  · intro init tail p heq hfill
    have hnil := h init (tail ++ rest) p
      (by rw [heq, List.append_assoc, List.cons_append]) hfill
    exact (List.append_eq_nil_iff.mp hnil).1
  · intro init tail p heq hfill
    exact h (first ++ init) tail p (by rw [heq, List.append_assoc]) hfill

/-- The tests let consecutive partitions through that are in their places, as long as nothing
wraps and the last one, if it has a size, ends on the disk. -/
theorem inside_of_rooms (hsect : v.PowerOfTwo) (hnum : v.num_lba ≠ 0) {parts : List PartInfo}
    {e lba : UInt32} (hlast : FillLast parts) (hrooms : v.rooms e parts lba = true)
    (hnonzero : ∀ p ∈ parts, p.len_kb ≠ 0) (hskip : v.skip_lba.toNat ≤ lba.toNat)
    (hsum : lba.toNat + v.needs e.toNat parts < 2 ^ 32)
    (hend : Sized parts → lba.toNat + v.needs e.toNat parts ≤ v.num_lba.toNat) :
    ∀ q ∈ parts.zip (v.place e parts lba), Inside v e.toNat q.1 q.2 := by
  induction parts generalizing lba with
  | nil => exact fun q hq => by cases hq
  | cons p rest ih =>
    rw [DiskInfo.needs_cons] at hsum hend
    have hlt : (lba + e).toNat < v.num_lba.toNat := by
      rcases lt_num_lba hrooms with h | h
      · exact absurd h hnum
      · exact h
    have hstart : (lba + e).toNat = lba.toNat + e.toNat := toNat_add_of_lt (by omega)
    have hrest : v.rooms e rest (v.after e lba p) = true := by
      rw [DiskInfo.rooms, decide_eq_true_eq] at hrooms
      exact hrooms.2.2
    intro q hq
    rw [DiskInfo.place, List.zip_cons_cons] at hq
    by_cases hfill : p.len_kb = FILL
    · -- it is the last one
      have hnil := hlast.head hfill
      subst hnil
      rw [DiskInfo.place, List.zip_nil_left, List.mem_singleton] at hq
      subst hq
      have hlen : (v.len_lba p (lba + e)).toNat = v.num_lba.toNat - (lba + e).toNat := by
        rw [DiskInfo.len_lba, if_neg (not_not.mpr hfill)]
        exact UInt32.toNat_sub_of_le _ _ (UInt32.le_iff_toNat_le.mpr (Nat.le_of_lt hlt))
      exact {
        behind := by show v.skip_lba.toNat + e.toNat ≤ (lba + e).toNat; omega
        pos := by show 0 < (v.len_lba p (lba + e)).toNat; omega
        fits := by show (lba + e).toNat + (v.len_lba p (lba + e)).toNat ≤ _; omega
        exact := by rw [if_pos hfill]; exact hlen }
    · rw [needed_of_sized hfill] at hsum hend
      obtain ⟨-, hlen, hafter⟩ := toNat_after hsect hfill (show
        lba.toNat + (e.toNat + v.exact p) < 2 ^ 32 by omega)
      rcases List.mem_cons.mp hq with rfl | hmem
      · have hbound : lba.toNat + e.toNat + v.exact p ≤ v.num_lba.toNat := by
          cases rest with
          | nil =>
            have := hend (Sized.cons hfill fun _ h => by cases h)
            rw [DiskInfo.needs_nil] at this
            omega
          | cons q' rest =>
            -- there is a sector left for the next one
            rw [DiskInfo.needs_cons] at hsum
            rcases lt_num_lba hrest with h | h
            · exact absurd h hnum
            · rw [toNat_add_of_lt (by omega)] at h
              omega
        have hpos := exact_pos hsect (hnonzero p List.mem_cons_self)
        exact {
          behind := by show v.skip_lba.toNat + e.toNat ≤ (lba + e).toNat; omega
          pos := by show 0 < (v.len_lba p (lba + e)).toNat; omega
          fits := by show (lba + e).toNat + (v.len_lba p (lba + e)).toNat ≤ _; omega
          exact := by rw [if_neg hfill]; exact hlen }
      · exact ih hlast.tail hrest (fun r hr => hnonzero r (List.mem_cons_of_mem _ hr))
          (by omega) (by omega)
          (fun hsized => by have := hend (Sized.cons hfill hsized); omega) q hmem

/-- Partitions that are in their places have all the sectors they need. -/
theorem needs_of_inside {parts : List PartInfo} {e lba : UInt32} (hlast : FillLast parts)
    (hinside : ∀ q ∈ parts.zip (v.place e parts lba), Inside v e.toNat q.1 q.2)
    (hne : parts ≠ []) :
    lba.toNat + v.needs e.toNat parts ≤ v.num_lba.toNat ∧
      (Sized parts → (v.end_lba e parts lba).toNat = lba.toNat + v.needs e.toNat parts) := by
  induction parts generalizing lba with
  | nil => exact absurd rfl hne
  | cons p rest ih =>
    rw [DiskInfo.place, List.zip_cons_cons] at hinside
    have hp := hinside _ List.mem_cons_self
    have hbehind : v.skip_lba.toNat + e.toNat ≤ (lba + e).toNat := hp.behind
    have hfits : (lba + e).toNat + (v.len_lba p (lba + e)).toNat ≤ v.num_lba.toNat := hp.fits
    have hexact : (v.len_lba p (lba + e)).toNat =
      if p.len_kb = FILL then v.num_lba.toNat - (lba + e).toNat else v.exact p := hp.exact
    have hnum := v.num_lba.toNat_lt
    -- a sum that has wrapped is less than either part
    have hstart : (lba + e).toNat = lba.toNat + e.toNat := by
      have hlba := lba.toNat_lt
      have he := e.toNat_lt
      rw [UInt32.toNat_add] at hbehind ⊢
      omega
    rw [DiskInfo.needs_cons]
    by_cases hfill : p.len_kb = FILL
    · have hnil := hlast.head hfill
      subst hnil
      rw [DiskInfo.needed, if_pos hfill, DiskInfo.needs_nil]
      exact ⟨by omega, fun hsized => absurd hfill hsized.head⟩
    · rw [if_neg hfill] at hexact
      rw [needed_of_sized hfill]
      have hafter : (v.after e lba p).toNat = lba.toNat + e.toNat + v.exact p := by
        rw [DiskInfo.after, toNat_add_of_lt (by omega), hexact, hstart]
      cases rest with
      | nil =>
        rw [DiskInfo.needs_nil]
        refine ⟨by omega, fun _ => ?_⟩
        rw [DiskInfo.end_lba, DiskInfo.end_lba, hafter]
        omega
      | cons r rest =>
        obtain ⟨hle, heq⟩ := ih hlast.tail (fun q hq => hinside q (List.mem_cons_of_mem _ hq))
          (List.cons_ne_nil _ _)
        refine ⟨by omega, fun hsized => ?_⟩
        rw [DiskInfo.end_lba, heq hsized.tail, hafter]
        omega

end Runs

/-! ## The accepted layouts -/

section Accepted

variable {dev : Device} {dinfo dinfo' v : DiskInfo}

/-- What it takes to be accepted. -/
theorem process_disk_config_spec (hsect : dinfo.PowerOfTwo) (hv : validate dev dinfo = some v)
    (h : process_disk_config dev dinfo = some dinfo') :
    v.PowerOfTwo ∧ v.room = true ∧ dinfo' = { v with part_lst := v.parts } := by
  have hvsect : v.PowerOfTwo := by
    rw [(validate_spec hv).1]
    exact hsect
  simp only [process_disk_config, validate_and_config, hv, Option.bind_eq_bind, Option.bind_some,
    Option.map_eq_some_iff, Prod.exists, exists_and_right, exists_eq_right] at h
  obtain ⟨wr_list, h⟩ := h
  split_ifs at h with hscheme
  rw [config_mbr_eq hvsect] at h
  split_ifs at h with hroom
  simp only [Option.some.injEq, Prod.mk.injEq] at h
  exact ⟨hvsect, hroom, h.1.symm⟩

/-- And what is accepted. -/
theorem validate_and_config_of_room (hsect : v.PowerOfTwo) (hv : validate dev dinfo = some v)
    (hscheme : v.scheme = PART_SCHEME_MBR) (hroom : v.room = true) :
    validate_and_config dev dinfo =
      some ({ v with part_lst := v.parts }, mk_empty_ptable :: v.items.reverse) := by
  rw [validate_and_config, hv]
  simp only [Option.bind_eq_bind, Option.bind_some, if_pos hscheme, config_mbr_eq hsect,
    if_pos hroom]

/-- Where there is room, the layout is accepted. -/
theorem process_disk_config_of_room (hsect : v.PowerOfTwo) (hv : validate dev dinfo = some v)
    (hscheme : v.scheme = PART_SCHEME_MBR) (hroom : v.room = true) :
    process_disk_config dev dinfo = some { v with part_lst := v.parts } := by
  rw [process_disk_config, validate_and_config_of_room hsect hv hscheme hroom, Option.map_some]

/-- Where everything is in its place, nothing has been missed. -/
theorem nothingMissed_of_fits (hfits : Fits v { v with part_lst := v.parts }) :
    NothingMissed v := by
  obtain ⟨hprimary, hlogical⟩ := @parts_split v
  have hsplit := primary_append_logical v
  have hinside := hfits.primary
  have hinside' := hfits.logical
  rw [hprimary] at hinside
  rw [hlogical] at hinside'
  have hlast := hfits.fill_last
  rw [← hsplit] at hlast
  have hnum := v.num_lba.toNat_lt
  have hskip := v.skip_lba.toNat_lt
  -- the end of the layout, unless there are no partitions
  have hend : v.part_lst ≠ [] → v.layout_end ≤ v.num_lba.toNat ∧ v.num_lba ≠ 0 := by
    intro hne
    have hfirst : v.primary ≠ [] := by
      intro hnil
      have hlength := @length_primary v
      have hpos := List.length_pos_of_ne_nil hne
      rw [hnil, List.length_nil] at hlength
      unfold DiskInfo.num_parts at hlength
      split_ifs at hlength <;> omega
    have hknown : v.num_lba ≠ 0 := by
      cases hp : v.primary with
      | nil => exact absurd hp hfirst
      | cons p rest =>
        rw [hp, DiskInfo.place, List.zip_cons_cons] at hinside
        have hin := hinside _ List.mem_cons_self
        have hpos := hin.pos
        have hle := hin.fits
        intro hzero
        rw [hzero, UInt32.toNat_zero] at hle
        omega
    refine ⟨?_, hknown⟩
    obtain ⟨hle, heq⟩ := needs_of_inside hlast.of_append.1 hinside hfirst
    unfold DiskInfo.layout_end
    by_cases hlog : v.logical = []
    · rw [hlog, DiskInfo.needs_nil]
      exact hle
    · have hext := heq (sized_of_fillLast hlast hlog)
      have hle' := (needs_of_inside hlast.of_append.2 hinside' hlog).1
      have hext' : v.ext_lba.toNat = v.skip_lba.toNat + v.needs 0 v.primary := hext
      rw [hext'] at hle'
      exact hle'
  refine ⟨hfits.nonzero, fun hne => (hend hne).2, ?_, fun hne _ => (hend hne).1⟩
  by_cases hne : v.part_lst = []
  · have hnil := List.append_eq_nil_iff.mp (hsplit.trans hne)
    rw [DiskInfo.layout_end, hnil.1, hnil.2]
    exact hskip
  · have := (hend hne).1
    omega

/-- Where nothing is missed, what is accepted fits. -/
theorem fits_of_nothingMissed (hsect : v.PowerOfTwo) (hroom : v.room = true)
    (hlast : FillLast v.part_lst) (h : NothingMissed v) :
    Fits v { v with part_lst := v.parts } := by
  obtain ⟨hprimary, hlogical⟩ := @parts_split v
  have hsplit := primary_append_logical v
  rw [DiskInfo.room, Bool.and_eq_true] at hroom
  have hbelow := h.below
  unfold DiskInfo.layout_end at hbelow
  have hlast' := hlast
  rw [← hsplit] at hlast'
  have hext : v.logical ≠ [] →
      v.ext_lba.toNat = v.skip_lba.toNat + v.needs 0 v.primary := by
    intro hne
    have hsized := sized_of_fillLast hlast' hne
    have hsum : v.skip_lba.toNat + v.total (0 : UInt32).toNat v.primary < 2 ^ 32 := by
      rw [UInt32.toNat_zero, ← needs_of_sized hsized]
      omega
    rw [needs_of_sized hsized]
    exact toNat_end_lba hsect hsized hsum
  refine ⟨h.nonzero, hlast, ?_, ?_⟩
  · rw [hprimary]
    intro q hq
    have hne : v.part_lst ≠ [] := by
      intro hnil
      rw [hnil] at hsplit
      rw [(List.append_eq_nil_iff.mp hsplit).1, List.zip_nil_left] at hq
      cases hq
    refine inside_of_rooms hsect (h.known hne) hlast'.of_append.1 hroom.1
      (fun p hp => h.nonzero p (mem_of_mem_primary hp)) (Nat.le_refl _)
      (by rw [UInt32.toNat_zero]; omega) (fun hsized => ?_) q hq
    rw [UInt32.toNat_zero]
    by_cases hlog : v.logical = []
    · have hend := h.last hne (by rw [← hsplit, hlog, List.append_nil]; exact hsized)
      rw [DiskInfo.layout_end, hlog, DiskInfo.needs_nil] at hend
      exact hend
    · -- there is a sector left for the first boot record
      have heq := hext hlog
      have hrooms := hroom.2
      cases hp : v.logical with
      | nil => exact absurd hp hlog
      | cons p rest =>
        rw [hp] at hrooms
        rw [hp, DiskInfo.needs_cons] at hbelow
        rcases lt_num_lba hrooms with hzero | hlt
        · exact absurd hzero (h.known hne)
        · rw [toNat_add_of_lt (by rw [UInt32.toNat_one]; omega), UInt32.toNat_one] at hlt
          omega
  · rw [hlogical]
    intro q hq
    have hlog : v.logical ≠ [] := by
      intro hnil
      rw [hnil, List.zip_nil_left] at hq
      cases hq
    have hne : v.part_lst ≠ [] := by
      intro hnil
      rw [hnil] at hsplit
      exact hlog (List.append_eq_nil_iff.mp hsplit).2
    have heq := hext hlog
    refine inside_of_rooms hsect (h.known hne) hlast'.of_append.2 hroom.2
      (fun p hp => h.nonzero p (mem_of_mem_logical hp)) (by omega)
      (by rw [UInt32.toNat_one]; omega) (fun hsized => ?_) q hq
    have hall : Sized v.part_lst := by
      rw [← hsplit]
      intro p hp
      rcases List.mem_append.mp hp with hmem | hmem
      · exact sized_of_fillLast hlast' hlog p hmem
      · exact hsized p hmem
    have hend := h.last hne hall
    rw [DiskInfo.layout_end] at hend
    rw [UInt32.toNat_one]
    omega

/-- **When an accepted layout fits the disk**: exactly if no partition has the size 0, the
number of sectors is not 0, the exact end of the layout is below `2 ^ 32`, and the last
partition, if it has a size, ends on the disk. -/
theorem accepted_layout_fits_iff (hsect : dinfo.PowerOfTwo) (hv : validate dev dinfo = some v)
    (h : process_disk_config dev dinfo = some dinfo') : Fits v dinfo' ↔ NothingMissed v := by
  obtain ⟨hvsect, hroom, rfl⟩ := process_disk_config_spec hsect hv h
  have hlast : FillLast v.part_lst := by
    have hspec := validate_spec hv
    rw [hspec.1]
    exact hspec.2.2.1
  exact ⟨nothingMissed_of_fits, fits_of_nothingMissed hvsect hroom hlast⟩

end Accepted

/-! ## Layouts that fit and layouts that do not -/

section Examples

/-- A regular file. -/
def image_file : Device where
  open_ok := true
  fstat_ok := true
  mode := .reg
  st_size := 0
  blksszget := none
  blkgetsize64 := none
  blkrrpart := false

/-- What the theorem says of five partitions. -/
theorem accepted_layout_fits_five :
    ∃ dinfo', process_disk_config image_file five = some dinfo' ∧ Fits five dinfo' := by
  have hv : validate image_file five = some five := by decide
  have hroom : five.room = true := by decide
  have h := process_disk_config_of_room five_power_of_two hv rfl hroom
  exact ⟨_, h, (accepted_layout_fits_iff five_power_of_two hv h).mpr
    ⟨by decide, fun _ => by decide, by decide, fun _ _ => by decide⟩⟩

/-- One partition on a disk of 100 sectors. -/
def single (len_kb : UInt32) : DiskInfo where
  device := cstr "disk.img"
  scheme := PART_SCHEME_MBR
  sect_size := 512
  skip_lba := 1
  num_lba := 100
  part_lst := [⟨cstr "data", 0, PC_PART_TYPE_LINUX, len_kb, 0⟩]

/-- A partition of 100 KB, which takes 200 sectors, is accepted on a disk of 100, and so is
a partition of size 0. -/
theorem accepted_layouts_do_not_fit :
    (∃ dinfo', process_disk_config image_file (single 100) = some dinfo' ∧
      ¬ Fits (single 100) dinfo') ∧
    ∃ dinfo', process_disk_config image_file (single 0) = some dinfo' ∧
      ¬ Fits (single 0) dinfo' := by
  have hsect : ∀ len_kb, (single len_kb).PowerOfTwo :=
    fun _ => ⟨9, Nat.le_refl 9, (by decide : (512 : Int32).toInt = 2 ^ 9)⟩
  constructor
  · refine ⟨_, process_disk_config_of_room (hsect 100) (by decide) rfl (by decide), fun hfits => ?_⟩
    -- it would end at sector 201
    have hlast := (nothingMissed_of_fits hfits).last (by decide)
      (fun p hp => by rw [List.mem_singleton.mp hp]; decide)
    exact absurd hlast (by decide)
  · refine ⟨_, process_disk_config_of_room (hsect 0) (by decide) rfl (by decide), fun hfits => ?_⟩
    exact hfits.nonzero _ List.mem_cons_self rfl

end Examples

end EditDiskLbl

end Iago
