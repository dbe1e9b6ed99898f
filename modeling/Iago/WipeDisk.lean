/-
Installing on the whole disk: what the dialogue accepts fits.

`partitioner_cli` takes 2 MiB off the size of the disk and compares what is left with
`get_all_space_required`. `execute_wipe_disk` makes a new table, whose usable range
leaves 2 sectors and the array at the front and a sector and the array at the end, and
rounds that range inward to whole MiB. With sectors of at most 16 KiB the front is less
than a MiB and so is the end, so 2 MiB cover both and the rounding
(`wipe_disk_has_room`).
-/
import Iago.Dialogue
import Iago.InstallsWell
import Iago.SpaceFound

set_option autoImplicit false

namespace Iago

/-! ## The region of a new table -/

section Region

variable [Platform] [Qsort] {g₀ g : Gpt}

/-- What a disk takes for `NewTable.region`: sectors that divide the array, byte offsets
in 63 bits, and 2 MiB at least. -/
structure WholeDisk (g₀ : Gpt) : Prop where
  lba_size : g₀.lba_size.toNat ∣ 16384
  size_lt : g₀.lba_size.toNat * g₀.sectors.toNat < 2 ^ 63
  size_ge : 2 * 2 ^ 20 ≤ g₀.lba_size.toNat * g₀.sectors.toNat

omit [Platform] [Qsort] in
/-- The usable range in bytes: it starts behind 2 sectors and the array, and ends before
a sector and the array. -/
theorem NewTable.bytes (hnew : NewTable g₀ g) (hd : WholeDisk g₀) :
    g.header.first_usable_lba.toNat * g₀.lba_size.toNat = 2 * g₀.lba_size.toNat + 16384 ∧
    (g.header.last_usable_lba.toNat + 1) * g₀.lba_size.toNat + (g₀.lba_size.toNat + 16384)
      = g₀.lba_size.toNat * g₀.sectors.toNat ∧
    g.header.first_usable_lba.toNat ≤ g.header.last_usable_lba.toNat ∧
    g.header.last_usable_lba.toNat < g₀.sectors.toNat := by
  have hpos : 0 < g₀.lba_size.toNat := Nat.pos_of_dvd_of_pos hd.lba_size (by decide)
  obtain ⟨q, hq⟩ := hd.lba_size
  have hquot : 16384 / g₀.lba_size.toNat = q := by
    rw [hq, Nat.mul_div_cancel_left q hpos]
  have hfirst := hnew.first_usable
  have hlast := hnew.last_usable
  rw [hquot] at hfirst hlast
  -- the disk has 128 times the sectors of an array at least
  have hsectors : 128 * q ≤ g₀.sectors.toNat := by
    refine Nat.le_of_mul_le_mul_left ?_ hpos
    have := hd.size_ge
    rw [Nat.mul_left_comm, ← hq]
    omega
  have hqpos : 0 < q := Nat.pos_of_dvd_of_pos (Dvd.intro_left _ hq.symm) (by decide)
  have hS := g₀.sectors.toNat_lt
  have hlast' : g.header.last_usable_lba.toNat = g₀.sectors.toNat - (2 + q) := by
    rw [hlast]
    omega
  have hsum : g₀.sectors.toNat = (g.header.last_usable_lba.toNat + 1) + 1 + q := by
    omega
  have hqL : g₀.lba_size.toNat * q = 16384 := hq.symm
  refine ⟨?_, ?_, by omega, by omega⟩
  · rw [hfirst, Nat.add_mul, Nat.mul_comm q]
    omega
  · have hmul : g₀.lba_size.toNat * g₀.sectors.toNat
        = (g.header.last_usable_lba.toNat + 1) * g₀.lba_size.toNat
          + (g₀.lba_size.toNat + g₀.lba_size.toNat * q) := by
      rw [hsum]
      ring
    rw [hmul, hqL]

omit [Platform] [Qsort] in
theorem NewTable.addressable (hnew : NewTable g₀ g) (hd : WholeDisk g₀) : Addressable g := by
  obtain ⟨-, hend, -, hlt⟩ := hnew.bytes hd
  have hsize := hd.size_lt
  have hpos : 0 < g₀.lba_size.toNat := Nat.pos_of_dvd_of_pos hd.lba_size (by decide)
  refine ⟨?_, ?_, ?_⟩
  · rw [hnew.lba_size]
    exact hd.lba_size.trans (by decide)
  · rw [hnew.lba_size]
    omega
  · have hle : g₀.sectors.toNat ≤ g₀.lba_size.toNat * g₀.sectors.toNat :=
      Nat.le_mul_of_pos_left _ hpos
    omega

/-- **The free region of a new table is its usable range**, which starts in the first
MiB of the disk. -/
theorem NewTable.region (hnew : NewTable g₀ g) (hmap : g.Mapped) (hempty : ∀ i, ¬ g.InUse i)
    (hd : WholeDisk g₀) : ∃ s e,
      (gpt_find_contiguous_free_space g : Exec Die _) = .ret (some (s, e)) ∧
      s.toNat ≤ g.header.last_usable_lba.toNat ∧ e.toNat ≤ g.header.last_usable_lba.toNat ∧
      start_mb g s = 1 ∧ end_mb g e
        = (g₀.lba_size.toNat * g₀.sectors.toNat - (g₀.lba_size.toNat + 16384)) / 2 ^ 20 := by
  obtain ⟨hstart, hend, hle, -⟩ := hnew.bytes hd
  have hlbas := (hnew.addressable hd).lbas
  have hwf := wellFormed_of_empty hempty
  have hL : g₀.lba_size.toNat ≤ 16384 := Nat.le_of_dvd (by decide) hd.lba_size
  -- the whole usable range is free
  have hclean : Clean g (g.header.first_usable_lba.toNat, g.header.last_usable_lba.toNat + 1) := by
    refine ⟨Nat.le_refl _, Nat.le_refl _, ?_⟩
    rintro x - ⟨i, hi, -⟩
    exact hempty i hi
  obtain ⟨r, hfind⟩ := find_returns (ε := Die) hmap.readable
  rcases r with _ | ⟨s, e⟩
  · exact absurd hclean (find_wellFormed_none hwf hlbas hfind (Nat.lt_succ_of_le hle))
  obtain ⟨hfree, hmax⟩ := find_wellFormed hwf hlbas hfind
  have hlong := (hmax _ (Nat.lt_succ_of_le hle) hclean).1
  have hs := UInt64.le_iff_toNat_le.mp hfree.first
  have hse := UInt64.le_iff_toNat_le.mp hfree.le
  have he := UInt64.le_iff_toNat_le.mp hfree.last
  simp only [len] at hlong
  have hseq : s.toNat = g.header.first_usable_lba.toNat := by omega
  have heeq : e.toNat = g.header.last_usable_lba.toNat := by omega
  refine ⟨s, e, hfind, by omega, by omega, ?_, ?_⟩
  · rw [start_mb, hseq, hnew.lba_size, hstart]
    omega
  · rw [end_mb, heeq, hnew.lba_size, ← hend, Nat.add_sub_cancel]

end Region

/-! ## The sizes agree -/

section Sizes

/-- What the dialogue asks for in MiB: the partitions, both boot loaders and the
smallest data partition. -/
def required_mb (opts : Hashmap) (list : List CStr) (len : Int64) : ℕ :=
  sum_mb opts list + 2 * len.toUInt64.toNat + 350

variable {opts : Hashmap} {partlist : CStr} {len : Int64}

/-- The sum for the boot loaders, in bytes. -/
theorem bootloader_bytes (h : len.toUInt64.toNat * 2 * 2 ^ 20 < 2 ^ 63) :
    ((len.toUInt64 <<< 20) * 2).toNat = 2 * len.toUInt64.toNat * 2 ^ 20 := by
  have htwo : (2 : UInt64).toNat = 2 := rfl
  rw [UInt64.toNat_mul, shiftLeft_mib_toNat, htwo]
  omega

/-- With a byte sum in 63 bits nothing wraps. -/
theorem all_space_spec {disk : CStr} {required : UInt64} (hlist : opts BASE_PTN_LIST = some partlist)
    (hlen : LenIs opts (cstr "bootloader") len)
    (hsum : required_mb opts (entries partlist) len * 2 ^ 20 < 2 ^ 63)
    (h : get_all_space_required opts disk false = .ret required) :
    required.toNat = required_mb opts (entries partlist) len * 2 ^ 20 ∧
      ∃ needed, get_partial_space_required opts ((len.toUInt64 <<< 20) * 2) = .ret needed ∧
        needed.toNat = (sum_mb opts (entries partlist) + 2 * len.toUInt64.toNat) * 2 ^ 20 := by
  rw [required_mb] at hsum ⊢
  -- Each product is below the sum, so none of them wraps.
  have hboot : len.toUInt64.toNat * 2 * 2 ^ 20 < 2 ^ 63 :=
    Nat.lt_of_le_of_lt (Nat.mul_le_mul_right _ (by omega)) hsum
  obtain ⟨s, hs, hret⟩ := hlen
  rw [get_all_space_required] at h
  simp only [Bool.false_eq_true, if_false, hashmapGetPrintf_none.mpr hs, hret, Exec.ret_bind] at h
  obtain ⟨needed, hneed, h⟩ := Exec.bind_eq_ret.mp h
  injection h with h
  subst h
  obtain ⟨partlist', hlist', -, hval⟩ := partial_space_spec.mp hneed
  rw [hlist] at hlist'
  injection hlist' with hlist'
  subst hlist'
  rw [bootloader_bytes hboot] at hval
  have hneedv : needed.toNat
      = (sum_mb opts (entries partlist) + 2 * len.toUInt64.toNat) * 2 ^ 20 := by
    omega
  refine ⟨?_, needed, hneed, hneedv⟩
  have hmin : MIN_DATA_PART_SIZE.toNat = 350 := rfl
  rw [UInt64.toNat_add, shiftLeft_mib_toNat, hmin, hneedv]
  omega

end Sizes

/-- A whole number of MiB is not rounded. -/
theorem to_mib_of_mul {val : UInt64} {mib : ℕ} (h : val.toNat = mib * 2 ^ 20)
    (hlt : mib * 2 ^ 20 < 2 ^ 63) : (to_mib val).toNat = mib := by
  rw [to_mib_toNat (by omega), h]
  omega

/-- The comparison of the dialogue, in plain numbers. -/
theorem room_of_check {size mib : ℕ} {required : UInt64} (hsize : size < 2 ^ 63)
    (hmib : mib * 2 ^ 20 < 2 ^ 63) (hreq : required.toNat = mib * 2 ^ 20)
    (hfits : ¬ Int64.ofInt size - 2 * 1024 * 1024 < required.toInt64) :
    mib * 2 ^ 20 + 2 * 2 ^ 20 ≤ size := by
  have hfudge : (2 * 1024 * 1024 : Int64).toInt = 2 * 2 ^ 20 := by decide
  have hdisk : (Int64.ofInt size).toInt = size := Int64.toInt_ofInt_of_le (by omega) (by omega)
  have hsub : ((size : Int) - 2 * 2 ^ 20).bmod (2 ^ 64) = (size : Int) - 2 * 2 ^ 20 :=
    Int.bmod_eq_of_le (by omega) (by omega)
  rw [Int64.lt_iff_toInt_lt, Int64.toInt_sub, hdisk, hfudge, hsub, toInt_toInt64, hreq,
    if_pos hmib] at hfits
  omega

/-! ## Acceptance means success -/

section Wipe

variable [Platform] [Qsort]

omit [Qsort] in
theorem gpt_new_spaceSafe (g : Gpt) (r : Urandom) : SpaceSafe (gpt_new g r) := by
  rw [gpt_new]
  split_ifs
  · exact spaceSafe_fault
  · rcases generate_uuid r with ⟨_ | uuid, r'⟩
    · exact spaceSafe_ret _
    · refine SpaceSafe.bind ?_ fun g _ => spaceSafe_ret _
      rw [Gpt.free_entries]
      split
      · exact spaceSafe_ret _
      · exact spaceSafe_ret _
      · exact spaceSafe_fault

/-- The free region of a table has the whole MiB that the partitions and the smallest data
partition need. -/
def Roomy (g : Gpt) (needed : UInt64) : Prop :=
  ∃ s e, gpt_find_contiguous_free_space (ε := Die) g = .ret (some (s, e)) ∧
    to_mib (s * g.lba_size.toUInt64) ≤ to_mib_floor ((e + 1) * g.lba_size.toUInt64) ∧
    (to_mib needed).toNat + MIN_DATA_PART_SIZE.toNat
      ≤ (to_mib_floor ((e + 1) * g.lba_size.toUInt64)
          - to_mib (s * g.lba_size.toUInt64)).toNat

/-- A new table on a disk that has 2 MiB more than that is roomy. -/
theorem roomy_new_table {g₀ g : Gpt} {r r' : Urandom} {needed : UInt64} (hd : WholeDisk g₀)
    (hret : gpt_new (ε := Die) g₀ r = .ret (0, g, r'))
    (hroom : ((to_mib needed).toNat + 350) * 2 ^ 20 + 2 * 2 ^ 20
      ≤ g₀.lba_size.toNat * g₀.sectors.toNat) : g.Mapped ∧ Roomy g needed := by
  have hL : g₀.lba_size.toNat ≤ 16384 := Nat.le_of_dvd (by decide) hd.lba_size
  have hnew := gpt_new_table hret
  obtain ⟨-, uuid, -, rfl⟩ := gpt_new_ret hret
  have hmap := new_table_mapped g₀ uuid
  obtain ⟨s, e, hfind, hs, he, hstart, hend⟩ := hnew.region hmap not_inUse_new_table hd
  have ha := hnew.addressable hd
  have hmin : MIN_DATA_PART_SIZE.toNat = 350 := rfl
  have hstart' := (start_mb_eq ha hs).trans hstart
  -- the first MiB is not used, nor is the one the backup copy is in
  have hend' : (to_mib needed).toNat + 350 + 1
      ≤ (to_mib_floor ((e + 1) * g₀.lba_size.toUInt64)).toNat := by
    refine Nat.le_trans ?_ (Nat.le_of_eq ((end_mb_eq ha he).trans hend).symm)
    rw [Nat.le_div_iff_mul_le (by decide)]
    generalize (to_mib needed).toNat + 350 = mib at hroom
    generalize g₀.lba_size.toNat * g₀.sectors.toNat = size at hroom
    omega
  have hle : to_mib (s * g₀.lba_size.toUInt64)
      ≤ to_mib_floor ((e + 1) * g₀.lba_size.toUInt64) := by
    rw [UInt64.le_iff_toNat_le]
    exact Nat.le_trans (Nat.le_of_eq hstart') (Nat.le_trans (Nat.le_add_left _ _) hend')
  refine ⟨hmap, s, e, hfind, hle, ?_⟩
  have hsub : _ = _ - (to_mib (s * g₀.lba_size.toUInt64)).toNat :=
    UInt64.toNat_sub_of_le _ _ hle
  refine Nat.le_trans ?_ (Nat.le_of_eq hsub.symm)
  refine Nat.le_sub_of_add_le ?_
  rw [hmin]
  exact Nat.le_trans (Nat.add_le_add_left (Nat.le_of_eq hstart') _) hend'

/-- In a roomy table the partitions find their space. -/
theorem Roomy.not_lacksSpace {g : Gpt} {needed : UInt64} (h : Roomy g needed) :
    ¬ LacksSpace g needed := by
  obtain ⟨s, e, hfind, -, hend⟩ := h
  rw [LacksSpace, hfind]
  rintro (hnone | ⟨s', e', hsome, hshort⟩)
  · cases hnone
  · injection hsome with hsome
    injection hsome with hsome
    injection hsome with hs he
    subst hs he
    have hsum : (to_mib needed + MIN_DATA_PART_SIZE).toNat
        = (to_mib needed).toNat + MIN_DATA_PART_SIZE.toNat := by
      have := to_mib_le needed
      have hmin : MIN_DATA_PART_SIZE.toNat = 350 := rfl
      rw [UInt64.toNat_add, hmin]
      omega
    rw [UInt64.lt_iff_toNat_lt, hsum] at hshort
    omega

/-- An installation on a whole disk dies for lack of space only if its new table does not have
it. -/
theorem wipe_disk_spaceSafe {m : Machine} {g₀ : Gpt} {ictx : Ictx} {partlist : CStr} {len : Int64}
    {needed : UInt64} (hinit : m.gpt_init = some g₀) (hlen : LenIs ictx.opts (cstr "bootloader") len)
    (hneed : get_partial_space_required ictx.opts ((len.toUInt64 <<< 20) * 2) = .ret needed)
    (hroomy : ∀ g r, gpt_new (ε := Die) g₀ m.urandom = .ret (0, g, r) → g.Mapped ∧ Roomy g needed) :
    SpaceSafe (execute_wipe_disk m partlist ictx) := by
  rw [execute_wipe_disk, hinit]
  refine (gpt_new_spaceSafe g₀ m.urandom).bind ?_
  rintro ⟨ret, g, urandom⟩ hret
  simp only
  by_cases hzero : ret ≠ 0
  · rw [if_pos hzero]
    exact spaceSafe_die rfl
  rw [if_neg hzero]
  obtain rfl := not_not.mp hzero
  obtain ⟨hmap, hroom⟩ := hroomy g urandom hret
  obtain ⟨str, hstr, hlenv⟩ := hlen
  rw [hashmapGetPrintf_none.mpr hstr, Exec.ret_bind, hlenv, Exec.ret_bind]
  refine SpaceSafe.bind ?_ fun _ _ => spaceSafe_ret _
  rw [create_lacks_space_iff hmap hneed]
  exact hroom.not_lacksSpace

/-- **Whole-disk acceptance implies that there is room**: with the byte sum
`get_all_space_required` makes in 63 bits, a dialogue that ended without dual boot leaves
an installation that does not die for lack of space. Its new table has a region whose
whole MiB are enough. -/
theorem wipe_disk_has_room [Stack] {m : Machine} {g₀ : Gpt} {ictx ictx' : Ictx}
    {stdin stdin' : List UInt8} {disk partlist : CStr} {len : Int64}
    (hinit : m.gpt_init = some g₀) (hdvd : g₀.lba_size.toNat ∣ 16384)
    (hsize : g₀.lba_size.toNat * g₀.sectors.toNat < 2 ^ 63)
    (hcli : partitioner_cli ictx stdin = .ret (ictx', stdin'))
    (hwipe : ictx'.opts BASE_DUALBOOT ≠ some (cstr "1"))
    (hdisk : ictx'.opts BASE_INSTALL_DISK = some disk)
    (hpub : ictx.opts (disk_key disk "size")
      = some (dec (g₀.lba_size.toNat * g₀.sectors.toNat)))
    (hlist : ictx.opts BASE_PTN_LIST = some partlist)
    (hlen : LenIs ictx.opts (cstr "bootloader") len)
    (hsum : required_mb ictx.opts (entries partlist) len * 2 ^ 20 < 2 ^ 63) :
    SpaceSafe (execute_wipe_disk m partlist ictx') ∧
      ∀ g urandom, gpt_new (ε := Die) g₀ m.urandom = .ret (0, g, urandom) → ∃ s e needed,
        gpt_find_contiguous_free_space (ε := Die) g = .ret (some (s, e)) ∧
        get_partial_space_required ictx'.opts ((len.toUInt64 <<< 20) * 2) = .ret needed ∧
        to_mib (s * g.lba_size.toUInt64) ≤ to_mib_floor ((e + 1) * g.lba_size.toUInt64) ∧
        (to_mib needed).toNat + MIN_DATA_PART_SIZE.toNat
          ≤ (to_mib_floor ((e + 1) * g.lba_size.toUInt64)
              - to_mib (s * g.lba_size.toUInt64)).toNat := by
  -- what the dialogue has compared
  obtain ⟨disk', sz, hsz, hdual | ⟨rfl, required, hreq, hfits⟩⟩ := partitioner_cli_spec hcli
  · exact absurd hdual.dualboot hwipe
  rw [put_self] at hdisk
  injection hdisk with hdisk
  subst hdisk
  have hopts : ∀ key : CStr, key ≠ BASE_INSTALL_DISK →
      (ictx.put BASE_INSTALL_DISK disk').opts key = ictx.opts key := fun key => put_of_ne _
  have hdsz := read_sizes_disk_size hsize
    ((hopts _ (disk_key_ne (by decide))).trans hpub) hsz
  have hlist' := (hopts BASE_PTN_LIST (by decide)).trans hlist
  have hlens : ∀ n, (ictx.put BASE_INSTALL_DISK disk').opts (partition_key n "len")
      = ictx.opts (partition_key n "len") := fun n => hopts _ (partition_key_ne (by decide))
  have hlen' : LenIs (ictx.put BASE_INSTALL_DISK disk').opts (cstr "bootloader") len := by
    rw [LenIs, hlens]
    exact hlen
  have hsame : required_mb (ictx.put BASE_INSTALL_DISK disk').opts (entries partlist) len
      = required_mb ictx.opts (entries partlist) len := by
    rw [required_mb, required_mb, (sum_mb_congr fun n _ _ => hlens n).1]
  generalize ictx.put BASE_INSTALL_DISK disk' = ictx₁ at hreq hlist' hlen' hsame ⊢
  rw [← hsame] at hsum
  obtain ⟨hreqv, needed, hneed, hneedv⟩ := all_space_spec hlist' hlen' hsum hreq
  have hroom : required_mb ictx₁.opts (entries partlist) len * 2 ^ 20 + 2 * 2 ^ 20
      ≤ g₀.lba_size.toNat * g₀.sectors.toNat := room_of_check hsize hsum hreqv (hdsz ▸ hfits)
  have hmib : (to_mib needed).toNat + 350 = required_mb ictx₁.opts (entries partlist) len := by
    rw [to_mib_of_mul hneedv (Nat.lt_of_le_of_lt (Nat.mul_le_mul_right _ (Nat.le_add_right _ _)) hsum),
      required_mb]
  -- the region of the new table
  have hd : WholeDisk g₀ := ⟨hdvd, hsize, Nat.le_trans (Nat.le_add_left _ _) hroom⟩
  have hroomy : ∀ g r, gpt_new (ε := Die) g₀ m.urandom = .ret (0, g, r) →
      g.Mapped ∧ Roomy g needed := fun g r hret => roomy_new_table hd hret (by rwa [hmib])
  refine ⟨wipe_disk_spaceSafe hinit hlen' hneed hroomy, fun g urandom hret => ?_⟩
  obtain ⟨-, s, e, hfind, hstart, hend⟩ := hroomy g urandom hret
  exact ⟨s, e, needed, hfind, hneed, hstart, hend⟩

end Wipe

/-! ### A disk of 488 MiB -/

section Sda

attribute [local instance] x86 insertionQsort clean_stack

/-- The disk before `gpt_new`. -/
def sda_blank : Gpt := { blank 1000000 with device := cstr "/dev/block/sda" }

def sda_machine : Machine where
  gpt_init := some sda_blank
  dev := small_disk zero_header
  reads := []
  command := fun _ => 0
  command_output := fun _ => (0, [])
  urandom := zeros

/-- A boot loader and data on the only disk. -/
def sda_ictx : Ictx where
  opts := fun key =>
    if key = BASE_DISK_LIST then some (cstr "sda")
    else if key = disk_key (cstr "sda") "size" then some (dec (512 * 1000000))
    else if key = disk_key (cstr "sda") "model" then some (cstr "disk")
    else if key = BASE_PTN_LIST then some (cstr "bootloader bootloader2 data")
    else if key = partition_key (cstr "bootloader") "len" then some (cstr "1")
    else if key = partition_key (cstr "data") "len" then some (cstr "-1")
    else none
  iprops := fun _ => none

theorem sda_dialogue : ∃ ictx' stdin',
    partitioner_cli sda_ictx (cstr "y\n") = .ret (ictx', stdin') ∧
      ictx'.opts BASE_DUALBOOT ≠ some (cstr "1") ∧
      ictx'.opts BASE_INSTALL_DISK = some (cstr "sda") := by
  have hrun : (partitioner_cli sda_ictx (cstr "y\n")).returns (fun v =>
      decide (v.1.opts BASE_DUALBOOT ≠ some (cstr "1") ∧
        v.1.opts BASE_INSTALL_DISK = some (cstr "sda"))) = true := by
    decide +kernel
  obtain ⟨⟨ictx', stdin'⟩, hret, htest⟩ := Exec.exists_of_returns hrun
  exact ⟨ictx', stdin', hret, of_decide_eq_true htest⟩

/-- The dialogue is accepted, and the new table has a region of which the whole MiB are enough. -/
theorem sda_has_room : ∃ ictx' stdin' g s e needed,
    partitioner_cli sda_ictx (cstr "y\n") = .ret (ictx', stdin') ∧
    SpaceSafe (execute_wipe_disk sda_machine (cstr "bootloader bootloader2 data") ictx') ∧
    gpt_new (ε := Die) sda_blank zeros = .ret (0, g, zeros.next) ∧
    gpt_find_contiguous_free_space (ε := Die) g = .ret (some (s, e)) ∧
    get_partial_space_required ictx'.opts (((1 : Int64).toUInt64 <<< 20) * 2) = .ret needed ∧
    to_mib (s * g.lba_size.toUInt64) ≤ to_mib_floor ((e + 1) * g.lba_size.toUInt64) ∧
    (to_mib needed).toNat + MIN_DATA_PART_SIZE.toNat
      ≤ (to_mib_floor ((e + 1) * g.lba_size.toUInt64)
          - to_mib (s * g.lba_size.toUInt64)).toNat := by
  obtain ⟨ictx', stdin', hcli, hwipe, hdisk⟩ := sda_dialogue
  have hlen : LenIs sda_ictx.opts (cstr "bootloader") 1 :=
    ⟨cstr "1", by decide +kernel, by decide +kernel⟩
  have hlist : sda_ictx.opts BASE_PTN_LIST = some (cstr "bootloader bootloader2 data") := by
    decide +kernel
  obtain ⟨hsafe, hregion⟩ := wipe_disk_has_room (m := sda_machine) rfl (by decide) (by decide) hcli
    hwipe hdisk (by decide +kernel) hlist hlen (by decide +kernel)
  obtain ⟨g, hnew⟩ : ∃ g, gpt_new (ε := Die) sda_blank zeros = .ret (0, g, zeros.next) :=
    ⟨_, rfl⟩
  obtain ⟨s, e, needed, hfind, hneed, hstart, hfits⟩ := hregion g _ hnew
  exact ⟨ictx', stdin', g, s, e, needed, hcli, hsafe, hnew, hfind, hneed, hstart, hfits⟩

end Sda

end Iago
