/-
`diskconfig.c`: checking a `disk_info` against the device, and laying it out.

`validate` opens the device, takes the number of sectors from it unless the
configuration gives one, and adds up the sizes. Then `config_mbr` makes the layout.
`process_disk_config` stops there, and leaves the start of every partition in the
`disk_info`; `apply_disk_config` does both again and commits the write list.

Two of the checks of `validate` are not what they look like. The test for a partition of
size 0 is the second branch of an `if` whose first branch takes every size but
`(uint32_t)-1`. And the sizes are added up as 32-bit products. What `validate` does
establish is `validate_spec`: the number of sectors, the types, and that only the last
partition fills the disk.
-/
import Iago.MbrConfig
import Mathlib.Data.UInt

set_option autoImplicit false

namespace Iago

namespace EditDiskLbl

/-! ## `validate` -/

/-- `S_ISBLK`, `S_ISREG`, or neither. -/
inductive Mode where
  | blk
  | reg
  | other
  deriving DecidableEq

/-- What the calls on `dinfo->device` yield. -/
structure Device where
  open_ok : Bool
  fstat_ok : Bool
  mode : Mode
  st_size : Int64
  /-- `ioctl` with `BLKSSZGET`, `BLKGETSIZE64` and `BLKRRPART` -/
  blksszget : Option Int32
  blkgetsize64 : Option UInt64
  blkrrpart : Bool

/-- The part of `validate` that depends on the device: `num_lba` as it is left, and
`disk_size`. -/
def disk_size (dev : Device) (sect_size : Int32) (num_lba : UInt32) : Option (UInt32 × UInt64) :=
  match dev.mode with
  | .blk =>
    match dev.blksszget with
    | none => none
    | some sect_sz =>
      if sect_sz = 0 ∨ sect_sz ≠ sect_size then none
      else if num_lba = 0 then
        dev.blkgetsize64.map fun disk_size =>
          ((disk_size / sect_size.toInt64.toUInt64).toUInt32, disk_size)
      else some (num_lba, num_lba.toUInt64 * sect_size.toInt64.toUInt64)
  | .reg =>
    if sect_size = 0 then none
    else if num_lba = 0 then
      some ((dev.st_size / sect_size.toInt64).toUInt64.toUInt32, dev.st_size.toUInt64)
    else some (num_lba, num_lba.toUInt64 * sect_size.toInt64.toUInt64)
  | .other => none

/-- What the loop of `validate` does about the size of a partition. -/
def sum_part (part : PartInfo) (last : Bool) (total_size : UInt64) : Option UInt64 :=
  if part.len_kb ≠ FILL then some (total_size + (part.len_kb * 1024).toUInt64)
  else if part.len_kb = 0 then none
  else if last then some total_size
  else none

/-- The loop of `validate`. -/
def sum_parts : List PartInfo → (total_size : UInt64) → Option UInt64
  | [], total_size => some total_size
  | part :: parts, total_size =>
    match sum_part part parts.isEmpty total_size with
    | none => none
    | some total_size =>
      if part.type ≠ PC_PART_TYPE_LINUX ∧ part.type ≠ PC_PART_TYPE_FAT32 then none
      else sum_parts parts total_size

/-- `validate`, with the `disk_info` it leaves instead of the file descriptor. -/
def validate (dev : Device) (dinfo : DiskInfo) : Option DiskInfo :=
  if dev.open_ok ∧ dev.fstat_ok then do
    let (num_lba, disk_size) ← disk_size dev dinfo.sect_size dinfo.num_lba
    let dinfo := { dinfo with num_lba }
    let total_size := (dinfo.skip_lba * dinfo.sect_size.toUInt32).toUInt64
    let total_size ← sum_parts dinfo.part_lst total_size
    if dev.mode = .blk ∧ total_size > disk_size then none else some dinfo
  else none

/-! ## `process_disk_config` and `apply_disk_config` -/

/-- `validate_and_config`: the `disk_info` as it is left, and the write list. -/
def validate_and_config (dev : Device) (dinfo : DiskInfo) : Option (DiskInfo × List WriteItem) := do
  let dinfo ← validate dev dinfo
  if dinfo.scheme = PART_SCHEME_MBR then config_mbr dinfo else none

/-- `process_disk_config`: the `disk_info` as it is left, if what is returned is 0. -/
def process_disk_config (dev : Device) (dinfo : DiskInfo) : Option DiskInfo :=
  (validate_and_config dev dinfo).map Prod.fst

/-- `sync_ptable`; the device is the same one that has been opened. -/
def sync_ptable (dev : Device) : Int :=
  if ¬ dev.fstat_ok then -1
  else if dev.mode = .blk ∧ ¬ dev.blkrrpart then -1
  else 0

/-- `apply_disk_config`: what it returns, with the `disk_info` and the contents of the
device as they are left. -/
def apply_disk_config (dev : Device) (test : Bool) (writes : List IoRes) (disk : Store)
    (dinfo : DiskInfo) : Exec Empty (Int × DiskInfo × Store × List IoRes) :=
  match validate_and_config dev dinfo with
  | none => .ret (1, dinfo, disk, writes)
  | some (dinfo, wr_lst) => do
    let (rv, disk, writes) ← wlist_commit test writes disk wr_lst
    if rv ≥ 0 then
      let rv := if test then 0 else sync_ptable dev
      .ret (rv, dinfo, disk, writes)
    else .ret (rv, dinfo, disk, writes)

/-- `find_part`: the index of the partition. -/
def find_part (dinfo : DiskInfo) (name : CStr) : Option ℕ :=
  dinfo.part_lst.findIdx? (·.name = name)

/-! ## What `validate` establishes -/

section Spec

variable {dev : Device} {dinfo v : DiskInfo}

/-- A number of sectors that is given is not changed. -/
theorem disk_size_spec {sect_size : Int32} {num_lba num_lba' : UInt32} {size : UInt64}
    (h : disk_size dev sect_size num_lba = some (num_lba', size)) (hgiven : num_lba ≠ 0) :
    num_lba' = num_lba := by
  unfold disk_size at h
  split at h
  · split at h
    · cases h
    · split_ifs at h
      simp only [Option.some.injEq, Prod.mk.injEq] at h
      exact h.1.symm
  · split_ifs at h
    simp only [Option.some.injEq, Prod.mk.injEq] at h
    exact h.1.symm
  · cases h

/-- Only the last partition of a list fills the disk. -/
def FillLast (parts : List PartInfo) : Prop :=
  ∀ (init rest : List PartInfo) (p : PartInfo), parts = init ++ p :: rest → p.len_kb = FILL →
    rest = []

/-- Only the last one of a list may fill the disk. -/
theorem fillLast_iff {parts : List PartInfo} :
    FillLast parts ↔ ∀ (i : ℕ) (p : PartInfo), parts[i]? = some p → p.len_kb = FILL →
      i + 1 = parts.length := by
  constructor
  · intro h i p hp hfill
    obtain ⟨hi, hget⟩ := List.getElem?_eq_some_iff.mp hp
    have hsplit : parts = parts.take i ++ p :: parts.drop (i + 1) := by
      rw [← hget, List.getElem_cons_drop, List.take_append_drop]
    have hnil := h _ _ p hsplit hfill
    rw [List.drop_eq_nil_iff] at hnil
    omega
  · rintro h init rest p rfl hfill
    have hlength := h init.length p (by simp) hfill
    rw [List.length_append, List.length_cons] at hlength
    exact List.length_eq_zero_iff.mp (by omega)

theorem FillLast.tail {p : PartInfo} {parts : List PartInfo} (h : FillLast (p :: parts)) :
    FillLast parts :=
  fun init rest q heq => h (p :: init) rest q (by rw [heq, List.cons_append])

theorem FillLast.head {p : PartInfo} {parts : List PartInfo} (h : FillLast (p :: parts))
    (hp : p.len_kb = FILL) : parts = [] :=
  h [] parts p rfl hp

/-- The size `validate` takes a partition to have. -/
def size_added (p : PartInfo) : UInt64 := if p.len_kb ≠ FILL then (p.len_kb * 1024).toUInt64 else 0

/-- One round of the loop that adds up the sizes. -/
theorem sum_part_eq (p : PartInfo) (last : Bool) (total : UInt64) :
    sum_part p last total =
      if p.len_kb = FILL ∧ last = false then none else some (total + size_added p) := by
  rw [sum_part, size_added]
  by_cases hfill : p.len_kb = FILL
  · rw [if_neg (not_not.mpr hfill), if_neg (by rw [hfill]; decide), if_neg (not_not.mpr hfill),
      UInt64.add_zero]
    cases last <;> simp [hfill]
  · rw [if_pos hfill, if_neg (fun h => hfill h.1), if_pos hfill]

/-- The loop of `validate`, on a list it accepts: the sizes are added up as 32-bit products. -/
theorem sum_parts_spec {parts : List PartInfo} {total total' : UInt64}
    (h : sum_parts parts total = some total') :
    FillLast parts ∧
      (∀ p ∈ parts, p.type = PC_PART_TYPE_LINUX ∨ p.type = PC_PART_TYPE_FAT32) ∧
      total' = total + (parts.map size_added).sum := by
  induction parts generalizing total with
  | nil =>
    rw [sum_parts, Option.some.injEq] at h
    refine ⟨fun init rest p heq => ?_, fun p hp => ?_, ?_⟩
    · cases init with
      | nil => cases heq
      | cons => cases heq
    · cases hp
    · rw [List.map_nil, List.sum_nil, UInt64.add_zero, h]
  | cons p parts ih =>
    rw [sum_parts, sum_part_eq] at h
    -- Only the last partition may fill, and its type must be one of the two.
    by_cases hfill : p.len_kb = FILL ∧ parts.isEmpty = false
    · rw [if_pos hfill] at h
      cases h
    rw [if_neg hfill] at h
    simp only at h
    by_cases htype : p.type ≠ PC_PART_TYPE_LINUX ∧ p.type ≠ PC_PART_TYPE_FAT32
    · rw [if_pos htype] at h
      cases h
    rw [if_neg htype] at h
    obtain ⟨hlast, htypes, htotal⟩ := ih h
    rw [not_and_or, not_not, not_not] at htype
    refine ⟨?_, ?_, ?_⟩
    · intro init rest q heq hq
      cases init with
      | nil =>
        rw [List.nil_append, List.cons.injEq] at heq
        obtain ⟨rfl, rfl⟩ := heq
        rw [not_and, Bool.not_eq_false, List.isEmpty_iff] at hfill
        exact hfill hq
      | cons i init =>
        rw [List.cons_append, List.cons.injEq] at heq
        exact hlast init rest q heq.2 hq
    · intro q hq
      rcases List.mem_cons.mp hq with rfl | hmem
      · exact htype
      · exact htypes q hmem
    · rw [List.map_cons, List.sum_cons, htotal, UInt64.add_assoc]

theorem sum_parts_eq {parts : List PartInfo} (hlast : FillLast parts)
    (htypes : ∀ p ∈ parts, p.type = PC_PART_TYPE_LINUX ∨ p.type = PC_PART_TYPE_FAT32)
    (total : UInt64) : sum_parts parts total = some (total + (parts.map size_added).sum) := by
  induction parts generalizing total with
  | nil => rw [sum_parts, List.map_nil, List.sum_nil, UInt64.add_zero]
  | cons p parts ih =>
    have hfill : ¬ (p.len_kb = FILL ∧ parts.isEmpty = false) := by
      rintro ⟨hp, hempty⟩
      rw [hlast.head hp] at hempty
      cases hempty
    have htype : ¬ (p.type ≠ PC_PART_TYPE_LINUX ∧ p.type ≠ PC_PART_TYPE_FAT32) := by
      rw [not_and_or, not_not, not_not]
      exact htypes p List.mem_cons_self
    rw [sum_parts, sum_part_eq, if_neg hfill]
    simp only [if_neg htype]
    rw [ih hlast.tail (fun q hq => htypes q (List.mem_cons_of_mem _ hq)), List.map_cons,
      List.sum_cons, UInt64.add_assoc]

/-- **What `validate` establishes**: it sets the number of sectors if it is not given, and
accepts the types and the place of a partition that fills the disk. -/
theorem validate_spec (h : validate dev dinfo = some v) :
    v = { dinfo with num_lba := v.num_lba } ∧ (dinfo.num_lba ≠ 0 → v = dinfo) ∧
      FillLast dinfo.part_lst ∧
      ∀ p ∈ dinfo.part_lst, p.type = PC_PART_TYPE_LINUX ∨ p.type = PC_PART_TYPE_FAT32 := by
  unfold validate at h
  split_ifs at h
  simp only [Option.bind_eq_bind, Option.bind_eq_some_iff] at h
  obtain ⟨⟨num_lba, size⟩, hsize, total, htotal, h⟩ := h
  split_ifs at h with hfit
  rw [Option.some.injEq] at h
  subst h
  obtain ⟨hlast, htypes, -⟩ := sum_parts_spec htotal
  refine ⟨rfl, fun hgiven => ?_, hlast, htypes⟩
  rw [disk_size_spec hsize hgiven]

end Spec

end EditDiskLbl

end Iago
