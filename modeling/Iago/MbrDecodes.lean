/-
The committed MBR is the layout that was asked for.

`config_mbr` makes its items at ascending places of the disk: the entries of the MBR,
and behind sector 0 the boot records, each in front of its partition
(`items_stretches`). So what is committed is exactly these records on top of a blank
table, whatever was on the disk before, and a reader finds the partitions in them, one
behind the other (`committed_table_decodes`).
-/
import Iago.MbrReader
import Mathlib.Tactic.Positivity

set_option autoImplicit false

namespace Iago

namespace EditDiskLbl

/-! ## Where the items go -/

/-- The write an item stands for. -/
def WriteItem.write (item : WriteItem) : ℕ × List UInt8 := (item.offset.toNat, item.data)

section Items

variable {dinfo : DiskInfo}

/-- A primary entry takes 16 bytes of the MBR. -/
theorem stretch_pri_item (pnum : ℕ) (pentry : PcPartition) :
    Store.stretch (pri_item pnum pentry).write = (pentry_offset pnum, 16) := by
  rw [Store.stretch, WriteItem.write, pri_item, PcPartition.length_enc]
  rfl

theorem stretch_ebr_item (hsect : dinfo.PowerOfTwo) (lba : UInt32) (r : PcBootRecord) :
    Store.stretch (dinfo.ebr_item lba r).write = (lba.toNat * dinfo.sect, 512) := by
  rw [Store.stretch, WriteItem.write, DiskInfo.ebr_item, PcBootRecord.length_enc]
  simp only [hsect.offset_toNat]

/-- The stretches of a list of items. -/
def stretches (items : List WriteItem) : List (ℕ × ℕ) :=
  items.map fun item => Store.stretch item.write

/-- The entries of the partitions are next to each other. -/
theorem pri_items_stretches (parts : List PartInfo) (cnt : ℕ) (lba : UInt32) :
    Stretches (pentry_offset cnt) (pentry_offset (cnt + parts.length))
      (stretches (dinfo.pri_items cnt parts lba)) := by
  induction parts generalizing cnt lba with
  | nil => exact Nat.le_refl _
  | cons p parts ih =>
    have hrest := ih (cnt + 1) (dinfo.after 0 lba p)
    rw [Nat.add_right_comm] at hrest
    rw [DiskInfo.pri_items, stretches, List.map_cons, stretch_pri_item]
    refine ⟨Nat.le_refl _, hrest.mono ?_ (Nat.le_refl _)⟩
    show ptable_offset + 16 * cnt + 16 ≤ ptable_offset + 16 * (cnt + 1)
    omega

theorem blank_items_stretches (cnt left : ℕ) :
    Stretches (pentry_offset cnt) (pentry_offset (cnt + left)) (stretches (blank_items cnt left)) := by
  induction left generalizing cnt with
  | zero => exact Nat.le_refl _
  | succ left ih =>
    have hrest := ih (cnt + 1)
    rw [Nat.add_right_comm] at hrest
    rw [blank_items, stretches, List.map_cons, stretch_pri_item]
    refine ⟨Nat.le_refl _, hrest.mono ?_ (Nat.le_refl _)⟩
    show ptable_offset + 16 * cnt + 16 ≤ ptable_offset + 16 * (cnt + 1)
    omega

/-- Each boot record is in front of its partition, and a sector has room for one. -/
theorem log_items_stretches (hsect : dinfo.PowerOfTwo) {parts : List PartInfo}
    (hparts : Sized parts) (ext_lba : UInt32) {lba : UInt32}
    (hsum : lba.toNat + dinfo.total 1 parts < 2 ^ 32) :
    Stretches (lba.toNat * dinfo.sect) ((lba.toNat + dinfo.total 1 parts) * dinfo.sect)
      (stretches (dinfo.log_items ext_lba parts lba)) := by
  induction parts generalizing lba with
  | nil => exact Nat.le_refl _
  | cons p parts ih =>
    obtain ⟨-, -, hafter⟩ := step_of_sum hsect hparts UInt32.toNat_one hsum
    rw [DiskInfo.total_cons] at hsum ⊢
    have hrest := ih hparts.tail (by omega : (dinfo.after 1 lba p).toNat + _ < 2 ^ 32)
    rw [hafter, Nat.add_assoc lba.toNat] at hrest
    rw [DiskInfo.log_items, stretches, List.map_cons, stretch_ebr_item hsect]
    refine ⟨Nat.le_refl _, hrest.mono ?_ (Nat.le_refl _)⟩
    have hroom : 512 ≤ dinfo.sect := hsect.sect_ge
    calc lba.toNat * dinfo.sect + 512 ≤ lba.toNat * dinfo.sect + dinfo.sect := by omega
      _ = (lba.toNat + 1) * dinfo.sect := by rw [Nat.add_mul, Nat.one_mul]
      _ ≤ (lba.toNat + (1 + dinfo.exact p)) * dinfo.sect := Nat.mul_le_mul_right _ (by omega)

/-- The boot records that are made are those of the logical partitions. -/
theorem mem_log_items (hsect : dinfo.PowerOfTwo) {parts : List PartInfo} (hparts : Sized parts)
    (ext_lba : UInt32) {lba : UInt32} (hsum : lba.toNat + dinfo.total 1 parts < 2 ^ 32) :
    (∀ item ∈ dinfo.log_items ext_lba parts lba, ∃ p ∈ dinfo.place 1 parts lba,
      Store.stretch item.write = ((p.start_lba.toNat - 1) * dinfo.sect, 512)) ∧
    ∀ p ∈ dinfo.place 1 parts lba, ∃ (l : UInt32) (r : PcBootRecord),
      dinfo.ebr_item l r ∈ dinfo.log_items ext_lba parts lba ∧
        l.toNat = p.start_lba.toNat - 1 ∧ r.mbr_sig = PC_BIOS_BOOT_SIG := by
  induction parts generalizing lba with
  | nil => exact ⟨fun _ h => (by cases h), fun _ h => (by cases h)⟩
  | cons p parts ih =>
    obtain ⟨-, hstart, hafter⟩ := step_of_sum hsect hparts UInt32.toNat_one hsum
    rw [DiskInfo.total_cons] at hsum
    -- A boot record for each partition, one sector in front of it.
    obtain ⟨hitems, hplaced⟩ := ih hparts.tail (by omega : (dinfo.after 1 lba p).toNat + _ < 2 ^ 32)
    rw [DiskInfo.log_items, DiskInfo.place]
    constructor
    · intro item hitem
      rcases List.mem_cons.mp hitem with rfl | hmem
      · refine ⟨_, List.mem_cons_self, ?_⟩
        rw [stretch_ebr_item hsect, hstart, Nat.add_sub_cancel]
      · obtain ⟨q, hq, h⟩ := hitems item hmem
        exact ⟨q, List.mem_cons_of_mem _ hq, h⟩
    · intro q hq
      rcases List.mem_cons.mp hq with rfl | hmem
      · exact ⟨lba, _, List.mem_cons_self, by rw [hstart, Nat.add_sub_cancel], rfl⟩
      · obtain ⟨l, r, hmem, h⟩ := hplaced q hmem
        exact ⟨l, r, List.mem_cons_of_mem _ hmem, h⟩

theorem length_primary : dinfo.primary.length = min dinfo.num_parts (if dinfo.num_parts ≤ 4 then 4
    else 3) := by
  unfold DiskInfo.primary
  by_cases hparts : dinfo.num_parts ≤ 4
  · rw [if_pos hparts, if_pos hparts, Nat.min_eq_left hparts]
    rfl
  · rw [if_neg hparts, if_neg hparts, List.length_take, Nat.min_comm]
    rfl

/-- The items are those of the MBR, one behind the other in its table, and behind them the
boot records. -/
theorem items_split (dinfo : DiskInfo) :
    ∃ mbr, dinfo.items = mbr ++ dinfo.log_items dinfo.ext_lba dinfo.logical dinfo.ext_lba ∧
      Stretches 446 510 (stretches mbr) := by
  have hpri := @pri_items_stretches dinfo dinfo.primary 0 dinfo.skip_lba
  have hlength := @length_primary dinfo
  rw [Nat.zero_add] at hpri
  unfold DiskInfo.items
  by_cases hparts : dinfo.num_parts ≤ 4
  · rw [if_pos hparts, Nat.min_eq_left hparts] at hlength
    have hblank := blank_items_stretches dinfo.num_parts (4 - dinfo.num_parts)
    rw [Nat.add_sub_cancel' hparts] at hblank
    rw [hlength] at hpri
    have hlogical : dinfo.logical = [] := if_pos hparts
    refine ⟨_, by rw [if_pos hparts, hlogical, DiskInfo.log_items, List.append_nil], ?_⟩
    rw [stretches, List.map_append]
    exact hpri.append hblank
  · rw [if_neg hparts, Nat.min_eq_right (by omega)] at hlength
    rw [hlength] at hpri
    refine ⟨dinfo.pri_items 0 dinfo.primary dinfo.skip_lba
      ++ [pri_item 3 (dinfo.ext_pentry dinfo.ext_lba)], ?_, ?_⟩
    · rw [if_neg hparts, List.append_assoc, List.singleton_append]
    · rw [stretches, List.map_append, List.map_singleton, stretch_pri_item]
      exact hpri.append ⟨Nat.le_refl _, (by decide : 446 + 16 * 3 + 16 ≤ 510)⟩

end Items

/-! ## Committing -/

section Commit

variable {dinfo : DiskInfo}

/-- `wlist_commit` makes the writes of the list, in its order. -/
theorem wlist_commit_apply {writes writes' : List IoRes} {fd fd' : Store} {lst : List WriteItem}
    (h : wlist_commit false writes fd lst = .ret (0, fd', writes')) :
    fd' = fd.apply (lst.map WriteItem.write) := by
  induction lst generalizing writes fd with
  | nil =>
    unfold wlist_commit at h
    simp only [Exec.ret.injEq, Prod.mk.injEq, true_and] at h
    exact h.1.symm
  | cons item lst ih =>
    unfold wlist_commit at h
    by_cases hoffset : item.offset < 0
    · rw [if_pos hoffset] at h
      simp at h
    rw [if_neg hoffset, if_neg Bool.false_ne_true] at h
    cases writes with
    | nil => cases h
    | cons w writes =>
      simp only at h
      by_cases hret : w.amount item.data.length = item.data.length
      · rw [if_neg (not_not.mpr hret), hret, List.take_length] at h
        rw [List.map_cons, Store.apply_cons]
        exact ih h
      · rw [if_pos hret] at h
        simp at h

/-- Every item has an offset that can be sought to. -/
theorem items_offset (hsect : dinfo.PowerOfTwo) : ∀ item ∈ dinfo.items, 0 ≤ item.offset := by
  have hpri : ∀ (parts : List PartInfo) (cnt : ℕ) (lba : UInt32),
      ∀ item ∈ dinfo.pri_items cnt parts lba, 0 ≤ item.offset := by
    intro parts
    induction parts with
    | nil => exact fun _ _ _ h => by cases h
    | cons p parts ih =>
      intro cnt lba item h
      rcases List.mem_cons.mp h with rfl | hmem
      · exact Int.natCast_nonneg _
      · exact ih _ _ item hmem
  have hlog : ∀ (parts : List PartInfo) (ext_lba lba : UInt32),
      ∀ item ∈ dinfo.log_items ext_lba parts lba, 0 ≤ item.offset := by
    intro parts
    induction parts with
    | nil => exact fun _ _ _ h => by cases h
    | cons p parts ih =>
      intro ext_lba lba item h
      rcases List.mem_cons.mp h with rfl | hmem
      · obtain ⟨k, -, -, -, hint⟩ := hsect.sect_eq
        -- The offset of a boot record is a product in the size of a sector, which is positive.
        rw [DiskInfo.ebr_item, hint]
        positivity
      · exact ih _ _ item hmem
  have hblank : ∀ left cnt, ∀ item ∈ blank_items cnt left, 0 ≤ item.offset := by
    intro left
    induction left with
    | zero => exact fun _ _ h => by cases h
    | succ left ih =>
      intro cnt item h
      rcases List.mem_cons.mp h with rfl | hmem
      · exact Int.natCast_nonneg _
      · exact ih _ item hmem
  intro item hitem
  unfold DiskInfo.items at hitem
  rcases List.mem_append.mp hitem with hmem | hmem
  · exact hpri _ _ _ item hmem
  · split_ifs at hmem
    · exact hblank _ _ item hmem
    · rcases List.mem_cons.mp hmem with rfl | hmem
      · exact Int.natCast_nonneg _
      · exact hlog _ _ _ item hmem

/-- A list is committed if every write takes all it is given. -/
theorem wlist_commit_all {lst : List WriteItem} (hlst : ∀ item ∈ lst, 0 ≤ item.offset)
    (fd : Store) :
    wlist_commit false (List.replicate lst.length .all) fd lst =
      .ret (0, fd.apply (lst.map WriteItem.write), []) := by
  induction lst generalizing fd with
  | nil => rfl
  | cons item lst ih =>
    have hoffset := hlst item List.mem_cons_self
    rw [List.length_cons, List.replicate_succ]
    unfold wlist_commit
    rw [if_neg (by omega), if_neg Bool.false_ne_true]
    simp only [IoRes.amount, ne_eq, not_true_eq_false, if_false, List.take_length]
    rw [ih fun i hi => hlst i (List.mem_cons_of_mem _ hi)]
    rfl

/-- The running LBA behind the last partition, if nothing wraps. -/
def DiskInfo.last_lba (dinfo : DiskInfo) : ℕ :=
  dinfo.skip_lba.toNat + dinfo.total 0 dinfo.primary + dinfo.total 1 dinfo.logical

/-- A primary partition is one of the list. -/
theorem mem_of_mem_primary {p : PartInfo} (h : p ∈ dinfo.primary) : p ∈ dinfo.part_lst := by
  unfold DiskInfo.primary at h
  split_ifs at h
  · exact h
  · exact List.mem_of_mem_take h

theorem mem_of_mem_logical {p : PartInfo} (h : p ∈ dinfo.logical) : p ∈ dinfo.part_lst := by
  unfold DiskInfo.logical at h
  split_ifs at h
  · cases h
  · exact List.mem_of_mem_drop h

theorem primary_append_logical (dinfo : DiskInfo) :
    dinfo.primary ++ dinfo.logical = dinfo.part_lst := by
  unfold DiskInfo.primary DiskInfo.logical
  split_ifs
  · exact List.append_nil _
  · exact List.take_append_drop _ _

@[simp] theorem length_place (e : UInt32) (parts : List PartInfo) (lba : UInt32) :
    (dinfo.place e parts lba).length = parts.length := by
  induction parts generalizing lba with
  | nil => rfl
  | cons p parts ih => rw [DiskInfo.place, List.length_cons, List.length_cons, ih]

theorem length_parts : dinfo.parts.length = dinfo.num_parts := by
  rw [DiskInfo.parts, List.length_append, length_place, length_place, ← List.length_append,
    primary_append_logical]
  rfl

/-- The primary and the logical partitions of what is left. -/
theorem parts_split :
    ({ dinfo with part_lst := dinfo.parts } : DiskInfo).primary
        = dinfo.place 0 dinfo.primary dinfo.skip_lba ∧
      ({ dinfo with part_lst := dinfo.parts } : DiskInfo).logical
        = dinfo.place 1 dinfo.logical dinfo.ext_lba := by
  have hnum : ({ dinfo with part_lst := dinfo.parts } : DiskInfo).num_parts = dinfo.num_parts :=
    length_parts
  have hlength := @length_primary dinfo
  unfold DiskInfo.primary DiskInfo.logical
  rw [hnum]
  -- Up to four partitions are primary, and of more the first three.
  by_cases hparts : dinfo.num_parts ≤ 4
  · simp only [if_pos hparts]
    refine ⟨?_, rfl⟩
    show dinfo.parts = _
    rw [DiskInfo.parts, show dinfo.logical = [] from if_pos hparts, DiskInfo.place,
      List.append_nil, show dinfo.primary = dinfo.part_lst from if_pos hparts]
  · simp only [if_neg hparts]
    have hplace : (dinfo.place 0 dinfo.primary dinfo.skip_lba).length = 3 := by
      rw [length_place, hlength, if_neg hparts]
      omega
    constructor
    · show dinfo.parts.take 3 = _
      rw [DiskInfo.parts, List.take_left' hplace,
        show dinfo.primary = dinfo.part_lst.take 3 from if_neg hparts]
    · show dinfo.parts.drop 3 = _
      rw [DiskInfo.parts, List.drop_left' hplace,
        show dinfo.logical = dinfo.part_lst.drop 3 from if_neg hparts]

end Commit

/-! ## What is on the disk -/

section Disk

variable {dinfo : DiskInfo}

/-- A disk with the items committed: over a blank table, the last one first. -/
def DiskInfo.committed (dinfo : DiskInfo) (image : Store) : Store :=
  (image.write 446 mk_empty_ptable.data).apply (dinfo.items.map WriteItem.write).reverse

/-- The layout a claim of success needs nothing more of: sizes are given, and no sum of them
wraps. -/
structure DiskInfo.NoWrap (dinfo : DiskInfo) : Prop where
  sect : dinfo.PowerOfTwo
  skip : 1 ≤ dinfo.skip_lba.toNat
  sized : Sized dinfo.part_lst
  sum : dinfo.last_lba < 2 ^ 32

/-- The primary partitions have sizes. -/
theorem DiskInfo.NoWrap.primary (h : dinfo.NoWrap) : Sized dinfo.primary :=
  fun p hp => h.sized p (mem_of_mem_primary hp)

theorem DiskInfo.NoWrap.logical (h : dinfo.NoWrap) : Sized dinfo.logical :=
  fun p hp => h.sized p (mem_of_mem_logical hp)

/-- Where the primary partitions end does not wrap. -/
theorem DiskInfo.NoWrap.primary_sum (h : dinfo.NoWrap) :
    dinfo.skip_lba.toNat + dinfo.total 0 dinfo.primary < 2 ^ 32 := by
  have := h.sum
  unfold DiskInfo.last_lba at this
  omega

/-- Where the extended partition is. -/
theorem DiskInfo.NoWrap.ext (h : dinfo.NoWrap) :
    dinfo.ext_lba.toNat = dinfo.skip_lba.toNat + dinfo.total 0 dinfo.primary :=
  @toNat_end_lba dinfo h.sect _ h.primary 0 _ h.primary_sum

/-- Nor does where the logical ones end. -/
theorem DiskInfo.NoWrap.logical_sum (h : dinfo.NoWrap) :
    dinfo.ext_lba.toNat + dinfo.total 1 dinfo.logical < 2 ^ 32 := by
  rw [h.ext]
  exact h.sum

/-- The boot records are behind sector 0. -/
theorem DiskInfo.NoWrap.log_stretches (h : dinfo.NoWrap) :
    ∃ hi, Stretches 512 hi
      (stretches (dinfo.log_items dinfo.ext_lba dinfo.logical dinfo.ext_lba)) := by
  refine ⟨_, (log_items_stretches h.sect h.logical dinfo.ext_lba h.logical_sum).mono ?_
    (Nat.le_refl _)⟩
  have hsect := h.sect.sect_ge
  have hext := h.ext
  have hskip := h.skip
  calc 512 ≤ dinfo.sect := hsect
    _ = 1 * dinfo.sect := (Nat.one_mul _).symm
    _ ≤ dinfo.ext_lba.toNat * dinfo.sect := Nat.mul_le_mul_right _ (by omega)

/-- Every item is on the committed disk. -/
theorem DiskInfo.NoWrap.written (h : dinfo.NoWrap) (image : Store) :
    ∀ item ∈ dinfo.items, Written (dinfo.committed image) item := by
  obtain ⟨mbr, hitems, hmbr⟩ := items_split dinfo
  obtain ⟨hi, hlog⟩ := h.log_stretches
  have hall : Stretches 446 hi (stretches dinfo.items) := by
    rw [hitems, stretches, List.map_append]
    exact hmbr.append (hlog.mono (by decide) (Nat.le_refl _))
  intro item hitem
  have hwrites : Stretches 446 hi ((dinfo.items.map WriteItem.write).map Store.stretch) := by
    rw [List.map_map]
    exact hall
  exact Store.read_apply_reverse hwrites (List.mem_map_of_mem hitem) _

/-- What is not in the table of the MBR or in a boot record is as it was. -/
theorem DiskInfo.NoWrap.outside (h : dinfo.NoWrap) (image : Store) {b : ℕ}
    (hb : b < 446 ∨ 512 ≤ b) (hlog : ∀ p ∈ dinfo.place 1 dinfo.logical dinfo.ext_lba,
      b < (p.start_lba.toNat - 1) * dinfo.sect ∨ (p.start_lba.toNat - 1) * dinfo.sect + 512 ≤ b) :
    dinfo.committed image b = image b := by
  obtain ⟨mbr, hitems, hmbr⟩ := items_split dinfo
  have hlength : mk_empty_ptable.data.length = 66 := by decide
  rw [DiskInfo.committed, Store.apply_of_outside, Store.write_apply_of_outside (by omega)]
  intro w hw
  rw [List.mem_reverse, List.mem_map] at hw
  obtain ⟨item, hitem, rfl⟩ := hw
  rw [hitems] at hitem
  rcases List.mem_append.mp hitem with hmem | hmem
  · obtain ⟨hlo, hhi⟩ := hmbr.mem (List.mem_map_of_mem hmem)
    simp only [Store.stretch] at hlo hhi
    omega
  · obtain ⟨p, hp, hstretch⟩ :=
      (mem_log_items h.sect h.logical dinfo.ext_lba h.logical_sum).1 item hmem
    have hfirst := congrArg Prod.fst hstretch
    have hsecond := congrArg Prod.snd hstretch
    simp only [Store.stretch] at hfirst hsecond
    rw [hfirst, hsecond]
    exact hlog p hp

/-- The signature of the MBR is that of the blank table. -/
theorem DiskInfo.NoWrap.mbr_signed (h : dinfo.NoWrap) (image : Store) :
    signed (dinfo.committed image) 0 = true := by
  obtain ⟨mbr, hitems, hmbr⟩ := items_split dinfo
  obtain ⟨hi, hlog⟩ := h.log_stretches
  apply decide_eq_true
  rw [DiskInfo.committed, Store.read_apply_of_disjoint]
  · have hread := Store.read_write_self image 446 mk_empty_ptable.data
    have hslice := @Store.slice_read (image.write 446 mk_empty_ptable.data) 446 66 64 2 (by decide)
    rw [show 66 = mk_empty_ptable.data.length from rfl, hread] at hslice
    exact hslice.symm
  · intro w hw
    rw [List.mem_reverse, List.mem_map] at hw
    obtain ⟨item, hitem, rfl⟩ := hw
    rw [hitems] at hitem
    rcases List.mem_append.mp hitem with hmem | hmem
    · have := (hmbr.mem (List.mem_map_of_mem hmem)).2
      exact .inr (by simpa [Store.stretch] using this)
    · have := (hlog.mem (List.mem_map_of_mem hmem)).1
      exact .inl (by simpa [Store.stretch] using this)

/-- A partition that has passed the tests leaves room in front of the end of the disk. -/
theorem lt_num_lba {p : PartInfo} {rest : List PartInfo} {e lba : UInt32}
    (h : dinfo.rooms e (p :: rest) lba = true) :
    dinfo.num_lba = 0 ∨ (lba + e).toNat < dinfo.num_lba.toNat := by
  rw [DiskInfo.rooms, decide_eq_true_eq] at h
  have hspace := h.1
  unfold nospace at hspace
  by_cases hnum : dinfo.num_lba = 0
  · exact .inl hnum
  · by_cases hge : lba + e ≥ dinfo.num_lba
    · rw [if_pos ⟨hnum, hge⟩] at hspace
      exact absurd rfl hspace
    · rw [ge_iff_le, UInt32.le_iff_toNat_le] at hge
      exact .inr (Nat.lt_of_not_le hge)

/-- The extended partition is not empty. -/
theorem DiskInfo.NoWrap.ext_pentry (h : dinfo.NoWrap) (hroom : dinfo.room = true)
    (hne : dinfo.logical ≠ []) : ¬ (dinfo.ext_pentry dinfo.ext_lba).len_lba = 0 := by
  intro hzero
  have heq : dinfo.num_lba = dinfo.ext_lba := by
    rw [← UInt32.sub_add_cancel dinfo.num_lba dinfo.ext_lba,
      show dinfo.num_lba - dinfo.ext_lba = 0 from hzero, UInt32.zero_add]
  have hext := h.ext
  have hskip := h.skip
  have hsum := h.logical_sum
  rw [DiskInfo.room, Bool.and_eq_true] at hroom
  cases hlogical : dinfo.logical with
  | nil => exact hne hlogical
  | cons p rest =>
    rw [hlogical] at hroom hsum
    rw [DiskInfo.total_cons] at hsum
    have hone : (dinfo.ext_lba + 1).toNat = dinfo.ext_lba.toNat + 1 :=
      toNat_add_of_lt (by rw [UInt32.toNat_one]; omega)
    rcases lt_num_lba hroom.2 with hnum | hlt
    · rw [heq] at hnum
      rw [hnum, UInt32.toNat_zero] at hext
      omega
    · rw [heq, hone] at hlt
      omega

/-- The number of partition `i` of `n`: the extended partition takes the number 4. -/
def kernel_number (n i : ℕ) : ℕ := if n ≤ 4 ∨ i < 3 then i + 1 else i + 2

/-- What a reader finds, entry by entry. -/
theorem found_eq (dinfo : DiskInfo) (number : ℕ) (parts : List PartInfo) :
    found dinfo number parts = parts.mapIdx fun i p =>
      ⟨number + i, p.start_lba.toNat, dinfo.exact p, p.type⟩ := by
  induction parts generalizing number with
  | nil => rfl
  | cons p parts ih =>
    rw [found, List.mapIdx_cons, ih]
    simp only [Nat.add_zero, Nat.add_assoc, Nat.add_comm 1]

/-- The reader finds the partitions where they have been placed. -/
theorem DiskInfo.NoWrap.reads (h : dinfo.NoWrap) (hpos : ∀ p ∈ dinfo.part_lst, 0 < dinfo.exact p)
    (htype : ∀ p ∈ dinfo.part_lst, p.type ≠ PC_PART_TYPE_EXTENDED) (hroom : dinfo.room = true)
    (image : Store) {fuel : ℕ} (hfuel : dinfo.num_parts ≤ fuel) :
    read_table (dinfo.committed image) dinfo.sect fuel =
      some (dinfo.parts.mapIdx fun i p =>
        ⟨kernel_number dinfo.num_parts i, p.start_lba.toNat, dinfo.exact p, p.type⟩) := by
  have hw := h.written image
  have hlength := @length_primary dinfo
  have hpri : ∀ left, read_entries (dinfo.committed image) dinfo.sect fuel 0
      (dinfo.primary.length + left) =
      (read_entries (dinfo.committed image) dinfo.sect fuel (0 + dinfo.primary.length) left).map
        (found dinfo 1 (dinfo.place 0 dinfo.primary dinfo.skip_lba) ++ ·) :=
    fun left => read_entries_pri h.sect h.primary
      (fun p hp => hpos p (mem_of_mem_primary hp)) (fun p hp => htype p (mem_of_mem_primary hp))
      h.primary_sum (fun item hitem => hw item (List.mem_append_left _ hitem)) fuel left
  rw [read_table, if_pos (h.mbr_signed image)]
  by_cases hparts : dinfo.num_parts ≤ 4
  · -- every entry is a primary partition or blank
    rw [if_pos hparts, Nat.min_eq_left hparts] at hlength
    have hblank : read_entries (dinfo.committed image) dinfo.sect fuel dinfo.num_parts
        (4 - dinfo.num_parts) = some [] := by
      refine read_entries_blank (fun item hitem => hw item (List.mem_append_right _ ?_)) _ _
      rw [if_pos hparts]
      exact hitem
    have hall := hpri (4 - dinfo.num_parts)
    rw [hlength, Nat.zero_add, Nat.add_sub_cancel' hparts, hblank, Option.map_some,
      List.append_nil, found_eq] at hall
    rw [hall, DiskInfo.parts, show dinfo.logical = [] from if_pos hparts, DiskInfo.place,
      List.append_nil]
    simp only [kernel_number, hparts, true_or, if_true, Nat.add_comm 1]
  · -- three primary ones and the chain
    rw [if_neg hparts, Nat.min_eq_right (by omega)] at hlength
    have hne : dinfo.logical ≠ [] := by
      intro hnil
      have hsum := congrArg List.length (primary_append_logical dinfo)
      rw [List.length_append, hlength, hnil, List.length_nil] at hsum
      unfold DiskInfo.num_parts at hparts
      omega
    have hsplit := congrArg List.length (primary_append_logical dinfo)
    rw [List.length_append, hlength] at hsplit
    have hn : dinfo.part_lst.length = dinfo.num_parts := rfl
    have hchain := @read_ebrs_log dinfo (dinfo.committed image) h.sect dinfo.logical dinfo.ext_lba
      dinfo.ext_lba h.logical (fun p hp => hpos p (mem_of_mem_logical hp)) h.logical_sum
      (Nat.le_refl _)
      (fun item hitem => hw item (List.mem_append_right _ (by
        rw [if_neg hparts]
        exact List.mem_cons_of_mem _ hitem))) hne fuel (by omega) 5
    have hentry : pentry_at (dinfo.committed image) 0 3 = dinfo.ext_pentry dinfo.ext_lba :=
      pentry_of_written (hw _ (List.mem_append_right _ (by
        rw [if_neg hparts]
        exact List.mem_cons_self)))
    have hread : read_entry (dinfo.committed image) dinfo.sect fuel 3
        = some (found dinfo 5 (dinfo.place 1 dinfo.logical dinfo.ext_lba)) := by
      rw [read_entry, hentry, if_neg (h.ext_pentry hroom hne)]
      exact hchain
    have hlast : read_entries (dinfo.committed image) dinfo.sect fuel (0 + 3) 1
        = some (found dinfo 5 (dinfo.place 1 dinfo.logical dinfo.ext_lba) ++ []) := by
      rw [read_entries, hread]
      rfl
    have hall := hpri 1
    rw [hlength, hlast, List.append_nil] at hall
    have hfirst : found dinfo 1 (dinfo.place 0 dinfo.primary dinfo.skip_lba)
        = (dinfo.place 0 dinfo.primary dinfo.skip_lba).mapIdx fun i p =>
          ⟨kernel_number dinfo.num_parts i, p.start_lba.toNat, dinfo.exact p, p.type⟩ := by
      rw [found_eq]
      apply List.ext_getElem?
      intro i
      rw [List.getElem?_mapIdx, List.getElem?_mapIdx]
      by_cases hi : i < 3
      · simp only [kernel_number, hi, or_true, if_true, Nat.add_comm 1]
      · rw [List.getElem?_eq_none (by rw [length_place, hlength]; omega)]
        rfl
    have hsecond : ∀ i, kernel_number dinfo.num_parts (i + 3) = 5 + i := by
      intro i
      rw [kernel_number, if_neg (by omega)]
      omega
    refine hall.trans ?_
    rw [Option.map_some, hfirst, found_eq, DiskInfo.parts, List.mapIdx_append, length_place, hlength]
    simp only [hsecond]

end Disk

/-! ## The whole table -/

section Table

variable {dinfo : DiskInfo}

/-- What is asked for of a partition. -/
def PartInfo.requested (p : PartInfo) : CStr × UInt8 × UInt8 × UInt32 :=
  (p.name, p.flags, p.type, p.len_kb)

/-- Laying out keeps what was asked for. -/
theorem place_requested {parts : List PartInfo} (hparts : Sized parts) (e lba : UInt32) :
    (dinfo.place e parts lba).map PartInfo.requested = parts.map PartInfo.requested := by
  induction parts generalizing lba with
  | nil => rfl
  | cons p parts ih =>
    have hkb : (dinfo.placed e lba p).len_kb = p.len_kb := by
      rw [DiskInfo.placed, DiskInfo.recorded_kb, if_pos hparts.head, ite_self]
    rw [DiskInfo.place, List.map_cons, List.map_cons, ih hparts.tail, PartInfo.requested, hkb]
    rfl

/-- The sectors of a `disk_info` with recorded starts: sector 0, the primary partitions, and
the logical ones with their boot records. -/
def DiskInfo.regions (dinfo : DiskInfo) : List (ℕ × ℕ) :=
  (0, 1) :: dinfo.primary.map (fun p => (p.start_lba.toNat, dinfo.exact p)) ++
    dinfo.logical.flatMap fun p =>
      [(p.start_lba.toNat - 1, 1), (p.start_lba.toNat, dinfo.exact p)]

/-- It keeps the exact size of a partition that fits. -/
theorem exact_placed {p : PartInfo} (hsect : dinfo.PowerOfTwo) (hp : p.len_kb ≠ FILL)
    {e lba : UInt32} (h : lba.toNat + (e.toNat + dinfo.exact p) < 2 ^ 32) :
    dinfo.exact (dinfo.placed e lba p) = dinfo.exact p := by
  rw [(place_eq hsect hp h).1]
  rfl

/-- The primary partitions are one behind the other on the disk. -/
theorem primary_stretches (hsect : dinfo.PowerOfTwo) {parts : List PartInfo}
    (hparts : Sized parts) {lba : UInt32} (hsum : lba.toNat + dinfo.total 0 parts < 2 ^ 32) :
    Stretches lba.toNat (lba.toNat + dinfo.total 0 parts)
      ((dinfo.place 0 parts lba).map fun p => (p.start_lba.toNat, dinfo.exact p)) := by
  induction parts generalizing lba with
  | nil => exact Nat.le_refl _
  | cons p parts ih =>
    obtain ⟨hstep, hstart, hafter⟩ := step_of_sum hsect hparts UInt32.toNat_zero hsum
    rw [DiskInfo.total_cons] at hsum ⊢
    have hrest := ih hparts.tail (by omega : (dinfo.after 0 lba p).toNat + _ < 2 ^ 32)
    rw [DiskInfo.place, List.map_cons, exact_placed hsect hparts.head hstep, hstart]
    exact ⟨Nat.le_refl _, hrest.mono (by simp only; omega) (by omega)⟩

/-- So are the logical ones, each behind its boot record. -/
theorem logical_stretches (hsect : dinfo.PowerOfTwo) {parts : List PartInfo}
    (hparts : Sized parts) {lba : UInt32} (hsum : lba.toNat + dinfo.total 1 parts < 2 ^ 32) :
    Stretches lba.toNat (lba.toNat + dinfo.total 1 parts)
      ((dinfo.place 1 parts lba).flatMap fun p =>
        [(p.start_lba.toNat - 1, 1), (p.start_lba.toNat, dinfo.exact p)]) := by
  induction parts generalizing lba with
  | nil => exact Nat.le_refl _
  | cons p parts ih =>
    obtain ⟨hstep, hstart, hafter⟩ := step_of_sum hsect hparts UInt32.toNat_one hsum
    rw [DiskInfo.total_cons] at hsum ⊢
    have hrest := ih hparts.tail (by omega : (dinfo.after 1 lba p).toNat + _ < 2 ^ 32)
    rw [DiskInfo.place, List.flatMap_cons, exact_placed hsect hparts.head hstep, hstart,
      Nat.add_sub_cancel]
    exact ⟨Nat.le_refl _, Nat.le_refl _, hrest.mono (by simp only; omega) (by omega)⟩

/-- The name `find_mbr_part` gives to partition `i`, if it fits. -/
theorem find_mbr_part_eq (hnames : (dinfo.part_lst.map PartInfo.name).Nodup) {i : ℕ}
    {p : PartInfo} (hp : dinfo.part_lst[i]? = some p) :
    find_mbr_part dinfo p.name =
      let dev_name := dinfo.device ++ dec (kernel_number dinfo.num_parts i)
      if dev_name.length ≥ MAX_NAME_LEN then none else some dev_name := by
  obtain ⟨hi, hget⟩ := List.getElem?_eq_some_iff.mp hp
  have hfirst : dinfo.part_lst.findIdx (·.name = p.name) = i := by
    rw [List.findIdx_eq hi]
    refine ⟨by simp [hget], fun j hj => ?_⟩
    -- an earlier partition has another name
    have hne := (List.pairwise_iff_getElem.mp hnames) j i (by rw [List.length_map]; omega)
      (by rw [List.length_map]; exact hi) hj
    rw [List.getElem_map, List.getElem_map, hget] at hne
    exact decide_eq_false hne
  have hnumber : (if dinfo.num_parts > PC_NUM_BOOT_RECORD_PARTS ∧
      i + 1 ≥ PC_NUM_BOOT_RECORD_PARTS then i + 1 + 1 else i + 1)
      = kernel_number dinfo.num_parts i := by
    unfold kernel_number PC_NUM_BOOT_RECORD_PARTS
    by_cases h : dinfo.num_parts ≤ 4 ∨ i < 3
    · rw [if_pos h, if_neg (by omega)]
    · rw [if_neg h, if_pos (by omega)]
  have hle : ¬ i + 1 > dinfo.num_parts := by
    unfold DiskInfo.num_parts
    omega
  unfold find_mbr_part
  simp only [hfirst, if_neg hle, hnumber]

/-- **A disk holds the table a `disk_info` asks for**: `dinfo'` is `dinfo` with the starts
recorded, and `disk` is `image` with the table committed. -/
structure Decodes (dinfo dinfo' : DiskInfo) (image disk : Store) : Prop where
  /-- nothing else has been changed in the `disk_info` -/
  requested : dinfo'.part_lst.map PartInfo.requested = dinfo.part_lst.map PartInfo.requested
  /-- nothing has been changed outside the table of the MBR and the boot records -/
  only : ∀ b, disk b ≠ image b → (446 ≤ b ∧ b < 512) ∨ ∃ p ∈ dinfo'.logical,
    (p.start_lba.toNat - 1) * dinfo.sect ≤ b ∧ b < (p.start_lba.toNat - 1) * dinfo.sect + 512
  /-- a reader that follows enough boot records finds the partitions, in order -/
  reads : ∀ fuel ≥ dinfo.num_parts, read_table disk dinfo.sect fuel =
    some (dinfo'.part_lst.mapIdx fun i p => ⟨kernel_number dinfo.num_parts i, p.start_lba.toNat,
      sectors dinfo.sect p.len_kb.toNat, p.type⟩)
  signatures : signed disk 0 = true ∧
    ∀ p ∈ dinfo'.logical, signed disk ((p.start_lba.toNat - 1) * dinfo.sect) = true
  /-- sector 0, the partitions and the boot records lie one behind the other -/
  apart : dinfo'.regions.Pairwise fun r t => r.1 + r.2 ≤ t.1
  /-- the device of a partition has the number the reader has given it -/
  devices : ∀ (i : ℕ) (p : PartInfo), dinfo'.part_lst[i]? = some p →
    find_mbr_part dinfo' p.name =
      let dev_name := dinfo.device ++ dec (kernel_number dinfo.num_parts i)
      if dev_name.length ≥ MAX_NAME_LEN then none else some dev_name

/-- A partition with a length has sectors. -/
theorem exact_pos (hsect : dinfo.PowerOfTwo) {p : PartInfo} (hp : p.len_kb ≠ 0) :
    0 < dinfo.exact p := by
  have hlen : 0 < p.len_kb.toNat := by
    rw [Nat.pos_iff_ne_zero]
    exact fun h => hp (UInt32.toNat_inj.mp h)
  have hroom := hsect.sect_ge
  rw [DiskInfo.exact, sectors, Nat.ceilDiv_eq_add_pred_div]
  exact Nat.div_pos (by omega) (by omega)

/-- **The committed MBR decodes to the requested layout**: if sizes are given, none of them
an extended partition's type, and no running LBA reaches `2 ^ 32`, then the write list of
`config_mbr`, committed on any image, is a table in which the partitions are found. -/
theorem committed_table_decodes {dinfo' : DiskInfo} {wr_list : List WriteItem}
    (hsect : dinfo.PowerOfTwo) (hskip : 1 ≤ dinfo.skip_lba.toNat)
    (hnames : (dinfo.part_lst.map PartInfo.name).Nodup)
    (hlens : ∀ p ∈ dinfo.part_lst, p.len_kb ≠ 0 ∧ p.len_kb ≠ FILL)
    (htypes : ∀ p ∈ dinfo.part_lst, p.type ≠ PC_PART_TYPE_EXTENDED)
    (hsum : dinfo.last_lba < 2 ^ 32) (hconfig : config_mbr dinfo = some (dinfo', wr_list))
    {writes writes' : List IoRes} {image disk : Store}
    (hcommit : wlist_commit false writes image wr_list = .ret (0, disk, writes')) :
    Decodes dinfo dinfo' image disk := by
  have h : dinfo.NoWrap := ⟨hsect, hskip, fun p hp => (hlens p hp).2, hsum⟩
  have hpos : ∀ p ∈ dinfo.part_lst, 0 < dinfo.exact p :=
    fun p hp => exact_pos hsect (hlens p hp).1
  rw [config_mbr_eq hsect] at hconfig
  by_cases hroom : dinfo.room = true
  swap
  · rw [if_neg hroom] at hconfig
    cases hconfig
  rw [if_pos hroom, Option.some.injEq, Prod.mk.injEq] at hconfig
  obtain ⟨rfl, rfl⟩ := hconfig
  -- The list is in reverse, so the commit writes the oldest item first.
  have hdisk : disk = dinfo.committed image := by
    rw [wlist_commit_apply hcommit, List.map_cons, List.map_reverse]
    rfl
  rw [hdisk]
  obtain ⟨hprimary, hlogical⟩ := @parts_split dinfo
  have hrequested : dinfo.parts.map PartInfo.requested
      = dinfo.part_lst.map PartInfo.requested := by
    rw [DiskInfo.parts, List.map_append, place_requested h.primary, place_requested h.logical,
      ← List.map_append, primary_append_logical]
  refine ⟨hrequested, ?_, fun fuel hfuel => h.reads hpos htypes hroom image hfuel, ⟨?_, ?_⟩, ?_, ?_⟩
  · intro b hb
    rw [hlogical]
    -- A byte that changed lies in the MBR's last 66 bytes or in the record of a logical partition.
    by_contra hnot
    rw [not_or] at hnot
    refine hb (h.outside image (by omega) fun p hp => ?_)
    have hout : ¬ ((p.start_lba.toNat - 1) * dinfo.sect ≤ b ∧
        b < (p.start_lba.toNat - 1) * dinfo.sect + 512) := fun hin => hnot.2 ⟨p, hp, hin⟩
    omega
  · exact h.mbr_signed image
  · intro p hp
    rw [hlogical] at hp
    obtain ⟨l, r, hmem, hl, hsig⟩ :=
      (mem_log_items h.sect h.logical dinfo.ext_lba h.logical_sum).2 p hp
    obtain ⟨mbr, hitems, -⟩ := items_split dinfo
    have hwritten := h.written image _ (by rw [hitems]; exact List.mem_append_right _ hmem)
    have hread := (record_of_written h.sect hwritten).2
    rw [hl, hsig] at hread
    exact decide_eq_true (hread.trans enc_sig)
  · have hpri := primary_stretches h.sect h.primary h.primary_sum
    have hlog := logical_stretches h.sect h.logical h.logical_sum
    rw [h.ext] at hlog
    -- Sector 0, the primary and the logical partitions are laid one behind the other.
    have hzero : Stretches 0 dinfo.skip_lba.toNat [(0, 1)] := ⟨Nat.le_refl 0, hskip⟩
    rw [DiskInfo.regions, hprimary, hlogical]
    exact ((hzero.append hpri).append hlog).pairwise
  · intro i p hp
    have hnum : ({ dinfo with part_lst := dinfo.parts } : DiskInfo).num_parts = dinfo.num_parts :=
      length_parts
    -- Placing the partitions keeps their names, so a name is still found once.
    have hkept : (dinfo.parts.map PartInfo.name).Nodup := by
      have := congrArg (List.map Prod.fst) hrequested
      rw [List.map_map, List.map_map] at this
      exact this.symm ▸ hnames
    have := @find_mbr_part_eq { dinfo with part_lst := dinfo.parts } hkept i p hp
    rw [hnum] at this
    exact this

end Table

/-! ## Five partitions -/

section Five

/-- An ESP and four partitions of 1 MiB on a disk of 16 MiB. -/
def five : DiskInfo where
  device := cstr "/dev/sda"
  scheme := PART_SCHEME_MBR
  sect_size := 512
  skip_lba := 63
  num_lba := 32768
  part_lst :=
    [⟨cstr "esp", 0, PC_PART_TYPE_FAT32, 1024, 0⟩,
      ⟨cstr "boot", PART_ACTIVE_FLAG, PC_PART_TYPE_LINUX, 1024, 0⟩,
      ⟨cstr "recovery", 0, PC_PART_TYPE_LINUX, 1024, 0⟩,
      ⟨cstr "system", 0, PC_PART_TYPE_LINUX, 1024, 0⟩,
      ⟨cstr "data", 0, PC_PART_TYPE_LINUX, 1024, 0⟩]

theorem five_power_of_two : five.PowerOfTwo := ⟨9, Nat.le_refl 9, by decide⟩

/-- The five partitions of the example are found as they were asked for. -/
theorem committed_table_decodes_five :
    ∃ dinfo' wr_list, config_mbr five = some (dinfo', wr_list) ∧
      ∀ image, Decodes five dinfo' image (image.apply (wr_list.map WriteItem.write)) := by
  have hconfig := config_mbr_eq five_power_of_two
  rw [if_pos (by decide)] at hconfig
  refine ⟨_, _, hconfig, fun image => ?_⟩
  have hoffset : ∀ item ∈ mk_empty_ptable :: five.items.reverse, 0 ≤ item.offset := by
    intro item h
    rcases List.mem_cons.mp h with rfl | hmem
    · decide
    · exact items_offset five_power_of_two item (List.mem_reverse.mp hmem)
  exact committed_table_decodes five_power_of_two (by decide) (by decide) (by decide) (by decide)
    (by decide) hconfig (wlist_commit_all hoffset image)

end Five

end EditDiskLbl

end Iago
