/-
Reading back what `config_mbr` writes.

A reader of partition tables looks at the four entries of the MBR. An entry of length
0 is empty, one of type 0x05 is an extended partition, and any other is a partition,
numbered by its place. In an extended partition there is a chain of boot records: the
first entry of a record is a logical partition, whose start is counted from the
record, and the second, if there is one, leads to the next record, whose place is
counted from the start of the extended partition. Logical partitions are numbered
from 5.

`decodes` is the agreement of the two sides where no number wraps. It rests on three
things. The items are made at ascending offsets and do not meet, so that each reads
back whatever the order they are committed in (`read_apply_of_mem`); only the blank
table, which all entries of the MBR lie in, has to come first. The running LBA is the
exact sum (`toNat_end_lba`). And the reader's recursion is the loop's: one entry or
boot record for each partition (`read_entries_pri`, `read_ebrs_log`).
-/
import Iago.MbrConfig
import Iago.Stretches

set_option autoImplicit false

namespace Iago

namespace EditDiskLbl

/-! ## A reader of partition tables -/

/-- A partition as it is found: its number, start, length and type. -/
structure Found where
  number : ℕ
  start : ℕ
  length : ℕ
  type : UInt8
  deriving DecidableEq

/-- Entry `i` of the boot record at the byte `offset`. -/
def pentry_at (s : Store) (offset i : ℕ) : PcPartition :=
  PcPartition.codec.dec (s.read (offset + pentry_offset i) 16)

/-- The boot record has a signature. -/
def signed (s : Store) (offset : ℕ) : Bool := s.read (offset + 510) 2 = [0x55, 0xAA]

/-- The partitions of the boot record in sector `lba` and of those it leads to, in an
extended partition that starts at `ext_lba`. -/
def read_ebrs (s : Store) (sect ext_lba : ℕ) : (fuel : ℕ) → (lba number : ℕ) → Option (List Found)
  | 0, _, _ => none
  | fuel + 1, lba, number =>
    if signed s (lba * sect) then
      let part := pentry_at s (lba * sect) 0
      let next := pentry_at s (lba * sect) 1
      let here := if part.len_lba = 0 then []
        else [⟨number, lba + part.start_lba.toNat, part.len_lba.toNat, part.type⟩]
      if next.len_lba ≠ 0 ∧ next.type = PC_PART_TYPE_EXTENDED then
        (read_ebrs s sect ext_lba fuel (ext_lba + next.start_lba.toNat) (number + 1)).map (here ++ ·)
      else some here
    else none

/-- The partitions of entry `i` of the MBR. -/
def read_entry (s : Store) (sect fuel i : ℕ) : Option (List Found) :=
  let part := pentry_at s 0 i
  if part.len_lba = 0 then some []
  else if part.type = PC_PART_TYPE_EXTENDED then
    read_ebrs s sect part.start_lba.toNat fuel part.start_lba.toNat 5
  else some [⟨i + 1, part.start_lba.toNat, part.len_lba.toNat, part.type⟩]

/-- The partitions of `left` entries of the MBR from entry `i` on. -/
def read_entries (s : Store) (sect fuel : ℕ) : (i left : ℕ) → Option (List Found)
  | _, 0 => some []
  | i, left + 1 => do
    let here ← read_entry s sect fuel i
    let rest ← read_entries s sect fuel (i + 1) left
    some (here ++ rest)

/-- All partitions of a disk, if its boot records can be followed. -/
def read_table (s : Store) (sect fuel : ℕ) : Option (List Found) :=
  if signed s 0 then read_entries s sect fuel 0 4 else none

/-! ## Records and their bytes -/

@[simp] theorem PcPartition.width_codec : PcPartition.codec.width = 16 := rfl

theorem PcPartition.length_enc (p : PcPartition) : (PcPartition.codec.enc p).length = 16 :=
  PcPartition.codec.length_enc p

/-- The bytes of a boot record: what is in front of the table, the table and the signature. -/
theorem PcBootRecord.enc_eq (r : PcBootRecord) :
    ∃ front : List UInt8, front.length = 446 ∧
      PcBootRecord.codec.enc r =
        front ++ ((PcPartition.codec.vector 4).enc r.ptable ++ le16.enc r.mbr_sig) := by
  refine ⟨(Codec.u8.vector 440).enc r.code ++ (le32.enc r.disk_sig ++ le16.enc r.pad), ?_, ?_⟩
  · rw [List.length_append, List.length_append, Codec.length_enc, Codec.length_enc,
      Codec.length_enc, Codec.width_vector]
    rfl
  · simp only [PcBootRecord.codec, Codec.map, Codec.pair, PcBootRecord.fields,
      Equiv.coe_fn_symm_mk, List.append_assoc]

theorem length_enc_ptable (v : List.Vector PcPartition 4) :
    ((PcPartition.codec.vector 4).enc v).length = 64 := by
  rw [Codec.length_enc, Codec.width_vector]
  rfl

theorem PcBootRecord.length_enc (r : PcBootRecord) : (PcBootRecord.codec.enc r).length = 512 := by
  obtain ⟨front, hfront, henc⟩ := r.enc_eq
  rw [henc, List.length_append, List.length_append, hfront, length_enc_ptable, Codec.length_enc]
  rfl

/-- An entry of a boot record, from its bytes. -/
theorem PcBootRecord.dec_pentry (r : PcBootRecord) (i : Fin 4) :
    PcPartition.codec.dec (slice (PcBootRecord.codec.enc r) (pentry_offset i) 16)
      = r.ptable.get i := by
  obtain ⟨front, hfront, henc⟩ := r.enc_eq
  have hi := i.isLt
  have hslice : slice (PcBootRecord.codec.enc r) (pentry_offset i) 16
      = slice ((PcPartition.codec.vector 4).enc r.ptable) (i * 16) 16 := by
    rw [henc, slice, slice, pentry_offset, ptable_offset, ← hfront, List.drop_append,
      List.drop_of_length_le (by omega), List.nil_append, Nat.add_sub_cancel_left, Nat.mul_comm,
      List.drop_append_of_le_length (by rw [length_enc_ptable]; omega),
      List.take_append_of_le_length (by rw [List.length_drop, length_enc_ptable]; omega)]
  have hget := Codec.get_dec_vector PcPartition.codec
    ((PcPartition.codec.vector 4).enc r.ptable) i
  rw [Codec.dec_enc] at hget
  rw [hslice, hget, PcPartition.width_codec]

/-- Its signature. -/
theorem PcBootRecord.slice_sig (r : PcBootRecord) :
    slice (PcBootRecord.codec.enc r) 510 2 = le16.enc r.mbr_sig := by
  obtain ⟨front, hfront, henc⟩ := r.enc_eq
  have hptable := length_enc_ptable r.ptable
  rw [henc, slice, ← List.append_assoc, List.drop_left' (by rw [List.length_append]; omega),
    List.take_of_length_le (by rw [Codec.length_enc]; exact Nat.le_refl 2)]

/-- The bytes of an item are on the disk. -/
def Written (s : Store) (item : WriteItem) : Prop :=
  s.read item.offset.toNat item.data.length = item.data

/-- A primary entry that was written is read. -/
theorem pentry_of_written {s : Store} {pnum : ℕ} {pentry : PcPartition}
    (h : Written s (pri_item pnum pentry)) : pentry_at s 0 pnum = pentry := by
  have hread : s.read (pentry_offset pnum) 16 = PcPartition.codec.enc pentry := by
    have hlen := PcPartition.length_enc pentry
    rw [← hlen]
    exact h
  rw [pentry_at, Nat.zero_add, hread, Codec.dec_enc]

/-- The offset of a boot record, as a number of bytes. -/
theorem DiskInfo.PowerOfTwo.offset_toNat {dinfo : DiskInfo} (hsect : dinfo.PowerOfTwo)
    (lba : UInt32) :
    ((lba.toNat : Int) * dinfo.sect_size.toInt).toNat = lba.toNat * dinfo.sect := by
  obtain ⟨k, -, -, hs, hint⟩ := hsect.sect_eq
  rw [hint, hs]
  exact_mod_cast Int.toNat_natCast (lba.toNat * 2 ^ k)

/-- A sector is not smaller than a boot record. -/
theorem DiskInfo.PowerOfTwo.sect_ge {dinfo : DiskInfo} (hsect : dinfo.PowerOfTwo) :
    512 ≤ dinfo.sect := by
  obtain ⟨k, hk, -, hs, -⟩ := hsect.sect_eq
  rw [hs]
  exact (Nat.pow_le_pow_right Nat.two_pos hk : 2 ^ 9 ≤ 2 ^ k)

/-- So is a boot record. -/
theorem read_of_written {dinfo : DiskInfo} (hsect : dinfo.PowerOfTwo) {s : Store} {lba : UInt32}
    {r : PcBootRecord} (h : Written s (dinfo.ebr_item lba r)) :
    s.read (lba.toNat * dinfo.sect) 512 = PcBootRecord.codec.enc r := by
  rw [← PcBootRecord.length_enc r, ← hsect.offset_toNat lba]
  exact h

/-- A boot record that is on the disk, as the reader sees it. -/
theorem record_of_written {dinfo : DiskInfo} (hsect : dinfo.PowerOfTwo) {s : Store} {lba : UInt32}
    {r : PcBootRecord} (h : Written s (dinfo.ebr_item lba r)) :
    (∀ i : Fin 4, pentry_at s (lba.toNat * dinfo.sect) i = r.ptable.get i) ∧
      s.read (lba.toNat * dinfo.sect + 510) 2 = le16.enc r.mbr_sig := by
  have hread := read_of_written hsect h
  constructor
  · intro i
    have hi := i.isLt
    rw [pentry_at, ← Store.slice_read s (n := 512) (by unfold pentry_offset ptable_offset; omega),
      hread, PcBootRecord.dec_pentry]
  · rw [← Store.slice_read s (n := 512) (by omega), hread, PcBootRecord.slice_sig]

/-! ## Exact sums -/

section Exact

variable {dinfo : DiskInfo}

/-- The number of sectors a partition asks for. -/
def DiskInfo.exact (dinfo : DiskInfo) (p : PartInfo) : ℕ := sectors dinfo.sect p.len_kb.toNat

/-- The sectors consecutive partitions take up, with `e` for the boot record of each. -/
def DiskInfo.total (dinfo : DiskInfo) (e : ℕ) (parts : List PartInfo) : ℕ :=
  (parts.map fun p => e + dinfo.exact p).sum

@[simp] theorem DiskInfo.total_cons (e : ℕ) (p : PartInfo) (parts : List PartInfo) :
    dinfo.total e (p :: parts) = e + dinfo.exact p + dinfo.total e parts := by
  rw [total, List.map_cons, List.sum_cons, total]

theorem toNat_len_lba_of_lt (hsect : dinfo.PowerOfTwo) {p : PartInfo} (hp : p.len_kb ≠ FILL)
    (h : dinfo.exact p < 2 ^ 32) (lba : UInt32) :
    (dinfo.len_lba p lba).toNat = dinfo.exact p := by
  rw [DiskInfo.len_lba, if_pos hp, toNat_kb_to_lba hsect, DiskInfo.exact]
  exact Nat.mod_eq_of_lt h

/-- One step of the running LBA. -/
theorem toNat_after (hsect : dinfo.PowerOfTwo) {p : PartInfo} (hp : p.len_kb ≠ FILL)
    {e lba : UInt32} (h : lba.toNat + (e.toNat + dinfo.exact p) < 2 ^ 32) :
    (lba + e).toNat = lba.toNat + e.toNat ∧
      (dinfo.len_lba p (lba + e)).toNat = dinfo.exact p ∧
      (dinfo.after e lba p).toNat = lba.toNat + (e.toNat + dinfo.exact p) := by
  have hstart : (lba + e).toNat = lba.toNat + e.toNat := toNat_add_of_lt (by omega)
  have hlen := toNat_len_lba_of_lt hsect hp (by omega) (lba + e)
  refine ⟨hstart, hlen, ?_⟩
  rw [DiskInfo.after, toNat_add_of_lt (by omega), hstart, hlen, Nat.add_assoc]

/-- No partition fills the rest of the disk. -/
def Sized (parts : List PartInfo) : Prop := ∀ p ∈ parts, p.len_kb ≠ FILL

theorem Sized.head {p : PartInfo} {parts : List PartInfo} (h : Sized (p :: parts)) :
    p.len_kb ≠ FILL :=
  h p List.mem_cons_self

theorem Sized.tail {p : PartInfo} {parts : List PartInfo} (h : Sized (p :: parts)) :
    Sized parts :=
  fun q hq => h q (List.mem_cons_of_mem _ hq)

/-- The running LBA is the exact sum. -/
theorem toNat_end_lba (hsect : dinfo.PowerOfTwo) {parts : List PartInfo} (hparts : Sized parts)
    {e lba : UInt32} (h : lba.toNat + dinfo.total e.toNat parts < 2 ^ 32) :
    (dinfo.end_lba e parts lba).toNat = lba.toNat + dinfo.total e.toNat parts := by
  induction parts generalizing lba with
  | nil => rfl
  | cons p parts ih =>
    rw [DiskInfo.total_cons] at h ⊢
    have hstep : lba.toNat + (e.toNat + dinfo.exact p) < 2 ^ 32 := by omega
    have hafter := (toNat_after hsect hparts.head hstep).2.2
    rw [DiskInfo.end_lba, ih hparts.tail (by omega), hafter, Nat.add_assoc]

/-- Where the partitions are placed, and that they keep everything else. -/
theorem place_eq (hsect : dinfo.PowerOfTwo) {p : PartInfo} (hp : p.len_kb ≠ FILL)
    {e lba : UInt32} (h : lba.toNat + (e.toNat + dinfo.exact p) < 2 ^ 32) :
    dinfo.placed e lba p = { p with start_lba := lba + e } ∧
      (dinfo.placed e lba p).start_lba.toNat = lba.toNat + e.toNat := by
  refine ⟨?_, (toNat_after hsect hp h).1⟩
  rw [DiskInfo.placed, DiskInfo.recorded_kb, if_pos hp, ite_self]

/-- The first step of a loop whose sum fits: there is room for it, its partition starts behind
the record, and the running LBA moves by what it takes. -/
theorem step_of_sum (hsect : dinfo.PowerOfTwo) {p : PartInfo} {parts : List PartInfo}
    (hparts : Sized (p :: parts)) {e lba : UInt32} {k : ℕ} (he : e.toNat = k)
    (hsum : lba.toNat + dinfo.total k (p :: parts) < 2 ^ 32) :
    lba.toNat + (e.toNat + dinfo.exact p) < 2 ^ 32 ∧
      (dinfo.placed e lba p).start_lba.toNat = lba.toNat + k ∧
      (dinfo.after e lba p).toNat = lba.toNat + (k + dinfo.exact p) := by
  subst he
  rw [DiskInfo.total_cons] at hsum
  have hstep : lba.toNat + (e.toNat + dinfo.exact p) < 2 ^ 32 := by omega
  exact ⟨hstep, (place_eq hsect hparts.head hstep).2, (toNat_after hsect hparts.head hstep).2.2⟩

end Exact

/-! ## The reader follows the loop -/

section Reads

variable {dinfo : DiskInfo} {s : Store}

/-- What a reader finds of placed partitions, numbered from `number`. -/
def found (dinfo : DiskInfo) : (number : ℕ) → List PartInfo → List Found
  | _, [] => []
  | number, p :: parts =>
    ⟨number, p.start_lba.toNat, dinfo.exact p, p.type⟩ :: found dinfo (number + 1) parts

theorem len_ne_zero {p : PartInfo} {lba : UInt32} (hlen : (dinfo.len_lba p lba).toNat = dinfo.exact p)
    (hp : 0 < dinfo.exact p) : ¬ dinfo.len_lba p lba = 0 := by
  intro hzero
  rw [hzero] at hlen
  exact absurd hlen (Nat.ne_of_lt hp)

/-- An entry that is a partition. -/
theorem read_entry_part {i : ℕ} {pentry : PcPartition} (h : pentry_at s 0 i = pentry)
    (hlen : ¬ pentry.len_lba = 0) (htype : ¬ pentry.type = PC_PART_TYPE_EXTENDED)
    (sect fuel : ℕ) :
    read_entry s sect fuel i =
      some [⟨i + 1, pentry.start_lba.toNat, pentry.len_lba.toNat, pentry.type⟩] := by
  rw [read_entry, h]
  simp only [if_neg hlen, if_neg htype]

/-- The primary partitions, one for each entry. -/
theorem read_entries_pri (hsect : dinfo.PowerOfTwo) {parts : List PartInfo} {cnt : ℕ}
    {lba : UInt32} (hparts : Sized parts) (hpos : ∀ p ∈ parts, 0 < dinfo.exact p)
    (htype : ∀ p ∈ parts, p.type ≠ PC_PART_TYPE_EXTENDED)
    (hsum : lba.toNat + dinfo.total 0 parts < 2 ^ 32)
    (hw : ∀ item ∈ dinfo.pri_items cnt parts lba, Written s item) (fuel left : ℕ) :
    read_entries s dinfo.sect fuel cnt (parts.length + left) =
      (read_entries s dinfo.sect fuel (cnt + parts.length) left).map
        (found dinfo (cnt + 1) (dinfo.place 0 parts lba) ++ ·) := by
  induction parts generalizing cnt lba with
  | nil =>
    rw [List.length_nil, Nat.zero_add, Nat.add_zero, DiskInfo.place, found]
    simp
  | cons p parts ih =>
    obtain ⟨hstep, -, hafter⟩ := step_of_sum hsect hparts UInt32.toNat_zero hsum
    obtain ⟨-, hlen, -⟩ := toNat_after hsect hparts.head hstep
    rw [UInt32.add_zero] at hlen
    rw [DiskInfo.total_cons] at hsum
    have hentry := pentry_of_written (hw _ List.mem_cons_self)
    have hne := len_ne_zero hlen (hpos p List.mem_cons_self)
    have hexact : dinfo.exact (dinfo.placed 0 lba p) = dinfo.exact p := by
      rw [(place_eq hsect hparts.head hstep).1]
      rfl
    -- The entry that was written is not empty and not extended, so it is a partition of its own.
    have hread : read_entry s dinfo.sect fuel cnt
        = some [⟨cnt + 1, lba.toNat, dinfo.exact p, p.type⟩] := by
      rw [← hlen]
      exact read_entry_part hentry hne (htype p List.mem_cons_self) dinfo.sect fuel
    rw [List.length_cons, Nat.add_right_comm, read_entries, hread,
      ih hparts.tail (fun q hq => hpos q (List.mem_cons_of_mem _ hq))
        (fun q hq => htype q (List.mem_cons_of_mem _ hq)) (by omega)
        (fun item hitem => hw item (List.mem_cons_of_mem _ hitem)),
      show cnt + 1 + parts.length = cnt + (parts.length + 1) by omega, DiskInfo.place, found, hexact]
    cases read_entries s dinfo.sect fuel (cnt + (parts.length + 1)) left with
    | none => rfl
    | some rest =>
      simp only [Option.map_some, Option.bind_some, Option.bind_eq_bind, DiskInfo.placed,
        UInt32.add_zero]
      rfl

/-- The blank entries. -/
theorem read_entries_blank {cnt left : ℕ}
    (hw : ∀ item ∈ blank_items cnt left, Written s item) (sect fuel : ℕ) :
    read_entries s sect fuel cnt left = some [] := by
  induction left generalizing cnt with
  | zero => rfl
  | succ left ih =>
    rw [read_entries, read_entry, pentry_of_written (hw _ List.mem_cons_self),
      ih fun item hitem => hw item (List.mem_cons_of_mem _ hitem)]
    rfl

/-- The signature, in the order in which it lies on the disk. -/
theorem enc_sig : le16.enc PC_BIOS_BOOT_SIG = [0x55, 0xAA] := by decide

/-- A boot record with a partition in it: the last one, or one that leads to another. -/
theorem read_ebrs_record {sect ext_lba fuel lba number : ℕ} {part next : PcPartition}
    (hsigned : signed s (lba * sect) = true) (hpart : pentry_at s (lba * sect) 0 = part)
    (hnext : pentry_at s (lba * sect) 1 = next) (hlen : ¬ part.len_lba = 0) :
    read_ebrs s sect ext_lba (fuel + 1) lba number =
      if next.len_lba ≠ 0 ∧ next.type = PC_PART_TYPE_EXTENDED then
        (read_ebrs s sect ext_lba fuel (ext_lba + next.start_lba.toNat) (number + 1)).map
          (⟨number, lba + part.start_lba.toNat, part.len_lba.toNat, part.type⟩ :: ·)
      else some [⟨number, lba + part.start_lba.toNat, part.len_lba.toNat, part.type⟩] := by
  rw [read_ebrs, if_pos hsigned, hpart, hnext]
  simp only [if_neg hlen, List.singleton_append]

/-- The logical partitions, one for each boot record. -/
theorem read_ebrs_log (hsect : dinfo.PowerOfTwo) {parts : List PartInfo} {lba ext_lba : UInt32}
    (hparts : Sized parts) (hpos : ∀ p ∈ parts, 0 < dinfo.exact p)
    (hsum : lba.toNat + dinfo.total 1 parts < 2 ^ 32) (hext : ext_lba.toNat ≤ lba.toNat)
    (hw : ∀ item ∈ dinfo.log_items ext_lba parts lba, Written s item) (hne : parts ≠ [])
    {fuel : ℕ} (hfuel : parts.length ≤ fuel) (number : ℕ) :
    read_ebrs s dinfo.sect ext_lba.toNat fuel lba.toNat number =
      some (found dinfo number (dinfo.place 1 parts lba)) := by
  induction parts generalizing lba fuel number with
  | nil => exact absurd rfl hne
  | cons p rest ih =>
    cases fuel with
    | zero => exact absurd hfuel (Nat.not_succ_le_zero _)
    | succ fuel =>
      obtain ⟨hstep, -, hafter⟩ := step_of_sum hsect hparts UInt32.toNat_one hsum
      obtain ⟨hstart, hlen, -⟩ := toNat_after hsect hparts.head hstep
      rw [DiskInfo.total_cons] at hsum
      obtain ⟨hplaced, -⟩ := place_eq hsect hparts.head hstep
      have hplen : ¬ (dinfo.log_pentry p lba).len_lba = 0 :=
        len_ne_zero hlen (hpos p List.mem_cons_self)
      obtain ⟨hentry, hsig⟩ := record_of_written hsect (hw _ List.mem_cons_self)
      have hpart : pentry_at s (lba.toNat * dinfo.sect) 0 = dinfo.log_pentry p lba := hentry 0
      have hsigned : signed s (lba.toNat * dinfo.sect) = true :=
        decide_eq_true (hsig.trans enc_sig)
      have hhere : (⟨number, lba.toNat + (dinfo.log_pentry p lba).start_lba.toNat,
            (dinfo.log_pentry p lba).len_lba.toNat, (dinfo.log_pentry p lba).type⟩ : Found)
          = ⟨number, (lba + 1).toNat, dinfo.exact p, p.type⟩ := by
        rw [hstart, ← hlen]
        rfl
      rw [DiskInfo.place, found, hplaced]
      cases rest with
      | nil =>
        have hlast : pentry_at s (lba.toNat * dinfo.sect) 1 = PcPartition.zero := hentry 1
        rw [read_ebrs_record hsigned hpart hlast hplen, if_neg (by decide), hhere]
        rfl
      | cons q rest =>
        -- the pointer to the next record
        have hnext : pentry_at s (lba.toNat * dinfo.sect) 1
            = dinfo.next_pentry ext_lba (dinfo.after 1 lba p) q := hentry 1
        have hq := hparts.tail.head
        rw [DiskInfo.total_cons] at hsum
        have hlink : ¬ (dinfo.next_pentry ext_lba (dinfo.after 1 lba p) q).len_lba = 0 := by
          intro hzero
          have hqlen : (kb_to_lba q.len_kb dinfo.sect_size.toUInt32).toNat = dinfo.exact q := by
            rw [toNat_kb_to_lba hsect]
            exact Nat.mod_eq_of_lt (by unfold DiskInfo.exact at hsum; omega)
          have hsucc : (1 + kb_to_lba q.len_kb dinfo.sect_size.toUInt32).toNat
              = 1 + dinfo.exact q := by
            rw [toNat_add_of_lt (by rw [hqlen, UInt32.toNat_one]; omega), hqlen, UInt32.toNat_one]
          have hlen_lba : (dinfo.next_pentry ext_lba (dinfo.after 1 lba p) q).len_lba
              = 1 + kb_to_lba q.len_kb dinfo.sect_size.toUInt32 := if_pos hq
          rw [hlen_lba] at hzero
          rw [hzero, UInt32.toNat_zero] at hsucc
          omega
        have hplace : ext_lba.toNat
            + (dinfo.next_pentry ext_lba (dinfo.after 1 lba p) q).start_lba.toNat
            = (dinfo.after 1 lba p).toNat := by
          show ext_lba.toNat + (dinfo.after 1 lba p - ext_lba).toNat = _
          rw [UInt32.toNat_sub_of_le _ _ (by rw [UInt32.le_iff_toNat_le]; omega)]
          omega
        rw [read_ebrs_record hsigned hpart hnext hplen, if_pos ⟨hlink, rfl⟩, hhere, hplace,
          ih hparts.tail (fun r hr => hpos r (List.mem_cons_of_mem _ hr))
            (by rw [DiskInfo.total_cons, hafter]; omega) (by omega)
            (fun item hitem => hw item (List.mem_cons_of_mem _ hitem)) (List.cons_ne_nil _ _)
            (by rw [List.length_cons] at hfuel; omega)]
        rfl

end Reads

end EditDiskLbl

end Iago
