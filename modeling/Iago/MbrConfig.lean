/-
The MBR scheme of `editdisklbl`: `config_mbr.c` and `write_lst.c`.

`config_mbr` goes through the partitions of a `disk_info` with a running LBA. The
first four are primary, unless there are more than four: then the fourth entry of
the MBR is an extended partition over the rest of the disk, and the fourth
partition and all after it are logical ones, each behind a boot record of its own
that also points to the next. Every entry becomes an item of a write list, and
items are added at the front, so that the list is committed in the reverse of the
order it was made in, after an empty table.

LBAs and lengths are 32 bits wide, and nothing here looks at a carry. What the
loop computes is said once, in the same 32 bits and whatever wraps
(`config_mbr_eq`): where the partitions are placed, which items are made, and the
checks all of them have passed. What is true of the result when nothing wraps, and
what when something does, is the business of the modules that follow.

The records are stored as a little-endian host stores them: words are assigned to
the fields of packed structs, which the header says to be little-endian on disk.
-/
import Iago.GptRead
import Iago.Decimal
import Mathlib.Algebra.Order.Floor.Div
import Mathlib.Data.Nat.Bitwise

set_option autoImplicit false

namespace Iago

namespace EditDiskLbl

/-! ## The records of the header -/

def MAX_NAME_LEN : ℕ := 512
def MAX_NUM_PARTS : ℕ := 16

def PART_SCHEME_MBR : UInt8 := 0x1
def PART_SCHEME_GPT : UInt8 := 0x2

def PC_PART_ACTIVE : UInt8 := 0x80
def PC_PART_NORMAL : UInt8 := 0x0

def PC_PART_TYPE_LINUX : UInt8 := 0x83
def PC_PART_TYPE_EXTENDED : UInt8 := 0x05
def PC_PART_TYPE_FAT32 : UInt8 := 0x0c

def PC_NUM_BOOT_RECORD_PARTS : ℕ := 4
def PC_EBR_LOGICAL_PART : Fin 4 := 0
def PC_EBR_NEXT_PTR_PART : Fin 4 := 1
def PC_BIOS_BOOT_SIG : UInt16 := 0xAA55

def PART_ACTIVE_FLAG : UInt8 := 0x1

/-- `uint16_t` and `uint32_t` on a little-endian host. -/
def le16 : Codec UInt16 :=
  Codec.word 2 UInt16.toNat UInt16.ofNat id u16_toNat_lt u16_ofNat_toNat u16_toNat_ofNat
    (fun _ => rfl) (fun _ => rfl)

def le32 : Codec UInt32 :=
  Codec.word 4 UInt32.toNat UInt32.ofNat id u32_toNat_lt u32_ofNat_toNat u32_toNat_ofNat
    (fun _ => rfl) (fun _ => rfl)

/-- `struct chs`. -/
structure Chs where
  head : UInt8
  sector : UInt8
  cylinder : UInt8
  deriving DecidableEq

def Chs.fields : UInt8 × UInt8 × UInt8 ≃ Chs where
  toFun c := ⟨c.1, c.2.1, c.2.2⟩
  invFun c := (c.head, c.sector, c.cylinder)
  left_inv _ := rfl
  right_inv _ := rfl

/-- `memset` of a `struct chs`. -/
def Chs.fill (c : UInt8) : Chs := ⟨c, c, c⟩

/-- `struct pc_partition`. -/
structure PcPartition where
  status : UInt8
  start : Chs
  type : UInt8
  end_chs : Chs
  start_lba : UInt32
  len_lba : UInt32
  deriving DecidableEq

def PcPartition.fields : UInt8 × Chs × UInt8 × Chs × UInt32 × UInt32 ≃ PcPartition where
  toFun p := ⟨p.1, p.2.1, p.2.2.1, p.2.2.2.1, p.2.2.2.2.1, p.2.2.2.2.2⟩
  invFun p := (p.status, p.start, p.type, p.end_chs, p.start_lba, p.len_lba)
  left_inv _ := rfl
  right_inv _ := rfl

def Chs.codec : Codec Chs := (Codec.u8.pair <| Codec.u8.pair Codec.u8).map Chs.fields

def PcPartition.codec : Codec PcPartition :=
  (Codec.u8.pair <| Chs.codec.pair <| Codec.u8.pair <| Chs.codec.pair <| le32.pair le32).map
    PcPartition.fields

/-- An entry in which every byte is zero. -/
def PcPartition.zero : PcPartition := ⟨0, Chs.fill 0, 0, Chs.fill 0, 0, 0⟩

/-- `struct pc_boot_record`. -/
structure PcBootRecord where
  code : List.Vector UInt8 440
  disk_sig : UInt32
  pad : UInt16
  ptable : List.Vector PcPartition 4
  mbr_sig : UInt16

def PcBootRecord.fields : List.Vector UInt8 440 × UInt32 × UInt16 × List.Vector PcPartition 4 ×
    UInt16 ≃ PcBootRecord where
  toFun r := ⟨r.1, r.2.1, r.2.2.1, r.2.2.2.1, r.2.2.2.2⟩
  invFun r := (r.code, r.disk_sig, r.pad, r.ptable, r.mbr_sig)
  left_inv _ := rfl
  right_inv _ := rfl

def PcBootRecord.codec : Codec PcBootRecord :=
  ((Codec.u8.vector 440).pair <| le32.pair <| le16.pair <|
    (PcPartition.codec.vector 4).pair le16).map PcBootRecord.fields

/-- A record in which every byte is zero. -/
def PcBootRecord.zero : PcBootRecord :=
  ⟨List.Vector.replicate 440 0, 0, 0, List.Vector.replicate 4 PcPartition.zero, 0⟩

/-- Where the table of a boot record starts, and where in it an entry is. -/
def ptable_offset : ℕ := 446

def pentry_offset (pnum : ℕ) : ℕ := ptable_offset + 16 * pnum

/-- `struct part_info`. -/
structure PartInfo where
  name : CStr
  flags : UInt8
  type : UInt8
  len_kb : UInt32
  start_lba : UInt32
  deriving DecidableEq

/-- `(uint32_t)-1`: the rest of the disk. -/
def FILL : UInt32 := 0xffffffff

/-- `struct disk_info`; `num_parts` is the length of the list. -/
structure DiskInfo where
  device : CStr
  scheme : UInt8
  sect_size : Int32
  skip_lba : UInt32
  num_lba : UInt32
  part_lst : List PartInfo
  deriving DecidableEq

def DiskInfo.num_parts (dinfo : DiskInfo) : ℕ := dinfo.part_lst.length

/-- `(uint64_t)dinfo->sect_size`. -/
def DiskInfo.sect_size64 (dinfo : DiskInfo) : UInt64 := dinfo.sect_size.toInt64.toUInt64

/-- An item of a `struct write_list`; the offset is a `loff_t`. -/
structure WriteItem where
  offset : Int
  data : List UInt8
  deriving DecidableEq

/-! ## `config_mbr.c` -/

/-- `cfg_pentry`. -/
def cfg_pentry (status type : UInt8) (start len : UInt32) : PcPartition where
  status
  start := if len > 0 then Chs.fill 0xff else Chs.fill 0
  type
  end_chs := if len > 0 then Chs.fill 0xff else Chs.fill 0
  start_lba := start
  len_lba := len

/-- `kb_to_lba`. -/
def kb_to_lba (len_kb sect_size : UInt32) : UInt32 :=
  let lba := len_kb.toUInt64 * 1024
  let lba := (lba + sect_size.toUInt64 - 1) &&& ~~~(sect_size.toUInt64 - 1)
  let lba := lba / sect_size.toUInt64
  (lba &&& 0xffffffff).toUInt32

/-- `mk_pri_pentry`: the item, the partition with its start recorded, and the running
LBA. -/
def mk_pri_pentry (dinfo : DiskInfo) (pinfo : Option PartInfo) (pnum : ℕ) (lba : UInt32) :
    Option (WriteItem × Option PartInfo × UInt32) :=
  if pnum ≥ PC_NUM_BOOT_RECORD_PARTS then none
  else
    match pinfo with
    | some pinfo =>
      let len_lba : UInt64 :=
        if pinfo.len_kb ≠ FILL then
          ((pinfo.len_kb.toUInt64 * 1024 + (dinfo.sect_size64 - 1)) &&& ~~~(dinfo.sect_size64 - 1))
            / dinfo.sect_size64
        else (dinfo.num_lba - lba).toUInt64
      let pentry := cfg_pentry (if pinfo.flags &&& PART_ACTIVE_FLAG ≠ 0 then PC_PART_ACTIVE
        else PC_PART_NORMAL) pinfo.type lba len_lba.toUInt32
      some (⟨pentry_offset pnum, PcPartition.codec.enc pentry⟩,
        some { pinfo with start_lba := lba }, lba + len_lba.toUInt32)
    | none =>
      let pentry := cfg_pentry PC_PART_NORMAL PC_PART_TYPE_EXTENDED lba (dinfo.num_lba - lba)
      some (⟨pentry_offset pnum, PcPartition.codec.enc pentry⟩, none, lba)

/-- `mk_ext_pentry`. -/
def mk_ext_pentry (dinfo : DiskInfo) (pinfo : PartInfo) (lba ext_lba : UInt32)
    (pnext : Option PartInfo) : Option (WriteItem × PartInfo × UInt32) :=
  let offset := (lba.toNat : Int) * dinfo.sect_size.toInt
  -- The partition begins in the sector behind its boot record.
  let lba := lba + 1
  let ebr := { PcBootRecord.zero with mbr_sig := PC_BIOS_BOOT_SIG }
  if pinfo.len_kb = FILL ∧ pnext ≠ none then none
  else
    let len := if pinfo.len_kb ≠ FILL then kb_to_lba pinfo.len_kb dinfo.sect_size.toUInt32
      else dinfo.num_lba - lba
    let len_kb := if pinfo.len_kb ≠ FILL then pinfo.len_kb
      else (len.toUInt64 * dinfo.sect_size64 / 1024).toUInt32
    let ebr := { ebr with
      ptable := ebr.ptable.set PC_EBR_LOGICAL_PART (cfg_pentry PC_PART_NORMAL pinfo.type 1 len) }
    let pinfo := { pinfo with len_kb, start_lba := lba }
    let lba := lba + len
    let ebr :=
      match pnext with
      | none => ebr
      | some pnext =>
        -- The link is relative to the extended partition.
        let next_start_lba := lba - ext_lba
        let next_len_lba := if pnext.len_kb ≠ FILL then
            1 + kb_to_lba pnext.len_kb dinfo.sect_size.toUInt32
          else dinfo.num_lba - lba
        { ebr with
          ptable := ebr.ptable.set PC_EBR_NEXT_PTR_PART
            (cfg_pentry PC_PART_NORMAL PC_PART_TYPE_EXTENDED next_start_lba next_len_lba) }
    some (⟨offset, PcBootRecord.codec.enc ebr⟩, pinfo, lba)

/-- `mk_empty_ptable`. -/
def mk_empty_ptable : WriteItem := ⟨446, List.replicate 64 0 ++ [0x55, 0xAA]⟩

/-- The test at the head of the loop of `config_mbr` that goes to `nospace`. -/
def nospace (dinfo : DiskInfo) (pinfo : PartInfo) (cur_lba extended : UInt32) : Bool :=
  if dinfo.num_lba ≠ 0 ∧ cur_lba + extended ≥ dinfo.num_lba then true
  else if pinfo.len_kb ≠ FILL then
    let sz_lba := (pinfo.len_kb / dinfo.sect_size.toUInt32) * 1024
    dinfo.num_lba ≠ 0 ∧ cur_lba + sz_lba + extended > dinfo.num_lba
  else false

/-- The loop of `config_mbr` from partition `cnt` on: the partitions as it leaves them, and
the write list. -/
def config_loop (dinfo : DiskInfo) : (cnt : ℕ) → List PartInfo → (cur_lba ext_lba : UInt32) →
    (extended : UInt32) → (wr_list : List WriteItem) → Option (List PartInfo × List WriteItem)
  | _, [], _, _, _, wr_list => some ([], wr_list)
  | cnt, pinfo :: rest, cur_lba, ext_lba, extended, wr_list => do
    let (ext_lba, extended, wr_list) ←
      if cnt = PC_NUM_BOOT_RECORD_PARTS - 1 ∧ cnt + 1 < dinfo.num_parts then do
        let (temp_wr, _, _) ← mk_pri_pentry dinfo none cnt cur_lba
        pure (cur_lba, (1 : UInt32), temp_wr :: wr_list)
      else pure (ext_lba, extended, wr_list)
    if nospace dinfo pinfo cur_lba extended then none
    else do
      let (temp_wr, pinfo, cur_lba) ←
        if extended = 0 then do
          let (temp_wr, pinfo', cur_lba) ← mk_pri_pentry dinfo (some pinfo) cnt cur_lba
          pure (temp_wr, pinfo'.getD pinfo, cur_lba)
        else mk_ext_pentry dinfo pinfo cur_lba ext_lba rest.head?
      let (rest, wr_list) ← config_loop dinfo (cnt + 1) rest cur_lba ext_lba extended
        (temp_wr :: wr_list)
      pure (pinfo :: rest, wr_list)

/-- `memset` of a `struct part_info`. -/
def blank : PartInfo := ⟨[], 0, 0, 0, 0⟩

/-- The second loop of `config_mbr`, with `left` entries of the MBR to go. -/
def blank_loop (dinfo : DiskInfo) : (left : ℕ) → (wr_list : List WriteItem) →
    Option (List WriteItem)
  | 0, wr_list => some wr_list
  | left + 1, wr_list => do
    let (temp_wr, _, _) ←
      mk_pri_pentry dinfo (some blank) (PC_NUM_BOOT_RECORD_PARTS - (left + 1)) 0
    blank_loop dinfo left (temp_wr :: wr_list)

/-- `config_mbr`: the `disk_info` as it leaves it, and the write list. -/
def config_mbr (dinfo : DiskInfo) : Option (DiskInfo × List WriteItem) := do
  let (part_lst, wr_list) ← config_loop dinfo 0 dinfo.part_lst dinfo.skip_lba 0 0 []
  let wr_list ← blank_loop dinfo (PC_NUM_BOOT_RECORD_PARTS - dinfo.num_parts) wr_list
  pure ({ dinfo with part_lst }, mk_empty_ptable :: wr_list)

/-- `find_mbr_part`. -/
def find_mbr_part (dinfo : DiskInfo) (name : CStr) : Option CStr :=
  let num := dinfo.part_lst.findIdx (·.name = name) + 1
  if num > dinfo.num_parts then none
  else
    let num := if dinfo.num_parts > PC_NUM_BOOT_RECORD_PARTS ∧ num ≥ PC_NUM_BOOT_RECORD_PARTS then
      num + 1 else num
    let dev_name := dinfo.device ++ dec num
    if dev_name.length ≥ MAX_NAME_LEN then none else some dev_name

/-! ## `write_lst.c` -/

/-- `wlist_commit` on a file, with what the `write` calls do: what it returns, and the
file. A seek fails where there is no such place. -/
def wlist_commit (test : Bool) : (writes : List IoRes) → (fd : Store) → List WriteItem →
    Exec Empty (Int × Store × List IoRes)
  | writes, fd, [] => .ret (0, fd, writes)
  | writes, fd, item :: lst =>
    if item.offset < 0 then .ret (-1, fd, writes)
    else if test then wlist_commit test writes fd lst
    else
      match writes with
      | [] => .hang
      | w :: writes =>
        let ret := w.amount item.data.length
        let fd := fd.write item.offset.toNat (item.data.take ret)
        if ret ≠ item.data.length then .ret (-1, fd, writes)
        else wlist_commit test writes fd lst

/-! ## Sectors of a power of two bytes -/

/-- `sect_size`, "MUST BE POWER OF 2" and at least the size of a boot record. -/
def DiskInfo.PowerOfTwo (dinfo : DiskInfo) : Prop :=
  ∃ k ≥ 9, dinfo.sect_size.toInt = 2 ^ k

/-- The number of bytes in a sector. -/
def DiskInfo.sect (dinfo : DiskInfo) : ℕ := dinfo.sect_size.toInt.toNat

/-- The number of sectors `len_kb` takes. -/
def sectors (sect len_kb : ℕ) : ℕ := (len_kb * 1024) ⌈/⌉ sect

section PowerOfTwo

variable {dinfo : DiskInfo}

/-- The size of a sector, as a number and in the code's types. -/
theorem DiskInfo.PowerOfTwo.sect_eq (hsect : dinfo.PowerOfTwo) :
    ∃ k, 9 ≤ k ∧ k < 31 ∧ dinfo.sect = 2 ^ k ∧ dinfo.sect_size.toInt = 2 ^ k := by
  obtain ⟨k, hk, hs⟩ := hsect
  have hlt : dinfo.sect_size.toInt < 2 ^ 31 := Int32.toInt_lt dinfo.sect_size
  refine ⟨k, hk, ?_, ?_, hs⟩
  · rw [hs] at hlt
    exact (Nat.pow_lt_pow_iff_right (by decide : 1 < 2)).mp (by exact_mod_cast hlt)
  · rw [DiskInfo.sect, hs]
    exact_mod_cast Int.toNat_natCast (2 ^ k)

theorem DiskInfo.PowerOfTwo.toNat_sect_size (hsect : dinfo.PowerOfTwo) :
    dinfo.sect_size.toUInt32.toNat = dinfo.sect := by
  obtain ⟨k, -, -, -, hs⟩ := hsect.sect_eq
  refine Int32.toNat_toUInt32_of_le (Int32.le_iff_toInt_le.mpr ?_)
  rw [hs]
  exact Int.le_of_lt (Int.pow_pos (by decide))

theorem DiskInfo.PowerOfTwo.toNat_sect_size64 (hsect : dinfo.PowerOfTwo) :
    dinfo.sect_size64.toNat = dinfo.sect := by
  obtain ⟨k, -, -, -, hs⟩ := hsect.sect_eq
  have hle : 0 ≤ dinfo.sect_size.toInt64 := by
    rw [Int64.le_iff_toInt_le, Int32.toInt_toInt64, hs]
    exact Int.le_of_lt (Int.pow_pos (by decide))
  refine (Int64.toNat_toUInt64_of_le hle).trans ?_
  rw [Int64.toNatClampNeg, Int32.toInt_toInt64, DiskInfo.sect]

/-- Clearing the bits of a remainder before dividing by a power of two changes nothing. -/
theorem toNat_mask_div {x s : UInt64} {k : ℕ} (hs : s.toNat = 2 ^ k) :
    ((x &&& ~~~(s - 1)) / s).toNat = x.toNat / 2 ^ k := by
  have hk : k < 64 := by
    have hlt := s.toNat_lt
    rw [hs] at hlt
    exact (Nat.pow_lt_pow_iff_right (by decide : 1 < 2)).mp hlt
  have hpos : 1 ≤ s := by
    rw [UInt64.le_iff_toNat_le, hs]
    exact Nat.one_le_two_pow
  have hmask : (~~~(s - 1)).toNat = 2 ^ k * (2 ^ (64 - k) - 1) := by
    have hpow : 2 ^ k * 2 ^ (64 - k) = 2 ^ 64 := by
      rw [← Nat.pow_add, Nat.add_sub_cancel' (Nat.le_of_lt hk)]
    have hone : 1 ≤ 2 ^ k := Nat.one_le_two_pow
    rw [UInt64.toNat_not, UInt64.toNat_sub_of_le _ _ hpos, hs, Nat.mul_sub, hpow,
      UInt64.toNat_one, UInt64.size]
    omega
  have hx : x.toNat / 2 ^ k < 2 ^ (64 - k) := by
    rw [Nat.div_lt_iff_lt_mul (Nat.two_pow_pos k), ← Nat.pow_add,
      Nat.sub_add_cancel (Nat.le_of_lt hk)]
    exact x.toNat_lt
  rw [UInt64.toNat_div, UInt64.toNat_and, hmask, hs, ← Nat.shiftRight_eq_div_pow,
    Nat.shiftRight_and_distrib, Nat.shiftRight_eq_div_pow, Nat.shiftRight_eq_div_pow,
    Nat.mul_div_cancel_left _ (Nat.two_pow_pos k), Nat.and_two_pow_sub_one_eq_mod,
    Nat.mod_eq_of_lt hx]

/-- The 64-bit arithmetic of `kb_to_lba` and `mk_pri_pentry`. -/
theorem toNat_len_lba {s : UInt64} {k : ℕ} (hs : s.toNat = 2 ^ k) (hk : k < 31)
    (len_kb : UInt32) :
    (((len_kb.toUInt64 * 1024 + (s - 1)) &&& ~~~(s - 1)) / s).toNat
      = sectors (2 ^ k) len_kb.toNat := by
  have hlen := len_kb.toNat_lt
  have hpos : 1 ≤ s := by
    rw [UInt64.le_iff_toNat_le, hs]
    exact Nat.one_le_two_pow
  have hlt : 2 ^ k < 2 ^ 31 := Nat.pow_lt_pow_of_lt (by decide) hk
  have hone : 1 ≤ 2 ^ k := Nat.one_le_two_pow
  have hsum : (len_kb.toUInt64 * 1024 + (s - 1)).toNat = len_kb.toNat * 1024 + (2 ^ k - 1) := by
    have hsub : (s - 1).toNat = 2 ^ k - 1 := by
      rw [UInt64.toNat_sub_of_le _ _ hpos, hs]
      rfl
    have hmul : (len_kb.toUInt64 * 1024).toNat = len_kb.toNat * 1024 := by
      rw [UInt64.toNat_mul, UInt32.toNat_toUInt64]
      exact Nat.mod_eq_of_lt (by show len_kb.toNat * 1024 < 2 ^ 64; omega)
    rw [UInt64.toNat_add, hsub, hmul]
    exact Nat.mod_eq_of_lt (by omega)
  rw [toNat_mask_div hs, hsum, sectors, Nat.ceilDiv_eq_add_pred_div, Nat.add_sub_assoc hone]

theorem toNat_kb_to_lba (hsect : dinfo.PowerOfTwo) (len_kb : UInt32) :
    (kb_to_lba len_kb dinfo.sect_size.toUInt32).toNat
      = sectors dinfo.sect len_kb.toNat % 2 ^ 32 := by
  obtain ⟨k, -, hk, hs, -⟩ := hsect.sect_eq
  have h64 : dinfo.sect_size.toUInt32.toUInt64.toNat = 2 ^ k := by
    rw [UInt32.toNat_toUInt64, hsect.toNat_sect_size, hs]
  have hround := toNat_len_lba h64 hk len_kb
  rw [UInt64.sub_eq_add_neg dinfo.sect_size.toUInt32.toUInt64, ← UInt64.add_assoc,
    ← UInt64.sub_eq_add_neg, ← UInt64.sub_eq_add_neg] at hround
  rw [kb_to_lba, UInt64.toNat_toUInt32, UInt64.toNat_and, hround, hs]
  show (_ &&& 2 ^ 32 - 1) % 2 ^ 32 = _
  rw [Nat.and_two_pow_sub_one_eq_mod, Nat.mod_mod]

end PowerOfTwo

/-! ## What `config_mbr` computes

`extended` is 0 for the primary partitions and 1 for the logical ones, which leave one
sector for their boot record. -/

section Layout

variable (dinfo : DiskInfo)

/-- The length of a partition that starts at `lba`. -/
def DiskInfo.len_lba (p : PartInfo) (lba : UInt32) : UInt32 :=
  if p.len_kb ≠ FILL then kb_to_lba p.len_kb dinfo.sect_size.toUInt32 else dinfo.num_lba - lba

/-- The running LBA after a partition. -/
def DiskInfo.after (extended lba : UInt32) (p : PartInfo) : UInt32 :=
  lba + extended + dinfo.len_lba p (lba + extended)

/-- The size in KB that is recorded for a logical partition. -/
def DiskInfo.recorded_kb (p : PartInfo) (lba : UInt32) : UInt32 :=
  if p.len_kb ≠ FILL then p.len_kb
  else ((dinfo.num_lba - lba).toUInt64 * dinfo.sect_size64 / 1024).toUInt32

/-- A partition as it is left. -/
def DiskInfo.placed (extended lba : UInt32) (p : PartInfo) : PartInfo :=
  { p with
    start_lba := lba + extended
    len_kb := if extended = 0 then p.len_kb else dinfo.recorded_kb p (lba + extended) }

/-- Consecutive partitions as they are left, from the running LBA `lba` on. -/
def DiskInfo.place (extended : UInt32) : List PartInfo → UInt32 → List PartInfo
  | [], _ => []
  | p :: parts, lba =>
    dinfo.placed extended lba p :: DiskInfo.place extended parts (dinfo.after extended lba p)

/-- The running LBA after them. -/
def DiskInfo.end_lba (extended : UInt32) : List PartInfo → UInt32 → UInt32
  | [], lba => lba
  | p :: parts, lba => DiskInfo.end_lba extended parts (dinfo.after extended lba p)

/-- The tests they pass. -/
def DiskInfo.rooms (extended : UInt32) : List PartInfo → UInt32 → Bool
  | [], _ => true
  | p :: parts, lba =>
    ¬ nospace dinfo p lba extended ∧ (extended = 0 ∨ p.len_kb ≠ FILL ∨ parts = []) ∧
      DiskInfo.rooms extended parts (dinfo.after extended lba p)

/-- The entry of a primary partition. -/
def DiskInfo.pri_pentry (p : PartInfo) (lba : UInt32) : PcPartition :=
  cfg_pentry (if p.flags &&& PART_ACTIVE_FLAG ≠ 0 then PC_PART_ACTIVE else PC_PART_NORMAL) p.type
    lba (dinfo.len_lba p lba)

/-- The entry of the extended partition. -/
def DiskInfo.ext_pentry (lba : UInt32) : PcPartition :=
  cfg_pentry PC_PART_NORMAL PC_PART_TYPE_EXTENDED lba (dinfo.num_lba - lba)

/-- The entry of a logical partition in its boot record. -/
def DiskInfo.log_pentry (p : PartInfo) (lba : UInt32) : PcPartition :=
  cfg_pentry PC_PART_NORMAL p.type 1 (dinfo.len_lba p (lba + 1))

/-- The entry that points to the next boot record, which is at `lba`. -/
def DiskInfo.next_pentry (ext_lba lba : UInt32) (pnext : PartInfo) : PcPartition :=
  cfg_pentry PC_PART_NORMAL PC_PART_TYPE_EXTENDED (lba - ext_lba)
    (if pnext.len_kb ≠ FILL then 1 + kb_to_lba pnext.len_kb dinfo.sect_size.toUInt32
      else dinfo.num_lba - lba)

/-- The boot record of a logical partition. -/
def DiskInfo.ebr (ext_lba lba : UInt32) (p : PartInfo) (pnext : Option PartInfo) :
    PcBootRecord where
  code := List.Vector.replicate 440 0
  disk_sig := 0
  pad := 0
  ptable := ⟨[dinfo.log_pentry p lba,
    (pnext.map (dinfo.next_pentry ext_lba (dinfo.after 1 lba p))).getD PcPartition.zero,
    PcPartition.zero, PcPartition.zero], rfl⟩
  mbr_sig := PC_BIOS_BOOT_SIG

/-- The item of a primary entry. -/
def pri_item (pnum : ℕ) (pentry : PcPartition) : WriteItem :=
  ⟨pentry_offset pnum, PcPartition.codec.enc pentry⟩

/-- The item of a boot record. -/
def DiskInfo.ebr_item (lba : UInt32) (r : PcBootRecord) : WriteItem :=
  ⟨lba.toNat * dinfo.sect_size.toInt, PcBootRecord.codec.enc r⟩

/-- The items of consecutive primary partitions, in the order they are made. -/
def DiskInfo.pri_items : ℕ → List PartInfo → UInt32 → List WriteItem
  | _, [], _ => []
  | cnt, p :: parts, lba =>
    pri_item cnt (dinfo.pri_pentry p lba) ::
      DiskInfo.pri_items (cnt + 1) parts (dinfo.after 0 lba p)

/-- The items of consecutive logical ones. -/
def DiskInfo.log_items (ext_lba : UInt32) : List PartInfo → UInt32 → List WriteItem
  | [], _ => []
  | p :: parts, lba =>
    dinfo.ebr_item lba (dinfo.ebr ext_lba lba p parts.head?) ::
      DiskInfo.log_items ext_lba parts (dinfo.after 1 lba p)

/-- The items of the blank entries from `cnt` on. -/
def blank_items : (cnt left : ℕ) → List WriteItem
  | _, 0 => []
  | cnt, left + 1 => pri_item cnt PcPartition.zero :: blank_items (cnt + 1) left

end Layout

section Spec

variable {dinfo : DiskInfo}

/-- The entry of a primary partition. -/
theorem mk_pri_pentry_some (hsect : dinfo.PowerOfTwo) (p : PartInfo) {pnum : ℕ} (hpnum : pnum < 4)
    (lba : UInt32) :
    mk_pri_pentry dinfo (some p) pnum lba =
      some (pri_item pnum (dinfo.pri_pentry p lba), some (dinfo.placed 0 lba p),
        dinfo.after 0 lba p) := by
  obtain ⟨k, -, hk, hs, -⟩ := hsect.sect_eq
  have h64 : dinfo.sect_size64.toNat = 2 ^ k := by
    rw [hsect.toNat_sect_size64, hs]
  -- the two conversions from KB agree after the cast to 32 bits
  have hlen : (if p.len_kb ≠ FILL then
      ((p.len_kb.toUInt64 * 1024 + (dinfo.sect_size64 - 1)) &&& ~~~(dinfo.sect_size64 - 1))
        / dinfo.sect_size64
      else (dinfo.num_lba - lba).toUInt64).toUInt32 = dinfo.len_lba p lba := by
    unfold DiskInfo.len_lba
    by_cases hfill : p.len_kb ≠ FILL
    · rw [if_pos hfill, if_pos hfill, ← UInt32.toNat_inj, UInt64.toNat_toUInt32,
        toNat_len_lba h64 hk, toNat_kb_to_lba hsect, hs]
    · rw [if_neg hfill, if_neg hfill, UInt32.toUInt32_toUInt64]
  rw [mk_pri_pentry, if_neg (by unfold PC_NUM_BOOT_RECORD_PARTS; omega)]
  simp only [hlen, DiskInfo.placed, DiskInfo.after, UInt32.add_zero, if_true]
  rfl

theorem mk_pri_pentry_none {pnum : ℕ} (hpnum : pnum < 4) (lba : UInt32) :
    mk_pri_pentry dinfo none pnum lba = some (pri_item pnum (dinfo.ext_pentry lba), none, lba) := by
  rw [mk_pri_pentry, if_neg (by unfold PC_NUM_BOOT_RECORD_PARTS; omega)]
  rfl

theorem mk_ext_pentry_eq (p : PartInfo) (lba ext_lba : UInt32) (pnext : Option PartInfo) :
    mk_ext_pentry dinfo p lba ext_lba pnext =
      if p.len_kb = FILL ∧ pnext ≠ none then none
      else some (dinfo.ebr_item lba (dinfo.ebr ext_lba lba p pnext), dinfo.placed 1 lba p,
        dinfo.after 1 lba p) := by
  have hlen : (if p.len_kb ≠ FILL then kb_to_lba p.len_kb dinfo.sect_size.toUInt32
      else dinfo.num_lba - (lba + 1)) = dinfo.len_lba p (lba + 1) := rfl
  have hkb : (if p.len_kb ≠ FILL then p.len_kb
      else ((dinfo.len_lba p (lba + 1)).toUInt64 * dinfo.sect_size64 / 1024).toUInt32)
      = dinfo.recorded_kb p (lba + 1) := by
    unfold DiskInfo.recorded_kb DiskInfo.len_lba
    by_cases hfill : p.len_kb ≠ FILL
    · rw [if_pos hfill, if_pos hfill]
    · rw [if_neg hfill, if_neg hfill, if_neg hfill]
  have hset : ∀ a b : PcPartition,
      (List.Vector.replicate 4 PcPartition.zero).set PC_EBR_LOGICAL_PART a
          = ⟨[a, PcPartition.zero, PcPartition.zero, PcPartition.zero], rfl⟩ ∧
        ((List.Vector.replicate 4 PcPartition.zero).set PC_EBR_LOGICAL_PART a).set
            PC_EBR_NEXT_PTR_PART b = ⟨[a, b, PcPartition.zero, PcPartition.zero], rfl⟩ :=
    fun _ _ => ⟨rfl, rfl⟩
  have hone : ¬ (1 : UInt32) = 0 := by decide
  unfold mk_ext_pentry
  simp only [hlen, hkb, PcBootRecord.zero, DiskInfo.ebr_item, DiskInfo.ebr, DiskInfo.placed,
    DiskInfo.after, DiskInfo.log_pentry, if_neg hone]
  cases pnext with
  | none => simp only [(hset _ PcPartition.zero).1, Option.map_none, Option.getD_none]
  | some pnext =>
    simp only [(hset _ _).2, Option.map_some, Option.getD_some, DiskInfo.next_pentry]

/-- A step of the loop at a primary partition. -/
theorem config_loop_pri_cons (hsect : dinfo.PowerOfTwo) (p : PartInfo) (rest : List PartInfo)
    {cnt : ℕ} (hcnt : cnt < 3 ∨ cnt = 3 ∧ dinfo.num_parts ≤ 4) (lba ext_lba : UInt32)
    (wr_list : List WriteItem) :
    config_loop dinfo cnt (p :: rest) lba ext_lba 0 wr_list =
      if nospace dinfo p lba 0 then none
      else (config_loop dinfo (cnt + 1) rest (dinfo.after 0 lba p) ext_lba 0
        (pri_item cnt (dinfo.pri_pentry p lba) :: wr_list)).map
          fun r => (dinfo.placed 0 lba p :: r.1, r.2) := by
  have hnot : ¬ (cnt = PC_NUM_BOOT_RECORD_PARTS - 1 ∧ cnt + 1 < dinfo.num_parts) := by
    unfold PC_NUM_BOOT_RECORD_PARTS
    omega
  rw [config_loop, if_neg hnot]
  simp only [Option.pure_def, Option.bind_eq_bind, Option.bind_some, if_true,
    mk_pri_pentry_some hsect p (show cnt < 4 by omega) lba, Option.getD_some]
  cases config_loop dinfo (cnt + 1) rest (dinfo.after 0 lba p) ext_lba 0
    (pri_item cnt (dinfo.pri_pentry p lba) :: wr_list) <;> rfl

/-- A run of primary partitions. -/
theorem config_loop_pri (hsect : dinfo.PowerOfTwo) (first rest : List PartInfo) {cnt : ℕ}
    (hcnt : cnt + first.length ≤ 3 ∨ cnt + first.length ≤ 4 ∧ dinfo.num_parts ≤ 4)
    (lba ext_lba : UInt32) (wr_list : List WriteItem) :
    config_loop dinfo cnt (first ++ rest) lba ext_lba 0 wr_list =
      if dinfo.rooms 0 first lba then
        (config_loop dinfo (cnt + first.length) rest (dinfo.end_lba 0 first lba) ext_lba 0
          ((dinfo.pri_items cnt first lba).reverse ++ wr_list)).map
            fun r => (dinfo.place 0 first lba ++ r.1, r.2)
      else none := by
  induction first generalizing cnt lba wr_list with
  | nil =>
    simp only [List.nil_append, DiskInfo.rooms, if_true, List.length_nil, Nat.add_zero,
      DiskInfo.end_lba, DiskInfo.pri_items, List.reverse_nil, DiskInfo.place]
    exact Option.map_id'.symm
  | cons p first ih =>
    rw [List.length_cons] at hcnt
    rw [List.cons_append, config_loop_pri_cons hsect p _ (by omega), ih (by omega)]
    -- A partition without room ends the loop with an error.
    by_cases hspace : nospace dinfo p lba 0 = true
    · rw [if_pos hspace, if_neg (by simp [DiskInfo.rooms, hspace])]
    · have hrooms : dinfo.rooms 0 (p :: first) lba = dinfo.rooms 0 first (dinfo.after 0 lba p) := by
        simp [DiskInfo.rooms, hspace]
      rw [if_neg hspace, hrooms]
      by_cases hrest : dinfo.rooms 0 first (dinfo.after 0 lba p) = true
      · rw [if_pos hrest, if_pos hrest, Option.map_map, DiskInfo.pri_items, DiskInfo.place,
          DiskInfo.end_lba, List.reverse_cons, List.append_assoc, List.length_cons,
          show cnt + 1 + first.length = cnt + (first.length + 1) by omega]
        rfl
      · rw [if_neg hrest, if_neg hrest]
        rfl

/-- What the rest of the loop does once there is an extended partition, given what it does
after one more partition. -/
theorem log_step (p : PartInfo) (rest : List PartInfo) (cnt : ℕ) (lba ext_lba : UInt32)
    (wr_list : List WriteItem)
    (hrest : ∀ wr_list, config_loop dinfo (cnt + 1) rest (dinfo.after 1 lba p) ext_lba 1 wr_list =
      if dinfo.rooms 1 rest (dinfo.after 1 lba p) then
        some (dinfo.place 1 rest (dinfo.after 1 lba p),
          (dinfo.log_items ext_lba rest (dinfo.after 1 lba p)).reverse ++ wr_list)
      else none) :
    (if nospace dinfo p lba 1 then none
      else (mk_ext_pentry dinfo p lba ext_lba rest.head?).bind fun r =>
        (config_loop dinfo (cnt + 1) rest r.2.2 ext_lba 1 (r.1 :: wr_list)).bind fun q =>
          some (r.2.1 :: q.1, q.2)) =
      if dinfo.rooms 1 (p :: rest) lba then
        some (dinfo.place 1 (p :: rest) lba,
          (dinfo.log_items ext_lba (p :: rest) lba).reverse ++ wr_list)
      else none := by
  by_cases hspace : nospace dinfo p lba 1 = true
  · rw [if_pos hspace, if_neg (by simp [DiskInfo.rooms, hspace])]
  rw [if_neg hspace, mk_ext_pentry_eq]
  have hhead : rest.head? ≠ none ↔ rest ≠ [] := by
    rw [ne_eq, List.head?_eq_none_iff]
  -- A partition that fills the disk has to be the last one.
  by_cases hfill : p.len_kb = FILL ∧ rest ≠ []
  · rw [if_pos (by rwa [hhead]), if_neg (by simp [DiskInfo.rooms, hfill.1, hfill.2])]
    rfl
  · rw [if_neg (by rwa [hhead])]
    simp only [Option.bind_some, hrest]
    have hrooms : dinfo.rooms 1 (p :: rest) lba = dinfo.rooms 1 rest (dinfo.after 1 lba p) := by
      rw [not_and_or, not_not] at hfill
      simp [DiskInfo.rooms, hspace, hfill]
    rw [hrooms]
    by_cases hr : dinfo.rooms 1 rest (dinfo.after 1 lba p) = true
    · rw [if_pos hr, if_pos hr, Option.bind_some, DiskInfo.log_items, List.reverse_cons,
        List.append_assoc]
      rfl
    · rw [if_neg hr, if_neg hr]
      rfl

/-- A run of logical partitions. -/
theorem config_loop_log (parts : List PartInfo) {cnt : ℕ} (hcnt : 4 ≤ cnt) (lba ext_lba : UInt32)
    (wr_list : List WriteItem) :
    config_loop dinfo cnt parts lba ext_lba 1 wr_list =
      if dinfo.rooms 1 parts lba then
        some (dinfo.place 1 parts lba, (dinfo.log_items ext_lba parts lba).reverse ++ wr_list)
      else none := by
  induction parts generalizing cnt lba wr_list with
  | nil => rfl
  | cons p rest ih =>
    have hnot : ¬ (cnt = PC_NUM_BOOT_RECORD_PARTS - 1 ∧ cnt + 1 < dinfo.num_parts) := by
      unfold PC_NUM_BOOT_RECORD_PARTS
      omega
    rw [config_loop, if_neg hnot]
    exact log_step p rest cnt lba ext_lba wr_list fun wr_list =>
      ih (by omega) (dinfo.after 1 lba p) wr_list

/-- The fourth of more than four partitions. -/
theorem config_loop_ext {p : PartInfo} {rest : List PartInfo} (hparts : 4 < dinfo.num_parts)
    (lba ext_lba : UInt32) (wr_list : List WriteItem) :
    config_loop dinfo 3 (p :: rest) lba ext_lba 0 wr_list =
      if dinfo.rooms 1 (p :: rest) lba then
        some (dinfo.place 1 (p :: rest) lba,
          (dinfo.log_items lba (p :: rest) lba).reverse ++
            pri_item 3 (dinfo.ext_pentry lba) :: wr_list)
      else none := by
  rw [config_loop, if_pos ⟨rfl, hparts⟩, mk_pri_pentry_none (by decide)]
  exact log_step p rest 3 lba lba _ fun wr_list =>
    config_loop_log rest (Nat.le_refl 4) (dinfo.after 1 lba p) lba wr_list

/-- An entry that is not needed is zeros. -/
theorem blank_pentry (hsect : dinfo.PowerOfTwo) {pnum : ℕ} (hpnum : pnum < 4) :
    mk_pri_pentry dinfo (some blank) pnum 0 =
      some (pri_item pnum PcPartition.zero, some (dinfo.placed 0 0 blank), dinfo.after 0 0 blank) := by
  rw [mk_pri_pentry_some hsect blank hpnum]
  have hzero : kb_to_lba 0 dinfo.sect_size.toUInt32 = 0 := by
    rw [← UInt32.toNat_inj, toNat_kb_to_lba hsect]
    simp [sectors]
  have hlen : dinfo.len_lba blank 0 = 0 := by
    rw [DiskInfo.len_lba, if_pos (show blank.len_kb ≠ FILL by decide)]
    exact hzero
  have hpentry : dinfo.pri_pentry blank 0 = PcPartition.zero := by
    rw [DiskInfo.pri_pentry, hlen]
    rfl
  rw [hpentry]

/-- The loop makes all of them so. -/
theorem blank_loop_eq (hsect : dinfo.PowerOfTwo) {left : ℕ} (hleft : left ≤ 4)
    (wr_list : List WriteItem) :
    blank_loop dinfo left wr_list = some ((blank_items (4 - left) left).reverse ++ wr_list) := by
  induction left generalizing wr_list with
  | zero => rfl
  | succ left ih =>
    have hpnum : 4 - (left + 1) + 1 = 4 - left := by omega
    rw [blank_loop, show PC_NUM_BOOT_RECORD_PARTS = 4 from rfl, blank_pentry hsect (by omega)]
    refine (ih (by omega) _).trans ?_
    rw [blank_items, List.reverse_cons, List.append_assoc, hpnum]
    rfl

/-- The primary partitions. -/
def DiskInfo.primary (dinfo : DiskInfo) : List PartInfo :=
  if dinfo.num_parts ≤ 4 then dinfo.part_lst else dinfo.part_lst.take 3

/-- The logical ones. -/
def DiskInfo.logical (dinfo : DiskInfo) : List PartInfo :=
  if dinfo.num_parts ≤ 4 then [] else dinfo.part_lst.drop 3

/-- Where the extended partition starts, if there is one. -/
def DiskInfo.ext_lba (dinfo : DiskInfo) : UInt32 := dinfo.end_lba 0 dinfo.primary dinfo.skip_lba

/-- All items, in the order they are made. -/
def DiskInfo.items (dinfo : DiskInfo) : List WriteItem :=
  dinfo.pri_items 0 dinfo.primary dinfo.skip_lba ++
    if dinfo.num_parts ≤ 4 then blank_items dinfo.num_parts (4 - dinfo.num_parts)
    else pri_item 3 (dinfo.ext_pentry dinfo.ext_lba) ::
      dinfo.log_items dinfo.ext_lba dinfo.logical dinfo.ext_lba

/-- The partitions as they are left. -/
def DiskInfo.parts (dinfo : DiskInfo) : List PartInfo :=
  dinfo.place 0 dinfo.primary dinfo.skip_lba ++ dinfo.place 1 dinfo.logical dinfo.ext_lba

/-- The tests that are passed. -/
def DiskInfo.room (dinfo : DiskInfo) : Bool :=
  dinfo.rooms 0 dinfo.primary dinfo.skip_lba && dinfo.rooms 1 dinfo.logical dinfo.ext_lba

/-- `config_mbr` where all partitions are primary. -/
theorem config_mbr_primary (hsect : dinfo.PowerOfTwo) (hparts : dinfo.num_parts ≤ 4) :
    config_mbr dinfo =
      if dinfo.rooms 0 dinfo.part_lst dinfo.skip_lba then
        some ({ dinfo with part_lst := dinfo.place 0 dinfo.part_lst dinfo.skip_lba },
          mk_empty_ptable :: (dinfo.pri_items 0 dinfo.part_lst dinfo.skip_lba ++
            blank_items dinfo.num_parts (4 - dinfo.num_parts)).reverse)
      else none := by
  have hcnt : 0 + dinfo.part_lst.length ≤ 4 := by
    rw [Nat.zero_add]
    exact hparts
  have hloop := config_loop_pri hsect dinfo.part_lst [] (.inr ⟨hcnt, hparts⟩) dinfo.skip_lba 0 []
  rw [List.append_nil, config_loop] at hloop
  rw [config_mbr, hloop]
  by_cases hrooms : dinfo.rooms 0 dinfo.part_lst dinfo.skip_lba = true
  · have hblank := blank_loop_eq hsect (Nat.sub_le 4 dinfo.num_parts)
      ((dinfo.pri_items 0 dinfo.part_lst dinfo.skip_lba).reverse)
    rw [Nat.sub_sub_self hparts] at hblank
    simp only [if_pos hrooms, Option.map_some, Option.bind_eq_bind, Option.bind_some,
      Option.pure_def, List.append_nil, show PC_NUM_BOOT_RECORD_PARTS = 4 from rfl, hblank,
      List.reverse_append]
  · rw [if_neg hrooms, if_neg hrooms]
    rfl

/-- `config_mbr` where there is an extended partition: three primary ones in front of it,
the fourth and all after it inside. -/
theorem config_mbr_extended (hsect : dinfo.PowerOfTwo) (hparts : 4 < dinfo.num_parts)
    {first rest : List PartInfo} (hfirst : dinfo.part_lst.take 3 = first)
    (hrest : dinfo.part_lst.drop 3 = rest) {ext_lba : UInt32}
    (hext : dinfo.end_lba 0 first dinfo.skip_lba = ext_lba) :
    config_mbr dinfo =
      if dinfo.rooms 0 first dinfo.skip_lba && dinfo.rooms 1 rest ext_lba then
        some ({ dinfo with
            part_lst := dinfo.place 0 first dinfo.skip_lba ++ dinfo.place 1 rest ext_lba },
          mk_empty_ptable :: (dinfo.pri_items 0 first dinfo.skip_lba ++
            pri_item 3 (dinfo.ext_pentry ext_lba) ::
              dinfo.log_items ext_lba rest ext_lba).reverse)
      else none := by
  have hmore : 4 < dinfo.part_lst.length := hparts
  have hlength : first.length = 3 := by
    rw [← hfirst, List.length_take]
    omega
  have hsplit : first ++ rest = dinfo.part_lst := by
    rw [← hfirst, ← hrest, List.take_append_drop]
  have hcnt : 0 + first.length ≤ 3 := by omega
  have hloop := config_loop_pri hsect first rest (.inl hcnt) dinfo.skip_lba 0 []
  rw [hsplit, hlength, List.append_nil, hext] at hloop
  rw [config_mbr, hloop]
  have hblank : PC_NUM_BOOT_RECORD_PARTS - dinfo.num_parts = 0 := by
    unfold PC_NUM_BOOT_RECORD_PARTS
    omega
  -- A primary partition without room stops the loop before the extended one is begun.
  by_cases hrooms : dinfo.rooms 0 first dinfo.skip_lba = true
  swap
  · rw [if_neg hrooms, if_neg (by simp [hrooms])]
    rfl
  cases rest with
  | nil =>
    have hnone := congrArg List.length hrest
    rw [List.length_drop, List.length_nil] at hnone
    omega
  | cons p rest =>
    rw [if_pos hrooms, config_loop_ext hparts, hrooms, Bool.true_and]
    -- The loop puts each item in front of the list, so they stand there in reverse.
    by_cases hlog : dinfo.rooms 1 (p :: rest) ext_lba = true
    · rw [if_pos hlog, if_pos hlog, hblank, List.reverse_append, List.reverse_cons,
        List.append_assoc]
      rfl
    · rw [if_neg hlog, if_neg hlog]
      rfl

/-- **What `config_mbr` computes.** -/
theorem config_mbr_eq (hsect : dinfo.PowerOfTwo) :
    config_mbr dinfo =
      if dinfo.room then
        some ({ dinfo with part_lst := dinfo.parts }, mk_empty_ptable :: dinfo.items.reverse)
      else none := by
  by_cases hparts : dinfo.num_parts ≤ 4
  · have hprimary : dinfo.primary = dinfo.part_lst := if_pos hparts
    have hlogical : dinfo.logical = [] := if_pos hparts
    rw [config_mbr_primary hsect hparts, DiskInfo.room, DiskInfo.parts, DiskInfo.items, hprimary,
      hlogical, if_pos hparts, DiskInfo.rooms, Bool.and_true, DiskInfo.place, List.append_nil]
  · have hprimary : dinfo.primary = dinfo.part_lst.take 3 := if_neg hparts
    have hlogical : dinfo.logical = dinfo.part_lst.drop 3 := if_neg hparts
    rw [config_mbr_extended hsect (Nat.lt_of_not_le hparts) hprimary.symm hlogical.symm rfl,
      DiskInfo.room, DiskInfo.parts, DiskInfo.items, if_neg hparts]
    rfl

end Spec

end EditDiskLbl

end Iago
