/-
The structs of `gpt.h` and the functions of `gpt.c` that work on one of them at
a time: GUIDs, the header, one partition entry and its name.

The records below hold the fields as the running program sees them, that is, as
words of the host; `GptHeader.codec` and `GptEntry.codec` say which bytes of
memory those are. Both structs are declared packed, so a codec is its fields in
declaration order, and its width is the C `sizeof`: 92 bytes for the header and
128 for an entry.

A partition name is 36 UTF-16 units that stay little-endian in memory whatever
the host is; `lechar16_to_ascii` converts on the way out.
-/
import Iago.Exec
import Iago.Platform

set_option autoImplicit false

namespace Iago

/-- A C string, without its terminating zero. -/
abbrev CStr := List UInt8

/-- The bytes of an ASCII literal. -/
def cstr (s : String) : CStr := s.toList.map fun c => UInt8.ofNat c.toNat

/-! ## The structs -/

/-- `struct guid`. -/
structure Guid where
  data1 : UInt32
  data2 : UInt16
  data3 : UInt16
  data4 : List.Vector UInt8 8
  deriving DecidableEq

/-- `struct gpt_header`. -/
structure GptHeader where
  sig : List.Vector UInt8 8
  revision : UInt32
  header_size : UInt32
  crc32 : UInt32
  reserved_zero : UInt32
  current_lba : UInt64
  backup_lba : UInt64
  first_usable_lba : UInt64
  last_usable_lba : UInt64
  disk_guid : Guid
  pentry_start_lba : UInt64
  num_pentries : UInt32
  pentry_size : UInt32
  pentry_crc32 : UInt32
  deriving DecidableEq

/-- `struct gpt_entry`. -/
structure GptEntry where
  type_guid : Guid
  part_guid : Guid
  first_lba : UInt64
  last_lba : UInt64
  flags : UInt64
  name : List.Vector UInt16 36
  deriving DecidableEq

/-- The fields of `struct gpt_entry` before the name. -/
structure GptEntryHead where
  type_guid : Guid
  part_guid : Guid
  first_lba : UInt64
  last_lba : UInt64
  flags : UInt64
  deriving DecidableEq

def GptEntry.head (e : GptEntry) : GptEntryHead :=
  ⟨e.type_guid, e.part_guid, e.first_lba, e.last_lba, e.flags⟩

/-- The entry with other fields before the name. -/
def GptEntry.withHead (e : GptEntry) (h : GptEntryHead) : GptEntry where
  type_guid := h.type_guid
  part_guid := h.part_guid
  first_lba := h.first_lba
  last_lba := h.last_lba
  flags := h.flags
  name := e.name

/-- Where `gpt->entries` points: nowhere, at an allocated array, or at an array
that has been handed back to `free`. -/
inductive Entries where
  | null
  | live (buf : List UInt8)
  | freed
  deriving DecidableEq

/-- `struct gpt`. -/
structure Gpt where
  header : GptHeader
  entries : Entries
  lba_size : UInt32
  sectors : UInt64
  device : CStr
  deriving DecidableEq

section Layout

variable [Platform]

/-- The fields of a GUID in the order they lie in memory. -/
def Guid.fields : (UInt32 × UInt16 × UInt16 × List.Vector UInt8 8) ≃ Guid where
  toFun p := ⟨p.1, p.2.1, p.2.2.1, p.2.2.2⟩
  invFun g := (g.data1, g.data2, g.data3, g.data4)
  left_inv _ := rfl
  right_inv _ := rfl

def Guid.codec : Codec Guid :=
  (u32.pair <| u16.pair <| u16.pair <| Codec.u8.vector 8).map Guid.fields

/-- The fields of the header in the order they lie in memory. -/
def GptHeader.fields :
    (List.Vector UInt8 8 × UInt32 × UInt32 × UInt32 × UInt32 × UInt64 × UInt64 × UInt64 ×
      UInt64 × Guid × UInt64 × UInt32 × UInt32 × UInt32) ≃ GptHeader where
  toFun := fun (a, b, c, d, e, f, g, h, i, j, k, l, m, n) =>
    ⟨a, b, c, d, e, f, g, h, i, j, k, l, m, n⟩
  invFun h := (h.sig, h.revision, h.header_size, h.crc32, h.reserved_zero, h.current_lba,
    h.backup_lba, h.first_usable_lba, h.last_usable_lba, h.disk_guid, h.pentry_start_lba,
    h.num_pentries, h.pentry_size, h.pentry_crc32)
  left_inv _ := rfl
  right_inv _ := rfl

def GptHeader.codec : Codec GptHeader :=
  ((Codec.u8.vector 8).pair <| u32.pair <| u32.pair <| u32.pair <| u32.pair <| u64.pair <|
    u64.pair <| u64.pair <| u64.pair <| Guid.codec.pair <| u64.pair <| u32.pair <|
    u32.pair u32).map GptHeader.fields

/-- The fields of an entry in the order they lie in memory. -/
def GptEntry.fields :
    (Guid × Guid × UInt64 × UInt64 × UInt64 × List.Vector UInt16 36) ≃ GptEntry where
  toFun p := ⟨p.1, p.2.1, p.2.2.1, p.2.2.2.1, p.2.2.2.2.1, p.2.2.2.2.2⟩
  invFun e := (e.type_guid, e.part_guid, e.first_lba, e.last_lba, e.flags, e.name)
  left_inv _ := rfl
  right_inv _ := rfl

def GptEntry.codec : Codec GptEntry :=
  (Guid.codec.pair <| Guid.codec.pair <| u64.pair <| u64.pair <| u64.pair <|
    u16.vector 36).map GptEntry.fields

/-- The fields before the name in the order they lie in memory. -/
def GptEntryHead.fields : (Guid × Guid × UInt64 × UInt64 × UInt64) ≃ GptEntryHead where
  toFun p := ⟨p.1, p.2.1, p.2.2.1, p.2.2.2.1, p.2.2.2.2⟩
  invFun h := (h.type_guid, h.part_guid, h.first_lba, h.last_lba, h.flags)
  left_inv _ := rfl
  right_inv _ := rfl

def GptEntryHead.codec : Codec GptEntryHead :=
  (Guid.codec.pair <| Guid.codec.pair <| u64.pair <| u64.pair u64).map GptEntryHead.fields

@[simp] theorem Guid.width_codec : Guid.codec.width = 16 := rfl

@[simp] theorem GptHeader.width_codec : GptHeader.codec.width = 92 := rfl

@[simp] theorem GptEntry.width_codec : GptEntry.codec.width = 128 := by
  have hname : (u16.vector 36).width = 72 := Codec.width_vector u16 36
  show 16 + (16 + (8 + (8 + (8 + (u16.vector 36).width)))) = 128
  rw [hname]

@[simp] theorem GptEntryHead.width_codec : GptEntryHead.codec.width = 56 := rfl

/-- The fields before the name are the first 56 bytes of an entry. -/
theorem GptEntry.head_dec (bs : List UInt8) :
    (GptEntry.codec.dec bs).head = GptEntryHead.codec.dec (bs.take 56) := by
  have hguid : Guid.codec.width = 16 := rfl
  have hword : u64.width = 8 := rfl
  unfold GptEntry.codec GptEntryHead.codec
  simp only [Codec.map, Codec.pair, GptEntry.fields, GptEntryHead.fields, GptEntry.head,
    Equiv.coe_fn_mk, hguid, hword, List.take_take, List.drop_take, List.drop_drop]
  rfl

/-- And the name is what is behind them. -/
theorem GptEntry.enc_eq (e : GptEntry) :
    GptEntry.codec.enc e = GptEntryHead.codec.enc e.head ++ (u16.vector 36).enc e.name := by
  unfold GptEntry.codec GptEntryHead.codec
  simp only [Codec.map, Codec.pair, GptEntry.fields, GptEntryHead.fields, GptEntry.head,
    Equiv.coe_fn_symm_mk, List.append_assoc]

-- the layouts are used through their widths and round trips only
attribute [irreducible] Guid.codec GptHeader.codec GptEntry.codec GptEntryHead.codec

/-- So a header is written in 92 bytes. -/
@[simp] theorem GptHeader.length_enc (h : GptHeader) : (GptHeader.codec.enc h).length = 92 := by
  rw [GptHeader.codec.length_enc, GptHeader.width_codec]

@[simp] theorem GptEntry.length_enc (e : GptEntry) : (GptEntry.codec.enc e).length = 128 := by
  rw [GptEntry.codec.length_enc, GptEntry.width_codec]

end Layout

/-! ## Partition types -/

/-- `GPT_GUID(a, b, c, d1, d2)`: the last two arguments are spread over `data4`,
most significant byte first. -/
def GPT_GUID (a : UInt32) (b c d1 : UInt16) (d2 : UInt64) : Guid where
  data1 := a
  data2 := b
  data3 := c
  data4 := ⟨[(d1 >>> 8).toUInt8, d1.toUInt8, (d2 >>> 40).toUInt8, (d2 >>> 32).toUInt8,
    (d2 >>> 24).toUInt8, (d2 >>> 16).toUInt8, (d2 >>> 8).toUInt8, d2.toUInt8], rfl⟩

def efi_sys_ptn : Guid := GPT_GUID 0xC12A7328 0xF81F 0x11D2 0xBA4B 0x00A0C93EC93B
def ms_reserved_ptn : Guid := GPT_GUID 0xE3C9E316 0x0B5C 0x4DB8 0x817D 0xF92DF00215AE
def ms_data_ptn : Guid := GPT_GUID 0xEBD0A0A2 0xB9E5 0x4433 0x87C0 0x68B6B72699C7
def linux_ptn : Guid := GPT_GUID 0x0FC63DAF 0x8483 0x4772 0x8E79 0x3D69D8477DE4
def linux_swap : Guid := GPT_GUID 0x0657FD6D 0xA4AB 0x43C4 0x84E5 0x0933C84B4F4F
def android_boot : Guid := GPT_GUID 0x49a4d17f 0x93a3 0x45c1 0xa0de 0xf50b2ebe2599
def android_recovery : Guid := GPT_GUID 0x4177c722 0x9e92 0x4aab 0x8644 0x43502bfd5506
def android_tertiary : Guid := GPT_GUID 0x767941d0 0x2085 0x11e3 0xad3b 0x6cfdb94711e9
def android_misc : Guid := GPT_GUID 0xef32a33b 0xa409 0x486c 0x9141 0x9ffb711f6266
def android_metadata : Guid := GPT_GUID 0x20ac26be 0x20b7 0x11e3 0x84c5 0x6cfdb94711e9

/-- `enum part_type`. -/
inductive PartType where
  | PART_LINUX
  | PART_ANDROID_BOOT
  | PART_ANDROID_RECOVERY
  | PART_ANDROID_TERTIARY
  | PART_ANDROID_MISC
  | PART_ANDROID_METADATA
  | PART_MS_DATA
  | PART_MS_RESERVED
  | PART_ESP
  | PART_LINUX_SWAP
  deriving DecidableEq, Repr

def get_guid_type : PartType → Guid
  | .PART_LINUX => linux_ptn
  | .PART_LINUX_SWAP => linux_swap
  | .PART_MS_DATA => ms_data_ptn
  | .PART_ESP => efi_sys_ptn
  | .PART_MS_RESERVED => ms_reserved_ptn
  | .PART_ANDROID_BOOT => android_boot
  | .PART_ANDROID_MISC => android_misc
  | .PART_ANDROID_RECOVERY => android_recovery
  | .PART_ANDROID_TERTIARY => android_tertiary
  | .PART_ANDROID_METADATA => android_metadata

/-! ## The random source

`/dev/urandom` as the sequence of its answers to a read of 16 bytes: the bytes,
or a read error. -/

abbrev Urandom := ℕ → Option (List.Vector UInt8 16)

/-- The source after one read. -/
def Urandom.next (r : Urandom) : Urandom := fun n => r (n + 1)

/-- For the index of the first byte of `data4`. -/
instance neZero_data4 : NeZero (7 + 1) := ⟨Nat.succ_ne_zero 7⟩

/-- `generate_uuid`: the version-4 GUID made of the next 16 random bytes. -/
def generate_uuid [Platform] (r : Urandom) : Option Guid × Urandom :=
  match r 0 with
  | none => (none, r.next)
  | some bytes =>
    let uuid := Guid.codec.dec bytes.toList
    (some { uuid with
        data4 := uuid.data4.set 0 ((uuid.data4.get 0 &&& 0x3F) ||| 0x80)
        data3 := (uuid.data3 &&& 0x0FFF) ||| 0x4000 }, r.next)

/-! ## One entry -/

section Entry

variable {ε : Type} [Platform]

/-- `while (*(pos++)) len++;` over the memory from `str16` on, as far as it can be read. -/
def lechar16_scan : List UInt16 → (len : ℕ) → Exec ε ℕ
  | [], _ => .fault
  | u :: rest, len => if u ≠ 0 then lechar16_scan rest (len + 1) else .ret len

/-- One character of the conversion. -/
def ascii_of_unit (u : UInt16) : UInt8 :=
  let p := letoh16 u
  if p > 127 then 63 else p.toUInt8

/-- `lechar16_to_ascii` of the memory from `str16` on: the units before the first zero, those
above 127 as `?`. Nothing tells it where the name field ends. -/
def lechar16_to_ascii (str16 : List UInt16) : Exec ε CStr := do
  let len ← lechar16_scan str16 0
  .ret ((str16.take len).map ascii_of_unit)

/-- `(uint16_t)name[i]` for a signed `char`. -/
def charToU16 (c : UInt8) : UInt16 := if c < 128 then c.toUInt16 else c.toUInt16 + 0xFF00

/-- The name field after `len` units and a terminator have been stored over it. -/
def overwriteName (old : List.Vector UInt16 36) (name : CStr) (h : name.length ≤ 35) :
    List.Vector UInt16 36 :=
  ⟨name.map (fun c => htole16 (charToU16 c)) ++ 0 :: old.toList.drop (name.length + 1), by
    rw [List.length_append, List.length_map, List.length_cons, List.length_drop,
      List.Vector.toList_length]
    omega⟩

/-- `gpt_entry_set_name`: -1 and no change when the name is longer than 35. -/
def gpt_entry_set_name (e : GptEntry) (name : CStr) : Int × GptEntry :=
  if h : name.length ≤ 35 then (0, { e with name := overwriteName e.name name h })
  else (-1, e)

def gpt_entry_set_type (e : GptEntry) (type : PartType) : GptEntry :=
  { e with type_guid := get_guid_type type }

/-- `gpt_entry_get_size`, in bytes and modulo 2^64. -/
def gpt_entry_get_size (g : Gpt) (e : GptEntry) : UInt64 :=
  ((e.last_lba + 1) - e.first_lba) * g.lba_size.toUInt64

/-- What `memset(e, 0, sizeof(struct gpt_entry))` leaves. -/
def GptEntry.zero : GptEntry where
  type_guid := ⟨0, 0, 0, List.Vector.replicate 8 0⟩
  part_guid := ⟨0, 0, 0, List.Vector.replicate 8 0⟩
  first_lba := 0
  last_lba := 0
  flags := 0
  name := List.Vector.replicate 36 0

/-! ## Names read back

The scan stops at the first zero unit. Where that is in the field the name is what the entry
says (`entry_name`), and a name that was set comes back, except that the decoder takes every
unit above 127 for one it cannot show: a `char` above 127 is stored as its sign-extended value
and comes back as `?`. -/

/-- The units up to the first zero unit, or all of them. -/
def up_to_zero (units : List UInt16) : List UInt16 := units.takeWhile (· ≠ 0)

omit [Platform] in
/-- A unit that is not zero is one of the name. -/
theorem up_to_zero_cons_of_ne {u : UInt16} (hu : u ≠ 0) (rest : List UInt16) :
    up_to_zero (u :: rest) = u :: up_to_zero rest :=
  List.takeWhile_cons_of_pos (decide_eq_true hu)

omit [Platform] in
/-- The units up to the first zero are the first of all. -/
theorem up_to_zero_eq_take (units : List UInt16) :
    units.take (up_to_zero units).length = up_to_zero units :=
  (List.prefix_iff_eq_take.mp (List.takeWhile_prefix _)).symm

omit [Platform] in
/-- What is behind the first zero does not matter. -/
theorem up_to_zero_append_of_mem {units : List UInt16} (h : 0 ∈ units) (behind : List UInt16) :
    up_to_zero (units ++ behind) = up_to_zero units := by
  induction units with
  | nil => cases h
  | cons u rest ih =>
    by_cases hu : u = 0
    · subst hu
      rfl
    · have hrest : 0 ∈ rest := (List.mem_cons.mp h).resolve_left fun h0 => hu h0.symm
      rw [List.cons_append, up_to_zero_cons_of_ne hu, up_to_zero_cons_of_ne hu, ih hrest]

omit [Platform] in
/-- Without a zero the units run on into what is behind them. -/
theorem up_to_zero_append_of_not_mem {units : List UInt16} (h : 0 ∉ units)
    (behind : List UInt16) : up_to_zero (units ++ behind) = units ++ up_to_zero behind :=
  List.takeWhile_append_of_pos fun _ hu => decide_eq_true fun h0 => h (h0 ▸ hu)

omit [Platform] in
/-- The scan stops there, with their number. -/
theorem lechar16_scan_of_mem {units : List UInt16} (h : 0 ∈ units) (behind : List UInt16)
    (len : ℕ) :
    (lechar16_scan (units ++ behind) len : Exec ε ℕ) = .ret (len + (up_to_zero units).length) := by
  induction units generalizing len with
  | nil => cases h
  | cons u rest ih =>
    rw [List.cons_append, lechar16_scan]
    by_cases hu : u = 0
    · subst hu
      rfl
    · have hrest : 0 ∈ rest := (List.mem_cons.mp h).resolve_left fun h0 => hu h0.symm
      rw [if_pos hu, ih hrest, up_to_zero_cons_of_ne hu, List.length_cons]
      congr 1
      omega

omit [Platform] in
/-- Without a zero, the scan leaves the memory. -/
theorem lechar16_scan_fault {units : List UInt16} (h : 0 ∉ units) (len : ℕ) :
    (lechar16_scan units len : Exec ε ℕ) = .fault := by
  induction units generalizing len with
  | nil => rfl
  | cons u rest ih =>
    have hu : u ≠ 0 := fun h0 => h (h0 ▸ List.mem_cons_self)
    rw [lechar16_scan, if_pos hu, ih fun h0 => h (List.mem_cons_of_mem u h0)]

/-- What the conversion comes to. -/
theorem lechar16_to_ascii_eq (str16 : List UInt16) : (lechar16_to_ascii str16 : Exec ε CStr) =
    if 0 ∈ str16 then .ret ((up_to_zero str16).map ascii_of_unit) else .fault := by
  by_cases h : 0 ∈ str16
  · have hscan := lechar16_scan_of_mem (ε := ε) h [] 0
    rw [List.append_nil, Nat.zero_add] at hscan
    rw [lechar16_to_ascii, hscan, Exec.ret_bind, up_to_zero_eq_take, if_pos h]
  · rw [lechar16_to_ascii, lechar16_scan_fault h, Exec.fault_bind, if_neg h]

/-- The name of an entry, up to the first zero unit or to the end of the field. -/
def entry_name (e : GptEntry) : CStr := (up_to_zero e.name.toList).map ascii_of_unit

/-- What a `char` of a name is read back as. -/
def shown (c : UInt8) : UInt8 := if c < 128 then c else 63

omit [Platform] in
theorem charToU16_ne_zero {c : UInt8} (hc : c ≠ 0) : charToU16 c ≠ 0 := by
  intro h
  refine hc (UInt8.toNat_inj.mp ?_)
  have hlt := c.toNat_lt
  have hnat := congrArg UInt16.toNat h
  rw [charToU16] at hnat
  by_cases hs : c < 128
  · rw [if_pos hs] at hnat
    simpa using hnat
  · rw [if_neg hs, UInt16.toNat_add, UInt8.toNat_toUInt16] at hnat
    have h128 : 128 ≤ c.toNat := by
      rw [UInt8.lt_iff_toNat_lt] at hs
      exact Nat.le_of_not_lt hs
    have hff : (0xFF00 : UInt16).toNat = 65280 := rfl
    rw [hff, UInt16.toNat_zero] at hnat
    omega

theorem htole16_ne_zero {x : UInt16} (hx : x ≠ 0) : htole16 x ≠ 0 := by
  intro h
  refine hx ?_
  have hzero : letoh16 0 = 0 := by
    unfold letoh16
    cases Platform.endian with
    | little => rfl
    | big => decide
  rw [← letoh16_letoh16 x]
  show letoh16 (htole16 x) = 0
  rw [h, hzero]

omit [Platform] in
/-- The decoder's unit for one stored `char`. -/
theorem shown_charToU16 (c : UInt8) :
    (if charToU16 c > 127 then (63 : UInt8) else (charToU16 c).toUInt8) = shown c := by
  have hlt := c.toNat_lt
  rw [charToU16, shown]
  by_cases hs : c < 128
  · have h128 : c.toNat < 128 := UInt8.lt_iff_toNat_lt.mp hs
    rw [if_pos hs, if_pos hs, if_neg]
    · exact UInt8.toNat_inj.mp (by simp)
    · rw [gt_iff_lt, UInt16.lt_iff_toNat_lt, UInt8.toNat_toUInt16]
      show ¬ 127 < c.toNat
      omega
  · have h128 : 128 ≤ c.toNat := by
      rw [UInt8.lt_iff_toNat_lt] at hs
      exact Nat.le_of_not_lt hs
    rw [if_neg hs, if_neg hs, if_pos]
    rw [gt_iff_lt, UInt16.lt_iff_toNat_lt, UInt16.toNat_add, UInt8.toNat_toUInt16]
    show 127 < (c.toNat + 65280) % 65536
    omega

/-- A stored name has a zero unit in the field. -/
theorem zero_mem_overwriteName {name : CStr} (old : List.Vector UInt16 36)
    (h : name.length ≤ 35) : 0 ∈ (overwriteName old name h).toList := by
  show 0 ∈ name.map (fun c => htole16 (charToU16 c)) ++ 0 :: old.toList.drop (name.length + 1)
  exact List.mem_append_right _ List.mem_cons_self

/-- Up to its terminator, the field holds the name. -/
theorem up_to_zero_overwriteName {name : CStr} (old : List.Vector UInt16 36)
    (h : name.length ≤ 35) (h0 : 0 ∉ name) : up_to_zero (overwriteName old name h).toList
      = name.map fun c => htole16 (charToU16 c) := by
  have hunits : ∀ u ∈ name.map (fun c => htole16 (charToU16 c)), u ≠ 0 := by
    intro u hu
    obtain ⟨c, hc, rfl⟩ := List.mem_map.mp hu
    exact htole16_ne_zero (charToU16_ne_zero fun hz => h0 (hz ▸ hc))
  show up_to_zero (name.map (fun c => htole16 (charToU16 c)) ++
    0 :: old.toList.drop (name.length + 1)) = _
  rw [up_to_zero, List.takeWhile_append_of_pos fun u hu => decide_eq_true (hunits u hu),
    List.takeWhile_cons_of_neg (by decide), List.append_nil]

/-- **A name that was set is read back**, as far as it can be shown. -/
theorem entry_name_overwriteName {e : GptEntry} {name : CStr} (h : name.length ≤ 35)
    (h0 : 0 ∉ name) {old : List.Vector UInt16 36} (he : e.name = overwriteName old name h) :
    entry_name e = name.map shown := by
  rw [entry_name, he, up_to_zero_overwriteName old h h0, List.map_map]
  refine List.map_congr_left fun c _ => ?_
  show (let p := letoh16 (htole16 (charToU16 c)); if p > 127 then (63 : UInt8) else p.toUInt8) = _
  rw [htole16, letoh16_letoh16]
  exact shown_charToU16 c

omit [Platform] in
/-- A name of ASCII characters is shown as it is. -/
theorem map_shown {name : CStr} (h : ∀ c ∈ name, c < 128) : name.map shown = name := by
  have hid : name.map shown = name.map id := List.map_congr_left fun c hc => if_pos (h c hc)
  rw [hid, List.map_id]

end Entry

end Iago
