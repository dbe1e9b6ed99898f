/-
The GPT format, independently of the code that reads it.

On the device every number of a partition table is little-endian, at a fixed
offset of its struct. `decode_header`, `decode_head` and `decode_entry` read the
fields from there, with no host and no byte swapping in sight; they are what "the
decoding of a copy" means. The code gets at the same values another way: it loads the
bytes as a struct of the host and swaps each field in place. The theorems of
this module say that the two agree on every host (`gpt_header_bytes_to_host_dec`,
`entry_bytes_to_host_dec`, `dec_eq_decode_entry`), and where in the bytes the one field lies that the
header checksum leaves out (`enc_crc_zero`).

Three things stay in memory as they are stored, because the code never swaps
them: the two checksums, the reserved word and the names.
-/
import Iago.GptRead

set_option autoImplicit false

namespace Iago

/-! ## The fields -/

/-- The little-endian number of `w` bytes at `off`. -/
def le (bs : List UInt8) (off w : ℕ) : ℕ := leVal (slice bs off w)

def le16 (bs : List UInt8) (off : ℕ) : UInt16 := UInt16.ofNat (le bs off 2)
def le32 (bs : List UInt8) (off : ℕ) : UInt32 := UInt32.ofNat (le bs off 4)
def le64 (bs : List UInt8) (off : ℕ) : UInt64 := UInt64.ofNat (le bs off 8)

/-- The GUID at `off`. -/
def decode_guid (bs : List UInt8) (off : ℕ) : Guid where
  data1 := le32 bs off
  data2 := le16 bs (off + 4)
  data3 := le16 bs (off + 6)
  data4 := List.Vector.ofFn fun i => bs.getD (off + 8 + i) 0

section Fields

variable [Platform]

/-- The header in 92 bytes of the device. -/
def decode_header (bs : List UInt8) : GptHeader where
  sig := List.Vector.ofFn fun i => bs.getD i 0
  revision := le32 bs 8
  header_size := le32 bs 12
  crc32 := u32.dec (slice bs 16 4)
  reserved_zero := u32.dec (slice bs 20 4)
  current_lba := le64 bs 24
  backup_lba := le64 bs 32
  first_usable_lba := le64 bs 40
  last_usable_lba := le64 bs 48
  disk_guid := decode_guid bs 56
  pentry_start_lba := le64 bs 72
  num_pentries := le32 bs 80
  pentry_size := le32 bs 84
  pentry_crc32 := u32.dec (slice bs 88 4)

/-- The fields before the name in 56 bytes of the device. -/
def decode_head (bs : List UInt8) : GptEntryHead where
  type_guid := decode_guid bs 0
  part_guid := decode_guid bs 16
  first_lba := le64 bs 32
  last_lba := le64 bs 40
  flags := le64 bs 48

/-- The entry in 128 bytes of the device. -/
def decode_entry (bs : List UInt8) : GptEntry where
  type_guid := decode_guid bs 0
  part_guid := decode_guid bs 16
  first_lba := le64 bs 32
  last_lba := le64 bs 40
  flags := le64 bs 48
  name := List.Vector.ofFn fun i => u16.dec (slice bs (56 + 2 * i) 2)

/-! ## One field of a struct -/

/-- A field of the format is its number, whichever order the host has. -/
theorem letoh16_dec {bs : List UInt8} (h : bs.length = 2) :
    letoh16 (u16.dec bs) = UInt16.ofNat (leVal bs) := by
  unfold letoh16
  cases hend : Platform.endian with
  | little =>
    simp only [u16, Codec.word, hostOrder, hend]
  | big =>
    have hlt := leVal_lt bs.reverse
    have hback := leBytes_leVal bs.reverse
    rw [List.length_reverse, h] at hlt hback
    have hval : (u16.dec bs).toNat = leVal bs.reverse := by
      simp only [u16, Codec.word, hostOrder, hend]
      rw [UInt16.toNat_ofNat']
      omega
    simp only [hval, hback, List.reverse_reverse]

theorem letoh32_dec {bs : List UInt8} (h : bs.length = 4) :
    letoh32 (u32.dec bs) = UInt32.ofNat (leVal bs) := by
  unfold letoh32
  cases hend : Platform.endian with
  | little =>
    simp only [u32, Codec.word, hostOrder, hend]
  | big =>
    have hlt := leVal_lt bs.reverse
    have hback := leBytes_leVal bs.reverse
    rw [List.length_reverse, h] at hlt hback
    have hval : (u32.dec bs).toNat = leVal bs.reverse := by
      simp only [u32, Codec.word, hostOrder, hend]
      rw [UInt32.toNat_ofNat']
      omega
    simp only [hval, hback, List.reverse_reverse]

theorem letoh64_dec {bs : List UInt8} (h : bs.length = 8) :
    letoh64 (u64.dec bs) = UInt64.ofNat (leVal bs) := by
  unfold letoh64
  cases hend : Platform.endian with
  | little =>
    simp only [u64, Codec.word, hostOrder, hend]
  | big =>
    have hlt := leVal_lt bs.reverse
    have hback := leBytes_leVal bs.reverse
    rw [List.length_reverse, h] at hlt hback
    have hval : (u64.dec bs).toNat = leVal bs.reverse := by
      simp only [u64, Codec.word, hostOrder, hend]
      rw [UInt64.toNat_ofNat']
      omega
    simp only [hval, hback, List.reverse_reverse]

/-! ## The structs -/

omit [Platform] in
/-- Bytes are taken as they are. -/
theorem dec_bytes (bs : List UInt8) (off n : ℕ) :
    (Codec.u8.vector n).dec (slice bs off n) = List.Vector.ofFn fun i => bs.getD (off + i) 0 := by
  apply List.Vector.ext
  intro i
  rw [Codec.get_dec_vector, List.Vector.get_ofFn]
  show (slice (slice bs off n) (i.val * 1) 1).headD 0 = _
  rw [Nat.mul_one, slice_slice i.isLt, List.getD_eq_getElem?_getD]
  rw [List.headD_eq_head?_getD, List.head?_eq_getElem?, getElem?_slice Nat.one_pos, Nat.add_zero]

theorem dec_units (bs : List UInt8) (off n : ℕ) :
    (u16.vector n).dec (slice bs off (2 * n))
      = List.Vector.ofFn fun i => u16.dec (slice bs (off + 2 * i) 2) := by
  apply List.Vector.ext
  intro i
  rw [Codec.get_dec_vector, List.Vector.get_ofFn]
  show u16.dec (slice (slice bs off (2 * n)) (i.val * 2) 2) = _
  have hi := i.isLt
  rw [slice_slice (by omega), Nat.mul_comm]

/-- The fields of a GUID, as loaded. -/
theorem Guid.dec_slice (bs : List UInt8) (off : ℕ) :
    Guid.codec.dec (slice bs off 16)
      = ⟨u32.dec (slice bs off 4), u16.dec (slice bs (off + 4) 2), u16.dec (slice bs (off + 6) 2),
        List.Vector.ofFn fun i => bs.getD (off + 8 + i) 0⟩ := by
  have h : Guid.codec.dec (slice bs off 16)
      = ⟨u32.dec (slice (slice bs off 16) 0 4), u16.dec (slice (slice bs off 16) 4 2),
        u16.dec (slice (slice bs off 16) 6 2),
        (Codec.u8.vector 8).dec (((slice bs off 16).drop 8))⟩ := by
    simp only [Guid.codec, Codec.map, Codec.pair, Guid.fields, slice]
    rw [show u32.width = 4 from rfl, show u16.width = 2 from rfl, List.drop_drop, List.drop_drop,
      List.drop_zero]
    rfl
  have hd4 : (slice bs off 16).drop 8 = slice bs (off + 8) 8 := by
    rw [slice, slice, List.drop_take, List.drop_drop]
  rw [h, slice_slice (by omega), slice_slice (by omega), slice_slice (by omega), hd4, dec_bytes,
    Nat.add_zero]

/-- Swapping a GUID that was loaded decodes it. -/
theorem gpt_guid_bytes_to_host_dec {bs : List UInt8} {off : ℕ} (h : off + 16 ≤ bs.length) :
    gpt_guid_bytes_to_host (Guid.codec.dec (slice bs off 16)) = decode_guid bs off := by
  rw [Guid.dec_slice, gpt_guid_bytes_to_host, decode_guid, letoh32_dec (length_slice (by omega)),
    letoh16_dec (length_slice (by omega)), letoh16_dec (length_slice (by omega))]
  rfl

/-- The fields before the name of an entry, as loaded. -/
theorem GptEntryHead.dec_eq {bs : List UInt8} (h : bs.length = 56) :
    GptEntryHead.codec.dec bs = ⟨Guid.codec.dec (slice bs 0 16), Guid.codec.dec (slice bs 16 16),
      u64.dec (slice bs 32 8), u64.dec (slice bs 40 8), u64.dec (slice bs 48 8)⟩ := by
  have hflags : slice bs 48 8 = bs.drop 48 := by
    rw [slice, List.take_of_length_le (by rw [List.length_drop]; omega)]
  rw [hflags]
  simp only [GptEntryHead.codec, Codec.map, Codec.pair, GptEntryHead.fields, slice,
    Guid.width_codec, show u64.width = 8 from rfl, List.drop_drop, List.drop_zero]
  rfl

/-- Swapping the fields that were loaded decodes them. -/
theorem entry_bytes_to_host_dec {bs : List UInt8} (h : bs.length = 56) :
    entry_bytes_to_host (GptEntryHead.codec.dec bs) = decode_head bs := by
  rw [GptEntryHead.dec_eq h, entry_bytes_to_host, decode_head]
  simp only
  rw [gpt_guid_bytes_to_host_dec (by omega), gpt_guid_bytes_to_host_dec (by omega),
    letoh64_dec (length_slice (by omega)), letoh64_dec (length_slice (by omega)),
    letoh64_dec (length_slice (by omega))]
  rfl

/-- The fields of an entry, as loaded. -/
theorem GptEntry.dec_eq {bs : List UInt8} (h : bs.length = 128) :
    GptEntry.codec.dec bs = (⟨Guid.codec.dec (slice bs 0 16), Guid.codec.dec (slice bs 16 16),
      u64.dec (slice bs 32 8), u64.dec (slice bs 40 8), u64.dec (slice bs 48 8),
      (u16.vector 36).dec (slice bs 56 (2 * 36))⟩ : GptEntry) := by
  have hname : slice bs 56 (2 * 36) = bs.drop 56 := by
    rw [slice, List.take_of_length_le (by rw [List.length_drop]; omega)]
  rw [hname]
  simp only [GptEntry.codec, Codec.map, Codec.pair, GptEntry.fields, slice, Guid.width_codec,
    show u64.width = 8 from rfl, List.drop_drop, List.drop_zero]
  rfl

omit [Platform] in
/-- The fields before the name are read from the first 56 bytes. -/
theorem decode_head_take (bs : List UInt8) : decode_head (bs.take 56) = decode_head bs := by
  have hslice : ∀ o w, o + w ≤ 56 → slice (bs.take 56) o w = slice bs o w := by
    intro o w how
    rw [slice, slice, List.drop_take, List.take_take, Nat.min_eq_left (by omega)]
  have hbyte : ∀ o, o < 56 → (bs.take 56).getD o 0 = bs.getD o 0 := by
    intro o ho
    rw [List.getD_eq_getElem?_getD, List.getD_eq_getElem?_getD, List.getElem?_take_of_lt ho]
  have hguid : ∀ o, o + 16 ≤ 56 → decode_guid (bs.take 56) o = decode_guid bs o := by
    intro o ho
    rw [decode_guid, decode_guid, le32, le32, le16, le16, le16, le16, le, le, le, le, le, le,
      hslice _ _ (by omega), hslice _ _ (by omega), hslice _ _ (by omega)]
    congr 2
    funext i
    exact hbyte _ (by omega)
  rw [decode_head, decode_head, hguid 0 (by omega), hguid 16 (by omega), le64, le64, le64, le64,
    le64, le64, le, le, le, le, le, le, hslice _ _ (by omega), hslice _ _ (by omega),
    hslice _ _ (by omega)]

/-- An entry in memory is decoded when the fields before its name are and the name is as it is
stored. -/
theorem dec_eq_decode_entry {mem bs : List UInt8} (hmem : mem.length = 128)
    (hhead : GptEntryHead.codec.dec (mem.take 56) = decode_head bs)
    (hname : slice mem 56 72 = slice bs 56 72) : GptEntry.codec.dec mem = decode_entry bs := by
  have hfields : (GptEntry.codec.dec mem).head = (decode_entry bs).head := by
    rw [GptEntry.head_dec, hhead]
    rfl
  have hunits : (GptEntry.codec.dec mem).name = (decode_entry bs).name := by
    rw [GptEntry.dec_eq hmem]
    show (u16.vector 36).dec (slice mem 56 72) = _
    rw [hname]
    exact dec_units bs 56 36
  generalize GptEntry.codec.dec mem = e at hfields hunits ⊢
  generalize decode_entry bs = e' at hfields hunits ⊢
  obtain ⟨t, p, f, l, fl, n⟩ := e
  obtain ⟨t', p', f', l', fl', n'⟩ := e'
  simp only [GptEntry.head, GptEntryHead.mk.injEq] at hfields hunits
  obtain ⟨rfl, rfl, rfl, rfl, rfl⟩ := hfields
  rw [hunits]

/-- The fields of a header, as loaded. -/
theorem GptHeader.dec_eq {bs : List UInt8} (h : bs.length = 92) :
    GptHeader.codec.dec bs = ⟨(Codec.u8.vector 8).dec (slice bs 0 8), u32.dec (slice bs 8 4),
      u32.dec (slice bs 12 4), u32.dec (slice bs 16 4), u32.dec (slice bs 20 4),
      u64.dec (slice bs 24 8), u64.dec (slice bs 32 8), u64.dec (slice bs 40 8),
      u64.dec (slice bs 48 8), Guid.codec.dec (slice bs 56 16), u64.dec (slice bs 72 8),
      u32.dec (slice bs 80 4), u32.dec (slice bs 84 4), u32.dec (slice bs 88 4)⟩ := by
  have hlast : slice bs 88 4 = bs.drop 88 := by
    rw [slice, List.take_of_length_le (by rw [List.length_drop]; omega)]
  have hsig : (Codec.u8.vector 8).width = 8 := Codec.width_vector _ _
  rw [hlast]
  simp only [GptHeader.codec, Codec.map, Codec.pair, GptHeader.fields, slice, Guid.width_codec,
    hsig, show u64.width = 8 from rfl, show u32.width = 4 from rfl, List.drop_drop,
    List.drop_zero]
  rfl

/-- The signature is the first eight bytes. -/
theorem sig_dec {bs : List UInt8} (h : bs.length = 92) :
    (GptHeader.codec.dec bs).sig.toList = slice bs 0 8 := by
  rw [GptHeader.dec_eq h]
  exact Codec.toList_dec_u8_vector (length_slice (by omega))

/-- Swapping a header that was loaded decodes it. -/
theorem gpt_header_bytes_to_host_dec {bs : List UInt8} (h : bs.length = 92) :
    gpt_header_bytes_to_host (GptHeader.codec.dec bs) = decode_header bs := by
  rw [GptHeader.dec_eq h, gpt_header_bytes_to_host, decode_header]
  simp only
  rw [gpt_guid_bytes_to_host_dec (by omega), dec_bytes]
  simp only [letoh32_dec (length_slice (show 8 + 4 ≤ bs.length by omega)),
    letoh32_dec (length_slice (show 12 + 4 ≤ bs.length by omega)),
    letoh32_dec (length_slice (show 80 + 4 ≤ bs.length by omega)),
    letoh32_dec (length_slice (show 84 + 4 ≤ bs.length by omega)),
    letoh64_dec (length_slice (show 24 + 8 ≤ bs.length by omega)),
    letoh64_dec (length_slice (show 32 + 8 ≤ bs.length by omega)),
    letoh64_dec (length_slice (show 40 + 8 ≤ bs.length by omega)),
    letoh64_dec (length_slice (show 48 + 8 ≤ bs.length by omega)),
    letoh64_dec (length_slice (show 72 + 8 ≤ bs.length by omega)), Nat.zero_add]
  rfl

/-- Storing a header with another `crc32` changes four bytes. -/
theorem GptHeader.enc_crc (h : GptHeader) (c : UInt32) :
    GptHeader.codec.enc { h with crc32 := c } = splice (GptHeader.codec.enc h) 16 (u32.enc c) := by
  have hc : (u32.enc c).length = 4 := u32.length_enc c
  have hlen := GptHeader.length_enc h
  have hfit : 16 + (u32.enc c).length ≤ (GptHeader.codec.enc h).length := by omega
  have hkeep : ∀ o w, o + w ≤ 16 ∨ 20 ≤ o →
      slice (splice (GptHeader.codec.enc h) 16 (u32.enc c)) o w
        = slice (GptHeader.codec.enc h) o w :=
    fun o w ho => slice_splice_of_disjoint hfit (by omega)
  have hself := slice_splice_self hfit
  rw [hc] at hself
  have hsplice : (splice (GptHeader.codec.enc h) 16 (u32.enc c)).length = 92 := by
    rw [length_splice hfit, hlen]
  -- both sides are what the same fields encode to
  have hdec : GptHeader.codec.dec (splice (GptHeader.codec.enc h) 16 (u32.enc c))
      = { h with crc32 := c } := by
    have hfields := GptHeader.dec_eq hlen
    rw [GptHeader.codec.dec_enc] at hfields
    rw [GptHeader.dec_eq hsplice, hself, u32.dec_enc, hkeep 0 8 (by omega), hkeep 8 4 (by omega),
      hkeep 12 4 (by omega), hkeep 20 4 (by omega), hkeep 24 8 (by omega), hkeep 32 8 (by omega),
      hkeep 40 8 (by omega), hkeep 48 8 (by omega), hkeep 56 16 (by omega), hkeep 72 8 (by omega),
      hkeep 80 4 (by omega), hkeep 84 4 (by omega), hkeep 88 4 (by omega)]
    conv_rhs => rw [hfields]
  rw [← hdec, GptHeader.codec.enc_dec _ (by rw [hsplice, GptHeader.width_codec])]

/-- What the header checksum is taken over, in bytes of the device: the header
with four zeros for its `crc32` field. -/
theorem enc_crc_zero {bs : List UInt8} (h : bs.length = 92) :
    GptHeader.codec.enc { GptHeader.codec.dec bs with crc32 := 0 } = splice bs 16 [0, 0, 0, 0] := by
  have hzero : u32.enc 0 = [0, 0, 0, 0] := by
    simp only [u32, Codec.word, hostOrder]
    cases Platform.endian <;> rfl
  rw [GptHeader.enc_crc, GptHeader.codec.enc_dec _ (by rw [h, GptHeader.width_codec]), hzero]

end Fields

end Iago
