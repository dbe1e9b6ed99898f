/-
What the C code takes from the machine it is compiled for: the byte order of a
word in memory, and zlib's `crc32`.

`gpt.c` converts every field between host and little-endian order with
`letoh32` and its siblings, and checksums structs byte for byte as they lie in
memory; which bytes those are depends on the host. So the byte order is a
parameter of the whole development rather than fixed to the little-endian x86
the installer was shipped on. zlib is not part of the repository; `crc32` is a
parameter for that reason, and no theorem assumes anything about it beyond being
a function of the bytes unless it says so. The same goes for what the memory
holds behind some buffers: a `write` can be asked for more bytes than its buffer
has, and a name need not end in the array it is in. `size_t`, `ssize_t` and `long` are taken to be 64
bits wide and `int` 32.

`x86` is the concrete platform, with the CRC-32 zlib documents, on which
witnesses and counterexamples are evaluated.
-/
import Iago.Bytes

set_option autoImplicit false

namespace Iago

/-- The order in which a word's bytes lie in memory. -/
inductive Endian where
  | little
  | big
  deriving DecidableEq, Repr

/-- The buffers that may be read past their end: what a table is written from, header and array
of the copies made for the primary and for the backup one and the MBR, and the array itself,
which is searched for the end of a name. -/
inductive Buffer where
  | header (primary : Bool)
  | entries (primary : Bool)
  | mbr
  | table

/-- The machine the code runs on, and the zlib it is linked with. -/
class Platform where
  endian : Endian
  /-- `crc32(crc32(0, Z_NULL, 0), bytes, length)` of zlib. -/
  crc32 : List UInt8 → UInt32
  /-- What can be read of the memory behind a buffer. -/
  behind : Buffer → List UInt8

/-! ## Words in memory -/

/-- A word of two bytes is less than 2^16. -/
theorem u16_toNat_lt (a : UInt16) : a.toNat < 256 ^ 2 := by
  have := a.toNat_lt
  omega

theorem u16_ofNat_toNat (a : UInt16) : UInt16.ofNat a.toNat = a := by simp

theorem u16_toNat_ofNat (n : ℕ) (h : n < 256 ^ 2) : (UInt16.ofNat n).toNat = n := by
  rw [UInt16.toNat_ofNat']
  omega

/-- A word of four bytes is less than 2^32. -/
theorem u32_toNat_lt (a : UInt32) : a.toNat < 256 ^ 4 := by
  have := a.toNat_lt
  omega

theorem u32_ofNat_toNat (a : UInt32) : UInt32.ofNat a.toNat = a := by simp

theorem u32_toNat_ofNat (n : ℕ) (h : n < 256 ^ 4) : (UInt32.ofNat n).toNat = n := by
  rw [UInt32.toNat_ofNat']
  omega

/-- A sum below 2^32 does not wrap. -/
theorem toNat_add_of_lt {a b : UInt32} (h : a.toNat + b.toNat < 2 ^ 32) :
    (a + b).toNat = a.toNat + b.toNat := by
  rw [UInt32.toNat_add, Nat.mod_eq_of_lt h]

/-- A word of eight bytes is less than 2^64. -/
theorem u64_toNat_lt (a : UInt64) : a.toNat < 256 ^ 8 := by
  have := a.toNat_lt
  omega

theorem u64_ofNat_toNat (a : UInt64) : UInt64.ofNat a.toNat = a := by simp

theorem u64_toNat_ofNat (n : ℕ) (h : n < 256 ^ 8) : (UInt64.ofNat n).toNat = n := by
  rw [UInt64.toNat_ofNat']
  omega

section Words

variable [P : Platform]

/-- Putting a little-endian string into the host's order, and back. -/
def hostOrder (bs : List UInt8) : List UInt8 :=
  match P.endian with
  | .little => bs
  | .big => bs.reverse

/-- Turning the bytes round twice changes nothing. -/
theorem hostOrder_hostOrder (bs : List UInt8) : hostOrder (hostOrder bs) = bs := by
  unfold hostOrder
  cases P.endian with
  | little => rfl
  | big => exact List.reverse_reverse bs

theorem length_hostOrder (bs : List UInt8) : (hostOrder bs).length = bs.length := by
  unfold hostOrder
  cases P.endian with
  | little => rfl
  | big => exact List.length_reverse

/-- A `uint16_t` in memory. -/
def u16 : Codec UInt16 :=
  Codec.word 2 UInt16.toNat UInt16.ofNat hostOrder u16_toNat_lt u16_ofNat_toNat u16_toNat_ofNat
    hostOrder_hostOrder length_hostOrder

/-- A `uint32_t` in memory. -/
def u32 : Codec UInt32 :=
  Codec.word 4 UInt32.toNat UInt32.ofNat hostOrder u32_toNat_lt u32_ofNat_toNat u32_toNat_ofNat
    hostOrder_hostOrder length_hostOrder

/-- A `uint64_t` in memory. -/
def u64 : Codec UInt64 :=
  Codec.word 8 UInt64.toNat UInt64.ofNat hostOrder u64_toNat_lt u64_ofNat_toNat u64_toNat_ofNat
    hostOrder_hostOrder length_hostOrder

/-! ## `letoh16`, `letoh32`, `letoh64`

The identity on a little-endian host, a byte swap on a big-endian one; `htole…`
is the same operation under its other name. -/

def letoh16 (x : UInt16) : UInt16 :=
  match P.endian with
  | .little => x
  | .big => UInt16.ofNat (leVal (leBytes 2 x.toNat).reverse)

def letoh32 (x : UInt32) : UInt32 :=
  match P.endian with
  | .little => x
  | .big => UInt32.ofNat (leVal (leBytes 4 x.toNat).reverse)

def letoh64 (x : UInt64) : UInt64 :=
  match P.endian with
  | .little => x
  | .big => UInt64.ofNat (leVal (leBytes 8 x.toNat).reverse)

def htole16 (x : UInt16) : UInt16 := letoh16 x
def htole32 (x : UInt32) : UInt32 := letoh32 x
def htole64 (x : UInt64) : UInt64 := letoh64 x

/-- Whatever the host is, the conversion is its own inverse. -/
@[simp] theorem letoh16_letoh16 (x : UInt16) : letoh16 (letoh16 x) = x := by
  unfold letoh16
  cases P.endian with
  | little => rfl
  | big =>
    apply UInt16.toNat_inj.mp
    have h1 := leVal_reverse_lt 2 x.toNat
    have h2 := leVal_reverse_reverse (w := 2) (n := x.toNat) x.toNat_lt
    have h3 : (UInt16.ofNat (leVal (leBytes 2 x.toNat).reverse)).toNat
        = leVal (leBytes 2 x.toNat).reverse := by
      rw [UInt16.toNat_ofNat']; omega
    simp only [h3, h2, UInt16.ofNat_toNat]

/-- So is that of four bytes. -/
@[simp] theorem letoh32_letoh32 (x : UInt32) : letoh32 (letoh32 x) = x := by
  unfold letoh32
  cases P.endian with
  | little => rfl
  | big =>
    apply UInt32.toNat_inj.mp
    have h1 := leVal_reverse_lt 4 x.toNat
    have h2 := leVal_reverse_reverse (w := 4) (n := x.toNat) x.toNat_lt
    have h3 : (UInt32.ofNat (leVal (leBytes 4 x.toNat).reverse)).toNat
        = leVal (leBytes 4 x.toNat).reverse := by
      rw [UInt32.toNat_ofNat']; omega
    simp only [h3, h2, UInt32.ofNat_toNat]

/-- And that of eight. -/
@[simp] theorem letoh64_letoh64 (x : UInt64) : letoh64 (letoh64 x) = x := by
  unfold letoh64
  cases P.endian with
  | little => rfl
  | big =>
    apply UInt64.toNat_inj.mp
    have h1 := leVal_reverse_lt 8 x.toNat
    have h2 := leVal_reverse_reverse (w := 8) (n := x.toNat) x.toNat_lt
    have h3 : (UInt64.ofNat (leVal (leBytes 8 x.toNat).reverse)).toNat
        = leVal (leBytes 8 x.toNat).reverse := by
      rw [UInt64.toNat_ofNat']; omega
    simp only [h3, h2, UInt64.ofNat_toNat]

end Words

/-! ## The concrete platform -/

/-- One bit of the reflected CRC-32 division. -/
def crcBit (c : ℕ) : ℕ :=
  bif Nat.beq (c % 2) 1 then Nat.xor (c / 2) 0xEDB88320 else c / 2

/-- One byte of it. -/
def crcByte (c b : ℕ) : ℕ :=
  crcBit (crcBit (crcBit (crcBit (crcBit (crcBit (crcBit (crcBit (Nat.xor c b))))))))

/-- CRC-32 as zlib documents it: polynomial `0xEDB88320` reflected, register and
result complemented. -/
def crc32_ieee (bs : List UInt8) : UInt32 :=
  UInt32.ofNat (Nat.xor (bs.foldl (fun c b => crcByte c b.toNat) 0xFFFFFFFF) 0xFFFFFFFF)

/-- The check value of CRC-32: the checksum of the digits one to nine. -/
example : crc32_ieee [49, 50, 51, 52, 53, 54, 55, 56, 57] = 0xCBF43926 := by decide +kernel

/-- A little-endian PC, with zeros behind the buffers. -/
abbrev x86 : Platform where
  endian := .little
  crc32 := crc32_ieee
  behind _ := List.replicate 8 0

end Iago
