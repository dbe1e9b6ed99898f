/-
Which copies `gpt_read` accepts, and what it then holds.

A copy is a header sector and the entry array it points to. `ValidCopy` says what
makes one valid, in terms of the bytes on the device and of plain numbers: the
signature, a header size between 92 bytes and a sector, and the two checksums
over exactly the bytes they are meant to cover. `gpt_read` decides something
else. It loads 92 bytes into a struct and checksums `header_size` bytes of that
struct, so a `header_size` above 92 reads past the struct and one below 92 leaves
fields uncovered; it computes the size of the array in 32 bits and its place in
64; and it swaps the first 56 bytes of every entry whatever `pentry_size` says.

`ReadSafely` lists what has to hold of the fields of a copy for these differences
not to matter, and `gpt_read_reads_right_iff` shows the list to be exact:
`gpt_read` accepts the right disks and picks the right copy if and only if the
copies it looks at satisfy it. `entries_reachable_iff` is the same question for
the entry array alone.
-/
import Iago.GptFormat

set_option autoImplicit false

namespace Iago

section Valid

variable [Platform]

/-! ## What a copy is -/

/-- The header of the copy at byte `base`. -/
def Dev.header (d : Dev) (base : ℕ) : GptHeader := decode_header (d.data.read base 92)

/-- The array a header points to: `num_pentries * pentry_size` bytes. -/
def Dev.array (d : Dev) (lba_size : ℕ) (h : GptHeader) : List UInt8 :=
  d.data.read (h.pentry_start_lba.toNat * lba_size) (h.num_pentries.toNat * h.pentry_size.toNat)

/-- The two checksums a header states: of itself, and of its array. -/
def Dev.header_crc (d : Dev) (base : ℕ) : UInt32 := le32 (d.data.read base 92) 16

def Dev.array_crc (d : Dev) (base : ℕ) : UInt32 := le32 (d.data.read base 92) 88

/-- A header with its `crc32` field zeroed. -/
def crc_zeroed (bs : List UInt8) : List UInt8 := splice bs 16 [0, 0, 0, 0]

/-- **A valid copy.** -/
structure ValidCopy (d : Dev) (lba_size base : ℕ) : Prop where
  sig : d.data.read base 8 = efi_part
  header_size_ge : 92 ≤ (d.header base).header_size.toNat
  header_size_le : (d.header base).header_size.toNat ≤ lba_size
  header_on_disk : base + (d.header base).header_size.toNat ≤ d.size
  header_crc : Platform.crc32 (crc_zeroed (d.data.read base (d.header base).header_size.toNat))
    = d.header_crc base
  array_on_disk : (d.header base).pentry_start_lba.toNat * lba_size
    + (d.header base).num_pentries.toNat * (d.header base).pentry_size.toNat ≤ d.size
  array_crc : Platform.crc32 (d.array lba_size (d.header base)) = d.array_crc base

/-- **The decoding of a copy**: the header, and an array of the same length in which the
numbers of every entry are decoded and every other byte, the names among them, is as it
is stored. -/
structure Decodes (d : Dev) (lba_size base : ℕ) (g : Gpt) : Prop where
  header : g.header = d.header base
  live : g.entries = .live g.buf
  length : g.buf.length = (d.array lba_size g.header).length
  entry : ∀ k, k < g.header.num_pentries.toNat →
    GptEntryHead.codec.dec (slice g.buf (k * g.header.pentry_size.toNat) 56)
      = decode_head (slice (d.array lba_size g.header) (k * g.header.pentry_size.toNat) 56)
  rest : ∀ p, (∀ k, k < g.header.num_pentries.toNat →
      p < k * g.header.pentry_size.toNat ∨ k * g.header.pentry_size.toNat + 56 ≤ p) →
    g.buf[p]? = (d.array lba_size g.header)[p]?

/-! ## What the code looks at -/

/-- Where the code finds the array, a product modulo `2 ^ 64`. -/
def array_start (lba_size : ℕ) (h : GptHeader) : ℕ := h.pentry_start_lba.toNat * lba_size % 2 ^ 64

/-- The two tests the code makes of a header. -/
def HeaderPasses (d : Dev) (base : ℕ) : Prop :=
  d.data.read base 8 = efi_part ∧
    Platform.crc32 ((crc_zeroed (d.data.read base 92)).take (d.header base).header_size.toNat)
      = d.header_crc base

/-- The test the code makes of an array: it can seek there, and the checksum of as
many bytes as it has computed is right. -/
def ArrayPasses (d : Dev) (lba_size base : ℕ) : Prop :=
  array_start lba_size (d.header base) ≤ d.size ∧
    Platform.crc32 (d.data.read (array_start lba_size (d.header base))
      (d.header base).entries_size.toNat) = d.array_crc base

/-- Headers the in-memory struct and the 32-bit and 64-bit products do justice to. -/
structure GptHeader.Representable (lba_size : ℕ) (h : GptHeader) : Prop where
  header_size : h.header_size.toNat = 92
  sector : 92 ≤ lba_size
  product : h.num_pentries.toNat * h.pentry_size.toNat < 2 ^ 32
  start : h.pentry_start_lba.toNat * lba_size < 2 ^ 64
  room : h.num_pentries.toNat = 0 ∨ 56 ≤ h.pentry_size.toNat

/-- **When the code reads the copy at `base` for what it is.** A `header_size`
above 92 is read past the struct; bytes that are not on the device are waited for
for ever; a copy that passes the code's tests has to be representable; and a valid
copy has to have an array the code can measure. -/
structure ReadSafely (d : Dev) (lba_size base : ℕ) : Prop where
  header_on_disk : base ≤ d.size → base + 92 ≤ d.size
  header_size : base ≤ d.size → d.data.read base 8 = efi_part →
    (d.header base).header_size.toNat ≤ 92
  array_on_disk : base ≤ d.size → HeaderPasses d base →
    array_start lba_size (d.header base) ≤ d.size →
    array_start lba_size (d.header base) + (d.header base).entries_size.toNat ≤ d.size
  accepted : base ≤ d.size → HeaderPasses d base → ArrayPasses d lba_size base →
    (d.header base).Representable lba_size
  measured : ValidCopy d lba_size base →
    (d.header base).num_pentries.toNat * (d.header base).pentry_size.toNat < 2 ^ 32

end Valid

/-! ## The code's tests, in terms of the bytes on the device -/

section Tests

variable {ε : Type} [Platform] {d : Dev} {g : Gpt} {base : ℕ}

/-- A field on the device and the number in it. -/
theorem htole32_eq_iff {x : UInt32} {bs : List UInt8} (h : bs.length = 4) :
    htole32 x = u32.dec bs ↔ x = UInt32.ofNat (leVal bs) := by
  rw [← letoh32_dec h]
  constructor
  · intro hx
    rw [← hx, htole32, letoh32_letoh32]
  · intro hx
    rw [hx, htole32, letoh32_letoh32]

/-- `check_header` on bytes of the device. -/
theorem check_header_disk (d : Dev) (base : ℕ) :
    (check_header (d.data.read base 92) : Exec ε (Option GptHeader)) =
      if d.data.read base 8 = efi_part then
        if (d.header base).header_size.toNat ≤ 92 then
          if Platform.crc32 ((crc_zeroed (d.data.read base 92)).take
              (d.header base).header_size.toNat) = d.header_crc base then
            .ret (some (d.header base))
          else .ret none
        else .fault
      else .ret none := by
  have hlen : (d.data.read base 92).length = 92 := Store.length_read _ _ _
  have hhost := gpt_header_bytes_to_host_dec hlen
  have hsig : (GptHeader.codec.dec (d.data.read base 92)).sig.toList = d.data.read base 8 := by
    rw [sig_dec hlen, Store.slice_read _ (by omega), Nat.add_zero]
  have hsize : letoh32 (GptHeader.codec.dec (d.data.read base 92)).header_size
      = (d.header base).header_size := by
    rw [Dev.header, ← hhost]
    rfl
  have hcrc : (GptHeader.codec.dec (d.data.read base 92)).crc32
      = u32.dec (slice (d.data.read base 92) 16 4) := by
    rw [GptHeader.dec_eq hlen]
  rw [check_header_eq]
  simp only [hsig, hsize, hcrc, enc_crc_zero hlen, hhost]
  -- The checksum is compared in the order of the disk.
  have hiff := htole32_eq_iff (x := Platform.crc32 ((splice (d.data.read base 92) 16
    [0, 0, 0, 0]).take (d.header base).header_size.toNat))
    (length_slice (by omega : 16 + 4 ≤ (d.data.read base 92).length))
  simp only [hiff]
  rfl

omit [Platform] in
/-- Where an array starts, in bytes. -/
theorem array_start_eq {h : GptHeader} :
    (g.lba_offset h.pentry_start_lba).toNat = array_start g.lba_size.toNat h := by
  rw [Gpt.lba_offset, UInt64.toNat_mul, array_start, UInt32.toNat_toUInt64]

/-- `check_entries` on the array of a header of the device. -/
theorem check_entries_disk (d : Dev) (g : Gpt) (base : ℕ) :
    (check_entries d g (d.header base) : Exec ε (Option (List UInt8))) =
      let off := array_start g.lba_size.toNat (d.header base)
      if off ≤ d.size then
        if off + (d.header base).entries_size.toNat ≤ d.size then
          if Platform.crc32 (d.data.read off (d.header base).entries_size.toNat)
              = d.array_crc base then
            if (d.header base).Hold 56 then
              .ret (some ((d.header base).swapped
                (d.data.read off (d.header base).entries_size.toNat)))
            else .fault
          else .ret none
        else .hang
      else .ret none := by
  rw [check_entries_eq]
  simp only [array_start_eq]
  have hiff := htole32_eq_iff (x := Platform.crc32 (d.data.read
    (array_start g.lba_size.toNat (d.header base)) (d.header base).entries_size.toNat))
    (length_slice (by rw [Store.length_read] : 88 + 4 ≤ (d.data.read base 92).length))
  have hcrc : (d.header base).pentry_crc32 = u32.dec (slice (d.data.read base 92) 88 4) := rfl
  simp only [hcrc, hiff]
  rfl

/-- What an accepted copy has passed. -/
structure Accepted (d : Dev) (lba_size base : ℕ) (h : GptHeader) (buf : List UInt8) : Prop where
  header : h = d.header base
  header_on_disk : base + 92 ≤ d.size
  header_size : h.header_size.toNat ≤ 92
  header_passes : HeaderPasses d base
  array_on_disk : array_start lba_size h + h.entries_size.toNat ≤ d.size
  array_passes : ArrayPasses d lba_size base
  heads : h.Hold 56
  array : buf = h.swapped (d.data.read (array_start lba_size h) h.entries_size.toNat)

/-! ### Valid copies pass, and passing copies are valid, when they can be represented -/

omit [Platform] in
/-- The array of a representable header, as the code computes its place and size. -/
theorem array_eq {h : GptHeader} {lba_size : ℕ} (hrep : h.Representable lba_size) :
    d.data.read (array_start lba_size h) h.entries_size.toNat = d.array lba_size h := by
  rw [Dev.array, array_start, h.entries_size_toNat, Nat.mod_eq_of_lt hrep.start,
    Nat.mod_eq_of_lt hrep.product]

/-- A copy that passes the checks of the code is a valid one. -/
theorem valid_of_passes {lba_size : ℕ} (hfit : base + 92 ≤ d.size) (hpass : HeaderPasses d base)
    (hrep : (d.header base).Representable lba_size)
    (hafit : array_start lba_size (d.header base) + (d.header base).entries_size.toNat ≤ d.size)
    (hapass : ArrayPasses d lba_size base) : ValidCopy d lba_size base where
  sig := hpass.1
  header_size_ge := by rw [hrep.header_size]
  header_size_le := by rw [hrep.header_size]; exact hrep.sector
  header_on_disk := by rw [hrep.header_size]; exact hfit
  header_crc := by
    have h := hpass.2
    rw [hrep.header_size, List.take_of_length_le] at h
    · rw [hrep.header_size, h]
    · rw [crc_zeroed, length_splice (by rw [Store.length_read]; decide), Store.length_read]
  array_on_disk := by
    rwa [array_start, GptHeader.entries_size_toNat, Nat.mod_eq_of_lt hrep.start,
      Nat.mod_eq_of_lt hrep.product] at hafit
  array_crc := by rw [← array_eq hrep]; exact hapass.2

/-- A valid copy whose header size the struct can hold passes the header tests. -/
theorem headerPasses_of_valid {lba_size : ℕ} (hv : ValidCopy d lba_size base)
    (hsize : (d.header base).header_size.toNat ≤ 92) : HeaderPasses d base := by
  have h92 : (d.header base).header_size.toNat = 92 := by
    have := hv.header_size_ge
    omega
  refine ⟨hv.sig, ?_⟩
  have h := hv.header_crc
  rw [h92] at h
  rw [h92, List.take_of_length_le, h]
  rw [crc_zeroed, length_splice (by rw [Store.length_read]; decide), Store.length_read]

/-- Its array starts where the code looks for it, since it is on the device. -/
theorem array_start_of_valid {lba_size : ℕ} (hv : ValidCopy d lba_size base) :
    (d.header base).pentry_start_lba.toNat * lba_size < 2 ^ 64 ∧
      array_start lba_size (d.header base) ≤ d.size := by
  have hdisk := hv.array_on_disk
  have hdev := d.size_lt
  constructor
  · omega
  · rw [array_start, Nat.mod_eq_of_lt (by omega)]
    omega

/-- If its array can be measured as well, it is read safely, provided its entries
have room. -/
theorem readSafely_of_valid {lba_size : ℕ} (hv : ValidCopy d lba_size base)
    (hrep : (d.header base).Representable lba_size) : ReadSafely d lba_size base where
  header_on_disk _ := by
    have := hv.header_on_disk
    rwa [hrep.header_size] at this
  header_size _ _ := by rw [hrep.header_size]
  array_on_disk _ _ _ := by
    rw [array_start, GptHeader.entries_size_toNat, Nat.mod_eq_of_lt hrep.start,
      Nat.mod_eq_of_lt hrep.product]
    exact hv.array_on_disk
  accepted _ _ _ := hrep
  measured _ := hrep.product

/-- An accepted copy that can be represented is decoded. -/
theorem decodes_of_accepted {h : GptHeader} {buf : List UInt8}
    (hacc : Accepted d g.lba_size.toNat base h buf) (hrep : h.Representable g.lba_size.toNat) :
    Decodes d g.lba_size.toNat base ((g.withHeader h).withBuf buf) := by
  have hbuf : buf = h.swapped (d.array g.lba_size.toNat h) := by rw [hacc.array, array_eq hrep]
  have hlen : (d.array g.lba_size.toNat h).length = h.entries_size.toNat := by
    rw [Dev.array, Store.length_read, h.entries_size_toNat, Nat.mod_eq_of_lt hrep.product]
  have hlaid : ((g.withHeader h).withBuf (d.array g.lba_size.toNat h)).Laid :=
    ⟨rfl, hlen, hacc.heads⟩
  have hslots : Slots GptEntryHead.codec.width h.slotOffsets
      (d.array g.lba_size.toNat h).length := slots_of_laid hlaid
  -- The offset is computed in 32 bits, and stays below the product.
  have hoff : ∀ k, k < h.num_pentries.toNat →
      h.slotOffset k = k * h.pentry_size.toNat := fun k hk =>
    GptHeader.slotOffset_of_lt hrep.product hk
  have hmem : ∀ k, k < h.num_pentries.toNat → h.slotOffset k ∈ h.slotOffsets := fun k hk =>
    List.mem_map.mpr ⟨k, List.mem_range.mpr hk, rfl⟩
  refine ⟨hacc.header, rfl, ?_, ?_, ?_⟩
  · show buf.length = (d.array g.lba_size.toNat h).length
    rw [hbuf]
    exact Slots.length_modifyAll hslots
  · intro k hk
    show GptEntryHead.codec.dec (slice buf (k * h.pentry_size.toNat) 56) = _
    have hslot := Slots.slice_modifyAll (f := entry_bytes_to_host) hslots (hmem k hk)
    rw [GptEntryHead.width_codec, hoff k hk] at hslot
    rw [hbuf, GptHeader.swapped, hslot, GptEntryHead.codec.dec_enc, entry_bytes_to_host_dec]
    · rfl
    · refine length_slice ?_
      rw [hlen, ← hoff k hk]
      exact hacc.heads k hk
  · intro p hp
    show buf[p]? = (d.array g.lba_size.toNat h)[p]?
    rw [hbuf]
    refine Slots.getElem?_modifyAll_of_outside hslots ?_
    intro o ho
    obtain ⟨k, hk, rfl⟩ := List.mem_map.mp ho
    rw [List.mem_range] at hk
    rw [GptEntryHead.width_codec, hoff k hk]
    exact hp k hk

/-- The whole entry is decoded where it has room. -/
theorem Decodes.whole_entry {lba_size : ℕ} (hdec : Decodes d lba_size base g)
    (hroom : 128 ≤ g.header.pentry_size.toNat) {k : ℕ} (hk : k < g.header.num_pentries.toNat) :
    GptEntry.codec.dec (slice g.buf (k * g.header.pentry_size.toNat) 128)
      = decode_entry (slice (d.array lba_size g.header) (k * g.header.pentry_size.toNat) 128) := by
  have hlen : (d.array lba_size g.header).length
      = g.header.num_pentries.toNat * g.header.pentry_size.toNat := Store.length_read _ _ _
  have hend : (k + 1) * g.header.pentry_size.toNat
      ≤ g.header.num_pentries.toNat * g.header.pentry_size.toNat := Nat.mul_le_mul_right _ hk
  rw [Nat.succ_mul] at hend
  refine dec_eq_decode_entry (length_slice (by rw [hdec.length]; omega)) ?_ ?_
  · have hhead := hdec.entry k hk
    have hfirst : ∀ bs : List UInt8, (slice bs (k * g.header.pentry_size.toNat) 128).take 56
        = slice bs (k * g.header.pentry_size.toNat) 56 := by
      intro bs
      rw [slice, List.take_take, Nat.min_eq_left (by decide), ← slice]
    rw [← decode_head_take, hfirst, hfirst, hhead]
  · -- no slot's numbers lie in another one's name
    rw [slice_slice (by decide), slice_slice (by decide)]
    apply List.ext_getElem?
    intro p
    by_cases hp : p < 72
    · rw [getElem?_slice hp, getElem?_slice hp]
      refine hdec.rest _ fun j hj => ?_
      rcases Nat.lt_or_ge k j with hlt | hge
      · have := Nat.mul_le_mul_right g.header.pentry_size.toNat hlt
        rw [Nat.succ_mul] at this
        omega
      · have := Nat.mul_le_mul_right g.header.pentry_size.toNat hge
        omega
    · rw [List.getElem?_eq_none (by simp only [slice, List.length_take]; omega),
        List.getElem?_eq_none (by simp only [slice, List.length_take]; omega)]

/-- A copy that decodes as an accepted table is one that can be represented: the
table's array has the size the code computed, the copy's the size it states. -/
theorem representable_of_decodes {base' : ℕ} {h : GptHeader} {buf : List UInt8}
    (hacc : Accepted d g.lba_size.toNat base h buf)
    (hv : ValidCopy d g.lba_size.toNat base')
    (hdec : Decodes d g.lba_size.toNat base' ((g.withHeader h).withBuf buf)) :
    h = d.header base' ∧ h.Representable g.lba_size.toNat := by
  have hh : h = d.header base' := hdec.header
  have hlen : buf.length = h.num_pentries.toNat * h.pentry_size.toNat := by
    have := hdec.length
    rw [Dev.array, Store.length_read] at this
    exact this
  have hsize : buf.length = h.entries_size.toNat := by
    have hlaid : ((g.withHeader h).withBuf (d.data.read (array_start g.lba_size.toNat h)
        h.entries_size.toNat)).Laid := ⟨rfl, Store.length_read _ _ _, hacc.heads⟩
    rw [hacc.array]
    exact (modifyAll_laid hlaid entry_bytes_to_host).size
  have hlt : h.num_pentries.toNat * h.pentry_size.toNat < 2 ^ 32 := by
    have := h.entries_size.toNat_lt
    omega
  have hge := hv.header_size_ge
  have hle := hv.header_size_le
  have hacc_size := hacc.header_size
  rw [← hh] at hge hle
  refine ⟨hh, by omega, by omega, hlt, ?_, (GptHeader.hold_iff hlt).mp hacc.heads⟩
  rw [hh]
  exact (array_start_of_valid hv).1

/-! ### One copy -/

/-- What looking at a copy should say: nothing if it is not valid, and otherwise
its decoding. -/
def CopyAgrees (d : Dev) (g : Gpt) (base : ℕ)
    (said : Exec ε (Option (GptHeader × List UInt8))) : Prop :=
  (said = .ret none ∧ ¬ ValidCopy d g.lba_size.toNat base) ∨
    ∃ h buf, said = .ret (some (h, buf)) ∧ ValidCopy d g.lba_size.toNat base ∧
      Decodes d g.lba_size.toNat base ((g.withHeader h).withBuf buf)

/-- The ways looking at a copy can end, in the order of the code's steps, and what each
makes of the copy. `robust_read` repeats a request past the end for ever, and the two
faults are reads outside an object the header's own numbers lead to. -/
inductive CopyEnd (d : Dev) (lba_size base : ℕ) :
    Exec ε (Option (GptHeader × List UInt8)) → Prop
  | no_seek (hseek : ¬ base ≤ d.size) : CopyEnd d lba_size base (.ret none)
  | header_cut (hseek : base ≤ d.size) (hfit : ¬ base + 92 ≤ d.size) :
      CopyEnd d lba_size base .hang
  | no_sig (hfit : base + 92 ≤ d.size) (hsig : ¬ d.data.read base 8 = efi_part) :
      CopyEnd d lba_size base (.ret none)
  | long_header (hseek : base ≤ d.size) (hsig : d.data.read base 8 = efi_part)
      (hsize : ¬ (d.header base).header_size.toNat ≤ 92) : CopyEnd d lba_size base .fault
  | bad_header (hfit : base + 92 ≤ d.size) (hsize : (d.header base).header_size.toNat ≤ 92)
      (hpass : ¬ HeaderPasses d base) : CopyEnd d lba_size base (.ret none)
  | no_array_seek (hfit : base + 92 ≤ d.size) (hsize : (d.header base).header_size.toNat ≤ 92)
      (hseek : ¬ array_start lba_size (d.header base) ≤ d.size) :
      CopyEnd d lba_size base (.ret none)
  | array_cut (hseek : base ≤ d.size) (hpass : HeaderPasses d base)
      (haseek : array_start lba_size (d.header base) ≤ d.size)
      (hafit : ¬ array_start lba_size (d.header base) + (d.header base).entries_size.toNat
        ≤ d.size) : CopyEnd d lba_size base .hang
  | bad_array (hfit : base + 92 ≤ d.size) (hsize : (d.header base).header_size.toNat ≤ 92)
      (hafit : array_start lba_size (d.header base) + (d.header base).entries_size.toNat
        ≤ d.size)
      (hcrc : ¬ Platform.crc32 (d.data.read (array_start lba_size (d.header base))
        (d.header base).entries_size.toNat) = d.array_crc base) :
      CopyEnd d lba_size base (.ret none)
  | outside (hseek : base ≤ d.size) (hpass : HeaderPasses d base)
      (hapass : ArrayPasses d lba_size base) (hin : ¬ (d.header base).Hold 56) :
      CopyEnd d lba_size base .fault
  | accepted {h : GptHeader} {buf : List UInt8} (hacc : Accepted d lba_size base h buf) :
      CopyEnd d lba_size base (.ret (some (h, buf)))

/-- Looking at a copy ends in one of these ways. -/
theorem copy_at_end {lba : UInt64} (hbase : (g.lba_offset lba).toNat = base) :
    CopyEnd d g.lba_size.toNat base (copy_at (ε := ε) d g lba) := by
  rw [copy_at_eq]
  simp only [hbase]
  -- The checks in the order of the code; each one that fails is a constructor of its own.
  by_cases hseek : base ≤ d.size
  swap
  · rw [if_neg hseek]
    exact .no_seek hseek
  rw [if_pos hseek]
  by_cases hfit : base + 92 ≤ d.size
  swap
  · rw [if_neg hfit]
    exact .header_cut hseek hfit
  rw [if_pos hfit, check_header_disk]
  by_cases hsig : d.data.read base 8 = efi_part
  swap
  · rw [if_neg hsig, Exec.ret_bind]
    exact .no_sig hfit hsig
  rw [if_pos hsig]
  by_cases hsize : (d.header base).header_size.toNat ≤ 92
  swap
  · rw [if_neg hsize, Exec.fault_bind]
    exact .long_header hseek hsig hsize
  rw [if_pos hsize]
  by_cases hcrc : Platform.crc32 ((crc_zeroed (d.data.read base 92)).take
      (d.header base).header_size.toNat) = d.header_crc base
  swap
  · rw [if_neg hcrc, Exec.ret_bind]
    exact .bad_header hfit hsize fun hpass => hcrc hpass.2
  have hpass : HeaderPasses d base := ⟨hsig, hcrc⟩
  rw [if_pos hcrc, Exec.ret_bind]
  simp only
  rw [check_entries_disk]
  simp only
  by_cases haseek : array_start g.lba_size.toNat (d.header base) ≤ d.size
  swap
  · rw [if_neg haseek, Exec.ret_bind]
    exact .no_array_seek hfit hsize haseek
  rw [if_pos haseek]
  by_cases hafit : array_start g.lba_size.toNat (d.header base)
      + (d.header base).entries_size.toNat ≤ d.size
  swap
  · rw [if_neg hafit, Exec.hang_bind]
    exact .array_cut hseek hpass haseek hafit
  rw [if_pos hafit]
  by_cases hacrc : Platform.crc32 (d.data.read (array_start g.lba_size.toNat (d.header base))
      (d.header base).entries_size.toNat) = d.array_crc base
  swap
  · rw [if_neg hacrc, Exec.ret_bind]
    exact .bad_array hfit hsize hafit hacrc
  have hapass : ArrayPasses d g.lba_size.toNat base := ⟨haseek, hacrc⟩
  rw [if_pos hacrc]
  by_cases hin : (d.header base).Hold 56
  swap
  · rw [if_neg hin, Exec.fault_bind]
    exact .outside hseek hpass hapass hin
  rw [if_pos hin, Exec.ret_bind]
  exact .accepted ⟨rfl, hfit, hsize, hpass, hafit, hapass, hin, rfl⟩

/-- What each way of ending says about the copy. -/
theorem copy_at_cases {lba : UInt64} (hbase : (g.lba_offset lba).toNat = base) :
    (copy_at (ε := ε) d g lba = .hang ∧ ¬ ReadSafely d g.lba_size.toNat base) ∨
    (copy_at (ε := ε) d g lba = .fault ∧ ¬ ReadSafely d g.lba_size.toNat base) ∨
    (copy_at (ε := ε) d g lba = .ret none ∧
      (ReadSafely d g.lba_size.toNat base ↔ ¬ ValidCopy d g.lba_size.toNat base)) ∨
    ∃ h buf, copy_at (ε := ε) d g lba = .ret (some (h, buf)) ∧
      Accepted d g.lba_size.toNat base h buf := by
  have hend := copy_at_end (ε := ε) (d := d) hbase
  generalize copy_at (ε := ε) d g lba = said at hend ⊢
  cases hend with
  | no_seek hseek =>
    right; right; left
    have hno : ¬ ValidCopy d g.lba_size.toNat base := fun hv => by
      have := hv.header_on_disk
      omega
    exact ⟨rfl, fun _ => hno, fun _ => ⟨fun h => absurd h hseek, fun h => absurd h hseek,
      fun h => absurd h hseek, fun h => absurd h hseek, fun h => absurd h hno⟩⟩
  | header_cut hseek hfit =>
    left
    exact ⟨rfl, fun h => hfit (h.header_on_disk hseek)⟩
  | no_sig hfit hsig =>
    right; right; left
    have hno : ¬ ValidCopy d g.lba_size.toNat base := fun hv => hsig hv.sig
    exact ⟨rfl, fun _ => hno, fun _ => ⟨fun _ => hfit, fun _ h => absurd h hsig,
      fun _ h => absurd h.1 hsig, fun _ h => absurd h.1 hsig, fun h => absurd h hno⟩⟩
  | long_header hseek hsig hsize =>
    right; left
    exact ⟨rfl, fun h => hsize (h.header_size hseek hsig)⟩
  | bad_header hfit hsize hpass =>
    right; right; left
    have hno : ¬ ValidCopy d g.lba_size.toNat base := fun hv =>
      hpass (headerPasses_of_valid hv hsize)
    exact ⟨rfl, fun _ => hno, fun _ => ⟨fun _ => hfit, fun _ _ => hsize,
      fun _ h => absurd h hpass, fun _ h => absurd h hpass, fun h => absurd h hno⟩⟩
  | no_array_seek hfit hsize hseek =>
    right; right; left
    have hno : ¬ ValidCopy d g.lba_size.toNat base := fun hv =>
      hseek (array_start_of_valid hv).2
    exact ⟨rfl, fun _ => hno, fun _ => ⟨fun _ => hfit, fun _ _ => hsize,
      fun _ _ h => absurd h hseek, fun _ _ h => absurd h.1 hseek, fun h => absurd h hno⟩⟩
  | array_cut hseek hpass haseek hafit =>
    left
    exact ⟨rfl, fun h => hafit (h.array_on_disk hseek hpass haseek)⟩
  | bad_array hfit hsize hafit hcrc =>
    right; right; left
    refine ⟨rfl, fun hsafe hv => ?_, fun hno => ⟨fun _ => hfit, fun _ _ => hsize,
      fun _ _ _ => hafit, fun _ _ h => absurd h.2 hcrc, fun h => absurd h hno⟩⟩
    -- a valid copy whose array can be measured has the checksum it states
    refine hcrc ?_
    rw [array_start, GptHeader.entries_size_toNat, Nat.mod_eq_of_lt (array_start_of_valid hv).1,
      Nat.mod_eq_of_lt (hsafe.measured hv)]
    exact hv.array_crc
  | outside hseek hpass hapass hin =>
    right; left
    refine ⟨rfl, fun hsafe => hin ?_⟩
    have hrep := hsafe.accepted hseek hpass hapass
    exact (GptHeader.hold_iff hrep.product).mpr hrep.room
  | accepted hacc =>
    right; right; right
    exact ⟨_, _, rfl, hacc⟩

/-- A copy is refused if there is none that is valid. -/
theorem copyAgrees_none : CopyAgrees d g base (.ret none : Exec ε _) ↔
    ¬ ValidCopy d g.lba_size.toNat base := by
  simp [CopyAgrees]

theorem copyAgrees_some {h : GptHeader} {buf : List UInt8} :
    CopyAgrees d g base (.ret (some (h, buf)) : Exec ε _) ↔
      ValidCopy d g.lba_size.toNat base ∧
        Decodes d g.lba_size.toNat base ((g.withHeader h).withBuf buf) := by
  constructor
  · rintro (⟨hno, -⟩ | ⟨h', buf', heq, hagrees⟩)
    · cases hno
    · simp only [Exec.ret.injEq, Option.some.injEq, Prod.mk.injEq] at heq
      obtain ⟨rfl, rfl⟩ := heq
      exact hagrees
  · exact fun hagrees => .inr ⟨h, buf, rfl, hagrees⟩

/-- **A copy is read for what it is exactly when it is read safely.** -/
theorem copy_agrees_iff {lba : UInt64} (hbase : (g.lba_offset lba).toNat = base) :
    CopyAgrees d g base (copy_at (ε := ε) d g lba) ↔ ReadSafely d g.lba_size.toNat base := by
  rcases copy_at_cases (ε := ε) (d := d) hbase with ⟨hsaid, hno⟩ | ⟨hsaid, hno⟩ | ⟨hsaid, hiff⟩ |
    ⟨h, buf, hsaid, hacc⟩
  · rw [hsaid, CopyAgrees]
    simp [hno]
  · rw [hsaid, CopyAgrees]
    simp [hno]
  · rw [hsaid, copyAgrees_none, hiff]
  · rw [hsaid, copyAgrees_some]
    constructor
    · rintro ⟨hv, hdec⟩
      obtain ⟨hh, hrep⟩ := representable_of_decodes hacc hv hdec
      rw [hh] at hrep
      exact readSafely_of_valid hv hrep
    · intro hsafe
      have hfit := hacc.header_on_disk
      have hafit := hacc.array_on_disk
      have hrep := hsafe.accepted (by omega) hacc.header_passes hacc.array_passes
      rw [hacc.header] at hafit
      refine ⟨valid_of_passes hfit hacc.header_passes hrep hafit hacc.array_passes, ?_⟩
      rw [← hacc.header] at hrep
      exact decodes_of_accepted hacc hrep

end Tests

/-! ## `gpt_read` -/

section Read

variable {ε : Type} [Platform] {d : Dev} {g : Gpt}

/-- **What `gpt_read` should do**: return, with 0 exactly if one of the copies is
valid; hold the decoding of the primary copy if that is valid and of the backup
copy otherwise; and, when it fails, return a negative number and leave no pointer
to an array that has been freed. -/
def ReadsRight (d : Dev) (g₀ : Gpt) (out : Exec ε (Int × Gpt × List IoRes)) : Prop :=
  ∃ r g rs', out = .ret (r, g, rs') ∧
    (r = 0 ↔ ValidCopy d g₀.lba_size.toNat g₀.primary_base ∨
      ValidCopy d g₀.lba_size.toNat g₀.backup_base) ∧
    (r = 0 → ValidCopy d g₀.lba_size.toNat g₀.primary_base →
      Decodes d g₀.lba_size.toNat g₀.primary_base g) ∧
    (r = 0 → ¬ ValidCopy d g₀.lba_size.toNat g₀.primary_base →
      Decodes d g₀.lba_size.toNat g₀.backup_base g) ∧
    (r ≠ 0 → r < 0 ∧ g.entries ≠ .freed)

/-- A run that finds nothing is right if there is nothing. -/
theorem readsRight_of_none {n : ℕ} {rs : List IoRes} {out : Exec ε (Int × Gpt × List IoRes)}
    (hrun : Reports n rs (.ret none) g out) (hfree : g.entries ≠ .freed) :
    ReadsRight d g out ↔ ¬ ValidCopy d g.lba_size.toNat g.primary_base ∧
      ¬ ValidCopy d g.lba_size.toNat g.backup_base := by
  obtain ⟨r, h, es, rs', rfl, hneg, -, hes⟩ := hrun
  rw [← not_or]
  constructor
  · rintro ⟨r', g', rs'', heq, hiff, -⟩ hvalid
    simp only [Exec.ret.injEq, Prod.mk.injEq] at heq
    have := hiff.mpr hvalid
    omega
  · intro hnone
    refine ⟨r, _, rs', rfl, ⟨fun h => by omega, fun h => absurd h hnone⟩, fun h => by omega,
      fun h => by omega, fun _ => ⟨hneg, ?_⟩⟩
    rcases hes with rfl | rfl
    · exact hfree
    · exact Entries.noConfusion

/-- A run that finds a table is right if that is the table of the primary copy, or of the backup
copy if the primary one is not valid. -/
theorem readsRight_of_some {n : ℕ} {rs : List IoRes} {out : Exec ε (Int × Gpt × List IoRes)}
    {h : GptHeader} {buf : List UInt8} (hrun : Reports n rs (.ret (some (h, buf))) g out) :
    ReadsRight d g out ↔
      ValidCopy d g.lba_size.toNat g.primary_base ∧
          Decodes d g.lba_size.toNat g.primary_base ((g.withHeader h).withBuf buf) ∨
        ¬ ValidCopy d g.lba_size.toNat g.primary_base ∧
          ValidCopy d g.lba_size.toNat g.backup_base ∧
            Decodes d g.lba_size.toNat g.backup_base ((g.withHeader h).withBuf buf) := by
  obtain ⟨rs', -, rfl⟩ := hrun
  constructor
  · rintro ⟨r, g', rs'', heq, hiff, hvalid, hnot, -⟩
    simp only [Exec.ret.injEq, Prod.mk.injEq] at heq
    obtain ⟨rfl, rfl, -⟩ := heq
    by_cases hv : ValidCopy d g.lba_size.toNat g.primary_base
    · exact .inl ⟨hv, hvalid rfl hv⟩
    · exact .inr ⟨hv, (hiff.mp rfl).resolve_left hv, hnot rfl hv⟩
  · rintro (⟨hv, hdec⟩ | ⟨hno, hv, hdec⟩)
    · exact ⟨0, _, rs', rfl, ⟨fun _ => .inl hv, fun _ => rfl⟩, fun _ _ => hdec,
        fun _ h => absurd hv h, fun h => absurd rfl h⟩
    · exact ⟨0, _, rs', rfl, ⟨fun _ => .inr hv, fun _ => rfl⟩, fun _ h => absurd h hno,
        fun _ _ => hdec, fun h => absurd rfl h⟩

/-- A run that does not return is not right. -/
theorem not_readsRight {out : Exec ε (Int × Gpt × List IoRes)} (hout : ∀ x, out ≠ .ret x) :
    ¬ ReadsRight d g out := by
  rintro ⟨r, g', rs', hret, -⟩
  exact hout _ hret

/-- **`gpt_read` does what it should exactly on the disks it reads safely**: the
primary copy, and the backup copy when the primary one is not valid. -/
theorem gpt_read_reads_right_iff {rs : List IoRes} (hrs : .err ∉ rs) (hall : 5 ≤ rs.count .all)
    (hsize : 450 < d.size) (htype : d.data 450 = 0xee) (hfree : g.entries ≠ .freed)
    (hsec : 0 < g.sectors.toNat) (hgeom : g.sectors.toNat * g.lba_size.toNat ≤ 2 ^ 64) :
    ReadsRight d g (gpt_read (ε := ε) d rs g) ↔
      ReadSafely d g.lba_size.toNat g.primary_base ∧
        (¬ ValidCopy d g.lba_size.toNat g.primary_base →
          ReadSafely d g.lba_size.toNat g.backup_base) := by
  have hprim := copy_agrees_iff (ε := ε) (d := d) (primary_offset g)
  have hback := copy_agrees_iff (ε := ε) (d := d) (backup_offset hsec hgeom)
  have htable := table_on_of_mbr (ε := ε) (g := g) hsize htype
  -- what remains of the calls: the run is a hang only where the table is one
  have hrun : Reports 5 rs (table_on (ε := ε) d g) g (gpt_read (ε := ε) d rs g) := by
    rcases gpt_read_eq (ε := ε) (d := d) (g := g) hrs with ⟨hhang, hwhy | hwhy⟩ | hread
    · omega
    · rw [hwhy]
      exact hhang
    · exact hread
  have hlost (h : table_on (ε := ε) d g = .hang ∨ table_on (ε := ε) d g = .fault) :
      ¬ ReadsRight d g (gpt_read (ε := ε) d rs g) := by
    refine not_readsRight fun x hx => ?_
    rcases h with h | h
    · rw [h, hx] at hrun
      cases hrun
    · rw [h, hx] at hrun
      cases hrun
  rw [htable] at hrun hlost
  rcases copy_at_cases (ε := ε) (d := d) (primary_offset g) with ⟨hsaid, hno⟩ | ⟨hsaid, hno⟩ |
    ⟨hsaid, -⟩ | ⟨h, buf, hsaid, hacc⟩
  · rw [hsaid] at hlost
    exact iff_of_false (hlost (.inl rfl)) fun h => hno h.1
  · rw [hsaid] at hlost
    exact iff_of_false (hlost (.inr rfl)) fun h => hno h.1
  · -- the backup copy decides
    rw [hsaid, copyAgrees_none] at hprim
    rw [hsaid, Exec.ret_bind] at hrun hlost
    simp only at hrun hlost
    rw [← hprim]
    rcases copy_at_cases (ε := ε) (d := d) (backup_offset hsec hgeom) with ⟨hsaid', hno⟩ |
      ⟨hsaid', hno⟩ | ⟨hsaid', -⟩ | ⟨h, buf, hsaid', hacc⟩
    · exact iff_of_false (hlost (.inl hsaid')) fun h => hno (h.2 h.1)
    · exact iff_of_false (hlost (.inr hsaid')) fun h => hno (h.2 h.1)
    · rw [hsaid', copyAgrees_none] at hback
      rw [hsaid'] at hrun
      rw [readsRight_of_none hrun hfree, ← hback]
      exact and_congr_right fun hno => (imp_iff_right hno).symm
    · rw [hsaid', copyAgrees_some] at hback
      rw [hsaid'] at hrun
      rw [readsRight_of_some hrun, ← hback]
      constructor
      · rintro (⟨hv, hdec⟩ | ⟨hno, hv, hdec⟩)
        · -- the primary copy would have been accepted
          obtain ⟨hh, hrep⟩ := representable_of_decodes hacc hv hdec
          rw [hh] at hrep
          exact absurd hv (hprim.mpr (readSafely_of_valid hv hrep))
        · exact ⟨hno, fun _ => ⟨hv, hdec⟩⟩
      · rintro ⟨hno, hdec⟩
        exact .inr ⟨hno, hdec hno⟩
  · -- the primary copy decides
    rw [hsaid, copyAgrees_some] at hprim
    rw [hsaid, Exec.ret_bind] at hrun
    rw [readsRight_of_some hrun, ← hprim]
    constructor
    · rintro (hright | ⟨hno, hv, hdec⟩)
      · exact ⟨hright, fun hno => absurd hright.1 hno⟩
      · -- it decodes the backup copy, so it is a valid copy itself
        obtain ⟨-, hrep⟩ := representable_of_decodes hacc hv hdec
        have hafit := hacc.array_on_disk
        rw [hacc.header] at hrep hafit
        exact absurd (valid_of_passes hacc.header_on_disk hacc.header_passes hrep hafit
          hacc.array_passes) hno
    · exact fun h => .inl h.1

end Read

/-! ## The entry array

Once both checksums of a copy are right, `read_gpt_data` goes on to swap its
entries, and every later function of the library follows the same pointers. -/

section Entries

variable {ε : Type} [Platform] {d : Dev} {g₁ g₂ : Gpt}

/-- **The entries of a table can be reached**: the array holds all the bytes its
header states, the 128 bytes behind `gpt_entry_offset` lie inside it for every
index, and those of two indices do not overlap. -/
structure EntriesReachable (g : Gpt) : Prop where
  holds : g.header.num_pentries.toNat * g.header.pentry_size.toNat ≤ g.buf.length
  inside : ∀ i, g.Index i → (gpt_entry_offset i g).toNat + 128 ≤ g.buf.length
  apart : ∀ i j, g.Index i → g.Index j → i ≠ j →
    (gpt_entry_offset i g).toNat + 128 ≤ (gpt_entry_offset j g).toNat ∨
      (gpt_entry_offset j g).toNat + 128 ≤ (gpt_entry_offset i g).toNat

omit [Platform] in
/-- Reaching the last index is reaching every slot. -/
theorem inBounds_of_reachable {g : Gpt} (hsize : g.buf.length = g.header.entries_size.toNat)
    (hin : ∀ i, g.Index i → (gpt_entry_offset i g).toNat + 128 ≤ g.buf.length) :
    g.header.InBounds := by
  intro k hk
  have hn := g.header.num_pentries.toNat_lt
  have hval : (UInt32.ofNat (k + 1)).toNat = k + 1 := by
    rw [UInt32.toNat_ofNat']
    omega
  have hidx : g.Index (UInt32.ofNat (k + 1)) := by
    refine ⟨fun h0 => ?_, ?_⟩
    · rw [h0] at hval
      exact absurd hval (by simp)
    · rw [UInt32.le_iff_toNat_le, hval]
      omega
  have h := hin _ hidx
  rwa [gpt_entry_offset_toNat hidx, hval, hsize, Nat.add_sub_cancel] at h

/-- **Behind a right checksum the entries can be reached exactly if** the size of
the array does not wrap in 32 bits and each entry has room for a
`struct gpt_entry`, whatever header `g₁` holds when the array is read. -/
theorem entries_reachable_iff {rs rs' : List IoRes}
    (harr : read_gpt_entries (ε := ε) d rs g₁ = .ret (0, g₂, rs')) :
    EntriesReachable g₂ ↔
      g₂.header.num_pentries.toNat * g₂.header.pentry_size.toNat < 2 ^ 32 ∧
        (g₂.header.num_pentries.toNat = 0 ∨ 128 ≤ g₂.header.pentry_size.toNat) := by
  obtain ⟨arr, rfl, hlen⟩ := read_gpt_entries_sound harr (Int.le_refl 0)
  have hsize : (g₁.withBuf arr).buf.length = (g₁.withBuf arr).header.entries_size.toNat := hlen
  have hlt := (g₁.withBuf arr).header.entries_size.toNat_lt
  constructor
  · intro hreach
    have hholds := hreach.holds
    have hns : (g₁.withBuf arr).header.num_pentries.toNat
        * (g₁.withBuf arr).header.pentry_size.toNat < 2 ^ 32 := by omega
    exact ⟨hns, (GptHeader.inBounds_iff hns).mp (inBounds_of_reachable hsize hreach.inside)⟩
  · rintro ⟨hns, hroom⟩
    have hmap : (g₁.withBuf arr).Mapped :=
      ⟨rfl, hsize, (GptHeader.inBounds_iff hns).mpr hroom⟩
    refine ⟨?_, fun i hi => gpt_entry_offset_fits hmap hi,
      fun i j hi hj hij => gpt_entry_offset_apart hmap hi hj hij⟩
    rw [hsize, GptHeader.entries_size_toNat, Nat.mod_eq_of_lt hns]

end Entries

/-! ### Two small disks

A disk of eight sectors of 512 bytes on a little-endian PC: once with a header the
code accepts although it covers nothing, once with an array the code accepts
although its entries are too small. -/

section Small

attribute [local instance] x86

theorem small_size : 4096 < 2 ^ 63 := by decide

/-- Eight sectors with a protective MBR, this header in sector 1, and zeros. -/
def small_disk (h : GptHeader) : Dev where
  size := 4096
  data := Store.apply (fun _ => 0) [(450, [0xee]), (512, GptHeader.codec.enc h)]
  size_lt := small_size

/-- The state `gpt_init` leaves for that disk. -/
def small_gpt : Gpt where
  header := GptHeader.codec.dec []
  entries := .null
  lba_size := 512
  sectors := 8
  device := []

/-- A header of zeros behind the signature: its size is 0 bytes, whose checksum is
the 0 it states, and so is that of its empty array. -/
def zero_header : GptHeader where
  sig := ⟨efi_part, length_efi_part⟩
  revision := 0
  header_size := 0
  crc32 := 0
  reserved_zero := 0
  current_lba := 0
  backup_lba := 0
  first_usable_lba := 0
  last_usable_lba := 0
  disk_guid := ⟨0, 0, 0, List.Vector.replicate 8 0⟩
  pentry_start_lba := 0
  num_pentries := 0
  pentry_size := 0
  pentry_crc32 := 0

theorem small_disk_reads_right_iff :
    ReadsRight (small_disk zero_header) small_gpt
        (gpt_read (ε := Empty) (small_disk zero_header) (List.replicate 5 .all) small_gpt) ↔
      ReadSafely (small_disk zero_header) small_gpt.lba_size.toNat small_gpt.primary_base ∧
        (¬ ValidCopy (small_disk zero_header) small_gpt.lba_size.toNat small_gpt.primary_base →
          ReadSafely (small_disk zero_header) small_gpt.lba_size.toNat small_gpt.backup_base) :=
  gpt_read_reads_right_iff (by decide) (by decide) (by decide) (by decide +kernel)
    Entries.noConfusion (by decide) (by decide)

/-- A header that says it is 0 bytes long is accepted, and no copy is valid. -/
theorem zero_header_not_read_right :
    ¬ ReadsRight (small_disk zero_header) small_gpt
      (gpt_read (ε := Empty) (small_disk zero_header) (List.replicate 5 .all) small_gpt) := by
  rintro ⟨r, g, rs', hout, hiff, -⟩
  have haccept : ∃ g rs', gpt_read (ε := Empty) (small_disk zero_header)
      (List.replicate 5 .all) small_gpt = .ret (0, g, rs') :=
    ⟨(small_gpt.withHeader zero_header).withBuf [], List.replicate 2 .all, by decide +kernel⟩
  obtain ⟨g', rs'', hret⟩ := haccept
  rw [hret] at hout
  simp only [Exec.ret.injEq, Prod.mk.injEq] at hout
  have hprim : ((small_disk zero_header).header 512).header_size.toNat = 0 := by decide +kernel
  have hback : ((small_disk zero_header).header 3584).header_size.toNat = 0 := by decide +kernel
  rcases hiff.mp hout.1.symm with hv | hv
  · have := hv.header_size_ge
    exact absurd (hprim ▸ this) (by decide)
  · have := hv.header_size_ge
    exact absurd (hback ▸ this) (by decide)

/-- Two entries of 64 bytes, with the checksums they need. -/
def narrow_header : GptHeader :=
  { zero_header with
    revision := 0x00010000
    header_size := 92
    crc32 := 0x5fb93257
    current_lba := 1
    backup_lba := 7
    first_usable_lba := 4
    last_usable_lba := 5
    pentry_start_lba := 2
    num_pentries := 2
    pentry_size := 64
    pentry_crc32 := 0xc2a8fa9d }

/-- The table both of whose checksums were right. -/
def narrow_gpt : Gpt := (small_gpt.withHeader narrow_header).withBuf (List.replicate 128 0)

/-- What it says of that table. -/
theorem narrow_entries_reachable_iff :
    EntriesReachable narrow_gpt ↔
      narrow_gpt.header.num_pentries.toNat * narrow_gpt.header.pentry_size.toNat < 2 ^ 32 ∧
        (narrow_gpt.header.num_pentries.toNat = 0 ∨ 128 ≤ narrow_gpt.header.pentry_size.toNat) :=
  have harr : read_gpt_entries (ε := Empty) (small_disk narrow_header) (List.replicate 4 .all)
      (small_gpt.withHeader narrow_header) = .ret (0, narrow_gpt, List.replicate 3 .all) := by
    decide +kernel
  entries_reachable_iff harr

/-- Both checksums of the narrow table are right, and its second entry ends 64
bytes behind its array. -/
theorem narrow_entries_not_reachable :
    (∃ rs₁ rs₂,
      read_gpt_header (ε := Empty) (small_disk narrow_header) (List.replicate 5 .all) true small_gpt
        = .ret (0, small_gpt.withHeader narrow_header, rs₁) ∧
      read_gpt_entries (ε := Empty) (small_disk narrow_header) rs₁
        (small_gpt.withHeader narrow_header) = .ret (0, narrow_gpt, rs₂)) ∧
    ¬ EntriesReachable narrow_gpt := by
  refine ⟨⟨List.replicate 4 .all, List.replicate 3 .all, by decide +kernel, by decide +kernel⟩,
    fun h => ?_⟩
  exact absurd (h.inside 2 (by decide +kernel)) (by decide +kernel)

end Small

end Iago
