/-
Writing a table: `robust_write`, `write_gpt_to_disk`, `write_mbr`, `gpt_write`,
and `gpt_new`, which makes the tables that are written to an empty disk.

What a single `write` call does is an input, as it is for reading: a script of
outcomes. Two things about `robust_write` make the state of the calls more than
a position. Its loop tests `errno` even after a call that succeeded, so whether
an earlier call was interrupted matters later; and it passes the same `buf` to
every call, so what a short write leaves over is not what the next call sends.
`Io` therefore carries the device, the script, that one bit of `errno`, and the
log of what has been sent to the device so far, in order. The log is what a
power failure cuts.

On a script where every call transfers everything it is asked to, `gpt_write` of
a sound table that fits is five stores (`gpt_write_all`): header and array of the
primary copy, header and array of the backup copy, and the part of the MBR behind
the boot code.
-/
import Iago.GptFormat

set_option autoImplicit false

namespace Iago

/-- What a sequence of `write` calls acts on. -/
structure Io where
  dev : Dev
  rs : List IoRes
  /-- `errno == EINTR` -/
  eintr : Bool
  /-- What has been sent to the device, call by call. -/
  sent : List (ℕ × List UInt8)

/-- A device with other contents. -/
def Dev.withData (d : Dev) (data : Store) : Dev := { d with data := data }

/-- `ssize_t` to `int`. -/
def toInt32 (n : ℕ) : Int :=
  if n % 2 ^ 32 < 2 ^ 31 then (n % 2 ^ 32 : ℕ) else ((n % 2 ^ 32 : ℕ) : Int) - 2 ^ 32

/-- Transferring `bs` to position `pos`. -/
def Io.put (io : Io) (rs : List IoRes) (pos : ℕ) (bs : List UInt8) : Io :=
  { dev := io.dev.withData (io.dev.data.write pos bs), rs := rs, eintr := io.eintr,
    sent := io.sent ++ [(pos, bs)] }

/-- A call that fails and sets `errno`. -/
def Io.fail (io : Io) (rs : List IoRes) (eintr : Bool) : Io :=
  { io with rs := rs, eintr := eintr }

/-- `write(fd, buf, count)` at `pos`: what it returns, as the `int` it is stored
in, how many bytes it has transferred, and the state it leaves. On a full device
there is nothing it can transfer. -/
def write_call (r : IoRes) (rs : List IoRes) (buf : List UInt8) (io : Io) (pos count : ℕ) :
    Int × ℕ × Io :=
  if r = .eintr then (-1, 0, io.fail rs true)
  else if r = .err ∨ io.dev.size ≤ pos then (-1, 0, io.fail rs false)
  else
    let n := r.amount (min count (io.dev.size - pos))
    (toInt32 n, n, io.put rs pos (buf.take n))

section Write

variable {ε : Type}

/-- `robust_write` from position `pos` with `count` bytes to go: its return value
and the state it leaves. -/
def robust_write (buf : List UInt8) :
    List IoRes → (io : Io) → (pos count : ℕ) → (written : Int) → Exec ε (Int × Io)
  | rs, io, _, 0, written => .ret (written, { io with rs := rs })
  | [], _, _, _ + 1, _ => .hang
  | r :: rs, io, pos, count + 1, written =>
    -- every call starts at `buf` again, and asks for `count` bytes of it
    if buf.length < count + 1 then .fault
    else
      let (ret, n, io) := write_call r rs buf io pos (count + 1)
      if ret ≤ 0 ∧ io.eintr = false then .ret (-1, io)
      else robust_write buf rs io (pos + n) (((count + 1 : ℕ) : Int) - ret).toNat (written + ret)

/-! ## One copy -/

variable [Platform]

/-- `gpt_header_bytes_to_le`. -/
def gpt_header_bytes_to_le (h : GptHeader) : GptHeader :=
  { h with
    revision := htole32 h.revision
    header_size := htole32 h.header_size
    current_lba := htole64 h.current_lba
    backup_lba := htole64 h.backup_lba
    first_usable_lba := htole64 h.first_usable_lba
    last_usable_lba := htole64 h.last_usable_lba
    pentry_start_lba := htole64 h.pentry_start_lba
    num_pentries := htole32 h.num_pentries
    pentry_size := htole32 h.pentry_size
    disk_guid := gpt_guid_bytes_to_le h.disk_guid }

/-- `gpt_copy`: the struct, and a new array with the bytes of the old one. -/
def gpt_copy (src : Gpt) : Exec ε Gpt :=
  let entries_size := src.header.entries_size.toNat
  match src.entries with
  | .live buf =>
    if entries_size ≤ buf.length then .ret (src.withBuf (buf.take entries_size)) else .fault
  | _ => if entries_size = 0 then .ret (src.withBuf []) else .fault

/-- `write_gpt_to_disk`, "byteswap and compute checksums". -/
def swap_and_checksum (g : Gpt) : Exec ε Gpt := do
  let g ← gpt_entries_bytes_to_le g
  let crc ← get_entries_crc32 g
  let g := g.withHeader (gpt_header_bytes_to_le { g.header with pentry_crc32 := crc })
  let crc ← get_header_crc32 g.header
  .ret (g.withHeader { g.header with crc32 := crc })

/-- `lseek64` and `robust_write` of `count` bytes of the buffer `b`, which holds `buf`: 0 when
they have been written at `off`, -1 otherwise. -/
def write_at (io : Io) (off : UInt64) (b : Buffer) (buf : List UInt8) (count : ℕ) :
    Exec ε (Int × Io) :=
  if lseek64 io.dev off then do
    let (ret, io) ← robust_write (buf ++ Platform.behind b) io.rs io off.toNat count 0
    if ret < 0 then .ret (-1, io) else .ret (0, io)
  else .ret (-1, io)

/-- `write_gpt_to_disk`, of the copy made for the primary or for the backup one. -/
def write_gpt_to_disk (io : Io) (primary : Bool) (g : Gpt) : Exec ε (Int × Io) := do
  -- stashed before the header is swapped
  let entries_size := g.header.entries_size.toNat
  let header_offset := g.lba_offset g.header.current_lba
  let entries_offset := g.lba_offset g.header.pentry_start_lba
  let g ← swap_and_checksum g
  let (ret, io) ← write_at io header_offset (.header primary) (GptHeader.codec.enc g.header) 92
  if ret < 0 then .ret (-1, io)
  else write_at io entries_offset (.entries primary) g.buf entries_size

/-! ## The protective MBR -/

/-- `struct mbr_chs`. -/
structure MbrChs where
  head : UInt8
  sector : UInt8
  cylinder : UInt8

/-- `struct mbr_entry`. -/
structure MbrEntry where
  status : UInt8
  first_chs : MbrChs
  type : UInt8
  last_chs : MbrChs
  first_lba : UInt32
  lba_count : UInt32

/-- `struct mbr`: the MBR from byte 440 on. -/
structure Mbr where
  disk_sig : UInt32
  reserved : UInt16
  entries : List.Vector MbrEntry 4
  sig : UInt16

def MbrChs.codec : Codec MbrChs :=
  (Codec.u8.pair <| Codec.u8.pair Codec.u8).map
    { toFun := fun p => ⟨p.1, p.2.1, p.2.2⟩
      invFun := fun m => (m.head, m.sector, m.cylinder)
      left_inv := fun _ => rfl
      right_inv := fun _ => rfl }

def MbrEntry.codec : Codec MbrEntry :=
  (Codec.u8.pair <| MbrChs.codec.pair <| Codec.u8.pair <| MbrChs.codec.pair <|
    u32.pair u32).map
    { toFun := fun p => ⟨p.1, p.2.1, p.2.2.1, p.2.2.2.1, p.2.2.2.2.1, p.2.2.2.2.2⟩
      invFun := fun m => (m.status, m.first_chs, m.type, m.last_chs, m.first_lba, m.lba_count)
      left_inv := fun _ => rfl
      right_inv := fun _ => rfl }

def Mbr.codec : Codec Mbr :=
  (u32.pair <| u16.pair <| (MbrEntry.codec.vector 4).pair u16).map
    { toFun := fun p => ⟨p.1, p.2.1, p.2.2.1, p.2.2.2⟩
      invFun := fun m => (m.disk_sig, m.reserved, m.entries, m.sig)
      left_inv := fun _ => rfl
      right_inv := fun _ => rfl }

/-- An MBR entry after `memset`. -/
def MbrEntry.zero : MbrEntry := ⟨0, ⟨0, 0, 0⟩, 0, ⟨0, 0, 0⟩, 0, 0⟩

/-- The MBR `gpt_write` makes: one entry of type 0xEE over the whole disk. -/
def protective_mbr (g : Gpt) : Mbr where
  disk_sig := 0
  reserved := 0
  entries := ⟨[{ MbrEntry.zero with
      type := 0xEE
      first_lba := htole32 1
      lba_count := htole32 (min (g.sectors - 1) 0xFFFFFFFF).toUInt32 },
    MbrEntry.zero, MbrEntry.zero, MbrEntry.zero], rfl⟩
  sig := htole16 0xAA55

/-- `write_mbr`. -/
def write_mbr (io : Io) (mbr : Mbr) : Exec ε (Int × Io) :=
  write_at io 440 .mbr (Mbr.codec.enc mbr) 72

/-! ## `gpt_write` and `gpt_new` -/

/-- The header of the primary copy. -/
def primary_header (g : Gpt) : GptHeader :=
  { g.header with current_lba := 1, backup_lba := g.sectors - 1, pentry_start_lba := 2 }

/-- The header of the backup copy. -/
def backup_header (g : Gpt) : GptHeader :=
  { g.header with
    current_lba := g.sectors - 1
    backup_lba := 1
    pentry_start_lba :=
      g.sectors - 1 - g.header.entries_size.toUInt64 / g.lba_size.toUInt64 }

/-- `gpt_write`: its return value, the caller's `struct gpt` afterwards, and the
state of the calls. A sector size of 0 divides by zero. -/
def gpt_write (io : Io) (g : Gpt) : Exec ε (Int × Gpt × Io) := do
  let le_gpt ← gpt_copy g
  let (ret, io) ← write_gpt_to_disk io true (le_gpt.withHeader (primary_header le_gpt))
  if ret ≠ 0 then .ret (-1, g, io)
  else do
    let le_gpt ← gpt_copy g
    if le_gpt.lba_size = 0 then .fault
    else do
      let (ret, io) ← write_gpt_to_disk io false (le_gpt.withHeader (backup_header le_gpt))
      if ret ≠ 0 then .ret (-1, g, io)
      else do
        let (ret, io) ← write_mbr io (protective_mbr g)
        if ret ≠ 0 then .ret (-1, g, io) else .ret (0, g, io)

/-- `gpt_new`: an empty table for the whole disk, or -1 when there is no random
number for it. -/
def gpt_new (g : Gpt) (r : Urandom) : Exec ε (Int × Gpt × Urandom) :=
  if g.lba_size = 0 then .fault
  else
    let gpt_sz := (1 + 128 * 128 / g.lba_size : UInt32).toUInt64
    let h : GptHeader :=
      { sig := ⟨efi_part, length_efi_part⟩
        revision := 0x00010000
        header_size := 92
        crc32 := 0
        reserved_zero := 0
        current_lba := 0
        backup_lba := 0
        first_usable_lba := 1 + gpt_sz
        last_usable_lba := g.sectors - (1 + gpt_sz)
        disk_guid := ⟨0, 0, 0, List.Vector.replicate 8 0⟩
        pentry_start_lba := 0
        num_pentries := 128
        pentry_size := 128
        pentry_crc32 := 0 }
    match generate_uuid r with
    | (none, r) => .ret (-1, g.withHeader h, r)
    | (some uuid, r) => do
      let g ← (g.withHeader { h with disk_guid := uuid }).free_entries
      .ret (0, g.withBuf (List.replicate (128 * 128) 0), r)

/-! ## A new table -/

/-- The header of a new table. -/
def new_table_header (g : Gpt) (uuid : Guid) : GptHeader where
  sig := ⟨efi_part, length_efi_part⟩
  revision := 0x00010000
  header_size := 92
  crc32 := 0
  reserved_zero := 0
  current_lba := 0
  backup_lba := 0
  first_usable_lba := 1 + (1 + 128 * 128 / g.lba_size : UInt32).toUInt64
  last_usable_lba := g.sectors - (1 + (1 + 128 * 128 / g.lba_size : UInt32).toUInt64)
  disk_guid := uuid
  pentry_start_lba := 0
  num_pentries := 128
  pentry_size := 128
  pentry_crc32 := 0

/-- The table `gpt_new` makes. -/
def new_table (g : Gpt) (uuid : Guid) : Gpt :=
  (g.withHeader (new_table_header g uuid)).withBuf (List.replicate (128 * 128) 0)

/-- `gpt_new` needs a sector size and a random number, and then makes its table
whatever was there before. -/
theorem gpt_new_ret {g₀ g : Gpt} {r r' : Urandom}
    (h : gpt_new (ε := ε) g₀ r = .ret (0, g, r')) :
    g₀.lba_size ≠ 0 ∧ ∃ uuid, generate_uuid r = (some uuid, r') ∧ g = new_table g₀ uuid := by
  rw [gpt_new] at h
  by_cases hL : g₀.lba_size = 0
  · rw [if_pos hL] at h
    cases h
  rw [if_neg hL] at h
  simp only at h
  rcases hu : generate_uuid r with ⟨_ | uuid, r₁⟩
  · rw [hu] at h
    simp only [Exec.ret.injEq, Prod.mk.injEq] at h
    exact absurd h.1 (by decide)
  rw [hu] at h
  simp only at h
  obtain ⟨g₁, hfree, h⟩ := Exec.bind_eq_ret.mp h
  simp only [Exec.ret.injEq, Prod.mk.injEq, true_and] at h
  obtain ⟨rfl, rfl⟩ := h
  refine ⟨hL, uuid, rfl, ?_⟩
  -- whichever way the old entries went, they are replaced
  rw [Gpt.free_entries] at hfree
  split at hfree
  · injection hfree with hfree
    rw [← hfree]
    rfl
  · injection hfree with hfree
    rw [← hfree]
    rfl
  · cases hfree

end Write

/-! ## Calls that transfer everything -/

section Calls

variable {ε : Type}

/-- What the log says of a buffer that was written whole: nothing if there was
nothing to write. -/
def sends (pos : ℕ) (buf : List UInt8) : List (ℕ × List UInt8) :=
  if buf = [] then [] else [(pos, buf)]

theorem length_sends_le (pos : ℕ) (buf : List UInt8) : (sends pos buf).length ≤ 1 := by
  rw [sends]
  split_ifs
  · exact Nat.zero_le _
  · exact Nat.le_refl _

/-- The store has what was sent. -/
theorem apply_sends (s : Store) (pos : ℕ) (buf : List UInt8) :
    s.apply (sends pos buf) = s.write pos buf := by
  rw [sends]
  split_ifs with h
  · rw [h, Store.write_nil, Store.apply_nil]
  · rfl

/-- The state after these stores, made by calls that transfer everything. -/
structure Io.After (io : Io) (ws : List (ℕ × List UInt8)) (io' : Io) : Prop where
  data : io'.dev = io.dev.withData (io.dev.data.apply ws)
  sent : io'.sent = io.sent ++ ws
  eintr : io'.eintr = io.eintr
  rs : ∀ r ∈ io'.rs, r = .all
  calls : io'.rs.length + ws.length = io.rs.length

theorem Io.After.trans {io io₁ io₂ : Io} {ws vs : List (ℕ × List UInt8)} (h : io.After ws io₁)
    (h' : io₁.After vs io₂) : io.After (ws ++ vs) io₂ where
  data := by
    rw [h'.data, h.data, Store.apply_append]
    rfl
  sent := by rw [h'.sent, h.sent, List.append_assoc]
  eintr := h'.eintr.trans h.eintr
  rs := h'.rs
  calls := by
    have := h.calls
    have := h'.calls
    rw [List.length_append]
    omega

/-- A small size is the same as an `int`. -/
theorem toInt32_of_lt {n : ℕ} (h : n < 2 ^ 31) : toInt32 n = n := by
  rw [toInt32, Nat.mod_eq_of_lt (by omega), if_pos h]

theorem toInt32_neg {n : ℕ} (h : 2 ^ 31 ≤ n) (h' : n < 2 ^ 32) : toInt32 n < 0 := by
  rw [toInt32, Nat.mod_eq_of_lt h', if_neg (by omega)]
  omega

theorem robust_write_zero (buf : List UInt8) (rs : List IoRes) (io : Io) (pos : ℕ) (w : Int) :
    robust_write (ε := ε) buf rs io pos 0 w = .ret (w, { io with rs := rs }) := by
  cases rs <;> rfl

/-- On a full device nothing more is written. -/
theorem robust_write_full {buf : List UInt8} {rs : List IoRes} {io io' : Io} {pos count : ℕ}
    {w r : Int} (hrs : ∀ r ∈ rs, r = .all) (hfull : io.dev.size ≤ pos) (hcount : 0 < count)
    (h : robust_write (ε := ε) buf rs io pos count w = .ret (r, io')) : r < 0 := by
  obtain ⟨count, rfl⟩ : ∃ k, count = k + 1 := ⟨count - 1, by omega⟩
  cases rs with
  | nil =>
    rw [robust_write] at h
    cases h
  | cons c rs =>
    have hc : c = .all := hrs c List.mem_cons_self
    have hcall : write_call c rs buf io pos (count + 1) = (-1, 0, io.fail rs false) := by
      rw [write_call, hc, if_neg IoRes.noConfusion, if_pos (.inr hfull)]
    rw [robust_write] at h
    by_cases hover : buf.length < count + 1
    · rw [if_pos hover] at h
      cases h
    rw [if_neg hover, hcall] at h
    simp only [Io.fail, Int.reduceLE, and_self, if_true, Exec.ret.injEq, Prod.mk.injEq] at h
    omega

/-- A count that is no `int` does not come to an end that is no failure: what is taken off it is
not positive, until the device is full. -/
theorem robust_write_long {buf : List UInt8} {rs : List IoRes} {io io' : Io} {pos count : ℕ}
    {w r : Int} (hrs : ∀ r ∈ rs, r = .all) (hlong : 2 ^ 31 ≤ count) (hcount : count ≤ 2 ^ 32)
    (h : robust_write (ε := ε) buf rs io pos count w = .ret (r, io')) : r < 0 := by
  induction rs generalizing io pos count w with
  | nil =>
    obtain ⟨count, rfl⟩ : ∃ k, count = k + 1 := ⟨count - 1, by omega⟩
    rw [robust_write] at h
    cases h
  | cons c rs ih =>
    by_cases hfull : io.dev.size ≤ pos
    · exact robust_write_full hrs hfull (by omega) h
    obtain ⟨k, rfl⟩ : ∃ k, count = k + 1 := ⟨count - 1, by omega⟩
    have hc : c = .all := hrs c List.mem_cons_self
    have hrs' : ∀ r ∈ rs, r = .all := fun r hr => hrs r (List.mem_cons_of_mem c hr)
    rw [robust_write] at h
    by_cases hover : buf.length < k + 1
    · rw [if_pos hover] at h
      cases h
    have hcall : write_call .all rs buf io pos (k + 1) =
        (toInt32 (min (k + 1) (io.dev.size - pos)), min (k + 1) (io.dev.size - pos),
          io.put rs pos (buf.take (min (k + 1) (io.dev.size - pos)))) := by
      rw [write_call, if_neg IoRes.noConfusion, if_neg (by simp; omega)]
      rfl
    rw [if_neg hover, hc, hcall] at h
    simp only at h
    by_cases hstop : toInt32 (min (k + 1) (io.dev.size - pos)) ≤ 0 ∧ (io.put rs pos
        (buf.take (min (k + 1) (io.dev.size - pos)))).eintr = false
    · rw [if_pos hstop] at h
      simp only [Exec.ret.injEq, Prod.mk.injEq] at h
      omega
    rw [if_neg hstop] at h
    rcases Nat.le_total (k + 1) (io.dev.size - pos) with hfits | hends
    · -- all of it goes out, and counts for nothing or less
      have hmin : min (k + 1) (io.dev.size - pos) = k + 1 := Nat.min_eq_left hfits
      have hnext : (((k + 1 : ℕ) : Int) - toInt32 (k + 1)).toNat = 2 ^ 32 := by
        rw [toInt32]
        split_ifs <;> omega
      rw [hmin, hnext] at h
      exact ih hrs' (by omega) (le_refl _) h
    · -- the device ends before the count does
      have hmin : min (k + 1) (io.dev.size - pos) = io.dev.size - pos := Nat.min_eq_right hends
      rw [hmin] at h
      have hsize : (io.put rs pos (buf.take (io.dev.size - pos))).dev.size = io.dev.size := rfl
      by_cases hexact : io.dev.size - pos = k + 1
      · have hnext : (((k + 1 : ℕ) : Int) - toInt32 (k + 1)).toNat = 2 ^ 32 := by
          rw [toInt32]
          split_ifs <;> omega
        rw [hexact, hnext] at h
        exact ih hrs' (by omega) (le_refl _) h
      · refine robust_write_full hrs' ?_ ?_ h
        · rw [hsize]
          omega
        · rw [toInt32]
          split_ifs <;> omega

/-- A call that finds room for everything. -/
theorem robust_write_step {buf behind : List UInt8} {rs : List IoRes} {io : Io} {pos : ℕ}
    (hpos : 0 < buf.length) (hfit : pos + buf.length ≤ io.dev.size) :
    robust_write (ε := ε) (buf ++ behind) (.all :: rs) io pos buf.length 0 =
      if toInt32 buf.length ≤ 0 ∧ io.eintr = false then .ret (-1, io.put rs pos buf)
      else robust_write (buf ++ behind) rs (io.put rs pos buf) (pos + buf.length)
        ((buf.length : Int) - toInt32 buf.length).toNat (toInt32 buf.length) := by
  obtain ⟨k, hk⟩ : ∃ k, buf.length = k + 1 := ⟨buf.length - 1, by omega⟩
  have hsome : write_call .all rs (buf ++ behind) io pos (k + 1)
      = (toInt32 (k + 1), k + 1, io.put rs pos buf) := by
    rw [write_call, if_neg IoRes.noConfusion, if_neg (by simp; omega)]
    simp only [IoRes.amount]
    rw [Nat.min_eq_left (by omega), List.take_left' hk]
  rw [hk, robust_write, if_neg (by rw [List.length_append]; omega)]
  simp only [hsome, Io.put, Int.zero_add]

/-- `robust_write` of a whole buffer that fits, when every call transfers all it
can. It returns the length and has stored the buffer, or it is waiting for a call,
or the length is no positive `int`. -/
theorem robust_write_all {buf : List UInt8} {io : Io} {pos : ℕ} (behind : List UInt8)
    (hrs : ∀ r ∈ io.rs, r = .all) (hfit : pos + buf.length ≤ io.dev.size)
    (hlen : buf.length < 2 ^ 32) :
    (∃ io', robust_write (ε := ε) (buf ++ behind) io.rs io pos buf.length 0
        = .ret ((buf.length : Int), io') ∧ io.After (sends pos buf) io' ∧ buf.length < 2 ^ 31) ∨
    (robust_write (ε := ε) (buf ++ behind) io.rs io pos buf.length 0 = .hang ∧
      io.rs.length < (sends pos buf).length ∨ 2 ^ 31 ≤ buf.length) ∧
    ∀ r io', robust_write (ε := ε) (buf ++ behind) io.rs io pos buf.length 0 = .ret (r, io') →
      r < 0 := by
  rcases Nat.eq_zero_or_pos buf.length with h0 | hpos
  · left
    have hnil : buf = [] := List.length_eq_zero_iff.mp h0
    subst hnil
    rw [List.length_nil, robust_write_zero]
    exact ⟨io, rfl, ⟨rfl, (List.append_nil _).symm, rfl, hrs, rfl⟩, by decide⟩
  -- The source counts in an `int`, so a longer buffer comes back negative.
  by_cases hint : buf.length < 2 ^ 31
  swap
  · exact .inr ⟨.inr (by omega), fun r io' h => robust_write_long hrs (by omega) (by omega) h⟩
  have hne : buf ≠ [] := fun h => by rw [h] at hpos; exact absurd hpos (by decide)
  obtain ⟨k, hk⟩ : ∃ k, buf.length = k + 1 := ⟨buf.length - 1, by omega⟩
  -- One call is all it takes.
  cases hio : io.rs with
  | nil =>
    right
    have hhang : robust_write (ε := ε) (buf ++ behind) [] io pos buf.length 0 = .hang := by
      rw [hk, robust_write]
    rw [hhang]
    refine ⟨.inl ⟨rfl, ?_⟩, fun r io' h => by cases h⟩
    rw [sends, if_neg hne]
    exact Nat.one_pos
  | cons r rs =>
    have hr : r = .all := hrs r (by rw [hio]; exact List.mem_cons_self)
    subst hr
    left
    rw [robust_write_step hpos hfit, toInt32_of_lt hint, if_neg (by omega), Int.sub_self,
      Int.toNat_zero, robust_write_zero]
    refine ⟨_, rfl, ⟨?_, ?_, rfl, fun r hr => hrs r ?_, ?_⟩, hint⟩
    · rw [sends, if_neg hne]
      rfl
    · rw [sends, if_neg hne]
      rfl
    · rw [hio]
      exact List.mem_cons_of_mem _ hr
    · rw [sends, if_neg hne, hio]
      rfl

/-- How a function that writes can end when every call transfers all it can: it
returns 0 and has made the stores `ws`, or it does not return 0, because calls are
missing or because a length is no `int` (`long`). -/
def Completes (io : Io) (ws : List (ℕ × List UInt8)) (long : Prop) (out : Exec ε (Int × Io)) :
    Prop :=
  (∃ io', out = .ret (0, io') ∧ io.After ws io') ∨
    (io.rs.length < ws.length ∨ long) ∧ ∀ r io', out = .ret (r, io') → r < 0

/-- One writing function after another. -/
theorem Completes.bind {io : Io} {ws vs : List (ℕ × List UInt8)} {long : Prop}
    {out : Exec ε (Int × Io)} {f : Io → Exec ε (Int × Io)} (h : Completes io ws long out)
    (h' : ∀ io', io.After ws io' → Completes io' vs long (f io')) :
    Completes io (ws ++ vs) long
      (out >>= fun (ret, io) => if ret < 0 then .ret (-1, io) else f io) := by
  rcases h with ⟨io', rfl, hafter⟩ | ⟨hwhy, hneg⟩
  · rw [Exec.ret_bind]
    simp only
    rw [if_neg (by decide)]
    rcases h' io' hafter with ⟨io'', hret, hafter'⟩ | ⟨hwhy, hneg⟩
    · exact .inl ⟨io'', hret, hafter.trans hafter'⟩
    · refine .inr ⟨hwhy.imp_left fun hlt => ?_, hneg⟩
      have := hafter.calls
      rw [List.length_append]
      omega
  · refine .inr ⟨hwhy.imp_left fun hlt => ?_, fun r io' hret => ?_⟩
    · rw [List.length_append]
      omega
    · obtain ⟨⟨r₁, io₁⟩, hout, hret⟩ := Exec.bind_eq_ret.mp hret
      simp only at hret
      rw [if_pos (hneg r₁ io₁ hout)] at hret
      simp only [Exec.ret.injEq, Prod.mk.injEq] at hret
      omega

/-- A length that is an `int` anyway is no reason to fail. -/
theorem Completes.imp {io : Io} {ws : List (ℕ × List UInt8)} {long long' : Prop}
    {out : Exec ε (Int × Io)} (h : Completes io ws long out) (hlong : long → long') :
    Completes io ws long' out := by
  rcases h with hdone | ⟨hwhy, hneg⟩
  · exact .inl hdone
  · exact .inr ⟨hwhy.imp_right hlong, hneg⟩

/-- The same for a function that hands the caller's table back and returns a number that is not
0 when it fails. -/
def CompletesFor (g : Gpt) (io : Io) (ws : List (ℕ × List UInt8)) (long : Prop)
    (out : Exec ε (Int × Gpt × Io)) : Prop :=
  (∃ io', out = .ret (0, g, io') ∧ io.After ws io') ∨
    (io.rs.length < ws.length ∨ long) ∧ ∀ r g' io', out = .ret (r, g', io') → r ≠ 0

/-- Its last step. -/
theorem Completes.last {g : Gpt} {io : Io} {ws : List (ℕ × List UInt8)} {long : Prop}
    {out : Exec ε (Int × Io)} (h : Completes io ws long out) :
    CompletesFor g io ws long
      (out >>= fun r => if r.1 ≠ 0 then .ret (-1, g, r.2) else .ret (0, g, r.2)) := by
  rcases h with ⟨io', rfl, hafter⟩ | ⟨hwhy, hneg⟩
  · exact .inl ⟨io', rfl, hafter⟩
  · refine .inr ⟨hwhy, fun r g' io' hret => ?_⟩
    obtain ⟨⟨r₁, io₁⟩, hout, hret⟩ := Exec.bind_eq_ret.mp hret
    have hr₁ := hneg r₁ io₁ hout
    simp only at hret
    rw [if_pos (by omega)] at hret
    simp only [Exec.ret.injEq, Prod.mk.injEq] at hret
    omega

/-- A step before others. -/
theorem Completes.andThen {g : Gpt} {io : Io} {ws vs : List (ℕ × List UInt8)} {long : Prop}
    {out : Exec ε (Int × Io)} {f : Io → Exec ε (Int × Gpt × Io)} (h : Completes io ws long out)
    (h' : ∀ io', io.After ws io' → CompletesFor g io' vs long (f io')) :
    CompletesFor g io (ws ++ vs) long
      (out >>= fun r => if r.1 ≠ 0 then .ret (-1, g, r.2) else f r.2) := by
  rcases h with ⟨io', rfl, hafter⟩ | ⟨hwhy, hneg⟩
  · rw [Exec.ret_bind]
    simp only [ne_eq, not_true_eq_false, if_false]
    rcases h' io' hafter with ⟨io'', hret, hafter'⟩ | ⟨hwhy, hne⟩
    · exact .inl ⟨io'', hret, hafter.trans hafter'⟩
    · refine .inr ⟨hwhy.imp_left fun hlt => ?_, hne⟩
      have := hafter.calls
      rw [List.length_append]
      omega
  · refine .inr ⟨hwhy.imp_left fun hlt => ?_, fun r g' io' hret => ?_⟩
    · rw [List.length_append]
      omega
    · obtain ⟨⟨r₁, io₁⟩, hout, hret⟩ := Exec.bind_eq_ret.mp hret
      have hr₁ := hneg r₁ io₁ hout
      simp only at hret
      rw [if_pos (by omega)] at hret
      simp only [Exec.ret.injEq, Prod.mk.injEq] at hret
      omega

/-- Where no call is short, a buffer that fits the device is written. -/
theorem write_at_all [Platform] {b : Buffer} {buf : List UInt8} {io : Io} {off : UInt64}
    (hrs : ∀ r ∈ io.rs, r = .all) (hfit : off.toNat + buf.length ≤ io.dev.size)
    (hlen : buf.length < 2 ^ 32) :
    Completes io (sends off.toNat buf) (2 ^ 31 ≤ buf.length)
      (write_at (ε := ε) io off b buf buf.length) := by
  have hseek : lseek64 io.dev off = true := by
    rw [lseek64_eq]
    omega
  rw [write_at, if_pos hseek]
  rcases robust_write_all (ε := ε) (Platform.behind b) hrs hfit hlen with ⟨io', hret, hafter, -⟩ | ⟨hwhy, hneg⟩
  · left
    rw [hret, Exec.ret_bind]
    simp only
    rw [if_neg (by omega)]
    exact ⟨io', rfl, hafter⟩
  · refine .inr ⟨hwhy.imp_left And.right, fun r io' hret => ?_⟩
    obtain ⟨⟨r₁, io₁⟩, hout, hret⟩ := Exec.bind_eq_ret.mp hret
    simp only at hret
    rw [if_pos (hneg r₁ io₁ hout)] at hret
    simp only [Exec.ret.injEq, Prod.mk.injEq] at hret
    omega

end Calls

/-! ## What a sound table is written as -/

section Stores

variable {ε : Type} [Platform] {g : Gpt}

/-- The array as it is written. -/
def le_buf (g : Gpt) : List UInt8 :=
  Slots.modifyAll GptEntryHead.codec entry_bytes_to_le g.header.slotOffsets g.buf

/-- The header `h` as it is written over the array `arr`. -/
def le_header (h : GptHeader) (arr : List UInt8) : GptHeader :=
  let h := gpt_header_bytes_to_le { h with pentry_crc32 := htole32 (Platform.crc32 arr) }
  { h with crc32 := htole32 (Platform.crc32
      ((GptHeader.codec.enc { h with crc32 := 0 }).take (letoh32 h.header_size).toNat)) }

theorem length_le_buf (hg : g.Laid) : (le_buf g).length = g.header.entries_size.toNat :=
  (modifyAll_laid hg entry_bytes_to_le).size

/-- The header that is written, with its checksums. -/
theorem swap_and_checksum_eq (hg : g.Sound) :
    swap_and_checksum (ε := ε) g
      = .ret ((g.withHeader (le_header g.header (le_buf g))).withBuf (le_buf g)) := by
  have hlen := length_le_buf hg.toLaid
  have hsize : (letoh32 (htole32 g.header.header_size)).toNat ≤ 92 := by
    rw [htole32, letoh32_letoh32]
    exact hg.header_size_le
  rw [swap_and_checksum, gpt_entries_bytes_to_le, for_each_slot_eq hg.toLaid, Exec.ret_bind]
  change (get_entries_crc32 (g.withBuf (le_buf g)) >>= _) = _
  rw [get_entries_crc32_eq (g := g.withBuf (le_buf g)) rfl hlen, Exec.ret_bind]
  have hcrc := get_header_crc32_eq (ε := ε) (h := gpt_header_bytes_to_le
    { g.header with pentry_crc32 := htole32 (Platform.crc32 (le_buf g)) }) hsize
  change (get_header_crc32 (gpt_header_bytes_to_le
    { g.header with pentry_crc32 := htole32 (Platform.crc32 (le_buf g)) }) >>= _) = _
  rw [hcrc, Exec.ret_bind]
  rfl

omit [Platform] in
theorem gpt_copy_eq (hg : g.Laid) : gpt_copy (ε := ε) g = .ret g := by
  rw [gpt_copy, hg.live]
  simp only
  rw [if_pos (by rw [hg.size]), List.take_of_length_le (by rw [hg.size]), withBuf_of_live hg.live]

omit [Platform] in
/-- A sound table with another place on the disk is sound. -/
theorem sound_withHeader (hg : g.Sound) {h : GptHeader} (hsig : h.sig = g.header.sig)
    (hhs : h.header_size = g.header.header_size) (hn : h.num_pentries = g.header.num_pentries)
    (hs : h.pentry_size = g.header.pentry_size) : (g.withHeader h).Sound where
  live := hg.live
  size := by
    show g.buf.length = h.entries_size.toNat
    rw [GptHeader.entries_size, hn, hs]
    exact hg.size
  heads := by
    intro k hk
    show (h.pentry_size.toNat * k) % 2 ^ 32 + 56 ≤ h.entries_size.toNat
    rw [GptHeader.entries_size, hn, hs]
    exact hg.heads k (by rw [← hn]; exact hk)
  sig := by
    show h.sig.toList = efi_part
    rw [hsig]
    exact hg.sig
  header_size_le := by
    show h.header_size.toNat ≤ 92
    rw [hhs]
    exact hg.header_size_le

omit [Platform] in
/-- The table that is written first is sound. -/
theorem primary_sound (hg : g.Sound) : (g.withHeader (primary_header g)).Sound :=
  sound_withHeader hg rfl rfl rfl rfl

omit [Platform] in
theorem backup_sound (hg : g.Sound) : (g.withHeader (backup_header g)).Sound :=
  sound_withHeader hg rfl rfl rfl rfl

/-- Writing one copy: the header, then the array. -/
theorem write_gpt_to_disk_all {io : Io} {primary : Bool} (hg : g.Sound) (hrs : ∀ r ∈ io.rs, r = .all)
    (hhead : (g.lba_offset g.header.current_lba).toNat + 92 ≤ io.dev.size)
    (harr : (g.lba_offset g.header.pentry_start_lba).toNat + g.header.entries_size.toNat
      ≤ io.dev.size) :
    Completes io
      (sends (g.lba_offset g.header.current_lba).toNat
          (GptHeader.codec.enc (le_header g.header (le_buf g))) ++
        sends (g.lba_offset g.header.pentry_start_lba).toNat (le_buf g))
      (2 ^ 31 ≤ g.header.entries_size.toNat) (write_gpt_to_disk (ε := ε) io primary g) := by
  have hlen := length_le_buf hg.toLaid
  have hlt := g.header.entries_size.toNat_lt
  rw [write_gpt_to_disk, swap_and_checksum_eq hg, Exec.ret_bind]
  refine Completes.bind (f := fun io =>
    write_at io (g.lba_offset g.header.pentry_start_lba) (.entries primary) (le_buf g)
      g.header.entries_size.toNat)
    ?_ fun io' hafter => ?_
  · have hfirst := @write_at_all ε _ (.header primary)
      (GptHeader.codec.enc (le_header g.header (le_buf g))) _ _ hrs (by rw [GptHeader.length_enc]; exact hhead) (by rw [GptHeader.length_enc]; decide)
    rw [GptHeader.length_enc] at hfirst
    exact hfirst.imp fun h => absurd h (by decide)
  · have hsecond := @write_at_all ε _ (.entries primary) (le_buf g) _ _ hafter.rs
      (by rw [hlen, hafter.data]; exact harr) (by omega)
    rw [hlen] at hsecond
    exact hsecond

/-! ## Where the five stores go -/

/-- Where `gpt_write` puts the two arrays, in bytes: behind the primary header,
and as many whole sectors before the backup header as the array fills. -/
def Gpt.primary_array_base (g : Gpt) : ℕ := 2 * g.lba_size.toNat

def Gpt.backup_array_base (g : Gpt) : ℕ :=
  (g.sectors.toNat - 1 - g.header.entries_size.toNat / g.lba_size.toNat) * g.lba_size.toNat

/-- **The metadata of a table fits on a disk**: the MBR has a sector of its own,
the device has as many sectors as the table says, and there is room in them for
two headers and two arrays, each in sectors of its own. -/
structure Fits (d : Dev) (g : Gpt) : Prop where
  sector : 512 ≤ g.lba_size.toNat
  metadata : 3 + 2 * ((g.header.entries_size.toNat + g.lba_size.toNat - 1) / g.lba_size.toNat)
    ≤ g.sectors.toNat
  device : g.sectors.toNat * g.lba_size.toNat ≤ d.size

/-- What fits lies in this order on the disk. -/
structure Placed (d : Dev) (g : Gpt) : Prop where
  sector : 512 ≤ g.lba_size.toNat
  quotient : g.header.entries_size.toNat / g.lba_size.toNat ≤ g.sectors.toNat - 1
  sectors : 0 < g.sectors.toNat
  primary : g.primary_array_base + g.header.entries_size.toNat ≤ g.backup_array_base
  backup : g.backup_array_base
    + g.header.entries_size.toNat / g.lba_size.toNat * g.lba_size.toNat = g.backup_base
  array_end : g.backup_array_base + g.header.entries_size.toNat ≤ d.size
  disk_end : g.backup_base + g.lba_size.toNat ≤ d.size

omit [Platform] in
/-- A table that fits its disk has its copies on it. -/
theorem placed {d : Dev} (h : Fits d g) : Placed d g := by
  have hL := h.sector
  have hmeta := h.metadata
  have hdev := h.device
  -- the array fills `q` whole sectors and reaches into no more than `c`
  obtain ⟨q, hq⟩ : ∃ q, g.header.entries_size.toNat / g.lba_size.toNat = q := ⟨_, rfl⟩
  obtain ⟨c, hc⟩ : ∃ c, (g.header.entries_size.toNat + g.lba_size.toNat - 1) / g.lba_size.toNat
    = c := ⟨_, rfl⟩
  rw [hc] at hmeta
  have hup : g.header.entries_size.toNat ≤ c * g.lba_size.toNat := by
    have := Nat.lt_mul_div_succ (g.header.entries_size.toNat + g.lba_size.toNat - 1)
      (show 0 < g.lba_size.toNat by omega)
    rw [hc, Nat.mul_comm, Nat.succ_mul] at this
    omega
  have hdown : q * g.lba_size.toNat ≤ g.header.entries_size.toNat := by
    rw [← hq]
    exact Nat.div_mul_le_self _ _
  have hnext : g.header.entries_size.toNat < (q + 1) * g.lba_size.toNat := by
    have := Nat.lt_mul_div_succ g.header.entries_size.toNat (show 0 < g.lba_size.toNat by omega)
    rwa [hq, Nat.mul_comm] at this
  have hqc : q ≤ c := by
    rw [← hq, ← hc]
    exact Nat.div_le_div_right (by omega)
  have hlast : (g.sectors.toNat - 1) * g.lba_size.toNat + g.lba_size.toNat
      = g.sectors.toNat * g.lba_size.toNat := by
    rw [← Nat.succ_mul, Nat.succ_eq_add_one, Nat.sub_add_cancel (by omega)]
  have hback : (g.sectors.toNat - 1 - q) * g.lba_size.toNat + q * g.lba_size.toNat
      = (g.sectors.toNat - 1) * g.lba_size.toNat := by
    rw [← Nat.add_mul, Nat.sub_add_cancel (by omega)]
  have hfront : (2 + c) * g.lba_size.toNat ≤ (g.sectors.toNat - 1 - q) * g.lba_size.toNat :=
    Nat.mul_le_mul_right _ (by omega)
  rw [Nat.add_mul] at hfront
  rw [Nat.succ_mul] at hnext
  refine ⟨hL, by omega, by omega, ?_, ?_, ?_, ?_⟩
  · rw [Gpt.primary_array_base, Gpt.backup_array_base, hq]
    omega
  · rw [Gpt.backup_array_base, Gpt.backup_base, hq]
    exact hback
  · rw [Gpt.backup_array_base, hq]
    omega
  · rw [Gpt.backup_base]
    omega

/-- The five stores of `gpt_write`. -/
def stores (g : Gpt) : List (ℕ × List UInt8) :=
  sends g.primary_base (GptHeader.codec.enc (le_header (primary_header g) (le_buf g))) ++
  sends g.primary_array_base (le_buf g) ++
  (sends g.backup_base (GptHeader.codec.enc (le_header (backup_header g) (le_buf g))) ++
  sends g.backup_array_base (le_buf g)) ++
  sends 440 (Mbr.codec.enc (protective_mbr g))

section Offsets

variable {d : Dev}

omit [Platform] in
/-- Where the primary array starts, in bytes. -/
theorem primary_array_offset : (g.lba_offset 2).toNat = g.primary_array_base := by
  have := g.lba_size.toNat_lt
  rw [lba_offset_toNat]
  · rfl
  · show 2 * g.lba_size.toNat < 2 ^ 64
    omega

omit [Platform] in
theorem backup_base_offset (hp : Placed d g) :
    (g.lba_offset (g.sectors - 1)).toNat = g.backup_base := by
  refine backup_offset hp.sectors ?_
  have hend := hp.disk_end
  have hlt := d.size_lt
  have hlast : (g.sectors.toNat - 1) * g.lba_size.toNat + g.lba_size.toNat
      = g.sectors.toNat * g.lba_size.toNat := by
    rw [← Nat.succ_mul, Nat.succ_eq_add_one, Nat.sub_add_cancel hp.sectors]
  rw [Gpt.backup_base] at hend
  omega

omit [Platform] in
theorem backup_array_offset (hp : Placed d g) :
    (g.lba_offset (backup_header g).pentry_start_lba).toNat = g.backup_array_base := by
  have hS := g.sectors.toNat_lt
  have hsec := hp.sectors
  have hq := hp.quotient
  have hend := hp.array_end
  have hlt := d.size_lt
  have hsub : (g.sectors - 1).toNat = g.sectors.toNat - 1 := by
    rw [UInt64.toNat_sub]
    simp only [UInt64.toNat_one]
    omega
  have hdiv : (g.header.entries_size.toUInt64 / g.lba_size.toUInt64).toNat
      = g.header.entries_size.toNat / g.lba_size.toNat := by
    rw [UInt64.toNat_div, UInt32.toNat_toUInt64, UInt32.toNat_toUInt64]
  have hstart : (backup_header g).pentry_start_lba.toNat
      = g.sectors.toNat - 1 - g.header.entries_size.toNat / g.lba_size.toNat := by
    show (g.sectors - 1 - g.header.entries_size.toUInt64 / g.lba_size.toUInt64).toNat = _
    rw [UInt64.toNat_sub, hsub, hdiv]
    omega
  rw [Gpt.backup_array_base] at hend ⊢
  rw [lba_offset_toNat (by rw [hstart]; omega), hstart]

end Offsets

theorem Mbr.length_enc (m : Mbr) : (Mbr.codec.enc m).length = 72 := by
  rw [Mbr.codec.length_enc]
  have hvec : (MbrEntry.codec.vector 4).width = 4 * 16 := Codec.width_vector _ _
  show 4 + (2 + ((MbrEntry.codec.vector 4).width + 2)) = 72
  rw [hvec]

/-- **`gpt_write` makes the five stores and leaves the caller's table alone**, when
every call transfers all it can. -/
theorem gpt_write_all {io : Io} (hg : g.Sound) (hfit : Fits io.dev g)
    (hrs : ∀ r ∈ io.rs, r = .all) :
    (∃ io', gpt_write (ε := ε) io g = .ret (0, g, io') ∧ io.After (stores g) io') ∨
    (io.rs.length < (stores g).length ∨ 2 ^ 31 ≤ g.header.entries_size.toNat) ∧
      ∀ r g' io', gpt_write (ε := ε) io g = .ret (r, g', io') → r ≠ 0 := by
  have hp := placed hfit
  have hL := hp.sector
  have hL0 : g.lba_size ≠ 0 := fun h => by rw [h] at hL; exact absurd hL (by decide)
  have hfront := hp.primary
  have hdisk := hp.disk_end
  have harr_end := hp.array_end
  have hbase : g.primary_array_base = 2 * g.lba_size.toNat := rfl
  -- the two copies, from any state the calls before them leave
  have hprim := @write_gpt_to_disk_all ε _ _ io true (primary_sound hg) hrs
    (by
      show (g.lba_offset (g.copy_lba true)).toNat + 92 ≤ _
      rw [primary_offset, Gpt.primary_base]
      omega)
    (by
      show (g.lba_offset 2).toNat + g.header.entries_size.toNat ≤ _
      rw [primary_array_offset]
      omega)
  change Completes io
    (sends (g.lba_offset (g.copy_lba true)).toNat
        (GptHeader.codec.enc (le_header (primary_header g) (le_buf g))) ++
      sends (g.lba_offset 2).toNat (le_buf g))
    (2 ^ 31 ≤ g.header.entries_size.toNat) _ at hprim
  rw [primary_offset, primary_array_offset] at hprim
  have hback : ∀ io₁ : Io, io₁.dev.size = io.dev.size → (∀ r ∈ io₁.rs, r = .all) →
      Completes io₁ (sends g.backup_base
          (GptHeader.codec.enc (le_header (backup_header g) (le_buf g))) ++
        sends g.backup_array_base (le_buf g))
        (2 ^ 31 ≤ g.header.entries_size.toNat)
        (write_gpt_to_disk (ε := ε) io₁ false (g.withHeader (backup_header g))) := by
    intro io₁ hsize hrs₁
    have h := @write_gpt_to_disk_all ε _ _ io₁ false (backup_sound hg) hrs₁
      (by
        show (g.lba_offset (g.sectors - 1)).toNat + 92 ≤ _
        rw [backup_base_offset hp, hsize]
        omega)
      (by
        show (g.lba_offset (backup_header g).pentry_start_lba).toNat
          + g.header.entries_size.toNat ≤ _
        rw [backup_array_offset hp, hsize]
        exact harr_end)
    change Completes io₁
      (sends (g.lba_offset (g.sectors - 1)).toNat
          (GptHeader.codec.enc (le_header (backup_header g) (le_buf g))) ++
        sends (g.lba_offset (backup_header g).pentry_start_lba).toNat (le_buf g))
      (2 ^ 31 ≤ g.header.entries_size.toNat) _ at h
    rwa [backup_base_offset hp, backup_array_offset hp] at h
  have hmbr : ∀ io₂ : Io, io₂.dev.size = io.dev.size → (∀ r ∈ io₂.rs, r = .all) →
      Completes io₂ (sends 440 (Mbr.codec.enc (protective_mbr g)))
        (2 ^ 31 ≤ g.header.entries_size.toNat) (write_mbr (ε := ε) io₂ (protective_mbr g)) := by
    intro io₂ hsize hrs₂
    have h := @write_at_all ε _ .mbr (Mbr.codec.enc (protective_mbr g)) _ 440 hrs₂ (by
      rw [Mbr.length_enc, hsize]
      show 440 + 72 ≤ io.dev.size
      omega) (by rw [Mbr.length_enc]; decide)
    rw [Mbr.length_enc] at h
    exact h.imp fun h => absurd h (by decide)
  rw [gpt_write, gpt_copy_eq hg.toLaid, Exec.ret_bind, stores, List.append_assoc]
  simp only [Exec.ret_bind, hL0, if_false]
  refine hprim.andThen (f := fun io => write_gpt_to_disk io false (g.withHeader (backup_header g)) >>=
    fun r => if r.1 ≠ 0 then .ret (-1, g, r.2) else write_mbr r.2 (protective_mbr g) >>=
      fun r => if r.1 ≠ 0 then .ret (-1, g, r.2) else .ret (0, g, r.2)) fun io₁ hafter₁ => ?_
  have hsize₁ : io₁.dev.size = io.dev.size := by
    rw [hafter₁.data]
    rfl
  refine (hback io₁ hsize₁ hafter₁.rs).andThen (f := fun io => write_mbr io (protective_mbr g) >>=
    fun r => if r.1 ≠ 0 then .ret (-1, g, r.2) else .ret (0, g, r.2)) fun io₂ hafter₂ => ?_
  have hsize₂ : io₂.dev.size = io.dev.size := by
    rw [hafter₂.data]
    exact hsize₁
  exact (hmbr io₂ hsize₂ hafter₂.rs).last

theorem length_stores_le (g : Gpt) : (stores g).length ≤ 5 := by
  have h1 := length_sends_le g.primary_base
    (GptHeader.codec.enc (le_header (primary_header g) (le_buf g)))
  have h2 := length_sends_le g.primary_array_base (le_buf g)
  have h3 := length_sends_le g.backup_base
    (GptHeader.codec.enc (le_header (backup_header g) (le_buf g)))
  have h4 := length_sends_le g.backup_array_base (le_buf g)
  have h5 := length_sends_le 440 (Mbr.codec.enc (protective_mbr g))
  simp only [stores, List.length_append]
  omega

/-- What a successful `gpt_write` did. -/
theorem gpt_write_ret {io io' : Io} {g' : Gpt} (hg : g.Sound) (hfit : Fits io.dev g)
    (hrs : ∀ r ∈ io.rs, r = .all) (h : gpt_write (ε := ε) io g = .ret (0, g', io')) :
    g' = g ∧ io.After (stores g) io' := by
  rcases gpt_write_all (ε := ε) hg hfit hrs with ⟨io₁, hret, hafter⟩ | ⟨-, hne⟩
  · rw [hret] at h
    simp only [Exec.ret.injEq, Prod.mk.injEq, true_and] at h
    exact ⟨h.1.symm, h.2 ▸ hafter⟩
  · exact absurd rfl (hne _ _ _ h)

/-- With calls enough, an array of less than 2 GiB is written. -/
theorem gpt_write_total {io : Io} (hg : g.Sound) (hfit : Fits io.dev g)
    (hrs : ∀ r ∈ io.rs, r = .all) (hcalls : 5 ≤ io.rs.length)
    (hlen : g.header.entries_size.toNat < 2 ^ 31) :
    ∃ io', gpt_write (ε := ε) io g = .ret (0, g, io') ∧ io.After (stores g) io' := by
  rcases gpt_write_all (ε := ε) hg hfit hrs with hdone | ⟨hwhy, -⟩
  · exact hdone
  · have := length_stores_le g
    omega

end Stores

end Iago
