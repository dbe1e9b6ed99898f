/-
Reading a table: `robust_read`, `read_gpt_data` and `gpt_read`.

The device is a fixed number of bytes. What a single `read` call does is not the
program's choice, so it is an input: a script of outcomes, one for each call,
saying whether the call transfers all it can, transfers at most so many bytes,
is interrupted or fails. A loop that is still waiting when the script is over has
not returned; `robust_read` never treats a read of 0 bytes as the end of the
file, so past the end of the device every script runs out.

`read_gpt_data` is split where its own comments and labels split it: the header
(up to `gpt_header_bytes_to_host`), the array (up to the second CRC, with the
`out_free` path), and the byte swap of the entries. Opening and closing the
device and allocating memory are taken to succeed.
-/
import Iago.GptEntries
import Iago.Store

set_option autoImplicit false

namespace Iago

/-- A block device: its size in bytes, which is an `off_t`, and what it holds. -/
structure Dev where
  size : ℕ
  data : Store
  size_lt : size < 2 ^ 63

/-- What one `read` or `write` call does: transfer everything it can, transfer
at most so many bytes, fail with `EINTR`, or fail with another error. -/
inductive IoRes where
  | all
  | upto (n : ℕ)
  | eintr
  | err
  deriving DecidableEq, Repr

/-- How many of `avail` bytes a successful call transfers. -/
def IoRes.amount : IoRes → ℕ → ℕ
  | .all, avail => avail
  | .upto n, avail => min n avail
  | _, _ => 0

/-- `lseek64(fd, off, SEEK_SET)` succeeds on a block device: the offset, as a
signed number, is not negative and not past the end. -/
def lseek64 (d : Dev) (off : UInt64) : Bool := off.toNat < 2 ^ 63 ∧ off.toNat ≤ d.size

def EIO : Int := 5
def EINVAL : Int := 22

section Read

variable {ε : Type} [Platform]

/-- `robust_read` from position `pos`: its return value, the bytes it has stored
in the buffer, and the script for the calls that follow. `total` is the number
of bytes in `buf`. -/
def robust_read (d : Dev) (short_ok : Bool) :
    List IoRes → (pos count : ℕ) → (buf : List UInt8) → Exec ε (Int × List UInt8 × List IoRes)
  | [], _, _, _ => .hang
  | .err :: rs, _, _, buf => .ret (-1, buf, rs)
  | .eintr :: rs, pos, count, buf =>
    -- `continue` in a do-while goes to the loop condition
    if count ≠ 0 ∧ short_ok = false then robust_read d short_ok rs pos count buf
    else .ret (buf.length, buf, rs)
  | r :: rs, pos, count, buf =>
    let ret := r.amount (min count (d.size - pos))
    let buf := buf ++ d.data.read pos ret
    if count - ret ≠ 0 ∧ short_ok = false then
      robust_read d short_ok rs (pos + ret) (count - ret) buf
    else .ret (buf.length, buf, rs)

/-- `gpt_header_bytes_to_host`. The two CRC fields stay as they are stored. -/
def gpt_header_bytes_to_host (h : GptHeader) : GptHeader :=
  { h with
    revision := letoh32 h.revision
    header_size := letoh32 h.header_size
    current_lba := letoh64 h.current_lba
    backup_lba := letoh64 h.backup_lba
    first_usable_lba := letoh64 h.first_usable_lba
    last_usable_lba := letoh64 h.last_usable_lba
    pentry_start_lba := letoh64 h.pentry_start_lba
    num_pentries := letoh32 h.num_pentries
    pentry_size := letoh32 h.pentry_size
    disk_guid := gpt_guid_bytes_to_host h.disk_guid }

/-- `get_entries_crc32`: the checksum of the whole array. -/
def get_entries_crc32 (g : Gpt) : Exec ε UInt32 :=
  match g.entries with
  | .live buf =>
    let len := g.header.entries_size.toNat
    if len ≤ buf.length then .ret (htole32 (Platform.crc32 (buf.take len))) else .fault
  | _ => .fault

/-- `get_header_crc32`: the checksum of the first `header_size` bytes of the
header, with its `crc32` field taken as 0. A `header_size` above 92 reads past
the end of `struct gpt_header`. -/
def get_header_crc32 (h : GptHeader) : Exec ε UInt32 :=
  let len := (letoh32 h.header_size).toNat
  if len ≤ 92 then
    .ret (htole32 (Platform.crc32 ((GptHeader.codec.enc { h with crc32 := 0 }).take len)))
  else .fault

/-- The checksum of the array is that of all its bytes. -/
theorem get_entries_crc32_eq {g : Gpt} (hlive : g.entries = .live g.buf)
    (hsize : g.buf.length = g.header.entries_size.toNat) :
    get_entries_crc32 (ε := ε) g = .ret (htole32 (Platform.crc32 g.buf)) := by
  rw [get_entries_crc32, hlive]
  simp only
  rw [if_pos (by rw [hsize]), List.take_of_length_le (by rw [hsize])]

theorem get_header_crc32_eq {h : GptHeader} (hsize : (letoh32 h.header_size).toNat ≤ 92) :
    get_header_crc32 (ε := ε) h = .ret (htole32 (Platform.crc32
      ((GptHeader.codec.enc { h with crc32 := 0 }).take (letoh32 h.header_size).toNat))) := by
  rw [get_header_crc32, if_pos hsize]

/-- `free(gpt->entries)`: freeing NULL does nothing, freeing twice is undefined. -/
def Gpt.free_entries (g : Gpt) : Exec ε Gpt :=
  match g.entries with
  | .null => .ret g
  | .live _ => .ret { g with entries := .freed }
  | .freed => .fault

/-- The table with another header. -/
def Gpt.withHeader (g : Gpt) (h : GptHeader) : Gpt := { g with header := h }

/-- `"EFI PART"`. -/
def efi_part : List UInt8 := [69, 70, 73, 32, 80, 65, 82, 84]

omit [Platform] in
theorem length_efi_part : efi_part.length = 8 := rfl

/-- `offset * gpt->lba_size`. -/
def Gpt.lba_offset (g : Gpt) (lba : UInt64) : UInt64 := lba * g.lba_size.toUInt64

/-- `read_gpt_data` up to `gpt_header_bytes_to_host`. -/
def read_gpt_header (d : Dev) (rs : List IoRes) (primary : Bool) (g : Gpt) :
    Exec ε (Int × Gpt × List IoRes) := do
  let offset := if primary then 1 else g.sectors - 1
  if lseek64 d (g.lba_offset offset) then
    let (ret, bytes, rs) ← robust_read d false rs (g.lba_offset offset).toNat 92 []
    let g := g.withHeader (GptHeader.codec.dec (splice (GptHeader.codec.enc g.header) 0 bytes))
    if ret < 0 then .ret (- EIO, g, rs)
    else if g.header.sig.toList ≠ efi_part then .ret (-EINVAL, g, rs)
    else do
      let crc ← get_header_crc32 g.header
      if crc ≠ g.header.crc32 then .ret (-EINVAL, g, rs)
      else .ret (0, g.withHeader (gpt_header_bytes_to_host g.header), rs)
  else .ret (- EIO, g, rs)

/-- `out_free`: give the array back and forget it. -/
def read_out_free (ret : Int) (g : Gpt) (rs : List IoRes) : Exec ε (Int × Gpt × List IoRes) := do
  let g ← g.free_entries
  .ret (ret, { g with entries := .null }, rs)

/-- `read_gpt_data` from the allocation of the array to its CRC. -/
def read_gpt_entries (d : Dev) (rs : List IoRes) (g : Gpt) : Exec ε (Int × Gpt × List IoRes) := do
  let entries_size := g.header.entries_size.toNat
  -- what `malloc` returns holds whatever it held before
  let g := g.withBuf (List.replicate entries_size 0)
  let off := g.lba_offset g.header.pentry_start_lba
  if lseek64 d off then
    let (ret, bytes, rs) ← robust_read d false rs off.toNat entries_size []
    let g := g.withBuf (splice g.buf 0 bytes)
    if ret < 0 then read_out_free (- EIO) g rs
    else do
      let crc ← get_entries_crc32 g
      if crc ≠ g.header.pentry_crc32 then read_out_free (-EINVAL) g rs
      else .ret (0, g, rs)
  else read_out_free (- EIO) g rs

/-- `read_gpt_data`. -/
def read_gpt_data (d : Dev) (rs : List IoRes) (primary : Bool) (g : Gpt) :
    Exec ε (Int × Gpt × List IoRes) := do
  let (ret, g, rs) ← read_gpt_header d rs primary g
  if ret < 0 then .ret (ret, g, rs)
  else do
    let (ret, g, rs) ← read_gpt_entries d rs g
    if ret < 0 then .ret (ret, g, rs)
    else do
      let g ← gpt_entries_bytes_to_host g
      .ret (0, g, rs)

/-- `gpt_read`: the primary copy, or the backup copy if that cannot be read. -/
def gpt_read (d : Dev) (rs : List IoRes) (g : Gpt) : Exec ε (Int × Gpt × List IoRes) := do
  if lseek64 d (0x1be + 0x4) then
    let (ret, bytes, rs) ← robust_read d false rs (0x1be + 0x4) 1 []
    if ret < 0 then .ret (- EIO, g, rs)
    else if bytes.headD 0 ≠ 0xee then .ret (-EINVAL, g, rs)
    else do
      let (ret, g, rs) ← read_gpt_data d rs true g
      if ret < 0 then do
        let (ret, g, rs) ← read_gpt_data d rs false g
        if ret < 0 then .ret (-EINVAL, g, rs) else .ret (0, g, rs)
      else .ret (0, g, rs)
  else .ret (- EIO, g, rs)

/-! ## What a copy on the device says

With the outcomes of the `read` calls out of the way, `read_gpt_data` is a
function of the bytes on the device: no calls, no state left over from an earlier
attempt. `read_gpt_data_eq` is that reduction; every statement about which copy is
accepted goes through it. -/

/-- The `count` bytes at `pos`; a read past the end of the device never ends. -/
def Dev.get (d : Dev) (pos count : ℕ) : Exec ε (List UInt8) :=
  if pos + count ≤ d.size then .ret (d.data.read pos count) else .hang

/-- What 92 bytes are worth as a header: nothing, or the header they hold. -/
def check_header (bytes : List UInt8) : Exec ε (Option GptHeader) :=
  let h := GptHeader.codec.dec bytes
  if h.sig.toList ≠ efi_part then .ret none
  else do
    let crc ← get_header_crc32 h
    if crc ≠ h.crc32 then .ret none else .ret (some (gpt_header_bytes_to_host h))

/-- The array a header points to, with its entries in host order, if its checksum
is the one in the header. -/
def check_entries (d : Dev) (g : Gpt) (h : GptHeader) : Exec ε (Option (List UInt8)) :=
  let off := g.lba_offset h.pentry_start_lba
  if lseek64 d off then do
    let arr ← d.get off.toNat h.entries_size.toNat
    if htole32 (Platform.crc32 arr) ≠ h.pentry_crc32 then .ret none
    else do
      let g ← gpt_entries_bytes_to_host ((g.withHeader h).withBuf arr)
      .ret (some g.buf)
  else .ret none

/-- The copy whose header is at `lba`. -/
def copy_at (d : Dev) (g : Gpt) (lba : UInt64) : Exec ε (Option (GptHeader × List UInt8)) :=
  if lseek64 d (g.lba_offset lba) then do
    let bytes ← d.get (g.lba_offset lba).toNat 92
    match ← check_header bytes with
    | none => .ret none
    | some h =>
      match ← check_entries d g h with
      | none => .ret none
      | some buf => .ret (some (h, buf))
  else .ret none

/-- Where `read_gpt_data` looks for a copy. -/
def Gpt.copy_lba (g : Gpt) (primary : Bool) : UInt64 := if primary then 1 else g.sectors - 1

/-- The table on the device: behind a protective MBR, the primary copy or else
the backup copy. -/
def table_on (d : Dev) (g : Gpt) : Exec ε (Option (GptHeader × List UInt8)) :=
  if lseek64 d (0x1be + 0x4) then do
    let type ← d.get 450 1
    if type.headD 0 ≠ 0xee then .ret none
    else
      match ← copy_at d g (g.copy_lba true) with
      | some copy => .ret (some copy)
      | none => copy_at d g (g.copy_lba false)
  else .ret none

end Read

/-! ### The `read` calls -/

section ReadCalls

variable {ε : Type} {d : Dev}

/-- What `n` calls of `robust_read` leave of a script without errors: no errors,
and all but `n` of the calls that transfer everything, since each of those ends
the loop it occurs in. -/
structure Rest (rs rs' : List IoRes) (n : ℕ) : Prop where
  noErr : .err ∉ rs'
  alls : rs.count .all ≤ rs'.count .all + n

theorem Rest.trans {rs₁ rs₂ rs₃ : List IoRes} {m n : ℕ} (h : Rest rs₁ rs₂ m)
    (h' : Rest rs₂ rs₃ n) : Rest rs₁ rs₃ (m + n) where
  noErr := h'.noErr
  alls := by
    have := h.alls
    have := h'.alls
    omega

theorem Rest.mono {rs rs' : List IoRes} {m n : ℕ} (h : Rest rs rs' m) (hmn : m ≤ n) :
    Rest rs rs' n where
  noErr := h.noErr
  alls := by have := h.alls; omega

/-- How `robust_read` ends on a script without errors: it has not returned,
because the bytes are not there or no call transferred them all, or it has
returned all the bytes it was asked for. -/
def Serves (d : Dev) (rs : List IoRes) (pos count : ℕ) (buf : List UInt8)
    (out : Exec ε (Int × List UInt8 × List IoRes)) : Prop :=
  out = .hang ∧ (pos + count ≤ d.size → rs.count .all = 0) ∨
    pos + count ≤ d.size ∧ ∃ rs', Rest rs rs' 1 ∧
      out = .ret (((buf.length + count : ℕ) : Int), buf ++ d.data.read pos count, rs')

/-- One successful `read` call of the loop. -/
theorem serves_step {k pos count : ℕ} {r : IoRes} {rs : List IoRes} {buf : List UInt8}
    (hk : k ≤ min count (d.size - pos)) (hpos : pos ≤ d.size) (hrs : .err ∉ rs)
    (hall : r = .all → k = min count (d.size - pos))
    (ih : ∀ {pos count : ℕ} {buf : List UInt8}, pos ≤ d.size →
      Serves d rs pos count buf (robust_read (ε := ε) d false rs pos count buf)) :
    Serves (ε := ε) d (r :: rs) pos count buf
      (if count - k ≠ 0 ∧ false = false then
        robust_read d false rs (pos + k) (count - k) (buf ++ d.data.read pos k)
      else .ret ((buf ++ d.data.read pos k).length, buf ++ d.data.read pos k, rs)) := by
  have hcount : (r :: rs).count .all ≤ rs.count .all + 1 := by
    rw [List.count_cons]; split_ifs <;> omega
  by_cases hrest : count - k ≠ 0
  · rw [if_pos ⟨hrest, rfl⟩]
    -- a call that left something to do did not transfer everything it was asked for
    have hno : pos + count ≤ d.size → (r :: rs).count .all = rs.count .all := by
      intro hfit
      have hr : r ≠ .all := fun h => by have := hall h; omega
      rw [List.count_cons, if_neg (by simpa using hr), Nat.add_zero]
    rcases @ih (pos + k) (count - k) (buf ++ d.data.read pos k) (by omega)
      with ⟨hhang, hwhy⟩ | ⟨hfit, rs', hrs', hret⟩
    · exact .inl ⟨hhang, fun hfit => by rw [hno hfit]; exact hwhy (by omega)⟩
    · refine .inr ⟨by omega, rs', ⟨hrs'.noErr, by rw [hno (by omega)]; exact hrs'.alls⟩, ?_⟩
      rw [hret, List.append_assoc, Store.read_append, List.length_append, Store.length_read,
        show k + (count - k) = count by omega, show buf.length + k + (count - k)
          = buf.length + count by omega]
  · rw [if_neg fun h => hrest h.1]
    have hkc : k = count := by omega
    rw [hkc, List.length_append, Store.length_read]
    exact .inr ⟨by omega, rs, ⟨hrs, hcount⟩, rfl⟩

/-- `robust_read` without read errors. -/
theorem robust_read_serves {rs : List IoRes} (hrs : .err ∉ rs) {pos count : ℕ}
    {buf : List UInt8} (hpos : pos ≤ d.size) :
    Serves d rs pos count buf (robust_read (ε := ε) d false rs pos count buf) := by
  induction rs generalizing pos count buf with
  | nil => exact .inl ⟨rfl, fun _ => rfl⟩
  | cons r rs ih =>
    have hrs' : .err ∉ rs := fun h => hrs (List.mem_cons_of_mem _ h)
    cases r with
    | err => exact absurd List.mem_cons_self hrs
    | eintr =>
      have hcount : (IoRes.eintr :: rs).count .all = rs.count .all := by
        rw [List.count_cons]; rfl
      rw [robust_read]
      -- An interrupted call with nothing left to read ends the loop as well.
      by_cases hc : count = 0
      · subst hc
        rw [if_neg (by simp)]
        refine .inr ⟨by omega, rs, ⟨hrs', by omega⟩, ?_⟩
        simp [Store.read]
      · rw [if_pos ⟨hc, rfl⟩]
        rcases ih hrs' hpos with ⟨hhang, hwhy⟩ | ⟨hfit, rs', hrest, hret⟩
        · exact .inl ⟨hhang, fun h => by rw [hcount]; exact hwhy h⟩
        · exact .inr ⟨hfit, rs', ⟨hrest.noErr, by rw [hcount]; exact hrest.alls⟩, hret⟩
    | all =>
      rw [robust_read]
      · exact serves_step (Nat.le_refl _) hpos hrs' (fun _ => rfl) (ih hrs')
      all_goals exact fun h => by cases h
    | upto n =>
      rw [robust_read]
      · exact serves_step (Nat.min_le_right _ _) hpos hrs' (fun h => by cases h) (ih hrs')
      all_goals exact fun h => by cases h

/-- No call transfers more than there is. -/
theorem IoRes.amount_le (r : IoRes) (avail : ℕ) : r.amount avail ≤ avail := by
  cases r with
  | all => exact Nat.le_refl _
  | upto n => exact Nat.min_le_right _ _
  | eintr => exact Nat.zero_le _
  | err => exact Nat.zero_le _

/-- A `robust_read` that does not fail has read everything. -/
theorem robust_read_length {rs rs' : List IoRes} {pos count : ℕ} {buf bytes : List UInt8} {r : Int}
    (h : robust_read (ε := ε) d false rs pos count buf = .ret (r, bytes, rs')) (hr : 0 ≤ r) :
    bytes.length = buf.length + count := by
  induction rs generalizing pos count buf with
  | nil => cases h
  | cons c rs ih =>
    -- a call that transfers something
    have hstep : ∀ k, k ≤ count →
        (if count - k ≠ 0 ∧ false = false then
          robust_read (ε := ε) d false rs (pos + k) (count - k) (buf ++ d.data.read pos k)
        else .ret (((buf ++ d.data.read pos k).length : Int), buf ++ d.data.read pos k, rs))
          = .ret (r, bytes, rs') → bytes.length = buf.length + count := by
      intro k hk h
      by_cases hrest : count - k ≠ 0
      · rw [if_pos ⟨hrest, rfl⟩] at h
        have := ih h
        rw [List.length_append, Store.length_read] at this
        omega
      · rw [if_neg fun hc => hrest hc.1] at h
        injection h with h
        injection h with _ h
        injection h with h _
        rw [← h, List.length_append, Store.length_read]
        omega
    cases c with
    | err =>
      injection h with h
      injection h with h _
      omega
    | eintr =>
      rw [robust_read] at h
      by_cases hc : count = 0
      · rw [if_neg fun hn => hn.1 hc] at h
        injection h with h
        injection h with _ h
        injection h with h _
        rw [← h, hc, Nat.add_zero]
      · rw [if_pos ⟨hc, rfl⟩] at h
        exact ih h
    | all =>
      rw [robust_read] at h
      · exact hstep _ (by have := IoRes.amount_le .all (min count (d.size - pos)); omega) h
      all_goals exact fun h => by cases h
    | upto n =>
      rw [robust_read] at h
      · exact hstep _ (by have := IoRes.amount_le (.upto n) (min count (d.size - pos)); omega) h
      all_goals exact fun h => by cases h

end ReadCalls

/-! ### From the calls to the bytes -/

@[simp] theorem withHeader_header (g : Gpt) (h : GptHeader) : (g.withHeader h).header = h := rfl

@[simp] theorem withBuf_header (g : Gpt) (buf : List UInt8) : (g.withBuf buf).header = g.header :=
  rfl

@[simp] theorem withBuf_buf (g : Gpt) (buf : List UInt8) : (g.withBuf buf).buf = buf := rfl

/-- On a device `off_t` can measure, the sign plays no part. -/
theorem lseek64_eq {d : Dev} {off : UInt64} : (lseek64 d off = true) = (off.toNat ≤ d.size) := by
  have := d.size_lt
  simp only [lseek64, decide_eq_true_eq, eq_iff_iff]
  omega

/-- A seek that succeeds stays on the device. -/
theorem lseek64_le {d : Dev} {off : UInt64} (h : lseek64 d off = true) : off.toNat ≤ d.size := by
  rwa [lseek64_eq] at h

section Reduction

variable {ε : Type} [Platform] {d : Dev} {g : Gpt}

/-- What a reading function has to do with what it reads, when it makes `n` calls
of `robust_read` at most: it returns 0 and stores the table, or it returns a
negative number and leaves no array behind that it did not find there; a fault
or a hang is passed on. -/
def Reports (n : ℕ) (rs : List IoRes) (said : Exec ε (Option (GptHeader × List UInt8))) (g : Gpt)
    (did : Exec ε (Int × Gpt × List IoRes)) : Prop :=
  match said with
  | .ret none => ∃ r h es rs', did = .ret (r, { g with header := h, entries := es }, rs') ∧
      r < 0 ∧ Rest rs rs' n ∧ (es = g.entries ∨ es = .null)
  | .ret (some (h, buf)) => ∃ rs', Rest rs rs' n ∧
      did = .ret (0, (g.withHeader h).withBuf buf, rs')
  | .die _ => False
  | .fault => did = .fault
  | .hang => did = .hang

/-- The header half of `read_gpt_data`, once its bytes have been read. -/
theorem read_gpt_header_of_read {rs rs' : List IoRes} {primary : Bool}
    (hseek : lseek64 d (g.lba_offset (g.copy_lba primary)) = true) {bytes : List UInt8}
    (hlen : bytes.length = 92)
    (hret : robust_read (ε := ε) d false rs (g.lba_offset (g.copy_lba primary)).toNat 92 []
      = .ret (92, bytes, rs')) :
    read_gpt_header (ε := ε) d rs primary g = (check_header bytes >>= fun
      | none => .ret (-EINVAL, g.withHeader (GptHeader.codec.dec bytes), rs')
      | some h => .ret (0, g.withHeader h, rs')) := by
  rw [read_gpt_header, ← Gpt.copy_lba, if_pos hseek, hret, Exec.ret_bind]
  simp only
  rw [splice_all (by rw [GptHeader.length_enc, hlen]), if_neg (by decide), check_header]
  generalize GptHeader.codec.dec bytes = h
  simp only [withHeader_header]
  by_cases hsig : h.sig.toList = efi_part
  · simp only [hsig, ne_eq, not_true_eq_false, if_false, Exec.bind_assoc]
    congr 1
    funext crc
    by_cases hcrc : crc = h.crc32
    · simp only [hcrc, not_true_eq_false, if_false, Exec.ret_bind]
      rfl
    · simp only [hcrc, not_false_eq_true, if_true, Exec.ret_bind]
  · simp only [hsig, ne_eq, not_false_eq_true, if_true, Exec.ret_bind]

/-- The array half of `read_gpt_data`, once its bytes have been read. -/
theorem read_gpt_entries_of_read {rs rs' : List IoRes}
    (hseek : lseek64 d (g.lba_offset g.header.pentry_start_lba) = true) {arr : List UInt8}
    (hlen : arr.length = g.header.entries_size.toNat)
    (hret : robust_read (ε := ε) d false rs (g.lba_offset g.header.pentry_start_lba).toNat
      g.header.entries_size.toNat [] = .ret ((arr.length : Int), arr, rs')) :
    read_gpt_entries (ε := ε) d rs g =
      if htole32 (Platform.crc32 arr) ≠ g.header.pentry_crc32 then
        .ret (-EINVAL, { g with entries := .null }, rs')
      else .ret (0, g.withBuf arr, rs') := by
  rw [read_gpt_entries]
  have hoff : (g.withBuf (List.replicate g.header.entries_size.toNat 0)).lba_offset
      (g.withBuf (List.replicate g.header.entries_size.toNat 0)).header.pentry_start_lba
        = g.lba_offset g.header.pentry_start_lba := rfl
  simp only [hoff]
  rw [if_pos hseek, hret, Exec.ret_bind]
  simp only [Gpt.buf, Gpt.withBuf]
  rw [splice_all (by rw [List.length_replicate, hlen]), if_neg (by omega), get_entries_crc32]
  simp only
  rw [if_pos (by rw [hlen]), Exec.ret_bind, List.take_of_length_le (by rw [hlen])]
  by_cases hcrc : htole32 (Platform.crc32 arr) = g.header.pentry_crc32
  · simp only [hcrc, ne_eq, not_true_eq_false, if_false]
  · simp only [hcrc, ne_eq, not_false_eq_true, if_true]
    rfl

/-- The checks on a header either come to an answer or reach past the struct. -/
theorem check_header_cases (bytes : List UInt8) :
    (∃ o, (check_header bytes : Exec ε (Option GptHeader)) = .ret o) ∨
      (check_header bytes : Exec ε (Option GptHeader)) = .fault := by
  rw [check_header]
  by_cases hsig : (GptHeader.codec.dec bytes).sig.toList = efi_part
  · simp only [hsig, ne_eq, not_true_eq_false, if_false, get_header_crc32]
    by_cases hlen : (letoh32 (GptHeader.codec.dec bytes).header_size).toNat ≤ 92
    · simp only [hlen, if_true, Exec.ret_bind]
      split_ifs
      · exact .inl ⟨_, rfl⟩
      · exact .inl ⟨_, rfl⟩
    · simp only [hlen, if_false, Exec.fault_bind, or_true]
  · simp only [hsig, ne_eq, not_false_eq_true, if_true]
    exact .inl ⟨_, rfl⟩

/-- The loop over the slots changes the array alone, or faults. -/
theorem for_each_slot_cases (hlive : g.entries = .live g.buf)
    (hsize : g.buf.length = g.header.entries_size.toNat) (f : GptEntryHead → GptEntryHead) :
    (∃ buf, (for_each_slot f g : Exec ε Gpt) = .ret (g.withBuf buf)) ∨
      (for_each_slot f g : Exec ε Gpt) = .fault := by
  by_cases hin : g.header.Hold 56
  · exact .inl ⟨_, for_each_slot_eq ⟨hlive, hsize, hin⟩ f⟩
  · exact .inr (for_each_slot_fault hlive hsize hin f)

/-- The array half, against what `check_entries` says of the array. -/
theorem read_gpt_entries_reports {rs : List IoRes} (hrs : .err ∉ rs) (h : GptHeader) :
    (read_gpt_entries (ε := ε) d rs (g.withHeader h) = .hang ∧
      (rs.count .all = 0 ∨ check_entries (ε := ε) d g h = .hang)) ∨
    (check_entries (ε := ε) d g h = .ret none ∧ ∃ r rs', Rest rs rs' 1 ∧ r < 0 ∧
      read_gpt_entries (ε := ε) d rs (g.withHeader h)
        = .ret (r, { g with header := h, entries := .null }, rs')) ∨
    ∃ arr rs', Rest rs rs' 1 ∧ arr.length = h.entries_size.toNat ∧
      read_gpt_entries (ε := ε) d rs (g.withHeader h)
        = .ret (0, (g.withHeader h).withBuf arr, rs') ∧
      check_entries (ε := ε) d g h
        = (gpt_entries_bytes_to_host ((g.withHeader h).withBuf arr) >>= fun g =>
            .ret (some g.buf)) := by
  by_cases hseek : lseek64 d (g.lba_offset h.pentry_start_lba)
  · have hgives : check_entries (ε := ε) d g h
        = d.get (g.lba_offset h.pentry_start_lba).toNat h.entries_size.toNat >>= fun arr =>
            if htole32 (Platform.crc32 arr) ≠ h.pentry_crc32 then .ret none
            else gpt_entries_bytes_to_host ((g.withHeader h).withBuf arr) >>= fun g =>
              .ret (some g.buf) := by
      rw [check_entries, if_pos hseek]
    -- The array is read by calls whose outcomes are given: they hang, or they bring all of it.
    rcases @robust_read_serves ε d rs hrs _ h.entries_size.toNat [] (lseek64_le hseek) with ⟨hhang, hwhy⟩ | ⟨hfit, rs', hrest, hret⟩
    · left
      constructor
      · rw [read_gpt_entries]
        show (if lseek64 d (g.lba_offset h.pentry_start_lba) = true then _ else _) = _
        rw [if_pos hseek]
        show (robust_read d false rs (g.lba_offset h.pentry_start_lba).toNat
          h.entries_size.toNat [] >>= _) = _
        rw [hhang, Exec.hang_bind]
      · by_cases hfit : (g.lba_offset h.pentry_start_lba).toNat + h.entries_size.toNat ≤ d.size
        · exact .inl (hwhy hfit)
        · exact .inr (by rw [hgives, Dev.get, if_neg hfit, Exec.hang_bind])
    · right
      rw [Dev.get, if_pos hfit, Exec.ret_bind] at hgives
      rw [List.nil_append, List.length_nil, Nat.zero_add] at hret
      have hlen : (d.data.read (g.lba_offset h.pentry_start_lba).toNat
          h.entries_size.toNat).length = h.entries_size.toNat := Store.length_read _ _ _
      have hall : robust_read (ε := ε) d false rs (g.lba_offset h.pentry_start_lba).toNat
          h.entries_size.toNat [] = .ret (((d.data.read (g.lba_offset h.pentry_start_lba).toNat
            h.entries_size.toNat).length : Int), d.data.read
              (g.lba_offset h.pentry_start_lba).toNat h.entries_size.toNat, rs') := by
        rw [hlen]
        exact hret
      -- With the bytes there, both sides compare the same checksum.
      have hdid := read_gpt_entries_of_read (g := g.withHeader h) hseek hlen hall
      rw [withHeader_header] at hdid
      by_cases hcrc : htole32 (Platform.crc32 (d.data.read
          (g.lba_offset h.pentry_start_lba).toNat h.entries_size.toNat)) = h.pentry_crc32
      · right
        rw [if_neg (not_not.mpr hcrc)] at hdid hgives
        exact ⟨_, rs', hrest, hlen, hdid, hgives⟩
      · left
        rw [if_pos hcrc] at hdid hgives
        exact ⟨hgives, -EINVAL, rs', hrest, by decide, hdid⟩
  · right; left
    refine ⟨by rw [check_entries, if_neg hseek], - EIO, rs, ⟨hrs, by omega⟩, by decide, ?_⟩
    rw [read_gpt_entries]
    show (if lseek64 d (g.lba_offset h.pentry_start_lba) = true then _ else _) = _
    rw [if_neg hseek]
    rfl

/-- **`read_gpt_data` says what is on the device.** Without read errors it either
has not returned, for want of bytes or of calls, or it reports the copy at the
place it looks at. -/
theorem read_gpt_data_eq {rs : List IoRes} (hrs : .err ∉ rs) (primary : Bool) :
    (read_gpt_data (ε := ε) d rs primary g = .hang ∧
      (rs.count .all < 2 ∨ copy_at (ε := ε) d g (g.copy_lba primary) = .hang)) ∨
    Reports 2 rs (copy_at (ε := ε) d g (g.copy_lba primary)) g
      (read_gpt_data (ε := ε) d rs primary g) := by
  by_cases hseek : lseek64 d (g.lba_offset (g.copy_lba primary))
  · rcases @robust_read_serves ε d rs hrs _ 92 [] (lseek64_le hseek) with ⟨hhang, hwhy⟩ | ⟨hfit, rs₁, hrest₁, hret⟩
    · left
      constructor
      · rw [read_gpt_data, read_gpt_header, ← Gpt.copy_lba, if_pos hseek, hhang, Exec.hang_bind,
          Exec.hang_bind]
      · by_cases hfit : (g.lba_offset (g.copy_lba primary)).toNat + 92 ≤ d.size
        · exact .inl (by rw [hwhy hfit]; decide)
        · right
          rw [copy_at, if_pos hseek, Dev.get, if_neg hfit, Exec.hang_bind]
    · rw [List.nil_append, List.length_nil, Nat.zero_add] at hret
      have hdid := read_gpt_header_of_read hseek (Store.length_read _ _ _) hret
      have hgives : copy_at (ε := ε) d g (g.copy_lba primary)
          = (check_header (d.data.read (g.lba_offset (g.copy_lba primary)).toNat 92) >>= fun
            | none => .ret none
            | some h => check_entries d g h >>= fun
              | none => .ret none
              | some buf => .ret (some (h, buf))) := by
        rw [copy_at, if_pos hseek, Dev.get, if_pos hfit, Exec.ret_bind]
      rw [read_gpt_data, hdid, hgives]
      rcases check_header_cases (ε := ε) (d.data.read (g.lba_offset (g.copy_lba primary)).toNat 92)
        with ⟨_ | h, hsaid⟩ | hfault
      · -- no header here
        right
        rw [hsaid]
        exact ⟨-EINVAL, _, g.entries, rs₁, rfl, by decide,
          ⟨hrest₁.noErr, by have := hrest₁.alls; omega⟩, .inl rfl⟩
      · -- a header: its array decides
        rw [hsaid, Exec.ret_bind, Exec.ret_bind, Exec.ret_bind]
        simp only
        rw [if_neg (by decide)]
        rcases read_gpt_entries_reports (ε := ε) (d := d) (g := g) hrest₁.noErr h with
          ⟨hhang, hwhy⟩ | ⟨hsaid', r, rs₂, hrest₂, hr, hdid'⟩ | ⟨arr, rs₂, hrest₂, hlen, hdid',
            hsaid'⟩
        · left
          rw [hhang, Exec.hang_bind]
          refine ⟨rfl, ?_⟩
          rcases hwhy with hwhy | hwhy
          · exact .inl (by have := hrest₁.alls; omega)
          · exact .inr (by rw [hwhy, Exec.hang_bind])
        · right
          rw [hdid', hsaid', Exec.ret_bind, Exec.ret_bind]
          simp only
          rw [if_pos hr]
          exact ⟨r, h, .null, rs₂, rfl, hr, hrest₁.trans hrest₂, .inr rfl⟩
        · right
          rw [hdid', hsaid', Exec.ret_bind]
          simp only
          rw [if_neg (by decide)]
          rcases for_each_slot_cases (ε := ε) (g := (g.withHeader h).withBuf arr) rfl hlen
            entry_bytes_to_host with ⟨buf, hswap⟩ | hswap
          · rw [gpt_entries_bytes_to_host, hswap]
            exact ⟨rs₂, hrest₁.trans hrest₂, rfl⟩
          · rw [gpt_entries_bytes_to_host, hswap]
            exact rfl
      · right
        rw [hfault]
        exact rfl
  · right
    rw [copy_at, if_neg hseek, read_gpt_data, read_gpt_header, ← Gpt.copy_lba, if_neg hseek]
    exact ⟨- EIO, g.header, g.entries, rs, rfl, by decide, ⟨hrs, by omega⟩, .inl rfl⟩

/-- A copy does not depend on the header and the array read before it. -/
theorem copy_at_congr (h : GptHeader) (es : Entries) (lba : UInt64) :
    copy_at (ε := ε) d { g with header := h, entries := es } lba = copy_at d g lba := rfl

/-- It has not returned, for want of bytes or of calls, or it reports what it reads. -/
def Reported (n : ℕ) (rs : List IoRes) (said : Exec ε (Option (GptHeader × List UInt8))) (g : Gpt)
    (did : Exec ε (Int × Gpt × List IoRes)) : Prop :=
  (did = .hang ∧ (rs.count .all < n ∨ said = .hang)) ∨ Reports n rs said g did

section Reported

variable {m n : ℕ} {rs rs' : List IoRes} {said said' : Exec ε (Option (GptHeader × List UInt8))}
  {did : Exec ε (Int × Gpt × List IoRes)} {f : Gpt → List IoRes → Exec ε (Int × Gpt × List IoRes)}

omit [Platform] in
/-- Calls made before count as well. -/
theorem Reported.after (hrest : Rest rs rs' m) (h : Reported n rs' said g did) :
    Reported (m + n) rs said g did := by
  rcases h with ⟨hhang, hwhy⟩ | h
  · refine .inl ⟨hhang, hwhy.imp (fun hall => ?_) id⟩
    have := hrest.alls
    omega
  right
  rcases said with ⟨_ | ⟨hd, buf⟩⟩ | e | _ | _
  · obtain ⟨r, hd, es, rs₁, hdid, hr, hrest', hes⟩ := h
    exact ⟨r, hd, es, rs₁, hdid, hr, hrest.trans hrest', hes⟩
  · obtain ⟨rs₁, hrest', hdid⟩ := h
    exact ⟨rs₁, hrest.trans hrest', hdid⟩
  · exact h
  · exact h
  · exact h

omit [Platform] in
/-- Whatever the negative number was, it is returned as `-EINVAL`. -/
theorem Reported.answer (h : Reported n rs said g did) :
    Reported n rs said g
      (did >>= fun r => if r.1 < 0 then .ret (-EINVAL, r.2) else .ret (0, r.2)) := by
  rcases h with ⟨rfl, hwhy⟩ | h
  · exact .inl ⟨rfl, hwhy⟩
  right
  rcases said with ⟨_ | ⟨hd, buf⟩⟩ | e | _ | _
  · obtain ⟨r, hd, es, rs', rfl, hr, hrest, hes⟩ := h
    rw [Exec.ret_bind, if_pos hr]
    exact ⟨-EINVAL, hd, es, rs', rfl, by decide, hrest, hes⟩
  · obtain ⟨rs', hrest, rfl⟩ := h
    exact ⟨rs', hrest, rfl⟩
  · exact h.elim
  · obtain rfl : did = .fault := h
    exact rfl
  · obtain rfl : did = .hang := h
    exact rfl

omit [Platform] in
/-- A second attempt where the first has found nothing. It is told the state the first has left
behind, which is the old one but for the header and an array that may be gone. -/
theorem Reported.or_else (h : Reported m rs said g did)
    (hsecond : ∀ hd es rs', .err ∉ rs' → Reported n rs' said' { g with header := hd, entries := es }
      (f { g with header := hd, entries := es } rs')) :
    Reported (m + n) rs (said >>= fun o => if o.isSome then .ret o else said') g
      (did >>= fun r => if r.1 < 0 then f r.2.1 r.2.2 else .ret (0, r.2)) := by
  rcases h with ⟨rfl, hwhy⟩ | h
  · refine .inl ⟨rfl, hwhy.imp (fun hall => by omega) fun hsaid => ?_⟩
    rw [hsaid, Exec.hang_bind]
  -- What the first attempt came to: nothing, a copy, or no end.
  rcases said with ⟨_ | ⟨hd, buf⟩⟩ | e | _ | _
  · obtain ⟨r, hd, es, rs₁, rfl, hr, hrest, hes⟩ := h
    have hsecond := (hsecond hd es rs₁ hrest.noErr).after hrest
    rw [Exec.ret_bind, Exec.ret_bind, if_pos hr, Option.isSome_none, if_neg Bool.false_ne_true]
    rcases hsecond with hhang | hsecond
    · exact .inl hhang
    right
    rcases said' with ⟨_ | ⟨hd', buf⟩⟩ | e | _ | _
    · obtain ⟨r', hd', es', rs₂, hdid, hr', hrest', hes'⟩ := hsecond
      refine ⟨r', hd', es', rs₂, hdid, hr', hrest', ?_⟩
      rcases hes' with rfl | rfl
      · exact hes
      · exact .inr rfl
    · exact hsecond
    · exact hsecond
    · exact hsecond
    · exact hsecond
  · obtain ⟨rs₁, hrest, rfl⟩ := h
    exact .inr ⟨rs₁, hrest.mono (Nat.le_add_right m n), rfl⟩
  · exact h.elim
  · obtain rfl : did = .fault := h
    exact .inr rfl
  · obtain rfl : did = .hang := h
    exact .inr rfl

end Reported

/-- **`gpt_read` says what is on the device.** The state a failed attempt at the
primary copy leaves behind has no influence on the attempt at the backup copy. -/
theorem gpt_read_eq {rs : List IoRes} (hrs : .err ∉ rs) :
    (gpt_read (ε := ε) d rs g = .hang ∧
      (rs.count .all < 5 ∨ table_on (ε := ε) d g = .hang)) ∨
    Reports 5 rs (table_on (ε := ε) d g) g (gpt_read (ε := ε) d rs g) := by
  by_cases hseek : lseek64 d (0x1be + 0x4)
  swap
  · right
    rw [table_on, if_neg hseek, gpt_read, if_neg hseek]
    exact ⟨- EIO, g.header, g.entries, rs, rfl, by decide, ⟨hrs, by omega⟩, .inl rfl⟩
  have hpos : 0x1be + 0x4 ≤ d.size := lseek64_le hseek
  rcases @robust_read_serves ε d rs hrs _ 1 [] hpos with
    ⟨hhang, hwhy⟩ | ⟨hfit, rs₁, hrest₁, hret⟩
  · left
    constructor
    · rw [gpt_read, if_pos hseek, hhang, Exec.hang_bind]
    · by_cases hfit : 0x1be + 0x4 + 1 ≤ d.size
      · exact .inl (by rw [hwhy hfit]; decide)
      · exact .inr (by rw [table_on, if_pos hseek, Dev.get, if_neg hfit, Exec.hang_bind])
  rw [gpt_read, if_pos hseek, hret, Exec.ret_bind, table_on, if_pos hseek, Dev.get,
    if_pos hfit, Exec.ret_bind]
  simp only [List.length_nil, List.nil_append]
  rw [if_neg (show ¬ ((0 + 1 : ℕ) : Int) < 0 by decide)]
  by_cases htype : (d.data.read 450 1).headD 0 = 0xee
  swap
  · right
    rw [if_pos htype, if_pos htype]
    exact ⟨-EINVAL, g.header, g.entries, rs₁, rfl, by decide, hrest₁.mono (by omega), .inl rfl⟩
  rw [if_neg (not_not.mpr htype), if_neg (not_not.mpr htype)]
  -- the backup copy is the same whatever the first attempt has left in `g`
  have hbackup (hd : GptHeader) (es : Entries) (rs' : List IoRes) (hrs' : .err ∉ rs') :
      Reported 2 rs' (copy_at (ε := ε) d g (g.copy_lba false)) { g with header := hd, entries := es }
        (read_gpt_data d rs' false { g with header := hd, entries := es } >>= fun r =>
          if r.1 < 0 then .ret (-EINVAL, r.2) else .ret (0, r.2)) :=
    Reported.answer (read_gpt_data_eq hrs' false)
  have hprimary : Reported 2 rs₁ _ g _ := read_gpt_data_eq (ε := ε) (d := d) hrest₁.noErr true
  have hboth := (hprimary.or_else (f := fun g rs => read_gpt_data d rs false g >>= fun r =>
    if r.1 < 0 then .ret (-EINVAL, r.2) else .ret (0, r.2)) hbackup).after hrest₁
  change Reported 5 rs _ g _
  refine Eq.mp (congrArg (fun said => Reported 5 rs said g _) ?_) hboth
  refine congrArg (copy_at (ε := ε) d g (g.copy_lba true) >>= ·) (funext fun o => ?_)
  cases o with
  | none => rfl
  | some copy => rfl

end Reduction

/-! ## Where the copies are -/

section Places

variable {g : Gpt}

/-- Where the two copies start, in bytes. -/
def Gpt.primary_base (g : Gpt) : ℕ := g.lba_size.toNat

def Gpt.backup_base (g : Gpt) : ℕ := (g.sectors.toNat - 1) * g.lba_size.toNat

/-- Without overflow, an LBA starts where it should. -/
theorem lba_offset_toNat {lba : UInt64} (h : lba.toNat * g.lba_size.toNat < 2 ^ 64) :
    (g.lba_offset lba).toNat = lba.toNat * g.lba_size.toNat := by
  rw [Gpt.lba_offset, UInt64.toNat_mul, UInt32.toNat_toUInt64, Nat.mod_eq_of_lt h]

/-- The primary copy starts with the sector behind the MBR. -/
theorem primary_offset (g : Gpt) : (g.lba_offset (g.copy_lba true)).toNat = g.primary_base := by
  have := g.lba_size.toNat_lt
  show (1 * g.lba_size.toUInt64).toNat = g.lba_size.toNat
  rw [UInt64.toNat_mul, UInt32.toNat_toUInt64, UInt64.toNat_one, Nat.one_mul,
    Nat.mod_eq_of_lt (by omega)]

/-- On a disk of fewer than `2 ^ 64` bytes the backup copy is where the last
sector is. -/
theorem backup_offset (hsec : 0 < g.sectors.toNat)
    (hgeom : g.sectors.toNat * g.lba_size.toNat ≤ 2 ^ 64) :
    (g.lba_offset (g.copy_lba false)).toNat = g.backup_base := by
  have hsub : (g.sectors - 1).toNat = g.sectors.toNat - 1 := by
    have := g.sectors.toNat_lt
    rw [UInt64.toNat_sub]
    simp only [UInt64.toNat_one]
    omega
  show ((g.sectors - 1) * g.lba_size.toUInt64).toNat = _
  rw [UInt64.toNat_mul, hsub, UInt32.toNat_toUInt64, Gpt.backup_base, Nat.mod_eq_of_lt]
  have hlast : (g.sectors.toNat - 1) * g.lba_size.toNat + g.lba_size.toNat
      = g.sectors.toNat * g.lba_size.toNat := by
    rw [← Nat.succ_mul, Nat.succ_eq_add_one, Nat.sub_add_cancel hsec]
  rcases Nat.eq_zero_or_pos g.lba_size.toNat with h0 | hpos
  · rw [h0, Nat.mul_zero]
    decide
  · omega

end Places

/-! ## The checks, one by one

The two halves of `copy_at` as nested tests, with the loop over the slots
evaluated. -/

section Checks

variable {ε : Type} [Platform] {d : Dev} {g : Gpt}

instance (h : GptHeader) (w : ℕ) : Decidable (h.Hold w) :=
  inferInstanceAs (Decidable (∀ k, k < h.num_pentries.toNat → _))

/-- The array with every entry in host order. -/
def GptHeader.swapped (h : GptHeader) (arr : List UInt8) : List UInt8 :=
  Slots.modifyAll GptEntryHead.codec entry_bytes_to_host h.slotOffsets arr

/-- What makes a header a valid one, with the reads left out. -/
theorem check_header_eq (bytes : List UInt8) :
    (check_header bytes : Exec ε (Option GptHeader)) =
      let h := GptHeader.codec.dec bytes
      if h.sig.toList = efi_part then
        if (letoh32 h.header_size).toNat ≤ 92 then
          if htole32 (Platform.crc32 ((GptHeader.codec.enc { h with crc32 := 0 }).take
              (letoh32 h.header_size).toNat)) = h.crc32 then
            .ret (some (gpt_header_bytes_to_host h))
          else .ret none
        else .fault
      else .ret none := by
  rw [check_header]
  simp only [get_header_crc32]
  generalize GptHeader.codec.dec bytes = h
  by_cases hsig : h.sig.toList = efi_part
  · by_cases hlen : (letoh32 h.header_size).toNat ≤ 92
    · simp only [hsig, hlen, ne_eq, not_true_eq_false, if_false, if_true, Exec.ret_bind, ite_not]
    · simp only [hsig, hlen, ne_eq, not_true_eq_false, if_false, if_true, Exec.fault_bind]
  · simp only [hsig, ne_eq, not_false_eq_true, if_true, if_false]

theorem check_entries_eq (h : GptHeader) :
    (check_entries d g h : Exec ε (Option (List UInt8))) =
      let off := (g.lba_offset h.pentry_start_lba).toNat
      if off ≤ d.size then
        if off + h.entries_size.toNat ≤ d.size then
          if htole32 (Platform.crc32 (d.data.read off h.entries_size.toNat)) = h.pentry_crc32 then
            if h.Hold 56 then .ret (some (h.swapped (d.data.read off h.entries_size.toNat)))
            else .fault
          else .ret none
        else .hang
      else .ret none := by
  rw [check_entries]
  simp only [lseek64_eq]
  by_cases hseek : (g.lba_offset h.pentry_start_lba).toNat ≤ d.size
  · rw [if_pos hseek, if_pos hseek, Dev.get]
    by_cases hfit : (g.lba_offset h.pentry_start_lba).toNat + h.entries_size.toNat ≤ d.size
    · rw [if_pos hfit, if_pos hfit, Exec.ret_bind]
      by_cases hcrc : htole32 (Platform.crc32 (d.data.read
          (g.lba_offset h.pentry_start_lba).toNat h.entries_size.toNat)) = h.pentry_crc32
      · rw [if_neg (not_not.mpr hcrc), if_pos hcrc]
        generalize hread : d.data.read (g.lba_offset h.pentry_start_lba).toNat
          h.entries_size.toNat = arr
        have hlen : arr.length = h.entries_size.toNat := by rw [← hread, Store.length_read]
        by_cases hin : h.Hold 56
        · have hg : ((g.withHeader h).withBuf arr).Laid := ⟨rfl, hlen, hin⟩
          rw [if_pos hin, gpt_entries_bytes_to_host, for_each_slot_eq hg, Exec.ret_bind]
          rfl
        -- A slot whose first 56 bytes are not in the array is swapped all the same.
        · have hfault := for_each_slot_fault (ε := ε) (g := (g.withHeader h).withBuf arr) rfl hlen
            hin entry_bytes_to_host
          rw [if_neg hin, gpt_entries_bytes_to_host, hfault, Exec.fault_bind]
      · rw [if_pos hcrc, if_neg hcrc]
    · rw [if_neg hfit, if_neg hfit, Exec.hang_bind]
  · rw [if_neg hseek, if_neg hseek]

theorem copy_at_eq (lba : UInt64) :
    (copy_at d g lba : Exec ε (Option (GptHeader × List UInt8))) =
      let off := (g.lba_offset lba).toNat
      if off ≤ d.size then
        if off + 92 ≤ d.size then do
          match ← check_header (d.data.read off 92) with
          | none => .ret none
          | some h =>
            match ← check_entries d g h with
            | none => .ret none
            | some buf => .ret (some (h, buf))
        else .hang
      else .ret none := by
  rw [copy_at]
  simp only [lseek64_eq]
  by_cases hseek : (g.lba_offset lba).toNat ≤ d.size
  · rw [if_pos hseek, if_pos hseek, Dev.get]
    by_cases hfit : (g.lba_offset lba).toNat + 92 ≤ d.size
    · rw [if_pos hfit, if_pos hfit, Exec.ret_bind]
    · rw [if_neg hfit, if_neg hfit, Exec.hang_bind]
  · rw [if_neg hseek, if_neg hseek]

/-- What it takes for a copy to be accepted, header and array. -/
theorem copy_at_eq_some {lba : UInt64} {h : GptHeader} {buf : List UInt8} :
    copy_at (ε := ε) d g lba = .ret (some (h, buf)) ↔
      (g.lba_offset lba).toNat + 92 ≤ d.size ∧
        check_header (ε := ε) (d.data.read (g.lba_offset lba).toNat 92) = .ret (some h) ∧
        check_entries (ε := ε) d g h = .ret (some buf) := by
  rw [copy_at_eq]
  simp only
  constructor
  · intro hcopy
    -- A copy that is accepted has passed each test, so only that branch is left.
    by_cases hseek : (g.lba_offset lba).toNat ≤ d.size
    swap
    · rw [if_neg hseek] at hcopy
      cases hcopy
    rw [if_pos hseek] at hcopy
    by_cases hfit : (g.lba_offset lba).toNat + 92 ≤ d.size
    swap
    · rw [if_neg hfit] at hcopy
      cases hcopy
    rw [if_pos hfit] at hcopy
    obtain ⟨o, hhead, hcopy⟩ := Exec.bind_eq_ret.mp hcopy
    cases o with
    | none => cases hcopy
    | some h' =>
      obtain ⟨o, harr, hcopy⟩ := Exec.bind_eq_ret.mp hcopy
      cases o with
      | none => cases hcopy
      | some buf' =>
        simp only [Exec.ret.injEq, Option.some.injEq, Prod.mk.injEq] at hcopy
        obtain ⟨rfl, rfl⟩ := hcopy
        exact ⟨hfit, hhead, harr⟩
  · rintro ⟨hfit, hhead, harr⟩
    rw [if_pos (by omega), if_pos hfit, hhead, Exec.ret_bind]
    simp only
    rw [harr, Exec.ret_bind]

/-- An array that is accepted is the one on the device, and has the checksum of its header. -/
theorem check_entries_eq_some {h : GptHeader} {buf : List UInt8} :
    check_entries (ε := ε) d g h = .ret (some buf) ↔
      (g.lba_offset h.pentry_start_lba).toNat + h.entries_size.toNat ≤ d.size ∧
        htole32 (Platform.crc32 (d.data.read (g.lba_offset h.pentry_start_lba).toNat
          h.entries_size.toNat)) = h.pentry_crc32 ∧
        h.Hold 56 ∧ buf = h.swapped (d.data.read (g.lba_offset h.pentry_start_lba).toNat
          h.entries_size.toNat) := by
  rw [check_entries_eq]
  simp only
  constructor
  · intro hsaid
    split_ifs at hsaid with hseek hfit hcrc hin
    · simp only [Exec.ret.injEq, Option.some.injEq] at hsaid
      exact ⟨hfit, hcrc, hin, hsaid.symm⟩
    · cases hsaid
    · cases hsaid
  · rintro ⟨hfit, hcrc, hin, rfl⟩
    rw [if_pos (by omega), if_pos hfit, if_pos hcrc, if_pos hin]

/-- A copy stays what it is on any device of that size that holds the same bytes
where it lies. -/
theorem copy_at_of_same {d' : Dev} {lba : UInt64} {h : GptHeader} {buf : List UInt8}
    (hcopy : copy_at (ε := ε) d g lba = .ret (some (h, buf))) (hsize : d'.size = d.size)
    (hread : d'.data.read (g.lba_offset lba).toNat 92 = d.data.read (g.lba_offset lba).toNat 92)
    (haread : d'.data.read (g.lba_offset h.pentry_start_lba).toNat h.entries_size.toNat
      = d.data.read (g.lba_offset h.pentry_start_lba).toNat h.entries_size.toNat) :
    copy_at (ε := ε) d' g lba = .ret (some (h, buf)) := by
  rw [copy_at_eq_some, check_entries_eq_some] at hcopy ⊢
  rw [hsize, hread, haread]
  exact hcopy

/-- Behind a protective MBR only the copies count. -/
theorem table_on_of_mbr (hsize : 450 < d.size) (htype : d.data 450 = 0xee) :
    table_on (ε := ε) d g = copy_at d g (g.copy_lba true) >>= fun
      | some copy => .ret (some copy)
      | none => copy_at d g (g.copy_lba false) := by
  have hseek : lseek64 d (0x1be + 0x4) = true := by
    rw [lseek64_eq]
    exact Nat.le_of_lt hsize
  have hread : (d.data.read 450 1).headD 0 = 0xee := by
    show d.data (450 + 0) = 0xee
    exact htype
  rw [table_on, if_pos hseek, Dev.get, if_pos (show 450 + 1 ≤ d.size by omega), Exec.ret_bind,
    if_neg (not_not.mpr hread)]

end Checks

/-! ## Every table that is accepted

Whatever the `read` calls do, a table `read_gpt_data` returns 0 for has an array
of the size the code computes with every slot inside it, and a header whose
checksum was taken inside the struct. -/

section Accepted

variable {ε : Type} [Platform] {d : Dev} {g₀ g : Gpt}

/-- What every table the library hands out satisfies. -/
structure Gpt.Sound (g : Gpt) : Prop extends g.Laid where
  sig : g.header.sig.toList = efi_part
  header_size_le : g.header.header_size.toNat ≤ 92

/-- Two tables for the same disk. -/
structure Gpt.SameDisk (g g₀ : Gpt) : Prop where
  lba_size : g.lba_size = g₀.lba_size
  sectors : g.sectors = g₀.sectors
  device : g.device = g₀.device

omit [Platform] in
theorem Gpt.SameDisk.refl (g : Gpt) : g.SameDisk g := ⟨rfl, rfl, rfl⟩

omit [Platform] in
theorem Gpt.SameDisk.trans {g₁ : Gpt} (h : g.SameDisk g₁) (h' : g₁.SameDisk g₀) :
    g.SameDisk g₀ :=
  ⟨h.1.trans h'.1, h.2.trans h'.2, h.3.trans h'.3⟩

/-- A header that passes has the signature and a `header_size` of 92 at most. -/
theorem read_gpt_header_sound {rs rs' : List IoRes} {primary : Bool} {r : Int}
    (h : read_gpt_header (ε := ε) d rs primary g₀ = .ret (r, g, rs')) (hr : 0 ≤ r) :
    (g.header.sig.toList = efi_part ∧ g.header.header_size.toNat ≤ 92) ∧
      ∃ hd, g = g₀.withHeader hd := by
  rw [read_gpt_header] at h
  by_cases hseek : lseek64 d (g₀.lba_offset (if primary then 1 else g₀.sectors - 1))
  · rw [if_pos hseek] at h
    obtain ⟨⟨ret, bytes, rs₁⟩, -, h⟩ := Exec.bind_eq_ret.mp h
    simp only at h
    by_cases hret : ret < 0
    · rw [if_pos hret] at h
      injection h with h
      injection h with h _
      exact absurd (h ▸ hr) (by decide)
    rw [if_neg hret] at h
    generalize GptHeader.codec.dec (splice (GptHeader.codec.enc g₀.header) 0 bytes) = hd at h
    simp only [withHeader_header] at h
    -- The tests come in the source's order, and each one that fails returns an error.
    by_cases hsig : hd.sig.toList = efi_part
    · simp only [hsig, ne_eq, not_true_eq_false, if_false] at h
      obtain ⟨crc, hcrc, h⟩ := Exec.bind_eq_ret.mp h
      by_cases hok : crc = hd.crc32
      · simp only [hok, not_true_eq_false, if_false] at h
        injection h with h
        injection h with _ h
        injection h with h _
        refine ⟨?_, gpt_header_bytes_to_host hd, h.symm⟩
        rw [← h]
        refine ⟨hsig, ?_⟩
        -- The checksum is over header_size bytes of a struct that has 92.
        by_contra hlong
        rw [get_header_crc32, if_neg (show ¬ (letoh32 hd.header_size).toNat ≤ 92 from hlong)] at hcrc
        cases hcrc
      · simp only [hok, not_false_eq_true, if_true] at h
        injection h with h
        injection h with h _
        exact absurd (h ▸ hr) (by decide)
    · simp only [hsig, ne_eq, not_false_eq_true, if_true] at h
      injection h with h
      injection h with h _
      exact absurd (h ▸ hr) (by decide)
  · rw [if_neg hseek] at h
    injection h with h
    injection h with h _
    rw [← h] at hr
    exact absurd hr (by decide)

omit [Platform] in
/-- `out_free` returns the error it was given. -/
theorem read_out_free_ret {rs rs' : List IoRes} {e r : Int}
    (h : read_out_free (ε := ε) e g₀ rs = .ret (r, g, rs')) : r = e := by
  obtain ⟨g₁, -, h⟩ := Exec.bind_eq_ret.mp h
  injection h with h
  injection h with h _
  exact h.symm

/-- An array that passes has the size the code computes. -/
theorem read_gpt_entries_sound {rs rs' : List IoRes} {r : Int}
    (h : read_gpt_entries (ε := ε) d rs g₀ = .ret (r, g, rs')) (hr : 0 ≤ r) :
    ∃ arr, g = g₀.withBuf arr ∧ arr.length = g₀.header.entries_size.toNat := by
  rw [read_gpt_entries] at h
  change (if lseek64 d (g₀.lba_offset g₀.header.pentry_start_lba) = true then _ else _) = _ at h
  by_cases hseek : lseek64 d (g₀.lba_offset g₀.header.pentry_start_lba)
  · rw [if_pos hseek] at h
    obtain ⟨⟨ret, bytes, rs₁⟩, hread, h⟩ := Exec.bind_eq_ret.mp h
    simp only at h
    by_cases hret : ret < 0
    · rw [if_pos hret] at h
      rw [read_out_free_ret h] at hr
      exact absurd hr (by decide)
    rw [if_neg hret] at h
    have hlen : bytes.length = g₀.header.entries_size.toNat := by
      have := robust_read_length hread (by omega)
      rwa [List.length_nil, Nat.zero_add] at this
    rw [withBuf_buf, splice_all (by rw [List.length_replicate, hlen])] at h
    obtain ⟨crc, -, h⟩ := Exec.bind_eq_ret.mp h
    split_ifs at h with hcrc
    · rw [read_out_free_ret h] at hr
      exact absurd hr (by decide)
    · injection h with h
      injection h with _ h
      injection h with h _
      exact ⟨bytes, h.symm, hlen⟩
  · rw [if_neg hseek] at h
    rw [read_out_free_ret h] at hr
    exact absurd hr (by decide)

omit [Platform] in
/-- Every step of reading leaves what the table says about the disk. -/
theorem read_out_free_same {rs rs' : List IoRes} {e r : Int}
    (h : read_out_free (ε := ε) e g₀ rs = .ret (r, g, rs')) : g.SameDisk g₀ := by
  obtain ⟨g₁, hfree, h⟩ := Exec.bind_eq_ret.mp h
  simp only [Exec.ret.injEq, Prod.mk.injEq] at h
  obtain ⟨-, rfl, -⟩ := h
  rw [Gpt.free_entries] at hfree
  split at hfree
  · injection hfree with hfree
    exact hfree ▸ ⟨rfl, rfl, rfl⟩
  · injection hfree with hfree
    exact hfree ▸ ⟨rfl, rfl, rfl⟩
  · cases hfree

theorem read_gpt_header_same {rs rs' : List IoRes} {primary : Bool} {r : Int}
    (h : read_gpt_header (ε := ε) d rs primary g₀ = .ret (r, g, rs')) : g.SameDisk g₀ := by
  rw [read_gpt_header] at h
  by_cases hseek : lseek64 d (g₀.lba_offset (if primary then 1 else g₀.sectors - 1))
  · rw [if_pos hseek] at h
    obtain ⟨⟨ret, bytes, rs₁⟩, -, h⟩ := Exec.bind_eq_ret.mp h
    simp only at h
    split_ifs at h with hret hsig
    · simp only [Exec.ret.injEq, Prod.mk.injEq] at h
      exact h.2.1 ▸ ⟨rfl, rfl, rfl⟩
    · simp only [Exec.ret.injEq, Prod.mk.injEq] at h
      exact h.2.1 ▸ ⟨rfl, rfl, rfl⟩
    · obtain ⟨crc, -, h⟩ := Exec.bind_eq_ret.mp h
      split_ifs at h
      · simp only [Exec.ret.injEq, Prod.mk.injEq] at h
        exact h.2.1 ▸ ⟨rfl, rfl, rfl⟩
      · simp only [Exec.ret.injEq, Prod.mk.injEq] at h
        exact h.2.1 ▸ ⟨rfl, rfl, rfl⟩
  · rw [if_neg hseek] at h
    simp only [Exec.ret.injEq, Prod.mk.injEq] at h
    exact h.2.1 ▸ ⟨rfl, rfl, rfl⟩

theorem read_gpt_entries_same {rs rs' : List IoRes} {r : Int}
    (h : read_gpt_entries (ε := ε) d rs g₀ = .ret (r, g, rs')) : g.SameDisk g₀ := by
  rw [read_gpt_entries] at h
  change (if lseek64 d (g₀.lba_offset g₀.header.pentry_start_lba) = true then _ else _) = _ at h
  by_cases hseek : lseek64 d (g₀.lba_offset g₀.header.pentry_start_lba)
  · rw [if_pos hseek] at h
    obtain ⟨⟨ret, bytes, rs₁⟩, -, h⟩ := Exec.bind_eq_ret.mp h
    simp only at h
    split_ifs at h with hret
    · exact (read_out_free_same h).trans ⟨rfl, rfl, rfl⟩
    · obtain ⟨crc, -, h⟩ := Exec.bind_eq_ret.mp h
      split_ifs at h
      · exact (read_out_free_same h).trans ⟨rfl, rfl, rfl⟩
      · simp only [Exec.ret.injEq, Prod.mk.injEq] at h
        exact h.2.1 ▸ ⟨rfl, rfl, rfl⟩
  · rw [if_neg hseek] at h
    exact (read_out_free_same h).trans ⟨rfl, rfl, rfl⟩

/-- **A table `read_gpt_data` accepts is sound.** -/
theorem read_gpt_data_sound {rs rs' : List IoRes} {primary : Bool} {r : Int}
    (h : read_gpt_data (ε := ε) d rs primary g₀ = .ret (r, g, rs')) (hr : 0 ≤ r) :
    g.Sound ∧ g.SameDisk g₀ := by
  obtain ⟨⟨r₁, g₁, rs₁⟩, hhead, h⟩ := Exec.bind_eq_ret.mp h
  simp only at h
  split_ifs at h with hr₁
  · simp only [Exec.ret.injEq, Prod.mk.injEq] at h
    omega
  obtain ⟨hsize, hd, rfl⟩ := read_gpt_header_sound hhead (by omega)
  obtain ⟨⟨r₂, g₂, rs₂⟩, harr, h⟩ := Exec.bind_eq_ret.mp h
  simp only at h
  split_ifs at h with hr₂
  · simp only [Exec.ret.injEq, Prod.mk.injEq] at h
    omega
  obtain ⟨arr, rfl, hlen⟩ := read_gpt_entries_sound harr (by omega)
  obtain ⟨g₃, hswap, h⟩ := Exec.bind_eq_ret.mp h
  simp only [Exec.ret.injEq, Prod.mk.injEq] at h
  obtain ⟨-, rfl, -⟩ := h
  -- the loop over the slots came to its end, so the fields of every entry are inside the array
  by_cases hin : hd.Hold 56
  · have hmap : ((g₀.withHeader hd).withBuf arr).Laid := ⟨rfl, hlen, hin⟩
    rw [gpt_entries_bytes_to_host, for_each_slot_eq hmap] at hswap
    injection hswap with hswap
    subst hswap
    exact ⟨⟨modifyAll_laid hmap _, hsize.1, hsize.2⟩, ⟨rfl, rfl, rfl⟩⟩
  · rw [gpt_entries_bytes_to_host, for_each_slot_fault (g := (g₀.withHeader hd).withBuf arr) rfl
      hlen hin] at hswap
    cases hswap

/-- And so does reading a copy. -/
theorem read_gpt_data_same {rs rs' : List IoRes} {primary : Bool} {r : Int}
    (h : read_gpt_data (ε := ε) d rs primary g₀ = .ret (r, g, rs')) : g.SameDisk g₀ := by
  by_cases hr : 0 ≤ r
  · exact (read_gpt_data_sound h hr).2
  obtain ⟨⟨r₁, g₁, rs₁⟩, hhead, h⟩ := Exec.bind_eq_ret.mp h
  simp only at h
  split_ifs at h with hr₁
  · simp only [Exec.ret.injEq, Prod.mk.injEq] at h
    exact h.2.1 ▸ read_gpt_header_same hhead
  obtain ⟨⟨r₂, g₂, rs₂⟩, harr, h⟩ := Exec.bind_eq_ret.mp h
  simp only at h
  split_ifs at h with hr₂
  · simp only [Exec.ret.injEq, Prod.mk.injEq] at h
    exact h.2.1 ▸ (read_gpt_entries_same harr).trans (read_gpt_header_same hhead)
  obtain ⟨g₃, -, h⟩ := Exec.bind_eq_ret.mp h
  simp only [Exec.ret.injEq, Prod.mk.injEq] at h
  omega

/-- **A table `gpt_read` accepts is sound**, whatever the `read` calls did. -/
theorem gpt_read_sound {rs rs' : List IoRes}
    (h : gpt_read (ε := ε) d rs g₀ = .ret (0, g, rs')) : g.Sound ∧ g.SameDisk g₀ := by
  rw [gpt_read] at h
  by_cases hseek : lseek64 d (0x1be + 0x4)
  · rw [if_pos hseek] at h
    obtain ⟨⟨ret, bytes, rs₁⟩, -, h⟩ := Exec.bind_eq_ret.mp h
    simp only at h
    split_ifs at h with hret htype
    · simp only [Exec.ret.injEq, Prod.mk.injEq] at h
      exact absurd h.1 (by decide)
    · simp only [Exec.ret.injEq, Prod.mk.injEq] at h
      exact absurd h.1 (by decide)
    obtain ⟨⟨r₁, g₁, rs₂⟩, hprim, h⟩ := Exec.bind_eq_ret.mp h
    simp only at h
    -- The backup is read when the primary one has failed.
    split_ifs at h with hr₁
    · obtain ⟨⟨r₂, g₂, rs₃⟩, hback, h⟩ := Exec.bind_eq_ret.mp h
      simp only at h
      split_ifs at h with hr₂
      · simp only [Exec.ret.injEq, Prod.mk.injEq] at h
        exact absurd h.1 (by decide)
      · simp only [Exec.ret.injEq, Prod.mk.injEq] at h
        obtain ⟨-, rfl, -⟩ := h
        have hsound := read_gpt_data_sound hback (by omega)
        exact ⟨hsound.1, hsound.2.trans (read_gpt_data_same hprim)⟩
    · simp only [Exec.ret.injEq, Prod.mk.injEq] at h
      obtain ⟨-, rfl, -⟩ := h
      exact read_gpt_data_sound hprim (by omega)
  · rw [if_neg hseek] at h
    simp only [Exec.ret.injEq, Prod.mk.injEq] at h
    exact absurd h.1 (by decide)

end Accepted

end Iago
