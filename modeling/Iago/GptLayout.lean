/-
Where a new table's metadata lives, once according to `gpt_new` and once
according to `gpt_write`.

`gpt_new` keeps `1 + num_pentries * pentry_size / lba_size` sectors free at each
end of the disk; `gpt_write` puts the primary copy at LBA 1 and 2 and works out
the place of the backup copy from the last LBA. The two agree on every disk
where both can be carried out in unsigned arithmetic: one with sectors of at
least 512 bytes, with room for two copies, and with at most `2 ^ 64` bytes
(`layout_safe_iff`). Neither function checks any of this.

What is written outside the five places is nothing, whatever the `write` calls do
short of being interrupted (`gpt_write_within`): an interrupted call makes
`robust_write` ask for one byte more than there is.
-/
import Iago.GptRoundTrip

set_option autoImplicit false

namespace Iago

/-! ## Calls that are not interrupted -/

section Within

variable {ε : Type}

/-- Calls none of which is interrupted. -/
structure Io.Quiet (io : Io) : Prop where
  eintr : io.eintr = false
  rs : .eintr ∉ io.rs

/-- Nothing outside the `n` bytes at `off` has changed. -/
def Io.Within (io : Io) (off n : ℕ) (io' : Io) : Prop :=
  ∀ p, p < off ∨ off + n ≤ p → io'.dev.data p = io.dev.data p

/-- One call of `robust_write`: it fails, or it transfers between one and `count`
bytes and says how many. -/
theorem write_call_within {r : IoRes} {rs : List IoRes} {buf : List UInt8} {io io' : Io}
    {pos count n : ℕ} {ret : Int} (hr : r ≠ .eintr) (hq : io.eintr = false)
    (hcount : count < 2 ^ 32) (h : write_call r rs buf io pos count = (ret, n, io')) :
    (io'.eintr = false ∧ io'.rs = rs) ∧ n ≤ count ∧ io.Within pos n io' ∧ (0 < ret → ret = n) := by
  rw [write_call, if_neg hr] at h
  split_ifs at h with hfail
  · simp only [Prod.mk.injEq] at h
    obtain ⟨rfl, rfl, rfl⟩ := h
    exact ⟨⟨rfl, rfl⟩, Nat.zero_le _, fun _ _ => rfl, fun h => absurd h (by decide)⟩
  · simp only [Prod.mk.injEq] at h
    obtain ⟨rfl, rfl, rfl⟩ := h
    have hle := r.amount_le (min count (io.dev.size - pos))
    have hlen : (buf.take (r.amount (min count (io.dev.size - pos)))).length
      ≤ r.amount (min count (io.dev.size - pos)) := by
      rw [List.length_take]
      exact Nat.min_le_left _ _
    refine ⟨⟨hq, rfl⟩, by omega, fun p hp => Store.write_apply_of_outside (by omega), fun hpos => ?_⟩
    by_cases hint : r.amount (min count (io.dev.size - pos)) < 2 ^ 31
    · exact toInt32_of_lt hint
    · have := toInt32_neg (n := r.amount (min count (io.dev.size - pos))) (by omega) (by omega)
      omega

/-- `robust_write` stays inside the stretch it was asked to write. -/
theorem robust_write_within {buf : List UInt8} {rs : List IoRes} {io io' : Io} {pos count : ℕ}
    {w ret : Int} (hrs : .eintr ∉ rs) (hq : io.eintr = false) (hcount : count < 2 ^ 32)
    (h : robust_write (ε := ε) buf rs io pos count w = .ret (ret, io')) :
    io'.Quiet ∧ io.Within pos count io' := by
  induction rs generalizing io pos count w with
  | nil =>
    cases count with
    | zero =>
      rw [robust_write] at h
      simp only [Exec.ret.injEq, Prod.mk.injEq] at h
      obtain ⟨-, rfl⟩ := h
      exact ⟨⟨hq, hrs⟩, fun _ _ => rfl⟩
    | succ count =>
      rw [robust_write] at h
      cases h
  | cons r rs ih =>
    cases count with
    | zero =>
      rw [robust_write] at h
      simp only [Exec.ret.injEq, Prod.mk.injEq] at h
      obtain ⟨-, rfl⟩ := h
      exact ⟨⟨hq, hrs⟩, fun _ _ => rfl⟩
    | succ count =>
      have hrs' : .eintr ∉ rs := fun h => hrs (List.mem_cons_of_mem _ h)
      have hr : r ≠ .eintr := fun h => hrs (by rw [h]; exact List.mem_cons_self)
      rw [robust_write] at h
      by_cases hbuf : buf.length < count + 1
      · rw [if_pos hbuf] at h
        cases h
      rw [if_neg hbuf] at h
      rcases hcall : write_call r rs buf io pos (count + 1) with ⟨ret₁, n, io₁⟩
      rw [hcall] at h
      obtain ⟨⟨hq₁, hrs₁⟩, hn, hin₁, hret⟩ := write_call_within hr hq hcount hcall
      simp only at h
      by_cases hfail : ret₁ ≤ 0
      · rw [if_pos ⟨hfail, hq₁⟩] at h
        simp only [Exec.ret.injEq, Prod.mk.injEq] at h
        obtain ⟨-, rfl⟩ := h
        exact ⟨⟨hq₁, by rw [hrs₁]; exact hrs'⟩, fun p hp => hin₁ p (by omega)⟩
      · rw [if_neg fun hc => hfail hc.1] at h
        -- the rest is written behind what this call has written
        have hrest : (((count + 1 : ℕ) : Int) - ret₁).toNat = count + 1 - n := by
          rw [hret (by omega)]
          omega
        rw [hrest] at h
        obtain ⟨hq', hin'⟩ := ih hrs' hq₁ (by omega) h
        exact ⟨hq', fun p hp => (hin' p (by omega)).trans (hin₁ p (by omega))⟩

/-- A buffer is written where it should be, whatever becomes of the calls. -/
theorem write_at_within [Platform] {io io' : Io} {off : UInt64} {b : Buffer} {buf : List UInt8} {count : ℕ} {ret : Int}
    (hq : io.Quiet) (hcount : count < 2 ^ 32)
    (h : write_at (ε := ε) io off b buf count = .ret (ret, io')) :
    io'.Quiet ∧ io.Within off.toNat count io' := by
  rw [write_at] at h
  by_cases hseek : lseek64 io.dev off
  · rw [if_pos hseek] at h
    obtain ⟨⟨ret₁, io₁⟩, hwrite, h⟩ := Exec.bind_eq_ret.mp h
    have hin := robust_write_within hq.rs hq.eintr hcount hwrite
    simp only at h
    split_ifs at h
    · simp only [Exec.ret.injEq, Prod.mk.injEq] at h
      exact h.2 ▸ hin
    · simp only [Exec.ret.injEq, Prod.mk.injEq] at h
      exact h.2 ▸ hin
  · rw [if_neg hseek] at h
    simp only [Exec.ret.injEq, Prod.mk.injEq] at h
    exact h.2 ▸ ⟨hq, fun _ _ => rfl⟩

end Within

/-! ## The five places -/

section Ranges

variable {ε : Type} [Platform] {g : Gpt}

/-- The byte ranges `gpt_write` writes, each an offset and a length, as the code
computes them: header and array of the primary copy, header and array of the
backup copy, and the MBR from byte 440 on. -/
def write_ranges (g : Gpt) : List (ℕ × ℕ) :=
  [((g.lba_offset 1).toNat, 92), ((g.lba_offset 2).toNat, g.header.entries_size.toNat),
    ((g.lba_offset (g.sectors - 1)).toNat, 92),
    ((g.lba_offset (backup_header g).pentry_start_lba).toNat, g.header.entries_size.toNat),
    (440, 72)]

theorem write_gpt_to_disk_within {io io' : Io} {primary : Bool} {ret : Int} (hg : g.Sound) (hq : io.Quiet)
    (h : write_gpt_to_disk (ε := ε) io primary g = .ret (ret, io')) :
    io'.Quiet ∧ ∀ p,
      (p < (g.lba_offset g.header.current_lba).toNat ∨
        (g.lba_offset g.header.current_lba).toNat + 92 ≤ p) →
      (p < (g.lba_offset g.header.pentry_start_lba).toNat ∨
        (g.lba_offset g.header.pentry_start_lba).toNat + g.header.entries_size.toNat ≤ p) →
      io'.dev.data p = io.dev.data p := by
  have hlt := g.header.entries_size.toNat_lt
  rw [write_gpt_to_disk, swap_and_checksum_eq hg, Exec.ret_bind] at h
  obtain ⟨⟨ret₁, io₁⟩, hhead, h⟩ := Exec.bind_eq_ret.mp h
  obtain ⟨hq₁, hin₁⟩ := write_at_within hq (by decide) hhead
  simp only at h
  split_ifs at h
  · simp only [Exec.ret.injEq, Prod.mk.injEq] at h
    obtain ⟨-, rfl⟩ := h
    exact ⟨hq₁, fun p hp _ => hin₁ p hp⟩
  · obtain ⟨hq₂, hin₂⟩ := write_at_within hq₁ hlt h
    exact ⟨hq₂, fun p hp hp' => (hin₂ p hp').trans (hin₁ p hp)⟩

/-- **`gpt_write` writes nowhere else**, whether it returns 0 or not. -/
theorem gpt_write_within {io io' : Io} {g' : Gpt} {ret : Int} (hg : g.Sound) (hq : io.Quiet)
    (h : gpt_write (ε := ε) io g = .ret (ret, g', io')) {p : ℕ}
    (hp : ∀ w ∈ write_ranges g, p < w.1 ∨ w.1 + w.2 ≤ p) :
    io'.dev.data p = io.dev.data p := by
  simp only [write_ranges, List.forall_mem_cons, List.not_mem_nil, false_imp_iff, implies_true,
    and_true] at hp
  obtain ⟨hp1, hp2, hp3, hp4, hp5⟩ := hp
  rw [gpt_write, gpt_copy_eq hg.toLaid, Exec.ret_bind] at h
  obtain ⟨⟨ret₁, io₁⟩, hprim, h⟩ := Exec.bind_eq_ret.mp h
  obtain ⟨hq₁, hin₁⟩ := write_gpt_to_disk_within (primary_sound hg) hq hprim
  have hsame₁ := hin₁ p hp1 hp2
  simp only at h
  -- Wherever it stops, what has been written so far lies in the ranges of its parts.
  split_ifs at h with hret₁
  · simp only [Exec.ret.injEq, Prod.mk.injEq] at h
    obtain ⟨-, -, rfl⟩ := h
    exact hsame₁
  rw [Exec.ret_bind] at h
  split_ifs at h with hL
  obtain ⟨⟨ret₂, io₂⟩, hback, h⟩ := Exec.bind_eq_ret.mp h
  obtain ⟨hq₂, hin₂⟩ := write_gpt_to_disk_within (backup_sound hg) hq₁ hback
  have hsame₂ := hin₂ p hp3 hp4
  simp only at h
  split_ifs at h with hret₂
  · simp only [Exec.ret.injEq, Prod.mk.injEq] at h
    obtain ⟨-, -, rfl⟩ := h
    exact hsame₂.trans hsame₁
  obtain ⟨⟨ret₃, io₃⟩, hmbr, h⟩ := Exec.bind_eq_ret.mp h
  obtain ⟨-, hin₃⟩ := write_at_within hq₂ (by decide) hmbr
  have hsame₃ := hin₃ p hp5
  simp only at h
  split_ifs at h
  · simp only [Exec.ret.injEq, Prod.mk.injEq] at h
    obtain ⟨-, -, rfl⟩ := h
    exact hsame₃.trans (hsame₂.trans hsame₁)
  · simp only [Exec.ret.injEq, Prod.mk.injEq] at h
    obtain ⟨-, -, rfl⟩ := h
    exact hsame₃.trans (hsame₂.trans hsame₁)

/-! ## The layout of a new table -/

/-- Two byte ranges, neither empty, without a byte in common. -/
def RangesApart (r r' : ℕ × ℕ) : Prop := r.1 + r.2 ≤ r'.1 ∨ r'.1 + r'.2 ≤ r.1

/-- The usable area, in bytes. -/
def usable_area (g : Gpt) : ℕ × ℕ :=
  (g.header.first_usable_lba.toNat * g.lba_size.toNat,
    (g.header.last_usable_lba.toNat + 1 - g.header.first_usable_lba.toNat) * g.lba_size.toNat)

/-- **`gpt_new` and `gpt_write` agree on where metadata lives**: there is a usable
range on the disk, the five ranges `gpt_write` writes are apart from one another,
on the disk, and apart from the usable area and the boot code; so these come
through any `gpt_write` unchanged. -/
structure LayoutSafe (g : Gpt) : Prop where
  usable : g.header.first_usable_lba ≤ g.header.last_usable_lba
  last : g.header.last_usable_lba < g.sectors
  disjoint : (write_ranges g).Pairwise RangesApart
  inside : ∀ w ∈ write_ranges g, w.1 + w.2 ≤ g.sectors.toNat * g.lba_size.toNat
  apart : ∀ w ∈ write_ranges g, RangesApart w (usable_area g)
  boot : ∀ w ∈ write_ranges g, RangesApart w (0, 440)
  unchanged : ∀ (io io' : Io) (g' : Gpt) (ret : Int), io.Quiet →
    gpt_write (ε := Empty) io g = .ret (ret, g', io') → ∀ p,
      p < 440 ∨ (usable_area g).1 ≤ p ∧ p < (usable_area g).1 + (usable_area g).2 →
      io'.dev.data p = io.dev.data p

/-- What `gpt_new` computes, in plain numbers. -/
structure NewTable (g₀ g : Gpt) : Prop where
  lba_size : g.lba_size = g₀.lba_size
  sectors : g.sectors = g₀.sectors
  entries_size : g.header.entries_size.toNat = 16384
  first_usable : g.header.first_usable_lba.toNat = 2 + 16384 / g₀.lba_size.toNat
  last_usable : g.header.last_usable_lba.toNat
    = (2 ^ 64 + g₀.sectors.toNat - (2 + 16384 / g₀.lba_size.toNat)) % 2 ^ 64
  entries : g.entries = .live (List.replicate 16384 0)

/-- What a new table says. -/
theorem gpt_new_table {g₀ : Gpt} {r r' : Urandom}
    (h : gpt_new (ε := ε) g₀ r = .ret (0, g, r')) : NewTable g₀ g := by
  obtain ⟨-, uuid, -, rfl⟩ := gpt_new_ret h
  have hq : 16384 / g₀.lba_size.toNat ≤ 16384 := Nat.div_le_self _ _
  have hsz : ((1 + 128 * 128 / g₀.lba_size : UInt32).toUInt64).toNat
      = 1 + 16384 / g₀.lba_size.toNat := by
    rw [UInt32.toNat_toUInt64, UInt32.toNat_add, UInt32.toNat_div]
    exact Nat.mod_eq_of_lt (Nat.lt_of_le_of_lt (Nat.add_le_add_left hq 1) (by decide))
  have hfirst : (new_table_header g₀ uuid).first_usable_lba.toNat
      = 2 + 16384 / g₀.lba_size.toNat := by
    rw [new_table_header, UInt64.toNat_add, hsz, UInt64.toNat_one]
    omega
  have hentries : (new_table_header g₀ uuid).entries_size.toNat = 16384 := by
    show (128 * 128 : UInt32).toNat = 16384
    decide
  refine ⟨rfl, rfl, hentries, hfirst, ?_, rfl⟩
  show (g₀.sectors - (new_table_header g₀ uuid).first_usable_lba).toNat = _
  have hS := g₀.sectors.toNat_lt
  rw [UInt64.toNat_sub, hfirst]
  omega

/-- No slot of a new table is in use: a first LBA of zero bytes is 0 in either order. -/
theorem not_inUse_new_table {g₀ : Gpt} {uuid : Guid} (i : UInt32) :
    ¬ (new_table g₀ uuid).InUse i := by
  rintro ⟨hi, hfirst⟩
  have hfit := gpt_entry_offset_fits (new_table_mapped g₀ uuid) hi
  have hbuf : (new_table g₀ uuid).buf = List.replicate (128 * 128) (0 : UInt8) := rfl
  rw [hbuf, List.length_replicate] at hfit
  have hslot : slice (List.replicate (128 * 128) (0 : UInt8))
      (gpt_entry_offset i (new_table g₀ uuid)).toNat 128 = List.replicate 128 0 := by
    rw [slice, List.drop_replicate, List.take_replicate, Nat.min_eq_left (by omega)]
  have hzero : leVal (hostOrder (List.replicate 8 (0 : UInt8))) = 0 := by
    unfold hostOrder
    cases Platform.endian with
    | little => decide
    | big => decide
  refine hfirst ?_
  rw [Gpt.entry, hbuf, hslot, GptEntry.dec_eq List.length_replicate]
  show UInt64.ofNat (leVal (hostOrder (List.replicate 8 (0 : UInt8)))) = 0
  rw [hzero]
  rfl

/-! ## When the two agree -/

namespace NewTable

variable {g₀ : Gpt}

omit [Platform] in
/-- The five ranges in plain numbers: the backup copy is found by going back from
the last LBA, modulo `2 ^ 64`. -/
theorem write_ranges_eq (hnew : NewTable g₀ g) (hdvd : g₀.lba_size.toNat ∣ 16384) :
    write_ranges g = [(g₀.lba_size.toNat, 92), (2 * g₀.lba_size.toNat, 16384),
      ((2 ^ 64 + g₀.sectors.toNat - 1) * g₀.lba_size.toNat % 2 ^ 64, 92),
      (((2 ^ 64 + g₀.sectors.toNat - 1) * g₀.lba_size.toNat + 2 ^ 64 - 16384) % 2 ^ 64, 16384),
      (440, 72)] := by
  have hpos : 0 < g₀.lba_size.toNat := Nat.pos_of_dvd_of_pos hdvd (by decide)
  obtain ⟨q, hq⟩ := hdvd
  have hquot : 16384 / g₀.lba_size.toNat = q := by
    rw [hq, Nat.mul_div_cancel_left q hpos]
  have hqle : q ≤ 16384 := hquot ▸ Nat.div_le_self _ _
  have hL := g₀.lba_size.toNat_lt
  have hS := g₀.sectors.toNat_lt
  have hoff (lba : UInt64) :
      (g.lba_offset lba).toNat = lba.toNat * g₀.lba_size.toNat % 2 ^ 64 := by
    rw [Gpt.lba_offset, UInt64.toNat_mul, UInt32.toNat_toUInt64, hnew.lba_size]
  have hlast : (g.sectors - 1).toNat = (2 ^ 64 + g₀.sectors.toNat - 1) % 2 ^ 64 := by
    rw [UInt64.toNat_sub, hnew.sectors, UInt64.toNat_one]
    congr 1
    omega
  have hstart : (backup_header g).pentry_start_lba.toNat
      = (2 ^ 64 + g₀.sectors.toNat - 1 + 2 ^ 64 - q) % 2 ^ 64 := by
    show (g.sectors - 1 - g.header.entries_size.toUInt64 / g.lba_size.toUInt64).toNat = _
    rw [UInt64.toNat_sub, hlast, UInt64.toNat_div, UInt32.toNat_toUInt64, UInt32.toNat_toUInt64,
      hnew.entries_size, hnew.lba_size, hquot]
    omega
  -- going back `q` sectors is going back 16384 bytes
  have hback : (2 ^ 64 + g₀.sectors.toNat - 1 + 2 ^ 64 - q) * g₀.lba_size.toNat % 2 ^ 64
      = ((2 ^ 64 + g₀.sectors.toNat - 1) * g₀.lba_size.toNat + 2 ^ 64 - 16384) % 2 ^ 64 := by
    have hsum : (2 ^ 64 + g₀.sectors.toNat - 1 + 2 ^ 64 - q) * g₀.lba_size.toNat + 16384
        = (2 ^ 64 + g₀.sectors.toNat - 1) * g₀.lba_size.toNat
          + 2 ^ 64 * g₀.lba_size.toNat := by
      rw [hq, Nat.mul_comm g₀.lba_size.toNat q, ← Nat.add_mul, ← Nat.add_mul]
      congr 1
      omega
    generalize (2 ^ 64 + g₀.sectors.toNat - 1 + 2 ^ 64 - q) * g₀.lba_size.toNat = x at *
    generalize (2 ^ 64 + g₀.sectors.toNat - 1) * g₀.lba_size.toNat = y at *
    omega
  rw [write_ranges, hoff, hoff, hoff, hoff, hlast, hstart, hnew.entries_size, Nat.mod_mul_mod,
    Nat.mod_mul_mod, hback]
  show [(1 * g₀.lba_size.toNat % 2 ^ 64, 92), (2 * g₀.lba_size.toNat % 2 ^ 64, 16384), _, _, _] = _
  rw [Nat.mod_eq_of_lt (by omega), Nat.mod_eq_of_lt (by omega), Nat.one_mul]

omit [Platform] in
/-- A usable range that is one keeps `2 * (2 + 16384 / lba_size)` sectors for the
two copies. -/
theorem room_of_usable (hnew : NewTable g₀ g)
    (husable : g.header.first_usable_lba ≤ g.header.last_usable_lba)
    (hlast : g.header.last_usable_lba < g.sectors) :
    2 * (2 + 16384 / g₀.lba_size.toNat) ≤ g₀.sectors.toNat := by
  have hle := UInt64.le_iff_toNat_le.mp husable
  have hlt := UInt64.lt_iff_toNat_lt.mp hlast
  have hS := g₀.sectors.toNat_lt
  have hq : 16384 / g₀.lba_size.toNat ≤ 16384 := Nat.div_le_self _ _
  rw [hnew.first_usable, hnew.last_usable] at hle
  rw [hnew.last_usable, hnew.sectors] at hlt
  omega

omit [Platform] in
/-- The usable area ends in front of the backup array. -/
theorem last_usable_of_room (hnew : NewTable g₀ g)
    (hroom : 2 * (2 + 16384 / g₀.lba_size.toNat) ≤ g₀.sectors.toNat) :
    g.header.last_usable_lba.toNat + (2 + 16384 / g₀.lba_size.toNat) = g₀.sectors.toNat := by
  have hS := g₀.sectors.toNat_lt
  rw [hnew.last_usable]
  omega

omit [Platform] in
/-- The usable area starts behind the primary array and ends where the backup
array starts. -/
theorem usable_area_eq (hnew : NewTable g₀ g) (hdvd : g₀.lba_size.toNat ∣ 16384)
    (hroom : 2 * (2 + 16384 / g₀.lba_size.toNat) ≤ g₀.sectors.toNat) :
    (usable_area g).1 = 2 * g₀.lba_size.toNat + 16384 ∧
      (usable_area g).1 + (usable_area g).2 + g₀.lba_size.toNat + 16384
        = g₀.sectors.toNat * g₀.lba_size.toNat := by
  have hmul := Nat.div_mul_cancel hdvd
  have hlast := hnew.last_usable_of_room hroom
  have hstart : (2 + 16384 / g₀.lba_size.toNat) * g₀.lba_size.toNat
      = 2 * g₀.lba_size.toNat + 16384 := by
    rw [Nat.add_mul, hmul]
  refine ⟨?_, ?_⟩
  · show g.header.first_usable_lba.toNat * g.lba_size.toNat = _
    rw [hnew.first_usable, hnew.lba_size, hstart]
  · show g.header.first_usable_lba.toNat * g.lba_size.toNat
      + (g.header.last_usable_lba.toNat + 1 - g.header.first_usable_lba.toNat) * g.lba_size.toNat
      + g₀.lba_size.toNat + 16384 = _
    rw [hnew.lba_size, ← Nat.add_mul, hnew.first_usable]
    have hsum : 2 + 16384 / g₀.lba_size.toNat
          + (g.header.last_usable_lba.toNat + 1 - (2 + 16384 / g₀.lba_size.toNat)) + 1
          + 16384 / g₀.lba_size.toNat = g₀.sectors.toNat := by
      omega
    rw [← hsum, Nat.add_mul _ (16384 / g₀.lba_size.toNat), hmul, Nat.add_mul _ 1, Nat.one_mul]

omit [Platform] in
/-- On a disk of more than `2 ^ 64` bytes the backup header is written where its
byte offset wraps to, which is a place that is taken: the boot code, the primary
copy or the usable area. -/
theorem bytes_le_of_apart (hnew : NewTable g₀ g) (hdvd : g₀.lba_size.toNat ∣ 16384)
    (hroom : 2 * (2 + 16384 / g₀.lba_size.toNat) ≤ g₀.sectors.toNat)
    (hdisjoint : (write_ranges g).Pairwise RangesApart)
    (hapart : ∀ w ∈ write_ranges g, RangesApart w (usable_area g))
    (hboot : ∀ w ∈ write_ranges g, RangesApart w (0, 440)) :
    g₀.sectors.toNat * g₀.lba_size.toNat ≤ 2 ^ 64 := by
  rw [hnew.write_ranges_eq hdvd] at hdisjoint hapart hboot
  obtain ⟨hfirst, hend⟩ := hnew.usable_area_eq hdvd hroom
  have hL : g₀.lba_size.toNat ≤ 16384 := Nat.le_of_dvd (by decide) hdvd
  have hpow : g₀.lba_size.toNat ∣ 2 ^ 64 := hdvd.trans (by decide)
  have hone : 1 ≤ g₀.sectors.toNat := by
    generalize 16384 / g₀.lba_size.toNat = q at hroom
    omega
  have hlast : (2 ^ 64 + g₀.sectors.toNat - 1) * g₀.lba_size.toNat % 2 ^ 64
      = (g₀.sectors.toNat - 1) * g₀.lba_size.toNat % 2 ^ 64 := by
    rw [Nat.add_sub_assoc hone, Nat.add_mul, Nat.mul_add_mod]
  -- the place the offset wraps to is a multiple of the sector size
  obtain ⟨k, hk⟩ : g₀.lba_size.toNat ∣ (g₀.sectors.toNat - 1) * g₀.lba_size.toNat % 2 ^ 64 :=
    (Nat.dvd_mod_iff hpow).mpr (Nat.dvd_mul_left _ _)
  have hsum : (g₀.sectors.toNat - 1) * g₀.lba_size.toNat + g₀.lba_size.toNat
      = g₀.sectors.toNat * g₀.lba_size.toNat := by
    rw [← Nat.succ_mul, Nat.succ_eq_add_one, Nat.sub_add_cancel hone]
  rw [hlast] at hdisjoint hapart hboot
  have hbackup := hapart _ (List.mem_cons_of_mem _ (List.mem_cons_of_mem _ List.mem_cons_self))
  have hcode := hboot _ (List.mem_cons_of_mem _ (List.mem_cons_of_mem _ List.mem_cons_self))
  simp only [List.pairwise_cons, List.mem_cons, forall_eq_or_imp, RangesApart] at hdisjoint
  obtain ⟨⟨-, hprimary, -⟩, ⟨harray, -⟩, -⟩ := hdisjoint
  simp only [RangesApart] at hbackup hcode
  by_contra hover
  have hwrap : 2 ^ 64 ≤ (g₀.sectors.toNat - 1) * g₀.lba_size.toNat := by
    have hgap : g₀.lba_size.toNat ∣ g₀.sectors.toNat * g₀.lba_size.toNat - 2 ^ 64 :=
      Nat.dvd_sub (Nat.dvd_mul_left _ _) hpow
    have := Nat.le_of_dvd (by omega) hgap
    omega
  have hplace := Nat.div_add_mod ((g₀.sectors.toNat - 1) * g₀.lba_size.toNat) (2 ^ 64)
  have hlap : 1 ≤ (g₀.sectors.toNat - 1) * g₀.lba_size.toNat / 2 ^ 64 :=
    (Nat.le_div_iff_mul_le (by decide)).mpr (by omega)
  rw [hk] at hprimary harray hbackup hcode hplace
  rcases k with _ | _ | k
  · omega
  · omega
  · have hsecond : 2 * g₀.lba_size.toNat ≤ g₀.lba_size.toNat * (k + 1 + 1) := by
      rw [Nat.mul_comm]
      exact Nat.mul_le_mul_left _ (by omega)
    omega

/-- **Where `gpt_new` and `gpt_write` agree.** -/
theorem layout_safe (hnew : NewTable g₀ g) (hsound : g.Sound) (hdvd : g₀.lba_size.toNat ∣ 16384)
    (hsize : 512 ≤ g₀.lba_size.toNat)
    (hroom : 2 * (2 + 16384 / g₀.lba_size.toNat) ≤ g₀.sectors.toNat)
    (hbytes : g₀.sectors.toNat * g₀.lba_size.toNat ≤ 2 ^ 64) : LayoutSafe g := by
  have hranges := hnew.write_ranges_eq hdvd
  obtain ⟨hfirst, hend⟩ := hnew.usable_area_eq hdvd hroom
  have hlast := hnew.last_usable_of_room hroom
  have hS := g₀.sectors.toNat_lt
  have hprod : (2 ^ 64 + g₀.sectors.toNat - 1) * g₀.lba_size.toNat + g₀.lba_size.toNat
      = 2 ^ 64 * g₀.lba_size.toNat + g₀.sectors.toNat * g₀.lba_size.toNat := by
    rw [← Nat.succ_mul, Nat.succ_eq_add_one, Nat.sub_add_cancel (by omega), Nat.add_mul]
  have hfirst_lba := hnew.first_usable
  have hdisk : g.sectors.toNat * g.lba_size.toNat = g₀.sectors.toNat * g₀.lba_size.toNat := by
    rw [hnew.sectors, hnew.lba_size]
  generalize 16384 / g₀.lba_size.toNat = q at *
  generalize (2 ^ 64 + g₀.sectors.toNat - 1) * g₀.lba_size.toNat = b at *
  generalize g₀.sectors.toNat * g₀.lba_size.toNat = x at *
  -- neither offset of the backup copy wraps
  have hhead : b % 2 ^ 64 = x - g₀.lba_size.toNat := by omega
  have harray : (b + 2 ^ 64 - 16384) % 2 ^ 64 = x - g₀.lba_size.toNat - 16384 := by omega
  rw [hhead, harray] at hranges
  clear hhead harray hprod
  have hapart : ∀ w ∈ write_ranges g, RangesApart w (usable_area g) := by
    rw [hranges]
    simp only [List.forall_mem_cons, List.not_mem_nil, false_imp_iff, implies_true, and_true,
      RangesApart]
    omega
  have hboot : ∀ w ∈ write_ranges g, RangesApart w (0, 440) := by
    rw [hranges]
    simp only [List.forall_mem_cons, List.not_mem_nil, false_imp_iff, implies_true, and_true,
      RangesApart]
    omega
  refine ⟨?_, ?_, ?_, ?_, hapart, hboot, fun io io' g' ret hq hwrite p hp => ?_⟩
  · rw [UInt64.le_iff_toNat_le, hfirst_lba]
    omega
  · rw [UInt64.lt_iff_toNat_lt, hnew.sectors]
    omega
  · rw [hranges]
    simp only [List.pairwise_cons, List.forall_mem_cons, List.not_mem_nil, false_imp_iff,
      implies_true, and_true, RangesApart, List.Pairwise.nil]
    omega
  · rw [hranges, hdisk]
    simp only [List.forall_mem_cons, List.not_mem_nil, false_imp_iff, implies_true,
      and_true]
    omega
  · refine gpt_write_within hsound hq hwrite fun w hw => ?_
    have hcode := hboot w hw
    have harea := hapart w hw
    simp only [RangesApart] at hcode harea
    omega

omit [Platform] in
/-- The primary header clears the boot code and the MBR only in sectors of at least
512 bytes. -/
theorem lba_size_of_apart (hnew : NewTable g₀ g) (hdvd : g₀.lba_size.toNat ∣ 16384)
    (hdisjoint : (write_ranges g).Pairwise RangesApart)
    (hboot : ∀ w ∈ write_ranges g, RangesApart w (0, 440)) : 512 ≤ g₀.lba_size.toNat := by
  rw [hnew.write_ranges_eq hdvd] at hdisjoint hboot
  have hcode := hboot _ List.mem_cons_self
  simp only [List.pairwise_cons, List.forall_mem_cons, RangesApart] at hdisjoint hcode
  obtain ⟨⟨-, -, -, hmbr, -⟩, -⟩ := hdisjoint
  omega

end NewTable

/-- **`gpt_new` and `gpt_write` agree on the layout** of a new table exactly on disks
with sectors of at least 512 bytes, with room for the two copies, and whose bytes
can be numbered in 64 bits. -/
theorem layout_safe_iff {g₀ : Gpt} {r r' : Urandom} (hdvd : g₀.lba_size.toNat ∣ 16384)
    (h : gpt_new (ε := Empty) g₀ r = .ret (0, g, r')) :
    LayoutSafe g ↔ 512 ≤ g₀.lba_size.toNat ∧
      2 * (2 + 16384 / g₀.lba_size.toNat) ≤ g₀.sectors.toNat ∧
      g₀.sectors.toNat * g₀.lba_size.toNat ≤ 2 ^ 64 := by
  have hnew := gpt_new_table h
  refine ⟨fun hsafe => ?_, fun ⟨hsize, hroom, hbytes⟩ =>
    hnew.layout_safe (gpt_new_sound h) hdvd hsize hroom hbytes⟩
  have hroom := hnew.room_of_usable hsafe.usable hsafe.last
  exact ⟨hnew.lba_size_of_apart hdvd hsafe.disjoint hsafe.boot, hroom,
    hnew.bytes_le_of_apart hdvd hroom hsafe.disjoint hsafe.apart hsafe.boot⟩

end Ranges

/-! ## Small disks -/

section SmallLayouts

attribute [local instance] x86

/-- A disk of `n` sectors of 512 bytes, before `gpt_new`. -/
def blank (n : UInt64) : Gpt := { small_gpt with sectors := n }

/-- A random source of zeros. -/
def zeros : Urandom := fun _ => some (List.Vector.replicate 16 0)

/-- A new table for the example. -/
theorem gpt_new_blank (n : UInt64) :
    ∃ g, gpt_new (ε := Empty) (blank n) zeros = .ret (0, g, zeros.next) :=
  ⟨_, rfl⟩

/-- 68 sectors are enough for both copies. -/
theorem blank_layout_safe : ∃ g, gpt_new (ε := Empty) (blank 68) zeros = .ret (0, g, zeros.next) ∧
    LayoutSafe g := by
  obtain ⟨g, h⟩ := gpt_new_blank 68
  exact ⟨g, h, (layout_safe_iff (by decide) h).mpr (by decide)⟩

/-- With one sector less than they need `gpt_new` succeeds all the same, and its
usable range ends before it starts. -/
theorem blank_not_layout_safe :
    ∃ g, gpt_new (ε := Empty) (blank 67) zeros = .ret (0, g, zeros.next) ∧ ¬ LayoutSafe g := by
  obtain ⟨g, h⟩ := gpt_new_blank 67
  refine ⟨g, h, fun hsafe => ?_⟩
  have hroom := (gpt_new_table h).room_of_usable hsafe.usable hsafe.last
  exact absurd hroom (by decide)

end SmallLayouts

end Iago
