/-
Losing power in the middle of `gpt_write`.

The bytes go to the disk in the order primary header, primary array, backup
header, backup array, MBR. Cutting that stream anywhere leaves each of the five
stretches as new bytes followed by old ones (`apply_tear_stores`), and at most
one of them is neither old nor new. The reader copes because of the order. As
long as the primary copy is incomplete the backup copy is still the old one, and
a primary copy that is neither old nor new fails one of its two checksums; once
it is complete the reader does not look any further, and nothing that is written
later touches it.

A checksum can fail to notice a torn string only by coincidence. `TornDetected`
says that it does not, for the strings that occur here; nothing else is assumed
about `crc32`.
-/
import Iago.GptRoundTrip

set_option autoImplicit false

namespace Iago

section Cuts

variable {ε : Type} [Platform] {d : Dev} {g : Gpt}

/-! ## The disk after a cut -/

omit [Platform] in
/-- A cut through one buffer and what follows it. -/
theorem apply_tear_sends (s : Store) (k pos : ℕ) (buf : List UInt8)
    (ws : List (ℕ × List UInt8)) :
    s.apply (Store.tear k (sends pos buf ++ ws))
      = (s.write pos (buf.take k)).apply (Store.tear (k - buf.length) ws) := by
  rw [sends]
  split_ifs with h
  · rw [h, List.take_nil, Store.write_nil, List.nil_append]
    rfl
  · rfl

/-- The stretches of the disk that are written: each holds a prefix of what it is
to hold, and behind it what it held before. -/
theorem apply_tear_stores (hg : g.Laid) (s : Store) (k : ℕ) :
    s.apply (Store.tear k (stores g)) =
      ((((s.write g.primary_base
        ((GptHeader.codec.enc (le_header (primary_header g) (le_buf g))).take k)).write
        g.primary_array_base ((le_buf g).take (k - 92))).write
        g.backup_base ((GptHeader.codec.enc (le_header (backup_header g) (le_buf g))).take
          (k - 92 - g.header.entries_size.toNat))).write
        g.backup_array_base ((le_buf g).take (k - 92 - g.header.entries_size.toNat - 92))).write
        440 ((Mbr.codec.enc (protective_mbr g)).take
          (k - 92 - g.header.entries_size.toNat - 92 - g.header.entries_size.toNat)) := by
  have hlen := length_le_buf hg
  have hstores : stores g =
      sends g.primary_base (GptHeader.codec.enc (le_header (primary_header g) (le_buf g))) ++
      (sends g.primary_array_base (le_buf g) ++
      (sends g.backup_base (GptHeader.codec.enc (le_header (backup_header g) (le_buf g))) ++
      (sends g.backup_array_base (le_buf g) ++
      (sends 440 (Mbr.codec.enc (protective_mbr g)) ++ [])))) := by
    simp only [stores, List.append_assoc, List.append_nil]
  rw [hstores, apply_tear_sends, apply_tear_sends, apply_tear_sends, apply_tear_sends,
    apply_tear_sends, GptHeader.length_enc, GptHeader.length_enc, hlen]
  rfl

/-- The disk after the first `k` bytes. -/
def cut (d : Dev) (g : Gpt) (k : ℕ) : Dev := d.withData (d.data.apply (Store.tear k (stores g)))

/-- The header and the array of the primary copy after a cut. -/
def torn_header (d : Dev) (g : Gpt) (k : ℕ) : List UInt8 :=
  (GptHeader.codec.enc (le_header (primary_header g) (le_buf g))).take k
    ++ (d.data.read g.primary_base 92).drop k

def torn_array (d : Dev) (g : Gpt) (k : ℕ) : List UInt8 :=
  (le_buf g).take (k - 92)
    ++ (d.data.read g.primary_array_base g.header.entries_size.toNat).drop (k - 92)

theorem cut_header (hg : g.Laid) (hp : Placed d g) (k : ℕ) :
    (cut d g k).data.read g.primary_base 92 = torn_header d g k := by
  have hlen := length_le_buf hg
  have hL := hp.sector
  have hfront := hp.primary
  have hback := hp.backup
  have hbase : g.primary_base = g.lba_size.toNat := rfl
  have habase : g.primary_array_base = 2 * g.lba_size.toNat := rfl
  show (d.data.apply (Store.tear k (stores g))).read g.primary_base 92 = _
  rw [apply_tear_stores hg,
    Store.read_write_of_disjoint (by rw [List.length_take, Mbr.length_enc]; omega),
    Store.read_write_of_disjoint (by rw [List.length_take]; omega),
    Store.read_write_of_disjoint (by rw [List.length_take]; omega),
    Store.read_write_of_disjoint (by rw [List.length_take]; omega)]
  have h := Store.read_write_take d.data g.primary_base k
    (GptHeader.codec.enc (le_header (primary_header g) (le_buf g)))
  rwa [GptHeader.length_enc] at h

theorem cut_array (hg : g.Laid) (hp : Placed d g) (k : ℕ) :
    (cut d g k).data.read g.primary_array_base g.header.entries_size.toNat
      = torn_array d g k := by
  have hlen := length_le_buf hg
  have hL := hp.sector
  have hfront := hp.primary
  have hback := hp.backup
  have hbase : g.primary_base = g.lba_size.toNat := rfl
  have habase : g.primary_array_base = 2 * g.lba_size.toNat := rfl
  show (d.data.apply (Store.tear k (stores g))).read g.primary_array_base _ = _
  rw [apply_tear_stores hg,
    Store.read_write_of_disjoint (by rw [List.length_take, Mbr.length_enc]; omega),
    Store.read_write_of_disjoint (by rw [List.length_take]; omega),
    Store.read_write_of_disjoint (by rw [List.length_take]; omega)]
  have h := Store.read_write_take (d.data.write g.primary_base
    ((GptHeader.codec.enc (le_header (primary_header g) (le_buf g))).take k))
    g.primary_array_base (k - 92) (le_buf g)
  rw [hlen] at h
  rw [h, Store.read_write_of_disjoint (by rw [List.length_take, GptHeader.length_enc]; omega)]
  rfl

/-- The MBR is a protective one before, during and after. -/
theorem cut_mbr (hg : g.Laid) (hp : Placed d g) (hmbr : d.data 450 = 0xee) (k : ℕ) :
    (cut d g k).data 450 = 0xee := by
  have hlen := length_le_buf hg
  have hL := hp.sector
  have hfront := hp.primary
  have hback := hp.backup
  have hbase : g.primary_base = g.lba_size.toNat := rfl
  have habase : g.primary_array_base = 2 * g.lba_size.toNat := rfl
  show d.data.apply (Store.tear k (stores g)) 450 = 0xee
  rw [apply_tear_stores hg]
  generalize k - 92 - g.header.entries_size.toNat - 92 - g.header.entries_size.toNat = j
  by_cases hj : 10 < j
  · rw [Store.write_apply_of_inside (by omega)
      (by rw [List.length_take, Mbr.length_enc]; omega), List.getD_eq_getElem?_getD,
      List.getElem?_take_of_lt (by omega), protective_mbr_type]
    rfl
  · rw [Store.write_apply_of_outside (by rw [List.length_take]; omega),
      Store.write_apply_of_outside (by omega), Store.write_apply_of_outside (by omega),
      Store.write_apply_of_outside (by omega), Store.write_apply_of_outside (by omega), hmbr]

/-- Before the primary copy is complete nothing else has been written. -/
theorem cut_before (hg : g.Laid) {k : ℕ} (hk : k ≤ 92 + g.header.entries_size.toNat) :
    (cut d g k).data = (d.data.write g.primary_base
      ((GptHeader.codec.enc (le_header (primary_header g) (le_buf g))).take k)).write
      g.primary_array_base ((le_buf g).take (k - 92)) := by
  show d.data.apply (Store.tear k (stores g)) = _
  rw [apply_tear_stores hg, show k - 92 - g.header.entries_size.toNat = 0 by omega, Nat.zero_sub,
    Nat.zero_sub, List.take_zero, List.take_zero, List.take_zero, Store.write_nil,
    Store.write_nil, Store.write_nil]

/-- A cut behind the primary copy has torn neither of its parts. -/
theorem torn_of_ge (hg : g.Laid) {k : ℕ} (hk : 92 + g.header.entries_size.toNat ≤ k) :
    torn_header d g k = GptHeader.codec.enc (le_header (primary_header g) (le_buf g)) ∧
      torn_array d g k = le_buf g := by
  have hlen := length_le_buf hg
  constructor
  · rw [torn_header, List.take_of_length_le (by rw [GptHeader.length_enc]; omega),
      List.drop_eq_nil_of_le (by rw [Store.length_read]; omega), List.append_nil]
  · rw [torn_array, List.take_of_length_le (by omega),
      List.drop_eq_nil_of_le (by rw [Store.length_read]; omega), List.append_nil]

/-! ## What the reader finds -/

/-- **The checksums notice every torn string that occurs**: a header that is
neither the old one nor the new one does not have the checksum it states, and an
array that is not the new one does not have the new one's. -/
structure TornDetected (d : Dev) (g : Gpt) : Prop where
  header : ∀ k, torn_header d g k ≠ d.data.read g.primary_base 92 →
    torn_header d g k ≠ GptHeader.codec.enc (le_header (primary_header g) (le_buf g)) →
    Platform.crc32 ((crc_zeroed (torn_header d g k)).take (le32 (torn_header d g k) 12).toNat)
      ≠ le32 (torn_header d g k) 16
  array : ∀ k, torn_array d g k ≠ le_buf g →
    Platform.crc32 (torn_array d g k) ≠ Platform.crc32 (le_buf g)

/-- Two stretches of bytes without a byte in common. -/
def Apart (off n off' n' : ℕ) : Prop := n = 0 ∨ n' = 0 ∨ off + n ≤ off' ∨ off' + n' ≤ off

/-- A header that was accepted states a size of 92 at most. -/
theorem header_size_of_check {bs : List UInt8} {h : GptHeader} (hlen : bs.length = 92)
    (hcheck : check_header (ε := ε) bs = .ret (some h)) : le bs 12 4 ≤ 92 := by
  have hsize : (letoh32 (GptHeader.codec.dec bs).header_size).toNat = le bs 12 4 := by
    have hlt := leVal_lt (slice bs 12 4)
    rw [length_slice (by omega)] at hlt
    rw [GptHeader.dec_eq hlen]
    simp only
    rw [letoh32_dec (length_slice (by omega)), UInt32.toNat_ofNat']
    exact Nat.mod_eq_of_lt hlt
  rw [check_header_eq] at hcheck
  simp only [hsize] at hcheck
  by_contra hbig
  split_ifs at hcheck
  cases hcheck

/-- **A torn header is no header.** Its size still fits the struct, because that is
one of two numbers below 256, byte by byte; its checksum is wrong. -/
theorem check_torn_header (hg : g.Sound) (hp : Placed d g) (htorn : TornDetected d g) {k : ℕ}
    {h : GptHeader} (hold : check_header (ε := ε) (d.data.read g.primary_base 92) = .ret (some h))
    (hne : torn_header d g k ≠ d.data.read g.primary_base 92)
    (hne' : torn_header d g k ≠ GptHeader.codec.enc (le_header (primary_header g) (le_buf g))) :
    check_header (ε := ε) (torn_header d g k) = .ret none := by
  have hcut := cut_header hg.toLaid hp k
  have hnew := header_size_of_check (GptHeader.length_enc _)
    (check_header_written (ε := ε) (h := primary_header g) hg.sig hg.header_size_le (le_buf g))
  have hsize : le (torn_header d g k) 12 4 ≤ 92 := by
    rw [le, torn_header, slice_take_append_drop (by rw [GptHeader.length_enc, Store.length_read])
      (by rw [GptHeader.length_enc]; decide)]
    exact leVal_take_append_drop _ hnew (header_size_of_check (Store.length_read _ _ _) hold)
      (by decide)
  have hcrc := htorn.header k hne hne'
  rw [← hcut] at hcrc hsize ⊢
  rw [check_header_disk]
  have hfield : ((cut d g k).header g.primary_base).header_size
    = le32 ((cut d g k).data.read g.primary_base 92) 12 := rfl
  have hval : ((cut d g k).header g.primary_base).header_size.toNat
      = le ((cut d g k).data.read g.primary_base 92) 12 4 := by
    rw [hfield, le32, UInt32.toNat_ofNat', Nat.mod_eq_of_lt (by omega)]
  rw [← hfield] at hcrc
  change _ ≠ (cut d g k).header_crc g.primary_base at hcrc
  -- The size is small enough for the checksum to be taken, and that one is wrong.
  by_cases hsig : (cut d g k).data.read g.primary_base 8 = efi_part
  · rw [if_pos hsig, if_pos (by rw [hval]; exact hsize), if_neg hcrc]
  · rw [if_neg hsig]

/-- The backup copy is still there as long as the primary one is incomplete. -/
theorem copy_at_backup_before (hg : g.Laid) (hp : Placed d g) {h₂ : GptHeader}
    {old : List UInt8} {k : ℕ} (hk : k ≤ 92 + g.header.entries_size.toNat)
    (hback : copy_at (ε := ε) d g (g.copy_lba false) = .ret (some (h₂, old)))
    (hapart : Apart g.primary_base (g.lba_size.toNat + g.header.entries_size.toNat)
      (g.lba_offset h₂.pentry_start_lba).toNat h₂.entries_size.toNat) :
    copy_at (ε := ε) (cut d g k) g (g.copy_lba false) = .ret (some (h₂, old)) := by
  have hlen := length_le_buf hg
  have hL := hp.sector
  have hfront := hp.primary
  have hplace := hp.backup
  have hbase : g.primary_base = g.lba_size.toNat := rfl
  have habase : g.primary_array_base = 2 * g.lba_size.toNat := rfl
  have hbbase : (g.lba_offset (g.copy_lba false)).toNat = g.backup_base := backup_base_offset hp
  -- neither of the two writes meets a stretch apart from the primary area
  have hkeep : ∀ off n, n = 0 ∨ g.primary_array_base + g.header.entries_size.toNat ≤ off ∨
      off + n ≤ g.primary_base → (cut d g k).data.read off n = d.data.read off n := by
    intro off n hoff
    rw [cut_before hg hk]
    rcases hoff with rfl | hoff
    · rfl
    · rw [Store.read_write_of_disjoint (by rw [List.length_take]; omega),
        Store.read_write_of_disjoint (by rw [List.length_take, GptHeader.length_enc]; omega)]
  refine copy_at_of_same hback rfl (hkeep _ _ ?_) (hkeep _ _ ?_)
  · rw [hbbase]
    omega
  · rcases hapart with h | h | h | h
    · omega
    · exact .inl h
    · exact .inr (.inl (by omega))
    · exact .inr (.inr h)

/-- **The primary copy after a cut** is the new one, the old one, or none; and it is
the new one once it is complete. -/
theorem copy_at_primary_cut (hg : g.Sound) (hp : Placed d g) (htorn : TornDetected d g)
    {h₁ : GptHeader} {old : List UInt8} (k : ℕ)
    (hprim : copy_at (ε := ε) d g (g.copy_lba true) = .ret (some (h₁, old))) :
    copy_at (ε := ε) (cut d g k) g (g.copy_lba true)
        = .ret (some (written (primary_header g) (le_buf g), g.buf)) ∨
      k ≤ 92 + g.header.entries_size.toNat ∧
        (copy_at (ε := ε) (cut d g k) g (g.copy_lba true) = .ret (some (h₁, old)) ∨
          copy_at (ε := ε) (cut d g k) g (g.copy_lba true) = .ret none) := by
  have hL := hp.sector
  have hend := hp.disk_end
  have hfront := hp.primary
  have hplace := hp.backup
  have habase : g.primary_array_base = 2 * g.lba_size.toNat := rfl
  have hbase : (g.lba_offset (g.copy_lba true)).toNat = g.primary_base := primary_offset g
  have hdisk : g.primary_base + 92 ≤ (cut d g k).size := by
    show g.lba_size.toNat + 92 ≤ d.size
    omega
  have hadisk : g.primary_array_base + g.header.entries_size.toNat ≤ (cut d g k).size := by
    show _ ≤ d.size
    omega
  have hstart : (g.lba_offset (primary_header g).pentry_start_lba).toNat = g.primary_array_base :=
    primary_array_offset
  have hes : (primary_header g).entries_size = g.header.entries_size := rfl
  by_cases hhead : torn_header d g k = GptHeader.codec.enc (le_header (primary_header g) (le_buf g))
  · by_cases harr : torn_array d g k = le_buf g
    · left
      exact copy_at_written (h := primary_header g) (primary_sound hg) hbase hstart hdisk
        (by rw [hes]; exact hadisk) (by rw [cut_header hg.toLaid hp, hhead]; rfl)
        (by rw [hes, cut_array hg.toLaid hp, harr]; rfl)
    · -- the new header over an array that is not its own
      have hk : k ≤ 92 + g.header.entries_size.toNat := by
        by_contra hlt
        exact harr (torn_of_ge hg.toLaid (by omega)).2
      refine .inr ⟨hk, .inr ?_⟩
      have hcrc : ¬ htole32 (Platform.crc32 (torn_array d g k))
          = (written (primary_header g) (le_buf g)).pentry_crc32 := by
        intro heq
        have h := congrArg letoh32 heq
        simp only [written, htole32, letoh32_letoh32] at h
        exact htorn.array k harr h
      rw [copy_at_eq]
      simp only [hbase]
      rw [if_pos (by omega), if_pos hdisk, cut_header hg.toLaid hp, hhead,
        check_header_written (h := primary_header g) hg.sig hg.header_size_le, Exec.ret_bind]
      simp only
      rw [check_entries_eq]
      have hstart' : (g.lba_offset (written (primary_header g) (le_buf g)).pentry_start_lba).toNat
        = g.primary_array_base := hstart
      have hes' : (written (primary_header g) (le_buf g)).entries_size = g.header.entries_size := rfl
      simp only [hstart', hes']
      rw [if_pos (by omega), if_pos hadisk, cut_array hg.toLaid hp, if_neg hcrc, Exec.ret_bind]
  · -- the header is incomplete, so nothing else has been written
    have hk : k < 92 := by
      by_contra hge
      refine hhead ?_
      rw [torn_header, List.take_of_length_le (by rw [GptHeader.length_enc]; omega),
        List.drop_eq_nil_of_le (by rw [Store.length_read]; omega), List.append_nil]
    refine .inr ⟨by omega, ?_⟩
    by_cases hold : torn_header d g k = d.data.read g.primary_base 92
    · left
      have hsame : (cut d g k).data = d.data := by
        have hread := cut_header (d := d) hg.toLaid hp k
        rw [hold, cut_before hg.toLaid (by omega), show k - 92 = 0 by omega, List.take_zero,
          Store.write_nil] at hread
        rw [cut_before hg.toLaid (by omega), show k - 92 = 0 by omega, List.take_zero,
          Store.write_nil]
        exact Store.write_eq_self (by rw [List.length_take]; omega) hread
      exact copy_at_of_same hprim rfl (by rw [hsame]) (by rw [hsame])
    · right
      have hcheck := (copy_at_eq_some.mp hprim).2.1
      rw [hbase] at hcheck
      rw [copy_at_eq]
      simp only [hbase]
      rw [if_pos (by omega), if_pos hdisk, cut_header hg.toLaid hp,
        check_torn_header hg hp htorn hcheck hold hhead, Exec.ret_bind]

/-- **Power lost at any byte leaves a table.** On a disk with the same table in both
copies, and with room for the new table's primary copy apart from the old backup
copy, whatever prefix of what `gpt_write` sends arrives: `gpt_read` then succeeds
and returns the old table or the new one. -/
theorem crash_consistent {io io' : Io} {g' : Gpt} {h₁ h₂ : GptHeader} {old : List UInt8}
    (hobt : g.Obtained) (hfit : Fits io.dev g) (hmbr : io.dev.data 450 = 0xee)
    (hprim : copy_at (ε := Empty) io.dev g (g.copy_lba true) = .ret (some (h₁, old)))
    (hback : copy_at (ε := Empty) io.dev g (g.copy_lba false) = .ret (some (h₂, old)))
    (hsame : SameHeader h₂ h₁)
    (hapart : Apart g.primary_base (g.lba_size.toNat + g.header.entries_size.toNat)
      (g.lba_offset h₂.pentry_start_lba).toNat h₂.entries_size.toNat)
    (htorn : TornDetected io.dev g) (hrs : ∀ r ∈ io.rs, r = .all) (hsent : io.sent = [])
    (hwrite : gpt_write (ε := Empty) io g = .ret (0, g', io')) (k : ℕ) {g₀ : Gpt}
    {rs : List IoRes} (hdisk : g₀.SameDisk g) (herr : .err ∉ rs) (hall : 5 ≤ rs.count .all) :
    ∃ g₁ rs', gpt_read (ε := Empty) (io.dev.withData (io.dev.data.apply (Store.tear k io'.sent))) rs
        g₀ = .ret (0, g₁, rs') ∧
      (SameTable g₁ ((g.withHeader h₁).withBuf old) ∨ SameTable g₁ g) := by
  have hg := hobt.sound
  have hp := placed hfit
  have hL := hp.sector
  have hend := hp.disk_end
  obtain ⟨-, hafter⟩ := gpt_write_ret hg hfit hrs hwrite
  rw [hafter.sent, hsent, List.nil_append]
  change ∃ g₁ rs', gpt_read (cut io.dev g k) rs g₀ = _ ∧ _
  -- what the reader finds decides what it returns
  have hreads : ∀ h buf, table_on (ε := Empty) (cut io.dev g k) g = .ret (some (h, buf)) →
      ∃ rs', gpt_read (ε := Empty) (cut io.dev g k) rs g₀
        = .ret (0, (g₀.withHeader h).withBuf buf, rs') := by
    intro h buf htable
    refine gpt_read_of_table herr hall ?_
    rw [eq_of_sameDisk hdisk]
    exact htable
  have htable := table_on_of_mbr (ε := Empty) (d := cut io.dev g k) (g := g)
    (by show 450 < io.dev.size; omega) (cut_mbr hg.toLaid hp hmbr k)
  rcases copy_at_primary_cut hg hp htorn k hprim with hnew | ⟨hk, hold | hnone⟩
  · rw [hnew, Exec.ret_bind] at htable
    obtain ⟨rs', hret⟩ := hreads _ _ htable
    exact ⟨_, rs', hret, .inr (sameTable_written hg.toLaid rfl)⟩
  · rw [hold, Exec.ret_bind] at htable
    obtain ⟨rs', hret⟩ := hreads _ _ htable
    exact ⟨_, rs', hret, .inl ⟨rfl, rfl⟩⟩
  · rw [hnone, Exec.ret_bind] at htable
    simp only at htable
    rw [copy_at_backup_before hg.toLaid hp hk hback hapart] at htable
    obtain ⟨rs', hret⟩ := hreads _ _ htable
    exact ⟨_, rs', hret, .inl ⟨hsame, rfl⟩⟩

end Cuts

/-! ### A cut on the small disk

Both copies of the table with four empty entries on the disk of eight sectors, and a
new table that differs from it in the first byte of its first entry. -/

section SmallCut

attribute [local instance] x86

/-- The small disk with the table in both copies. -/
def mirrored_disk : Dev where
  size := 4096
  data := Store.apply (fun _ => 0) [(450, [0xee]), (512, GptHeader.codec.enc four_header),
    (3584, GptHeader.codec.enc { four_header with
      crc32 := 0x7da54cde
      current_lba := 7
      backup_lba := 1
      pentry_start_lba := 6 })]
  size_lt := small_size

/-- The header of the new table. -/
def new_header : GptHeader := small_header 4 0xb6e07458 0xc3f674a0

/-- A disk to read it from. -/
def new_disk : Dev where
  size := 4096
  data := Store.apply (fun _ => 0) [(450, [0xee]), (512, GptHeader.codec.enc new_header),
    (1024, [7])]
  size_lt := small_size

def new_gpt : Gpt := (small_gpt.withHeader new_header).withBuf (7 :: List.replicate 511 0)

set_option maxRecDepth 100000 in
/-- The new table of the example is one the code makes. -/
theorem new_obtained : new_gpt.Obtained :=
  have hread : gpt_read (ε := Empty) new_disk (List.replicate 3 .all) small_gpt
      = .ret (0, new_gpt, []) := by
    decide +kernel
  .read hread

def mirrored_io : Io where
  dev := mirrored_disk
  rs := List.replicate 5 .all
  eintr := false
  sent := []

set_option maxRecDepth 100000 in
/-- What the new table is written as. -/
theorem new_written : le_buf new_gpt = 7 :: List.replicate 511 0 ∧
    le_header (primary_header new_gpt) (le_buf new_gpt) = new_header := by
  decide +kernel

set_option maxRecDepth 100000 in
theorem new_torn_header : ∀ k, k < 92 →
    ((GptHeader.codec.enc new_header).take k ++ (GptHeader.codec.enc four_header).drop k
      = GptHeader.codec.enc four_header) ∨
    crc32_ieee ((crc_zeroed ((GptHeader.codec.enc new_header).take k
        ++ (GptHeader.codec.enc four_header).drop k)).take
        (le32 ((GptHeader.codec.enc new_header).take k
          ++ (GptHeader.codec.enc four_header).drop k) 12).toNat)
      ≠ le32 ((GptHeader.codec.enc new_header).take k
        ++ (GptHeader.codec.enc four_header).drop k) 16 := by
  decide +kernel

set_option maxRecDepth 100000 in
/-- What is on the disk before the write. -/
theorem mirrored_reads :
    mirrored_disk.data.read new_gpt.primary_base 92 = GptHeader.codec.enc four_header ∧
    mirrored_disk.data.read new_gpt.primary_array_base new_gpt.header.entries_size.toNat
      = List.replicate 512 0 ∧
    crc32_ieee (List.replicate 512 0) ≠ crc32_ieee (7 :: List.replicate 511 0) := by
  decide +kernel

/-- So no mixture of the two passes for a copy. -/
theorem new_tornDetected : TornDetected mirrored_disk new_gpt where
  header := by
    intro k hold hnew
    have htorn : torn_header mirrored_disk new_gpt k = (GptHeader.codec.enc new_header).take k
        ++ (GptHeader.codec.enc four_header).drop k := by
      rw [torn_header, new_written.2, mirrored_reads.1]
    rw [htorn] at hold hnew ⊢
    rw [new_written.2] at hnew
    rw [mirrored_reads.1] at hold
    by_cases hk : k < 92
    · exact (new_torn_header k hk).resolve_left hold
    · refine absurd ?_ hnew
      rw [List.take_of_length_le (by rw [GptHeader.length_enc]; omega),
        List.drop_eq_nil_of_le (by rw [GptHeader.length_enc]; omega), List.append_nil]
  array := by
    intro k hne
    have htorn : torn_array mirrored_disk new_gpt k = (7 :: List.replicate 511 0).take (k - 92)
        ++ (List.replicate 512 0).drop (k - 92) := by
      rw [torn_array, new_written.1, mirrored_reads.2.1]
    rw [htorn] at hne ⊢
    rw [new_written.1] at hne ⊢
    -- the two arrays differ in their first byte
    cases hj : k - 92 with
    | zero =>
      rw [List.take_zero, List.drop_zero, List.nil_append]
      exact mirrored_reads.2.2
    | succ j =>
      have hzeros : List.replicate 512 (0 : UInt8) = 0 :: List.replicate 511 0 := rfl
      refine absurd ?_ hne
      rw [hj, hzeros, List.take_succ_cons, List.drop_succ_cons, List.cons_append,
        List.take_append_drop]

set_option maxRecDepth 100000 in
/-- Both copies on the disk are those of the old table. -/
theorem mirrored_copies :
    copy_at (ε := Empty) mirrored_disk new_gpt (new_gpt.copy_lba true)
      = .ret (some (four_header, List.replicate 512 0)) ∧
    copy_at (ε := Empty) mirrored_disk new_gpt (new_gpt.copy_lba false)
      = .ret (some ({ four_header with
          crc32 := 0x7da54cde
          current_lba := 7
          backup_lba := 1
          pentry_start_lba := 6 }, List.replicate 512 0)) := by
  decide +kernel

/-- Power is lost in the middle of the new table's primary array. -/
theorem mirrored_crash_consistent : ∃ io',
    gpt_write (ε := Empty) mirrored_io new_gpt = .ret (0, new_gpt, io') ∧
    ∃ g₁ rs', gpt_read (ε := Empty) (mirrored_disk.withData
        (mirrored_disk.data.apply (Store.tear 300 io'.sent))) (List.replicate 5 .all) small_gpt
        = .ret (0, g₁, rs') ∧
      (SameTable g₁ ((new_gpt.withHeader four_header).withBuf (List.replicate 512 0)) ∨
        SameTable g₁ new_gpt) := by
  have hfit : Fits mirrored_io.dev new_gpt := ⟨by decide, by decide, by decide⟩
  obtain ⟨io', hret, -⟩ := @gpt_write_total Empty _ _ mirrored_io new_obtained.sound hfit
    (by decide) (by decide) (by decide)
  exact ⟨io', hret, crash_consistent new_obtained hfit (by decide +kernel) mirrored_copies.1
    mirrored_copies.2 rfl (.inr (.inr (.inl (by decide)))) new_tornDetected (by decide) rfl
    hret 300 ⟨rfl, rfl, rfl⟩ (by decide) (by decide)⟩

end SmallCut

end Iago
