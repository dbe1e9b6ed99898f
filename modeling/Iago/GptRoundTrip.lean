/-
Writing a table and reading it back.

`gpt_write` puts a table on the disk twice, and `read_gpt_data` finds it twice:
the checksums are taken over the same bytes on both sides, and the byte swaps
undo each other (`copy_at_written`). The one thing that can come between is
where the backup array goes. `gpt_write` places it `entries_size / lba_size`
sectors before the backup header, a quotient rounded down, and writes it after
the header; an array that is not a whole number of sectors then runs over the
header it belongs to.

`round_trips_iff` says exactly when both copies read back: the array fills whole
sectors, or, against all odds, the part of it that lands on the header spells a
header of the same table.
-/
import Iago.GptCopies
import Iago.GptWrite

set_option autoImplicit false

namespace Iago

/-! ## The tables a caller can have -/

section Obtained

variable [Platform] {g g' : Gpt}

/-- A `struct gpt` that a program can get from the library: read from a disk or
made new, and then changed by creating and deleting entries. -/
inductive Gpt.Obtained : Gpt → Prop where
  | read {d : Dev} {rs rs' : List IoRes} {g₀ g : Gpt}
      (h : gpt_read (ε := Empty) d rs g₀ = .ret (0, g, rs')) : Gpt.Obtained g
  | new {r r' : Urandom} {g₀ g : Gpt}
      (h : gpt_new (ε := Empty) g₀ r = .ret (0, g, r')) : Gpt.Obtained g
  | create {r r' : Urandom} {g g' : Gpt} {name : CStr} {type : PartType}
      {flags first_lba last_lba : UInt64} {i : UInt32} (hg : Gpt.Obtained g)
      (h : gpt_entry_create (ε := Empty) g name type flags first_lba last_lba r = .ret (i, g', r')) :
      Gpt.Obtained g'
  | delete {g g' : Gpt} {index : UInt32} {ret : Int} (hg : Gpt.Obtained g)
      (h : gpt_entry_delete (ε := Empty) g index = .ret (ret, g')) : Gpt.Obtained g'

/-- A sound table with an entry stored in it is sound. -/
theorem store_sound (hg : g.Sound) {off : UInt32} {e : GptEntry}
    (h : (g.store off e : Exec Empty Gpt) = .ret g') : g'.Sound := by
  have hrew := store_ret h
  exact ⟨hrew.laid hg.toLaid, by rw [hrew.header]; exact hg.sig,
    by rw [hrew.header]; exact hg.header_size_le⟩

omit [Platform] in
/-- A new table is sound. -/
theorem new_table_sound (g : Gpt) (uuid : Guid) : (new_table g uuid).Sound where
  live := rfl
  size := by
    show (List.replicate (128 * 128) (0 : UInt8)).length = (128 * 128 : UInt32).toNat
    rw [List.length_replicate]
    rfl
  heads := by
    have hn : (new_table_header g uuid).num_pentries = 128 := rfl
    have hs : (new_table_header g uuid).pentry_size = 128 := rfl
    show (new_table_header g uuid).Hold 56
    rw [GptHeader.hold_iff (by rw [hn, hs]; decide), hs]
    exact .inr (by decide)
  sig := rfl
  header_size_le := by
    show (92 : UInt32).toNat ≤ 92
    decide

omit [Platform] in
/-- The entries of a new table have room. -/
theorem new_table_mapped (g : Gpt) (uuid : Guid) : (new_table g uuid).Mapped :=
  (new_table_sound g uuid).toLaid.mapped ((GptHeader.inBounds_iff (by
    show (128 : UInt32).toNat * (128 : UInt32).toNat < 2 ^ 32
    decide)).mpr (.inr (by
      show 128 ≤ (128 : UInt32).toNat
      decide)))

/-- So is the one `gpt_new` makes. -/
theorem gpt_new_sound {r r' : Urandom} {g₀ : Gpt}
    (h : gpt_new (ε := Empty) g₀ r = .ret (0, g, r')) : g.Sound := by
  obtain ⟨-, uuid, -, rfl⟩ := gpt_new_ret h
  exact new_table_sound g₀ uuid

theorem gpt_entry_create_sound {r r' : Urandom} {name : CStr} {type : PartType}
    {flags first_lba last_lba : UInt64} {i : UInt32} (hg : g.Sound)
    (h : gpt_entry_create (ε := Empty) g name type flags first_lba last_lba r = .ret (i, g', r')) :
    g'.Sound := by
  rcases gpt_entry_create_ret h with rfl | ⟨off, e, h⟩
  · exact hg
  · exact store_sound hg h

theorem gpt_entry_delete_sound {index : UInt32} {ret : Int} (hg : g.Sound)
    (h : gpt_entry_delete (ε := Empty) g index = .ret (ret, g')) : g'.Sound := by
  rw [gpt_entry_delete] at h
  cases hget : gpt_entry_get index g with
  | none =>
    rw [hget] at h
    simp only [Exec.ret.injEq, Prod.mk.injEq] at h
    exact h.2 ▸ hg
  | some off =>
    rw [hget] at h
    obtain ⟨g₁, hstore, h⟩ := Exec.bind_eq_ret.mp h
    simp only [Exec.ret.injEq, Prod.mk.injEq] at h
    exact store_sound hg (h.2 ▸ hstore)

/-- **Every table a caller can have is sound.** -/
theorem Gpt.Obtained.sound (h : g.Obtained) : g.Sound := by
  induction h with
  | read h => exact (gpt_read_sound h).1
  | new h => exact gpt_new_sound h
  | create _ h ih => exact gpt_entry_create_sound ih h
  | delete _ h ih => exact gpt_entry_delete_sound ih h

end Obtained

/-! ## One copy, written and read -/

section Copy

variable {ε : Type} [Platform] {d : Dev} {g : Gpt}

/-- A header with the checksums it is written with. -/
def written (h : GptHeader) (arr : List UInt8) : GptHeader :=
  { h with
    crc32 := (le_header h arr).crc32
    pentry_crc32 := htole32 (Platform.crc32 arr) }

/-- Swapping the header back gives the header that was written. -/
theorem bytes_to_host_le_header (h : GptHeader) (arr : List UInt8) :
    gpt_header_bytes_to_host (le_header h arr) = written h arr := by
  simp only [gpt_header_bytes_to_host, written, le_header, gpt_header_bytes_to_le,
    gpt_guid_bytes_to_host, gpt_guid_bytes_to_le, htole16, htole32, htole64, letoh16_letoh16,
    letoh32_letoh32, letoh64_letoh64]

/-- The reader's tests pass on a header as it is written. -/
theorem check_header_written {h : GptHeader} (hsig : h.sig.toList = efi_part)
    (hsize : h.header_size.toNat ≤ 92) (arr : List UInt8) :
    (check_header (GptHeader.codec.enc (le_header h arr)) : Exec ε (Option GptHeader))
      = .ret (some (written h arr)) := by
  have hhs : letoh32 (le_header h arr).header_size = h.header_size := letoh32_letoh32 _
  have hsig' : (le_header h arr).sig.toList = efi_part := hsig
  have hcrc : htole32 (Platform.crc32 ((GptHeader.codec.enc { le_header h arr with crc32 := 0 }).take
      (letoh32 (le_header h arr).header_size).toNat)) = (le_header h arr).crc32 := rfl
  rw [check_header_eq, GptHeader.codec.dec_enc]
  simp only
  rw [if_pos hsig', if_pos (by rw [hhs]; exact hsize), if_pos hcrc, bytes_to_host_le_header]

/-- Swapping the array back gives the array that was written. -/
theorem swapped_le_buf (hg : g.Laid) : g.header.swapped (le_buf g) = g.buf := by
  have hslots := slots_of_laid hg
  have hid : entry_bytes_to_host ∘ entry_bytes_to_le = id := funext entry_bytes_to_host_to_le
  rw [GptHeader.swapped, le_buf, Slots.modifyAll_modifyAll hslots, hid, Slots.modifyAll_id hslots]

/-- **A copy that is on the disk as it was written reads back.** -/
theorem copy_at_written {lba : UInt64} {h : GptHeader} {base start : ℕ}
    (hg : (g.withHeader h).Sound) (hbase : (g.lba_offset lba).toNat = base)
    (hstart : (g.lba_offset h.pentry_start_lba).toNat = start)
    (hfit : base + 92 ≤ d.size) (hafit : start + h.entries_size.toNat ≤ d.size)
    (hread : d.data.read base 92
      = GptHeader.codec.enc (le_header h (le_buf (g.withHeader h))))
    (haread : d.data.read start h.entries_size.toNat = le_buf (g.withHeader h)) :
    copy_at (ε := ε) d g lba
      = .ret (some (written h (le_buf (g.withHeader h)), g.buf)) := by
  rw [copy_at_eq]
  simp only [hbase]
  rw [if_pos (by omega), if_pos hfit, hread,
    check_header_written (h := h) hg.sig hg.header_size_le, Exec.ret_bind]
  simp only
  rw [check_entries_eq]
  -- What is stored says of itself where its array is and what its checksum is.
  have hsame : (g.lba_offset (written h (le_buf (g.withHeader h))).pentry_start_lba).toNat = start :=
    hstart
  have hsize : (written h (le_buf (g.withHeader h))).entries_size = h.entries_size := rfl
  have hin : (written h (le_buf (g.withHeader h))).Hold 56 := hg.heads
  have hcrc : htole32 (Platform.crc32 (le_buf (g.withHeader h)))
    = (written h (le_buf (g.withHeader h))).pentry_crc32 := rfl
  simp only [hsame, hsize]
  rw [if_pos (by omega), if_pos hafit, haread, if_pos hcrc, if_pos hin, Exec.ret_bind]
  have hswap : (written h (le_buf (g.withHeader h))).swapped (le_buf (g.withHeader h)) = g.buf :=
    swapped_le_buf hg.toLaid
  simp only [hswap]

end Copy

/-! ## Both copies after `gpt_write` -/

section Both

variable {ε : Type} [Platform] {d : Dev} {g : Gpt}

/-- The contents of the disk after the five stores. -/
theorem apply_stores (s : Store) (g : Gpt) :
    s.apply (stores g) =
      ((((s.write g.primary_base (GptHeader.codec.enc (le_header (primary_header g) (le_buf g)))).write
        g.primary_array_base (le_buf g)).write
        g.backup_base (GptHeader.codec.enc (le_header (backup_header g) (le_buf g)))).write
        g.backup_array_base (le_buf g)).write 440 (Mbr.codec.enc (protective_mbr g)) := by
  simp only [stores, Store.apply_append, apply_sends]

/-- The first entry of the MBR lies from byte 446 on, its type at byte 450. -/
theorem protective_mbr_type (g : Gpt) :
    (Mbr.codec.enc (protective_mbr g))[10]? = some 0xee := by
  have h4 : (u32.enc (protective_mbr g).disk_sig).length = 4 := u32.length_enc _
  have h2 : (u16.enc (protective_mbr g).reserved).length = 2 := u16.length_enc _
  show (u32.enc (protective_mbr g).disk_sig ++ (u16.enc (protective_mbr g).reserved ++ _))[10]? = _
  rw [List.getElem?_append_right (by omega), h4, List.getElem?_append_right (by omega), h2]
  rfl

/-- The part of the array that lies behind the last sector it fills: what runs
over the backup header. -/
def overhang (g : Gpt) : List UInt8 :=
  (le_buf g).drop (g.header.entries_size.toNat / g.lba_size.toNat * g.lba_size.toNat)

/-- What is left of the backup header under it. -/
def overhung_header (g : Gpt) : List UInt8 :=
  (overhang g).take 92 ++
    (GptHeader.codec.enc (le_header (backup_header g) (le_buf g))).drop (overhang g).length

/-- What the disk holds where the two copies are. -/
structure Holds (d : Dev) (g : Gpt) : Prop where
  mbr : d.data 450 = 0xee
  primary : d.data.read g.primary_base 92
    = GptHeader.codec.enc (le_header (primary_header g) (le_buf g))
  primary_array : d.data.read g.primary_array_base g.header.entries_size.toNat = le_buf g
  backup : d.data.read g.backup_base 92 = overhung_header g
  backup_array : d.data.read g.backup_array_base g.header.entries_size.toNat = le_buf g

/-- A disk that has been written holds both copies. -/
theorem holds_stores (hg : g.Sound) (hp : Placed d g) :
    Holds (d.withData (d.data.apply (stores g))) g := by
  have hlen := length_le_buf hg.toLaid
  have hL := hp.sector
  have hfront := hp.primary
  have hback := hp.backup
  have hbase : g.primary_base = g.lba_size.toNat := rfl
  have habase : g.primary_array_base = 2 * g.lba_size.toNat := rfl
  -- each stretch, read through the stores made after it
  refine ⟨?_, ?_, ?_, ?_, ?_⟩
  · show d.data.apply (stores g) 450 = 0xee
    rw [apply_stores, Store.write_apply_of_inside (by omega) (by rw [Mbr.length_enc]; omega),
      List.getD_eq_getElem?_getD, protective_mbr_type]
    rfl
  · show (d.data.apply (stores g)).read g.primary_base 92 = _
    rw [apply_stores, Store.read_write_of_disjoint (by rw [Mbr.length_enc]; omega),
      Store.read_write_of_disjoint (by omega),
      Store.read_write_of_disjoint (by omega),
      Store.read_write_of_disjoint (by omega)]
    have h := Store.read_write_self d.data g.primary_base
      (GptHeader.codec.enc (le_header (primary_header g) (le_buf g)))
    rwa [GptHeader.length_enc] at h
  · show (d.data.apply (stores g)).read g.primary_array_base _ = _
    rw [apply_stores, Store.read_write_of_disjoint (by rw [Mbr.length_enc]; omega),
      Store.read_write_of_disjoint (by omega),
      Store.read_write_of_disjoint (by omega), ← hlen, Store.read_write_self]
  · show (d.data.apply (stores g)).read g.backup_base 92 = _
    rw [apply_stores, Store.read_write_of_disjoint (by rw [Mbr.length_enc]; omega),
      Store.read_write_of_le _ (by omega)]
    have h := Store.read_write_self
      ((d.data.write g.primary_base
        (GptHeader.codec.enc (le_header (primary_header g) (le_buf g)))).write
        g.primary_array_base (le_buf g)) g.backup_base
      (GptHeader.codec.enc (le_header (backup_header g) (le_buf g)))
    rw [GptHeader.length_enc] at h
    rw [h, show g.backup_base - g.backup_array_base
      = g.header.entries_size.toNat / g.lba_size.toNat * g.lba_size.toNat by omega]
    rfl
  · show (d.data.apply (stores g)).read g.backup_array_base _ = _
    rw [apply_stores, Store.read_write_of_disjoint (by rw [Mbr.length_enc]; omega), ← hlen,
      Store.read_write_self]

/-- The primary copy reads back. -/
theorem copy_at_primary (hg : g.Sound) (hp : Placed d g) (hd : Holds d g) :
    copy_at (ε := ε) d g (g.copy_lba true)
      = .ret (some (written (primary_header g) (le_buf g), g.buf)) := by
  have hL := hp.sector
  have hend := hp.disk_end
  have hfront := hp.primary
  have hback := hp.backup
  have hbase : g.primary_base = g.lba_size.toNat := rfl
  have habase : g.primary_array_base = 2 * g.lba_size.toNat := rfl
  have hes : (primary_header g).entries_size = g.header.entries_size := rfl
  exact copy_at_written (h := primary_header g) (primary_sound hg) (primary_offset g)
    primary_array_offset (by omega) (by rw [hes]; omega) hd.primary
    (by rw [hes]; exact hd.primary_array)

/-- So does the backup copy, if the array leaves its header alone. -/
theorem copy_at_backup (hg : g.Sound) (hp : Placed d g) (hd : Holds d g)
    (hover : overhung_header g = GptHeader.codec.enc (le_header (backup_header g) (le_buf g))) :
    copy_at (ε := ε) d g (g.copy_lba false)
      = .ret (some (written (backup_header g) (le_buf g), g.buf)) := by
  have hL := hp.sector
  have hend := hp.disk_end
  have haend := hp.array_end
  have hes : (backup_header g).entries_size = g.header.entries_size := rfl
  exact copy_at_written (h := backup_header g) (backup_sound hg) (backup_base_offset hp)
    (backup_array_offset hp) (by omega) (by rw [hes]; exact haend) (by rw [hd.backup, hover]; rfl)
    (by rw [hes]; exact hd.backup_array)

/-- An array of whole sectors has no overhang. -/
theorem overhung_header_of_dvd (hg : g.Laid)
    (hdvd : g.lba_size.toNat ∣ g.header.entries_size.toNat) :
    overhung_header g = GptHeader.codec.enc (le_header (backup_header g) (le_buf g)) := by
  have hnil : overhang g = [] := by
    rw [overhang, Nat.div_mul_cancel hdvd, ← length_le_buf hg, List.drop_length]
  rw [overhung_header, hnil]
  rfl

/-- Two headers of one table: they differ at most in where the copies are and in
the two checksums. -/
def SameHeader (h h' : GptHeader) : Prop :=
  { h with
    current_lba := h'.current_lba
    backup_lba := h'.backup_lba
    pentry_start_lba := h'.pentry_start_lba
    crc32 := h'.crc32
    pentry_crc32 := h'.pentry_crc32 } = h'

/-- **The same table**: the same disk GUID, revision, usable range, number and
size of entries, and the same array. -/
structure SameTable (g g' : Gpt) : Prop where
  header : SameHeader g.header g'.header
  entries : g.entries = g'.entries

/-- **A write that can be read back**: the caller's `struct gpt` is as it was, both
copies read as the table that was written, and `gpt_read` succeeds. -/
structure RoundTrips (d : Dev) (g g' : Gpt) : Prop where
  caller : g' = g
  primary : ∀ g₀ rs, g₀.SameDisk g → .err ∉ rs → 2 ≤ rs.count .all → ∃ g₁ rs',
    read_gpt_data (ε := Empty) d rs true g₀ = .ret (0, g₁, rs') ∧ SameTable g₁ g
  backup : ∀ g₀ rs, g₀.SameDisk g → .err ∉ rs → 2 ≤ rs.count .all → ∃ g₁ rs',
    read_gpt_data (ε := Empty) d rs false g₀ = .ret (0, g₁, rs') ∧ SameTable g₁ g
  read : ∀ g₀ rs, g₀.SameDisk g → .err ∉ rs → 5 ≤ rs.count .all → ∃ g₁ rs',
    gpt_read (ε := Empty) d rs g₀ = .ret (0, g₁, rs')

/-- What the array leaves of the backup header passes for a header of the same
table, with the same array. -/
def OverhangSpells (d : Dev) (g : Gpt) : Prop :=
  ∃ h, check_header (ε := Empty) (overhung_header g) = .ret (some h) ∧ SameHeader h g.header ∧
    check_entries (ε := Empty) d g h = .ret (some g.buf)

omit [Platform] in
/-- Tables for the same disk differ in the header and the array. -/
theorem eq_of_sameDisk {g₀ : Gpt} (h : g₀.SameDisk g) :
    g₀ = { g with header := g₀.header, entries := g₀.entries } := by
  obtain ⟨h1, h2, h3⟩ := h
  cases g₀
  cases g
  simp only at h1 h2 h3
  subst h1 h2 h3
  rfl

/-- A copy is read the same for either. -/
theorem copy_at_sameDisk {g₀ : Gpt} (h : g₀.SameDisk g) (lba : UInt64) :
    copy_at (ε := ε) d g₀ lba = copy_at d g lba := by
  rw [eq_of_sameDisk h]
  exact copy_at_congr _ _ _

/-- What `read_gpt_data` returns where a copy is. -/
theorem read_gpt_data_of_copy {g₀ : Gpt} {rs : List IoRes} {primary : Bool} {h : GptHeader}
    {buf : List UInt8} (hsame : g₀.SameDisk g) (hrs : .err ∉ rs) (hall : 2 ≤ rs.count .all)
    (hcopy : copy_at (ε := ε) d g (g.copy_lba primary) = .ret (some (h, buf))) :
    ∃ rs', read_gpt_data (ε := ε) d rs primary g₀
      = .ret (0, (g₀.withHeader h).withBuf buf, rs') := by
  have hlba : g₀.copy_lba primary = g.copy_lba primary := by
    rw [eq_of_sameDisk hsame]
    rfl
  have hcopy₀ : copy_at (ε := ε) d g₀ (g₀.copy_lba primary) = .ret (some (h, buf)) := by
    rw [hlba, copy_at_sameDisk hsame, hcopy]
  rcases read_gpt_data_eq (ε := ε) (d := d) (g := g₀) hrs primary with ⟨-, hwhy | hwhy⟩ | hrep
  · omega
  · rw [hcopy₀] at hwhy
    cases hwhy
  · rw [hcopy₀] at hrep
    obtain ⟨rs', -, hret⟩ := hrep
    exact ⟨rs', hret⟩

/-- What `gpt_read` returns where a table is. -/
theorem gpt_read_of_table {g₀ : Gpt} {rs : List IoRes} {h : GptHeader} {buf : List UInt8}
    (hrs : .err ∉ rs) (hall : 5 ≤ rs.count .all)
    (htable : table_on (ε := ε) d g₀ = .ret (some (h, buf))) :
    ∃ rs', gpt_read (ε := ε) d rs g₀ = .ret (0, (g₀.withHeader h).withBuf buf, rs') := by
  rcases gpt_read_eq (ε := ε) (d := d) (g := g₀) hrs with ⟨-, hwhy | hwhy⟩ | hrep
  · omega
  · rw [htable] at hwhy
    cases hwhy
  · rw [htable] at hrep
    obtain ⟨rs', -, hret⟩ := hrep
    exact ⟨rs', hret⟩

/-- And a copy has to be there for it to return 0. -/
theorem copy_of_read_gpt_data {rs rs' : List IoRes} {primary : Bool} {g₁ : Gpt} (hrs : .err ∉ rs)
    (hret : read_gpt_data (ε := ε) d rs primary g = .ret (0, g₁, rs')) :
    ∃ h buf, copy_at (ε := ε) d g (g.copy_lba primary) = .ret (some (h, buf)) ∧
      g₁ = (g.withHeader h).withBuf buf := by
  rcases read_gpt_data_eq (ε := ε) (d := d) (g := g) hrs primary with ⟨hhang, -⟩ | hrep
  · rw [hret] at hhang
    cases hhang
  rw [hret] at hrep
  rcases hsaid : copy_at (ε := ε) d g (g.copy_lba primary) with ⟨_ | ⟨h, buf⟩⟩ | e | _ | _
  · rw [hsaid] at hrep
    obtain ⟨r, h, es, rs'', heq, hneg, -, -⟩ := hrep
    simp only [Exec.ret.injEq, Prod.mk.injEq] at heq
    omega
  · rw [hsaid] at hrep
    obtain ⟨rs'', -, heq⟩ := hrep
    simp only [Exec.ret.injEq, Prod.mk.injEq, true_and] at heq
    exact ⟨h, buf, rfl, heq.1⟩
  · rw [hsaid] at hrep
    exact hrep.elim
  · rw [hsaid] at hrep
    cases hrep
  · rw [hsaid] at hrep
    cases hrep

omit [Platform] in
/-- What is read back is the table that was written. -/
theorem sameTable_written {g₀ : Gpt} {h : GptHeader} (hg : g.Laid)
    (hh : SameHeader h g.header) : SameTable ((g₀.withHeader h).withBuf g.buf) g where
  header := hh
  entries := hg.live.symm

/-- The backup copy reads as the table exactly if what is left of its header says
so. -/
theorem overhangSpells_iff (hp : Placed d g) (hd : Holds d g) :
    OverhangSpells d g ↔ ∃ h, copy_at (ε := Empty) d g (g.copy_lba false) = .ret (some (h, g.buf)) ∧
      SameHeader h g.header := by
  have hend := hp.disk_end
  have hL := hp.sector
  have hbase : (g.lba_offset (g.copy_lba false)).toNat = g.backup_base := backup_base_offset hp
  simp only [copy_at_eq_some, hbase, hd.backup]
  constructor
  · rintro ⟨h, hhead, hsame, harr⟩
    exact ⟨h, ⟨by omega, hhead, harr⟩, hsame⟩
  · rintro ⟨h, ⟨-, hhead, harr⟩, hsame⟩
    exact ⟨h, hhead, hsame, harr⟩

/-- **The table round-trips exactly if** its array is a whole number of sectors, or
the part of it that runs over the backup header spells such a header. -/
theorem round_trips_iff {io io' : Io} {g' : Gpt} (hobt : g.Obtained) (hfit : Fits io.dev g)
    (hrs : ∀ r ∈ io.rs, r = .all) (hwrite : gpt_write (ε := Empty) io g = .ret (0, g', io')) :
    RoundTrips io'.dev g g' ↔
      g.lba_size.toNat ∣ g.header.entries_size.toNat ∨
        OverhangSpells (io.dev.withData (io.dev.data.apply (stores g))) g := by
  have hg := hobt.sound
  have hp := placed hfit
  obtain ⟨rfl, hafter⟩ := gpt_write_ret hg hfit hrs hwrite
  rw [hafter.data]
  have hd := holds_stores (d := io.dev) hg hp
  have hp' : Placed (io.dev.withData (io.dev.data.apply (stores g'))) g' :=
    placed ⟨hfit.sector, hfit.metadata, hfit.device⟩
  have hspell := overhangSpells_iff hp' hd
  have hprim := copy_at_primary (ε := Empty) hg hp' hd
  constructor
  · intro htrip
    right
    -- the backup copy has been read: what was there passed for it
    obtain ⟨g₁, rs', hret, hsame⟩ := htrip.backup g' [.all, .all] (.refl g') (by decide) (by decide)
    obtain ⟨h, buf, hcopy, rfl⟩ := copy_of_read_gpt_data (by decide) hret
    have hbuf : buf = g'.buf := by
      have hentries := hsame.entries
      rw [hg.live] at hentries
      injection hentries
    rw [hbuf] at hcopy
    exact hspell.mpr ⟨h, hcopy, hsame.header⟩
  · intro hcond
    have hback : ∃ h, copy_at (ε := Empty) (io.dev.withData (io.dev.data.apply (stores g'))) g'
        (g'.copy_lba false) = .ret (some (h, g'.buf)) ∧ SameHeader h g'.header := by
      rcases hcond with hdvd | hspells
      · exact ⟨_, copy_at_backup hg hp' hd (overhung_header_of_dvd hg.toLaid hdvd), rfl⟩
      · exact hspell.mp hspells
    obtain ⟨h, hcopy, hsame⟩ := hback
    refine ⟨rfl, fun g₀ rs hdisk herr hall => ?_, fun g₀ rs hdisk herr hall => ?_,
      fun g₀ rs hdisk herr hall => ?_⟩
    · obtain ⟨rs', hret⟩ := read_gpt_data_of_copy hdisk herr hall hprim
      exact ⟨_, rs', hret, sameTable_written hg.toLaid rfl⟩
    · obtain ⟨rs', hret⟩ := read_gpt_data_of_copy hdisk herr hall hcopy
      exact ⟨_, rs', hret, sameTable_written hg.toLaid hsame⟩
    · have hend := hp'.disk_end
      have hL := hp'.sector
      have htable : table_on (ε := Empty) (io.dev.withData (io.dev.data.apply (stores g'))) g₀
          = .ret (some (written (primary_header g') (le_buf g'), g'.buf)) := by
        rw [table_on_of_mbr (by omega) hd.mbr, copy_at_sameDisk hdisk,
          show g₀.copy_lba true = g'.copy_lba true from rfl, hprim]
        rfl
      obtain ⟨rs', hret⟩ := gpt_read_of_table herr hall htable
      exact ⟨_, rs', hret⟩

end Both

/-! ### Two small tables

The disk of eight sectors again, with a table of four entries, whose array is one
sector, and with a table of one entry, whose array is a quarter of a sector. -/

section SmallTables

attribute [local instance] x86

/-- The header of a table of `n` entries. -/
def small_header (n crc pentry_crc : UInt32) : GptHeader :=
  { zero_header with
    revision := 0x00010000
    header_size := 92
    crc32 := crc
    current_lba := 1
    backup_lba := 7
    first_usable_lba := 3
    last_usable_lba := 5
    pentry_start_lba := 2
    num_pentries := n
    pentry_size := 128
    pentry_crc32 := pentry_crc }

def four_header : GptHeader := small_header 4 0x65cedceb 0xb2aa7578

def one_header : GptHeader := small_header 1 0x949655f2 0xc2a8fa9d

/-- What `gpt_read` makes of the disk with four entries. -/
def four_gpt : Gpt := (small_gpt.withHeader four_header).withBuf (List.replicate 512 0)

/-- And of the disk with one. -/
def one_gpt : Gpt := (small_gpt.withHeader one_header).withBuf (List.replicate 128 0)

set_option maxRecDepth 100000 in
theorem four_obtained : four_gpt.Obtained :=
  have hread : gpt_read (ε := Empty) (small_disk four_header) (List.replicate 3 .all) small_gpt
      = .ret (0, four_gpt, []) := by
    decide +kernel
  .read hread

theorem four_mapped : four_gpt.Mapped :=
  four_obtained.sound.toLaid.mapped ((GptHeader.inBounds_iff (by decide)).mpr (.inr (by decide)))

theorem one_obtained : one_gpt.Obtained :=
  have hread : gpt_read (ε := Empty) (small_disk one_header) (List.replicate 3 .all) small_gpt
      = .ret (0, one_gpt, []) := by
    decide +kernel
  .read hread

/-- Five calls that transfer everything. -/
def small_io (h : GptHeader) : Io where
  dev := small_disk h
  rs := List.replicate 5 .all
  eintr := false
  sent := []

theorem four_fits : Fits (small_io four_header).dev four_gpt :=
  ⟨by decide, by decide, by decide⟩

theorem one_fits : Fits (small_io one_header).dev one_gpt :=
  ⟨by decide, by decide, by decide⟩

theorem four_round_trips_iff : ∃ io',
    gpt_write (ε := Empty) (small_io four_header) four_gpt = .ret (0, four_gpt, io') ∧
    (RoundTrips io'.dev four_gpt four_gpt ↔
      four_gpt.lba_size.toNat ∣ four_gpt.header.entries_size.toNat ∨
        OverhangSpells ((small_io four_header).dev.withData
          ((small_io four_header).dev.data.apply (stores four_gpt))) four_gpt) := by
  obtain ⟨io', hret, -⟩ := @gpt_write_total Empty _ _ (small_io four_header)
    four_obtained.sound four_fits (by decide) (by decide) (by decide)
  exact ⟨io', hret, round_trips_iff four_obtained four_fits (by decide) hret⟩

/-- The array of the table with one entry wipes out its backup header. -/
theorem one_not_round_trips : one_gpt.Obtained ∧ Fits (small_io one_header).dev one_gpt ∧
    ∃ io', gpt_write (ε := Empty) (small_io one_header) one_gpt = .ret (0, one_gpt, io') ∧
      ¬ RoundTrips io'.dev one_gpt one_gpt := by
  obtain ⟨io', hret, hafter⟩ := @gpt_write_total Empty _ _ (small_io one_header)
    one_obtained.sound one_fits (by decide) (by decide) (by decide)
  refine ⟨one_obtained, one_fits, io', hret, fun htrip => ?_⟩
  rw [hafter.data] at htrip
  obtain ⟨g₁, rs', hread, -⟩ := htrip.backup one_gpt [.all, .all] (.refl _) (by decide) (by decide)
  obtain ⟨h, buf, hcopy, -⟩ := copy_of_read_gpt_data (by decide) hread
  have hnone : copy_at (ε := Empty) ((small_io one_header).dev.withData
      ((small_io one_header).dev.data.apply (stores one_gpt))) one_gpt
      (one_gpt.copy_lba false) = .ret none := by
    decide +kernel
  rw [hnone] at hcopy
  cases hcopy

end SmallTables

end Iago
