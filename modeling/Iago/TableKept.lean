/-
What becomes of a table once it is on the disk.

After `gpt_write` the disk is still written to: the partitions are filled, and a boot loader can
put its code before the protective MBR. The table is in the five ranges `gpt_write` writes, and
what leaves these alone (`KeepsTable`) leaves it as it was: `gpt_read` finds the same table, and
so does a reader of the backup copy if there is a whole one.

The table `partitioner_execute` hands to `gpt_write` is sound, in either mode: it is one that was
read or made, and every change after that is to an entry.
-/
import Iago.GptLayout
import Iago.GptRoundTrip
import Iago.PublishedOptions

set_option autoImplicit false

namespace Iago

/-! ## Ranges that are left alone -/

section Kept

variable {d d' d'' : Dev} {g : Gpt}

/-- Nothing has changed where the table is. -/
structure KeepsTable (g : Gpt) (d d' : Dev) : Prop where
  size : d'.size = d.size
  data : ∀ w ∈ write_ranges g, ∀ p, w.1 ≤ p → p < w.1 + w.2 → d'.data p = d.data p

theorem KeepsTable.refl (g : Gpt) (d : Dev) : KeepsTable g d d := ⟨rfl, fun _ _ _ _ _ => rfl⟩

theorem KeepsTable.trans (h : KeepsTable g d d') (h' : KeepsTable g d' d'') : KeepsTable g d d'' where
  size := h'.size.trans h.size
  data w hw p hp hp' := (h'.data w hw p hp hp').trans (h.data w hw p hp hp')

/-- A change of the usable area does, if that is apart from the ranges. -/
theorem KeepsTable.of_usable (hapart : ∀ w ∈ write_ranges g, RangesApart w (usable_area g))
    (hsize : d'.size = d.size)
    (hdata : ∀ p, p < (usable_area g).1 ∨ (usable_area g).1 + (usable_area g).2 ≤ p →
      d'.data p = d.data p) : KeepsTable g d d' where
  size := hsize
  data w hw p hp hp' := by
    have hw := hapart w hw
    rw [RangesApart] at hw
    exact hdata p (by omega)

/-- The ranges, once they are known to be on the disk. -/
theorem write_ranges_placed (hp : Placed d g) : write_ranges g
    = [(g.primary_base, 92), (g.primary_array_base, g.header.entries_size.toNat),
      (g.backup_base, 92), (g.backup_array_base, g.header.entries_size.toNat), (440, 72)] := by
  have hprim : (g.lba_offset 1).toNat = g.primary_base := primary_offset g
  rw [write_ranges, hprim, primary_array_offset, backup_base_offset hp, backup_array_offset hp]

/-- Boot code of up to 440 bytes is before all of them. -/
theorem KeepsTable.of_boot_code (hp : Placed d g) {code : List UInt8} (hlen : code.length ≤ 440) :
    KeepsTable g d (d.withData (d.data.write 0 code)) where
  size := rfl
  data w hw p hp₁ hp₂ := by
    have hL := hp.sector
    have hfront := hp.primary
    have hback := hp.backup
    have hbase : g.primary_base = g.lba_size.toNat := rfl
    have habase : g.primary_array_base = 2 * g.lba_size.toNat := rfl
    have hout : 440 ≤ p := by
      rw [write_ranges_placed hp] at hw
      simp only [List.mem_cons, List.not_mem_nil, or_false] at hw
      rcases hw with rfl | rfl | rfl | rfl | rfl
      all_goals
        simp only at hp₁
        omega
    exact Store.write_apply_of_outside (by omega)

/-- Where the copies are does not change with the rest of the disk. -/
theorem Placed.kept (hp : Placed d g) (hk : KeepsTable g d d') : Placed d' g :=
  ⟨hp.sector, hp.quotient, hp.sectors, hp.primary, hp.backup, hk.size ▸ hp.array_end,
    hk.size ▸ hp.disk_end⟩

variable [Platform]

/-- What the disk held, it holds. -/
theorem Holds.kept (hp : Placed d g) (hd : Holds d g) (hk : KeepsTable g d d') : Holds d' g := by
  have hdata := hk.data
  rw [write_ranges_placed hp] at hdata
  simp only [List.forall_mem_cons, List.not_mem_nil, false_imp_iff, implies_true, and_true] at hdata
  obtain ⟨hprim, harr, hback, hbarr, hmbr⟩ := hdata
  refine ⟨?_, ?_, ?_, ?_, ?_⟩
  · rw [hmbr 450 (by decide) (by decide), hd.mbr]
  · rw [Store.read_congr hprim, hd.primary]
  · rw [Store.read_congr harr, hd.primary_array]
  · rw [Store.read_congr hback, hd.backup]
  · rw [Store.read_congr hbarr, hd.backup_array]

/-- **The table is on the disk**: `gpt_read` returns it, and so does a reader of the backup copy,
if the array leaves that whole. -/
structure TableOn (d : Dev) (g : Gpt) : Prop where
  read : ∀ g₀ rs, g₀.SameDisk g → .err ∉ rs → 5 ≤ rs.count .all → ∃ g₁ rs',
    gpt_read (ε := Empty) d rs g₀ = .ret (0, g₁, rs') ∧ SameTable g₁ g
  backup : g.lba_size.toNat ∣ g.header.entries_size.toNat →
    ∀ g₀ rs, g₀.SameDisk g → .err ∉ rs → 2 ≤ rs.count .all → ∃ g₁ rs',
      read_gpt_data (ε := Empty) d rs false g₀ = .ret (0, g₁, rs') ∧ SameTable g₁ g

/-- A disk that holds the copies has the table on it. -/
theorem tableOn_of_holds (hg : g.Sound) (hp : Placed d g) (hd : Holds d g) : TableOn d g where
  read := by
    intro g₀ rs hdisk herr hall
    have hend := hp.disk_end
    have hL := hp.sector
    have htable : table_on (ε := Empty) d g₀
        = .ret (some (written (primary_header g) (le_buf g), g.buf)) := by
      rw [table_on_of_mbr (by omega) hd.mbr, copy_at_sameDisk hdisk,
        show g₀.copy_lba true = g.copy_lba true from rfl, copy_at_primary hg hp hd]
      rfl
    obtain ⟨rs', hret⟩ := gpt_read_of_table herr hall htable
    exact ⟨_, rs', hret, sameTable_written hg.toLaid rfl⟩
  backup := by
    intro hdvd g₀ rs hdisk herr hall
    have hcopy := copy_at_backup (ε := Empty) hg hp hd (overhung_header_of_dvd hg.toLaid hdvd)
    obtain ⟨rs', hret⟩ := read_gpt_data_of_copy hdisk herr hall hcopy
    exact ⟨_, rs', hret, sameTable_written hg.toLaid rfl⟩

/-- **It stays there** after `gpt_write`, whatever happens away from it. -/
theorem tableOn_of_write {ε : Type} {io io' : Io} {g' : Gpt} (hg : g.Sound) (hfit : Fits io.dev g)
    (hrs : ∀ r ∈ io.rs, r = .all) (hwrite : gpt_write (ε := ε) io g = .ret (0, g', io'))
    (hk : KeepsTable g io'.dev d) : TableOn d g := by
  have hp := placed hfit
  obtain ⟨-, hafter⟩ := gpt_write_ret hg hfit hrs hwrite
  rw [hafter.data] at hk
  have hd := holds_stores (d := io.dev) hg hp
  have hp' : Placed (io.dev.withData (io.dev.data.apply (stores g))) g :=
    placed ⟨hfit.sector, hfit.metadata, hfit.device⟩
  exact tableOn_of_holds hg (hp'.kept hk) (hd.kept hp' hk)

end Kept

/-! ## The table that is written is sound -/

section Sound

variable {m : Machine} {ictx ictx' : Ictx} {a : CreateArgs} {g g' : Gpt}

/-- Soundness is about the header and the size of the array. -/
theorem Gpt.Sound.of_header (hg : g.Sound) (hlaid : g'.Laid) (h : g'.header = g.header) :
    g'.Sound where
  toLaid := hlaid
  sig := by rw [h]; exact hg.sig
  header_size_le := by rw [h]; exact hg.header_size_le

variable [Platform]

/-- The table that comes to the partitions is sound. -/
theorem until_sound [Qsort] (h : partitioner_until m ictx = .ret a) : a.table.Sound := by
  unfold partitioner_until at h
  obtain ⟨partlist, -, h⟩ := Exec.bind_eq_ret.mp h
  obtain ⟨disk, -, h⟩ := Exec.bind_eq_ret.mp h
  obtain ⟨s, -, h⟩ := Exec.bind_eq_ret.mp h
  obtain ⟨dualboot, -, h⟩ := Exec.bind_eq_ret.mp h
  split_ifs at h with hdual
  · -- a table that was read, and edited
    obtain ⟨r⟩ := dual_boot_until_ret h
    rw [r.args_eq]
    obtain ⟨hsound, -⟩ := gpt_read_sound r.read_eq
    have hrew := edits_rewritten hsound.live r.resize_eq r.delete_eq
    exact hsound.of_header (hrew.laid hsound.toLaid) hrew.header
  · -- a new one
    unfold wipe_disk_until at h
    cases hinit : m.gpt_init with
    | none =>
      rw [hinit] at h
      cases h
    | some init =>
      rw [hinit] at h
      obtain ⟨⟨ret, g, urandom⟩, hnew, h⟩ := Exec.bind_eq_ret.mp h
      simp only at h
      split_ifs at h with hret
      obtain rfl := not_not.mp hret
      obtain ⟨s, -, h⟩ := Exec.bind_eq_ret.mp h
      obtain ⟨len, -, h⟩ := Exec.bind_eq_ret.mp h
      injection h with h
      obtain ⟨-, uuid, -, rfl⟩ := gpt_new_ret hnew
      rw [← h]
      exact new_table_sound init uuid

/-- Claiming an entry leaves the rest of the table. -/
theorem claim_rewritten {esp : Option UInt32} (hlive : g.entries = .live g.buf)
    (h : CreateArgs.claim esp g ictx = .ret (g', ictx')) : g.Rewritten g' := by
  unfold CreateArgs.claim at h
  cases esp with
  | none =>
    simp only [Exec.ret.injEq, Prod.mk.injEq] at h
    exact h.1 ▸ .refl hlive
  | some i =>
    cases hget : gpt_entry_get i g with
    | none =>
      simp only [hget] at h
      cases h
    | some off =>
      simp only [hget] at h
      obtain ⟨e, -, h⟩ := Exec.bind_eq_ret.mp h
      obtain ⟨g₁, hstore, h⟩ := Exec.bind_eq_ret.mp h
      split_ifs at h
      simp only [Exec.ret.injEq, Prod.mk.injEq] at h
      exact h.1 ▸ store_ret hstore

/-- **The table that `partitioner_execute` writes is sound**, and its entries have room. -/
theorem partitioner_table_sound [Qsort] (h : partitioner_table m ictx = .ret (g, ictx')) :
    g.Sound ∧ g.Mapped := by
  rw [partitioner_table_eq] at h
  obtain ⟨a, huntil, hfin⟩ := Exec.bind_eq_ret.mp h
  have hsound := until_sound huntil
  unfold CreateArgs.finish CreateArgs.install at hfin
  obtain ⟨⟨g₁, ictx₁⟩, hinstall, hfin⟩ := Exec.bind_eq_ret.mp hfin
  obtain ⟨opts₁, -, hfin⟩ := Exec.bind_eq_ret.mp hfin
  simp only [Exec.ret.injEq, Prod.mk.injEq] at hfin
  obtain ⟨rfl, -⟩ := hfin
  obtain ⟨⟨created, opts₂, urandom'⟩, hcreate, hclaim⟩ := Exec.bind_eq_ret.mp hinstall
  have hmap := mapped_of_create hsound.toLaid hcreate
  have hkept := create_kept hmap hcreate
  have hrew := claim_rewritten hkept.mapped.live hclaim
  have hheader := hrew.header.trans hkept.header
  refine ⟨hsound.of_header (hrew.laid hkept.mapped.laid) hheader,
    (hrew.laid hkept.mapped.laid).mapped ?_⟩
  rw [hheader]
  exact hmap.inBounds

end Sound

end Iago
