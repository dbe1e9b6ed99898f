/-
What a dual-boot installation touches.

Every step works on entries it finds by an index or by a name: the resize on the entry
at `msdata_index`, the deletion on the names that start with `android_`, the creation on
slots that are not in use, the renaming on the entry at `esp_index`. An entry that is
none of these comes through as it was (`DualRun.entry_eq`). The two indices were saved
earlier, though, and nothing keeps the steps from working on each other's entries: an
EFI system partition called `android_…` is deleted before it is renamed, and what is
renamed then is whatever got its slot. `touches_only_own_iff` says when that happens.
-/
import Iago.DualBoot

set_option autoImplicit false

namespace Iago

section Frame

variable [Platform]

/-! ## What the claim on the table is -/

/-- The name of an entry starts with `android_`. -/
def android_named (e : GptEntry) : Bool := (entry_name e).take 8 = NAME_MAGIC

/-- The entry at `i` is the first in use of its type. -/
structure FirstOfType (g : Gpt) (type : Guid) (i : UInt32) : Prop where
  inUse : g.InUse i
  type_eq : (g.entry i).type_guid = type
  first : ∀ j, g.InUse j → (g.entry j).type_guid = type → i ≤ j

/-- `ntfsresize` agrees to a dry run only for a size the partition has room for. -/
def NtfsresizeChecks (m : Machine) (g : Gpt) (i : UInt32) : Prop :=
  ∀ device new_size, gpt_get_device_node (ε := Die) i g = .ret device →
    m.command (resize_dry_run_command device new_size) = 0 →
    0 ≤ new_size.toInt64 ∧ new_size.toNat
      ≤ ((g.entry i).last_lba.toNat + 1 - (g.entry i).first_lba.toNat) * g.lba_size.toNat

/-- Of what was in use only Windows, the EFI system partition and Android change: Windows
ends no later and has room for its new size, and the EFI system partition gets a name. An
entry is as it was when its 128 bytes are, of which it is the decoding. -/
structure TouchesOnlyOwn (g g' : Gpt) (esp_index win_index : UInt32) (win_resize : Int64) :
    Prop where
  others : ∀ i, g.InUse i → android_named (g.entry i) = false → i ≠ esp_index → i ≠ win_index →
    g'.entry i = g.entry i
  windows : g.InUse win_index →
    g'.entry win_index = { g.entry win_index with last_lba := (g'.entry win_index).last_lba } ∧
    (g'.entry win_index).last_lba ≤ (g.entry win_index).last_lba ∧
    win_resize.toUInt64.toNat ≤ ((g'.entry win_index).last_lba.toNat + 1
      - (g'.entry win_index).first_lba.toNat) * g.lba_size.toNat
  esp : (g'.entry esp_index).type_guid = (g.entry esp_index).type_guid ∧
    (g'.entry esp_index).part_guid = (g.entry esp_index).part_guid ∧
    (g'.entry esp_index).flags = (g.entry esp_index).flags ∧
    (g'.entry esp_index).first_lba = (g.entry esp_index).first_lba ∧
    (g'.entry esp_index).last_lba = (g.entry esp_index).last_lba
  esp_name : gpt_entry_get_name (ε := Die) (gpt_entry_offset esp_index g') g'
    = .ret bootloader_name

/-- The steps do not meet: neither Windows nor the EFI system partition is taken for
Android, and they are two entries unless resizing and renaming change nothing. -/
structure StepsApart (g : Gpt) (esp_index win_index : UInt32) (win_resize android_size : Int64) :
    Prop where
  esp : android_size ≠ 0 → ¬ g.Deleted esp_index
  windows : android_size ≠ 0 → ¬ g.Deleted win_index
  same : g.InUse win_index → win_index = esp_index → renamed (g.entry esp_index) = g.entry esp_index ∧
    (win_resize ≠ 0 →
      (resized g win_index win_resize.toUInt64).last_lba = (g.entry win_index).last_lba)

/-! ## A new size for Windows -/

/-- An entry that was resized ends no later and has room for the size. -/
theorem resized_bounds {m : Machine} {g g' : Gpt} {i : UInt32} {new_size : UInt64}
    (hg : g.Mapped) (hchecks : NtfsresizeChecks m g i) (hne : new_size ≠ 0)
    (h : resize_ntfs_partition m i g new_size = .ret g') :
    (resized g i new_size).last_lba ≤ (g.entry i).last_lba ∧
      new_size.toNat ≤ ((resized g i new_size).last_lba.toNat + 1
        - (resized g i new_size).first_lba.toNat) * g.lba_size.toNat := by
  obtain ⟨-, hL, -, device, hnode, hdry⟩ := resize_spec hg h
  obtain ⟨hsign, hroom⟩ := hchecks device new_size hnode hdry
  have hLpos : 0 < g.lba_size.toNat := by
    rw [Nat.pos_iff_ne_zero]
    exact fun h0 => hL (UInt32.toNat_inj.mp h0)
  have hsmall : new_size.toNat < 2 ^ 63 := by
    rw [Int64.le_iff_toInt_le, toInt_toInt64] at hsign
    by_contra hbig
    rw [if_neg hbig] at hsign
    have := new_size.toNat_lt
    have hzero : (0 : Int64).toInt = 0 := rfl
    omega
  have hpos : 0 < new_size.toNat := by
    rw [Nat.pos_iff_ne_zero]
    exact fun h0 => hne (UInt64.toNat_inj.mp h0)
  have hceil : (to_unit_ceiling new_size g.lba_size.toUInt64).toNat
      = (new_size.toNat + (g.lba_size.toNat - 1)) / g.lba_size.toNat := by
    have hlt := g.lba_size.toNat_lt
    rw [to_unit_ceiling_toNat (by rw [UInt32.toNat_toUInt64]; exact hLpos)
      (by rw [UInt32.toNat_toUInt64]; omega), UInt32.toNat_toUInt64]
  -- the sectors of the new size: one at least, and no more than there are
  generalize hq : (new_size.toNat + (g.lba_size.toNat - 1)) / g.lba_size.toNat = q at hceil
  have hqpos : 0 < q := by
    rw [← hq]
    exact Nat.div_pos (by omega) hLpos
  have hqcover : new_size.toNat ≤ q * g.lba_size.toNat := by
    have hdiv := Nat.div_add_mod (new_size.toNat + (g.lba_size.toNat - 1)) g.lba_size.toNat
    have hmod := Nat.mod_lt (new_size.toNat + (g.lba_size.toNat - 1)) hLpos
    rw [hq, Nat.mul_comm] at hdiv
    omega
  have hqle : q ≤ (g.entry i).last_lba.toNat + 1 - (g.entry i).first_lba.toNat := by
    rw [← hq]
    refine Nat.le_of_lt_succ ((Nat.div_lt_iff_lt_mul hLpos).mpr ?_)
    rw [Nat.succ_mul]
    omega
  have hlast : (resized g i new_size).last_lba.toNat = (g.entry i).first_lba.toNat + q - 1 := by
    have hlt := (g.entry i).last_lba.toNat_lt
    show ((g.entry i).first_lba + to_unit_ceiling new_size g.lba_size.toUInt64 - 1).toNat = _
    rw [UInt64.toNat_sub, UInt64.toNat_add, hceil, UInt64.toNat_one]
    omega
  have hfirst : (resized g i new_size).first_lba = (g.entry i).first_lba := rfl
  refine ⟨?_, ?_⟩
  · rw [UInt64.le_iff_toNat_le, hlast]
    omega
  · rw [hlast, hfirst, show (g.entry i).first_lba.toNat + q - 1 + 1 - (g.entry i).first_lba.toNat = q
      by omega]
    exact hqcover

/-! ## The entries after each step -/

/-- A GUID the random source can give from now on. -/
def Drawn (r : Urandom) (uuid : Guid) : Prop :=
  ∃ k, (generate_uuid (Urandom.next^[k] r)).1 = some uuid

/-- The GUIDs drawn are none that is there: neither that of Windows nor that of the EFI
system partition. -/
def FreshGuids (m : Machine) (g : Gpt) (esp_index win_index : UInt32) : Prop :=
  ¬ Drawn m.urandom (g.entry esp_index).part_guid ∧
    ¬ Drawn m.urandom (g.entry win_index).part_guid

/-- What is in use after a run was in use before it or has a GUID drawn in it. -/
theorem Run.drawn {list : List CStr} {mc mc' : MkpartCtx} (h : Run Mkpart list mc mc')
    (hg : mc.gpt.Mapped) {j : UInt32} (hj : mc'.gpt.InUse j) :
    mc.gpt.InUse j ∨ Drawn mc.urandom (mc'.gpt.entry j).part_guid := by
  induction h with
  | nil mc => exact .inl hj
  | @cons n list mc₁ mc₂ mc₃ hstep hrest ih =>
    rcases hstep with ⟨-, rfl⟩ | ⟨len, i, e, hmade⟩
    · exact ih hg hj
    have hk := hmade.kept hg
    rcases ih hk.mapped hj with hj₂ | ⟨k, hk'⟩
    · obtain ⟨-, -, hself, hold⟩ := hmade.new hg
      rcases hold j hj₂ with rfl | ⟨hj₁, -⟩
      · right
        refine ⟨0, ?_⟩
        rw [((hrest.kept hk.mapped).keeps j hj₂).2, hself]
        exact hmade.guid
      · exact .inl hj₁
    · right
      refine ⟨k + 1, ?_⟩
      rw [Function.iterate_succ_apply, ← hmade.urandom]
      exact hk'

variable [Qsort] {m : Machine} {disk partlist : CStr} {ictx ictx' : Ictx} {g' : Gpt}

namespace DualRun

variable (r : DualRun m disk partlist ictx g' ictx')

/-- The table that was read is mapped: the search for space has looked at its slots. -/
theorem read_mapped : r.read.Mapped := by
  have hlaid : r.read.Laid := (gpt_read_sound r.read_eq).1.toLaid
  have hresized : r.read.Rewritten r.resized := by
    rcases r.resize_eq with ⟨-, heq⟩ | ⟨-, hret⟩
    · rw [heq]
      exact .refl hlaid.live
    · exact resize_rewritten hret
  have hdeleted : r.read.Rewritten r.deleted := by
    rcases r.delete_eq with ⟨-, heq⟩ | ⟨-, hret⟩
    · rw [heq]
      exact hresized
    · exact hresized.trans (delete_android_rewritten hresized.live hret)
  refine hlaid.mapped ?_
  rw [← hdeleted.header]
  exact (mapped_of_create (hdeleted.laid hlaid) r.create_eq).inBounds

/-- The entry at `i` after the resize. -/
def shrunk (i : UInt32) : GptEntry :=
  if r.win_resize ≠ 0 ∧ i = r.win_index then Iago.resized r.read i r.win_resize.toUInt64
  else r.read.entry i

/-- The entry at `i` is deleted with Android. -/
def Drops (i : UInt32) : Prop := r.android_size ≠ 0 ∧ r.read.Deleted i

instance (i : UInt32) : Decidable (r.Drops i) := inferInstanceAs (Decidable (_ ∧ _))

/-- A resize changes neither where an entry starts nor its name. -/
theorem shrunk_eq (i : UInt32) : r.shrunk i
    = { r.read.entry i with last_lba := (r.shrunk i).last_lba } :=
  shrunk_entry_eq r.read r.win_index r.win_resize i

/-- The first two steps are the two edits. -/
theorem edited : Edited r.read r.win_index r.win_resize r.android_size r.deleted := by
  have hresize : (if r.win_resize ≠ 0 then
      resize_ntfs_partition m r.win_index r.read r.win_resize.toUInt64 else .ret r.read)
      = .ret r.resized := by
    rcases r.resize_eq with ⟨h0, heq⟩ | ⟨hne, hret⟩
    · rw [if_neg (not_not.mpr h0), heq]
    · rw [if_pos hne, hret]
  have hdelete : (if r.android_size ≠ 0 then delete_android r.resized else .ret r.resized)
      = .ret r.deleted := by
    rcases r.delete_eq with ⟨h0, heq⟩ | ⟨hne, hret⟩
    · rw [if_neg (not_not.mpr h0), heq]
    · rw [if_pos hne, hret]
  exact edits_spec r.read_mapped hresize hdelete

/-- The entries after the first two steps, and which of them are gone. -/
theorem deleted_entry {i : UInt32} (hi : r.read.Index i) :
    r.deleted.entry i = if r.Drops i then GptEntry.zero else r.shrunk i :=
  r.edited.entry i hi

/-- Making partitions keeps what they leave. -/
theorem created_kept : Kept r.deleted r.created := create_kept r.edited.mapped r.create_eq

/-- The indices are the same throughout. -/
theorem created_index (i : UInt32) : r.created.Index i ↔ r.read.Index i := by
  rw [Gpt.Index, Gpt.Index, r.created_kept.header, r.edited.header]

include r in
theorem final_mapped : g'.Mapped := by
  have hmapped : (r.created.setEntry r.esp_index (renamed (r.created.entry r.esp_index))).Mapped :=
    setEntry_mapped r.created_kept.mapped r.esp_index_in
  rwa [← r.final_eq] at hmapped

/-- The EFI system partition has an entry in the final table. -/
theorem esp_index_final : g'.Index r.esp_index := by
  have hidx : (r.created.setEntry r.esp_index (renamed (r.created.entry r.esp_index))).Index
      r.esp_index := r.esp_index_in
  rwa [← r.final_eq] at hidx

/-- The last step renames one entry. -/
theorem final_entry {i : UInt32} (hi : r.read.Index i) : g'.entry i
    = if i = r.esp_index then renamed (r.created.entry i) else r.created.entry i := by
  have hi' := (r.created_index i).mpr hi
  have hfinal := congrArg (fun g => Gpt.entry g i) r.final_eq
  simp only [entry_setEntry r.created_kept.mapped r.esp_index_in hi'] at hfinal
  rw [hfinal]
  split_ifs with h
  · rw [h]
  · rfl

/-- **An entry in use that is not deleted** comes through resized and renamed at most. -/
theorem entry_eq {i : UInt32} (hi : r.read.InUse i) (hkeep : ¬ r.Drops i) : g'.entry i
    = if i = r.esp_index then renamed (r.shrunk i) else r.shrunk i := by
  have hent := r.deleted_entry hi.1
  rw [if_neg hkeep] at hent
  have huse : r.deleted.InUse i := by
    refine ⟨?_, ?_⟩
    · rw [Gpt.Index, r.edited.header]
      exact hi.1
    · rw [hent, r.shrunk_eq i]
      exact hi.2
  rw [r.final_entry hi.1, (r.created_kept.keeps i huse).2, hent]

/-- **An entry that is deleted does not come back**: its slot stays free or gets a new
GUID. -/
theorem entry_dropped {i : UInt32} (hi : r.read.Index i) (hdrop : r.Drops i) :
    (g'.entry i).first_lba = 0 ∨ Drawn m.urandom (g'.entry i).part_guid := by
  -- The name that the ESP gets at the end leaves LBAs and GUIDs as they are.
  have hrename : (g'.entry i).first_lba = (r.created.entry i).first_lba ∧
      (g'.entry i).part_guid = (r.created.entry i).part_guid := by
    rw [r.final_entry hi]
    split_ifs
    · rw [renamed, gpt_entry_set_name]
      split_ifs
      · exact ⟨rfl, rfl⟩
      · exact ⟨rfl, rfl⟩
    · exact ⟨rfl, rfl⟩
  rw [hrename.1, hrename.2]
  by_cases huse : r.created.InUse i
  · obtain ⟨needed, s, e, len, -, -, -, -, mc', hloop, hgpt, -, -⟩ := create_spec r.create_eq
    have hmap : (mkpart_start r.deleted s e needed true
        (dual_opts ictx.opts r.esp_size r.esp_index r.node) len m.urandom).gpt.Mapped :=
      r.edited.mapped
    rw [← hgpt] at huse ⊢
    rcases (mkpart_run hmap hloop).drawn hmap huse with hold | hdrawn
    · have hzero := r.deleted_entry hi
      rw [if_pos hdrop] at hzero
      have hne : (r.deleted.entry i).first_lba ≠ 0 := hold.2
      rw [hzero] at hne
      exact absurd rfl hne
    · exact .inr hdrawn
  · left
    by_contra hne
    exact huse ⟨(r.created_index i).mpr hi, hne⟩

end DualRun

/-! ## When only its own entries are touched -/

omit [Qsort] in
/-- A name that starts with `android_` is all that deletes an entry. -/
theorem android_named_of_android_entry {e : GptEntry} (h : android_entry e = true) :
    android_named e = true := by
  rw [android_entry] at h
  simp only [is_android, decide_eq_true_eq] at h
  exact decide_eq_true h.1

omit [Qsort] in
/-- The new name is read back from a renamed entry. -/
theorem renamed_name {g : Gpt} (hg : g.Mapped) {i : UInt32} (hi : g.Index i) {e : GptEntry}
    (h : g.entry i = renamed e) :
    gpt_entry_get_name (ε := Die) (gpt_entry_offset i g) g = .ret bootloader_name := by
  have hlen : bootloader_name.length ≤ 35 := by decide
  have hname : (g.entry i).name = overwriteName e.name bootloader_name hlen := by
    rw [h, renamed, gpt_entry_set_name_of_le hlen]
  have hascii : ∀ c ∈ bootloader_name, c < 128 := by decide +kernel
  rw [get_name_overwriteName hg hi hlen (by decide) hname, map_shown hascii]

omit [Qsort] in
/-- Renaming changes the name only. -/
theorem renamed_eq (e : GptEntry) : renamed e = { e with name := (renamed e).name } := by
  rw [renamed, gpt_entry_set_name]
  split_ifs
  · rfl
  · rfl

omit [Qsort] in
/-- The new name depends on the old one only. -/
theorem renamed_name_congr (e : GptEntry) (last_lba : UInt64) :
    (renamed { e with last_lba := last_lba }).name = (renamed e).name := by
  have hlen : bootloader_name.length ≤ 35 := by decide
  rw [renamed, renamed, gpt_entry_set_name_of_le hlen, gpt_entry_set_name_of_le hlen]

namespace DualRun

variable (r : DualRun m disk partlist ictx g' ictx')

/-- Where Windows ends after the resize, and that there is room for its new size. -/
theorem shrunk_bounds (hchecks : NtfsresizeChecks m r.read r.win_index) :
    (r.shrunk r.win_index).last_lba ≤ (r.read.entry r.win_index).last_lba ∧
      r.win_resize.toUInt64.toNat ≤ ((r.shrunk r.win_index).last_lba.toNat + 1
        - (r.shrunk r.win_index).first_lba.toNat) * r.read.lba_size.toNat := by
  rcases r.resize_eq with ⟨h0, -⟩ | ⟨hne, hret⟩
  · rw [shrunk, if_neg fun h => h.1 h0, h0]
    exact ⟨UInt64.le_refl _, Nat.zero_le _⟩
  · rw [shrunk, if_pos ⟨hne, rfl⟩]
    refine resized_bounds r.read_mapped hchecks (fun h0 => hne ?_) hret
    exact congrArg UInt64.toInt64 h0

/-- Steps that keep apart touch only what they should. -/
theorem touches_only_own (hesp : r.read.InUse r.esp_index)
    (hchecks : NtfsresizeChecks m r.read r.win_index)
    (hap : StepsApart r.read r.esp_index r.win_index r.win_resize r.android_size) :
    TouchesOnlyOwn r.read g' r.esp_index r.win_index r.win_resize := by
  have hesp_eq : g'.entry r.esp_index = renamed (r.shrunk r.esp_index) := by
    rw [r.entry_eq hesp fun hd => hap.esp hd.1 hd.2, if_pos rfl]
  -- the EFI system partition is not resized, or to no effect
  have hesp_shrunk : r.shrunk r.esp_index = r.read.entry r.esp_index := by
    rw [shrunk]
    by_cases hres : r.win_resize ≠ 0 ∧ r.esp_index = r.win_index
    · rw [if_pos hres]
      have hlast := (hap.same (hres.2 ▸ hesp) hres.2.symm).2 hres.1
      rw [← hres.2] at hlast
      have hsame : Iago.resized r.read r.esp_index r.win_resize.toUInt64
          = { r.read.entry r.esp_index with
              last_lba := (Iago.resized r.read r.esp_index r.win_resize.toUInt64).last_lba } := rfl
      rw [hsame, hlast]
    · rw [if_neg hres]
  refine ⟨?_, ?_, ?_, ?_⟩
  · intro i hi hname hne_esp hne_win
    have hkeep : ¬ r.Drops i := by
      rintro ⟨-, -, hdel⟩
      rw [android_named_of_android_entry hdel] at hname
      cases hname
    rw [r.entry_eq hi hkeep, if_neg hne_esp, shrunk, if_neg fun h => hne_win h.2]
  · intro hwin
    obtain ⟨hle, hroom⟩ := r.shrunk_bounds hchecks
    have hwin_eq : g'.entry r.win_index = r.shrunk r.win_index := by
      rw [r.entry_eq hwin fun hd => hap.windows hd.1 hd.2]
      by_cases hsame : r.win_index = r.esp_index
      · rw [if_pos hsame, hsame, hesp_shrunk]
        exact (hap.same hwin hsame).1
      · rw [if_neg hsame]
    rw [hwin_eq]
    exact ⟨r.shrunk_eq _, hle, hroom⟩
  · rw [hesp_eq, hesp_shrunk, renamed_eq]
    exact ⟨rfl, rfl, rfl, rfl, rfl⟩
  · exact renamed_name r.final_mapped r.esp_index_final hesp_eq

/-- And steps that touch only what they should have kept apart. -/
theorem steps_apart (hesp : r.read.InUse r.esp_index)
    (hfresh : FreshGuids m r.read r.esp_index r.win_index)
    (htouch : TouchesOnlyOwn r.read g' r.esp_index r.win_index r.win_resize) :
    StepsApart r.read r.esp_index r.win_index r.win_resize r.android_size := by
  have hesp_keep : ¬ r.Drops r.esp_index := by
    intro hdrop
    obtain ⟨-, hguid, -, hfirst, -⟩ := htouch.esp
    rcases r.entry_dropped hesp.1 hdrop with h0 | hdrawn
    · exact hesp.2 (hfirst.symm.trans h0)
    · exact hfresh.1 (hguid ▸ hdrawn)
  refine ⟨fun hne hd => hesp_keep ⟨hne, hd⟩, fun hne hd => ?_, fun hwin hsame => ?_⟩
  · have heq := (htouch.windows hd.1).1
    rcases r.entry_dropped hd.1.1 ⟨hne, hd⟩ with h0 | hdrawn
    · rw [heq] at h0
      exact hd.1.2 h0
    · rw [heq] at hdrawn
      exact hfresh.2 hdrawn
  · have heq := r.entry_eq hesp hesp_keep
    rw [if_pos rfl] at heq
    refine ⟨?_, fun hne => ?_⟩
    · -- Windows keeps its name, so the new name is the old one
      have hname := congrArg GptEntry.name (htouch.windows hwin).1
      rw [hsame, heq, r.shrunk_eq, renamed_name_congr] at hname
      rw [renamed_eq, hname]
    · obtain ⟨-, -, -, -, hlast⟩ := htouch.esp
      rw [heq, renamed_eq, shrunk, if_pos ⟨hne, hsame.symm⟩] at hlast
      rw [hsame]
      exact hlast

end DualRun

omit [Qsort] [Platform] in
/-- An option is one number. -/
theorem OptionIs.unique {parse : CStr → Exec Die Int64} {opts : Hashmap} {key : CStr}
    {a b : Int64} (ha : OptionIs parse opts key a) (hb : OptionIs parse opts key b) : a = b := by
  rw [OptionIs] at ha hb
  rw [ha] at hb
  injection hb

omit [Qsort] [Platform] in
theorem IndexIs.unique {opts : Hashmap} {key : CStr} {i j : UInt32} (hi : IndexIs opts key i)
    (hj : IndexIs opts key j) : i = j := by
  obtain ⟨a, ha, rfl⟩ := hi
  obtain ⟨b, hb, rfl⟩ := hj
  rw [ha.unique hb]

end Frame

/-! ### An EFI system partition with an Android name -/

section Named

attribute [local instance] x86 insertionQsort

/-- 1 MiB at MiB 1, called `android_esp`. -/
def esp_entry : GptEntry :=
  { (gpt_entry_set_name GptEntry.zero (cstr "android_esp")).2 with
    type_guid := get_guid_type .PART_ESP
    first_lba := 2048
    last_lba := 4095 }

def esp_header : GptHeader :=
  { small_header 4 3694620114 48505945 with
    backup_lba := 999999
    first_usable_lba := 34
    last_usable_lba := 999965 }

theorem esp_disk_size : 512000000 < 2 ^ 63 := by decide

/-- A disk of 488 MiB with that table. -/
def esp_disk : Dev where
  size := 512000000
  data := Store.apply (fun _ => 0) [(450, [0xee]), (512, GptHeader.codec.enc esp_header),
    (1024, GptEntry.codec.enc (esp_entry.withHead (entry_bytes_to_le esp_entry.head)))]
  size_lt := esp_disk_size

def esp_init : Gpt := { small_gpt with sectors := 1000000, device := cstr "/dev/block/sda" }

def esp_gpt : Gpt :=
  (esp_init.withHeader esp_header).withBuf (GptEntry.codec.enc esp_entry ++ List.replicate 384 0)

def esp_machine : Machine where
  gpt_init := some esp_init
  dev := esp_disk
  reads := List.replicate 3 .all
  command := fun _ => 1
  command_output := fun _ => (0, [])
  urandom := zeros

/-- There is an old Android on the disk, and no Windows. -/
def esp_ictx : Ictx where
  opts := fun key =>
    if key = disk_key (cstr "sda") "esp_index" then some (cstr "1")
    else if key = disk_key (cstr "sda") "esp_size" then some (cstr "1048576")
    else if key = disk_key (cstr "sda") "android_size" then some (cstr "1048576")
    else if key = BASE_PTN_LIST then some (cstr "bootloader bootloader2 data")
    else if key = partition_key (cstr "data") "len" then some (cstr "-1")
    else none
  iprops := fun _ => none

def esp_install : Exec Die (Gpt × Ictx) :=
  execute_dual_boot esp_machine (cstr "sda") (cstr "bootloader bootloader2 data") esp_ictx

set_option maxRecDepth 100000 in
theorem esp_read : gpt_read (ε := Die) esp_machine.dev esp_machine.reads esp_init
    = .ret (0, esp_gpt, []) := by
  decide +kernel

theorem esp_first : FirstOfType esp_gpt (get_guid_type .PART_ESP) 1 := by
  refine ⟨by decide +kernel, by decide +kernel, fun j hj _ => ?_⟩
  have hne := hj.1.1
  rw [UInt32.le_iff_toNat_le]
  exact Nat.pos_of_ne_zero fun h0 => hne (UInt32.toNat_inj.mp h0)

set_option maxRecDepth 100000 in
/-- The installation succeeds, and the entry at index 1 is a Linux partition now. -/
theorem esp_install_ret : ∃ g' ictx', esp_install = .ret (g', ictx') ∧
    (g'.entry 1).type_guid ≠ (esp_gpt.entry 1).type_guid := by
  have hrun : esp_install.returns (fun v =>
      decide ((v.1.entry 1).type_guid ≠ (esp_gpt.entry 1).type_guid)) = true := by
    decide +kernel
  obtain ⟨⟨g', ictx'⟩, hret, htest⟩ := Exec.exists_of_returns hrun
  exact ⟨g', ictx', hret, of_decide_eq_true htest⟩

end Named

end Iago
