/-
Accepted by the dialogue, and short of space in the execution.

The dialogue adds up bytes: the free region, or what Android takes, or what Windows gives
up, against the sum of the lengths. The execution, with Windows shrunk and Android gone,
looks for one region and rounds its two ends inward to whole MiB. Bytes that are scattered
over the disk, or lie before the first or behind the last whole MiB of the region, have
been counted by the one and are not there for the other; and Windows has been shrunk by
then.

Whether the installation dies for lack of space is decided by the table that was read and
by the numbers in the options (`accepted_has_room_iff`): by the longest free run there is
after the edits, and by the whole MiB in it. What the search returns is not mentioned in
that condition, nor any table but the first.
-/
import Iago.AndroidFootprint
import Iago.LargestFree
import Iago.PublishedOptions
import Iago.SpaceFound
import Iago.WindowsSize

set_option autoImplicit false

namespace Iago

/-! ## The numbers in the options -/

/-- The numbers a dual-boot installation is given. -/
structure DualParams where
  win_resize : Int64
  esp_size : Int64
  android_size : Int64
  esp_index : UInt32
  win_index : UInt32

section Params

variable [Platform]

/-- They are what the options of a disk say. -/
structure DualParams.Of (p : DualParams) (opts : Hashmap) (disk : CStr) : Prop where
  win_resize : OptionIs xatoll opts (disk_key disk "windows_resize") p.win_resize
  esp_size : OptionIs xatoll opts (disk_key disk "esp_size") p.esp_size
  android_size : OptionIs xatoll opts (disk_key disk "android_size") p.android_size
  esp_index : IndexIs opts (disk_key disk "esp_index") p.esp_index
  win_index : IndexIs opts (disk_key disk "msdata_index") p.win_index

omit [Platform] in
/-- The options say one thing. -/
theorem DualParams.Of.unique {p p' : DualParams} {opts : Hashmap} {disk : CStr}
    (h : p.Of opts disk) (h' : p'.Of opts disk) : p = p' := by
  have hwin_resize := h.win_resize.unique h'.win_resize
  have hesp_size := h.esp_size.unique h'.esp_size
  have handroid_size := h.android_size.unique h'.android_size
  have hesp_index := h.esp_index.unique h'.esp_index
  have hwin_index := h.win_index.unique h'.win_index
  rcases p with ⟨_, _, _, _, _⟩
  rcases p' with ⟨_, _, _, _, _⟩
  simp only at hwin_resize hesp_size handroid_size hesp_index hwin_index
  subst hwin_resize hesp_size handroid_size hesp_index hwin_index
  rfl

/-- Both runs of `ntfsresize` agree to a new size for the entry at `i`. -/
structure ResizeSucceeds (m : Machine) (g : Gpt) (i : UInt32) (new_size : UInt64) : Prop where
  index : g.Index i
  lba_size : g.lba_size ≠ 0
  commands : ∀ device, gpt_get_device_node (ε := Die) i g = .ret device →
    m.command (resize_dry_run_command device new_size) = 0 ∧
    m.command (cstr "ntfsresize --force --size " ++ decInt new_size.toInt64.toInt ++ cstr " "
      ++ device) = 0

/-- Nothing stops the installation before the partitions are made. -/
structure DualParams.Proceeds (p : DualParams) (m : Machine) (g : Gpt) : Prop where
  esp_index : p.esp_index ≠ 0
  device : g.device ≠ []
  windows : p.win_resize ≠ 0 → ResizeSucceeds m g p.win_index p.win_resize.toUInt64
  names : p.android_size ≠ 0 → (shrunk_table g p.win_index p.win_resize).NamesEnd

/-! ## Free space by the time the partitions are made -/

/-- LBA `lba` will be free: every entry that has it now is deleted with Android or, if it is
Windows, will end before it. -/
def DualParams.Frees (p : DualParams) (g : Gpt) (lba : UInt64) : Prop :=
  ∀ i, g.InUse i → ¬ (p.android_size ≠ 0 ∧ g.Deleted i) →
    ¬ ((g.entry i).first_lba ≤ lba ∧ lba ≤ (shrunk_entry g p.win_index p.win_resize i).last_lba)

/-- A run of usable LBAs that will be free. -/
structure DualParams.FreeRun (p : DualParams) (g : Gpt) (s e : UInt64) : Prop where
  first : g.header.first_usable_lba ≤ s
  le : s ≤ e
  last : e ≤ g.header.last_usable_lba
  free : ∀ lba, s ≤ lba → lba ≤ e → p.Frees g lba

/-- What the partitions of a list take, with a copy of the EFI system partition and the
smallest data partition, in MiB, as the installer counts them. -/
def DualParams.needed_mb (p : DualParams) (opts : Hashmap) (partlist : CStr) : UInt64 :=
  to_mib (UInt64.ofNat (sum_mb opts (entries partlist) * 2 ^ 20 + p.esp_size.toUInt64.toNat))
    + MIN_DATA_PART_SIZE

/-- The longest free run has that many whole MiB. One without a whole MiB whose ends, rounded
inward, have crossed passes as well: what is left of it is taken for 2^64 - 1 MiB. -/
def DualParams.HasRoom (p : DualParams) (g : Gpt) (opts : Hashmap) (partlist : CStr) : Prop :=
  ∃ s e, BestOf (p.FreeRun g) s e ∧
    (end_mb g e < start_mb g s ∨ start_mb g s + (p.needed_mb opts partlist).toNat ≤ end_mb g e)

end Params

/-! ## Up to the partitions -/

section Until

variable [Platform] {m : Machine} {init g g' : Gpt} {rest : List IoRes} {disk partlist : CStr}
  {ictx : Ictx} {p : DualParams}

omit [Platform] in
/-- With a default, an option can always be read. -/
theorem hashmapGetPrintf_some (opts : Hashmap) (dfl key : CStr) :
    hashmapGetPrintf opts (some dfl) key = .ret ((opts key).getD dfl) := by
  unfold hashmapGetPrintf
  rcases opts key with _ | value
  · rfl
  · rfl

/-- When a resize returns. -/
theorem resize_returns_iff (hg : g.Mapped) (hdevice : g.device ≠ []) (i : UInt32)
    (new_size : UInt64) :
    (∃ g', resize_ntfs_partition m i g new_size = .ret g') ↔ ResizeSucceeds m g i new_size := by
  obtain ⟨node, hnode⟩ := gpt_get_device_node_ne_fault hdevice i
  constructor
  · rintro ⟨g', h⟩
    obtain ⟨hi, hL, -, -⟩ := resize_spec hg h
    refine ⟨hi, hL, fun device hdev => ?_⟩
    rw [resize_ntfs_partition, gpt_entry_get_of_index hi] at h
    simp only [hdev, Exec.ret_bind] at h
    split_ifs at h with hdry hforce
    exact ⟨not_not.mp hdry, not_not.mp hforce⟩
  · rintro ⟨hi, hL, hcommands⟩
    obtain ⟨hdry, hforce⟩ := hcommands node hnode
    refine ⟨g.setEntry i (resized g i new_size), ?_⟩
    rw [resize_dry_run_command] at hdry
    rw [resize_ntfs_partition, gpt_entry_get_of_index hi]
    simp only [hnode, Exec.ret_bind]
    rw [if_neg (not_not.mpr hdry), if_neg (not_not.mpr hforce), if_neg hL, update_entry hg hi]
    rfl

/-- The call of `create_android_partitions`: its table is the one that was read with the two
edits made, and its options are the old ones with the system partition claimed. -/
structure CreateArgs.Dual (a : CreateArgs) (p : DualParams) (g : Gpt) (opts : Hashmap) : Prop where
  edited : Edited g p.win_index p.win_resize p.android_size a.table
  opts : ∃ node, a.opts = dual_opts opts p.esp_size p.esp_index node
  bootloader_size : a.bootloader_size = p.esp_size.toUInt64

/-- What comes to `create_android_partitions` is the table with the edits made. -/
theorem dual_boot_until_spec {a : CreateArgs} (hinit : m.gpt_init = some init)
    (hread : gpt_read (ε := Die) m.dev m.reads init = .ret (0, g, rest)) (hg : g.Mapped)
    (h : dual_boot_until m disk partlist ictx = .ret a) :
    ∃ p : DualParams, p.Of ictx.opts disk ∧ p.Proceeds m g ∧ a.Dual p g ictx.opts := by
  obtain ⟨r⟩ := dual_boot_until_ret h
  rw [r.args_eq]
  -- what was read is the table the theorem speaks of
  obtain rfl : init = r.init := Option.some.inj (hinit.symm.trans r.init_eq)
  have hsame := hread.symm.trans r.read_eq
  simp only [Exec.ret.injEq, Prod.mk.injEq, true_and] at hsame
  obtain ⟨rfl, -⟩ := hsame
  have hedits := edits_spec hg r.resize_eq r.delete_eq
  have hdevice : r.read.device ≠ [] := by
    intro h0
    have hnode := r.node_eq
    rw [gpt_get_device_node, hedits.device, h0] at hnode
    cases hnode
  refine ⟨⟨r.win_resize, r.esp_size, r.android_size, r.esp_index, r.win_index⟩,
    ⟨r.win_resize_is, r.esp_size_is, r.android_size_is, r.esp_index_is, r.win_index_is⟩,
    ⟨r.esp_index_ne, hdevice, fun hne => ?_, fun hne => ?_⟩, hedits, ⟨r.node, rfl⟩, rfl⟩
  · apply (resize_returns_iff hg hdevice _ _).mp
    have hresize := r.resize_eq
    rw [if_pos hne] at hresize
    exact ⟨r.resized, hresize⟩
  · -- the names are those of the table with Windows shrunk
    have hres : Edited r.read r.win_index r.win_resize 0 r.resized :=
      edits_spec hg r.resize_eq rfl
    have hdelete := r.delete_eq
    rw [if_pos hne] at hdelete
    have hends := (delete_android_returns_iff hres.mapped).mp ⟨r.deleted, hdelete⟩
    rwa [shrunk_table_eq hg r.resize_eq] at hends

theorem dual_boot_until_returns (hinit : m.gpt_init = some init)
    (hread : gpt_read (ε := Die) m.dev m.reads init = .ret (0, g, rest)) (hg : g.Mapped)
    (hof : p.Of ictx.opts disk) (hgo : p.Proceeds m g) :
    ∃ a, dual_boot_until m disk partlist ictx = .ret a := by
  obtain ⟨esp_val, hesp_val, hesp⟩ := hof.esp_index
  obtain ⟨win_val, hwin_val, hwin⟩ := hof.win_index
  have hesp_ne := hgo.esp_index
  -- The two edits return by what Proceeds says, and nothing behind them can stop the run.
  obtain ⟨g₁, hresize⟩ : ∃ g₁, (if p.win_resize ≠ 0 then
      resize_ntfs_partition m p.win_index g p.win_resize.toUInt64 else .ret g) = .ret g₁ := by
    by_cases hne : p.win_resize ≠ 0
    · rw [if_pos hne]
      exact (resize_returns_iff hg hgo.device _ _).mpr (hgo.windows hne)
    · exact ⟨g, if_neg hne⟩
  have hres : Edited g p.win_index p.win_resize 0 g₁ := edits_spec hg hresize rfl
  obtain ⟨g₂, hdelete⟩ : ∃ g₂, (if p.android_size ≠ 0 then delete_android g₁ else .ret g₁)
      = .ret g₂ := by
    by_cases hne : p.android_size ≠ 0
    · rw [if_pos hne]
      apply (delete_android_returns_iff hres.mapped).mpr
      rw [shrunk_table_eq hg hresize]
      exact hgo.names hne
    · exact ⟨g₁, if_neg hne⟩
  have hdevice : g₂.device ≠ [] := by
    rw [(edits_spec hg hresize hdelete).device]
    exact hgo.device
  obtain ⟨node, hnode⟩ := gpt_get_device_node_ne_fault hdevice p.esp_index
  have hvals := hof.win_resize
  have hvals₂ := hof.esp_size
  have hvals₃ := hof.android_size
  rw [OptionIs] at hvals hvals₂ hvals₃ hesp_val hwin_val
  unfold dual_boot_until
  simp only [hinit, hashmapGetPrintf_some, Exec.ret_bind, hvals, hvals₂, hvals₃, hesp_val,
    hwin_val, ← hesp, ← hwin, if_neg hesp_ne, hread]
  rw [if_neg (not_not.mpr rfl), hresize, Exec.ret_bind, hdelete, Exec.ret_bind, hnode,
    Exec.ret_bind]
  exact ⟨_, rfl⟩

end Until

/-! ## The other ways to die -/

section Safe

variable [Platform] {m : Machine} {init g : Gpt} {rest : List IoRes} {disk partlist : CStr}
  {ictx : Ictx}

theorem load_spaceSafe (g : Gpt) (off : UInt32) : SpaceSafe (g.load off) := by
  unfold Gpt.load
  split
  · split_ifs
    · exact spaceSafe_ret _
    · exact spaceSafe_fault
  · exact spaceSafe_fault

theorem store_spaceSafe (g : Gpt) (off : UInt32) (e : GptEntry) : SpaceSafe (g.store off e) := by
  unfold Gpt.store
  split
  · split_ifs
    · exact spaceSafe_ret _
    · exact spaceSafe_fault
  · exact spaceSafe_fault

theorem update_spaceSafe (g : Gpt) (off : UInt32) (f : GptEntryHead → GptEntryHead) :
    SpaceSafe (g.update off f) := by
  unfold Gpt.update
  split
  · split_ifs
    · exact spaceSafe_ret _
    · exact spaceSafe_fault
  · exact spaceSafe_fault

omit [Platform] in
theorem forEach_spaceSafe {α σ ρ : Type} {f : α → σ → Exec Die (σ ⊕ ρ)}
    (hf : ∀ a s, SpaceSafe (f a s)) (as : List α) (s : σ) : SpaceSafe (forEach f as s) := by
  induction as generalizing s with
  | nil => exact spaceSafe_ret _
  | cons a as ih =>
    rw [forEach_cons]
    refine (hf a s).bind fun r _ => ?_
    rcases r with s' | r
    · exact ih s'
    · exact spaceSafe_ret _

theorem resize_spaceSafe (m : Machine) (i : UInt32) (g : Gpt) (new_size : UInt64) :
    SpaceSafe (resize_ntfs_partition m i g new_size) := by
  unfold resize_ntfs_partition
  split
  · exact spaceSafe_die rfl
  · refine (gpt_get_device_node_spaceSafe i g).bind fun device _ => ?_
    simp only
    split_ifs
    · exact spaceSafe_die rfl
    · exact spaceSafe_die rfl
    · exact spaceSafe_fault
    · exact update_spaceSafe _ _ _

theorem get_name_spaceSafe (off : UInt32) (g : Gpt) : SpaceSafe (gpt_entry_get_name off g) := by
  unfold gpt_entry_get_name
  split
  · rw [lechar16_to_ascii_eq]
    split_ifs
    · exact spaceSafe_ret _
    · exact spaceSafe_fault
    · exact spaceSafe_fault
  · exact spaceSafe_fault

theorem delete_body_spaceSafe (i : UInt32) (g : Gpt) : SpaceSafe (delete_body i g) := by
  unfold delete_body
  refine (load_spaceSafe _ _).bind fun e _ => ?_
  split_ifs
  · exact spaceSafe_ret _
  refine (get_name_spaceSafe _ g).bind fun name _ => ?_
  split_ifs
  · have hdelete : SpaceSafe (gpt_entry_delete g i) := by
      unfold gpt_entry_delete
      split
      · exact spaceSafe_ret _
      · exact (store_spaceSafe _ _ _).bind fun g _ => spaceSafe_ret _
    refine hdelete.bind fun r _ => ?_
    simp only
    split_ifs
    · exact spaceSafe_die rfl
    · exact spaceSafe_ret _
  · exact spaceSafe_ret _

theorem delete_android_spaceSafe (g : Gpt) : SpaceSafe (delete_android g) := by
  rw [delete_android, partition_for_each]
  exact (forEach_spaceSafe delete_body_spaceSafe _ g).bind fun r _ => spaceSafe_ret _

/-- What happens before the partitions are made does not lack space. -/
theorem dual_boot_until_spaceSafe (hinit : m.gpt_init = some init)
    (hread : gpt_read (ε := Die) m.dev m.reads init = .ret (0, g, rest)) :
    SpaceSafe (dual_boot_until m disk partlist ictx) := by
  unfold dual_boot_until
  simp only [hinit, hashmapGetPrintf_some, Exec.ret_bind]
  refine (xatoll_spaceSafe _).bind fun win_resize _ => ?_
  refine (xatoll_spaceSafe _).bind fun esp_size _ => ?_
  refine (xatol_spaceSafe _).bind fun esp_index _ => ?_
  refine (xatol_spaceSafe _).bind fun win_index _ => ?_
  by_cases hesp : esp_index.toUInt64.toUInt32 = 0
  · rw [if_pos hesp]
    exact spaceSafe_die rfl
  rw [if_neg hesp, hread, Exec.ret_bind, if_neg (not_not.mpr rfl)]
  refine SpaceSafe.bind ?_ fun g₁ _ => ?_
  · split_ifs
    · exact resize_spaceSafe _ _ _ _
    · exact spaceSafe_ret _
  refine (xatoll_spaceSafe _).bind fun android_size _ => ?_
  refine SpaceSafe.bind ?_ fun g₂ _ => ?_
  · split_ifs
    · exact delete_android_spaceSafe _
    · exact spaceSafe_ret _
  exact (gpt_get_device_node_spaceSafe _ _).bind fun node _ => spaceSafe_ret _

/-- Nor does renaming the system partition. -/
theorem claim_spaceSafe (esp_index : Option UInt32) (g : Gpt) (ictx : Ictx) :
    SpaceSafe (CreateArgs.claim esp_index g ictx) := by
  unfold CreateArgs.claim
  split
  · exact spaceSafe_ret _
  · split
    · exact spaceSafe_die rfl
    · refine (load_spaceSafe _ _).bind fun e _ => ?_
      refine (store_spaceSafe _ _ _).bind fun g _ => ?_
      split_ifs
      · exact spaceSafe_die rfl
      · exact spaceSafe_ret _

/-- **So it is down to `create_android_partitions`.** -/
theorem dual_boot_spaceSafe_iff [Qsort] (hinit : m.gpt_init = some init)
    (hread : gpt_read (ε := Die) m.dev m.reads init = .ret (0, g, rest)) :
    SpaceSafe (execute_dual_boot m disk partlist ictx) ↔
      ∀ a, dual_boot_until m disk partlist ictx = .ret a →
        SpaceSafe (create_android_partitions a.bootloader_size a.partlist a.table
          a.esp_index.isSome a.opts a.urandom) := by
  rw [execute_dual_boot_until]
  refine (spaceSafe_bind_iff (dual_boot_until_spaceSafe hinit hread)).trans ?_
  refine forall_congr' fun a => forall_congr' fun _ => ?_
  exact bind_spaceSafe_iff fun r _ => claim_spaceSafe _ _ _

end Safe

/-! ## Room -/

section Room

variable [Platform] [Qsort] {m : Machine} {g t : Gpt} {p : DualParams} {opts : Hashmap}
  {partlist : CStr}

omit [Qsort] in
/-- An edited table is in order: an entry that is still in use ends where it did, or earlier
if it is Windows. -/
theorem Edited.wellFormed (h : Edited g p.win_index p.win_resize p.android_size t)
    (hg : g.Mapped) (hwf : g.WellFormed) (hgo : p.Proceeds m g)
    (hchecks : NtfsresizeChecks m g p.win_index) : t.WellFormed := by
  refine hwf.shrink (fun i hi => ?_) (congrArg GptHeader.first_usable_lba h.header)
    (congrArg GptHeader.last_usable_lba h.header)
  have hidx : g.Index i := by
    rw [Gpt.Index, ← h.header]
    exact hi.1
  have hent := h.entry i hidx
  have hkeep : ¬ (p.android_size ≠ 0 ∧ g.Deleted i) := by
    intro hdrop
    rw [if_pos hdrop] at hent
    exact hi.2 (by rw [hent]; rfl)
  rw [if_neg hkeep] at hent
  have hfirst : (t.entry i).first_lba = (g.entry i).first_lba := by
    rw [hent, shrunk_entry_eq]
  have huse : g.InUse i := ⟨hidx, hfirst ▸ hi.2⟩
  have hle := hwf.le i huse
  refine ⟨huse, hfirst, ?_⟩
  rw [hfirst, hent, shrunk_entry]
  by_cases hwin : p.win_resize ≠ 0 ∧ i = p.win_index
  · rw [if_pos hwin]
    obtain ⟨hne, rfl⟩ := hwin
    obtain ⟨g₁, hresize⟩ := (resize_returns_iff hg hgo.device _ _).mpr (hgo.windows hne)
    have hne' : p.win_resize.toUInt64 ≠ 0 := fun h0 => hne (congrArg UInt64.toInt64 h0)
    obtain ⟨hlast, hroom⟩ := resized_bounds hg hchecks hne' hresize
    refine ⟨?_, hlast⟩
    -- there is room for at least one byte
    have hpos : 0 < p.win_resize.toUInt64.toNat := by
      rw [Nat.pos_iff_ne_zero]
      exact fun h0 => hne' (UInt64.toNat_inj.mp h0)
    rw [UInt64.le_iff_toNat_le]
    by_contra hlt
    have hnone : (resized g p.win_index p.win_resize.toUInt64).last_lba.toNat + 1
        - (resized g p.win_index p.win_resize.toUInt64).first_lba.toNat = 0 := by
      have hsame : (resized g p.win_index p.win_resize.toUInt64).first_lba
          = (g.entry p.win_index).first_lba := rfl
      rw [hsame]
      omega
    rw [hnone, Nat.zero_mul] at hroom
    omega
  · rw [if_neg hwin]
    exact ⟨hle, UInt64.le_refl _⟩

omit [Qsort] in
/-- What is free on the edited table is what the parameters say will be. -/
theorem Edited.freeRegion_iff (h : Edited g p.win_index p.win_resize p.android_size t)
    (s e : UInt64) : FreeRegion t s e ↔ p.FreeRun g s e := by
  have hentry (i : UInt32) (hidx : g.Index i) (hkeep : ¬ (p.android_size ≠ 0 ∧ g.Deleted i)) :
      t.entry i = shrunk_entry g p.win_index p.win_resize i :=
    (h.entry i hidx).trans (if_neg hkeep)
  -- Shrinking keeps where an entry begins, so being used is the same on both tables.
  have hfrees (lba : UInt64) : (∀ i, t.InUse i →
      ¬ ((t.entry i).first_lba ≤ lba ∧ lba ≤ (t.entry i).last_lba)) ↔ p.Frees g lba := by
    constructor
    · intro hfree i hi hkeep hin
      have hent := hentry i hi.1 hkeep
      have hfirst : (t.entry i).first_lba = (g.entry i).first_lba := by
        rw [hent, shrunk_entry_eq]
      refine hfree i ⟨?_, ?_⟩ ⟨?_, ?_⟩
      · rw [Gpt.Index, h.header]
        exact hi.1
      · rw [hfirst]
        exact hi.2
      · rw [hfirst]
        exact hin.1
      · rw [hent]
        exact hin.2
    · intro hfree i hi hin
      have hidx : g.Index i := by
        rw [Gpt.Index, ← h.header]
        exact hi.1
      have hkeep : ¬ (p.android_size ≠ 0 ∧ g.Deleted i) := by
        intro hdrop
        refine hi.2 ?_
        rw [h.entry i hidx, if_pos hdrop]
        rfl
      have hent := hentry i hidx hkeep
      have hfirst : (t.entry i).first_lba = (g.entry i).first_lba := by
        rw [hent, shrunk_entry_eq]
      rw [hfirst, hent] at hin
      exact hfree i ⟨hidx, hfirst ▸ hi.2⟩ hkeep hin
  constructor
  · rintro ⟨hfirst, hle, hlast, hfree⟩
    rw [h.header] at hfirst hlast
    exact ⟨hfirst, hle, hlast, fun lba hs he => (hfrees lba).mp (hfree lba hs he)⟩
  · rintro ⟨hfirst, hle, hlast, hfree⟩
    rw [← h.header] at hfirst hlast
    exact ⟨hfirst, hle, hlast, fun lba hs he => (hfrees lba).mpr (hfree lba hs he)⟩

omit [Platform] [Qsort] in
/-- The comparison `create_android_partitions` makes, in plain numbers. -/
theorem lacks_iff (ha : Addressable g) {s e n : UInt64} (hle : s ≤ e)
    (hlast : e ≤ g.header.last_usable_lba) :
    to_mib_floor ((e + 1) * g.lba_size.toUInt64) - to_mib (s * g.lba_size.toUInt64) < n ↔
      ¬ (end_mb g e < start_mb g s ∨ start_mb g s + n.toNat ≤ end_mb g e) := by
  rw [UInt64.le_iff_toNat_le] at hle hlast
  have hs : s.toNat ≤ g.header.last_usable_lba.toNat := hle.trans hlast
  have hstart := start_mb_lt ha hs
  have hend := end_mb_lt ha hlast
  have hcross : start_mb g s ≤ end_mb g e + 1 := by
    have hmul := Nat.mul_le_mul_right g.lba_size.toNat (Nat.succ_le_succ hle)
    rw [Nat.succ_mul] at hmul
    have hpos := ha.lba_size_pos
    rw [start_mb, end_mb]
    simp only [Nat.succ_eq_add_one] at hmul
    omega
  have hn := n.toNat_lt
  rw [UInt64.lt_iff_toNat_lt, UInt64.toNat_sub, start_mb_eq ha hs, end_mb_eq ha hlast]
  omega

/-- **Whether an edited table lacks space** is what its longest free run says. -/
theorem Edited.lacksSpace_iff (h : Edited g p.win_index p.win_resize p.android_size t)
    (hwf : t.WellFormed) (ha : Addressable g) {needed : UInt64}
    (hneed : to_mib needed + MIN_DATA_PART_SIZE = p.needed_mb opts partlist) :
    ¬ LacksSpace t needed ↔ p.HasRoom g opts partlist := by
  have hlast : t.header.last_usable_lba.toNat < 2 ^ 63 := by
    rw [h.header]
    exact ha.lbas
  -- What the search returns on the edited table is the best of the runs of the old one.
  have hbest (s e : UInt64) : gpt_find_contiguous_free_space (ε := Die) t = .ret (some (s, e)) ↔
      BestOf (p.FreeRun g) s e := by
    rw [find_eq_some_iff hwf (hwf.sweepable hlast) h.mapped.readable]
    have hruns : FreeRegion t = p.FreeRun g :=
      funext fun s => funext fun e => propext (h.freeRegion_iff s e)
    rw [hruns]
  obtain ⟨r, hr⟩ := find_returns (ε := Die) h.mapped.readable
  unfold LacksSpace DualParams.HasRoom
  simp only [hbest, hneed, h.lba_size]
  constructor
  · intro hroom
    rw [not_or] at hroom
    rcases r with _ | ⟨s, e⟩
    · exact absurd hr hroom.1
    have hrun := (hbest s e).mp hr
    refine ⟨s, e, hrun, ?_⟩
    by_contra hno
    exact hroom.2 ⟨s, e, hrun, (lacks_iff ha hrun.mem.le hrun.mem.last).mpr hno⟩
  · rintro ⟨s, e, hrun, hroom⟩ (hnone | ⟨s', e', hrun', hshort⟩)
    · rw [(hbest s e).mpr hrun] at hnone
      cases hnone
    · obtain ⟨rfl, rfl⟩ := hrun.unique (fun _ _ hmem => hmem.le) hrun'
      exact (lacks_iff ha hrun.mem.le hrun.mem.last).mp hshort hroom

end Room

/-! ## From the dialogue to the execution -/

section Accepted

variable [Stack] {ictx ictx' : Ictx} {stdin : List UInt8} {disk partlist : CStr} {opts : Hashmap}

/-- The dialogue has ended in dual boot, with this disk and list of partitions. -/
structure DualAccepted (ictx : Ictx) (stdin : List UInt8) (ictx' : Ictx) (disk partlist : CStr) :
    Prop where
  dialogue : ∃ stdin', partitioner_cli ictx stdin = .ret (ictx', stdin')
  dual_boot : ictx'.opts BASE_DUALBOOT = some (cstr "1")
  disk : ictx'.opts BASE_INSTALL_DISK = some disk
  partlist : ictx'.opts BASE_PTN_LIST = some partlist

omit [Stack] in
/-- `get_all_space_required` asks `get_partial_space_required`. -/
theorem partial_of_all_space {dualboot : Bool} {required : UInt64}
    (h : get_all_space_required opts disk dualboot = .ret required) :
    ∃ bootloader_size size, get_partial_space_required opts bootloader_size = .ret size := by
  unfold get_all_space_required at h
  simp only at h
  split_ifs at h
  · obtain ⟨s, -, h⟩ := Exec.bind_eq_ret.mp h
    obtain ⟨esp_size, -, h⟩ := Exec.bind_eq_ret.mp h
    rw [Exec.ret_bind] at h
    obtain ⟨size, hsize, -⟩ := Exec.bind_eq_ret.mp h
    exact ⟨_, size, hsize⟩
  · obtain ⟨s, -, h⟩ := Exec.bind_eq_ret.mp h
    obtain ⟨len, -, h⟩ := Exec.bind_eq_ret.mp h
    rw [Exec.ret_bind] at h
    obtain ⟨size, hsize, -⟩ := Exec.bind_eq_ret.mp h
    exact ⟨_, size, hsize⟩

/-- The lengths have been read, so they can be read. -/
theorem DualAccepted.lensRead (h : DualAccepted ictx stdin ictx' disk partlist) :
    LensRead ictx'.opts (entries partlist) := by
  obtain ⟨stdin', hcli⟩ := h.dialogue
  -- either branch has added them up
  have hread {opts : Hashmap} {dualboot : Bool} {disk : CStr} {required : UInt64}
      (hopts : opts BASE_PTN_LIST = some partlist)
      (h : get_all_space_required opts disk dualboot = .ret required) :
      LensRead opts (entries partlist) := by
    obtain ⟨bootloader_size, size, hsize⟩ := partial_of_all_space h
    obtain ⟨partlist', hlist', hlens, -⟩ := partial_space_spec.mp hsize
    rw [hopts] at hlist'
    injection hlist' with hlist'
    exact hlist' ▸ hlens
  obtain ⟨disk', sz, -, hdual | ⟨rfl, required, hreq, -⟩⟩ := partitioner_cli_spec hcli
  · obtain ⟨required, hreq⟩ := hdual.asked
    have hsame (key : CStr) (hdual_key : key ≠ BASE_DUALBOOT) (hdisk : key.head? ≠ some 100) :
        ictx'.opts key = (ictx.put BASE_INSTALL_DISK disk').opts key :=
      hdual.opts key hdual_key (disk_key_ne hdisk).symm
    have hlens := hread ((hsame BASE_PTN_LIST (by decide) (by decide)).symm.trans h.partlist) hreq
    refine (sum_mb_congr fun n _ _ => ?_).2.mpr hlens
    have hhead : (partition_key n "len").head? = some 112 := rfl
    refine hsame _ (partition_key_ne (by decide)) ?_
    rw [hhead]
    decide
  · exact hread h.partlist hreq

omit [Stack] in
/-- Claiming the system partition leaves the other options alone. -/
theorem dual_opts_of_ne {key node : CStr} (esp_size : Int64) (esp_index : UInt32)
    (h : ∀ field ∈ ["mode", "len", "index", "device"],
      key ≠ partition_key (cstr "bootloader") field) :
    dual_opts opts esp_size esp_index node key = opts key := by
  unfold dual_opts
  rw [xhashmapPut_of_ne (h "device" (by decide)), xhashmapPut_of_ne (h "index" (by decide)),
    xhashmapPut_of_ne (h "len" (by decide)), xhashmapPut_of_ne (h "mode" (by decide))]

omit [Stack] in
/-- So what is asked for in the end is what the options of the dialogue say. -/
theorem dual_needed (p : DualParams) (node : CStr) (hlist : opts BASE_PTN_LIST = some partlist)
    (hread : LensRead opts (entries partlist)) :
    ∃ needed, get_partial_space_required (dual_opts opts p.esp_size p.esp_index node)
        p.esp_size.toUInt64 = .ret needed ∧
      to_mib needed + MIN_DATA_PART_SIZE = p.needed_mb opts partlist := by
  have hlist' : dual_opts opts p.esp_size p.esp_index node BASE_PTN_LIST = some partlist := by
    rw [dual_opts_of_ne _ _ fun field _ => (partition_key_ne (by decide)).symm, hlist]
  have hlens : ∀ n ∈ entries partlist, Counted n →
      dual_opts opts p.esp_size p.esp_index node (partition_key n "len")
        = opts (partition_key n "len") := by
    intro n _ hc
    apply dual_opts_of_ne
    intro field hfield heq
    have hcolon : ∀ field ∈ ["mode", "len", "index", "device"], 58 ∉ cstr field := by
      decide
    exact (counted_ne hc).1 (partition_key_inj (by decide) (hcolon field hfield) heq).1
  obtain ⟨hsum, hiff⟩ := sum_mb_congr hlens
  refine ⟨UInt64.ofNat (sum_mb opts (entries partlist) * 2 ^ 20 + p.esp_size.toUInt64.toNat),
    partial_space_spec.mpr ⟨partlist, hlist', hiff.mpr hread, ?_⟩, rfl⟩
  rw [hsum, UInt64.toNat_ofNat']

variable [Platform] [Qsort] {m : Machine} {init g : Gpt} {rest : List IoRes}

/-- **When a dual-boot installation that was accepted does not die for lack of space**:
exactly if it stops for another reason before it makes partitions, or the longest free run
there will be has enough whole MiB. -/
theorem accepted_has_room_iff (hacc : DualAccepted ictx stdin ictx' disk partlist)
    (hinit : m.gpt_init = some init)
    (hread : gpt_read (ε := Die) m.dev m.reads init = .ret (0, g, rest))
    (hg : g.Mapped) (hwf : g.WellFormed) (ha : Addressable g)
    (hchecks : ∀ i, IndexIs ictx'.opts (disk_key disk "msdata_index") i → NtfsresizeChecks m g i) :
    SpaceSafe (execute_dual_boot m disk partlist ictx') ↔
      ∀ p : DualParams, p.Of ictx'.opts disk → p.Proceeds m g → p.HasRoom g ictx'.opts partlist := by
  -- the call that is made, if one is, lacks no space exactly if there is room
  have hcall {a : CreateArgs} {p : DualParams} (hof : p.Of ictx'.opts disk)
      (hgo : p.Proceeds m g) (hdual : a.Dual p g ictx'.opts) :
      SpaceSafe (create_android_partitions a.bootloader_size a.partlist a.table
        a.esp_index.isSome a.opts a.urandom) ↔ p.HasRoom g ictx'.opts partlist := by
    obtain ⟨hedits, ⟨node, hopts⟩, hsize⟩ := hdual
    obtain ⟨needed, hneed, hmib⟩ := dual_needed p node hacc.partlist hacc.lensRead
    rw [← hopts, ← hsize] at hneed
    rw [create_lacks_space_iff hedits.mapped hneed]
    have hwf' := hedits.wellFormed hg hwf hgo (hchecks _ hof.win_index)
    exact hedits.lacksSpace_iff hwf' ha hmib
  rw [dual_boot_spaceSafe_iff hinit hread]
  constructor
  · intro hsafe p hof hgo
    obtain ⟨a, hret⟩ : ∃ a, dual_boot_until m disk partlist ictx' = .ret a :=
      dual_boot_until_returns hinit hread hg hof hgo
    obtain ⟨p', hof', hgo', hdual⟩ := dual_boot_until_spec hinit hread hg hret
    obtain rfl := hof.unique hof'
    exact (hcall hof hgo hdual).mp (hsafe a hret)
  · intro hroom a hret
    obtain ⟨p, hof, hgo, hdual⟩ := dual_boot_until_spec hinit hread hg hret
    exact (hcall hof hgo hdual).mpr (hroom p hof hgo)

end Accepted

/-! ### A region of 351 MiB that holds 350 -/

section Unaligned

attribute [local instance] x86 insertionQsort clean_stack

/-- An entry of some type. -/
def typed_entry (type : PartType) (first last : UInt64) : GptEntry :=
  { region_entry first last with type_guid := get_guid_type type }

/-- An EFI system partition of 1 MiB, the reserved partition of Windows, and Windows, which
ends with the first LBA of MiB 4. -/
def unaligned_entries : List GptEntry :=
  [typed_entry .PART_ESP 2048 4095, typed_entry .PART_MS_RESERVED 4096 4096,
    typed_entry .PART_MS_DATA 4097 8192]

def unaligned_header : GptHeader :=
  { small_header 4 3672170962 2903674052 with
    backup_lba := 999999
    first_usable_lba := 34
    last_usable_lba := 727040 }

def unaligned_disk : Dev where
  size := 512000000
  data := Store.apply (fun _ => 0) ((450, [0xee]) :: (512, GptHeader.codec.enc unaligned_header) ::
    List.zip [1024, 1152, 1280]
      (unaligned_entries.map fun e => GptEntry.codec.enc (e.withHead (entry_bytes_to_le e.head))))
  size_lt := esp_disk_size

def unaligned_gpt : Gpt := (esp_init.withHeader unaligned_header).withBuf
  (unaligned_entries.flatMap GptEntry.codec.enc ++ List.replicate 128 0)

/-- Windows could be shrunk to 2000000 bytes, but `ntfsresize` is only asked about it. -/
def unaligned_machine : Machine where
  gpt_init := some esp_init
  dev := unaligned_disk
  reads := List.replicate 3 .all
  command := fun command => if command.take 18 = cstr "ntfsresize --check" then 0 else 1
  command_output := fun _ => (0, cstr "You might resize at 2000000 bytes")
  urandom := zeros

/-- The configuration: two boot loaders, and a data partition that takes the rest. -/
def unaligned_config : Ictx where
  opts := fun key =>
    if key = BASE_INTERACTIVE then some (cstr "1")
    else if key = BASE_PTN_LIST then some (cstr "bootloader bootloader2 data")
    else if key = partition_key (cstr "data") "len" then some (cstr "-1")
    else none
  iprops := fun _ => none

/-- The disk is prepared and the dialogue held: an empty line for dual boot, and no to a new
size for Windows. -/
def unaligned_dialogue : Exec Die (Ictx × Ictx × List UInt8) := do
  let ictx ← partitioner_prepare [⟨cstr "sda", 1000000, 512, cstr "disk", unaligned_machine⟩]
    unaligned_config
  let (ictx', stdin) ← partitioner_cli ictx [10, 110, 10]
  .ret (ictx, ictx', stdin)

set_option maxRecDepth 100000 in
/-- The table of the example is the one on its disk. -/
theorem unaligned_read : gpt_read (ε := Die) unaligned_machine.dev unaligned_machine.reads esp_init
    = .ret (0, unaligned_gpt, []) := by
  decide +kernel

theorem unaligned_mapped : unaligned_gpt.Mapped :=
  (gpt_read_sound unaligned_read).1.toLaid.mapped
    ((GptHeader.inBounds_iff (by decide +kernel)).mpr (.inr (by decide +kernel)))

theorem unaligned_addressable : Addressable unaligned_gpt := ⟨by decide, by decide, by decide⟩

/-- The entries of the example are in order and do not overlap. -/
theorem unaligned_wellFormed : unaligned_gpt.WellFormed := by
  decide +kernel

set_option maxRecDepth 100000 in
/-- It is accepted, and there is no room. -/
theorem unaligned_run : ∃ ictx ictx',
    partitioner_prepare [⟨cstr "sda", 1000000, 512, cstr "disk", unaligned_machine⟩]
      unaligned_config = .ret ictx ∧
    DualAccepted ictx [10, 110, 10] ictx' (cstr "sda") (cstr "bootloader bootloader2 data") ∧
    IndexIs ictx'.opts (disk_key (cstr "sda") "msdata_index") 3 ∧
    execute_dual_boot unaligned_machine (cstr "sda") (cstr "bootloader bootloader2 data") ictx'
      = .die (.insufficient_disk_space 350 351) := by
  have hrun : unaligned_dialogue.returns (fun v =>
      decide (v.2.1.opts BASE_DUALBOOT = some (cstr "1")) &&
      decide (v.2.1.opts BASE_INSTALL_DISK = some (cstr "sda")) &&
      decide (v.2.1.opts BASE_PTN_LIST = some (cstr "bootloader bootloader2 data")) &&
      decide (OptionIs xatol v.2.1.opts (disk_key (cstr "sda") "msdata_index") 3) &&
      (execute_dual_boot unaligned_machine (cstr "sda") (cstr "bootloader bootloader2 data")
        v.2.1).dies (fun e => decide (e = .insufficient_disk_space 350 351))) = true := by
    decide +kernel
  obtain ⟨⟨ictx, ictx', stdin⟩, hret, htest⟩ := Exec.exists_of_returns hrun
  simp only [Bool.and_eq_true, decide_eq_true_eq] at htest
  obtain ⟨⟨⟨⟨hdual, hdisk⟩, hlist⟩, hwin⟩, hdies⟩ := htest
  obtain ⟨_, hprepare, hret⟩ := Exec.bind_eq_ret.mp hret
  obtain ⟨⟨_, _⟩, hcli, hret⟩ := Exec.bind_eq_ret.mp hret
  simp only [Exec.ret.injEq, Prod.mk.injEq] at hret
  obtain ⟨rfl, rfl, rfl⟩ := hret
  obtain ⟨e, hdie, he⟩ := Exec.exists_of_dies hdies
  rw [of_decide_eq_true he] at hdie
  exact ⟨_, _, hprepare, ⟨⟨_, hcli⟩, hdual, hdisk, hlist⟩, ⟨3, hwin, rfl⟩, hdie⟩

/-- The dialogue has counted 351 MiB of free space and asked for 351: the installation of an
accepted configuration dies for lack of space. -/
theorem unaligned_not_has_room : unaligned_gpt.WellFormed ∧ Addressable unaligned_gpt ∧
    gpt_read (ε := Die) unaligned_machine.dev unaligned_machine.reads esp_init
      = .ret (0, unaligned_gpt, []) ∧
    ∃ ictx ictx',
      partitioner_prepare [⟨cstr "sda", 1000000, 512, cstr "disk", unaligned_machine⟩]
        unaligned_config = .ret ictx ∧
      DualAccepted ictx [10, 110, 10] ictx' (cstr "sda") (cstr "bootloader bootloader2 data") ∧
      ¬ SpaceSafe (execute_dual_boot unaligned_machine (cstr "sda")
        (cstr "bootloader bootloader2 data") ictx') := by
  refine ⟨unaligned_wellFormed, unaligned_addressable, unaligned_read, ?_⟩
  obtain ⟨ictx, ictx', hprepare, hacc, -, hdie⟩ := unaligned_run
  refine ⟨ictx, ictx', hprepare, hacc, fun hsafe => ?_⟩
  have hspace : (Die.insufficient_disk_space 350 351).OfSpace = true := rfl
  rw [hsafe _ hdie] at hspace
  exact absurd hspace (by decide)

/-- What the theorem says of that installation. -/
theorem unaligned_has_room_iff : ∃ ictx ictx',
    DualAccepted ictx [10, 110, 10] ictx' (cstr "sda") (cstr "bootloader bootloader2 data") ∧
    (SpaceSafe (execute_dual_boot unaligned_machine (cstr "sda")
        (cstr "bootloader bootloader2 data") ictx') ↔
      ∀ p : DualParams, p.Of ictx'.opts (cstr "sda") → p.Proceeds unaligned_machine unaligned_gpt →
        p.HasRoom unaligned_gpt ictx'.opts (cstr "bootloader bootloader2 data")) := by
  obtain ⟨ictx, ictx', -, hacc, hwin, -⟩ := unaligned_run
  refine ⟨ictx, ictx', hacc, accepted_has_room_iff hacc rfl unaligned_read unaligned_mapped unaligned_wellFormed
    unaligned_addressable fun i hi => ?_⟩
  obtain rfl := hi.unique hwin
  intro device new_size _ hdry
  -- a new size is never agreed to
  have htake : (resize_dry_run_command device new_size).take 18 = cstr "ntfsresize --no-ac" := rfl
  have hrefused : (if (resize_dry_run_command device new_size).take 18 = cstr "ntfsresize --check"
      then (0 : Int) else 1) = 1 := by
    rw [htake]
    rfl
  exact absurd (hrefused.symm.trans hdry) (by decide)

end Unaligned

end Iago
