/-
What the partitioner's edits do to a table, entry by entry.

`resize_ntfs_partition` and `delete_android` work on the bytes of the array; here
each is an equation about the entries: one `last_lba` changes (`resize_spec`), the
Android entries become zeros and the others stay (`delete_android_spec`). An edit
that only takes LBAs away from a well-formed table leaves it well formed
(`Gpt.WellFormed.shrink`), which is all that dual boot needs of either.
-/
import Iago.Partitioner

set_option autoImplicit false

namespace Iago

section Edits

variable {ε : Type} [Platform] {g g' : Gpt}

/-! ## Well-formed tables with LBAs taken away -/

/-- Entries that are still in use start where they did and end no later, but not
before they start. -/
def Shrinks (g g' : Gpt) : Prop :=
  ∀ i, g'.InUse i → g.InUse i ∧ (g'.entry i).first_lba = (g.entry i).first_lba ∧
    (g'.entry i).first_lba ≤ (g'.entry i).last_lba ∧
    (g'.entry i).last_lba ≤ (g.entry i).last_lba

/-- A table whose entries have only shrunk is well formed. -/
theorem Gpt.WellFormed.shrink (hwf : g.WellFormed) (h : Shrinks g g')
    (hfirst : g'.header.first_usable_lba = g.header.first_usable_lba)
    (hlast : g'.header.last_usable_lba = g.header.last_usable_lba) : g'.WellFormed where
  le i hi := (h i hi).2.2.1
  inside i hi := by
    obtain ⟨hg, hf, -, hl⟩ := h i hi
    rw [hfirst, hlast, hf]
    exact ⟨(hwf.inside i hg).1, UInt64.le_trans hl (hwf.inside i hg).2⟩
  apart i j hi hj hij := by
    obtain ⟨hgi, hfi, -, hli⟩ := h i hi
    obtain ⟨hgj, hfj, -, hlj⟩ := h j hj
    rw [hfi, hfj]
    simp only [UInt64.lt_iff_toNat_lt, UInt64.le_iff_toNat_le] at *
    rcases hwf.apart i j hgi hgj hij with hap | hap <;> rw [UInt64.lt_iff_toNat_lt] at hap
    · exact .inl (by omega)
    · exact .inr (by omega)

/-! ## Resizing -/

/-- The entry `resize_ntfs_partition` leaves. -/
def resized (g : Gpt) (i : UInt32) (new_size : UInt64) : GptEntry :=
  { g.entry i with
    last_lba := (g.entry i).first_lba + to_unit_ceiling new_size g.lba_size.toUInt64 - 1 }

/-- The dry run of `ntfsresize`. -/
def resize_dry_run_command (device : CStr) (new_size : UInt64) : CStr :=
  cstr "ntfsresize --no-action --size " ++ decInt new_size.toInt64.toInt ++ cstr " " ++ device

/-- A resize that returned has succeeded, and has changed one `last_lba`. -/
theorem resize_spec {m : Machine} {i : UInt32} {new_size : UInt64} (hg : g.Mapped)
    (h : resize_ntfs_partition m i g new_size = .ret g') :
    g.Index i ∧ g.lba_size ≠ 0 ∧ g' = g.setEntry i (resized g i new_size) ∧
      ∃ device, gpt_get_device_node (ε := Die) i g = .ret device ∧
        m.command (resize_dry_run_command device new_size) = 0 := by
  rw [resize_ntfs_partition] at h
  by_cases hi : g.Index i
  · rw [gpt_entry_get_of_index hi] at h
    obtain ⟨device, hdevice, h⟩ := Exec.bind_eq_ret.mp h
    simp only at h
    by_cases hdry : m.command (resize_dry_run_command device new_size) ≠ 0
    · rw [resize_dry_run_command] at hdry
      rw [if_pos hdry] at h
      cases h
    have hdry' := hdry
    rw [resize_dry_run_command] at hdry'
    rw [if_neg hdry'] at h
    split_ifs at h with hforce hL
    rw [update_entry hg hi] at h
    injection h with h
    exact ⟨hi, hL, h.symm, device, hdevice, not_not.mp hdry⟩
  · rw [gpt_entry_get_of_not_index hi] at h
    cases h

/-- On any table a resize rewrites the array. -/
theorem resize_rewritten {m : Machine} {i : UInt32} {new_size : UInt64}
    (h : resize_ntfs_partition m i g new_size = .ret g') : g.Rewritten g' := by
  rw [resize_ntfs_partition] at h
  cases hget : gpt_entry_get i g with
  | none =>
    rw [hget] at h
    cases h
  | some off =>
    rw [hget] at h
    obtain ⟨device, -, h⟩ := Exec.bind_eq_ret.mp h
    simp only at h
    split_ifs at h
    exact update_ret h

/-! ## Deleting Android -/

/-- The name of an entry is that of an Android partition. -/
def android_entry (e : GptEntry) : Bool := is_android (entry_name e)

omit [Platform] in
/-- The test looks at no more than 18 characters. -/
theorem is_android_append {name : CStr} (hlen : 18 < name.length) (more : CStr) :
    is_android (name ++ more) = is_android name := by
  have htake : (name ++ more).take 8 = name.take 8 := List.take_append_of_le_length (by omega)
  have hlong : ¬ (name ++ more).length = 18 := by
    rw [List.length_append]
    omega
  have hlong' : ¬ name.length = 18 := by omega
  simp only [is_android, htake, hlong, hlong', false_and, not_false_eq_true, and_true]

/-- The name that is read passes the test exactly if that of the entry does, wherever it
ends. -/
theorem android_entry_of_name (hg : g.Mapped) {i : UInt32} (hi : g.Index i) {name : CStr}
    (h : gpt_entry_get_name (ε := ε) (gpt_entry_offset i g) g = .ret name) :
    android_entry (g.entry i) = is_android name := by
  by_cases h0 : 0 ∈ (g.entry i).name.toList
  · rw [get_name_of_mem hg hi h0] at h
    injection h with h
    rw [android_entry, h]
  · obtain ⟨⟨more, rfl⟩, hlen⟩ := get_name_of_not_mem hg hi h0 h
    rw [android_entry, is_android_append (by omega)]

/-- Index `i` loses its entry to `delete_android`. -/
def Gpt.Deleted (g : Gpt) (i : UInt32) : Prop :=
  g.InUse i ∧ android_entry (g.entry i) = true

instance (g : Gpt) (i : UInt32) : Decidable (g.Deleted i) := inferInstanceAs (Decidable (_ ∧ _))

/-- What one round of the deletion makes of the table. -/
def delete_step (g : Gpt) (i : UInt32) : Gpt :=
  if g.Deleted i then g.setEntry i GptEntry.zero else g

theorem delete_step_mapped (hg : g.Mapped) {i : UInt32} (hi : g.Index i) :
    (delete_step g i).Mapped := by
  rw [delete_step]
  split_ifs
  · exact setEntry_mapped hg hi
  · exact hg

theorem delete_step_index (g : Gpt) (i j : UInt32) : (delete_step g i).Index j ↔ g.Index j := by
  rw [delete_step]
  split_ifs
  · exact index_setEntry _ _ _ _
  · exact Iff.rfl

/-- At each of the indices, the name of an entry in use ends that is there when those before it
have been deleted: the scan does not leave the memory that can be read. -/
def Gpt.NamesEndAt (g : Gpt) (is : List UInt32) : Prop :=
  ∀ before i after, is = before ++ i :: after →
    (before.foldl delete_step g).InUse i → 0 ∈ (before.foldl delete_step g).name_units i

/-- The deletion of Android comes to the end of every name it reads. -/
def Gpt.NamesEnd (g : Gpt) : Prop := g.NamesEndAt (indices g.header.num_pentries)

/-- The body of the loop of `delete_android`, with the test `partition_for_each` puts
before it. -/
def delete_body (i : UInt32) (g : Gpt) : Exec Die (Gpt ⊕ Empty) := do
  let e ← g.load (gpt_entry_offset i g)
  if e.first_lba = 0 then .ret (.inl g)
  else do
    let name ← gpt_entry_get_name (gpt_entry_offset i g) g
    if is_android name then do
      let (ret, g) ← gpt_entry_delete g i
      if ret ≠ 0 then .die .delete_partition else .ret (.inl g)
    else .ret (.inl g)

/-- What the body has done, if it returns. -/
theorem delete_body_spec (hg : g.Mapped) {i : UInt32} (hi : g.Index i) {r : Gpt ⊕ Empty}
    (h : delete_body i g = .ret r) : r = .inl (delete_step g i) := by
  rw [delete_step]
  rw [delete_body, load_entry hg hi, Exec.ret_bind] at h
  by_cases h0 : (g.entry i).first_lba = 0
  · rw [if_pos h0] at h
    injection h with h
    rw [if_neg fun hd => hd.1.2 h0, h]
  rw [if_neg h0] at h
  obtain ⟨name, hname, h⟩ := Exec.bind_eq_ret.mp h
  have handroid := android_entry_of_name hg hi hname
  by_cases ha : is_android name = true
  · rw [if_pos ha, gpt_entry_delete_of_index hg hi, Exec.ret_bind] at h
    simp only [ne_eq, not_true_eq_false, if_false] at h
    injection h with h
    rw [if_pos ⟨⟨hi, h0⟩, handroid.trans ha⟩, h]
  · rw [if_neg ha] at h
    injection h with h
    rw [if_neg fun hd => ha (handroid ▸ hd.2), h]

/-- On any table the body rewrites the array. -/
theorem delete_body_rewritten {i : UInt32} (hlive : g.entries = .live g.buf) {r : Gpt ⊕ Empty}
    (h : delete_body i g = .ret r) : ∃ g', r = .inl g' ∧ g.Rewritten g' := by
  rw [delete_body] at h
  obtain ⟨e, -, h⟩ := Exec.bind_eq_ret.mp h
  by_cases h0 : e.first_lba = 0
  · rw [if_pos h0] at h
    injection h with h
    exact ⟨g, h.symm, .refl hlive⟩
  rw [if_neg h0] at h
  obtain ⟨name, -, h⟩ := Exec.bind_eq_ret.mp h
  by_cases ha : is_android name = true
  · rw [if_pos ha] at h
    obtain ⟨⟨ret, g₁⟩, hdelete, h⟩ := Exec.bind_eq_ret.mp h
    simp only at h
    split_ifs at h
    injection h with h
    refine ⟨g₁, h.symm, ?_⟩
    -- The index is that of the loop, but nothing here says that the table has such a slot.
    rw [gpt_entry_delete] at hdelete
    cases hget : gpt_entry_get i g with
    | none =>
      rw [hget] at hdelete
      simp only [Exec.ret.injEq, Prod.mk.injEq] at hdelete
      exact hdelete.2 ▸ .refl hlive
    | some off =>
      rw [hget] at hdelete
      obtain ⟨g₂, hstore, hdelete⟩ := Exec.bind_eq_ret.mp hdelete
      simp only [Exec.ret.injEq, Prod.mk.injEq] at hdelete
      exact hdelete.2 ▸ store_ret hstore
  · rw [if_neg ha] at h
    injection h with h
    exact ⟨g, h.symm, .refl hlive⟩

/-- So does the loop, and with it `delete_android`. -/
theorem delete_android_rewritten (hlive : g.entries = .live g.buf)
    (h : delete_android g = .ret g') : g.Rewritten g' := by
  have hloop : ∀ (is : List UInt32) (g : Gpt) (r : Gpt ⊕ Empty), g.entries = .live g.buf →
      forEach delete_body is g = .ret r → ∃ g', r = .inl g' ∧ g.Rewritten g' := by
    intro is
    induction is with
    | nil =>
      intro g r hlive h
      injection h with h
      exact ⟨g, h.symm, .refl hlive⟩
    | cons i is ih =>
      intro g r hlive h
      rw [forEach_cons] at h
      obtain ⟨r₁, hbody, h⟩ := Exec.bind_eq_ret.mp h
      obtain ⟨g₁, rfl, hfirst⟩ := delete_body_rewritten hlive hbody
      obtain ⟨g₂, rfl, hrest⟩ := ih g₁ r hfirst.live h
      exact ⟨g₂, rfl, hfirst.trans hrest⟩
  rw [delete_android, partition_for_each] at h
  obtain ⟨r, hdone, h⟩ := Exec.bind_eq_ret.mp h
  injection h with h
  obtain ⟨g₂, rfl, hrew⟩ := hloop _ g r hlive hdone
  exact h ▸ hrew

/-- A table with the Android entries at some of its indices deleted. -/
structure DeletedAt (is : List UInt32) (g g' : Gpt) : Prop where
  mapped : g'.Mapped
  header : g'.header = g.header
  lba_size : g'.lba_size = g.lba_size
  device : g'.device = g.device
  entry : ∀ i, g.Index i →
    g'.entry i = if i ∈ is ∧ g.Deleted i then GptEntry.zero else g.entry i

/-- Deleting at one index, then at others. -/
theorem DeletedAt.cons (hg : g.Mapped) {i : UInt32} (hi : g.Index i) {is : List UInt32}
    (hni : i ∉ is) (h : DeletedAt is (delete_step g i) g') : DeletedAt (i :: is) g g' := by
  rw [delete_step] at h
  obtain ⟨hm, hh, hl, hd, hent⟩ := h
  by_cases hdel : g.Deleted i
  · simp only [hdel, if_true] at hh hl hd hent
    refine ⟨hm, hh, hl, hd, fun j hj => ?_⟩
    rw [hent j hj]
    by_cases hij : j = i
    · subst hij
      rw [if_neg fun hc => hni hc.1, if_pos ⟨List.mem_cons_self, hdel⟩, entry_setEntry_self hg hi]
    · have hother := entry_setEntry_of_ne (e := GptEntry.zero) hg hi hj (Ne.symm hij)
      simp only [Gpt.Deleted, Gpt.InUse, hother, index_setEntry, List.mem_cons, hij, false_or]
  · simp only [hdel, if_false] at hh hl hd hent
    refine ⟨hm, hh, hl, hd, fun j hj => ?_⟩
    rw [hent j hj]
    by_cases hij : j = i
    · subst hij
      rw [if_neg fun hc => hdel hc.2, if_neg fun hc => hdel hc.2]
    · simp only [List.mem_cons, hij, false_or]

/-- The loop of `delete_android`, over any indices of the table. -/
theorem delete_loop {is : List UInt32} (hnodup : is.Nodup) (hg : g.Mapped)
    (hidx : ∀ i ∈ is, g.Index i) {r : Gpt ⊕ Empty} (h : forEach delete_body is g = .ret r) :
    ∃ g', r = .inl g' ∧ DeletedAt is g g' := by
  induction is generalizing g with
  | nil =>
    injection h with h
    exact ⟨g, h.symm, hg, rfl, rfl, rfl, fun i _ => by rw [if_neg fun hc => List.not_mem_nil hc.1]⟩
  | cons i is ih =>
    obtain ⟨hni, hnodup⟩ := List.nodup_cons.mp hnodup
    have hi := hidx i List.mem_cons_self
    rw [forEach_cons] at h
    obtain ⟨r₁, hbody, h⟩ := Exec.bind_eq_ret.mp h
    rw [delete_body_spec hg hi hbody] at h
    obtain ⟨g', hr, hdel⟩ := ih hnodup (delete_step_mapped hg hi)
      (fun j hj => (delete_step_index g i j).mpr (hidx j (List.mem_cons_of_mem _ hj))) h
    exact ⟨g', hr, hdel.cons hg hi hni⟩

/-- `delete_android` zeroes the Android entries and leaves the others alone. -/
structure AndroidDeleted (g g' : Gpt) : Prop where
  mapped : g'.Mapped
  header : g'.header = g.header
  lba_size : g'.lba_size = g.lba_size
  device : g'.device = g.device
  entry : ∀ i, g.Index i → g'.entry i = if g.Deleted i then GptEntry.zero else g.entry i

/-- So `delete_android` deletes what has an Android name. -/
theorem delete_android_spec (hg : g.Mapped) (h : delete_android g = .ret g') :
    AndroidDeleted g g' := by
  rw [delete_android, partition_for_each] at h
  obtain ⟨r, hloop, h⟩ := Exec.bind_eq_ret.mp h
  injection h with h
  obtain ⟨g₂, rfl, hdel⟩ := delete_loop (nodup_indices _) hg (fun i hi => mem_indices.mp hi) hloop
  subst h
  refine ⟨hdel.mapped, hdel.header, hdel.lba_size, hdel.device, fun i hi => ?_⟩
  show g₂.entry i = _
  rw [hdel.entry i hi]
  by_cases hi' : g.Deleted i
  · rw [if_pos ⟨mem_indices.mpr hi, hi'⟩, if_pos hi']
  · rw [if_neg fun hc => hi' hc.2, if_neg hi']

/-! ## One after the other -/

/-- The table by the time Android is deleted: Windows may have been shrunk. -/
def shrunk_table (g : Gpt) (win_index : UInt32) (win_resize : Int64) : Gpt :=
  if win_resize ≠ 0 then g.setEntry win_index (resized g win_index win_resize.toUInt64) else g

/-- A resize that returns leaves that table. -/
theorem shrunk_table_eq {m : Machine} {win_index : UInt32} {win_resize : Int64} (hg : g.Mapped)
    (h : (if win_resize ≠ 0 then resize_ntfs_partition m win_index g win_resize.toUInt64
      else .ret g) = .ret g') : g' = shrunk_table g win_index win_resize := by
  rw [shrunk_table]
  split_ifs at h ⊢
  · obtain ⟨-, -, hset, -⟩ := resize_spec hg h
    exact hset
  · injection h with h
    exact h.symm

/-- The entry at `i` once Windows has its new size, if it gets one. -/
def shrunk_entry (g : Gpt) (win_index : UInt32) (win_resize : Int64) (i : UInt32) : GptEntry :=
  if win_resize ≠ 0 ∧ i = win_index then resized g i win_resize.toUInt64 else g.entry i

/-- A resize changes neither where an entry starts nor its name. -/
theorem shrunk_entry_eq (g : Gpt) (win_index : UInt32) (win_resize : Int64) (i : UInt32) :
    shrunk_entry g win_index win_resize i
      = { g.entry i with last_lba := (shrunk_entry g win_index win_resize i).last_lba } := by
  unfold shrunk_entry
  split_ifs
  · rfl
  · rfl

/-- A table with Windows shrunk and Android deleted, as far as the two were asked for. -/
structure Edited (g : Gpt) (win_index : UInt32) (win_resize android_size : Int64) (g' : Gpt) :
    Prop where
  mapped : g'.Mapped
  header : g'.header = g.header
  lba_size : g'.lba_size = g.lba_size
  device : g'.device = g.device
  entry : ∀ i, g.Index i → g'.entry i = if android_size ≠ 0 ∧ g.Deleted i then GptEntry.zero
    else shrunk_entry g win_index win_resize i

/-- Both rewrite the array of any table. -/
theorem edits_rewritten {m : Machine} {win_index : UInt32} {win_resize android_size : Int64}
    {g₁ : Gpt} (hlive : g.entries = .live g.buf)
    (hresize : (if win_resize ≠ 0 then resize_ntfs_partition m win_index g win_resize.toUInt64
      else .ret g) = .ret g₁)
    (hdelete : (if android_size ≠ 0 then delete_android g₁ else .ret g₁) = .ret g') :
    g.Rewritten g' := by
  have hfirst : g.Rewritten g₁ := by
    split_ifs at hresize
    · exact resize_rewritten hresize
    · injection hresize with hresize
      exact hresize ▸ .refl hlive
  split_ifs at hdelete
  · exact hfirst.trans (delete_android_rewritten hfirst.live hdelete)
  · injection hdelete with hdelete
    exact hdelete ▸ hfirst

/-- What dual boot does to a table before it makes partitions. -/
theorem edits_spec {m : Machine} {win_index : UInt32} {win_resize android_size : Int64} {g₁ : Gpt}
    (hg : g.Mapped)
    (hresize : (if win_resize ≠ 0 then resize_ntfs_partition m win_index g win_resize.toUInt64
      else .ret g) = .ret g₁)
    (hdelete : (if android_size ≠ 0 then delete_android g₁ else .ret g₁) = .ret g') :
    Edited g win_index win_resize android_size g' := by
  -- with nothing to delete, first
  have hkeep (i : UInt32) : ¬ ((0 : Int64) ≠ 0 ∧ g.Deleted i) := fun h => h.1 rfl
  have hres : Edited g win_index win_resize 0 g₁ := by
    split_ifs at hresize with hne
    · obtain ⟨hi, -, heq, -⟩ := resize_spec hg hresize
      subst heq
      refine ⟨setEntry_mapped hg hi, rfl, rfl, rfl, fun j hj => ?_⟩
      rw [if_neg (hkeep j), entry_setEntry hg hi hj, shrunk_entry]
      by_cases hij : j = win_index
      · rw [if_pos hij, if_pos ⟨hne, hij⟩, hij]
      · rw [if_neg hij, if_neg fun h => hij h.2]
    · injection hresize with hresize
      subst hresize
      refine ⟨hg, rfl, rfl, rfl, fun j _ => ?_⟩
      rw [if_neg (hkeep j), shrunk_entry, if_neg fun h => hne h.1]
  have hent (i : UInt32) (hi : g.Index i) : g₁.entry i = shrunk_entry g win_index win_resize i :=
    (hres.entry i hi).trans (if_neg (hkeep i))
  split_ifs at hdelete with hne
  · have hdel := delete_android_spec hres.mapped hdelete
    refine ⟨hdel.mapped, hdel.header.trans hres.header, hdel.lba_size.trans hres.lba_size,
      hdel.device.trans hres.device, fun i hi => ?_⟩
    have hi' : g₁.Index i := by
      rw [Gpt.Index, hres.header]
      exact hi
    -- whether an entry is deleted is not changed by the resize
    have hiff : g₁.Deleted i ↔ g.Deleted i := by
      rw [Gpt.Deleted, Gpt.Deleted, Gpt.InUse, Gpt.InUse, hent i hi, shrunk_entry_eq]
      simp only [hi, hi', true_and]
      rfl
    rw [hdel.entry i hi', hent i hi]
    by_cases hd : g.Deleted i
    · rw [if_pos (hiff.mpr hd), if_pos ⟨hne, hd⟩]
    · rw [if_neg fun h => hd (hiff.mp h), if_neg fun h => hd h.2]
  · injection hdelete with hdelete
    subst hdelete
    refine ⟨hres.mapped, hres.header, hres.lba_size, hres.device, fun i hi => ?_⟩
    rw [hent i hi, if_neg fun h => hne h.1]

end Edits

end Iago
