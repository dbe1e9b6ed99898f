/-
What the installer says Android takes up, and what it deletes.

`check_for_android` adds up the sizes of the entries `delete_android` would remove; the two
are separate loops with the same test written out in both, and the second zeroes entries of
the table it walks. On a table whose names end within their field both return, the reported
total is that of the entries that are gone afterwards, and nothing is left to report.
-/
import Iago.TableEdits
import Iago.WindowsScan
import Mathlib.Algebra.Order.BigOperators.Group.List
import Mathlib.Data.UInt

set_option autoImplicit false

namespace Iago

section Footprint

variable {ε : Type} [Platform] {g g' : Gpt}

/-! ## Names -/

/-- Every entry in use has a zero unit in its name. -/
def Gpt.Named (g : Gpt) : Prop := ∀ i, g.InUse i → 0 ∈ (g.entry i).name.toList

/-- Where every name ends the scan for the end of one stays within its field. -/
theorem Gpt.Named.name_units (hg : g.Mapped) (hnamed : g.Named) {i : UInt32} (hi : g.InUse i) :
    0 ∈ g.name_units i := by
  rw [name_units_eq hg hi.1]
  exact List.mem_append_left _ (hnamed i hi)

/-- What is read is then the name the entry says. -/
theorem Gpt.Named.get_name (hg : g.Mapped) (hnamed : g.Named) {i : UInt32} (hi : g.InUse i) :
    (gpt_entry_get_name (gpt_entry_offset i g) g : Exec ε CStr) = .ret (entry_name (g.entry i)) :=
  get_name_of_mem hg hi.1 (hnamed i hi)

/-! ## The report -/

/-- The loop of `check_for_android`, over any entries that are in use. -/
theorem check_loop (hg : g.Mapped) (hnamed : g.Named) {ps : List (UInt32 × GptEntry)}
    (hps : ∀ p ∈ ps, p ∈ g.inUse) (size : UInt64) :
    (forEach (fun p size => do
      let name ← gpt_entry_get_name (gpt_entry_offset p.1 g) g
      if is_android name then .ret (.inl (size + gpt_entry_get_size g p.2)) else .ret (.inl size))
      ps size : Exec ε (UInt64 ⊕ Empty)) =
      .ret (.inl (size + ((ps.filter fun p => android_entry p.2).map
        fun p => gpt_entry_get_size g p.2).sum)) := by
  induction ps generalizing size with
  | nil => rw [List.filter_nil, List.map_nil, List.sum_nil, UInt64.add_zero, forEach_nil]
  | cons p ps ih =>
    have hrest := ih fun q hq => hps q (List.mem_cons_of_mem p hq)
    obtain ⟨huse, hentry⟩ := mem_inUse.mp (hps p List.mem_cons_self)
    have hname := hnamed.get_name (ε := ε) hg huse
    rw [← hentry] at hname
    rw [forEach_cons, hname, Exec.ret_bind]
    -- The name that is read ends inside the entry, so it is the entry that decides.
    by_cases ha : android_entry p.2 = true
    · have hcons : ((p :: ps).filter fun p => android_entry p.2) =
          p :: ps.filter fun p => android_entry p.2 :=
        List.filter_cons_of_pos ha
      rw [if_pos (show is_android (entry_name p.2) = true from ha), Exec.ret_bind, hcons,
        List.map_cons, List.sum_cons, ← UInt64.add_assoc]
      exact hrest _
    · have hcons : ((p :: ps).filter fun p => android_entry p.2) =
          ps.filter fun p => android_entry p.2 :=
        List.filter_cons_of_neg ha
      rw [if_neg (show ¬ is_android (entry_name p.2) = true from ha), Exec.ret_bind, hcons]
      exact hrest _

/-- What `check_for_android` returns, where the names end. -/
theorem check_for_android_eq (hg : g.Mapped) (hnamed : g.Named) :
    (check_for_android g : Exec ε UInt64) =
      .ret ((g.inUse.filter fun p => android_entry p.2).map
        fun p => gpt_entry_get_size g p.2).sum := by
  rw [check_for_android, partition_for_each_const hg.readable,
    check_loop hg hnamed fun p hp => hp, Exec.ret_bind, Sum.elim_inl, UInt64.zero_add]
  rfl

/-! ## The deletion -/

/-- A round of `delete_android` returns exactly if the scan of the name ends. -/
theorem delete_body_ret_iff (hg : g.Mapped) {i : UInt32} (hi : g.Index i) :
    (∃ r, delete_body i g = .ret r) ↔ (g.InUse i → 0 ∈ g.name_units i) := by
  rw [delete_body, load_entry hg hi, Exec.ret_bind]
  by_cases h0 : (g.entry i).first_lba = 0
  · rw [if_pos h0]
    exact ⟨fun _ huse => absurd h0 huse.2, fun _ => ⟨_, rfl⟩⟩
  have huse : g.InUse i := ⟨hi, h0⟩
  rw [if_neg h0, get_name_eq hg hi, lechar16_to_ascii_eq]
  by_cases hend : 0 ∈ g.name_units i
  · rw [if_pos hend, Exec.ret_bind, gpt_entry_delete_of_index hg hi]
    refine ⟨fun _ _ => hend, fun _ => ?_⟩
    split
    · exact ⟨_, rfl⟩
    · exact ⟨_, rfl⟩
  · rw [if_neg hend, Exec.fault_bind]
    constructor
    · rintro ⟨r, hr⟩
      cases hr
    · intro h
      exact absurd (h huse) hend

/-- Then it has deleted the entry, or left it. -/
theorem delete_body_ret (hg : g.Mapped) {i : UInt32} (hi : g.Index i)
    (hend : g.InUse i → 0 ∈ g.name_units i) : delete_body i g = .ret (.inl (delete_step g i)) := by
  obtain ⟨r, hr⟩ := (delete_body_ret_iff hg hi).mpr hend
  rw [hr, delete_body_spec hg hi hr]

/-- What is deleted leaves the others with the names they had. -/
theorem delete_step_named (hg : g.Mapped) (hnamed : g.Named) {i : UInt32} (hi : g.Index i) :
    (delete_step g i).Named := by
  rw [delete_step]
  split_ifs
  · rintro j ⟨hj, hused⟩
    have hj' : g.Index j := hj
    rw [entry_setEntry hg hi hj'] at hused ⊢
    split_ifs at hused ⊢ with hji
    · exact absurd rfl hused
    · exact hnamed j ⟨hj', hused⟩
  · exact hnamed

/-- **When the loop gets to its end**: at each index the name ends that is in the table by
then. -/
theorem delete_loop_ret_iff {is : List UInt32} (hg : g.Mapped) (hidx : ∀ i ∈ is, g.Index i) :
    (∃ r, forEach delete_body is g = .ret r) ↔ g.NamesEndAt is := by
  induction is generalizing g with
  | nil =>
    refine ⟨fun _ before i after h => ?_, fun _ => ⟨_, rfl⟩⟩
    exact absurd h.symm (List.append_ne_nil_of_right_ne_nil before (List.cons_ne_nil i after))
  | cons j is ih =>
    have hj := hidx j List.mem_cons_self
    have hg' := delete_step_mapped hg hj
    have hrest : ∀ i ∈ is, (delete_step g j).Index i := fun i hi =>
      (delete_step_index g j i).mpr (hidx i (List.mem_cons_of_mem j hi))
    have hround := delete_body_ret_iff hg hj
    rw [forEach_cons]
    constructor
    · rintro ⟨r, h⟩
      obtain ⟨r₁, hbody, h⟩ := Exec.bind_eq_ret.mp h
      have hfirst := hround.mp ⟨r₁, hbody⟩
      rw [delete_body_spec hg hj hbody] at h
      -- A round changes its own slot at most, so the rest is asked of the table it leaves.
      rintro before i after hsplit
      cases before with
      | nil =>
        injection hsplit with hji
        rw [← hji]
        exact hfirst
      | cons k before =>
        injection hsplit with hjk hsplit
        rw [← hjk]
        exact (ih hg' hrest).mp ⟨r, h⟩ before i after hsplit
    · intro hends
      rw [delete_body_ret hg hj (hends [] j is rfl), Exec.ret_bind]
      refine (ih hg' hrest).mpr fun before i after hsplit => ?_
      exact hends (j :: before) i after (congrArg (j :: ·) hsplit)

/-- Names that end in their fields do. -/
theorem Gpt.Named.namesEndAt (hg : g.Mapped) (hnamed : g.Named) {is : List UInt32}
    (hidx : ∀ i ∈ is, g.Index i) : g.NamesEndAt is := by
  intro before i after hsplit huse
  have hkeep : ∀ (js : List UInt32) (g : Gpt), g.Mapped → g.Named → (∀ j ∈ js, g.Index j) →
      (js.foldl delete_step g).Mapped ∧ (js.foldl delete_step g).Named := by
    intro js
    induction js with
    | nil => exact fun g hg hnamed _ => ⟨hg, hnamed⟩
    | cons j js ih =>
      intro g hg hnamed hjs
      have hj := hjs j List.mem_cons_self
      exact ih (delete_step g j) (delete_step_mapped hg hj) (delete_step_named hg hnamed hj)
        fun k hk => (delete_step_index g j k).mpr (hjs k (List.mem_cons_of_mem j hk))
  obtain ⟨hmapped, hnames⟩ := hkeep before g hg hnamed fun j hj =>
    hidx j (hsplit ▸ List.mem_append_left _ hj)
  exact hnames.name_units hmapped huse

/-- Where there is nothing to delete, it changes nothing. -/
theorem delete_loop_none {is : List UInt32} (hg : g.Mapped) (hnamed : g.Named)
    (hidx : ∀ i ∈ is, g.Index i) (hnone : ∀ i ∈ is, ¬ g.Deleted i) :
    forEach delete_body is g = .ret (.inl g) := by
  induction is with
  | nil => rfl
  | cons i is ih =>
    rw [forEach_cons, delete_body_ret hg (hidx i List.mem_cons_self) (hnamed.name_units hg),
      delete_step, if_neg (hnone i List.mem_cons_self), Exec.ret_bind]
    exact ih (fun j hj => hidx j (List.mem_cons_of_mem i hj))
      fun j hj => hnone j (List.mem_cons_of_mem i hj)

/-- **When the deletion returns**: each name that is read on the way ends. -/
theorem delete_android_returns_iff (hg : g.Mapped) :
    (∃ g', delete_android g = .ret g') ↔ g.NamesEnd := by
  rw [Gpt.NamesEnd, ← delete_loop_ret_iff hg fun i hi => mem_indices.mp hi, delete_android,
    partition_for_each]
  constructor
  · rintro ⟨g', h⟩
    obtain ⟨r, hloop, -⟩ := Exec.bind_eq_ret.mp h
    exact ⟨r, hloop⟩
  · rintro ⟨r, hloop⟩
    exact ⟨_, Exec.bind_eq_ret.mpr ⟨r, hloop, rfl⟩⟩

/-- Where the names end in their fields, it returns. -/
theorem delete_android_ret (hg : g.Mapped) (hnamed : g.Named) :
    ∃ g', delete_android g = .ret g' ∧ AndroidDeleted g g' := by
  have hends : g.NamesEnd := hnamed.namesEndAt hg fun i hi => mem_indices.mp hi
  obtain ⟨g', hret⟩ := (delete_android_returns_iff hg).mpr hends
  exact ⟨g', hret, delete_android_spec hg hret⟩

/-! ## The two together -/

/-- The entries that are in use before and not afterwards. -/
def removed (g g' : Gpt) : List (UInt32 × GptEntry) :=
  g.inUse.filter fun p => ¬ g'.InUse p.1

/-- The sizes of the entries of a list, in plain numbers. -/
def byte_sizes (g : Gpt) (ps : List (UInt32 × GptEntry)) : List ℤ :=
  ps.map fun p => byte_size g p.2

/-- The report `total` of a table `g` and what the deletion made of it agree. -/
structure Agree (g : Gpt) (total : UInt64) (g' : Gpt) : Prop where
  reported : total = ((removed g g').map fun p => gpt_entry_get_size g p.2).sum
  /-- in plain numbers, where neither a size nor the sum overflows -/
  bytes : (∀ n ∈ byte_sizes g (removed g g'), 0 ≤ n) → (byte_sizes g (removed g g')).sum < 2 ^ 64 →
    (total.toNat : ℤ) = (byte_sizes g (removed g g')).sum
  nothing_left : (check_for_android g' : Exec Die UInt64) = .ret 0
  untouched : ∀ i, g.Index i → ¬ (g.InUse i ∧ ¬ g'.InUse i) →
    slice g'.buf (gpt_entry_offset i g').toNat 128 = slice g.buf (gpt_entry_offset i g).toNat 128
  bootloader : ∀ p ∈ removed g g',
    (gpt_entry_get_name (gpt_entry_offset p.1 g) g : Exec Die CStr) ≠
      .ret (cstr "android_bootloader")
  idempotent : delete_android g' = .ret g'

/-- What has been deleted is not in use, and the rest is in use as before. -/
theorem AndroidDeleted.inUse_iff (hdel : AndroidDeleted g g') {i : UInt32} (hi : g.Index i) :
    g'.InUse i ↔ g.InUse i ∧ ¬ android_entry (g.entry i) = true := by
  have hi' : g'.Index i := by
    rw [Gpt.Index, hdel.header]
    exact hi
  rw [Gpt.InUse, hdel.entry i hi]
  by_cases hd : g.Deleted i
  · rw [if_pos hd]
    exact ⟨fun h => absurd rfl h.2, fun h => absurd hd.2 h.2⟩
  · rw [if_neg hd]
    constructor
    · rintro ⟨-, hused⟩
      exact ⟨⟨hi, hused⟩, fun ha => hd ⟨⟨hi, hused⟩, ha⟩⟩
    · rintro ⟨hused, -⟩
      exact ⟨hi', hused.2⟩

/-- What has been removed is what has an Android name. -/
theorem removed_eq (hdel : AndroidDeleted g g') :
    removed g g' = g.inUse.filter fun p => android_entry p.2 := by
  refine List.filter_congr ?_
  rintro ⟨i, e⟩ hp
  obtain ⟨hin, rfl⟩ := mem_inUse.mp hp
  simp only [hdel.inUse_iff hin.1, hin, true_and, not_not, Bool.decide_eq_true]

/-- Nothing is left to delete. -/
theorem AndroidDeleted.not_deleted (hdel : AndroidDeleted g g') (i : UInt32) : ¬ g'.Deleted i := by
  rintro ⟨hin, ha⟩
  have hi : g.Index i := by
    have hi' := hin.1
    rw [Gpt.Index, hdel.header] at hi'
    exact hi'
  have hkept := (hdel.inUse_iff hi).mp hin
  rw [hdel.entry i hi, if_neg fun hd => hkept.2 hd.2] at ha
  exact hkept.2 ha

theorem AndroidDeleted.named (hdel : AndroidDeleted g g') (hnamed : g.Named) : g'.Named := by
  intro i hin
  have hi : g.Index i := by
    have hi' := hin.1
    rw [Gpt.Index, hdel.header] at hi'
    exact hi'
  have hkept := (hdel.inUse_iff hi).mp hin
  rw [hdel.entry i hi, if_neg fun hd => hkept.2 hd.2]
  exact hnamed i hkept.1

/-- The bytes of a slot are those of its entry. -/
theorem slice_entry (hg : g.Mapped) {i : UInt32} (hi : g.Index i) :
    slice g.buf (gpt_entry_offset i g).toNat 128 = GptEntry.codec.enc (g.entry i) := by
  rw [Gpt.entry, GptEntry.codec.enc_dec]
  rw [length_slice (gpt_entry_offset_fits hg hi), GptEntry.width_codec]

omit [Platform] in
/-- A sum that fits is the sum of the numbers. -/
theorem toNat_sum {ps : List (UInt32 × GptEntry)}
    (hnonneg : ∀ n ∈ byte_sizes g ps, 0 ≤ n) (hfits : (byte_sizes g ps).sum < 2 ^ 64) :
    (((ps.map fun p => gpt_entry_get_size g p.2).sum).toNat : ℤ) = (byte_sizes g ps).sum := by
  induction ps with
  | nil => rfl
  | cons p ps ih =>
    rw [byte_sizes, List.map_cons, List.sum_cons] at hfits
    have hhead : 0 ≤ byte_size g p.2 := hnonneg _ List.mem_cons_self
    have hrest : ∀ n ∈ byte_sizes g ps, 0 ≤ n := fun n hn => hnonneg n (List.mem_cons_of_mem _ hn)
    have htail : 0 ≤ (byte_sizes g ps).sum := List.sum_nonneg hrest
    rw [byte_sizes] at htail
    have hsum := ih hrest (by rw [byte_sizes]; omega)
    have hsize := (gpt_entry_get_size_iff g p.2).mpr ⟨hhead, by omega⟩
    rw [byte_sizes] at hsum
    rw [byte_sizes, List.map_cons, List.sum_cons, List.map_cons, List.sum_cons, UInt64.toNat_add]
    omega

/-- **The reported and the actual footprint agree.** -/
theorem android_footprint (hg : g.Mapped) (hnamed : g.Named) :
    ∃ total g', (check_for_android g : Exec Die UInt64) = .ret total ∧
      delete_android g = .ret g' ∧ Agree g total g' := by
  obtain ⟨g', hret, hdel⟩ := delete_android_ret hg hnamed
  have hremoved := removed_eq hdel
  have hcheck := check_for_android_eq (ε := Die) hg hnamed
  rw [← hremoved] at hcheck
  refine ⟨_, g', hcheck, hret, rfl, toNat_sum, ?_, ?_, ?_, ?_⟩
  -- Run once more, the report finds nothing of its own left.
  · have hempty : (g'.inUse.filter fun p => android_entry p.2) = [] := by
      rw [List.filter_eq_nil_iff]
      rintro ⟨i, e⟩ hp ha
      obtain ⟨hin, rfl⟩ := mem_inUse.mp hp
      exact hdel.not_deleted i ⟨hin, ha⟩
    rw [check_for_android_eq hdel.mapped (hdel.named hnamed), hempty]
    rfl
  · intro i hi hkept
    have hi' : g'.Index i := by
      rw [Gpt.Index, hdel.header]
      exact hi
    have hentry : ¬ g.Deleted i := by
      rintro ⟨hin, ha⟩
      refine hkept ⟨hin, fun hin' => ?_⟩
      exact ((hdel.inUse_iff hi).mp hin').2 ha
    rw [slice_entry hdel.mapped hi', slice_entry hg hi, hdel.entry i hi, if_neg hentry]
  · intro p hp hname
    rw [hremoved] at hp
    obtain ⟨hmem, ha⟩ := List.mem_filter.mp hp
    obtain ⟨huse, hentry⟩ := mem_inUse.mp hmem
    rw [hentry, android_entry_of_name hg huse.1 hname] at ha
    revert ha
    decide
  · have hidx : ∀ i ∈ indices g'.header.num_pentries, g'.Index i := fun i hi => mem_indices.mp hi
    have hloop := delete_loop_none hdel.mapped (hdel.named hnamed) hidx
      fun i _ => hdel.not_deleted i
    rw [delete_android, partition_for_each]
    exact Exec.bind_eq_ret.mpr ⟨_, hloop, rfl⟩

end Footprint

section System

attribute [local instance] x86 insertionQsort

def named_entry (first last : UInt64) (name : String) : GptEntry :=
  (gpt_entry_set_name (region_entry first last) (cstr name)).2

/-- A table with two Android partitions of six and two sectors, the loader of Android, and a
partition of another system. -/
def system_gpt : Gpt :=
  ((((four_gpt.withHeader gaps_header).setEntry 1 (named_entry 3 8 "android_system")).setEntry 2
    (named_entry 9 9 "android_bootloader")).setEntry 3 (named_entry 10 14 "Basic data")).setEntry 4
    (named_entry 15 16 "android_cache")

theorem system_mapped : system_gpt.Mapped := by
  have hfour := four_mapped
  have hheader : (four_gpt.withHeader gaps_header).Mapped := ⟨rfl, hfour.size, hfour.inBounds⟩
  have h₁ := setEntry_mapped (i := 1) (e := named_entry 3 8 "android_system") hheader (by decide)
  have h₂ := setEntry_mapped (i := 2) (e := named_entry 9 9 "android_bootloader") h₁ (by decide)
  have h₃ := setEntry_mapped (i := 3) (e := named_entry 10 14 "Basic data") h₂ (by decide)
  exact setEntry_mapped h₃ (by decide)

/-- What the theorem says of it. -/
theorem system_footprint : ∃ total g',
    (check_for_android system_gpt : Exec Die UInt64) = .ret total ∧
      delete_android system_gpt = .ret g' ∧ Agree system_gpt total g' := by
  have hnamed : system_gpt.Named := by
    have hnames : ∀ p ∈ system_gpt.inUse, 0 ∈ p.2.name.toList := by
      decide +kernel
    intro i hi
    exact hnames (i, system_gpt.entry i) (mem_inUse.mpr ⟨hi, rfl⟩)
  exact android_footprint system_mapped hnamed

end System

end Iago
