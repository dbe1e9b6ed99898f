/-
The entry table as a finite partial map.

`gpt_entry_create` and `gpt_entry_delete` are all a caller has to change the entries of
a table with, and `partition_for_each` to look at them. What it sees is what it has
done: the indices it was given and has not given back, with the values it asked for.
The code keeps no record of that. An index is in use when the `first_lba` of its 128
bytes is not zero, a free one is searched for from the front, and a deleted one is
zeros.

`Tracks h g` is the invariant that ties the bytes to the history: every index that is
live after `h` has an entry with the values of its last `create`, every other one has
no `first_lba`. One call keeps it (`call_tracks`), and so does a run of them
(`calls_tracks`); what the loop visits and which index a call gets are then facts about
the map.
-/
import Iago.GptLayout
import Iago.Histories

set_option autoImplicit false

namespace Iago

/-! ## The calls -/

/-- What `gpt_entry_create` is asked for. -/
structure NewEntry where
  name : CStr
  type : PartType
  flags : UInt64
  first_lba : UInt64
  last_lba : UInt64

/-- A call. -/
inductive Call where
  | create (c : NewEntry)
  | delete (index : UInt32)

/-- A call that can be told apart from none: an entry that starts at sector 0 would not
be in use, and a name of more than 35 bytes is refused. -/
def Call.Good : Call → Prop
  | create c => c.first_lba ≠ 0 ∧ c.name.length ≤ 35
  | delete _ => True

instance (c : Call) : Decidable c.Good :=
  match c with
  | .create c => inferInstanceAs (Decidable (c.first_lba ≠ 0 ∧ c.name.length ≤ 35))
  | .delete _ => inferInstanceAs (Decidable True)

/-- What happens to the entries of a table: a `create` that returns 0 has made none, and a
`delete` that does not has deleted none. -/
abbrev TableEvent := Event UInt32 NewEntry

section Calls

variable {ε : Type} [Platform]

/-- One call, and what it comes to. -/
def call (c : Call) (g : Gpt) (r : Urandom) : Exec ε (TableEvent × Gpt × Urandom) :=
  match c with
  | .create c => do
    let (i, g, r) ← gpt_entry_create g c.name c.type c.flags c.first_lba c.last_lba r
    .ret (.created c (if i = 0 then none else some i), g, r)
  | .delete index => do
    let (ret, g) ← gpt_entry_delete g index
    .ret (.deleted index (ret = 0), g, r)

/-- Calls one after the other, and the history they make. -/
def calls : List Call → Gpt → Urandom → Exec ε (List TableEvent × Gpt × Urandom)
  | [], g, r => .ret ([], g, r)
  | c :: cs, g, r => do
    let (e, g, r) ← call c g r
    let (h, g, r) ← calls cs g r
    .ret (e :: h, g, r)

/-- A source that always has random bytes. -/
def Urandom.Working (r : Urandom) : Prop := ∀ n, r n ≠ none

omit [Platform] in
/-- A source that works goes on working. -/
theorem Urandom.Working.next {r : Urandom} (h : r.Working) : r.next.Working := fun n => h (n + 1)

theorem generate_uuid_of_working {r : Urandom} (h : r.Working) :
    ∃ uuid, generate_uuid r = (some uuid, r.next) := by
  obtain ⟨bytes, hbytes⟩ := Option.ne_none_iff_exists'.mp (h 0)
  rw [generate_uuid, hbytes]
  exact ⟨_, rfl⟩

/-! ## The invariant -/

/-- The entry has the values it was created with: the name field holds the units of the
name and a terminator. -/
structure CreatedAs (e : GptEntry) (c : NewEntry) : Prop where
  type : e.type_guid = get_guid_type c.type
  flags : e.flags = c.flags
  first_lba : e.first_lba = c.first_lba
  last_lba : e.last_lba = c.last_lba
  name : e.name.toList.take (c.name.length + 1)
    = c.name.map (fun c => htole16 (charToU16 c)) ++ [0]

/-- A new entry is what was asked for. -/
theorem created_createdAs (old : GptEntry) (c : NewEntry) (h : c.name.length ≤ 35) (uuid : Guid) :
    CreatedAs (GptEntry.created old c.name h c.type c.flags c.first_lba c.last_lba uuid) c where
  type := rfl
  flags := rfl
  first_lba := rfl
  last_lba := rfl
  name := by
    show (c.name.map (fun c => htole16 (charToU16 c)) ++ 0 :: old.name.toList.drop _).take _ = _
    rw [List.take_append, List.take_of_length_le (by rw [List.length_map]; omega),
      List.length_map, Nat.add_sub_cancel_left]
    rfl

/-- The bytes of `g` are those of the map that the history `h` makes. -/
structure Tracks (h : List TableEvent) (g : Gpt) : Prop extends g.Mapped where
  held : ∀ i c, replay h i = some c → g.Index i ∧ CreatedAs (g.entry i) c ∧ c.first_lba ≠ 0
  free : ∀ i, g.Index i → replay h i = none → (g.entry i).first_lba = 0

/-- An index is in use exactly if it is live. -/
theorem Tracks.inUse_iff {h : List TableEvent} {g : Gpt} (ht : Tracks h g) {i : UInt32} :
    g.InUse i ↔ ∃ c, Live h i c := by
  constructor
  · rintro ⟨hi, hne⟩
    by_contra hno
    exact hne (ht.free i hi (replay_eq_none_iff.mpr hno))
  · rintro ⟨c, hc⟩
    obtain ⟨hi, hholds, hne⟩ := ht.held i c (replay_eq_some_iff.mpr hc)
    exact ⟨hi, by rw [hholds.first_lba]; exact hne⟩

/-- A new table has no history. -/
theorem new_table_tracks (g₀ : Gpt) (uuid : Guid) : Tracks [] (new_table g₀ uuid) where
  toMapped := new_table_mapped g₀ uuid
  held i c h := by
    rw [replay_nil] at h
    cases h
  free i hi _ := by
    by_contra hne
    exact not_inUse_new_table i ⟨hi, hne⟩

/-! ## One call -/

omit [Platform] in
/-- The loops visit the indices in ascending order. -/
theorem pairwise_indices (n : UInt32) : (indices n).Pairwise (· < ·) := by
  have hn := n.toNat_lt
  rw [indices, List.pairwise_map]
  refine List.Pairwise.imp_of_mem ?_ List.pairwise_lt_range
  intro a b ha hb hab
  rw [List.mem_range] at ha hb
  rw [UInt32.lt_iff_toNat_lt, UInt32.toNat_ofNat', UInt32.toNat_ofNat']
  omega

/-- The search finds the least index that is free. -/
theorem isLeast_firstFree {g : Gpt} {i : UInt32} (h : g.firstFree = some i) :
    IsLeast {j | g.Index j ∧ ¬ g.InUse j} i := by
  have hsorted : (indices g.header.num_pentries).Pairwise (· ≤ ·) :=
    (pairwise_indices _).imp fun hlt => by
      rw [UInt32.lt_iff_toNat_lt] at hlt
      rw [UInt32.le_iff_toNat_le]
      omega
  have hleast := isLeast_of_find? hsorted (UInt32.le_iff_toNat_le.mpr (Nat.le_refl _)) h
  refine ⟨firstFree_spec h, ?_⟩
  rintro j ⟨hj, hfree⟩
  refine hleast.2 ⟨mem_indices.mpr hj, ?_⟩
  by_contra hne
  exact hfree ⟨hj, by simpa using hne⟩

/-- **What one call does** to a table `g` with history `h`: it leaves all other entries
alone, a `create` gets the least index that is not live or fails because all are, and a
`delete` fails for an index out of range and for no other. -/
structure Does (h : List TableEvent) (g : Gpt) (c : Call) (e : TableEvent) (g' : Gpt) : Prop where
  header : g'.header = g.header
  kept : ∀ j, g.Index j → ¬ e.At j → g'.entry j = g.entry j
  create : ∀ n, c = .create n → ∃ r, e = .created n r ∧
    (∀ i, r = some i → IsLeast {j | g.Index j ∧ ¬ ∃ c, Live h j c} i) ∧
    (r = none ↔ ∀ j, g.Index j → ∃ c, Live h j c)
  delete : ∀ i, c = .delete i → ∃ ok, e = .deleted i ok ∧
    (ok = false ↔ i = 0 ∨ g.header.num_pentries < i)

/-- A slot that gets a new entry. -/
theorem Tracks.create {h : List TableEvent} {g : Gpt} (ht : Tracks h g) {i : UInt32}
    (hi : g.Index i) {e : GptEntry} {c : NewEntry} (he : CreatedAs e c) (hc : c.first_lba ≠ 0) :
    Tracks (h ++ [.created c (some i)]) (g.setEntry i e) where
  toMapped := setEntry_mapped ht.toMapped hi
  held j d hj := by
    rw [replay_snoc] at hj
    by_cases hij : j = i
    · subst hij
      simp only [Event.apply, Function.update_self, Option.some.injEq] at hj
      subst hj
      refine ⟨hi, ?_, hc⟩
      rw [entry_setEntry_self ht.toMapped hi]
      exact he
    · simp only [Event.apply, Function.update_of_ne hij] at hj
      obtain ⟨hidx, hheld, hne⟩ := ht.held j d hj
      refine ⟨hidx, ?_, hne⟩
      rw [entry_setEntry_of_ne ht.toMapped hi hidx fun h => hij h.symm]
      exact hheld
  free j hj hnone := by
    rw [replay_snoc] at hnone
    by_cases hij : j = i
    · subst hij
      simp [Event.apply] at hnone
    · simp only [Event.apply, Function.update_of_ne hij] at hnone
      rw [entry_setEntry_of_ne ht.toMapped hi hj fun h => hij h.symm]
      exact ht.free j hj hnone

/-- A slot that is cleared. -/
theorem Tracks.delete {h : List TableEvent} {g : Gpt} (ht : Tracks h g) {i : UInt32}
    (hi : g.Index i) : Tracks (h ++ [.deleted i true]) (g.setEntry i GptEntry.zero) where
  toMapped := setEntry_mapped ht.toMapped hi
  held j d hj := by
    rw [replay_snoc] at hj
    by_cases hij : j = i
    · subst hij
      simp [Event.apply] at hj
    · simp only [Event.apply, Function.update_of_ne hij] at hj
      obtain ⟨hidx, hheld, hne⟩ := ht.held j d hj
      refine ⟨hidx, ?_, hne⟩
      rw [entry_setEntry_of_ne ht.toMapped hi hidx fun h => hij h.symm]
      exact hheld
  free j hj hnone := by
    by_cases hij : j = i
    · subst hij
      rw [entry_setEntry_self ht.toMapped hi]
      rfl
    · rw [replay_snoc] at hnone
      simp only [Event.apply, Function.update_of_ne hij] at hnone
      rw [entry_setEntry_of_ne ht.toMapped hi hj fun h => hij h.symm]
      exact ht.free j hj hnone

/-- A call that fails leaves everything as it was. -/
theorem Tracks.fail {h : List TableEvent} {g : Gpt} (ht : Tracks h g) {e : TableEvent}
    (he : ∀ i, ¬ e.At i) : Tracks (h ++ [e]) g where
  toMapped := ht.toMapped
  held j d hj := by
    rw [replay_snoc, Event.apply_of_not_at (he j)] at hj
    exact ht.held j d hj
  free j hj hnone := by
    rw [replay_snoc, Event.apply_of_not_at (he j)] at hnone
    exact ht.free j hj hnone

/-- **One call keeps the invariant.** -/
theorem call_tracks {h : List TableEvent} {g : Gpt} {r : Urandom} (ht : Tracks h g)
    (hr : r.Working) {c : Call} (hc : c.Good) :
    ∃ e g' r', call (ε := ε) c g r = .ret (e, g', r') ∧ r'.Working ∧ Tracks (h ++ [e]) g' ∧
      Does h g c e g' := by
  cases c with
  | create n =>
    rw [call, gpt_entry_create_eq ht.toMapped]
    rcases hfree : g.firstFree with _ | i
    · -- all indices are in use
      have hall : ∀ j, g.Index j → ∃ c, Live h j c := fun j hj =>
        ht.inUse_iff.mp (firstFree_eq_none.mp hfree j hj)
      refine ⟨_, g, r, rfl, hr, ht.fail ?_, rfl, fun _ _ _ => rfl, ?_, ?_⟩
      · intro i hi
        cases hi
      · intro n' hn
        injection hn with hn
        subst hn
        exact ⟨none, rfl, fun i hi => (by cases hi), fun _ => hall, fun _ => rfl⟩
      · intro i hi
        cases hi
    · have hi := (firstFree_spec hfree).1
      have hleast := isLeast_firstFree hfree
      obtain ⟨uuid, huuid⟩ := generate_uuid_of_working hr
      simp only [dif_pos hc.2, huuid, Exec.ret_bind, if_neg hi.1]
      refine ⟨_, _, _, rfl, hr.next, ht.create hi (created_createdAs _ n hc.2 uuid) hc.1, rfl, ?_,
        ?_, ?_⟩
      · intro j hj hat
        exact entry_setEntry_of_ne ht.toMapped hi hj fun hij => hat (congrArg some hij)
      · intro n' hn
        injection hn with hn
        subst hn
        refine ⟨some i, rfl, fun k hk => ?_, fun hno => (by cases hno), fun hall => ?_⟩
        · injection hk with hk
          subst hk
          simp only [ht.inUse_iff] at hleast
          exact hleast
        · exact absurd (ht.inUse_iff.mpr (hall i hi)) (firstFree_spec hfree).2
      · intro j hj
        cases hj
  | delete i =>
    by_cases hi : g.Index i
    · rw [call, gpt_entry_delete_of_index ht.toMapped hi]
      refine ⟨_, _, r, rfl, hr, ht.delete hi, rfl, ?_, fun n hn => (by cases hn), ?_⟩
      · intro j hj hat
        exact entry_setEntry_of_ne ht.toMapped hi hj fun hij => hat ⟨rfl, hij⟩
      · intro j hj
        injection hj with hj
        subst hj
        refine ⟨true, rfl, fun hno => (by cases hno), fun hout => ?_⟩
        have hle := UInt32.le_iff_toNat_le.mp hi.2
        rcases hout with h0 | hlt
        · exact absurd h0 hi.1
        · rw [UInt32.lt_iff_toNat_lt] at hlt
          omega
    · rw [call, gpt_entry_delete_of_not_index hi]
      refine ⟨_, g, r, rfl, hr, ht.fail ?_, rfl, fun _ _ _ => rfl,
        fun n hn => (by cases hn), ?_⟩
      · rintro j ⟨hok, -⟩
        exact absurd hok (by decide)
      · intro j hj
        injection hj with hj
        subst hj
        refine ⟨false, rfl, fun _ => ?_, fun _ => rfl⟩
        by_contra hin
        rw [not_or, UInt32.lt_iff_toNat_lt] at hin
        exact hi ⟨hin.1, UInt32.le_iff_toNat_le.mpr (by omega)⟩

/-! ## A run of calls -/

/-- **A run of calls keeps the invariant**, with the history it makes. -/
theorem calls_tracks {h : List TableEvent} {g : Gpt} {r : Urandom} (ht : Tracks h g)
    (hr : r.Working) {cs : List Call} (hcs : ∀ c ∈ cs, c.Good) :
    ∃ h' g' r', calls (ε := ε) cs g r = .ret (h', g', r') ∧ r'.Working ∧ Tracks (h ++ h') g' ∧
      g'.header = g.header := by
  induction cs generalizing h g r with
  | nil => exact ⟨[], g, r, rfl, hr, by rwa [List.append_nil], rfl⟩
  | cons c cs ih =>
    obtain ⟨e, g₁, r₁, hcall, hr₁, ht₁, hdoes⟩ :=
      call_tracks (ε := ε) ht hr (hcs c List.mem_cons_self)
    obtain ⟨h', g', r', hcalls, hr', ht', hheader⟩ :=
      ih ht₁ hr₁ fun c hc => hcs c (List.mem_cons_of_mem _ hc)
    refine ⟨e :: h', g', r', ?_, hr', ?_, hheader.trans hdoes.header⟩
    · rw [calls, hcall, Exec.ret_bind]
      simp only
      rw [hcalls]
      rfl
    · rwa [List.append_assoc, List.singleton_append] at ht'

/-- A run can be continued. -/
theorem calls_append {cs ds : List Call} {g : Gpt} {r : Urandom} :
    calls (ε := ε) (cs ++ ds) g r = calls cs g r >>= fun (h, g, r) =>
      calls ds g r >>= fun (h', g, r) => .ret (h ++ h', g, r) := by
  induction cs generalizing g r with
  | nil =>
    rw [List.nil_append, calls, Exec.ret_bind]
    simp only [List.nil_append]
    rcases calls ds g r with ⟨h, g, r⟩ | _ | _ | _ <;> rfl
  | cons c cs ih =>
    rw [List.cons_append, calls, calls, Exec.bind_assoc]
    congr 1
    funext ⟨e, g, r⟩
    simp only [ih, Exec.bind_assoc, Exec.ret_bind, List.cons_append]

/-! ## What the loop sees -/

/-- The indices and entries at which the body of `partition_for_each` runs, in order. -/
def visited (g : Gpt) : Exec ε (List (UInt32 × GptEntry) ⊕ Unit) :=
  partition_for_each (fun _ => g) (fun i e seen => .ret (.inl (seen ++ [(i, e)]))) []

/-- **What the loop sees of a table** is the map that its history makes: the live
indices, in ascending order and each once, with the values of their last `create`. -/
structure Sees (ε : Type) (h : List TableEvent) (g : Gpt) : Prop where
  out : ∃ seen, visited (ε := ε) g = .ret (.inl seen) ∧
    (seen.map Prod.fst).Pairwise (· < ·) ∧
    (∀ i, (∃ e, (i, e) ∈ seen) ↔ ∃ c, Live h i c) ∧
    ∀ i e c, (i, e) ∈ seen → Live h i c → CreatedAs e c

/-- What the loop visits are the entries in use. -/
theorem visited_eq {g : Gpt} (hg : g.Mapped) : visited (ε := ε) g = .ret (.inl g.inUse) := by
  rw [visited, partition_for_each_const hg.readable]
  refine (forEach_foldl (fun seen p => seen ++ [(p.1, p.2)]) g.inUse []).trans ?_
  have hfold : ∀ (ps seen : List (UInt32 × GptEntry)),
      ps.foldl (fun seen p => seen ++ [(p.1, p.2)]) seen = seen ++ ps := by
    intro ps
    induction ps with
    | nil => simp
    | cons p ps ih =>
      intro seen
      rw [List.foldl_cons, ih, List.append_assoc]
      rfl
  rw [hfold, List.nil_append]

/-- **What a caller sees** is what the history of calls says. -/
theorem Tracks.sees {h : List TableEvent} {g : Gpt} (ht : Tracks h g) : Sees ε h g where
  out := by
    refine ⟨g.inUse, visited_eq ht.toMapped, ?_, ?_, ?_⟩
    · rw [Gpt.inUse, List.map_map]
      have hid : (Prod.fst ∘ fun i => (i, g.entry i)) = id := rfl
      rw [hid, List.map_id]
      exact (pairwise_indices _).filter _
    · intro i
      rw [← ht.inUse_iff]
      constructor
      · rintro ⟨e, he⟩
        exact (mem_inUse.mp he).1
      · intro hi
        exact ⟨g.entry i, mem_inUse.mpr ⟨hi, rfl⟩⟩
    · intro i e c he hc
      rw [(mem_inUse.mp he).2]
      exact (ht.held i c (replay_eq_some_iff.mpr hc)).2.1

/-- **The entry table refines a finite partial map.** On a new table every run of calls
comes to its end; the loop then sees the map its history makes, and whatever call is
made next does to the table what it does to the map. -/
theorem entry_table_refines_map {g₀ g : Gpt} {r₀ r : Urandom}
    (hnew : gpt_new (ε := ε) g₀ r₀ = .ret (0, g, r)) (hr : r₀.Working)
    (cs : List Call) (hcs : ∀ c ∈ cs, c.Good) :
    ∃ h g₁ r₁, calls (ε := ε) cs g r = .ret (h, g₁, r₁) ∧
      g₁.header.num_pentries = 128 ∧ Sees ε h g₁ ∧
      ∀ c : Call, c.Good → ∃ e g₂ r₂,
        calls (ε := ε) (cs ++ [c]) g r = .ret (h ++ [e], g₂, r₂) ∧
        Does h g₁ c e g₂ := by
  obtain ⟨-, uuid, huuid, rfl⟩ := gpt_new_ret hnew
  have hnext : r = r₀.next := by
    obtain ⟨uuid', huuid'⟩ := generate_uuid_of_working hr
    rw [huuid'] at huuid
    exact (congrArg Prod.snd huuid).symm
  have hr' : r.Working := hnext ▸ hr.next
  obtain ⟨h, g₁, r₁, hcalls, hr₁, ht, hheader⟩ :=
    calls_tracks (ε := ε) (new_table_tracks g₀ uuid) hr' hcs
  rw [List.nil_append] at ht
  refine ⟨h, g₁, r₁, hcalls, by rw [hheader]; rfl, ht.sees, ?_⟩
  intro c hc
  obtain ⟨e, g₂, r₂, hcall, -, -, hdoes⟩ := call_tracks (ε := ε) ht hr₁ hc
  refine ⟨e, g₂, r₂, ?_, hdoes⟩
  rw [calls_append, hcalls, Exec.ret_bind]
  simp only [calls, hcall, Exec.ret_bind]

end Calls

section Recycled

attribute [local instance] x86

/-- Two entries, of which the first is given back and its index handed out again. -/
def recycled : List Call :=
  [.create ⟨cstr "boot", .PART_ESP, 0, 34, 40⟩,
    .create ⟨cstr "data", .PART_MS_DATA, 0, 41, 50⟩,
    .delete 1,
    .create ⟨cstr "misc", .PART_ANDROID_MISC, 0, 34, 35⟩]

/-- A table on a disk of 68 sectors, and a fifth call on it. -/
theorem recycled_refines_map : ∃ g,
    gpt_new (ε := Empty) (blank 68) zeros = .ret (0, g, zeros.next) ∧
    ∃ h g₁ r₁, calls (ε := Empty) recycled g zeros.next = .ret (h, g₁, r₁) ∧
      g₁.header.num_pentries = 128 ∧ Sees Empty h g₁ ∧
      ∀ c : Call, c.Good → ∃ e g₂ r₂,
        calls (ε := Empty) (recycled ++ [c]) g zeros.next = .ret (h ++ [e], g₂, r₂) ∧
        Does h g₁ c e g₂ := by
  obtain ⟨g, hnew⟩ := gpt_new_blank 68
  have hgood : ∀ c ∈ recycled, c.Good := by decide
  exact ⟨g, hnew, entry_table_refines_map hnew (fun _ h => by cases h) recycled hgood⟩

end Recycled

end Iago
