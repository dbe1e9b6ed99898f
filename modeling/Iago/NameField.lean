/-
The name of an entry, and what `gpt_entry_get_name` looks at.

A name of at most 35 characters is stored with a terminator, and what is stored comes back.
`lechar16_to_ascii` is not told how long the field is: it counts units until it finds a
zero, over what lies behind the field too, which is the next entry or the end of the array.
Here the units it looks at are counted.
-/
import Iago.GptEntries
import Mathlib.Data.List.TakeWhile

set_option autoImplicit false

namespace Iago

section Scan

variable {ε : Type} [Platform]

/-- `lechar16_to_ascii` over memory: the string, and how many units were looked at. -/
def lechar16_to_ascii_at (str16 : List UInt16) : Exec ε (CStr × ℕ) := do
  let len ← lechar16_scan str16 0
  .ret ((str16.take len).map ascii_of_unit, len + 1)

/-- `gpt_entry_get_name`, of an entry with `behind` after it in the array. -/
def gpt_entry_get_name_at (e : GptEntry) (behind : List UInt16) : Exec ε (CStr × ℕ) :=
  lechar16_to_ascii_at (e.name.toList ++ behind)

/-! ## The scan -/

omit [Platform] in
/-- Without a zero among them, the scan leaves the units behind. -/
theorem lechar16_scan_of_not_mem {units : List UInt16} (h : 0 ∉ units) (behind : List UInt16)
    {len n : ℕ} (hscan : (lechar16_scan (units ++ behind) len : Exec ε ℕ) = .ret n) :
    len + units.length ≤ n := by
  induction units generalizing len with
  | nil =>
    -- what is left only counts up
    rw [List.nil_append] at hscan
    rw [List.length_nil, Nat.add_zero]
    clear h
    induction behind generalizing len with
    | nil => cases hscan
    | cons u rest ih =>
      rw [lechar16_scan] at hscan
      split at hscan
      · exact Nat.le_of_succ_le (ih hscan)
      · injection hscan with hscan
        exact hscan.le
  | cons u rest ih =>
    have hu : u ≠ 0 := fun h0 => h (h0 ▸ List.mem_cons_self)
    have hrest : 0 ∉ rest := fun h0 => h (List.mem_cons_of_mem u h0)
    rw [List.cons_append, lechar16_scan, if_pos hu] at hscan
    have hle := ih hrest hscan
    rw [List.length_cons]
    omega

/-- With a zero among the units, the conversion is that of the units before it. -/
theorem lechar16_to_ascii_at_of_mem {units : List UInt16} (h : 0 ∈ units) (behind : List UInt16) :
    (lechar16_to_ascii_at (units ++ behind) : Exec ε _) =
      .ret ((up_to_zero units).map ascii_of_unit, (up_to_zero units).length + 1) := by
  have hle : (up_to_zero units).length ≤ units.length :=
    (List.takeWhile_prefix _).length_le
  rw [lechar16_to_ascii_at, lechar16_scan_of_mem h, Exec.ret_bind, Nat.zero_add,
    List.take_append_of_le_length hle, up_to_zero_eq_take]

/-- Of an entry of a table, it is the name `gpt_entry_get_name` returns. -/
theorem gpt_entry_get_name_at_entry {g : Gpt} {i : UInt32} (hg : g.Mapped) (hi : g.Index i) :
    (gpt_entry_get_name_at (g.entry i) (g.behind i) : Exec ε _).bind (fun p => .ret p.1) =
      gpt_entry_get_name (gpt_entry_offset i g) g := by
  rw [get_name_eq hg hi, name_units_eq hg hi, gpt_entry_get_name_at, lechar16_to_ascii_at,
    lechar16_to_ascii]
  exact Exec.bind_assoc _ _ _

end Scan

/-! ## The round trip, and the field -/

section Names

variable {ε : Type} [Platform] {e : GptEntry} {s : CStr} {behind : List UInt16}

/-- A C string of ASCII characters. -/
def Ascii (s : CStr) : Prop := ∀ c ∈ s, c ≠ 0 ∧ c < 128

instance (s : CStr) : Decidable (Ascii s) := inferInstanceAs (Decidable (∀ c ∈ s, _))

/-- Setting a name works for the strings that fit, and then the name is the string; the 56
bytes before the name field are as they were. -/
structure NameRoundTrips (e : GptEntry) (s : CStr) (behind : List UInt16) : Prop where
  succeeds : (gpt_entry_set_name e s).1 = 0 ↔ s.length ≤ 35
  reads_back : (gpt_entry_set_name e s).1 = 0 →
    (gpt_entry_get_name_at (gpt_entry_set_name e s).2 behind : Exec Empty _) =
      .ret (s, s.length + 1)
  outside : (gpt_entry_set_name e s).1 = 0 →
    (GptEntry.codec.enc (gpt_entry_set_name e s).2).take 56 = (GptEntry.codec.enc e).take 56
  failed : (gpt_entry_set_name e s).1 ≠ 0 → (gpt_entry_set_name e s).2 = e

/-- Getting the name looks at units of the field only, and converts those up to the first
zero or to the end of the field. -/
def ReadsField (e : GptEntry) (behind : List UInt16) : Prop :=
  ∃ n ≤ 36, (gpt_entry_get_name_at e behind : Exec Empty _) =
    .ret ((up_to_zero e.name.toList).map ascii_of_unit, n)

/-- The name is the last field of the entry. -/
theorem take_enc_entry (e : GptEntry) (name : List.Vector UInt16 36) :
    (GptEntry.codec.enc { e with name := name }).take 56 = (GptEntry.codec.enc e).take 56 := by
  have hsplit : ∀ name : List.Vector UInt16 36,
      GptEntry.codec.enc { e with name := name } =
        (Guid.codec.enc e.type_guid ++ (Guid.codec.enc e.part_guid ++ (u64.enc e.first_lba ++
          (u64.enc e.last_lba ++ u64.enc e.flags)))) ++ (u16.vector 36).enc name := by
    intro name
    unfold GptEntry.codec
    simp only [List.append_assoc]
    rfl
  have hlength : (Guid.codec.enc e.type_guid ++ (Guid.codec.enc e.part_guid ++
      (u64.enc e.first_lba ++ (u64.enc e.last_lba ++ u64.enc e.flags)))).length = 56 := by
    simp only [List.length_append, Codec.length_enc, Guid.width_codec]
    rfl
  rw [hsplit name, List.take_left' hlength]
  exact (List.take_left' hlength ▸ congrArg (List.take 56) (hsplit e.name)).symm

/-- A name that was set is read back from the field. -/
theorem set_name_reads_back (hs : Ascii s) (h : s.length ≤ 35) :
    (gpt_entry_get_name_at { e with name := overwriteName e.name s h } behind : Exec ε _) =
      .ret (s, s.length + 1) := by
  have hzero : 0 ∉ s := fun h0 => (hs 0 h0).1 rfl
  have hmem : 0 ∈ (overwriteName e.name s h).toList := zero_mem_overwriteName e.name h
  have hname := entry_name_overwriteName (e := { e with name := overwriteName e.name s h }) h
    hzero rfl
  rw [map_shown fun c hc => (hs c hc).2, entry_name] at hname
  simp only at hname
  rw [gpt_entry_get_name_at, lechar16_to_ascii_at_of_mem hmem, hname,
    up_to_zero_overwriteName e.name h hzero, List.length_map]

theorem nameRoundTrips (e : GptEntry) (hs : Ascii s) (behind : List UInt16) :
    NameRoundTrips e s behind := by
  -- The code refuses what does not fit with its NUL, before it touches the entry.
  by_cases h : s.length ≤ 35
  · have hset := gpt_entry_set_name_of_le (e := e) h
    constructor
    · rw [hset]
      exact ⟨fun _ => h, fun _ => rfl⟩
    · intro _
      rw [hset]
      exact set_name_reads_back hs h
    · intro _
      rw [hset]
      exact take_enc_entry e _
    · rw [hset]
      exact fun hne => absurd rfl hne
  · have hset := gpt_entry_set_name_of_gt (e := e) h
    have hne : (-1 : ℤ) ≠ 0 := by decide
    constructor
    · rw [hset]
      exact ⟨fun h0 => absurd h0 hne, fun hle => absurd hle h⟩
    · rw [hset]
      exact fun h0 => absurd h0 hne
    · rw [hset]
      exact fun h0 => absurd h0 hne
    · intro _
      rw [hset]

/-- **When getting a name keeps to the field.** -/
theorem readsField_iff (e : GptEntry) (behind : List UInt16) :
    ReadsField e behind ↔ 0 ∈ e.name.toList := by
  constructor
  · rintro ⟨n, hn, hget⟩
    by_contra hzero
    rw [gpt_entry_get_name_at, lechar16_to_ascii_at] at hget
    obtain ⟨len, hscan, hret⟩ := Exec.bind_eq_ret.mp hget
    have hlen := lechar16_scan_of_not_mem hzero behind hscan
    injection hret with hret
    injection hret with _ hn'
    rw [List.Vector.toList_length] at hlen
    omega
  · intro hzero
    have hlt : (up_to_zero e.name.toList).length < 36 := by
      have hle : (up_to_zero e.name.toList).length ≤ e.name.toList.length :=
        (List.takeWhile_prefix _).length_le
      rw [List.Vector.toList_length] at hle
      refine lt_of_le_of_ne hle fun heq => ?_
      -- all 36 units before the first zero
      have hall : up_to_zero e.name.toList = e.name.toList := by
        rw [← up_to_zero_eq_take, heq, List.take_of_length_le (by rw [List.Vector.toList_length])]
      rw [← hall] at hzero
      unfold up_to_zero at hzero
      have hne := List.mem_takeWhile_imp hzero
      exact of_decide_eq_true hne rfl
    exact ⟨_, hlt, lechar16_to_ascii_at_of_mem hzero behind⟩

/-- **Names round-trip, whatever is behind the field; they are read within their field
exactly if the field has a zero unit.** -/
theorem names_within_field_iff (e : GptEntry) (hs : Ascii s) (behind : List UInt16) :
    NameRoundTrips e s behind ∧ ReadsField e behind ↔ 0 ∈ e.name.toList := by
  rw [readsField_iff]
  exact and_iff_right (nameRoundTrips e hs behind)

end Names

/-! ## A field without a zero -/

section FullField

attribute [local instance] x86

/-- An entry whose name takes all 36 units. -/
def full_name : GptEntry := { GptEntry.zero with first_lba := 3, name := List.Vector.replicate 36 97 }

/-- What is behind it when the next entry is an EFI system partition: the units of the type,
and then a `part_guid` that starts with two zero bytes. -/
def esp_behind : List UInt16 :=
  ((u16.vector 8).dec (Guid.codec.enc (get_guid_type .PART_ESP))).toList ++ [0]

/-- The name comes back with 8 characters of the next entry, and from the last entry of an
array the scan leaves the array. -/
theorem full_name_leaves_field :
    (gpt_entry_get_name_at full_name esp_behind : Exec Empty _) =
      .ret (List.replicate 36 97 ++ List.replicate 8 63, 45) ∧
    (gpt_entry_get_name_at full_name [] : Exec Empty _) = .fault ∧
    ¬ (NameRoundTrips full_name (cstr "boot") esp_behind ∧ ReadsField full_name esp_behind) := by
  refine ⟨by decide +kernel, by decide +kernel, ?_⟩
  rintro ⟨-, hreads⟩
  have hzero := (readsField_iff full_name esp_behind).mp hreads
  revert hzero
  decide

/-- What the theorem says of an entry of zeros. -/
theorem boot_within_field :
    NameRoundTrips GptEntry.zero (cstr "boot") [] ∧ ReadsField GptEntry.zero [] ↔
      0 ∈ GptEntry.zero.name.toList :=
  names_within_field_iff GptEntry.zero (by decide +kernel) []

end FullField

end Iago
