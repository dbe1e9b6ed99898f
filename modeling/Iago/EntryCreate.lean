/-
What `gpt_entry_create` leaves behind when it fails.

The function takes the first free slot and stores into it as it goes: the flags and the
two LBAs, then the name, then the type, and last the GUID, which `generate_uuid` reads
straight into the entry. The name can be too long and the random source can fail, and then
the function returns 0 with everything stored that came before. A slot is free because its
`first_lba` is 0, so a failed call with a `first_lba` turns it into a partition.

Here `generate_uuid` is followed `read` by `read`, where the entry table's own account
(`generate_uuid`) has one read of 16 bytes or none; the two agree where that is what
happens (`create_of_whole_read`).
-/
import Iago.GptRoundTrip

set_option autoImplicit false

namespace Iago

section Random

variable {ε : Type} [Platform]

/-- What one `read` of `/dev/urandom` does: it stores some bytes (none at the end of the
file), is interrupted, or fails. -/
inductive RandomRead where
  | bytes (bs : List UInt8)
  | eintr
  | err
  deriving DecidableEq

/-- The loop of `generate_uuid`, with `errno` as far as it is looked at, and the 16 bytes of
`uuid`: whether it gets through. An interrupted `read` returns -1, and that is subtracted
from `to_read`; every `read` stores at the start of `uuid`. -/
def generate_uuid_loop : List RandomRead → (to_read : UInt64) → (errno_eintr : Bool) →
    (uuid : List UInt8) → Exec ε (Bool × List UInt8 × List RandomRead)
  | [], to_read, _, uuid => if to_read = 0 then .ret (true, uuid, []) else .hang
  | r :: rs, to_read, errno_eintr, uuid =>
    if to_read = 0 then .ret (true, uuid, r :: rs)
    else
      match r with
      | .err => .ret (false, uuid, rs)
      | .eintr => generate_uuid_loop rs (to_read + 1) true uuid
      | .bytes [] =>
        if errno_eintr then generate_uuid_loop rs to_read errno_eintr uuid
        else .ret (false, uuid, rs)
      | .bytes bs =>
        generate_uuid_loop rs (to_read - UInt64.ofNat bs.length) errno_eintr (splice uuid 0 bs)

/-- `generate_uuid`: what it returns, and what it has left of the GUID it was given. -/
def generate_uuid_reads (rs : List RandomRead) (errno_eintr : Bool) (uuid : Guid) :
    Exec ε (Int × Guid × List RandomRead) := do
  let (ok, bytes, rs) ← generate_uuid_loop rs 16 errno_eintr (Guid.codec.enc uuid)
  let uuid := Guid.codec.dec bytes
  if ok then
    .ret (0, { uuid with
      data4 := uuid.data4.set 0 ((uuid.data4.get 0 &&& 0x3F) ||| 0x80)
      data3 := (uuid.data3 &&& 0x0FFF) ||| 0x4000 }, rs)
  else .ret (-1, uuid, rs)

/-- `gpt_entry_create`, with the random source read by read. -/
def gpt_entry_create_reads (g : Gpt) (name : CStr) (type : PartType)
    (flags first_lba last_lba : UInt64) (rs : List RandomRead) (errno_eintr : Bool) :
    Exec ε (UInt32 × Gpt × List RandomRead) := do
  let i ← gpt_next_index g
  match gpt_entry_get i g with
  | none => .ret (0, g, rs)
  | some off =>
    let e ← g.load off
    let e := { e with flags := flags, first_lba := first_lba, last_lba := last_lba }
    match gpt_entry_set_name e name with
    | (0, e) => do
      let e := gpt_entry_set_type e type
      let (ret, part_guid, rs) ← generate_uuid_reads rs errno_eintr e.part_guid
      let g ← g.store off { e with part_guid := part_guid }
      if ret ≠ 0 then .ret (0, g, rs) else .ret (i, g, rs)
    | (_, e) => do
      let g ← g.store off e
      .ret (0, g, rs)

end Random

section Create

variable {ε : Type} [Platform] {g g' : Gpt} {name : CStr} {type : PartType}
  {flags first_lba last_lba : UInt64} {rs rs' : List RandomRead} {errno_eintr : Bool} {i : UInt32}

/-! ## On a mapped table -/

/-- What has been stored over `e` when the last step is done or has failed, or when the name
is too long. -/
def GptEntry.stored (e : GptEntry) (name : CStr) (type : PartType)
    (flags first_lba last_lba : UInt64) (part_guid : Guid) : GptEntry :=
  let e := { e with flags := flags, first_lba := first_lba, last_lba := last_lba }
  if h : name.length ≤ 35 then
    { e with
      name := overwriteName e.name name h
      type_guid := get_guid_type type
      part_guid := part_guid }
  else e

/-- What the creation of an entry comes to, read by read. -/
theorem gpt_entry_create_reads_eq (hg : g.Mapped) (name : CStr) (type : PartType)
    (flags first_lba last_lba : UInt64) (rs : List RandomRead) (errno_eintr : Bool) :
    (gpt_entry_create_reads g name type flags first_lba last_lba rs errno_eintr : Exec ε _) =
      match g.firstFree with
      | none => .ret (0, g, rs)
      | some k =>
        let stored := (g.entry k).stored name type flags first_lba last_lba
        if name.length ≤ 35 then
          (generate_uuid_reads rs errno_eintr (g.entry k).part_guid).bind fun r =>
            if r.1 ≠ 0 then .ret (0, g.setEntry k (stored r.2.1), r.2.2)
            else .ret (k, g.setEntry k (stored r.2.1), r.2.2)
        else .ret (0, g.setEntry k (stored (g.entry k).part_guid), rs) := by
  rw [gpt_entry_create_reads, gpt_next_index_eq hg, Exec.ret_bind]
  cases hfree : g.firstFree with
  | none =>
    -- Without a free slot the index is 0, and 0 is no index.
    have h0 : gpt_entry_get 0 g = none := gpt_entry_get_of_not_index fun h => h.1 rfl
    simp only [Option.getD_none, h0]
  | some k =>
    have hk := (firstFree_spec hfree).1
    simp only [Option.getD_some, gpt_entry_get_of_index hk, load_entry hg hk, Exec.ret_bind]
    by_cases hname : name.length ≤ 35
    · rw [gpt_entry_set_name_of_le hname, if_pos hname]
      simp only [gpt_entry_set_type, GptEntry.stored, dif_pos hname]
      congr 1
      funext r
      rw [store_entry hg hk, Exec.ret_bind]
    · rw [gpt_entry_set_name_of_gt hname, if_neg hname]
      simp only [GptEntry.stored, dif_neg hname, store_entry hg hk, Exec.ret_bind]

/-- The answers of the random source that are one read of 16 bytes, or an error. -/
def RandomRead.ofAnswer : Option (List.Vector UInt8 16) → RandomRead
  | none => .err
  | some v => .bytes v.toList

/-- Where the source answers with one read, this is the `gpt_entry_create` of the entry table. -/
theorem create_of_whole_read (hg : g.Mapped) (r : Urandom) :
    (gpt_entry_create_reads g name type flags first_lba last_lba [.ofAnswer (r 0)] errno_eintr :
        Exec ε _).bind (fun x => .ret (x.1, x.2.1)) =
      (gpt_entry_create g name type flags first_lba last_lba r : Exec ε _).bind
        fun x => .ret (x.1, x.2.1) := by
  rw [gpt_entry_create_reads_eq hg, gpt_entry_create_eq hg]
  cases hfree : g.firstFree with
  | none => rfl
  | some k =>
    by_cases hname : name.length ≤ 35
    · have hwidth : (Guid.codec.enc (g.entry k).part_guid).length = 16 := by
        rw [Guid.codec.length_enc, Guid.width_codec]
      simp only [if_pos hname, dif_pos hname, GptEntry.stored, GptEntry.created]
      -- The one read fails or brings all sixteen bytes, and the loop is done after it.
      cases hr : r 0 with
      | none =>
        simp only [generate_uuid, hr, generate_uuid_reads, RandomRead.ofAnswer, generate_uuid_loop]
        rw [if_neg (by decide)]
        simp only [Exec.ret_bind, Guid.codec.dec_enc]
        rfl
      | some bytes =>
        have hsplice : splice (Guid.codec.enc (g.entry k).part_guid) 0 bytes.toList = bytes.toList :=
          splice_all (by rw [hwidth, bytes.toList_length])
        have hloop : generate_uuid_loop (ε := ε) [.bytes bytes.toList] 16 errno_eintr
            (Guid.codec.enc (g.entry k).part_guid) = .ret (true, bytes.toList, []) := by
          have hlength := bytes.toList_length
          cases hbytes : bytes.toList with
          | nil =>
            rw [hbytes] at hlength
            cases hlength
          | cons b bs =>
            rw [hbytes] at hlength hsplice
            rw [generate_uuid_loop]
            · rw [if_neg (by decide), hlength, hsplice]
              rfl
            · exact List.cons_ne_nil _ _
        simp only [generate_uuid, hr, generate_uuid_reads, RandomRead.ofAnswer, hloop]
        rfl
    · simp only [if_neg hname, dif_neg hname, GptEntry.stored]
      rfl

/-! ## When it is atomic -/

/-- An entry already holds the flags and the two LBAs. -/
def HoldsRange (e : GptEntry) (flags first_lba last_lba : UInt64) : Prop :=
  e.flags = flags ∧ e.first_lba = first_lba ∧ e.last_lba = last_lba

/-- Where the name is too long, the slot holds the range already; where the random source
fails, it also holds the name, the type, and over its GUID the bytes read before. -/
structure HoldsWhatIsLeft (e : GptEntry) (name : CStr) (type : PartType)
    (flags first_lba last_lba : UInt64) (rs : List RandomRead) (errno_eintr : Bool) : Prop where
  too_long : ¬ name.length ≤ 35 → HoldsRange e flags first_lba last_lba
  no_uuid : ∀ (h : name.length ≤ 35) (left : Guid) (rs' : List RandomRead),
    (generate_uuid_reads rs errno_eintr e.part_guid : Exec Empty _) = .ret (-1, left, rs') →
      HoldsRange e flags first_lba last_lba ∧ e.name = overwriteName e.name name h ∧
        e.type_guid = get_guid_type type ∧ e.part_guid = left

/-- What is stored with a name that is too long. -/
theorem stored_of_gt {e : GptEntry} (h : ¬ name.length ≤ 35) (left : Guid) :
    e.stored name type flags first_lba last_lba left =
      { e with flags := flags, first_lba := first_lba, last_lba := last_lba } := by
  rw [GptEntry.stored, dif_neg h]

theorem stored_eq_self_of_gt {e : GptEntry} (h : ¬ name.length ≤ 35) (left : Guid) :
    e.stored name type flags first_lba last_lba left = e ↔
      HoldsRange e flags first_lba last_lba := by
  rw [stored_of_gt h]
  constructor
  · intro heq
    exact ⟨(congrArg GptEntry.flags heq).symm, (congrArg GptEntry.first_lba heq).symm,
      (congrArg GptEntry.last_lba heq).symm⟩
  · rintro ⟨rfl, rfl, rfl⟩
    rfl

/-- With a name that fits, it changes nothing if all of it was there. -/
theorem stored_eq_self_of_le {e : GptEntry} (h : name.length ≤ 35) (left : Guid) :
    e.stored name type flags first_lba last_lba left = e ↔
      HoldsRange e flags first_lba last_lba ∧ e.name = overwriteName e.name name h ∧
        e.type_guid = get_guid_type type ∧ e.part_guid = left := by
  rw [GptEntry.stored, dif_pos h]
  constructor
  · intro heq
    exact ⟨⟨(congrArg GptEntry.flags heq).symm, (congrArg GptEntry.first_lba heq).symm,
      (congrArg GptEntry.last_lba heq).symm⟩, (congrArg GptEntry.name heq).symm,
      (congrArg GptEntry.type_guid heq).symm, (congrArg GptEntry.part_guid heq).symm⟩
  · rintro ⟨⟨hflags, hfirst, hlast⟩, hname, htype, hguid⟩
    rw [← hflags, ← hfirst, ← hlast, ← hname, ← htype, ← hguid]

/-- Storing an entry changes nothing only if it is there. -/
theorem setEntry_entries_iff (hg : g.Mapped) {k : UInt32} (hk : g.Index k) {e : GptEntry} :
    (g.setEntry k e).entries = g.entries ↔ e = g.entry k := by
  constructor
  · intro hentries
    -- the entry is read off the array
    have hbuf : (g.setEntry k e).buf = g.buf := by
      rw [Gpt.buf, hentries, Gpt.buf]
    rw [← entry_setEntry_self hg hk (e := e), Gpt.entry, hbuf, gpt_entry_offset_setEntry, Gpt.entry]
  · rintro rfl
    rw [setEntry_entry hg hk]

/-- What `generate_uuid` returns is 0 or -1. -/
theorem generate_uuid_reads_ret {uuid left : Guid} {ret : Int}
    (h : (generate_uuid_reads rs errno_eintr uuid : Exec ε _) = .ret (ret, left, rs')) :
    ret = 0 ∨ ret = -1 := by
  rw [generate_uuid_reads] at h
  obtain ⟨⟨ok, bytes, rest⟩, -, h⟩ := Exec.bind_eq_ret.mp h
  cases ok with
  | true =>
    left
    injection h with h
    injection h with h _
    exact h.symm
  | false =>
    right
    injection h with h
    injection h with h _
    exact h.symm

/-- A call that returns 0 leaves the entry array as it was exactly if there was no free slot
or the slot held already what the call had stored when it failed. -/
theorem gpt_entry_create_atomic_iff (hg : g.Mapped)
    (h : (gpt_entry_create_reads g name type flags first_lba last_lba rs errno_eintr : Exec Empty _) =
      .ret (i, g', rs')) :
    (i = 0 → g'.entries = g.entries) ↔
      ∀ k, g.firstFree = some k →
        HoldsWhatIsLeft (g.entry k) name type flags first_lba last_lba rs errno_eintr := by
  rw [gpt_entry_create_reads_eq hg] at h
  cases hfree : g.firstFree with
  | none =>
    rw [hfree] at h
    injection h with h
    injection h with _ h
    injection h with hg' _
    constructor
    · intro _ k hk
      cases hk
    · intro _ _
      rw [← hg']
  | some k =>
    rw [hfree] at h
    simp only at h
    have hk := (firstFree_spec hfree).1
    by_cases hname : name.length ≤ 35
    · rw [if_pos hname] at h
      obtain ⟨⟨ret, left, rest⟩, hreads, h⟩ := Exec.bind_eq_ret.mp h
      rcases generate_uuid_reads_ret hreads with rfl | rfl
      · -- the call succeeded, and the index is not 0
        rw [if_neg (not_not.mpr rfl)] at h
        injection h with h
        injection h with hi _
        constructor
        · rintro - _ ⟨rfl⟩
          refine ⟨fun hgt => absurd hname hgt, fun _ left' rest' hfail => ?_⟩
          rw [hreads] at hfail
          cases hfail
        · intro _ hi0
          exact absurd (hi.trans hi0) hk.1
      · have hne : (-1 : ℤ) ≠ 0 := by decide
        rw [if_pos hne] at h
        injection h with h
        injection h with hi h
        injection h with hg' _
        rw [← hg', setEntry_entries_iff hg hk, stored_eq_self_of_le hname]
        constructor
        · intro hsame _ hk'
          injection hk' with hk'
          subst hk'
          refine ⟨fun hgt => absurd hname hgt, fun _ left' rest' hfail => ?_⟩
          rw [hreads] at hfail
          injection hfail with hfail
          injection hfail with _ hfail
          injection hfail with hleft _
          exact hleft ▸ hsame hi.symm
        · intro hholds _
          exact (hholds k rfl).no_uuid hname left rest hreads
    · rw [if_neg hname] at h
      injection h with h
      injection h with hi h
      injection h with hg' _
      rw [← hg', setEntry_entries_iff hg hk, stored_eq_self_of_gt hname]
      constructor
      · intro hsame _ hk'
        injection hk' with hk'
        subst hk'
        exact ⟨fun _ => hsame hi.symm, fun hle => absurd hle hname⟩
      · intro hholds _
        exact (hholds k rfl).too_long hname

/-- What a failed call leaves, once it has a slot and is given a `first_lba`, is in use. -/
theorem gpt_entry_create_failed_inUse (hg : g.Mapped) {k : UInt32} (hfree : g.firstFree = some k)
    (hfirst : first_lba ≠ 0)
    (h : (gpt_entry_create_reads g name type flags first_lba last_lba rs errno_eintr : Exec ε _) =
      .ret (i, g', rs')) :
    g'.InUse k := by
  rw [gpt_entry_create_reads_eq hg, hfree] at h
  simp only at h
  have hk := (firstFree_spec hfree).1
  have hinUse (left : Guid) : (g.setEntry k ((g.entry k).stored name type flags first_lba last_lba
      left)).InUse k := by
    refine ⟨(index_setEntry ..).mpr hk, ?_⟩
    rw [entry_setEntry_self hg hk, GptEntry.stored]
    split <;> exact hfirst
  split at h
  · obtain ⟨⟨ret, left, rest⟩, -, h⟩ := Exec.bind_eq_ret.mp h
    split at h <;> · injection h with h
                     injection h with _ h
                     injection h with hg' _
                     exact hg' ▸ hinUse left
  · injection h with h
    injection h with _ h
    injection h with hg' _
    exact hg' ▸ hinUse _

end Create

/-! ## A name that is too long -/

section LongName

attribute [local instance] x86

/-- 36 characters. -/
def long_name : CStr := List.replicate 36 97

/-- The first of four free slots, with the flags and the LBAs of the partition that was
not made. -/
def half_filled : Gpt :=
  four_gpt.setEntry 1 { GptEntry.zero with flags := 4, first_lba := 3, last_lba := 5 }

/-- The run with a long name stores the sectors. -/
theorem long_name_ret :
    (gpt_entry_create_reads four_gpt long_name .PART_MS_DATA 4 3 5 [] false : Exec Empty _) =
      .ret (0, half_filled, []) := by
  decide +kernel

/-- Nothing was there and no partition was made, and the table now has one from LBA 3 to 5. -/
theorem long_name_left_in_use :
    (gpt_entry_create_reads four_gpt long_name .PART_MS_DATA 4 3 5 [] false : Exec Empty _) =
        .ret (0, half_filled, []) ∧
      half_filled.entries ≠ four_gpt.entries ∧ half_filled.InUse 1 ∧ four_gpt.inUse = [] := by
  refine ⟨long_name_ret, ?_, ?_, ?_⟩
  all_goals decide +kernel

/-- What the theorem says of it. -/
theorem long_name_atomic_iff :
    ((0 : UInt32) = 0 → half_filled.entries = four_gpt.entries) ↔
      ∀ k, four_gpt.firstFree = some k →
        HoldsWhatIsLeft (four_gpt.entry k) long_name .PART_MS_DATA 4 3 5 [] false :=
  gpt_entry_create_atomic_iff four_mapped long_name_ret

end LongName

end Iago
