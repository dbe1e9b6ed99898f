/-
Dying for lack of space.

`create_android_partitions` dies with 'Insufficient disk space' or 'Couldn't calculate
unpartitioned disk space' only before it makes the first partition: the callback has
other ways to die, but not these (`mkpart_cb_spaceSafe`). So whether it does is decided
by the free region and the space asked for alone (`create_lacks_space_iff`).
-/
import Iago.SpaceRequired

set_option autoImplicit false

namespace Iago

/-- The two messages about space. -/
def Die.OfSpace : Die → Bool
  | .no_unpartitioned_space => true
  | .insufficient_disk_space _ _ => true
  | _ => false

/-- A run that does not die for lack of space. -/
def SpaceSafe {α : Type} (x : Exec Die α) : Prop := ∀ e, x = .die e → e.OfSpace = false

/-! ## Runs that are safe -/

section Safe

variable {α β : Type}

/-- What returns does not lack space. -/
theorem spaceSafe_ret (a : α) : SpaceSafe (.ret a : Exec Die α) := by
  intro e h
  cases h

theorem spaceSafe_fault : SpaceSafe (.fault : Exec Die α) := by
  intro e h
  cases h

theorem spaceSafe_die {e : Die} (he : e.OfSpace = false) : SpaceSafe (.die e : Exec Die α) := by
  intro e' h
  injection h with h
  rw [← h]
  exact he

/-- A sequence is safe when its halves are. -/
theorem SpaceSafe.bind {x : Exec Die α} {f : α → Exec Die β} (hx : SpaceSafe x)
    (hf : ∀ a, x = .ret a → SpaceSafe (f a)) : SpaceSafe (x >>= f) := by
  intro e h
  rcases Exec.bind_eq_die.mp h with h | ⟨a, ha, h⟩
  · exact hx e h
  · exact hf a ha e h

/-- If the first half is safe, it is the second that matters. -/
theorem spaceSafe_bind_iff {x : Exec Die α} {f : α → Exec Die β} (hx : SpaceSafe x) :
    SpaceSafe (x >>= f) ↔ ∀ a, x = .ret a → SpaceSafe (f a) := by
  refine ⟨fun h a ha => ?_, hx.bind⟩
  rw [ha, Exec.ret_bind] at h
  exact h

/-- And if the second is, it is the first. -/
theorem bind_spaceSafe_iff {x : Exec Die α} {f : α → Exec Die β}
    (hf : ∀ a, x = .ret a → SpaceSafe (f a)) : SpaceSafe (x >>= f) ↔ SpaceSafe x := by
  refine ⟨fun h e hx => ?_, fun hx => hx.bind hf⟩
  refine h e ?_
  rw [hx, Exec.die_bind]

theorem hashmapGetPrintf_spaceSafe (opts : Hashmap) (dfl : Option CStr) (key : CStr) :
    SpaceSafe (hashmapGetPrintf opts dfl key) := by
  unfold hashmapGetPrintf
  cases opts key with
  | some value => exact spaceSafe_ret value
  | none =>
    cases dfl with
    | some value => exact spaceSafe_ret value
    | none => exact spaceSafe_die rfl

theorem xato_spaceSafe {range : CStr → Die} (hrange : ∀ s, (range s).OfSpace = false)
    (nptr : CStr) : SpaceSafe (xato range nptr) := by
  rw [xato]
  cases numeral 10 nptr with
  | none => exact spaceSafe_die rfl
  | some val =>
    simp only
    split_ifs
    · exact spaceSafe_die (hrange nptr)
    · exact spaceSafe_ret _

theorem xatoll_spaceSafe (nptr : CStr) : SpaceSafe (xatoll nptr) := xato_spaceSafe (fun _ => rfl) nptr

theorem xatol_spaceSafe (nptr : CStr) : SpaceSafe (xatol nptr) := xato_spaceSafe (fun _ => rfl) nptr

/-- A loop over a callback that is safe, wherever it can get to. -/
theorem iterate_spaceSafe {σ : Type} {cb : CStr → ℕ → σ → Exec Die (Bool × σ)} (inv : σ → Prop)
    (hcb : ∀ entry idx s, inv s → SpaceSafe (cb entry idx s) ∧
      ∀ go s', cb entry idx s = .ret (go, s') → inv s')
    {list : List CStr} {idx : ℕ} {s : σ} (hs : inv s) : SpaceSafe (iterate cb list idx s) := by
  induction list generalizing idx s with
  | nil => exact spaceSafe_ret s
  | cons entry list ih =>
    obtain ⟨hsafe, hinv⟩ := hcb entry idx s hs
    rw [iterate]
    refine hsafe.bind ?_
    rintro ⟨go, s'⟩ hret
    simp only
    by_cases hgo : go = true
    · rw [if_pos hgo]
      exact ih (hinv go s' hret)
    · rw [if_neg hgo]
      exact spaceSafe_ret s'

theorem flag_mask_spaceSafe (flag : CStr) : SpaceSafe (flag_mask flag) := by
  rw [flag_mask]
  split_ifs
  · exact spaceSafe_ret _
  · exact spaceSafe_ret _
  · exact spaceSafe_ret _
  · exact spaceSafe_ret _
  · exact spaceSafe_ret _
  · exact spaceSafe_die rfl

theorem flags_cb_spaceSafe (flag : CStr) (idx : ℕ) (flags : UInt64) :
    SpaceSafe (flags_cb flag idx flags) := by
  unfold flags_cb
  split
  · exact (flag_mask_spaceSafe _).bind fun _ _ => spaceSafe_ret _
  · exact (flag_mask_spaceSafe _).bind fun _ _ => spaceSafe_ret _

theorem string_to_type_spaceSafe (type : CStr) : SpaceSafe (string_to_type type) := by
  rw [string_to_type]
  split_ifs
  all_goals first | exact spaceSafe_ret _ | exact spaceSafe_die rfl

theorem gpt_get_device_node_spaceSafe (i : UInt32) (g : Gpt) :
    SpaceSafe (gpt_get_device_node i g) := by
  rw [gpt_get_device_node]
  cases g.device.getLast? with
  | none => exact spaceSafe_fault
  | some c =>
    simp only
    split_ifs
    · exact spaceSafe_ret _
    · exact spaceSafe_ret _

end Safe

/-! ## The callback and the function -/

section Create

variable [Platform]

/-- On a mapped table `gpt_entry_create` always returns. -/
theorem gpt_entry_create_spaceSafe {g : Gpt} (hg : g.Mapped) (name : CStr) (type : PartType)
    (flags first_lba last_lba : UInt64) (r : Urandom) :
    SpaceSafe (gpt_entry_create g name type flags first_lba last_lba r) := by
  rw [gpt_entry_create_eq hg]
  cases g.firstFree with
  | none => exact spaceSafe_ret _
  | some i =>
    simp only
    split_ifs
    · rcases generate_uuid r with ⟨_ | uuid, r'⟩
      · exact spaceSafe_ret _
      · exact spaceSafe_ret _
    · exact spaceSafe_ret _

theorem mkpart_cb_spaceSafe {mc : MkpartCtx} (hg : mc.gpt.Mapped) (entry : CStr) (idx : ℕ) :
    SpaceSafe (mkpart_cb entry idx mc) := by
  rw [mkpart_cb]
  -- Every way to die in the callback has another message than that of the space.
  by_cases hskip : mc.skip_bootloader ∧ entry = cstr "bootloader"
  · rw [if_pos hskip]
    exact spaceSafe_ret _
  rw [if_neg hskip]
  refine (hashmapGetPrintf_spaceSafe _ _ _).bind fun flags_list _ => ?_
  refine (hashmapGetPrintf_spaceSafe _ _ _).bind fun ptype _ => ?_
  have hflags : SpaceSafe (string_list_iterate flags_list flags_cb 0) :=
    iterate_spaceSafe (fun _ => True)
      (fun flag idx flags _ => ⟨flags_cb_spaceSafe flag idx flags, fun _ _ _ => trivial⟩) trivial
  refine hflags.bind fun flags _ => ?_
  by_cases hlong : 27 < entry.length
  · rw [if_pos hlong]
    exact spaceSafe_die rfl
  rw [if_neg hlong]
  refine (hashmapGetPrintf_spaceSafe _ _ _).bind fun s _ => ?_
  refine (xatoll_spaceSafe s).bind fun len _ => ?_
  refine (string_to_type_spaceSafe ptype).bind fun type _ => ?_
  by_cases hL : mc.gpt.lba_size = 0
  · rw [if_pos hL]
    exact spaceSafe_fault
  rw [if_neg hL]
  refine (gpt_entry_create_spaceSafe hg _ _ _ _ _ _).bind ?_
  rintro ⟨i, g', r'⟩ -
  simp only
  by_cases hi : i = 0
  · rw [if_pos hi]
    exact spaceSafe_die rfl
  rw [if_neg hi]
  exact (gpt_get_device_node_spaceSafe i g').bind fun node _ => spaceSafe_ret _

/-- The space asked for is not there: no free region, or one that its rounded ends say
is too small. -/
def LacksSpace [Qsort] (g : Gpt) (needed : UInt64) : Prop :=
  gpt_find_contiguous_free_space (ε := Die) g = .ret none ∨
    ∃ s e, gpt_find_contiguous_free_space (ε := Die) g = .ret (some (s, e)) ∧
      to_mib_floor ((e + 1) * g.lba_size.toUInt64) - to_mib (s * g.lba_size.toUInt64)
        < to_mib needed + MIN_DATA_PART_SIZE

/-- **When `create_android_partitions` dies for lack of space.** -/
theorem create_lacks_space_iff [Qsort] {g : Gpt} (hg : g.Mapped) {bootloader_size needed : UInt64}
    {partlist : CStr} {skip : Bool} {opts : Hashmap} {urandom : Urandom}
    (hneed : get_partial_space_required opts bootloader_size = .ret needed) :
    SpaceSafe (create_android_partitions bootloader_size partlist g skip opts urandom) ↔
      ¬ LacksSpace g needed := by
  obtain ⟨r, hfind⟩ := find_returns (ε := Die) hg.readable
  rw [create_android_partitions, hneed, Exec.ret_bind, LacksSpace, hfind, Exec.ret_bind]
  -- ⟨s, e⟩|Without a region, and with one that is too short, the run dies with that message.
  rcases r with _ | ⟨s, e⟩
  · simp only [true_or, not_true_eq_false, iff_false]
    intro hsafe
    have hfalse : true = false := hsafe _ rfl
    exact absurd hfalse (by decide)
  simp only [Exec.ret.injEq, reduceCtorEq, Option.some.injEq, Prod.mk.injEq, false_or]
  constructor
  · rintro hsafe ⟨_, _, ⟨rfl, rfl⟩, hshort⟩
    rw [if_pos hshort] at hsafe
    have hfalse : true = false := hsafe _ rfl
    exact absurd hfalse (by decide)
  · intro hroom
    rw [if_neg fun hshort => hroom ⟨s, e, ⟨rfl, rfl⟩, hshort⟩]
    refine (hashmapGetPrintf_spaceSafe _ _ _).bind fun len _ => ?_
    have hloop (mc : MkpartCtx) (hmc : mc.gpt = g) :
        SpaceSafe (string_list_iterate partlist mkpart_cb mc) := by
      refine iterate_spaceSafe (fun mc => mc.gpt.Mapped) (fun entry idx mc hmap => ?_)
        (by rw [hmc]; exact hg)
      refine ⟨mkpart_cb_spaceSafe hmap entry idx, fun go mc' hret => ?_⟩
      rcases (mkpart_cb_spec hmap hret).2 with ⟨-, rfl⟩ | ⟨_, _, _, hmade⟩
      · exact hmap
      · exact (hmade.kept hmap).mapped
    exact (hloop _ rfl).bind fun mc _ => spaceSafe_ret _

end Create

end Iago
