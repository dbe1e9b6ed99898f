/-
The name of the bus a disk is on: `get_bus_name` of `partitioner.c`.

The target of a link of `sysfs` is read into a buffer on the stack. `readlink` does not
terminate what it stores, and the code clears the last byte of the buffer and no other, so what
is looked at goes on behind the target with what the stack held before. Then eleven bytes are
skipped, the length of "../devices/", and nothing looks at what they are.

So what is found depends on the target alone exactly if it is decided before the target ends
(`get_bus_name_right_iff`): the components are complete, or the start is one that no stack can
continue to a name.
-/
import Iago.SectorSize

set_option autoImplicit false

namespace Iago

/-! ## The code -/

/-- What a symbolic link points to. -/
structure Target where
  path : CStr
  nul : 0 ∉ path
  short : path.length < PATH_MAX

/-- `readlink`: no more than fits, and no terminator. -/
def readlink (target buf : List UInt8) : List UInt8 :=
  target.take buf.length ++ buf.drop target.length

/-- `strchr`, as the number of characters before the one that is found. -/
def strchr (s : CStr) (c : UInt8) : Option ℕ := s.findIdx? (· = c)

/-- The part of `get_bus_name` behind the eleven bytes. -/
def bus_name_at (pos : CStr) : Option CStr :=
  if (cstr "pci").isPrefixOf pos then
    match strchr pos 47 with
    | none => none
    | some first =>
      match strchr (pos.drop (first + 1)) 47 with
      | none => none
      | some second => some (pos.take (first + 1 + second))
  else if (cstr "platform/").isPrefixOf pos then
    match strchr (pos.drop 9) 47 with
    | none => none
    | some first => some ((pos.drop 9).take first)
  else none

/-- `get_bus_name`, of a link that can be read. -/
def get_bus_name (target : CStr) (stale : List.Vector UInt8 PATH_MAX) : Option CStr :=
  bus_name_at (cstring (((readlink target stale.toList).set (PATH_MAX - 1) 0).drop 11))

/-! ## The name -/

/-- The components a string names a bus by: the first two of a PCI device, and the one behind
`platform/` of a platform device, each with a slash behind it. -/
inductive NamedAt : CStr → CStr → Prop where
  | pci (a b rest : CStr) (hpci : cstr "pci" <+: a) (ha : 47 ∉ a) (hb : 47 ∉ b) :
    NamedAt (a ++ 47 :: (b ++ 47 :: rest)) (a ++ 47 :: b)
  | platform (a rest : CStr) (ha : 47 ∉ a) : NamedAt (cstr "platform/" ++ (a ++ 47 :: rest)) a

/-- The name of the bus in the target of a link. -/
def BusNamed (target name : CStr) : Prop := ∃ s, target = cstr "../devices/" ++ s ∧ NamedAt s name

/-- The name depends on the target only, and is the one in it. -/
structure BusRight (t : Target) : Prop where
  named : ∀ stale name, get_bus_name t.path stale = some name ↔ BusNamed t.path name
  same : ∀ stale stale', get_bus_name t.path stale = get_bus_name t.path stale'

/-- The bytes of the stack that can be seen behind the target, at most. -/
def Target.room (t : Target) : ℕ := PATH_MAX - 1 - max t.path.length 11

/-- What is behind the bytes that are skipped decides: there are all the slashes, or there is no
room for those that are missing, or it is the start of no name. -/
def Target.Settled (t : Target) : Prop :=
  let pos := t.path.drop 11
  if cstr "pci" <+: pos then
    cstr "../devices/" <+: t.path ∧ 2 ≤ pos.count 47 ∨ pos.count 47 + t.room < 2
  else if cstr "platform/" <+: pos then
    cstr "../devices/" <+: t.path ∧ 1 ≤ (pos.drop 9).count 47 ∨ (pos.drop 9).count 47 + t.room < 1
  else ¬ pos <+: cstr "pci" ∧ ¬ pos <+: cstr "platform/"

/-! ## What is found -/

/-- `strchr` finds nothing where there is nothing. -/
theorem strchr_eq_none {s : CStr} {c : UInt8} : strchr s c = none ↔ c ∉ s := by
  rw [strchr, List.findIdx?_eq_none_iff]
  simp only [decide_eq_false_iff_not]
  exact ⟨fun h hc => h c hc rfl, fun h x hx hxc => h (hxc ▸ hx)⟩

theorem strchr_append {a : CStr} {c : UInt8} (ha : c ∉ a) (rest : CStr) :
    strchr (a ++ c :: rest) c = some a.length := by
  induction a with
  | nil => simp [strchr, List.findIdx?_cons]
  | cons d a ih =>
    have hd : ¬ d = c := fun h => ha (h ▸ List.mem_cons_self)
    have hrest := ih fun h => ha (List.mem_cons_of_mem d h)
    rw [strchr] at hrest ⊢
    rw [List.cons_append, List.findIdx?_cons, if_neg (by simpa using hd), hrest]
    rfl

theorem strchr_eq_some {s : CStr} {c : UInt8} {i : ℕ} (h : strchr s c = some i) :
    ∃ a rest, s = a ++ c :: rest ∧ c ∉ a ∧ i = a.length := by
  have hmem : c ∈ s := by
    by_contra hc
    rw [strchr_eq_none.mpr hc] at h
    cases h
  obtain ⟨a, rest, rfl, ha⟩ := List.eq_append_cons_of_mem hmem
  rw [strchr_append ha, Option.some.injEq] at h
  exact ⟨a, rest, rfl, ha, h.symm⟩

/-- A word without a slash that starts a path starts its first component. -/
theorem isPrefix_component {w a rest : CStr} (hw : 47 ∉ w) (h : w <+: a ++ 47 :: rest) :
    w <+: a := by
  rcases List.prefix_or_prefix_of_prefix h (List.prefix_append a (47 :: rest)) with hwa | haw
  · exact hwa
  · obtain ⟨tail, rfl⟩ := haw
    cases tail with
    | nil => exact (List.append_nil a).symm ▸ List.prefix_rfl
    | cons c tail =>
      rw [List.prefix_append_right_inj, List.cons_prefix_cons] at h
      exact absurd (List.mem_append_right a (h.1 ▸ List.mem_cons_self)) hw

/-- A name of a platform device is none of a PCI device. -/
theorem not_pci_of_platform {pos : CStr} (h : cstr "platform/" <+: pos) : ¬ cstr "pci" <+: pos := by
  intro hpci
  rcases List.prefix_or_prefix_of_prefix h hpci with h | h
  · exact absurd h (by decide)
  · exact absurd h (by decide)

/-- Skipping a component leaves the rest. -/
theorem drop_component (a rest : CStr) : (a ++ 47 :: rest).drop (a.length + 1) = rest := by
  have hsplit : a ++ 47 :: rest = (a ++ [47]) ++ rest := by simp
  rw [hsplit, List.drop_left' (by simp)]

theorem take_components (a b rest : CStr) :
    (a ++ 47 :: (b ++ 47 :: rest)).take (a.length + 1 + b.length) = a ++ 47 :: b := by
  have hsplit : a ++ 47 :: (b ++ 47 :: rest) = (a ++ 47 :: b) ++ 47 :: rest := by simp
  rw [hsplit, List.take_left' (by simp; omega)]

/-- The code finds the name in what it looks at. -/
theorem bus_name_at_eq_some_iff {pos name : CStr} :
    bus_name_at pos = some name ↔ NamedAt pos name := by
  rw [bus_name_at]
  simp only [List.isPrefixOf_iff_prefix]
  constructor
  · intro h
    -- the two branches of the code: past two slashes, or past `platform/` and one
    split_ifs at h with hpci hplatform
    · cases hfirst : strchr pos 47 with
      | none =>
        rw [hfirst] at h
        cases h
      | some first =>
        obtain ⟨a, rest, rfl, ha, rfl⟩ := strchr_eq_some hfirst
        simp only [hfirst, drop_component] at h
        cases hsecond : strchr rest 47 with
        | none =>
          rw [hsecond] at h
          cases h
        | some second =>
          obtain ⟨b, rest, rfl, hb, rfl⟩ := strchr_eq_some hsecond
          simp only [hsecond, take_components, Option.some.injEq] at h
          rw [← h]
          exact .pci a b rest (isPrefix_component (by decide) hpci) ha hb
    · obtain ⟨tail, rfl⟩ := hplatform
      have hdrop : (cstr "platform/" ++ tail).drop 9 = tail := List.drop_left' (by decide)
      rw [hdrop] at h
      cases hfirst : strchr tail 47 with
      | none =>
        rw [hfirst] at h
        cases h
      | some first =>
        obtain ⟨a, rest, rfl, ha, rfl⟩ := strchr_eq_some hfirst
        simp only [hfirst, List.take_left, Option.some.injEq] at h
        rw [← h]
        exact .platform a rest ha
  · rintro (⟨a, b, rest, hpci, ha, hb⟩ | ⟨a, rest, ha⟩)
    · rw [if_pos (hpci.trans (List.prefix_append a _)), strchr_append ha]
      simp only [drop_component, strchr_append hb, take_components]
    · have hplatform : cstr "platform/" <+: cstr "platform/" ++ (name ++ 47 :: rest) :=
        List.prefix_append _ _
      have hdrop : (cstr "platform/" ++ (name ++ 47 :: rest)).drop 9 = name ++ 47 :: rest :=
        List.drop_left' (by decide)
      rw [if_neg (not_pci_of_platform hplatform), if_pos hplatform, hdrop, strchr_append ha]
      simp only [List.take_left]

/-! ## What is looked at -/

section Visible

variable (t : Target)

/-- The last byte is overwritten. -/
theorem set_last {l : List UInt8} {n : ℕ} (h : l.length = n) (e c : UInt8) :
    (l ++ [e]).set n c = l ++ [c] := by
  rw [List.set_append_right _ _ h.le, h, Nat.sub_self]
  rfl

theorem takeWhile_zero (l rest : List UInt8) :
    (l ++ 0 :: rest).takeWhile (· ≠ 0) = l.takeWhile (· ≠ 0) := by
  induction l with
  | nil => rfl
  | cons c l ih =>
    by_cases hc : c = 0
    · simp [hc]
    · rw [List.cons_append, List.takeWhile_cons_of_pos (by simpa using hc),
        List.takeWhile_cons_of_pos (by simpa using hc), ih]

/-- The buffer: the target, what the stack held, and the byte that is cleared. -/
theorem buf_eq (stale : List.Vector UInt8 PATH_MAX) :
    (readlink t.path stale.toList).set (PATH_MAX - 1) 0 =
      t.path ++ (stale.toList.drop t.path.length).take (PATH_MAX - 1 - t.path.length) ++ [0] := by
  have hshort := t.short
  have hstale : stale.toList.length = PATH_MAX := stale.toList_length
  generalize hd : stale.toList.drop t.path.length = d
  have hlength : d.length = PATH_MAX - t.path.length := by rw [← hd, List.length_drop, hstale]
  obtain ⟨e, he⟩ : ∃ e, d.drop (PATH_MAX - 1 - t.path.length) = [e] := by
    rw [← List.length_eq_one_iff, List.length_drop, hlength]
    omega
  have hsplit : d = d.take (PATH_MAX - 1 - t.path.length) ++ [e] := by
    rw [← he, List.take_append_drop]
  have hinit : (t.path ++ d.take (PATH_MAX - 1 - t.path.length)).length = PATH_MAX - 1 := by
    rw [List.length_append, List.length_take, hlength]
    omega
  rw [readlink, hd, List.take_of_length_le (by omega)]
  nth_rewrite 1 [hsplit]
  rw [← List.append_assoc, set_last hinit]

/-- What is looked at: the rest of the target, and of the stack what is before a zero. -/
theorem cstring_buf (stale : List.Vector UInt8 PATH_MAX) :
    cstring (((readlink t.path stale.toList).set (PATH_MAX - 1) 0).drop 11) =
      t.path.drop 11 ++ ((stale.toList.drop (max t.path.length 11)).take t.room).takeWhile (· ≠ 0)
    := by
  have hshort := t.short
  have hnul : ∀ c ∈ t.path.drop 11, decide (c ≠ 0) = true := fun c hc =>
    decide_eq_true fun h => t.nul (h ▸ List.mem_of_mem_drop hc)
  have hstale : stale.toList.length = PATH_MAX := stale.toList_length
  have hpath : PATH_MAX = 4096 := rfl
  have hseen : t.path.length + (11 - t.path.length) = max t.path.length 11 := by omega
  have hroom : PATH_MAX - 1 - t.path.length - (11 - t.path.length) =
      PATH_MAX - 1 - max t.path.length 11 := by omega
  rw [cstring, buf_eq, List.append_assoc, List.drop_append, List.takeWhile_append_of_pos hnul,
    List.drop_append_of_le_length (by rw [List.length_take, List.length_drop]; omega),
    takeWhile_zero, List.drop_take, List.drop_drop, Target.room, hseen, hroom]

/-- It is the target and something from the stack for which there is room. -/
theorem exists_seen (stale : List.Vector UInt8 PATH_MAX) :
    ∃ x : CStr, 0 ∉ x ∧ x.length ≤ t.room ∧
      cstring (((readlink t.path stale.toList).set (PATH_MAX - 1) 0).drop 11) = t.path.drop 11 ++ x := by
  refine ⟨_, fun h => ?_, ?_, cstring_buf t stale⟩
  · have hzero := List.mem_takeWhile_imp h
    exact absurd hzero (by decide)
  · exact (List.takeWhile_sublist _).length_le.trans (List.length_take_le _ _)

/-- And it can be anything for which there is room. -/
theorem exists_stale {x : CStr} (hx : 0 ∉ x) (hroom : x.length ≤ t.room) :
    ∃ stale : List.Vector UInt8 PATH_MAX,
      cstring (((readlink t.path stale.toList).set (PATH_MAX - 1) 0).drop 11) = t.path.drop 11 ++ x := by
  have hshort := t.short
  have hpath : PATH_MAX = 4096 := rfl
  have hnul : ∀ c ∈ x, decide (c ≠ 0) = true := fun c hc => decide_eq_true fun h => hx (h ▸ hc)
  have hx4096 : max t.path.length 11 + x.length < PATH_MAX := by
    rw [Target.room] at hroom
    omega
  obtain ⟨k, hk⟩ : ∃ k, PATH_MAX - max t.path.length 11 - x.length = k + 1 :=
    ⟨PATH_MAX - max t.path.length 11 - x.length - 1, by omega⟩
  -- nothing, then what is to be seen, then nothing
  obtain ⟨stale, hstale⟩ : ∃ stale : List.Vector UInt8 PATH_MAX,
      stale.toList = List.replicate (max t.path.length 11) 0 ++ (x ++ List.replicate (k + 1) 0) := by
    refine ⟨⟨_, ?_⟩, rfl⟩
    simp only [List.length_append, List.length_replicate]
    omega
  refine ⟨stale, ?_⟩
  rw [cstring_buf, hstale, List.drop_left' List.length_replicate, List.take_append,
    List.take_of_length_le hroom, List.takeWhile_append_of_pos hnul,
    List.take_replicate, List.takeWhile_replicate, if_neg (by decide), List.append_nil]

end Visible

/-! ## What decides -/

/-- What is behind the last slash that counts does not matter. -/
theorem NamedAt.append {pos name : CStr} (h : NamedAt pos name) (x : CStr) :
    NamedAt (pos ++ x) name := by
  cases h with
  | pci a b rest hpci ha hb =>
    rw [List.append_assoc, List.cons_append, List.append_assoc, List.cons_append]
    exact .pci a b (rest ++ x) hpci ha hb
  | platform a rest ha =>
    rw [List.append_assoc, List.append_assoc, List.cons_append]
    exact .platform name (rest ++ x) ha

/-- A target has one bus name at most. -/
theorem NamedAt.unique {pos name name' : CStr} (h : NamedAt pos name) (h' : NamedAt pos name') :
    name = name' := by
  have hname := bus_name_at_eq_some_iff.mpr h
  rw [bus_name_at_eq_some_iff.mpr h', Option.some.injEq] at hname
  exact hname.symm

/-- There is a component with a slash behind it exactly if there is a slash. -/
theorem exists_component_iff {s : CStr} :
    (∃ a rest, 47 ∉ a ∧ s = a ++ 47 :: rest) ↔ 1 ≤ s.count 47 := by
  rw [Nat.one_le_iff_ne_zero, ← Nat.pos_iff_ne_zero, List.count_pos_iff]
  constructor
  · rintro ⟨a, rest, -, rfl⟩
    exact List.mem_append_right a List.mem_cons_self
  · intro h
    obtain ⟨a, rest, hs, ha⟩ := List.eq_append_cons_of_mem h
    exact ⟨a, rest, ha, hs⟩

/-- A name is complete exactly if there are as many slashes as it has components. -/
theorem exists_namedAt_iff {pos : CStr} : (∃ name, NamedAt pos name) ↔
    cstr "pci" <+: pos ∧ 2 ≤ pos.count 47 ∨
      cstr "platform/" <+: pos ∧ 1 ≤ (pos.drop 9).count 47 := by
  have hdrop : ∀ tail, (cstr "platform/" ++ tail).drop 9 = tail :=
    fun tail => List.drop_left' (by decide)
  constructor
  · rintro ⟨name, ⟨a, b, rest, hpci, ha, hb⟩ | ⟨a, rest, ha⟩⟩
    · refine .inl ⟨hpci.trans (List.prefix_append a _), ?_⟩
      simp only [List.count_append, List.count_cons_self]
      omega
    · refine .inr ⟨List.prefix_append _ _, ?_⟩
      rw [hdrop]
      exact exists_component_iff.mp ⟨name, rest, ha, rfl⟩
  · rintro (⟨hpci, hcount⟩ | ⟨⟨tail, rfl⟩, hcount⟩)
    · obtain ⟨a, rest, ha, rfl⟩ := exists_component_iff.mpr (Nat.le_of_succ_le hcount)
      rw [List.count_append, List.count_eq_zero.mpr ha, List.count_cons_self] at hcount
      have hrest : 1 ≤ rest.count 47 := by omega
      obtain ⟨b, rest, hb, rfl⟩ := exists_component_iff.mpr hrest
      exact ⟨_, .pci a b rest (isPrefix_component (by decide) hpci) ha hb⟩
    · rw [hdrop] at hcount
      obtain ⟨a, rest, ha, rfl⟩ := exists_component_iff.mpr hcount
      exact ⟨a, .platform a rest ha⟩

section Unnamed

variable {pos : CStr} {room : ℕ}

/-- There is no name whatever is behind it. -/
def Unnamed (pos : CStr) (room : ℕ) : Prop :=
  ∀ x : CStr, 0 ∉ x → x.length ≤ room → ¬ ∃ name, NamedAt (pos ++ x) name

/-- A PCI device has none if slashes are missing, on the stack as well. -/
theorem unnamed_iff_of_pci (h : cstr "pci" <+: pos) :
    Unnamed pos room ↔ pos.count 47 + room < 2 := by
  constructor
  · intro hnone
    by_contra hcount
    refine hnone (List.replicate room 47) (by simp) (by simp) (exists_namedAt_iff.mpr (.inl ?_))
    rw [List.count_append, List.count_replicate_self]
    exact ⟨h.trans (List.prefix_append pos _), by omega⟩
  · intro hcount x _ hx hname
    rcases exists_namedAt_iff.mp hname with ⟨-, hslashes⟩ | ⟨hplatform, -⟩
    · have hle := List.count_le_length (a := (47 : UInt8)) (l := x)
      rw [List.count_append] at hslashes
      omega
    · exact not_pci_of_platform hplatform (h.trans (List.prefix_append pos x))

theorem unnamed_iff_of_platform (h : cstr "platform/" <+: pos) :
    Unnamed pos room ↔ (pos.drop 9).count 47 + room < 1 := by
  have hdrop : ∀ x, (pos ++ x).drop 9 = pos.drop 9 ++ x := fun x =>
    List.drop_append_of_le_length h.length_le
  constructor
  · intro hnone
    by_contra hcount
    refine hnone (List.replicate room 47) (by simp) (by simp) (exists_namedAt_iff.mpr (.inr ?_))
    rw [hdrop, List.count_append, List.count_replicate_self]
    exact ⟨h.trans (List.prefix_append pos _), by omega⟩
  · intro hcount x _ hx hname
    rcases exists_namedAt_iff.mp hname with ⟨hpci, -⟩ | ⟨-, hslashes⟩
    · exact not_pci_of_platform (h.trans (List.prefix_append pos x)) hpci
    · have hle := List.count_le_length (a := (47 : UInt8)) (l := x)
      rw [hdrop, List.count_append] at hslashes
      omega

/-- What can be continued to a name within the room there is has one on some stack. -/
theorem not_unnamed {w : CStr} (hstart : pos <+: w) (hnul : 0 ∉ w)
    (hroom : w.length ≤ pos.length + room) (hname : ∃ name, NamedAt w name) :
    ¬ Unnamed pos room := by
  intro hnone
  obtain ⟨x, rfl⟩ := hstart
  rw [List.length_append] at hroom
  exact hnone x (fun h => hnul (List.mem_append_right pos h)) (by omega) hname

/-- The start of a name can be continued to one; nothing else can. -/
theorem unnamed_iff_of_neither (hpci : ¬ cstr "pci" <+: pos) (hplatform : ¬ cstr "platform/" <+: pos)
    (hroom : pos.length ≤ 9 → 10 ≤ room) :
    Unnamed pos room ↔ ¬ pos <+: cstr "pci" ∧ ¬ pos <+: cstr "platform/" := by
  constructor
  · -- two slashes make a name of `pci`, and one of `platform/`
    intro hnone
    constructor
    · intro hstart
      have hlength : (cstr "pci" ++ cstr "//").length = 5 := by decide
      exact not_unnamed (hstart.trans (List.prefix_append _ (cstr "//"))) (by decide) (by omega)
        ⟨_, .pci (cstr "pci") [] [] List.prefix_rfl (by decide) (by decide)⟩ hnone
    · intro hstart
      have hlength : (cstr "platform/" ++ cstr "/").length = 10 := by decide
      exact not_unnamed (hstart.trans (List.prefix_append _ (cstr "/"))) (by decide) (by omega)
        ⟨_, .platform [] [] (by decide)⟩ hnone
  · rintro ⟨hstart, hstart'⟩ x _ hx hname
    rcases exists_namedAt_iff.mp hname with ⟨h, -⟩ | ⟨h, -⟩
    · exact (List.prefix_or_prefix_of_prefix h (List.prefix_append pos x)).elim hpci hstart
    · exact (List.prefix_or_prefix_of_prefix h (List.prefix_append pos x)).elim hplatform hstart'

end Unnamed

/-- The name is right exactly if there is one in the target, or none on any stack. -/
theorem busRight_iff (t : Target) : BusRight t ↔
    cstr "../devices/" <+: t.path ∧ (∃ name, NamedAt (t.path.drop 11) name) ∨
      Unnamed (t.path.drop 11) t.room := by
  have hnamed : ∀ {name}, BusNamed t.path name ↔
      cstr "../devices/" <+: t.path ∧ NamedAt (t.path.drop 11) name := by
    intro name
    constructor
    · rintro ⟨s, hs, hname⟩
      rw [hs, List.drop_left' (by decide)]
      exact ⟨List.prefix_append _ s, hname⟩
    · rintro ⟨⟨s, hs⟩, hname⟩
      rw [← hs, List.drop_left' (by decide)] at hname
      exact ⟨s, hs.symm, hname⟩
  constructor
  · intro h
    -- a name in the target is found on every stack, so it has to be its name
    by_cases hcomplete : ∃ name, NamedAt (t.path.drop 11) name
    · obtain ⟨name, hname⟩ := hcomplete
      obtain ⟨stale, hstale⟩ := exists_stale t (x := []) List.not_mem_nil (Nat.zero_le _)
      have hget : get_bus_name t.path stale = some name := by
        rw [get_bus_name, hstale, List.append_nil]
        exact bus_name_at_eq_some_iff.mpr hname
      exact .inl ⟨(hnamed.mp ((h.named stale name).mp hget)).1, name, hname⟩
    · -- no name in the target: one on some stack would not be its name
      right
      rintro x hx hroom ⟨name, hname⟩
      obtain ⟨stale, hstale⟩ := exists_stale t hx hroom
      have hget : get_bus_name t.path stale = some name := by
        rw [get_bus_name, hstale]
        exact bus_name_at_eq_some_iff.mpr hname
      exact hcomplete ⟨name, (hnamed.mp ((h.named stale name).mp hget)).2⟩
  · rintro (⟨hdevices, name, hname⟩ | hnone)
    · have hget : ∀ stale, get_bus_name t.path stale = some name := by
        intro stale
        obtain ⟨x, -, -, hseen⟩ := exists_seen t stale
        rw [get_bus_name, hseen]
        exact bus_name_at_eq_some_iff.mpr (hname.append x)
      refine ⟨fun stale name' => ?_, fun stale stale' => (hget stale).trans (hget stale').symm⟩
      rw [hget, Option.some.injEq, hnamed, and_iff_right hdevices]
      exact ⟨fun h => h ▸ hname, hname.unique⟩
    · -- whatever is behind the target does not make it a name
      have hget : ∀ stale, get_bus_name t.path stale = none := by
        intro stale
        obtain ⟨x, hx, hroom, hseen⟩ := exists_seen t stale
        rw [get_bus_name, hseen, Option.eq_none_iff_forall_ne_some]
        exact fun name h => hnone x hx hroom ⟨name, bus_name_at_eq_some_iff.mp h⟩
      refine ⟨fun stale name => ?_, fun stale stale' => (hget stale).trans (hget stale').symm⟩
      rw [hget, hnamed]
      refine iff_of_false nofun fun h => hnone [] List.not_mem_nil (Nat.zero_le _) ⟨name, ?_⟩
      rw [List.append_nil]
      exact h.2

/-- **When the name of the bus depends on the target alone.** -/
theorem get_bus_name_right_iff (t : Target) : BusRight t ↔ t.Settled := by
  have hroom : (t.path.drop 11).length ≤ 9 → 10 ≤ t.room := by
    rw [List.length_drop, Target.room, show PATH_MAX = 4096 from rfl]
    omega
  rw [busRight_iff, Target.Settled, exists_namedAt_iff]
  by_cases hpci : cstr "pci" <+: t.path.drop 11
  · have hplatform : ¬ cstr "platform/" <+: t.path.drop 11 := fun h => not_pci_of_platform h hpci
    rw [unnamed_iff_of_pci hpci]
    simp only [hpci, hplatform, true_and, false_and, or_false, if_true]
  by_cases hplatform : cstr "platform/" <+: t.path.drop 11
  · rw [unnamed_iff_of_platform hplatform]
    simp only [hpci, hplatform, true_and, false_and, false_or, if_true, if_false]
  · rw [unnamed_iff_of_neither hpci hplatform hroom]
    simp only [hpci, hplatform, false_and, or_self, and_false, false_or, if_false]

/-- A link without a slash at its end: the name goes on as the stack does. -/
theorem get_bus_name_not_right :
    ¬ BusRight ⟨cstr "../devices/platform/foo", by decide, by decide⟩ := by
  intro h
  obtain ⟨stale, hstale⟩ := exists_stale ⟨cstr "../devices/platform/foo", by decide, by decide⟩
    (x := cstr "bar/") (by decide) (by decide)
  obtain ⟨stale', hstale'⟩ := exists_stale ⟨cstr "../devices/platform/foo", by decide, by decide⟩
    (x := []) (by decide) (by decide)
  have hsame := h.same stale stale'
  rw [get_bus_name, get_bus_name, hstale, hstale'] at hsame
  exact absurd hsame (by decide)

end Iago
