/-
String lists in memory: `string_list_iterate`, `string_list_append` and `string_list_prepend`
of `util.c`.

The other modules iterate over the entries of a string (`iterate`). Here is what the code does
to get at them. A copy of the list is made, `strtok_r` goes along it, writes a zero behind every
token and keeps its place in a variable of the caller, and the callback is given a pointer into
the copy. It may write there, and it may iterate itself; the memory it does so in is the one the
copy is in. A callback is good if it touches nothing else that was there before
(`Implements`), and with a good callback the two are the same (`string_lists_faithful`): so they
are with callbacks that iterate over other lists, at any depth, for these are good too
(`implements_nested`).
-/
import Iago.SectorSize
import Iago.Tokens
import Mathlib.Logic.Function.Basic

set_option autoImplicit false

namespace Iago

/-! ## Memory -/

/-- A pointer: an object, and a place in it. -/
structure Ptr where
  block : ℕ
  off : ℕ

/-- The contents of the objects; those from `next` on have not been allocated. -/
structure Mem where
  block : ℕ → List UInt8
  next : ℕ

namespace Mem

/-- The string at a pointer. -/
def str (m : Mem) (q : Ptr) : CStr := cstring ((m.block q.block).drop q.off)

/-- An assignment to a character. -/
def store (m : Mem) (q : Ptr) (c : UInt8) : Mem :=
  { m with block := Function.update m.block q.block ((m.block q.block).set q.off c) }

/-- `xstrdup`. -/
def xstrdup (m : Mem) (q : Ptr) : Ptr × Mem :=
  (⟨m.next, 0⟩, ⟨Function.update m.block m.next (m.str q ++ [0]), m.next + 1⟩)

/-- `free`. -/
def free (m : Mem) (q : Ptr) : Mem :=
  { m with block := Function.update m.block q.block [] }

/-- `strtok_r`: the token if there is one, and `*saveptr` as it is left. -/
def strtok_r (m : Mem) (str : Option Ptr) (delim : UInt8 → Bool) (saveptr : Ptr) :
    Option Ptr × Ptr × Mem :=
  let q := str.getD saveptr
  let s := m.str q
  let start : Ptr := ⟨q.block, q.off + (s.takeWhile delim).length⟩
  let s := s.dropWhile delim
  let stop : Ptr := ⟨q.block, start.off + (s.takeWhile fun c => !delim c).length⟩
  if s = [] then (none, start, m)
  else if (s.dropWhile fun c => !delim c) = [] then (some start, stop, m)
  else (some start, ⟨stop.block, stop.off + 1⟩, m.store stop 0)

end Mem

/-! ## The iteration -/

/-- A space or a tab. -/
def space_or_tab (c : UInt8) : Bool := c = 32 ∨ c = 9

/-- A function that is called with an entry, its number, and what it has been given besides. -/
abbrev Callback (σ : Type) := Ptr → ℕ → Mem → σ → Exec Die (Bool × Mem × σ)

section Iterate

variable {σ : Type}

/-- The loop of `string_list_iterate`. -/
def Mem.iterate_loop (cb : Callback σ) :
    ℕ → Mem → Option Ptr → Ptr → ℕ → σ → Exec Die (Mem × σ)
  | 0, _, _, _, _, _ => .hang
  | fuel + 1, m, str, saveptr, idx, s =>
    match m.strtok_r str space_or_tab saveptr with
    | (none, _, m) => .ret (m, s)
    | (some entry, saveptr, m) => do
      let (go, m, s) ← cb entry idx m s
      if go then Mem.iterate_loop cb fuel m none saveptr (idx + 1) s else .ret (m, s)

/-- `string_list_iterate`. There are no more tokens than characters; what `saveptr` is at first
is not looked at. -/
def Mem.string_list_iterate (m : Mem) (stringlist : Option Ptr) (cb : Callback σ) (s : σ) :
    Exec Die (Mem × σ) :=
  match stringlist with
  | none => .ret (m, s)
  | some q => do
    let (list, copied) := m.xstrdup q
    let (m, s) ← Mem.iterate_loop cb ((m.str q).length + 1) copied (some list) list 0 s
    .ret (m.free list, s)

end Iterate

/-- `string_list_prepend`. -/
def string_list_prepend (list entry : CStr) : CStr :=
  if list = [] then entry else entry ++ cstr " " ++ list

/-! ## Callbacks -/

/-- The objects of `m` are in `m'` as they were. -/
structure Mem.Keeps (m m' : Mem) : Prop where
  next : m.next ≤ m'.next
  block : ∀ b < m.next, m'.block b = m.block b

/-- So are they but for `n` bytes at a pointer. -/
structure Mem.Touches (m m' : Mem) (q : Ptr) (n : ℕ) : Prop where
  next : m.next ≤ m'.next
  others : ∀ b < m.next, b ≠ q.block → m'.block b = m.block b
  there : ∃ bytes : List UInt8, bytes.length = n ∧ m'.block q.block =
    (m.block q.block).take q.off ++ (bytes ++ (m.block q.block).drop (q.off + n))

section Implements

variable {σ : Type}

/-- A callback that does what a function of the text of its entry does, and writes to nothing
that was there before but this text. What was there when the iteration started it may read. -/
structure Implements (m₀ : Mem) (cb : Callback σ) (f : CStr → ℕ → σ → Exec Die (Bool × σ)) :
    Prop where
  result : ∀ m q idx s, m₀.Keeps m → m₀.next ≤ q.block → q.block < m.next →
    (cb q idx m s >>= fun r => .ret (r.1, r.2.2)) = f (m.str q) idx s
  touches : ∀ m q idx s go m' s', m₀.Keeps m → m₀.next ≤ q.block → q.block < m.next →
    cb q idx m s = .ret (go, m', s') → m.Touches m' q (m.str q).length

end Implements

/-! ## One token -/

/-- A string ends with the first zero. -/
theorem cstring_terminated {r : CStr} (h : 0 ∉ r) (rest : List UInt8) :
    cstring (r ++ 0 :: rest) = r := by
  have hr : ∀ c ∈ r, decide (c ≠ 0) = true := fun c hc => decide_eq_true fun h0 => h (h0 ▸ hc)
  rw [cstring, List.takeWhile_append_of_pos hr, List.takeWhile_cons_of_neg (by decide),
    List.append_nil]

/-- A place in memory at which `r` is what is left of a list. -/
structure At (m : Mem) (q : Ptr) (r : CStr) : Prop where
  left : (m.block q.block).drop q.off = r ++ [0]
  nul : 0 ∉ r

/-- What stands at a place is the string there. -/
theorem At.str {m : Mem} {q : Ptr} {r : CStr} (h : At m q r) : m.str q = r := by
  rw [Mem.str, h.left, cstring_terminated h.nul]

/-- What `strtok_r` does about a token: it is what is at the pointer that is returned, what is
behind it is left, and nothing but this object has been written to. -/
structure Found (delim : UInt8 → Bool) (m : Mem) (q : Ptr) (t rest : CStr) (token place : Ptr)
    (m' : Mem) : Prop where
  token_block : token.block = q.block
  place_block : place.block = q.block
  behind : token.off + t.length ≤ place.off
  inside : token.off ≤ (m'.block q.block).length
  text : m'.str token = t
  left : ∃ r', At m' place r' ∧ runs delim r' = runs delim rest ∧ r'.length ≤ rest.length
  next : m'.next = m.next
  others : ∀ b ≠ q.block, m'.block b = m.block b

section Token

variable {m : Mem} {str : Option Ptr} {delim : UInt8 → Bool} {saveptr : Ptr} {r : CStr}

/-- Without a token there is none, and nothing is written. -/
theorem strtok_r_blank (h : At m (str.getD saveptr) r) (hblank : ∀ c ∈ r, delim c = true) :
    ∃ q, m.strtok_r str delim saveptr = (none, q, m) := by
  have hdrop : r.dropWhile delim = [] := List.dropWhile_eq_nil_iff.mpr hblank
  rw [Mem.strtok_r]
  simp only [h.str, hdrop, if_true]
  exact ⟨_, rfl⟩

/-- A run ends where something else begins. -/
theorem takeWhile_run {p : UInt8 → Bool} {t rest : CStr} (ht : ∀ c ∈ t, p c = true)
    (hend : ∀ c ∈ rest.head?, p c = false) :
    (t ++ rest).takeWhile p = t ∧ (t ++ rest).dropWhile p = rest := by
  rw [List.takeWhile_append_of_pos ht, List.dropWhile_append_of_pos ht]
  cases rest with
  | nil => exact ⟨List.append_nil t, rfl⟩
  | cons c rest =>
    have hc : p c = false := hend c rfl
    rw [List.takeWhile_cons_of_neg (by rw [hc]; decide),
      List.dropWhile_cons_of_neg (by rw [hc]; decide), List.append_nil]
    exact ⟨rfl, rfl⟩

/-- `strtok_r` finds the next token, and puts a zero behind it. -/
theorem strtok_r_token {lead t rest : CStr} (h : At m (str.getD saveptr) (lead ++ (t ++ rest)))
    (hlead : ∀ c ∈ lead, delim c = true) (hne : t ≠ []) (ht : ∀ c ∈ t, delim c = false)
    (hend : ∀ c ∈ rest.head?, delim c = true) :
    ∃ token place m', m.strtok_r str delim saveptr = (some token, place, m') ∧
      Found delim m (str.getD saveptr) t rest token place m' := by
  have hfirst : ∀ c ∈ (t ++ rest).head?, delim c = false := by
    intro c hc
    cases t with
    | nil => exact absurd rfl hne
    | cons d t =>
      rw [List.cons_append, List.head?_cons, Option.mem_def, Option.some.injEq] at hc
      exact ht c (hc ▸ List.mem_cons_self)
  obtain ⟨htake, hdrop⟩ := takeWhile_run hlead hfirst
  have hrun : ∀ c ∈ t, (!delim c) = true := fun c hc => by rw [ht c hc]; rfl
  have hstop : ∀ c ∈ rest.head?, (!delim c) = false := fun c hc => by rw [hend c hc]; rfl
  obtain ⟨htake', hdrop'⟩ := takeWhile_run (p := fun c => !delim c) hrun hstop
  have htne : t ++ rest ≠ [] := List.append_ne_nil_of_left_ne_nil hne rest
  rw [Mem.strtok_r]
  simp only [h.str, htake, hdrop, htake', hdrop', if_neg htne]
  generalize str.getD saveptr = q at h ⊢
  obtain ⟨b, off⟩ := q
  have hleft : (m.block b).drop off = lead ++ (t ++ rest) ++ [0] := h.left
  have hnul := h.nul
  have hoff : off ≤ (m.block b).length := by
    by_contra hlong
    rw [List.drop_of_length_le (by omega)] at hleft
    exact List.append_ne_nil_of_right_ne_nil _ (List.cons_ne_nil _ _) hleft.symm
  obtain ⟨pre, hpre, hblock⟩ : ∃ pre : List UInt8, pre.length = off + lead.length ∧
      m.block b = pre ++ (t ++ (rest ++ [0])) := by
    refine ⟨(m.block b).take off ++ lead, ?_, ?_⟩
    · rw [List.length_append, List.length_take, Nat.min_eq_left hoff]
    · conv_lhs => rw [← List.take_append_drop off (m.block b), hleft]
      simp only [List.append_assoc]
  have htnul : 0 ∉ t := fun h => hnul (List.mem_append_right _ (List.mem_append_left _ h))
  have hrnul : 0 ∉ rest := fun h => hnul (List.mem_append_right _ (List.mem_append_right _ h))
  cases rest with
  | nil =>
    simp only [if_true]
    refine ⟨_, _, _, rfl, rfl, rfl, le_refl _, ?_, ?_, ⟨[], ⟨?_, List.not_mem_nil⟩, rfl, le_refl _⟩,
      rfl, fun _ _ => rfl⟩
    · simp only [hblock, List.length_append, hpre]
      omega
    · simp only [Mem.str, hblock]
      rw [List.drop_left' hpre]
      exact cstring_terminated htnul []
    · simp only [hblock]
      rw [← List.append_assoc, List.drop_left' (by rw [List.length_append, hpre])]
  | cons c rest =>
    simp only [reduceCtorEq, if_false]
    have hc : delim c = true := hend c rfl
    -- the separator is overwritten
    have hstore : (m.block b).set (off + lead.length + t.length) 0 = pre ++ (t ++ 0 :: (rest ++ [0])) := by
      rw [hblock, ← List.append_assoc,
        List.set_append_right _ _ (by rw [List.length_append, hpre]), List.length_append, hpre,
        Nat.sub_self, List.append_assoc]
      rfl
    refine ⟨_, _, _, rfl, rfl, rfl, Nat.le_succ _, ?_, ?_, ⟨rest, ⟨?_, ?_⟩, ?_, Nat.le_succ _⟩,
      rfl, fun b' hb' => Function.update_of_ne hb' _ _⟩
    · simp only [Mem.store, Function.update_self, hstore, List.length_append, hpre]
      omega
    · simp only [Mem.str, Mem.store, Function.update_self, hstore]
      rw [List.drop_left' hpre]
      exact cstring_terminated htnul _
    · simp only [Mem.store, Function.update_self, hstore]
      have hsplit : pre ++ (t ++ 0 :: (rest ++ [0])) = (pre ++ t ++ [0]) ++ (rest ++ [0]) := by
        simp only [List.append_assoc, List.cons_append, List.nil_append]
      rw [hsplit, List.drop_left' (by simp only [List.length_append, hpre, List.length_singleton])]
    · exact fun h => hrnul (List.mem_cons_of_mem c h)
    · exact (runs_cons rest hc).symm

end Token

/-! ## All of them -/

/-- The entries of a list are the runs between blanks. -/
theorem entries_eq (s : CStr) : entries s = runs space_or_tab s := rfl

section Loop

variable {σ : Type} {m₀ m m' : Mem} {cb : Callback σ} {f : CStr → ℕ → σ → Exec Die (Bool × σ)}

theorem Mem.Keeps.trans (h : m₀.Keeps m) (h' : m.Keeps m') : m₀.Keeps m' where
  next := h.next.trans h'.next
  block b hb := (h'.block b (hb.trans_le h.next)).trans (h.block b hb)

/-- New memory may change. -/
theorem Mem.Keeps.touches {q : Ptr} {n : ℕ} (h : m₀.Keeps m) (htouch : m.Touches m' q n)
    (hq : m₀.next ≤ q.block) : m₀.Keeps m' where
  next := h.next.trans htouch.next
  block b hb := by
    rw [htouch.others b (hb.trans_le h.next) (by omega), h.block b hb]

/-- So a token may be cut off in it. -/
theorem Mem.Keeps.found {delim : UInt8 → Bool} {q token place : Ptr} {t rest : CStr}
    (h : m₀.Keeps m) (hfound : Found delim m q t rest token place m') (hq : m₀.next ≤ q.block) :
    m₀.Keeps m' where
  next := hfound.next ▸ h.next
  block b hb := by rw [hfound.others b (by omega), h.block b hb]

/-- What a callback writes over its token does not change what is behind it. -/
theorem At.touches {token place : Ptr} {n : ℕ} {r : CStr} (h : At m place r)
    (htouch : m.Touches m' token n) (hblock : place.block = token.block)
    (hbehind : token.off + n ≤ place.off) (hinside : token.off ≤ (m.block token.block).length) :
    At m' place r := by
  obtain ⟨bytes, hlength, hbytes⟩ := htouch.there
  refine ⟨?_, h.nul⟩
  have hleft := h.left
  rw [hblock] at hleft ⊢
  have hfront : ((m.block token.block).take token.off ++ bytes).length = token.off + n := by
    rw [List.length_append, List.length_take, Nat.min_eq_left hinside, hlength]
  obtain ⟨k, hk⟩ : ∃ k, place.off = token.off + n + k := ⟨place.off - (token.off + n), by omega⟩
  rw [hbytes, ← hleft, hk, ← List.append_assoc, ← List.drop_drop, List.drop_left' hfront,
    List.drop_drop]

/-- The loop does what iterating over the tokens that are left does. -/
theorem iterate_loop_spec (himp : Implements m₀ cb f) (str : Option Ptr) (saveptr : Ptr) (idx : ℕ)
    (s : σ) {fuel : ℕ} {r : CStr} (hkeep : m₀.Keeps m) (hat : At m (str.getD saveptr) r)
    (hnew : m₀.next ≤ (str.getD saveptr).block) (hold : (str.getD saveptr).block < m.next)
    (hfuel : r.length < fuel) :
    (Mem.iterate_loop cb fuel m str saveptr idx s >>= fun r => .ret r.2)
        = iterate f (runs space_or_tab r) idx s ∧
      ∀ m' s', Mem.iterate_loop cb fuel m str saveptr idx s = .ret (m', s') → m₀.Keeps m' := by
  induction fuel generalizing m str saveptr idx s r with
  | zero => exact absurd hfuel (Nat.not_lt_zero _)
  | succ fuel ih =>
    rw [Mem.iterate_loop]
    rcases exists_token (p := space_or_tab) r with
      hblank | ⟨lead, t, rest, rfl, hlead, hne, ht, hend⟩
    · -- no token is left
      obtain ⟨q, hnone⟩ := strtok_r_blank hat hblank
      simp only [hnone, runs_blank hblank, iterate]
      refine ⟨rfl, ?_⟩
      rintro m' s' ⟨⟩
      exact hkeep
    · -- the token, and the place behind it for the next call
      obtain ⟨token, place, m₁, htok, hfound⟩ := strtok_r_token hat hlead hne ht hend
      have hkeep₁ := hkeep.found hfound hnew
      have htoken : m₀.next ≤ token.block := hfound.token_block ▸ hnew
      have hplace : place.block = token.block := hfound.place_block.trans hfound.token_block.symm
      have hin : token.block < m₁.next := by rw [hfound.token_block, hfound.next]; exact hold
      have hresult := himp.result m₁ token idx s hkeep₁ htoken hin
      rw [hfound.text] at hresult
      simp only [htok]
      rw [runs_lead hlead, runs_token_append hne ht hend, iterate, ← hresult]
      -- the callback may have written over the token and nothing else of the copy
      cases hcb : cb token idx m₁ s with
      | ret r =>
        obtain ⟨go, m₂, s₂⟩ := r
        have htouch := himp.touches m₁ token idx s go m₂ s₂ hkeep₁ htoken hin hcb
        rw [hfound.text] at htouch
        have hkeep₂ := hkeep₁.touches htouch htoken
        obtain ⟨r', hat', hruns, hshort⟩ := hfound.left
        simp only [Exec.ret_bind]
        cases go with
        | false =>
          simp only [Bool.false_eq_true, if_false, Exec.ret_bind, true_and]
          rintro m' s' ⟨⟩
          exact hkeep₂
        | true =>
          simp only [if_true]
          -- the rest of the text is behind what it has written
          have hat₂ : At m₂ place r' := hat'.touches htouch hplace hfound.behind
            (hfound.token_block ▸ hfound.inside)
          rw [← hruns]
          refine ih none place (idx + 1) s₂ hkeep₂ hat₂ ?_ ?_ ?_
          · exact hplace ▸ htoken
          · exact hplace ▸ hin.trans_le htouch.next
          · have hpos := List.length_pos_iff.mpr hne
            simp only [List.length_append] at hfuel
            omega
      | die e => exact ⟨rfl, nofun⟩
      | fault => exact ⟨rfl, nofun⟩
      | hang => exact ⟨rfl, nofun⟩

/-- Older strings are as they were. -/
theorem Mem.Keeps.str {q : Ptr} (h : m.Keeps m') (hq : q.block < m.next) : m'.str q = m.str q := by
  rw [Mem.str, Mem.str, h.block _ hq]

/-- What was good for an iteration that started earlier is good for one that starts now. -/
theorem Implements.mono (h : Implements m₀ cb f) (hkeep : m₀.Keeps m) : Implements m cb f where
  result m₁ q idx s hkeep₁ hnew hold :=
    h.result m₁ q idx s (hkeep.trans hkeep₁) (hkeep.next.trans hnew) hold
  touches m₁ q idx s go m' s' hkeep₁ hnew hold :=
    h.touches m₁ q idx s go m' s' (hkeep.trans hkeep₁) (hkeep.next.trans hnew) hold

/-- `string_list_iterate` with a good callback is the iteration over the entries, and leaves
everything that was there before as it was. -/
theorem string_list_iterate_spec (himp : Implements m₀ cb f) (q : Ptr) (s : σ) :
    (m₀.string_list_iterate (some q) cb s >>= fun r => .ret r.2)
        = string_list_iterate (m₀.str q) f s ∧
      ∀ m' s', m₀.string_list_iterate (some q) cb s = .ret (m', s') → m₀.Keeps m' := by
  have hnul : 0 ∉ m₀.str q := by
    intro h
    have hzero := List.mem_takeWhile_imp h
    exact absurd hzero (by decide)
  -- the copy is a new block, and everything old is where it was
  have hkeep : m₀.Keeps (m₀.xstrdup q).2 := by
    refine ⟨Nat.le_succ _, fun b hb => ?_⟩
    exact Function.update_of_ne (Nat.ne_of_lt hb) _ _
  have hat : At (m₀.xstrdup q).2 (m₀.xstrdup q).1 (m₀.str q) := by
    refine ⟨?_, hnul⟩
    simp only [Mem.xstrdup, Function.update_self, List.drop_zero]
  obtain ⟨hsame, hkept⟩ := iterate_loop_spec himp (some (m₀.xstrdup q).1) (m₀.xstrdup q).1 0 s hkeep
    hat (le_refl _) (Nat.lt_succ_self _) (Nat.lt_succ_self _)
  constructor
  · rw [string_list_iterate, entries_eq, ← hsame]
    rw [Mem.string_list_iterate]
    simp only
    cases Mem.iterate_loop cb ((m₀.str q).length + 1) (m₀.xstrdup q).2 (some (m₀.xstrdup q).1)
      (m₀.xstrdup q).1 0 s with
    | ret r => rfl
    | die e => rfl
    | fault => rfl
    | hang => rfl
  · intro m' s' h
    obtain ⟨⟨m₁, s₁⟩, hloop, hret⟩ := Exec.bind_eq_ret.mp h
    simp only [Exec.ret.injEq, Prod.mk.injEq] at hret
    -- `free` takes the copy back, which is no old block
    have hkeep₁ := hkept m₁ s₁ hloop
    refine ⟨hret.1 ▸ hkeep₁.next, fun b hb => ?_⟩
    rw [← hret.1, Mem.free]
    simp only
    rw [Function.update_of_ne (Nat.ne_of_lt hb), hkeep₁.block b hb]

/-! ## Good callbacks -/

/-- Bytes written at a pointer. -/
def Mem.write (m : Mem) (q : Ptr) (bytes : List UInt8) : Mem :=
  let old := m.block q.block
  let new := old.take q.off ++ (bytes ++ old.drop (q.off + bytes.length))
  { m with block := Function.update m.block q.block new }

/-- A callback that, whatever else it does, writes over its entry. -/
def scribble (f : CStr → ℕ → σ → Exec Die (Bool × σ)) (new : CStr → List UInt8) : Callback σ :=
  fun q idx m s => do
    let (go, s) ← f (m.str q) idx s
    .ret (go, m.write q ((new (m.str q)).takeD (m.str q).length 0), s)

/-- A callback may write over the string it is given. -/
theorem implements_scribble (m₀ : Mem) (f : CStr → ℕ → σ → Exec Die (Bool × σ))
    (new : CStr → List UInt8) : Implements m₀ (scribble f new) f where
  result m q idx s _ _ _ := by
    rw [scribble]
    cases f (m.str q) idx s with
    | ret r => rfl
    | die e => rfl
    | fault => rfl
    | hang => rfl
  touches m q idx s go m' s' _ _ _ h := by
    obtain ⟨r, -, hret⟩ := Exec.bind_eq_ret.mp h
    simp only [Exec.ret.injEq, Prod.mk.injEq] at hret
    obtain ⟨-, rfl, -⟩ := hret
    refine ⟨le_refl _, fun b _ hb => Function.update_of_ne hb _ _, ?_⟩
    refine ⟨_, List.takeD_length (m.str q).length (new (m.str q)) 0, ?_⟩
    simp only [Mem.write, Function.update_self, List.takeD_length]

/-- A callback that iterates over another list, and then goes on with what comes of it. -/
def nested {τ : Type} (q : Ptr) (inner : Callback τ) (start : σ → τ) (after : τ → Callback σ) :
    Callback σ :=
  fun entry idx m s => do
    let (m, t) ← m.string_list_iterate (some q) inner (start s)
    after t entry idx m s

/-- It may go through another list. -/
theorem implements_nested {τ : Type} {q : Ptr} (hq : q.block < m₀.next) {inner : Callback τ}
    {g : CStr → ℕ → τ → Exec Die (Bool × τ)} (hinner : Implements m₀ inner g) (start : σ → τ)
    {after : τ → Callback σ} {f : τ → CStr → ℕ → σ → Exec Die (Bool × σ)}
    (hafter : ∀ t, Implements m₀ (after t) (f t)) :
    Implements m₀ (nested q inner start after) fun text idx s =>
      string_list_iterate (m₀.str q) g (start s) >>= fun t => f t text idx s where
  result m entry idx s hkeep hnew hold := by
    -- the inner list is an old block, so it is still what it was
    obtain ⟨hsame, hkept⟩ := string_list_iterate_spec (hinner.mono hkeep) q (start s)
    rw [hkeep.str hq] at hsame
    rw [nested, ← hsame]
    cases hit : m.string_list_iterate (some q) inner (start s) with
    | ret r =>
      obtain ⟨m₁, t⟩ := r
      have hkeep₁ := hkept m₁ t hit
      have hresult := (hafter t).result m₁ entry idx s (hkeep.trans hkeep₁) hnew
        (hold.trans_le hkeep₁.next)
      rw [hkeep₁.str hold] at hresult
      exact hresult
    | die e => rfl
    | fault => rfl
    | hang => rfl
  touches m entry idx s go m' s' hkeep hnew hold h := by
    obtain ⟨⟨m₁, t⟩, hit, hret⟩ := Exec.bind_eq_ret.mp h
    have hkeep₁ := (string_list_iterate_spec (hinner.mono hkeep) q (start s)).2 m₁ t hit
    have htouch := (hafter t).touches m₁ entry idx s go m' s' (hkeep.trans hkeep₁) hnew
      (hold.trans_le hkeep₁.next) hret
    rw [hkeep₁.str hold] at htouch
    refine ⟨hkeep₁.next.trans htouch.next, fun b hb hne => ?_, ?_⟩
    · rw [htouch.others b (hb.trans_le hkeep₁.next) hne, hkeep₁.block b hb]
    · obtain ⟨bytes, hlength, hbytes⟩ := htouch.there
      rw [hkeep₁.block _ hold] at hbytes
      exact ⟨bytes, hlength, hbytes⟩

end Loop

/-! ## Calls in order -/

section Calls

variable {σ : Type} (f : CStr → ℕ → σ → Exec Die (Bool × σ))

/-- The calls on a list of tokens: one for each in order, with its number, up to the first that
returns false. -/
inductive Called : List CStr → ℕ → List (CStr × ℕ × Bool) → Prop where
  | all (idx : ℕ) : Called [] idx []
  | stop (t : CStr) (ts : List CStr) (idx : ℕ) : Called (t :: ts) idx [(t, idx, false)]
  | go (t : CStr) (ts : List CStr) (idx : ℕ) (calls : List (CStr × ℕ × Bool))
    (h : Called ts (idx + 1) calls) : Called (t :: ts) idx ((t, idx, true) :: calls)

/-- A callback that keeps a log of its calls. -/
def logged (text : CStr) (idx : ℕ) (s : σ × List (CStr × ℕ × Bool)) :
    Exec Die (Bool × σ × List (CStr × ℕ × Bool)) := do
  let (go, s') ← f text idx s.1
  .ret (go, s', s.2 ++ [(text, idx, go)])

variable {f}

/-- The calls that are logged are those that are made. -/
theorem iterate_logged {ts : List CStr} {idx : ℕ} {s s' : σ} {log log' : List (CStr × ℕ × Bool)}
    (h : iterate (logged f) ts idx (s, log) = .ret (s', log')) :
    iterate f ts idx s = .ret s' ∧ ∃ calls, Called ts idx calls ∧ log' = log ++ calls := by
  induction ts generalizing idx s log with
  | nil =>
    simp only [iterate, Exec.ret.injEq, Prod.mk.injEq] at h ⊢
    exact ⟨h.1, [], .all idx, by rw [← h.2, List.append_nil]⟩
  | cons t ts ih =>
    rw [iterate] at h ⊢
    obtain ⟨⟨go, s₁, log₁⟩, hcall, h⟩ := Exec.bind_eq_ret.mp h
    obtain ⟨⟨go', s₂⟩, hf, hret⟩ := Exec.bind_eq_ret.mp hcall
    simp only [Exec.ret.injEq, Prod.mk.injEq] at hret
    obtain ⟨rfl, rfl, rfl⟩ := hret
    rw [hf]
    simp only [Exec.ret_bind]
    -- the log has this call in front of those of the rest
    cases go' with
    | false =>
      simp only [Bool.false_eq_true, if_false, Exec.ret.injEq, Prod.mk.injEq] at h ⊢
      exact ⟨h.1, _, .stop t ts idx, h.2.symm⟩
    | true =>
      simp only [if_true] at h ⊢
      obtain ⟨hsame, calls, hcalls, rfl⟩ := ih h
      exact ⟨hsame, _, .go t ts idx calls hcalls, by rw [List.append_assoc]; rfl⟩

end Calls

/-! ## Lists that are built -/

/-- An entry that can be put into a list. -/
structure Entry where
  chars : CStr
  ne_nil : chars ≠ []
  solid : ∀ c ∈ chars, space_or_tab c = false

/-- An operation on a list. -/
inductive ListOp where
  | append (entry : Entry)
  | prepend (entry : Entry)

/-- What it makes of the string, which may be `NULL`. -/
def ListOp.run : Option CStr → ListOp → Option CStr
  | list, append entry => some (string_list_append (list.getD []) entry.chars)
  | list, prepend entry => some (string_list_prepend (list.getD []) entry.chars)

/-- What it makes of the list that is meant. -/
def ListOp.apply : List CStr → ListOp → List CStr
  | list, append entry => list ++ [entry.chars]
  | list, prepend entry => entry.chars :: list

/-- **An operation on a list** does to the entries what it should. -/
theorem entries_run (list : Option CStr) (op : ListOp) :
    entries ((op.run list).getD []) = op.apply (entries (list.getD [])) := by
  have hspace : space_or_tab 32 = true := rfl
  have hjoin : ∀ s s' : CStr, entries (s ++ cstr " " ++ s') = entries s ++ entries s' := by
    intro s s'
    have hsplit : s ++ cstr " " ++ s' = s ++ 32 :: s' := by
      rw [show cstr " " = [32] by decide, List.append_assoc]
      rfl
    rw [hsplit, entries_eq, runs_append_cons s s' hspace]
    rfl
  have hentry : ∀ entry : Entry, entries entry.chars = [entry.chars] := fun entry =>
    runs_token entry.ne_nil entry.solid
  -- an empty list is replaced, and any other gets a space and the entry
  generalize hl : list.getD [] = l
  cases op with
  | append entry =>
    simp only [ListOp.run, ListOp.apply, Option.getD_some, hl, string_list_append]
    by_cases hnil : l = []
    · rw [if_pos hnil, hentry, hnil]
      rfl
    · rw [if_neg hnil, hjoin, hentry]
  | prepend entry =>
    simp only [ListOp.run, ListOp.apply, Option.getD_some, hl, string_list_prepend]
    by_cases hnil : l = []
    · rw [if_pos hnil, hentry, hnil]
      rfl
    · rw [if_neg hnil, hjoin, hentry]
      rfl

theorem entries_built (ops : List ListOp) (list : Option CStr) :
    entries ((ops.foldl ListOp.run list).getD []) =
      ops.foldl ListOp.apply (entries (list.getD [])) := by
  induction ops generalizing list with
  | nil => rfl
  | cons op ops ih => rw [List.foldl_cons, List.foldl_cons, ih, entries_run]

/-! ## Everything together -/

/-- String lists are sequences: what has been put into one is what is in it; what is visited is
what is in it, in order; and nobody else notices. -/
structure StringListsFaithful : Prop where
  /-- a list that is built of entries has these entries -/
  built : ∀ (ops : List ListOp) (list : Option CStr), list = none ∨ list = some [] →
    entries ((ops.foldl ListOp.run list).getD []) = ops.foldl ListOp.apply []
  /-- the entries of any string are its maximal runs without space and tab -/
  maximal : ∀ (s : CStr) (ts : List CStr), Runs space_or_tab s ts ↔ ts = entries s
  /-- without a list nothing is called -/
  null : ∀ {σ : Type} (m : Mem) (cb : Callback σ) (s : σ),
    m.string_list_iterate none cb s = .ret (m, s)
  /-- the outcome is that of calls on the entries, numbered from 0 -/
  visits : ∀ {σ : Type} (m : Mem) (q : Ptr) (cb : Callback σ)
    (f : CStr → ℕ → σ → Exec Die (Bool × σ)) (s : σ), Implements m cb f →
      (m.string_list_iterate (some q) cb s >>= fun r => .ret r.2)
        = iterate f (entries (m.str q)) 0 s
  /-- these calls are made in order and stop behind the first that returns false -/
  ordered : ∀ {σ : Type} (f : CStr → ℕ → σ → Exec Die (Bool × σ)) (ts : List CStr) (s s' : σ)
    (calls : List (CStr × ℕ × Bool)), iterate (logged f) ts 0 (s, []) = .ret (s', calls) →
      iterate f ts 0 s = .ret s' ∧ Called ts 0 calls
  /-- the stored list, and everything else that was there, is as it was -/
  kept : ∀ {σ : Type} (m m' : Mem) (q : Ptr) (cb : Callback σ)
    (f : CStr → ℕ → σ → Exec Die (Bool × σ)) (s s' : σ), Implements m cb f →
      m.string_list_iterate (some q) cb s = .ret (m', s') → m.Keeps m'
  /-- a callback may write over its entry -/
  scribbles : ∀ {σ : Type} (m : Mem) (f : CStr → ℕ → σ → Exec Die (Bool × σ))
    (new : CStr → List UInt8), Implements m (scribble f new) f
  /-- and it may iterate over another list -/
  nests : ∀ {σ τ : Type} (m : Mem) (q : Ptr) (inner : Callback τ)
    (g : CStr → ℕ → τ → Exec Die (Bool × τ)) (start : σ → τ) (after : τ → Callback σ)
    (f : τ → CStr → ℕ → σ → Exec Die (Bool × σ)), q.block < m.next → Implements m inner g →
      (∀ t, Implements m (after t) (f t)) →
        Implements m (nested q inner start after) fun text idx s =>
          string_list_iterate (m.str q) g (start s) >>= fun t => f t text idx s

/-- **String lists represent sequences.** -/
theorem string_lists_faithful : StringListsFaithful where
  built ops list hlist := by
    rw [entries_built]
    rcases hlist with rfl | rfl <;> rfl
  maximal s ts := runs_iff
  null _ _ _ := rfl
  visits m q cb f s himp := (string_list_iterate_spec himp q s).1
  ordered f ts s s' calls h := by
    obtain ⟨hsame, calls', hcalls, rfl⟩ := iterate_logged h
    exact ⟨hsame, hcalls⟩
  kept m m' q cb f s s' himp h := (string_list_iterate_spec himp q s).2 m' s' h
  scribbles m f new := implements_scribble m f new
  nests _ _ _ _ start _ _ hq hinner hafter := implements_nested hq hinner start hafter

end Iago
