/-
What `robust_write` sends.

A loop around `write` has three things to keep in step: how much of the buffer
has gone out, how much is still to go, and where in the buffer the next call
starts. `robust_write` keeps the first two in `count` and `bytes_written` and has
nothing for the third: every call is given `buf` itself. It also takes what
`write` returned off `count` when that is the -1 of an interrupted call. So a
call after a short one sends the beginning of the buffer again, and a call after
an interrupted one asks for a byte too many.

Neither has to show. A piece that repeats the bytes that were due is as good as
those bytes, and after an error the caller only learns that something went wrong.
`Harmless` follows the outcomes of the calls and says of each what it takes for it
not to show; `robust_write_exact_iff` proves that nothing less will do.
-/
import Iago.GptCrash

set_option autoImplicit false

namespace Iago

/-! ## What has been sent -/

/-- Stores that follow one another from `pos` on. -/
def Consecutive : ℕ → List (ℕ × List UInt8) → Prop
  | _, [] => True
  | pos, w :: ws => w.1 = pos ∧ Consecutive (pos + w.2.length) ws

theorem consecutive_append {ws vs : List (ℕ × List UInt8)} {pos : ℕ} :
    Consecutive pos (ws ++ vs) ↔
      Consecutive pos ws ∧ Consecutive (pos + (ws.flatMap Prod.snd).length) vs := by
  induction ws generalizing pos with
  | nil => simp [Consecutive]
  | cons w ws ih =>
    rw [List.cons_append, Consecutive, Consecutive, ih, List.flatMap_cons, List.length_append,
      Nat.add_assoc, and_assoc]

/-- Between `io` and `io'` the bytes `bs` have been sent to `pos`, in one call or in
several, each once and in order, and the device is otherwise as it was. -/
structure Io.Appends (io : Io) (pos : ℕ) (bs : List UInt8) (io' : Io) : Prop where
  log : ∃ ws, io'.sent = io.sent ++ ws ∧ Consecutive pos ws ∧ ws.flatMap Prod.snd = bs
  data : io'.dev = io.dev.withData (io.dev.data.write pos bs)

namespace Io.Appends

variable {io io' : Io} {pos : ℕ} {bs cs : List UInt8}

theorem refl (io : Io) (pos : ℕ) : io.Appends pos [] io where
  log := ⟨[], (List.append_nil _).symm, trivial, rfl⟩
  data := by
    rw [Store.write_nil]
    rfl

/-- A call that transfers nothing appends nothing. -/
theorem fail (h : io.Appends pos bs io') (rs : List IoRes) (eintr : Bool) :
    io.Appends pos bs (io'.fail rs eintr) := ⟨h.log, h.data⟩

theorem rest (h : io.Appends pos bs io') (rs : List IoRes) :
    io.Appends pos bs { io' with rs := rs } := ⟨h.log, h.data⟩

/-- A call that transfers `cs` where the last one stopped. -/
theorem put (h : io.Appends pos bs io') (rs : List IoRes) (cs : List UInt8) :
    io.Appends pos (bs ++ cs) (io'.put rs (pos + bs.length) cs) where
  log := by
    obtain ⟨ws, hsent, hcons, hbs⟩ := h.log
    refine ⟨ws ++ [(pos + bs.length, cs)], ?_, ?_, ?_⟩
    · rw [Io.put, hsent, List.append_assoc]
    · rw [consecutive_append, hbs]
      exact ⟨hcons, rfl, trivial⟩
    · rw [List.flatMap_append, hbs, List.flatMap_singleton]
  data := by
    show io'.dev.withData (io'.dev.data.write (pos + bs.length) cs) = _
    rw [h.data]
    show io.dev.withData ((io.dev.data.write pos bs).write (pos + bs.length) cs) = _
    rw [Store.write_write]

/-- The log says which bytes they were. -/
theorem unique (h : io.Appends pos bs io') (h' : io.Appends pos cs io') : bs = cs := by
  obtain ⟨ws, hsent, -, rfl⟩ := h.log
  obtain ⟨vs, hsent', -, rfl⟩ := h'.log
  rw [hsent] at hsent'
  rw [List.append_cancel_left hsent']

/-- The device keeps its size. -/
theorem size (h : io.Appends pos bs io') : io'.dev.size = io.dev.size := by
  rw [h.data]
  rfl

end Io.Appends

/-! ## The claim and the condition -/

section Exact

variable {ε : Type}

/-- **What a caller of `robust_write` relies on**: a count that is not negative is
the count it asked for, and then exactly those bytes have been sent; after a
failure a beginning of them has been sent. No byte outside the buffer is read. -/
def WritesExactly (buf : List UInt8) (count : ℕ) (io : Io) (pos : ℕ) :
    Exec ε (Int × Io) → Prop
  | .ret (r, io') =>
    (0 ≤ r → r = count ∧ io.Appends pos (buf.take count) io') ∧
      (r < 0 → ∃ bs, bs <+: buf.take count ∧ io.Appends pos bs io')
  | .hang => True
  | .fault => False
  | .die _ => False

/-- **When the outcomes of the calls do no harm**, after `sent` bytes of `count`,
with `left` bytes to go by the loop's own reckoning: the calls do not ask for more
than the buffer has, each piece repeats the bytes that were due, and the loop is
not done before or after `count` bytes. `stale` is whether `errno` is `EINTR`. -/
def Harmless (buf : List UInt8) (count size : ℕ) :
    List IoRes → (stale : Bool) → (pos sent left : ℕ) → Prop
  | _, _, _, sent, 0 => sent = count
  | [], _, _, _, _ + 1 => True
  | r :: rs, stale, pos, sent, left + 1 =>
    left < buf.length ∧
      -- an interrupted call adds its -1 to what is left
      if r = .eintr then Harmless buf count size rs true pos sent (left + 2)
      -- a call that fails is the last one
      else if r = .err ∨ size ≤ pos then True
      else
        let n := r.amount (min (left + 1) (size - pos))
        -- what goes out is the beginning of the buffer, what was due starts at `sent`
        (sent + n ≤ count ∧ buf.take n = (buf.drop sent).take n) ∧
          -- no bytes, or more than an `int` can count, is taken for a failure
          (toInt32 n ≤ 0 ∧ stale = false ∨
            Harmless buf count size rs stale (pos + n) (sent + n)
              (((left + 1 : ℕ) : Int) - toInt32 n).toNat)

/-- A piece continues a beginning of the buffer exactly if it repeats what was due. -/
theorem prefix_piece {buf bs : List UInt8} {count n : ℕ} (hcount : count ≤ buf.length)
    (hn : n ≤ buf.length) (hbs : bs <+: buf.take count) :
    bs ++ buf.take n <+: buf.take count ↔
      bs.length + n ≤ count ∧ buf.take n = (buf.drop bs.length).take n := by
  obtain ⟨cs, hcs⟩ := hbs
  have hlen : bs.length + cs.length = count := by
    rw [← List.length_append, hcs, List.length_take, Nat.min_eq_left hcount]
  -- What is due is the buffer behind what has been sent.
  have hdrop : (buf.drop bs.length).take cs.length = cs := by
    have h := congrArg (List.drop bs.length) hcs
    rw [List.drop_append_of_le_length (Nat.le_refl _), List.drop_length, List.nil_append,
      List.drop_take] at h
    rw [show cs.length = count - bs.length by omega]
    exact h.symm
  have htake : (buf.take n).length = n := by rw [List.length_take, Nat.min_eq_left hn]
  rw [← hcs, List.prefix_append_right_inj]
  constructor
  · intro hpre
    have hle := hpre.length_le
    rw [htake] at hle
    refine ⟨by omega, ?_⟩
    have h := List.prefix_iff_eq_take.mp hpre
    rw [htake, ← hdrop, List.take_take, Nat.min_eq_left hle] at h
    exact h
  · rintro ⟨hle, heq⟩
    rw [heq, ← hdrop, hdrop, ← hdrop]
    exact List.take_prefix_take_left (by omega)

/-! ## The run -/

/-- A beginning stays one when less is taken of it. -/
theorem prefix_of_append {bs cs ds : List UInt8} (h : bs ++ cs <+: ds) : bs <+: ds :=
  (List.prefix_append bs cs).trans h

/-- A count never grows by becoming an `int`. -/
theorem toInt32_le (n : ℕ) : toInt32 n ≤ n := by
  unfold toInt32
  split_ifs <;> omega

variable {buf bs : List UInt8} {count pos₀ : ℕ} {io₀ io : Io}

/-- The loop is done. -/
theorem writesExactly_done (hsent : io₀.Appends pos₀ bs io) :
    WritesExactly (ε := ε) buf count io₀ pos₀ (.ret ((count : Int), io)) ↔
      bs = buf.take count := by
  constructor
  · intro h
    exact hsent.unique (h.1 (by omega)).2
  · intro h
    rw [h] at hsent
    exact ⟨fun _ => ⟨rfl, hsent⟩, fun hneg => by omega⟩

/-- The loop has given up. -/
theorem writesExactly_failed (hsent : io₀.Appends pos₀ bs io) :
    WritesExactly (ε := ε) buf count io₀ pos₀ (.ret (-1, io)) ↔ bs <+: buf.take count := by
  constructor
  · intro h
    obtain ⟨cs, hcs, hsent'⟩ := h.2 (by decide)
    rw [hsent.unique hsent']
    exact hcs
  · intro h
    exact ⟨fun hneg => absurd hneg (by decide), fun _ => ⟨bs, h, hsent⟩⟩

/-- No call returns more than it was asked for. -/
theorem write_call_le {c : IoRes} {rs : List IoRes} {pos asked n : ℕ} {k : Int} {io' : Io}
    (hcall : write_call c rs buf io pos asked = (k, n, io')) : k ≤ asked := by
  rw [write_call] at hcall
  split_ifs at hcall with hintr hfail
  · simp only [Prod.mk.injEq] at hcall
    omega
  · simp only [Prod.mk.injEq] at hcall
    omega
  · simp only [Prod.mk.injEq] at hcall
    have := toInt32_le (c.amount (min asked (io.dev.size - pos)))
    have := IoRes.amount_le c (min asked (io.dev.size - pos))
    omega

/-- The run lemma: from a state in which `bs` has been sent, whichever way the
earlier calls went, the run does what it should exactly if `bs` is a beginning of the
buffer and the calls to come do no harm. The sum of what is left and what has been
counted stays `count`, also across an interrupted call. -/
theorem writesExactly_iff_harmless (hcount : count ≤ buf.length) (rs : List IoRes) {left : ℕ}
    {w : Int} (hsent : io₀.Appends pos₀ bs io) (hw : w + left = count)
    (hends : robust_write (ε := ε) buf rs io (pos₀ + bs.length) left w ≠ .hang) :
    WritesExactly buf count io₀ pos₀
        (robust_write (ε := ε) buf rs io (pos₀ + bs.length) left w) ↔
      bs <+: buf.take count ∧
        Harmless buf count io₀.dev.size rs io.eintr (pos₀ + bs.length) bs.length left := by
  have htake : (buf.take count).length = count := by rw [List.length_take, Nat.min_eq_left hcount]
  have hdone : ∀ bs, bs = buf.take count ↔ bs <+: buf.take count ∧ bs.length = count := by
    intro bs
    constructor
    · intro h
      rw [h]
      exact ⟨List.prefix_rfl, htake⟩
    · rintro ⟨hpre, hlen⟩
      exact hpre.eq_of_length (by rw [hlen, htake])
  induction rs generalizing io left w bs with
  | nil =>
    cases left with
    | succ left => exact absurd rfl hends
    | zero =>
      rw [robust_write_zero, show w = count by omega, writesExactly_done (hsent.rest []), hdone,
        Harmless]
  | cons r rs ih =>
    cases left with
    | zero =>
      rw [robust_write_zero, show w = count by omega, writesExactly_done (hsent.rest _), hdone,
        Harmless]
    | succ left =>
      rw [robust_write] at hends ⊢
      rw [Harmless]
      by_cases hover : buf.length < left + 1
      · rw [if_pos hover]
        exact ⟨False.elim, fun h => absurd h.2.1 (by omega)⟩
      rw [if_neg hover] at hends ⊢
      have hleft : left < buf.length := by omega
      by_cases hintr : r = .eintr
      · -- nothing goes out, and one more is left to do
        rw [write_call, if_pos hintr] at hends ⊢
        simp only [Io.fail, Bool.true_eq_false, and_false, if_false, Nat.add_zero, hintr, if_true,
          hleft, true_and] at hends ⊢
        rw [show (((left + 1 : ℕ) : Int) - -1).toNat = left + 2 by omega] at hends ⊢
        exact ih (hsent.fail rs true) (by omega) hends
      by_cases hfail : r = .err ∨ io.dev.size ≤ pos₀ + bs.length
      · have hfail' : r = .err ∨ io₀.dev.size ≤ pos₀ + bs.length := by rwa [hsent.size] at hfail
        rw [write_call, if_neg hintr, if_pos hfail] at hends ⊢
        simp only [Io.fail, Int.reduceLE, if_true, hintr, if_false, hleft, hfail',
          and_true] at hends ⊢
        exact writesExactly_failed (hsent.fail rs false)
      · have hfail' : ¬ (r = .err ∨ io₀.dev.size ≤ pos₀ + bs.length) := by rwa [hsent.size] at hfail
        rw [write_call, if_neg hintr, if_neg hfail] at hends ⊢
        simp only [hintr, if_false, hleft, hfail', true_and] at hends ⊢
        rw [hsent.size] at hends ⊢
        generalize hn : r.amount (min (left + 1) (io₀.dev.size - (pos₀ + bs.length))) = n
          at hends ⊢
        have hnle : n ≤ buf.length := by
          have := IoRes.amount_le r (min (left + 1) (io₀.dev.size - (pos₀ + bs.length)))
          omega
        have hret : toInt32 n ≤ left + 1 := by
          have := toInt32_le n
          have := IoRes.amount_le r (min (left + 1) (io₀.dev.size - (pos₀ + bs.length)))
          omega
        have hlen : (buf.take n).length = n := by rw [List.length_take, Nat.min_eq_left hnle]
        have hput := hsent.put rs (buf.take n)
        have hstale : (io.put rs (pos₀ + bs.length) (buf.take n)).eintr = io.eintr := rfl
        rw [hstale] at hends ⊢
        by_cases hstop : toInt32 n ≤ 0 ∧ io.eintr = false
        · rw [if_pos hstop, writesExactly_failed hput]
          simp only [hstop, and_self, true_or, and_true]
          constructor
          · intro h
            have hbs := prefix_of_append h
            exact ⟨hbs, (prefix_piece hcount hnle hbs).mp h⟩
          · rintro ⟨hbs, h⟩
            exact (prefix_piece hcount hnle hbs).mpr h
        · rw [if_neg hstop] at hends ⊢
          have hpos : pos₀ + bs.length + n = pos₀ + (bs ++ buf.take n).length := by
            rw [List.length_append, hlen, Nat.add_assoc]
          rw [hpos] at hends ⊢
          have hrest := ih hput (by omega) hends
          refine hrest.trans ?_
          rw [hstale, List.length_append, hlen]
          simp only [hstop, false_or]
          constructor
          · rintro ⟨h, hrest⟩
            have hbs := prefix_of_append h
            exact ⟨hbs, (prefix_piece hcount hnle hbs).mp h, hrest⟩
          · rintro ⟨hbs, h, hrest⟩
            exact ⟨(prefix_piece hcount hnle hbs).mpr h, hrest⟩

/-- A run that does not fail returns what it was asked for. -/
theorem robust_write_count {rs : List IoRes} {io io' : Io} {pos left : ℕ} {w r : Int}
    (hret : robust_write (ε := ε) buf rs io pos left w = .ret (r, io')) :
    r = w + left ∨ r = -1 := by
  induction rs generalizing io pos left w with
  | nil =>
    cases left with
    | zero =>
      injection hret with hret
      injection hret with hret _
      exact .inl (by omega)
    | succ left => cases hret
  | cons c rs ih =>
    cases left with
    | zero =>
      injection hret with hret
      injection hret with hret _
      exact .inl (by omega)
    | succ left =>
      rw [robust_write] at hret
      -- The counts written and left add up to the same number in every round.
      by_cases hover : buf.length < left + 1
      · rw [if_pos hover] at hret
        cases hret
      rw [if_neg hover] at hret
      rcases hcall : write_call c rs buf io pos (left + 1) with ⟨k, n, io₁⟩
      rw [hcall] at hret
      simp only at hret
      by_cases hstop : k ≤ 0 ∧ io₁.eintr = false
      · rw [if_pos hstop] at hret
        injection hret with hret
        injection hret with hret _
        exact .inr hret.symm
      · rw [if_neg hstop] at hret
        have hk := write_call_le hcall
        rcases ih hret with h | h
        · exact .inl (by omega)
        · exact .inr h

/-- `robust_write` writes exactly the buffer if and only if the outcomes of its calls
do no harm. A run that has not ended says nothing either way. -/
theorem robust_write_exact (buf : List UInt8) (count : ℕ) (io : Io) (pos : ℕ)
    (hends : robust_write (ε := ε) buf io.rs io pos count 0 ≠ .hang) :
    WritesExactly buf count io pos (robust_write (ε := ε) buf io.rs io pos count 0) ↔
      Harmless buf count io.dev.size io.rs io.eintr pos 0 count := by
  by_cases hcount : count ≤ buf.length
  · have h := writesExactly_iff_harmless (ε := ε) hcount io.rs (Io.Appends.refl io pos)
      (by omega) hends
    exact h.trans (and_iff_right List.nil_prefix)
  · -- the first call already asks for more than there is
    obtain ⟨left, rfl⟩ : ∃ left, count = left + 1 := ⟨count - 1, by omega⟩
    cases hrs : io.rs with
    | nil => exact absurd (by rw [hrs]; rfl) hends
    | cons r rs =>
      rw [robust_write, if_pos (by omega), Harmless]
      exact ⟨False.elim, fun h => absurd h.1 (by omega)⟩

end Exact

/-! ## `gpt_write`

A table is written as five buffers, one `robust_write` each. `gpt_write` returns 0
only when all five say they have been written. -/

section Table

variable {ε : Type}

/-- A buffer to be written: where to, what it holds, and what is in the memory behind it. -/
structure Job where
  pos : ℕ
  buf : List UInt8
  behind : List UInt8

abbrev Jobs := List Job

/-- `robust_write` of the whole buffer. -/
def Job.write (j : Job) (io : Io) : Exec ε (Int × Io) :=
  robust_write (j.buf ++ j.behind) io.rs io j.pos j.buf.length 0

/-- `robust_write` has been called for each of the buffers in turn, from `io` to
`io'`, has not returned a failure for any, and each of the calls is as `P` says. -/
def Wrote (ε : Type) (P : Job → Io → Io → Prop) : Jobs → Io → Io → Prop
  | [], io, io' => io' = io
  | j :: jobs, io, io' => ∃ r io₁, j.write (ε := ε) io = .ret (r, io₁) ∧ 0 ≤ r ∧
      P j io io₁ ∧ Wrote ε P jobs io₁ io'

theorem wrote_append {P : Job → Io → Io → Prop} {jobs jobs' : Jobs} {io io₁ io' : Io}
    (h : Wrote ε P jobs io io₁) (h' : Wrote ε P jobs' io₁ io') :
    Wrote ε P (jobs ++ jobs') io io' := by
  induction jobs generalizing io with
  | nil =>
    rw [Wrote] at h
    rwa [← h]
  | cons j jobs ih =>
    obtain ⟨r, io₂, hret, hr, hP, hrest⟩ := h
    exact ⟨r, io₂, hret, hr, hP, ih hrest⟩

/-- The call has stored the buffer, once and in order, and nothing else. -/
def Job.StoredExactly (j : Job) (io io' : Io) : Prop := io.Appends j.pos j.buf io'

/-- The outcomes of the call do no harm. -/
def Job.Unharmed (j : Job) (io _ : Io) : Prop :=
  Harmless (j.buf ++ j.behind) j.buf.length io.dev.size io.rs io.eintr j.pos 0 j.buf.length

/-- Nothing said of the call. -/
def Job.Unknown (_ : Job) (_ _ : Io) : Prop := True

/-- A buffer that has been written is stored exactly if the call was harmless. -/
theorem Job.stored_iff_unharmed {j : Job} {io io' : Io} {r : Int}
    (h : j.write (ε := ε) io = .ret (r, io')) (hr : 0 ≤ r) :
    j.StoredExactly io io' ↔ j.Unharmed io io' := by
  have hends : robust_write (ε := ε) (j.buf ++ j.behind) io.rs io j.pos j.buf.length 0 ≠ .hang := by
    rw [Job.write] at h
    rw [h]
    exact fun h => by cases h
  have hexact := robust_write_exact (ε := ε) (j.buf ++ j.behind) j.buf.length io j.pos hends
  rw [Job.write] at h
  rw [h, WritesExactly, List.take_left] at hexact
  rw [Job.Unharmed, ← hexact, Job.StoredExactly]
  constructor
  · intro hstored
    refine ⟨fun _ => ⟨?_, hstored⟩, fun hneg => by omega⟩
    rcases robust_write_count h with hcount | hneg
    · omega
    · omega
  · exact fun hexact => (hexact.1 hr).2

/-- Buffers that have been written are stored exactly if every call was harmless. -/
theorem stored_iff_unharmed {jobs : Jobs} {io io' : Io} :
    Wrote ε Job.StoredExactly jobs io io' ↔ Wrote ε Job.Unharmed jobs io io' := by
  induction jobs generalizing io with
  | nil => exact Iff.rfl
  | cons j jobs ih =>
    rw [Wrote, Wrote]
    constructor
    · rintro ⟨r, io₁, hret, hr, hP, hrest⟩
      exact ⟨r, io₁, hret, hr, (Job.stored_iff_unharmed hret hr).mp hP, ih.mp hrest⟩
    · rintro ⟨r, io₁, hret, hr, hP, hrest⟩
      exact ⟨r, io₁, hret, hr, (Job.stored_iff_unharmed hret hr).mpr hP, ih.mpr hrest⟩

variable [Platform]

/-- A seek that succeeds is followed by one job. -/
theorem write_at_ret {io io' : Io} {off : UInt64} {b : Buffer} {buf : List UInt8} {count : ℕ}
    {r : Int} (hlen : buf.length = count)
    (h : write_at (ε := ε) io off b buf count = .ret (r, io')) (hr : 0 ≤ r) :
    Wrote ε Job.Unknown [⟨off.toNat, buf, Platform.behind b⟩] io io' := by
  rw [write_at, ← hlen] at h
  by_cases hseek : lseek64 io.dev off
  · rw [if_pos hseek] at h
    obtain ⟨⟨r₁, io₁⟩, hret, h⟩ := Exec.bind_eq_ret.mp h
    simp only at h
    by_cases hr₁ : r₁ < 0
    · rw [if_pos hr₁] at h
      simp only [Exec.ret.injEq, Prod.mk.injEq] at h
      omega
    · rw [if_neg hr₁] at h
      simp only [Exec.ret.injEq, Prod.mk.injEq] at h
      exact ⟨r₁, io₁, hret, by omega, trivial, h.2.symm⟩
  · rw [if_neg hseek] at h
    simp only [Exec.ret.injEq, Prod.mk.injEq] at h
    omega

/-- The two buffers of a copy: the header and the array of the table `le`, byte swapped and
checksummed, which go where the table `g` says. -/
def copy_jobs (primary : Bool) (g le : Gpt) : Jobs :=
  [⟨(g.lba_offset g.header.current_lba).toNat, GptHeader.codec.enc le.header,
      Platform.behind (.header primary)⟩,
    ⟨(g.lba_offset g.header.pentry_start_lba).toNat, le.buf, Platform.behind (.entries primary)⟩]

/-- Swapping and checksumming leave the length of the array alone. -/
theorem length_swap_and_checksum {g le : Gpt} (h : swap_and_checksum (ε := ε) g = .ret le) :
    le.buf.length = g.buf.length := by
  rw [swap_and_checksum] at h
  obtain ⟨g₁, hswap, h⟩ := Exec.bind_eq_ret.mp h
  obtain ⟨crc, -, h⟩ := Exec.bind_eq_ret.mp h
  obtain ⟨crc', -, h⟩ := Exec.bind_eq_ret.mp h
  injection h with h
  rw [← h]
  show g₁.buf.length = g.buf.length
  rw [gpt_entries_bytes_to_le] at hswap
  exact for_each_slot_length hswap

omit [Platform] in
/-- The copy of a table has an array of the size its header says. -/
theorem length_gpt_copy {g copy : Gpt} (h : gpt_copy (ε := ε) g = .ret copy) :
    copy.buf.length = g.header.entries_size.toNat ∧ copy.header = g.header := by
  rw [gpt_copy] at h
  split at h
  · split_ifs at h with hfits
    injection h with h
    rw [← h]
    exact ⟨by rw [withBuf_buf, List.length_take, Nat.min_eq_left hfits], rfl⟩
  · split_ifs at h with hzero
    injection h with h
    rw [← h]
    exact ⟨by rw [withBuf_buf, hzero]; rfl, rfl⟩

theorem write_gpt_to_disk_ret {io io' : Io} {primary : Bool} {g : Gpt}
    (hlen : g.buf.length = g.header.entries_size.toNat)
    (h : write_gpt_to_disk (ε := ε) io primary g = .ret (0, io')) :
    ∃ le, swap_and_checksum (ε := ε) g = .ret le ∧
      Wrote ε Job.Unknown (copy_jobs primary g le) io io' := by
  rw [write_gpt_to_disk] at h
  obtain ⟨le, hle, h⟩ := Exec.bind_eq_ret.mp h
  obtain ⟨⟨r, io₁⟩, hhead, h⟩ := Exec.bind_eq_ret.mp h
  simp only at h
  by_cases hr : r < 0
  · rw [if_pos hr] at h
    simp only [Exec.ret.injEq, Prod.mk.injEq] at h
    omega
  · rw [if_neg hr] at h
    have hlen' : le.buf.length = g.header.entries_size.toNat :=
      (length_swap_and_checksum hle).trans hlen
    exact ⟨le, hle, wrote_append (write_at_ret (GptHeader.length_enc _) hhead (by omega))
      (write_at_ret hlen' h (by decide))⟩

/-- What `gpt_write` of a table comes to: the buffers of the two copies, each with its
own header and checksums, and the MBR. -/
structure TableJobs (ε : Type) (g : Gpt) (jobs : Jobs) : Prop where
  out : ∃ copy le₁ le₂, gpt_copy (ε := ε) g = .ret copy ∧
    swap_and_checksum (ε := ε) (copy.withHeader (primary_header copy)) = .ret le₁ ∧
    swap_and_checksum (ε := ε) (copy.withHeader (backup_header copy)) = .ret le₂ ∧
    jobs = copy_jobs true (copy.withHeader (primary_header copy)) le₁ ++
      copy_jobs false (copy.withHeader (backup_header copy)) le₂ ++
      [⟨440, Mbr.codec.enc (protective_mbr g), Platform.behind .mbr⟩]

/-- A `gpt_write` that reports success has called `robust_write` for all five. -/
theorem gpt_write_wrote {io io' : Io} {g g' : Gpt}
    (h : gpt_write (ε := ε) io g = .ret (0, g', io')) :
    ∃ jobs, TableJobs ε g jobs ∧ Wrote ε Job.Unknown jobs io io' := by
  rw [gpt_write] at h
  obtain ⟨copy, hcopy, h⟩ := Exec.bind_eq_ret.mp h
  obtain ⟨⟨r₁, io₁⟩, hprim, h⟩ := Exec.bind_eq_ret.mp h
  simp only at h
  -- The first part that does not return 0 ends the call, so all three have returned it.
  by_cases hr₁ : r₁ = 0
  swap
  · rw [if_pos hr₁] at h
    simp only [Exec.ret.injEq, Prod.mk.injEq] at h
    omega
  rw [if_neg (not_not.mpr hr₁), hcopy, Exec.ret_bind] at h
  by_cases hL : copy.lba_size = 0
  · rw [if_pos hL] at h
    cases h
  rw [if_neg hL] at h
  obtain ⟨⟨r₂, io₂⟩, hback, h⟩ := Exec.bind_eq_ret.mp h
  simp only at h
  by_cases hr₂ : r₂ = 0
  swap
  · rw [if_pos hr₂] at h
    simp only [Exec.ret.injEq, Prod.mk.injEq] at h
    omega
  rw [if_neg (not_not.mpr hr₂)] at h
  obtain ⟨⟨r₃, io₃⟩, hmbr, h⟩ := Exec.bind_eq_ret.mp h
  simp only at h
  by_cases hr₃ : r₃ = 0
  swap
  · rw [if_pos hr₃] at h
    simp only [Exec.ret.injEq, Prod.mk.injEq] at h
    omega
  rw [if_neg (not_not.mpr hr₃)] at h
  simp only [Exec.ret.injEq, Prod.mk.injEq, true_and] at h
  rw [hr₁] at hprim
  rw [hr₂] at hback
  -- Each half sends the array first and its header behind it.
  obtain ⟨hlen, hheader⟩ := length_gpt_copy hcopy
  have hsize : copy.buf.length = copy.header.entries_size.toNat := by rw [hlen, hheader]
  obtain ⟨le₁, hle₁, hwrote₁⟩ := write_gpt_to_disk_ret
    (g := copy.withHeader (primary_header copy)) hsize hprim
  obtain ⟨le₂, hle₂, hwrote₂⟩ := write_gpt_to_disk_ret
    (g := copy.withHeader (backup_header copy)) hsize hback
  have hwrote₃ := write_at_ret (Mbr.length_enc _) hmbr (by omega)
  rw [h.2] at hwrote₃
  exact ⟨_, ⟨copy, le₁, le₂, hcopy, hle₁, hle₂, rfl⟩,
    wrote_append (wrote_append hwrote₁ hwrote₂) hwrote₃⟩

/-- **`robust_write` writes exactly the buffer if and only if the outcomes of its
calls do no harm**, and a `gpt_write` that reports success has stored the headers and
arrays it checksummed if and only if those of all its calls do. -/
theorem robust_write_exact_iff :
    (∀ (buf : List UInt8) (count : ℕ) (io : Io) (pos : ℕ),
      robust_write (ε := ε) buf io.rs io pos count 0 ≠ .hang →
      (WritesExactly buf count io pos (robust_write (ε := ε) buf io.rs io pos count 0) ↔
        Harmless buf count io.dev.size io.rs io.eintr pos 0 count)) ∧
    ∀ (io io' : Io) (g g' : Gpt), gpt_write (ε := ε) io g = .ret (0, g', io') →
      ∃ jobs, TableJobs ε g jobs ∧ Wrote ε Job.Unknown jobs io io' ∧
        (Wrote ε Job.StoredExactly jobs io io' ↔ Wrote ε Job.Unharmed jobs io io') := by
  refine ⟨fun buf count io pos hends => robust_write_exact buf count io pos hends, ?_⟩
  intro io io' g g' h
  obtain ⟨jobs, hjobs, hwrote⟩ := gpt_write_wrote h
  exact ⟨jobs, hjobs, hwrote, stored_iff_unharmed⟩

end Table

/-! ## A short write and an interrupted one

Two bytes and a disk that takes them one at a time; a table written to a disk that takes one
byte of its first header before it takes the rest; and a table whose backup array is interrupted
before it goes out. -/

section ShortWrite

attribute [local instance] x86

def two_bytes_io : Io := { mirrored_io with rs := [.upto 1, .all] }

def short_io : Io := { mirrored_io with rs := .upto 1 :: List.replicate 5 .all }

def interrupted_io : Io :=
  { mirrored_io with rs := [.all, .all, .all, .eintr, .all, .all] }

set_option maxRecDepth 100000 in
/-- The table is reported as written, and its header starts with `EEFI PAR`. -/
theorem short_write_run : ∃ g' io', gpt_write (ε := Empty) short_io new_gpt = .ret (0, g', io') ∧
    io'.dev.data.read 512 8 = [69, 69, 70, 73, 32, 80, 65, 82] := by
  have hrun : (gpt_write (ε := Empty) short_io new_gpt).returns (fun v =>
      decide (v.1 = 0 ∧ v.2.2.dev.data.read 512 8 = [69, 69, 70, 73, 32, 80, 65, 82])) = true := by
    decide +kernel
  obtain ⟨⟨r, g', io'⟩, hret, htest⟩ := Exec.exists_of_returns hrun
  obtain ⟨rfl, hread⟩ := of_decide_eq_true htest
  exact ⟨g', io', hret, hread⟩

set_option maxRecDepth 100000 in
/-- The table is reported as written, and the byte of memory behind its array is the first
byte of the backup header. -/
theorem interrupted_write_run :
    ∃ g' io', gpt_write (ε := Empty) interrupted_io new_gpt = .ret (0, g', io') ∧
      io'.dev.data.read new_gpt.backup_base 8 = [0, 70, 73, 32, 80, 65, 82, 84] := by
  have hrun : (gpt_write (ε := Empty) interrupted_io new_gpt).returns (fun v =>
      decide (v.1 = 0 ∧
        v.2.2.dev.data.read new_gpt.backup_base 8 = [0, 70, 73, 32, 80, 65, 82, 84])) = true := by
    decide +kernel
  obtain ⟨⟨r, g', io'⟩, hret, htest⟩ := Exec.exists_of_returns hrun
  obtain ⟨rfl, hread⟩ := of_decide_eq_true htest
  exact ⟨g', io', hret, hread⟩

/-- Both halves at the runs above. -/
theorem short_exact_iff :
    (WritesExactly (ε := Empty) [1, 2] 2 two_bytes_io 0
        (robust_write [1, 2] two_bytes_io.rs two_bytes_io 0 2 0) ↔
      Harmless [1, 2] 2 two_bytes_io.dev.size two_bytes_io.rs two_bytes_io.eintr 0 0 2) ∧
    ∀ io ∈ [short_io, interrupted_io],
      ∃ io' jobs, TableJobs Empty new_gpt jobs ∧ Wrote Empty Job.Unknown jobs io io' ∧
        (Wrote Empty Job.StoredExactly jobs io io' ↔ Wrote Empty Job.Unharmed jobs io io') := by
  refine ⟨(robust_write_exact_iff (ε := Empty)).1 [1, 2] 2 two_bytes_io 0 (by
    intro h
    cases h), ?_⟩
  intro io hio
  have hwrites : ∃ g' io', gpt_write (ε := Empty) io new_gpt = .ret (0, g', io') := by
    rcases List.mem_cons.mp hio with rfl | hio
    · obtain ⟨g', io', hret, -⟩ := short_write_run
      exact ⟨g', io', hret⟩
    · obtain ⟨g', io', hret, -⟩ := interrupted_write_run
      exact ⟨g', io', List.mem_singleton.mp hio ▸ hret⟩
  obtain ⟨g', io', hret⟩ := hwrites
  exact ⟨io', (robust_write_exact_iff (ε := Empty)).2 io io' new_gpt g' hret⟩

/-- Of two bytes the first is sent twice, and the count says that both have been
sent; a short call spoils the primary header, an interrupted one the backup header. -/
theorem two_bytes_not_exact :
    ¬ WritesExactly (ε := Empty) [1, 2] 2 two_bytes_io 0
        (robust_write [1, 2] two_bytes_io.rs two_bytes_io 0 2 0) ∧
      (∃ g' io', gpt_write (ε := Empty) short_io new_gpt = .ret (0, g', io') ∧
        io'.dev.data.read 512 8 ≠ efi_part) ∧
      ∃ g' io', gpt_write (ε := Empty) interrupted_io new_gpt = .ret (0, g', io') ∧
        io'.dev.data.read new_gpt.backup_base 8 ≠ efi_part := by
  refine ⟨?_, ?_, ?_⟩
  · intro h
    obtain ⟨ws, hsent, -, hws⟩ := (h.1 (by decide)).2.log
    have hlog : two_bytes_io.sent ++ ws = [(0, [1]), (1, [1])] := hsent.symm
    rw [show two_bytes_io.sent = [] from rfl, List.nil_append] at hlog
    rw [hlog] at hws
    exact absurd hws (by decide)
  · obtain ⟨g', io', hret, hread⟩ := short_write_run
    refine ⟨g', io', hret, ?_⟩
    rw [hread]
    decide
  · obtain ⟨g', io', hret, hread⟩ := interrupted_write_run
    refine ⟨g', io', hret, ?_⟩
    rw [hread]
    decide

end ShortWrite

end Iago
