/-
When `write_raw_image` copies its file.

The copy goes block by block through a buffer of 2048 bytes, and both calls may be
interrupted or do less than they were asked to. The reading half takes whatever a `read`
brings for a block. The writing half counts down what is left of a block, but calls
`write` with the start of the buffer again: after a short write it repeats the first bytes
of the block where the next ones belong.

It always ends (`write_loop_ends`, `copy_loop_ends`) and always writes as many bytes as
there are in the file, so nothing outside their place changes. They are the bytes of the
file exactly if no call that comes after a short one in its block has anything to tell
apart (`Harmless`): what it writes happens to be the same as the start of the block.
-/
import Iago.Calls
import Iago.WriteImages

set_option autoImplicit false

namespace Iago

namespace EditDiskLbl

/-! ## Calls that get on -/

/-- Outcomes of `write` without errors, of which again and again one moves something. -/
structure WriteCalls where
  outcome : ℕ → IoRes
  noErr : ∀ k, outcome k ≠ .err
  moves : ∀ k, ∃ j, k ≤ j ∧ outcome j ≠ .eintr ∧ outcome j ≠ .upto 0

namespace WriteCalls

/-- The first `n` outcomes. -/
def first (c : WriteCalls) (n : ℕ) : List IoRes := (List.range n).map c.outcome

/-- What follows the first `n`. -/
def after (c : WriteCalls) (n : ℕ) : WriteCalls where
  outcome k := c.outcome (n + k)
  noErr k := c.noErr (n + k)
  moves := exists_from c.moves n

@[simp] theorem first_zero (c : WriteCalls) : c.first 0 = [] := rfl

theorem first_add (c : WriteCalls) (m n : ℕ) :
    c.first (m + n) = c.first m ++ (c.after m).first n := by
  rw [first, first, first, List.range_add, List.map_append, List.map_map]
  rfl

theorem first_succ (c : WriteCalls) (n : ℕ) :
    c.first (n + 1) = c.outcome 0 :: (c.after 1).first n := by
  rw [Nat.add_comm, first_add]
  rfl

/-- Skipping the calls that move nothing. -/
theorem induct {P : WriteCalls → Prop}
    (call : ∀ c : WriteCalls, c.outcome 0 ≠ .eintr → c.outcome 0 ≠ .upto 0 → P c)
    (skip : ∀ c : WriteCalls, c.outcome 0 = .eintr ∨ c.outcome 0 = .upto 0 → P (c.after 1) → P c)
    (c : WriteCalls) : P c := by
  obtain ⟨j, -, hj⟩ := c.moves 0
  -- by induction on how many calls at most come before the first that moves something
  induction j generalizing c with
  | zero => exact call c hj.1 hj.2
  | succ j ih =>
    by_cases h0 : c.outcome 0 = .eintr ∨ c.outcome 0 = .upto 0
    · refine skip c h0 (ih (c.after 1) ?_)
      show c.outcome (1 + j) ≠ .eintr ∧ c.outcome (1 + j) ≠ .upto 0
      rwa [Nat.add_comm]
    · rw [not_or] at h0
      exact call c h0.1 h0.2

end WriteCalls

/-! ## What goes wrong -/

/-- Every call of the write loop finds the start of the block where it is to go on in it. -/
def HarmlessBlock (block : List UInt8) : List IoRes → (left : ℕ) → Prop
  | _, 0 => True
  | [], _ + 1 => True
  | w :: ws, left + 1 =>
    block.take (w.amount (left + 1))
        = (block.drop (block.length - (left + 1))).take (w.amount (left + 1)) ∧
      HarmlessBlock block ws (left + 1 - w.amount (left + 1))

/-- The calls that are left when a block has been written. -/
def after_block : List IoRes → (left : ℕ) → List IoRes
  | ws, 0 => ws
  | [], _ + 1 => []
  | w :: ws, left + 1 => after_block ws (left + 1 - w.amount (left + 1))

/-- The same for every block, as far as the calls go. -/
def Harmless : List IoRes → List IoRes → (src : List UInt8) → Prop
  | [], _, _ => True
  | r :: rs, ws, src =>
    let nr_bytes := r.amount (min BUFFER src.length)
    HarmlessBlock (src.take nr_bytes) ws nr_bytes ∧
      Harmless rs (after_block ws nr_bytes) (src.drop nr_bytes)

section Blocks

variable {block src : List UInt8} {rs rs' ws ws' : List IoRes} {dst dst' : Store}
  {pos pos' left : ℕ}

@[simp] theorem harmlessBlock_zero (ws : List IoRes) : HarmlessBlock block ws 0 := by
  cases ws <;> trivial

@[simp] theorem harmlessBlock_nil (left : ℕ) : HarmlessBlock block [] left := by
  cases left <;> trivial

@[simp] theorem after_block_zero (ws : List IoRes) : after_block ws 0 = ws := by
  cases ws <;> rfl

@[simp] theorem after_block_nil (left : ℕ) : after_block [] left = [] := by
  cases left <;> rfl

/-- A block to which nothing is missing, then the rest of it. -/
theorem append_eq_drop_iff {as bs : List UInt8} {n : ℕ} (hlen : as.length + n ≤ block.length) :
    as ++ bs = block.drop n ↔
      as = (block.drop n).take as.length ∧ bs = block.drop (n + as.length) := by
  conv_lhs => rw [← List.take_append_drop as.length (block.drop n), List.drop_drop]
  constructor
  · intro h
    exact List.append_inj h (by rw [List.length_take, List.length_drop]; omega)
  · rintro ⟨has, hbs⟩
    rw [← hbs]
    conv_lhs => rw [has]

/-- **One block**: `left` bytes are written, and they are those of the block exactly if the calls
are harmless. -/
theorem write_loop_sent (hleft : left ≤ block.length)
    (h : write_loop block ws left dst pos = .ret (true, dst', pos', ws')) :
    ∃ sent, dst' = dst.write pos sent ∧ sent.length = left ∧ pos' = pos + left ∧
      ws' = after_block ws left ∧
      (sent = block.drop (block.length - left) ↔ HarmlessBlock block ws left) := by
  induction ws generalizing left dst pos with
  | nil =>
    cases left with
    | zero =>
      simp only [write_loop, Exec.ret.injEq, Prod.mk.injEq, true_and] at h
      obtain ⟨rfl, rfl, rfl⟩ := h
      exact ⟨[], (Store.write_nil _ _).symm, rfl, rfl, rfl, by simp⟩
    | succ left => cases h
  | cons w ws ih =>
    cases left with
    | zero =>
      simp only [write_loop, Exec.ret.injEq, Prod.mk.injEq, true_and] at h
      obtain ⟨rfl, rfl, rfl⟩ := h
      exact ⟨[], (Store.write_nil _ _).symm, rfl, rfl, rfl, by simp⟩
    | succ left =>
      -- every call but an error goes on after `k` bytes, none for an interrupted one
      have hstep : ∀ k, k = w.amount (left + 1) →
          write_loop block ws (left + 1 - k) (dst.write pos (block.take k)) (pos + k)
            = .ret (true, dst', pos', ws') →
          ∃ sent, dst' = dst.write pos sent ∧ sent.length = left + 1 ∧ pos' = pos + (left + 1) ∧
            ws' = after_block (w :: ws) (left + 1) ∧
            (sent = block.drop (block.length - (left + 1)) ↔
              HarmlessBlock block (w :: ws) (left + 1)) := by
        intro k hk h
        have hle : k ≤ left + 1 := by
          rw [hk]
          exact IoRes.amount_le w _
        have hlen : (block.take k).length = k := by
          rw [List.length_take]
          omega
        obtain ⟨sent, hdst, hsent, hpos, hws, hiff⟩ := ih (by omega) h
        refine ⟨block.take k ++ sent, ?_, ?_, by omega, ?_, ?_⟩
        · rw [hdst, ← Store.write_write, hlen]
        · rw [List.length_append, hlen, hsent]
          omega
        · rw [hws, after_block, ← hk]
        · rw [append_eq_drop_iff (by omega), hlen, HarmlessBlock, ← hk, ← hiff,
            show block.length - (left + 1) + k = block.length - (left + 1 - k) by omega]
      cases w with
      | err => simp [write_loop] at h
      | eintr =>
        refine hstep 0 rfl ?_
        rw [List.take_zero, Store.write_nil, Nat.sub_zero, Nat.add_zero]
        exact h
      | all => exact hstep (left + 1) rfl h
      | upto m => exact hstep (min m (left + 1)) rfl h

/-- At the end of the file no call can do harm. -/
theorem harmless_end (rs ws : List IoRes) : Harmless rs ws [] := by
  induction rs generalizing ws with
  | nil => trivial
  | cons r rs ih =>
    have hnone : r.amount (min BUFFER ([] : List UInt8).length) = 0 :=
      Nat.le_zero.mp (Nat.le_trans (IoRes.amount_le r _) (Nat.min_le_right _ _))
    rw [Harmless]
    simp only [hnone, harmlessBlock_zero, after_block_zero, List.drop_nil, true_and]
    exact ih ws

/-- **The file**: as many bytes as it has are written, and they are its bytes exactly if the
calls are harmless. -/
theorem copy_loop_sent (hrs : .upto 0 ∉ rs)
    (h : copy_loop false rs ws src dst pos = .ret (true, dst')) :
    ∃ sent, dst' = dst.write pos sent ∧ sent.length = src.length ∧
      (sent = src ↔ Harmless rs ws src) := by
  induction rs generalizing ws src dst pos with
  | nil => cases h
  | cons r rs ih =>
    have hrest : .upto 0 ∉ rs := fun hmem => hrs (List.mem_cons_of_mem _ hmem)
    by_cases herr : r = .err
    · subst herr
      simp [copy_loop] at h
    by_cases hintr : r = .eintr
    · subst hintr
      obtain ⟨sent, hdst, hlen, hiff⟩ := ih hrest h
      refine ⟨sent, hdst, hlen, hiff.trans ?_⟩
      show _ ↔ HarmlessBlock (src.take 0) ws 0 ∧ Harmless rs (after_block ws 0) (src.drop 0)
      rw [after_block_zero, List.drop_zero]
      exact ⟨fun h => ⟨harmlessBlock_zero ws, h⟩, fun h => h.2⟩
    -- A read that brings nothing is the end of the file, since upto 0 is left out.
    have hend := read_end herr hintr (fun heq => hrs (heq ▸ List.mem_cons_self)) src
    rw [copy_loop_cons herr hintr] at h
    have hle : r.amount (min BUFFER src.length) ≤ src.length :=
      Nat.le_trans (IoRes.amount_le r _) (Nat.min_le_right _ _)
    simp only [Bool.false_eq_true, if_false] at h
    rw [Harmless]
    generalize r.amount (min BUFFER src.length) = k at h hle hend
    split_ifs at h with hzero
    · simp only [Exec.ret.injEq, Prod.mk.injEq, true_and] at h
      have hnil : src = [] := hend hzero
      subst hnil hzero
      refine ⟨[], by rw [Store.write_nil, h], rfl, ?_⟩
      simp only [List.take_nil, harmlessBlock_zero, after_block_zero, List.drop_nil, true_and,
        true_iff]
      exact harmless_end rs ws
    · obtain ⟨⟨ok, dst₁, pos₁, ws₁⟩, hwrite, h⟩ := Exec.bind_eq_ret.mp h
      have htake : (src.take k).length = k := by
        rw [List.length_take]
        omega
      simp only at h
      split_ifs at h with htrue
      · subst htrue
        obtain ⟨sent, hdst, hsent, hpos, hws, hiff⟩ := write_loop_sent (by omega) hwrite
        subst hpos hws
        obtain ⟨sent', hdst', hsent', hiff'⟩ := ih hrest h
        -- The block and the rest of the file are right one by one exactly if they are right
        -- together.
        rw [htake, Nat.sub_self, List.drop_zero] at hiff
        refine ⟨sent ++ sent', ?_, ?_, ?_⟩
        · rw [hdst', hdst, ← Store.write_write, hsent]
        · rw [List.length_append, hsent, hsent', List.length_drop]
          omega
        · rw [← hiff, ← hiff']
          conv_lhs => rw [← List.take_append_drop k src]
          constructor
          · intro heq
            exact List.append_inj heq (by rw [hsent, htake])
          · rintro ⟨rfl, rfl⟩
            rfl
      · simp at h

end Blocks

/-! ## Calls cut off -/

section Prefix

variable {block src : List UInt8} {rs rs' ws ws' : List IoRes} {left : ℕ}

/-- Without a write, no harm is done. -/
theorem harmless_no_writes (rs : List IoRes) (src : List UInt8) : Harmless rs [] src := by
  induction rs generalizing src with
  | nil => trivial
  | cons r rs ih =>
    rw [Harmless, after_block_nil]
    exact ⟨harmlessBlock_nil _, ih _⟩

/-- What does no harm did none so far. -/
theorem harmlessBlock_prefix (h : HarmlessBlock block (ws ++ ws') left) :
    HarmlessBlock block ws left ∧
      (after_block (ws ++ ws') left = after_block ws left ++ ws' ∨ after_block ws left = []) := by
  induction ws generalizing left with
  | nil => exact ⟨harmlessBlock_nil left, .inr (after_block_nil left)⟩
  | cons w ws ih =>
    cases left with
    | zero => exact ⟨harmlessBlock_zero _, .inl rfl⟩
    | succ left =>
      rw [List.cons_append, HarmlessBlock] at h
      obtain ⟨hrest, hafter⟩ := ih h.2
      exact ⟨⟨h.1, hrest⟩, hafter⟩

/-- Calls that are harmless are so as far as they go. -/
theorem harmless_prefix (h : Harmless (rs ++ rs') (ws ++ ws') src) : Harmless rs ws src := by
  induction rs generalizing ws src with
  | nil => trivial
  | cons r rs ih =>
    rw [List.cons_append, Harmless] at h
    rw [Harmless]
    obtain ⟨hblock, hafter⟩ := harmlessBlock_prefix h.1
    refine ⟨hblock, ?_⟩
    rcases hafter with happend | hnone
    · rw [happend] at h
      exact ih h.2
    · rw [hnone]
      exact harmless_no_writes _ _

end Prefix

/-! ## It ends -/

section Ends

variable {block src : List UInt8}

/-- A block gets written, in the same way whatever calls come after it. -/
theorem write_loop_ends (c : WriteCalls) {left : ℕ} (hleft : left ≤ block.length) :
    ∃ n sent, sent.length = left ∧ ∀ ws dst pos,
      write_loop block (c.first n ++ ws) left dst pos
        = .ret (true, dst.write pos sent, pos + left, ws) := by
  induction left using Nat.strong_induction_on generalizing c with
  | _ left ih =>
    cases left with
    | zero =>
      refine ⟨0, [], rfl, fun ws dst pos => ?_⟩
      rw [WriteCalls.first_zero, List.nil_append, Nat.add_zero, Store.write_nil]
      cases ws <;> rfl
    | succ left =>
      -- Calls that write nothing are skipped, one after the other; there are only so many of them.
      induction c using WriteCalls.induct with
      | call c hintr hzero =>
        -- A call that does not fail and writes something makes the rest shorter.
        have hpos : 0 < (c.outcome 0).amount (left + 1) := by
          cases hc : c.outcome 0 with
          | all => exact Nat.succ_pos left
          | upto m =>
            have hm : m ≠ 0 := fun h => hzero (by rw [hc, h])
            rw [IoRes.amount]
            omega
          | eintr => exact absurd hc hintr
          | err => exact absurd hc (c.noErr 0)
        have hle := IoRes.amount_le (c.outcome 0) (left + 1)
        have hwrite : ∀ ws dst pos, write_loop block (c.outcome 0 :: ws) (left + 1) dst pos =
            let tmp := (c.outcome 0).amount (left + 1)
            write_loop block ws (left + 1 - tmp) (dst.write pos (block.take tmp)) (pos + tmp) := by
          intro ws dst pos
          rw [write_loop]
          · exact c.noErr 0
          · exact hintr
        simp only at hwrite
        generalize (c.outcome 0).amount (left + 1) = k at hpos hle hwrite
        have htake : (block.take k).length = k := by
          rw [List.length_take]
          omega
        obtain ⟨n, sent, hlen, hn⟩ := ih (left + 1 - k) (by omega) (c.after 1) (by omega)
        refine ⟨n + 1, block.take k ++ sent, ?_, fun ws dst pos => ?_⟩
        · rw [List.length_append, htake, hlen]
          omega
        · rw [WriteCalls.first_succ, List.cons_append, hwrite, hn, ← Store.write_write, htake,
            show pos + k + (left + 1 - k) = pos + (left + 1) by omega]
      | skip c hskip hc =>
        obtain ⟨n, sent, hlen, hn⟩ := hc
        refine ⟨n + 1, sent, hlen, fun ws dst pos => ?_⟩
        rw [WriteCalls.first_succ, List.cons_append]
        rcases hskip with h | h
        · rw [h, write_loop]
          exact hn ws dst pos
        · rw [h, write_loop]
          · simp only [IoRes.amount, Nat.zero_min, Nat.sub_zero, List.take_zero, Store.write_nil,
              Nat.add_zero]
            exact hn ws dst pos
          · exact IoRes.noConfusion
          · exact IoRes.noConfusion

/-- So does the file, and the test run leaves the destination as it was. -/
theorem copy_loop_ends (reads : Calls) (writes : WriteCalls) (src : List UInt8) :
    ∃ n m sent, ∀ rs ws dst pos,
      copy_loop false (reads.first n ++ rs) (writes.first m ++ ws) src dst pos
        = .ret (true, dst.write pos sent) ∧
      copy_loop true (reads.first n ++ rs) ws src dst pos = .ret (true, dst) := by
  induction hlen : src.length using Nat.strong_induction_on generalizing src reads writes with
  | _ len ih =>
    induction reads using Calls.induct with
    | call reads hintr =>
      have herr := reads.noErr 0
      have hle : (reads.outcome 0).amount (min BUFFER src.length) ≤ src.length :=
        Nat.le_trans (IoRes.amount_le _ _) (Nat.min_le_right _ _)
      obtain ⟨k, hk⟩ : ∃ k, (reads.outcome 0).amount (min BUFFER src.length) = k := ⟨_, rfl⟩
      rw [hk] at hle
      -- A read of nothing is the end of the file, and no call of `write` is made.
      by_cases hzero : k = 0
      · refine ⟨1, 0, [], fun rs ws dst pos => ?_⟩
        rw [Calls.first_succ, Calls.first_zero, List.cons_append, copy_loop_cons herr hintr,
          copy_loop_cons herr hintr, Store.write_nil]
        simp only [hk, if_pos hzero, and_self]
      · have htake : (src.take k).length = k := by
          rw [List.length_take]
          omega
        obtain ⟨n₁, sent, hsent, hblock⟩ :=
          write_loop_ends writes (show k ≤ (src.take k).length by omega)
        obtain ⟨n, m, sent', hrest⟩ := ih (src.drop k).length (by rw [List.length_drop]; omega)
          (reads.after 1) (writes.after n₁) _ rfl
        refine ⟨n + 1, n₁ + m, sent ++ sent', fun rs ws dst pos => ?_⟩
        rw [Calls.first_succ, List.cons_append, copy_loop_cons herr hintr,
          copy_loop_cons herr hintr]
        simp only [hk]
        rw [if_neg hzero, if_neg hzero, if_neg (by decide), if_pos trivial, WriteCalls.first_add,
          List.append_assoc, hblock]
        refine ⟨?_, (hrest rs ws dst pos).2⟩
        rw [← Store.write_write, hsent]
        exact (hrest rs ws (dst.write pos sent) (pos + k)).1
    | skip reads hintr hreads =>
      obtain ⟨n, m, sent, hrun⟩ := hreads
      refine ⟨n + 1, m, sent, fun rs ws dst pos => ?_⟩
      rw [Calls.first_succ, List.cons_append, hintr]
      exact hrun rs ws dst pos

end Ends

/-! ## When the copy is exact -/

/-- The bytes of `src` are at `off`, and everything else is as it was. -/
structure Copied (dst : Store) (off : ℕ) (src : List UInt8) (dst' : Store) : Prop where
  inside : dst'.read off src.length = src
  outside : ∀ p, p < off ∨ off + src.length ≤ p → dst' p = dst p

/-- A copy is right if what was sent is the source. -/
theorem copied_write_iff {dst : Store} {off : ℕ} {src sent : List UInt8}
    (hlen : sent.length = src.length) : Copied dst off src (dst.write off sent) ↔ sent = src := by
  constructor
  · intro h
    have hread := h.inside
    rwa [← hlen, Store.read_write_self] at hread
  · rintro rfl
    exact ⟨Store.read_write_self _ _ _, fun p hp => Store.write_apply_of_outside hp⟩

section Exact

variable {reads : Calls} {writes : WriteCalls} {src : List UInt8} {offset : Int} {dst : Store}

/-- The run of `write_raw_image` on these calls ends with 0 and an exact copy. -/
def CopiesExactly (reads : Calls) (writes : WriteCalls) (src : List UInt8) (offset : Int)
    (dst : Store) : Prop :=
  ∃ n m dst', (∀ rs ws, write_raw_image false ⟨true, true, reads.first n ++ rs,
      writes.first m ++ ws⟩ dst (some src) offset = .ret (0, dst')) ∧
    Copied dst offset.toNat src dst'

/-- `write_raw_image` is the loop, where the files open and the offset is not negative. -/
theorem write_raw_image_of_copy {test : Bool} {rs ws : List IoRes} (hoffset : 0 ≤ offset) :
    write_raw_image test ⟨true, true, rs, ws⟩ dst (some src) offset =
      (copy_loop test rs ws src dst offset.toNat).bind fun r =>
        .ret (if r.1 then 0 else 1, r.2) := by
  rw [write_raw_image]
  simp only [Bool.true_eq_false, if_false, false_or, not_lt.mpr hoffset, and_false]

/-- No call transfers nothing for ever. -/
theorem upto_zero_not_mem_first (c : Calls) (n : ℕ) : .upto 0 ∉ c.first n := by
  intro h
  obtain ⟨k, -, hk⟩ := List.mem_map.mp h
  exact Nat.lt_irrefl 0 (c.moves k 0 hk)

/-- The run ends with 0, in the same way whatever calls come after these. -/
theorem write_raw_image_ends (reads : Calls) (writes : WriteCalls) (src : List UInt8)
    (hoffset : 0 ≤ offset) (dst : Store) :
    ∃ n m sent, (∀ rs ws, write_raw_image false ⟨true, true, reads.first n ++ rs,
        writes.first m ++ ws⟩ dst (some src) offset = .ret (0, dst.write offset.toNat sent)) ∧
      (∀ rs ws, write_raw_image true ⟨true, true, reads.first n ++ rs, ws⟩ dst (some src) offset
        = .ret (0, dst)) ∧
      ∀ k l, ∃ sent', dst.write offset.toNat sent = dst.write offset.toNat sent' ∧
        sent'.length = src.length ∧
        (sent' = src ↔ Harmless (reads.first (n + k)) (writes.first (m + l)) src) := by
  obtain ⟨n, m, sent, hends⟩ := copy_loop_ends reads writes src
  refine ⟨n, m, sent, fun rs ws => ?_, fun rs ws => ?_, fun k l => ?_⟩
  · rw [write_raw_image_of_copy hoffset, (hends rs ws dst offset.toNat).1]
    rfl
  · rw [write_raw_image_of_copy hoffset, (hends rs ws dst offset.toNat).2]
    rfl
  · have hcopy := (hends ((reads.after n).first k) ((writes.after m).first l) dst offset.toNat).1
    rw [← Calls.first_add, ← WriteCalls.first_add] at hcopy
    exact copy_loop_sent (upto_zero_not_mem_first reads _) hcopy

/-- The copy is exact exactly if no call does harm. -/
theorem copiesExactly_iff_harmless (reads : Calls) (writes : WriteCalls) (src : List UInt8)
    (hoffset : 0 ≤ offset) (dst : Store) :
    CopiesExactly reads writes src offset dst ↔
      ∀ n m, Harmless (reads.first n) (writes.first m) src := by
  obtain ⟨n, m, sent, hrun, -, hsent⟩ := write_raw_image_ends reads writes src hoffset dst
  constructor
  · rintro ⟨n', m', dst', hrun', hcopied⟩ k l
    -- both runs are the beginning of one
    have hsame : dst' = dst.write offset.toNat sent := by
      have hlong := hrun' ((reads.after n').first n) ((writes.after m').first m)
      rw [← Calls.first_add, ← WriteCalls.first_add, Nat.add_comm n', Nat.add_comm m',
        Calls.first_add, WriteCalls.first_add, hrun] at hlong
      injection hlong with hlong
      injection hlong with _ hlong
      exact hlong.symm
    obtain ⟨sent', hdst, hlen, hiff⟩ := hsent k l
    rw [hsame, hdst, copied_write_iff hlen, hiff, Nat.add_comm n, Nat.add_comm m, Calls.first_add,
      WriteCalls.first_add] at hcopied
    exact harmless_prefix hcopied
  · intro h
    obtain ⟨sent', hdst, hlen, hiff⟩ := hsent 0 0
    refine ⟨n, m, _, hrun, ?_⟩
    rw [hdst, copied_write_iff hlen, hiff]
    exact h _ _

/-- **`write_raw_image`, whatever its calls do short of errors**: it returns 0; it has copied the
file exactly if and only if its calls are harmless; and in test mode it writes nothing. -/
theorem write_raw_image_exact_iff (reads : Calls) (writes : WriteCalls) (src : List UInt8)
    (hoffset : 0 ≤ offset) (dst : Store) :
    (CopiesExactly reads writes src offset dst ↔
      ∀ n m, Harmless (reads.first n) (writes.first m) src) ∧
    (∃ n m dst', ∀ rs ws, write_raw_image false ⟨true, true, reads.first n ++ rs,
      writes.first m ++ ws⟩ dst (some src) offset = .ret (0, dst')) ∧
    ∃ n, ∀ rs ws, write_raw_image true ⟨true, true, reads.first n ++ rs, ws⟩ dst (some src) offset
      = .ret (0, dst) := by
  obtain ⟨n, m, sent, hrun, htest, -⟩ := write_raw_image_ends reads writes src hoffset dst
  exact ⟨copiesExactly_iff_harmless reads writes src hoffset dst, ⟨n, m, _, hrun⟩, ⟨n, htest⟩⟩

end Exact

/-! ## A write that is split -/

section Examples

/-- Two bytes of which the first `write` takes one. -/
def split : WriteCalls where
  outcome k := if k = 0 then .upto 1 else .all
  noErr k := by
    split_ifs
    · exact IoRes.noConfusion
    · exact IoRes.noConfusion
  moves k := ⟨k + 1, Nat.le_succ k, by simp⟩

/-- If the two bytes are the same, the copy is exact. -/
theorem split_same_bytes_exact :
    (CopiesExactly .all split [7, 7] 512 (fun _ => 0) ↔
      ∀ n m, Harmless (Calls.all.first n) (split.first m) [7, 7]) ∧
    (∃ n m dst', ∀ rs ws, write_raw_image false ⟨true, true, Calls.all.first n ++ rs,
      split.first m ++ ws⟩ (fun _ => 0) (some [7, 7]) 512 = .ret (0, dst')) ∧
    ∃ n, ∀ rs ws, write_raw_image true ⟨true, true, Calls.all.first n ++ rs, ws⟩ (fun _ => 0)
      (some [7, 7]) 512 = .ret (0, fun _ => 0) :=
  write_raw_image_exact_iff .all split [7, 7] (by decide) _

/-- If they are not, the first one is copied twice. -/
theorem split_not_exact : ¬ CopiesExactly .all split [1, 2] 512 (fun _ => 0) := by
  intro h
  have hharmless := (copiesExactly_iff_harmless .all split [1, 2] (by decide) _).mp h 1 2
  have hsecond : ([1, 2] : List UInt8).take 1 = ([1, 2].drop 1).take 1 := hharmless.1.2.1
  exact absurd hsecond (by decide)

end Examples

end EditDiskLbl

end Iago
