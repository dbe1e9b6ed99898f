/-
Copying files and devices: `robust_read`, `xwrite` and `__dd` of the installer.

The installer has its own `robust_read`. It dies on an error where the library's
returns -1, and it is the same otherwise, down to the `do … while (count && !short_ok)`
in which `continue` goes to the condition. `__dd` calls it with `short_ok`, so that one
`read` is enough, and takes 0 bytes for the end of the file. But with `short_ok` the
condition is false whatever happened, also after a `read` that was interrupted, and
then 0 bytes is what `robust_read` has to show for it.

So a signal during a `read` ends the copy, and nothing says that it is short. The
writing half retries, keeps its place, and has no such way out. `copies_iff` is the
whole story: a copy is complete exactly if no `read` is interrupted before the end of
the source.
-/
import Iago.Calls
import Iago.Options

set_option autoImplicit false

namespace Iago

/-! ## The file that is written -/

/-- A file or device to be opened for writing. -/
structure File where
  bytes : List UInt8
  /-- a regular file, which `O_TRUNC` empties, not a device -/
  regular : Bool

/-- A descriptor open for writing, which nothing else moves: what the file holds, and
where the next `write` goes. -/
structure Dest where
  bytes : List UInt8
  pos : ℕ
  pos_le : pos ≤ bytes.length

/-- Writing `bs` at the position of the descriptor. -/
def Dest.put (f : Dest) (bs : List UInt8) : Dest where
  bytes := f.bytes.take f.pos ++ bs ++ f.bytes.drop (f.pos + bs.length)
  pos := f.pos + bs.length
  pos_le := by
    have := f.pos_le
    simp only [List.length_append, List.length_take, List.length_drop]
    omega

namespace Dest

@[ext] theorem ext' {f f' : Dest} (hbytes : f.bytes = f'.bytes) (hpos : f.pos = f'.pos) :
    f = f' := by
  obtain ⟨bytes, pos, hle⟩ := f
  obtain ⟨bytes', pos', hle'⟩ := f'
  simp only at hbytes hpos
  subst hbytes hpos
  rfl

@[simp] theorem put_nil (f : Dest) : f.put [] = f := by
  apply Dest.ext'
  · simp [put]
  · rfl

/-- Two writes are one: the second goes where the first stopped. -/
theorem put_put (f : Dest) (as bs : List UInt8) : (f.put as).put bs = f.put (as ++ bs) := by
  have hpos := f.pos_le
  have htake : (f.bytes.take f.pos).length = f.pos := by
    rw [List.length_take, Nat.min_eq_left hpos]
  apply Dest.ext'
  · show (f.bytes.take f.pos ++ as ++ f.bytes.drop (f.pos + as.length)).take (f.pos + as.length)
        ++ bs ++ (f.bytes.take f.pos ++ as ++ f.bytes.drop (f.pos + as.length)).drop
          (f.pos + as.length + bs.length)
      = f.bytes.take f.pos ++ (as ++ bs) ++ f.bytes.drop (f.pos + (as ++ bs).length)
    have hlen : (f.bytes.take f.pos ++ as).length = f.pos + as.length := by
      rw [List.length_append, htake]
    rw [List.take_append_of_le_length (by omega), List.take_of_length_le (by omega),
      List.drop_append, List.drop_of_length_le (by omega), hlen, List.drop_drop,
      List.length_append, List.nil_append, List.append_assoc (f.bytes.take f.pos) as bs]
    congr 2
    omega
  · show f.pos + as.length + bs.length = f.pos + (as ++ bs).length
    rw [List.length_append, Nat.add_assoc]

end Dest

namespace Util

/-- `xopen` of the destination with the flags of `__dd`: a file that does not exist is
created under `O_CREAT`; one that does is written from its end under `O_APPEND`, and is
emptied under `O_TRUNC`. -/
def xopen_dest (dest : CStr) (file : Option File) (copy_ok append : Bool) : Exec Die Dest :=
  match file with
  | none => if copy_ok then .ret ⟨[], 0, Nat.le_refl 0⟩ else .die (.open_file dest)
  | some f =>
    if append then .ret ⟨f.bytes, f.bytes.length, Nat.le_refl _⟩
    else .ret ⟨if f.regular then [] else f.bytes, 0, Nat.zero_le _⟩

/-- `robust_read` from a file of which `src` is still to come: what it has stored in
`buf`, whose length is what it returns, and what then is still to come. -/
def robust_read (short_ok : Bool) :
    List IoRes → (src : List UInt8) → (count : ℕ) → (buf : List UInt8) →
      Exec Die (List UInt8 × List UInt8 × List IoRes)
  | [], _, _, _ => .hang
  | .err :: _, _, _, _ => .die .read
  | .eintr :: rs, src, count, buf =>
    -- `continue` in a do-while goes to the loop condition
    if count ≠ 0 ∧ short_ok = false then robust_read short_ok rs src count buf
    else .ret (buf, src, rs)
  | r :: rs, src, count, buf =>
    let ret := r.amount (min count src.length)
    if count - ret ≠ 0 ∧ short_ok = false then
      robust_read short_ok rs (src.drop ret) (count - ret) (buf ++ src.take ret)
    else .ret (buf ++ src.take ret, src.drop ret, rs)

/-- `xwrite`: what it returns, and the descriptor afterwards. -/
def xwrite : List IoRes → (ofd : Dest) → (buf : List UInt8) → (total_written : ℕ) →
    Exec Die (ℕ × Dest × List IoRes)
  | ws, ofd, [], total_written => .ret (total_written, ofd, ws)
  | [], _, _ :: _, _ => .hang
  | .err :: _, _, _ :: _, _ => .die .write
  | .eintr :: ws, ofd, b :: buf, total_written => xwrite ws ofd (b :: buf) total_written
  | w :: ws, ofd, b :: buf, total_written =>
    let written := w.amount (b :: buf).length
    xwrite ws (ofd.put ((b :: buf).take written)) ((b :: buf).drop written)
      (total_written + written)

def CHUNK : ℕ := 1024 * 1024

/-- The loop of `__dd`, for `fuel` rounds at most. -/
def dd_loop : (fuel : ℕ) → (rs ws : List IoRes) → (src : List UInt8) → (ofd : Dest) →
    (total_written : ℕ) → Exec Die (ℕ × Dest)
  | 0, _, _, _, _, _ => .hang
  | fuel + 1, rs, ws, src, ofd, total_written => do
    let (buf, src, rs) ← robust_read true rs src CHUNK []
    if buf.length = 0 then .ret (total_written, ofd)
    else do
      let (written, ofd, ws) ← xwrite ws ofd buf 0
      dd_loop fuel rs ws src ofd (total_written + written)

set_option linter.style.nameCheck false in
/-- `__dd`: the number of bytes it reports, and the destination. Every round makes a
`read` call at least, so there are no more rounds than calls. -/
def __dd (rs ws : List IoRes) (src : CStr × Option (List UInt8)) (dest : CStr × Option File)
    (copy_ok append : Bool) : Exec Die (ℕ × Dest) :=
  match src.2 with
  | none => .die (.open_file src.1)
  | some bytes => do
    let ofd ← xopen_dest dest.1 dest.2 copy_ok append
    dd_loop (rs.length + 1) rs ws bytes ofd 0

/-- `dd`. -/
def dd (rs ws : List IoRes) (src : CStr × Option (List UInt8)) (dest : CStr × Option File) :
    Exec Die (ℕ × Dest) := __dd rs ws src dest false false

/-- `copy_file`. -/
def copy_file (rs ws : List IoRes) (src : CStr × Option (List UInt8))
    (dest : CStr × Option File) : Exec Die (ℕ × Dest) := __dd rs ws src dest true false

/-- `append_file`. -/
def append_file (rs ws : List IoRes) (src : CStr × Option (List UInt8))
    (dest : CStr × Option File) : Exec Die (ℕ × Dest) := __dd rs ws src dest true true

/-! ## The writing half -/

/-- `xwrite` writes its buffer, all of it and once, however the calls cut it and
whichever are interrupted. -/
theorem xwrite_ends (ofd : Dest) (buf : List UInt8) (t : ℕ) (c : Calls) :
    ∃ n, ∀ ws, xwrite (c.first n ++ ws) ofd buf t = .ret (t + buf.length, ofd.put buf, ws) := by
  induction hlen : buf.length using Nat.strong_induction_on generalizing buf ofd t c with
  | _ len ih =>
    cases buf with
    | nil =>
      refine ⟨0, fun ws => ?_⟩
      rw [Calls.first_zero, List.nil_append, Dest.put_nil, ← hlen]
      cases ws <;> rfl
    | cons b buf =>
      induction c using Calls.induct with
      | call c hcall =>
        -- A call that is not interrupted takes some bytes off the buffer.
        have hwrite : ∀ ws, xwrite (c.outcome 0 :: ws) ofd (b :: buf) t =
            let written := (c.outcome 0).amount (b :: buf).length
            xwrite ws (ofd.put ((b :: buf).take written)) ((b :: buf).drop written)
              (t + written) := by
          intro ws
          rw [xwrite]
          · exact c.noErr 0
          · exact hcall
        have hpos : 0 < (c.outcome 0).amount (b :: buf).length :=
          c.amount_pos hcall (Nat.succ_pos _)
        have hle := IoRes.amount_le (c.outcome 0) (b :: buf).length
        simp only at hwrite
        generalize (c.outcome 0).amount (b :: buf).length = k at hwrite hpos hle
        obtain ⟨n, hn⟩ := ih (len - k) (by omega) (ofd.put ((b :: buf).take k))
          ((b :: buf).drop k) (t + k) (c.after 1) (by rw [List.length_drop, hlen])
        refine ⟨n + 1, fun ws => ?_⟩
        rw [Calls.first_succ, List.cons_append, hwrite, hn, Dest.put_put, List.take_append_drop]
        congr 2
        omega
      | skip c hintr hc =>
        obtain ⟨n, hn⟩ := hc
        refine ⟨n + 1, fun ws => ?_⟩
        rw [Calls.first_succ, List.cons_append, hintr, xwrite, hn]

/-- And it counts what it has written. -/
theorem xwrite_total {ws ws' : List IoRes} {ofd ofd' : Dest} {buf : List UInt8} {t t' : ℕ}
    (h : xwrite ws ofd buf t = .ret (t', ofd', ws')) : t' = t + buf.length := by
  induction ws generalizing ofd buf t with
  | nil =>
    cases buf with
    | nil =>
      injection h with h
      injection h with h _
      exact h.symm
    | cons b buf => cases h
  | cons w ws ih =>
    cases buf with
    | nil =>
      injection h with h
      injection h with h _
      exact h.symm
    | cons b buf =>
      -- a call that transfers something
      have hstep : ∀ k, k ≤ (b :: buf).length →
          xwrite ws (ofd.put ((b :: buf).take k)) ((b :: buf).drop k) (t + k)
            = .ret (t', ofd', ws') → t' = t + (b :: buf).length := by
        intro k hk h
        have := ih h
        rw [List.length_drop] at this
        omega
      cases w with
      | err => cases h
      | eintr => exact ih h
      | all => exact hstep _ (IoRes.amount_le .all _) h
      | upto n => exact hstep _ (IoRes.amount_le (.upto n) _) h

/-! ## The reading half -/

/-- How much of `len` bytes is left after these `read` calls. -/
def bytes_left (rs : List IoRes) (len : ℕ) : ℕ :=
  rs.foldl (fun left r => left - r.amount (min CHUNK left)) len

/-- No `read` is interrupted while there is something left to read. -/
def Uninterrupted (reads : Calls) (len : ℕ) : Prop :=
  ∀ k, reads.outcome k = .eintr → bytes_left (reads.first k) len = 0

/-- A first call that is interrupted, and the calls behind it. -/
theorem uninterrupted_iff {reads : Calls} {len : ℕ} :
    Uninterrupted reads len ↔ (reads.outcome 0 = .eintr → len = 0) ∧
      Uninterrupted (reads.after 1) (len - (reads.outcome 0).amount (min CHUNK len)) := by
  constructor
  · intro h
    refine ⟨h 0, fun k hk => ?_⟩
    have hk' : reads.outcome (k + 1) = .eintr := by rwa [Nat.add_comm]
    have := h (k + 1) hk'
    rwa [Calls.first_succ, bytes_left, List.foldl_cons] at this
  · rintro ⟨h0, hrest⟩ k hk
    cases k with
    | zero => exact h0 hk
    | succ k =>
      have hk' : (reads.after 1).outcome k = .eintr := by
        show reads.outcome (1 + k) = .eintr
        rwa [Nat.add_comm]
      have := hrest k hk'
      rwa [Calls.first_succ, bytes_left, List.foldl_cons]

/-- With `short_ok` a `read` that is interrupted is the last one, and brings nothing. -/
theorem robust_read_interrupted (rs : List IoRes) (src : List UInt8) (count : ℕ) :
    robust_read true (.eintr :: rs) src count [] = .ret ([], src, rs) := by
  rw [robust_read, if_neg fun h => Bool.noConfusion h.2]

/-- So is one that brings something. -/
theorem robust_read_short {r : IoRes} (herr : r ≠ .err) (hintr : r ≠ .eintr) (rs : List IoRes)
    (src : List UInt8) (count : ℕ) :
    robust_read true (r :: rs) src count [] =
      .ret (src.take (r.amount (min count src.length)),
        src.drop (r.amount (min count src.length)), rs) := by
  rw [robust_read]
  · simp only [Bool.true_eq_false, and_false, if_false, List.nil_append]
  · exact herr
  · exact hintr

/-! ## The copy -/

/-- The round lemma: on reads that are not interrupted the loop copies what is left and
ends. A round takes at least a byte off the source, and the last one finds it empty. -/
theorem dd_loop_copies {reads writes : Calls} {src : List UInt8}
    (hreads : Uninterrupted reads src.length) (ofd : Dest) (t : ℕ) :
    ∃ m n, ∀ fuel, m ≤ fuel → dd_loop fuel (reads.first m) (writes.first n) src ofd t
      = .ret (t + src.length, ofd.put src) := by
  induction hlen : src.length using Nat.strong_induction_on
    generalizing reads writes src ofd t with
  | _ len ih =>
    have hround : ∀ fuel m ws, dd_loop (fuel + 1) (reads.first (m + 1)) ws src ofd t =
        robust_read true (reads.outcome 0 :: (reads.after 1).first m) src CHUNK [] >>=
          fun (buf, src, rs) =>
            if buf.length = 0 then .ret (t, ofd)
            else xwrite ws ofd buf 0 >>= fun (written, ofd, ws) =>
              dd_loop fuel rs ws src ofd (t + written) := by
      intro fuel m ws
      rw [Calls.first_succ]
      rfl
    by_cases hempty : src = []
    · -- the end of the file, interrupted or not
      refine ⟨1, 0, fun fuel hfuel => ?_⟩
      obtain ⟨fuel, rfl⟩ : ∃ k, fuel = k + 1 := ⟨fuel - 1, by omega⟩
      rw [hround, ← hlen]
      subst hempty
      by_cases hintr : reads.outcome 0 = .eintr
      · rw [hintr, robust_read_interrupted, Dest.put_nil]
        rfl
      · rw [robust_read_short (reads.noErr 0) hintr, List.take_nil, Dest.put_nil]
        rfl
    · obtain ⟨hfirst, hrest⟩ := uninterrupted_iff.mp hreads
      have hsrc : 0 < src.length := List.length_pos_iff.mpr hempty
      have hintr : reads.outcome 0 ≠ .eintr := fun h => by
        have := hfirst h
        omega
      have hpos : 0 < (reads.outcome 0).amount (min CHUNK src.length) :=
        reads.amount_pos hintr (by simp only [CHUNK]; omega)
      have hle := IoRes.amount_le (reads.outcome 0) (min CHUNK src.length)
      have hread := fun rs => robust_read_short (reads.noErr 0) hintr rs src CHUNK
      generalize (reads.outcome 0).amount (min CHUNK src.length) = k at hrest hpos hle hread
      have hk : (src.take k).length = k := by rw [List.length_take]; omega
      have hdrop : (src.drop k).length = src.length - k := List.length_drop
      obtain ⟨n₁, hn₁⟩ := xwrite_ends ofd (src.take k) 0 writes
      have hafter : Uninterrupted (reads.after 1) (src.drop k).length := by rwa [hdrop]
      obtain ⟨m, n₂, hloop⟩ := @ih (len - k) (by omega) _ (writes.after n₁) _ hafter
        (ofd.put (src.take k)) (t + k) (by rw [hdrop, hlen])
      refine ⟨m + 1, n₁ + n₂, fun fuel hfuel => ?_⟩
      obtain ⟨fuel, rfl⟩ : ∃ k, fuel = k + 1 := ⟨fuel - 1, by omega⟩
      rw [hround, hread, Exec.ret_bind]
      simp only
      rw [if_neg (by omega), Calls.first_add, hn₁, Exec.ret_bind]
      simp only
      rw [Nat.zero_add, hk, hloop fuel (by omega), Dest.put_put, List.take_append_drop,
        Nat.add_assoc, Nat.add_sub_cancel' (by omega)]

/-- A loop that reports the whole source was not interrupted before its end, whatever
the `write` calls did. -/
theorem uninterrupted_of_dd_loop {fuel m t : ℕ} {reads : Calls} {ws : List IoRes}
    {src : List UInt8} {ofd ofd' : Dest}
    (h : dd_loop fuel (reads.first m) ws src ofd t = .ret (t + src.length, ofd')) :
    Uninterrupted reads src.length := by
  induction fuel generalizing m t reads ws src ofd with
  | zero => cases h
  | succ fuel ih =>
    obtain ⟨⟨buf, src', rs⟩, hread, h⟩ := Exec.bind_eq_ret.mp h
    simp only at h
    cases m with
    | zero => cases hread
    | succ m =>
      rw [Calls.first_succ] at hread
      by_cases hempty : src.length = 0
      · intro k _
        rw [hempty, bytes_left]
        generalize reads.first k = rs
        induction rs with
        | nil => rfl
        | cons r rs ihr => rw [List.foldl_cons, Nat.zero_sub, ihr]
      by_cases hintr : reads.outcome 0 = .eintr
      · -- nothing was read, and so nothing more was written
        rw [hintr, robust_read_interrupted] at hread
        simp only [Exec.ret.injEq, Prod.mk.injEq] at hread
        obtain ⟨rfl, -, -⟩ := hread
        rw [if_pos List.length_nil] at h
        simp only [Exec.ret.injEq, Prod.mk.injEq] at h
        omega
      rw [robust_read_short (reads.noErr 0) hintr] at hread
      simp only [Exec.ret.injEq, Prod.mk.injEq] at hread
      obtain ⟨rfl, rfl, rfl⟩ := hread
      have hle := IoRes.amount_le (reads.outcome 0) (min CHUNK src.length)
      rw [uninterrupted_iff]
      refine ⟨fun h => absurd h hintr, ?_⟩
      generalize (reads.outcome 0).amount (min CHUNK src.length) = k at h hle ⊢
      have hk : (src.take k).length = k := by rw [List.length_take]; omega
      have hdrop : (src.drop k).length = src.length - k := List.length_drop
      by_cases hbuf : (src.take k).length = 0
      · rw [if_pos hbuf] at h
        simp only [Exec.ret.injEq, Prod.mk.injEq] at h
        omega
      rw [if_neg hbuf] at h
      obtain ⟨⟨written, ofd₁, ws'⟩, hwrite, h⟩ := Exec.bind_eq_ret.mp h
      have hwritten := xwrite_total hwrite
      simp only at h
      rw [← hdrop]
      have hsum : t + written + (src.drop k).length = t + src.length := by omega
      exact ih (hsum ▸ h)

/-! ## `dd`, `copy_file` and `append_file` -/

/-- **What a caller of the three functions relies on**: the copy comes to an end, and
the destination has the bytes of the source, all of them, in order and once. -/
def Copies (reads writes : Calls) (src dest : CStr) (bytes : List UInt8) (file : Option File)
    (copy_ok append : Bool) (ofd : Dest) : Prop :=
  ∃ m n, __dd (reads.first m) (writes.first n) (src, some bytes) (dest, file) copy_ok append
    = .ret (bytes.length, ofd.put bytes)

/-- **A copy is complete exactly if no `read` is interrupted before the end of the
source**, whichever of the three functions makes it, however the calls cut it, and
however often a `write` is interrupted. -/
theorem copies_iff (reads writes : Calls) {src dest : CStr} (bytes : List UInt8)
    {file : Option File} {copy_ok append : Bool} {ofd : Dest}
    (hopen : xopen_dest dest file copy_ok append = .ret ofd) :
    Copies reads writes src dest bytes file copy_ok append ofd ↔
      Uninterrupted reads bytes.length := by
  have hrun : ∀ m n, __dd (reads.first m) (writes.first n) (src, some bytes) (dest, file)
      copy_ok append
        = dd_loop ((reads.first m).length + 1) (reads.first m) (writes.first n) bytes ofd 0 := by
    intro m n
    simp only [__dd]
    rw [hopen, Exec.ret_bind]
  constructor
  · rintro ⟨m, n, hret⟩
    rw [hrun, ← Nat.zero_add bytes.length] at hret
    exact uninterrupted_of_dd_loop hret
  · intro hreads
    obtain ⟨m, n, hloop⟩ := @dd_loop_copies reads writes bytes hreads ofd 0
    refine ⟨m, n, ?_⟩
    rw [hrun, hloop _ (by simp [Calls.first]), Nat.zero_add]

/-! ### A signal

A file of three bytes, and a signal during the first `read`. -/

/-- The first call is interrupted. -/
def signal : Calls where
  outcome k := if k = 0 then .eintr else .all
  noErr k := by
    split_ifs
    · exact IoRes.noConfusion
    · exact IoRes.noConfusion
  moves k n h := by
    split_ifs at h
  calm k := ⟨k + 1, by omega, by rw [if_neg (by omega)]; exact IoRes.noConfusion⟩

/-- What the theorem says of a copy that a signal interrupts. -/
theorem signal_copies_iff :
    Copies signal .all (cstr "a") (cstr "b") [1, 2, 3] none true false ⟨[], 0, Nat.le_refl 0⟩ ↔
      Uninterrupted signal [1, 2, 3].length :=
  copies_iff signal .all [1, 2, 3] rfl

/-- `copy_file` ends with nothing copied. -/
theorem signal_not_copies :
    ¬ Copies signal .all (cstr "a") (cstr "b") [1, 2, 3] none true false
      ⟨[], 0, Nat.le_refl 0⟩ := by
  rintro ⟨m, n, hret⟩
  have hreads : Uninterrupted signal [1, 2, 3].length :=
    @uninterrupted_of_dd_loop _ m 0 signal _ [1, 2, 3] _ _ hret
  exact absurd (hreads 0 rfl) (by decide)

end Util

end Iago
