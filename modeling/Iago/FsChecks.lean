/-
The file system checks, and what they make of a wait status.

`execute_command` passes on `WEXITSTATUS` of what `system` returns, whether the command
exited or not: death by a signal has the exit code 0 there. The recheck of
`vfat_filesystem_checks` is a `continue` in a `do … while (0)`, and that goes to the
condition: it ends the loop, and the function returns as it does after a clean check.

The condition of that loop is a parameter here, so that the loop the counter and the message
speak of (`again`) can be compared with the one that is there.
-/
import Iago.Options

set_option autoImplicit false

namespace Iago

namespace FsChecks

/-! ## Wait statuses -/

/-- What `system` returns for a command: the exit code, the signal that killed it and
whether it left a core, or an error of `system` itself. -/
inductive WaitStatus where
  | exited (code : UInt8)
  | signaled (sig : {n : ℕ // 0 < n ∧ n < 127}) (core : Bool)
  | failed
  deriving DecidableEq

/-- As an `int`. -/
def WaitStatus.toInt : WaitStatus → ℤ
  | .exited code => code.toNat * 256
  | .signaled sig core => sig.val + if core then 128 else 0
  | .failed => -1

/-- Killed by a signal. -/
def WaitStatus.Signaled (status : WaitStatus) : Prop := ∃ sig core, status = .signaled sig core

/-- `WEXITSTATUS`. -/
def WEXITSTATUS (status : ℤ) : ℤ := status / 256 % 256

/-- Why a check dies. -/
inductive FsckDie where
  | no_shell
  | not_fat
  | too_many_rechecks
  | unknown_exit_code (rv : ℤ)
  | volume_size
  | fsck (device : CStr)
  | resize (length : UInt64)
  | tune2fs
  deriving DecidableEq

/-- What it says. -/
def FsckDie.message : FsckDie → CStr
  | no_shell => cstr "Shell not available in this context"
  | not_fat => cstr "Filesystem check failed (not a FAT filesystem)"
  | too_many_rechecks => cstr "Failing check after too many rechecks"
  | unknown_exit_code rv =>
    cstr "Filesystem check failed (unknown exit code " ++ decInt rv ++ cstr ")"
  | volume_size => cstr "BLKGETSIZE64"
  | fsck device => cstr "fsck of filesystem " ++ device ++ cstr " failed\n"
  | resize length => cstr "could not resize filesystem to " ++ dec (length >>> 10).toNat ++ cstr "K"
  | tune2fs => cstr "tune2fs failed\n"

/-- `execute_command`, of a command that `system` gives this status. -/
def execute_command (shell : Bool) (status : WaitStatus) : Except FsckDie ℤ :=
  if ¬ shell then .error .no_shell
  else if status.toInt < 0 then .ok status.toInt
  else .ok (WEXITSTATUS status.toInt)

/-- A command that was run, and how it ended. -/
structure Ran where
  command : CStr
  status : WaitStatus

/-- How a check ended, after which commands. -/
structure Checked where
  ran : List Ran
  result : Except FsckDie Unit

/-! ## The two checks -/

def FSCK_MSDOS_BIN : CStr := cstr "/system/bin/fsck_msdos"

/-- The command of `vfat_filesystem_checks`; there is no space behind the name. -/
def fsck_msdos_command (device : CStr) : CStr := FSCK_MSDOS_BIN ++ cstr "-p -f " ++ device

/-- The loop of `vfat_filesystem_checks`, `while (again)`. -/
def vfat_loop (shell : Bool) (device : CStr) (again : Bool) (system : ℕ → WaitStatus) (pass : ℕ)
    (ran : List Ran) : Checked :=
  let status := system ran.length
  match execute_command shell status with
  | .error e => ⟨ran, .error e⟩
  | .ok rv =>
    let ran := ran ++ [⟨fsck_msdos_command device, status⟩]
    if rv = 0 then ⟨ran, .ok ()⟩
    else if rv = 2 then ⟨ran, .error .not_fat⟩
    else if rv = 4 then
      if pass ≤ 3 then
        -- `continue` in a do-while goes to the loop condition
        if again then vfat_loop shell device again system (pass + 1) ran else ⟨ran, .ok ()⟩
      else ⟨ran, .error .too_many_rechecks⟩
    else ⟨ran, .error (.unknown_exit_code rv)⟩
  termination_by 4 - pass

/-- `vfat_filesystem_checks`: the condition of its loop is 0. -/
def vfat_filesystem_checks (shell : Bool) (device : CStr) (system : ℕ → WaitStatus) : Checked :=
  vfat_loop shell device false system 1 []

/-- `ext4_filesystem_checks`; `volume_size` is what `BLKGETSIZE64` says, if it says anything. -/
def ext4_filesystem_checks (shell : Bool) (device : CStr) (footer : UInt64)
    (volume_size : Option UInt64) (system : ℕ → WaitStatus) : Checked :=
  let e2fsck : Ran := ⟨cstr "/system/bin/e2fsck -C 0 -fn " ++ device, system 0⟩
  match execute_command shell (system 0) with
  | .error e => ⟨[], .error e⟩
  | .ok ret =>
    if ret ≠ 0 then ⟨[e2fsck], .error (.fsck device)⟩
    else
      match volume_size with
      | none => ⟨[e2fsck], .error .volume_size⟩
      | some size =>
        -- In 64 bits, and not compared with the footer first.
        let length := size - footer
        let resize2fs : Ran := ⟨cstr "/system/bin/resize2fs -f -F " ++ device ++ cstr " " ++
          dec (length >>> 10).toNat ++ cstr "K", system 1⟩
        match execute_command shell (system 1) with
        | .error e => ⟨[e2fsck], .error e⟩
        | .ok ret =>
          if ret ≠ 0 then ⟨[e2fsck, resize2fs], .error (.resize length)⟩
          else
            let tune2fs : Ran := ⟨cstr "/system/bin/tune2fs -C 1 " ++ device, system 2⟩
            match execute_command shell (system 2) with
            | .error e => ⟨[e2fsck, resize2fs], .error e⟩
            | .ok ret =>
              if ret ≠ 0 then ⟨[e2fsck, resize2fs, tune2fs], .error .tune2fs⟩
              else ⟨[e2fsck, resize2fs, tune2fs], .ok ()⟩

/-! ## What the callers see of a status -/

/-- An exit code is passed on, a signal is passed on as 0, and an error as -1. -/
def WaitStatus.seen : WaitStatus → ℤ
  | .exited code => code.toNat
  | .signaled _ _ => 0
  | .failed => -1

/-- Where there is a shell, a command returns what `WEXITSTATUS` makes of its status. -/
theorem execute_command_eq (status : WaitStatus) :
    execute_command true status = .ok status.seen := by
  rw [execute_command, if_neg (by decide)]
  cases status with
  | exited code =>
    have hlt := code.toNat_lt
    have hnonneg : ¬ (code.toNat * 256 : ℤ) < 0 := by omega
    rw [WaitStatus.toInt, if_neg hnonneg, WEXITSTATUS, WaitStatus.seen]
    congr 1
    omega
  | signaled sig core =>
    obtain ⟨n, hpos, hlt⟩ := sig
    rw [WaitStatus.toInt, WaitStatus.seen]
    -- The flag for the core dump is bit 7, below what WEXITSTATUS reads.
    cases core with
    | true =>
      have hnonneg : ¬ ((n : ℤ) + if true then 128 else 0) < 0 := by
        simp only [if_true]
        omega
      rw [if_neg hnonneg, WEXITSTATUS]
      congr 1
      simp only [if_true]
      omega
    | false =>
      have hnonneg : ¬ ((n : ℤ) + if false then 128 else 0) < 0 := by
        simp only [Bool.false_eq_true, if_false]
        omega
      rw [if_neg hnonneg, WEXITSTATUS]
      congr 1
      simp only [Bool.false_eq_true, if_false]
      omega
  | failed => rfl

/-- A status is seen as 0 when the command exited with 0, and when a signal killed it. -/
theorem seen_eq_zero {status : WaitStatus} :
    status.seen = 0 ↔ status = .exited 0 ∨ status.Signaled := by
  cases status with
  | exited code =>
    constructor
    · intro h
      have hcode : code.toNat = 0 := Int.ofNat.inj h
      left
      rw [show code = 0 from UInt8.toNat_inj.mp hcode]
    · rintro (h | ⟨_, _, h⟩)
      · injection h with h
        rw [h]
        rfl
      · cases h
  | signaled sig core => exact ⟨fun _ => .inr ⟨sig, core, rfl⟩, fun _ => rfl⟩
  | failed =>
    constructor
    · intro h
      exact absurd h (by decide)
    · rintro (h | ⟨_, _, h⟩)
      · cases h
      · cases h

/-- Of the other numbers, each code is seen as itself only. -/
theorem seen_eq_code {status : WaitStatus} {code : UInt8} (hcode : code ≠ 0) :
    status.seen = code.toNat ↔ status = .exited code := by
  have hpos : code.toNat ≠ 0 := fun h => hcode (UInt8.toNat_inj.mp h)
  constructor
  · intro h
    cases status with
    | exited code' => rw [UInt8.toNat_inj.mp (Int.ofNat.inj h)]
    | signaled sig core => exact absurd (Int.ofNat.inj h).symm hpos
    | failed =>
      rw [WaitStatus.seen] at h
      omega
  · rintro rfl
    rfl

/-- That is 4 for one status only. -/
theorem seen_eq_four {status : WaitStatus} : status.seen = 4 ↔ status = .exited 4 := by
  have hfour : (4 : UInt8) ≠ 0 := by decide
  exact seen_eq_code hfour

/-! ## Swallowing nothing -/

/-- A check of a FAT file system swallows nothing: it returns only after a clean run, and
of the first three runs each that ended with exit code 4 was followed by another. -/
structure VfatRight (c : Checked) : Prop where
  clean : c.result = .ok () → ∃ r, c.ran.getLast? = some r ∧ r.status = .exited 0
  rechecks : ∀ k < 3, ∀ r, c.ran[k]? = some r → r.status = .exited 4 → k + 1 < c.ran.length

/-- A check of an ext4 file system swallows nothing. -/
def Ext4Right (c : Checked) : Prop := c.result = .ok () → ∀ r ∈ c.ran, r.status = .exited 0

/-- After a last run `r`, it is that run that decides. -/
theorem vfatRight_of_last {ran : List Ran} {r : Ran} {result : Except FsckDie Unit}
    (hclean : result = .ok () → r.status = .exited 0)
    (hlast : r.status = .exited 4 → 3 ≤ ran.length) : VfatRight ⟨ran ++ [r], result⟩ := by
  constructor
  · intro h
    exact ⟨r, List.getLast?_concat, hclean h⟩
  · intro k hk r' hr' hfour
    rw [List.length_append, List.length_singleton]
    by_cases hin : k < ran.length
    · omega
    · -- `r` is the run with this number
      exfalso
      rw [List.getElem?_append_right (Nat.le_of_not_lt hin)] at hr'
      have hzero : k - ran.length = 0 := by
        have hlt := (List.getElem?_eq_some_iff.mp hr').1
        rw [List.length_singleton] at hlt
        omega
      rw [hzero] at hr'
      injection hr' with hr'
      have hlen := hlast (hr' ▸ hfour)
      omega

/-- The loop that goes on after a `continue`: whatever the commands exit with, nothing is
swallowed, unless one is killed. The pass is one more than the runs that were made. -/
theorem vfat_loop_again (device : CStr) (system : ℕ → WaitStatus)
    (hnone : ∀ k, ¬ (system k).Signaled) (pass : ℕ) (ran : List Ran)
    (hpass : pass = ran.length + 1) :
    VfatRight (vfat_loop true device true system pass ran) := by
  obtain ⟨n, hn⟩ : ∃ n, 4 - pass = n := ⟨_, rfl⟩
  induction n generalizing pass ran with
  | zero =>
    -- the counter is used up
    rw [vfat_loop, execute_command_eq]
    simp only
    split
    · rename_i h0
      have hexit := (seen_eq_zero.mp h0).resolve_right (hnone _)
      exact vfatRight_of_last (fun _ => hexit) fun _ => by omega
    · split
      · exact vfatRight_of_last (fun h => by cases h) fun _ => by omega
      · split
        · rw [if_neg (by omega)]
          exact vfatRight_of_last (fun h => by cases h) fun _ => by omega
        · exact vfatRight_of_last (fun h => by cases h) fun _ => by omega
  | succ n ih =>
    rw [vfat_loop, execute_command_eq]
    simp only
    split
    · rename_i h0
      have hexit := (seen_eq_zero.mp h0).resolve_right (hnone _)
      refine vfatRight_of_last (fun _ => hexit) fun hfour => ?_
      rw [seen_eq_four.mpr hfour] at h0
      exact absurd h0 (by decide)
    · split
      · rename_i h2
        refine vfatRight_of_last (fun h => by cases h) fun hfour => ?_
        rw [seen_eq_four.mpr hfour] at h2
        exact absurd h2 (by decide)
      · split
        · rw [if_pos (by omega)]
          simp only [if_true]
          refine ih (pass + 1) _ ?_ (by omega)
          rw [List.length_append, List.length_singleton]
          omega
        · rename_i h4
          exact vfatRight_of_last (fun h => by cases h) fun hfour =>
            absurd (seen_eq_four.mpr hfour) h4

/-- The loop that is there makes one run, and takes a modified file system for a clean one. -/
theorem vfat_filesystem_checks_eq (device : CStr) (system : ℕ → WaitStatus) :
    vfat_filesystem_checks true device system =
      ⟨[⟨fsck_msdos_command device, system 0⟩],
        if (system 0).seen = 0 ∨ (system 0).seen = 4 then .ok ()
        else if (system 0).seen = 2 then .error .not_fat
        else .error (.unknown_exit_code (system 0).seen)⟩ := by
  rw [vfat_filesystem_checks, vfat_loop, List.length_nil, execute_command_eq]
  simp only [List.nil_append]
  by_cases h0 : (system 0).seen = 0
  · rw [if_pos h0, if_pos (.inl h0)]
  · by_cases h4 : (system 0).seen = 4
    · have h2 : ¬ (system 0).seen = 2 := by omega
      have hpass : 1 ≤ 3 := by decide
      rw [if_neg h0, if_neg h2, if_pos h4, if_pos hpass, if_neg Bool.false_ne_true,
        if_pos (Or.inr h4)]
    · rw [if_neg h0, if_neg h4, if_neg (not_or.mpr ⟨h0, h4⟩)]
      split
      · rfl
      · rfl

/-- **When the checks of a FAT partition do what they say.** -/
theorem vfat_right_iff (shell : Bool) (device : CStr) (system : ℕ → WaitStatus) :
    VfatRight (vfat_filesystem_checks shell device system) ↔
      (shell = true → ¬ (system 0).Signaled ∧ system 0 ≠ .exited 4) := by
  cases shell with
  | false =>
    have hnone : vfat_filesystem_checks false device system = ⟨[], .error .no_shell⟩ := by
      rw [vfat_filesystem_checks, vfat_loop]
      rfl
    rw [hnone]
    constructor
    · intro _ h
      cases h
    · intro _
      constructor
      · intro h
        cases h
      · intro k _ r hr
        cases hr
  | true =>
    rw [vfat_filesystem_checks_eq]
    constructor
    · intro hright _
      -- The loop runs once, and takes a killed child for an exit with 0.
      have hclean : (system 0).seen = 0 ∨ (system 0).seen = 4 → system 0 = .exited 0 := by
        intro h
        obtain ⟨r, hlast, hexit⟩ := hright.clean (if_pos h)
        injection hlast with hlast
        rw [← hlast] at hexit
        exact hexit
      constructor
      · intro hsig
        obtain ⟨sig, core, hstatus⟩ := hsig
        have hzero := hclean (.inl (seen_eq_zero.mpr (.inr ⟨sig, core, hstatus⟩)))
        rw [hstatus] at hzero
        cases hzero
      · intro hfour
        have hzero := hclean (.inr (seen_eq_four.mpr hfour))
        rw [hfour] at hzero
        exact absurd hzero (by decide)
    · intro hgood
      obtain ⟨hsig, hfour⟩ := hgood rfl
      refine @vfatRight_of_last [] _ _ (fun h => ?_) fun h => absurd h hfour
      -- With neither of the two, the code is what the child exited with.
      by_contra hexit
      have h0 : ¬ (system 0).seen = 0 := fun h0 =>
        (seen_eq_zero.mp h0).elim hexit hsig
      have h4 : ¬ (system 0).seen = 4 := fun h4 => hfour (seen_eq_four.mp h4)
      rw [if_neg (not_or.mpr ⟨h0, h4⟩)] at h
      split at h
      · cases h
      · cases h

/-- The ext4 check returns when the three commands are seen as 0, and then it has run them. -/
theorem ext4_returns {device : CStr} {footer : UInt64} {volume_size : Option UInt64}
    {system : ℕ → WaitStatus} :
    (ext4_filesystem_checks true device footer volume_size system).result = .ok () ↔
      volume_size ≠ none ∧ ∀ k < 3, (system k).seen = 0 := by
  unfold ext4_filesystem_checks
  simp only [execute_command_eq]
  constructor
  · intro h
    split at h
    · cases h
    · rename_i h0
      cases volume_size with
      | none => cases h
      | some size =>
        simp only at h
        split at h
        · cases h
        · rename_i h1
          split at h
          · cases h
          · rename_i h2
            refine ⟨Option.some_ne_none _, fun k hk => ?_⟩
            -- One command after the other, each seen as 0 before the next is run.
            interval_cases k
            · exact not_not.mp h0
            · exact not_not.mp h1
            · exact not_not.mp h2
  · rintro ⟨hsize, hseen⟩
    cases volume_size with
    | none => exact absurd rfl hsize
    | some size =>
      have h0 := hseen 0 (by decide)
      have h1 := hseen 1 (by decide)
      have h2 := hseen 2 (by decide)
      simp only [h0, h1, h2, ne_eq, not_true_eq_false, if_false]

/-- Checks that succeed have seen these statuses. -/
theorem ext4_statuses {device : CStr} {footer : UInt64} {volume_size : Option UInt64}
    {system : ℕ → WaitStatus}
    (h : (ext4_filesystem_checks true device footer volume_size system).result = .ok ()) :
    (ext4_filesystem_checks true device footer volume_size system).ran.map Ran.status =
      [system 0, system 1, system 2] := by
  obtain ⟨hsize, hseen⟩ := ext4_returns.mp h
  cases volume_size with
  | none => exact absurd rfl hsize
  | some size =>
    have h0 := hseen 0 (by decide)
    have h1 := hseen 1 (by decide)
    have h2 := hseen 2 (by decide)
    unfold ext4_filesystem_checks
    simp only [execute_command_eq, h0, h1, h2, ne_eq, not_true_eq_false, if_false, List.map_cons, List.map_nil]

/-- **When those of an ext4 partition do.** -/
theorem ext4_right_iff (shell : Bool) (device : CStr) (footer : UInt64)
    (volume_size : Option UInt64) (system : ℕ → WaitStatus) :
    Ext4Right (ext4_filesystem_checks shell device footer volume_size system) ↔
      (shell = true → volume_size ≠ none →
        (∀ k < 3, system k = .exited 0 ∨ (system k).Signaled) →
          ∀ k < 3, ¬ (system k).Signaled) := by
  cases shell with
  | false =>
    constructor
    · intro _ h
      cases h
    · intro _ h
      cases h
  | true =>
    constructor
    · intro hright _ hsize hseen k hk hsig
      have hret : (ext4_filesystem_checks true device footer volume_size system).result = .ok () :=
        ext4_returns.mpr ⟨hsize, fun k hk => seen_eq_zero.mpr (hseen k hk)⟩
      -- A child that was killed is seen as exited with 0, and the run goes on.
      have hmem : system k ∈ [system 0, system 1, system 2] := by
        interval_cases k <;> simp
      rw [← ext4_statuses hret] at hmem
      obtain ⟨r, hr, hstatus⟩ := List.mem_map.mp hmem
      have hzero := hright hret r hr
      obtain ⟨sig, core, hsig⟩ := hsig
      rw [hstatus, hsig] at hzero
      cases hzero
    · intro hgood hret r hr
      obtain ⟨hsize, hseen⟩ := ext4_returns.mp hret
      have hcases : ∀ k < 3, system k = .exited 0 ∨ (system k).Signaled := fun k hk =>
        seen_eq_zero.mp (hseen k hk)
      have hnone := hgood rfl hsize hcases
      have hexit : ∀ k < 3, system k = .exited 0 := fun k hk =>
        (hcases k hk).resolve_right (hnone k hk)
      have hmem := List.mem_map_of_mem (f := Ran.status) hr
      rw [ext4_statuses hret, hexit 0 (by decide), hexit 1 (by decide), hexit 2 (by decide)] at hmem
      simpa using hmem

/-- **The two checks swallow nothing exactly if** `fsck_msdos` is neither killed nor exits
with 4, and no command of the ext4 check is killed when the others succeed. -/
theorem filesystem_checks_iff (shell : Bool) (device : CStr) (footer : UInt64)
    (volume_size : Option UInt64) (vfat ext4 : ℕ → WaitStatus) :
    VfatRight (vfat_filesystem_checks shell device vfat) ∧
        Ext4Right (ext4_filesystem_checks shell device footer volume_size ext4) ↔
      (shell = true → ¬ (vfat 0).Signaled ∧ vfat 0 ≠ .exited 4) ∧
        (shell = true → volume_size ≠ none →
          (∀ k < 3, ext4 k = .exited 0 ∨ (ext4 k).Signaled) → ∀ k < 3, ¬ (ext4 k).Signaled) := by
  rw [vfat_right_iff, ext4_right_iff]

/-- A file system that `fsck_msdos` modified is not checked again, and an `e2fsck` that was
killed counts as a clean check. -/
theorem modified_not_rechecked :
    (vfat_filesystem_checks true (cstr "/dev/block/sda1") fun _ => .exited 4).result = .ok () ∧
      (vfat_filesystem_checks true (cstr "/dev/block/sda1") fun _ => .exited 4).ran.length = 1 ∧
      ¬ VfatRight (vfat_filesystem_checks true (cstr "/dev/block/sda1") fun _ => .exited 4) ∧
      ¬ Ext4Right (ext4_filesystem_checks true (cstr "/dev/block/sda2") 0 (some 1048576)
        fun k => if k = 0 then .signaled ⟨9, by decide⟩ false else .exited 0) := by
  refine ⟨?_, ?_, ?_, ?_⟩
  · rw [vfat_filesystem_checks_eq]
    rfl
  · rw [vfat_filesystem_checks_eq]
    rfl
  · rw [vfat_right_iff]
    intro h
    exact (h rfl).2 rfl
  · intro h
    have hexit := h rfl _ List.mem_cons_self
    cases hexit

end FsChecks

end Iago
