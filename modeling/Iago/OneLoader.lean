/-
Which boot loader is installed.

A build can have both plug-ins for a boot loader, and each asks whether to install its own. The
option `base:bootloader` decides: a plug-in that finds it set does not ask, and a plug-in that
finds it set to another loader does nothing. `only_the_chosen_act` is the second half, for every
list of plug-ins: a phase with both is a phase with the one that was chosen. It rests on the frame
of the whole phase, in which no plug-in sets the option. `main_installs_chosen` is what this
comes to for a run of `main`, from the file to the last plug-in.
-/
import Iago.DualBootSpace
import Iago.Phases

set_option autoImplicit false

namespace Iago

namespace Installer

open NewfsMsdos (within_eq_ret)

/-- Whether a plug-in does anything under these options. -/
def acts (opts : Hashmap) : Plugin → Bool
  | .gummiboot => opts BASE_BOOTLOADER = some (cstr "gummiboot")
  | .syslinux => opts BASE_BOOTLOADER = some (cstr "syslinux")
  | .userfastboot => false
  | _ => true

/-! ## Execution -/

section Acts

variable [Platform] [Qsort] {su : Setup} {fate : Fate} {s : Session} {p : Plugin} {key : CStr}

omit [Platform] [Qsort] in
/-- A key of another kind is none of the partitioner's. -/
theorem settled_of_head (hhead : key.head? ≠ some 112) (hbus : key ≠ DISK_BUS_NAME)
    (hreboot : key ≠ BASE_REBOOT) : Settled key where
  partition := by
    rintro ⟨n, f, -, heq⟩
    exact partition_key_ne hhead heq.symm
  bus := hbus
  reboot := hreboot

omit [Platform] [Qsort] in
/-- The choice of the loader is settled before the execution phase. -/
theorem settled_bootloader : Settled BASE_BOOTLOADER :=
  settled_of_head (by decide) (by decide) (by decide)

omit [Platform] [Qsort] in
/-- What a loader's plug-in reads, if the loader is another one. -/
theorem not_chosen {opts : Hashmap} {name : CStr} (hname : name ≠ cstr "none")
    (h : opts BASE_BOOTLOADER ≠ some name) :
    ∃ loader, opt opts (some (cstr "none")) BASE_BOOTLOADER = .ret loader ∧ loader ≠ name := by
  refine ⟨_, opt_some.mpr rfl, ?_⟩
  intro heq
  cases hopt : opts BASE_BOOTLOADER with
  | none =>
    rw [hopt, Option.getD_none] at heq
    exact hname heq.symm
  | some loader =>
    rw [hopt, Option.getD_some] at heq
    exact h (heq ▸ hopt)

/-- Who does not act does nothing. -/
theorem execute_idle (h : acts s.ictx.opts p = false) : p.execute su fate s = .ret s := by
  cases p with
  | gummiboot =>
    obtain ⟨loader, hopt, hne⟩ := not_chosen (by decide) (of_decide_eq_false h)
    show (Gummiboot.gummiboot_execute su.build fate s.ictx.opts s.host >>= _) = _
    rw [Gummiboot.gummiboot_execute, hopt, Exec.ret_bind, if_pos hne, Exec.ret_bind]
  | syslinux =>
    obtain ⟨loader, hopt, hne⟩ := not_chosen (by decide) (of_decide_eq_false h)
    show (Syslinux.syslinux_execute fate s.ictx.opts s.host >>= _) = _
    rw [Syslinux.syslinux_execute, hopt, Exec.ret_bind, if_pos hne, Exec.ret_bind]
  | userfastboot => rfl
  | partitioner => cases h
  | imagewriter => cases h
  | ota => cases h
  | finalizer => cases h

omit [Platform] [Qsort] in
theorem acts_congr {opts opts' : Hashmap} (h : opts' BASE_BOOTLOADER = opts BASE_BOOTLOADER) :
    acts opts' = acts opts := by
  funext p
  cases p with
  | gummiboot => simp only [acts, h]
  | syslinux => simp only [acts, h]
  | partitioner => rfl
  | imagewriter => rfl
  | ota => rfl
  | userfastboot => rfl
  | finalizer => rfl

/-- **Only the chosen loader's plug-in acts**, whatever else is in the list: the phase comes to
the same, also where it dies or does not end. -/
theorem only_the_chosen_act (su : Setup) (fate : Fate) (plugins : List Plugin) (s : Session) :
    execution_phase su fate plugins s
      = execution_phase su fate (plugins.filter (acts s.ictx.opts)) s := by
  refine phase_filter (I := fun s' => s'.ictx.opts BASE_BOOTLOADER = s.ictx.opts BASE_BOOTLOADER)
    ?_ ?_ rfl
  · intro p s₁ s₂ hs₁ hret
    rw [execute_frame settled_bootloader hret, hs₁]
  · intro p s₁ hs₁ hidle
    rw [← acts_congr hs₁] at hidle
    exact execute_idle hidle

end Acts

/-! ## The dialogues -/

/-- The choice is still open. -/
def Unchosen (opts : Hashmap) : Prop := (opts BASE_BOOTLOADER).getD (cstr "none") = cstr "none"

/-- What the dialogues make of the choice: they leave it alone, or it was open and a plug-in of
the list has it now. Gummiboot needs the firmware for it, and comes with a timeout. -/
inductive Chooses (su : Setup) (plugins : List Plugin) (opts opts' : Hashmap) : Prop
  | kept (loader : opts' BASE_BOOTLOADER = opts BASE_BOOTLOADER)
      (timeout : opts' Gummiboot.GUMMIBOOT_TIMEOUT = opts Gummiboot.GUMMIBOOT_TIMEOUT)
  | gummiboot (unchosen : Unchosen opts) (efi : su.efi = true) (mem : .gummiboot ∈ plugins)
      (loader : opts' BASE_BOOTLOADER = some (cstr "gummiboot"))
      (timeout : ∃ seconds ≤ 60, opts' Gummiboot.GUMMIBOOT_TIMEOUT = some (dec seconds))
  | syslinux (unchosen : Unchosen opts) (mem : .syslinux ∈ plugins)
      (loader : opts' BASE_BOOTLOADER = some (cstr "syslinux"))
      (timeout : opts' Gummiboot.GUMMIBOOT_TIMEOUT = opts Gummiboot.GUMMIBOOT_TIMEOUT)

section Cli

variable {su : Setup} {plugins : List Plugin} {opts opts₁ opts₂ : Hashmap}

/-- What leaves both options alone changes nothing about the choice. -/
theorem Chooses.kept_after (h : Chooses su plugins opts opts₁)
    (hloader : opts₂ BASE_BOOTLOADER = opts₁ BASE_BOOTLOADER)
    (htimeout : opts₂ Gummiboot.GUMMIBOOT_TIMEOUT = opts₁ Gummiboot.GUMMIBOOT_TIMEOUT) :
    Chooses su plugins opts opts₂ := by
  cases h with
  | kept loader timeout => exact .kept (hloader.trans loader) (htimeout.trans timeout)
  | gummiboot unchosen efi mem loader timeout =>
    exact .gummiboot unchosen efi mem (hloader.trans loader) (htimeout ▸ timeout)
  | syslinux unchosen mem loader timeout =>
    exact .syslinux unchosen mem (hloader.trans loader) (htimeout.trans timeout)

/-- A plug-in that still finds the choice open is the first. -/
theorem Chooses.first (h : Chooses su plugins opts opts₁) (hopen : Unchosen opts₁) :
    Unchosen opts ∧ opts₁ Gummiboot.GUMMIBOOT_TIMEOUT = opts Gummiboot.GUMMIBOOT_TIMEOUT := by
  unfold Unchosen at hopen
  cases h with
  | kept loader timeout =>
    rw [loader] at hopen
    exact ⟨hopen, timeout⟩
  | gummiboot unchosen efi mem loader timeout =>
    rw [loader] at hopen
    exact absurd hopen (by decide)
  | syslinux unchosen mem loader timeout =>
    rw [loader] at hopen
    exact absurd hopen (by decide)

/-- The seconds that are asked for. -/
theorem timeout_le {buf : CStr} {dfl v : Int64} {stdin rest : List UInt8}
    (hdfl : xatoll Gummiboot.TIMEOUT_DFL = .ret dfl) (h : ui_get_value buf dfl 0 60 stdin = .ret (v, rest)) :
    v.toUInt64.toUInt32.toNat ≤ 60 := by
  have hfive : dfl = 5 := by
    have hrun : xatoll Gummiboot.TIMEOUT_DFL = .ret 5 := by decide +kernel
    rw [hrun] at hdfl
    injection hdfl with hdfl
    exact hdfl.symm
  have hrange : 0 ≤ v ∧ v ≤ 60 := by
    rcases ui_get_value_range h with heq | hrange
    · rw [heq, hfive]
      decide
    · exact hrange
  have hle : v.toUInt64 ≤ (60 : Int64).toUInt64 := Int64.toUInt64_le hrange.1 hrange.2
  have hnat : v.toUInt64.toNat ≤ 60 := UInt64.le_iff_toNat_le.mp hle
  rw [UInt64.toNat_toUInt32]
  exact (Nat.mod_le _ _).trans hnat

/-- A dialogue that asks nothing. -/
theorem Chooses.unasked {ictx ictx' : Ictx} {stdin stdin' : List UInt8}
    (hopts : Chooses su plugins opts ictx.opts)
    (h : .ret (ictx, stdin) = (.ret (ictx', stdin') : Exec Die _)) :
    Chooses su plugins opts ictx'.opts ∧ ictx'.iprops = ictx.iprops := by
  simp only [Exec.ret.injEq, Prod.mk.injEq] at h
  rw [← h.1]
  exact ⟨hopts, rfl⟩

/-- The dialogue of gummiboot. -/
theorem gummiboot_chooses [Stack] {ictx ictx' : Ictx} {stdin stdin' : List UInt8}
    (hmem : .gummiboot ∈ plugins) (hopts : Chooses su plugins opts ictx.opts)
    (h : Gummiboot.gummiboot_cli su.efi ictx stdin = .ret (ictx', stdin')) :
    Chooses su plugins opts ictx'.opts ∧ ictx'.iprops = ictx.iprops := by
  unfold Gummiboot.gummiboot_cli at h
  obtain ⟨loader, hloader, h⟩ := Exec.bind_eq_ret.mp h
  rw [hashmapGetPrintf_some, Exec.ret.injEq] at hloader
  by_cases hnone : loader ≠ cstr "none"
  · rw [if_pos hnone] at h
    exact hopts.unasked h
  rw [if_neg hnone] at h
  by_cases hefi : su.efi = true
  · rw [if_neg (not_not.mpr hefi)] at h
    obtain ⟨⟨install, rest⟩, -, h⟩ := Exec.bind_eq_ret.mp h
    simp only at h
    by_cases hinstall : install = true
    · rw [if_neg (not_not.mpr hinstall)] at h
      obtain ⟨dfl, hdfl, h⟩ := Exec.bind_eq_ret.mp h
      obtain ⟨⟨timeout, rest'⟩, hask, h⟩ := Exec.bind_eq_ret.mp h
      simp only [Exec.ret.injEq, Prod.mk.injEq] at h
      rw [← h.1]
      -- It puts its name only where the question was open, so it is the first to be asked.
      have hopen : Unchosen ictx.opts := hloader.trans (not_not.mp hnone)
      refine ⟨.gummiboot (hopts.first hopen).1 hefi hmem ?_ ⟨_, timeout_le hdfl hask, ?_⟩, rfl⟩
      · rw [put_of_ne _ (by decide), put_self]
      · exact put_self _ _
    · rw [if_pos hinstall] at h
      exact hopts.unasked h
  · rw [if_pos hefi] at h
    exact hopts.unasked h

/-- And the one of syslinux. -/
theorem syslinux_chooses [Stack] {ictx ictx' : Ictx} {stdin stdin' : List UInt8}
    (hmem : .syslinux ∈ plugins) (hopts : Chooses su plugins opts ictx.opts)
    (h : Syslinux.syslinux_cli ictx stdin = .ret (ictx', stdin')) :
    Chooses su plugins opts ictx'.opts ∧ ictx'.iprops = ictx.iprops := by
  unfold Syslinux.syslinux_cli at h
  obtain ⟨loader, hloader, h⟩ := Exec.bind_eq_ret.mp h
  rw [hashmapGetPrintf_some, Exec.ret.injEq] at hloader
  by_cases hnone : loader ≠ cstr "none"
  · rw [if_pos hnone] at h
    exact hopts.unasked h
  rw [if_neg hnone] at h
  obtain ⟨⟨install, rest⟩, -, h⟩ := Exec.bind_eq_ret.mp h
  simp only at h
  by_cases hinstall : install = true
  · rw [if_neg (not_not.mpr hinstall)] at h
    simp only [Exec.ret.injEq, Prod.mk.injEq] at h
    rw [← h.1]
    have hopen : Unchosen ictx.opts := hloader.trans (not_not.mp hnone)
    obtain ⟨hfirst, htimeout⟩ := hopts.first hopen
    refine ⟨.syslinux hfirst hmem (put_self _ _) ?_, rfl⟩
    rw [put_of_ne _ (by decide), htimeout]
  · rw [if_pos hinstall] at h
    exact hopts.unasked h

variable [Platform] [Qsort]

omit [Platform] [Qsort] in
/-- The partitioner asks about other things. -/
theorem partitioner_chooses [Stack] {ictx ictx' : Ictx} {stdin stdin' : List UInt8}
    (hopts : Chooses su plugins opts ictx.opts)
    (h : partitioner_cli ictx stdin = .ret (ictx', stdin')) :
    Chooses su plugins opts ictx'.opts ∧ ictx'.iprops = ictx.iprops := by
  obtain ⟨disk, sz, -, hset | ⟨rfl, -⟩⟩ := partitioner_cli_spec h
  · have hsame : ∀ key, key ≠ BASE_DUALBOOT → key ≠ BASE_INSTALL_DISK → key.head? ≠ some 100 →
        ictx'.opts key = ictx.opts key := by
      intro key hdual hdisk hhead
      rw [hset.opts key hdual (disk_key_ne hhead).symm, put_of_ne _ hdisk]
    exact ⟨hopts.kept_after (hsame _ (by decide) (by decide) (by decide))
      (hsame _ (by decide) (by decide) (by decide)), hset.iprops⟩
  · exact ⟨hopts.kept_after (put_of_ne _ (by decide)) (put_of_ne _ (by decide)), rfl⟩

omit [Platform] [Qsort] in
/-- **What the dialogues leave of the choice**, by induction on the plug-ins. -/
theorem cli_chooses [Stack] {s s' : Session} (hstart : Chooses su plugins opts s.ictx.opts)
    (h : cli_phase su plugins s = .ret s') :
    Chooses su plugins opts s'.ictx.opts ∧ s'.ictx.iprops = s.ictx.iprops := by
  refine phase_invariant (I := fun s' => Chooses su plugins opts s'.ictx.opts ∧
    s'.ictx.iprops = s.ictx.iprops) ?_ ⟨hstart, rfl⟩ h
  rintro p hp s₁ s₂ ⟨hopts, hprops⟩ hret
  -- what a dialogue does is what it does to the options
  have hask : ∀ {r : Exec Die (Ictx × List UInt8)}, s₁.ask r = .ret s₂ →
      (∀ ictx stdin, r = .ret (ictx, stdin) →
        Chooses su plugins opts ictx.opts ∧ ictx.iprops = s₁.ictx.iprops) →
      Chooses su plugins opts s₂.ictx.opts ∧ s₂.ictx.iprops = s.ictx.iprops := by
    intro r hask hr
    obtain ⟨⟨ictx, stdin⟩, hwithin, hask⟩ := Exec.bind_eq_ret.mp hask
    injection hask with hask
    obtain ⟨hopts', hprops'⟩ := hr ictx stdin (within_eq_ret.mp hwithin)
    rw [← hask]
    exact ⟨hopts', hprops'.trans hprops⟩
  have hsilent : .ret s₁ = (.ret s₂ : Exec Fatal Session) →
      Chooses su plugins opts s₂.ictx.opts ∧ s₂.ictx.iprops = s.ictx.iprops := by
    intro heq
    injection heq with heq
    rw [← heq]
    exact ⟨hopts, hprops⟩
  cases p with
  | partitioner => exact hask hret fun _ _ => partitioner_chooses hopts
  | gummiboot => exact hask hret fun _ _ => gummiboot_chooses hp hopts
  | syslinux => exact hask hret fun _ _ => syslinux_chooses hp hopts
  | imagewriter => exact hsilent hret
  | ota => exact hsilent hret
  | userfastboot => exact hsilent hret
  | finalizer => exact hsilent hret

end Cli

/-! ## Preparation -/

section Prepare

variable [Platform] [Qsort] {key : CStr} {opts opts' : Hashmap}

omit [Qsort] in
/-- Looking for Windows changes options of the disk only. -/
theorem publish_windows_frame {m : Machine} {interactive : Bool} {d_name : CStr} {g : Gpt}
    (hhead : key.head? ≠ some 100)
    (h : publish_windows m interactive d_name g opts = .ret opts') : opts' key = opts key := by
  -- Every option is put under a key of the disk.
  have hput : ∀ (opts : Hashmap) (field : String) (value : CStr),
      xhashmapPut opts (disk_key d_name field) value key = opts key :=
    fun _ _ _ => xhashmapPut_of_ne (disk_key_ne hhead).symm
  unfold publish_windows at h
  obtain ⟨ptn_index, -, h⟩ := Exec.bind_eq_ret.mp h
  by_cases hin : 0 < ptn_index ∧ ptn_index.toUInt32 ≤ g.header.num_pentries
  · rw [if_pos hin] at h
    obtain ⟨e, -, h⟩ := Exec.bind_eq_ret.mp h
    simp only at h
    by_cases hinteractive : interactive = true
    · rw [if_pos hinteractive] at h
      obtain ⟨ret, -, h⟩ := Exec.bind_eq_ret.mp h
      split_ifs at h with hret
      · injection h with h
        rw [← h, hput, hput]
      · injection h with h
        rw [← h, hput, hput, hput]
    · rw [if_neg hinteractive] at h
      injection h with h
      rw [← h, hput, hput]
  · rw [if_neg hin] at h
    injection h with h
    rw [h]

omit [Qsort] in
theorem publish_esp_frame {d_name : CStr} {g : Gpt} (hhead : key.head? ≠ some 100)
    (h : publish_esp d_name g opts = .ret opts') : opts' key = opts key := by
  unfold publish_esp at h
  obtain ⟨ptn_index, -, h⟩ := Exec.bind_eq_ret.mp h
  split_ifs at h with hin
  · obtain ⟨e, -, h⟩ := Exec.bind_eq_ret.mp h
    injection h with h
    rw [← h, xhashmapPut_of_ne (disk_key_ne hhead).symm, xhashmapPut_of_ne (disk_key_ne hhead).symm]
  · injection h with h
    rw [h]

theorem publish_space_frame {d_name : CStr} {g : Gpt} (hhead : key.head? ≠ some 100)
    (h : publish_space d_name g opts = .ret opts') : opts' key = opts key := by
  have hput : ∀ (opts : Hashmap) (field : String) (value : CStr),
      xhashmapPut opts (disk_key d_name field) value key = opts key :=
    fun _ _ _ => xhashmapPut_of_ne (disk_key_ne hhead).symm
  unfold publish_space at h
  obtain ⟨android_size, -, h⟩ := Exec.bind_eq_ret.mp h
  obtain ⟨region, -, h⟩ := Exec.bind_eq_ret.mp h
  have handroid : (if android_size = 0 then opts
      else xhashmapPut opts (disk_key d_name "android_size") (dec android_size.toNat)) key
        = opts key := by
    split_ifs
    · rfl
    · exact hput _ _ _
  cases region with
  | none =>
    injection h with h
    rw [← h, handroid]
  | some region =>
    injection h with h
    rw [← h, hput, hput, hput, handroid]

/-- One disk. -/
theorem prepare_disk_frame {interactive : Bool} {d : Disk} (hhead : key.head? ≠ some 100)
    (h : prepare_disk interactive d opts = .ret opts') : opts' key = opts key := by
  have hput : ∀ (opts : Hashmap) (field : String) (value : CStr),
      xhashmapPut opts (disk_key d.d_name field) value key = opts key :=
    fun _ _ _ => xhashmapPut_of_ne (disk_key_ne hhead).symm
  unfold prepare_disk at h
  simp only at h
  cases hinit : d.machine.gpt_init with
  | none =>
    rw [hinit] at h
    cases h
  | some g =>
    rw [hinit] at h
    obtain ⟨⟨ret, g', rs⟩, -, h⟩ := Exec.bind_eq_ret.mp h
    simp only at h
    split_ifs at h with hret
    · injection h with h
      rw [← h, hput, hput, hput, hput, hput]
    · obtain ⟨opts₁, hwindows, h⟩ := Exec.bind_eq_ret.mp h
      obtain ⟨opts₂, hesp, h⟩ := Exec.bind_eq_ret.mp h
      rw [publish_space_frame hhead h, publish_esp_frame hhead hesp,
        publish_windows_frame hhead hwindows, hput, hput, hput, hput, hput]

/-- All of them, by induction on the list. -/
theorem prepare_disks_frame {interactive : Bool} {disks : List Disk} (hhead : key.head? ≠ some 100)
    (h : disks.foldlM (fun opts d => prepare_disk interactive d opts) opts = .ret opts') :
    opts' key = opts key := by
  induction disks generalizing opts with
  | nil =>
    injection h with h
    rw [h]
  | cons d disks ih =>
    rw [List.foldlM_cons] at h
    obtain ⟨opts₁, hone, h⟩ := Exec.bind_eq_ret.mp h
    rw [ih h, prepare_disk_frame hhead hone]

/-- **The preparation is about the disks.** -/
theorem preparation_frame {su : Setup} {plugins : List Plugin} {s s' : Session}
    (hhead : key.head? ≠ some 100) (hlist : key ≠ BASE_DISK_LIST)
    (h : preparation_phase su plugins s = .ret s') : s'.ictx.opts key = s.ictx.opts key := by
  refine phase_invariant (I := fun s' => s'.ictx.opts key = s.ictx.opts key) ?_ rfl h
  intro p hp s₁ s₂ hs₁ hret
  -- A plug-in without a `prepare` leaves the session as it was.
  have hsilent : .ret s₁ = (.ret s₂ : Exec Fatal Session) →
      s₂.ictx.opts key = s.ictx.opts key := by
    intro heq
    injection heq with heq
    rw [← heq, hs₁]
  cases p with
  | partitioner =>
    obtain ⟨ictx, hprepare, hret⟩ := Exec.bind_eq_ret.mp hret
    injection hret with hret
    have hprepare := within_eq_ret.mp hprepare
    unfold partitioner_prepare at hprepare
    obtain ⟨interactive, -, hprepare⟩ := Exec.bind_eq_ret.mp hprepare
    obtain ⟨opts', hdisks, hprepare⟩ := Exec.bind_eq_ret.mp hprepare
    injection hprepare with hprepare
    rw [← hret, ← hprepare, ← hs₁]
    show xhashmapPut opts' BASE_DISK_LIST _ key = _
    rw [xhashmapPut_of_ne hlist, prepare_disks_frame hhead hdisks]
  | imagewriter => exact hsilent hret
  | ota => exact hsilent hret
  | gummiboot => exact hsilent hret
  | syslinux => exact hsilent hret
  | userfastboot => exact hsilent hret
  | finalizer => exact hsilent hret

end Prepare

/-! ## A run of `main` -/

section Main

variable [Platform] [Qsort] {su : Setup} {fate : Fate} {props : BootProps} {ext : List Plugin}
  {stdin : List UInt8} {w : Host} {s' : Session} {target : CStr}

/-- The options a run starts with: those of the files, over the one that says whether it asks. -/
def Configured (su : Setup) (fate : Fate) (props : BootProps) (w w₁ : Host) (opts : Hashmap) : Prop :=
  append_inis fate (runs (fun c => c = 44) props.ini) w = .ret w₁ ∧
    load_ini_file su COMBINED_INI (xhashmapPut (fun _ => none) BASE_INTERACTIVE
      (dec (if props.cli ≠ [] ∨ props.gui ≠ [] then 1 else 0))) w₁ = .ret opts

/-- What a run that ended went through: the files, the preparation, the dialogues if there are
any, and the execution. -/
theorem main_ret [Stack] (h : main su fate props ext stdin w = .ret (s', target)) :
    ∃ w₁ opts s₁ s₂ s₃, Configured su fate props w w₁ opts ∧
      preparation_phase su (registered ext) ⟨⟨opts, fun _ => none⟩, stdin, w₁⟩ = .ret s₁ ∧
      (if props.cli ≠ [] then ∃ s, cli_phase su (registered ext) s₁ = .ret s ∧ s₂.ictx = s.ictx
        else props.gui = [] ∧ s₂ = s₁) ∧
      execution_phase su fate (registered ext) s₂ = .ret s₃ ∧
      s'.ictx = s₃.ictx ∧ s'.host = s₃.host ∧ target = (s₃.ictx.opts BASE_REBOOT).getD [] := by
  unfold main at h
  simp only at h
  -- Each step up to the reboot target returned, so the run is cut there.
  by_cases hini : props.ini = []
  · rw [if_pos hini] at h
    cases h
  rw [if_neg hini] at h
  obtain ⟨w₁, happend, h⟩ := Exec.bind_eq_ret.mp h
  obtain ⟨opts, hload, h⟩ := Exec.bind_eq_ret.mp h
  obtain ⟨s₁, hprepare, h⟩ := Exec.bind_eq_ret.mp h
  obtain ⟨s₂, hask, h⟩ := Exec.bind_eq_ret.mp h
  obtain ⟨s₃, hexecute, h⟩ := Exec.bind_eq_ret.mp h
  obtain ⟨target', htarget, h⟩ := Exec.bind_eq_ret.mp h
  simp only [Exec.ret.injEq, Prod.mk.injEq] at h
  obtain ⟨hs, rfl⟩ := h
  rw [opt_some] at htarget
  have hictx : s'.ictx = s₃.ictx := by
    rw [← hs]
    split_ifs
    · rfl
    · rfl
  have hhost : s'.host = s₃.host := by
    rw [← hs]
    split_ifs
    · rfl
    · rfl
  refine ⟨w₁, opts, s₁, s₂, s₃, ⟨happend, ?_⟩, hprepare, ?_, hexecute, hictx, hhost, ?_⟩
  · simpa using hload
  · by_cases hcli : props.cli ≠ []
    · rw [if_pos (decide_eq_true hcli)] at hask
      obtain ⟨s, hphase, hask⟩ := Exec.bind_eq_ret.mp hask
      injection hask with hask
      rw [if_pos hcli]
      exact ⟨s, hphase, by rw [← hask]⟩
    · rw [if_neg (by simpa using hcli)] at hask
      rw [if_neg hcli]
      -- The graphical dialogue is not there: asking for it ends the run.
      by_cases hgui : props.gui ≠ []
      · rw [if_pos (decide_eq_true hgui)] at hask
        cases hask
      · rw [if_neg (by simpa using hgui)] at hask
        injection hask with hask
        exact ⟨not_not.mp hgui, hask.symm⟩
  · rw [hs, hictx] at htarget
    exact htarget.symm

/-- **Which boot loader a run of the installer installs**: the one the files name; or, if they
name none and the run asks, one whose plug-in the build has, gummiboot only on a machine with the
firmware for it. What the execution does is what it would do if only that plug-in were there. -/
theorem main_installs_chosen [Stack] (h : main su fate props ext stdin w = .ret (s', target)) :
    ∃ w₁ opts s₂ s₃, Configured su fate props w w₁ opts ∧
      (if props.cli ≠ [] then Chooses su (registered ext) opts s₂.ictx.opts
        else s₂.ictx.opts BASE_BOOTLOADER = opts BASE_BOOTLOADER) ∧
      execution_phase su fate ((registered ext).filter (acts s₂.ictx.opts)) s₂ = .ret s₃ ∧
      s'.ictx = s₃.ictx ∧ s'.host = s₃.host ∧
      s'.ictx.opts BASE_BOOTLOADER = s₂.ictx.opts BASE_BOOTLOADER := by
  obtain ⟨w₁, opts, s₁, s₂, s₃, hconf, hprepare, hask, hexecute, hictx, hhost, -⟩ := main_ret h
  -- The preparation leaves the boot loader alone: its key is not about the disks.
  have hsame : ∀ key, key.head? ≠ some 100 → key ≠ BASE_DISK_LIST →
      s₁.ictx.opts key = opts key := fun key hhead hlist => preparation_frame hhead hlist hprepare
  have hprepared : Chooses su (registered ext) opts s₁.ictx.opts :=
    .kept (hsame _ (by decide) (by decide)) (hsame _ (by decide) (by decide))
  refine ⟨w₁, opts, s₂, s₃, hconf, ?_, ?_, hictx, hhost, ?_⟩
  · by_cases hcli : props.cli ≠ []
    · rw [if_pos hcli] at hask ⊢
      obtain ⟨s, hphase, hs⟩ := hask
      rw [hs]
      exact (cli_chooses hprepared hphase).1
    · rw [if_neg hcli] at hask ⊢
      rw [hask.2]
      exact hsame _ (by decide) (by decide)
  · rw [← only_the_chosen_act]
    exact hexecute
  · rw [hictx]
    refine phase_invariant (I := fun s => s.ictx.opts BASE_BOOTLOADER
      = s₂.ictx.opts BASE_BOOTLOADER) ?_ rfl hexecute
    intro p hp s s₁ hs hret
    rw [execute_frame settled_bootloader hret, hs]

end Main

/-! ### A disk with another system on it -/

section Sda

attribute [local instance] x86 insertionQsort clean_stack

/-- The installation medium has the loader, the shim and a file for the installer. -/
def sda_host : Host where
  files := fun p =>
    if p = (none, [cstr "installmedia", cstr "images", cstr "gummiboot.efi"]) ∨
        p = (none, [cstr "installmedia", cstr "images", cstr "shim.efi"]) then some (cstr "MZ")
    else if p = (none, [cstr "installmedia", cstr "iago.ini"]) then some (cstr "[base]\n")
    else none
  mounts := []
  disks := fun _ => esp_disk
  ran := []
  calls := 0

/-- All goes well. -/
def sda_fate : Fate where
  ok := fun _ => true
  mount := fun _ => .ok
  removes := fun _ _ => true
  reads := fun _ => [.all, .all]
  writes := fun _ => [.all]
  shell := true
  status := fun _ => .exited 0

def sda_partitions : CStr := cstr "bootloader boot misc factory"

/-- What the file says: gummiboot, next to the other system, on partitions that have their file
systems. -/
def sda_dictionary : List (CStr × CStr) :=
  [(BASE_INSTALL_DISK, cstr "sda"), (BASE_DUALBOOT, cstr "1"), (BASE_BOOTLOADER, cstr "gummiboot"),
    (BASE_BOOT_LIST, cstr "boot"), (BASE_PTN_LIST, sda_partitions),
    (partition_key (cstr "boot") "description", cstr "Android")] ++
  (entries sda_partitions).flatMap fun n =>
    [(partition_key n "len", cstr "1"), (partition_key n "type", cstr "ext4"),
      (partition_key n "mode", cstr "skip")]

def sda_setup : Setup where
  build := ⟨cstr "x86_64", false⟩
  machine := esp_machine
  disks := [⟨cstr "sda", 1000000, 512, cstr "disk", esp_machine⟩]
  efi := true
  gpt_writes := List.replicate 5 .all
  links := fun _ => cstr "../devices/pci0000:00/0000:00:1f.2/ata1/host0/block/sda"
  stack := List.Vector.replicate PATH_MAX 0
  work := NewfsMsdos.smooth
  filled := fun w => (w.files, w.disks, w.ran)
  mkdtemp := fun _ => none
  forEach := fun _ => []
  PROP_PATH_FACTORY := cstr "factory/factory.prop"
  iniparser_load := fun _ =>
    some ((some (cstr "base"), none) :: sda_dictionary.map fun q => (some q.1, some q.2))

def sda_props : BootProps := ⟨[], [], cstr "/installmedia/iago.ini"⟩

def sda_main : Exec Fatal (Session × CStr) :=
  main sda_setup sda_fate sda_props [.gummiboot, .syslinux] [] sda_host

set_option maxRecDepth 100000 in
/-- What the theorem says of a whole run. -/
theorem sda_chosen : ∃ s' target w₁ opts s₂ s₃, sda_main = .ret (s', target) ∧
    Configured sda_setup sda_fate sda_props sda_host w₁ opts ∧
    execution_phase sda_setup sda_fate
      ((registered [.gummiboot, .syslinux]).filter (acts s₂.ictx.opts)) s₂ = .ret s₃ ∧
    s'.ictx.opts BASE_BOOTLOADER = opts BASE_BOOTLOADER := by
  have hrun : sda_main.returns (fun _ => true) = true := by
    decide +kernel
  obtain ⟨⟨s', target⟩, hret, -⟩ := Exec.exists_of_returns hrun
  obtain ⟨w₁, opts, s₂, s₃, hconf, hsame, hexecute, -, -, hkept⟩ := main_installs_chosen hret
  have hsilent : ¬ sda_props.cli ≠ [] := not_not.mpr rfl
  rw [if_neg hsilent] at hsame
  exact ⟨s', target, w₁, opts, s₂, s₃, hret, hconf, hexecute, hkept.trans hsame⟩

end Sda

end Installer

end Iago
