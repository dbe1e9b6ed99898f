/-
The installer as a whole: `main.c`, and the plug-ins that are always there.

The plug-ins are called in the order they were added, in three phases: they prepare, they may
ask, and they execute. What one tells another goes through the options. The build adds plug-ins
between those that are built in; nothing below depends on which, how many or in which order,
unless it says so.

What the programs that are run leave on the file systems, and what `imagewriter.c` does to
the partitions it fills, is a parameter (`Setup.filled`): here it matters that the plug-in
changes no option. The percentages that are shown, and the pages of text, are left out.
-/
import Iago.BusName
import Iago.Dialogue
import Iago.PublishedOptions
import Iago.Syslinux

set_option autoImplicit false

namespace Iago

namespace Installer

open NewfsMsdos (within within_eq_ret)
open FsChecks (WaitStatus)

def BASE_OTA : CStr := cstr "base:ota"
def BASE_REBOOT : CStr := cstr "base:reboot_target"
def COMBINED_INI : CStr := cstr "/data/iago.ini"

/-- What a run finds when it starts. -/
structure Setup where
  build : Build
  machine : Machine
  disks : List Disk
  /-- whether there is a `/sys/firmware/efi` -/
  efi : Bool
  /-- the calls of `gpt_write` -/
  gpt_writes : List IoRes
  /-- the links in `/sys/block`, and what is on the stack when one is read -/
  links : CStr → CStr
  stack : List.Vector UInt8 PATH_MAX
  /-- how the work on the partitions comes out, and what it leaves -/
  work : ℕ → NewfsMsdos.Work
  filled : Host → (Place → Option (List UInt8)) × (CStr → Dev) × List (Program × WaitStatus)
  /-- what `mkdtemp` makes of its template -/
  mkdtemp : ℕ → Option CStr
  /-- the order `hashmapForEach` goes in -/
  forEach : Hashmap → List (CStr × CStr)
  /-- a path of the C library -/
  PROP_PATH_FACTORY : CStr
  /-- the keys and values of the parsed file -/
  iniparser_load : List UInt8 → Option (List (Option CStr × Option CStr))

/-- What the plug-ins hand on. -/
structure Session where
  ictx : Ictx
  stdin : List UInt8
  host : Host

/-- With other options. -/
def Session.put (s : Session) (key value : CStr) : Session := { s with ictx := s.ictx.put key value }

section Code

variable [Platform] [Qsort] (su : Setup) (fate : Fate)

/-! ## The plug-ins that are always there -/

/-- `partitioner_execute`, with the disk it is about. -/
def partitioner_run (s : Session) : Exec Fatal Session := do
  let _ ← opt s.ictx.opts none BASE_PTN_LIST
  let disk ← opt s.ictx.opts none BASE_INSTALL_DISK
  let node := cstr "/dev/block/" ++ disk
  let d := s.host.disks node
  let (ictx, io) ← within .util
    (partitioner_execute { su.machine with dev := d } ⟨d, su.gpt_writes, false, []⟩ s.ictx)
  let ictx := match get_bus_name (su.links disk) su.stack with
    | some bus => ictx.put DISK_BUS_NAME bus
    | none => ictx
  .ret { s with ictx := ictx, host := s.host.tick.setDisk node io.dev }

/-- `imagewriter_execute`. -/
def imagewriter_run (s : Session) : Exec Fatal Session := do
  let _ ← within .stop (NewfsMsdos.imagewriter_execute s.ictx.opts su.work).2
  let (files, disks, ran) := su.filled s.host
  .ret { s with host := { s.host.tick with files := files, disks := disks, ran := ran } }

/-- `ota_execute`. -/
def ota_execute (s : Session) : Exec Fatal Session := do
  let srcfile ← opt s.ictx.opts (some (cstr "none")) BASE_OTA
  if srcfile = cstr "none" then .ret s
  else
    match su.mkdtemp s.host.calls with
    | none => .die .mkdtemp
    | some mountpoint => do
      let device ← opt s.ictx.opts none (partition_key (cstr "cache") "device")
      let type ← opt s.ictx.opts none (partition_key (cstr "cache") "type")
      let w ← mount_partition_device fate device type mountpoint s.host.tick
      let w ← copy_file fate srcfile (mountpoint ++ cstr "/ota.zip") w
      let w ← xmkdir fate (mountpoint ++ cstr "/recovery") w
      let (fd, w) ← xopen fate (mountpoint ++ cstr "/recovery/command") ⟨true, true, false⟩ w
      let (_, w) ← put_string fate (cstr "--update_package=/cache/ota.zip") fd w
      let w ← xclose fate w
      .ret { s.put BASE_REBOOT (cstr "recovery") with host := umount fate mountpoint w }

/-- `write_props_cb`. -/
def write_props_cb (key value : CStr) (fd : Fd) (w : Host) : Exec Fatal (Fd × Host) :=
  put_string fate (key ++ cstr "=" ++ value ++ cstr "\n") fd w

/-- The loop of `hashmapForEach`. -/
def write_props : List (CStr × CStr) → Fd → Host → Exec Fatal (Fd × Host)
  | [], fd, w => .ret (fd, w)
  | (key, value) :: props, fd, w => do
    let (fd, w) ← write_props_cb fate key value fd w
    write_props props fd w

/-- `write_install_props`. -/
def write_install_props (iprops : Hashmap) (w : Host) : Exec Fatal Host := do
  let (fd, w) ← xopen fate (cstr "/mnt/" ++ su.PROP_PATH_FACTORY) ⟨true, false, false⟩ w
  let (_, w) ← write_props fate (su.forEach iprops) fd w
  xclose fate w

/-- `finalizer_execute`. -/
def finalizer_execute (s : Session) : Exec Fatal Session := do
  let device ← opt s.ictx.opts none (partition_key (cstr "factory") "device")
  let type ← opt s.ictx.opts none (partition_key (cstr "factory") "type")
  let w ← mount_partition_device fate device type (cstr "/mnt/factory") s.host
  let w ← write_install_props su fate s.ictx.iprops w
  .ret { s with host := umount fate (cstr "/mnt/factory") w }

/-! ## The phases -/

/-- The plug-ins of the repository. -/
inductive Plugin where
  | partitioner
  | imagewriter
  | ota
  | gummiboot
  | syslinux
  | userfastboot
  | finalizer
  deriving DecidableEq

/-- What a plug-in does to the options and the input. -/
def Session.ask (s : Session) (r : Exec Die (Ictx × List UInt8)) : Exec Fatal Session := do
  let (ictx, stdin) ← within .util r
  .ret { s with ictx := ictx, stdin := stdin }

namespace Plugin

/-- `prepare`; only the partitioner has anything to prepare. -/
def prepare : Plugin → Session → Exec Fatal Session
  | partitioner, s => do
    let ictx ← within .util (partitioner_prepare su.disks s.ictx)
    .ret { s with ictx := ictx }
  | _, s => .ret s

/-- `cli_session`. -/
def cli_session [Stack] : Plugin → Session → Exec Fatal Session
  | partitioner, s => s.ask (partitioner_cli s.ictx s.stdin)
  | gummiboot, s => s.ask (Gummiboot.gummiboot_cli su.efi s.ictx s.stdin)
  | syslinux, s => s.ask (Syslinux.syslinux_cli s.ictx s.stdin)
  | _, s => .ret s

/-- `execute`. -/
def execute : Plugin → Session → Exec Fatal Session
  | partitioner, s => partitioner_run su s
  | imagewriter, s => imagewriter_run su s
  | ota, s => ota_execute su fate s
  | gummiboot, s => do
    let w ← Gummiboot.gummiboot_execute su.build fate s.ictx.opts s.host
    .ret { s with host := w }
  | syslinux, s => do
    let w ← Syslinux.syslinux_execute fate s.ictx.opts s.host
    .ret { s with host := w }
  | userfastboot, s => .ret s
  | finalizer, s => finalizer_execute su fate s

end Plugin

/-- The loop over the plug-ins. -/
def phase (f : Plugin → Session → Exec Fatal Session) : List Plugin → Session → Exec Fatal Session
  | [], s => .ret s
  | p :: plugins, s => do
    let s ← f p s
    phase f plugins s

def preparation_phase : List Plugin → Session → Exec Fatal Session := phase (Plugin.prepare su)

def cli_phase [Stack] : List Plugin → Session → Exec Fatal Session := phase (Plugin.cli_session su)

def execution_phase : List Plugin → Session → Exec Fatal Session := phase (Plugin.execute su fate)

/-- The plug-ins in the order they are added; `ext` are those the build adds. -/
def registered (ext : List Plugin) : List Plugin :=
  [.partitioner, .imagewriter, .ota] ++ ext ++ [.finalizer]

/-! ## `main` -/

/-- The properties of the boot command line, empty if they are not set. -/
structure BootProps where
  cli : CStr
  gui : CStr
  ini : CStr

/-- The files that are put together. -/
def append_inis : List CStr → Host → Exec Fatal Host
  | [], w => .ret w
  | token :: tokens, w => do
    let w ← append_file fate token COMBINED_INI w
    append_inis tokens w

/-- `hashmap_add_dictionary`: a key without a value, and a value without a key, is left out. -/
def hashmap_add_dictionary (h : Hashmap) (d : List (Option CStr × Option CStr)) : Hashmap :=
  d.foldl (fun h kv =>
    match kv with
    | (some k, some v) => xhashmapPut h k v
    | _ => h) h

/-- `load_ini_file`. -/
def load_ini_file (path : CStr) (opts : Hashmap) (w : Host) : Exec Fatal Hashmap :=
  match (w.files (w.place path)).bind su.iniparser_load with
  | none => .die (.load_ini path)
  | some d => .ret (hashmap_add_dictionary opts d)

/-- `ui_pause`. -/
def ui_pause (stdin : List UInt8) : List UInt8 := (fgets 31 stdin).2

/-- `main`: the session at its end, and what is rebooted to. -/
def main [Stack] (props : BootProps) (ext : List Plugin) (stdin : List UInt8) (w : Host) :
    Exec Fatal (Session × CStr) := do
  let cli_mode := decide (props.cli ≠ [])
  let gui_mode := decide (props.gui ≠ [])
  let opts := xhashmapPut (fun _ => none) BASE_INTERACTIVE (dec (if cli_mode || gui_mode then 1 else 0))
  if props.ini = [] then .die .no_ini
  else do
    let w ← append_inis fate (runs (fun c => c = 44) props.ini) w
    let opts ← load_ini_file su COMBINED_INI opts w
    let s ← preparation_phase su (registered ext) ⟨⟨opts, fun _ => none⟩, stdin, w⟩
    let s ← (if cli_mode then do
        let s ← cli_phase su (registered ext) s
        .ret { s with stdin := ui_pause s.stdin }
      else if gui_mode then .die .no_gui
      else .ret s)
    let s ← execution_phase su fate (registered ext) s
    let s := if cli_mode then { s with stdin := ui_pause s.stdin } else s
    let target ← opt s.ictx.opts (some []) BASE_REBOOT
    .ret (s, target)

end Code

/-! ## What the phases do to the options -/

/-- The fields of a partition that the partitioner sets. -/
def set_fields : List String := ["mode", "len", "index", "device", "guid"]

/-- An option the partitioner sets. -/
def SetByPartitioner (key : CStr) : Prop := ∃ n, ∃ f ∈ set_fields, key = partition_key n f

/-- A key the partitioner does not set is none of the fields it sets. -/
theorem ne_of_not_set {key : CStr} (h : ¬ SetByPartitioner key) (n : CStr) {f : String}
    (hf : f ∈ set_fields) : key ≠ partition_key n f := fun heq => h ⟨n, f, hf, heq⟩

theorem dual_opts_frame {opts : Hashmap} {esp_size : Int64} {esp_index : UInt32} {node key : CStr}
    (h : ¬ SetByPartitioner key) : dual_opts opts esp_size esp_index node key = opts key := by
  unfold dual_opts
  rw [xhashmapPut_of_ne (ne_of_not_set h _ (by decide)),
    xhashmapPut_of_ne (ne_of_not_set h _ (by decide)),
    xhashmapPut_of_ne (ne_of_not_set h _ (by decide)),
    xhashmapPut_of_ne (ne_of_not_set h _ (by decide))]

section Frame

variable [Platform] [Qsort] {key : CStr} {ictx ictx' : Ictx} {m : Machine} {g g' : Gpt} {a : CreateArgs}
  {partlist disk : CStr}

/-- `create_android_partitions`. -/
theorem create_frame {bootloader_size : UInt64} {skip : Bool} {opts opts' : Hashmap}
    {urandom urandom' : Urandom} (hmap : g.Mapped) (hcreate : create_android_partitions
      bootloader_size partlist g skip opts urandom = .ret (g', opts', urandom'))
    (h : ¬ SetByPartitioner key) : opts' key = opts key := by
  obtain ⟨needed, lba, lba', len, -, -, -, -, mc', hloop, -, rfl, -⟩ := create_spec hcreate
  have hmap' : (mkpart_start g lba lba' needed skip opts len urandom).gpt.Mapped := hmap
  have hrun := mkpart_run hmap' hloop
  rw [hrun.other_key (.refl _) fun n _ =>
    ⟨ne_of_not_set h n (by decide), ne_of_not_set h n (by decide)⟩]
  exact xhashmapPut_of_ne (ne_of_not_set h _ (by decide))

omit [Qsort] in
/-- The pass over the GUIDs. -/
theorem getguid_frame {list : List CStr} {idx : ℕ} {opts opts' : Hashmap}
    (hloop : Iago.iterate (getguid_cb g) list idx opts = .ret opts') (h : ¬ SetByPartitioner key) :
    opts' key = opts key := by
  induction list generalizing idx opts with
  | nil =>
    injection hloop with hloop
    rw [hloop]
  | cons n list ih =>
    obtain ⟨⟨go, opts₁⟩, hstep, hloop⟩ := Exec.bind_eq_ret.mp hloop
    -- One entry puts its GUID under a key the partitioner sets.
    have hone : opts₁ key = opts key := by
      unfold getguid_cb at hstep
      obtain ⟨s, -, hstep⟩ := Exec.bind_eq_ret.mp hstep
      obtain ⟨v, -, hstep⟩ := Exec.bind_eq_ret.mp hstep
      cases hget : gpt_entry_get v.toUInt64.toUInt32 g with
      | none =>
        rw [hget] at hstep
        cases hstep
      | some off =>
        rw [hget] at hstep
        obtain ⟨e, -, hstep⟩ := Exec.bind_eq_ret.mp hstep
        simp only [Exec.ret.injEq, Prod.mk.injEq] at hstep
        rw [← hstep.2]
        exact xhashmapPut_of_ne (ne_of_not_set h n (by decide))
    simp only at hloop
    split_ifs at hloop with hgo
    · rw [ih hloop, hone]
    · injection hloop with hloop
      rw [← hloop, hone]

omit [Qsort] in
/-- Claiming an entry is about the table. -/
theorem claim_ictx {esp : Option UInt32} (hclaim : CreateArgs.claim esp g ictx = .ret (g', ictx')) :
    ictx' = ictx := by
  unfold CreateArgs.claim at hclaim
  cases esp with
  | none =>
    simp only [Exec.ret.injEq, Prod.mk.injEq] at hclaim
    exact hclaim.2.symm
  | some i =>
    cases hget : gpt_entry_get i g with
    | none =>
      simp only [hget] at hclaim
      cases hclaim
    | some off =>
      simp only [hget] at hclaim
      obtain ⟨e, -, hclaim⟩ := Exec.bind_eq_ret.mp hclaim
      obtain ⟨g₁, -, hclaim⟩ := Exec.bind_eq_ret.mp hclaim
      split_ifs at hclaim
      simp only [Exec.ret.injEq, Prod.mk.injEq] at hclaim
      exact hclaim.2.symm

/-- What there is by the time the partitions are made, and what the rest of the call makes of
it. -/
theorem finish_frame (hr : a.Ready m partlist) (hfin : a.finish = .ret (g', ictx')) :
    (∀ key, ¬ SetByPartitioner key → ictx'.opts key = a.opts key) ∧ ictx'.iprops = a.iprops := by
  unfold CreateArgs.finish CreateArgs.install at hfin
  obtain ⟨⟨g, ictx₁⟩, hinstall, hfin⟩ := Exec.bind_eq_ret.mp hfin
  obtain ⟨opts₁, hguid, hfin⟩ := Exec.bind_eq_ret.mp hfin
  simp only [Exec.ret.injEq, Prod.mk.injEq] at hfin
  obtain ⟨rfl, rfl⟩ := hfin
  obtain ⟨⟨created, opts₂, urandom'⟩, hcreate, hclaim⟩ := Exec.bind_eq_ret.mp hinstall
  obtain rfl := claim_ictx hclaim
  refine ⟨?_, rfl⟩
  intro key h
  show opts₁ key = a.opts key
  rw [getguid_frame hguid h]
  exact create_frame (mapped_of_create hr.laid hcreate) hcreate h

omit [Qsort] in
theorem until_frame (huntil : partitioner_until m ictx = .ret a) :
    (∀ key, ¬ SetByPartitioner key → a.opts key = ictx.opts key) ∧
      (a.iprops = ictx.iprops ∨
        a.iprops = xhashmapPut ictx.iprops (cstr "ro.rtc_local_time") (cstr "1")) := by
  unfold partitioner_until at huntil
  obtain ⟨partlist, -, huntil⟩ := Exec.bind_eq_ret.mp huntil
  obtain ⟨disk, -, huntil⟩ := Exec.bind_eq_ret.mp huntil
  obtain ⟨s, -, huntil⟩ := Exec.bind_eq_ret.mp huntil
  obtain ⟨dualboot, -, huntil⟩ := Exec.bind_eq_ret.mp huntil
  -- Only the dual boot sets options before the table is made.
  split_ifs at huntil with hdual
  · obtain ⟨r⟩ := dual_boot_until_ret huntil
    rw [r.args_eq]
    refine ⟨fun key h => dual_opts_frame h, ?_⟩
    by_cases hwin : r.win_index ≠ 0
    · exact .inr (if_pos hwin)
    · exact .inl (if_neg hwin)
  · unfold wipe_disk_until at huntil
    cases hinit : m.gpt_init with
    | none =>
      rw [hinit] at huntil
      cases huntil
    | some init =>
      rw [hinit] at huntil
      obtain ⟨⟨ret, g, urandom⟩, -, huntil⟩ := Exec.bind_eq_ret.mp huntil
      simp only at huntil
      split_ifs at huntil
      obtain ⟨s, -, huntil⟩ := Exec.bind_eq_ret.mp huntil
      obtain ⟨len, -, huntil⟩ := Exec.bind_eq_ret.mp huntil
      injection huntil with huntil
      rw [← huntil]
      exact ⟨fun _ _ => rfl, .inl rfl⟩

/-- **What the partitioner leaves of the options**: all but the fields it sets. -/
theorem table_frame (htable : partitioner_table m ictx = .ret (g', ictx')) :
    (∀ key, ¬ SetByPartitioner key → ictx'.opts key = ictx.opts key) ∧
      (ictx'.iprops = ictx.iprops ∨
        ictx'.iprops = xhashmapPut ictx.iprops (cstr "ro.rtc_local_time") (cstr "1")) := by
  rw [partitioner_table_eq] at htable
  obtain ⟨a, huntil, hfin⟩ := Exec.bind_eq_ret.mp htable
  obtain ⟨partlist, -, hr⟩ := partitioner_until_ready huntil
  obtain ⟨hopts, hprops⟩ := until_frame huntil
  obtain ⟨hopts', hprops'⟩ := finish_frame hr hfin
  refine ⟨fun key h => (hopts' key h).trans (hopts key h), ?_⟩
  rw [hprops']
  exact hprops

end Frame

section Phases

variable {f : Plugin → Session → Exec Fatal Session} {plugins : List Plugin} {s s' : Session}

/-- What every plug-in preserves, a phase preserves. -/
theorem phase_invariant {I : Session → Prop}
    (hstep : ∀ p ∈ plugins, ∀ s s', I s → f p s = .ret s' → I s') (hs : I s)
    (h : phase f plugins s = .ret s') : I s' := by
  induction plugins generalizing s with
  | nil =>
    injection h with h
    exact h ▸ hs
  | cons p plugins ih =>
    obtain ⟨s₁, hone, h⟩ := Exec.bind_eq_ret.mp h
    have hs₁ := hstep p List.mem_cons_self s s₁ hs hone
    exact ih (fun q hq => hstep q (List.mem_cons_of_mem p hq)) hs₁ h

theorem phase_append (plugins plugins' : List Plugin) (s : Session) :
    phase f (plugins ++ plugins') s = (phase f plugins s >>= phase f plugins') := by
  induction plugins generalizing s with
  | nil => rfl
  | cons p plugins ih =>
    rw [List.cons_append, phase, phase, Exec.bind_assoc]
    congr 1
    funext s₁
    exact ih s₁

/-- A plug-in that does nothing need not be there. -/
theorem phase_filter {keep : Plugin → Bool} {I : Session → Prop}
    (hstep : ∀ p s s', I s → f p s = .ret s' → I s')
    (hidle : ∀ p s, I s → keep p = false → f p s = .ret s) (hs : I s) :
    phase f plugins s = phase f (plugins.filter keep) s := by
  induction plugins generalizing s with
  | nil => rfl
  | cons p plugins ih =>
    cases hkeep : keep p with
    | false =>
      rw [List.filter_cons_of_neg (by simp [hkeep]), phase, hidle p s hs hkeep, Exec.ret_bind]
      exact ih hs
    | true =>
      rw [List.filter_cons_of_pos hkeep, phase, phase]
      cases hone : f p s with
      | ret s₁ => exact ih (hstep p s s₁ hs hone)
      | die e => rfl
      | fault => rfl
      | hang => rfl

end Phases

section Execute

variable [Platform] [Qsort] {su : Setup} {fate : Fate} {s s' : Session} {p : Plugin} {disk : CStr}

/-- What a call of the partitioner has gone through. -/
theorem partitioner_run_ret (hdisk : s.ictx.opts BASE_INSTALL_DISK = some disk)
    (h : partitioner_run su s = .ret s') :
    let node := cstr "/dev/block/" ++ disk
    let d := s.host.disks node
    ∃ g ictx g' io', partitioner_table { su.machine with dev := d } s.ictx = .ret (g, ictx) ∧
      gpt_write (ε := Die) ⟨d, su.gpt_writes, false, []⟩ g = .ret (0, g', io') ∧
      (∀ key, key ≠ DISK_BUS_NAME → s'.ictx.opts key = ictx.opts key) ∧
      s'.ictx.iprops = ictx.iprops ∧ s'.host = s.host.tick.setDisk node io'.dev := by
  intro node d
  unfold partitioner_run at h
  obtain ⟨partlist, -, h⟩ := Exec.bind_eq_ret.mp h
  obtain ⟨disk', hdisk', h⟩ := Exec.bind_eq_ret.mp h
  rw [opt_none, hdisk] at hdisk'
  obtain rfl := Option.some.inj hdisk'
  simp only at h
  obtain ⟨⟨ictx, io'⟩, hexec, h⟩ := Exec.bind_eq_ret.mp h
  injection h with h
  have hexec := within_eq_ret.mp hexec
  unfold partitioner_execute at hexec
  obtain ⟨⟨g, ictx₁⟩, htable, hexec⟩ := Exec.bind_eq_ret.mp hexec
  obtain ⟨⟨ret, g', io₁⟩, hwrite, hexec⟩ := Exec.bind_eq_ret.mp hexec
  simp only at hexec
  split_ifs at hexec with hret
  simp only [Exec.ret.injEq, Prod.mk.injEq] at hexec
  obtain ⟨rfl, rfl⟩ := hexec
  obtain rfl := not_not.mp hret
  refine ⟨g, ictx₁, g', io₁, htable, hwrite, ?_⟩
  rw [← h]
  -- A disk without a bus name sets no option.
  cases hbus : get_bus_name (su.links disk) su.stack with
  | none => exact ⟨fun _ _ => rfl, rfl, rfl⟩
  | some bus => exact ⟨fun key hkey => xhashmapPut_of_ne hkey, rfl, rfl⟩

/-- The plug-ins behind the partitioner set one option. -/
theorem later_frame (hp : p ≠ .partitioner) (h : p.execute su fate s = .ret s') :
    (∀ key, key ≠ BASE_REBOOT → s'.ictx.opts key = s.ictx.opts key) ∧
      s'.ictx.iprops = s.ictx.iprops := by
  cases p with
  | partitioner => exact absurd rfl hp
  | imagewriter =>
    obtain ⟨g, -, h⟩ := Exec.bind_eq_ret.mp h
    injection h with h
    rw [← h]
    exact ⟨fun _ _ => rfl, rfl⟩
  | ota =>
    unfold Plugin.execute ota_execute at h
    obtain ⟨srcfile, -, h⟩ := Exec.bind_eq_ret.mp h
    split_ifs at h with hnone
    · injection h with h
      rw [← h]
      exact ⟨fun _ _ => rfl, rfl⟩
    -- The calls on the host change files and mounts, and then one option is put.
    cases htmp : su.mkdtemp s.host.calls with
    | none =>
      rw [htmp] at h
      cases h
    | some mountpoint =>
      rw [htmp] at h
      obtain ⟨device, -, h⟩ := Exec.bind_eq_ret.mp h
      obtain ⟨type, -, h⟩ := Exec.bind_eq_ret.mp h
      obtain ⟨w₁, -, h⟩ := Exec.bind_eq_ret.mp h
      obtain ⟨w₂, -, h⟩ := Exec.bind_eq_ret.mp h
      obtain ⟨w₃, -, h⟩ := Exec.bind_eq_ret.mp h
      obtain ⟨⟨fd, w₄⟩, -, h⟩ := Exec.bind_eq_ret.mp h
      obtain ⟨⟨fd', w₅⟩, -, h⟩ := Exec.bind_eq_ret.mp h
      obtain ⟨w₆, -, h⟩ := Exec.bind_eq_ret.mp h
      injection h with h
      rw [← h]
      exact ⟨fun key hkey => xhashmapPut_of_ne hkey, rfl⟩
  | gummiboot =>
    obtain ⟨w, -, h⟩ := Exec.bind_eq_ret.mp h
    injection h with h
    rw [← h]
    exact ⟨fun _ _ => rfl, rfl⟩
  | syslinux =>
    obtain ⟨w, -, h⟩ := Exec.bind_eq_ret.mp h
    injection h with h
    rw [← h]
    exact ⟨fun _ _ => rfl, rfl⟩
  | userfastboot =>
    injection h with h
    rw [← h]
    exact ⟨fun _ _ => rfl, rfl⟩
  | finalizer =>
    obtain ⟨device, -, h⟩ := Exec.bind_eq_ret.mp h
    obtain ⟨type, -, h⟩ := Exec.bind_eq_ret.mp h
    obtain ⟨w₁, -, h⟩ := Exec.bind_eq_ret.mp h
    obtain ⟨w₂, -, h⟩ := Exec.bind_eq_ret.mp h
    injection h with h
    rw [← h]
    exact ⟨fun _ _ => rfl, rfl⟩

/-- An option no plug-in sets when it executes. -/
structure Settled (key : CStr) : Prop where
  partition : ¬ SetByPartitioner key
  bus : key ≠ DISK_BUS_NAME
  reboot : key ≠ BASE_REBOOT

/-- A key that is settled is left by every plug-in. -/
theorem execute_frame {key : CStr} (hkey : Settled key) (h : p.execute su fate s = .ret s') :
    s'.ictx.opts key = s.ictx.opts key := by
  by_cases hp : p = .partitioner
  · subst hp
    have hrun : partitioner_run su s = .ret s' := h
    obtain ⟨disk, hdisk⟩ : ∃ disk, s.ictx.opts BASE_INSTALL_DISK = some disk := by
      unfold partitioner_run at hrun
      obtain ⟨partlist, -, hrun⟩ := Exec.bind_eq_ret.mp hrun
      obtain ⟨disk, hdisk, -⟩ := Exec.bind_eq_ret.mp hrun
      exact ⟨disk, opt_none.mp hdisk⟩
    obtain ⟨g, ictx, g', io', htable, -, hopts, -⟩ := partitioner_run_ret hdisk hrun
    rw [hopts key hkey.bus, (table_frame htable).1 key hkey.partition]
  · exact (later_frame hp h).1 key hkey.reboot

end Execute

end Installer

end Iago
