/-
The execution phase, stage by stage.

Between the plug-ins that are always there are those for the boot loaders, of which one acts
(`filter_chosen`); so a phase comes to five stages (`execution_stages`). Only the first sets
options the others read. What the OTA plug-in and the finalizer leave, on the partitions they
mount, is `ota_ret` and `finalizer_ret`.
-/
import Iago.OneLoader
import Iago.TableKept

set_option autoImplicit false

namespace Iago

namespace Installer

open NewfsMsdos (within_eq_ret)

/-! ## The stages -/

/-- The plug-ins a build can add, each once. -/
structure Loaders (ext : List Plugin) : Prop where
  mem : ∀ p ∈ ext, p = .gummiboot ∨ p = .syslinux ∨ p = .userfastboot
  nodup : ext.Nodup

section Filter

variable {ext : List Plugin} {opts : Hashmap} {p : Plugin}

/-- One plug-in that acts is left of them. -/
theorem filter_chosen (hext : Loaders ext) (hp : p ∈ ext) (hacts : acts opts p = true)
    (hothers : ∀ q ∈ ext, acts opts q = true → q = p) : ext.filter (acts opts) = [p] := by
  have hsame : ext.filter (acts opts) = ext.filter (· == p) := by
    refine List.filter_congr fun q hq => ?_
    by_cases heq : q = p
    · rw [heq, hacts, beq_self_eq_true]
    · rw [beq_eq_false_iff_ne.mpr heq]
      exact Bool.eq_false_iff.mpr fun h => heq (hothers q hq h)
  rw [hsame, List.filter_beq, List.count_eq_one_of_mem hext.nodup hp]
  rfl

/-- With the one loader chosen, it is the one that acts. -/
theorem filter_gummiboot (hext : Loaders ext) (hp : .gummiboot ∈ ext)
    (hsel : opts BASE_BOOTLOADER = some (cstr "gummiboot")) :
    ext.filter (acts opts) = [.gummiboot] := by
  refine filter_chosen hext hp (decide_eq_true hsel) ?_
  intro q hq hacts
  rcases hext.mem q hq with rfl | rfl | rfl
  · rfl
  · have hsys := of_decide_eq_true hacts
    rw [hsel] at hsys
    exact absurd hsys (by decide)
  · cases hacts

theorem filter_syslinux (hext : Loaders ext) (hp : .syslinux ∈ ext)
    (hsel : opts BASE_BOOTLOADER = some (cstr "syslinux")) :
    ext.filter (acts opts) = [.syslinux] := by
  refine filter_chosen hext hp (decide_eq_true hsel) ?_
  intro q hq hacts
  rcases hext.mem q hq with rfl | rfl | rfl
  · have hgum := of_decide_eq_true hacts
    rw [hsel] at hgum
    exact absurd hgum (by decide)
  · rfl
  · cases hacts

end Filter

section Stages

variable [Platform] [Qsort] {su : Setup} {fate : Fate} {ext plugins : List Plugin}
  {s s' s₁ : Session} {disk : CStr}

/-- The five stages of a phase that returned. -/
structure Stages (su : Setup) (fate : Fate) (loaders : List Plugin) (s s₁ s₂ s₃ s₄ s' : Session) :
    Prop where
  partitioner : partitioner_run su s = .ret s₁
  imagewriter : imagewriter_run su s₁ = .ret s₂
  ota : ota_execute su fate s₂ = .ret s₃
  loader : phase (Plugin.execute su fate) loaders s₃ = .ret s₄
  finalizer : finalizer_execute su fate s₄ = .ret s'

/-- A phase that returns has gone through four stages. -/
theorem execution_stages
    (h : execution_phase su fate (registered ext) s = .ret s') :
    ∃ s₁ s₂ s₃ s₄, Stages su fate (ext.filter (acts s.ictx.opts)) s s₁ s₂ s₃ s₄ s' := by
  rw [only_the_chosen_act, registered, List.filter_append, List.filter_append, execution_phase,
    phase_append, phase_append] at h
  obtain ⟨s₄, h, hlast⟩ := Exec.bind_eq_ret.mp h
  obtain ⟨s₃, h, hloader⟩ := Exec.bind_eq_ret.mp h
  obtain ⟨s₁, hpart, h⟩ := Exec.bind_eq_ret.mp h
  obtain ⟨s₂, himage, h⟩ := Exec.bind_eq_ret.mp h
  obtain ⟨s₃', hota, h⟩ := Exec.bind_eq_ret.mp h
  obtain ⟨s'', hfin, hlast⟩ := Exec.bind_eq_ret.mp hlast
  injection h with h
  injection hlast with hlast
  exact ⟨s₁, s₂, s₃, s₄, hpart, himage, h ▸ hota, hloader, hlast ▸ hfin⟩

/-- Behind the partitioner one option is set. -/
theorem later_phase_frame (hp : .partitioner ∉ plugins) {key : CStr} (hkey : key ≠ BASE_REBOOT)
    (h : phase (Plugin.execute su fate) plugins s = .ret s') :
    s'.ictx.opts key = s.ictx.opts key ∧ s'.ictx.iprops = s.ictx.iprops := by
  refine phase_invariant (I := fun s' => s'.ictx.opts key = s.ictx.opts key ∧
    s'.ictx.iprops = s.ictx.iprops) ?_ ⟨rfl, rfl⟩ h
  rintro p hmem s₁ s₂ ⟨hopts, hprops⟩ hret
  obtain ⟨hopts', hprops'⟩ := later_frame (fun heq => hp (heq ▸ hmem)) hret
  exact ⟨(hopts' key hkey).trans hopts, hprops'.trans hprops⟩

variable {loaders : List Plugin} {s₂ s₃ s₄ : Session} {g : Gpt} {ictx : Ictx}

/-- What the partitioner has published is what the later stages read. -/
theorem Stages.published (h : Stages su fate loaders s s₁ s₂ s₃ s₄ s')
    (hloaders : .partitioner ∉ loaders) (hdisk : s.ictx.opts BASE_INSTALL_DISK = some disk)
    (htable : partitioner_table
      { su.machine with dev := s.host.disks (cstr "/dev/block/" ++ disk) } s.ictx = .ret (g, ictx))
    {key : CStr} (hbus : key ≠ DISK_BUS_NAME) (hreboot : key ≠ BASE_REBOOT) :
    s₂.ictx.opts key = ictx.opts key ∧ s₃.ictx.opts key = ictx.opts key ∧
      s₄.ictx.opts key = ictx.opts key := by
  obtain ⟨g', ictx', g'', io', htable', -, hopts, -⟩ := partitioner_run_ret hdisk h.partitioner
  rw [htable] at htable'
  simp only [Exec.ret.injEq, Prod.mk.injEq] at htable'
  obtain ⟨rfl, rfl⟩ := htable'
  have himage : Plugin.execute su fate .imagewriter s₁ = .ret s₂ := h.imagewriter
  have hota : Plugin.execute su fate .ota s₂ = .ret s₃ := h.ota
  have h₂ : s₂.ictx.opts key = ictx.opts key := by
    rw [(later_frame (by decide) himage).1 key hreboot, hopts key hbus]
  have h₃ : s₃.ictx.opts key = ictx.opts key := by
    rw [(later_frame (by decide) hota).1 key hreboot, h₂]
  refine ⟨h₂, h₃, ?_⟩
  rw [(later_phase_frame hloaders hreboot h.loader).1, h₃]

end Stages

/-! ## The update for the second phase -/

section Ota

variable {su : Setup} {fate : Fate} {s s' : Session} {device srcfile : CStr}

/-- The file recovery reads its command from. -/
def ota_command : CStr := cstr "--update_package=/cache/ota.zip"

/-- What `ota_execute` leaves on the cache partition: a beginning of the update, and the command
that has recovery take it. -/
structure Staged (update : CStr → Option (List UInt8)) (srcfile device : CStr) (w w' : Host) : Prop where
  zip : ∃ bytes n, update srcfile = some bytes ∧
    w'.files (some device, [cstr "ota.zip"]) = some (bytes.take n)
  command : w'.files (some device, [cstr "recovery", cstr "command"]) = some ota_command
  kept : ∀ p : Place, p ≠ (some device, [cstr "ota.zip"]) →
    p ≠ (some device, [cstr "recovery", cstr "command"]) → w'.files p = w.files p
  disks : w'.disks = w.disks
  ran : w'.ran = w.ran

/-- A path into the directory that was mounted on. -/
theorem resolve_under {mountpoint r : CStr} {path : List CStr}
    (h : ∀ dir, (Path.names r).foldl Path.enter dir = dir ++ path) :
    Path.resolve (mountpoint ++ 47 :: r) = Path.resolve mountpoint ++ path := by
  rw [Path.resolve_slash, h]

/-- With nothing to stage nothing happens. -/
theorem ota_idle (h : (s.ictx.opts BASE_OTA).getD (cstr "none") = cstr "none") :
    ota_execute su fate s = .ret s := by
  have hopt : opt s.ictx.opts (some (cstr "none")) BASE_OTA = .ret (cstr "none") := opt_some.mpr h
  rw [ota_execute, hopt, Exec.ret_bind, if_pos rfl]

/-- **What the OTA plug-in does**, where it has something to do. -/
theorem ota_ret (hota : s.ictx.opts BASE_OTA = some srcfile) (hsrc : srcfile ≠ cstr "none")
    (hdevice : s.ictx.opts (partition_key (cstr "cache") "device") = some device)
    (hmount : ∀ k, fate.mount k ≠ .busy) (h : ota_execute su fate s = .ret s') :
    s'.ictx.opts BASE_REBOOT = some (cstr "recovery") ∧
      ∃ mountpoint, su.mkdtemp s.host.calls = some mountpoint ∧
        Staged (fun path => s.host.files (Path.locate
          ((Path.resolve mountpoint, device) :: s.host.mounts) (Path.resolve path)))
          srcfile device s.host s'.host := by
  unfold ota_execute at h
  obtain ⟨src, hopt, h⟩ := Exec.bind_eq_ret.mp h
  rw [opt_some, hota, Option.getD_some] at hopt
  subst hopt
  rw [if_neg hsrc] at h
  cases htmp : su.mkdtemp s.host.calls with
  | none =>
    rw [htmp] at h
    cases h
  | some mountpoint =>
    rw [htmp] at h
    obtain ⟨dev, hdev, h⟩ := Exec.bind_eq_ret.mp h
    rw [opt_none, hdevice] at hdev
    obtain rfl := Option.some.inj hdev
    obtain ⟨type, -, h⟩ := Exec.bind_eq_ret.mp h
    obtain ⟨wm, hmounted, h⟩ := Exec.bind_eq_ret.mp h
    obtain ⟨w₁, hcopy, h⟩ := Exec.bind_eq_ret.mp h
    obtain ⟨w₂, hmkdir, h⟩ := Exec.bind_eq_ret.mp h
    obtain ⟨⟨fd, w₃⟩, hopen, h⟩ := Exec.bind_eq_ret.mp h
    obtain ⟨⟨fd', w₄⟩, hput, h⟩ := Exec.bind_eq_ret.mp h
    obtain ⟨w₅, hclose, h⟩ := Exec.bind_eq_ret.mp h
    injection h with h
    -- the mount
    obtain ⟨hfiles, hran, hdisks, hmounts⟩ := mount_ret hmounted
    rw [if_neg (hmount _)] at hmounts
    -- the copy
    obtain ⟨bytes, n, hbytes, hw₁⟩ := copy_file_ret hcopy
    have hzip : wm.place (mountpoint ++ cstr "/ota.zip") = (some device, [cstr "ota.zip"]) :=
      place_mounted hmounts (resolve_under (r := cstr "ota.zip") fun _ => rfl)
    rw [hzip] at hw₁
    rw [hfiles] at hbytes
    have hsource : wm.place srcfile = Path.locate
        ((Path.resolve mountpoint, device) :: s.host.mounts) (Path.resolve srcfile) := by
      rw [Host.place, hmounts]
      rfl
    rw [hsource] at hbytes
    -- the command
    have hsame := xmkdir_ret hmkdir
    obtain ⟨ho, hempty, -⟩ := xopen_ret hopen
    obtain ⟨ho', htext⟩ := put_string_ret hput ho
    have hw₅ := xclose_ret hclose ho'
    rw [if_pos rfl] at hempty
    rw [htext, Dest.put_empty hempty] at hw₅
    have hcommand : w₂.place (mountpoint ++ cstr "/recovery/command")
        = (some device, [cstr "recovery", cstr "command"]) := by
      refine place_mounted (hsame.mounts.trans (hw₁.mounts.trans hmounts))
        (resolve_under (r := cstr "recovery/command") fun dir => ?_)
      show (dir ++ [cstr "recovery"]) ++ [cstr "command"] = _
      rw [List.append_assoc]
      rfl
    rw [hcommand] at hw₅
    have hhost : s'.host.files = w₅.files ∧ s'.host.disks = w₅.disks ∧ s'.host.ran = w₅.ran := by
      rw [← h]
      exact ⟨umount_files _ _, umount_disks _ _, umount_ran _ _⟩
    have hne : ((some device, [cstr "ota.zip"]) : Place)
        ≠ (some device, [cstr "recovery", cstr "command"]) := by
      intro heq
      simp only [Prod.mk.injEq, true_and] at heq
      exact absurd (congrArg List.length heq) (by decide)
    have hreboot : s'.ictx.opts BASE_REBOOT = some (cstr "recovery") := by
      rw [← h]
      exact put_self _ _
    refine ⟨hreboot, mountpoint, rfl, ?_⟩
    exact {
      zip := ⟨bytes, n, hbytes, by rw [hhost.1, hw₅.of_ne hne, hsame.files, hw₁.self]⟩
      command := by rw [hhost.1, hw₅.self, ota_command]
      kept := fun p hp hp' => by
        rw [hhost.1, hw₅.of_ne hp', hsame.files, hw₁.of_ne hp, hfiles]
        rfl
      disks := by
        rw [hhost.2.1, hw₅.disks, hsame.disks, hw₁.disks, hdisks]
        rfl
      ran := by
        rw [hhost.2.2, hw₅.ran, hsame.ran, hw₁.ran, hran]
        rfl }

end Ota

/-! ## The properties -/

section Finalizer

variable {su : Setup} {fate : Fate} {s s' : Session} {device : CStr} {w w' w₁ : Host} {p : Place}
  {fd fd' : Fd} {rest : List CStr}

/-- A line for a property. -/
def prop_line (prop : CStr × CStr) : CStr := prop.1 ++ cstr "=" ++ prop.2 ++ cstr "\n"

/-- The lines, one after the other; by induction on the properties. -/
theorem write_props_ret {props : List (CStr × CStr)}
    (h : write_props fate props fd w₁ = .ret (fd', w')) (hopen : Opened w w₁ p fd) :
    Opened w w' p fd' ∧ fd'.dest = fd.dest.put (props.flatMap prop_line) := by
  induction props generalizing fd w₁ with
  | nil =>
    simp only [write_props, Exec.ret.injEq, Prod.mk.injEq] at h
    obtain ⟨rfl, rfl⟩ := h
    exact ⟨hopen, (Dest.put_nil _).symm⟩
  | cons prop props ih =>
    obtain ⟨⟨fd₂, w₂⟩, hone, h⟩ := Exec.bind_eq_ret.mp h
    obtain ⟨ho, hd⟩ := put_string_ret hone hopen
    obtain ⟨ho', hd'⟩ := ih h ho
    refine ⟨ho', ?_⟩
    rw [hd', hd, Dest.put_put, List.flatMap_cons, prop_line]

/-- The file of the properties, which is not cut before it is written. -/
def factory_prop (su : Setup) (iprops : Hashmap) (old : Option (List UInt8)) : CStr :=
  (su.forEach iprops).flatMap prop_line
    ++ (old.getD []).drop ((su.forEach iprops).flatMap prop_line).length

/-- The file is on the partition that is mounted for it. -/
def PropsAt (su : Setup) (rest : List CStr) : Prop :=
  Path.resolve (cstr "/mnt/" ++ su.PROP_PATH_FACTORY) = Path.resolve (cstr "/mnt/factory") ++ rest

/-- **What the finalizer does**: it writes one file. -/
theorem finalizer_ret
    (hdevice : s.ictx.opts (partition_key (cstr "factory") "device") = some device)
    (hpath : PropsAt su rest) (hmount : ∀ k, fate.mount k ≠ .busy)
    (h : finalizer_execute su fate s = .ret s') :
    s'.ictx = s.ictx ∧ Written s.host { s'.host with mounts := s.host.mounts } (some device, rest)
      (factory_prop su s.ictx.iprops (s.host.files (some device, rest))) := by
  unfold finalizer_execute at h
  obtain ⟨dev, hdev, h⟩ := Exec.bind_eq_ret.mp h
  rw [opt_none, hdevice] at hdev
  obtain rfl := Option.some.inj hdev
  obtain ⟨type, -, h⟩ := Exec.bind_eq_ret.mp h
  obtain ⟨wm, hmounted, h⟩ := Exec.bind_eq_ret.mp h
  obtain ⟨wp, hprops, h⟩ := Exec.bind_eq_ret.mp h
  injection h with h
  obtain ⟨hfiles, hran, hdisks, hmounts⟩ := mount_ret hmounted
  -- The partition is mounted, so the path leads to it and not to what lies under it.
  rw [if_neg (hmount _)] at hmounts
  unfold write_install_props at hprops
  obtain ⟨⟨fd, w₁⟩, hopen, hprops⟩ := Exec.bind_eq_ret.mp hprops
  obtain ⟨⟨fd', w₂⟩, hloop, hclose⟩ := Exec.bind_eq_ret.mp hprops
  obtain ⟨ho, hbytes, hpos⟩ := xopen_ret hopen
  obtain ⟨ho', hd⟩ := write_props_ret hloop ho
  have hwritten := xclose_ret hclose ho'
  rw [if_neg Bool.false_ne_true] at hbytes hpos
  rw [place_mounted hmounts hpath] at hbytes hwritten
  -- The file is neither cut nor appended to: the lines go over what is in it.
  rw [hd, Dest.put_start hpos, hbytes, hfiles] at hwritten
  refine ⟨by rw [← h], ?_⟩
  exact {
    files := by
      rw [← h]
      show (umount fate _ wp).files = _
      rw [umount_files, hwritten.files, hfiles]
      rfl
    mounts := rfl
    disks := by
      rw [← h]
      show (umount fate _ wp).disks = _
      rw [umount_disks, hwritten.disks, hdisks]
    ran := by
      rw [← h]
      show (umount fate _ wp).ran = _
      rw [umount_ran, hwritten.ran, hran] }

end Finalizer

/-! ## Partitions have nodes of their own -/

section Nodes

variable {g : Gpt} {i j : UInt32} {node node' disk : CStr}

/-- The node of a partition is the disk and the index. -/
theorem device_node_eq (h : gpt_get_device_node (ε := Die) i g = .ret node) :
    ∃ p, node = g.device ++ p ++ decInt i.toInt32.toInt ∧
      ∀ j node', gpt_get_device_node (ε := Die) j g = .ret node' →
        node' = g.device ++ p ++ decInt j.toInt32.toInt := by
  unfold gpt_get_device_node at h
  cases hlast : g.device.getLast? with
  | none =>
    rw [hlast] at h
    cases h
  | some c =>
    rw [hlast] at h
    simp only at h
    split_ifs at h with hdigit
    · injection h with h
      refine ⟨cstr "p", h.symm, ?_⟩
      intro j node' h'
      unfold gpt_get_device_node at h'
      rw [hlast] at h'
      simp only [if_pos hdigit] at h'
      injection h' with h'
      exact h'.symm
    · injection h with h
      refine ⟨[], by rw [List.append_nil, ← h], ?_⟩
      intro j node' h'
      unfold gpt_get_device_node at h'
      rw [hlast] at h'
      simp only [if_neg hdigit] at h'
      injection h' with h'
      rw [List.append_nil, ← h']

/-- Two entries have two nodes. -/
theorem device_node_injective (hg : g.Mapped) (hi : g.Index i) (hj : g.Index j)
    (h : gpt_get_device_node (ε := Die) i g = .ret node)
    (h' : gpt_get_device_node (ε := Die) j g = .ret node) : i = j := by
  obtain ⟨p, hnode, hother⟩ := device_node_eq h
  have heq := hother j node h'
  rw [hnode] at heq
  have hindex := List.append_cancel_left heq
  rw [decInt_index hg hi, decInt_index hg hj] at hindex
  exact UInt32.toNat_inj.mp (dec_injective hindex)

variable [Platform] {opts : Hashmap} {list : List CStr} {n k : CStr} {device device' : CStr}

/-- So have two partitions of the list. -/
theorem published_apart (hg : g.Mapped) (hpub : PublishesTable disk g opts list) (hn : n ∈ list)
    (hk : k ∈ list) (hne : n ≠ k) (hdevice : opts (partition_key n "device") = some device)
    (hdevice' : opts (partition_key k "device") = some device') : device ≠ device' := by
  rintro rfl
  obtain ⟨i, hi⟩ := hpub.published n hn
  obtain ⟨j, hj⟩ := hpub.published k hk
  obtain ⟨node, hnode, hopt⟩ := hi.device
  obtain ⟨node', hnode', hopt'⟩ := hj.device
  rw [hdevice] at hopt
  rw [hdevice'] at hopt'
  obtain rfl := Option.some.inj hopt
  obtain rfl := Option.some.inj hopt'
  obtain rfl := device_node_injective hg hi.inUse.1 hj.inUse.1 hnode hnode'
  exact hpub.apart n hn k hk hne (hi.index.trans hj.index.symm)

/-- A node is a path. -/
theorem published_node (hpub : PublishesTable disk g opts list) (hn : n ∈ list)
    (hdevice : opts (partition_key n "device") = some device) : device.head? = some 47 := by
  obtain ⟨i, hi⟩ := hpub.published n hn
  obtain ⟨node, hnode, hopt⟩ := hi.device
  obtain ⟨p, heq, -⟩ := device_node_eq hnode
  rw [hdevice] at hopt
  obtain rfl := Option.some.inj hopt
  rw [heq, hi.install_disk]
  rfl

end Nodes

end Installer

end Iago
