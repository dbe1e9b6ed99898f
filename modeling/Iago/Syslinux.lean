/-
The plug-in for the boot loader SYSLINUX.

Its `execute` writes the boot code to the start of the disk and has a program of its own
install the loader; then it mounts the partition and adds to a copy of its template: a line
for the `misc` partition, and for every boot image a label. What the labels say of a partition
is its index.

`syslinux_installs` is what the menu and the disk are afterwards. The copy of the template can
be short, as every copy can; the text that is added is whole.
-/
import Iago.Gummiboot

set_option autoImplicit false

namespace Iago

namespace Installer

namespace Syslinux

/-! ## The code -/

def BOOTLOADER_PATH : CStr := cstr "/mnt/bootloader/"
def IMAGES_PATH : CStr := cstr "/installmedia/images/"
def SYSLINUX_BIN : CStr := cstr "/installmedia/images/android_syslinux"
def SYSLINUX_CFG_TEM_FN : CStr := cstr "/installmedia/images/syslinux.template.cfg"
def SYSLINUX_MBR : CStr := cstr "/installmedia/images/gptmbr.bin"
def SYSLINUX_CFG_FN : CStr := BOOTLOADER_PATH ++ cstr "/syslinux.cfg"

/-- `syslinux_cli`. -/
def syslinux_cli [Stack] (ictx : Ictx) (stdin : List UInt8) : Exec Die (Ictx × List UInt8) := do
  let loader ← hashmapGetPrintf ictx.opts (some (cstr "none")) BASE_BOOTLOADER
  if loader ≠ cstr "none" then .ret (ictx, stdin)
  else do
    let (install, stdin) ← ui_ask (Stack.buf .syslinux) true stdin
    if ¬ install then .ret (ictx, stdin)
    else .ret (ictx.put BASE_BOOTLOADER (cstr "syslinux"), stdin)

variable (fate : Fate) (opts : Hashmap)

/-- `do_install_syslinux`. -/
def do_install_syslinux (device : CStr) (w : Host) : Exec Fatal Host := do
  let (rv, w) ← execute_command fate (SYSLINUX_BIN ++ cstr " --install " ++ device) w
  if rv ≠ 0 then .die (.syslinux rv) else .ret w

/-- `bootimage_cb`; the context is the descriptor of the menu. -/
def bootimage_cb (entry : CStr) (_index : ℕ) (s : Fd × Host) : Exec Fatal (Bool × Fd × Host) := do
  let (fd, w) := s
  let description ← opt opts none (partition_key entry "description")
  let (fd, w) ← put_string fate (cstr "label " ++ entry ++ cstr "\n") fd w
  let (fd, w) ← put_string fate (cstr "    menu label ^" ++ description ++ cstr "\n") fd w
  let (fd, w) ← put_string fate (cstr "    com32 android.c32\n") fd w
  let disk ← opt opts none (partition_key entry "index")
  let (fd, w) ← put_string fate (cstr "    append current " ++ disk) fd w
  let bus ← opt opts (some []) DISK_BUS_NAME
  let (fd, w) ← (if bus ≠ [] then put_string fate (cstr " androidboot.disk=" ++ bus) fd w
    else .ret (fd, w))
  let (fd, w) ← put_string fate (cstr "\n") fd w
  .ret (true, fd, w)

/-- `syslinux_execute`. -/
def syslinux_execute (w : Host) : Exec Fatal Host := do
  let loader ← opt opts (some (cstr "none")) BASE_BOOTLOADER
  if loader ≠ cstr "syslinux" then .ret w
  else do
    let disk ← opt opts none BASE_INSTALL_DISK
    let w ← dd fate SYSLINUX_MBR (cstr "/dev/block/" ++ disk) w
    -- `chmod`, of which nobody asks how it came out
    let w := w.tick
    let bootimages ← opt opts none BASE_BOOT_LIST
    let device ← opt opts none (partition_key (cstr "bootloader") "device")
    let w ← do_install_syslinux fate device w
    let w ← mount_partition_device fate device (cstr "vfat") BOOTLOADER_PATH w
    let w ← copy_file fate (IMAGES_PATH ++ cstr "vesamenu.c32")
      (BOOTLOADER_PATH ++ cstr "vesamenu.c32") w
    let w ← copy_file fate (IMAGES_PATH ++ cstr "android.c32")
      (BOOTLOADER_PATH ++ cstr "android.c32") w
    let w ← copy_file fate SYSLINUX_CFG_TEM_FN SYSLINUX_CFG_FN w
    let (fd, w) ← xopen fate SYSLINUX_CFG_FN ⟨false, false, true⟩ w
    let misc ← opt opts none (partition_key (cstr "misc") "index")
    let (fd, w) ← put_string fate (cstr "menu androidcommand " ++ misc ++ cstr "\n") fd w
    let (_, w) ← string_list_iterate bootimages (bootimage_cb fate opts) (fd, w)
    let w ← xclose fate w
    .ret (umount fate BOOTLOADER_PATH w).tick

/-! ## The menu -/

/-- The label of a boot image. -/
def label (entry description index bus : CStr) : CStr :=
  cstr "label " ++ entry ++ cstr "\n" ++ (cstr "    menu label ^" ++ description ++ cstr "\n") ++
    cstr "    com32 android.c32\n" ++ (cstr "    append current " ++ index) ++
    (if bus ≠ [] then cstr " androidboot.disk=" ++ bus else []) ++ cstr "\n"

/-- By the options. -/
def label_text (opts : Hashmap) (entry : CStr) : CStr :=
  label entry ((opts (partition_key entry "description")).getD [])
    ((opts (partition_key entry "index")).getD []) ((opts DISK_BUS_NAME).getD [])

/-- What is added to the template. -/
def menu_text (opts : Hashmap) (list : List CStr) : CStr :=
  cstr "menu androidcommand " ++ ((opts (partition_key (cstr "misc") "index")).getD []) ++ cstr "\n"
    ++ list.flatMap (label_text opts)

section Menu

variable {fate} {opts} {w w' w₁ : Host} {p : Place} {fd fd' : Fd} {entry : CStr} {idx : ℕ}
  {list : List CStr}

/-- One label. -/
theorem bootimage_cb_ret {go : Bool}
    (h : bootimage_cb fate opts entry idx (fd, w₁) = .ret (go, fd', w')) (hopen : Opened w w₁ p fd) :
    go = true ∧ (∃ index, opts (partition_key entry "index") = some index) ∧
      Opened w w' p fd' ∧ fd'.dest = fd.dest.put (label_text opts entry) := by
  unfold bootimage_cb at h
  simp only at h
  obtain ⟨description, hdesc, h⟩ := Exec.bind_eq_ret.mp h
  obtain ⟨⟨fd₁, w₂⟩, hput₁, h⟩ := Exec.bind_eq_ret.mp h
  obtain ⟨⟨fd₂, w₃⟩, hput₂, h⟩ := Exec.bind_eq_ret.mp h
  obtain ⟨⟨fd₃, w₄⟩, hput₃, h⟩ := Exec.bind_eq_ret.mp h
  obtain ⟨disk, hdisk, h⟩ := Exec.bind_eq_ret.mp h
  obtain ⟨⟨fd₄, w₅⟩, hput₄, h⟩ := Exec.bind_eq_ret.mp h
  obtain ⟨bus, hbus, h⟩ := Exec.bind_eq_ret.mp h
  obtain ⟨⟨fd₅, w₆⟩, hput₅, h⟩ := Exec.bind_eq_ret.mp h
  obtain ⟨⟨fd₆, w₇⟩, hput₆, h⟩ := Exec.bind_eq_ret.mp h
  simp only [Exec.ret.injEq, Prod.mk.injEq] at h
  obtain ⟨rfl, rfl, rfl⟩ := h
  rw [opt_none] at hdesc hdisk
  rw [opt_some] at hbus
  obtain ⟨ho₁, hd₁⟩ := put_string_ret hput₁ hopen
  obtain ⟨ho₂, hd₂⟩ := put_string_ret hput₂ ho₁
  obtain ⟨ho₃, hd₃⟩ := put_string_ret hput₃ ho₂
  obtain ⟨ho₄, hd₄⟩ := put_string_ret hput₄ ho₃
  -- The bus name is only put if there is one.
  have hlast : Opened w w₆ p fd₅ ∧
      fd₅.dest = fd₄.dest.put (if bus ≠ [] then cstr " androidboot.disk=" ++ bus else []) := by
    split_ifs at hput₅ ⊢ with hempty
    · exact put_string_ret hput₅ ho₄
    · simp only [Exec.ret.injEq, Prod.mk.injEq] at hput₅
      obtain ⟨rfl, rfl⟩ := hput₅
      exact ⟨ho₄, (Dest.put_nil _).symm⟩
  obtain ⟨ho₅, hd₅⟩ := hlast
  obtain ⟨ho₆, hd₆⟩ := put_string_ret hput₆ ho₅
  refine ⟨rfl, ⟨disk, hdisk⟩, ho₆, ?_⟩
  rw [hd₆, hd₅, hd₄, hd₃, hd₂, hd₁, label_text, label, hdesc, hdisk, hbus]
  simp only [Dest.put_put, Option.getD_some, List.append_assoc]

/-- All labels, by induction on the list. -/
theorem labels_written (h : iterate (bootimage_cb fate opts) list idx (fd, w₁) = .ret (fd', w'))
    (hopen : Opened w w₁ p fd) :
    (∀ n ∈ list, ∃ index, opts (partition_key n "index") = some index) ∧
      Opened w w' p fd' ∧ fd'.dest = fd.dest.put (list.flatMap (label_text opts)) := by
  induction list generalizing idx fd w₁ with
  | nil =>
    simp only [iterate, Exec.ret.injEq, Prod.mk.injEq] at h
    obtain ⟨rfl, rfl⟩ := h
    exact ⟨fun n hn => absurd hn List.not_mem_nil, hopen, (Dest.put_nil _).symm⟩
  | cons entry list ih =>
    obtain ⟨⟨go, fd₂, w₂⟩, hstep, h⟩ := Exec.bind_eq_ret.mp h
    obtain ⟨rfl, hindex, ho₂, hd₂⟩ := bootimage_cb_ret hstep hopen
    simp only [if_true] at h
    obtain ⟨hindices, ho, hd⟩ := ih h ho₂
    refine ⟨?_, ho, ?_⟩
    · intro n hn
      rcases List.mem_cons.mp hn with rfl | hn
      · exact hindex
      · exact hindices n hn
    · rw [hd, hd₂, Dest.put_put, List.flatMap_cons]

end Menu

/-! ## What is on the partition and on the disk afterwards -/

section Installs

variable {fate} {opts} {w w' wm : Host} {disk device bootimages : CStr}
  {table : List (List CStr × CStr)}

/-- The files that are written. -/
def support : List (List CStr) :=
  [[cstr "vesamenu.c32"], [cstr "android.c32"], [cstr "syslinux.cfg"]]

/-- **What `syslinux_execute` leaves**: the menu is a beginning of the template and the text that
is added to it, with an index for every boot image; the boot code is at the start of the disk,
and the rest of the disk is as it was; the program that installs the loader was killed or found
nothing wrong. No other file has changed but the copies. -/
structure Installed (opts : Hashmap) (disk device bootimages : CStr) (w w' : Host) : Prop where
  menu : ∃ template n, w.files (w.place SYSLINUX_CFG_TEM_FN) = some template ∧
    w'.files (some device, [cstr "syslinux.cfg"])
      = some (template.take n ++ menu_text opts (entries bootimages))
  misc : ∃ index, opts (partition_key (cstr "misc") "index") = some index
  indices : ∀ n ∈ entries bootimages, ∃ index, opts (partition_key n "index") = some index
  files_kept : ∀ p : Place, ¬ (p.1 = some device ∧ p.2 ∈ support) → w'.files p = w.files p
  boot_code : ∃ code n, w.files (w.place SYSLINUX_MBR) = some code ∧
    (code.take n).length ≤ (w.disks (cstr "/dev/block/" ++ disk)).size ∧
    w'.disks = Function.update w.disks (cstr "/dev/block/" ++ disk)
      ((w.disks (cstr "/dev/block/" ++ disk)).withData
        ((w.disks (cstr "/dev/block/" ++ disk)).data.write 0 (code.take n)))
  loader : ∃ status, w'.ran
      = w.ran ++ [(.shell (SYSLINUX_BIN ++ cstr " --install " ++ device), status)] ∧
    (status = .exited 0 ∨ status.Signaled)

/-- A path that is not under the partition leads where it led before. -/
theorem place_elsewhere {path : CStr} {w₀ : Host}
    (hm : wm.mounts = (Path.resolve BOOTLOADER_PATH, device) :: w₀.mounts)
    (hpath : ¬ Path.resolve BOOTLOADER_PATH <+: Path.resolve path) : wm.place path = w₀.place path := by
  rw [Host.place, hm, Path.locate_of_not_prefix hpath]
  rfl

theorem do_install_syslinux_ret (h : do_install_syslinux fate device w = .ret w') :
    w'.files = w.files ∧ w'.mounts = w.mounts ∧ w'.disks = w.disks ∧ ∃ status, w'.ran
      = w.ran ++ [(.shell (SYSLINUX_BIN ++ cstr " --install " ++ device), status)] ∧
        (status = .exited 0 ∨ status.Signaled) := by
  unfold do_install_syslinux execute_command at h
  obtain ⟨⟨rv, w₁⟩, hrun, h⟩ := Exec.bind_eq_ret.mp h
  cases hshell : fate.shell with
  | false =>
    rw [hshell] at hrun
    cases hrun
  | true =>
    rw [hshell, FsChecks.execute_command_eq] at hrun
    simp only [Exec.ret.injEq, Prod.mk.injEq] at hrun
    simp only at h
    split_ifs at h with hrv
    injection h with h
    rw [not_not, ← hrun.1, FsChecks.seen_eq_zero] at hrv
    rw [← h, ← hrun.2]
    exact ⟨rfl, rfl, rfl, _, rfl, hrv⟩

/-- **The plug-in does what it is for**, if the partition is mounted where it looks for it. -/
theorem syslinux_installs (hsel : opts BASE_BOOTLOADER = some (cstr "syslinux"))
    (hdisk : opts BASE_INSTALL_DISK = some disk) (hlist : opts BASE_BOOT_LIST = some bootimages)
    (hdevice : opts (partition_key (cstr "bootloader") "device") = some device)
    (hmedia : w.place SYSLINUX_CFG_TEM_FN = (none, Path.resolve SYSLINUX_CFG_TEM_FN))
    (hmount : ∀ k, fate.mount k ≠ .busy) (h : syslinux_execute fate opts w = .ret w') :
    Installed opts disk device bootimages w w' := by
  unfold syslinux_execute at h
  obtain ⟨loader, hloader, h⟩ := Exec.bind_eq_ret.mp h
  rw [opt_some, hsel, Option.getD_some] at hloader
  subst hloader
  rw [if_neg (not_not.mpr rfl)] at h
  obtain ⟨disk', hdisk', h⟩ := Exec.bind_eq_ret.mp h
  rw [opt_none, hdisk] at hdisk'
  obtain rfl := Option.some.inj hdisk'
  obtain ⟨wd, hdd, h⟩ := Exec.bind_eq_ret.mp h
  simp only at h
  obtain ⟨list, hbootimages, h⟩ := Exec.bind_eq_ret.mp h
  rw [opt_none, hlist] at hbootimages
  obtain rfl := Option.some.inj hbootimages
  obtain ⟨dev, hdev, h⟩ := Exec.bind_eq_ret.mp h
  rw [opt_none, hdevice] at hdev
  obtain rfl := Option.some.inj hdev
  obtain ⟨wi, hinstall, h⟩ := Exec.bind_eq_ret.mp h
  obtain ⟨wm, hmounted, h⟩ := Exec.bind_eq_ret.mp h
  obtain ⟨w₁, hcopy₁, h⟩ := Exec.bind_eq_ret.mp h
  obtain ⟨w₂, hcopy₂, h⟩ := Exec.bind_eq_ret.mp h
  obtain ⟨w₃, hcopy₃, h⟩ := Exec.bind_eq_ret.mp h
  obtain ⟨⟨fd₀, w₄⟩, hopen, h⟩ := Exec.bind_eq_ret.mp h
  obtain ⟨misc, hmisc, h⟩ := Exec.bind_eq_ret.mp h
  obtain ⟨⟨fd₁, w₅⟩, hput, h⟩ := Exec.bind_eq_ret.mp h
  obtain ⟨⟨fd₂, w₆⟩, hloop, h⟩ := Exec.bind_eq_ret.mp h
  obtain ⟨w₇, hclose, h⟩ := Exec.bind_eq_ret.mp h
  have hend : (umount fate BOOTLOADER_PATH w₇).tick = w' := Exec.ret.inj h
  rw [opt_none] at hmisc
  -- the disk, and the program
  obtain ⟨code, n, hcode, hsize, rfl⟩ := dd_ret hdd
  obtain ⟨hifiles, himounts, hidisks, status, hiran, hstatus⟩ := do_install_syslinux_ret hinstall
  -- the mount, and the copies under it
  obtain ⟨hfiles, hran, hdisks, hmounts⟩ := mount_ret hmounted
  rw [if_neg (hmount _)] at hmounts
  have hm : wm.mounts = (Path.resolve BOOTLOADER_PATH, device) :: w.mounts := by
    rw [hmounts, himounts]
    rfl
  have hplace : ∀ u : Host, u.mounts = wm.mounts →
      u.place SYSLINUX_CFG_FN = (some device, [cstr "syslinux.cfg"]) :=
    fun u hu => place_mounted (hu.trans hm) (by decide +kernel)
  obtain ⟨b₁, n₁, -, hw₁⟩ := copy_file_ret hcopy₁
  obtain ⟨b₂, n₂, -, hw₂⟩ := copy_file_ret hcopy₂
  obtain ⟨template, n₃, htemplate, hw₃⟩ := copy_file_ret hcopy₃
  rw [place_mounted (r := [cstr "vesamenu.c32"]) hm (by decide +kernel)] at hw₁
  rw [place_mounted (r := [cstr "android.c32"]) (hw₁.mounts.trans hm) (by decide +kernel)] at hw₂
  rw [hplace w₂ (hw₂.mounts.trans hw₁.mounts)] at hw₃
  -- the menu
  obtain ⟨ho₀, hbytes, hpos⟩ := xopen_ret hopen
  rw [hplace w₃ (hw₃.mounts.trans (hw₂.mounts.trans hw₁.mounts))] at ho₀ hbytes
  rw [if_neg Bool.false_ne_true, hw₃.self, Option.getD_some] at hbytes
  rw [if_pos rfl] at hpos
  obtain ⟨ho₁, hd₁⟩ := put_string_ret hput ho₀
  obtain ⟨hindices, ho₂, hd₂⟩ := labels_written hloop ho₁
  have hmenu := xclose_ret hclose ho₂
  have htext : fd₂.dest.bytes = template.take n₃ ++ menu_text opts (entries bootimages) := by
    rw [hd₂, hd₁, Dest.put_put, Dest.put_end hpos, hbytes, menu_text, hmisc, Option.getD_some]
  rw [htext] at hmenu
  have hwithin : Within (fun p => p.1 = some device ∧ p.2 ∈ support) wm w₇ :=
    ((hw₁.within ⟨rfl, by simp [support]⟩).trans (hw₂.within ⟨rfl, by simp [support]⟩)).trans
      ((hw₃.trans hmenu).within ⟨rfl, by simp [support]⟩)
  have hlast : w'.files = w₇.files ∧ w'.disks = w₇.disks ∧ w'.ran = w₇.ran := by
    rw [← hend]
    exact ⟨umount_files _ _, umount_disks _ _, umount_ran _ _⟩
  have hkept : ∀ p : Place, ¬ (p.1 = some device ∧ p.2 ∈ support) → w'.files p = w.files p := by
    intro p hp
    rw [hlast.1, hwithin.files p hp, hfiles, hifiles]
    rfl
  refine {
    menu := ⟨template, n₃, ?_, by rw [hlast.1, hmenu.self]⟩
    misc := ⟨misc, hmisc⟩
    indices := hindices
    files_kept := hkept
    boot_code := ⟨code, n, hcode, hsize, by
      rw [hlast.2.1, hwithin.disks, hdisks, hidisks]
      rfl⟩
    loader := ⟨status, by
      rw [hlast.2.2, hwithin.ran, hran, hiran]
      rfl, hstatus⟩ }
  -- the template is not under the partition
  have helse : w₂.place SYSLINUX_CFG_TEM_FN = w.place SYSLINUX_CFG_TEM_FN :=
    place_elsewhere ((hw₂.mounts.trans hw₁.mounts).trans hm) (by decide +kernel)
  have hne : ¬ ((w.place SYSLINUX_CFG_TEM_FN).1 = some device ∧
      (w.place SYSLINUX_CFG_TEM_FN).2 ∈ support) := by
    rw [hmedia]
    exact fun hp => Option.some_ne_none device hp.1.symm
  rw [helse, hw₂.of_ne, hw₁.of_ne, hfiles, hifiles] at htemplate
  · exact htemplate
  · exact fun heq => hne (heq ▸ ⟨rfl, by simp [support]⟩)
  · exact fun heq => hne (heq ▸ ⟨rfl, by simp [support]⟩)

end Installs

end Syslinux

end Installer

end Iago
