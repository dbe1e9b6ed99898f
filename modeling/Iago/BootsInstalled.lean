/-
What an installation leaves to boot from.

The partitioner publishes the table it has made, the plug-in of the boot loader writes down what is
published, and the finalizer still mounts a partition and writes to it. `boots_the_installed` goes
through all of that for gummiboot: what the files say of a boot image is the GUID of the entry with
the image's name, and the firmware is told the index of the entry the files are on. In
`menu_of_the_installed` it is the menu of SYSLINUX, with indices. Either way the table is on the
disk, whatever the partitions were filled with.

That the published options agree with the table is a hypothesis here; it is not always so.
-/
import Iago.Execution
import Iago.GuidText

set_option autoImplicit false

namespace Iago

namespace Installer

open Syslinux (SYSLINUX_CFG_TEM_FN SYSLINUX_MBR syslinux_installs menu_text)
open Gummiboot (Removes TIMEOUT_DFL GUMMIBOOT_TIMEOUT gummiboot_installs entry_conf loader_conf
  efibootmgr_argv)

section Names

variable [Platform] {disk : CStr} {g : Gpt} {opts : Hashmap} {n : CStr} {i : UInt32}

/-- Entry `i` is in use, under the name that is made from `n`. -/
structure Named (g : Gpt) (i : UInt32) (n : CStr) : Prop where
  inUse : g.InUse i
  name : gpt_entry_get_name (ε := Die) (gpt_entry_offset i g) g = .ret (NAME_MAGIC ++ n)

/-- The text names the partition that was made for `n`, and no entry with another GUID. -/
def NamesGuid (g : Gpt) (n text : CStr) : Prop :=
  ∃ i, Named g i n ∧ text = gpt_guid_to_string (g.entry i).part_guid ∧
    ∀ j, text = gpt_guid_to_string (g.entry j).part_guid →
      (g.entry j).part_guid = (g.entry i).part_guid

/-- What is published is in the table under its name. -/
theorem named_of_published (h : PublishedAt disk g opts n i) : Named g i n := ⟨h.inUse, h.name⟩

theorem namesGuid_of_published (h : PublishedAt disk g opts n i) :
    NamesGuid g n ((opts (partition_key n "guid")).getD []) := by
  refine ⟨i, named_of_published h, by rw [h.guid]; rfl, ?_⟩
  intro j hj
  rw [h.guid, Option.getD_some] at hj
  exact (gpt_guid_to_string_injective hj).symm

end Names

section Boots

variable [Platform] [Qsort]

/-- **There is something to boot**: the table is on the disk, the firmware has been told of the
partition that was made for the loader, and the loader's directory on it has the settings and a
file for every boot image, and nothing else. The files name the partitions by GUIDs of the table. -/
structure BootsFrom (opts : Hashmap) (disk : CStr) (g : Gpt) (images : List CStr) (w : Host)
    (i : UInt32) (node : CStr) : Prop where
  table : TableOn (w.disks (cstr "/dev/block/" ++ disk)) g
  loader : Named g i (cstr "bootloader")
  node_eq : gpt_get_device_node (ε := Die) i g = .ret node
  firmware : (.direct (efibootmgr_argv disk (dec i.toNat)), .exited 0) ∈ w.ran
  settings : ∃ misc, NamesGuid g (cstr "misc") misc ∧
    w.files (some node, [cstr "loader", cstr "loader.conf"])
      = some (loader_conf ((opts GUMMIBOOT_TIMEOUT).getD TIMEOUT_DFL) misc
        ((opts (partition_key (cstr "swap") "guid")).getD []))
  entry : ∀ n ∈ images, ∃ guid, NamesGuid g n guid ∧
    w.files (some node, [cstr "loader", cstr "entries", n ++ cstr ".conf"])
      = some (entry_conf ((opts (partition_key n "description")).getD []) guid
        ((opts DISK_BUS_NAME).getD []))
  only : ∀ path, w.files (some node, cstr "loader" :: path) ≠ none →
    path = [cstr "loader.conf"] ∨ ∃ n ∈ images, path = [cstr "entries", n ++ cstr ".conf"]

variable {su : Setup} {fate : Fate} {ext : List Plugin} {s s' : Session} {g : Gpt} {ictx : Ictx}
  {disk bootimages partlist : CStr} {rest : List CStr}

/-- The stage of a plug-in that works on the outside only. -/
theorem loader_stage {p : Plugin} {f : Hashmap → Host → Exec Fatal Host}
    (hp : p.execute su fate s = (f s.ictx.opts s.host >>= fun w => .ret { s with host := w }))
    (h : phase (Plugin.execute su fate) [p] s = .ret s') :
    f s.ictx.opts s.host = .ret s'.host ∧ s'.ictx = s.ictx := by
  obtain ⟨s₁, hone, h⟩ := Exec.bind_eq_ret.mp h
  injection h with h
  rw [hp] at hone
  obtain ⟨w, hexec, hone⟩ := Exec.bind_eq_ret.mp hone
  injection hone with hone
  rw [← h, ← hone]
  exact ⟨hexec, rfl⟩

/-- The work on the partitions keeps to the usable area of the table, which is apart from where
the table is, and to file systems on partitions. -/
structure FillsUsable (su : Setup) (g : Gpt) : Prop where
  apart : ∀ r ∈ write_ranges g, RangesApart r (usable_area g)
  size : ∀ w node, ((su.filled w).2.1 node).size = (w.disks node).size
  data : ∀ w node p, p < (usable_area g).1 ∨ (usable_area g).1 + (usable_area g).2 ≤ p →
    ((su.filled w).2.1 node).data p = (w.disks node).data p
  medium : ∀ w path, (su.filled w).1 (none, path) = w.files (none, path)

omit [Platform] [Qsort] in
/-- The image writer fills the partitions. -/
theorem imagewriter_disks (h : imagewriter_run su s = .ret s') :
    s'.host.disks = (su.filled s.host).2.1 := by
  unfold imagewriter_run at h
  obtain ⟨opts, -, h⟩ := Exec.bind_eq_ret.mp h
  injection h with h
  rw [← h]

omit [Platform] [Qsort] in
/-- What is staged is staged on a partition. -/
theorem ota_disks (hmount : ∀ k, fate.mount k ≠ .busy) (h : ota_execute su fate s = .ret s') :
    s'.host.disks = s.host.disks := by
  -- Without an update there is nothing to stage.
  by_cases hnone : (s.ictx.opts BASE_OTA).getD (cstr "none") = cstr "none"
  · rw [ota_idle hnone] at h
    injection h with h
    rw [h]
  cases hota : s.ictx.opts BASE_OTA with
  | none =>
    rw [hota] at hnone
    exact absurd rfl hnone
  | some srcfile =>
    rw [hota, Option.getD_some] at hnone
    obtain ⟨device, hdevice⟩ : ∃ device,
        s.ictx.opts (partition_key (cstr "cache") "device") = some device := by
      have hrun := h
      unfold ota_execute at hrun
      obtain ⟨src, hopt, hrun⟩ := Exec.bind_eq_ret.mp hrun
      rw [opt_some, hota, Option.getD_some] at hopt
      subst hopt
      rw [if_neg hnone] at hrun
      cases htmp : su.mkdtemp s.host.calls with
      | none =>
        rw [htmp] at hrun
        cases hrun
      | some mountpoint =>
        rw [htmp] at hrun
        obtain ⟨device, hdevice, -⟩ := Exec.bind_eq_ret.mp hrun
        exact ⟨device, opt_none.mp hdevice⟩
    obtain ⟨-, mountpoint, -, hstaged⟩ := ota_ret hota hnone hdevice hmount h
    exact hstaged.disks

/-- Filling the partitions and staging an update leaves the table where `gpt_write` put it. -/
theorem table_kept {s₁ s₂ s₃ : Session} {plugins : List Plugin} {s₄ : Session}
    (hst : Stages su fate plugins s s₁ s₂ s₃ s₄ s')
    (hdisk : s.ictx.opts BASE_INSTALL_DISK = some disk)
    (htable : partitioner_table
      { su.machine with dev := s.host.disks (cstr "/dev/block/" ++ disk) } s.ictx = .ret (g, ictx))
    (hfit : Fits (s.host.disks (cstr "/dev/block/" ++ disk)) g)
    (hwrites : ∀ r ∈ su.gpt_writes, r = .all) (hfill : FillsUsable su g)
    (hmount : ∀ k, fate.mount k ≠ .busy) :
    Placed (s₃.host.disks (cstr "/dev/block/" ++ disk)) g ∧
      ∀ d, KeepsTable g (s₃.host.disks (cstr "/dev/block/" ++ disk)) d → TableOn d g := by
  obtain ⟨g', ictx', g'', io', htable', hwrite, -, -, hhost⟩ :=
    partitioner_run_ret hdisk hst.partitioner
  rw [htable] at htable'
  simp only [Exec.ret.injEq, Prod.mk.injEq] at htable'
  obtain ⟨rfl, -⟩ := htable'
  -- The write has put both copies, and what comes after it stays inside the usable sectors.
  have hsound := (partitioner_table_sound htable).1
  obtain ⟨-, hafter⟩ := gpt_write_ret hsound hfit hwrites hwrite
  have hp : Placed io'.dev g := by
    rw [hafter.data]
    exact placed ⟨hfit.sector, hfit.metadata, hfit.device⟩
  have hkeep := KeepsTable.of_usable hfill.apart (hfill.size s₁.host (cstr "/dev/block/" ++ disk))
    (hfill.data s₁.host (cstr "/dev/block/" ++ disk))
  have hown : s₁.host.disks (cstr "/dev/block/" ++ disk) = io'.dev := by
    rw [hhost]
    exact Function.update_self _ _ _
  rw [hown, ← imagewriter_disks hst.imagewriter, ← ota_disks hmount hst.ota] at hkeep
  exact ⟨hp.kept hkeep, fun d hd => tableOn_of_write hsound hfit hwrites hwrite (hkeep.trans hd)⟩

/-! ## What the stages hand on -/

section Handed

variable {loaders : List Plugin} {s₁ s₂ s₃ s₄ : Session} {node : CStr}

/-- The options of the partitions, as they were published. -/
theorem Stages.field (hst : Stages su fate loaders s s₁ s₂ s₃ s₄ s')
    (hloaders : .partitioner ∉ loaders)
    (hdisk : s.ictx.opts BASE_INSTALL_DISK = some disk)
    (htable : partitioner_table
      { su.machine with dev := s.host.disks (cstr "/dev/block/" ++ disk) } s.ictx = .ret (g, ictx))
    (n : CStr) (f : String) : s₃.ictx.opts (partition_key n f) = ictx.opts (partition_key n f) ∧
      s₄.ictx.opts (partition_key n f) = ictx.opts (partition_key n f) :=
  (hst.published hloaders hdisk htable (partition_key_ne (by decide))
    (partition_key_ne (by decide))).2

/-- The options of the installation, as they were given. -/
theorem Stages.given (hst : Stages su fate loaders s s₁ s₂ s₃ s₄ s')
    (hloaders : .partitioner ∉ loaders)
    (hdisk : s.ictx.opts BASE_INSTALL_DISK = some disk)
    (htable : partitioner_table
      { su.machine with dev := s.host.disks (cstr "/dev/block/" ++ disk) } s.ictx = .ret (g, ictx))
    {key : CStr} (hkey : Settled key) : s₃.ictx.opts key = s.ictx.opts key := by
  rw [(hst.published hloaders hdisk htable hkey.bus hkey.reboot).2.1]
  exact (table_frame htable).1 key hkey.partition

/-- The finalizer writes to a partition of its own. -/
theorem Stages.finalized (hst : Stages su fate loaders s s₁ s₂ s₃ s₄ s')
    (hloaders : .partitioner ∉ loaders) (hdisk : s.ictx.opts BASE_INSTALL_DISK = some disk)
    (htable : partitioner_table
      { su.machine with dev := s.host.disks (cstr "/dev/block/" ++ disk) } s.ictx = .ret (g, ictx))
    (hpub : PublishesTable disk g ictx.opts (entries partlist))
    (hboot : cstr "bootloader" ∈ entries partlist) (hfactory : cstr "factory" ∈ entries partlist)
    (hdevice : ictx.opts (partition_key (cstr "bootloader") "device") = some node)
    (hprops : PropsAt su rest) (hmount : ∀ k, fate.mount k ≠ .busy) :
    s'.ictx = s₄.ictx ∧ s'.host.disks = s₄.host.disks ∧ s'.host.ran = s₄.host.ran ∧
      ∀ path, s'.host.files (some node, path) = s₄.host.files (some node, path) := by
  have hmapped : g.Mapped := (partitioner_table_sound htable).2
  obtain ⟨j, hj⟩ := hpub.published _ hfactory
  obtain ⟨fnode, -, hfdevice⟩ := hj.device
  have happart : node ≠ fnode :=
    published_apart hmapped hpub hboot hfactory (by decide) hdevice hfdevice
  have hpublished := (hst.field hloaders hdisk htable (cstr "factory") "device").2
  obtain ⟨hictx, hwritten⟩ := finalizer_ret (hpublished.trans hfdevice) hprops hmount hst.finalizer
  refine ⟨hictx, hwritten.disks, hwritten.ran, fun path => hwritten.of_ne ?_⟩
  intro heq
  exact happart (Option.some.inj (congrArg Prod.fst heq))

end Handed

/-- **What an execution with gummiboot leaves to boot from.** -/
theorem boots_the_installed (hext : Loaders ext) (hgum : .gummiboot ∈ ext)
    (hsel : s.ictx.opts BASE_BOOTLOADER = some (cstr "gummiboot"))
    (hdisk : s.ictx.opts BASE_INSTALL_DISK = some disk)
    (hlist : s.ictx.opts BASE_BOOT_LIST = some bootimages)
    (htable : partitioner_table
      { su.machine with dev := s.host.disks (cstr "/dev/block/" ++ disk) } s.ictx = .ret (g, ictx))
    (hpub : PublishesTable disk g ictx.opts (entries partlist))
    (hneed : ∀ n ∈ cstr "bootloader" :: cstr "misc" :: cstr "factory" :: entries bootimages,
      n ∈ entries partlist)
    (hfit : Fits (s.host.disks (cstr "/dev/block/" ++ disk)) g)
    (hwrites : ∀ r ∈ su.gpt_writes, r = .all) (hfill : FillsUsable su g)
    (hnames : ∀ n ∈ entries bootimages, 47 ∉ n) (hremoves : Removes fate)
    (hmount : ∀ k, fate.mount k ≠ .busy) (hprops : PropsAt su rest)
    (h : execution_phase su fate (registered ext) s = .ret s') :
    ∃ i node, BootsFrom s'.ictx.opts disk g (entries bootimages) s'.host i node := by
  obtain ⟨s₁, s₂, s₃, s₄, hst⟩ := execution_stages h
  rw [filter_gummiboot hext hgum hsel] at hst
  have hloaders : Plugin.partitioner ∉ [Plugin.gummiboot] := by decide
  have hfield := fun n f => (hst.field hloaders hdisk htable n f).1
  -- the partition of the loader
  obtain ⟨i, hi⟩ := hpub.published _ (hneed (cstr "bootloader") (by simp))
  obtain ⟨node, hnode, hdevice⟩ := hi.device
  have hpath := published_node hpub (hneed _ (by simp)) hdevice
  -- what the plug-in leaves on it, and what the finalizer leaves of that
  obtain ⟨hexec, hsame⟩ := loader_stage (p := .gummiboot) rfl hst.loader
  have hinst := gummiboot_installs
    ((hst.given hloaders hdisk htable settled_bootloader).trans hsel)
    ((hst.given hloaders hdisk htable
      (settled_of_head (by decide) (by decide) (by decide))).trans hlist)
    ((hfield _ _).trans hdevice) (by rintro rfl; exact absurd hpath (by decide))
    hnames hremoves (hmount _) hexec
  obtain ⟨hictx, hdisks, hran, hfiles⟩ := hst.finalized hloaders hdisk htable hpub
    (hneed _ (by simp)) (hneed _ (by simp)) hdevice hprops hmount
  have hopts : s'.ictx.opts = s₃.ictx.opts := by rw [hictx, hsame]
  have hguid : ∀ n ∈ entries partlist,
      NamesGuid g n ((s'.ictx.opts (partition_key n "guid")).getD []) := by
    intro n hn
    obtain ⟨k, hk⟩ := hpub.published n hn
    rw [hopts, hfield n "guid"]
    exact namesGuid_of_published hk
  refine ⟨i, node, ?_⟩
  exact {
    table := by
      rw [hdisks, hinst.disks_kept]
      exact (table_kept hst hdisk htable hfit hwrites hfill hmount).2 _ (.refl g _)
    loader := named_of_published hi
    node_eq := hnode
    firmware := by
      obtain ⟨disk', index, hdisk', hindex, hfirmware⟩ := hinst.firmware
      have hgiven : s₃.ictx.opts BASE_INSTALL_DISK = s.ictx.opts BASE_INSTALL_DISK :=
        hst.given hloaders hdisk htable (settled_of_head (by decide) (by decide) (by decide))
      rw [hgiven, hdisk] at hdisk'
      rw [hfield, hi.index] at hindex
      obtain rfl := Option.some.inj hdisk'
      obtain rfl := Option.some.inj hindex
      rw [hran, hfirmware]
      exact List.mem_append_right _ List.mem_cons_self
    settings := by
      refine ⟨_, hguid _ (hneed _ (by simp)), ?_⟩
      rw [hfiles, hopts]
      exact (hinst.loader _ _).mpr (.inl ⟨rfl, rfl⟩)
    entry := by
      intro n hn
      refine ⟨_, hguid n (hneed n (by simp [hn])), ?_⟩
      rw [hfiles, hopts]
      exact (hinst.loader _ _).mpr (.inr ⟨n, hn, rfl, rfl⟩)
    only := by
      intro path hsome
      rw [hfiles] at hsome
      obtain ⟨bytes, hbytes⟩ := Option.ne_none_iff_exists'.mp hsome
      rcases (hinst.loader _ _).mp hbytes with ⟨hpath, -⟩ | ⟨n, hn, hpath, -⟩
      · exact .inl hpath
      · exact .inr ⟨n, hn, hpath⟩ }

/-! ## The menu of SYSLINUX -/

/-- **There is something to boot**, by the menu: the table is on the disk, behind the boot code; the
menu is on the partition that was made for the loader, and what it has been given in addition to
the template are the indices of entries of the table. -/
structure BootsMenu (opts : Hashmap) (disk : CStr) (g : Gpt) (images : List CStr) (w w' : Host)
    (i : UInt32) (node : CStr) : Prop where
  table : TableOn (w'.disks (cstr "/dev/block/" ++ disk)) g
  boot_code : ∃ code k, w.files (none, Path.resolve SYSLINUX_MBR) = some code ∧
    (w'.disks (cstr "/dev/block/" ++ disk)).data.read 0 (code.take k).length = code.take k
  loader : Named g i (cstr "bootloader")
  node_eq : gpt_get_device_node (ε := Die) i g = .ret node
  menu : ∃ template k, w.files (none, Path.resolve SYSLINUX_CFG_TEM_FN) = some template ∧
    w'.files (some node, [cstr "syslinux.cfg"]) = some (template.take k ++ menu_text opts images)
  indices : ∀ n ∈ cstr "misc" :: images, ∃ j, Named g j n ∧
    opts (partition_key n "index") = some (dec j.toNat)

/-- Until the loader is installed nothing happens to the medium, if there is nothing to stage. -/
theorem medium_kept {loaders : List Plugin} {s₁ s₂ s₃ s₄ : Session}
    (hst : Stages su fate loaders s s₁ s₂ s₃ s₄ s') (hloaders : .partitioner ∉ loaders)
    (hdisk : s.ictx.opts BASE_INSTALL_DISK = some disk)
    (htable : partitioner_table
      { su.machine with dev := s.host.disks (cstr "/dev/block/" ++ disk) } s.ictx = .ret (g, ictx))
    (hfill : FillsUsable su g) (hota : (s.ictx.opts BASE_OTA).getD (cstr "none") = cstr "none") :
    s₃.host.mounts = s.host.mounts ∧
      ∀ path, s₃.host.files (none, path) = s.host.files (none, path) := by
  obtain ⟨g', ictx', g'', io', -, -, -, -, hhost⟩ := partitioner_run_ret hdisk hst.partitioner
  have hnone : s₂.ictx.opts BASE_OTA = s.ictx.opts BASE_OTA := by
    rw [(hst.published hloaders hdisk htable (by decide) (by decide)).1]
    exact (table_frame htable).1 _ (settled_of_head (by decide) (by decide) (by decide)).partition
  have hidle := hst.ota
  rw [← hnone] at hota
  rw [ota_idle hota] at hidle
  injection hidle with hidle
  have himage := hst.imagewriter
  unfold imagewriter_run at himage
  obtain ⟨opts, -, himage⟩ := Exec.bind_eq_ret.mp himage
  injection himage with himage
  rw [← hidle, ← himage]
  refine ⟨by rw [hhost]; rfl, fun path => ?_⟩
  have hmedium := hfill.medium s₁.host path
  rw [hhost] at hmedium
  rw [hhost]
  exact hmedium

/-- **What an execution with SYSLINUX leaves to boot from**, without an update to stage. -/
theorem menu_of_the_installed (hext : Loaders ext) (hsys : .syslinux ∈ ext)
    (hsel : s.ictx.opts BASE_BOOTLOADER = some (cstr "syslinux"))
    (hdisk : s.ictx.opts BASE_INSTALL_DISK = some disk)
    (hlist : s.ictx.opts BASE_BOOT_LIST = some bootimages)
    (hota : (s.ictx.opts BASE_OTA).getD (cstr "none") = cstr "none")
    (hunmounted : s.host.mounts = [])
    (hcode : ∀ code, s.host.files (none, Path.resolve SYSLINUX_MBR) = some code → code.length ≤ 440)
    (htable : partitioner_table
      { su.machine with dev := s.host.disks (cstr "/dev/block/" ++ disk) } s.ictx = .ret (g, ictx))
    (hpub : PublishesTable disk g ictx.opts (entries partlist))
    (hneed : ∀ n ∈ cstr "bootloader" :: cstr "misc" :: cstr "factory" :: entries bootimages,
      n ∈ entries partlist)
    (hfit : Fits (s.host.disks (cstr "/dev/block/" ++ disk)) g)
    (hwrites : ∀ r ∈ su.gpt_writes, r = .all) (hfill : FillsUsable su g)
    (hmount : ∀ k, fate.mount k ≠ .busy) (hprops : PropsAt su rest)
    (h : execution_phase su fate (registered ext) s = .ret s') :
    ∃ i node, BootsMenu s'.ictx.opts disk g (entries bootimages) s.host s'.host i node := by
  obtain ⟨s₁, s₂, s₃, s₄, hst⟩ := execution_stages h
  rw [filter_syslinux hext hsys hsel] at hst
  have hloaders : Plugin.partitioner ∉ [Plugin.syslinux] := by decide
  have hfield := fun n f => (hst.field hloaders hdisk htable n f).1
  -- the partition of the loader
  obtain ⟨i, hi⟩ := hpub.published _ (hneed (cstr "bootloader") (by simp))
  obtain ⟨node, hnode, hdevice⟩ := hi.device
  -- the medium is as it was
  obtain ⟨hmounts, hmedium⟩ := medium_kept hst hloaders hdisk htable hfill hota
  have hplace : ∀ path, s₃.host.place path = (none, Path.resolve path) := by
    intro path
    rw [Host.place, hmounts, hunmounted]
    rfl
  -- what the plug-in leaves, and what the finalizer leaves of that
  obtain ⟨hexec, hsame⟩ := loader_stage (p := .syslinux) rfl hst.loader
  have hgiven : s₃.ictx.opts BASE_INSTALL_DISK = some disk :=
    (hst.given hloaders hdisk htable
      (settled_of_head (by decide) (by decide) (by decide))).trans hdisk
  have hinst := syslinux_installs
    ((hst.given hloaders hdisk htable settled_bootloader).trans hsel) hgiven
    ((hst.given hloaders hdisk htable
      (settled_of_head (by decide) (by decide) (by decide))).trans hlist)
    ((hfield _ _).trans hdevice) (hplace _) hmount hexec
  obtain ⟨hictx, hdisks, -, hfiles⟩ := hst.finalized hloaders hdisk htable hpub
    (hneed _ (by simp)) (hneed _ (by simp)) hdevice hprops hmount
  have hopts : s'.ictx.opts = s₃.ictx.opts := by rw [hictx, hsame]
  obtain ⟨hp, hon⟩ := table_kept hst hdisk htable hfit hwrites hfill hmount
  obtain ⟨code, k, hmbr, -, hwritten⟩ := hinst.boot_code
  rw [hplace, hmedium] at hmbr
  have hown : s'.host.disks (cstr "/dev/block/" ++ disk)
      = (s₃.host.disks (cstr "/dev/block/" ++ disk)).withData
        ((s₃.host.disks (cstr "/dev/block/" ++ disk)).data.write 0 (code.take k)) := by
    rw [hdisks, hwritten]
    exact Function.update_self _ _ _
  refine ⟨i, node, ?_⟩
  exact {
    table := by
      rw [hown]
      refine hon _ (.of_boot_code hp ?_)
      rw [List.length_take]
      exact Nat.le_trans (Nat.min_le_right _ _) (hcode code hmbr)
    boot_code := by
      refine ⟨code, k, hmbr, ?_⟩
      rw [hown]
      exact Store.read_write_self _ _ _
    loader := named_of_published hi
    node_eq := hnode
    menu := by
      obtain ⟨template, k, htemplate, hmenu⟩ := hinst.menu
      rw [hplace, hmedium] at htemplate
      exact ⟨template, k, htemplate, by rw [hfiles, hopts]; exact hmenu⟩
    indices := by
      intro n hn
      have hmem : n ∈ entries partlist := by
        rcases List.mem_cons.mp hn with rfl | hn
        · exact hneed _ (by simp)
        · exact hneed _ (by simp [hn])
      obtain ⟨j, hj⟩ := hpub.published n hmem
      exact ⟨j, named_of_published hj, by rw [hopts, hfield n "index"]; exact hj.index⟩ }

end Boots

/-! ### A disk with another system on it -/

section Sda

attribute [local instance] x86 insertionQsort

/-- Whether the options about partition `n` are those of entry `i`. -/
def publishes (disk : CStr) (g : Gpt) (opts : Hashmap) (n : CStr) (i : UInt32) : Bool :=
  decide (g.InUse i) &&
    (gpt_entry_get_name (ε := Die) (gpt_entry_offset i g) g).returns
      (fun name => name = NAME_MAGIC ++ n) &&
    decide (opts (partition_key n "index") = some (dec i.toNat)) &&
    decide (g.device = cstr "/dev/block/" ++ disk) &&
    (gpt_get_device_node (ε := Die) i g).returns
      (fun node => opts (partition_key n "device") = some node) &&
    decide (opts (partition_key n "guid") = some (gpt_guid_to_string (g.entry i).part_guid))

/-- What passes the test is published. -/
theorem publishedAt_of_publishes {disk : CStr} {g : Gpt} {opts : Hashmap} {n : CStr} {i : UInt32}
    (h : publishes disk g opts n i = true) : PublishedAt disk g opts n i := by
  simp only [publishes, Bool.and_eq_true, decide_eq_true_eq] at h
  obtain ⟨⟨⟨⟨⟨huse, hname⟩, hindex⟩, hdisk⟩, hdevice⟩, hguid⟩ := h
  obtain ⟨name, hret, hname⟩ := Exec.exists_of_returns hname
  obtain ⟨node, hnode, hdevice⟩ := Exec.exists_of_returns hdevice
  exact {
    inUse := huse
    name := by rw [hret, of_decide_eq_true hname]
    index := hindex
    install_disk := hdisk
    device := ⟨node, hnode, of_decide_eq_true hdevice⟩
    guid := hguid }

/-- A table is published if its entries are, each under one name. -/
theorem publishesTable_of_indices {disk : CStr} {g : Gpt} {opts : Hashmap}
    {list : List (CStr × UInt32)} (h : ∀ q ∈ list, PublishedAt disk g opts q.1 q.2)
    (hinj : ∀ q ∈ list, ∀ r ∈ list, q.2 = r.2 → q.1 = r.1) :
    PublishesTable disk g opts (list.map Prod.fst) where
  published n hn := by
    obtain ⟨q, hq, rfl⟩ := List.mem_map.mp hn
    exact ⟨q.2, h q hq⟩
  apart n hn m hm hne heq := by
    obtain ⟨q, hq, rfl⟩ := List.mem_map.mp hn
    obtain ⟨r, hr, rfl⟩ := List.mem_map.mp hm
    rw [(h q hq).index, (h r hr).index] at heq
    exact hne (hinj q hq r hr (UInt32.toNat_inj.mp (dec_injective (Option.some.inj heq))))

/-- What the preparation has found on the disk, and what the file says. -/
def sda_opts : Hashmap :=
  xhashmapPut (xhashmapPut
    (sda_dictionary.foldl (fun opts q => xhashmapPut opts q.1 q.2) fun _ => none)
    (disk_key (cstr "sda") "esp_index") (cstr "1")) (disk_key (cstr "sda") "esp_size") (cstr "1048576")

def sda_session : Session := ⟨⟨sda_opts, fun _ => none⟩, [], sda_host⟩

def sda_table (s : Session) : Exec Die (Gpt × Ictx) :=
  partitioner_table { sda_setup.machine with dev := s.host.disks (cstr "/dev/block/sda") } s.ictx

/-- The partitions, and where the table has them. -/
def sda_indices : List (CStr × UInt32) := (entries sda_partitions).zip [1, 2, 3, 4]

/-- What there is to check of a table on that disk. -/
def sda_check (v : Gpt × Ictx) : Bool :=
  sda_indices.all (fun q => publishes (cstr "sda") v.1 v.2.opts q.1 q.2) &&
    decide (512 ≤ v.1.lba_size.toNat ∧
      3 + 2 * ((v.1.header.entries_size.toNat + v.1.lba_size.toNat - 1) / v.1.lba_size.toNat)
        ≤ v.1.sectors.toNat ∧
      v.1.sectors.toNat * v.1.lba_size.toNat ≤ esp_disk.size) &&
    (write_ranges v.1).all (fun r => decide (r.1 + r.2 ≤ (usable_area v.1).1 ∨
      (usable_area v.1).1 + (usable_area v.1).2 ≤ r.1))

/-- The table that is made on the example is published. -/
theorem sda_published {s : Session} (h : (sda_table s).returns sda_check = true) :
    ∃ g ictx, sda_table s = .ret (g, ictx) ∧ Fits esp_disk g ∧ FillsUsable sda_setup g ∧
      PublishesTable (cstr "sda") g ictx.opts (entries sda_partitions) := by
  obtain ⟨⟨g, ictx⟩, hret, htest⟩ := Exec.exists_of_returns h
  rw [sda_check, Bool.and_eq_true, Bool.and_eq_true, List.all_eq_true, List.all_eq_true,
    decide_eq_true_eq] at htest
  obtain ⟨⟨hall, hsector, hmeta, hend⟩, hapart⟩ := htest
  have hnames : sda_indices.map Prod.fst = entries sda_partitions := by
    decide +kernel
  have happart : ∀ r ∈ write_ranges g, RangesApart r (usable_area g) := by
    intro r hr
    have hone := hapart r hr
    rw [decide_eq_true_eq] at hone
    exact hone
  refine ⟨g, ictx, hret, ⟨hsector, hmeta, hend⟩,
    ⟨happart, fun _ _ => rfl, fun _ _ _ _ => rfl, fun _ _ => rfl⟩, ?_⟩
  rw [← hnames]
  exact publishesTable_of_indices (fun q hq => publishedAt_of_publishes (hall q hq))
    (by decide +kernel)

/-- Its properties are in the file the bootloader reads. -/
theorem sda_props_at : PropsAt sda_setup [cstr "factory.prop"] := by
  unfold PropsAt
  decide +kernel

set_option maxRecDepth 100000 in
/-- What the theorem says of the disk with another system on it. -/
theorem sda_boots : ∃ s' g i node,
    execution_phase sda_setup sda_fate (registered [.gummiboot, .syslinux]) sda_session = .ret s' ∧
    BootsFrom s'.ictx.opts (cstr "sda") g (entries (cstr "boot")) s'.host i node := by
  have hrun : (execution_phase sda_setup sda_fate (registered [.gummiboot, .syslinux])
      sda_session).returns (fun _ => true) = true := by
    decide +kernel
  obtain ⟨s', hret, -⟩ := Exec.exists_of_returns hrun
  have hcheck : (sda_table sda_session).returns sda_check = true := by
    decide +kernel
  obtain ⟨g, ictx, htable, hfit, hfill, hpub⟩ := sda_published hcheck
  have hlist : sda_session.ictx.opts BASE_BOOT_LIST = some (cstr "boot") := by decide +kernel
  obtain ⟨i, node, hboots⟩ := boots_the_installed ⟨by decide, by decide⟩ (by decide)
    (by decide +kernel) (by decide +kernel) hlist htable hpub (by decide +kernel) hfit
    (by decide +kernel) hfill (by decide +kernel) (fun _ _ => rfl)
    (fun _ h => by cases h) sda_props_at hret
  exact ⟨s', g, i, node, hret, hboots⟩

/-! ### The same disk, with SYSLINUX -/

/-- `dd` of a short boot sector that nothing interrupts, on a disk of any size. -/
theorem dd_boot_sector {fate : Fate} {w : Host} {src node : CStr} (hok : fate.ok w.calls = true)
    (hreads : fate.reads w.calls = [.all, .all]) (hwrites : fate.writes w.calls = [.all])
    (hsrc : w.files (w.place src) = some (cstr "MZ")) (hsize : 2 ≤ (w.disks node).size) :
    dd fate src node w = .ret (w.tick.setDisk node
      ((w.disks node).withData ((w.disks node).data.write 0 (cstr "MZ")))) := by
  have hloop : ∀ ofd : Dest, Util.dd_loop 3 [.all, .all] [.all] (cstr "MZ") ofd 0
      = .ret (2, ofd.put (cstr "MZ")) := fun _ => rfl
  obtain ⟨ofd, hdd, hbytes⟩ : ∃ ofd, Util.dd (fate.reads w.calls) (fate.writes w.calls)
        (src, w.files (w.place src))
        (node, some ⟨(w.disks node).data.read 0 (w.disks node).size, false⟩) = .ret (2, ofd) ∧
      ofd.bytes = cstr "MZ" ++ ((w.disks node).data.read 0 (w.disks node).size).drop
        (cstr "MZ").length := by
    rw [hreads, hwrites, hsrc]
    exact ⟨_, hloop _, Dest.put_start rfl _⟩
  have hlen : (cstr "MZ").length = 2 := rfl
  have hcount := congrArg List.length hbytes
  rw [List.length_append, List.length_drop, Store.length_read, hlen] at hcount
  unfold dd
  simp only [hdd]
  show (if (w.disks node).size < ofd.bytes.length then _ else _) = _
  rw [if_neg (by omega), call, if_pos hok, Exec.ret_bind, hbytes,
    write_over _ (by rw [hlen]; exact hsize)]

/-- The installation medium has SYSLINUX. -/
def bios_host : Host := { sda_host with
  files := fun p =>
    if p ∈ (["gptmbr.bin", "vesamenu.c32", "android.c32", "syslinux.template.cfg"].map fun f =>
      ((none, [cstr "installmedia", cstr "images", cstr f]) : Place)) then some (cstr "MZ")
    else none }

def bios_session : Session :=
  ⟨⟨xhashmapPut sda_opts BASE_BOOTLOADER (cstr "syslinux"), fun _ => none⟩, [], bios_host⟩

def bios_before : Exec Fatal Session :=
  phase (Plugin.execute sda_setup sda_fate) [.partitioner, .imagewriter, .ota] bios_session

/-- The session before the loader is installed. -/
def bios_ready : Session :=
  match bios_before with
  | .ret s => s
  | _ => bios_session

set_option maxRecDepth 100000 in
/-- The run up to the bootloader, with the BIOS. -/
theorem bios_before_ret : bios_before = .ret bios_ready ∧
    bios_ready.ictx.opts BASE_BOOTLOADER = some (cstr "syslinux") ∧
    bios_ready.ictx.opts BASE_INSTALL_DISK = some (cstr "sda") ∧
    bios_ready.host.files (bios_ready.host.place SYSLINUX_MBR) = some (cstr "MZ") ∧
    2 ≤ (bios_ready.host.disks (cstr "/dev/block/" ++ cstr "sda")).size := by
  have hrun : bios_before.returns (fun s =>
      decide (s.ictx.opts BASE_BOOTLOADER = some (cstr "syslinux") ∧
        s.ictx.opts BASE_INSTALL_DISK = some (cstr "sda") ∧
        s.host.files (s.host.place SYSLINUX_MBR) = some (cstr "MZ") ∧
        2 ≤ (s.host.disks (cstr "/dev/block/" ++ cstr "sda")).size)) = true := by
    decide +kernel
  obtain ⟨s, hret, htest⟩ := Exec.exists_of_returns hrun
  have hready : bios_ready = s := by rw [bios_ready, hret]
  rw [hready]
  exact ⟨hret, of_decide_eq_true htest⟩

set_option maxRecDepth 100000 in
/-- The disk is too large to be written out, so the `dd` is taken out of the run. -/
theorem bios_execution : ∃ s', execution_phase sda_setup sda_fate (registered [.gummiboot, .syslinux])
    bios_session = .ret s' := by
  obtain ⟨hbefore, hsel, hinstall, hcode, hsize⟩ := bios_before_ret
  have hstart : execution_phase sda_setup sda_fate (registered [.gummiboot, .syslinux]) bios_session
      = (bios_before >>= phase (Plugin.execute sda_setup sda_fate)
        [.gummiboot, .syslinux, .finalizer]) :=
    phase_append [.partitioner, .imagewriter, .ota] [.gummiboot, .syslinux, .finalizer] bios_session
  have hidle : Plugin.execute sda_setup sda_fate .gummiboot bios_ready = .ret bios_ready :=
    execute_idle (by rw [acts, hsel]; rfl)
  have hloader : opt bios_ready.ictx.opts (some (cstr "none")) BASE_BOOTLOADER
      = .ret (cstr "syslinux") := opt_some.mpr (by rw [hsel]; rfl)
  have hdisk : opt bios_ready.ictx.opts none BASE_INSTALL_DISK = .ret (cstr "sda") :=
    opt_none.mpr hinstall
  have hdd : dd sda_fate SYSLINUX_MBR (cstr "/dev/block/" ++ cstr "sda") bios_ready.host = .ret _ :=
    dd_boot_sector rfl rfl rfl hcode hsize
  have hrun : (execution_phase sda_setup sda_fate (registered [.gummiboot, .syslinux])
      bios_session).returns (fun _ => true) = true := by
    rw [hstart, hbefore, Exec.ret_bind, phase, hidle, Exec.ret_bind, phase, Plugin.execute,
      Syslinux.syslinux_execute, hloader, Exec.ret_bind, if_neg (not_not.mpr rfl), hdisk,
      Exec.ret_bind, hdd, Exec.ret_bind]
    decide +kernel
  obtain ⟨s', hret, -⟩ := Exec.exists_of_returns hrun
  exact ⟨s', hret⟩

set_option maxRecDepth 100000 in
/-- What the theorem says of it. -/
theorem bios_menu : ∃ s' g i node,
    execution_phase sda_setup sda_fate (registered [.gummiboot, .syslinux]) bios_session = .ret s' ∧
    BootsMenu s'.ictx.opts (cstr "sda") g (entries (cstr "boot")) bios_host s'.host i node := by
  obtain ⟨s', hret⟩ := bios_execution
  have hcheck : (sda_table bios_session).returns sda_check = true := by
    decide +kernel
  obtain ⟨g, ictx, htable, hfit, hfill, hpub⟩ := sda_published hcheck
  have hlist : bios_session.ictx.opts BASE_BOOT_LIST = some (cstr "boot") := by decide +kernel
  have hsector : bios_session.host.files (none, Path.resolve SYSLINUX_MBR) = some (cstr "MZ") := by
    decide +kernel
  have hcode : ∀ code, bios_session.host.files (none, Path.resolve SYSLINUX_MBR) = some code →
      code.length ≤ 440 := by
    intro code hsome
    rw [hsector] at hsome
    rw [← Option.some.inj hsome]
    decide
  obtain ⟨i, node, hboots⟩ := menu_of_the_installed ⟨by decide, by decide⟩ (by decide)
    (by decide +kernel) (by decide +kernel) hlist (by decide +kernel) rfl hcode htable hpub
    (by decide +kernel) hfit (by decide +kernel) hfill (fun _ h => by cases h) sda_props_at hret
  exact ⟨s', g, i, node, hret, hboots⟩

end Sda

end Installer

end Iago
