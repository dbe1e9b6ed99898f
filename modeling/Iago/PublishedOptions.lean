/-
What the partitioner publishes about the table it writes.

For every partition of the list there are four options: its index, its device node, its
GUID, and by the name in the entry everybody can check that the index is right. The
index and the node are put down when the entry is made, or when the EFI system partition
is claimed, the GUID in a pass of its own over the finished table. The plug-ins that
format and fill the partitions know nothing else.

An index drifts if a slot is handed out twice. That is so when an entry that was made has
a `first_lba` of 0, or when the EFI system partition is gone by the time new entries are
made. `publishes_table_iff`: if neither happens, and the names are plain ASCII, the
options say what the table says; and only then.
-/
import Iago.GptWrite
import Iago.Tiling
import Iago.WindowsScan

set_option autoImplicit false

namespace Iago

/-! ## The code -/

section Code

/-- `%0*x`: lower-case hexadecimal digits, with zeros in front up to a width. -/
def hex (width n : ℕ) : CStr :=
  let digits := (Nat.toDigits 16 n).map fun c => c.toNat.toUInt8
  List.replicate (width - digits.length) 48 ++ digits

/-- `gpt_guid_to_string`. -/
def gpt_guid_to_string (g : Guid) : CStr :=
  hex 8 g.data1.toNat ++ cstr "-" ++ hex 4 g.data2.toNat ++ cstr "-" ++ hex 4 g.data3.toNat
    ++ cstr "-" ++ (g.data4.toList.take 2).flatMap (fun b => hex 2 b.toNat)
    ++ cstr "-" ++ (g.data4.toList.drop 2).flatMap fun b => hex 2 b.toNat

example : gpt_guid_to_string (get_guid_type .PART_ESP)
    = cstr "c12a7328-f81f-11d2-ba4b-00a0c93ec93b" := by
  decide +kernel

variable [Platform]

/-- `getguid_cb`: the number in the option is an `int`, and then an `unsigned int`; an
index that is not in the table is a null pointer. -/
def getguid_cb (g : Gpt) (entry : CStr) (_list_index : ℕ) (opts : Hashmap) :
    Exec Die (Bool × Hashmap) := do
  let index ← xatol (← hashmapGetPrintf opts none (partition_key entry "index"))
  match gpt_entry_get index.toUInt64.toUInt32 g with
  | none => .fault
  | some off => do
    let e ← g.load off
    .ret (true, xhashmapPut opts (partition_key entry "guid") (gpt_guid_to_string e.part_guid))

variable [Qsort]

/-- `partitioner_execute` up to `gpt_write`: the table it is given, and the options by
then. -/
def partitioner_table (m : Machine) (ictx : Ictx) : Exec Die (Gpt × Ictx) := do
  let partlist ← hashmapGetPrintf ictx.opts none BASE_PTN_LIST
  let disk ← hashmapGetPrintf ictx.opts none BASE_INSTALL_DISK
  let dualboot ← xatol (← hashmapGetPrintf ictx.opts (some (cstr "0")) BASE_DUALBOOT)
  let (g, ictx) ← (if dualboot ≠ 0 then execute_dual_boot m disk partlist ictx
    else execute_wipe_disk m partlist ictx)
  let opts ← string_list_iterate partlist (getguid_cb g) ictx.opts
  .ret (g, { ictx with opts := opts })

/-- `partitioner_execute`, up to the bus of the disk. -/
def partitioner_execute (m : Machine) (io : Io) (ictx : Ictx) : Exec Die (Ictx × Io) := do
  let (g, ictx) ← partitioner_table m ictx
  let (ret, _, io) ← gpt_write io g
  if ret ≠ 0 then .die .write_gpt else .ret (ictx, io)

end Code

/-! ## The code, cut where the partitions are made -/

section Cut

variable [Platform] [Qsort]

/-- What there is by the time `create_android_partitions` is called: the table and the
options, and in dual boot the entry that is claimed. -/
structure CreateArgs where
  partlist : CStr
  table : Gpt
  opts : Hashmap
  iprops : Hashmap
  urandom : Urandom
  bootloader_size : UInt64
  esp_index : Option UInt32

def wipe_disk_until (m : Machine) (partlist : CStr) (ictx : Ictx) : Exec Die CreateArgs :=
  match m.gpt_init with
  | none => .die .gpt_init
  | some g => do
    let (ret, g, urandom) ← gpt_new g m.urandom
    if ret ≠ 0 then .die .create_gpt
    else do
      let len ← xatoll
        (← hashmapGetPrintf ictx.opts none (partition_key (cstr "bootloader") "len"))
      .ret ⟨partlist, g, ictx.opts, ictx.iprops, urandom, (len.toUInt64 <<< 20) * 2, none⟩

def dual_boot_until (m : Machine) (disk partlist : CStr) (ictx : Ictx) : Exec Die CreateArgs :=
  match m.gpt_init with
  | none => .die .gpt_init
  | some g => do
    let zero := some (cstr "0")
    let win_resize ← xatoll (← hashmapGetPrintf ictx.opts zero (disk_key disk "windows_resize"))
    let esp_size ← xatoll (← hashmapGetPrintf ictx.opts zero (disk_key disk "esp_size"))
    let esp_index ← xatol (← hashmapGetPrintf ictx.opts zero (disk_key disk "esp_index"))
    let win_index ← xatol (← hashmapGetPrintf ictx.opts zero (disk_key disk "msdata_index"))
    let esp_index := esp_index.toUInt64.toUInt32
    let win_index := win_index.toUInt64.toUInt32
    if esp_index = 0 then .die .no_esp
    else do
      let (ret, g, _) ← gpt_read m.dev m.reads g
      if ret ≠ 0 then .die .read_gpt
      else do
        let g ← (if win_resize ≠ 0 then resize_ntfs_partition m win_index g win_resize.toUInt64
          else .ret g)
        let android_size ← xatoll (← hashmapGetPrintf ictx.opts zero (disk_key disk "android_size"))
        let g ← (if android_size ≠ 0 then delete_android g else .ret g)
        let node ← gpt_get_device_node esp_index g
        .ret ⟨partlist, g, dual_opts ictx.opts esp_size esp_index node,
          if win_index ≠ 0 then xhashmapPut ictx.iprops (cstr "ro.rtc_local_time") (cstr "1")
          else ictx.iprops,
          m.urandom, esp_size.toUInt64, some esp_index⟩

/-- Both halves of `partitioner_table` before the partitions are made. -/
def partitioner_until (m : Machine) (ictx : Ictx) : Exec Die CreateArgs := do
  let partlist ← hashmapGetPrintf ictx.opts none BASE_PTN_LIST
  let disk ← hashmapGetPrintf ictx.opts none BASE_INSTALL_DISK
  let dualboot ← xatol (← hashmapGetPrintf ictx.opts (some (cstr "0")) BASE_DUALBOOT)
  if dualboot ≠ 0 then dual_boot_until m disk partlist ictx
  else wipe_disk_until m partlist ictx

namespace CreateArgs

/-- In dual boot the system partition is renamed once the others are made. -/
def claim (esp_index : Option UInt32) (g : Gpt) (ictx : Ictx) : Exec Die (Gpt × Ictx) :=
  match esp_index with
  | none => .ret (g, ictx)
  | some esp_index =>
    match gpt_entry_get esp_index g with
    | none => .die .reference_esp
    | some off => do
      let e ← g.load off
      let (ret, e) := gpt_entry_set_name e (NAME_MAGIC ++ cstr "bootloader")
      let g ← g.store off e
      if ret ≠ 0 then .die .name_bootloader else .ret (g, ictx)

def install (a : CreateArgs) : Exec Die (Gpt × Ictx) := do
  let (g, opts, _) ← create_android_partitions a.bootloader_size a.partlist a.table
    a.esp_index.isSome a.opts a.urandom
  claim a.esp_index g ⟨opts, a.iprops⟩

/-- The rest of `partitioner_table`. -/
def finish (a : CreateArgs) : Exec Die (Gpt × Ictx) := do
  let (g, ictx) ← a.install
  let opts ← string_list_iterate a.partlist (getguid_cb g) ictx.opts
  .ret (g, { ictx with opts := opts })

end CreateArgs

variable {m : Machine} {disk partlist : CStr} {ictx : Ictx}

/-- The part of a call that comes after `create_android_partitions`, in either mode. -/
theorem execute_wipe_disk_eq :
    execute_wipe_disk m partlist ictx
      = (wipe_disk_until m partlist ictx).bind CreateArgs.install := by
  unfold execute_wipe_disk wipe_disk_until
  rcases m.gpt_init with _ | g
  · rfl
  refine Exec.bind_then ?_
  rintro ⟨ret, g, urandom⟩
  simp only
  by_cases hret : ret ≠ 0
  · rw [if_pos hret, if_pos hret]
    rfl
  rw [if_neg hret, if_neg hret]
  refine Exec.bind_then fun s => Exec.bind_then fun len => ?_
  rfl

/-- Dual boot is what it does up to the partitions, and then the installation of them. -/
theorem execute_dual_boot_until :
    execute_dual_boot m disk partlist ictx
      = (dual_boot_until m disk partlist ictx).bind CreateArgs.install := by
  unfold dual_boot_until
  rcases hinit : m.gpt_init with _ | g
  · rw [execute_dual_boot, hinit]
    rfl
  rw [execute_dual_boot_eq hinit]
  refine Exec.bind_then fun s₁ => Exec.bind_then fun win_resize => ?_
  refine Exec.bind_then fun s₂ => Exec.bind_then fun esp_size => ?_
  refine Exec.bind_then fun s₃ => Exec.bind_then fun esp_val => ?_
  refine Exec.bind_then fun s₄ => Exec.bind_then fun win_val => ?_
  simp only
  by_cases hesp : esp_val.toUInt64.toUInt32 = 0
  · rw [if_pos hesp, if_pos hesp]
    rfl
  rw [if_neg hesp, if_neg hesp]
  refine Exec.bind_then ?_
  rintro ⟨ret, g, rest⟩
  simp only
  by_cases hret : ret ≠ 0
  · rw [if_pos hret, if_pos hret]
    rfl
  rw [if_neg hret, if_neg hret]
  refine Exec.bind_then fun g => Exec.bind_then fun s₅ => Exec.bind_then fun android_size => ?_
  refine Exec.bind_then fun g => ?_
  unfold dual_boot_install
  refine Exec.bind_then fun node => ?_
  rfl

/-- What is known about the call. -/
structure CreateArgs.Ready (m : Machine) (partlist : CStr) (a : CreateArgs) : Prop where
  partlist : a.partlist = partlist
  laid : a.table.Laid
  device : ∃ init, m.gpt_init = some init ∧ a.table.device = init.device
  claimed : ∀ i, a.esp_index = some i →
    a.opts (partition_key (cstr "bootloader") "index") = some (dec i.toNat) ∧
      ∃ node, gpt_get_device_node (ε := Die) i a.table = .ret node ∧
        a.opts (partition_key (cstr "bootloader") "device") = some node

omit [Qsort] in
/-- Wiping the disk has read a table, or made a new one, by then. -/
theorem wipe_disk_ready {a : CreateArgs} (h : wipe_disk_until m partlist ictx = .ret a) :
    a.Ready m partlist := by
  unfold wipe_disk_until at h
  rcases hinit : m.gpt_init with _ | init
  · rw [hinit] at h
    cases h
  rw [hinit] at h
  obtain ⟨⟨ret, g, urandom⟩, hnew, h⟩ := Exec.bind_eq_ret.mp h
  simp only at h
  split_ifs at h with hret
  obtain rfl := not_not.mp hret
  obtain ⟨s, -, h⟩ := Exec.bind_eq_ret.mp h
  obtain ⟨len, -, h⟩ := Exec.bind_eq_ret.mp h
  injection h with h
  subst h
  obtain ⟨-, uuid, -, rfl⟩ := gpt_new_ret hnew
  refine ⟨rfl, (new_table_mapped init uuid).laid, ⟨init, hinit, rfl⟩, ?_⟩
  intro i hi
  cases hi

omit [Platform] [Qsort] in
/-- The options the claimed entry has. -/
theorem dual_opts_claimed (opts : Hashmap) (esp_size : Int64) (esp_index : UInt32) (node : CStr) :
    dual_opts opts esp_size esp_index node (partition_key (cstr "bootloader") "index")
        = some (dec esp_index.toNat) ∧
      dual_opts opts esp_size esp_index node (partition_key (cstr "bootloader") "device")
        = some node := by
  have hne : partition_key (cstr "bootloader") "index" ≠ partition_key (cstr "bootloader") "device" :=
    fun heq => absurd (partition_key_inj (by decide) (by decide) heq).2 (by decide)
  unfold dual_opts
  exact ⟨by rw [xhashmapPut_of_ne hne, xhashmapPut_self], by rw [xhashmapPut_self]⟩

/-- What a call of `dual_boot_until` that returned went through: the numbers it was given, and
the table as it was read, with Windows shrunk and with Android gone. -/
structure DualUntil (m : Machine) (disk partlist : CStr) (ictx : Ictx) (a : CreateArgs) where
  win_resize : Int64
  esp_size : Int64
  android_size : Int64
  esp_index : UInt32
  win_index : UInt32
  init : Gpt
  rest : List IoRes
  read : Gpt
  resized : Gpt
  deleted : Gpt
  node : CStr
  init_eq : m.gpt_init = some init
  read_eq : gpt_read (ε := Die) m.dev m.reads init = .ret (0, read, rest)
  win_resize_is : OptionIs xatoll ictx.opts (disk_key disk "windows_resize") win_resize
  esp_size_is : OptionIs xatoll ictx.opts (disk_key disk "esp_size") esp_size
  android_size_is : OptionIs xatoll ictx.opts (disk_key disk "android_size") android_size
  esp_index_is : IndexIs ictx.opts (disk_key disk "esp_index") esp_index
  win_index_is : IndexIs ictx.opts (disk_key disk "msdata_index") win_index
  esp_index_ne : esp_index ≠ 0
  resize_eq : (if win_resize ≠ 0 then
    resize_ntfs_partition m win_index read win_resize.toUInt64 else .ret read) = .ret resized
  delete_eq : (if android_size ≠ 0 then delete_android resized else .ret resized) = .ret deleted
  node_eq : gpt_get_device_node (ε := Die) esp_index deleted = .ret node
  args_eq : a = ⟨partlist, deleted, dual_opts ictx.opts esp_size esp_index node,
    if win_index ≠ 0 then xhashmapPut ictx.iprops (cstr "ro.rtc_local_time") (cstr "1")
    else ictx.iprops, m.urandom, esp_size.toUInt64, some esp_index⟩

omit [Qsort] in
/-- What dual boot has done by then. -/
theorem dual_boot_until_ret {a : CreateArgs} (h : dual_boot_until m disk partlist ictx = .ret a) :
    Nonempty (DualUntil m disk partlist ictx a) := by
  unfold dual_boot_until at h
  rcases hinit : m.gpt_init with _ | init
  · rw [hinit] at h
    cases h
  rw [hinit] at h
  -- the options
  obtain ⟨s₁, hs₁, h⟩ := Exec.bind_eq_ret.mp h
  obtain ⟨win_resize, hwin_resize, h⟩ := Exec.bind_eq_ret.mp h
  obtain ⟨s₂, hs₂, h⟩ := Exec.bind_eq_ret.mp h
  obtain ⟨esp_size, hesp_size, h⟩ := Exec.bind_eq_ret.mp h
  obtain ⟨s₃, hs₃, h⟩ := Exec.bind_eq_ret.mp h
  obtain ⟨esp_val, hesp_val, h⟩ := Exec.bind_eq_ret.mp h
  obtain ⟨s₄, hs₄, h⟩ := Exec.bind_eq_ret.mp h
  obtain ⟨win_val, hwin_val, h⟩ := Exec.bind_eq_ret.mp h
  simp only at h
  by_cases hesp : esp_val.toUInt64.toUInt32 = 0
  · rw [if_pos hesp] at h
    cases h
  rw [if_neg hesp] at h
  -- the table
  obtain ⟨⟨ret, read, rest⟩, hread, h⟩ := Exec.bind_eq_ret.mp h
  simp only at h
  by_cases hret : ret ≠ 0
  · rw [if_pos hret] at h
    cases h
  rw [if_neg hret] at h
  obtain rfl := not_not.mp hret
  obtain ⟨resized, hresize, h⟩ := Exec.bind_eq_ret.mp h
  obtain ⟨s₅, hs₅, h⟩ := Exec.bind_eq_ret.mp h
  obtain ⟨android_size, handroid, h⟩ := Exec.bind_eq_ret.mp h
  obtain ⟨deleted, hdelete, h⟩ := Exec.bind_eq_ret.mp h
  obtain ⟨node, hnode, h⟩ := Exec.bind_eq_ret.mp h
  injection h with h
  exact ⟨{ win_resize, esp_size, android_size, init, rest, read, resized, deleted, node
           esp_index := esp_val.toUInt64.toUInt32
           win_index := win_val.toUInt64.toUInt32
           init_eq := hinit
           read_eq := hread
           win_resize_is := optionIs_of_ret hs₁ hwin_resize
           esp_size_is := optionIs_of_ret hs₂ hesp_size
           android_size_is := optionIs_of_ret hs₅ handroid
           esp_index_is := ⟨esp_val, optionIs_of_ret hs₃ hesp_val, rfl⟩
           win_index_is := ⟨win_val, optionIs_of_ret hs₄ hwin_val, rfl⟩
           esp_index_ne := hesp
           resize_eq := hresize
           delete_eq := hdelete
           node_eq := hnode
           args_eq := h.symm }⟩

omit [Qsort] in
/-- It too has read a table. -/
theorem dual_boot_ready {a : CreateArgs} (h : dual_boot_until m disk partlist ictx = .ret a) :
    a.Ready m partlist := by
  obtain ⟨r⟩ := dual_boot_until_ret h
  rw [r.args_eq]
  -- the table has an array, and it is one for the same disk, all the way
  obtain ⟨hsound, hsame⟩ := gpt_read_sound r.read_eq
  have hrew := edits_rewritten hsound.live r.resize_eq r.delete_eq
  refine ⟨rfl, hrew.laid hsound.toLaid, ⟨r.init, r.init_eq, hrew.device.trans hsame.device⟩, ?_⟩
  intro i hi
  injection hi with hi
  subst hi
  obtain ⟨hidx, hdev⟩ := dual_opts_claimed ictx.opts r.esp_size r.esp_index r.node
  exact ⟨hidx, r.node, r.node_eq, hdev⟩

/-- **The cut changes nothing.** -/
theorem partitioner_table_eq :
    partitioner_table m ictx = (partitioner_until m ictx).bind CreateArgs.finish := by
  -- the list that was read is the one that is gone over at the end
  have hfinish (partlist : CStr) (x : Exec Die CreateArgs) (hx : ∀ a, x = .ret a →
      a.partlist = partlist) :
      (x.bind CreateArgs.install >>= fun p => (do
        let opts ← string_list_iterate partlist (getguid_cb p.1) p.2.opts
        .ret (p.1, { p.2 with opts := opts }))) = x.bind CreateArgs.finish := by
    cases x with
    | ret a =>
      rw [← hx a rfl]
      rfl
    | die e => rfl
    | fault => rfl
    | hang => rfl
  unfold partitioner_table partitioner_until
  refine Exec.bind_then fun partlist => Exec.bind_then fun disk => Exec.bind_then fun s => ?_
  refine Exec.bind_then fun dualboot => ?_
  by_cases hdual : dualboot ≠ 0
  · rw [if_pos hdual, if_pos hdual, execute_dual_boot_until]
    exact hfinish partlist _ fun a ha => (dual_boot_ready ha).partlist
  · rw [if_neg hdual, if_neg hdual, execute_wipe_disk_eq]
    exact hfinish partlist _ fun a ha => (wipe_disk_ready ha).partlist

omit [Qsort] in
/-- What is known about the call in a run. -/
theorem partitioner_until_ready {a : CreateArgs} (h : partitioner_until m ictx = .ret a) :
    ∃ partlist, ictx.opts BASE_PTN_LIST = some partlist ∧ a.Ready m partlist := by
  unfold partitioner_until at h
  obtain ⟨partlist, hlist, h⟩ := Exec.bind_eq_ret.mp h
  obtain ⟨disk, -, h⟩ := Exec.bind_eq_ret.mp h
  obtain ⟨s, -, h⟩ := Exec.bind_eq_ret.mp h
  obtain ⟨dualboot, -, h⟩ := Exec.bind_eq_ret.mp h
  refine ⟨partlist, hashmapGetPrintf_none.mp hlist, ?_⟩
  split_ifs at h with hdual
  · exact dual_boot_ready h
  · exact wipe_disk_ready h

end Cut

/-! ## What a run writes -/

section Writes

variable [Platform] {g : Gpt} {mc₀ mc mc' mc₂ : MkpartCtx} {list rest : List CStr} {n : CStr}
  {len : Int64} {i j : UInt32} {en : GptEntry}

omit [Platform] in
/-- The node depends on the disk only. -/
theorem device_node_congr {ε : Type} {g g' : Gpt} (h : g'.device = g.device) (i : UInt32) :
    (gpt_get_device_node i g' : Exec ε CStr) = gpt_get_device_node i g := by
  rw [gpt_get_device_node, gpt_get_device_node, h]

/-- An entry that was free in `g` is in use after a run, and it and its options are those
of a partition. -/
structure WrittenAt (g : Gpt) (mc' : MkpartCtx) (n : CStr) (i : UInt32) : Prop where
  inUse : mc'.gpt.InUse i
  new : ¬ g.InUse i
  index : mc'.opts (partition_key n "index") = some (decInt i.toInt32.toInt)
  device : ∃ node, gpt_get_device_node (ε := Die) i mc'.gpt = .ret node ∧
    mc'.opts (partition_key n "device") = some node
  name : ∃ old hn, (mc'.gpt.entry i).name = overwriteName old (NAME_MAGIC ++ n) hn

/-- A partition that was made and counts as in use is there at the end. -/
theorem Made.wrote (hk : Kept g mc.gpt) (h : Made n mc mc₂ len i en) (huse : mc₂.gpt.InUse i)
    (hrest : Run Mkpart rest mc₂ mc') (hn : n ∉ rest) : WrittenAt g mc' n i := by
  obtain ⟨hidx, hfree, hself, -⟩ := h.new hk.mapped
  have hk₂ := hrest.kept (h.kept hk.mapped).mapped
  obtain ⟨huse', hsame⟩ := hk₂.keeps i huse
  have hother (key : CStr) (hkey : ∀ m ∈ rest,
      key ≠ partition_key m "index" ∧ key ≠ partition_key m "device") : mc'.opts key = mc₂.opts key :=
    hrest.other_key (.refl mc₂) fun m hm => hkey m (mem_made_names.mp hm).1
  have hne (f : String) (hf : 58 ∉ cstr f) : ∀ m ∈ rest, ∀ f' : String, 58 ∉ cstr f' →
      partition_key n f ≠ partition_key m f' := by
    intro m hm f' hf' heq
    exact hn ((partition_key_inj hf hf' heq).1 ▸ hm)
  obtain ⟨node, hnode, hdevice⟩ := h.device
  refine ⟨huse', fun hg => hfree (hk.keeps i hg).1, ?_, ⟨node, ?_, ?_⟩, ?_⟩
  · rw [hother _ fun m hm => ⟨hne "index" (by decide) m hm "index" (by decide),
      hne "index" (by decide) m hm "device" (by decide)⟩]
    exact h.index
  · rw [device_node_congr hk₂.device]
    exact hnode
  · rw [hother _ fun m hm => ⟨hne "device" (by decide) m hm "index" (by decide),
      hne "device" (by decide) m hm "device" (by decide)⟩]
    exact hdevice
  · obtain ⟨hlen, hname⟩ := h.name
    exact ⟨_, hlen, by rw [hsame, hself]; exact hname⟩

/-- **Whatever is new after a run was made for a partition of the list.** -/
theorem Run.origin (h : Run Mkpart list mc mc') (hst : Steady mc₀ mc) (hk : Kept g mc.gpt)
    (hnodup : list.Nodup) (hj : mc'.gpt.InUse j) (hnew : ¬ mc.gpt.InUse j) :
    ∃ n ∈ made_names mc₀.skip_bootloader list, WrittenAt g mc' n j := by
  induction h with
  | nil mc => exact absurd hj hnew
  | @cons n list mc₁ mc₂ mc₃ hstep hrest ih =>
    obtain ⟨hnlist, hnodup⟩ := List.nodup_cons.mp hnodup
    rcases hstep with ⟨hskip, rfl⟩ | ⟨len, i, en, hmade⟩
    · obtain ⟨m, hm, hwrote⟩ := ih hst hk hnodup hj hnew
      have hmem := mem_made_names.mp hm
      exact ⟨m, mem_made_names.mpr ⟨List.mem_cons_of_mem _ hmem.1, hmem.2⟩, hwrote⟩
    · by_cases huse : mc₂.gpt.InUse j
      · obtain ⟨-, -, -, hold⟩ := hmade.new hk.mapped
        rcases hold j huse with rfl | ⟨hj', -⟩
        · refine ⟨n, mem_made_names.mpr ⟨List.mem_cons_self, ?_⟩, hmade.wrote hk huse hrest hnlist⟩
          rw [← hst.skip]
          exact hmade.not_skipped
        · exact absurd hj' hnew
      · obtain ⟨m, hm, hwrote⟩ := ih (hmade.steady hst) (hk.trans (hmade.kept hk.mapped)) hnodup hj
          huse
        have hmem := mem_made_names.mp hm
        exact ⟨m, mem_made_names.mpr ⟨List.mem_cons_of_mem _ hmem.1, hmem.2⟩, hwrote⟩

/-- No partition is placed at LBA 0: with the first at MiB `next_mb`, and `part` MiB for
each. -/
def ClearOfZero (g : Gpt) (part : CStr → UInt64) : UInt64 → List CStr → Prop
  | _, [] => True
  | next_mb, n :: names => mib_to_lba g next_mb ≠ 0 ∧ ClearOfZero g part (next_mb + part n) names

/-- A partition that was made counts as in use unless it was placed at LBA 0. -/
theorem Made.inUse_iff (hk : Kept g mc.gpt) (h : Made n mc mc' len i en) :
    mc'.gpt.InUse i ↔ mib_to_lba g mc.next_mb ≠ 0 := by
  obtain ⟨hidx, -, hself, -⟩ := h.new hk.mapped
  have hlba : mib_to_lba mc.gpt mc.next_mb = mib_to_lba g mc.next_mb := by
    rw [mib_to_lba, mib_to_lba, hk.lba_size]
  rw [Gpt.InUse, hself, h.first, hlba]
  exact and_iff_right hidx

/-- What the callback gives a partition in a run that starts with `mc₀`. -/
def part_of (mc₀ : MkpartCtx) (n : CStr) : UInt64 := part_mb mc₀ (len_of mc₀.opts n)

/-- The next partition starts behind the one that was made. -/
theorem Made.next_of (h : Made n mc mc' len i en) (hst : Steady mc₀ mc) :
    mc'.next_mb = mc.next_mb + part_of mc₀ n := by
  have hlen : len_of mc₀.opts n = len := by
    obtain ⟨s, hs, hret⟩ := h.len_is
    exact LenIs.len_of ⟨s, by rw [← hst.lens, hs], hret⟩
  rw [h.next, part_of, hlen, part_mb, part_mb, hst.disk_mb, hst.ptn_mb]

/-- **If none is placed at LBA 0, every partition of the list is written.** -/
theorem Run.wrote (h : Run Mkpart list mc mc') (hst : Steady mc₀ mc) (hk : Kept g mc.gpt)
    (hnodup : list.Nodup)
    (hclear : ClearOfZero g (part_of mc₀) mc.next_mb (made_names mc₀.skip_bootloader list)) :
    ∀ n ∈ made_names mc₀.skip_bootloader list, ∃ i, WrittenAt g mc' n i := by
  induction h with
  | nil mc =>
    intro n hn
    exact absurd hn List.not_mem_nil
  | @cons n list mc₁ mc₂ mc₃ hstep hrest ih =>
    obtain ⟨hnlist, hnodup⟩ := List.nodup_cons.mp hnodup
    rcases hstep with ⟨hskip, rfl⟩ | ⟨len, i, en, hmade⟩
    · rw [hst.names hskip] at hclear ⊢
      exact ih hst hk hnodup hclear
    · rw [hmade.names hst] at hclear ⊢
      obtain ⟨hfirst, hclear⟩ := hclear
      rw [← hmade.next_of hst] at hclear
      intro m hm
      rcases List.mem_cons.mp hm with rfl | hm
      · exact ⟨i, hmade.wrote hk ((hmade.inUse_iff hk).mpr hfirst) hrest hnlist⟩
      · exact ih (hmade.steady hst) (hk.trans (hmade.kept hk.mapped)) hnodup hclear m hm

/-- **And only then**: if all have an index of their own, under which an entry is in use,
none was placed at LBA 0. -/
theorem Run.clear (h : Run Mkpart list mc mc') (hst : Steady mc₀ mc) (hk : Kept g mc.gpt)
    (hnodup : list.Nodup)
    (hinUse : ∀ n ∈ made_names mc₀.skip_bootloader list, ∀ i, mc'.gpt.Index i →
      mc'.opts (partition_key n "index") = some (decInt i.toInt32.toInt) → mc'.gpt.InUse i)
    (hapart : ∀ n ∈ made_names mc₀.skip_bootloader list,
      ∀ m ∈ made_names mc₀.skip_bootloader list,
      mc'.opts (partition_key n "index") = mc'.opts (partition_key m "index") → n = m) :
    ClearOfZero g (part_of mc₀) mc.next_mb (made_names mc₀.skip_bootloader list) := by
  induction h with
  | nil mc => exact trivial
  | @cons n list mc₁ mc₂ mc₃ hstep hrest ih =>
    obtain ⟨hnlist, hnodup⟩ := List.nodup_cons.mp hnodup
    rcases hstep with ⟨hskip, rfl⟩ | ⟨len, i, en, hmade⟩
    · rw [hst.names hskip] at hinUse hapart ⊢
      exact ih hst hk hnodup hinUse hapart
    · rw [hmade.names hst] at hinUse hapart ⊢
      have hk₂ := hk.trans (hmade.kept hk.mapped)
      have hindex : mc₃.opts (partition_key n "index") = some (decInt i.toInt32.toInt) := by
        rw [hrest.index_key hnlist]
        exact hmade.index
      refine ⟨?_, ?_⟩
      · rw [← hmade.inUse_iff hk]
        by_contra hfree
        -- then the slot has been handed out again, to another name
        have hidx : mc₃.gpt.Index i := by
          obtain ⟨hi, -⟩ := hmade.new hk.mapped
          rw [Gpt.Index, (hrest.kept hk₂.mapped).header]
          exact hi
        have huse := hinUse n List.mem_cons_self i hidx hindex
        obtain ⟨m, hm, hwrote⟩ := hrest.origin (hmade.steady hst) hk₂ hnodup huse hfree
        have hsame := hapart n List.mem_cons_self m (List.mem_cons_of_mem _ hm)
          (hindex.trans hwrote.index.symm)
        exact hnlist (hsame ▸ (mem_made_names.mp hm).1)
      · rw [← hmade.next_of hst]
        exact ih (hmade.steady hst) hk₂ hnodup
          (fun m hm => hinUse m (List.mem_cons_of_mem _ hm))
          (fun m hm m' hm' => hapart m (List.mem_cons_of_mem _ hm) m' (List.mem_cons_of_mem _ hm'))

/-! ## Which slots are used -/

/-- The free slots of a table, in order. -/
def Gpt.freeSlots (g : Gpt) : List UInt32 :=
  (indices g.header.num_pentries).filter fun i => (g.entry i).first_lba = 0

/-- A partition that counts as in use takes the first free slot. -/
theorem Made.freeSlots (hmap : mc.gpt.Mapped) (h : Made n mc mc' len i en)
    (huse : mc'.gpt.InUse i) : mc.gpt.freeSlots = i :: mc'.gpt.freeSlots := by
  obtain ⟨hidx, hfree, -, hold⟩ := h.new hmap
  have hkept := h.kept hmap
  -- an index is free afterwards if it was before, and is not the new one
  have hfilter : mc'.gpt.freeSlots = mc.gpt.freeSlots.filter fun j => j ≠ i := by
    rw [Gpt.freeSlots, Gpt.freeSlots, List.filter_filter, hkept.header]
    refine List.filter_congr fun j hj => ?_
    have hjdx : mc.gpt.Index j := mem_indices.mp hj
    have hjdx' : mc'.gpt.Index j := by
      rw [Gpt.Index, hkept.header]
      exact hjdx
    rw [← Bool.decide_and, decide_eq_decide]
    constructor
    · intro h0
      refine ⟨?_, ?_⟩
      · rintro rfl
        exact huse.2 h0
      · by_contra h1
        exact (hkept.keeps j ⟨hjdx, h1⟩).1.2 h0
    · rintro ⟨hne, h0⟩
      by_contra h1
      rcases hold j ⟨hjdx', h1⟩ with rfl | ⟨huse', -⟩
      · exact hne rfl
      · exact huse'.2 h0
  have hhead : mc.gpt.freeSlots.head? = some i := by
    rw [Gpt.freeSlots, List.head?_filter]
    exact h.slot
  have hnodup : mc.gpt.freeSlots.Nodup := (nodup_indices _).filter _
  cases hslots : mc.gpt.freeSlots with
  | nil =>
    rw [hslots] at hhead
    cases hhead
  | cons j t =>
    rw [hslots] at hhead hfilter hnodup
    injection hhead with hhead
    subst hhead
    obtain ⟨hmem, -⟩ := List.nodup_cons.mp hnodup
    rw [hfilter, List.filter_cons_of_neg (by simp), List.filter_eq_self.mpr]
    intro k hk
    exact decide_eq_true fun heq => hmem (heq ▸ hk)

/-- **The slots of the new partitions**: the first free ones, one for each. -/
theorem Run.slots (h : Run Mkpart list mc mc') (hst : Steady mc₀ mc) (hk : Kept g mc.gpt)
    (hclear : ClearOfZero g (part_of mc₀) mc.next_mb (made_names mc₀.skip_bootloader list)) :
    mc'.gpt.InUse j ∧ ¬ mc.gpt.InUse j ↔
      j ∈ mc.gpt.freeSlots.take (made_names mc₀.skip_bootloader list).length := by
  induction h with
  | nil mc =>
    rw [made_names, List.filter_nil, List.length_nil, List.take_zero]
    exact ⟨fun h => absurd h.1 h.2, fun h => absurd h List.not_mem_nil⟩
  | @cons n list mc₁ mc₂ mc₃ hstep hrest ih =>
    -- A skipped entry takes no slot; any other takes the first of those that are free.
    rcases hstep with ⟨hskip, rfl⟩ | ⟨len, i, en, hmade⟩
    · rw [hst.names hskip] at hclear ⊢
      exact ih hst hk hclear
    · rw [hmade.names hst] at hclear ⊢
      obtain ⟨hfirst, hclear⟩ := hclear
      rw [← hmade.next_of hst] at hclear
      have hk₁ := hmade.kept hk.mapped
      have huse := (hmade.inUse_iff hk).mpr hfirst
      obtain ⟨-, hfree, -, hold⟩ := hmade.new hk.mapped
      rw [hmade.freeSlots hk.mapped huse, List.length_cons, List.take_succ_cons, List.mem_cons,
        ← ih (hmade.steady hst) (hk.trans hk₁) hclear]
      constructor
      · rintro ⟨hj, hnew⟩
        by_cases hj₂ : mc₂.gpt.InUse j
        · rcases hold j hj₂ with rfl | ⟨hj', -⟩
          · exact .inl rfl
          · exact absurd hj' hnew
        · exact .inr ⟨hj, hj₂⟩
      · rintro (rfl | ⟨hj, hnew⟩)
        · exact ⟨((hrest.kept hk₁.mapped).keeps _ huse).1, hfree⟩
        · exact ⟨hj, fun hj' => hnew (hk₁.keeps j hj').1⟩

end Writes

/-! ## The pass over the finished table -/

section Guids

variable [Platform] {g : Gpt} {list : List CStr} {opts opts' : Hashmap}

/-- The index option of a partition, as `getguid_cb` reads it. -/
def IndexOption (opts : Hashmap) (n : CStr) (i : UInt32) : Prop :=
  ∃ s v, opts (partition_key n "index") = some s ∧ xatol s = .ret v ∧ v.toUInt64.toUInt32 = i

/-- **The pass puts down the GUID of every partition, and nothing else.** -/
theorem getguid_loop {idx : ℕ} (hg : g.Mapped)
    (h : iterate (getguid_cb g) list idx opts = .ret opts') :
    (∀ key, (∀ n ∈ list, key ≠ partition_key n "guid") → opts' key = opts key) ∧
      ∀ n ∈ list, ∃ i, IndexOption opts n i ∧ g.Index i ∧
        opts' (partition_key n "guid") = some (gpt_guid_to_string (g.entry i).part_guid) := by
  induction list generalizing opts idx with
  | nil =>
    injection h with h
    subst h
    exact ⟨fun _ _ => rfl, fun n hn => absurd hn List.not_mem_nil⟩
  | cons n list ih =>
    rw [iterate] at h
    obtain ⟨⟨go, opts₁⟩, hstep, h⟩ := Exec.bind_eq_ret.mp h
    -- one call of the callback
    have hthis : go = true ∧ ∃ i, IndexOption opts n i ∧ g.Index i ∧ opts₁ = xhashmapPut opts
        (partition_key n "guid") (gpt_guid_to_string (g.entry i).part_guid) := by
      rw [getguid_cb] at hstep
      obtain ⟨s, hs, hstep⟩ := Exec.bind_eq_ret.mp hstep
      obtain ⟨v, hv, hstep⟩ := Exec.bind_eq_ret.mp hstep
      by_cases hi : g.Index v.toUInt64.toUInt32
      · rw [gpt_entry_get_of_index hi] at hstep
        simp only [load_entry hg hi, Exec.ret_bind, Exec.ret.injEq, Prod.mk.injEq] at hstep
        exact ⟨hstep.1.symm, _, ⟨s, v, hashmapGetPrintf_none.mp hs, hv, rfl⟩, hi, hstep.2.symm⟩
      · rw [gpt_entry_get_of_not_index hi] at hstep
        cases hstep
    obtain ⟨rfl, i, hopt, hi, rfl⟩ := hthis
    obtain ⟨hkeep, hall⟩ := ih h
    -- the index options are not touched
    have hindex (m : CStr) : xhashmapPut opts (partition_key n "guid")
        (gpt_guid_to_string (g.entry i).part_guid) (partition_key m "index")
          = opts (partition_key m "index") := by
      refine xhashmapPut_of_ne fun heq => ?_
      exact absurd (partition_key_inj (by decide) (by decide) heq).2 (by decide)
    have hall' : ∀ m ∈ list, ∃ i, IndexOption opts m i ∧ g.Index i ∧
        opts' (partition_key m "guid") = some (gpt_guid_to_string (g.entry i).part_guid) := by
      intro m hm
      obtain ⟨j, ⟨s, v, hs, hv⟩, hj⟩ := hall m hm
      exact ⟨j, ⟨s, v, (hindex m).symm.trans hs, hv⟩, hj⟩
    refine ⟨fun key hkey => ?_, fun m hm => ?_⟩
    · rw [hkeep key fun m hm => hkey m (List.mem_cons_of_mem _ hm)]
      exact xhashmapPut_of_ne (hkey n List.mem_cons_self)
    · by_cases hlist : m ∈ list
      · exact hall' m hlist
      · obtain rfl : m = n := (List.mem_cons.mp hm).resolve_right hlist
        refine ⟨i, hopt, hi, ?_⟩
        rw [hkeep _ fun m' hm' heq => hlist ?_]
        · exact xhashmapPut_self
        · rw [(partition_key_inj (by decide) (by decide) heq).1]
          exact hm'

end Guids

/-! ## The finished table -/

section Finished

variable [Platform]

/-- The options about partition `n` are those of entry `i` of the table. -/
structure PublishedAt (disk : CStr) (g : Gpt) (opts : Hashmap) (n : CStr) (i : UInt32) : Prop where
  inUse : g.InUse i
  name : gpt_entry_get_name (ε := Die) (gpt_entry_offset i g) g = .ret (NAME_MAGIC ++ n)
  index : opts (partition_key n "index") = some (dec i.toNat)
  install_disk : g.device = cstr "/dev/block/" ++ disk
  device : ∃ node, gpt_get_device_node (ε := Die) i g = .ret node ∧
    opts (partition_key n "device") = some node
  guid : opts (partition_key n "guid") = some (gpt_guid_to_string (g.entry i).part_guid)

/-- What is published agrees with the table, and no two names share an index. -/
structure PublishesTable (disk : CStr) (g : Gpt) (opts : Hashmap) (list : List CStr) : Prop where
  published : ∀ n ∈ list, ∃ i, PublishedAt disk g opts n i
  apart : ∀ n ∈ list, ∀ m ∈ list, n ≠ m →
    opts (partition_key n "index") ≠ opts (partition_key m "index")

/-- The entry that is claimed has a new name. -/
def Claimed (g g' : Gpt) : Option UInt32 → Prop
  | none => g' = g
  | some i => g.Index i ∧ g' = g.setEntry i (renamed (g.entry i))

variable {g g' : Gpt} {esp : Option UInt32} {i : UInt32}

/-- Claiming an entry keeps the invariant, the header and the device. -/
theorem Claimed.mapped (hg : g.Mapped) (h : Claimed g g' esp) :
    g'.Mapped ∧ g'.header = g.header ∧ g'.device = g.device := by
  cases esp with
  | none =>
    obtain rfl := h
    exact ⟨hg, rfl, rfl⟩
  | some k =>
    obtain ⟨hk, rfl⟩ := h
    exact ⟨setEntry_mapped hg hk, rfl, rfl⟩

theorem Claimed.entry (hg : g.Mapped) (h : Claimed g g' esp) (hi : g.Index i) :
    g'.entry i = if esp = some i then renamed (g.entry i) else g.entry i := by
  cases esp with
  | none =>
    obtain rfl := h
    rw [if_neg (by simp)]
  | some k =>
    obtain ⟨hk, rfl⟩ := h
    rw [entry_setEntry hg hk hi]
    by_cases hik : i = k
    · rw [if_pos hik, if_pos (by rw [hik]), hik]
    · rw [if_neg hik, if_neg fun heq => hik (Option.some.inj heq).symm]

theorem Claimed.inUse_iff (hg : g.Mapped) (h : Claimed g g' esp) : g'.InUse i ↔ g.InUse i := by
  have hidx : g'.Index i ↔ g.Index i := by
    rw [Gpt.Index, Gpt.Index, (h.mapped hg).2.1]
  rw [Gpt.InUse, Gpt.InUse, hidx]
  refine and_congr_right fun hi => ?_
  have hfirst : (g'.entry i).first_lba = (g.entry i).first_lba := by
    rw [h.entry hg hi]
    split_ifs
    · rw [renamed_eq]
    · rfl
  rw [hfirst]

omit [Platform] in
/-- The number an index is printed as. -/
theorem decInt_index (hg : g.Mapped) (hi : g.Index i) : decInt i.toInt32.toInt = dec i.toNat := by
  rw [(toInt32_index hg hi).2.2.1]
  rfl

omit [Platform] in
/-- And the index that is read back. -/
theorem IndexOption.eq {opts : Hashmap} {n : CStr} {j : UInt32} (h : IndexOption opts n j)
    (hi : opts (partition_key n "index") = some (dec i.toNat)) : j = i := by
  obtain ⟨s, v, hs, hv, rfl⟩ := h
  rw [hi] at hs
  injection hs with hs
  have hlt := i.toNat_lt
  rw [← hs, xatol_dec (by omega)] at hv
  injection hv with hv
  have hint : (Int64.ofInt (i.toNat : ℤ)).toInt = i.toNat :=
    Int64.toInt_ofInt_of_le (by omega) (by omega)
  obtain ⟨hnat, -⟩ := toNat_toUInt64_of_nonneg (hint ▸ Int.natCast_nonneg _)
  rw [hint] at hnat
  rw [← hv, ← UInt32.toNat_inj, UInt64.toNat_toUInt32, Int.ofNat.inj hnat]
  exact Nat.mod_eq_of_lt hlt

/-- A call that has gone through to the end. -/
structure Finished (a : CreateArgs) (mc mc' : MkpartCtx) (g' : Gpt) (opts' : Hashmap) : Prop where
  mapped : a.table.Mapped
  gpt : mc.gpt = a.table
  skip : mc.skip_bootloader = a.esp_index.isSome
  opts : mc.opts = install_opts a.opts
  run : Run Mkpart (entries a.partlist) mc mc'
  claimed : Claimed mc'.gpt g' a.esp_index
  index : ∀ n, opts' (partition_key n "index") = mc'.opts (partition_key n "index")
  device : ∀ n, opts' (partition_key n "device") = mc'.opts (partition_key n "device")
  guid : ∀ n ∈ entries a.partlist, ∃ i, IndexOption mc'.opts n i ∧ g'.Index i ∧
    opts' (partition_key n "guid") = some (gpt_guid_to_string (g'.entry i).part_guid)

variable {m : Machine} {a : CreateArgs} {mc mc' : MkpartCtx} {opts' : Hashmap} {n partlist disk : CStr}

namespace Finished

variable (hf : Finished a mc mc' g' opts') (hr : a.Ready m partlist)

include hf

/-- What was in use when the partitions were made is kept, before the last of them and after it. -/
theorem kept : Kept a.table mc.gpt ∧ Kept a.table mc'.gpt := by
  have hk : Kept a.table mc.gpt := by
    rw [hf.gpt]
    exact .refl hf.mapped
  exact ⟨hk, hk.trans (hf.run.kept hk.mapped)⟩

include hr

/-- The claimed entry is not one of the new ones, nor are its options. -/
theorem claimed_opts (hi : a.esp_index = some i) :
    mc'.opts (partition_key (cstr "bootloader") "index") = some (dec i.toNat) ∧
      ∃ node, gpt_get_device_node (ε := Die) i a.table = .ret node ∧
        mc'.opts (partition_key (cstr "bootloader") "device") = some node := by
  obtain ⟨hindex, node, hnode, hdevice⟩ := hr.claimed i hi
  have hsame (f : String) (hf58 : 58 ∉ cstr f) (hlen : cstr f ≠ cstr "len") :
      mc'.opts (partition_key (cstr "bootloader") f) = a.opts (partition_key (cstr "bootloader") f) := by
    have hput : install_opts a.opts (partition_key (cstr "bootloader") f)
        = a.opts (partition_key (cstr "bootloader") f) := by
      unfold install_opts
      rcases a.opts (partition_key (cstr "bootloader") "len") with _ | s
      · rfl
      · exact xhashmapPut_of_ne fun heq => hlen (partition_key_inj hf58 (by decide) heq).2
    rw [← hput, ← hf.opts]
    have hboot (n : CStr) (hn : n ∈ made_names mc.skip_bootloader (entries a.partlist)) :
        cstr "bootloader" ≠ n := by
      rintro rfl
      refine (mem_made_names.mp hn).2 ⟨?_, rfl⟩
      rw [hf.skip, hi]
      rfl
    refine hf.run.other_key (.refl mc) fun n hn => ⟨fun heq => ?_, fun heq => ?_⟩
    · exact hboot n hn (partition_key_inj hf58 (by decide) heq).1
    · exact hboot n hn (partition_key_inj hf58 (by decide) heq).1
  refine ⟨(hsame "index" (by decide) (by decide)).trans hindex, node, hnode, ?_⟩
  exact (hsame "device" (by decide) (by decide)).trans hdevice

omit hr in
/-- An entry that was written, and not renamed since, is published. -/
theorem published_new (hdisk : a.table.device = cstr "/dev/block/" ++ disk)
    (hn : n ∈ entries a.partlist) (hw : WrittenAt a.table mc' n i) (hne : a.esp_index ≠ some i)
    (h0 : 0 ∉ n) (hascii : ∀ c ∈ n, c < 128) : PublishedAt disk g' opts' n i := by
  have hk := (hf.kept).2
  obtain ⟨hmapped, -, hdev⟩ := hf.claimed.mapped hk.mapped
  have huse := (hf.claimed.inUse_iff hk.mapped).mpr hw.inUse
  have hent : g'.entry i = mc'.gpt.entry i := by
    rw [hf.claimed.entry hk.mapped hw.inUse.1, if_neg hne]
  have hindex : mc'.opts (partition_key n "index") = some (dec i.toNat) := by
    rw [hw.index, decInt_index hk.mapped hw.inUse.1]
  refine ⟨huse, ?_, (hf.index n).trans hindex, ?_, ?_, ?_⟩
  · obtain ⟨old, hlen, hname⟩ := hw.name
    rw [← hent] at hname
    rw [get_name_overwriteName hmapped huse.1 hlen ?_ hname, map_shown]
    · intro c hc
      have hmagic : ∀ c ∈ NAME_MAGIC, c < 128 := by
        decide +kernel
      rcases List.mem_append.mp hc with hc | hc
      · exact hmagic c hc
      · exact hascii c hc
    · intro hc
      rcases List.mem_append.mp hc with hc | hc
      · exact absurd hc (by decide +kernel)
      · exact h0 hc
  · rw [hdev, hk.device, hdisk]
  · obtain ⟨node, hnode, hopt⟩ := hw.device
    exact ⟨node, (device_node_congr hdev i).trans hnode, (hf.device n).trans hopt⟩
  · obtain ⟨j, hj, -, hguid⟩ := hf.guid n hn
    rw [hj.eq hindex] at hguid
    exact hguid

/-- So is the one that was claimed, if it was in use. -/
theorem published_claimed (hdisk : a.table.device = cstr "/dev/block/" ++ disk)
    (hi : a.esp_index = some i) (huse : a.table.InUse i)
    (hn : cstr "bootloader" ∈ entries a.partlist) :
    PublishedAt disk g' opts' (cstr "bootloader") i := by
  have hk := (hf.kept).2
  obtain ⟨hmapped, -, hdev⟩ := hf.claimed.mapped hk.mapped
  have huse' := (hk.keeps i huse).1
  have huse'' := (hf.claimed.inUse_iff hk.mapped).mpr huse'
  obtain ⟨hindex, node, hnode, hopt⟩ := hf.claimed_opts hr hi
  have hent : g'.entry i = renamed (mc'.gpt.entry i) := by
    rw [hf.claimed.entry hk.mapped huse'.1, if_pos hi]
  refine ⟨huse'', ?_, (hf.index _).trans hindex, ?_, ?_, ?_⟩
  · exact renamed_name hmapped huse''.1 hent
  · rw [hdev, hk.device, hdisk]
  · refine ⟨node, ?_, (hf.device _).trans hopt⟩
    rw [device_node_congr hdev, device_node_congr hk.device]
    exact hnode
  · obtain ⟨j, hj, -, hguid⟩ := hf.guid _ hn
    rw [hj.eq hindex] at hguid
    exact hguid

end Finished

end Finished

/-! ## When the options are right -/

section Right

variable [Platform] [Qsort] {m : Machine} {ictx ictx' : Ictx} {a : CreateArgs} {g' : Gpt}
  {mc mc' : MkpartCtx} {opts' : Hashmap} {n disk partlist : CStr} {i : UInt32}
  {s e needed : UInt64}

omit [Platform] [Qsort] in
/-- The characters of an entry are in the list. -/
theorem mem_of_mem_entries {list : CStr} (hn : n ∈ entries list) {c : UInt8} (hc : c ∈ n) :
    c ∈ list := by
  -- Cutting a list into pieces only leaves characters out; the induction is on the list.
  have hsplit : ∀ l : List UInt8, ∀ n ∈ l.splitOnP (fun c => c = 32 ∨ c = 9), ∀ c ∈ n, c ∈ l := by
    intro l
    induction l with
    | nil =>
      intro n hn c hc
      rw [List.splitOnP_nil, List.mem_singleton] at hn
      rw [hn] at hc
      exact hc
    | cons x l ih =>
      intro n hn c hc
      rw [List.splitOnP_cons_eq_if_modifyHead] at hn
      split_ifs at hn
      · rcases List.mem_cons.mp hn with rfl | hn
        · exact absurd hc List.not_mem_nil
        · exact List.mem_cons_of_mem _ (ih n hn c hc)
      · cases hl : l.splitOnP (fun c => c = 32 ∨ c = 9) with
        | nil =>
          rw [hl] at hn
          exact absurd hn List.not_mem_nil
        | cons l₁ ls =>
          rw [hl] at hn ih
          rcases List.mem_cons.mp hn with rfl | hn
          · rcases List.mem_cons.mp hc with rfl | hc
            · exact List.mem_cons_self
            · exact List.mem_cons_of_mem _ (ih l₁ List.mem_cons_self c hc)
          · exact List.mem_cons_of_mem _ (ih n (List.mem_cons_of_mem _ hn) c hc)
  exact hsplit list n (List.mem_filter.mp hn).1 c hc

/-- A call that returned has gone through to the end. -/
theorem finished_of_ret (hr : a.Ready m partlist) (h : a.finish = .ret (g', ictx'))
    (hfind : gpt_find_contiguous_free_space (ε := Die) a.table = .ret (some (s, e))) :
    ∃ needed mc mc', get_partial_space_required a.opts a.bootloader_size = .ret needed ∧
      Starts a.table s e needed a.esp_index.isSome a.opts mc ∧ Finished a mc mc' g' ictx'.opts := by
  unfold CreateArgs.finish CreateArgs.install at h
  obtain ⟨⟨g, ictx₁⟩, hinstall, h⟩ := Exec.bind_eq_ret.mp h
  obtain ⟨opts₁, hguid, h⟩ := Exec.bind_eq_ret.mp h
  simp only [Exec.ret.injEq, Prod.mk.injEq] at h
  obtain ⟨rfl, rfl⟩ := h
  obtain ⟨⟨created, opts₂, urandom'⟩, hcreate, hclaim⟩ := Exec.bind_eq_ret.mp hinstall
  have hg : a.table.Mapped := mapped_of_find hr.laid hfind
  obtain ⟨needed, mc, mc', hneed, hst, hrun, rfl, rfl⟩ := create_run hg hfind hcreate
  have hmap : mc'.gpt.Mapped := (hrun.kept (hst.gpt ▸ hg)).mapped
  have hclaimed : Claimed mc'.gpt g a.esp_index ∧ ictx₁.opts = mc'.opts := by
    unfold CreateArgs.claim at hclaim
    -- An ESP that is there already gets the name of the bootloader, in its slot.
    cases hesp : a.esp_index with
    | none =>
      rw [hesp] at hclaim
      simp only [Exec.ret.injEq, Prod.mk.injEq] at hclaim
      exact ⟨hclaim.1.symm, by rw [← hclaim.2]⟩
    | some i =>
      rw [hesp] at hclaim
      by_cases hi : mc'.gpt.Index i
      · have hlen : (NAME_MAGIC ++ cstr "bootloader").length ≤ 35 := by decide
        simp only [gpt_entry_get_of_index hi] at hclaim
        simp only [load_entry hmap hi, Exec.ret_bind, gpt_entry_set_name_of_le hlen,
          store_entry hmap hi, ne_eq, not_true_eq_false, if_false, Exec.ret.injEq,
          Prod.mk.injEq] at hclaim
        refine ⟨⟨hi, ?_⟩, by rw [← hclaim.2]⟩
        rw [← hclaim.1, renamed, bootloader_name, gpt_entry_set_name_of_le hlen]
      · simp only [gpt_entry_get_of_not_index hi] at hclaim
        cases hclaim
  -- The last loop puts options of its own, and no index or device among them.
  obtain ⟨hkeys, hguids⟩ := getguid_loop (hclaimed.1.mapped hmap).1 hguid
  rw [hclaimed.2] at hkeys hguids
  refine ⟨needed, mc, mc', hneed, hst, hg, hst.gpt, hst.skip, hst.opts, hrun, hclaimed.1, ?_, ?_, hguids⟩
  · exact fun n => hkeys _ fun k _ heq =>
      absurd (partition_key_inj (by decide) (by decide) heq).2 (by decide)
  · exact fun n => hkeys _ fun k _ heq =>
      absurd (partition_key_inj (by decide) (by decide) heq).2 (by decide)

/-- The MiB the callback gives a partition. -/
def CreateArgs.part (a : CreateArgs) (s e needed : UInt64) (n : CStr) : UInt64 :=
  if len_of (install_opts a.opts) n < 0 then
    to_mib_floor ((e + 1) * a.table.lba_size.toUInt64) - to_mib (s * a.table.lba_size.toUInt64)
      - to_mib needed
  else (len_of (install_opts a.opts) n).toUInt64

/-- The partitions that are made. -/
def CreateArgs.names (a : CreateArgs) : List CStr :=
  made_names a.esp_index.isSome (entries a.partlist)

/-- The claimed entry is in use; or the list does not name it, and its slot is behind those
of the new entries. -/
def CreateArgs.SystemPartitionStays (a : CreateArgs) : Prop :=
  ∀ i, a.esp_index = some i → a.table.InUse i ∨
    cstr "bootloader" ∉ entries a.partlist ∧ i ∉ a.table.freeSlots.take a.names.length

omit [Platform] [Qsort] in
/-- The sizes are those worked out from the arguments. -/
theorem Starts.part_eq (hst : Starts a.table s e needed a.esp_index.isSome a.opts mc) :
    part_of mc = a.part s e needed := by
  funext n
  rw [part_of, part_mb, CreateArgs.part, hst.opts, hst.disk_mb, hst.ptn_mb]

omit [Qsort] in
/-- With room for the index, none at LBA 0 and plain names, everything is published. -/
theorem Finished.publishes (hf : Finished a mc mc' g' opts') (hr : a.Ready m partlist)
    (hdisk : a.table.device = cstr "/dev/block/" ++ disk) (hnul : 0 ∉ a.partlist)
    (hnodup : (entries a.partlist).Nodup)
    (hclear : ClearOfZero a.table (part_of mc) mc.next_mb (made_names mc.skip_bootloader (entries a.partlist)))
    (hascii : ∀ n ∈ entries a.partlist, ∀ c ∈ n, c < 128) (hstays : a.SystemPartitionStays) :
    PublishesTable disk g' opts' (entries a.partlist) := by
  obtain ⟨hk, hk'⟩ := hf.kept
  have hwrote := hf.run.wrote (.refl mc) hk hnodup hclear
  have hnul' : ∀ n ∈ entries a.partlist, 0 ∉ n := fun n hn hc => hnul (mem_of_mem_entries hn hc)
  -- the claimed slot is not one of the new ones
  have hne : ∀ n i, WrittenAt a.table mc' n i → a.esp_index ≠ some i := by
    intro n i hw hi
    rcases hstays i hi with huse | ⟨-, hslot⟩
    · exact hw.new huse
    · refine hslot ?_
      rw [CreateArgs.names, ← hf.skip, ← hf.gpt, ← hf.run.slots (.refl mc) hk hclear, hf.gpt]
      exact ⟨hw.inUse, hw.new⟩
  have hpub : ∀ n ∈ entries a.partlist, ∃ i, PublishedAt disk g' opts' n i := by
    intro n hn
    by_cases hmade : n ∈ made_names mc.skip_bootloader (entries a.partlist)
    · obtain ⟨i, hw⟩ := hwrote n hmade
      exact ⟨i, hf.published_new hdisk hn hw (hne n i hw) (hnul' n hn) (hascii n hn)⟩
    · have hskip : mc.skip_bootloader = true ∧ n = cstr "bootloader" := by
        by_contra hno
        exact hmade (mem_made_names.mpr ⟨hn, hno⟩)
      obtain ⟨hskip, rfl⟩ := hskip
      rw [hf.skip] at hskip
      obtain ⟨i, hi⟩ := Option.isSome_iff_exists.mp hskip
      refine ⟨i, hf.published_claimed hr hdisk hi ?_ hn⟩
      exact (hstays i hi).resolve_right fun h => h.1 hn
  refine ⟨hpub, fun n hn m hm hnm heq => ?_⟩
  -- entries under one index have one name
  obtain ⟨i, hi⟩ := hpub n hn
  obtain ⟨j, hj⟩ := hpub m hm
  rw [hi.index, hj.index] at heq
  obtain rfl : i = j := UInt32.toNat_inj.mp (dec_injective (Option.some.inj heq))
  have hname := hi.name.symm.trans hj.name
  injection hname with hname
  exact hnm (List.append_cancel_left hname)

omit [Platform] [Qsort] in
/-- What is shown as it is, is plain ASCII. -/
theorem ascii_of_map_shown {name : CStr} (h : name.map shown = name) : ∀ c ∈ name, c < 128 := by
  intro c hc
  have hshown : shown c = c := by
    have hid : name.map shown = name.map id := by rw [h, List.map_id]
    exact List.map_inj_left.mp hid c hc
  by_contra hno
  rw [shown, if_neg hno] at hshown
  rw [← hshown] at hno
  exact hno (by decide)

omit [Qsort] in
/-- And if everything is published, then the table had room for it. -/
theorem Finished.necessary (hf : Finished a mc mc' g' opts') (hr : a.Ready m partlist)
    (hnul : 0 ∉ a.partlist) (hnodup : (entries a.partlist).Nodup)
    (hpub : PublishesTable disk g' opts' (entries a.partlist)) :
    ClearOfZero a.table (part_of mc) mc.next_mb (made_names mc.skip_bootloader (entries a.partlist)) ∧
      (∀ n ∈ entries a.partlist, ∀ c ∈ n, c < 128) ∧ a.SystemPartitionStays := by
  obtain ⟨hk, hk'⟩ := hf.kept
  have hlist : ∀ n ∈ made_names mc.skip_bootloader (entries a.partlist), n ∈ entries a.partlist :=
    fun n hn => (mem_made_names.mp hn).1
  -- the published index is the one the run has left
  have hsame : ∀ n j, PublishedAt disk g' opts' n j → ∀ i, mc'.gpt.Index i →
      mc'.opts (partition_key n "index") = some (decInt i.toInt32.toInt) → i = j := by
    intro n j hj i hi hopt
    have hindex := hj.index
    rw [hf.index, hopt, decInt_index hk'.mapped hi] at hindex
    exact UInt32.toNat_inj.mp (dec_injective (Option.some.inj hindex))
  have hclear := hf.run.clear (.refl mc) hk hnodup
    (fun n hn i hi hopt => by
      obtain ⟨j, hj⟩ := hpub.published n (hlist n hn)
      rw [hsame n j hj i hi hopt]
      exact (hf.claimed.inUse_iff hk'.mapped).mp hj.inUse)
    (fun n hn k hk heq => by
      by_contra hne
      refine hpub.apart n (hlist n hn) k (hlist k hk) hne ?_
      rw [hf.index, hf.index, heq])
  -- an entry that was written is not claimed: its name would be another one
  have hne : ∀ n ∈ made_names mc.skip_bootloader (entries a.partlist), ∀ i,
      WrittenAt a.table mc' n i → a.esp_index ≠ some i := by
    intro n hn i hw hi
    obtain ⟨j, hj⟩ := hpub.published n (hlist n hn)
    obtain rfl := hsame n j hj i hw.inUse.1 hw.index
    have hname := hj.name
    have hent := hf.claimed.entry hk'.mapped hw.inUse.1
    rw [if_pos hi] at hent
    rw [renamed_name (hf.claimed.mapped hk'.mapped).1 hj.inUse.1 hent, bootloader_name] at hname
    injection hname with hname
    refine (mem_made_names.mp hn).2 ⟨?_, (List.append_cancel_left hname).symm⟩
    rw [hf.skip, hi]
    rfl
  have horigin : ∀ i, mc'.gpt.InUse i → ¬ a.table.InUse i →
      a.esp_index ≠ some i := by
    intro i huse hnew
    obtain ⟨n, hn, hw⟩ := hf.run.origin (.refl mc) hk hnodup huse (hf.gpt ▸ hnew)
    exact hne n hn i hw
  refine ⟨hclear, fun n hn => ?_, fun i hi => ?_⟩
  · by_cases hmade : n ∈ made_names mc.skip_bootloader (entries a.partlist)
    · obtain ⟨i, hw⟩ := hf.run.wrote (.refl mc) hk hnodup hclear n hmade
      obtain ⟨j, hj⟩ := hpub.published n hn
      obtain rfl := hsame n j hj i hw.inUse.1 hw.index
      obtain ⟨old, hlen, hname⟩ := hw.name
      have hshown := hj.name
      have hent := hf.claimed.entry hk'.mapped hw.inUse.1
      rw [if_neg (hne n hmade i hw)] at hent
      rw [← hent] at hname
      rw [get_name_overwriteName (hf.claimed.mapped hk'.mapped).1 hj.inUse.1 hlen ?_ hname] at hshown
      · injection hshown with hshown
        intro c hc
        exact ascii_of_map_shown hshown c (List.mem_append_right _ hc)
      · intro hc
        rcases List.mem_append.mp hc with hc | hc
        · exact absurd hc (by decide +kernel)
        · exact hnul (mem_of_mem_entries hn hc)
    · have hboot : n = cstr "bootloader" := by
        by_contra hno
        exact hmade (mem_made_names.mpr ⟨hn, fun h => hno h.2⟩)
      rw [hboot]
      decide +kernel
  · by_cases huse : a.table.InUse i
    · exact .inl huse
    refine .inr ⟨fun hboot => ?_, fun hslot => ?_⟩
    · obtain ⟨j, hj⟩ := hpub.published _ hboot
      obtain ⟨hopt, -⟩ := hf.claimed_opts hr hi
      have hindex := hj.index
      rw [hf.index, hopt] at hindex
      obtain rfl : i = j := UInt32.toNat_inj.mp (dec_injective (Option.some.inj hindex))
      exact horigin i ((hf.claimed.inUse_iff hk'.mapped).mp hj.inUse) huse hi
    · rw [CreateArgs.names, ← hf.skip, ← hf.gpt, ← hf.run.slots (.refl mc) hk hclear, hf.gpt] at hslot
      exact horigin i hslot.1 hslot.2 hi

/-- The machine's disk is the one to install on. -/
def OnInstallDisk (m : Machine) (ictx : Ictx) (disk : CStr) : Prop :=
  ictx.opts BASE_INSTALL_DISK = some disk ∧
    ∀ init, m.gpt_init = some init → init.device = cstr "/dev/block/" ++ disk

end Right

/-! ### An index that is handed out twice -/

section Twice

attribute [local instance] x86 insertionQsort

/-- Dual boot on the disk with the EFI system partition called `android_esp`, with an
Android of `android_size` bytes to delete. -/
def publish_ictx (android_size : CStr) : Ictx where
  opts := fun key =>
    if key = BASE_INSTALL_DISK then some (cstr "sda")
    else if key = BASE_DUALBOOT then some (cstr "1")
    else if key = disk_key (cstr "sda") "android_size" then some android_size
    else esp_ictx.opts key
  iprops := fun _ => none

/-- The example is a disk by that name. -/
theorem publish_disk (android_size : CStr) :
    OnInstallDisk esp_machine (publish_ictx android_size) (cstr "sda") := by
  refine ⟨rfl, ?_⟩
  intro init hinit
  injection hinit with hinit
  rw [← hinit]
  decide +kernel

theorem esp_wellFormed : esp_gpt.WellFormed :=
  wellFormed_of_one (i := 1) (by decide +kernel) (by decide +kernel) (by decide +kernel)

end Twice

end Iago
