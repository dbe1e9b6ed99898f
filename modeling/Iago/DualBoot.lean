/-
A dual-boot installation, step by step.

`execute_dual_boot` reads the table, may shrink Windows and may delete an old Android,
creates the new partitions, and last renames the EFI system partition. `DualRun` is a run
that returned, with the table after each step under a name; what the installation does
and does not touch is read off it (`dual_boot_run`).
-/
import Iago.InstallsWell

set_option autoImplicit false

namespace Iago

section Run

variable [Platform] [Qsort]

/-- The number an option holds, which is 0 without it. -/
def OptionIs (parse : CStr → Exec Die Int64) (opts : Hashmap) (key : CStr) (val : Int64) : Prop :=
  parse ((opts key).getD (cstr "0")) = .ret val

instance (parse : CStr → Exec Die Int64) (opts : Hashmap) (key : CStr) (val : Int64) :
    Decidable (OptionIs parse opts key val) := inferInstanceAs (Decidable (_ = _))

/-- The same for an index, which is cut down to an `unsigned int`. -/
def IndexIs (opts : Hashmap) (key : CStr) (i : UInt32) : Prop :=
  ∃ val, OptionIs xatol opts key val ∧ i = val.toUInt64.toUInt32

omit [Platform] [Qsort] in
theorem optionIs_of_ret {parse : CStr → Exec Die Int64} {opts : Hashmap} {key s : CStr} {val : Int64}
    (hs : hashmapGetPrintf opts (some (cstr "0")) key = .ret s) (hval : parse s = .ret val) :
    OptionIs parse opts key val := by
  unfold hashmapGetPrintf at hs
  rw [OptionIs]
  cases hkey : opts key with
  | none =>
    rw [hkey] at hs
    injection hs with hs
    rw [Option.getD_none, hs, hval]
  | some v =>
    rw [hkey] at hs
    injection hs with hs
    rw [Option.getD_some, hs, hval]

/-- The options `create_android_partitions` is called with. -/
def dual_opts (opts : Hashmap) (esp_size : Int64) (esp_index : UInt32) (node : CStr) : Hashmap :=
  let bootloader := partition_key (cstr "bootloader")
  let opts := xhashmapPut opts (bootloader "mode") (cstr "skip")
  let opts := xhashmapPut opts (bootloader "len") (dec (to_mib esp_size.toUInt64).toNat)
  let opts := xhashmapPut opts (bootloader "index") (dec esp_index.toNat)
  xhashmapPut opts (bootloader "device") node

/-- The name the EFI system partition is given. -/
def bootloader_name : CStr := NAME_MAGIC ++ cstr "bootloader"

/-- An entry renamed. -/
def renamed (e : GptEntry) : GptEntry := (gpt_entry_set_name e bootloader_name).2

/-- A run of `execute_dual_boot` that returned: the table that was read, after the
resize, after the deletion, and with the new partitions. -/
structure DualRun (m : Machine) (disk partlist : CStr) (ictx : Ictx) (g' : Gpt) (ictx' : Ictx) where
  win_resize : Int64
  esp_size : Int64
  android_size : Int64
  esp_index : UInt32
  win_index : UInt32
  init : Gpt
  rest : List IoRes
  read : Gpt
  resized : Gpt
  deleted : Gpt
  created : Gpt
  node : CStr
  urandom : Urandom
  init_eq : m.gpt_init = some init
  read_eq : gpt_read (ε := Die) m.dev m.reads init = .ret (0, read, rest)
  win_resize_is : OptionIs xatoll ictx.opts (disk_key disk "windows_resize") win_resize
  esp_size_is : OptionIs xatoll ictx.opts (disk_key disk "esp_size") esp_size
  android_size_is : OptionIs xatoll ictx.opts (disk_key disk "android_size") android_size
  esp_index_is : IndexIs ictx.opts (disk_key disk "esp_index") esp_index
  win_index_is : IndexIs ictx.opts (disk_key disk "msdata_index") win_index
  esp_index_ne : esp_index ≠ 0
  resize_eq : win_resize = 0 ∧ resized = read ∨
    win_resize ≠ 0 ∧ resize_ntfs_partition m win_index read win_resize.toUInt64 = .ret resized
  delete_eq : android_size = 0 ∧ deleted = resized ∨
    android_size ≠ 0 ∧ delete_android resized = .ret deleted
  node_eq : gpt_get_device_node (ε := Die) esp_index deleted = .ret node
  create_eq : create_android_partitions esp_size.toUInt64 partlist deleted true
    (dual_opts ictx.opts esp_size esp_index node) m.urandom = .ret (created, ictx'.opts, urandom)
  esp_index_in : created.Index esp_index
  final_eq : g' = created.setEntry esp_index (renamed (created.entry esp_index))

variable {m : Machine} {disk partlist : CStr} {ictx ictx' : Ictx} {g' : Gpt}

/-- The last part of `execute_dual_boot`: the boot loader's options, the new partitions,
and the new name. -/
def dual_boot_install (m : Machine) (partlist : CStr) (ictx : Ictx) (esp_size : Int64)
    (esp_index win_index : UInt32) (g : Gpt) : Exec Die (Gpt × Ictx) := do
  let node ← gpt_get_device_node esp_index g
  let (g, opts, _) ← create_android_partitions esp_size.toUInt64 partlist g true
    (dual_opts ictx.opts esp_size esp_index node) m.urandom
  match gpt_entry_get esp_index g with
  | none => .die .reference_esp
  | some off => do
    let e ← g.load off
    let (ret, e) := gpt_entry_set_name e (NAME_MAGIC ++ cstr "bootloader")
    let g ← g.store off e
    if ret ≠ 0 then .die .name_bootloader
    else .ret (g, ⟨opts, if win_index ≠ 0 then
      xhashmapPut ictx.iprops (cstr "ro.rtc_local_time") (cstr "1") else ictx.iprops⟩)

/-- `execute_dual_boot`, cut into its parts. -/
theorem execute_dual_boot_eq {init : Gpt} (hinit : m.gpt_init = some init) :
    execute_dual_boot m disk partlist ictx = (do
      let zero := some (cstr "0")
      let win_resize ← xatoll (← hashmapGetPrintf ictx.opts zero (disk_key disk "windows_resize"))
      let esp_size ← xatoll (← hashmapGetPrintf ictx.opts zero (disk_key disk "esp_size"))
      let esp_index ← xatol (← hashmapGetPrintf ictx.opts zero (disk_key disk "esp_index"))
      let win_index ← xatol (← hashmapGetPrintf ictx.opts zero (disk_key disk "msdata_index"))
      let esp_index := esp_index.toUInt64.toUInt32
      let win_index := win_index.toUInt64.toUInt32
      if esp_index = 0 then .die .no_esp
      else
        gpt_read m.dev m.reads init >>= fun p =>
        if p.1 ≠ 0 then .die .read_gpt
        else
          (if win_resize ≠ 0 then resize_ntfs_partition m win_index p.2.1 win_resize.toUInt64
            else .ret p.2.1) >>= fun g =>
          hashmapGetPrintf ictx.opts zero (disk_key disk "android_size") >>= fun s =>
          xatoll s >>= fun android_size =>
          (if android_size ≠ 0 then delete_android g else .ret g) >>=
          dual_boot_install m partlist ictx esp_size esp_index win_index) := by
  rw [execute_dual_boot, hinit]
  simp only [Exec.ite_bind]
  rfl

/-- Making partitions keeps what is in use. -/
theorem create_kept {bootloader_size : UInt64} {partlist : CStr} {g g' : Gpt} {skip : Bool}
    {opts opts' : Hashmap} {urandom urandom' : Urandom} (hg : g.Mapped)
    (h : create_android_partitions bootloader_size partlist g skip opts urandom
      = .ret (g', opts', urandom')) : Kept g g' := by
  obtain ⟨needed, s, e, len, -, -, -, -, mc', hloop, rfl, -, -⟩ := create_spec h
  have hmap : (mkpart_start g s e needed skip opts len urandom).gpt.Mapped := hg
  exact (mkpart_run hmap hloop).kept hmap

/-- **A run that returned went through all the steps.** -/
theorem dual_boot_run (h : execute_dual_boot m disk partlist ictx = .ret (g', ictx')) :
    Nonempty (DualRun m disk partlist ictx g' ictx') := by
  rcases hinit : m.gpt_init with _ | init
  · rw [execute_dual_boot, hinit] at h
    cases h
  rw [execute_dual_boot_eq hinit] at h
  -- the options
  obtain ⟨s₁, hs₁, h⟩ := Exec.bind_eq_ret.mp h
  obtain ⟨win_resize, hwin_resize, h⟩ := Exec.bind_eq_ret.mp h
  obtain ⟨s₂, hs₂, h⟩ := Exec.bind_eq_ret.mp h
  obtain ⟨esp_size, hesp_size, h⟩ := Exec.bind_eq_ret.mp h
  obtain ⟨s₃, hs₃, h⟩ := Exec.bind_eq_ret.mp h
  obtain ⟨esp_val, hesp_val, h⟩ := Exec.bind_eq_ret.mp h
  obtain ⟨s₄, hs₄, h⟩ := Exec.bind_eq_ret.mp h
  obtain ⟨win_val, hwin_val, h⟩ := Exec.bind_eq_ret.mp h
  simp only at h
  by_cases hesp : esp_val.toUInt64.toUInt32 = 0
  · rw [if_pos hesp] at h
    cases h
  rw [if_neg hesp] at h
  -- the table, and what is done to it before anything is made
  obtain ⟨⟨ret, read, rest⟩, hread, h⟩ := Exec.bind_eq_ret.mp h
  simp only at h
  by_cases hret : ret ≠ 0
  · rw [if_pos hret] at h
    cases h
  rw [if_neg hret] at h
  obtain rfl := not_not.mp hret
  obtain ⟨resized, hresize, h⟩ := Exec.bind_eq_ret.mp h
  obtain ⟨s₅, hs₅, h⟩ := Exec.bind_eq_ret.mp h
  obtain ⟨android_size, handroid, h⟩ := Exec.bind_eq_ret.mp h
  obtain ⟨deleted, hdelete, h⟩ := Exec.bind_eq_ret.mp h
  have hlaid : read.Laid := (gpt_read_sound hread).1.toLaid
  have hrew := edits_rewritten hlaid.live hresize hdelete
  have hres : win_resize = 0 ∧ resized = read ∨ win_resize ≠ 0 ∧
      resize_ntfs_partition m win_val.toUInt64.toUInt32 read win_resize.toUInt64 = .ret resized := by
    by_cases h0 : win_resize ≠ 0
    · rw [if_pos h0] at hresize
      exact .inr ⟨h0, hresize⟩
    · rw [if_neg h0] at hresize
      injection hresize with hresize
      exact .inl ⟨not_not.mp h0, hresize.symm⟩
  have hdel : android_size = 0 ∧ deleted = resized ∨
      android_size ≠ 0 ∧ delete_android resized = .ret deleted := by
    by_cases h0 : android_size ≠ 0
    · rw [if_pos h0] at hdelete
      exact .inr ⟨h0, hdelete⟩
    · rw [if_neg h0] at hdelete
      injection hdelete with hdelete
      exact .inl ⟨not_not.mp h0, hdelete.symm⟩
  -- the new partitions and the new name
  rw [dual_boot_install] at h
  obtain ⟨node, hnode, h⟩ := Exec.bind_eq_ret.mp h
  obtain ⟨⟨created, opts', urandom⟩, hcreate, h⟩ := Exec.bind_eq_ret.mp h
  simp only at h
  have hcreated_map := (create_kept (mapped_of_create (hrew.laid hlaid) hcreate) hcreate).mapped
  by_cases hidx : created.Index esp_val.toUInt64.toUInt32
  · have hlen : (NAME_MAGIC ++ cstr "bootloader").length ≤ 35 := by decide
    rw [gpt_entry_get_of_index hidx] at h
    simp only [load_entry hcreated_map hidx, Exec.ret_bind, gpt_entry_set_name_of_le hlen,
      store_entry hcreated_map hidx, ne_eq, not_true_eq_false, if_false, Exec.ret.injEq,
      Prod.mk.injEq] at h
    obtain ⟨rfl, rfl⟩ := h
    refine ⟨{ win_resize, esp_size, android_size, init, rest, read, resized, deleted, created,
              node, urandom,
              esp_index := esp_val.toUInt64.toUInt32
              win_index := win_val.toUInt64.toUInt32
              init_eq := hinit
              read_eq := hread
              win_resize_is := optionIs_of_ret hs₁ hwin_resize
              esp_size_is := optionIs_of_ret hs₂ hesp_size
              android_size_is := optionIs_of_ret hs₅ handroid
              esp_index_is := ⟨esp_val, optionIs_of_ret hs₃ hesp_val, rfl⟩
              win_index_is := ⟨win_val, optionIs_of_ret hs₄ hwin_val, rfl⟩
              esp_index_ne := hesp
              resize_eq := hres
              delete_eq := hdel
              node_eq := hnode
              create_eq := hcreate
              esp_index_in := hidx
              final_eq := ?_ }⟩
    rw [renamed, bootloader_name, gpt_entry_set_name_of_le hlen]
  · rw [gpt_entry_get_of_not_index hidx] at h
    cases h

end Run

end Iago
