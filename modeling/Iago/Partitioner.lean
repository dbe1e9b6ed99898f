/-
The partitioner plug-in (`partitioner.c`): what it publishes about a disk, what it
asks the user, and what it then does to the partition table.

`partitioner_prepare` scans the disks and publishes options about each;
`partitioner_cli` asks the user and either settles on dual boot, possibly with a
new size for Windows, or on wiping the disk; `execute_dual_boot` and
`execute_wipe_disk` change the table. The three run at different times and talk to
one another only through the options, that is through text.

All sizes are `uint64_t` and wrap; what the C code holds in an `int64_t` is an
`Int64` here. `Machine` is what surrounds the plug-in: the disk, what `gpt_init`
makes of it, the random source, and what external commands answer.
-/
import Iago.FreeSpace
import Iago.Prompts

set_option autoImplicit false

namespace Iago

/-- `NAME_MAGIC`. -/
def NAME_MAGIC : CStr := cstr "android_"

/-- `MIN_DATA_PART_SIZE`, in MiB. -/
def MIN_DATA_PART_SIZE : UInt64 := 350

/-- What surrounds the plug-in. `gpt_init` is the table before it is read, if there is
memory for it; `command` is the exit status of a command line, and
`command_output` that and what it prints, which has to fit the buffer. -/
structure Machine where
  gpt_init : Option Gpt
  dev : Dev
  reads : List IoRes
  command : CStr → Int
  command_output : CStr → Int × CStr
  urandom : Urandom

/-! ## Sizes -/

def round_up_to_multiple (val multiple : UInt64) : UInt64 :=
  if multiple = 0 then val
  else
    let rem := val % multiple
    if rem = 0 then val else val + multiple - rem

def mib_align (val : UInt64) : UInt64 := round_up_to_multiple val ((1 : UInt64) <<< 20)

/-- `to_unit_ceiling`, for a unit other than 0. -/
def to_unit_ceiling (val unit : UInt64) : UInt64 := round_up_to_multiple val unit / unit

def to_mib (val : UInt64) : UInt64 := to_unit_ceiling val ((1 : UInt64) <<< 20)

def to_mib_floor (val : UInt64) : UInt64 := val >>> 20

/-- `mib_to_lba`, for a sector size other than 0. -/
def mib_to_lba (g : Gpt) (mib : UInt64) : UInt64 := (mib <<< 20) / g.lba_size.toUInt64

/-! ## Looking at a table -/

section Look

variable {ε : Type} [Platform]

/-- `check_for_ptn`: the first index in use with this type, or -1. -/
def check_for_ptn (g : Gpt) (guid : Guid) : Exec ε Int32 := do
  let r ← partition_for_each (fun _ => g)
    (fun i e (_ : Unit) => if guid = e.type_guid then .ret (.inr i.toInt32) else .ret (.inl ())) ()
  match r with
  | .inl _ => .ret (-1)
  | .inr i => .ret i

/-- The test `check_for_android` and `delete_android` share: the name starts with
`android_`, and is not eight characters and `bootloader`. -/
def is_android (name : CStr) : Bool :=
  name.take 8 = NAME_MAGIC ∧ ¬ (name.length = 18 ∧ name.drop 8 = cstr "bootloader")

/-- `check_for_android`: what the Android partitions take up, in bytes. -/
def check_for_android (g : Gpt) : Exec ε UInt64 := do
  let r ← partition_for_each (ρ := Empty) (fun _ => g)
    (fun i e size => do
      let name ← gpt_entry_get_name (gpt_entry_offset i g) g
      if is_android name then .ret (.inl (size + gpt_entry_get_size g e)) else .ret (.inl size)) 0
  .ret (Sum.elim id Empty.elim r)

/-- `gpt_get_device_node`: the disk's node and the index, with a `p` between two
digits. -/
def gpt_get_device_node (gpt_index : UInt32) (g : Gpt) : Exec ε CStr :=
  match g.device.getLast? with
  | none => .fault
  | some c =>
    if 48 ≤ c ∧ c ≤ 57 then .ret (g.device ++ cstr "p" ++ decInt gpt_index.toInt32.toInt)
    else .ret (g.device ++ decInt gpt_index.toInt32.toInt)

/-- `strstr`: the string from the first occurrence of the needle on. -/
def strstr (needle : CStr) : CStr → Option CStr
  | [] => if needle = [] then some [] else none
  | c :: s => if needle.isPrefixOf (c :: s) then some (c :: s) else strstr needle s

/-- `get_ntfs_min_size`: the smallest size in bytes, or `-EINVAL`, `-EROFS` or
`-EIO`. -/
def get_ntfs_min_size (m : Machine) (index : UInt32) (g : Gpt) : Exec Die Int64 :=
  match gpt_entry_get index g with
  | none => .fault
  | some off => do
    let e ← g.load off
    if e.type_guid ≠ get_guid_type .PART_MS_DATA then .ret (-22)
    else do
      let device ← gpt_get_device_node index g
      if m.command (cstr "ntfsresize --check " ++ device) ≠ 0 then .ret (-30)
      else
        let out := m.command_output (cstr "ntfsresize --no-progress-bar --info " ++ device)
        if out.1 ≠ 0 then .ret (-5)
        else
          match strstr (cstr "You might resize at ") out.2 with
          | none => .die (.ntfsresize_returned out.2)
          | some pos => xatoll ((pos.drop 20).takeWhile (· ≠ 32))

end Look

/-! ## Changing a table -/

section Change

variable [Platform]

/-- `resize_ntfs_partition`. -/
def resize_ntfs_partition (m : Machine) (index : UInt32) (g : Gpt) (new_size : UInt64) :
    Exec Die Gpt :=
  match gpt_entry_get index g with
  | none => .die (.invalid_index index.toInt32.toInt)
  | some off => do
    let device ← gpt_get_device_node index g
    let size := decInt new_size.toInt64.toInt
    if m.command (cstr "ntfsresize --no-action --size " ++ size ++ cstr " " ++ device) ≠ 0 then
      .die .resize_dry_run
    else if m.command (cstr "ntfsresize --force --size " ++ size ++ cstr " " ++ device) ≠ 0 then
      .die .resize_failed
    else if g.lba_size = 0 then .fault
    else
      g.update off fun e => { e with
        last_lba := e.first_lba + to_unit_ceiling new_size g.lba_size.toUInt64 - 1 }

/-- `delete_android`. -/
def delete_android (g : Gpt) : Exec Die Gpt := do
  let r ← partition_for_each (ρ := Empty) (fun g => g)
    (fun i _ g => do
      let name ← gpt_entry_get_name (gpt_entry_offset i g) g
      if is_android name then do
        let (ret, g) ← gpt_entry_delete g i
        if ret ≠ 0 then .die .delete_partition else .ret (.inl g)
      else .ret (.inl g)) g
  .ret (Sum.elim id Empty.elim r)

end Change

/-! ## The space an installation takes -/

/-- `sumsizes_cb`. -/
def sumsizes_cb (opts : Hashmap) (entry : CStr) (_index : ℕ) (total : UInt64) :
    Exec Die (Bool × UInt64) :=
  if entry.take 10 = cstr "bootloader" then .ret (true, total)
  else do
    let len ← xatoll (← hashmapGetPrintf opts none (partition_key entry "len"))
    if 0 < len then .ret (true, total + len.toUInt64 <<< 20) else .ret (true, total)

/-- `get_partial_space_required`: all partitions but the boot loaders and the data
partition, and `esp_sizes` for the boot loaders, in bytes. -/
def get_partial_space_required (opts : Hashmap) (esp_sizes : UInt64) : Exec Die UInt64 := do
  let partlist ← hashmapGetPrintf opts none BASE_PTN_LIST
  let total ← string_list_iterate partlist (sumsizes_cb opts) 0
  .ret (total + esp_sizes)

/-- `get_all_space_required`. -/
def get_all_space_required (opts : Hashmap) (disk : CStr) (dualboot : Bool) : Exec Die UInt64 := do
  let bootloader_size ←
    if dualboot then do
      let esp_size ← xatol (← hashmapGetPrintf opts (some (cstr "0")) (disk_key disk "esp_size"))
      .ret esp_size.toUInt64
    else do
      let len ← xatoll
        (← hashmapGetPrintf opts none (partition_key (cstr "bootloader") "len"))
      .ret ((len.toUInt64 <<< 20) * 2)
  let size ← get_partial_space_required opts bootloader_size
  .ret (size + MIN_DATA_PART_SIZE <<< 20)

/-! ## Preparation -/

/-- A disk as `/sys/block` and the device node show it. -/
structure Disk where
  d_name : CStr
  sectors : UInt64
  lba_size : UInt64
  model : CStr
  machine : Machine

section Prepare

variable [Platform] [Qsort]

/-- What the scan publishes about the Windows installation of a table. -/
def publish_windows (m : Machine) (interactive : Bool) (d_name : CStr) (g : Gpt) (opts : Hashmap) :
    Exec Die Hashmap := do
  let ptn_index ← check_for_ptn g (get_guid_type .PART_MS_RESERVED)
  if 0 < ptn_index ∧ ptn_index.toUInt32 ≤ g.header.num_pentries then do
    -- the user data partition is taken to be the one behind the reserved one
    let ms_data_idx := (ptn_index + 1).toUInt32
    let e ← g.load (gpt_entry_offset ms_data_idx g)
    let size := gpt_entry_get_size g e
    let opts := xhashmapPut opts (disk_key d_name "msdata_index") (decInt (ptn_index + 1).toInt)
    let opts := xhashmapPut opts (disk_key d_name "msdata_size") (dec size.toNat)
    if interactive then do
      let ret ← get_ntfs_min_size m ms_data_idx g
      if ret = -22 ∨ ret = -5 ∨ ret = -30 then .ret opts
      else .ret (xhashmapPut opts (disk_key d_name "msdata_minsize") (dec ret.toUInt64.toNat))
    else .ret opts
  else .ret opts

/-- What it publishes about the EFI system partition. -/
def publish_esp (d_name : CStr) (g : Gpt) (opts : Hashmap) : Exec Die Hashmap := do
  let ptn_index ← check_for_ptn g (get_guid_type .PART_ESP)
  if 0 < ptn_index ∧ ptn_index.toUInt32 ≤ g.header.num_pentries then do
    let e ← g.load (gpt_entry_offset ptn_index.toUInt32 g)
    let opts := xhashmapPut opts (disk_key d_name "esp_index") (decInt ptn_index.toInt)
    .ret (xhashmapPut opts (disk_key d_name "esp_size")
      (dec (mib_align (gpt_entry_get_size g e)).toNat))
  else .ret opts

/-- And about Android and free space. -/
def publish_space (d_name : CStr) (g : Gpt) (opts : Hashmap) : Exec Die Hashmap := do
  let android_size ← check_for_android g
  let opts := if android_size = 0 then opts
    else xhashmapPut opts (disk_key d_name "android_size") (dec android_size.toNat)
  match ← gpt_find_contiguous_free_space g with
  | none => .ret opts
  | some (free_start_lba, free_end_lba) =>
    let opts := xhashmapPut opts (disk_key d_name "free_size")
      (dec (((free_end_lba + 1) - free_start_lba) * g.lba_size.toUInt64).toNat)
    let opts := xhashmapPut opts (disk_key d_name "free_start_lba") (dec free_start_lba.toNat)
    .ret (xhashmapPut opts (disk_key d_name "free_end_lba") (dec free_end_lba.toNat))

/-- The body of the loop of `partitioner_prepare`, for a disk that is not skipped. -/
def prepare_disk (interactive : Bool) (d : Disk) (opts : Hashmap) : Exec Die Hashmap := do
  let opts := xhashmapPut opts (disk_key d.d_name "sectors") (dec d.sectors.toNat)
  let opts := xhashmapPut opts (disk_key d.d_name "lba_size") (dec d.lba_size.toNat)
  let opts := xhashmapPut opts (disk_key d.d_name "size") (dec (d.lba_size * d.sectors).toNat)
  let opts := xhashmapPut opts (disk_key d.d_name "model") d.model
  let opts := xhashmapPut opts (disk_key d.d_name "device") (cstr "/dev/block/" ++ d.d_name)
  match d.machine.gpt_init with
  | none => .die .gpt_allocation
  | some g => do
    let (ret, g, _) ← gpt_read d.machine.dev d.machine.reads g
    if ret ≠ 0 then .ret opts
    else do
      let opts ← publish_windows d.machine interactive d.d_name g opts
      let opts ← publish_esp d.d_name g opts
      publish_space d.d_name g opts

/-- `partitioner_prepare`, once a scan has found a disk. -/
def partitioner_prepare (disks : List Disk) (ictx : Ictx) : Exec Die Ictx := do
  let interactive ← hashmapGetPrintf ictx.opts (some (cstr "0")) BASE_INTERACTIVE
  let opts ← disks.foldlM (fun opts d => prepare_disk (atoi interactive ≠ 0) d opts) ictx.opts
  let list := disks.foldl (fun list d => string_list_append list d.d_name) []
  .ret { ictx with opts := xhashmapPut opts BASE_DISK_LIST list }

end Prepare

/-! ## The dialogue -/

/-- `disk_list_cb`, without the description it prints. -/
def disk_list_cb (opts : Hashmap) (disk : CStr) (_index : ℕ) (disk_list : List CStr) :
    Exec Die (Bool × List CStr) := do
  let _ ← xatoll (← hashmapGetPrintf opts none (disk_key disk "size"))
  let _ ← hashmapGetPrintf opts none (disk_key disk "model")
  .ret (true, disk_list ++ [disk])

/-- What `partitioner_cli` reads about the disk that was chosen. -/
structure DiskSizes where
  windows_size : Int64
  windows_min_size : Int64
  disk_size : Int64
  android_size : Int64
  free_size : Int64

def read_sizes (opts : Hashmap) (disk : CStr) : Exec Die DiskSizes := do
  let zero := some (cstr "0")
  let windows_size ← xatoll (← hashmapGetPrintf opts zero (disk_key disk "msdata_size"))
  let windows_min_size ← xatoll (← hashmapGetPrintf opts zero (disk_key disk "msdata_minsize"))
  let disk_size ← xatoll (← hashmapGetPrintf opts none (disk_key disk "size"))
  let android_size ← xatoll (← hashmapGetPrintf opts zero (disk_key disk "android_size"))
  let free_size ← xatoll (← hashmapGetPrintf opts zero (disk_key disk "free_size"))
  .ret ⟨windows_size, windows_min_size, disk_size, android_size, free_size⟩

section Cli

variable [Stack]

/-- The dual-boot branch of `partitioner_cli`. -/
def cli_dual_boot (ictx : Ictx) (disk : CStr) (sz : DiskSizes) (stdin : List UInt8) :
    Exec Die (Ictx × List UInt8) := do
  let can_resize := decide (sz.windows_min_size ≠ 0)
  let total_free_size := if sz.android_size ≠ 0 then sz.android_size else sz.free_size
  let required_size := (← get_all_space_required ictx.opts disk true).toInt64
  let must_resize := decide (total_free_size < required_size)
  let windows_max_size :=
    if must_resize then sz.windows_size - (required_size - total_free_size) else sz.windows_size
  if must_resize ∧ (windows_max_size < 0 ∨ windows_max_size < sz.windows_min_size ∨ ¬ can_resize)
  then .die .no_room
  else do
    let (resize, stdin) ←
      if can_resize then ui_ask (Stack.buf .resize_windows) true stdin else .ret (false, stdin)
    let dualboot (ictx : Ictx) := ictx.put BASE_DUALBOOT (cstr "1")
    if resize then do
      let max := (to_mib_floor windows_max_size.toUInt64).toInt64
      let min := (to_mib sz.windows_min_size.toUInt64).toInt64
      let (new_windows_size, stdin) ←
        ui_get_value (Stack.buf .new_windows_size) max min max stdin
      let ictx := ictx.put (disk_key disk "windows_resize")
        (dec (new_windows_size.toUInt64 <<< 20).toNat)
      .ret (dualboot ictx, stdin)
    else if must_resize then .die .insufficient_free_space
    else .ret (dualboot ictx, stdin)

/-- The rest of `partitioner_cli`: the disk is wiped. -/
def cli_wipe_disk (ictx : Ictx) (disk : CStr) (sz : DiskSizes) (stdin : List UInt8) :
    Exec Die (Ictx × List UInt8) := do
  let (go, stdin) ← ui_ask (Stack.buf .go_on) false stdin
  if ¬ go then .die .aborted
  else do
    let required_size := (← get_all_space_required ictx.opts disk false).toInt64
    let disk_size := sz.disk_size - 2 * 1024 * 1024
    if disk_size < required_size then
      .die (.insufficient_disk_size (to_mib_floor disk_size.toUInt64)
        (to_mib required_size.toUInt64))
    else .ret (ictx, stdin)

/-- `partitioner_cli`: the options afterwards, and the input that is left. -/
def partitioner_cli (ictx : Ictx) (stdin : List UInt8) : Exec Die (Ictx × List UInt8) := do
  let disks ← hashmapGetPrintf ictx.opts none BASE_DISK_LIST
  let disk_list ← string_list_iterate disks (disk_list_cb ictx.opts) []
  let (disk, stdin) ← ui_option_get (Stack.buf .disk) disk_list stdin
  let ictx := ictx.put BASE_INSTALL_DISK disk
  let sz ← read_sizes ictx.opts disk
  if sz.windows_size ≠ 0 then do
    let (dual, stdin) ← ui_ask (Stack.buf .dual_boot) true stdin
    if dual then cli_dual_boot ictx disk sz stdin else cli_wipe_disk ictx disk sz stdin
  else cli_wipe_disk ictx disk sz stdin

end Cli

/-! ## Creating the partitions -/

def GPT_FLAG_SYSTEM : UInt64 := (1 : UInt64) <<< 0
def GPT_FLAG_BOOTABLE : UInt64 := (1 : UInt64) <<< 2
def GPT_FLAG_READONLY : UInt64 := (1 : UInt64) <<< 60
def GPT_FLAG_HIDDEN : UInt64 := (1 : UInt64) <<< 62
def GPT_FLAG_NO_AUTOMOUNT : UInt64 := (1 : UInt64) <<< 63

/-- The bit a flag of `flags_cb` stands for. -/
def flag_mask (flag : CStr) : Exec Die UInt64 :=
  if flag = cstr "system" then .ret GPT_FLAG_SYSTEM
  else if flag = cstr "boot" then .ret GPT_FLAG_BOOTABLE
  else if flag = cstr "ro" then .ret GPT_FLAG_READONLY
  else if flag = cstr "hidden" then .ret GPT_FLAG_HIDDEN
  else if flag = cstr "noauto" then .ret GPT_FLAG_NO_AUTOMOUNT
  else .die (.unknown_flag flag)

/-- `flags_cb`: a `!` takes the flag away again. -/
def flags_cb (flag : CStr) (_index : ℕ) (flags : UInt64) : Exec Die (Bool × UInt64) :=
  match flag with
  | 33 :: flag => do
    let mask ← flag_mask flag
    .ret (true, flags &&& ~~~mask)
  | _ => do
    let mask ← flag_mask flag
    .ret (true, flags ||| mask)

def string_to_type (type : CStr) : Exec Die PartType :=
  if type = cstr "esp" then .ret .PART_ESP
  else if type = cstr "boot" then .ret .PART_ANDROID_BOOT
  else if type = cstr "recovery" then .ret .PART_ANDROID_RECOVERY
  else if type = cstr "tertiary" then .ret .PART_ANDROID_TERTIARY
  else if type = cstr "misc" then .ret .PART_ANDROID_MISC
  else if type = cstr "metadata" then .ret .PART_ANDROID_METADATA
  else if type = cstr "ext4" then .ret .PART_LINUX
  else if type = cstr "vfat" then .ret .PART_MS_DATA
  else if type = cstr "swap" then .ret .PART_LINUX_SWAP
  else .die (.unknown_type type)

/-- `struct mkpart_ctx`, and what else the callback changes: the options and the
random source. -/
structure MkpartCtx where
  gpt : Gpt
  ptn_index : UInt32
  next_mb : UInt64
  ptn_mb : UInt64
  disk_mb : UInt64
  skip_bootloader : Bool
  opts : Hashmap
  urandom : Urandom

section Create

variable [Platform]

/-- `mkpart_cb`. -/
def mkpart_cb (entry : CStr) (_index : ℕ) (mc : MkpartCtx) : Exec Die (Bool × MkpartCtx) :=
  if mc.skip_bootloader ∧ entry = cstr "bootloader" then .ret (true, mc)
  else do
    let flags_list ← hashmapGetPrintf mc.opts (some []) (partition_key entry "flags")
    let ptype ← hashmapGetPrintf mc.opts (some (cstr "ext4")) (partition_key entry "type")
    let flags ← string_list_iterate flags_list flags_cb 0
    if 27 < entry.length then .die (.name_too_long entry)
    else do
      let len ← xatoll (← hashmapGetPrintf mc.opts none (partition_key entry "len"))
      -- A negative length stands for what the others leave.
      let part_mb := if len < 0 then mc.disk_mb - mc.ptn_mb else len.toUInt64
      let type ← string_to_type ptype
      -- `mib_to_lba` divides by the size of a sector.
      if mc.gpt.lba_size = 0 then .fault
      else do
        let (ptn_index, gpt, urandom) ← gpt_entry_create mc.gpt (NAME_MAGIC ++ entry) type flags
          (mib_to_lba mc.gpt mc.next_mb) (mib_to_lba mc.gpt (mc.next_mb + part_mb) - 1) mc.urandom
        if ptn_index = 0 then .die (.creating_partition entry)
        else do
          let node ← gpt_get_device_node ptn_index gpt
          let opts := xhashmapPut mc.opts (partition_key entry "index")
            (decInt ptn_index.toInt32.toInt)
          let opts := xhashmapPut opts (partition_key entry "device") node
          .ret (true, { mc with
            gpt := gpt
            ptn_index := ptn_index
            next_mb := mc.next_mb + part_mb
            opts := opts
            urandom := urandom })

variable [Qsort]

/-- `create_android_partitions`: the table, the options and the random source
afterwards. -/
def create_android_partitions (bootloader_size : UInt64) (partlist : CStr) (g : Gpt)
    (skip_bootloader : Bool) (opts : Hashmap) (urandom : Urandom) :
    Exec Die (Gpt × Hashmap × Urandom) := do
  let space_needed_mb := to_mib (← get_partial_space_required opts bootloader_size)
  match ← gpt_find_contiguous_free_space g with
  | none => .die .no_unpartitioned_space
  | some (start_lba, end_lba) =>
    -- The region is cut to whole MiB, inwards on both sides.
    let start_mb := to_mib (start_lba * g.lba_size.toUInt64)
    let end_mb := to_mib_floor ((end_lba + 1) * g.lba_size.toUInt64)
    let space_available_mb := end_mb - start_mb
    if space_available_mb < space_needed_mb + MIN_DATA_PART_SIZE then
      .die (.insufficient_disk_space space_available_mb (space_needed_mb + MIN_DATA_PART_SIZE))
    else do
      let len ← hashmapGetPrintf opts none (partition_key (cstr "bootloader") "len")
      -- The second bootloader is as long as the first.
      let opts := xhashmapPut opts (partition_key (cstr "bootloader2") "len") len
      let mc ← string_list_iterate partlist mkpart_cb
        { gpt := g
          ptn_index := 0
          next_mb := start_mb
          ptn_mb := space_needed_mb
          disk_mb := space_available_mb
          skip_bootloader := skip_bootloader
          opts := opts
          urandom := urandom }
      .ret (mc.gpt, mc.opts, mc.urandom)

/-- `execute_dual_boot`: the table and the options afterwards. -/
def execute_dual_boot (m : Machine) (disk partlist : CStr) (ictx : Ictx) :
    Exec Die (Gpt × Ictx) :=
  match m.gpt_init with
  | none => .die .gpt_init
  | some g => do
    let zero := some (cstr "0")
    let win_resize ← xatoll (← hashmapGetPrintf ictx.opts zero (disk_key disk "windows_resize"))
    let esp_size ← xatoll (← hashmapGetPrintf ictx.opts zero (disk_key disk "esp_size"))
    let esp_index ← xatol (← hashmapGetPrintf ictx.opts zero (disk_key disk "esp_index"))
    let win_index ← xatol (← hashmapGetPrintf ictx.opts zero (disk_key disk "msdata_index"))
    -- `long` into `uint32_t`, without a check.
    let esp_index := esp_index.toUInt64.toUInt32
    let win_index := win_index.toUInt64.toUInt32
    if esp_index = 0 then .die .no_esp
    else do
      let (ret, g, _) ← gpt_read m.dev m.reads g
      if ret ≠ 0 then .die .read_gpt
      else do
        -- The table is edited in memory, and written at the very end.
        let g ← if win_resize ≠ 0 then resize_ntfs_partition m win_index g win_resize.toUInt64
          else .ret g
        let iprops := if win_index ≠ 0 then
            xhashmapPut ictx.iprops (cstr "ro.rtc_local_time") (cstr "1")
          else ictx.iprops
        let android_size ← xatoll (← hashmapGetPrintf ictx.opts zero (disk_key disk "android_size"))
        let g ← if android_size ≠ 0 then delete_android g else .ret g
        let bootloader := partition_key (cstr "bootloader")
        -- The ESP stands in for the bootloader partition, which `mkpart_cb` skips.
        let opts := xhashmapPut ictx.opts (bootloader "mode") (cstr "skip")
        let opts := xhashmapPut opts (bootloader "len") (dec (to_mib esp_size.toUInt64).toNat)
        let opts := xhashmapPut opts (bootloader "index") (dec esp_index.toNat)
        let node ← gpt_get_device_node esp_index g
        let opts := xhashmapPut opts (bootloader "device") node
        let (g, opts, _) ←
          create_android_partitions esp_size.toUInt64 partlist g true opts m.urandom
        match gpt_entry_get esp_index g with
        | none => .die .reference_esp
        | some off => do
          let e ← g.load off
          let (ret, e) := gpt_entry_set_name e (NAME_MAGIC ++ cstr "bootloader")
          let g ← g.store off e
          if ret ≠ 0 then .die .name_bootloader else .ret (g, ⟨opts, iprops⟩)

/-- `execute_wipe_disk`. -/
def execute_wipe_disk (m : Machine) (partlist : CStr) (ictx : Ictx) : Exec Die (Gpt × Ictx) :=
  match m.gpt_init with
  | none => .die .gpt_init
  | some g => do
    let (ret, g, urandom) ← gpt_new g m.urandom
    if ret ≠ 0 then .die .create_gpt
    else do
      let len ← xatoll
        (← hashmapGetPrintf ictx.opts none (partition_key (cstr "bootloader") "len"))
      let (g, opts, _) ← create_android_partitions ((len.toUInt64 <<< 20) * 2) partlist g false
        ictx.opts urandom
      .ret (g, { ictx with opts := opts })

end Create

end Iago
