/-
The plug-in for the boot loader gummiboot.

Its `execute` mounts the boot loader's partition, copies the loader, and writes one file of
settings and one file for every boot image. What the files say of a partition is its GUID,
which the partitioner has put into the options.

`gummiboot_installs` is what is on the partition afterwards: the files of the boot images and
the settings, as texts, and nothing else in their directory. It takes a mount that is not
`EBUSY` and removals that remove; the plug-in asks for neither.
-/
import Iago.Host
import Iago.Prompts

set_option autoImplicit false

namespace Iago

namespace Installer

open FsChecks (WaitStatus)

/-! ## What the plug-ins share -/

def BASE_BOOT_LIST : CStr := cstr "base:bootimages"
def BASE_BOOTLOADER : CStr := cstr "base:bootloader"
def DISK_BUS_NAME : CStr := cstr "base:disk_bus"

/-- `hashmapGetPrintf`, among more reasons to die. -/
def opt (opts : Hashmap) (dfl : Option CStr) (key : CStr) : Exec Fatal CStr :=
  NewfsMsdos.within .util (hashmapGetPrintf opts dfl key)

section Opt

variable {opts : Hashmap} {key value dfl : CStr}

/-- An option that must be there is read if it is. -/
theorem opt_none : opt opts none key = .ret value ↔ opts key = some value := by
  rw [opt, NewfsMsdos.within_eq_ret, hashmapGetPrintf_none]

theorem opt_some : opt opts (some dfl) key = .ret value ↔ (opts key).getD dfl = value := by
  rw [opt, NewfsMsdos.within_eq_ret, hashmapGetPrintf]
  cases opts key with
  | none => simp
  | some v => simp

end Opt

section Loop

variable {cb : CStr → ℕ → Host → Exec Fatal (Bool × Host)} {path text : CStr → CStr} {Q : CStr → Prop}
  {list : List CStr} {idx : ℕ} {w w' : Host}

/-- A callback that writes one file for each entry: the loop has written them all, and no other
file, if no two entries have the same file. -/
theorem iterate_written (hcb : ∀ entry idx w go w', cb entry idx w = .ret (go, w') →
      go = true ∧ Q entry ∧ Written w w' (w.place (path entry)) (text entry))
    (hinj : ∀ n ∈ list, ∀ k ∈ list, w.place (path n) = w.place (path k) → n = k)
    (h : iterate cb list idx w = .ret w') :
    Within (fun p => ∃ n ∈ list, p = w.place (path n)) w w' ∧
      ∀ n ∈ list, Q n ∧ w'.files (w.place (path n)) = some (text n) := by
  induction list generalizing idx w with
  | nil =>
    injection h with h
    subst h
    exact ⟨⟨fun _ _ => rfl, rfl, rfl, rfl⟩, fun n hn => absurd hn List.not_mem_nil⟩
  | cons entry list ih =>
    obtain ⟨⟨go, w₁⟩, hstep, h⟩ := Exec.bind_eq_ret.mp h
    obtain ⟨rfl, hQ, hwritten⟩ := hcb entry idx w go w₁ hstep
    simp only [if_true] at h
    have hplace (n : CStr) : w₁.place (path n) = w.place (path n) := hwritten.place (path n)
    obtain ⟨hwithin, hfiles⟩ := ih (fun n hn k hk heq => by
      rw [hplace, hplace] at heq
      exact hinj n (List.mem_cons_of_mem _ hn) k (List.mem_cons_of_mem _ hk) heq) h
    simp only [hplace] at hwithin hfiles
    refine ⟨?_, ?_⟩
    · refine (hwritten.within ⟨entry, List.mem_cons_self, rfl⟩).trans (hwithin.mono ?_)
      rintro p ⟨n, hn, rfl⟩
      exact ⟨n, List.mem_cons_of_mem _ hn, rfl⟩
    · intro n hn
      by_cases hlater : n ∈ list
      · exact hfiles n hlater
      -- no later entry has the file of this one
      obtain rfl : n = entry := (List.mem_cons.mp hn).resolve_right hlater
      refine ⟨hQ, ?_⟩
      rw [hwithin.files, hwritten.self]
      rintro ⟨k, hk, heq⟩
      exact hlater (hinj n hn k (List.mem_cons_of_mem _ hk) heq ▸ hk)

end Loop

/-- What the build sets: the architecture, and whether there is a MokManager. -/
structure Build where
  uefi_arch : CStr
  mokmanager : Bool

namespace Gummiboot

/-! ## The code -/

def BOOTLOADER_PATH : CStr := cstr "/mnt/bootloader"
def IMAGES_PATH : CStr := cstr "/installmedia/images/"
def EFI_ENTRY : CStr := cstr "Android-IA"
def GUMMIBOOT_TIMEOUT : CStr := cstr "gummiboot:timeout"
def TIMEOUT_DFL : CStr := cstr "5"

/-- `gummiboot_cli`; `efi` is whether there is a `/sys/firmware/efi`. -/
def gummiboot_cli [Stack] (efi : Bool) (ictx : Ictx) (stdin : List UInt8) :
    Exec Die (Ictx × List UInt8) := do
  let loader ← hashmapGetPrintf ictx.opts (some (cstr "none")) BASE_BOOTLOADER
  if loader ≠ cstr "none" then .ret (ictx, stdin)
  else if ¬ efi then .ret (ictx, stdin)
  else do
    let (install, stdin) ← ui_ask (Stack.buf .gummiboot) true stdin
    if ¬ install then .ret (ictx, stdin)
    else do
      let ictx := ictx.put BASE_BOOTLOADER (cstr "gummiboot")
      let dfl ← xatoll TIMEOUT_DFL
      let (timeout, stdin) ← ui_get_value (Stack.buf .timeout) dfl 0 60 stdin
      -- `timeout` is an `unsigned int`
      .ret (ictx.put GUMMIBOOT_TIMEOUT (dec timeout.toUInt64.toUInt32.toNat), stdin)

/-- The file for a boot image. -/
def entry_path (entry : CStr) : CStr :=
  BOOTLOADER_PATH ++ cstr "/loader/entries/" ++ entry ++ cstr ".conf"

variable (b : Build) (fate : Fate) (opts : Hashmap)

/-- A line that is left out if there is nothing to say. -/
def put_unless_empty (key value : CStr) (fd : Fd) (w : Host) : Exec Fatal (Fd × Host) :=
  if value ≠ [] then put_string fate (key ++ value ++ cstr "\n") fd w else .ret (fd, w)

/-- `bootimage_cb`. -/
def bootimage_cb (entry : CStr) (_index : ℕ) (w : Host) : Exec Fatal (Bool × Host) := do
  let (fd, w) ← xopen fate (entry_path entry) ⟨true, true, false⟩ w
  let description ← opt opts none (partition_key entry "description")
  let (fd, w) ← put_string fate (cstr "title " ++ description ++ cstr "\n") fd w
  let guid ← opt opts none (partition_key entry "guid")
  let (fd, w) ← put_string fate (cstr "android " ++ guid ++ cstr "\n") fd w
  let bus ← opt opts (some []) DISK_BUS_NAME
  let (_, w) ← put_unless_empty fate (cstr "android-bus ") bus fd w
  let w ← xclose fate w
  .ret (true, w)

/-- `clean_pstore`: without the file system there is nothing to clean. -/
def clean_pstore (w : Host) : Exec Fatal Host := do
  let w ← xmkdir fate (cstr "/pstore") w
  match fate.mount w.calls with
  | .ok =>
    let w := { w.tick with mounts := (Path.resolve (cstr "/pstore"), cstr "pstore") :: w.mounts }
    .ret (umount fate (cstr "/pstore") (delete_all fate (cstr "/pstore") w))
  | _ => .ret w.tick

/-- What the firmware looks for. -/
def fallback_efi : CStr :=
  if b.uefi_arch ≠ cstr "i386" then cstr "bootx64.efi" else cstr "bootia32.efi"

/-- The copies: the loader, the shim, the MokManager if there is one, and the shim again
where the firmware looks for a loader. -/
def copy_support (w : Host) : Exec Fatal Host := do
  let w ← copy_file fate (IMAGES_PATH ++ cstr "/gummiboot.efi")
    (BOOTLOADER_PATH ++ cstr "/gummiboot.efi") w
  let w ← copy_file fate (IMAGES_PATH ++ cstr "/shim.efi") (BOOTLOADER_PATH ++ cstr "/shim.efi") w
  let w ← (if b.mokmanager then copy_file fate (IMAGES_PATH ++ cstr "/MokManager.efi")
    (BOOTLOADER_PATH ++ cstr "/MokManager.efi") w else .ret w)
  let w ← xmkdir fate (BOOTLOADER_PATH ++ cstr "/EFI") w
  let w ← xmkdir fate (BOOTLOADER_PATH ++ cstr "/EFI/Boot") w
  copy_file fate (IMAGES_PATH ++ cstr "/shim.efi")
    (BOOTLOADER_PATH ++ cstr "/EFI/Boot/" ++ fallback_efi b) w

/-- The settings: the loader's directory is emptied, and `loader.conf` is written. -/
def write_loader_conf (w : Host) : Exec Fatal Host := do
  let w := delete_all fate (BOOTLOADER_PATH ++ cstr "/loader") w
  let w ← xmkdir fate (BOOTLOADER_PATH ++ cstr "/loader") w
  let (fd, w) ← xopen fate (BOOTLOADER_PATH ++ cstr "/loader/loader.conf") ⟨true, false, false⟩ w
  let timeout ← opt opts (some TIMEOUT_DFL) GUMMIBOOT_TIMEOUT
  let (fd, w) ← put_string fate (cstr "timeout " ++ timeout ++ cstr "\n") fd w
  let (fd, w) ← put_string fate (cstr "default boot\n") fd w
  let misc ← opt opts none (partition_key (cstr "misc") "guid")
  let (fd, w) ← put_string fate (cstr "android-bcb " ++ misc ++ cstr "\n") fd w
  let swap ← opt opts (some []) (partition_key (cstr "swap") "guid")
  let (_, w) ← put_unless_empty fate (cstr "android-swap ") swap fd w
  xclose fate w

/-- The arguments of `efibootmgr`. -/
def efibootmgr_argv (disk index : CStr) : List CStr :=
  [cstr "efibootmgr", cstr "-c", cstr "-d", cstr "/dev/block/" ++ disk, cstr "-l",
    cstr "\\shim.efi", cstr "-v", cstr "-p", index, cstr "-D", EFI_ENTRY, cstr "-L", EFI_ENTRY]

/-- `gummiboot_execute`. -/
def gummiboot_execute (w : Host) : Exec Fatal Host := do
  let loader ← opt opts (some (cstr "none")) BASE_BOOTLOADER
  if loader ≠ cstr "gummiboot" then .ret w
  else do
    let bootimages ← opt opts none BASE_BOOT_LIST
    let device ← opt opts none (partition_key (cstr "bootloader") "device")
    let w ← mount_partition_device fate device (cstr "vfat") BOOTLOADER_PATH w
    let w ← copy_support b fate w
    let w ← write_loader_conf fate opts w
    let w ← xmkdir fate (BOOTLOADER_PATH ++ cstr "/loader/entries") w
    let w ← string_list_iterate bootimages (bootimage_cb fate opts) w
    let disk ← opt opts none BASE_INSTALL_DISK
    let w ← clean_pstore fate w
    let index ← opt opts none (partition_key (cstr "bootloader") "index")
    let (ret, w) := execute_command_no_shell fate (efibootmgr_argv disk index) w
    if ret ≠ 0 then .die (.efibootmgr ret)
    -- `rmdir`, which nobody asks either
    else .ret (umount fate BOOTLOADER_PATH w).tick

/-! ## The texts -/

/-- What a line that may be left out adds. -/
def unless_empty (key value : CStr) : CStr :=
  if value ≠ [] then key ++ value ++ cstr "\n" else []

/-- `loader.conf`. -/
def loader_conf (timeout misc swap : CStr) : CStr :=
  cstr "timeout " ++ timeout ++ cstr "\n" ++ cstr "default boot\n" ++
    (cstr "android-bcb " ++ misc ++ cstr "\n") ++ unless_empty (cstr "android-swap ") swap

/-- The file of a boot image. -/
def entry_conf (description guid bus : CStr) : CStr :=
  cstr "title " ++ description ++ cstr "\n" ++ (cstr "android " ++ guid ++ cstr "\n") ++
    unless_empty (cstr "android-bus ") bus

/-! ## What the steps have written -/

section Steps

variable {fate} {opts} {w w' w₁ : Host} {p : Place} {fd fd' : Fd} {key value entry dfl : CStr} {idx : ℕ}

/-- A setting goes behind what was written to the file, if it is not empty. -/
theorem put_unless_empty_ret (h : put_unless_empty fate key value fd w₁ = .ret (fd', w'))
    (hopen : Opened w w₁ p fd) :
    Opened w w' p fd' ∧ fd'.dest = fd.dest.put (unless_empty key value) := by
  unfold put_unless_empty at h
  unfold unless_empty
  split_ifs at h ⊢ with hvalue
  · exact put_string_ret h hopen
  · simp only [Exec.ret.injEq, Prod.mk.injEq] at h
    obtain ⟨rfl, rfl⟩ := h
    exact ⟨hopen, (Dest.put_nil _).symm⟩

/-- The file of a boot image, by the options. -/
def entry_text (opts : Hashmap) (entry : CStr) : CStr :=
  entry_conf ((opts (partition_key entry "description")).getD [])
    ((opts (partition_key entry "guid")).getD []) ((opts DISK_BUS_NAME).getD [])

/-- The settings, by the options. -/
def loader_text (opts : Hashmap) : CStr :=
  loader_conf ((opts GUMMIBOOT_TIMEOUT).getD TIMEOUT_DFL)
    ((opts (partition_key (cstr "misc") "guid")).getD [])
    ((opts (partition_key (cstr "swap") "guid")).getD [])

/-- `bootimage_cb` writes one file, from the options. -/
theorem bootimage_cb_ret {go : Bool} (h : bootimage_cb fate opts entry idx w = .ret (go, w')) :
    go = true ∧ (∃ guid, opts (partition_key entry "guid") = some guid) ∧
      Written w w' (w.place (entry_path entry)) (entry_text opts entry) := by
  unfold bootimage_cb at h
  obtain ⟨⟨fd₀, w₀⟩, hopen, h⟩ := Exec.bind_eq_ret.mp h
  obtain ⟨description, hdesc, h⟩ := Exec.bind_eq_ret.mp h
  obtain ⟨⟨fd₁, w₁⟩, htitle, h⟩ := Exec.bind_eq_ret.mp h
  obtain ⟨guid, hguid, h⟩ := Exec.bind_eq_ret.mp h
  obtain ⟨⟨fd₂, w₂⟩, handroid, h⟩ := Exec.bind_eq_ret.mp h
  obtain ⟨bus, hbus, h⟩ := Exec.bind_eq_ret.mp h
  obtain ⟨⟨fd₃, w₃⟩, hlast, h⟩ := Exec.bind_eq_ret.mp h
  obtain ⟨w₄, hclose, h⟩ := Exec.bind_eq_ret.mp h
  simp only [Exec.ret.injEq, Prod.mk.injEq] at h
  obtain ⟨rfl, rfl⟩ := h
  rw [opt_none] at hdesc hguid
  rw [opt_some] at hbus
  -- one text after the other, into an empty file
  obtain ⟨ho₀, hbytes, -⟩ := xopen_ret hopen
  obtain ⟨ho₁, hd₁⟩ := put_string_ret htitle ho₀
  obtain ⟨ho₂, hd₂⟩ := put_string_ret handroid ho₁
  obtain ⟨ho₃, hd₃⟩ := put_unless_empty_ret hlast ho₂
  have hwritten := xclose_ret hclose ho₃
  rw [if_pos rfl] at hbytes
  refine ⟨rfl, ⟨guid, hguid⟩, ?_⟩
  have htext : fd₃.dest.bytes = entry_text opts entry := by
    rw [hd₃, hd₂, hd₁, Dest.put_put, Dest.put_put, Dest.put_empty hbytes, entry_text, entry_conf,
      hdesc, hguid, ← hbus]
    simp only [Option.getD_some, List.append_assoc]
  rwa [htext] at hwritten

/-- `write_loader_conf`, once there is nothing left in the directory. -/
theorem write_loader_conf_ret (h : write_loader_conf fate opts w = .ret w') :
    (∃ guid, opts (partition_key (cstr "misc") "guid") = some guid) ∧
      let w₀ := delete_all fate (BOOTLOADER_PATH ++ cstr "/loader") w
      let p := w.place (BOOTLOADER_PATH ++ cstr "/loader/loader.conf")
      Written w₀ w' p (loader_text opts ++ ((w₀.files p).getD []).drop (loader_text opts).length) := by
  unfold write_loader_conf at h
  obtain ⟨w₁, hmkdir, h⟩ := Exec.bind_eq_ret.mp h
  obtain ⟨⟨fd₀, w₂⟩, hopen, h⟩ := Exec.bind_eq_ret.mp h
  obtain ⟨timeout, htimeout, h⟩ := Exec.bind_eq_ret.mp h
  obtain ⟨⟨fd₁, w₃⟩, hput₁, h⟩ := Exec.bind_eq_ret.mp h
  obtain ⟨⟨fd₂, w₄⟩, hput₂, h⟩ := Exec.bind_eq_ret.mp h
  obtain ⟨misc, hmisc, h⟩ := Exec.bind_eq_ret.mp h
  obtain ⟨⟨fd₃, w₅⟩, hput₃, h⟩ := Exec.bind_eq_ret.mp h
  obtain ⟨swap, hswap, h⟩ := Exec.bind_eq_ret.mp h
  obtain ⟨⟨fd₄, w₆⟩, hput₄, h⟩ := Exec.bind_eq_ret.mp h
  rw [opt_none] at hmisc
  rw [opt_some] at htimeout hswap
  refine ⟨⟨misc, hmisc⟩, ?_⟩
  intro w₀ p
  -- Each line goes behind the one before, from the start of the file.
  have hsame := xmkdir_ret hmkdir
  obtain ⟨ho₀, hbytes, hpos⟩ := xopen_ret hopen
  obtain ⟨ho₁, hd₁⟩ := put_string_ret hput₁ ho₀
  obtain ⟨ho₂, hd₂⟩ := put_string_ret hput₂ ho₁
  obtain ⟨ho₃, hd₃⟩ := put_string_ret hput₃ ho₂
  obtain ⟨ho₄, hd₄⟩ := put_unless_empty_ret hput₄ ho₃
  have hwritten := hsame.written (xclose_ret h ho₄)
  -- It is opened without O_TRUNC, so what is longer than the lines shows behind them.
  rw [if_neg Bool.false_ne_true] at hbytes hpos
  have hplace : w₁.place (BOOTLOADER_PATH ++ cstr "/loader/loader.conf") = p := hsame.place _
  rw [hplace] at hwritten hbytes
  have htext : cstr "timeout " ++ timeout ++ cstr "\n" ++ (cstr "default boot\n" ++
      (cstr "android-bcb " ++ misc ++ cstr "\n" ++ unless_empty (cstr "android-swap ") swap))
        = loader_text opts := by
    rw [loader_text, loader_conf, hmisc, htimeout, hswap]
    simp only [Option.getD_some, List.append_assoc]
  rw [hd₄, hd₃, hd₂, hd₁, Dest.put_put, Dest.put_put, Dest.put_put, htext, Dest.put_start hpos,
    hbytes, hsame.files] at hwritten
  exact hwritten

end Steps

/-! ## What is on the partition afterwards -/

section Installs

variable {b} {fate} {opts} {w w' wm : Host} {device bootimages : CStr} {table : List (List CStr × CStr)}

/-- The files that are copied. -/
def support (b : Build) : List (List CStr) :=
  [cstr "gummiboot.efi"] :: [cstr "shim.efi"] :: [cstr "EFI", cstr "Boot", fallback_efi b] ::
    if b.mokmanager then [[cstr "MokManager.efi"]] else []

/-- Where the paths of the plug-in lead once the partition is mounted. -/
theorem place_of {path : CStr} {rest : List CStr}
    (hm : wm.mounts = (Path.resolve BOOTLOADER_PATH, device) :: table)
    (hpath : Path.resolve path = Path.resolve BOOTLOADER_PATH ++ rest) :
    wm.place path = (some device, rest) := place_mounted hm hpath

/-- The name of an entry can be that of a file. -/
theorem isName_conf {n : CStr} (hn : 47 ∉ n) : Path.IsName (n ++ cstr ".conf") where
  solid hc := (List.mem_append.mp hc).elim hn (by decide)
  here heq := by
    have hlen := congrArg List.length heq
    rw [List.length_append, show (cstr ".conf").length = 5 by decide,
      show (cstr ".").length = 1 by decide] at hlen
    omega
  up heq := by
    have hlen := congrArg List.length heq
    rw [List.length_append, show (cstr ".conf").length = 5 by decide,
      show (cstr "..").length = 2 by decide] at hlen
    omega

/-- Its file is in the directory of the entries. -/
theorem resolve_entry {n : CStr} (hn : 47 ∉ n) : Path.resolve (entry_path n)
    = Path.resolve BOOTLOADER_PATH ++ [cstr "loader", cstr "entries", n ++ cstr ".conf"] := by
  have hsplit : entry_path n = (BOOTLOADER_PATH ++ cstr "/loader/entries") ++ 47 :: (n ++ cstr ".conf") := by
    unfold entry_path
    rw [List.append_assoc, List.append_assoc, List.append_assoc]
    rfl
  have hne : n ++ cstr ".conf" ≠ [] := by
    intro heq
    exact absurd (List.append_eq_nil_iff.mp heq).2 (by decide)
  rw [hsplit, Path.resolve_name _ hne (isName_conf hn)]
  have hdir : Path.resolve (BOOTLOADER_PATH ++ cstr "/loader/entries")
      = Path.resolve BOOTLOADER_PATH ++ [cstr "loader", cstr "entries"] := by decide +kernel
  rw [hdir, List.append_assoc]
  rfl

/-- The copies go where they are meant to. -/
theorem copy_support_within (hm : wm.mounts = (Path.resolve BOOTLOADER_PATH, device) :: table)
    (h : copy_support b fate wm = .ret w') :
    Within (fun p => p.1 = some device ∧ p.2 ∈ support b) wm w' := by
  -- Each file goes to a name of its own under the mounted partition, and the mounts stay as they
  -- are.
  have hcopy : ∀ {u u' : Host} {src dest : CStr} (rest : List CStr), u.mounts = wm.mounts →
      Path.resolve dest = Path.resolve BOOTLOADER_PATH ++ rest → rest ∈ support b →
      copy_file fate src dest u = .ret u' →
        Within (fun p => p.1 = some device ∧ p.2 ∈ support b) u u' := by
    intro u u' src dest rest hu hdest hmem hret
    obtain ⟨bytes, n, -, hwritten⟩ := copy_file_ret hret
    rw [place_of (hu.trans hm) hdest] at hwritten
    exact hwritten.within ⟨rfl, hmem⟩
  unfold copy_support at h
  obtain ⟨w₁, h₁, h⟩ := Exec.bind_eq_ret.mp h
  obtain ⟨w₂, h₂, h⟩ := Exec.bind_eq_ret.mp h
  obtain ⟨w₃, h₃, h⟩ := Exec.bind_eq_ret.mp h
  obtain ⟨w₄, h₄, h⟩ := Exec.bind_eq_ret.mp h
  obtain ⟨w₅, h₅, h⟩ := Exec.bind_eq_ret.mp h
  have s₁ := hcopy [cstr "gummiboot.efi"] rfl (by decide +kernel) (by simp [support]) h₁
  have s₂ := s₁.trans (hcopy [cstr "shim.efi"] s₁.mounts (by decide +kernel) (by simp [support]) h₂)
  have s₃ : Within (fun p => p.1 = some device ∧ p.2 ∈ support b) wm w₃ := by
    by_cases hmok : b.mokmanager = true
    · rw [if_pos hmok] at h₃
      exact s₂.trans (hcopy [cstr "MokManager.efi"] s₂.mounts (by decide +kernel)
        (by simp [support, hmok]) h₃)
    · rw [if_neg hmok] at h₃
      injection h₃ with h₃
      exact h₃ ▸ s₂
  have s₅ := (s₃.trans (xmkdir_ret h₄).within).trans (xmkdir_ret h₅).within
  refine s₅.trans (hcopy [cstr "EFI", cstr "Boot", fallback_efi b] s₅.mounts ?_ (by simp [support]) h)
  unfold fallback_efi
  split_ifs
  · decide +kernel
  · decide +kernel

/-- `clean_pstore` keeps to the file system it is about. -/
theorem clean_pstore_ret (h : clean_pstore fate w = .ret w') :
    (∀ p, p.1 ≠ some (cstr "pstore") → w'.files p = w.files p) ∧ w'.disks = w.disks ∧
      w'.ran = w.ran := by
  unfold clean_pstore at h
  obtain ⟨w₁, hmkdir, h⟩ := Exec.bind_eq_ret.mp h
  have hsame := xmkdir_ret hmkdir
  have hnothing : w₁.tick = w' → (∀ p, p.1 ≠ some (cstr "pstore") → w'.files p = w.files p) ∧
      w'.disks = w.disks ∧ w'.ran = w.ran := by
    rintro rfl
    exact ⟨fun p _ => congrFun hsame.files p, hsame.disks, hsame.ran⟩
  cases hres : fate.mount w₁.calls with
  | ok =>
    rw [hres] at h
    simp only [Exec.ret.injEq] at h
    subst h
    -- what is removed is on the file system that has just been mounted
    have hplace : ∀ u : Host, u.mounts = (Path.resolve (cstr "/pstore"), cstr "pstore") :: w₁.mounts →
        u.place (cstr "/pstore") = (some (cstr "pstore"), []) := fun u hu => place_mounted hu (by simp)
    rw [umount_files, umount_ran, umount_disks]
    refine ⟨fun p hp => ?_, hsame.disks, hsame.ran⟩
    have hdel : ∀ u : Host, u.mounts = (Path.resolve (cstr "/pstore"), cstr "pstore") :: w₁.mounts →
        Within (fun p => p.1 = some (cstr "pstore")) u (delete_all fate (cstr "/pstore") u) :=
      fun u hu => delete_all_within fun p hfs _ => by rw [hfs, hplace u hu]
    rw [(hdel _ rfl).files p hp]
    exact congrFun hsame.files p
  | busy =>
    rw [hres] at h
    injection h with h
    exact hnothing h
  | err =>
    rw [hres] at h
    injection h with h
    exact hnothing h

/-- Every removal removes. -/
def Removes (fate : Fate) : Prop := ∀ k path, fate.removes k path = true

/-- **What `gummiboot_execute` leaves**: the loader's directory has the settings and the files of
the boot images, with these texts, and nothing else; besides, only the copies have changed on the
partition, and no other file system has but the crash dumps. The firmware has been told of the
loader, and `efibootmgr` has found nothing wrong. -/
structure Installed (b : Build) (opts : Hashmap) (device bootimages : CStr) (w w' : Host) : Prop where
  loader : ∀ rest bytes, w'.files (some device, cstr "loader" :: rest) = some bytes ↔
    (rest = [cstr "loader.conf"] ∧ bytes = loader_text opts) ∨
      ∃ n ∈ entries bootimages, rest = [cstr "entries", n ++ cstr ".conf"] ∧ bytes = entry_text opts n
  misc : ∃ guid, opts (partition_key (cstr "misc") "guid") = some guid
  guids : ∀ n ∈ entries bootimages, ∃ guid, opts (partition_key n "guid") = some guid
  partition_kept : ∀ path, path ∉ support b → path.head? ≠ some (cstr "loader") →
    w'.files (some device, path) = w.files (some device, path)
  others_kept : ∀ p : Place, p.1 ≠ some device → p.1 ≠ some (cstr "pstore") → w'.files p = w.files p
  disks_kept : w'.disks = w.disks
  firmware : ∃ disk index, opts BASE_INSTALL_DISK = some disk ∧
    opts (partition_key (cstr "bootloader") "index") = some index ∧
    w'.ran = w.ran ++ [(.direct (efibootmgr_argv disk index), .exited 0)]

/-- The directory of the loader, once the settings are written and the loop has run. -/
theorem loader_files (hm : wm.mounts = (Path.resolve BOOTLOADER_PATH, device) :: table)
    (hremoves : Removes fate) (hnames : ∀ n ∈ entries bootimages, 47 ∉ n)
    {w₁ w₂ w₃ : Host} (hconf : write_loader_conf fate opts wm = .ret w₁)
    (hmkdir : Untouched w₁ w₂)
    (hloop : string_list_iterate bootimages (bootimage_cb fate opts) w₂ = .ret w₃) :
    (∀ n ∈ entries bootimages, ∃ guid, opts (partition_key n "guid") = some guid) ∧
      Within (fun p => p.1 = some device ∧ p.2.head? = some (cstr "loader")) wm w₃ ∧
      ∀ rest bytes, w₃.files (some device, cstr "loader" :: rest) = some bytes ↔
        (rest = [cstr "loader.conf"] ∧ bytes = loader_text opts) ∨
          ∃ n ∈ entries bootimages, rest = [cstr "entries", n ++ cstr ".conf"] ∧
            bytes = entry_text opts n := by
  obtain ⟨-, hconf⟩ := write_loader_conf_ret hconf
  simp only at hconf
  have hdir : wm.place (BOOTLOADER_PATH ++ cstr "/loader") = (some device, [cstr "loader"]) :=
    place_of hm (by decide +kernel)
  have hplace : wm.place (BOOTLOADER_PATH ++ cstr "/loader/loader.conf")
      = (some device, [cstr "loader", cstr "loader.conf"]) := place_of hm (by decide +kernel)
  rw [hplace] at hconf
  -- nothing is left in the directory
  have hgone : ∀ rest, (delete_all fate (BOOTLOADER_PATH ++ cstr "/loader") wm).files
      (some device, cstr "loader" :: rest) = none := by
    intro rest
    refine if_pos ?_
    rw [hdir]
    exact ⟨rfl, ⟨rest, rfl⟩, hremoves _ _⟩
  have hdel : Within (fun p => p.1 = some device ∧ p.2.head? = some (cstr "loader")) wm
      (delete_all fate (BOOTLOADER_PATH ++ cstr "/loader") wm) := by
    refine delete_all_within fun p hfs hpath => ?_
    rw [hdir] at hfs hpath
    obtain ⟨rest, hrest⟩ := hpath
    exact ⟨hfs, by rw [← hrest]; rfl⟩
  rw [hgone, Option.getD_none, List.drop_nil, List.append_nil] at hconf
  -- the files of the boot images
  have hm₂ : w₂.mounts = (Path.resolve BOOTLOADER_PATH, device) :: table := by
    rw [hmkdir.mounts, hconf.mounts, hdel.mounts, hm]
  have hentry : ∀ n ∈ entries bootimages, w₂.place (entry_path n)
      = (some device, [cstr "loader", cstr "entries", n ++ cstr ".conf"]) :=
    fun n hn => place_of hm₂ (resolve_entry (hnames n hn))
  have hinj : ∀ n ∈ entries bootimages, ∀ k ∈ entries bootimages,
      w₂.place (entry_path n) = w₂.place (entry_path k) → n = k := by
    intro n hn k hk heq
    rw [hentry n hn, hentry k hk] at heq
    simp only [Prod.mk.injEq, List.cons.injEq, true_and, and_true] at heq
    exact List.append_cancel_right heq
  obtain ⟨hwithin, hfiles⟩ := iterate_written
    (Q := fun n => ∃ guid, opts (partition_key n "guid") = some guid)
    (fun entry idx w go w' h => bootimage_cb_ret h) hinj hloop
  have hstay : Within (fun p => p.1 = some device ∧ p.2.head? = some (cstr "loader")) w₂ w₃ := by
    refine hwithin.mono ?_
    rintro p ⟨n, hn, rfl⟩
    rw [hentry n hn]
    exact ⟨rfl, rfl⟩
  refine ⟨fun n hn => (hfiles n hn).1,
    (hdel.trans ((hconf.within ⟨rfl, rfl⟩).trans hmkdir.within)).trans hstay, ?_⟩
  intro rest bytes
  constructor
  · intro hsome
    by_cases hone : ∃ n ∈ entries bootimages, rest = [cstr "entries", n ++ cstr ".conf"]
    · obtain ⟨n, hn, rfl⟩ := hone
      have hfile := (hfiles n hn).2
      rw [hentry n hn, hsome] at hfile
      injection hfile with hfile
      exact .inr ⟨n, hn, rfl, hfile⟩
    · rw [hwithin.files _ (by
        rintro ⟨n, hn, heq⟩
        rw [hentry n hn] at heq
        simp only [Prod.mk.injEq, List.cons.injEq, true_and] at heq
        exact hone ⟨n, hn, heq⟩), hmkdir.files] at hsome
      by_cases hname : rest = [cstr "loader.conf"]
      · rw [hname, hconf.self] at hsome
        injection hsome with hsome
        exact .inl ⟨hname, hsome.symm⟩
      · rw [hconf.of_ne (by simp [hname]), hgone] at hsome
        cases hsome
  · rintro (⟨rfl, rfl⟩ | ⟨n, hn, rfl, rfl⟩)
    · rw [hwithin.files _ (by
        rintro ⟨n, hn, heq⟩
        rw [hentry n hn] at heq
        simp at heq), hmkdir.files, hconf.self]
    · have hfile := (hfiles n hn).2
      rwa [hentry n hn] at hfile

theorem toInt_eq_zero {status : WaitStatus} : status.toInt = 0 ↔ status = .exited 0 := by
  constructor
  · intro h
    cases status with
    | exited code =>
      have hcode : code.toNat = 0 := by
        simp only [WaitStatus.toInt] at h
        omega
      rw [show code = 0 from UInt8.toNat_inj.mp hcode]
    | signaled sig core =>
      have hpos := sig.2.1
      simp only [WaitStatus.toInt] at h
      split_ifs at h
      · omega
      · omega
    | failed => exact absurd h (by decide)
  · rintro rfl
    rfl

/-- **The plug-in does what it is for**, if the partition is mounted where it looks for it and
what is removed is removed. -/
theorem gummiboot_installs (hsel : opts BASE_BOOTLOADER = some (cstr "gummiboot"))
    (hlist : opts BASE_BOOT_LIST = some bootimages)
    (hdevice : opts (partition_key (cstr "bootloader") "device") = some device)
    (hpstore : device ≠ cstr "pstore") (hnames : ∀ n ∈ entries bootimages, 47 ∉ n)
    (hremoves : Removes fate) (hmount : fate.mount (w.calls + 1) ≠ .busy)
    (h : gummiboot_execute b fate opts w = .ret w') :
    Installed b opts device bootimages w w' := by
  unfold gummiboot_execute at h
  obtain ⟨loader, hloader, h⟩ := Exec.bind_eq_ret.mp h
  rw [opt_some, hsel, Option.getD_some] at hloader
  subst hloader
  rw [if_neg (not_not.mpr rfl)] at h
  obtain ⟨list, hbootimages, h⟩ := Exec.bind_eq_ret.mp h
  rw [opt_none, hlist] at hbootimages
  obtain rfl := Option.some.inj hbootimages
  obtain ⟨dev, hdev, h⟩ := Exec.bind_eq_ret.mp h
  rw [opt_none, hdevice] at hdev
  obtain rfl := Option.some.inj hdev
  obtain ⟨wm, hmounted, h⟩ := Exec.bind_eq_ret.mp h
  obtain ⟨ws, hsupport, h⟩ := Exec.bind_eq_ret.mp h
  obtain ⟨wc, hconf, h⟩ := Exec.bind_eq_ret.mp h
  obtain ⟨we, hmkdir, h⟩ := Exec.bind_eq_ret.mp h
  obtain ⟨wl, hloop, h⟩ := Exec.bind_eq_ret.mp h
  obtain ⟨disk, hdisk, h⟩ := Exec.bind_eq_ret.mp h
  obtain ⟨wp, hclean, h⟩ := Exec.bind_eq_ret.mp h
  obtain ⟨index, hindex, h⟩ := Exec.bind_eq_ret.mp h
  rcases hrun : execute_command_no_shell fate (efibootmgr_argv disk index) wp with ⟨ret, wr⟩
  rw [hrun] at h
  simp only at h
  by_cases hret : ret ≠ 0
  · rw [if_pos hret] at h
    cases h
  rw [if_neg hret] at h
  injection h with h
  simp only [execute_command_no_shell, Prod.mk.injEq] at hrun
  rw [not_not, ← hrun.1, toInt_eq_zero] at hret
  rw [opt_none] at hdisk hindex
  -- the mount, and what is under it
  obtain ⟨hfiles, hran, hdisks, hmounts⟩ := mount_ret hmounted
  rw [if_neg hmount] at hmounts
  have hsup := copy_support_within hmounts hsupport
  obtain ⟨hguids, hstay, hloaded⟩ :=
    loader_files (hsup.mounts.trans hmounts) hremoves hnames hconf (xmkdir_ret hmkdir) hloop
  obtain ⟨hmisc, -⟩ := write_loader_conf_ret hconf
  obtain ⟨hpfiles, hpdisks, hpran⟩ := clean_pstore_ret hclean
  have hlast : w'.files = wp.files ∧ w'.disks = wp.disks ∧
      w'.ran = wp.ran ++ [(.direct (efibootmgr_argv disk index), .exited 0)] := by
    rw [← h, ← hrun.2]
    refine ⟨umount_files _ _, umount_disks _ _, ?_⟩
    show (umount fate BOOTLOADER_PATH _).ran = _
    rw [umount_ran, hret]
  have hother : ∀ p : Place, p.1 ≠ some (cstr "pstore") → w'.files p = wl.files p := by
    intro p hp
    rw [hlast.1, hpfiles p hp]
  have hne : some device ≠ some (cstr "pstore") := fun heq => hpstore (Option.some.inj heq)
  exact {
    loader := fun rest bytes => by
      rw [hother _ hne]
      exact hloaded rest bytes
    misc := hmisc
    guids := hguids
    partition_kept := fun path hpath hhead => by
      rw [hother _ hne, hstay.files _ fun hp => hhead hp.2, hsup.files _ fun hp => hpath hp.2, hfiles]
    others_kept := fun p hp hps => by
      rw [hother p hps, hstay.files _ fun h => hp h.1, hsup.files _ fun h => hp h.1, hfiles]
    disks_kept := by rw [hlast.2.1, hpdisks, hstay.disks, hsup.disks, hdisks]
    firmware := ⟨disk, index, hdisk, hindex, by
      rw [hlast.2.2, hpran, hstay.ran, hsup.ran, hran]⟩ }

end Installs

end Gummiboot

end Installer

end Iago
