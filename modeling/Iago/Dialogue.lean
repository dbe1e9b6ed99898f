/-
What is left of a dialogue: the disk that was chosen, and what the two branches of
`partitioner_cli` put into the options.

The execution phase reads nothing else of it. The dual-boot branch sets
`base:dualboot` and perhaps a new size for Windows (`cli_dual_boot_spec`); the other
branch sets nothing and has compared the size of the disk with the space asked for
(`cli_wipe_disk_spec`).
-/
import Iago.Partitioner

set_option autoImplicit false

namespace Iago

section Dialogue

variable [Stack] {ictx ictx' : Ictx} {stdin stdin' : List UInt8} {disk : CStr} {sz : DiskSizes}

omit [Stack] in
theorem put_self (key value : CStr) : (ictx.put key value).opts key = some value :=
  xhashmapPut_self

omit [Stack] in
theorem put_of_ne {key key' : CStr} (value : CStr) (h : key' ≠ key) :
    (ictx.put key value).opts key' = ictx.opts key' := xhashmapPut_of_ne h

/-- What the dual-boot branch does to the options. -/
structure SetsDualBoot (ictx ictx' : Ictx) (disk : CStr) : Prop where
  dualboot : ictx'.opts BASE_DUALBOOT = some (cstr "1")
  asked : ∃ required, get_all_space_required ictx.opts disk true = .ret required
  opts : ∀ key, key ≠ BASE_DUALBOOT → key ≠ disk_key disk "windows_resize" →
    ictx'.opts key = ictx.opts key
  iprops : ictx'.iprops = ictx.iprops

/-- What follows the question whether to resize Windows. -/
theorem cli_dual_boot_tail {required : UInt64} {min max : Int64} {must resize : Bool}
    (hreq : get_all_space_required ictx.opts disk true = .ret required)
    (h : (if resize = true then do
        let (value, stdin) ← ui_get_value (Stack.buf .new_windows_size) max min max stdin
        .ret ((ictx.put (disk_key disk "windows_resize")
          (dec (value.toUInt64 <<< 20).toNat)).put BASE_DUALBOOT (cstr "1"), stdin)
      else if must = true then .die .insufficient_free_space
      else .ret (ictx.put BASE_DUALBOOT (cstr "1"), stdin) : Exec Die (Ictx × List UInt8))
      = .ret (ictx', stdin')) : SetsDualBoot ictx ictx' disk := by
  by_cases hres : resize = true
  · rw [if_pos hres] at h
    obtain ⟨⟨value, rest'⟩, -, h⟩ := Exec.bind_eq_ret.mp h
    simp only [Exec.ret.injEq, Prod.mk.injEq] at h
    rw [← h.1]
    refine ⟨put_self _ _, ⟨required, hreq⟩, fun key hdual hwin => ?_, rfl⟩
    rw [put_of_ne _ hdual, put_of_ne _ hwin]
  · rw [if_neg hres] at h
    by_cases hmust : must = true
    · rw [if_pos hmust] at h
      cases h
    · rw [if_neg hmust] at h
      simp only [Exec.ret.injEq, Prod.mk.injEq] at h
      rw [← h.1]
      exact ⟨put_self _ _, ⟨required, hreq⟩, fun key hdual _ => put_of_ne _ hdual, rfl⟩

theorem cli_dual_boot_spec (h : cli_dual_boot ictx disk sz stdin = .ret (ictx', stdin')) :
    SetsDualBoot ictx ictx' disk := by
  rw [cli_dual_boot] at h
  obtain ⟨required, hreq, h⟩ := Exec.bind_eq_ret.mp h
  simp only at h
  generalize (if sz.android_size ≠ 0 then sz.android_size else sz.free_size) = total at h
  generalize decide (total < required.toInt64) = must at h
  generalize (if must = true then sz.windows_size - (required.toInt64 - total)
    else sz.windows_size) = max at h
  by_cases hno : must = true ∧
      (max < 0 ∨ max < sz.windows_min_size ∨ ¬ decide (sz.windows_min_size ≠ 0) = true)
  · rw [if_pos hno] at h
    cases h
  rw [if_neg hno] at h
  by_cases hcan : decide (sz.windows_min_size ≠ 0) = true
  · rw [if_pos hcan] at h
    obtain ⟨⟨resize, rest⟩, -, h⟩ := Exec.bind_eq_ret.mp h
    exact cli_dual_boot_tail hreq h
  · rw [if_neg hcan, Exec.ret_bind] at h
    exact cli_dual_boot_tail hreq h

/-- The other branch has compared sizes. -/
theorem cli_wipe_disk_spec
    (h : cli_wipe_disk ictx disk sz stdin = .ret (ictx', stdin')) :
    ictx' = ictx ∧ ∃ required, get_all_space_required ictx.opts disk false = .ret required ∧
      ¬ sz.disk_size - 2 * 1024 * 1024 < required.toInt64 := by
  rw [cli_wipe_disk] at h
  obtain ⟨⟨go, rest⟩, -, h⟩ := Exec.bind_eq_ret.mp h
  simp only at h
  by_cases hgo : go = true
  · rw [if_neg (not_not.mpr hgo)] at h
    obtain ⟨required, hreq, h⟩ := Exec.bind_eq_ret.mp h
    by_cases hshort : sz.disk_size - 2 * 1024 * 1024 < required.toInt64
    · rw [if_pos hshort] at h
      cases h
    · rw [if_neg hshort] at h
      simp only [Exec.ret.injEq, Prod.mk.injEq] at h
      exact ⟨h.1.symm, required, hreq, hshort⟩
  · rw [if_pos hgo] at h
    cases h

/-- **What a dialogue leaves**: a disk, and one of the two branches behind it. -/
theorem partitioner_cli_spec (h : partitioner_cli ictx stdin = .ret (ictx', stdin')) :
    ∃ disk sz, read_sizes (ictx.put BASE_INSTALL_DISK disk).opts disk = .ret sz ∧
      (SetsDualBoot (ictx.put BASE_INSTALL_DISK disk) ictx' disk ∨
        ictx' = ictx.put BASE_INSTALL_DISK disk ∧
          ∃ required, get_all_space_required ictx'.opts disk false = .ret required ∧
            ¬ sz.disk_size - 2 * 1024 * 1024 < required.toInt64) := by
  rw [partitioner_cli] at h
  obtain ⟨disks, -, h⟩ := Exec.bind_eq_ret.mp h
  obtain ⟨disk_list, -, h⟩ := Exec.bind_eq_ret.mp h
  obtain ⟨⟨disk, rest⟩, -, h⟩ := Exec.bind_eq_ret.mp h
  simp only at h
  obtain ⟨sz, hsz, h⟩ := Exec.bind_eq_ret.mp h
  refine ⟨disk, sz, hsz, ?_⟩
  by_cases hwin : sz.windows_size ≠ 0
  · rw [if_pos hwin] at h
    obtain ⟨⟨dual, rest'⟩, -, h⟩ := Exec.bind_eq_ret.mp h
    simp only at h
    by_cases hdual : dual = true
    · rw [if_pos hdual] at h
      exact .inl (cli_dual_boot_spec h)
    · rw [if_neg hdual] at h
      obtain ⟨rfl, hfits⟩ := cli_wipe_disk_spec h
      exact .inr ⟨rfl, hfits⟩
  · rw [if_neg hwin] at h
    obtain ⟨rfl, hfits⟩ := cli_wipe_disk_spec h
    exact .inr ⟨rfl, hfits⟩

omit [Stack] in
/-- The size of the disk, as `read_sizes` reads it. -/
theorem read_sizes_disk_size {opts : Hashmap} {size : ℕ}
    (hsize : size < 2 ^ 63) (hpub : opts (disk_key disk "size") = some (dec size))
    (h : read_sizes opts disk = .ret sz) : sz.disk_size = .ofInt size := by
  rw [read_sizes] at h
  obtain ⟨s₁, -, h⟩ := Exec.bind_eq_ret.mp h
  obtain ⟨windows_size, -, h⟩ := Exec.bind_eq_ret.mp h
  obtain ⟨s₂, -, h⟩ := Exec.bind_eq_ret.mp h
  obtain ⟨windows_min_size, -, h⟩ := Exec.bind_eq_ret.mp h
  obtain ⟨s, hs, h⟩ := Exec.bind_eq_ret.mp h
  obtain ⟨disk_size, hdisk, h⟩ := Exec.bind_eq_ret.mp h
  obtain ⟨s₄, -, h⟩ := Exec.bind_eq_ret.mp h
  obtain ⟨android_size, -, h⟩ := Exec.bind_eq_ret.mp h
  obtain ⟨s₅, -, h⟩ := Exec.bind_eq_ret.mp h
  obtain ⟨free_size, -, h⟩ := Exec.bind_eq_ret.mp h
  injection h with h
  rw [hashmapGetPrintf_none, hpub] at hs
  injection hs with hs
  rw [← hs, xatoll_dec hsize] at hdisk
  injection hdisk with hdisk
  rw [← h, ← hdisk]

end Dialogue

end Iago
