/-
When the new partitions tile the free region.

`create_android_partitions` goes over the list of partitions twice. The first pass adds
up the lengths, leaving out every name that starts with `bootloader`, and the boot
loaders are added back as one number: twice the length on a disk that is wiped, the
bytes of the existing EFI system partition next to Windows. The second pass lays the
partitions out, and the one with a negative length gets what the first pass has left.
That the two agree, wherever the partition that fills the region stands in the list, is
`to_mib_needed`; that a run of the callback then lays one partition behind the other, in
the order of the list and of the slots, is `Run.tiled`.

Lengths, offsets and the sum are numbers of 64 bits. Tiling is exact if the region and
the lengths are, in bytes, below `2 ^ 64` and the region does not start at LBA 0, where
an entry would not be in use; and only then (`tiles_iff`).
-/
import Mathlib.Algebra.Order.BigOperators.Group.List
import Iago.DualBootFrame
import Iago.EntryTable

set_option autoImplicit false

namespace Iago

/-! ## The two calls -/

/-- How `create_android_partitions` is called: on a new table, or on one that has an EFI
system partition of so many bytes. -/
inductive InstallMode where
  | wipe_disk
  | dual_boot (esp_size : UInt64)

namespace InstallMode

def skip_bootloader : InstallMode → Bool
  | wipe_disk => false
  | dual_boot _ => true

/-- The size passed for the boot loaders, and the length the options hold by then. -/
def Passes (opts : Hashmap) (bootloader_size : UInt64) : InstallMode → Prop
  | wipe_disk => ∃ len, LenIs opts (cstr "bootloader") len ∧
      bootloader_size = (len.toUInt64 <<< 20) * 2
  | dual_boot esp_size =>
    opts (partition_key (cstr "bootloader") "len") = some (dec (to_mib esp_size).toNat) ∧
      bootloader_size = esp_size

end InstallMode

section Callers

variable [Platform] [Qsort] {m : Machine} {disk partlist : CStr} {ictx ictx' : Ictx} {g' : Gpt}

/-- A disk that was wiped has been through the first of the two. -/
theorem wipe_disk_passes (h : execute_wipe_disk m partlist ictx = .ret (g', ictx')) :
    ∃ g₀ g urandom urandom' bootloader_size, m.gpt_init = some g₀ ∧
      gpt_new (ε := Die) g₀ m.urandom = .ret (0, g, urandom) ∧
      InstallMode.wipe_disk.Passes ictx.opts bootloader_size ∧
      create_android_partitions bootloader_size partlist g false ictx.opts urandom
        = .ret (g', ictx'.opts, urandom') := by
  unfold execute_wipe_disk at h
  rcases hinit : m.gpt_init with _ | g₀
  · rw [hinit] at h
    cases h
  rw [hinit] at h
  obtain ⟨⟨ret, g, urandom⟩, hnew, h⟩ := Exec.bind_eq_ret.mp h
  simp only at h
  split_ifs at h with hret
  obtain rfl := not_not.mp hret
  obtain ⟨s, hs, h⟩ := Exec.bind_eq_ret.mp h
  obtain ⟨len, hlen, h⟩ := Exec.bind_eq_ret.mp h
  obtain ⟨⟨g₁, opts₁, urandom'⟩, hcreate, h⟩ := Exec.bind_eq_ret.mp h
  simp only [Exec.ret.injEq, Prod.mk.injEq] at h
  obtain ⟨rfl, rfl⟩ := h
  exact ⟨g₀, g, urandom, urandom', _, rfl, hnew, ⟨len, ⟨s, hashmapGetPrintf_none.mp hs, hlen⟩, rfl⟩,
    hcreate⟩

/-- And one shared with Windows through the other. -/
theorem DualRun.passes (r : DualRun m disk partlist ictx g' ictx') :
    (InstallMode.dual_boot r.esp_size.toUInt64).Passes
      (dual_opts ictx.opts r.esp_size r.esp_index r.node) r.esp_size.toUInt64 := by
  refine ⟨?_, rfl⟩
  have hother (f : String) (hf : 58 ∉ cstr f) (hne : cstr "len" ≠ cstr f) :
      partition_key (cstr "bootloader") "len" ≠ partition_key (cstr "bootloader") f := by
    intro heq
    exact hne (partition_key_inj (by decide) hf heq).2
  unfold dual_opts
  rw [xhashmapPut_of_ne (hother "device" (by decide) (by decide)),
    xhashmapPut_of_ne (hother "index" (by decide) (by decide)), xhashmapPut_self]

end Callers

/-! ## The lengths -/

section Lengths

variable {opts : Hashmap} {list : List CStr} {fill n s : CStr} {bootloader_size needed : UInt64}
  {mode : InstallMode}

/-- The list has each boot loader once, no other name that starts like theirs, and one
partition that fills what is left. -/
structure OneFills (opts : Hashmap) (list : List CStr) (fill : CStr) : Prop where
  nodup : list.Nodup
  bootloader : cstr "bootloader" ∈ list
  bootloader2 : cstr "bootloader2" ∈ list
  counted : ∀ n ∈ list, n ≠ cstr "bootloader" → n ≠ cstr "bootloader2" → Counted n
  fill_mem : fill ∈ list
  negative : len_of opts fill < 0
  positive : ∀ n ∈ list, n ≠ fill → 0 < len_of opts n

/-- The length of a partition that does not fill anything, in MiB. -/
def positive_mb (opts : Hashmap) (n : CStr) : ℕ :=
  if 0 < len_of opts n then (len_of opts n).toUInt64.toNat else 0

/-- The lengths of a list, added up. -/
def asked_mb (opts : Hashmap) (names : List CStr) : ℕ := (names.map (positive_mb opts)).sum

theorem asked_mb_cons (n : CStr) (names : List CStr) :
    asked_mb opts (n :: names) = positive_mb opts n + asked_mb opts names := by
  rw [asked_mb, List.map_cons, List.sum_cons]
  rfl

/-- The second boot loader has the length of the first. -/
theorem install_bootloader2 (hs : opts (partition_key (cstr "bootloader") "len") = some s) :
    len_of (install_opts opts) (cstr "bootloader2") = len_of opts (cstr "bootloader") := by
  have hput : install_opts opts (partition_key (cstr "bootloader2") "len") = some s := by
    rw [install_opts, hs]
    exact xhashmapPut_self
  rw [len_of, len_of, hput, hs]

/-- The other lengths are what they were. -/
theorem install_len (hn : n ≠ cstr "bootloader2") :
    install_opts opts (partition_key n "len") = opts (partition_key n "len") := by
  rcases hb : opts (partition_key (cstr "bootloader") "len") with _ | s
  · rw [install_opts, hb]
  · rw [install_opts, hb]
    refine xhashmapPut_of_ne fun heq => ?_
    exact hn (partition_key_inj (by decide) (by decide) heq).1

/-- Installing changes the length of the second loader only. -/
theorem install_len_of (hn : n ≠ cstr "bootloader2") :
    len_of (install_opts opts) n = len_of opts n := by
  rw [len_of, len_of, install_len hn]

/-- No loader is counted. -/
theorem counted_ne (hc : Counted n) : n ≠ cstr "bootloader" ∧ n ≠ cstr "bootloader2" := by
  constructor
  · rintro rfl
    exact hc (by decide)
  · rintro rfl
    exact hc (by decide)

/-- Neither boot loader fills the region: the other one would fill it too. -/
theorem OneFills.fill_ne (h : OneFills opts list fill)
    (hsame : len_of opts (cstr "bootloader2") = len_of opts (cstr "bootloader")) :
    fill ≠ cstr "bootloader" ∧ fill ≠ cstr "bootloader2" := by
  have hneg := h.negative
  have habsurd : ∀ x : Int64, x < 0 → 0 < x → False := by
    intro x hlt hgt
    exact Int64.lt_irrefl (Int64.lt_trans hlt hgt)
  constructor
  · rintro rfl
    refine habsurd _ hneg (hsame ▸ h.positive _ h.bootloader2 (by decide))
  · rintro rfl
    refine habsurd _ hneg (hsame ▸ h.positive _ h.bootloader (by decide))

/-- A list with the two boot loaders in front. -/
theorem OneFills.perm (h : OneFills opts list fill) :
    ∃ rest, list.Perm (cstr "bootloader" :: cstr "bootloader2" :: rest) ∧ ∀ n ∈ rest, Counted n := by
  have hmem : cstr "bootloader2" ∈ list.erase (cstr "bootloader") :=
    (List.mem_erase_of_ne (by decide)).mpr h.bootloader2
  refine ⟨(list.erase (cstr "bootloader")).erase (cstr "bootloader2"), ?_, ?_⟩
  · exact (List.perm_cons_erase h.bootloader).trans ((List.perm_cons_erase hmem).cons _)
  · intro n hn
    obtain ⟨hne2, hn⟩ := (h.nodup.erase _).mem_erase_iff.mp hn
    obtain ⟨hne, hn⟩ := h.nodup.mem_erase_iff.mp hn
    exact h.counted n hn hne hne2

/-- All are made but the loader the EFI system partition stands for. -/
theorem mem_made_names {skip : Bool} :
    n ∈ made_names skip list ↔ n ∈ list ∧ ¬ (skip = true ∧ n = cstr "bootloader") := by
  rw [made_names, List.mem_filter, decide_eq_true_iff]

/-- Lists without the first boot loader are made as they are. -/
theorem made_names_of_counted (skip : Bool) {rest : List CStr} (h : ∀ n ∈ rest, Counted n) :
    made_names skip rest = rest := by
  refine List.filter_eq_self.mpr fun n hn => decide_eq_true ?_
  exact fun hno => (counted_ne (h n hn)).1 hno.2

/-- How often the length of the boot loader is asked for. -/
def bootloaders : InstallMode → ℕ
  | .wipe_disk => 2
  | .dual_boot _ => 1

/-- **The two passes see the same lengths**: what is made asks for what the first pass
counts, and for the boot loaders. -/
theorem OneFills.asked_eq (h : OneFills opts list fill)
    (hsame : len_of opts (cstr "bootloader2") = len_of opts (cstr "bootloader"))
    (mode : InstallMode) :
    asked_mb opts (made_names mode.skip_bootloader list)
      = sum_mb opts list + bootloaders mode * positive_mb opts (cstr "bootloader") := by
  obtain ⟨rest, hperm, hrest⟩ := h.perm
  have hboot2 : positive_mb opts (cstr "bootloader2") = positive_mb opts (cstr "bootloader") := by
    rw [positive_mb, positive_mb, hsame]
  -- The first pass leaves the boot loaders out of the sum, so they are added at the end.
  have hzero : ∀ n, ¬ Counted n → counted_mb opts n = 0 := by
    intro n hn
    rw [counted_mb, if_neg fun h => hn h.1]
  have hsum : sum_mb opts list = asked_mb opts rest := by
    rw [sum_mb, (hperm.map _).sum_eq, List.map_cons, List.map_cons, List.sum_cons, List.sum_cons,
      hzero _ (by decide), hzero _ (by decide), Nat.zero_add, Nat.zero_add, asked_mb]
    congr 1
    refine List.map_congr_left fun n hn => ?_
    rw [counted_mb, positive_mb]
    by_cases hlen : 0 < len_of opts n
    · rw [if_pos ⟨hrest n hn, hlen⟩, if_pos hlen]
    · rw [if_neg fun h => hlen h.2, if_neg hlen]
  have hmade := ((hperm.filter fun n => ¬ (mode.skip_bootloader = true ∧ n = cstr "bootloader")).map
    (positive_mb opts)).sum_eq
  have hnames : made_names mode.skip_bootloader (cstr "bootloader2" :: rest)
      = cstr "bootloader2" :: rest := by
    rw [made_names_cons, if_neg fun h => absurd h.2 (by decide), made_names_of_counted _ hrest]
  rw [asked_mb, hsum]
  refine hmade.trans ?_
  change asked_mb opts (made_names mode.skip_bootloader _) = _
  rw [made_names_cons, hnames]
  -- Beside Windows the ESP stands in for one of the two.
  cases mode with
  | wipe_disk =>
    rw [if_neg fun h => absurd h.1 (by decide), asked_mb_cons, asked_mb_cons, hboot2, bootloaders]
    omega
  | dual_boot esp_size =>
    rw [if_pos ⟨rfl, rfl⟩, asked_mb_cons, hboot2, bootloaders]
    omega

/-- A size that rounds up to some MiB did not wrap on the way. -/
theorem le_of_to_mib_pos {val : UInt64} (h : 0 < (to_mib val).toNat) :
    val.toNat + 2 ^ 20 ≤ 2 ^ 64 := by
  have hunit : ((1 : UInt64) <<< 20).toNat = 2 ^ 20 := rfl
  have hlt := val.toNat_lt
  by_contra hno
  -- only a multiple of a MiB is not rounded up, and there is none that large
  have hmod : (val % ((1 : UInt64) <<< 20)).toNat = val.toNat % 2 ^ 20 := UInt64.toNat_mod _ _
  have hrem : val % ((1 : UInt64) <<< 20) ≠ 0 := by
    intro h0
    rw [h0, UInt64.toNat_zero] at hmod
    omega
  rw [to_mib, to_unit_ceiling, round_up_to_multiple, if_neg (by decide)] at h
  simp only [hrem, if_false] at h
  rw [UInt64.toNat_div, UInt64.toNat_sub, UInt64.toNat_add, hmod, hunit] at h
  have hzero : (2 ^ 64 - val.toNat % 2 ^ 20 + (val.toNat + 2 ^ 20) % 2 ^ 64) % 2 ^ 64 = 0 := by
    omega
  rw [hzero] at h
  exact absurd h (by decide)

/-- The bytes passed for the boot loaders, when the first is `mib` MiB long. -/
def InstallMode.BootBytes (bootloader_size : UInt64) (mib : ℕ) : InstallMode → Prop
  | wipe_disk => bootloader_size.toNat = mib % 2 ^ 44 * 2 ^ 20 * 2 % 2 ^ 64
  | dual_boot esp_size => bootloader_size = esp_size ∧ esp_size.toNat + 2 ^ 20 ≤ 2 ^ 64 ∧
      mib = (esp_size.toNat + (2 ^ 20 - 1)) / 2 ^ 20

/-- A positive length of the boot loader says what is passed. -/
theorem InstallMode.Passes.len (h : mode.Passes opts bootloader_size) :
    ∃ len, LenIs opts (cstr "bootloader") len ∧
      (0 < len → mode.BootBytes bootloader_size len.toUInt64.toNat) := by
  cases mode with
  | wipe_disk =>
    obtain ⟨len, hlen, rfl⟩ := h
    refine ⟨len, hlen, fun _ => ?_⟩
    have htwo : (2 : UInt64).toNat = 2 := rfl
    rw [InstallMode.BootBytes, UInt64.toNat_mul, shiftLeft_mib_toNat, htwo]
  | dual_boot esp_size =>
    obtain ⟨hopt, hsize⟩ := h
    have hle := to_mib_le esp_size
    have hint : (Int64.ofInt ((to_mib esp_size).toNat : ℤ)).toInt = (to_mib esp_size).toNat :=
      Int64.toInt_ofInt_of_le (by omega) (by omega)
    have hval : (Int64.ofInt ((to_mib esp_size).toNat : ℤ)).toUInt64.toNat
        = (to_mib esp_size).toNat := by
      obtain ⟨hnat, -⟩ := toNat_toUInt64_of_nonneg (hint ▸ Int.natCast_nonneg _)
      omega
    refine ⟨_, ⟨_, hopt, xatoll_dec (by omega)⟩, fun hpos => ?_⟩
    rw [Int64.lt_iff_toInt_lt, hint, Int64.toInt_zero] at hpos
    have hfits : esp_size.toNat + 2 ^ 20 ≤ 2 ^ 64 := le_of_to_mib_pos (by omega)
    exact ⟨hsize, hfits, by rw [hval, to_mib_toNat hfits]⟩

/-- When one other partition fills the region, the boot loaders have the same positive
length. -/
theorem InstallMode.Passes.boot (hpass : mode.Passes opts bootloader_size)
    (hfills : OneFills (install_opts opts) list fill) :
    len_of (install_opts opts) (cstr "bootloader2") = len_of (install_opts opts) (cstr "bootloader") ∧
      0 < len_of (install_opts opts) (cstr "bootloader") ∧
      mode.BootBytes bootloader_size (positive_mb (install_opts opts) (cstr "bootloader")) := by
  obtain ⟨len, hlen, hbytes⟩ := hpass.len
  have hboot : len_of (install_opts opts) (cstr "bootloader") = len := by
    rw [install_len_of (by decide), hlen.len_of]
  have hsame : len_of (install_opts opts) (cstr "bootloader2")
      = len_of (install_opts opts) (cstr "bootloader") := by
    obtain ⟨s, hs, -⟩ := hlen
    rw [install_bootloader2 hs, install_len_of (by decide)]
  have hpos := hfills.positive _ hfills.bootloader (hfills.fill_ne hsame).1.symm
  refine ⟨hsame, hpos, ?_⟩
  rw [positive_mb, if_pos hpos, hboot]
  exact hbytes (hboot ▸ hpos)

/-- **What is needed, in whole MiB, is what the partitions that are made ask for.** -/
theorem to_mib_needed {partlist : CStr} (hpass : mode.Passes opts bootloader_size)
    (hlist : opts BASE_PTN_LIST = some partlist)
    (hfills : OneFills (install_opts opts) (entries partlist) fill)
    (hneed : get_partial_space_required opts bootloader_size = .ret needed)
    (hlt : asked_mb (install_opts opts) (made_names mode.skip_bootloader (entries partlist)) * 2 ^ 20
      < 2 ^ 64) :
    (to_mib needed).toNat
      = asked_mb (install_opts opts) (made_names mode.skip_bootloader (entries partlist)) := by
  obtain ⟨hsame, -, hbytes⟩ := hpass.boot hfills
  obtain ⟨partlist', hlist', -, hval⟩ := partial_space_spec.mp hneed
  rw [hlist] at hlist'
  injection hlist' with hlist'
  subst hlist'
  have hsum : sum_mb (install_opts opts) (entries partlist) = sum_mb opts (entries partlist) :=
    (sum_mb_congr fun n _ hc => install_len (counted_ne hc).2).1
  rw [hfills.asked_eq hsame, hsum] at hlt ⊢
  generalize sum_mb opts (entries partlist) = sum at hval hlt ⊢
  generalize positive_mb (install_opts opts) (cstr "bootloader") = mib at hbytes hlt ⊢
  cases mode with
  | wipe_disk =>
    rw [bootloaders] at hlt ⊢
    rw [InstallMode.BootBytes] at hbytes
    rw [hbytes] at hval
    have hneeded : needed.toNat = (sum + 2 * mib) * 2 ^ 20 := by
      omega
    rw [to_mib_toNat (by omega), hneeded]
    omega
  | dual_boot esp_size =>
    rw [bootloaders] at hlt ⊢
    obtain ⟨rfl, hfits, hmib⟩ := hbytes
    -- rounding up the sum is rounding up the size of the system partition
    have hneeded : needed.toNat = sum * 2 ^ 20 + bootloader_size.toNat := by
      omega
    rw [to_mib_toNat (by omega), hneeded]
    omega

end Lengths

/-! ## Tilings -/

section Tiles

variable [Platform] {g g' : Gpt} {opts opts' : Hashmap} {names : List CStr} {n : CStr}
  {k : UInt32} {x y : ℕ}

/-- The entry made for a partition: in use under the index its option says, in a slot that
was free. -/
structure NewAt (g g' : Gpt) (opts' : Hashmap) (n : CStr) (i : UInt32) : Prop where
  index : opts' (partition_key n "index") = some (decInt i.toInt32.toInt)
  inUse : g'.InUse i
  new : ¬ g.InUse i

/-- The LBAs of an entry. -/
def GptEntry.lbas (e : GptEntry) : ℕ := e.last_lba.toNat + 1 - e.first_lba.toNat

/-- The partitions of a list lie one behind the other from LBA `x` up to LBA `y`, in slots
behind `k` that are in the order of the list. None is empty, and one with a positive length
has that many MiB. -/
inductive Tiled (g g' : Gpt) (opts opts' : Hashmap) : UInt32 → List CStr → ℕ → ℕ → Prop
  | nil (k : UInt32) (x : ℕ) : Tiled g g' opts opts' k [] x x
  | cons {k i : UInt32} {n : CStr} {names : List CStr} {x y : ℕ} (hk : k < i)
      (hnew : NewAt g g' opts' n i) (hfirst : (g'.entry i).first_lba.toNat = x)
      (hle : x ≤ (g'.entry i).last_lba.toNat)
      (hlen : 0 < len_of opts n →
        (g'.entry i).lbas = (len_of opts n).toUInt64.toNat * mib_lbas g)
      (hrest : Tiled g g' opts opts' i names ((g'.entry i).last_lba.toNat + 1) y) :
      Tiled g g' opts opts' k (n :: names) x y

/-- The second boot loader is as long as the first, or as the EFI system partition in whole
MiB. -/
def InstallMode.SameLength (g g' : Gpt) (opts' : Hashmap) : InstallMode → Prop
  | wipe_disk => ∃ i j, NewAt g g' opts' (cstr "bootloader") i ∧
      NewAt g g' opts' (cstr "bootloader2") j ∧ (g'.entry i).lbas = (g'.entry j).lbas
  | dual_boot esp_size => ∃ j, NewAt g g' opts' (cstr "bootloader2") j ∧
      (g'.entry j).lbas = (esp_size.toNat + (2 ^ 20 - 1)) / 2 ^ 20 * mib_lbas g

/-- The new partitions tile the whole MiB of the region from `s` to `e`. -/
structure Tiles (mode : InstallMode) (g g' : Gpt) (s e : UInt64) (opts opts' : Hashmap)
    (names : List CStr) : Prop where
  tiled : Tiled g g' (install_opts opts) opts' 0 names (start_mb g s * mib_lbas g)
    (end_mb g e * mib_lbas g)
  bootloader2 : mode.SameLength g g' opts'

/-- There is room for every length between the two ends. -/
theorem Tiled.asked_le (h : Tiled g g' opts opts' k names x y) :
    x + asked_mb opts names * mib_lbas g ≤ y := by
  induction h with
  | nil k x =>
    rw [asked_mb, List.map_nil, List.sum_nil, Nat.zero_mul]
    exact Nat.le_refl _
  | @cons k i n names x y _ _ hfirst hle hlen _ ih =>
    rw [asked_mb_cons, Nat.add_mul]
    refine Nat.le_trans ?_ ih
    have hthis : x + positive_mb opts n * mib_lbas g ≤ (g'.entry i).last_lba.toNat + 1 := by
      unfold positive_mb
      split_ifs with hpos
      · have hlbas := hlen hpos
        rw [GptEntry.lbas, hfirst] at hlbas
        omega
      · omega
    omega

/-- The last partition of a tiling ends where the tiling does. -/
theorem Tiled.ends (h : Tiled g g' opts opts' k names x y) (hne : names ≠ []) :
    ∃ i, g'.InUse i ∧ ¬ g.InUse i ∧ (g'.entry i).last_lba.toNat + 1 = y := by
  induction h with
  | nil => exact absurd rfl hne
  | @cons k i n names x y _ hnew _ _ _ hrest ih =>
    by_cases hnil : names = []
    · subst hnil
      cases hrest
      exact ⟨i, hnew.inUse, hnew.new, rfl⟩
    · exact ih hnil

/-- A tiling does not start at LBA 0: what does is not in use. -/
theorem Tiled.start_ne (h : Tiled g g' opts opts' k names x y) (hne : names ≠ []) : x ≠ 0 := by
  cases h with
  | nil => exact absurd rfl hne
  | cons _ hnew hfirst _ _ _ =>
    rw [← hfirst]
    intro h0
    exact hnew.inUse.2 (UInt64.toNat_inj.mp h0)

/-- The entry of a partition with a positive length. -/
theorem Tiled.lookup (h : Tiled g g' opts opts' k names x y) (hn : n ∈ names)
    (hpos : 0 < len_of opts n) :
    ∃ i, NewAt g g' opts' n i ∧ (g'.entry i).lbas = positive_mb opts n * mib_lbas g := by
  induction h with
  | nil => exact absurd hn List.not_mem_nil
  | @cons k i m names x y _ hnew _ _ hlen _ ih =>
    rcases List.mem_cons.mp hn with rfl | hn
    · exact ⟨i, hnew, by rw [positive_mb, if_pos hpos]; exact hlen hpos⟩
    · exact ih hn

end Tiles

/-! ## A run of the callback -/

section Runs

variable [Platform] {g : Gpt} {mc₀ mc mc' : MkpartCtx} {list : List CStr} {n : CStr} {len : Int64}
  {i k : UInt32} {en : GptEntry} {x : ℕ}

/-- Slots are handed out in order, as long as what is put there counts as in use. -/
theorem Made.slot_lt (hmap : mc.gpt.Mapped) (h : Made n mc mc' len i en) (hi : mc'.gpt.InUse i)
    {j : UInt32} (hj : mc'.gpt.firstFree = some j) : i < j := by
  obtain ⟨hidx, hfree⟩ := firstFree_spec hj
  have hkept := h.kept hmap
  have hfree' : ¬ mc.gpt.InUse j := by
    intro huse
    exact hfree (hkept.keeps j huse).1
  have hidx' : mc.gpt.Index j := by
    rw [Gpt.Index, ← hkept.header]
    exact hidx
  have hle := (isLeast_firstFree h.slot).2 ⟨hidx', hfree'⟩
  have hne : i ≠ j := by
    rintro rfl
    exact hfree hi
  rw [UInt32.le_iff_toNat_le] at hle
  rw [UInt32.lt_iff_toNat_lt]
  exact Nat.lt_of_le_of_ne hle fun heq => hne (UInt32.toNat_inj.mp heq)

/-- An option that is not about a partition that is made stays what it is. -/
theorem Run.other_key (h : Run Mkpart list mc mc') (hst : Steady mc₀ mc) {key : CStr}
    (hkey : ∀ n ∈ made_names mc₀.skip_bootloader list,
      key ≠ partition_key n "index" ∧ key ≠ partition_key n "device") :
    mc'.opts key = mc.opts key := by
  induction h with
  | nil mc => rfl
  | @cons n list mc₁ mc₂ mc₃ hstep _ ih =>
    rcases hstep with ⟨hskip, rfl⟩ | ⟨len, i, en, hmade⟩
    · rw [hst.names hskip] at hkey
      exact ih hst hkey
    · rw [hmade.names hst] at hkey
      obtain ⟨hindex, hdevice⟩ := hkey n List.mem_cons_self
      exact (ih (hmade.steady hst) fun m hm => hkey m (List.mem_cons_of_mem _ hm)).trans
        (hmade.opts key hindex hdevice)

/-- So does the index of a partition that is not in the list. -/
theorem Run.index_key (h : Run Mkpart list mc mc') (hn : n ∉ list) :
    mc'.opts (partition_key n "index") = mc.opts (partition_key n "index") := by
  refine h.other_key (.refl mc) fun m hm => ⟨fun heq => ?_, fun heq => ?_⟩
  · have hmem := (mem_made_names.mp hm).1
    rw [← (partition_key_inj (by decide) (by decide) heq).1] at hmem
    exact hn hmem
  · exact absurd (partition_key_inj (by decide) (by decide) heq).2 (by decide)

/-- **A run that stays below `2 ^ 64` bytes tiles** what it lays out. -/
theorem Run.tiled (h : Run Mkpart list mc mc') (hdvd : g.lba_size.toNat ∣ 2 ^ 20)
    (hk : Kept g mc.gpt) (hst : Steady mc₀ mc) (hnext : mc.next_mb.toNat % 2 ^ 44 = x) (hx : 0 < x)
    (hslots : ∀ j, mc.gpt.firstFree = some j → k < j) (hnodup : list.Nodup)
    (hpos : ∀ n ∈ made_names mc₀.skip_bootloader list, 0 < size_mb mc₀ n)
    (hlen : ∀ n ∈ made_names mc₀.skip_bootloader list, 0 < len_of mc₀.opts n →
      size_mb mc₀ n = (len_of mc₀.opts n).toUInt64.toNat)
    (hlt : x + total_mb mc₀ list < 2 ^ 44) :
    Tiled g mc'.gpt mc₀.opts mc'.opts k (made_names mc₀.skip_bootloader list) (x * mib_lbas g)
      ((x + total_mb mc₀ list) * mib_lbas g) := by
  have hmib : 0 < mib_lbas g := Nat.div_pos (Nat.le_of_dvd (by decide) hdvd)
    (Nat.pos_of_dvd_of_pos hdvd (by decide))
  induction h generalizing x k with
  | nil mc => exact .nil k _
  | @cons n list mc₁ mc₂ mc₃ hstep hrest ih =>
    obtain ⟨hnlist, hnodup⟩ := List.nodup_cons.mp hnodup
    rcases hstep with ⟨hskip, rfl⟩ | ⟨len, i, en, hmade⟩
    · have hnames := hst.names hskip list
      rw [total_mb, hnames] at hlt ⊢
      rw [hnames] at hpos hlen
      exact ih hk hst hnext hx hslots hnodup hpos hlen hlt
    · have hnames := hmade.names hst list
      rw [hmade.total hst, ← Nat.add_assoc] at hlt ⊢
      rw [hnames] at hpos hlen ⊢
      obtain ⟨hsp, hnext'⟩ := hmade.spans_of_lt hdvd hk hst hnext hx (by omega)
      have hsize := hpos n List.mem_cons_self
      obtain ⟨hidx, hfree, hself, -⟩ := hmade.new hk.mapped
      have hk₂ := hk.trans (hmade.kept hk.mapped)
      have huse := hmade.inUse hk.mapped (hsp.first.symm ▸ Nat.mul_pos hx hmib)
      obtain ⟨huse', hsame⟩ := (hrest.kept hk₂.mapped).keeps i huse
      have hthis : mc₃.gpt.entry i = en := hsame.trans hself
      have htail := ih hk₂ (hmade.steady hst) hnext' (Nat.add_pos_left hx _)
        (fun j hj => hmade.slot_lt hk.mapped huse hj) hnodup
        (fun m hm => hpos m (List.mem_cons_of_mem _ hm))
        (fun m hm => hlen m (List.mem_cons_of_mem _ hm)) hlt
      -- what comes after neither moves the entry nor takes its index
      refine .cons (hslots i hmade.slot) ⟨?_, huse', fun hg => hfree (hk.keeps i hg).1⟩ ?_ ?_ ?_ ?_
      · rw [hrest.index_key hnlist]
        exact hmade.index
      · rw [hthis, hsp.first]
      · rw [hthis]
        have hlast := hsp.last
        have hgrow : x * mib_lbas g < (x + size_mb mc₀ n) * mib_lbas g :=
          Nat.mul_lt_mul_of_pos_right (by omega) hmib
        omega
      · intro hl
        rw [hthis, GptEntry.lbas, hsp.first, hsp.last, Nat.add_mul, Nat.add_sub_cancel_left,
          hlen n List.mem_cons_self hl]
      · rw [hthis, hsp.last]
        exact htail

/-- The other way round: whatever is new after a run ends, in 64 bits, with a MiB below
`2 ^ 44`. -/
theorem Run.ends (h : Run Mkpart list mc mc') (hdvd : g.lba_size.toNat ∣ 2 ^ 20)
    (hk : Kept g mc.gpt) {j : UInt32} (hj : mc'.gpt.InUse j) (hnew : ¬ mc.gpt.InUse j) :
    ∃ z < 2 ^ 44, ((mc'.gpt.entry j).last_lba.toNat + 1) % 2 ^ 64 = z * mib_lbas g % 2 ^ 64 := by
  induction h with
  | nil mc => exact absurd hj hnew
  | @cons n list mc₁ mc₂ mc₃ hstep hrest ih =>
    rcases hstep with ⟨-, rfl⟩ | ⟨len, i, en, hmade⟩
    · exact ih hk hj hnew
    · have hk₂ := hk.trans (hmade.kept hk.mapped)
      by_cases huse : mc₂.gpt.InUse j
      · obtain ⟨-, -, hself, hold⟩ := hmade.new hk.mapped
        rcases hold j huse with rfl | ⟨hj', -⟩
        · have hlast := (hmade.lbas (by rw [hk.lba_size]; exact hdvd)).2.2
          rw [((hrest.kept hk₂.mapped).keeps j huse).2, hself, hlast, mib_lbas_kept hk]
          exact ⟨_, Nat.mod_lt _ (by decide), rfl⟩
        · exact absurd hj' hnew
      · exact ih hk₂ hj huse

end Runs

/-! ## When the region is tiled -/

section Exact

variable {opts : Hashmap} {list names : List CStr} {fill n : CStr}

/-- No partition asks for more than all do. -/
theorem positive_mb_le (hn : n ∈ names) : positive_mb opts n ≤ asked_mb opts names :=
  List.le_sum_of_mem (List.mem_map_of_mem hn)

/-- What is made besides the partition that fills the region has its length. -/
theorem OneFills.made_mb_eq (h : OneFills opts list fill) (hn : n ∈ list) (hne : n ≠ fill)
    (hlt : positive_mb opts n < 2 ^ 44) (left : ℕ) : made_mb opts left n = positive_mb opts n := by
  have hpos := h.positive n hn hne
  have hneg : ¬ len_of opts n < 0 := fun hlt => Int64.lt_irrefl (Int64.lt_trans hlt hpos)
  rw [positive_mb, if_pos hpos] at hlt ⊢
  rw [made_mb, if_neg hneg]
  exact Nat.mod_eq_of_lt hlt

/-- Together they get what is left and what they ask for. -/
theorem OneFills.total_eq (h : OneFills opts list fill) (hsub : ∀ n ∈ names, n ∈ list)
    (hnodup : names.Nodup) (hmem : fill ∈ names) (hlt : asked_mb opts names < 2 ^ 44) (left : ℕ) :
    (names.map (made_mb opts left)).sum = left + asked_mb opts names := by
  have hfill : made_mb opts left fill = left := by
    rw [made_mb, if_pos h.negative]
  have hzero : positive_mb opts fill = 0 := by
    rw [positive_mb, if_neg fun hpos => Int64.lt_irrefl (Int64.lt_trans h.negative hpos)]
  have hperm := List.perm_cons_erase hmem
  rw [asked_mb, (hperm.map (made_mb opts left)).sum_eq, (hperm.map (positive_mb opts)).sum_eq,
    List.map_cons, List.map_cons, List.sum_cons, List.sum_cons, hfill, hzero, Nat.zero_add]
  congr 2
  refine List.map_congr_left fun n hn => ?_
  obtain ⟨hne, hn⟩ := hnodup.mem_erase_iff.mp hn
  exact h.made_mb_eq (hsub n hn) hne (Nat.lt_of_le_of_lt (positive_mb_le hn) hlt) left

variable [Platform] {mode : InstallMode} {g g' : Gpt} {s e bootloader_size : UInt64}
  {partlist : CStr} {opts' : Hashmap} {urandom urandom' : Urandom} {k : UInt32} {x y : ℕ}

/-- In a tiling the boot loaders have the lengths they should have. -/
theorem Tiled.sameLength
    (h : Tiled g g' (install_opts opts) opts' k (made_names mode.skip_bootloader list) x y)
    (hpass : mode.Passes opts bootloader_size) (hfills : OneFills (install_opts opts) list fill) :
    mode.SameLength g g' opts' := by
  obtain ⟨hsame, hpos, hbytes⟩ := hpass.boot hfills
  have hmem2 : cstr "bootloader2" ∈ made_names mode.skip_bootloader list :=
    mem_made_names.mpr ⟨hfills.bootloader2, fun hno => absurd hno.2 (by decide)⟩
  have hmib : positive_mb (install_opts opts) (cstr "bootloader2")
      = positive_mb (install_opts opts) (cstr "bootloader") := by
    rw [positive_mb, positive_mb, hsame]
  obtain ⟨j, hj, hlbas⟩ := h.lookup hmem2 (hsame ▸ hpos)
  rw [hmib] at hlbas
  cases mode with
  | wipe_disk =>
    have hmem : cstr "bootloader" ∈ made_names false list :=
      mem_made_names.mpr ⟨hfills.bootloader, fun hno => absurd hno.1 (by decide)⟩
    obtain ⟨i, hi, hlbas'⟩ := h.lookup hmem hpos
    exact ⟨i, j, hi, hj, hlbas'.trans hlbas.symm⟩
  | dual_boot esp_size =>
    obtain ⟨-, -, hesp⟩ := hbytes
    exact ⟨j, hj, by rw [hlbas, hesp]⟩

/-- **When the new partitions tile the region**: the region does not start at LBA 0, and
neither its end nor the lengths that are asked for are `2 ^ 64` bytes or more. -/
theorem tiles_iff [Qsort] (hmap : g.Mapped) (hdvd : g.lba_size.toNat ∣ 2 ^ 20)
    (hpass : mode.Passes opts bootloader_size) (hlist : opts BASE_PTN_LIST = some partlist)
    (hfills : OneFills (install_opts opts) (entries partlist) fill)
    (hfind : gpt_find_contiguous_free_space (ε := Die) g = .ret (some (s, e)))
    (hwhole : start_mb g s ≤ end_mb g e)
    (h : create_android_partitions bootloader_size partlist g mode.skip_bootloader opts urandom
      = .ret (g', opts', urandom')) :
    Tiles mode g g' s e opts opts' (made_names mode.skip_bootloader (entries partlist)) ↔
      s ≠ 0 ∧ (e.toNat + 1) * g.lba_size.toNat < 2 ^ 64 ∧
        asked_mb (install_opts opts) (made_names mode.skip_bootloader (entries partlist)) * 2 ^ 20
          < 2 ^ 64 := by
  obtain ⟨needed, mc, mc', hneed, hst, hrun, rfl, rfl⟩ := create_run hmap hfind h
  have hL : 0 < g.lba_size.toNat := Nat.pos_of_dvd_of_pos hdvd (by decide)
  have hmul : mib_lbas g * g.lba_size.toNat = 2 ^ 20 := Nat.div_mul_cancel hdvd
  have hmib : 0 < mib_lbas g := Nat.div_pos (Nat.le_of_dvd (by decide) hdvd) hL
  have hkept : Kept g mc.gpt := by
    rw [hst.gpt]
    exact .refl hmap
  have hmem2 : cstr "bootloader2" ∈ made_names mode.skip_bootloader (entries partlist) :=
    mem_made_names.mpr ⟨hfills.bootloader2, fun hno => absurd hno.2 (by decide)⟩
  have hbytes : (e.toNat + 1) * g.lba_size.toNat < 2 ^ 64 ↔ end_mb g e < 2 ^ 44 := by
    rw [end_mb]
    omega
  rw [hbytes]
  constructor
  · rintro ⟨htiled, -⟩
    have hne := List.ne_nil_of_mem hmem2
    -- the last partition made is where the code has put it, and that is below `2 ^ 64` bytes
    have hend : end_mb g e < 2 ^ 44 := by
      obtain ⟨j, hj, hnew, hlast⟩ := htiled.ends hne
      rw [← hst.gpt] at hnew
      obtain ⟨z, hz, hmod⟩ := hrun.ends hdvd hkept hj hnew
      obtain ⟨p, -, hgap, -, hp⟩ := find_spec hfind
      have hp64 := hgap.2
      have hle : end_mb g e * mib_lbas g ≤ e.toNat + 1 := by
        refine Nat.le_of_mul_le_mul_right ?_ hL
        rw [Nat.mul_assoc, hmul, end_mb]
        exact Nat.div_mul_le_self _ _
      have hzlt : z * mib_lbas g < 2 ^ 64 := by
        have hle : z * mib_lbas g ≤ z * 2 ^ 20 := Nat.mul_le_mul_left _ (Nat.div_le_self _ _)
        omega
      rw [hlast, Nat.mod_eq_of_lt (by omega), Nat.mod_eq_of_lt hzlt] at hmod
      rw [Nat.eq_of_mul_eq_mul_right hmib hmod]
      exact hz
    have hasked := htiled.asked_le
    rw [← Nat.add_mul] at hasked
    have hasked := Nat.le_of_mul_le_mul_right hasked hmib
    refine ⟨?_, hend, by omega⟩
    rintro rfl
    refine htiled.start_ne hne ?_
    rw [start_mb, UInt64.toNat_zero, Nat.zero_mul]
    exact Nat.zero_mul _
  · rintro ⟨hs, hend, hasked⟩
    have hstart : 0 < start_mb g s := by
      have hpos : 0 < s.toNat * g.lba_size.toNat :=
        Nat.mul_pos (Nat.pos_of_ne_zero fun h0 => hs (UInt64.toNat_inj.mp h0)) hL
      rw [start_mb]
      omega
    have hneeded := to_mib_needed hpass hlist hfills hneed hasked
    obtain ⟨hroom, -⟩ := hst.fill_eq hL hend hwhole
    have hsize := hst.size_eq hL hend hwhole
    have hlt : asked_mb (install_opts opts) (made_names mode.skip_bootloader (entries partlist))
        < 2 ^ 44 := by
      omega
    obtain ⟨hsame, -, -⟩ := hpass.boot hfills
    have hmade : fill ∈ made_names mode.skip_bootloader (entries partlist) :=
      mem_made_names.mpr ⟨hfills.fill_mem, fun hno => (hfills.fill_ne hsame).1 hno.2⟩
    -- together the partitions are as long as the region
    have htotal : start_mb g s + total_mb mc (entries partlist) = end_mb g e := by
      rw [total_mb, hst.skip, hsize, hfills.total_eq (fun n hn => (mem_made_names.mp hn).1)
        (hfills.nodup.filter _) hmade hlt, fill_mb]
      omega
    have hnot_neg : ∀ n, 0 < len_of (install_opts opts) n → n ≠ fill := by
      rintro n hpos rfl
      exact Int64.lt_irrefl (Int64.lt_trans hfills.negative hpos)
    have hlen : ∀ n ∈ made_names mode.skip_bootloader (entries partlist),
        0 < len_of (install_opts opts) n →
        size_mb mc n = (len_of (install_opts opts) n).toUInt64.toNat := by
      intro n hn hpos
      rw [hsize, hfills.made_mb_eq (mem_made_names.mp hn).1 (hnot_neg n hpos)
        (Nat.lt_of_le_of_lt (positive_mb_le hn) hlt), positive_mb, if_pos hpos]
    have hpos : ∀ n ∈ made_names mode.skip_bootloader (entries partlist), 0 < size_mb mc n := by
      intro n hn
      by_cases hfill : n = fill
      · rw [hsize, made_mb, hfill, if_pos hfills.negative, fill_mb]
        omega
      · have hp := hfills.positive n (mem_made_names.mp hn).1 hfill
        have hint := Int64.lt_iff_toInt_lt.mp hp
        rw [Int64.toInt_zero] at hint
        obtain ⟨hnat, -⟩ := toNat_toUInt64_of_nonneg (Int.le_of_lt hint)
        rw [hlen n hn hp]
        omega
    have htiled : Tiled g mc'.gpt (install_opts opts) mc'.opts 0
        (made_names mode.skip_bootloader (entries partlist)) (start_mb g s * mib_lbas g)
        (end_mb g e * mib_lbas g) := by
      rw [← htotal, ← hst.opts, ← hst.skip]
      refine hrun.tiled hdvd hkept (.refl mc) (hst.next_eq (Nat.lt_of_le_of_lt hwhole hend)) hstart
        ?_ hfills.nodup (hst.skip ▸ hpos) (hst.opts ▸ hst.skip ▸ hlen) (htotal ▸ hend)
      intro j hj
      rw [UInt32.lt_iff_toNat_lt]
      exact Nat.pos_of_ne_zero fun h0 => (firstFree_spec hj).1.1 (UInt32.toNat_inj.mp h0)
    exact ⟨htiled, htiled.sameLength hpass hfills⟩

end Exact

/-! ### A length of 2⁴⁴ MiB -/

section Overflow

attribute [local instance] x86 insertionQsort

def tile_list : CStr := cstr "bootloader bootloader2 system data"

/-- Next to an EFI system partition of 1 MiB: a system partition, and data in what is left. -/
def tile_opts (system : CStr) : Hashmap := fun key =>
  if key = BASE_PTN_LIST then some tile_list
  else if key = partition_key (cstr "bootloader") "len" then some (cstr "1")
  else if key = partition_key (cstr "system") "len" then some system
  else if key = partition_key (cstr "data") "len" then some (cstr "-1")
  else none

def tile_install (system : CStr) : Exec Die (Gpt × Hashmap × Urandom) :=
  create_android_partitions 1048576 tile_list esp_gpt true (tile_opts system) zeros

/-- An installation that returns has a table. -/
theorem tile_install_ret (system : CStr)
    (hrun : (tile_install system).returns (fun _ => true) = true) :
    ∃ g' opts' urandom', tile_install system = .ret (g', opts', urandom') := by
  obtain ⟨⟨g', opts', urandom'⟩, hret, -⟩ := Exec.exists_of_returns hrun
  exact ⟨g', opts', urandom', hret⟩

theorem esp_mapped : esp_gpt.Mapped :=
  (gpt_read_sound esp_read).1.toLaid.mapped
    ((GptHeader.inBounds_iff (by decide +kernel)).mpr (.inr (by decide +kernel)))

theorem esp_find : gpt_find_contiguous_free_space (ε := Die) esp_gpt = .ret (some (4096, 999965)) := by
  decide +kernel

/-- The lengths of the example pass the check. -/
theorem tile_passes (system : CStr) :
    (InstallMode.dual_boot 1048576).Passes (tile_opts system) 1048576 := by
  refine ⟨?_, rfl⟩
  unfold tile_opts
  rw [if_neg (by decide +kernel), if_pos rfl]
  decide

/-- What the theorem says with two MiB for one of the partitions. -/
theorem tiles_two : ∃ g' opts' urandom', tile_install (cstr "2") = .ret (g', opts', urandom') ∧
    (Tiles (.dual_boot 1048576) esp_gpt g' 4096 999965 (tile_opts (cstr "2")) opts'
        (made_names true (entries tile_list)) ↔
      (4096 : UInt64) ≠ 0 ∧ ((999965 : UInt64).toNat + 1) * esp_gpt.lba_size.toNat < 2 ^ 64 ∧
        asked_mb (install_opts (tile_opts (cstr "2"))) (made_names true (entries tile_list)) * 2 ^ 20
          < 2 ^ 64) := by
  obtain ⟨g', opts', urandom', hret⟩ := tile_install_ret (cstr "2") (by decide +kernel)
  have hfills : OneFills (install_opts (tile_opts (cstr "2"))) (entries tile_list) (cstr "data") :=
    ⟨by decide +kernel, by decide +kernel, by decide +kernel, by decide +kernel, by decide +kernel,
      by decide +kernel, by decide +kernel⟩
  exact ⟨g', opts', urandom', hret, tiles_iff esp_mapped (by decide)
    (tile_passes _) (by decide +kernel) hfills esp_find (by decide +kernel) hret⟩

/-- **A partition that is asked for 2⁴⁴ MiB is made with none**, on a disk of 488 MiB. -/
theorem overflow_not_tiles :
    esp_gpt.Mapped ∧ esp_gpt.lba_size.toNat ∣ 2 ^ 20 ∧
      (InstallMode.dual_boot 1048576).Passes (tile_opts (cstr "17592186044416")) 1048576 ∧
      OneFills (install_opts (tile_opts (cstr "17592186044416"))) (entries tile_list) (cstr "data") ∧
      gpt_find_contiguous_free_space (ε := Die) esp_gpt = .ret (some (4096, 999965)) ∧
      start_mb esp_gpt 4096 ≤ end_mb esp_gpt 999965 ∧
      ∃ g' opts' urandom', tile_install (cstr "17592186044416") = .ret (g', opts', urandom') ∧
        ¬ Tiles (.dual_boot 1048576) esp_gpt g' 4096 999965 (tile_opts (cstr "17592186044416")) opts'
          (made_names true (entries tile_list)) := by
  obtain ⟨g', opts', urandom', hret⟩ := tile_install_ret (cstr "17592186044416") (by decide +kernel)
  have hfills : OneFills (install_opts (tile_opts (cstr "17592186044416"))) (entries tile_list)
      (cstr "data") :=
    ⟨by decide +kernel, by decide +kernel, by decide +kernel, by decide +kernel, by decide +kernel,
      by decide +kernel, by decide +kernel⟩
  refine ⟨esp_mapped, by decide, tile_passes _, hfills, esp_find, by decide +kernel, g', opts',
    urandom', hret, fun htiles => ?_⟩
  have hle := htiles.tiled.asked_le
  have hasked : asked_mb (install_opts (tile_opts (cstr "17592186044416")))
      (made_names true (entries tile_list)) = 2 ^ 44 + 1 := by
    decide +kernel
  rw [hasked] at hle
  exact absurd hle (by decide +kernel)

end Overflow

end Iago
