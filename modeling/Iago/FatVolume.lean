/-
FAT file systems, as a driver that mounts one reads it.

The boot sector has the parameters of the volume, and from them follows where everything is:
reserved sectors, the FATs, the root directory (which in a FAT32 volume is a chain of clusters
like any other directory), and the clusters. The kind of FAT is FAT32 if the 16-bit length of
a FAT is 0, and otherwise it goes by the number of clusters. A driver uses no more clusters
than a FAT has entries for.

`Fresh` is what makes a volume an empty file system: the first two entries of every FAT are
set, no cluster is in use but those of the root directory, and there is nothing in the root
directory but a label, if any.

Nothing here is about the program that made the volume. The second half of the file is what
such a program has to know: a FAT that starts with the right bytes and is zeros behind them is
that of an empty file system (`entry_fresh`), and FATs that are long enough for the clusters
that would be there with the shortest of FATs leave room (`fats_leave_room`).
-/
import Iago.Store
import Mathlib.Algebra.Order.Floor.Div
import Mathlib.Tactic.Linarith

set_option autoImplicit false

namespace Iago

namespace Fat

/-! ## Parameters -/

/-- The kinds of FAT. -/
inductive Kind where
  | fat12
  | fat16
  | fat32
  deriving DecidableEq

/-- The bits of an entry. -/
def Kind.bits : Kind → ℕ
  | fat12 => 12
  | fat16 => 16
  | fat32 => 32

/-- The highest number in an entry: the upper four bits of a FAT32 entry do not belong to it. -/
def Kind.all : Kind → ℕ
  | fat12 => 0xfff
  | fat16 => 0xffff
  | fat32 => 0xfffffff

/-- The number in `w` bytes at `off`. -/
def field (s : Store) (off w : ℕ) : ℕ := leVal (s.read off w)

/-- The parameters in a boot sector. -/
structure Params where
  bps : ℕ
  spc : ℕ
  res : ℕ
  nft : ℕ
  rde : ℕ
  sec : ℕ
  mid : ℕ
  spf : ℕ
  spt : ℕ
  hds : ℕ
  hid : ℕ
  bsec : ℕ
  bspf : ℕ
  rdcl : ℕ
  infs : ℕ
  bkbs : ℕ
  deriving DecidableEq

/-- The number in `w` bytes at `off` of a boot sector at `ofs`, if it is that of a FAT32 volume:
one without a 16-bit length of the FATs. -/
def field32 (s : Store) (ofs off w : ℕ) : ℕ :=
  if field s (ofs + 22) 2 = 0 then field s (ofs + off) w else 0

/-- The parameters of the volume whose boot sector is at `ofs`. -/
def params (s : Store) (ofs : ℕ) : Params where
  bps := field s (ofs + 11) 2
  spc := field s (ofs + 13) 1
  res := field s (ofs + 14) 2
  nft := field s (ofs + 16) 1
  rde := field s (ofs + 17) 2
  sec := field s (ofs + 19) 2
  mid := field s (ofs + 21) 1
  spf := field s (ofs + 22) 2
  spt := field s (ofs + 24) 2
  hds := field s (ofs + 26) 2
  hid := field s (ofs + 28) 4
  bsec := field s (ofs + 32) 4
  bspf := field32 s ofs 36 4
  rdcl := field32 s ofs 44 4
  infs := field32 s ofs 48 2
  bkbs := field32 s ofs 50 2

namespace Params

variable (p : Params)

/-- All sectors of the volume. -/
def sectors : ℕ := if p.sec ≠ 0 then p.sec else p.bsec

/-- The sectors of a FAT. -/
def fat_sectors : ℕ := if p.spf ≠ 0 then p.spf else p.bspf

/-- The first sector behind the FATs. -/
def dir : ℕ := p.res + p.fat_sectors * p.nft

/-- The sector of the first cluster. -/
def data : ℕ := p.dir + p.rde * 32 ⌈/⌉ p.bps

/-- The clusters there is room for. -/
def room : ℕ := (p.sectors - p.data) / p.spc

/-- The kind of the FATs. -/
def kind : Kind :=
  if p.spf = 0 then .fat32 else if p.room ≤ 4084 then .fat12 else .fat16

/-- The entries of a FAT. -/
def fat_entries : ℕ := p.fat_sectors * p.bps * 8 / p.kind.bits

/-- The clusters in use, of which the first is number 2. -/
def clusters : ℕ := min p.room (p.fat_entries - 2)

/-- The parameters describe a volume. -/
structure Valid : Prop where
  bps : ∃ k, 9 ≤ k ∧ k ≤ 15 ∧ p.bps = 2 ^ k
  spc : ∃ k, k ≤ 7 ∧ p.spc = 2 ^ k
  res : 0 < p.res
  nft : 0 < p.nft
  mid : 0xf0 ≤ p.mid
  fits : p.data + p.clusters * p.spc ≤ p.sectors
  some : 0 < p.clusters
  root : p.rde = 0 ↔ p.kind = .fat32
  rdcl : p.kind = .fat32 → 2 ≤ p.rdcl ∧ p.rdcl < p.clusters + 2

end Params

/-! ## What is in a volume -/

/-- Entry `n` of the FAT at `off`. -/
def entry (k : Kind) (s : Store) (off n : ℕ) : ℕ :=
  match k with
  | .fat12 =>
    if n % 2 = 0 then field s (off + n / 2 * 3) 2 % 2 ^ 12
    else field s (off + (n / 2 * 3 + 1)) 2 / 2 ^ 4
  | .fat16 => field s (off + n * 2) 2
  | .fat32 => field s (off + n * 4) 4 % 2 ^ 28

namespace Params

variable (p : Params)

/-- Entry `n` of FAT `copy`. -/
def entry (s : Store) (ofs copy n : ℕ) : ℕ :=
  Fat.entry p.kind s (ofs + (p.res + copy * p.fat_sectors) * p.bps) n

/-- The clusters from `c` on, as many as `left` at most, up to the mark of the end. -/
def chain (s : Store) (ofs : ℕ) : (left c : ℕ) → List ℕ
  | 0, _ => []
  | left + 1, c =>
    let next := p.entry s ofs 0 c
    c :: if p.kind.all - 7 ≤ next then [] else chain s ofs left next

/-- The clusters of the root directory. -/
def root_clusters (s : Store) (ofs : ℕ) : List ℕ :=
  if p.kind = .fat32 then p.chain s ofs p.clusters p.rdcl else []

/-- The directory entries in `n` sectors from `sector` on. -/
def slots (s : Store) (ofs sector n : ℕ) : List (List UInt8) :=
  (List.range (n * p.bps / 32)).map fun i => s.read (ofs + sector * p.bps + i * 32) 32

/-- Those of the root directory. -/
def root_slots (s : Store) (ofs : ℕ) : List (List UInt8) :=
  if p.kind = .fat32 then
    (p.root_clusters s ofs).flatMap fun c => p.slots s ofs (p.data + (c - 2) * p.spc) p.spc
  else p.slots s ofs p.dir (p.rde * 32 ⌈/⌉ p.bps)

end Params

/-- What a directory holds: it ends at the first entry that was never used, and the deleted
ones are left out. -/
def listing (slots : List (List UInt8)) : List (List UInt8) :=
  (slots.takeWhile fun e => e.head? ≠ some 0).filter fun e => e.head? ≠ some 0xe5

/-- The name in a directory entry, where 5 stands for the first character of a deleted one. -/
def entry_name (e : List UInt8) : List UInt8 :=
  match e.take 11 with
  | 5 :: rest => 0xe5 :: rest
  | name => name

/-- The attributes. -/
def entry_attr (e : List UInt8) : UInt8 := e.getD 11 0

/-- The entry is a label, and not that of a file or directory. -/
def is_label (e : List UInt8) : Bool := entry_attr e &&& 0x18 = 0x08

/-- **An empty file system**: every FAT has the two entries at its start and nothing else but
the chain of the root directory; and the root directory holds at most a label. -/
structure Fresh (p : Params) (s : Store) (ofs : ℕ) (label : Option (List UInt8)) : Prop where
  media : ∀ copy < p.nft, p.entry s ofs copy 0 = p.kind.all - 0xff + p.mid
  mark : ∀ copy < p.nft, p.entry s ofs copy 1 = p.kind.all
  free : ∀ copy < p.nft, ∀ n, 2 ≤ n → n < p.clusters + 2 →
    n ∉ p.root_clusters s ofs → p.entry s ofs copy n = 0
  chain : ∀ c ∈ p.root_clusters s ofs, ∀ copy < p.nft, p.kind.all - 7 ≤ p.entry s ofs copy c
  root : (listing (p.root_slots s ofs)).map entry_name = label.toList
  labels : ∀ e ∈ listing (p.root_slots s ofs), is_label e = true

/-! ## The bytes of a fresh FAT -/

/-- A field inside a stretch is read from the stretch. -/
theorem field_slice (s : Store) {off n o w : ℕ} (h : o + w ≤ n) :
    field s (off + o) w = leVal (slice (s.read off n) o w) := by
  rw [field, Store.slice_read s h]

/-- The start of a FAT. -/
def head (k : Kind) (mid : UInt8) : List UInt8 :=
  match k with
  | .fat12 => [mid, 0xff, 0xff]
  | .fat16 => [mid, 0xff, 0xff, 0xff]
  | .fat32 => [mid, 0xff, 0xff, 0x0f, 0xff, 0xff, 0xff, 0x0f, 0xff, 0xff, 0xff, 0x0f]

/-- The entries in it. -/
def Kind.set : Kind → ℕ
  | fat12 => 2
  | fat16 => 2
  | fat32 => 3

theorem leVal_replicate_zero (n : ℕ) : leVal (List.replicate n 0) = 0 :=
  leVal_eq_zero.mpr fun _ hb => List.eq_of_mem_replicate hb

/-- Behind a string there are zeros. -/
theorem slice_behind {as : List UInt8} {n o w : ℕ} (ho : as.length ≤ o)
    (h : o + w ≤ as.length + n) : slice (as ++ List.replicate n 0) o w = List.replicate w 0 := by
  rw [slice, List.drop_append, List.drop_of_length_le ho, List.nil_append, List.drop_replicate,
    List.take_replicate]
  congr 1
  omega

/-- And what starts in it comes from it. -/
theorem slice_within {as bs : List UInt8} {o w : ℕ} (h : o + w ≤ as.length) :
    slice (as ++ bs) o w = slice as o w := by
  rw [slice, slice, List.drop_append_of_le_length (by omega),
    List.take_append_of_le_length (by rw [List.length_drop]; omega)]

section FreshFat

variable {s : Store} {off n rest : ℕ} {mid : UInt8} {as : List UInt8}

/-- Behind what a stretch starts with, every field is 0. -/
theorem field_behind (h : s.read off (as.length + rest) = as ++ List.replicate rest 0) {o w : ℕ}
    (ho : as.length ≤ o) (hw : o + w ≤ as.length + rest) : field s (off + o) w = 0 := by
  rw [field_slice s hw, h, slice_behind ho hw, leVal_replicate_zero]

/-- Within it, it is what the start says. -/
theorem field_within (h : s.read off (as.length + rest) = as ++ List.replicate rest 0) {o w : ℕ}
    (hw : o + w ≤ as.length) : field s (off + o) w = leVal (slice as o w) := by
  rw [field_slice s (Nat.le_trans hw (Nat.le_add_right _ rest)), h, slice_within hw]

/-- The entries of a new FAT, at 12 bits. -/
theorem entry_fresh12
    (h : s.read off ((head .fat12 mid).length + rest)
      = head .fat12 mid ++ List.replicate rest 0)
    (hn : (n + 1) * 12 ≤ (3 + rest) * 8) :
    entry .fat12 s off n = if n = 0 then 0xf00 + mid.toNat else if n < 2 then 0xfff else 0 := by
  have hmid : mid.toNat < 256 := mid.toNat_lt
  have hlen : (head .fat12 mid).length = 3 := rfl
  rw [entry]
  by_cases h0 : n = 0
  · subst h0
    rw [if_pos rfl, field_within h (by rw [hlen]; decide), if_pos rfl]
    simp only [head, slice, leVal, List.take, List.drop, Nat.zero_div, Nat.zero_mul]
    change (mid.toNat + 256 * (255 + 256 * 0)) % 4096 = _
    omega
  by_cases h1 : n = 1
  · subst h1
    rw [if_neg (by decide), field_within h (by rw [hlen]), if_neg h0, if_pos (by decide)]
    simp only [head, slice, List.drop]
    rfl
  have h2 : ¬ n < 2 := by omega
  rw [if_neg h0, if_neg h2]
  -- from entry 2 on there are zeros, in either half of a pair
  by_cases heven : n % 2 = 0
  · rw [if_pos heven, field_behind h (by rw [hlen]; omega) (by rw [hlen]; omega), Nat.zero_mod]
  · rw [if_neg heven, field_behind h (by rw [hlen]; omega) (by rw [hlen]; omega), Nat.zero_div]

theorem entry_fresh16
    (h : s.read off ((head .fat16 mid).length + rest)
      = head .fat16 mid ++ List.replicate rest 0)
    (hn : (n + 1) * 16 ≤ (4 + rest) * 8) :
    entry .fat16 s off n = if n = 0 then 0xff00 + mid.toNat else if n < 2 then 0xffff else 0 := by
  have hlen : (head .fat16 mid).length = 4 := rfl
  rw [entry]
  by_cases h0 : n = 0
  · subst h0
    rw [field_within h (by rw [hlen]; decide), if_pos rfl]
    simp only [head, slice, leVal, List.take, List.drop]
    change mid.toNat + 256 * (255 + 256 * 0) = _
    omega
  by_cases h1 : n = 1
  · subst h1
    rw [field_within h (by rw [hlen]), if_neg h0, if_pos (by decide)]
    rfl
  rw [if_neg h0, if_neg (by omega), field_behind h (by rw [hlen]; omega) (by rw [hlen]; omega)]

theorem entry_fresh32
    (h : s.read off ((head .fat32 mid).length + rest)
      = head .fat32 mid ++ List.replicate rest 0)
    (hn : (n + 1) * 32 ≤ (12 + rest) * 8) :
    entry .fat32 s off n
      = if n = 0 then 0xfffff00 + mid.toNat else if n < 3 then 0xfffffff else 0 := by
  have hmid : mid.toNat < 256 := mid.toNat_lt
  have hlen : (head .fat32 mid).length = 12 := rfl
  rw [entry]
  by_cases h0 : n = 0
  · subst h0
    rw [field_within h (by rw [hlen]; decide), if_pos rfl]
    simp only [head, slice, leVal, List.take, List.drop]
    change (mid.toNat + 256 * (255 + 256 * (255 + 256 * (15 + 256 * 0)))) % 268435456 = _
    omega
  by_cases h1 : n = 1
  · subst h1
    rw [field_within h (by rw [hlen]; decide), if_neg h0, if_pos (by decide)]
    rfl
  by_cases h2 : n = 2
  · subst h2
    rw [field_within h (by rw [hlen]), if_neg h0, if_pos (by decide)]
    rfl
  rw [if_neg h0, if_neg (by omega), field_behind h (by rw [hlen]; omega) (by rw [hlen]; omega),
    Nat.zero_mod]

/-- **A FAT of the right start and zeros** has the media descriptor in its first entry, the mark
of the end in the other entries of the start, and no other cluster in use. -/
theorem entry_fresh {k : Kind}
    (h : s.read off ((head k mid).length + rest) = head k mid ++ List.replicate rest 0)
    (hn : (n + 1) * k.bits ≤ ((head k mid).length + rest) * 8) :
    entry k s off n
      = if n = 0 then k.all - 0xff + mid.toNat else if n < k.set then k.all else 0 := by
  cases k with
  | fat12 => exact entry_fresh12 h hn
  | fat16 => exact entry_fresh16 h hn
  | fat32 => exact entry_fresh32 h hn

/-- The same by the length of the FAT. -/
theorem entry_fresh_of_length {k : Kind} {len : ℕ} (hlen : (head k mid).length ≤ len)
    (h : s.read off len = head k mid ++ List.replicate (len - (head k mid).length) 0)
    (hn : (n + 1) * k.bits ≤ len * 8) :
    entry k s off n
      = if n = 0 then k.all - 0xff + mid.toNat else if n < k.set then k.all else 0 := by
  obtain ⟨rest, rfl⟩ := Nat.exists_eq_add_of_le hlen
  rw [Nat.add_sub_cancel_left] at h
  exact entry_fresh h hn

end FreshFat

/-! ## A directory of zeros -/

theorem listing_cons_zero {e : List UInt8} (h : e.head? = some 0) (slots : List (List UInt8)) :
    listing (e :: slots) = [] := by
  rw [listing, List.takeWhile_cons_of_neg (by rw [h]; decide), List.filter_nil]

theorem listing_cons {e : List UInt8} (h0 : e.head? ≠ some 0) (he5 : e.head? ≠ some 0xe5)
    (slots : List (List UInt8)) : listing (e :: slots) = e :: listing slots := by
  rw [listing, List.takeWhile_cons_of_pos (by rw [decide_eq_true_eq]; exact h0),
    List.filter_cons_of_pos (by rw [decide_eq_true_eq]; exact he5), listing]

/-- There is nothing to list in slots of zeros. -/
theorem listing_replicate_zeros (n w : ℕ) :
    listing (List.replicate n (List.replicate (w + 1) 0)) = [] := by
  cases n with
  | zero => rfl
  | succ n => exact listing_cons_zero rfl _

/-- The entries in sectors that start with one and are zeros behind it. -/
theorem slots_zeros {p : Params} {s : Store} {ofs sector n : ℕ} {bs : List UInt8}
    (hlen : bs.length ≤ 32) (hn : 32 ≤ n * p.bps)
    (h : s.read (ofs + sector * p.bps) (n * p.bps)
      = bs ++ List.replicate (n * p.bps - bs.length) 0) :
    p.slots s ofs sector n
      = (bs ++ List.replicate (32 - bs.length) 0)
        :: List.replicate (n * p.bps / 32 - 1) (List.replicate 32 0) := by
  obtain ⟨m, hm⟩ := Nat.exists_eq_succ_of_ne_zero (by omega : n * p.bps / 32 ≠ 0)
  have hsize : (m + 1) * 32 ≤ n * p.bps := by omega
  unfold Params.slots
  rw [hm, List.range_succ_eq_map, List.map_cons, List.map_map]
  congr 1
  · -- the first one ends within the zeros
    rw [Nat.zero_mul, ← Store.slice_read s (n := n * p.bps) (by omega), h, slice, List.drop_zero,
      List.take_append, List.take_of_length_le hlen, List.take_replicate,
      Nat.min_eq_left (by omega)]
  · rw [List.eq_replicate_iff]
    refine ⟨by rw [List.length_map, List.length_range]; rfl, fun e he => ?_⟩
    obtain ⟨i, hi, rfl⟩ := List.mem_map.mp he
    rw [List.mem_range] at hi
    have hle : i.succ * 32 + 32 ≤ n * p.bps := by omega
    change s.read (ofs + sector * p.bps + i.succ * 32) 32 = _
    rw [← Store.slice_read s hle, h, slice_behind (by omega) (by omega)]

/-! ## How long FATs have to be

`M` is the size of a sector and `f` that of an entry, in the same unit, `S` the sectors of a
cluster, `N` the number of FATs and `D` the sectors that are left if a FAT takes one. -/

section Lengths

variable {D M S N f x m : ℕ}

/-- The FATs for `m` clusters, of `x` that there would be room for, leave room. -/
theorem fats_leave_room (hM : 0 < M) (hx : x * (S * M + f * N) ≤ D * M) (hm : m ≤ x)
    (hf : 2 * f ≤ M) (hN : N * (2 * f) ≤ S * M) : ((2 + m) * f ⌈/⌉ M - 1) * N ≤ D := by
  have hceil : (2 + m) * f ⌈/⌉ M ≤ (m * f + 2 * f) / M + 1 := by
    rw [ceilDiv_le_iff_le_mul hM]
    have := Nat.lt_mul_div_succ (m * f + 2 * f) hM
    nlinarith
  by_cases h0 : m = 0
  · -- one sector is enough for the first two entries
    subst h0
    have hone : (2 + 0) * f ⌈/⌉ M ≤ 1 := by
      rw [ceilDiv_le_iff_le_mul hM]
      omega
    rw [Nat.sub_eq_zero_of_le hone, Nat.zero_mul]
    exact Nat.zero_le D
  · have hpos : 1 ≤ m := Nat.one_le_iff_ne_zero.mpr h0
    have hdiv : (m * f + 2 * f) / M * M ≤ m * f + 2 * f := Nat.div_mul_le_self _ _
    have hle : ((2 + m) * f ⌈/⌉ M - 1) * N * M ≤ D * M := by
      calc ((2 + m) * f ⌈/⌉ M - 1) * N * M
          ≤ (m * f + 2 * f) / M * N * M := by
            apply Nat.mul_le_mul_right
            apply Nat.mul_le_mul_right
            exact Nat.sub_le_of_le_add hceil
        _ = N * ((m * f + 2 * f) / M * M) := by ring
        _ ≤ N * (m * f + 2 * f) := Nat.mul_le_mul_left N hdiv
        _ ≤ m * (S * M) + m * (f * N) := by
            have hSM : S * M ≤ m * (S * M) := Nat.le_mul_of_pos_left _ hpos
            have hring : N * (m * f + 2 * f) = N * (2 * f) + m * (f * N) := by ring
            omega
        _ = m * (S * M + f * N) := (Nat.mul_add m _ _).symm
        _ ≤ x * (S * M + f * N) := Nat.mul_le_mul_right _ hm
        _ ≤ D * M := hx
    exact Nat.le_of_mul_le_mul_right hle hM

/-- And the room that they leave is enough for the clusters that they were made for. -/
theorem fats_leave_clusters {q : ℕ} (hx : m * (S * M + f * N) ≤ D * M)
    (hq : (q - 1) * M + 1 ≤ (2 + m) * f) (hf : 2 * f * N < M + N) :
    m * S ≤ D - (q - 1) * N := by
  have hqN : ((q - 1) * M + 1) * N ≤ (2 + m) * f * N := Nat.mul_le_mul_right N hq
  have hlt : (m * S + (q - 1) * N) * M < (D + 1) * M := by
    have hring : ((q - 1) * M + 1) * N = (q - 1) * N * M + N := by ring
    have hring' : (2 + m) * f * N = 2 * f * N + m * (f * N) := by ring
    have hsplit : m * (S * M + f * N) = m * S * M + m * (f * N) := by ring
    have hsum : (m * S + (q - 1) * N) * M = m * S * M + (q - 1) * N * M := Nat.add_mul _ _ _
    have hsucc : (D + 1) * M = D * M + M := Nat.succ_mul D M
    omega
  have := Nat.lt_of_mul_lt_mul_right hlt
  omega

/-- And there is no room for many more clusters than they were made for. -/
theorem room_le (hS : 0 < S) (hx : D * M < (x + 1) * (S * M + f * N)) {q : ℕ}
    (hq : (2 + x) * f ≤ M * q) (hq1 : 0 < q) : (D - (q - 1) * N) / S ≤ x + N := by
  rw [← Nat.lt_succ_iff, Nat.div_lt_iff_lt_mul hS]
  by_cases hD : D ≤ (q - 1) * N
  · rw [Nat.sub_eq_zero_of_le hD]
    exact Nat.mul_pos (Nat.succ_pos _) hS
  · obtain ⟨d, hd⟩ := Nat.exists_eq_add_of_lt (Nat.lt_of_not_le hD)
    obtain ⟨q, rfl⟩ := Nat.exists_eq_succ_of_ne_zero (Nat.ne_of_gt hq1)
    rw [Nat.succ_eq_add_one, Nat.add_sub_cancel] at hd ⊢
    have hsub : D - q * N = d + 1 := by omega
    rw [hsub]
    have hlt : (d + 1) * M < (x + N).succ * S * M := by
      have hfq : (2 + x) * f * N ≤ M * (q + 1) * N := Nat.mul_le_mul_right N hq
      have hSM : M * N ≤ S * M * N := by
        have := Nat.mul_le_mul_right (M * N) hS
        nlinarith
      rw [hd] at hx
      nlinarith
    exact Nat.lt_of_mul_lt_mul_right hlt

end Lengths

end Fat

end Iago
