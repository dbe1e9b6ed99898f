/-
How much space an installation asks for, in plain numbers.

`get_partial_space_required` adds up the positive lengths of the partitions, in bytes
and modulo `2 ^ 64`, leaving out every name that starts with `bootloader`: a list of
partitions asks for `sum_mb` MiB and whatever the boot loaders take
(`partial_space_spec`). What it reads are the list and the lengths of the partitions it
counts, so two sets of options that agree on these ask for the same
(`sum_mb_congr`).
-/
import Iago.CreatePartitions

set_option autoImplicit false

namespace Iago

section Space

variable {opts opts' : Hashmap} {list : List CStr} {n : CStr}

/-- The sum leaves out the boot loaders. -/
def Counted (n : CStr) : Prop := n.take 10 ≠ cstr "bootloader"

instance (n : CStr) : Decidable (Counted n) := inferInstanceAs (Decidable (_ ≠ _))

/-- The MiB a partition adds to the sum. -/
def counted_mb (opts : Hashmap) (n : CStr) : ℕ :=
  if Counted n ∧ 0 < len_of opts n then (len_of opts n).toUInt64.toNat else 0

/-- What the partitions of a list ask for, in MiB. -/
def sum_mb (opts : Hashmap) (list : List CStr) : ℕ := (list.map (counted_mb opts)).sum

/-- Every length the sum reads can be read. -/
def LensRead (opts : Hashmap) (list : List CStr) : Prop :=
  ∀ n ∈ list, Counted n → ∃ len, LenIs opts n len

theorem sum_mb_cons : sum_mb opts (n :: list) = counted_mb opts n + sum_mb opts list := by
  rw [sum_mb, List.map_cons, List.sum_cons]
  rfl

/-- One entry of the list. -/
theorem sumsizes_cb_eq (hread : Counted n → ∃ len, LenIs opts n len) (idx : ℕ) (total : UInt64) :
    ∃ total', sumsizes_cb opts n idx total = .ret (true, total') ∧
      total'.toNat = (total.toNat + counted_mb opts n * 2 ^ 20) % 2 ^ 64 := by
  have hself : total.toNat = total.toNat % 2 ^ 64 := (Nat.mod_eq_of_lt total.toNat_lt).symm
  rw [sumsizes_cb, counted_mb]
  by_cases hc : Counted n
  · obtain ⟨len, hlen⟩ := hread hc
    have hof := hlen.len_of
    obtain ⟨s, hs, hret⟩ := hlen
    rw [if_neg hc, hashmapGetPrintf_none.mpr hs, Exec.ret_bind, hret, Exec.ret_bind, hof]
    by_cases hpos : 0 < len
    · rw [if_pos hpos, if_pos ⟨hc, hpos⟩]
      refine ⟨_, rfl, ?_⟩
      rw [UInt64.toNat_add, shiftLeft_mib_toNat]
      omega
    · rw [if_neg hpos, if_neg fun h => hpos h.2]
      exact ⟨_, rfl, by simpa only [Nat.zero_mul, Nat.add_zero] using hself⟩
  · rw [if_pos (not_not.mp hc), if_neg fun h => hc h.1]
    exact ⟨_, rfl, by simpa only [Nat.zero_mul, Nat.add_zero] using hself⟩

/-- The whole list. -/
theorem sumsizes_eq (hread : LensRead opts list) (idx : ℕ) (total : UInt64) :
    ∃ total', iterate (sumsizes_cb opts) list idx total = .ret total' ∧
      total'.toNat = (total.toNat + sum_mb opts list * 2 ^ 20) % 2 ^ 64 := by
  induction list generalizing idx total with
  | nil =>
    refine ⟨total, rfl, ?_⟩
    rw [sum_mb, List.map_nil, List.sum_nil, Nat.zero_mul]
    exact (Nat.mod_eq_of_lt total.toNat_lt).symm
  | cons n list ih =>
    obtain ⟨total₁, hstep, h₁⟩ := sumsizes_cb_eq (hread n List.mem_cons_self) idx total
    obtain ⟨total₂, hrest, h₂⟩ := ih (fun m hm => hread m (List.mem_cons_of_mem _ hm)) (idx + 1)
      total₁
    refine ⟨total₂, ?_, ?_⟩
    · rw [iterate, hstep, Exec.ret_bind]
      exact hrest
    · rw [h₂, h₁, sum_mb_cons, Nat.add_mul]
      omega

/-- A sum that returned has read every length it counts. -/
theorem lensRead_of_ret {idx : ℕ} {total total' : UInt64}
    (h : iterate (sumsizes_cb opts) list idx total = .ret total') : LensRead opts list := by
  induction list generalizing idx total with
  | nil => exact fun n hn => absurd hn List.not_mem_nil
  | cons n list ih =>
    rw [iterate] at h
    obtain ⟨⟨go, total₁⟩, hstep, h⟩ := Exec.bind_eq_ret.mp h
    have hgo : go = true ∧ (Counted n → ∃ len, LenIs opts n len) := by
      rw [sumsizes_cb] at hstep
      -- The length of an entry that is not counted is not looked up.
      by_cases hc : Counted n
      · rw [if_neg hc] at hstep
        obtain ⟨s, hs, hstep⟩ := Exec.bind_eq_ret.mp hstep
        obtain ⟨len, hlen, hstep⟩ := Exec.bind_eq_ret.mp hstep
        refine ⟨?_, fun _ => ⟨len, s, hashmapGetPrintf_none.mp hs, hlen⟩⟩
        split_ifs at hstep
        · injection hstep with hstep
          exact (congrArg Prod.fst hstep).symm
        · injection hstep with hstep
          exact (congrArg Prod.fst hstep).symm
      · rw [if_pos (not_not.mp hc)] at hstep
        injection hstep with hstep
        exact ⟨(congrArg Prod.fst hstep).symm, fun hc' => absurd hc' hc⟩
    obtain ⟨rfl, hthis⟩ := hgo
    intro m hm
    rcases List.mem_cons.mp hm with rfl | hm
    · exact hthis
    · exact ih h m hm

/-- **What `get_partial_space_required` returns.** -/
theorem partial_space_spec {esp_sizes needed : UInt64} :
    get_partial_space_required opts esp_sizes = .ret needed ↔
      ∃ partlist, opts BASE_PTN_LIST = some partlist ∧ LensRead opts (entries partlist) ∧
        needed.toNat = (sum_mb opts (entries partlist) * 2 ^ 20 + esp_sizes.toNat) % 2 ^ 64 := by
  rw [get_partial_space_required]
  constructor
  · intro h
    obtain ⟨partlist, hlist, h⟩ := Exec.bind_eq_ret.mp h
    obtain ⟨total, hloop, h⟩ := Exec.bind_eq_ret.mp h
    injection h with h
    have hread := lensRead_of_ret hloop
    obtain ⟨total', hret, htotal⟩ := sumsizes_eq hread 0 0
    rw [string_list_iterate, hret] at hloop
    injection hloop with hloop
    refine ⟨partlist, hashmapGetPrintf_none.mp hlist, hread, ?_⟩
    rw [← h, ← hloop, UInt64.toNat_add, htotal, UInt64.toNat_zero]
    omega
  · rintro ⟨partlist, hlist, hread, hneed⟩
    obtain ⟨total', hret, htotal⟩ := sumsizes_eq hread 0 0
    rw [hashmapGetPrintf_none.mpr hlist, Exec.ret_bind, string_list_iterate, hret, Exec.ret_bind]
    congr 1
    rw [← UInt64.toNat_inj, UInt64.toNat_add, htotal, hneed, UInt64.toNat_zero]
    omega

/-- Options that agree on the lengths that are counted ask for the same. -/
theorem sum_mb_congr (h : ∀ n ∈ list, Counted n →
      opts' (partition_key n "len") = opts (partition_key n "len")) :
    sum_mb opts' list = sum_mb opts list ∧ (LensRead opts' list ↔ LensRead opts list) := by
  have hlen : ∀ n ∈ list, Counted n → len_of opts' n = len_of opts n ∧
      ∀ len, LenIs opts' n len ↔ LenIs opts n len := by
    intro n hn hc
    rw [len_of, len_of, h n hn hc]
    refine ⟨rfl, fun len => ?_⟩
    rw [LenIs, LenIs, h n hn hc]
  constructor
  · rw [sum_mb, sum_mb]
    congr 1
    refine List.map_congr_left fun n hn => ?_
    rw [counted_mb, counted_mb]
    by_cases hc : Counted n
    · rw [(hlen n hn hc).1]
    · rw [if_neg fun h => hc h.1, if_neg fun h => hc h.1]
  · refine forall_congr' fun n => forall_congr' fun hn => forall_congr' fun hc => ?_
    exact exists_congr (hlen n hn hc).2

end Space

end Iago
