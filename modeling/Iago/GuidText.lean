/-
A GUID is determined by its text.

A loader that is told a GUID compares texts. `gpt_guid_to_string` prints every field in as many
digits as it can need, so the text can be cut into the fields again, and each of them read back.
-/
import Iago.PublishedOptions

set_option autoImplicit false

namespace Iago

/-! ## Digits -/

/-- A printed digit is read back. -/
theorem digit_digitChar {d : ℕ} (hd : d < 16) : digit d.digitChar.toNat.toUInt8 = d := by
  interval_cases d
  all_goals decide

theorem digitsVal_append_singleton (base : ℕ) (ds : List UInt8) (c : UInt8) :
    digitsVal base (ds ++ [c]) = digitsVal base ds * base + digit c := by
  rw [digitsVal, List.foldl_append]
  rfl

/-- What is printed in hexadecimal is read back. -/
theorem digitsVal_toDigits (n : ℕ) :
    digitsVal 16 ((Nat.toDigits 16 n).map fun c => c.toNat.toUInt8) = n := by
  induction n using Nat.strong_induction_on with
  | _ n ih =>
    by_cases hn : n < 16
    · rw [Nat.toDigits_of_lt_base hn, List.map_singleton]
      show 0 * 16 + digit n.digitChar.toNat.toUInt8 = n
      rw [digit_digitChar hn]
      omega
    · rw [Nat.toDigits_of_base_le (by decide) (by omega), List.map_append, List.map_singleton,
        digitsVal_append_singleton, ih (n / 16) (by omega), digit_digitChar (Nat.mod_lt n (by decide))]
      omega

/-- Zeros in front do not count. -/
theorem digitsVal_zeros (k : ℕ) (ds : List UInt8) :
    digitsVal 16 (List.replicate k 48 ++ ds) = digitsVal 16 ds := by
  induction k with
  | zero => rfl
  | succ k ih =>
    rw [List.replicate_succ, List.cons_append]
    exact ih

theorem digitsVal_hex (width n : ℕ) : digitsVal 16 (hex width n) = n := by
  rw [hex, digitsVal_zeros, digitsVal_toDigits]

/-- Two numbers are not printed the same. -/
theorem hex_injective {width n m : ℕ} (h : hex width n = hex width m) : n = m := by
  rw [← digitsVal_hex width n, h, digitsVal_hex]

/-- A number that fits the width is printed in that width. -/
theorem length_hex {width n : ℕ} (hwidth : 0 < width) (hn : n < 16 ^ width) :
    (hex width n).length = width := by
  have hlen := (Nat.length_toDigits_le_iff (b := 16) (by decide) hwidth).mpr hn
  rw [hex, List.length_append, List.length_replicate, List.length_map]
  omega

/-- Bytes, two digits each. -/
theorem flatMap_hex_injective {bs cs : List UInt8}
    (h : (bs.flatMap fun b => hex 2 b.toNat) = cs.flatMap fun b => hex 2 b.toNat) : bs = cs := by
  have hlen (b : UInt8) : (hex 2 b.toNat).length = 2 := length_hex (by decide) b.toNat_lt
  induction bs generalizing cs with
  | nil =>
    cases cs with
    | nil => rfl
    | cons c cs =>
      have hzero := congrArg List.length h
      rw [List.flatMap_cons, List.length_append, hlen] at hzero
      simp only [List.flatMap_nil, List.length_nil] at hzero
      omega
  | cons b bs ih =>
    cases cs with
    | nil =>
      have hzero := congrArg List.length h
      rw [List.flatMap_cons, List.length_append, hlen] at hzero
      simp only [List.flatMap_nil, List.length_nil] at hzero
      omega
    | cons c cs =>
      rw [List.flatMap_cons, List.flatMap_cons] at h
      obtain ⟨hb, hrest⟩ := List.append_inj h (by rw [hlen, hlen])
      rw [UInt8.toNat_inj.mp (hex_injective hb), ih hrest]

/-- **Different GUIDs have different texts.** -/
theorem gpt_guid_to_string_injective {g g' : Guid}
    (h : gpt_guid_to_string g = gpt_guid_to_string g') : g = g' := by
  obtain ⟨d1, d2, d3, d4⟩ := g
  obtain ⟨d1', d2', d3', d4'⟩ := g'
  unfold gpt_guid_to_string at h
  simp only [List.append_assoc] at h
  have h8 (x : UInt32) : (hex 8 x.toNat).length = 8 := length_hex (by decide) x.toNat_lt
  have h4 (x : UInt16) : (hex 4 x.toNat).length = 4 := length_hex (by decide) x.toNat_lt
  have h2 (x : UInt8) : (hex 2 x.toNat).length = 2 := length_hex (by decide) x.toNat_lt
  -- the fields one after the other, each as long as the other's
  obtain ⟨e1, h⟩ := List.append_inj h (by rw [h8, h8])
  obtain ⟨e2, h⟩ := List.append_inj (List.append_cancel_left h) (by rw [h4, h4])
  obtain ⟨e3, h⟩ := List.append_inj (List.append_cancel_left h) (by rw [h4, h4])
  have hlen (v : List.Vector UInt8 8) :
      ((v.toList.take 2).flatMap fun b => hex 2 b.toNat).length = 4 := by
    rw [List.length_flatMap, List.map_congr_left fun b _ => h2 b, List.map_const', List.sum_replicate,
      List.length_take, v.toList_length]
    rfl
  obtain ⟨e4, h⟩ := List.append_inj (List.append_cancel_left h) (by rw [hlen, hlen])
  have e5 := List.append_cancel_left h
  have hd4 : d4 = d4' := by
    refine List.Vector.toList_injective ?_
    rw [← List.take_append_drop 2 d4.toList, flatMap_hex_injective e4, flatMap_hex_injective e5,
      List.take_append_drop]
  rw [UInt32.toNat_inj.mp (hex_injective e1), UInt16.toNat_inj.mp (hex_injective e2),
    UInt16.toNat_inj.mp (hex_injective e3), hd4]

end Iago
