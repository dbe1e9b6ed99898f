/-
Byte strings: reading and overwriting a stretch of a buffer, numbers as
little-endian strings, and packed records as codecs.

Nothing here is about partition tables. A `Codec` is the layout of one C type
in memory: how many bytes it occupies, how a value is written and how it is read
back, with the two round trips as fields. A packed C struct is then the codec of
its fields one after another (`Codec.pair`), reshaped along an equivalence
(`Codec.map`), and its round trips come with it rather than being proved again
for every struct.
-/
import Mathlib.Data.Vector.Basic
import Mathlib.Logic.Equiv.Defs
import Mathlib.Tactic.Ring

set_option autoImplicit false

namespace Iago

/-! ## A stretch of a buffer -/

/-- The `n` bytes of `bs` from `off` on. -/
def slice (bs : List UInt8) (off n : ℕ) : List UInt8 := (bs.drop off).take n

/-- `bs` with the bytes from `off` on overwritten by `xs`. -/
def splice (bs : List UInt8) (off : ℕ) (xs : List UInt8) : List UInt8 :=
  bs.take off ++ xs ++ bs.drop (off + xs.length)

theorem length_slice {bs : List UInt8} {off n : ℕ} (h : off + n ≤ bs.length) :
    (slice bs off n).length = n := by
  simp only [slice, List.length_take, List.length_drop]
  omega

theorem length_splice {bs xs : List UInt8} {off : ℕ} (h : off + xs.length ≤ bs.length) :
    (splice bs off xs).length = bs.length := by
  simp only [splice, List.length_append, List.length_take, List.length_drop]
  omega

/-- A byte of an overwritten buffer: the new string inside the stretch, the old
buffer outside it. -/
theorem getElem?_splice {bs xs : List UInt8} {off : ℕ} (h : off + xs.length ≤ bs.length) (p : ℕ) :
    (splice bs off xs)[p]? =
      if off ≤ p ∧ p < off + xs.length then xs[p - off]? else bs[p]? := by
  have hlen : (bs.take off).length = off := by
    rw [List.length_take]; omega
  rw [splice, List.append_assoc]
  by_cases h1 : p < off
  · rw [if_neg (by omega), List.getElem?_append_left (by omega), List.getElem?_take_of_lt h1]
  · rw [List.getElem?_append_right (by omega), hlen]
    by_cases h2 : p < off + xs.length
    · rw [if_pos ⟨by omega, h2⟩, List.getElem?_append_left (by omega)]
    · rw [if_neg (by omega), List.getElem?_append_right (by omega), List.getElem?_drop]
      congr 1
      omega

theorem getElem?_slice {bs : List UInt8} {off n p : ℕ} (hp : p < n) :
    (slice bs off n)[p]? = bs[off + p]? := by
  rw [slice, List.getElem?_take_of_lt hp, List.getElem?_drop]

/-- What was written is what is read back. -/
theorem slice_splice_self {bs xs : List UInt8} {off : ℕ} (h : off + xs.length ≤ bs.length) :
    slice (splice bs off xs) off xs.length = xs := by
  have hlen : (bs.take off).length = off := by
    rw [List.length_take]; omega
  rw [slice, splice, List.append_assoc, List.drop_left' hlen, List.take_left' rfl]

/-- A stretch that the overwritten one does not meet is unchanged. -/
theorem slice_splice_of_disjoint {bs xs : List UInt8} {off off' n : ℕ}
    (h : off + xs.length ≤ bs.length)
    (hd : off' + n ≤ off ∨ off + xs.length ≤ off') :
    slice (splice bs off xs) off' n = slice bs off' n := by
  apply List.ext_getElem?
  intro p
  by_cases hp : p < n
  · rw [getElem?_slice hp, getElem?_slice hp, getElem?_splice h, if_neg (by omega)]
  · rw [List.getElem?_eq_none (by simp only [slice, List.length_take]; omega),
      List.getElem?_eq_none (by simp only [slice, List.length_take]; omega)]

/-- Writing back what was read changes nothing. -/
theorem splice_slice {bs : List UInt8} {off n : ℕ} (h : off + n ≤ bs.length) :
    splice bs off (slice bs off n) = bs := by
  apply List.ext_getElem?
  intro p
  rw [getElem?_splice (by rw [length_slice h]; exact h), length_slice h]
  by_cases hp : off ≤ p ∧ p < off + n
  · rw [if_pos hp, getElem?_slice (by omega)]
    congr 1
    omega
  · rw [if_neg hp]

/-- Nor does writing it back behind something new. -/
theorem splice_append_slice {bs xs : List UInt8} {off m n : ℕ} (hxs : xs.length = m)
    (h : off + m + n ≤ bs.length) :
    splice bs off (xs ++ slice bs (off + m) n) = splice bs off xs := by
  have hlen := length_slice h
  apply List.ext_getElem?
  intro p
  rw [getElem?_splice (by rw [List.length_append, hlen]; omega), getElem?_splice (by omega),
    List.length_append, hlen, hxs]
  by_cases hback : off + m ≤ p ∧ p < off + m + n
  · rw [if_pos (by omega), if_neg (by omega), List.getElem?_append_right (by omega),
      getElem?_slice (by omega), hxs]
    congr 1
    omega
  · by_cases hfront : off ≤ p ∧ p < off + m
    · rw [if_pos (by omega), if_pos hfront, List.getElem?_append_left (by omega)]
    · rw [if_neg (by omega), if_neg hfront]

/-- Overwriting a whole buffer leaves the new string. -/
theorem splice_all {bs xs : List UInt8} (h : bs.length = xs.length) : splice bs 0 xs = xs := by
  rw [splice, List.take_zero, List.nil_append, Nat.zero_add, ← h, List.drop_length,
    List.append_nil]

theorem slice_slice {bs : List UInt8} {off n o w : ℕ} (h : o + w ≤ n) :
    slice (slice bs off n) o w = slice bs (off + o) w := by
  rw [slice, slice, slice, List.drop_take, List.take_take, List.drop_drop,
    Nat.min_eq_left (by omega)]

/-- A stretch of a string that is one string up to `k` and another behind it. -/
theorem slice_take_append_drop {bs bs' : List UInt8} {off n k : ℕ} (hlen : bs.length = bs'.length)
    (h : off + n ≤ bs.length) :
    slice (bs.take k ++ bs'.drop k) off n
      = (slice bs off n).take (k - off) ++ (slice bs' off n).drop (k - off) := by
  have h1 := length_slice h
  have h2 := length_slice (hlen ▸ h)
  have htake : (bs.take k).length = min k bs.length := List.length_take
  have hstake : ((slice bs off n).take (k - off)).length = min (k - off) n := by
    rw [List.length_take, h1]
  apply List.ext_getElem?
  intro i
  by_cases hi : i < n
  · rw [getElem?_slice hi]
    by_cases hik : off + i < k
    · rw [List.getElem?_append_left (by omega), List.getElem?_append_left (by omega),
        List.getElem?_take_of_lt hik, List.getElem?_take_of_lt (by omega), getElem?_slice hi]
    · rw [List.getElem?_append_right (by omega), List.getElem?_append_right (by omega), htake,
        hstake, Nat.min_eq_left (by omega), Nat.min_eq_left (by omega), List.getElem?_drop,
        List.getElem?_drop, getElem?_slice (by omega)]
      congr 1
      omega
  · rw [List.getElem?_eq_none (by simp only [slice, List.length_take]; omega),
      List.getElem?_eq_none (by rw [List.length_append, hstake, List.length_drop, h2]; omega)]

/-! ## Numbers as little-endian strings -/

/-- The value of a little-endian byte string. -/
def leVal : List UInt8 → ℕ
  | [] => 0
  | b :: bs => b.toNat + 256 * leVal bs

/-- The `w` low bytes of `n`, least significant first. -/
def leBytes : ℕ → ℕ → List UInt8
  | 0, _ => []
  | w + 1, n => UInt8.ofNat (n % 256) :: leBytes w (n / 256)

@[simp] theorem length_leBytes (w n : ℕ) : (leBytes w n).length = w := by
  induction w generalizing n with
  | zero => rfl
  | succ w ih => simp only [leBytes, List.length_cons, ih]

theorem leVal_lt (bs : List UInt8) : leVal bs < 256 ^ bs.length := by
  induction bs with
  | nil => simp [leVal]
  | cons b bs ih =>
    have hb : b.toNat < 256 := b.toNat_lt
    simp only [leVal, List.length_cons, pow_succ]
    omega

theorem leVal_leBytes (w n : ℕ) : leVal (leBytes w n) = n % 256 ^ w := by
  induction w generalizing n with
  | zero => simp [leBytes, leVal, Nat.mod_one]
  | succ w ih =>
    have hb : (UInt8.ofNat (n % 256)).toNat = n % 256 := by
      simp
    rw [leBytes, leVal, ih, hb, pow_succ, Nat.mul_comm (256 ^ w) 256, Nat.mod_mul]

theorem leBytes_leVal (bs : List UInt8) : leBytes bs.length (leVal bs) = bs := by
  induction bs with
  | nil => rfl
  | cons b bs ih =>
    have hb : b.toNat < 256 := b.toNat_lt
    have h1 : (b.toNat + 256 * leVal bs) % 256 = b.toNat := by omega
    have h2 : (b.toNat + 256 * leVal bs) / 256 = leVal bs := by omega
    simp only [List.length_cons, leBytes, leVal, h1, h2, ih, UInt8.ofNat_toNat]

theorem leVal_eq_zero {bs : List UInt8} : leVal bs = 0 ↔ ∀ b ∈ bs, b = 0 := by
  induction bs with
  | nil => simp [leVal]
  | cons b bs ih =>
    have hb : b.toNat = 0 ↔ b = 0 := by rw [← UInt8.toNat_inj]; rfl
    rw [leVal, Nat.add_eq_zero_iff, hb, Nat.mul_eq_zero, ih]
    simp

/-- Behind its first byte a small number is zeros. -/
theorem tail_of_leVal_lt {bs : List UInt8} (h : leVal bs < 256) : ∀ b ∈ bs.tail, b = 0 := by
  cases bs with
  | nil => simp
  | cons b bs =>
    rw [leVal] at h
    rw [List.tail_cons, ← leVal_eq_zero]
    omega

/-- A string that is one small number up to `k` and another behind it is one of the
two: all that matters is which of them the first byte is from. -/
theorem leVal_take_append_drop {bs bs' : List UInt8} {n : ℕ} (k : ℕ) (h : leVal bs ≤ n)
    (h' : leVal bs' ≤ n) (hn : n < 256) : leVal (bs.take k ++ bs'.drop k) ≤ n := by
  have htail : ∀ b ∈ bs.tail, b = 0 := tail_of_leVal_lt (by omega)
  have htail' : ∀ b ∈ bs'.tail, b = 0 := tail_of_leVal_lt (by omega)
  cases k with
  | zero => simpa using h'
  | succ k =>
    have hdrop : ∀ b ∈ bs'.drop (k + 1), b = 0 := by
      intro b hb
      rw [← List.drop_tail] at hb
      exact htail' b (List.mem_of_mem_drop hb)
    cases bs with
    | nil =>
      rw [List.take_nil, List.nil_append, leVal_eq_zero.mpr hdrop]
      exact Nat.zero_le _
    | cons x bs =>
      have hrest : leVal (bs.take k ++ bs'.drop (k + 1)) = 0 := by
        rw [leVal_eq_zero]
        intro b hb
        rcases List.mem_append.mp hb with hb | hb
        · exact htail b (List.mem_of_mem_take hb)
        · exact hdrop b hb
      rw [List.take_succ_cons, List.cons_append, leVal, hrest]
      rw [leVal] at h
      omega

/-- Reversing the bytes of a number twice gives it back. -/
theorem leVal_reverse_reverse {w n : ℕ} (hn : n < 256 ^ w) :
    leVal (leBytes w (leVal (leBytes w n).reverse)).reverse = n := by
  have hlen : (leBytes w n).reverse.length = w := by
    rw [List.length_reverse, length_leBytes]
  have hback := leBytes_leVal (leBytes w n).reverse
  rw [hlen] at hback
  rw [hback, List.reverse_reverse, leVal_leBytes, Nat.mod_eq_of_lt hn]

theorem leVal_reverse_lt (w n : ℕ) : leVal (leBytes w n).reverse < 256 ^ w := by
  have h := leVal_lt (leBytes w n).reverse
  rwa [List.length_reverse, length_leBytes] at h

/-! ## Codecs -/

/-- How a type is laid out in memory: a fixed number of bytes, written and read
back without loss in either direction. -/
structure Codec (α : Type) where
  width : ℕ
  enc : α → List UInt8
  dec : List UInt8 → α
  length_enc : ∀ a, (enc a).length = width
  dec_enc : ∀ a, dec (enc a) = a
  enc_dec : ∀ bs, bs.length = width → enc (dec bs) = bs

namespace Codec

variable {α β : Type}

/-- What is encoded can be told apart. -/
theorem enc_injective (c : Codec α) : Function.Injective c.enc := by
  intro a b h
  rw [← c.dec_enc a, h, c.dec_enc]

/-- Two fields, one after the other, with no padding between them. -/
def pair (c : Codec α) (d : Codec β) : Codec (α × β) where
  width := c.width + d.width
  enc p := c.enc p.1 ++ d.enc p.2
  dec bs := (c.dec (bs.take c.width), d.dec (bs.drop c.width))
  length_enc p := by rw [List.length_append, c.length_enc, d.length_enc]
  dec_enc p := by
    rw [List.take_left' (c.length_enc _), List.drop_left' (c.length_enc _), c.dec_enc, d.dec_enc]
  enc_dec bs h := by
    rw [c.enc_dec _ (by rw [List.length_take]; omega),
      d.enc_dec _ (by rw [List.length_drop]; omega), List.take_append_drop]

/-- The same bytes read as another type. -/
def map (c : Codec α) (e : α ≃ β) : Codec β where
  width := c.width
  enc b := c.enc (e.symm b)
  dec bs := e (c.dec bs)
  length_enc b := c.length_enc _
  dec_enc b := by rw [c.dec_enc, Equiv.apply_symm_apply]
  enc_dec bs h := by rw [Equiv.symm_apply_apply, c.enc_dec bs h]

/-- A number of `w` bytes, stored in the order `ord` gives to the little-endian
string: `id` for little-endian storage, `List.reverse` for big-endian. -/
def word (w : ℕ) (toNat : α → ℕ) (ofNat : ℕ → α) (ord : List UInt8 → List UInt8)
    (hlt : ∀ a, toNat a < 256 ^ w) (hof : ∀ a, ofNat (toNat a) = a)
    (hto : ∀ n, n < 256 ^ w → toNat (ofNat n) = n)
    (hord : ∀ bs, ord (ord bs) = bs) (hlen : ∀ bs, (ord bs).length = bs.length) : Codec α where
  width := w
  enc a := ord (leBytes w (toNat a))
  dec bs := ofNat (leVal (ord bs))
  length_enc a := by rw [hlen, length_leBytes]
  dec_enc a := by rw [hord, leVal_leBytes, Nat.mod_eq_of_lt (hlt a), hof]
  enc_dec bs h := by
    have hl : (ord bs).length = w := by rw [hlen, h]
    have hv := leVal_lt (ord bs)
    rw [hl] at hv
    have hback := leBytes_leVal (ord bs)
    rw [hl] at hback
    rw [hto _ hv, hback, hord]

/-- A fixed-length array of elements. -/
def vector (c : Codec α) : (n : ℕ) → Codec (List.Vector α n)
  | 0 =>
    { width := 0
      enc := fun _ => []
      dec := fun _ => List.Vector.nil
      length_enc := fun _ => rfl
      dec_enc := fun v => (List.Vector.eq_nil v).symm
      enc_dec := fun _ h => (List.length_eq_zero_iff.mp h).symm }
  | n + 1 =>
    (c.pair (c.vector n)).map
      { toFun := fun p => p.1 ::ᵥ p.2
        invFun := fun v => (v.head, v.tail)
        left_inv := fun p => by simp
        right_inv := fun v => by simp }

@[simp] theorem width_vector (c : Codec α) (n : ℕ) : (c.vector n).width = n * c.width := by
  induction n with
  | zero => simp [vector]
  | succ n ih =>
    have hstep : (c.vector (n + 1)).width = c.width + (c.vector n).width := rfl
    rw [hstep, ih, Nat.succ_mul, Nat.add_comm]

/-- The elements of an array lie one after another. -/
theorem get_dec_vector (c : Codec α) {n : ℕ} (bs : List UInt8) (i : Fin n) :
    ((c.vector n).dec bs).get i = c.dec (slice bs (i * c.width) c.width) := by
  induction n generalizing bs with
  | zero => exact i.elim0
  | succ n ih =>
    have hdec : (c.vector (n + 1)).dec bs
        = c.dec (bs.take c.width) ::ᵥ (c.vector n).dec (bs.drop c.width) := rfl
    rw [hdec]
    cases i using Fin.cases with
    | zero =>
      rw [List.Vector.get_cons_zero, Fin.val_zero, Nat.zero_mul]
      rfl
    | succ i =>
      rw [List.Vector.get_cons_succ, ih, Fin.val_succ, slice, slice, List.drop_drop,
        Nat.succ_mul, Nat.add_comm]

/-- One byte. -/
def u8 : Codec UInt8 where
  width := 1
  enc b := [b]
  dec bs := bs.headD 0
  length_enc _ := rfl
  dec_enc _ := rfl
  enc_dec bs h := by
    obtain ⟨b, rfl⟩ := List.length_eq_one_iff.mp h
    rfl

/-- An array of bytes is stored as it is. -/
theorem enc_u8_vector {n : ℕ} (v : List.Vector UInt8 n) : (u8.vector n).enc v = v.toList := by
  induction n with
  | zero =>
    rw [List.Vector.eq_nil v]
    rfl
  | succ n ih =>
    have henc : (u8.vector (n + 1)).enc v = [v.head] ++ (u8.vector n).enc v.tail := rfl
    rw [henc, ih]
    conv_rhs => rw [← List.Vector.cons_head_tail v, List.Vector.toList_cons]
    rfl

/-- An array of bytes is those bytes. -/
theorem toList_dec_u8_vector {n : ℕ} {bs : List UInt8} (h : bs.length = n) :
    ((u8.vector n).dec bs).toList = bs := by
  rw [← enc_u8_vector, (u8.vector n).enc_dec]
  rw [h, width_vector]
  exact (Nat.mul_one n).symm

end Codec

end Iago
