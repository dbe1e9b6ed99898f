/-
Records at fixed places of a byte buffer.

An array of packed structs is a buffer together with the offsets its records
start at. As long as the offsets are in range and far enough apart, updating the
records one after another in place is the same as updating them all at once,
and two such passes compose. That is all a byte-swapping loop over an array
needs, and it holds whatever the offsets are: they need be neither equally
spaced nor in order.
-/
import Iago.Bytes

set_option autoImplicit false

namespace Iago

/-- The offsets of records of `w` bytes that lie inside a buffer of `len` bytes
and do not meet. -/
structure Slots (w : ℕ) (offs : List ℕ) (len : ℕ) : Prop where
  fits : ∀ o ∈ offs, o + w ≤ len
  apart : offs.Pairwise fun o o' => o + w ≤ o' ∨ o' + w ≤ o

namespace Slots

variable {α : Type} {c : Codec α} {f g : α → α} {offs : List ℕ} {buf : List UInt8}

/-- The record at `o`, replaced by its image. -/
def modify (c : Codec α) (f : α → α) (buf : List UInt8) (o : ℕ) : List UInt8 :=
  splice buf o (c.enc (f (c.dec (slice buf o c.width))))

/-- Every record replaced by its image, one after another. -/
def modifyAll (c : Codec α) (f : α → α) (offs : List ℕ) (buf : List UInt8) : List UInt8 :=
  offs.foldl (modify c f) buf

theorem length_modify {o : ℕ} (h : o + c.width ≤ buf.length) :
    (modify c f buf o).length = buf.length :=
  length_splice (by rw [c.length_enc]; exact h)

theorem slice_modify_self {o : ℕ} (h : o + c.width ≤ buf.length) :
    slice (modify c f buf o) o c.width = c.enc (f (c.dec (slice buf o c.width))) := by
  have hroom : o + (c.enc (f (c.dec (slice buf o c.width)))).length ≤ buf.length := by
    rw [c.length_enc]
    exact h
  have hself := slice_splice_self hroom
  rwa [c.length_enc] at hself

theorem slice_modify_of_apart {o o' : ℕ} (h : o + c.width ≤ buf.length)
    (hd : o + c.width ≤ o' ∨ o' + c.width ≤ o) :
    slice (modify c f buf o) o' c.width = slice buf o' c.width :=
  slice_splice_of_disjoint (by rw [c.length_enc]; exact h) (by rw [c.length_enc]; omega)

theorem getElem?_modify_of_outside {o p : ℕ} (h : o + c.width ≤ buf.length)
    (hp : p < o ∨ o + c.width ≤ p) : (modify c f buf o)[p]? = buf[p]? := by
  rw [modify, getElem?_splice (by rw [c.length_enc]; exact h), c.length_enc, if_neg (by omega)]

/-! ## The whole pass

Each statement is an induction on the offsets with the buffer generalised: the
first update leaves the remaining offsets in range and the other records alone. -/

theorem length_modifyAll (h : Slots c.width offs buf.length) :
    (modifyAll c f offs buf).length = buf.length := by
  induction offs generalizing buf with
  | nil => rfl
  | cons o offs ih =>
    have hlen : (modify c f buf o).length = buf.length :=
      length_modify (h.fits o List.mem_cons_self)
    have hrest : Slots c.width offs (modify c f buf o).length := by
      rw [hlen]
      exact ⟨fun o' ho' => h.fits o' (List.mem_cons_of_mem _ ho'), h.apart.of_cons⟩
    show (modifyAll c f offs (modify c f buf o)).length = buf.length
    rw [ih hrest, hlen]

/-- A byte of no record is unchanged. -/
theorem getElem?_modifyAll_of_outside (h : Slots c.width offs buf.length) {p : ℕ}
    (hp : ∀ o ∈ offs, p < o ∨ o + c.width ≤ p) : (modifyAll c f offs buf)[p]? = buf[p]? := by
  induction offs generalizing buf with
  | nil => rfl
  | cons o offs ih =>
    have ho := h.fits o List.mem_cons_self
    have hrest : Slots c.width offs (modify c f buf o).length := by
      rw [length_modify ho]
      exact ⟨fun o' ho' => h.fits o' (List.mem_cons_of_mem _ ho'), h.apart.of_cons⟩
    show (modifyAll c f offs (modify c f buf o))[p]? = buf[p]?
    rw [ih hrest fun o' ho' => hp o' (List.mem_cons_of_mem _ ho'),
      getElem?_modify_of_outside ho (hp o List.mem_cons_self)]

/-- A stretch apart from every record is unchanged. -/
theorem slice_modifyAll_of_apart (h : Slots c.width offs buf.length) {o' : ℕ}
    (hd : ∀ o ∈ offs, o + c.width ≤ o' ∨ o' + c.width ≤ o) :
    slice (modifyAll c f offs buf) o' c.width = slice buf o' c.width := by
  apply List.ext_getElem?
  intro p
  by_cases hp : p < c.width
  · rw [getElem?_slice hp, getElem?_slice hp, getElem?_modifyAll_of_outside h]
    intro o ho
    have := hd o ho
    omega
  · rw [List.getElem?_eq_none (by simp only [slice, List.length_take]; omega),
      List.getElem?_eq_none (by simp only [slice, List.length_take]; omega)]

/-- Every record is replaced by its image. -/
theorem slice_modifyAll (h : Slots c.width offs buf.length) {o : ℕ} (ho : o ∈ offs) :
    slice (modifyAll c f offs buf) o c.width = c.enc (f (c.dec (slice buf o c.width))) := by
  induction offs generalizing buf with
  | nil => cases ho
  | cons o₁ offs ih =>
    have ho₁ := h.fits o₁ List.mem_cons_self
    have hapart := List.pairwise_cons.mp h.apart
    have hrest : Slots c.width offs (modify c f buf o₁).length := by
      rw [length_modify ho₁]
      exact ⟨fun o' ho' => h.fits o' (List.mem_cons_of_mem _ ho'), hapart.2⟩
    show slice (modifyAll c f offs (modify c f buf o₁)) o c.width = _
    rcases List.mem_cons.mp ho with rfl | hmem
    · rw [slice_modifyAll_of_apart hrest fun o' ho' => (hapart.1 o' ho').symm,
        slice_modify_self ho₁]
    · rw [ih hrest hmem, slice_modify_of_apart ho₁ (hapart.1 o hmem)]

/-- Two buffers are equal when they agree on every record and on every byte
outside the records. -/
theorem ext_of_slots {buf buf' : List UInt8} {w : ℕ}
    (hin : ∀ o ∈ offs, slice buf o w = slice buf' o w)
    (hout : ∀ p, (∀ o ∈ offs, p < o ∨ o + w ≤ p) → buf[p]? = buf'[p]?) : buf = buf' := by
  apply List.ext_getElem?
  intro p
  by_cases hp : ∀ o ∈ offs, p < o ∨ o + w ≤ p
  · exact hout p hp
  · push Not at hp
    obtain ⟨o, ho, h1, h2⟩ := hp
    have hslice := congrArg (fun l => l[p - o]?) (hin o ho)
    rw [getElem?_slice (by omega), getElem?_slice (by omega)] at hslice
    rwa [show o + (p - o) = p by omega] at hslice

/-- Two passes are one pass with the composed function. -/
theorem modifyAll_modifyAll (h : Slots c.width offs buf.length) :
    modifyAll c g offs (modifyAll c f offs buf) = modifyAll c (g ∘ f) offs buf := by
  have hlen := length_modifyAll (f := f) h
  have h' : Slots c.width offs (modifyAll c f offs buf).length := by rw [hlen]; exact h
  apply @ext_of_slots offs _ _ c.width
  · intro o ho
    rw [slice_modifyAll h' ho, slice_modifyAll h ho, slice_modifyAll h ho, c.dec_enc]
    rfl
  · intro p hp
    rw [getElem?_modifyAll_of_outside h' hp, getElem?_modifyAll_of_outside h hp,
      getElem?_modifyAll_of_outside h hp]

/-- A pass that changes no record changes nothing. -/
theorem modifyAll_id (h : Slots c.width offs buf.length) : modifyAll c id offs buf = buf := by
  apply @ext_of_slots offs _ _ c.width
  · intro o ho
    rw [slice_modifyAll h ho]
    exact c.enc_dec _ (length_slice (h.fits o ho))
  · intro p hp
    exact getElem?_modifyAll_of_outside h hp

end Slots

end Iago
