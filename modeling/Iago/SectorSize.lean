/-
Where `lba_size` and `sectors` come from.

`get_sizes` reads the two numbers from `/sys`. Each file is read into the buffer that holds
its path, with one `read` (`short_ok` ends `robust_read` after the first), and the text is
not ended where the bytes read end: `atoi` goes on into what the path has left behind them.
An interrupted `read` counts as a short one, of no bytes, and then the text is the path.
-/
import Iago.GptCopies
import Iago.GptWrite
import Iago.Options

set_option autoImplicit false

namespace Iago

/-! ## `get_sizes` and `gpt_init` -/

/-- `PATH_MAX`. -/
def PATH_MAX : ℕ := 4096

/-- `atoll`: no error, and the ends of the range for what is out of it. -/
def atoll (nptr : CStr) : Int64 :=
  match numeral 10 nptr with
  | none => 0
  | some val => Int64.ofInt (max (-2 ^ 63) (min val (2 ^ 63 - 1)))

/-- What `get_sizes` meets: the device number that `stat` finds, the two files, if they can
be opened, and what is on the stack. -/
structure Sysfs where
  stat : Option (ℕ × ℕ)
  logical_block_size : Option Dev
  size : Option Dev
  buf : List.Vector UInt8 PATH_MAX

/-- `snprintf` into a buffer that is long enough. -/
def snprintf (buf : List UInt8) (text : CStr) : List UInt8 := splice buf 0 (text ++ [0])

/-- `/sys/dev/block/%d:%d/FILE`. -/
def sys_path (mj mn : ℕ) (file : String) : CStr :=
  cstr "/sys/dev/block/" ++ dec mj ++ cstr ":" ++ dec mn ++ cstr "/" ++ cstr file

/-- The string in a buffer. -/
def cstring (buf : List UInt8) : CStr := buf.takeWhile (· ≠ 0)

/-- `robust_read(fd, buf, sizeof(buf), true)` and the zero at the end of `buf`. -/
def read_text {ε : Type} (fd : Dev) (rs : List IoRes) (buf : List UInt8) :
    Exec ε (Int × List UInt8 × List IoRes) := do
  let (ret, bytes, rs) ← robust_read fd true rs 0 PATH_MAX []
  .ret (ret, (splice buf 0 bytes).set (PATH_MAX - 1) 0, rs)

/-- `get_sizes`: `lba_size` and `num_sectors`, or nothing for -1. -/
def get_sizes {ε : Type} (sys : Sysfs) (rs : List IoRes) : Exec ε (Option (UInt32 × UInt64)) :=
  match sys.stat with
  | none => .ret none
  | some (mj, mn) =>
    let buf := snprintf sys.buf.toList (sys_path mj mn "queue/logical_block_size")
    match sys.logical_block_size with
    | none => .ret none
    | some fd => do
      let (ret, buf, rs) ← read_text fd rs buf
      if ret < 0 then .ret none
      else
        let lba_size := (atoi (cstring buf)).toUInt32
        let buf := snprintf buf (sys_path mj mn "size")
        match sys.size with
        | none => .ret none
        | some fd => do
          let (ret, buf, _) ← read_text fd rs buf
          if ret < 0 then .ret none
          else .ret (some (lba_size, (atoll (cstring buf)).toUInt64))

/-- `gpt_init`, with memory to be had: the header is what `malloc` returns. -/
def gpt_init {ε : Type} (sys : Sysfs) (rs : List IoRes) (header : GptHeader) (device : CStr) :
    Exec ε (Option Gpt) := do
  match ← get_sizes sys rs with
  | none => .ret none
  | some (lba_size, sectors) => .ret (some ⟨header, .null, lba_size, sectors, device⟩)

/-! ## One read -/

section Read

variable {ε : Type}

/-- What one `read` at the start of a file delivers; nothing if it is interrupted. -/
def delivered (fd : Dev) (r : IoRes) : List UInt8 := fd.data.read 0 (r.amount (min PATH_MAX fd.size))

/-- What it leaves in the buffer, over the path. -/
def left_over (fd : Dev) (r : IoRes) (buf : List UInt8) : List UInt8 :=
  (splice buf 0 (delivered fd r)).set (PATH_MAX - 1) 0

/-- A read that may be short is one call, unless that fails. -/
theorem robust_read_once {fd : Dev} {r : IoRes} (hr : r ≠ .err) (rs : List IoRes) :
    (robust_read fd true (r :: rs) 0 PATH_MAX [] : Exec ε _)
      = .ret ((delivered fd r).length, delivered fd r, rs) := by
  have hdone : ∀ k, ¬ (k ≠ 0 ∧ (true : Bool) = false) := fun _ hk => Bool.noConfusion hk.2
  cases r with
  | err => exact absurd rfl hr
  | eintr =>
    rw [robust_read, if_neg (hdone _)]
    rfl
  | all =>
    rw [robust_read, if_neg (hdone _)]
    · rfl
    all_goals exact IoRes.noConfusion
  | upto n =>
    rw [robust_read, if_neg (hdone _)]
    · rfl
    all_goals exact IoRes.noConfusion

/-- A read that succeeds is one call, whatever it delivers. -/
theorem read_text_eq {fd : Dev} {rs rs' : List IoRes} {buf buf' : List UInt8} {ret : Int}
    (h : (read_text fd rs buf : Exec ε _) = .ret (ret, buf', rs')) (hret : ¬ ret < 0) :
    ∃ r, rs = r :: rs' ∧ r ≠ .err ∧ buf' = left_over fd r buf := by
  rw [read_text] at h
  obtain ⟨⟨ret', bytes, rest⟩, hread, h⟩ := Exec.bind_eq_ret.mp h
  injection h with h
  injection h with hret' h
  injection h with hbuf hrest
  subst hret' hrest
  cases rs with
  | nil => cases hread
  | cons r rs =>
    by_cases hr : r = .err
    · subst hr
      injection hread with hread
      injection hread with hread _
      exact absurd (hread ▸ by decide : ret' < 0) hret
    rw [robust_read_once hr] at hread
    simp only [Exec.ret.injEq, Prod.mk.injEq] at hread
    obtain ⟨-, rfl, rfl⟩ := hread
    exact ⟨r, rfl, hr, hbuf.symm⟩

end Read

/-! ## The numbers -/

section Sizes

variable {ε : Type} {sys : Sysfs} {rs : List IoRes} {header : GptHeader} {device : CStr} {g : Gpt}

/-- A read of one of the files: the file, what becomes of the call, and the buffer with the path. -/
structure TextRead where
  fd : Dev
  r : IoRes
  buf : List UInt8

/-- The string that is parsed. -/
def TextRead.text (x : TextRead) : CStr := cstring (left_over x.fd x.r x.buf)

/-- The two reads, when everything is there. The second finds its path in the buffer over what the
first has left. -/
def text_reads (sys : Sysfs) (rs : List IoRes) : Option (TextRead × TextRead) :=
  match sys.stat, sys.logical_block_size, sys.size, rs with
  | some (mj, mn), some fd₁, some fd₂, r₁ :: r₂ :: _ =>
    let buf₁ := snprintf sys.buf.toList (sys_path mj mn "queue/logical_block_size")
    some (⟨fd₁, r₁, buf₁⟩, ⟨fd₂, r₂, snprintf (left_over fd₁ r₁ buf₁) (sys_path mj mn "size")⟩)
  | _, _, _, _ => none

/-- The text of a file. -/
def contents (fd : Dev) : CStr := cstring (fd.data.read 0 fd.size)

/-- The number a file contains: the one its text starts with. -/
def file_number (fd : Dev) : Option ℤ := numeral 10 (contents fd)

/-- A table that is returned has the numbers of the two strings. -/
theorem gpt_init_ret (h : (gpt_init sys rs header device : Exec ε _) = .ret (some g)) :
    ∃ x y, text_reads sys rs = some (x, y) ∧ sys.logical_block_size = some x.fd ∧
      sys.size = some y.fd ∧ g.lba_size = (atoi x.text).toUInt32 ∧
      g.sectors = (atoll y.text).toUInt64 := by
  rw [gpt_init] at h
  obtain ⟨sizes, hsizes, h⟩ := Exec.bind_eq_ret.mp h
  rw [get_sizes] at hsizes
  -- Each way out in front of the second read returns no table.
  cases hstat : sys.stat with
  | none =>
    rw [hstat] at hsizes
    injection hsizes with hsizes
    subst hsizes
    cases h
  | some dev_t =>
    obtain ⟨mj, mn⟩ := dev_t
    cases hblock : sys.logical_block_size with
    | none =>
      rw [hstat, hblock] at hsizes
      injection hsizes with hsizes
      subst hsizes
      cases h
    | some fd₁ =>
      rw [hstat, hblock] at hsizes
      simp only at hsizes
      obtain ⟨⟨ret₁, buf₁, rs₁⟩, hread₁, hsizes⟩ := Exec.bind_eq_ret.mp hsizes
      by_cases hret₁ : ret₁ < 0
      · rw [if_pos hret₁] at hsizes
        injection hsizes with hsizes
        subst hsizes
        cases h
      · rw [if_neg hret₁] at hsizes
        obtain ⟨r₁, hrs, -, hbuf₁⟩ := read_text_eq hread₁ hret₁
        cases hsize : sys.size with
        | none =>
          rw [hsize] at hsizes
          injection hsizes with hsizes
          subst hsizes
          cases h
        | some fd₂ =>
          rw [hsize] at hsizes
          obtain ⟨⟨ret₂, buf₂, rs₂⟩, hread₂, hsizes⟩ := Exec.bind_eq_ret.mp hsizes
          by_cases hret₂ : ret₂ < 0
          · rw [if_pos hret₂] at hsizes
            injection hsizes with hsizes
            subst hsizes
            cases h
          · rw [if_neg hret₂] at hsizes
            obtain ⟨r₂, hrs₁, -, hbuf₂⟩ := read_text_eq hread₂ hret₂
            injection hsizes with hsizes
            subst hsizes
            injection h with h
            injection h with h
            -- Both reads were served, so the texts are those of the first two outcomes.
            have hcalls : rs = r₁ :: r₂ :: rs₂ := hrs.trans (congrArg (r₁ :: ·) hrs₁)
            have hreads : ∃ x y, text_reads sys rs = some (x, y) ∧ x.fd = fd₁ ∧ y.fd = fd₂ ∧
                x.text = cstring buf₁ ∧ y.text = cstring buf₂ := by
              unfold text_reads
              rw [hstat, hblock, hsize, hcalls]
              exact ⟨_, _, rfl, rfl, rfl, congrArg cstring hbuf₁.symm,
                congrArg cstring (by rw [hbuf₂, hbuf₁])⟩
            obtain ⟨x, y, hxy, hx, hy, htext₁, htext₂⟩ := hreads
            exact ⟨x, y, hxy, congrArg some hx.symm, congrArg some hy.symm, by rw [htext₁, ← h],
              by rw [htext₂, ← h]⟩

/-- The numbers of the table are those of the files, and `lba_size` is positive. -/
structure SizesRight (sys : Sysfs) (g : Gpt) : Prop where
  positive : 0 < g.lba_size
  lba_size : ∃ fd, sys.logical_block_size = some fd ∧ file_number fd = some (g.lba_size.toNat : ℤ)
  sectors : ∃ fd, sys.size = some fd ∧ file_number fd = some (g.sectors.toNat : ℤ)

/-! ### What is left of a number -/

/-- The bytes of the number have been delivered, and what is behind them in the buffer is no digit:
a byte of the file, or of the path. -/
def TextRead.Delivers (x : TextRead) : Prop :=
  numeral_end (contents x.fd) ≤ (delivered x.fd x.r).length ∧
    numeral_end (contents x.fd) < PATH_MAX ∧
    ∀ c ∈ (left_over x.fd x.r x.buf)[numeral_end (contents x.fd)]?, ¬ digit c < 10

/-- What a read leaves of the number `n` of the file: all of it, and then it has to fit the variable;
or the number is cut, or runs into other digits, and what the buffer starts with instead happens to
be kept as `n`. -/
inductive TextRead.Leaves (x : TextRead) (bits n : ℕ) : Prop where
  | whole (h : x.Delivers) (hfits : n < 2 ^ min bits 63)
  | chance (h : ¬ x.Delivers) (hkept : kept bits ((numeral 10 x.text).getD 0) = n)

/-- Each of the files starts with a number, that of `logical_block_size` is not 0, and the reads
leave them. -/
def NumbersSurvive (sys : Sysfs) (rs : List IoRes) : Prop :=
  ∃ x y, text_reads sys rs = some (x, y) ∧
    (∃ n : ℕ, 0 < n ∧ file_number x.fd = some (n : ℤ) ∧ x.Leaves 32 n) ∧
    ∃ n : ℕ, file_number y.fd = some (n : ℤ) ∧ y.Leaves 64 n

section Left

variable {x : TextRead}

/-- What has been delivered is at the front of the buffer. -/
theorem take_left_over {m : ℕ} (hm : m ≤ (delivered x.fd x.r).length) (hroom : m < PATH_MAX) :
    (left_over x.fd x.r x.buf).take m = (x.fd.data.read 0 x.fd.size).take m := by
  have hread : delivered x.fd x.r = (x.fd.data.read 0 x.fd.size).take (delivered x.fd x.r).length := by
    have hle : x.r.amount (min PATH_MAX x.fd.size) ≤ x.fd.size :=
      (IoRes.amount_le _ _).trans (Nat.min_le_right _ _)
    have hslice := @Store.slice_read x.fd.data 0 _ 0 _ ((Nat.zero_add _).trans_le hle)
    rw [slice, List.drop_zero, Nat.add_zero] at hslice
    rw [delivered, Store.length_read, hslice]
  rw [left_over, splice, List.take_zero, List.nil_append, List.take_set_of_le (by omega),
    List.take_append_of_le_length hm, hread, List.take_take, Nat.min_eq_left hm]

/-- And so is the text of the file, as far as it has been delivered. -/
theorem take_text {m : ℕ} (hm : m ≤ (delivered x.fd x.r).length) (hroom : m < PATH_MAX)
    (hlen : m ≤ (contents x.fd).length) :
    (left_over x.fd x.r x.buf).take m = (contents x.fd).take m := by
  have hcut := List.prefix_iff_eq_take.mp
    (List.takeWhile_prefix (l := x.fd.data.read 0 x.fd.size) (· ≠ 0))
  rw [take_left_over hm hroom, contents, cstring, hcut, List.take_take]
  exact congrArg (List.take · _) (Nat.min_eq_left hlen).symm

/-- The string that is parsed starts with what has been delivered of the file's text. -/
theorem text_of_front {m : ℕ} (hm : m ≤ (delivered x.fd x.r).length) (hroom : m < PATH_MAX)
    (hlen : m ≤ (contents x.fd).length) :
    x.text = (contents x.fd).take m ++ cstring ((left_over x.fd x.r x.buf).drop m) := by
  have hsolid : ∀ c ∈ (contents x.fd).take m, decide (c ≠ 0) = true := fun c hc =>
    List.mem_takeWhile_imp (p := fun c => decide (c ≠ 0)) (List.mem_of_mem_take hc)
  conv_lhs => rw [TextRead.text, cstring, ← List.take_append_drop m (left_over x.fd x.r x.buf)]
  rw [take_text hm hroom hlen, List.takeWhile_append_of_pos hsolid, cstring]

/-- **A number that is delivered is the one that is read.** -/
theorem TextRead.Delivers.numeral (h : x.Delivers) {n : ℤ} (hn : file_number x.fd = some n) :
    numeral 10 x.text = some n := by
  obtain ⟨hm, hroom, hbehind⟩ := h
  rw [text_of_front hm hroom (numeral_end_le _)]
  refine numeral_of_end hn fun c hc => hbehind c ?_
  rw [cstring, List.head?_takeWhile, List.head?_drop] at hc
  exact (Option.mem_filter_iff.mp hc).1

/-- `atoll` keeps 64 bits of the number a string starts with. -/
theorem atoll_eq (s : CStr) : (atoll s).toUInt64.toNat = kept 64 ((numeral 10 s).getD 0) := by
  rw [atoll, kept]
  cases numeral 10 s with
  | none => rfl
  | some z =>
    simp only [Option.getD_some]
    show (BitVec.ofInt 64 _).toNat = _
    rw [BitVec.toNat_ofInt]
    rfl

/-- The number that is read is kept as that of the file just if the read leaves it. -/
theorem TextRead.kept_iff_leaves {bits n : ℕ} (hbits : bits = 32 ∨ bits = 64)
    (hn : file_number x.fd = some (n : ℤ)) :
    kept bits ((numeral 10 x.text).getD 0) = n ↔ x.Leaves bits n := by
  by_cases h : x.Delivers
  · rw [h.numeral hn, Option.getD_some, kept_iff hbits]
    exact ⟨fun hfits => .whole h hfits, fun hleft => by
      cases hleft with
      | whole _ hfits => exact hfits
      | chance hno _ => exact absurd h hno⟩
  · exact ⟨fun hkept => .chance h hkept, fun hleft => by
      cases hleft with
      | whole hyes _ => exact absurd hyes h
      | chance _ hkept => exact hkept⟩

end Left

/-- **`gpt_init` returns the numbers of the files exactly if the reads leave them.** -/
theorem gpt_init_sizes_iff (h : (gpt_init sys rs header device : Exec ε _) = .ret (some g)) :
    SizesRight sys g ↔ NumbersSurvive sys rs := by
  obtain ⟨x, y, hreads, hblock, hsize, hlba, hsectors⟩ := gpt_init_ret h
  have hlba' : g.lba_size.toNat = kept 32 ((numeral 10 x.text).getD 0) := by
    rw [hlba, atoi_eq]
  have hsectors' : g.sectors.toNat = kept 64 ((numeral 10 y.text).getD 0) := by
    rw [hsectors, atoll_eq]
  constructor
  · rintro ⟨hpos, ⟨fd, hfd, hnum⟩, fd', hfd', hnum'⟩
    rw [hblock, Option.some.injEq] at hfd
    rw [hsize, Option.some.injEq] at hfd'
    subst hfd hfd'
    refine ⟨x, y, hreads, ⟨_, UInt32.lt_iff_toNat_lt.mp hpos, hnum, ?_⟩, _, hnum', ?_⟩
    · exact (TextRead.kept_iff_leaves (.inl rfl) hnum).mp hlba'.symm
    · exact (TextRead.kept_iff_leaves (.inr rfl) hnum').mp hsectors'.symm
  · rintro ⟨x', y', hreads', ⟨n, hpos, hnum, hleft⟩, k, hnum', hleft'⟩
    rw [hreads, Option.some.injEq, Prod.mk.injEq] at hreads'
    obtain ⟨rfl, rfl⟩ := hreads'
    have hn := (TextRead.kept_iff_leaves (.inl rfl) hnum).mpr hleft
    have hk := (TextRead.kept_iff_leaves (.inr rfl) hnum').mpr hleft'
    rw [← hlba'] at hn
    rw [← hsectors'] at hk
    refine ⟨?_, ⟨x.fd, hblock, hn ▸ hnum⟩, y.fd, hsize, hk ▸ hnum'⟩
    rw [UInt32.lt_iff_toNat_lt, hn]
    exact hpos

/-! ### An interrupted read, and a whole one -/

/-- A path is no number. -/
theorem numeral_path (s : CStr) : numeral 10 (47 :: s) = none := rfl

/-- If the first call delivers nothing, the sector size is that of the path name: 0. -/
theorem lba_size_of_interrupted {r : IoRes}
    (h : (gpt_init sys (r :: rs) header device : Exec ε _) = .ret (some g))
    (hnothing : ∀ fd, sys.logical_block_size = some fd → delivered fd r = []) :
    g.lba_size = 0 := by
  obtain ⟨x, y, hreads, hblock, hsize, hlba, -⟩ := gpt_init_ret h
  unfold text_reads at hreads
  rw [hblock, hsize] at hreads
  cases hstat : sys.stat with
  | none =>
    rw [hstat] at hreads
    cases hreads
  | some dev_t =>
    obtain ⟨mj, mn⟩ := dev_t
    rw [hstat] at hreads
    cases rs with
    | nil => cases hreads
    | cons r₂ rs =>
      injection hreads with hreads
      injection hreads with hx _
      have hpath : ∃ s, x.text = 47 :: s := by
        rw [← hx, TextRead.text, left_over, hnothing x.fd hblock]
        exact ⟨_, rfl⟩
      obtain ⟨s, hs⟩ := hpath
      rw [hlba, hs, atoi, numeral_path]
      rfl

/-- So the sizes are not right, whatever the files say, and `gpt_new` divides by 0. -/
theorem not_right_of_interrupted {r : IoRes}
    (h : (gpt_init sys (r :: rs) header device : Exec ε _) = .ret (some g))
    (hnothing : ∀ fd, sys.logical_block_size = some fd → delivered fd r = []) :
    ¬ SizesRight sys g := by
  intro hright
  have hpos := hright.positive
  rw [lba_size_of_interrupted h hnothing] at hpos
  exact absurd hpos (by decide)

/-! ### Files as `/sys` has them -/

section Printed

variable {x : TextRead} {n : ℕ}

/-- A path in `/sys` has no digit in front of the device number. -/
theorem path_no_digit (rest : List UInt8) {i : ℕ} (hi : i < 15) :
    ∀ c ∈ (cstr "/sys/dev/block/" ++ rest)[i]?, ¬ digit c < 10 := by
  have hall : ∀ c ∈ cstr "/sys/dev/block/", ¬ digit c < 10 := by decide +kernel
  rw [List.getElem?_append_left (by exact hi)]
  intro c hc
  exact hall c (List.mem_of_getElem? hc)

/-- A printed number ends with its digits. -/
theorem numeral_end_dec (n : ℕ) : numeral_end (dec n ++ [10]) = (dec n).length := by
  have hdigits : (dec n ++ [10]).takeWhile (fun c => decide (digit c < 10)) = dec n := by
    rw [List.takeWhile_append_of_pos, List.takeWhile_cons_of_neg (by decide), List.append_nil]
    intro d hd
    obtain ⟨k, hk, rfl⟩ := mem_decDigits hd
    rw [(digit_decimal hk).1]
    exact decide_eq_true hk
  cases hdec : dec n with
  | nil => exact absurd hdec (dec_ne_nil n)
  | cons d ds =>
    obtain ⟨k, hk, rfl⟩ := mem_decDigits (hdec ▸ List.mem_cons_self : d ∈ dec n)
    obtain ⟨-, hspace, hminus, hplus⟩ := digit_decimal hk
    rw [hdec, List.cons_append] at hdigits
    rw [numeral_end, List.cons_append, List.dropWhile_cons_of_neg (by rw [hspace]; decide),
      List.takeWhile_cons_of_neg (by rw [hspace]; decide), List.head?_cons]
    simp only [Option.some.injEq, hminus, hplus, or_self, if_false, List.drop_zero, hdigits,
      List.length_nil, Nat.zero_add]

/-- More digits make a number no smaller. -/
theorem le_foldl_digits (ds : List UInt8) (v : ℕ) :
    v * 10 ^ ds.length ≤ ds.foldl (fun n c => n * 10 + digit c) v := by
  induction ds generalizing v with
  | nil => simp
  | cons d ds ih =>
    calc v * 10 ^ (ds.length + 1) = v * 10 * 10 ^ ds.length := by ring
      _ ≤ (v * 10 + digit d) * 10 ^ ds.length := Nat.mul_le_mul_right _ (Nat.le_add_right _ _)
      _ ≤ _ := ih _

/-- A printed number is worth more than any beginning of it. -/
theorem digitsVal_take_lt {k : ℕ} (hn : 0 < n) (hk : k < (dec n).length) :
    digitsVal 10 ((dec n).take k) < n := by
  have hval : digitsVal 10 (dec n) = n := digitsVal_decDigits (Nat.lt_succ_self n)
  rw [digitsVal, ← List.take_append_drop k (dec n), List.foldl_append] at hval
  have hle := le_foldl_digits ((dec n).drop k) (digitsVal 10 ((dec n).take k))
  rw [digitsVal, hval] at hle
  by_contra hge
  have hpow : 10 ^ 1 ≤ 10 ^ ((dec n).drop k).length :=
    Nat.pow_le_pow_right (by decide) (by rw [List.length_drop]; omega)
  have := Nat.mul_le_mul (Nat.le_of_not_lt hge) (hpow.trans' (Nat.le_refl 10))
  rw [digitsVal] at this
  omega

/-- What is kept of a number that is not negative is no more than it. -/
theorem kept_le {bits : ℕ} (hbits : bits = 32 ∨ bits = 64) (v : ℕ) : kept bits v ≤ v := by
  unfold kept
  rcases hbits with rfl | rfl <;> omega

/-- The buffer up to the end of the path: what has been delivered, and behind it the path. -/
theorem left_over_getElem {i : ℕ} (hi : i < PATH_MAX - 1) (hend : (delivered x.fd x.r).length ≤ i) :
    (left_over x.fd x.r x.buf)[i]? = x.buf[i]? := by
  rw [left_over, List.getElem?_set_ne (Nat.ne_of_gt hi), splice, List.take_zero, List.nil_append,
    Nat.zero_add, List.getElem?_append_right hend, List.getElem?_drop, Nat.add_sub_cancel' hend]

/-- A read that delivers only some of the digits leaves a smaller number. -/
theorem kept_lt_of_cut {bits : ℕ} {rest : List UInt8} (hbits : bits = 32 ∨ bits = 64)
    (htext : contents x.fd = dec n ++ [10]) (hn : 0 < n) (hshort : (dec n).length < 15)
    (hpath : x.buf = cstr "/sys/dev/block/" ++ rest)
    (hcut : (delivered x.fd x.r).length < (dec n).length) :
    kept bits ((numeral 10 x.text).getD 0) < n := by
  obtain ⟨k, hk⟩ : ∃ k, (delivered x.fd x.r).length = k := ⟨_, rfl⟩
  rw [hk] at hcut
  have hroom : k < PATH_MAX - 1 := hcut.trans (hshort.trans (by decide))
  have hprinted : ∀ c ∈ (dec n).take k, ∃ d, d < 10 ∧ c = UInt8.ofNat (48 + d) := fun c hc =>
    mem_decDigits (List.mem_of_mem_take hc)
  -- the digits that have been delivered, and the path behind them
  have hfront : x.text = (dec n).take k ++ cstring ((left_over x.fd x.r x.buf).drop k) := by
    have hlen : k ≤ (contents x.fd).length := by
      rw [htext, List.length_append]
      omega
    rw [text_of_front hk.ge (hroom.trans (by decide)) hlen, htext,
      List.take_append_of_le_length hcut.le]
  have hhead : (cstring ((left_over x.fd x.r x.buf).drop k)).head?
      = (cstr "/sys/dev/block/" ++ rest)[k]?.filter (· ≠ 0) := by
    rw [cstring, List.head?_takeWhile, List.head?_drop, left_over_getElem hroom hk.le, hpath]
  by_cases hnone : (dec n).take k = []
  · -- nothing of it: the path is no number
    obtain rfl : k = 0 := (List.take_eq_nil_iff.mp hnone).resolve_right (dec_ne_nil n)
    have hslash : (cstring ((left_over x.fd x.r x.buf).drop 0)).head? = some 47 := hhead
    obtain ⟨s, hs⟩ := List.head?_eq_some_iff.mp hslash
    rw [hfront, hnone, List.nil_append, hs, numeral_path, Option.getD_none]
    exact (kept_le hbits 0).trans_lt hn
  · rw [hfront, numeral_digits_before hnone hprinted, Option.getD_some]
    · exact (kept_le hbits _).trans_lt (digitsVal_take_lt hn hcut)
    · intro c hc
      rw [hhead] at hc
      exact path_no_digit rest (hcut.trans hshort) c (Option.mem_filter_iff.mp hc).1

/-- A file with a printed number has that number. -/
theorem file_number_printed {fd : Dev} (htext : contents fd = dec n ++ [10]) :
    file_number fd = some (n : ℤ) := by
  rw [file_number, htext]
  exact numeral_dec_before n (newline_no_digit [])

/-- Of a printed number the read leaves all or nothing. -/
theorem leaves_printed_iff {bits : ℕ} {rest : List UInt8} (hbits : bits = 32 ∨ bits = 64)
    (htext : contents x.fd = dec n ++ [10]) (hn : 0 < n) (hshort : (dec n).length < 15)
    (hpath : x.buf = cstr "/sys/dev/block/" ++ rest) :
    x.Leaves bits n ↔ n < 2 ^ min bits 63 ∧ (dec n).length ≤ (delivered x.fd x.r).length := by
  have hnumber := file_number_printed htext
  rw [← TextRead.kept_iff_leaves hbits hnumber]
  by_cases hall : (dec n).length ≤ (delivered x.fd x.r).length
  · have hdelivers : x.Delivers := by
      rw [TextRead.Delivers, htext, numeral_end_dec]
      refine ⟨hall, hshort.trans (by decide), fun c hc => ?_⟩
      have hroom : (dec n).length < PATH_MAX - 1 := hshort.trans (by decide)
      rcases hall.lt_or_eq with hmore | hend
      · -- the newline has been delivered too
        have hlen : (dec n).length + 1 = (contents x.fd).length := by
          rw [htext, List.length_append, List.length_singleton]
        have hfront := take_text (x := x) (Nat.succ_le_of_lt hmore) (by omega) hlen.le
        have hget := congrArg (·[(dec n).length]?) hfront
        simp only [List.getElem?_take_of_lt (Nat.lt_succ_self _)] at hget
        rw [hget, htext, List.getElem?_append_right (Nat.le_refl _), Nat.sub_self] at hc
        exact newline_no_digit [] c hc
      · rw [left_over_getElem hroom hend.ge, hpath] at hc
        exact path_no_digit rest hshort c hc
    rw [hdelivers.numeral hnumber, Option.getD_some, kept_iff hbits]
    exact ⟨fun h => ⟨h, hall⟩, And.left⟩
  · have hlt := kept_lt_of_cut hbits htext hn hshort hpath (Nat.lt_of_not_le hall)
    exact ⟨fun h => absurd h (Nat.ne_of_lt hlt), fun h => absurd h.2 hall⟩

end Printed

/-- The path starts with the directory of the devices. -/
theorem snprintf_sys_path (buf : List UInt8) (mj mn : ℕ) (file : String) :
    ∃ rest, snprintf buf (sys_path mj mn file) = cstr "/sys/dev/block/" ++ rest := by
  rw [snprintf, sys_path, splice, List.take_zero, List.nil_append]
  simp only [List.append_assoc]
  exact ⟨_, rfl⟩

/-- **With files as `/sys` has them, the sizes are right exactly if the first call delivers at least
the digits of a sector size of 32 bits, and the second at least those of the number of sectors.** -/
theorem printed_sizes_iff {fd₁ fd₂ : Dev} {r₁ r₂ : IoRes} {n₁ n₂ : ℕ}
    (h : (gpt_init sys (r₁ :: r₂ :: rs) header device : Exec ε _) = .ret (some g))
    (hblock : sys.logical_block_size = some fd₁) (hsize : sys.size = some fd₂)
    (htext₁ : contents fd₁ = dec n₁ ++ [10]) (htext₂ : contents fd₂ = dec n₂ ++ [10])
    (hn₁ : 0 < n₁) (hn₂ : 0 < n₂) (hfits : n₂ < 2 ^ 63)
    (hshort₁ : (dec n₁).length < 15) (hshort₂ : (dec n₂).length < 15) :
    SizesRight sys g ↔ (n₁ < 2 ^ 32 ∧ (dec n₁).length ≤ (delivered fd₁ r₁).length) ∧
      (dec n₂).length ≤ (delivered fd₂ r₂).length := by
  rw [gpt_init_sizes_iff h]
  obtain ⟨x, y, hreads, hfd₁, hfd₂, -, -⟩ := gpt_init_ret h
  rw [hblock, Option.some.injEq] at hfd₁
  rw [hsize, Option.some.injEq] at hfd₂
  -- Both reads went into a buffer that still held the path of the file behind them.
  have hpaths : x.r = r₁ ∧ y.r = r₂ ∧ (∃ rest, x.buf = cstr "/sys/dev/block/" ++ rest) ∧
      ∃ rest, y.buf = cstr "/sys/dev/block/" ++ rest := by
    unfold text_reads at hreads
    rw [hblock, hsize] at hreads
    cases hstat : sys.stat with
    | none =>
      rw [hstat] at hreads
      cases hreads
    | some dev_t =>
      rw [hstat] at hreads
      injection hreads with hreads
      injection hreads with hx hy
      subst hx hy
      exact ⟨rfl, rfl, snprintf_sys_path _ _ _ _, snprintf_sys_path _ _ _ _⟩
  obtain ⟨hr₁, hr₂, ⟨rest₁, hpath₁⟩, rest₂, hpath₂⟩ := hpaths
  subst hfd₁ hfd₂ hr₁ hr₂
  have hleft₁ := leaves_printed_iff (.inl rfl) htext₁ hn₁ hshort₁ hpath₁
  have hleft₂ := leaves_printed_iff (.inr rfl) htext₂ hn₂ hshort₂ hpath₂
  have hnum₁ := file_number_printed htext₁
  have hnum₂ := file_number_printed htext₂
  constructor
  · rintro ⟨x', y', hreads', ⟨n, -, hn, hl⟩, k, hk, hl'⟩
    rw [hreads, Option.some.injEq, Prod.mk.injEq] at hreads'
    obtain ⟨rfl, rfl⟩ := hreads'
    rw [hnum₁, Option.some.injEq, Nat.cast_inj] at hn
    rw [hnum₂, Option.some.injEq, Nat.cast_inj] at hk
    subst hn hk
    exact ⟨hleft₁.mp hl, (hleft₂.mp hl').2⟩
  · rintro ⟨hall₁, hall₂⟩
    exact ⟨x, y, hreads, ⟨n₁, hn₁, hnum₁, hleft₁.mpr hall₁⟩, n₂, hnum₂, hleft₂.mpr ⟨hfits, hall₂⟩⟩

end Sizes

/-! ## An interrupted read -/

section Interrupted

attribute [local instance] x86

/-- A file of `/sys`. -/
def sysfs_file (text : String) (h : (cstr text).length < 2 ^ 63) : Dev :=
  ⟨(cstr text).length, Store.write (fun _ => 0) 0 (cstr text), h⟩

/-- A disk of 68 sectors. -/
def sys_sda : Sysfs where
  stat := some (8, 0)
  logical_block_size := some (sysfs_file "512\n" (by decide))
  size := some (sysfs_file "68\n" (by decide))
  buf := List.Vector.replicate PATH_MAX 0

/-- What `gpt_init` makes of it when the first `read` is interrupted. -/
def no_sectors : Gpt := ⟨zero_header, .null, 0, 68, cstr "/dev/block/sda"⟩

/-- With one call interrupted, no sector size is read. -/
theorem interrupted_init :
    (gpt_init sys_sda [.eintr, .all] zero_header (cstr "/dev/block/sda") : Exec Empty _) =
      .ret (some no_sectors) := by
  decide +kernel

theorem interrupted_divides_by_zero :
    (gpt_init sys_sda [.eintr, .all] zero_header (cstr "/dev/block/sda") : Exec Empty _) =
        .ret (some no_sectors) ∧
      file_number (sysfs_file "512\n" (by decide)) = some 512 ∧
      ¬ SizesRight sys_sda no_sectors ∧
      (gpt_new no_sectors fun _ => none : Exec Empty _) = .fault := by
  refine ⟨interrupted_init, by decide +kernel, fun hright => ?_, rfl⟩
  exact absurd hright.positive (by decide)

/-- What the theorem says of that run. -/
theorem interrupted_sizes_iff :
    SizesRight sys_sda no_sectors ↔ NumbersSurvive sys_sda [.eintr, .all] :=
  gpt_init_sizes_iff interrupted_init

end Interrupted

end Iago
