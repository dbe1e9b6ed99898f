/-
The new size of Windows that is asked for.

`partitioner_cli` compares sizes in bytes and then asks for a size in MiB: not less than the
smallest size rounded up, not more than the largest rounded down, and the largest for an
empty line, which `ui_get_value` takes without looking at the bounds. Without a whole MiB
between the two sizes the bounds have crossed, no number is taken, and an empty line is.

The dialogue is taken apart here at the question, so that it can be said when it is asked.
-/
import Iago.CreatePartitions
import Iago.Asking
import Iago.Dialogue
import Iago.Prompts

set_option autoImplicit false

namespace Iago

/-! ## The dialogue up to the question -/

/-- What is known when the size is asked for. -/
structure SizeQuestion where
  ictx : Ictx
  disk : CStr
  windows_min_size : Int64
  windows_max_size : Int64
  stdin : List UInt8

/-- The dual-boot branch, up to the question if it is asked. -/
def cli_dual_boot_until [Stack] (ictx : Ictx) (disk : CStr) (sz : DiskSizes) (stdin : List UInt8) :
    Exec Die (SizeQuestion ⊕ (Ictx × List UInt8)) := do
  let can_resize := decide (sz.windows_min_size ≠ 0)
  let total_free_size := if sz.android_size ≠ 0 then sz.android_size else sz.free_size
  let required_size := (← get_all_space_required ictx.opts disk true).toInt64
  let must_resize := decide (total_free_size < required_size)
  let windows_max_size :=
    if must_resize then sz.windows_size - (required_size - total_free_size) else sz.windows_size
  if must_resize ∧ (windows_max_size < 0 ∨ windows_max_size < sz.windows_min_size ∨ ¬ can_resize)
  then .die .no_room
  else do
    let (resize, stdin) ←
      if can_resize then ui_ask (Stack.buf .resize_windows) true stdin else .ret (false, stdin)
    if resize then .ret (.inl ⟨ictx, disk, sz.windows_min_size, windows_max_size, stdin⟩)
    else if must_resize then .die .insufficient_free_space
    else .ret (.inr (ictx.put BASE_DUALBOOT (cstr "1"), stdin))

/-- `partitioner_cli`, up to the question if it is asked. -/
def partitioner_cli_until [Stack] (ictx : Ictx) (stdin : List UInt8) :
    Exec Die (SizeQuestion ⊕ (Ictx × List UInt8)) := do
  let disks ← hashmapGetPrintf ictx.opts none BASE_DISK_LIST
  let disk_list ← string_list_iterate disks (disk_list_cb ictx.opts) []
  let (disk, stdin) ← ui_option_get (Stack.buf .disk) disk_list stdin
  let ictx := ictx.put BASE_INSTALL_DISK disk
  let sz ← read_sizes ictx.opts disk
  if sz.windows_size ≠ 0 then do
    let (dual, stdin) ← ui_ask (Stack.buf .dual_boot) true stdin
    if dual then cli_dual_boot_until ictx disk sz stdin
    else do
      let res ← cli_wipe_disk ictx disk sz stdin
      .ret (.inr res)
  else do
    let res ← cli_wipe_disk ictx disk sz stdin
    .ret (.inr res)

/-- The question, with the default and the bounds it is put with. -/
def SizeQuestion.ask [Stack] (q : SizeQuestion) (stdin : List UInt8) : Exec Die (Int64 × List UInt8) :=
  let max := (to_mib_floor q.windows_max_size.toUInt64).toInt64
  let min := (to_mib q.windows_min_size.toUInt64).toInt64
  ui_get_value (Stack.buf .new_windows_size) max min max stdin

/-- What is done with the answer. -/
def SizeQuestion.answer [Stack] (q : SizeQuestion) : Exec Die (Ictx × List UInt8) := do
  let (new_windows_size, stdin) ← q.ask q.stdin
  let ictx := q.ictx.put (disk_key q.disk "windows_resize")
    (dec (new_windows_size.toUInt64 <<< 20).toNat)
  .ret (ictx.put BASE_DUALBOOT (cstr "1"), stdin)

/-- The dialogue goes on with the answer. -/
def after_question [Stack] : SizeQuestion ⊕ (Ictx × List UInt8) → Exec Die (Ictx × List UInt8)
  | .inl q => q.answer
  | .inr res => .ret res

section Question

variable [Stack] {ictx ictx' : Ictx} {stdin stdin' : List UInt8} {disk : CStr} {sz : DiskSizes}
  {q : SizeQuestion}

/-- The branch goes on with the answer, where it comes to the question. -/
theorem cli_dual_boot_eq :
    cli_dual_boot ictx disk sz stdin =
      (cli_dual_boot_until ictx disk sz stdin).bind after_question := by
  rw [cli_dual_boot, cli_dual_boot_until]
  refine Exec.bind_then fun required => ?_
  simp only
  generalize (if sz.android_size ≠ 0 then sz.android_size else sz.free_size) = total
  generalize decide (total < required.toInt64) = must
  generalize (if must = true then sz.windows_size - (required.toInt64 - total)
    else sz.windows_size) = max
  by_cases hno : must = true ∧
      (max < 0 ∨ max < sz.windows_min_size ∨ ¬ decide (sz.windows_min_size ≠ 0) = true)
  · rw [if_pos hno, if_pos hno]
    rfl
  · rw [if_neg hno, if_neg hno]
    -- the rest is the same for every answer to the first question
    have htail (resize : Bool) (rest : List UInt8) :
        (if resize = true then do
          let (value, rest) ← ui_get_value (Stack.buf .new_windows_size) (to_mib_floor max.toUInt64).toInt64
            (to_mib sz.windows_min_size.toUInt64).toInt64 (to_mib_floor max.toUInt64).toInt64 rest
          .ret ((ictx.put (disk_key disk "windows_resize")
            (dec (value.toUInt64 <<< 20).toNat)).put BASE_DUALBOOT (cstr "1"), rest)
        else if must = true then .die .insufficient_free_space
        else .ret (ictx.put BASE_DUALBOOT (cstr "1"), rest) : Exec Die (Ictx × List UInt8)) =
        (if resize = true then .ret (.inl ⟨ictx, disk, sz.windows_min_size, max, rest⟩)
        else if must = true then .die .insufficient_free_space
        else .ret (.inr (ictx.put BASE_DUALBOOT (cstr "1"), rest)) :
          Exec Die (SizeQuestion ⊕ (Ictx × List UInt8))).bind after_question := by
      cases resize with
      | true => rfl
      | false =>
        cases must with
        | true => rfl
        | false => rfl
    by_cases hcan : decide (sz.windows_min_size ≠ 0) = true
    · rw [if_pos hcan, if_pos hcan]
      exact Exec.bind_then fun r => htail r.1 r.2
    · rw [if_neg hcan, if_neg hcan]
      exact htail false stdin

/-- And so does the dialogue. -/
theorem partitioner_cli_eq :
    partitioner_cli ictx stdin = (partitioner_cli_until ictx stdin).bind after_question := by
  have hwipe (ictx : Ictx) (disk : CStr) (sz : DiskSizes) (stdin : List UInt8) :
      cli_wipe_disk ictx disk sz stdin =
        (cli_wipe_disk ictx disk sz stdin >>= fun res => .ret (.inr res)).bind after_question := by
    cases cli_wipe_disk ictx disk sz stdin with
    | ret res => rfl
    | die e => rfl
    | fault => rfl
    | hang => rfl
  rw [partitioner_cli, partitioner_cli_until]
  refine Exec.bind_then fun disks => Exec.bind_then fun disk_list => Exec.bind_then fun r =>
    Exec.bind_then fun sz => ?_
  by_cases hwin : sz.windows_size ≠ 0
  · rw [if_pos hwin, if_pos hwin]
    refine Exec.bind_then fun answer => ?_
    obtain ⟨dual, rest⟩ := answer
    simp only
    by_cases hdual : dual = true
    · rw [if_pos hdual, if_pos hdual]
      exact cli_dual_boot_eq
    · rw [if_neg hdual, if_neg hdual]
      exact hwipe ..
  · rw [if_neg hwin, if_neg hwin]
    exact hwipe ..

/-! ## When the question is asked -/

/-- The largest size Windows can keep when so much is required. -/
def DiskSizes.windows_max_size (sz : DiskSizes) (required_size : Int64) : Int64 :=
  let total_free_size := if sz.android_size ≠ 0 then sz.android_size else sz.free_size
  if total_free_size < required_size then sz.windows_size - (required_size - total_free_size)
  else sz.windows_size

/-- The numbers of a table of sizes are sizes. -/
structure DiskSizes.Bytes (sz : DiskSizes) : Prop where
  windows_size : 0 ≤ sz.windows_size.toInt
  windows_min_size : 0 ≤ sz.windows_min_size.toInt
  android_size : 0 ≤ sz.android_size.toInt
  free_size : 0 ≤ sz.free_size.toInt

/-- The question is asked about sizes that were read, with something missing made up for. -/
structure SizeQuestion.Of (q : SizeQuestion) (ictx : Ictx) (sz : DiskSizes) (required : UInt64) :
    Prop where
  read : read_sizes (ictx.put BASE_INSTALL_DISK q.disk).opts q.disk = .ret sz
  asked : get_all_space_required (ictx.put BASE_INSTALL_DISK q.disk).opts q.disk true =
    .ret required
  min : q.windows_min_size = sz.windows_min_size
  max : q.windows_max_size = sz.windows_max_size required.toInt64
  resizable : sz.windows_min_size ≠ 0
  nonneg : q.windows_max_size = sz.windows_size ∨ 0 ≤ q.windows_max_size.toInt

/-- A question for the new size has passed the comparison of the space. -/
theorem cli_dual_boot_until_asks (h : cli_dual_boot_until ictx disk sz stdin = .ret (.inl q)) :
    ∃ required, get_all_space_required ictx.opts disk true = .ret required ∧
      q.ictx = ictx ∧ q.disk = disk ∧ q.windows_min_size = sz.windows_min_size ∧
      q.windows_max_size = sz.windows_max_size required.toInt64 ∧ sz.windows_min_size ≠ 0 ∧
      (q.windows_max_size = sz.windows_size ∨ 0 ≤ q.windows_max_size.toInt) := by
  rw [cli_dual_boot_until] at h
  obtain ⟨required, hreq, h⟩ := Exec.bind_eq_ret.mp h
  refine ⟨required, hreq, ?_⟩
  rw [DiskSizes.windows_max_size]
  simp only at h ⊢
  generalize (if sz.android_size ≠ 0 then sz.android_size else sz.free_size) = total at h ⊢
  by_cases hmust : total < required.toInt64
  · -- the size left has been compared
    simp only [hmust, decide_true, if_true, true_and] at h ⊢
    split at h
    · cases h
    · rename_i hno
      rw [not_or, not_or] at hno
      obtain ⟨hneg, -, hcan⟩ := hno
      rw [not_not] at hcan
      rw [if_pos hcan] at h
      obtain ⟨⟨resize, rest⟩, -, h⟩ := Exec.bind_eq_ret.mp h
      cases resize with
      | false => cases h
      | true =>
        injection h with h
        injection h with h
        rw [← h]
        refine ⟨rfl, rfl, rfl, rfl, of_decide_eq_true hcan, .inr ?_⟩
        rw [Int64.not_lt, Int64.le_iff_toInt_le, Int64.toInt_zero] at hneg
        exact hneg
  · simp only [hmust, decide_false, if_false, false_and, Bool.false_eq_true] at h ⊢
    by_cases hcan : decide (sz.windows_min_size ≠ 0) = true
    · rw [if_pos hcan] at h
      obtain ⟨⟨resize, rest⟩, -, h⟩ := Exec.bind_eq_ret.mp h
      cases resize with
      | false => cases h
      | true =>
        injection h with h
        injection h with h
        rw [← h]
        exact ⟨rfl, rfl, rfl, rfl, of_decide_eq_true hcan, .inl rfl⟩
    · rw [if_neg hcan] at h
      cases h

/-- So has one that the dialogue comes to. -/
theorem partitioner_cli_until_asks (h : partitioner_cli_until ictx stdin = .ret (.inl q)) :
    ∃ sz required, q.Of ictx sz required := by
  rw [partitioner_cli_until] at h
  obtain ⟨disks, -, h⟩ := Exec.bind_eq_ret.mp h
  obtain ⟨disk_list, -, h⟩ := Exec.bind_eq_ret.mp h
  obtain ⟨⟨disk, rest⟩, -, h⟩ := Exec.bind_eq_ret.mp h
  simp only at h
  obtain ⟨sz, hsz, h⟩ := Exec.bind_eq_ret.mp h
  by_cases hwin : sz.windows_size ≠ 0
  · rw [if_pos hwin] at h
    obtain ⟨⟨dual, rest'⟩, -, h⟩ := Exec.bind_eq_ret.mp h
    cases dual with
    | true =>
      obtain ⟨required, hreq, -, hdisk, hmin, hmax, hcan, hnonneg⟩ := cli_dual_boot_until_asks h
      exact ⟨sz, required, by rw [hdisk]; exact hsz, by rw [hdisk]; exact hreq, hmin, hmax, hcan,
        hnonneg⟩
    | false =>
      obtain ⟨res, -, h⟩ := Exec.bind_eq_ret.mp h
      cases h
  · rw [if_neg hwin] at h
    obtain ⟨res, -, h⟩ := Exec.bind_eq_ret.mp h
    cases h

end Question

/-! ## One line of input -/

/-- A line that is not empty is taken if its number is between the bounds; otherwise the
question is asked again. -/
theorem ui_get_value_line {buf : CStr} {dfl min max : Int64} {line rest : List UInt8}
    (hne : line ≠ []) (h10 : 10 ∉ line) (hfits : line.length < 4095) :
    ui_get_value buf dfl min max (line ++ 10 :: rest) =
      if (strtoull (line ++ [10])).2 = true ∨
          (strtoull (line ++ [10])).1.toUInt32.toUInt64.toInt64 < min ∨
          max < (strtoull (line ++ [10])).1.toUInt32.toUInt64.toInt64 then
        ui_get_value_again dfl min max (line.length + rest.length + 1) (line ++ [10]) rest
      else .ret ((strtoull (line ++ [10])).1.toUInt32.toUInt64.toInt64, rest) := by
  have hfuel : (line ++ 10 :: rest).length = line.length + rest.length + 1 := by
    rw [List.length_append, List.length_cons]
    omega
  rw [ui_get_value, hfuel, ui_get_value_again, fgets_into, fgets_line h10 hfits]
  cases line with
  | nil => exact absurd rfl hne
  | cons c line =>
    have hc : (c :: (line ++ [10])).head? ≠ some 10 := by
      intro h
      rw [List.head?_cons, Option.some.injEq] at h
      exact h10 (h ▸ List.mem_cons_self)
    simp only [List.cons_append]
    rw [if_neg hc]

/-- An answer that has been refused is refused for ever at the end of the input. -/
theorem ui_get_value_again_nil {buf : CStr} {dfl min max : Int64} (h10 : buf.head? ≠ some 10)
    (hbad : (strtoull buf).2 = true ∨ (strtoull buf).1.toUInt32.toUInt64.toInt64 < min ∨
      max < (strtoull buf).1.toUInt32.toUInt64.toInt64) (fuel : ℕ) :
    ui_get_value_again dfl min max fuel buf [] = .hang := by
  induction fuel with
  | zero => rfl
  | succ fuel ih =>
    rw [ui_get_value_again, show fgets_into buf 4095 [] = (buf, []) from rfl]
    simp only
    rw [if_neg h10, if_pos hbad]
    exact ih

/-- A positive number is typed in decimal. -/
theorem strtoull_dec {n : ℕ} (hpos : 0 < n) (hlt : n < 2 ^ 64) :
    strtoull (dec n ++ [10]) = (UInt64.ofNat n, false) := by
  have hnum := number_dec_before n (newline_no_digit [])
  obtain ⟨d, ds, hd, hs⟩ := decDigits_head_ne hpos (Nat.lt_succ_self n)
  have hdec : dec n = d :: ds := hs
  have hmem : d ∈ dec n := hdec ▸ List.mem_cons_self
  obtain ⟨k, hk, hdk⟩ := mem_decDigits hmem
  obtain ⟨-, hspace, hminus, hplus⟩ := digit_decimal hk
  rw [← hdk] at hspace hminus hplus
  have hdigits : strtoull_digits (d :: (ds ++ [10])) = number 10 (d :: (ds ++ [10])) := by
    unfold strtoull_digits
    split
    · rename_i c rest heq
      injection heq with heq _
      exact absurd heq hd
    · rfl
  have hsmall : ¬ 2 ^ 64 ≤ n := Nat.not_le.mpr hlt
  rw [hdec, List.cons_append] at hnum ⊢
  rw [strtoull, List.dropWhile_cons_of_neg (by rw [hspace]; decide)]
  simp only [hminus, hplus, or_self, if_false, hdigits, hnum, hsmall]

/-- A number of at most `k` digits. -/
theorem length_dec_le {n k : ℕ} (hk : 0 < k) (hn : n < 10 ^ k) : (dec n).length ≤ k := by
  have hdigits : ∀ fuel n, n < 10 ^ k → (decDigits fuel n).length ≤ k := by
    clear hn
    induction k with
    | zero => exact absurd hk (Nat.lt_irrefl 0)
    | succ k ih =>
      intro fuel n hn
      cases fuel with
      | zero => exact Nat.zero_le _
      | succ fuel =>
        rw [decDigits]
        split_ifs with hlt
        · exact Nat.succ_le_succ (Nat.zero_le k)
        · have hpos : 0 < k := by
            by_contra hzero
            have hk0 : k = 0 := by omega
            rw [hk0] at hn
            omega
          have hdiv : n / 10 < 10 ^ k := by
            rw [Nat.pow_succ] at hn
            omega
          rw [List.length_append, List.length_singleton]
          exact Nat.succ_le_succ (ih hpos fuel (n / 10) hdiv)
  exact hdigits _ n hn

/-! ## The bounds -/

/-- The lower bound in MiB, rounded up. -/
theorem min_mib_toInt {x : Int64} (h : 0 ≤ x.toInt) :
    (to_mib x.toUInt64).toInt64.toInt = (x.toInt + (2 ^ 20 - 1)) / 2 ^ 20 := by
  obtain ⟨hnat, hlt⟩ := toNat_toUInt64_of_nonneg h
  have hmib : (to_mib x.toUInt64).toNat = (x.toUInt64.toNat + (2 ^ 20 - 1)) / 2 ^ 20 :=
    to_mib_toNat (by omega)
  rw [toInt_toInt64_of_lt (by omega), hmib]
  omega

theorem max_mib_toInt {x : Int64} (h : 0 ≤ x.toInt) :
    (to_mib_floor x.toUInt64).toInt64.toInt = x.toInt / 2 ^ 20 := by
  obtain ⟨hnat, hlt⟩ := toNat_toUInt64_of_nonneg h
  have hmib := to_mib_floor_toNat x.toUInt64
  rw [toInt_toInt64_of_lt (by omega), hmib]
  omega

/-- A whole number of MiB, no more than an `unsigned int` counts, is between two sizes. -/
def WholeMib (lo hi : ℤ) : Prop := ∃ n : ℕ, n < 2 ^ 32 ∧ lo ≤ n * 2 ^ 20 ∧ n * 2 ^ 20 ≤ hi

/-- There is a whole MiB between two bounds if the rounded ones do not cross. -/
theorem wholeMib_iff {lo hi : ℤ} (hlo : 0 ≤ lo) :
    WholeMib lo hi ↔ (lo + (2 ^ 20 - 1)) / 2 ^ 20 ≤ hi / 2 ^ 20 ∧
      (lo + (2 ^ 20 - 1)) / 2 ^ 20 < 2 ^ 32 := by
  constructor
  · rintro ⟨n, hn, hlo', hhi⟩
    omega
  · rintro ⟨hle, hlt⟩
    refine ⟨((lo + (2 ^ 20 - 1)) / 2 ^ 20).toNat, ?_, ?_, ?_⟩ <;> omega

/-! ## Feasible answers -/

section Feasible

variable [Stack] {ictx ictx' : Ictx} {stdin stdin' : List UInt8} {q : SizeQuestion}

/-- There is a number whose line is taken, whatever is typed next. -/
def SizeQuestion.Typable (q : SizeQuestion) : Prop :=
  ∃ n : ℕ, (dec n).length < 4095 ∧ ∀ rest, ∃ v, q.ask (dec n ++ 10 :: rest) = .ret (v, rest)

omit [Stack] in
/-- A printed number can be typed as a line. -/
theorem dec_line (n : ℕ) : dec n ≠ [] ∧ 10 ∉ dec n := by
  refine ⟨dec_ne_nil n, fun h => ?_⟩
  obtain ⟨d, hd, h⟩ := mem_decDigits h
  interval_cases d <;> revert h <;> decide

/-- A size can be typed exactly if there is a whole MiB. -/
theorem typable_iff (hmin : 0 < q.windows_min_size.toInt) (hmax : 0 ≤ q.windows_max_size.toInt) :
    q.Typable ↔ WholeMib q.windows_min_size.toInt q.windows_max_size.toInt := by
  rw [wholeMib_iff hmin.le]
  have hlo := min_mib_toInt hmin.le
  have hhi := max_mib_toInt hmax
  constructor
  · rintro ⟨n, hfits, htaken⟩
    obtain ⟨v, hask⟩ := htaken []
    obtain ⟨hne, h10⟩ := dec_line n
    rw [SizeQuestion.ask, ui_get_value_line hne h10 hfits] at hask
    -- A line that is refused would have to be followed by another one, and there is none.
    split_ifs at hask with hbad
    · have hhead : (dec n ++ [10]).head? ≠ some 10 := by
        rw [List.head?_append_of_ne_nil _ hne]
        exact fun h => h10 (List.mem_of_mem_head? h)
      rw [ui_get_value_again_nil hhead hbad] at hask
      cases hask
    · rw [not_or, not_or, Int64.not_lt, Int64.not_lt, Int64.le_iff_toInt_le,
        Int64.le_iff_toInt_le, hlo, hhi] at hbad
      obtain ⟨-, hge, hle⟩ := hbad
      have hu32 := (strtoull (dec n ++ [10])).1.toUInt32.toNat_lt
      rw [toInt_toInt64_of_lt (by rw [UInt32.toNat_toUInt64]; omega), UInt32.toNat_toUInt64] at hge hle
      omega
  · rintro ⟨hle, hlt⟩
    -- Conversely the smallest whole MiB can be typed: its number has ten digits at most.
    obtain ⟨n, hn⟩ : ∃ n : ℕ, (q.windows_min_size.toInt + (2 ^ 20 - 1)) / 2 ^ 20 = n :=
      ⟨((q.windows_min_size.toInt + (2 ^ 20 - 1)) / 2 ^ 20).toNat, by omega⟩
    rw [hn] at hle hlt hlo
    have hpos : 0 < n := by omega
    have hn32 : n < 2 ^ 32 := by omega
    have hten : n < 10 ^ 10 := by omega
    have hlength : (dec n).length ≤ 10 := length_dec_le (by decide) hten
    obtain ⟨hne, h10⟩ := dec_line n
    refine ⟨n, by omega, fun rest => ?_⟩
    rw [SizeQuestion.ask, ui_get_value_line hne h10 (by omega), strtoull_dec hpos (by omega)]
    have hresult : (UInt64.ofNat n).toUInt32.toUInt64.toInt64.toInt = n := by
      have hnat : (UInt64.ofNat n).toUInt32.toUInt64.toNat = n := by
        rw [UInt32.toNat_toUInt64, UInt64.toNat_toUInt32, UInt64.toNat_ofNat']
        omega
      rw [toInt_toInt64_of_lt (by omega), hnat]
    rw [if_neg]
    · exact ⟨_, rfl⟩
    · rw [not_or, not_or, Int64.not_lt, Int64.not_lt, Int64.le_iff_toInt_le,
        Int64.le_iff_toInt_le, hlo, hhi, hresult]
      exact ⟨Bool.false_ne_true, le_refl _, hle⟩

/-- With a whole MiB between the sizes, every answer is between them. -/
theorem answer_feasible (hmin : 0 < q.windows_min_size.toInt)
    (hmax : 0 ≤ q.windows_max_size.toInt)
    (hmib : WholeMib q.windows_min_size.toInt q.windows_max_size.toInt)
    (h : q.answer = .ret (ictx', stdin')) :
    ∃ v : ℕ, ictx'.opts (disk_key q.disk "windows_resize") = some (dec v) ∧
      q.windows_min_size.toInt ≤ v ∧ v ≤ q.windows_max_size.toInt := by
  have hbounds := (wholeMib_iff hmin.le).mp hmib
  have hlo := min_mib_toInt hmin.le
  have hhi := max_mib_toInt hmax
  have hsize := q.windows_max_size.toInt_lt
  rw [SizeQuestion.answer] at h
  obtain ⟨⟨value, rest⟩, hask, h⟩ := Exec.bind_eq_ret.mp h
  injection h with h
  injection h with hictx _
  -- an empty line is the largest size, which is in the range
  have hrange : (q.windows_min_size.toInt + (2 ^ 20 - 1)) / 2 ^ 20 ≤ value.toInt ∧
      value.toInt ≤ q.windows_max_size.toInt / 2 ^ 20 := by
    rcases ui_get_value_range hask with hdfl | ⟨hge, hle⟩
    · rw [hdfl, hhi]
      exact ⟨hbounds.1, le_refl _⟩
    · rw [Int64.le_iff_toInt_le, hlo] at hge
      rw [Int64.le_iff_toInt_le, hhi] at hle
      exact ⟨hge, hle⟩
  have hnonneg : 0 ≤ value.toInt := by omega
  obtain ⟨hnat, -⟩ := toNat_toUInt64_of_nonneg hnonneg
  refine ⟨(value.toUInt64 <<< 20).toNat, ?_, ?_, ?_⟩
  · have hkey : disk_key q.disk "windows_resize" ≠ BASE_DUALBOOT :=
      disk_key_ne (by decide)
    rw [← hictx, put_of_ne _ hkey, put_self]
  · rw [shiftLeft_mib_toNat]
    omega
  · rw [shiftLeft_mib_toNat]
    omega

/-- The size that is stored is feasible, and when it is asked for, some number will do. -/
structure SizesFeasible (ictx : Ictx) (stdin : List UInt8) : Prop where
  stored : ∀ q ictx' stdin', partitioner_cli_until ictx stdin = .ret (.inl q) →
    partitioner_cli ictx stdin = .ret (ictx', stdin') →
      ∃ v : ℕ, ictx'.opts (disk_key q.disk "windows_resize") = some (dec v) ∧
        q.windows_min_size.toInt ≤ v ∧ v ≤ q.windows_max_size.toInt
  typable : ∀ q, partitioner_cli_until ictx stdin = .ret (.inl q) → q.Typable

/-- **The size chosen is feasible exactly if there is a whole MiB to choose.** -/
theorem windows_size_feasible_iff
    (hsz : ∀ q sz, partitioner_cli_until ictx stdin = .ret (.inl q) →
      read_sizes (ictx.put BASE_INSTALL_DISK q.disk).opts q.disk = .ret sz → sz.Bytes) :
    SizesFeasible ictx stdin ↔
      ∀ q, partitioner_cli_until ictx stdin = .ret (.inl q) →
        WholeMib q.windows_min_size.toInt q.windows_max_size.toInt := by
  -- Where the question is asked, both sizes are known to have the right signs.
  have hsizes : ∀ q, partitioner_cli_until ictx stdin = .ret (.inl q) →
      0 < q.windows_min_size.toInt ∧ 0 ≤ q.windows_max_size.toInt := by
    intro q hq
    obtain ⟨sz, required, hof⟩ := partitioner_cli_until_asks hq
    have hbytes := hsz q sz hq hof.read
    constructor
    · have hne : sz.windows_min_size.toInt ≠ 0 := fun h0 =>
        hof.resizable (Int64.toInt_inj.mp h0)
      rw [hof.min]
      exact lt_of_le_of_ne hbytes.windows_min_size hne.symm
    · rcases hof.nonneg with hmax | hmax
      · rw [hmax]
        exact hbytes.windows_size
      · exact hmax
  constructor
  · intro hfeasible q hq
    obtain ⟨hmin, hmax⟩ := hsizes q hq
    exact (typable_iff hmin hmax).mp (hfeasible.typable q hq)
  · intro hmib
    constructor
    · intro q ictx' stdin' hq hret
      obtain ⟨hmin, hmax⟩ := hsizes q hq
      rw [partitioner_cli_eq, hq] at hret
      exact answer_feasible hmin hmax (hmib q hq) hret
    · intro q hq
      obtain ⟨hmin, hmax⟩ := hsizes q hq
      exact (typable_iff hmin hmax).mpr (hmib q hq)

end Feasible

/-! ## Sizes with no whole MiB between them -/

section Crossed

attribute [local instance] clean_stack

/-- 400 MB free where 350 MiB are needed, and a Windows partition of 10485765 bytes that can
be shrunk to 10485761. -/
def crossed_opts : Hashmap := fun key =>
  if key = BASE_DISK_LIST then some (cstr "sda")
  else if key = BASE_PTN_LIST then some (cstr "data")
  else if key = partition_key (cstr "data") "len" then some (cstr "-1")
  else if key = disk_key (cstr "sda") "size" then some (cstr "1000000000")
  else if key = disk_key (cstr "sda") "model" then some (cstr "disk")
  else if key = disk_key (cstr "sda") "msdata_size" then some (cstr "10485765")
  else if key = disk_key (cstr "sda") "msdata_minsize" then some (cstr "10485761")
  else if key = disk_key (cstr "sda") "free_size" then some (cstr "400000000")
  else none

def crossed : Ictx := ⟨crossed_opts, fun _ => none⟩

/-- Three empty lines: dual boot, resize, and the default size. -/
def empty_lines : List UInt8 := [10, 10, 10]

/-- The example comes to a question whose bounds are five bytes apart. -/
theorem crossed_question : ∃ q, partitioner_cli_until crossed empty_lines = .ret (.inl q) ∧
    q.disk = cstr "sda" ∧ q.windows_min_size = 10485761 ∧ q.windows_max_size = 10485765 :=
  ⟨_, rfl, rfl, rfl, rfl⟩

/-- 10 MiB are stored, which is less than Windows can be shrunk to, and no number is taken. -/
theorem crossed_not_feasible :
    (∃ ictx', partitioner_cli crossed empty_lines = .ret (ictx', []) ∧
      ictx'.opts (disk_key (cstr "sda") "windows_resize") = some (dec (10 * 2 ^ 20))) ∧
    (∃ q, partitioner_cli_until crossed empty_lines = .ret (.inl q) ∧ ¬ q.Typable) ∧
    ¬ SizesFeasible crossed empty_lines := by
  obtain ⟨q, hq, -, hmin, hmax⟩ := crossed_question
  have hmin' : q.windows_min_size.toInt = 10485761 := by
    rw [hmin]
    rfl
  have hmax' : q.windows_max_size.toInt = 10485765 := by
    rw [hmax]
    rfl
  have hnone : ¬ q.Typable := by
    rw [typable_iff (by omega) (by omega), hmin', hmax']
    rintro ⟨n, -, hlo, hhi⟩
    omega
  exact ⟨⟨_, rfl, rfl⟩, ⟨q, hq, hnone⟩, fun hfeasible => hnone (hfeasible.typable q hq)⟩

/-- What the theorem says of it. -/
theorem crossed_feasible_iff :
    SizesFeasible crossed empty_lines ↔
      ∀ q, partitioner_cli_until crossed empty_lines = .ret (.inl q) →
        WholeMib q.windows_min_size.toInt q.windows_max_size.toInt := by
  refine windows_size_feasible_iff fun q sz hq hsz => ?_
  obtain ⟨q', hq', hdisk, -⟩ := crossed_question
  rw [hq'] at hq
  injection hq with hq
  injection hq with hq
  subst hq
  rw [hdisk] at hsz
  have hread : read_sizes (crossed.put BASE_INSTALL_DISK (cstr "sda")).opts (cstr "sda") =
      .ret ⟨10485765, 10485761, 1000000000, 0, 400000000⟩ := rfl
  rw [hread] at hsz
  injection hsz with hsz
  subst hsz
  constructor <;> decide

end Crossed

end Iago
