/-
Whether `gpt_read` comes to an end.

`robust_read` repeats `read` until it has all the bytes it was asked for. A `read`
at the end of the device returns 0, which is no progress and no failure, so a
request that reaches past the end is repeated for ever. Where the requests of
`gpt_read` lie is for the disk to say: the type byte of the MBR, 92 bytes of a
header, and an array whose place and size the header states. `lseek64` refuses a
start past the end, but nothing looks at where the request stops.

`Readable` says of one copy what it takes: the header and the array it points to
are on the device, and the two things the code reads from memory on the strength of
the header are inside the objects they belong to. `gpt_read_answers_iff` shows that
to be exact, whatever the lengths of the single transfers.
-/
import Iago.Calls
import Iago.GptRoundTrip

set_option autoImplicit false

namespace Iago

/-! ## The requests that end -/

section Requests

variable {ε : Type} {d : Dev}

/-- A request for bytes that are on the device is served after finitely many calls,
and takes nothing of what follows them. The induction is on the bytes to come: a call
that is not interrupted leaves fewer. -/
theorem robust_read_ends {pos count : ℕ} (hfit : pos + count ≤ d.size) (buf : List UInt8)
    (c : Calls) : ∃ n, ∀ rs, robust_read (ε := ε) d false (c.first n ++ rs) pos count buf
      = .ret (((buf.length + count : ℕ) : Int), buf ++ d.data.read pos count, rs) := by
  induction count using Nat.strong_induction_on generalizing pos buf c with
  | _ count ih =>
    induction c using Calls.induct with
    | call c hcall =>
      -- One call that is not interrupted, as the source's loop sees it.
      have hread : ∀ rs, robust_read (ε := ε) d false (c.outcome 0 :: rs) pos count buf =
          let ret := (c.outcome 0).amount (min count (d.size - pos))
          if count - ret ≠ 0 ∧ false = false then
            robust_read d false rs (pos + ret) (count - ret) (buf ++ d.data.read pos ret)
          else .ret ((buf ++ d.data.read pos ret).length, buf ++ d.data.read pos ret, rs) := by
        intro rs
        rw [robust_read]
        · exact c.noErr 0
        · exact hcall
      simp only at hread
      have hle := IoRes.amount_le (c.outcome 0) (min count (d.size - pos))
      generalize hret : (c.outcome 0).amount (min count (d.size - pos)) = ret at hread hle
      by_cases hrest : count - ret = 0
      · refine ⟨1, fun rs => ?_⟩
        rw [Calls.first_succ, List.cons_append, hread, if_neg fun h => h.1 hrest,
          show ret = count by omega, List.length_append, Store.length_read]
        rfl
      · have hpos : 0 < ret := by
          rw [← hret]
          exact c.amount_pos hcall (by omega)
        have hfit' : pos + ret + (count - ret) ≤ d.size := by omega
        obtain ⟨n, hn⟩ := ih (count - ret) (by omega) hfit'
          (buf ++ d.data.read pos ret) (c.after 1)
        refine ⟨n + 1, fun rs => ?_⟩
        rw [Calls.first_succ, List.cons_append, hread, if_pos ⟨hrest, trivial⟩, hn,
          List.append_assoc, Store.read_append, List.length_append, Store.length_read,
          show ret + (count - ret) = count by omega,
          show buf.length + ret + (count - ret) = buf.length + count by omega]
    | skip c hintr hc =>
      obtain ⟨n, hn⟩ := hc
      by_cases hcount : count = 0
      · refine ⟨1, fun rs => ?_⟩
        rw [Calls.first_succ, List.cons_append, hintr, robust_read, if_neg fun h => h.1 hcount,
          hcount]
        simp [Store.read]
      · refine ⟨n + 1, fun rs => ?_⟩
        rw [Calls.first_succ, List.cons_append, hintr, robust_read, if_pos ⟨hcount, rfl⟩, hn]

end Requests

/-! ## One copy

`copy_at` is what the code reads at a place once the calls are out of the way, and
hangs where a request is not served. Everywhere else the calls come to an end. -/

section Copy

variable {ε : Type} [Platform] {d : Dev} {g : Gpt}

/-- `read_gpt_data` behind the header: the array, and the byte swap of its entries. -/
def read_gpt_array (d : Dev) (g : Gpt) (rs : List IoRes) : Exec ε (Int × Gpt × List IoRes) := do
  let (ret, g, rs) ← read_gpt_entries d rs g
  if ret < 0 then .ret (ret, g, rs)
  else do
    let g ← gpt_entries_bytes_to_host g
    .ret (0, g, rs)

/-- What may be left of `g`: another header and another array. -/
def OnlyCopy (g : Gpt) (out : List IoRes → Int × Gpt × List IoRes) : Prop :=
  ∃ r h es, out = fun rs => (r, { g with header := h, entries := es }, rs)

/-- It ends where `check_entries` does. -/
theorem read_gpt_array_ends {h : GptHeader} (hend : check_entries (ε := ε) d g h ≠ .hang)
    (c : Calls) : Ends (read_gpt_array (ε := ε) d (g.withHeader h)) c (OnlyCopy g) := by
  rw [check_entries_eq] at hend
  simp only at hend
  by_cases hseek : (g.lba_offset h.pentry_start_lba).toNat ≤ d.size
  swap
  · -- the array is not looked for, and forgotten
    refine .ret ⟨- EIO, h, .null, rfl⟩ fun rs => ?_
    have hno : ¬ lseek64 d (g.lba_offset h.pentry_start_lba) = true := by rwa [lseek64_eq]
    have hout : read_gpt_entries (ε := ε) d rs (g.withHeader h)
        = .ret (- EIO, { g with header := h, entries := .null }, rs) := by
      rw [read_gpt_entries]
      change (if lseek64 d (g.lba_offset h.pentry_start_lba) = true then _ else _) = _
      rw [if_neg hno]
      rfl
    rw [read_gpt_array, hout, Exec.ret_bind]
    rfl
  rw [if_pos hseek] at hend
  by_cases hfit : (g.lba_offset h.pentry_start_lba).toNat + h.entries_size.toNat ≤ d.size
  swap
  · rw [if_neg hfit] at hend
    exact absurd rfl hend
  obtain ⟨n, hn⟩ := robust_read_ends (ε := ε) hfit [] c
  obtain ⟨arr, harr⟩ : ∃ arr, d.data.read (g.lba_offset h.pentry_start_lba).toNat
      h.entries_size.toNat = arr := ⟨_, rfl⟩
  have hlen : arr.length = h.entries_size.toNat := by rw [← harr, Store.length_read]
  rw [List.length_nil, Nat.zero_add, List.nil_append, harr, ← hlen] at hn
  have hdid : ∀ rs, read_gpt_entries (ε := ε) d (c.first n ++ rs) (g.withHeader h) =
      if htole32 (Platform.crc32 arr) ≠ h.pentry_crc32 then
        .ret (-EINVAL, { g with header := h, entries := .null }, rs)
      else .ret (0, (g.withHeader h).withBuf arr, rs) := fun rs =>
    read_gpt_entries_of_read (g := g.withHeader h)
      (by rw [lseek64_eq]; exact hseek) hlen (by rw [← hn rs, hlen]; rfl)
  by_cases hcrc : htole32 (Platform.crc32 arr) = h.pentry_crc32
  swap
  · refine .after (n := n) (fun rs => ?_) (.ret ⟨-EINVAL, h, .null, rfl⟩ fun rs => rfl)
    rw [read_gpt_array, hdid, if_pos hcrc, Exec.ret_bind]
    rfl
  -- the entries are swapped without another call
  rcases for_each_slot_cases (ε := ε) (g := (g.withHeader h).withBuf arr) rfl hlen
    entry_bytes_to_host with ⟨buf, hswap⟩ | hswap
  · refine .after (n := n) (fun rs => ?_) (.ret ⟨0, h, .live buf, rfl⟩ fun rs => rfl)
    rw [read_gpt_array, hdid, if_neg (not_not.mpr hcrc), Exec.ret_bind]
    simp only
    rw [if_neg (by decide), gpt_entries_bytes_to_host, hswap, Exec.ret_bind]
    rfl
  · refine .after (n := n) (fun rs => ?_) (.fault fun rs => rfl)
    rw [read_gpt_array, hdid, if_neg (not_not.mpr hcrc), Exec.ret_bind]
    simp only
    rw [if_neg (by decide), gpt_entries_bytes_to_host, hswap, Exec.fault_bind]

/-- Reading a copy ends where `copy_at` does. -/
theorem read_gpt_data_ends {primary : Bool}
    (hend : copy_at (ε := ε) d g (g.copy_lba primary) ≠ .hang) (c : Calls) :
    Ends (fun rs => read_gpt_data (ε := ε) d rs primary g) c (OnlyCopy g) := by
  rw [copy_at_eq] at hend
  simp only at hend
  by_cases hseek : (g.lba_offset (g.copy_lba primary)).toNat ≤ d.size
  swap
  · refine .ret ⟨- EIO, g.header, g.entries, rfl⟩ fun rs => ?_
    have hno : ¬ lseek64 d (g.lba_offset (g.copy_lba primary)) = true := by rwa [lseek64_eq]
    rw [read_gpt_data, read_gpt_header, ← Gpt.copy_lba, if_neg hno]
    rfl
  rw [if_pos hseek] at hend
  by_cases hfit : (g.lba_offset (g.copy_lba primary)).toNat + 92 ≤ d.size
  swap
  · rw [if_neg hfit] at hend
    exact absurd rfl hend
  rw [if_pos hfit] at hend
  obtain ⟨n, hn⟩ := robust_read_ends (ε := ε) hfit [] c
  rw [List.length_nil, Nat.zero_add, List.nil_append] at hn
  have hdid := fun rs => read_gpt_header_of_read (g := g) (by rw [lseek64_eq]; exact hseek)
    (Store.length_read _ _ _) (hn rs)
  rcases check_header_cases (ε := ε) (d.data.read (g.lba_offset (g.copy_lba primary)).toNat 92)
    with ⟨_ | h, hsaid⟩ | hfault
  · refine .after (n := n) (fun rs => ?_) (.ret ⟨-EINVAL, GptHeader.codec.dec
      (d.data.read (g.lba_offset (g.copy_lba primary)).toNat 92), g.entries, rfl⟩ fun rs => rfl)
    rw [read_gpt_data, hdid, hsaid]
    rfl
  · -- the header passes, and its array is read
    rw [hsaid, Exec.ret_bind] at hend
    have hentries : check_entries (ε := ε) d g h ≠ .hang := by
      intro hhang
      simp only at hend
      rw [hhang] at hend
      exact hend rfl
    refine .after (n := n) (fun rs => ?_) (read_gpt_array_ends hentries (c.after n))
    rw [read_gpt_data, hdid, hsaid]
    rfl
  · refine .after (n := n) (fun rs => ?_) (.fault fun rs => rfl)
    rw [read_gpt_data, hdid, hfault]
    rfl

/-- A failed attempt at a copy means that there is none. -/
theorem copy_at_of_failed {primary : Bool} {rs rs' : List IoRes} {r : Int} {g' : Gpt}
    (hrs : .err ∉ rs) (hret : read_gpt_data (ε := ε) d rs primary g = .ret (r, g', rs'))
    (hr : r < 0) : copy_at (ε := ε) d g (g.copy_lba primary) = .ret none := by
  rcases read_gpt_data_eq (ε := ε) (d := d) (g := g) hrs primary with ⟨hstuck, -⟩ | hreports
  · rw [hstuck] at hret
    cases hret
  rw [hret] at hreports
  rcases hsaid : copy_at (ε := ε) d g (g.copy_lba primary) with ⟨_ | ⟨h, buf⟩⟩ | e | _ | _
  · rfl
  · rw [hsaid] at hreports
    obtain ⟨rs'', -, heq⟩ := hreports
    simp only [Exec.ret.injEq, Prod.mk.injEq] at heq
    omega
  · rw [hsaid] at hreports
    exact hreports.elim
  · rw [hsaid] at hreports
    cases hreports
  · rw [hsaid] at hreports
    cases hreports

end Copy

/-! ## `gpt_read` -/

section Read

variable {ε : Type} [Platform] {d : Dev} {g : Gpt}

/-- `gpt_read` ends exactly where `table_on` does, whatever the calls transfer. -/
theorem gpt_read_ends_iff (c : Calls) :
    (∃ n, gpt_read (ε := ε) d (c.first n) g ≠ .hang) ↔ table_on (ε := ε) d g ≠ .hang := by
  constructor
  · rintro ⟨n, hn⟩ htable
    rcases gpt_read_eq (ε := ε) (d := d) (g := g) (c.err_not_mem_first n) with ⟨hhang, -⟩ | hread
    · exact hn hhang
    · rw [htable] at hread
      exact hn hread
  intro hend
  suffices hends : Ends (fun rs => gpt_read (ε := ε) d rs g) c fun _ => True from
    hends.exists_ne_hang
  by_cases hseek : lseek64 d (0x1be + 0x4)
  swap
  · have hret (rs : List IoRes) : gpt_read (ε := ε) d rs g = .ret (- EIO, g, rs) := by
      rw [gpt_read, if_neg hseek]
    exact .ret trivial hret
  rw [table_on, if_pos hseek, Dev.get] at hend
  by_cases hfit : 450 + 1 ≤ d.size
  swap
  · rw [if_neg hfit] at hend
    exact absurd rfl hend
  rw [if_pos hfit, Exec.ret_bind] at hend
  obtain ⟨n, hn⟩ := robust_read_ends (ε := ε) hfit [] c
  have hfirst : ∀ rs, gpt_read (ε := ε) d (c.first n ++ rs) g =
      if (d.data.read 450 1).headD 0 ≠ 0xee then .ret (-EINVAL, g, rs)
      else read_gpt_data d rs true g >>= fun (ret, g, rs) =>
        if ret < 0 then read_gpt_data d rs false g >>= fun (ret, g, rs) =>
          if ret < 0 then .ret (-EINVAL, g, rs) else .ret (0, g, rs)
        else .ret (0, g, rs) := by
    intro rs
    rw [gpt_read, if_pos hseek]
    show (robust_read d false (c.first n ++ rs) 450 1 [] >>= _) = _
    rw [hn]
    rfl
  refine .after (n := n) hfirst ?_
  by_cases htype : (d.data.read 450 1).headD 0 = 0xee
  swap
  · exact .ret trivial fun rs => if_pos htype
  simp only [if_neg (not_not.mpr htype)] at hend ⊢
  -- the primary copy, and the backup copy from whatever the first attempt leaves
  have hprimary : copy_at (ε := ε) d g (g.copy_lba true) ≠ .hang := by
    intro hhang
    rw [hhang] at hend
    exact hend rfl
  refine (read_gpt_data_ends hprimary (c.after n)).bind fun m out hout hret => ?_
  obtain ⟨r, h, es, rfl⟩ := hout
  by_cases hr : r < 0
  swap
  · exact .ret trivial fun rs => if_neg hr
  simp only [if_pos hr]
  have hfailed := hret []
  rw [List.append_nil] at hfailed
  have hnone := copy_at_of_failed ((c.after n).err_not_mem_first m) hfailed hr
  rw [hnone, Exec.ret_bind] at hend
  refine (@read_gpt_data_ends ε _ d { g with header := h, entries := es } false hend _).bind
    fun k out hout _ => ?_
  obtain ⟨r', h', es', rfl⟩ := hout
  by_cases hr' : r' < 0
  · exact .ret trivial fun rs => if_pos hr'
  · exact .ret trivial fun rs => if_neg hr'

end Read

/-! ## What the disk has to be like -/

section Disk

variable {ε : Type} [Platform] {d : Dev} {g : Gpt} {base : ℕ}

/-- **When the copy at `base` can be read to the end**: if the code can seek to its
header, the header is on the device and no longer than the struct it is checksummed
in; if it passes and the code can seek to its array, the array is on the device; and
if that passes too, the numbers of its entries are inside it. -/
structure Readable (d : Dev) (lba_size base : ℕ) : Prop where
  header_on_disk : base ≤ d.size → base + 92 ≤ d.size
  header_size : base ≤ d.size → d.data.read base 8 = efi_part →
    (d.header base).header_size.toNat ≤ 92
  array_on_disk : base ≤ d.size → HeaderPasses d base →
    array_start lba_size (d.header base) ≤ d.size →
    array_start lba_size (d.header base) + (d.header base).entries_size.toNat ≤ d.size
  slots : base ≤ d.size → HeaderPasses d base → ArrayPasses d lba_size base →
    (d.header base).Hold 56

/-- The copy at `base` passes the code's tests. -/
def Accepts (d : Dev) (lba_size base : ℕ) : Prop :=
  base ≤ d.size ∧ HeaderPasses d base ∧ ArrayPasses d lba_size base

/-- The end of the device cuts the copy at `base` off, its header or the array a header
that passes points to. -/
def CutOff (d : Dev) (lba_size base : ℕ) : Prop :=
  d.size < base + 92 ∨ HeaderPasses d base ∧
    d.size < array_start lba_size (d.header base) + (d.header base).entries_size.toNat

/-- What looking at a copy comes to. -/
theorem copy_at_readable {lba : UInt64} (hbase : (g.lba_offset lba).toNat = base) :
    ((copy_at (ε := ε) d g lba = .hang ∨ copy_at (ε := ε) d g lba = .fault) ∧
      ¬ Readable d g.lba_size.toNat base) ∨
    (copy_at (ε := ε) d g lba = .ret none ∧ Readable d g.lba_size.toNat base ∧
      ¬ Accepts d g.lba_size.toNat base) ∨
    ∃ copy, copy_at (ε := ε) d g lba = .ret (some copy) ∧ Readable d g.lba_size.toNat base ∧
      Accepts d g.lba_size.toNat base ∧ ¬ CutOff d g.lba_size.toNat base := by
  have hend := copy_at_end (ε := ε) (d := d) hbase
  generalize copy_at (ε := ε) d g lba = said at hend ⊢
  -- In each end one of the four demands of Readable settles both sides.
  cases hend with
  | no_seek hseek =>
    right; left
    exact ⟨rfl, ⟨fun h => absurd h hseek, fun h => absurd h hseek, fun h => absurd h hseek,
      fun h => absurd h hseek⟩, fun h => hseek h.1⟩
  | header_cut hseek hfit =>
    left
    exact ⟨.inl rfl, fun h => hfit (h.header_on_disk hseek)⟩
  | no_sig hfit hsig =>
    right; left
    exact ⟨rfl, ⟨fun _ => hfit, fun _ h => absurd h hsig, fun _ h => absurd h.1 hsig,
      fun _ h => absurd h.1 hsig⟩, fun h => hsig h.2.1.1⟩
  | long_header hseek hsig hsize =>
    left
    exact ⟨.inr rfl, fun h => hsize (h.header_size hseek hsig)⟩
  | bad_header hfit hsize hpass =>
    right; left
    exact ⟨rfl, ⟨fun _ => hfit, fun _ _ => hsize, fun _ h => absurd h hpass,
      fun _ h => absurd h hpass⟩, fun h => hpass h.2.1⟩
  | no_array_seek hfit hsize hseek =>
    right; left
    exact ⟨rfl, ⟨fun _ => hfit, fun _ _ => hsize, fun _ _ h => absurd h hseek,
      fun _ _ h => absurd h.1 hseek⟩, fun h => hseek h.2.2.1⟩
  | array_cut hseek hpass haseek hafit =>
    left
    exact ⟨.inl rfl, fun h => hafit (h.array_on_disk hseek hpass haseek)⟩
  | bad_array hfit hsize hafit hcrc =>
    right; left
    exact ⟨rfl, ⟨fun _ => hfit, fun _ _ => hsize, fun _ _ _ => hafit,
      fun _ _ h => absurd h.2 hcrc⟩, fun h => hcrc h.2.2.2⟩
  | outside hseek hpass hapass hin =>
    left
    exact ⟨.inr rfl, fun h => hin (h.slots hseek hpass hapass)⟩
  | accepted hacc =>
    right; right
    obtain ⟨rfl, hfit, hsize, hpass, hafit, hapass, hin, -⟩ := hacc
    refine ⟨_, rfl, ⟨fun _ => hfit, fun _ _ => hsize, fun _ _ _ => hafit, fun _ _ _ => hin⟩,
      ⟨by omega, hpass, hapass⟩, ?_⟩
    rintro (hcut | ⟨-, hcut⟩)
    · omega
    · omega

/-! ## `gpt_read` answers -/

/-- Where the code looks for a copy, in bytes. -/
def Gpt.copy_base (g : Gpt) (primary : Bool) : ℕ := (g.lba_offset (g.copy_lba primary)).toNat

/-- The disk has a protective MBR. -/
def Protective (d : Dev) : Prop := 450 < d.size ∧ d.data 450 = 0xee

/-- **What a caller of `gpt_read` relies on**: it returns after finitely many calls,
and if the end of a protected disk cuts the primary copy off, what it returns is the
answer of the backup copy. -/
def Answers (ε : Type) (d : Dev) (g : Gpt) (c : Calls) : Prop :=
  ∃ n r g' rs', gpt_read (ε := ε) d (c.first n) g = .ret (r, g', rs') ∧
    (Protective d → CutOff d g.lba_size.toNat (g.copy_base true) →
      (r = 0 ↔ Accepts d g.lba_size.toNat (g.copy_base false)))

/-- Where there is a table or none, a run says so in the end. -/
theorem exists_reports (hend : table_on (ε := ε) d g ≠ .hang) (c : Calls) :
    ∃ n, Reports 5 (c.first n) (table_on (ε := ε) d g) g (gpt_read d (c.first n) g) := by
  obtain ⟨n, hn⟩ := (gpt_read_ends_iff (ε := ε) c).mpr hend
  refine ⟨n, ?_⟩
  rcases gpt_read_eq (ε := ε) (d := d) (g := g) (c.err_not_mem_first n) with ⟨hhang, -⟩ | hreports
  · exact absurd hhang hn
  · exact hreports

/-- Where a read has no end, or leads outside an object, there is no answer. -/
theorem Answers.returns {c : Calls} (h : Answers ε d g c) :
    ¬ (table_on (ε := ε) d g = .hang ∨ table_on (ε := ε) d g = .fault) := by
  obtain ⟨n, r, g', rs', hret, -⟩ := h
  rintro (hhang | hfault)
  · refine (gpt_read_ends_iff (ε := ε) (d := d) (g := g) c).mp ⟨n, ?_⟩ hhang
    rw [hret]
    exact fun h => by cases h
  · rcases gpt_read_eq (ε := ε) (d := d) (g := g) (c.err_not_mem_first n) with ⟨hhang, -⟩ | hreports
    · rw [hret] at hhang
      cases hhang
    · rw [hfault, hret] at hreports
      cases hreports

/-- **`gpt_read` answers exactly on the disks whose copies can be read to the end**:
the type byte of the MBR is on the device if its place is, and behind a protective MBR
the primary copy can be read to the end and, unless it passes, so can the backup copy. -/
theorem gpt_read_answers_iff (c : Calls) :
    Answers ε d g c ↔ d.size ≠ 450 ∧ (Protective d →
      Readable d g.lba_size.toNat (g.copy_base true) ∧
        (¬ Accepts d g.lba_size.toNat (g.copy_base true) →
          Readable d g.lba_size.toNat (g.copy_base false))) := by
  by_cases hprot : Protective d
  swap
  · -- no copy is looked at
    by_cases hsize : d.size = 450
    · refine ⟨fun h => absurd (.inl ?_) h.returns, fun h => absurd hsize h.1⟩
      have hseek : lseek64 d (0x1be + 0x4) = true := by
        rw [lseek64_eq, hsize]
        decide
      rw [table_on, if_pos hseek, Dev.get, if_neg (by omega), Exec.hang_bind]
    · refine ⟨fun _ => ⟨hsize, fun h => absurd h hprot⟩, fun _ => ?_⟩
      have hnone : table_on (ε := ε) d g = .ret none := by
        rw [table_on]
        by_cases hseek : lseek64 d (0x1be + 0x4)
        · have hle : 450 ≤ d.size := lseek64_le hseek
          have htype : (d.data.read 450 1).headD 0 ≠ 0xee := fun h => hprot ⟨by omega, h⟩
          rw [if_pos hseek, Dev.get, if_pos (by omega), Exec.ret_bind, if_pos htype]
        · rw [if_neg hseek]
      obtain ⟨n, h⟩ := exists_reports (by rw [hnone]; exact fun h => by cases h) c
      rw [hnone] at h
      obtain ⟨r, h, es, rs', hret, -⟩ := h
      exact ⟨n, r, _, rs', hret, fun h => absurd h hprot⟩
  have htable := table_on_of_mbr (ε := ε) (g := g) hprot.1 hprot.2
  have h450 := hprot.1
  rcases @copy_at_readable ε _ d g _ (g.copy_lba true) rfl with
    ⟨hbad, hno⟩ | ⟨hsaid, hsafe, hnot⟩ | ⟨copy, hsaid, hsafe, hacc, hcut⟩
  · -- the primary copy cannot be read to the end
    refine ⟨fun h => absurd ?_ h.returns, fun h => absurd (h.2 hprot).1 hno⟩
    rw [htable]
    rcases hbad with hbad | hbad
    · exact .inl (by rw [hbad, Exec.hang_bind])
    · exact .inr (by rw [hbad, Exec.fault_bind])
  · -- it can, and the backup copy decides
    rw [hsaid, Exec.ret_bind] at htable
    simp only at htable
    rcases @copy_at_readable ε _ d g _ (g.copy_lba false) rfl with
      ⟨hbad, hno⟩ | ⟨hsaid', hsafe', hnot'⟩ | ⟨copy, hsaid', hsafe', hacc', -⟩
    · refine ⟨fun h => absurd ?_ h.returns, fun h => absurd ((h.2 hprot).2 hnot) hno⟩
      rwa [htable]
    · refine ⟨fun _ => ⟨by omega, fun _ => ⟨hsafe, fun _ => hsafe'⟩⟩, fun _ => ?_⟩
      rw [hsaid'] at htable
      obtain ⟨n, h⟩ := exists_reports (by rw [htable]; exact fun h => by cases h) c
      rw [htable] at h
      obtain ⟨r, h, es, rs', hret, hneg, -⟩ := h
      exact ⟨n, r, _, rs', hret, fun _ _ => ⟨fun h => by omega, fun h => absurd h hnot'⟩⟩
    · refine ⟨fun _ => ⟨by omega, fun _ => ⟨hsafe, fun _ => hsafe'⟩⟩, fun _ => ?_⟩
      rw [hsaid'] at htable
      obtain ⟨n, h⟩ := exists_reports (by rw [htable]; exact fun h => by cases h) c
      rw [htable] at h
      obtain ⟨rs', -, hret⟩ := h
      exact ⟨n, 0, _, rs', hret, fun _ _ => ⟨fun _ => hacc', fun _ => rfl⟩⟩
  · -- the primary copy is accepted
    rw [hsaid, Exec.ret_bind] at htable
    refine ⟨fun _ => ⟨by omega, fun _ => ⟨hsafe, fun h => absurd hacc h⟩⟩, fun _ => ?_⟩
    obtain ⟨n, h⟩ := exists_reports (by rw [htable]; exact fun h => by cases h) c
    rw [htable] at h
    obtain ⟨rs', -, hret⟩ := h
    exact ⟨n, 0, _, rs', hret, fun _ h => absurd h hcut⟩

end Disk

/-! ## An array past the end

A header with the right checksum on the disk of eight sectors, for 64 entries of 128
bytes: the array starts in sector 2 and is twice as long as the disk. -/

section LongArray

attribute [local instance] x86

def long_header : GptHeader := small_header 64 0xdb9df46f 0

set_option maxRecDepth 100000 in
/-- `gpt_read` never returns, even when every call transfers all it can. -/
theorem long_array_not_answered : ¬ Answers Empty (small_disk long_header) small_gpt .all := by
  intro hanswers
  have htable : table_on (ε := Empty) (small_disk long_header) small_gpt = .hang := by
    decide +kernel
  exact hanswers.returns (.inl htable)

end LongArray

end Iago
