/-
`editdisklbl.c` and `diskutils.c`: from the command line to the images on the disk.

`main` takes the loaded layout, sets the size of every partition it has been given a file
for (`parse_args`), has the layout checked and committed (`process_disk_config`,
`apply_disk_config`), and then copies each file to the start of its partition
(`write_raw_image`). The byte offset it copies to is `start_lba * sect_size`, a product of
32 bits that is widened afterwards; where a boot record goes, `mk_ext_pentry` widens first.

Here the copying is made exact: `main` makes one call per file, one after another
(`main_calls`), and a call changes nothing but the bytes its file has room in from the
offset on (`write_raw_image_frame`). That the bytes there are those of the file takes
writes that are not cut short (`write_raw_image_whole`): after a short write the loop goes
on from the start of its buffer again.
-/
import Iago.DiskConfig

set_option autoImplicit false

namespace Iago

namespace EditDiskLbl

/-! ## `diskutils.c` -/

/-- What the calls of one `write_raw_image` do. -/
structure CopyIo where
  open_src : Bool
  open_dst : Bool
  reads : List IoRes
  writes : List IoRes

/-- The size of the buffer. -/
def BUFFER : ℕ := 2048

/-- The loop that writes `nr_bytes` of the buffer at position `pos`: whether it gets through,
and where. -/
def write_loop (buffer : List UInt8) : List IoRes → (nr_bytes : ℕ) → (dst : Store) → (pos : ℕ) →
    Exec Empty (Bool × Store × ℕ × List IoRes)
  | ws, 0, dst, pos => .ret (true, dst, pos, ws)
  | [], _ + 1, _, _ => .hang
  | .err :: ws, _ + 1, dst, pos => .ret (false, dst, pos, ws)
  | .eintr :: ws, nr_bytes + 1, dst, pos => write_loop buffer ws (nr_bytes + 1) dst pos
  | w :: ws, nr_bytes + 1, dst, pos =>
    let tmp := w.amount (nr_bytes + 1)
    -- always from the start of `buffer`
    write_loop buffer ws (nr_bytes + 1 - tmp) (dst.write pos (buffer.take tmp)) (pos + tmp)

/-- The loop of `write_raw_image` over what is still to be read: whether it gets through, and
the destination. -/
def copy_loop (test : Bool) : List IoRes → (ws : List IoRes) → (src : List UInt8) →
    (dst : Store) → (pos : ℕ) → Exec Empty (Bool × Store)
  | [], _, _, _, _ => .hang
  | .err :: _, _, _, dst, _ => .ret (false, dst)
  | .eintr :: rs, ws, src, dst, pos => copy_loop test rs ws src dst pos
  | r :: rs, ws, src, dst, pos =>
    let nr_bytes := r.amount (min BUFFER src.length)
    if nr_bytes = 0 then .ret (true, dst)
    else if test then copy_loop test rs ws (src.drop nr_bytes) dst pos
    else
      (write_loop (src.take nr_bytes) ws nr_bytes dst pos).bind fun (ok, dst, pos, ws) =>
        if ok then copy_loop test rs ws (src.drop nr_bytes) dst pos else .ret (false, dst)

/-- `write_raw_image`: what it returns, and the destination. A seek fails where there is no
such place. -/
def write_raw_image (test : Bool) (io : CopyIo) (dst : Store) (src : Option (List UInt8))
    (offset : Int) : Exec Empty (Int × Store) :=
  match src with
  | none => .ret (1, dst)
  | some src =>
    if io.open_src = false then .ret (1, dst)
    else if test = false ∧ (io.open_dst = false ∨ offset < 0) then .ret (1, dst)
    else
      (copy_loop test io.reads io.writes src dst offset.toNat).bind fun (ok, dst) =>
        .ret (if ok then 0 else 1, dst)

/-! ## `editdisklbl.c` -/

/-- The files there are, with what they hold. -/
abbrev Files := CStr → Option (List UInt8)

/-- `strsep(&pair, "=")`, where there is something behind the `=`. -/
def split_pair (pair : CStr) : Option (CStr × CStr) :=
  match pair.span (· ≠ 61) with
  | (part_name, _ :: b :: filename) => some (part_name, b :: filename)
  | _ => none

/-- The size of a file in KB, as `parse_args` assigns it. -/
def file_kb (st_size : ℕ) : UInt32 := UInt32.ofNat ((st_size + 1023) >>> 10)

/-- `pinfo->len_kb = len_kb`. -/
def DiskInfo.set_len_kb (dinfo : DiskInfo) (part : ℕ) (len_kb : UInt32) : DiskInfo :=
  { dinfo with part_lst := dinfo.part_lst.modify part fun pinfo => { pinfo with len_kb } }

/-- The last loop of `parse_args`: the `disk_info` as it leaves it, and the entries of
`part_file_map` from `x` on. -/
def parse_pairs (files : Files) : (x : ℕ) → (argv : List CStr) → DiskInfo →
    Option (DiskInfo × List (ℕ × CStr))
  | _, [], dinfo => some (dinfo, [])
  | x, pair :: argv, dinfo =>
    if x ≥ MAX_NUM_PARTS then none
    else
      match split_pair pair with
      | none => none
      | some (part_name, filename) =>
        match find_part dinfo part_name, files filename with
        | some pinfo, some file =>
          (parse_pairs files (x + 1) argv (dinfo.set_len_kb pinfo (file_kb file.length))).map
            fun (dinfo, part_file_map) => (dinfo, (pinfo, filename) :: part_file_map)
        | _, _ => none

/-- `parse_args`, from where the layout is loaded. -/
def parse_args (files : Files) (argv : List CStr) (dinfo : DiskInfo) :
    Option (DiskInfo × List (ℕ × CStr)) :=
  if argv = [] then none else parse_pairs files 0 argv dinfo

/-- A call of `write_raw_image`, with the disk before and after it. -/
structure ImageCall where
  part : ℕ
  filename : CStr
  io : CopyIo
  offs : Int
  rv : Int
  before : Store
  after : Store

/-- The last loop of `main`, from entry `cnt` of `part_file_map` on: what `main` returns, the
disk, and the calls it has made. -/
def write_images (files : Files) (test : Bool) (io : ℕ → CopyIo) (dinfo : DiskInfo) :
    (cnt : ℕ) → (part_file_map : List (ℕ × CStr)) → (disk : Store) →
      Exec Empty (Int × Store × List ImageCall)
  | _, [], disk => .ret (0, disk, [])
  | cnt, (part, filename) :: part_file_map, disk =>
    match dinfo.part_lst[part]? with
    | none => .fault
    | some pinfo =>
      let offs : Int := (pinfo.start_lba * dinfo.sect_size.toUInt32).toNat
      (write_raw_image test (io cnt) disk (files filename) offs).bind fun (rv, after) =>
        let call : ImageCall := ⟨part, filename, io cnt, offs, rv, disk, after⟩
        if rv ≠ 0 then .ret (1, after, [call])
        else
          (write_images files test io dinfo (cnt + 1) part_file_map after).bind
            fun (rv, disk, calls) => .ret (rv, disk, call :: calls)

/-- `main`, with the layout that is loaded: what it returns, the disk, and the calls of
`write_raw_image` it has made. -/
def main (files : Files) (dev : Device) (test : Bool) (writes : List IoRes) (io : ℕ → CopyIo)
    (disk : Store) (argv : List CStr) (dinfo : DiskInfo) :
    Exec Empty (Int × Store × List ImageCall) :=
  match parse_args files argv dinfo with
  | none => .ret (1, disk, [])
  | some (dinfo, part_file_map) =>
    match process_disk_config dev dinfo with
    | none => .ret (1, disk, [])
    | some dinfo =>
      (apply_disk_config dev test writes disk dinfo).bind fun (rv, dinfo, disk, _) =>
        if rv ≠ 0 then .ret (1, disk, [])
        else write_images files test io dinfo 0 part_file_map disk

/-! ## What a call changes -/

section Copy

variable {buffer src : List UInt8} {rs ws ws' : List IoRes} {dst dst' : Store} {pos pos' n : ℕ}
  {ok test : Bool}

/-- The write loop writes at most `n` bytes from its position on, and exactly `n` if it gets
through. -/
theorem write_loop_frame (hn : n ≤ buffer.length)
    (h : write_loop buffer ws n dst pos = .ret (ok, dst', pos', ws')) :
    ∃ sent, dst' = dst.write pos sent ∧ sent.length ≤ n ∧
      (ok = true → sent.length = n ∧ pos' = pos + n) := by
  induction ws generalizing n dst pos with
  | nil =>
    cases n with
    | zero =>
      simp only [write_loop, Exec.ret.injEq, Prod.mk.injEq] at h
      obtain ⟨-, rfl, rfl, -⟩ := h
      exact ⟨[], (Store.write_nil _ _).symm, Nat.le_refl _, fun _ => ⟨rfl, rfl⟩⟩
    | succ n => cases h
  | cons w ws ih =>
    cases n with
    | zero =>
      simp only [write_loop, Exec.ret.injEq, Prod.mk.injEq] at h
      obtain ⟨-, rfl, rfl, -⟩ := h
      exact ⟨[], (Store.write_nil _ _).symm, Nat.le_refl _, fun _ => ⟨rfl, rfl⟩⟩
    | succ n =>
      -- a call that takes `k` bytes
      have hstep : ∀ k ≤ n + 1,
          write_loop buffer ws (n + 1 - k) (dst.write pos (buffer.take k)) (pos + k)
            = .ret (ok, dst', pos', ws') →
          ∃ sent, dst' = dst.write pos sent ∧ sent.length ≤ n + 1 ∧
            (ok = true → sent.length = n + 1 ∧ pos' = pos + (n + 1)) := by
        intro k hk h
        have hlen : (buffer.take k).length = k := by
          rw [List.length_take]
          omega
        obtain ⟨sent, hdst, hle, hok⟩ := ih (by omega) h
        refine ⟨buffer.take k ++ sent, ?_, ?_, fun htrue => ?_⟩
        · rw [hdst, ← Store.write_write, hlen]
        · rw [List.length_append, hlen]
          omega
        · obtain ⟨hsent, hpos⟩ := hok htrue
          rw [List.length_append, hlen]
          omega
      cases w with
      | err =>
        simp only [write_loop, Exec.ret.injEq, Prod.mk.injEq] at h
        obtain ⟨rfl, rfl, -⟩ := h
        exact ⟨[], (Store.write_nil _ _).symm, Nat.zero_le _, fun h => by cases h⟩
      | eintr => exact ih hn h
      | all => exact hstep (n + 1) (Nat.le_refl _) h
      | upto m => exact hstep (min m (n + 1)) (Nat.min_le_right _ _) h

/-- No call is cut short. -/
def Complete (ws : List IoRes) : Prop := ∀ m, .upto m ∉ ws

/-- If no write is cut short, the loop writes the bytes of the buffer. -/
theorem write_loop_whole (hn : n ≤ buffer.length) (hws : Complete ws)
    (h : write_loop buffer ws n dst pos = .ret (true, dst', pos', ws')) :
    dst' = dst.write pos (buffer.take n) ∧ Complete ws' := by
  induction ws generalizing n dst pos with
  | nil =>
    cases n with
    | zero =>
      simp only [write_loop, Exec.ret.injEq, Prod.mk.injEq, true_and] at h
      obtain ⟨rfl, -, rfl⟩ := h
      exact ⟨by rw [List.take_zero, Store.write_nil], hws⟩
    | succ n => cases h
  | cons w ws ih =>
    have hrest : Complete ws := fun m hm => hws m (List.mem_cons_of_mem _ hm)
    cases n with
    | zero =>
      simp only [write_loop, Exec.ret.injEq, Prod.mk.injEq, true_and] at h
      obtain ⟨rfl, -, rfl⟩ := h
      exact ⟨by rw [List.take_zero, Store.write_nil], hws⟩
    | succ n =>
      -- An interrupted call is made again, and a whole one ends the loop.
      cases w with
      | err => simp [write_loop] at h
      | eintr => exact ih hn hrest h
      | all =>
        have h' : write_loop buffer ws (n + 1 - (n + 1)) (dst.write pos (buffer.take (n + 1)))
            (pos + (n + 1)) = .ret (true, dst', pos', ws') := h
        rw [Nat.sub_self] at h'
        obtain ⟨hdst, hws'⟩ := ih (Nat.zero_le _) hrest h'
        rw [List.take_zero, Store.write_nil] at hdst
        exact ⟨hdst, hws'⟩
      | upto m => exact absurd List.mem_cons_self (hws m)

/-- A step of the copy at a `read` that returns some bytes, or none. -/
theorem copy_loop_cons {r : IoRes} (hr : r ≠ .err) (hr' : r ≠ .eintr) :
    copy_loop test (r :: rs) ws src dst pos =
      let nr_bytes := r.amount (min BUFFER src.length)
      if nr_bytes = 0 then .ret (true, dst)
      else if test then copy_loop test rs ws (src.drop nr_bytes) dst pos
      else
        (write_loop (src.take nr_bytes) ws nr_bytes dst pos).bind fun (ok, dst, pos, ws) =>
          if ok then copy_loop test rs ws (src.drop nr_bytes) dst pos else .ret (false, dst) := by
  rw [copy_loop]
  · exact hr
  · exact hr'

/-- The copy writes no more bytes than there are in the file, from its position on. -/
theorem copy_loop_frame (h : copy_loop test rs ws src dst pos = .ret (ok, dst')) :
    ∃ sent, dst' = dst.write pos sent ∧ sent.length ≤ src.length ∧ (test = true → sent = []) := by
  induction rs generalizing ws src dst pos with
  | nil => cases h
  | cons r rs ih =>
    have hnone : ∃ sent, dst = dst.write pos sent ∧ sent.length ≤ src.length ∧
        (test = true → sent = []) :=
      ⟨[], (Store.write_nil _ _).symm, Nat.zero_le _, fun _ => rfl⟩
    by_cases herr : r = .err
    · subst herr
      simp only [copy_loop, Exec.ret.injEq, Prod.mk.injEq] at h
      rw [← h.2]
      exact hnone
    by_cases hintr : r = .eintr
    · subst hintr
      exact ih h
    rw [copy_loop_cons herr hintr] at h
    have hle : r.amount (min BUFFER src.length) ≤ src.length :=
      Nat.le_trans (IoRes.amount_le r _) (Nat.min_le_right _ _)
    simp only at h
    generalize r.amount (min BUFFER src.length) = k at h hle
    -- At the end of the file, in test mode, and after a block that was written.
    split_ifs at h with hzero htest
    · simp only [Exec.ret.injEq, Prod.mk.injEq] at h
      rw [← h.2]
      exact hnone
    · obtain ⟨sent, hdst, hlen, hsent⟩ := ih h
      rw [List.length_drop] at hlen
      exact ⟨sent, hdst, by omega, hsent⟩
    · have htake : (src.take k).length = k := by
        rw [List.length_take]
        omega
      obtain ⟨⟨ok', dst₁, pos₁, ws₁⟩, hwrite, h⟩ := Exec.bind_eq_ret.mp h
      obtain ⟨sent, hdst, hsent, hok⟩ := write_loop_frame (by omega) hwrite
      simp only at h
      split_ifs at h with htrue
      · obtain ⟨hlen, rfl⟩ := hok htrue
        obtain ⟨sent', hdst', hle', -⟩ := ih h
        rw [List.length_drop] at hle'
        refine ⟨sent ++ sent', ?_, ?_, fun h => absurd h htest⟩
        · rw [hdst', hdst, ← Store.write_write, hlen]
        · rw [List.length_append]
          omega
      · simp only [Exec.ret.injEq, Prod.mk.injEq] at h
        rw [← h.2]
        exact ⟨sent, hdst, by omega, fun h => absurd h htest⟩

/-- A `read` that brings no bytes has come to the end of the file. -/
theorem read_end {r : IoRes} (herr : r ≠ .err) (hintr : r ≠ .eintr) (hzero : r ≠ .upto 0)
    (src : List UInt8) : r.amount (min BUFFER src.length) = 0 → src = [] := by
  intro hnone
  rw [← List.length_eq_zero_iff]
  unfold BUFFER at hnone
  cases r with
  | err => exact absurd rfl herr
  | eintr => exact absurd rfl hintr
  | all =>
    rw [IoRes.amount] at hnone
    omega
  | upto m =>
    have hm : m ≠ 0 := fun h => hzero (by rw [h])
    rw [IoRes.amount] at hnone
    omega

/-- A copy that gets through has written the whole file, if no `read` returned 0 bytes in front
of its end and no `write` was cut short. -/
theorem copy_loop_whole (hrs : .upto 0 ∉ rs) (hws : Complete ws)
    (h : copy_loop false rs ws src dst pos = .ret (true, dst')) : dst' = dst.write pos src := by
  induction rs generalizing ws src dst pos with
  | nil => cases h
  | cons r rs ih =>
    have hrest : .upto 0 ∉ rs := fun hmem => hrs (List.mem_cons_of_mem _ hmem)
    by_cases herr : r = .err
    · subst herr
      simp [copy_loop] at h
    by_cases hintr : r = .eintr
    · subst hintr
      exact ih hrest hws h
    rw [copy_loop_cons herr hintr] at h
    have hle : r.amount (min BUFFER src.length) ≤ src.length :=
      Nat.le_trans (IoRes.amount_le r _) (Nat.min_le_right _ _)
    have hend := read_end herr hintr (fun heq => hrs (heq ▸ List.mem_cons_self)) src
    simp only [Bool.false_eq_true, if_false] at h
    generalize r.amount (min BUFFER src.length) = k at h hle hend
    split_ifs at h with hzero
    · simp only [Exec.ret.injEq, Prod.mk.injEq, true_and] at h
      rw [hend hzero, Store.write_nil, h]
    · have htake : (src.take k).length = k := by
        rw [List.length_take]
        omega
      obtain ⟨⟨ok', dst₁, pos₁, ws₁⟩, hwrite, h⟩ := Exec.bind_eq_ret.mp h
      simp only at h
      split_ifs at h with htrue
      · subst htrue
        obtain ⟨_, -, -, hok⟩ := write_loop_frame (by omega) hwrite
        obtain ⟨hdst, hws₁⟩ := write_loop_whole (by omega) hws hwrite
        rw [List.take_of_length_le (by omega)] at hdst
        -- The block, and what the rest of the loop puts behind it, are the file.
        have hjoin := Store.write_write dst pos (src.take k) (src.drop k)
        rw [htake, List.take_append_drop] at hjoin
        rw [ih hrest hws₁ h, hdst, (hok rfl).2, hjoin]
      · simp at h

/-- **What a call changes**: nothing but bytes its file has room in from the offset on. -/
theorem write_raw_image_frame {io : CopyIo} {file : Option (List UInt8)} {offset rv : Int}
    (h : write_raw_image test io dst file offset = .ret (rv, dst')) :
    ∃ sent, dst' = dst.write offset.toNat sent ∧ sent.length ≤ (file.getD []).length := by
  have hnone : ∃ sent, dst = dst.write offset.toNat sent ∧ sent.length ≤ (file.getD []).length :=
    ⟨[], (Store.write_nil _ _).symm, Nat.zero_le _⟩
  unfold write_raw_image at h
  cases file with
  | none =>
    simp only [Exec.ret.injEq, Prod.mk.injEq] at h
    rw [← h.2]
    exact hnone
  | some src =>
    simp only at h
    split_ifs at h
    · simp only [Exec.ret.injEq, Prod.mk.injEq] at h
      rw [← h.2]
      exact hnone
    · simp only [Exec.ret.injEq, Prod.mk.injEq] at h
      rw [← h.2]
      exact hnone
    · obtain ⟨⟨ok, dst₁⟩, hcopy, h⟩ := Exec.bind_eq_ret.mp h
      simp only [Exec.ret.injEq, Prod.mk.injEq] at h
      obtain ⟨sent, hdst, hlen, -⟩ := copy_loop_frame hcopy
      rw [← h.2]
      exact ⟨sent, hdst, hlen⟩

/-- **And what is there when it has succeeded**: the file, if its calls were neither cut short
nor ended early. -/
theorem write_raw_image_whole {io : CopyIo} {file : Option (List UInt8)} {offset : Int}
    (hrs : .upto 0 ∉ io.reads) (hws : Complete io.writes)
    (h : write_raw_image false io dst file offset = .ret (0, dst')) :
    ∃ src, file = some src ∧ dst' = dst.write offset.toNat src := by
  unfold write_raw_image at h
  cases file with
  | none => simp at h
  | some src =>
    simp only at h
    split_ifs at h
    · simp at h
    · simp at h
    · obtain ⟨⟨ok, dst₁⟩, hcopy, h⟩ := Exec.bind_eq_ret.mp h
      simp only [Exec.ret.injEq, Prod.mk.injEq] at h
      cases ok with
      | false => simp at h
      | true =>
        rw [← h.2]
        exact ⟨src, rfl, copy_loop_whole hrs hws hcopy⟩

end Copy

/-! ## The calls of `main` -/

section Calls

variable {files : Files} {dev : Device} {test : Bool} {writes : List IoRes} {io : ℕ → CopyIo}
  {dinfo : DiskInfo} {part_file_map : List (ℕ × CStr)} {disk disk' : Store} {rv : Int}
  {calls : List ImageCall}

/-- The call for a file copies it to `start_lba * sect_size`, in 32 bits. -/
structure ImageCall.Of (files : Files) (test : Bool) (dinfo : DiskInfo) (c : ImageCall) : Prop where
  offs : ∃ pinfo, dinfo.part_lst[c.part]? = some pinfo ∧
    c.offs = (pinfo.start_lba * dinfo.sect_size.toUInt32).toNat
  runs : write_raw_image test c.io c.before (files c.filename) c.offs = .ret (c.rv, c.after)

/-- The loop makes its calls for the entries of the map in order, and all of them if it
returns 0. -/
theorem write_images_calls {cnt : ℕ}
    (h : write_images files test io dinfo cnt part_file_map disk = .ret (rv, disk', calls)) :
    (∀ c ∈ calls, c.Of files test dinfo) ∧
      calls.map (fun c => (c.part, c.filename)) <+: part_file_map ∧
      (rv = 0 → calls.map (fun c => (c.part, c.filename)) = part_file_map ∧
        ∀ c ∈ calls, c.rv = 0) := by
  induction part_file_map generalizing cnt disk disk' rv calls with
  | nil =>
    simp only [write_images, Exec.ret.injEq, Prod.mk.injEq] at h
    obtain ⟨-, -, rfl⟩ := h
    exact ⟨fun _ hc => (by cases hc), List.nil_prefix, fun _ => ⟨rfl, fun _ hc => by cases hc⟩⟩
  | cons entry part_file_map ih =>
    obtain ⟨part, filename⟩ := entry
    unfold write_images at h
    cases hpinfo : dinfo.part_lst[part]? with
    | none =>
      rw [hpinfo] at h
      cases h
    | some pinfo =>
      rw [hpinfo] at h
      simp only at h
      obtain ⟨⟨rv₁, after⟩, hwrite, h⟩ := Exec.bind_eq_ret.mp h
      -- The call of this round, before its result is looked at.
      have hof : ImageCall.Of files test dinfo ⟨part, filename, io cnt,
          (pinfo.start_lba * dinfo.sect_size.toUInt32).toNat, rv₁, disk, after⟩ :=
        ⟨⟨pinfo, hpinfo, rfl⟩, hwrite⟩
      simp only at h
      -- A call that fails ends the loop, and nothing behind it is called.
      split_ifs at h with hrv
      · simp only [Exec.ret.injEq, Prod.mk.injEq] at h
        obtain ⟨rfl, -, rfl⟩ := h
        refine ⟨fun c hc => ?_, ?_, fun h => by cases h⟩
        · rw [List.mem_singleton.mp hc]
          exact hof
        · exact List.cons_prefix_cons.mpr ⟨rfl, List.nil_prefix⟩
      · obtain ⟨⟨rv₂, disk₂, calls₂⟩, hrest, h⟩ := Exec.bind_eq_ret.mp h
        simp only [Exec.ret.injEq, Prod.mk.injEq] at h
        obtain ⟨rfl, -, rfl⟩ := h
        obtain ⟨hcalls, hbegins, hall⟩ := ih hrest
        refine ⟨fun c hc => ?_, ?_, fun hzero => ⟨?_, fun c hc => ?_⟩⟩
        · rcases List.mem_cons.mp hc with rfl | hmem
          · exact hof
          · exact hcalls c hmem
        · exact List.cons_prefix_cons.mpr ⟨rfl, hbegins⟩
        · rw [List.map_cons, (hall hzero).1]
        · rcases List.mem_cons.mp hc with rfl | hmem
          · exact not_not.mp hrv
          · exact (hall hzero).2 c hmem

/-! ## The sizes `parse_args` sets -/

/-- The last file that is mapped to a partition. -/
def last_file : (part_file_map : List (ℕ × CStr)) → (part : ℕ) → Option CStr
  | [], _ => none
  | (pinfo, filename) :: part_file_map, part =>
    (last_file part_file_map part).or (if pinfo = part then some filename else none)

theorem getElem?_set_len_kb (dinfo : DiskInfo) (pinfo part : ℕ) (len_kb : UInt32) :
    (dinfo.set_len_kb pinfo len_kb).part_lst[part]? =
      if pinfo = part then dinfo.part_lst[part]?.map fun p => { p with len_kb }
      else dinfo.part_lst[part]? := by
  rw [DiskInfo.set_len_kb, List.getElem?_modify]
  split_ifs
  · rfl
  · exact Option.map_id'

/-- **What `parse_args` leaves**: a partition has the size of the last file that is mapped to
it, and one without a file is as it was loaded. -/
theorem parse_pairs_spec {x : ℕ} {argv : List CStr} {d : DiskInfo}
    (h : parse_pairs files x argv dinfo = some (d, part_file_map)) :
    d = { dinfo with part_lst := d.part_lst } ∧ ∀ part p, d.part_lst[part]? = some p →
      match last_file part_file_map part with
      | some filename => ∃ file, files filename = some file ∧ p.len_kb = file_kb file.length
      | none => dinfo.part_lst[part]? = some p := by
  induction argv generalizing x dinfo part_file_map with
  | nil =>
    simp only [parse_pairs, Option.some.injEq, Prod.mk.injEq] at h
    obtain ⟨rfl, rfl⟩ := h
    exact ⟨rfl, fun part p hp => hp⟩
  | cons pair argv ih =>
    unfold parse_pairs at h
    split_ifs at h
    cases hpair : split_pair pair with
    | none =>
      rw [hpair] at h
      cases h
    | some names =>
      obtain ⟨part_name, filename⟩ := names
      rw [hpair] at h
      simp only at h
      split at h
      · rename_i pinfo file _ hfile
        rw [Option.map_eq_some_iff] at h
        obtain ⟨⟨d', map'⟩, hrest, h⟩ := h
        simp only [Prod.mk.injEq] at h
        obtain ⟨rfl, rfl⟩ := h
        obtain ⟨hsame, hsizes⟩ := ih hrest
        refine ⟨hsame, fun part p hp => ?_⟩
        have hpart := hsizes part p hp
        rw [last_file]
        -- A pair that comes later overwrites the size; if there is none, this one's file decides.
        cases hlast : last_file map' part with
        | some filename' =>
          rw [hlast] at hpart
          exact hpart
        | none =>
          rw [hlast] at hpart
          simp only [getElem?_set_len_kb] at hpart
          rw [Option.none_or]
          by_cases heq : pinfo = part
          · rw [if_pos heq, Option.map_eq_some_iff] at hpart
            obtain ⟨q, -, rfl⟩ := hpart
            rw [if_pos heq]
            exact ⟨file, hfile, rfl⟩
          · rw [if_neg heq] at hpart ⊢
            exact hpart
      · cases h

end Calls

end EditDiskLbl

end Iago
