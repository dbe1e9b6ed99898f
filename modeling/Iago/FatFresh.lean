/-
The file system that has been written is an empty one.

Its FATs have the entries that they start with and no others, and the root directory holds the
label that was given and nothing else (`Filled.fresh`). A label is written in capitals and filled
up with blanks, and that is how it is read back (`label_text`): its first character is neither
that of a deleted entry nor that of one that was never used, since the one of these that a label
can start with, 0xe5, is stored as 5.
-/
import Iago.FatFormats

set_option autoImplicit false

namespace Iago

namespace NewfsMsdos

/-! ## Labels -/

/-- A label as it reads: in capitals, filled up with blanks. -/
def label_text (opt_L : CStr) : List UInt8 :=
  (opt_L.map toupper ++ List.replicate 11 32).take 11

section Labels

variable {src : CStr}

/-- What `oklabel` lets through does not start with a blank or a control character. -/
theorem oklabel_first (h : oklabel src = true) : ∃ d rest, src = d :: rest ∧ 32 < d.toNat := by
  rw [oklabel, oklabel_loop] at h
  by_cases hstop : label_stop 0 (src.headD 0) = true
  · simp only [if_pos hstop, ne_eq, not_true_eq_false, false_and, decide_false,
      Bool.false_eq_true] at h
  · cases src with
    | nil => exact absurd rfl hstop
    | cons d rest =>
      refine ⟨d, rest, rfl, ?_⟩
      rw [List.headD_cons, label_stop, decide_eq_true_eq, if_pos rfl] at hstop
      omega

theorem getElem?_label_text (src : CStr) (i : ℕ) :
    (label_text src)[i]? = if i < 11 then some ((src[i]?.map toupper).getD 32) else none := by
  unfold label_text
  by_cases hi : i < 11
  · rw [List.getElem?_take_of_lt hi, if_pos hi]
    by_cases hin : i < src.length
    · rw [List.getElem?_append_left (by rw [List.length_map]; exact hin), List.getElem?_map,
        List.getElem?_eq_getElem hin]
      rfl
    · rw [List.getElem?_append_right (by rw [List.length_map]; omega),
        List.getElem?_replicate_of_lt (by rw [List.length_map]; omega),
        List.getElem?_eq_none (by omega)]
      rfl
  · rw [if_neg hi, List.getElem?_eq_none]
    rw [List.length_take]
    omega

/-- What is stored differs from it in the first character at most. -/
theorem mklabel_eq (src : CStr) : ∃ c rest, label_text src = c :: rest ∧ rest.length = 10 ∧
    c = (src.head?.map toupper).getD 32 ∧ mklabel src = label_char 0 c :: rest := by
  have htext : label_text src = (List.range 11).map fun i => (src[i]?.map toupper).getD 32 := by
    apply List.ext_getElem?
    intro i
    rw [getElem?_label_text, List.getElem?_map]
    by_cases hi : i < 11
    · rw [if_pos hi, List.getElem?_range hi, Option.map_some]
    · rw [if_neg hi, List.getElem?_eq_none (by rw [List.length_range]; omega), Option.map_none]
  rw [List.range_succ_eq_map, List.map_cons, List.map_map] at htext
  refine ⟨_, _, htext, by rw [List.length_map, List.length_range],
    by rw [List.head?_eq_getElem?], ?_⟩
  rw [mklabel, List.range_succ_eq_map, List.map_cons, List.map_map]
  congr 1

/-- A capital is still no control character. -/
theorem toupper_first {d : UInt8} (h : 32 < d.toNat) : 32 < (toupper d).toNat := by
  unfold toupper
  split_ifs with hd
  · obtain ⟨h97, h122⟩ := hd
    rw [UInt8.le_iff_toNat_le] at h97 h122
    rw [UInt8.toNat_sub_of_le _ _ (by rw [UInt8.le_iff_toNat_le]; exact Nat.le_trans (by decide) h97)]
    have h32 : (32 : UInt8).toNat = 32 := rfl
    have h97' : (97 : UInt8).toNat = 97 := rfl
    omega
  · exact h

/-- The entry of the label, up to what comes behind its date. -/
def label_entry (t : Clock) (opt_L : CStr) : List UInt8 :=
  mklabel opt_L ++ [0x28] ++ List.replicate 10 0 ++ label_time t

theorem length_label_entry (t : Clock) (opt_L : CStr) : (label_entry t opt_L).length = 26 := by
  rw [label_entry]
  simp only [List.length_append, length_mklabel, length_label_time, List.length_replicate,
    List.length_cons, List.length_nil]

theorem splices_label_parts (t : Clock) (opt_L : CStr) {w : ℕ} (hw : 26 ≤ w) :
    splices (List.replicate w 0) (label_parts t opt_L)
      = splices (List.replicate w 0) [(0, label_entry t opt_L)] := by
  have hlen : (mklabel opt_L ++ List.replicate 0 0 ++ [0x28]).length = 12 := by
    rw [List.replicate_zero, List.append_nil, List.length_append, length_mklabel]
    rfl
  unfold label_parts
  simp only [splices_cons, splices_nil]
  rw [splice_zeros, length_mklabel,
    splice_behind (g := 0) (by rw [length_mklabel]) (by simp; omega),
    splice_behind (g := 10) (by rw [hlen]) (by simp; omega), splice_zeros, length_label_entry,
    label_entry, length_label_time]
  simp only [List.replicate_zero, List.append_nil, List.length_cons, List.length_nil]
  congr 2

/-- What a driver makes of the entry. -/
theorem label_entry_read (t : Clock) (h : oklabel src = true) (n : ℕ) :
    let e := label_entry t src ++ List.replicate n 0
    e.head? ≠ some 0 ∧ e.head? ≠ some 0xe5 ∧ Fat.entry_name e = label_text src ∧
      Fat.is_label e = true := by
  obtain ⟨d, cs, hsrc, hd⟩ := oklabel_first h
  obtain ⟨c, rest, htext, hlen, hc, hmk⟩ := mklabel_eq src
  have hcd : c = toupper d := by
    rw [hc, hsrc]
    rfl
  have hup := toupper_first hd
  rw [← hcd] at hup
  have h0 : c ≠ 0 := fun h => by
    rw [h] at hup
    exact absurd hup (by decide)
  have h5 : c ≠ 5 := fun h => by
    rw [h] at hup
    exact absurd hup (by decide)
  intro e
  have he : e = label_char 0 c :: (rest ++ ([0x28] ++ List.replicate 10 0 ++ label_time t
      ++ List.replicate n 0)) := by
    simp only [e, label_entry, hmk, List.append_assoc, List.cons_append]
  have htake : e.take 11 = label_char 0 c :: rest := by
    rw [he, List.take_succ_cons, List.take_append, List.take_of_length_le (by omega), hlen,
      Nat.sub_self, List.take_zero, List.append_nil]
  have hattr : Fat.entry_attr e = 0x28 := by
    rw [Fat.entry_attr, he, List.getD_cons_succ, List.getD_eq_getElem?_getD,
      List.getElem?_append_right (by omega), hlen]
    rfl
  -- The first byte 0xe5 stands as 5 on the disk, and a driver turns it back.
  have hchar : label_char 0 c = if c = 0xe5 then 5 else c := by
    unfold label_char
    simp only [true_and]
  refine ⟨?_, ?_, ?_, by rw [Fat.is_label, hattr]; decide⟩
  · rw [he, List.head?_cons, hchar]
    split_ifs
    · decide
    · exact fun h => h0 (Option.some.inj h)
  · rw [he, List.head?_cons, hchar]
    split_ifs with he5
    · decide
    · exact fun h => he5 (Option.some.inj h)
  · rw [Fat.entry_name, htake, htext, hchar]
    split_ifs with he5
    · rw [he5]
      rfl
    · split
      · next h => exact absurd (List.cons.inj h).1 h5
      · rfl

end Labels

/-! ## The root directory -/

section Fresh

variable {a : Args} {sp : Special} {t : Clock} {l : Layout} {disk s : Store}

/-- Some of the root directory is written. -/
theorem Layout.Sound.root_sectors_pos (hl : l.Sound) : 0 < l.root_sectors := by
  unfold Layout.root_sectors
  split_ifs with h32
  · exact hl.spc.le.1
  · have hbps := hl.bps.le
    have hrde : 0 < l.bpb.rde.toNat := Nat.pos_of_ne_zero fun h0 => h32 (hl.root.mp h0)
    rw [hl.rds]
    by_contra h0
    have hle := (ceilDiv_le_iff_le_mul (b := l.bpb.rde.toNat * 32) (by omega : 0 < l.bpb.bps.toNat)
      (c := 0)).mp (by omega)
    omega

/-- What the root directory starts with. -/
def root_start (o : Opts) (t : Clock) : List UInt8 := o.opt_L.elim [] (label_entry t)

theorem length_root_start (o : Opts) (t : Clock) : (root_start o t).length ≤ 26 := by
  unfold root_start
  cases o.opt_L with
  | none => exact Nat.zero_le 26
  | some opt_L => exact Nat.le_of_eq (length_label_entry t opt_L)

/-- **The root directory** has the bytes of one that holds the label. -/
theorem Filled.read_root (h : Filled a sp t l disk s) (hl : l.Sound) (hclear : Clear a.opts l) :
    s.read (a.opts.opt_ofs.toNat + l.dir * l.bpb.bps.toNat) (l.root_sectors * l.bpb.bps.toNat)
      = root_start a.opts t
        ++ List.replicate (l.root_sectors * l.bpb.bps.toNat - (root_start a.opts t).length) 0 := by
  have hlt := l.total_lt
  have hend := hl.end_lsn
  have hle := hl.end_le
  have hpos := hl.root_sectors_pos
  have hbps := hl.bps.le
  have hlen := length_root_start a.opts t
  have hres : l.bpb.res.toNat ≤ l.dir := Nat.le_add_right _ _
  refine h.read_zeros hl (by omega) hpos (by omega) ?_ fun i hi0 hi => ?_
  · rw [sector_behind hl hclear hres (by omega), if_neg (by omega), if_pos rfl, root_start]
    cases a.opts.opt_L with
    | none =>
      simp only [Option.elim_none, splices_nil, splices_cons, splice_zeros, List.nil_append,
        List.length_nil, Nat.sub_zero]
    | some opt_L => exact splices_label_parts t opt_L (by omega)
  · rw [sector_behind hl hclear (by omega) (by omega), if_neg (by omega), if_neg (by omega),
      splices_nil]

/-- Its entries are the label, if there is one, and then none that was ever used. -/
theorem Filled.slots (h : Filled a sp t l disk s) (hl : l.Sound) (hclear : Clear a.opts l) :
    ∃ m, l.params.slots s a.opts.opt_ofs.toNat l.dir l.root_sectors
      = (root_start a.opts t ++ List.replicate (32 - (root_start a.opts t).length) 0)
        :: List.replicate m (List.replicate 32 0) := by
  have hlen := length_root_start a.opts t
  have hbps := hl.bps.le
  have hpos := Nat.le_mul_of_pos_left l.bpb.bps.toNat hl.root_sectors_pos
  have hp : l.params.bps = l.bpb.bps.toNat := rfl
  exact ⟨_, Fat.slots_zeros (by omega) (by rw [hp]; omega) (h.read_root hl hclear)⟩

/-- So the label is all that is listed. -/
theorem Filled.listing (h : Filled a sp t l disk s) (ho : a.opts.Ranged) (hl : l.Sound)
    (hclear : Clear a.opts l) :
    let es := Fat.listing (l.params.slots s a.opts.opt_ofs.toNat l.dir l.root_sectors)
    es.map Fat.entry_name = (a.opts.opt_L.map label_text).toList ∧
      ∀ e ∈ es, Fat.is_label e = true := by
  obtain ⟨m, hslots⟩ := h.slots hl hclear
  have hok := ho.opt_L
  intro es
  unfold root_start at hslots
  -- Without a label the first byte is 0, which ends the listing.
  cases hL : a.opts.opt_L with
  | none =>
    rw [hL, Option.elim_none, List.nil_append, List.length_nil] at hslots
    have hnil : es = [] := by
      unfold es
      rw [hslots]
      exact Fat.listing_cons_zero rfl _
    rw [hnil]
    exact ⟨rfl, fun e he => absurd he List.not_mem_nil⟩
  | some opt_L =>
    rw [hL, Option.elim_some] at hslots
    obtain ⟨h0, he5, hname, hlabel⟩ := label_entry_read t (hok opt_L hL)
      (32 - (label_entry t opt_L).length)
    have hone : es = [label_entry t opt_L
        ++ List.replicate (32 - (label_entry t opt_L).length) 0] := by
      unfold es
      rw [hslots, Fat.listing_cons h0 he5, Fat.listing_replicate_zeros]
    rw [hone]
    refine ⟨?_, fun e he => ?_⟩
    · rw [List.map_singleton, hname]
      rfl
    · rw [List.mem_singleton.mp he]
      exact hlabel

/-! ## The whole volume -/

/-- **The FATs are those of an empty file system**, every copy of them. -/
theorem Filled.entry (h : Filled a sp t l disk s) (hl : l.Sound) (hclear : Clear a.opts l)
    (hsmall : l.Small) {copy n : ℕ} (hc : copy < l.bpb.nft.toNat) (hn : n < l.params.fat_entries) :
    l.params.entry s a.opts.opt_ofs.toNat copy n
      = if n = 0 then l.params.kind.all - 0xff + l.bpb.mid.toNat
        else if n < l.params.kind.set then l.params.kind.all else 0 := by
  have hread := h.read_fat hl hclear hc
  have hkind := hl.params_kind hsmall
  have hmid : (UInt8.ofNat l.bpb.mid.toNat).toNat = l.bpb.mid.toNat := by
    have hle := hl.mid.2
    rw [UInt8.toNat_ofNat', Nat.mod_eq_of_lt (by omega)]
  have hlen := length_fat_start hl.kind
  rw [fat_start_eq hl] at hlen
  have hbps := hl.bps.le
  have hpos := Nat.le_mul_of_pos_left l.bpb.bps.toNat hl.fats
  have hentries : l.params.fat_entries
      = l.bpb.fat_sectors * l.bpb.bps.toNat * 8 / (fat_kind l.fat).bits := by
    rw [hl.params_fat_entries hsmall, fat_kind_bits hl.kind]
  have hbits : 0 < (fat_kind l.fat).bits := by
    rw [fat_kind_bits hl.kind]
    rcases hl.kind with h | h | h <;> rw [h] <;> decide
  have hfit : (n + 1) * (fat_kind l.fat).bits ≤ l.bpb.fat_sectors * l.bpb.bps.toNat * 8 := by
    rw [hentries] at hn
    exact (Nat.le_div_iff_mul_le hbits).mp hn
  unfold Fat.Params.entry
  rw [hkind, hl.params_fat_sectors]
  rw [← hmid]
  exact Fat.entry_fresh_of_length (by omega) hread hfit

/-- The root directory of a FAT32 file system is one cluster. -/
theorem Filled.root_clusters (h : Filled a sp t l disk s) (hl : l.Sound) (hclear : Clear a.opts l)
    (hsmall : l.Small) (hshort : l.Short) :
    l.params.root_clusters s a.opts.opt_ofs.toNat = if l.fat = 32 then [2] else [] := by
  have hkind := hl.params_kind hsmall
  have hvalid := hl.valid hsmall hshort
  unfold Fat.Params.root_clusters
  by_cases h32 : l.fat = 32
  · have hk : l.params.kind = .fat32 := hkind.trans (if_pos h32)
    have hrdcl : l.params.rdcl = 2 := (if_pos h32).trans (hl.rdcl h32)
    have hsome := hvalid.some
    have hentries : l.params.clusters ≤ l.params.fat_entries - 2 := Nat.min_le_right _ _
    obtain ⟨n, hn⟩ := Nat.exists_eq_succ_of_ne_zero (Nat.ne_of_gt hsome)
    have hmark := h.entry hl hclear hsmall (n := 2) hl.nft.1 (by omega)
    rw [hk, if_neg (by decide), if_pos (by decide)] at hmark
    rw [if_pos hk, if_pos h32, hn, Fat.Params.chain, hrdcl, hk, hmark, if_pos (Nat.sub_le _ _)]
  · rw [if_neg h32, if_neg fun hk => h32 (fat_kind_eq_fat32.mp (hkind.symm.trans hk))]

/-- The root directory is what was written of it. -/
theorem Filled.root_slots (h : Filled a sp t l disk s) (hl : l.Sound) (hclear : Clear a.opts l)
    (hsmall : l.Small) (hshort : l.Short) :
    l.params.root_slots s a.opts.opt_ofs.toNat
      = l.params.slots s a.opts.opt_ofs.toNat l.dir l.root_sectors := by
  have hkind := hl.params_kind hsmall
  unfold Fat.Params.root_slots Layout.root_sectors
  rw [h.root_clusters hl hclear hsmall hshort, hkind, hl.params_data, hl.params_dir]
  by_cases h32 : l.fat = 32
  · -- the first cluster comes directly behind the FATs
    have hrds : l.rds.toNat = 0 := by
      rw [hl.rds, hl.root.mpr h32, Nat.zero_mul]
      exact zero_ceilDiv _
    have hdata : l.data + (2 - 2) * l.params.spc = l.dir := by
      unfold Layout.data
      rw [hrds]
      omega
    rw [if_pos (fat_kind_eq_fat32.mpr h32), if_pos h32, if_pos h32, List.flatMap_singleton,
      hdata]
    rfl
  · have hrds : l.rds.toNat = l.params.rde * 32 ⌈/⌉ l.params.bps := hl.rds
    rw [if_neg fun hk => h32 (fat_kind_eq_fat32.mp hk), if_neg h32, hrds]

/-- **The volume is an empty file system** with the label that was given. -/
theorem Filled.fresh (h : Filled a sp t l disk s) (ho : a.opts.Ranged) (hl : l.Sound)
    (hclear : Clear a.opts l) (hsmall : l.Small) (hshort : l.Short) :
    Fat.Fresh l.params s a.opts.opt_ofs.toNat (a.opts.opt_L.map label_text) := by
  have hvalid := hl.valid hsmall hshort
  have hsome := hvalid.some
  have hentries : l.params.clusters ≤ l.params.fat_entries - 2 := Nat.min_le_right _ _
  have hroot := h.root_clusters hl hclear hsmall hshort
  have hlist := h.listing ho hl hclear
  have hset : ∀ k : Fat.Kind, 2 ≤ k.set ∧ k.set ≤ 3 ∧ (k.set = 3 → k = .fat32) := by
    intro k
    cases k <;> decide
  obtain ⟨h2, h3, hk32⟩ := hset l.params.kind
  rw [← h.root_slots hl hclear hsmall hshort] at hlist
  exact {
    media := fun copy hc => h.entry hl hclear hsmall hc (by omega)
    mark := fun copy hc => by
      rw [h.entry hl hclear hsmall hc (by omega), if_neg (by decide), if_pos (by omega)]
    free := fun copy hc n hn hlt hout => by
      rw [h.entry hl hclear hsmall hc (by omega), if_neg (by omega), if_neg]
      intro hn3
      -- only in a FAT32 volume is a third entry set, and that is the root directory
      have hk : fat_kind l.fat = .fat32 := by
        rw [← hl.params_kind hsmall]
        exact hk32 (by omega)
      rw [hroot, if_pos (fat_kind_eq_fat32.mp hk)] at hout
      exact hout (List.mem_singleton.mpr (by omega))
    chain := fun c hc copy hcopy => by
      rw [hroot] at hc
      split_ifs at hc with h32
      · have hk : l.params.kind = .fat32 := (hl.params_kind hsmall).trans (if_pos h32)
        rw [List.mem_singleton.mp hc, h.entry hl hclear hsmall hcopy (by omega),
          if_neg (by decide), hk, if_pos (by decide)]
        exact Nat.sub_le _ _
      · cases hc
    root := hlist.1
    labels := hlist.2 }

end Fresh

end NewfsMsdos

end Iago
