/-
Whether the table an installation leaves is well formed, and where its partitions
are.

`create_android_partitions` is handed a table that is new, or one that was read,
shrunk and rid of Android; either way it is well formed (`Handed`). A run of the
callback then lays the partitions out one behind the other from the first whole MiB
of the region on. As long as they fit they are inside the region, so the table stays
well formed (`Run.laid`). The other way round a run whose partitions all turned out
inside the region, with none ending before it starts, cannot have wrapped anywhere
(`Run.fits`). Together: `installs_well_iff`.
-/
import Iago.SpaceRequired

set_option autoImplicit false

namespace Iago

section Installs

variable [Platform]

/-! ## The tables handed over -/

/-- The tables `create_android_partitions` is called on: new ones, and well-formed
ones that Windows may have been shrunk in and Android deleted from. -/
inductive Handed : Gpt → Prop where
  | fresh {g₀ g : Gpt} {r r' : Urandom} (h : gpt_new (ε := Die) g₀ r = .ret (0, g, r')) : Handed g
  | dual {g₀ g₁ g : Gpt} (hmap : g₀.Mapped) (hwf : g₀.WellFormed)
      (hresize : g₁ = g₀ ∨ ∃ (m : Machine) (i : UInt32) (new_size : UInt64),
        resize_ntfs_partition m i g₀ new_size = .ret g₁ ∧
        (g₁.entry i).first_lba ≤ (g₁.entry i).last_lba ∧
        (g₁.entry i).last_lba ≤ (g₀.entry i).last_lba)
      (hdelete : g = g₁ ∨ delete_android g₁ = .ret g) : Handed g

/-- A table with nothing in use is well formed. -/
theorem wellFormed_of_empty {g : Gpt} (h : ∀ i, ¬ g.InUse i) : g.WellFormed where
  le i hi := absurd hi (h i)
  inside i hi := absurd hi (h i)
  apart i _ hi := absurd hi (h i)

/-- So is one with a single partition inside the usable range. -/
theorem wellFormed_of_one {g : Gpt} {i : UInt32} (hone : g.inUse.map Prod.fst = [i])
    (hle : (g.entry i).first_lba ≤ (g.entry i).last_lba)
    (hin : g.header.first_usable_lba ≤ (g.entry i).first_lba ∧
      (g.entry i).last_lba ≤ g.header.last_usable_lba) : g.WellFormed := by
  have honly : ∀ j, g.InUse j → j = i := by
    intro j hj
    have hmem := List.mem_map_of_mem (f := Prod.fst) (mem_inUse.mpr ⟨hj, rfl⟩)
    rw [hone] at hmem
    exact List.mem_singleton.mp hmem
  refine ⟨?_, ?_, ?_⟩
  · intro j hj
    rw [honly j hj]
    exact hle
  · intro j hj
    rw [honly j hj]
    exact hin
  · intro j k hj hk hjk
    exact absurd ((honly j hj).trans (honly k hk).symm) hjk

/-- A resize that ended no later than before only takes LBAs away. -/
theorem shrinks_of_resize {m : Machine} {g g' : Gpt} {i : UInt32} {new_size : UInt64}
    (hg : g.Mapped) (hwf : g.WellFormed) (h : resize_ntfs_partition m i g new_size = .ret g')
    (hle : (g'.entry i).first_lba ≤ (g'.entry i).last_lba)
    (hshrink : (g'.entry i).last_lba ≤ (g.entry i).last_lba) : Shrinks g g' := by
  obtain ⟨hi, -, rfl, -⟩ := resize_spec hg h
  have hself := entry_setEntry_self (e := resized g i new_size) hg hi
  intro j hj
  have hidx : g.Index j := (index_setEntry _ _ _ _).mp hj.1
  by_cases hij : i = j
  · subst hij
    have hfirst : (resized g i new_size).first_lba = (g.entry i).first_lba := rfl
    rw [hself] at hle hshrink
    rw [hself]
    refine ⟨⟨hidx, ?_⟩, rfl, hle, hshrink⟩
    have hne := hj.2
    rwa [hself, hfirst] at hne
  · have hother := entry_setEntry_of_ne (e := resized g i new_size) hg hi hidx hij
    have huse : g.InUse j := ⟨hidx, by rw [← hother]; exact hj.2⟩
    rw [hother]
    exact ⟨huse, rfl, hwf.le j huse, UInt64.le_refl _⟩

/-- Deleting only takes LBAs away. -/
theorem AndroidDeleted.shrinks {g g' : Gpt} (hwf : g.WellFormed) (h : AndroidDeleted g g') :
    Shrinks g g' := by
  intro i hi
  have hidx : g.Index i := by
    rw [Gpt.Index, ← h.header]
    exact hi.1
  have hent := h.entry i hidx
  by_cases hdel : g.Deleted i
  · rw [if_pos hdel] at hent
    exact absurd (by rw [hent]; rfl) hi.2
  · rw [if_neg hdel] at hent
    have huse : g.InUse i := ⟨hidx, by rw [← hent]; exact hi.2⟩
    rw [hent]
    exact ⟨huse, rfl, hwf.le i huse, UInt64.le_refl _⟩

/-- **What is handed over is well formed.** -/
theorem Handed.wellFormed {g : Gpt} (h : Handed g) : g.Mapped ∧ g.WellFormed := by
  cases h with
  | fresh h =>
    obtain ⟨-, uuid, -, rfl⟩ := gpt_new_ret h
    exact ⟨new_table_mapped _ uuid, wellFormed_of_empty not_inUse_new_table⟩
  | @dual g₀ g₁ _ hmap hwf hresize hdelete =>
    have hres : g₁.Mapped ∧ g₁.WellFormed := by
      rcases hresize with rfl | ⟨m, i, new_size, hret, hle, hshrink⟩
      · exact ⟨hmap, hwf⟩
      · have hsh := shrinks_of_resize hmap hwf hret hle hshrink
        obtain ⟨hi, -, rfl, -⟩ := resize_spec hmap hret
        exact ⟨setEntry_mapped hmap hi, hwf.shrink hsh rfl rfl⟩
    rcases hdelete with rfl | hret
    · exact hres
    · have hdel := delete_android_spec hres.1 hret
      exact ⟨hdel.mapped, hres.2.shrink (hdel.shrinks hres.2) (by rw [hdel.header])
        (by rw [hdel.header])⟩

end Installs

/-! ## A run inside the region -/

section Laid

variable [Platform] {g : Gpt} {s e : UInt64}

/-- The new entries of a table are inside the first `x` MiB of the disk, and the next
one starts there. -/
structure Laid (g : Gpt) (s : UInt64) (x : ℕ) (mc : MkpartCtx) : Prop where
  kept : Kept g mc.gpt
  wellFormed : mc.gpt.WellFormed
  new : ∀ i, mc.gpt.InUse i → ¬ g.InUse i → s ≤ (mc.gpt.entry i).first_lba ∧
    (mc.gpt.entry i).last_lba.toNat < x * mib_lbas g
  next : mc.next_mb.toNat % 2 ^ 44 = x

/-- A partition of `m` MiB at MiB `x`. -/
structure Spans (g : Gpt) (x m : ℕ) (en : GptEntry) : Prop where
  first : en.first_lba.toNat = x * mib_lbas g
  last : en.last_lba.toNat + 1 = (x + m) * mib_lbas g

variable {mc₀ mc mc' : MkpartCtx} {n : CStr} {len : Int64} {i : UInt32} {en : GptEntry} {x : ℕ}

/-- Sectors keep their size. -/
theorem mib_lbas_kept (hk : Kept g mc.gpt) : mib_lbas mc.gpt = mib_lbas g := by
  rw [mib_lbas, mib_lbas, hk.lba_size]

/-- A partition that ends below `2 ^ 64` bytes is where it should be. -/
theorem Made.spans_of_lt (hdvd : g.lba_size.toNat ∣ 2 ^ 20) (hk : Kept g mc.gpt)
    (hst : Steady mc₀ mc) (h : Made n mc mc' len i en) (hnext : mc.next_mb.toNat % 2 ^ 44 = x)
    (hx : 0 < x) (hlt : x + size_mb mc₀ n < 2 ^ 44) :
    Spans g x (size_mb mc₀ n) en ∧ mc'.next_mb.toNat % 2 ^ 44 = x + size_mb mc₀ n := by
  obtain ⟨hfirst, hnext', hlast⟩ := h.lbas (by rw [hk.lba_size]; exact hdvd)
  have hmod : mc'.next_mb.toNat % 2 ^ 44 = x + size_mb mc₀ n := by
    rw [hnext', hnext, h.size_eq hst]
    exact Nat.mod_eq_of_lt hlt
  rw [hnext, mib_lbas_kept hk] at hfirst
  rw [hmod, mib_lbas_kept hk] at hlast
  refine ⟨⟨hfirst, ?_⟩, hmod⟩
  -- the end is neither 0 nor `2 ^ 64`, so it did not wrap
  have hpos : 0 < (x + size_mb mc₀ n) * mib_lbas g :=
    Nat.mul_pos (Nat.add_pos_left hx _) (Nat.div_pos (Nat.le_of_dvd (by decide) hdvd)
      (Nat.pos_of_dvd_of_pos hdvd (by decide)))
  have hend : (x + size_mb mc₀ n) * mib_lbas g < 2 ^ 44 * 2 ^ 20 :=
    Nat.lt_of_le_of_lt (Nat.mul_le_mul_left _ (Nat.div_le_self _ _))
      (Nat.mul_lt_mul_of_pos_right hlt (by decide))
  have hen := en.last_lba.toNat_lt
  generalize (x + size_mb mc₀ n) * mib_lbas g = y at hlast hend hpos ⊢
  omega

/-- A partition that fits is where it should be. -/
theorem Made.spans (ha : Addressable g) (hl : Laid g s x mc) (hst : Steady mc₀ mc)
    (h : Made n mc mc' len i en) (hx : 0 < x) (hfit : x + size_mb mc₀ n ≤ end_mb g e)
    (he : e.toNat ≤ g.header.last_usable_lba.toNat) :
    Spans g x (size_mb mc₀ n) en ∧ mc'.next_mb.toNat % 2 ^ 44 = x + size_mb mc₀ n :=
  h.spans_of_lt ha.lba_size hl.kept hst hl.next hx (Nat.lt_of_le_of_lt hfit (end_mb_lt ha he))

/-- Inside a free region an interval is apart from every entry in use. -/
theorem apart_of_free (hfree : FreeRegion g s e) (hwf : g.WellFormed) {j : UInt32}
    (hj : g.InUse j) {a b : UInt64} (ha : s ≤ a) (hab : a ≤ b) (hb : b ≤ e) :
    (g.entry j).last_lba < a ∨ b < (g.entry j).first_lba := by
  have hle := hwf.le j hj
  have hat := hfree.free
  simp only [UInt64.lt_iff_toNat_lt, UInt64.le_iff_toNat_le] at *
  by_contra hno
  -- the larger of the two starts would be in both
  rcases Nat.le_total (g.entry j).first_lba.toNat a.toNat with hf | hf
  · exact hat a ha (by omega) j hj ⟨hf, by omega⟩
  · exact hat (g.entry j).first_lba (by omega) (by omega) j hj ⟨Nat.le_refl _, hle⟩

/-- **One partition laid out.** -/
theorem Made.laid (ha : Addressable g) (hwf : g.WellFormed) (hfree : FreeRegion g s e)
    (hl : Laid g s x mc) (hst : Steady mc₀ mc) (h : Made n mc mc' len i en) (hx : 0 < x)
    (hstart : start_mb g s ≤ x) (hm : 0 < size_mb mc₀ n)
    (hfit : x + size_mb mc₀ n ≤ end_mb g e) : Laid g s (x + size_mb mc₀ n) mc' := by
  have he : e.toNat ≤ g.header.last_usable_lba.toNat := UInt64.le_iff_toNat_le.mp hfree.last
  obtain ⟨hsp, hnext⟩ := h.spans ha hl hst hx hfit he
  have hmap := hl.kept.mapped
  have hkept := hl.kept.trans (h.kept hmap)
  obtain ⟨hi, hnew, hself, hold⟩ := h.new hmap
  -- where the new entry is
  have hK := ha.mib_lbas_pos
  have hgrow : x * mib_lbas g < (x + size_mb mc₀ n) * mib_lbas g :=
    Nat.mul_lt_mul_of_pos_right (Nat.lt_add_of_pos_right hm) hK
  have hend := (le_end_mb_iff ha).mp hfit
  have hfirst : s ≤ en.first_lba := by
    rw [UInt64.le_iff_toNat_le, hsp.first]
    exact Nat.le_trans (le_start_mb ha) (Nat.mul_le_mul_right _ hstart)
  have hlast : en.last_lba ≤ e := by
    rw [UInt64.le_iff_toNat_le]
    have := hsp.last
    omega
  have hle : en.first_lba ≤ en.last_lba := by
    rw [UInt64.le_iff_toNat_le, hsp.first]
    have := hsp.last
    omega
  have hhead : mc'.gpt.header = g.header := hkept.header
  -- the new entry against one that was there
  have hap : ∀ j, mc.gpt.InUse j → (mc.gpt.entry j).last_lba < en.first_lba ∨
      en.last_lba < (mc.gpt.entry j).first_lba := by
    intro j hj
    by_cases hgj : g.InUse j
    · rw [(hl.kept.keeps j hgj).2]
      exact apart_of_free hfree hwf hgj hfirst hle hlast
    · left
      rw [UInt64.lt_iff_toNat_lt, hsp.first]
      exact (hl.new j hj hgj).2
  refine ⟨hkept, ⟨?_, ?_, ?_⟩, ?_, hnext⟩
  · intro j hj
    rcases hold j hj with rfl | ⟨hj', heq⟩
    · rw [hself]
      exact hle
    · rw [heq]
      exact hl.wellFormed.le j hj'
  · intro j hj
    rcases hold j hj with rfl | ⟨hj', heq⟩
    · rw [hself, hhead]
      exact ⟨UInt64.le_trans hfree.first hfirst, UInt64.le_trans hlast hfree.last⟩
    · rw [heq, hhead, ← hl.kept.header]
      exact hl.wellFormed.inside j hj'
  · intro j k hj hk hjk
    rcases hold j hj with rfl | ⟨hj', heqj⟩
    · rcases hold k hk with rfl | ⟨hk', heqk⟩
      · exact absurd rfl hjk
      · rw [hself, heqk]
        exact (hap k hk').symm
    · rcases hold k hk with rfl | ⟨hk', heqk⟩
      · rw [hself, heqj]
        exact hap j hj'
      · rw [heqj, heqk]
        exact hl.wellFormed.apart j k hj' hk' hjk
  · intro j hj hgj
    rcases hold j hj with rfl | ⟨hj', heq⟩
    · rw [hself]
      have := hsp.last
      exact ⟨hfirst, by omega⟩
    · rw [heq]
      obtain ⟨hs, hlt⟩ := hl.new j hj' hgj
      exact ⟨hs, hlt.trans hgrow⟩

/-- The sizes of the partitions of a list that are made, added up. -/
def total_mb (mc : MkpartCtx) (list : List CStr) : ℕ :=
  ((made_names mc.skip_bootloader list).map (size_mb mc)).sum

/-- What is left to make is less by the partition that was made. -/
theorem Made.total (h : Made n mc mc' len i en) (hst : Steady mc₀ mc) (list : List CStr) :
    total_mb mc₀ (n :: list) = size_mb mc₀ n + total_mb mc₀ list := by
  rw [total_mb, h.names hst, List.map_cons, List.sum_cons, total_mb]

/-- A partition of a list is in the table under the index its option says, and has its
size. -/
def Installed (g : Gpt) (mc₀ mc : MkpartCtx) (n : CStr) : Prop :=
  ∃ i x, mc.opts (partition_key n "index") = some (decInt i.toInt32.toInt) ∧
    mc.gpt.InUse i ∧ Spans g x (size_mb mc₀ n) (mc.gpt.entry i)

/-- The partition just made is installed, if it does not start at LBA 0. -/
theorem Made.installed (ha : Addressable g) (hmap : mc.gpt.Mapped) (hx : 0 < x)
    (h : Made n mc mc' len i en) (hsp : Spans g x (size_mb mc₀ n) en) : Installed g mc₀ mc' n := by
  have hpos : 0 < en.first_lba.toNat := hsp.first.symm ▸ Nat.mul_pos hx ha.mib_lbas_pos
  obtain ⟨-, -, hself, -⟩ := h.new hmap
  exact ⟨i, x, h.index, h.inUse hmap hpos, by rw [hself]; exact hsp⟩

/-- What is installed stays installed while other names are made. -/
theorem Installed.made (hmap : mc.gpt.Mapped) {n' : CStr} (h : Made n' mc mc' len i en)
    (hne : n ≠ n') (hin : Installed g mc₀ mc n) : Installed g mc₀ mc' n := by
  obtain ⟨j, y, hkey, huse, hsp⟩ := hin
  obtain ⟨huse', hsame⟩ := (h.kept hmap).keeps j huse
  exact ⟨j, y, (h.index_key hne).trans hkey, huse', by rw [hsame]; exact hsp⟩

/-- A partition that is made stays as it is while others are. -/
theorem Run.installed {list : List CStr} (h : Run Mkpart list mc mc') (hmap : mc.gpt.Mapped)
    (hn : n ∉ list) (hin : Installed g mc₀ mc n) : Installed g mc₀ mc' n := by
  induction h with
  | nil mc => exact hin
  | cons hstep _ ih =>
    rw [List.mem_cons, not_or] at hn
    rcases hstep with ⟨-, rfl⟩ | ⟨_, _, _, hmade⟩
    · exact ih hmap hn.2 hin
    · exact ih (hmade.kept hmap).mapped hn.2 (hin.made hmap hmade hn.1)

/-- **A run whose partitions fit**: the table stays well formed, the new entries are
inside the region, and every partition is installed. -/
theorem Run.laid {list : List CStr} (h : Run Mkpart list mc mc') (ha : Addressable g)
    (hfree : FreeRegion g s e) (hl : Laid g s x mc) (hst : Steady mc₀ mc) (hx : 0 < x)
    (hstart : start_mb g s ≤ x) (hnodup : list.Nodup)
    (hpos : ∀ n ∈ made_names mc₀.skip_bootloader list, 0 < size_mb mc₀ n)
    (hfit : x + total_mb mc₀ list ≤ end_mb g e) (hwf : g.WellFormed) :
    Laid g s (x + total_mb mc₀ list) mc' ∧
      ∀ n ∈ made_names mc₀.skip_bootloader list, Installed g mc₀ mc' n := by
  induction h generalizing x with
  | nil mc =>
    refine ⟨hl, ?_⟩
    intro n hn
    exact absurd hn List.not_mem_nil
  | @cons n list mc₁ mc₂ mc₃ hstep hrest ih =>
    obtain ⟨hnlist, hnodup⟩ := List.nodup_cons.mp hnodup
    rcases hstep with ⟨hskip, rfl⟩ | ⟨len, i, en, hmade⟩
    · -- a skipped name adds nothing to either list
      have hnames := hst.names hskip list
      rw [total_mb, hnames] at hfit ⊢
      rw [hnames] at hpos
      exact ih hl hst hx hstart hnodup hpos hfit
    · have hnames := hmade.names hst list
      rw [hmade.total hst, ← Nat.add_assoc] at hfit ⊢
      rw [hnames] at hpos ⊢
      have he : e.toNat ≤ g.header.last_usable_lba.toNat := UInt64.le_iff_toNat_le.mp hfree.last
      have hthis : x + size_mb mc₀ n ≤ end_mb g e := Nat.le_trans (Nat.le_add_right _ _) hfit
      have hl' := hmade.laid ha hwf hfree hl hst hx hstart (hpos n List.mem_cons_self) hthis
      obtain ⟨hlaid, hall⟩ := ih hl' (hmade.steady hst) (Nat.add_pos_left hx _)
        (Nat.le_trans hstart (Nat.le_add_right _ _)) hnodup
        (fun m hm => hpos m (List.mem_cons_of_mem _ hm)) hfit
      refine ⟨hlaid, fun m hm => ?_⟩
      rcases List.mem_cons.mp hm with rfl | hm
      · have hsp := (hmade.spans ha hl hst hx hthis he).1
        exact hrest.installed (hmade.kept hl.kept.mapped).mapped hnlist
          (hmade.installed ha hl.kept.mapped hx hsp)
      · exact hall m hm

/-! ## The run read backwards -/

/-- A new entry that turned out inside the region, ending no earlier than it starts,
has the size it was meant to have. -/
theorem Made.fits (ha : Addressable g) (hk : Kept g mc.gpt) (hst : Steady mc₀ mc)
    (hx : mc.next_mb.toNat % 2 ^ 44 = x) (h : Made n mc mc' len i en)
    (hle : en.first_lba ≤ en.last_lba) (hlast : en.last_lba ≤ e)
    (he : e.toNat ≤ g.header.last_usable_lba.toNat) :
    0 < size_mb mc₀ n ∧ x + size_mb mc₀ n ≤ end_mb g e ∧
      mc'.next_mb.toNat % 2 ^ 44 = x + size_mb mc₀ n := by
  have hdvd : mc.gpt.lba_size.toNat ∣ 2 ^ 20 := by
    rw [hk.lba_size]
    exact ha.lba_size
  obtain ⟨hf, hnext, hl⟩ := h.lbas hdvd
  rw [hx, h.size_eq hst] at hnext
  rw [hx, mib_lbas_kept hk] at hf
  rw [mib_lbas_kept hk] at hl
  rw [UInt64.le_iff_toNat_le] at hle hlast
  have hxlt : x < 2 ^ 44 := by
    rw [← hx]
    exact Nat.mod_lt _ (by decide)
  have hm : size_mb mc₀ n < 2 ^ 44 := by
    rw [← h.size_eq hst]
    exact Nat.mod_lt _ (by decide)
  have helt := ha.lbas
  -- MiB below `2 ^ 44` are LBAs below `2 ^ 64`
  have hK : mib_lbas g ≤ 2 ^ 20 := Nat.div_le_self _ _
  have hylt : mc'.next_mb.toNat % 2 ^ 44 * mib_lbas g < 2 ^ 44 * 2 ^ 20 :=
    Nat.lt_of_le_of_lt (Nat.mul_le_mul_left _ hK)
      (Nat.mul_lt_mul_of_pos_right (Nat.mod_lt _ (by decide)) (by decide))
  have hend : en.last_lba.toNat + 1 = mc'.next_mb.toNat % 2 ^ 44 * mib_lbas g := by
    generalize mc'.next_mb.toNat % 2 ^ 44 * mib_lbas g = y at hl hylt
    omega
  -- the end is behind the start, so the sum of start and size did not wrap
  have hlt : x < mc'.next_mb.toNat % 2 ^ 44 := by
    refine Nat.lt_of_mul_lt_mul_right (a := mib_lbas g) ?_
    omega
  have hsum : mc'.next_mb.toNat % 2 ^ 44 = x + size_mb mc₀ n := by
    omega
  refine ⟨by omega, ?_, hsum⟩
  rw [le_end_mb_iff ha, ← hsum, ← hend]
  omega

/-- **A run whose partitions turned out inside the region has laid out what it was
asked for, and that fits.** -/
theorem Run.fits {list : List CStr} (h : Run Mkpart list mc mc') (ha : Addressable g)
    (he : e.toNat ≤ g.header.last_usable_lba.toNat) (hk : Kept g mc.gpt) (hst : Steady mc₀ mc)
    (hx : mc.next_mb.toNat % 2 ^ 44 = x) (hpos : 0 < x)
    (hin : ∀ i, mc'.gpt.InUse i → ¬ g.InUse i →
      (mc'.gpt.entry i).first_lba ≤ (mc'.gpt.entry i).last_lba ∧ (mc'.gpt.entry i).last_lba ≤ e) :
    (∀ n ∈ made_names mc₀.skip_bootloader list, 0 < size_mb mc₀ n) ∧
      (made_names mc₀.skip_bootloader list ≠ [] → x + total_mb mc₀ list ≤ end_mb g e) := by
  induction h generalizing x with
  | nil mc => exact ⟨fun n hn => absurd hn List.not_mem_nil, fun hne => absurd rfl hne⟩
  | @cons n list mc₁ mc₂ mc₃ hstep hrest ih =>
    rcases hstep with ⟨hskip, rfl⟩ | ⟨len, i, en, hmade⟩
    · rw [total_mb, hst.names hskip]
      exact ih hk hst hx hpos hin
    · obtain ⟨-, hnew, hself, -⟩ := hmade.new hk.mapped
      have hk₂ := hmade.kept hk.mapped
      have hfirst : 0 < en.first_lba.toNat := by
        rw [(hmade.lbas (by rw [hk.lba_size]; exact ha.lba_size)).1, hx, mib_lbas_kept hk]
        exact Nat.mul_pos hpos ha.mib_lbas_pos
      -- the new entry is still there at the end
      obtain ⟨huse', hsame⟩ := (hrest.kept hk₂.mapped).keeps i (hmade.inUse hk.mapped hfirst)
      obtain ⟨hle, hlast⟩ := hin i huse' fun hgi => hnew (hk.keeps i hgi).1
      rw [hsame, hself] at hle hlast
      obtain ⟨hm, hfit, hnext⟩ := hmade.fits ha hk hst hx hle hlast he
      obtain ⟨hall, htotal⟩ := ih (hk.trans hk₂) (hmade.steady hst) hnext (Nat.add_pos_left hpos _)
        hin
      rw [hmade.total hst, hmade.names hst]
      refine ⟨fun m hmem => ?_, fun _ => ?_⟩
      · rcases List.mem_cons.mp hmem with rfl | hmem
        · exact hm
        · exact hall m hmem
      · by_cases hnil : made_names mc₀.skip_bootloader list = []
        · rw [total_mb, hnil, List.map_nil, List.sum_nil]
          exact hfit
        · have hrest := htotal hnil
          omega

end Laid

/-! ## When an installation is sound -/

section Room

variable [Platform] {g g' : Gpt} {s e needed : UInt64} {skip : Bool} {opts opts' : Hashmap}

/-- The options the callback reads: the second boot loader is as long as the first. -/
def install_opts (opts : Hashmap) : Hashmap :=
  match opts (partition_key (cstr "bootloader") "len") with
  | none => opts
  | some len => xhashmapPut opts (partition_key (cstr "bootloader2") "len") len

/-- What is left in the region for a partition that fills it, in MiB. -/
def fill_mb (g : Gpt) (s e needed : UInt64) : ℕ :=
  end_mb g e - start_mb g s - (to_mib needed).toNat

/-- The partitions have room in the region: it holds a whole MiB or at least the
border between two, and the sizes of the partitions, of which `mib << 20` keeps 44
bits, are positive and fit together. -/
structure RoomFor (g : Gpt) (s e needed : UInt64) (opts : Hashmap) (names : List CStr) : Prop where
  start : 0 < start_mb g s
  whole : start_mb g s ≤ end_mb g e
  positive : ∀ n ∈ names, 0 < made_mb (install_opts opts) (fill_mb g s e needed) n
  total : (names.map (made_mb (install_opts opts) (fill_mb g s e needed))).sum
    ≤ end_mb g e - start_mb g s

/-- A sound installation: the table is well formed again, what is new in it is inside
the free region, and the data partition is not too small. -/
structure InstallsWell (g g' : Gpt) (s e : UInt64) (opts opts' : Hashmap) (names : List CStr) :
    Prop where
  wellFormed : g'.WellFormed
  inside : ∀ i, g'.InUse i → ¬ g.InUse i →
    s ≤ (g'.entry i).first_lba ∧ (g'.entry i).last_lba ≤ e
  fill : ∀ n ∈ names, len_of (install_opts opts) n < 0 →
    ∃ i, opts' (partition_key n "index") = some (decInt i.toInt32.toInt) ∧ g'.InUse i ∧
      350 * 2 ^ 20 ≤ ((g'.entry i).last_lba.toNat + 1 - (g'.entry i).first_lba.toNat)
        * g.lba_size.toNat

omit [Platform] in
/-- A number of MiB fits 44 bits. -/
theorem to_mib_le (val : UInt64) : (to_mib val).toNat ≤ 2 ^ 44 := by
  rw [to_mib, to_unit_ceiling, UInt64.toNat_div]
  have hlt := (round_up_to_multiple val ((1 : UInt64) <<< 20)).toNat_lt
  have hunit : ((1 : UInt64) <<< 20).toNat = 2 ^ 20 := by decide
  rw [hunit]
  omega

/-- The state the callback loop starts in, when the region found is `s` to `e`. -/
structure Starts (g : Gpt) (s e needed : UInt64) (skip : Bool) (opts : Hashmap) (mc : MkpartCtx) :
    Prop where
  gpt : mc.gpt = g
  skip : mc.skip_bootloader = skip
  opts : mc.opts = install_opts opts
  next : mc.next_mb = to_mib (s * g.lba_size.toUInt64)
  disk_mb : mc.disk_mb = to_mib_floor ((e + 1) * g.lba_size.toUInt64)
    - to_mib (s * g.lba_size.toUInt64)
  ptn_mb : mc.ptn_mb = to_mib needed
  room : ¬ mc.disk_mb < mc.ptn_mb + MIN_DATA_PART_SIZE

/-- A call that returned has run the callback over the list. -/
theorem create_run [Qsort] {bootloader_size : UInt64} {partlist : CStr} {urandom urandom' : Urandom}
    (hmap : g.Mapped)
    (hfind : gpt_find_contiguous_free_space (ε := Die) g = .ret (some (s, e)))
    (h : create_android_partitions bootloader_size partlist g skip opts urandom
      = .ret (g', opts', urandom')) :
    ∃ needed mc mc', get_partial_space_required opts bootloader_size = .ret needed ∧
      Starts g s e needed skip opts mc ∧ Run Mkpart (entries partlist) mc mc' ∧
      mc'.gpt = g' ∧ mc'.opts = opts' := by
  obtain ⟨needed, s', e', len, hneed, hfind', hlen, hroom, mc', hloop, hgpt, hopts, -⟩ :=
    create_spec h
  rw [hfind] at hfind'
  injection hfind' with hfind'
  injection hfind' with hfind'
  injection hfind' with hs he
  subst hs he
  have hinstall : install_opts opts
      = xhashmapPut opts (partition_key (cstr "bootloader2") "len") len := by
    rw [install_opts, hlen]
  have hmap' : (mkpart_start g s e needed skip opts len urandom).gpt.Mapped := hmap
  exact ⟨needed, _, mc', hneed, ⟨rfl, rfl, hinstall.symm, rfl, rfl, rfl, hroom⟩,
    mkpart_run hmap' hloop, hgpt, hopts⟩

omit [Platform] in
/-- In plain numbers: in a region below `2 ^ 64` bytes that does not round to an end before
its start. -/
theorem Starts.fill_eq {mc : MkpartCtx} (h : Starts g s e needed skip opts mc)
    (hL : 0 < g.lba_size.toNat) (hlt : end_mb g e < 2 ^ 44) (hwhole : start_mb g s ≤ end_mb g e) :
    (to_mib needed).toNat + 350 ≤ end_mb g e - start_mb g s ∧
      (mc.disk_mb - mc.ptn_mb).toNat % 2 ^ 44 = fill_mb g s e needed := by
  have hneed := to_mib_le needed
  have hdisk : mc.disk_mb.toNat = end_mb g e - start_mb g s := by
    rw [h.disk_mb, UInt64.toNat_sub, start_mb_of_lt (Nat.lt_of_le_of_lt hwhole hlt),
      end_mb_of_lt hL hlt]
    omega
  have hmin : MIN_DATA_PART_SIZE.toNat = 350 := rfl
  have hroom := h.room
  rw [UInt64.lt_iff_toNat_lt, UInt64.toNat_add, hdisk, h.ptn_mb, hmin] at hroom
  refine ⟨by omega, ?_⟩
  rw [UInt64.toNat_sub, hdisk, h.ptn_mb, fill_mb]
  omega

omit [Platform] in
/-- What the partitions get in such a region. -/
theorem Starts.size_eq {mc : MkpartCtx} (h : Starts g s e needed skip opts mc)
    (hL : 0 < g.lba_size.toNat) (hlt : end_mb g e < 2 ^ 44) (hwhole : start_mb g s ≤ end_mb g e) :
    size_mb mc = made_mb (install_opts opts) (fill_mb g s e needed) := by
  funext n
  rw [size_mb, h.opts, (h.fill_eq hL hlt hwhole).2]

omit [Platform] in
/-- The first partition starts with the first MiB of the region. -/
theorem Starts.next_eq {mc : MkpartCtx} (h : Starts g s e needed skip opts mc)
    (hlt : start_mb g s < 2 ^ 44) : mc.next_mb.toNat % 2 ^ 44 = start_mb g s := by
  rw [h.next, start_mb_of_lt hlt]
  exact Nat.mod_eq_of_lt hlt

/-- **When an installation is sound**: if the region has room for the partitions, and,
on a disk whose usable LBAs do not take in LBA 0, only then. -/
theorem installs_well_iff [Qsort] (hg : Handed g) (ha : Addressable g)
    {bootloader_size : UInt64} {partlist : CStr} {urandom urandom' : Urandom}
    (hnodup : (entries partlist).Nodup) (hboot : cstr "bootloader2" ∈ entries partlist)
    (hfind : gpt_find_contiguous_free_space (ε := Die) g = .ret (some (s, e)))
    (hneed : get_partial_space_required opts bootloader_size = .ret needed)
    (h : create_android_partitions bootloader_size partlist g skip opts urandom
      = .ret (g', opts', urandom')) :
    (RoomFor g s e needed opts (made_names skip (entries partlist)) →
      InstallsWell g g' s e opts opts' (made_names skip (entries partlist))) ∧
    (g.header.first_usable_lba ≠ 0 →
      InstallsWell g g' s e opts opts' (made_names skip (entries partlist)) →
      RoomFor g s e needed opts (made_names skip (entries partlist))) := by
  obtain ⟨hmap, hwf⟩ := hg.wellFormed
  obtain ⟨hfree, -⟩ := find_wellFormed hwf ha.lbas hfind
  obtain ⟨needed', mc, mc', hneed', hst, hrun, rfl, rfl⟩ := create_run hmap hfind h
  rw [hneed] at hneed'
  injection hneed' with hneed'
  subst hneed'
  have he : e.toNat ≤ g.header.last_usable_lba.toNat := UInt64.le_iff_toNat_le.mp hfree.last
  have hs : s.toNat ≤ g.header.last_usable_lba.toNat :=
    Nat.le_trans (UInt64.le_iff_toNat_le.mp hfree.le) he
  -- the run, from the first whole MiB of the region
  have hgpt : mc.gpt = g := hst.gpt
  have hskip : mc.skip_bootloader = skip := hst.skip
  have hnext := hst.next_eq (start_mb_lt ha hs)
  have hkept : Kept g mc.gpt := by
    rw [hgpt]
    exact .refl hmap
  have hsize (hwhole : start_mb g s ≤ end_mb g e) :
      (to_mib needed).toNat + 350 ≤ end_mb g e - start_mb g s ∧
        size_mb mc = made_mb (install_opts opts) (fill_mb g s e needed) :=
    ⟨(hst.fill_eq ha.lba_size_pos (end_mb_lt ha he) hwhole).1,
      hst.size_eq ha.lba_size_pos (end_mb_lt ha he) hwhole⟩
  constructor
  · rintro ⟨hstart, hwhole, hpos, htotal⟩
    obtain ⟨hmin, hsz⟩ := hsize hwhole
    have hl : Laid g s (start_mb g s) mc :=
      ⟨hkept, hgpt ▸ hwf, fun i hi hni => absurd (hgpt ▸ hi) hni, hnext⟩
    have hfit : start_mb g s + total_mb mc (entries partlist) ≤ end_mb g e := by
      rw [total_mb, hskip, hsz]
      omega
    obtain ⟨hlaid, hall⟩ := hrun.laid ha hfree hl (.refl mc) hstart (Nat.le_refl _) hnodup
      (by rw [hskip, hsz]; exact hpos) hfit hwf
    refine ⟨hlaid.wellFormed, fun i hi hni => ?_, fun n hn hneg => ?_⟩
    · obtain ⟨hsi, hlt⟩ := hlaid.new i hi hni
      have hend := (le_end_mb_iff ha).mp hfit
      exact ⟨hsi, by rw [UInt64.le_iff_toNat_le]; omega⟩
    · obtain ⟨i, x, hkey, huse, hsp⟩ := hall n (by rw [hskip]; exact hn)
      refine ⟨i, hkey, huse, ?_⟩
      -- the size of the partition is what fills the region
      have hm : size_mb mc n = fill_mb g s e needed := by
        rw [hsz, made_mb, if_pos hneg]
      have hlbas : (mc'.gpt.entry i).last_lba.toNat + 1 - (mc'.gpt.entry i).first_lba.toNat
          = fill_mb g s e needed * mib_lbas g := by
        rw [hsp.first, hsp.last, Nat.add_mul, Nat.add_sub_cancel_left, hm]
      have hmul := ha.mul_mib_lbas
      rw [hlbas, Nat.mul_assoc, Nat.mul_comm (mib_lbas g), hmul]
      refine Nat.mul_le_mul_right _ ?_
      rw [fill_mb]
      omega
  · intro hzero hwell
    have hstart : 0 < start_mb g s := by
      refine start_mb_pos ha ?_
      have hfirst := UInt64.le_iff_toNat_le.mp hfree.first
      have hne : g.header.first_usable_lba.toNat ≠ 0 := fun h0 => hzero (UInt64.toNat_inj.mp h0)
      omega
    obtain ⟨hpos, htotal⟩ := hrun.fits ha he hkept (.refl mc) hnext hstart
      fun i hi hni => ⟨hwell.wellFormed.le i hi, (hwell.inside i hi hni).2⟩
    have hne : made_names mc.skip_bootloader (entries partlist) ≠ [] := by
      refine List.ne_nil_of_mem (a := cstr "bootloader2") (List.mem_filter.mpr ⟨hboot, ?_⟩)
      exact decide_eq_true fun hno => absurd hno.2 (by decide)
    have hfit := htotal hne
    have hwhole : start_mb g s ≤ end_mb g e := Nat.le_trans (Nat.le_add_right _ _) hfit
    obtain ⟨-, hsz⟩ := hsize hwhole
    rw [total_mb, hskip, hsz] at hfit
    rw [hskip, hsz] at hpos
    exact ⟨hstart, hwhole, hpos, by omega⟩

end Room

/-! ### A region without a whole MiB -/

section Short

attribute [local instance] x86 insertionQsort

/-- Three partitions: the boot loader, which is there, its copy, and the data. -/
def short_list : CStr := cstr "bootloader bootloader2 data"

def short_opts : Hashmap := fun key =>
  if key = BASE_PTN_LIST then some short_list
  else if key = partition_key (cstr "bootloader") "len" then some (cstr "1")
  else if key = partition_key (cstr "data") "len" then some (cstr "-1")
  else none

/-- A disk of not much more than a MiB, half of which is an EFI system partition. -/
def short_gpt : Gpt where
  header := { small_header 4 0 0 with last_usable_lba := 2046 }
  entries := .live (GptEntry.codec.enc
    { region_entry 3 1000 with type_guid := get_guid_type .PART_ESP } ++ List.replicate 384 0)
  lba_size := 512
  sectors := 2050
  device := cstr "/dev/block/sda"

/-- The free LBAs, 1001 to 2046, end before MiB 1 does and start behind MiB 0: the
space in them is `0 - 1` MiB. -/
def short_install : Exec Die (Gpt × Hashmap × Urandom) :=
  create_android_partitions ((1 : UInt64) <<< 20) short_list short_gpt true short_opts zeros

theorem short_wellFormed : short_gpt.Mapped ∧ short_gpt.WellFormed := by
  refine ⟨⟨rfl, by decide +kernel, ?_⟩, ?_⟩
  · rw [GptHeader.inBounds_iff (by decide)]
    exact .inr (by decide)
  · exact wellFormed_of_one (i := 1) (by decide +kernel) (by decide +kernel) (by decide +kernel)

theorem short_handed : Handed short_gpt :=
  .dual short_wellFormed.1 short_wellFormed.2 (.inl rfl) (.inl rfl)

theorem short_addressable : Addressable short_gpt := ⟨by decide, by decide, by decide⟩

/-- It returns, and the second entry is in use and ends outside the usable range. -/
theorem short_install_ret : ∃ g' opts' urandom', short_install = .ret (g', opts', urandom') ∧
    g'.InUse 2 ∧ ¬ (g'.entry 2).last_lba ≤ g'.header.last_usable_lba := by
  have hrun : short_install.returns (fun v =>
      decide (v.1.InUse 2 ∧ ¬ (v.1.entry 2).last_lba ≤ v.1.header.last_usable_lba)) = true := by
    decide +kernel
  obtain ⟨⟨g', opts', urandom'⟩, hret, htest⟩ := Exec.exists_of_returns hrun
  exact ⟨g', opts', urandom', hret, of_decide_eq_true htest⟩

theorem short_installs_well_iff : ∃ g' opts' urandom',
    short_install = .ret (g', opts', urandom') ∧
    (RoomFor short_gpt 1001 2046 ((1 : UInt64) <<< 20) short_opts (made_names true (entries short_list)) →
      InstallsWell short_gpt g' 1001 2046 short_opts opts' (made_names true (entries short_list))) ∧
    (short_gpt.header.first_usable_lba ≠ 0 →
      InstallsWell short_gpt g' 1001 2046 short_opts opts' (made_names true (entries short_list)) →
      RoomFor short_gpt 1001 2046 ((1 : UInt64) <<< 20) short_opts
        (made_names true (entries short_list))) := by
  obtain ⟨g', opts', urandom', hret, -⟩ := short_install_ret
  exact ⟨g', opts', urandom', hret, installs_well_iff short_handed short_addressable
    (by decide +kernel) (by decide +kernel) (by decide +kernel) (by decide +kernel) hret⟩

/-- **Two partitions are laid out behind the usable range** of a well-formed table. -/
theorem short_not_installs_well : Handed short_gpt ∧ short_gpt.WellFormed ∧ Addressable short_gpt ∧
    gpt_find_contiguous_free_space (ε := Die) short_gpt = .ret (some (1001, 2046)) ∧
    ∃ g' opts' urandom', short_install = .ret (g', opts', urandom') ∧
      ¬ g'.WellFormed ∧
      ¬ InstallsWell short_gpt g' 1001 2046 short_opts opts' (made_names true (entries short_list)) := by
  obtain ⟨g', opts', urandom', hret, huse, hout⟩ := short_install_ret
  refine ⟨short_handed, short_handed.wellFormed.2, short_addressable, by decide +kernel, g', opts',
    urandom', hret, fun hwf => hout (hwf.inside 2 huse).2, fun hwell => ?_⟩
  exact hout (hwell.wellFormed.inside 2 huse).2

end Short

end Iago
