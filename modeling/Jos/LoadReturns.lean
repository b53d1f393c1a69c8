import Jos.LoadSegments

/-!
When `load_icode` returns: the program is well formed, and there is a free page for every page it
loads, for every page table these pages need, and for the page of the stack.
-/

namespace Jos

variable {L : Layout} {e : Fin nenv} {f k n p q : Nat} {all fl fl₁ ks tail : List Nat}
  {s₀ s s₁ s' : Machine} {va binary ph eph : UInt32}

/-- The segment lies in the file and below the stack, and the pages of `region_alloc` cover it. -/
structure Proghdr.Fits (h : Proghdr) (image : Image) (binary : UInt32) : Prop where
  filesz : h.pFilesz ≤ h.pMemsz
  covered : h.pVa.toNat % 4096 + h.pMemsz.toNat ≤ (roundUp h.pMemsz pgsize).toNat
  below : h.pVa.toNat + h.pMemsz.toNat ≤ (ustacktop - pgsize).toNat
  contents : binary.toNat + h.pOffset.toNat + h.pFilesz.toNat ≤ image.kend.toNat

/-- The numbers of the pages that `region_alloc` maps for the segment. -/
def Proghdr.pages (h : Proghdr) : List Nat :=
  List.range' (h.pVa.toNat / 4096) ((h.pMemsz.toNat + 4095) / 4096)

def segmentPages (hs : List Proghdr) : List Nat := hs.flatMap Proghdr.pages

theorem segmentPages_cons (h : Proghdr) (hs : List Proghdr) :
    segmentPages (h :: hs) = h.pages ++ segmentPages hs := rfl

theorem segmentPages_lt {image : Image} {hs : List Proghdr}
    (hfits : ∀ h ∈ hs, h.pType = elfProgLoad → h.Fits image binary) (hks : ∀ j ∈ ks, j < 977920) :
    ∀ j ∈ segmentPages (hs.filter fun h => h.pType = elfProgLoad) ++ ks, j < 977920 := by
  intro j hj
  rw [List.mem_append] at hj
  rcases hj with hj | hj
  · obtain ⟨h, hmem, hj⟩ := List.mem_flatMap.mp hj
    rw [List.mem_filter] at hmem
    have hbelow := (hfits h hmem.1 (by simpa using hmem.2)).below
    have hstack : (ustacktop - pgsize).toNat = 4005548032 := rfl
    rw [Proghdr.pages, List.mem_range'_1] at hj
    omega
  · exact hks j hj

/-- The entries of the page directory `f` that lack a page table for the pages `ks`. -/
def missing (m : Mem) (f : Nat) (ks : List Nat) : Finset (Fin 1024) :=
  (ks.map fun k => pdxIdx (pageVa k)).toFinset.filter fun d => entryFrame (m f d) = none

/-- There is a free page for each of the pages `ks`, and for each missing page table. -/
def Enough (m : Mem) (f : Nat) (fl ks : List Nat) : Prop :=
  ks.length + (missing m f ks).card ≤ fl.length

theorem mem_missing {m : Mem} {d : Fin 1024} :
    d ∈ missing m f ks ↔ (∃ k ∈ ks, pdxIdx (pageVa k) = d) ∧ entryFrame (m f d) = none := by
  simp [missing]

theorem Enough.congr {m m' : Mem} (h : Enough m f fl ks) (hdir : m' f = m f) :
    Enough m' f fl ks := by
  unfold Enough missing at h ⊢
  rw [hdir]
  exact h

/-- The round takes one page, and a second one when the page table was missing. -/
theorem RoundRun.enough {g : Nat} (h : RoundRun L e f k p g tail s s₁ fl₁)
    (hf : dirFrame s.envs e = some f) (hbelow : ∀ j ∈ k :: ks, j < 977920)
    (henough : Enough s.mem f (p :: tail) (k :: ks)) : Enough s₁.mem f fl₁ ks := by
  have hd (j : Nat) (hj : j ∈ k :: ks) : (pdxIdx (pageVa j)).val < userPdes :=
    pdxIdx_lt_userPdes (pageVa_lt (hbelow j hj))
  have hf₁ : dirFrame s₁.envs e = some f := by
    rw [h.pagesOnly.envs]
    exact hf
  have hentry (d : Fin 1024) (hlt : d.val < userPdes) :
      entryFrame (s₁.mem f d) =
        if d = pdxIdx (pageVa k) then some g else entryFrame (s.mem f d) := by
    have hslot := congrFun h.own_eq (.pde e d)
    rw [Function.update_of_ne (by simp [pageSlot])] at hslot
    have hleft : own s₁.mem s₁.envs (.pde e d) = entryFrame (s₁.mem f d) := pdeFrame_of_dir hf₁ hlt
    have hright : own s.mem s.envs (.pde e d) = entryFrame (s.mem f d) := pdeFrame_of_dir hf hlt
    by_cases hhere : d = pdxIdx (pageVa k)
    · subst hhere
      rw [Function.update_self] at hslot
      rw [if_pos rfl, ← hleft, hslot]
    · rw [Function.update_of_ne (by simp [hhere])] at hslot
      rw [if_neg hhere, ← hleft, hslot, hright]
  have hsub : ∀ d ∈ missing s₁.mem f ks,
      d ∈ missing s.mem f (k :: ks) ∧ d ≠ pdxIdx (pageVa k) := by
    intro d hmem
    obtain ⟨⟨j, hj, rfl⟩, hnone⟩ := mem_missing.mp hmem
    have hjk := List.mem_cons_of_mem k hj
    rw [hentry _ (hd j hjk)] at hnone
    split at hnone
    · cases hnone
    · rename_i hne
      exact ⟨mem_missing.mpr ⟨⟨j, hjk, rfl⟩, hnone⟩, hne⟩
  have hnodup : (p :: tail).Nodup := h.before.pool.chain.nodup
  have htail : tail.Nodup := (List.nodup_cons.mp hnodup).2
  have hkept := h.free_eq.1
  have hslot : own s.mem s.envs (.pde e (pdxIdx (pageVa k))) =
      entryFrame (s.mem f (pdxIdx (pageVa k))) := pdeFrame_of_dir hf (hd k List.mem_cons_self)
  unfold Enough at henough ⊢
  rw [List.length_cons, List.length_cons] at henough
  rcases h.table_before with hg | ⟨hnone, hg⟩
  · -- the page table was there
    have hfree : tail ⊆ fl₁ := by
      intro q hq
      refine (hkept q hq).resolve_right ?_
      rintro rfl
      exact h.before.free_not_owned (List.mem_cons_of_mem p hq) _ hg
    have hlen := (List.subperm_of_subset htail hfree).length_le
    have hcard : (missing s₁.mem f ks).card ≤ (missing s.mem f (k :: ks)).card :=
      Finset.card_le_card fun d hmem => (hsub d hmem).1
    omega
  · have hfree : tail.erase g ⊆ fl₁ := by
      intro q hq
      rw [htail.mem_erase_iff] at hq
      exact (hkept q hq.2).resolve_right hq.1
    have hlen := (List.subperm_of_subset (htail.erase g) hfree).length_le
    rw [List.length_erase_of_mem hg] at hlen
    have hpos := List.length_pos_of_mem hg
    have hmiss : pdxIdx (pageVa k) ∈ missing s.mem f (k :: ks) :=
      mem_missing.mpr ⟨⟨k, List.mem_cons_self, rfl⟩, hslot.symm.trans hnone⟩
    have hcard : (missing s₁.mem f ks).card < (missing s.mem f (k :: ks)).card :=
      Finset.card_lt_card ⟨fun d hmem => (hsub d hmem).1, fun hsup => (hsub _ (hsup hmiss)).2 rfl⟩
    omega

namespace GivenPages

/-- With enough pages `region_alloc` returns, and leaves enough for the pages `ks`. -/
theorem regionLoop_returns (n : Nat) {k : Nat} {s : Machine} {fl : List Nat}
    (h : GivenPages L e f all s₀ s fl) (hk : k + n ≤ 977920) (hks : ∀ j ∈ ks, j < 977920)
    (henough : Enough s.mem f fl (List.range' k n ++ ks)) :
    ∃ s' fl', (regionAllocLoop e n (pageVa k)).run s = .ok ((), s') ∧
      GivenPages L e f all s₀ s' fl' ∧ Enough s'.mem f fl' ks := by
  induction n generalizing k s fl with
  | zero => exact ⟨s, fl, rfl, h, henough⟩
  | succ n ih =>
    have hlist : List.range' k (n + 1) ++ ks = k :: (List.range' (k + 1) n ++ ks) := rfl
    rw [hlist] at henough
    have hbelow : ∀ j ∈ k :: (List.range' (k + 1) n ++ ks), j < 977920 := by
      intro j hj
      rw [List.mem_cons, List.mem_append, List.mem_range'_1] at hj
      rcases hj with rfl | hj | hj
      · omega
      · omega
      · exact hks j hj
    rcases h.inv.regionRound_run h.dirFrame (by omega : k < 977920) with ⟨hshort, -⟩ |
      ⟨p, g, tail, s₁, fl₁, rfl, hround, hsteps⟩
    · unfold Enough at henough
      rw [List.length_cons] at henough
      rcases hshort with rfl | ⟨hnone, hone⟩
      · simp at henough
      · have hmiss : pdxIdx (pageVa k) ∈ missing s.mem f (k :: (List.range' (k + 1) n ++ ks)) :=
          mem_missing.mpr ⟨⟨k, List.mem_cons_self, rfl⟩, hnone⟩
        have hpos := Finset.card_pos.mpr ⟨_, hmiss⟩
        omega
    · obtain ⟨s', fl', hrun, hgiven, hleft⟩ := ih (h.round hround) (by omega)
        (hround.enough h.dirFrame hbelow henough)
      exact ⟨s', fl', (hsteps n).trans hrun, hgiven, hleft⟩

theorem regionAlloc_returns {len : UInt32} (h : GivenPages L e f all s₀ s fl)
    (hend : va.toNat / 4096 + (len.toNat + 4095) / 4096 ≤ 977920) (hks : ∀ j ∈ ks, j < 977920)
    (henough : Enough s.mem f fl
      (List.range' (va.toNat / 4096) ((len.toNat + 4095) / 4096) ++ ks)) :
    ∃ s' fl', (Jos.regionAlloc e va len).run s = .ok ((), s') ∧
      GivenPages L e f all s₀ s' fl' ∧ Enough s'.mem f fl' ks := by
  have hutop : utop.toNat = 4005560320 := rfl
  rw [regionAlloc_loop (by omega)]
  exact h.regionLoop_returns _ hend hks henough

end GivenPages

/-- What is mapped behind the first address stays mapped when that one is written. -/
theorem Stored.mapped_behind {w : UInt32 → Option UInt8} {d : UInt32} (h : Stored f w s s₁)
    (hend : d.toNat + (n + 1) ≤ utop.toNat)
    (hm : ∀ k < n + 1, pteAt s.mem f (vpn (d + UInt32.ofNat k)) ≠ none) :
    ∀ k < n, pteAt s₁.mem f (vpn (d + 1 + UInt32.ofNat k)) ≠ none := by
  intro k hk
  have hutop : utop.toNat = 4005560320 := rfl
  have hstep : d + 1 + UInt32.ofNat k = d + UInt32.ofNat (k + 1) := by
    rw [UInt32.add_assoc, UInt32.ofNat_add, UInt32.add_comm 1]
    rfl
  have hbelow : d + UInt32.ofNat (k + 1) < utop := by
    rw [UInt32.lt_iff_toNat_lt, add_ofNat_toNat (by omega)]
    omega
  rw [hstep, h.mapped _ (pdxIdx_lt_userPdes hbelow)]
  exact hm (k + 1) (by omega)

namespace GivenPages

/-- Every page is mapped for the user to write. -/
theorem walk_mapped (h : GivenPages L e f all s₀ s fl) (hva : va < utop)
    (hm : pteAt s.mem f (vpn va) ≠ none) :
    ∃ pa, s.walk f va true true = some pa := by
  obtain ⟨v, hv⟩ := Option.ne_none_iff_exists'.mp hm
  obtain ⟨p, hp, rfl⟩ := h.flags _ v (pdxIdx_lt_userPdes hva) hv
  exact (h.inv.writable_iff h.dirFrame hva).mpr ⟨_, hv, allows_newPte hp⟩

/-- What the user may do the kernel may do. -/
theorem walk_kernel {write : Bool} {pa : Nat} (hwalk : s.walk f va write true = some pa) :
    s.walk f va write false = some pa := by
  have hkernel {v : UInt32} (hv : allows v write true) : allows v write false :=
    ⟨hv.1, hv.2.1, fun heq => absurd heq (by decide)⟩
  simp only [Machine.walk] at hwalk ⊢
  split at hwalk
  · rename_i hpde
    split at hwalk
    · rename_i hpte
      rw [if_pos (hkernel hpde), if_pos (hkernel hpte)]
      exact hwalk
    · cases hwalk
  · cases hwalk

theorem vstoreByte_returns (h : GivenPages L e f all s₀ s fl) (hcr3 : s₀.cr3 = .pgdir (page2pa f))
    (hva : va < utop) (hm : pteAt s.mem f (vpn va) ≠ none) (b : UInt8) :
    ∃ s', (Jos.vstoreByte va b).run s = .ok ((), s') := by
  have hload := h.windowLoaded hcr3
  have hframe : (page2pa f).toNat / 4096 = f := by
    rw [page2pa_toNat (lt_trans hload.lt (by decide))]
    exact Nat.mul_div_cancel f (by decide)
  obtain ⟨pa, hwalk⟩ := h.walk_mapped hva hm
  have hkernel := walk_kernel hwalk
  simp only [Jos.vstoreByte, Prog.run_read_bind, id, Machine.xlat, hload.cr3, hframe, hkernel]
  exact ⟨_, rfl⟩

/-- The source is anywhere in the window at `KERNBASE`. -/
theorem copyForward_returns (n : Nat) {d src : UInt32} {s : Machine}
    (h : GivenPages L e f all s₀ s fl) (hcr3 : s₀.cr3 = .pgdir (page2pa f))
    (hend : d.toNat + n ≤ utop.toNat) (hlo : kernbase.toNat ≤ src.toNat)
    (hhi : src.toNat + n < 4294967296)
    (hm : ∀ k < n, pteAt s.mem f (vpn (d + UInt32.ofNat k)) ≠ none) :
    ∃ s', (Jos.copyForward d src n).run s = .ok ((), s') := by
  induction n generalizing d src s with
  | zero => exact ⟨s, rfl⟩
  | succ n ih =>
    have hutop : utop.toNat = 4005560320 := rfl
    have hnext : (d + 1).toNat = d.toNat + 1 := add_ofNat_toNat (b := 1) (by omega)
    have hnext' : (src + 1).toNat = src.toNat + 1 := add_ofNat_toNat (b := 1) (by omega)
    have hva : d < utop := by
      rw [UInt32.lt_iff_toNat_lt]
      omega
    have hfirst : pteAt s.mem f (vpn d) ≠ none := by
      have hzero := hm 0 (by omega)
      rwa [show d + UInt32.ofNat 0 = d from UInt32.add_zero d] at hzero
    have hload := h.inv.vloadByte_kernel (h.windowLoaded hcr3) hlo
    obtain ⟨s₁, hstore⟩ := h.vstoreByte_returns hcr3 hva hfirst (kernByte s.mem src.toNat)
    obtain ⟨h₁, hstored⟩ := h.vstoreByte hcr3 hva hstore
    obtain ⟨s', hrest⟩ : ∃ s', (Jos.copyForward (d + 1) (src + 1) n).run s₁ = .ok ((), s') :=
      ih h₁ (by omega) (by omega) (by omega) (hstored.mapped_behind hend hm)
    refine ⟨s', ?_⟩
    rw [Jos.copyForward, Prog.bind_of_ok hload, Prog.bind_of_ok hstore]
    exact hrest

theorem copyBackward_returns (n : Nat) {d src : UInt32} {s : Machine}
    (h : GivenPages L e f all s₀ s fl) (hcr3 : s₀.cr3 = .pgdir (page2pa f))
    (hend : d.toNat + n ≤ utop.toNat) (hlo : kernbase.toNat ≤ src.toNat)
    (hhi : src.toNat + n < 4294967296)
    (hm : ∀ k < n, pteAt s.mem f (vpn (d + UInt32.ofNat k)) ≠ none) :
    ∃ s', (Jos.copyBackward d src n).run s = .ok ((), s') := by
  induction n generalizing s with
  | zero => exact ⟨s, rfl⟩
  | succ n ih =>
    have hutop : utop.toNat = 4005560320 := rfl
    have hlast {k : Nat} (hk : k ≤ n) : (d + UInt32.ofNat k).toNat = d.toNat + k :=
      add_ofNat_toNat (by omega)
    have hbelow {k : Nat} (hk : k ≤ n) : d + UInt32.ofNat k < utop := by
      rw [UInt32.lt_iff_toNat_lt, hlast hk]
      omega
    have hsrc : (src + UInt32.ofNat n).toNat = src.toNat + n := add_ofNat_toNat (by omega)
    have hload := h.inv.vloadByte_kernel (h.windowLoaded hcr3)
      (by omega : kernbase.toNat ≤ (src + UInt32.ofNat n).toNat)
    obtain ⟨s₁, hstore⟩ := h.vstoreByte_returns hcr3 (hbelow (le_refl n)) (hm n (by omega))
      (kernByte s.mem (src + UInt32.ofNat n).toNat)
    obtain ⟨h₁, hstored⟩ := h.vstoreByte hcr3 (hbelow (le_refl n)) hstore
    obtain ⟨s', hrest⟩ := ih h₁ (by omega) (by omega)
      (by
        intro k hk
        rw [hstored.mapped _ (pdxIdx_lt_userPdes (hbelow (by omega)))]
        exact hm k (by omega))
    refine ⟨s', ?_⟩
    rw [Jos.copyBackward, Prog.bind_of_ok hload, Prog.bind_of_ok hstore]
    exact hrest

theorem memcpy_returns {d src n : UInt32} (h : GivenPages L e f all s₀ s fl)
    (hcr3 : s₀.cr3 = .pgdir (page2pa f)) (hend : d.toNat + n.toNat ≤ utop.toNat)
    (hlo : kernbase.toNat ≤ src.toNat) (hhi : src.toNat + n.toNat < 4294967296)
    (hm : ∀ k < n.toNat, pteAt s.mem f (vpn (d + UInt32.ofNat k)) ≠ none) :
    ∃ s', (Jos.memcpy d src n).run s = .ok ((), s') := by
  unfold Jos.memcpy memmove
  split
  · exact h.copyBackward_returns _ hcr3 hend hlo hhi hm
  · exact h.copyForward_returns _ hcr3 hend hlo hhi hm

theorem memsetLoop_returns (c : UInt8) (n : Nat) {d : UInt32} {s : Machine}
    (h : GivenPages L e f all s₀ s fl) (hcr3 : s₀.cr3 = .pgdir (page2pa f))
    (hend : d.toNat + n ≤ utop.toNat)
    (hm : ∀ k < n, pteAt s.mem f (vpn (d + UInt32.ofNat k)) ≠ none) :
    ∃ s', (Jos.memsetLoop d c n).run s = .ok ((), s') := by
  induction n generalizing d s with
  | zero => exact ⟨s, rfl⟩
  | succ n ih =>
    have hutop : utop.toNat = 4005560320 := rfl
    have hnext : (d + 1).toNat = d.toNat + 1 := add_ofNat_toNat (b := 1) (by omega)
    have hva : d < utop := by
      rw [UInt32.lt_iff_toNat_lt]
      omega
    have hfirst : pteAt s.mem f (vpn d) ≠ none := by
      have hzero := hm 0 (by omega)
      rwa [show d + UInt32.ofNat 0 = d from UInt32.add_zero d] at hzero
    obtain ⟨s₁, hstore⟩ := h.vstoreByte_returns hcr3 hva hfirst c
    obtain ⟨h₁, hstored⟩ := h.vstoreByte hcr3 hva hstore
    obtain ⟨s', hrest⟩ := ih h₁ (by omega) (hstored.mapped_behind hend hm)
    refine ⟨s', ?_⟩
    rw [Jos.memsetLoop, Prog.bind_of_ok hstore]
    exact hrest

theorem storeSegment_returns {hdr : Proghdr} (h : GivenPages L e f all s₀ s fl)
    (hcr3 : s₀.cr3 = .pgdir (page2pa f))
    (hbinary : kernbase.toNat + extphysmem.toNat ≤ binary.toNat)
    (hreads : ∀ {t fl'}, GivenPages L e f all s₀ t fl' → ReadsHeader ph hdr t)
    (hfits : hdr.Fits L.image binary)
    (hm : ∀ k < hdr.pMemsz.toNat, pteAt s.mem f (vpn (hdr.pVa + UInt32.ofNat k)) ≠ none) :
    ∃ s', (Jos.storeSegment binary ph).run s = .ok ((), s') := by
  have hutop : utop.toNat = 4005560320 := rfl
  have hstack : (ustacktop - pgsize).toNat = 4005548032 := rfl
  have hkend := toNat_lt L.image.kend
  have hsize := hfits.filesz
  have hsizes := UInt32.le_iff_toNat_le.mp hsize
  have hbelow := hfits.below
  have hcontents := hfits.contents
  have hsrc : (binary + hdr.pOffset).toNat = binary.toNat + hdr.pOffset.toNat := by
    rw [UInt32.toNat_add]
    omega
  have hbehind : hdr.pVa + hdr.pFilesz = hdr.pVa + UInt32.ofNat hdr.pFilesz.toNat := by
    rw [UInt32.ofNat_toNat]
  have hstart : (hdr.pVa + UInt32.ofNat hdr.pFilesz.toNat).toNat =
      hdr.pVa.toNat + hdr.pFilesz.toNat := add_ofNat_toNat (by omega)
  have hrest : (hdr.pMemsz - hdr.pFilesz).toNat = hdr.pMemsz.toNat - hdr.pFilesz.toNat :=
    UInt32.toNat_sub_of_le _ _ hsize
  obtain ⟨s₁, hcopy⟩ : ∃ s₁, (Jos.memcpy hdr.pVa (binary + hdr.pOffset) hdr.pFilesz).run s =
      .ok ((), s₁) :=
    h.memcpy_returns hcr3 (by omega) (by omega) (by omega) fun k hk => hm k (by omega)
  obtain ⟨h₁, c, hcopied, -⟩ := h.memcpy (fun _ _ => True) hcr3 (by omega)
    (fun _ _ _ _ _ _ _ => trivial) hcopy
  obtain ⟨s', hset⟩ : ∃ s', (Jos.memset (hdr.pVa + hdr.pFilesz) 0
      (hdr.pMemsz - hdr.pFilesz)).run s₁ = .ok ((), s') := by
    unfold memset
    rw [hbehind, hrest]
    refine h₁.memsetLoop_returns 0 _ hcr3 (by omega) ?_
    intro k hk
    have hstep : hdr.pVa + UInt32.ofNat hdr.pFilesz.toNat + UInt32.ofNat k =
        hdr.pVa + UInt32.ofNat (hdr.pFilesz.toNat + k) := by
      rw [UInt32.add_assoc, UInt32.ofNat_add]
    have hva : hdr.pVa + UInt32.ofNat (hdr.pFilesz.toNat + k) < utop := by
      rw [UInt32.lt_iff_toNat_lt, add_ofNat_toNat (by omega)]
      omega
    rw [hstep, hcopied.mapped _ (pdxIdx_lt_userPdes hva)]
    exact hm _ (by omega)
  refine ⟨s', ?_⟩
  unfold Jos.storeSegment
  rw [Prog.bind_of_ok (hreads h).va, Prog.bind_of_ok (hreads h).offset,
    Prog.bind_of_ok (hreads h).filesz, Prog.bind_of_ok hcopy, Prog.bind_of_ok (hreads h₁).va,
    Prog.bind_of_ok (hreads h₁).filesz, Prog.bind_of_ok (hreads h₁).memsz,
    Prog.bind_of_ok (hreads h₁).filesz]
  exact hset

/-- The pages that were mapped for a segment cover it. -/
theorem segment_mapped {hdr : Proghdr} (hgiven : PagesGiven f (hdr.pVa.toNat / 4096)
      ((hdr.pMemsz.toNat + 4095) / 4096) s s₁) (hfits : hdr.Fits L.image binary) :
    ∀ k < hdr.pMemsz.toNat, pteAt s₁.mem f (vpn (hdr.pVa + UInt32.ofNat k)) ≠ none := by
  intro k hk
  have hstack : (ustacktop - pgsize).toNat = 4005548032 := rfl
  have hbelow := hfits.below
  have hcovered := hfits.covered
  rw [roundUp_len (by omega)] at hcovered
  have haddr : (hdr.pVa + UInt32.ofNat k).toNat = hdr.pVa.toNat + k := add_ofNat_toNat (by omega)
  obtain ⟨p, -, hpte⟩ := hgiven.here ((hdr.pVa.toNat % 4096 + k) / 4096) (by omega)
  have hpage : (hdr.pVa + UInt32.ofNat k).toNat / 4096 =
      hdr.pVa.toNat / 4096 + (hdr.pVa.toNat % 4096 + k) / 4096 := by
    rw [haddr]
    omega
  rw [vpn_pageVa, hpage, hpte]
  simp

theorem loadSegment_returns {hdr : Proghdr} (h : GivenPages L e f all s₀ s fl)
    (hcr3 : s₀.cr3 = .pgdir (page2pa f))
    (hbinary : kernbase.toNat + extphysmem.toNat ≤ binary.toNat)
    (hreads : ∀ {t fl'}, GivenPages L e f all s₀ t fl' → ReadsHeader ph hdr t)
    (hload : hdr.pType = elfProgLoad) (hfits : hdr.Fits L.image binary)
    (hks : ∀ j ∈ ks, j < 977920) (henough : Enough s.mem f fl (hdr.pages ++ ks)) :
    ∃ s' fl', (Jos.loadSegment e binary ph).run s = .ok ((), s') ∧
      GivenPages L e f all s₀ s' fl' ∧ Enough s'.mem f fl' ks := by
  have hutop : utop.toNat = 4005560320 := rfl
  have hstack : (ustacktop - pgsize).toNat = 4005548032 := rfl
  have hbelow := hfits.below
  obtain ⟨s₁, fl₁, halloc, h₁, hleft⟩ := h.regionAlloc_returns (by omega) hks henough
  obtain ⟨-, hgiven⟩ := h.regionAlloc (by omega) halloc
  obtain ⟨s', hstore⟩ := h₁.storeSegment_returns hcr3 hbinary hreads hfits
    (segment_mapped hgiven hfits)
  obtain ⟨h₂, c, hstored, -⟩ := h₁.storeSegment hcr3 hbinary hreads hfits.filesz (by omega) hstore
  refine ⟨s', fl₁, ?_, h₂, hleft.congr hstored.dir⟩
  have hsize : ¬ hdr.pFilesz > hdr.pMemsz := by
    rw [gt_iff_lt, UInt32.not_lt]
    exact hfits.filesz
  rw [loadSegment_eq, Prog.bind_of_ok (hreads h).type, if_pos hload,
    Prog.bind_of_ok (hreads h).filesz, Prog.bind_of_ok (hreads h).memsz, if_neg hsize,
    Prog.bind_of_ok (hreads h).va, Prog.bind_of_ok (hreads h).memsz, Prog.bind_of_ok halloc]
  exact hstore

/-- A header of another type is passed over. -/
theorem loadSegment_other {hdr : Proghdr} (h : GivenPages L e f all s₀ s fl)
    (hreads : ∀ {t fl'}, GivenPages L e f all s₀ t fl' → ReadsHeader ph hdr t)
    (hload : hdr.pType ≠ elfProgLoad) : (Jos.loadSegment e binary ph).run s = .ok ((), s) := by
  rw [loadSegment_eq, Prog.bind_of_ok (hreads h).type, if_neg hload]
  rfl

theorem loadSegments_returns (n : Nat) {ph : UInt32} {s : Machine} {fl : List Nat}
    (h : GivenPages L e f all s₀ s fl) (hcr3 : s₀.cr3 = .pgdir (page2pa f))
    (hbinary : kernbase.toNat + extphysmem.toNat ≤ binary.toNat)
    (hlo : kernbase.toNat + extphysmem.toNat ≤ ph.toNat)
    (heph : eph.toNat = ph.toNat + 32 * n) (hhi : eph.toNat ≤ L.image.kend.toNat)
    (hfits : ∀ hdr ∈ proghdrs s₀.mem n ph, hdr.pType = elfProgLoad → hdr.Fits L.image binary)
    (hks : ∀ j ∈ ks, j < 977920)
    (henough : Enough s.mem f fl (segmentPages ((proghdrs s₀.mem n ph).filter
      fun hdr => hdr.pType = elfProgLoad) ++ ks)) :
    ∃ s' fl', (Jos.loadSegments e binary eph n ph).run s = .ok ((), s') ∧
      GivenPages L e f all s₀ s' fl' ∧ Enough s'.mem f fl' ks := by
  induction n generalizing ph s fl with
  | zero => exact ⟨s, fl, rfl, h, henough⟩
  | succ n ih =>
    have hend := toNat_lt L.image.kend
    have hsize : sizeofProghdr.toNat = 32 := rfl
    have hnext : (ph + sizeofProghdr).toNat = ph.toNat + 32 := by
      rw [UInt32.toNat_add, hsize]
      omega
    have hlt : ph < eph := by
      rw [UInt32.lt_iff_toNat_lt]
      omega
    have hreads {t : Machine} {fl' : List Nat} (ht : GivenPages L e f all s₀ t fl') :
        ReadsHeader ph (proghdrAt s₀.mem ph) t := ht.readsHeader hcr3 hlo (by omega)
    have hrest : ∀ hdr ∈ proghdrs s₀.mem n (ph + sizeofProghdr), hdr.pType = elfProgLoad →
        hdr.Fits L.image binary := fun hdr hmem => hfits hdr (List.mem_cons_of_mem _ hmem)
    unfold proghdrs at henough
    unfold Jos.loadSegments
    rw [if_pos hlt]
    by_cases hload : (proghdrAt s₀.mem ph).pType = elfProgLoad
    · rw [List.filter_cons_of_pos (by simpa using hload), segmentPages_cons,
        List.append_assoc] at henough
      obtain ⟨s₁, fl₁, hrun, h₁, hleft⟩ := h.loadSegment_returns hcr3 hbinary hreads hload
        (hfits _ List.mem_cons_self hload) (segmentPages_lt hrest hks) henough
      obtain ⟨s', fl', hmore, h', hleft'⟩ := ih h₁ (by omega) (by omega) hrest hleft
      exact ⟨s', fl', (Prog.bind_of_ok hrun).trans hmore, h', hleft'⟩
    · rw [List.filter_cons_of_neg (by simpa using hload)] at henough
      obtain ⟨s', fl', hmore, h', hleft'⟩ := ih h (by omega) (by omega) hrest henough
      exact ⟨s', fl', (Prog.bind_of_ok (h.loadSegment_other hreads hload)).trans hmore, h', hleft'⟩

end GivenPages

/-- The program at `binary` is an ELF file whose segments can all be loaded. -/
structure ProgramFits (image : Image) (m : Mem) (binary : UInt32) : Prop
    extends HeadersInside image m binary where
  magic : kernWord m binary = elfMagic
  fits : ∀ h ∈ loadable m binary, h.Fits image binary

/-- The pages that are loaded, the page of the stack among them, and their page tables. -/
def pagesNeeded (hs : List Proghdr) : Nat :=
  (segmentPages hs ++ [stackPage]).length +
    ((segmentPages hs ++ [stackPage]).map fun k => pdxIdx (pageVa k)).toFinset.card

/-- More pages for the stack page need no more page tables. -/
theorem enough_of_pagesNeeded {hs : List Proghdr} (h : pagesNeeded hs + n ≤ fl.length) (m : Mem)
    (f : Nat) :
    Enough m f fl (segmentPages hs ++ ([stackPage] ++ List.replicate n stackPage)) := by
  have hsub : missing m f (segmentPages hs ++ ([stackPage] ++ List.replicate n stackPage)) ⊆
      ((segmentPages hs ++ [stackPage]).map fun k => pdxIdx (pageVa k)).toFinset := by
    intro d hd
    obtain ⟨⟨k, hk, hkd⟩, -⟩ := mem_missing.mp hd
    rw [List.mem_toFinset, List.mem_map]
    refine ⟨k, ?_, hkd⟩
    rw [List.mem_append, List.mem_append, List.mem_replicate] at hk
    rcases hk with hk | hk | ⟨-, rfl⟩
    · exact List.mem_append_left _ hk
    · exact List.mem_append_right _ hk
    · exact List.mem_append_right _ (List.mem_singleton_self _)
  have hcard := Finset.card_le_card hsub
  unfold Enough
  unfold pagesNeeded at h
  rw [List.length_append] at h ⊢
  rw [List.length_append, List.length_replicate]
  omega

/-- `load_icode` returns, and takes no more pages than it needs. -/
theorem KInv.loadIcode_returns (h : KInv L all s) (hf : dirFrame s.envs e = some f)
    (hwindow : WindowLoaded L q s)
    (hnone : ∀ x : Slot, x.env = e → x ≠ .dir e → own s.mem s.envs x = none)
    (hprogram : ProgramFits L.image s.mem binary)
    (hfree : pagesNeeded (loadable s.mem binary) + n ≤ all.length) :
    ∃ s' all', (Jos.loadIcode e binary).run s = .ok ((), s') ∧ KInv L all' s' ∧
      n ≤ all'.length := by
  have hheaders := hprogram.toHeadersInside
  have henough := enough_of_pagesNeeded hfree s.mem f
  have hfits := hprogram.fits
  have hfile := hprogram.magic
  obtain ⟨hmagic, hphoff, hphnum⟩ := h.elf_reads hwindow hheaders
  have hkend := toNat_lt L.image.kend
  have hlo := hheaders.start
  have hph := hheaders.phoff_toNat
  have heph := hheaders.eph_toNat
  have htable := hheaders.table
  have hheader := hheaders.header
  have hsegments : loadable s.mem binary =
      (proghdrs s.mem (ePhnum s.mem binary).toNat (binary + ePhoff s.mem binary)).filter
        fun hdr => hdr.pType = elfProgLoad := rfl
  -- the values stay folded: they must not be computed
  generalize ePhoff s.mem binary = phoff at *
  generalize ePhnum s.mem binary = phnum at *
  generalize kernWord s.mem binary = magic at *
  have hpgdir := paddr_of_eq_kva (s := s) (h.dir_kva hf) (h.dir_lt hf)
  have hstart : GivenPages L e f all (s.loadPgdir (page2pa f)) (s.loadPgdir (page2pa f)) all :=
    GivenPages.refl (h.loadPgdir _) hf hnone
  have hspare : ∀ j ∈ List.replicate n stackPage, j < 977920 := by
    intro j hj
    rw [List.eq_of_mem_replicate hj]
    decide
  have hstackPage : ∀ j ∈ [stackPage] ++ List.replicate n stackPage, j < 977920 := by
    intro j hj
    rcases List.mem_append.mp hj with hj | hj
    · rw [List.mem_singleton.mp hj]
      decide
    · exact hspare j hj
  obtain ⟨s₁, fl₁, hsegs, h₁, hleft⟩ := hstart.loadSegments_returns phnum.toNat rfl hlo (by omega)
    heph (by omega)
    (fun hdr hmem hpt => hfits hdr (by
      rw [hsegments]
      exact List.mem_filter.mpr ⟨hmem, by simpa using hpt⟩)) hstackPage
    (by
      rw [hsegments] at henough
      exact henough)
  have hentry : (vload32 (binary + 24)).run s₁ = .ok (eEntry s.mem binary, s₁) := by
    have haddr : (binary + 24).toNat = binary.toNat + 24 := add_ofNat_toNat (b := 24) (by omega)
    exact h₁.vload32_image rfl (by omega) (by omega)
  have hclosed := h₁.withEntry (eEntry s.mem binary)
  have hstack : (ustacktop - pgsize).toNat / 4096 + (pgsize.toNat + 4095) / 4096 ≤ 977920 := by
    decide
  have hone : Enough (s₁.withEntry e (eEntry s.mem binary)).mem f fl₁
      (List.range' ((ustacktop - pgsize).toNat / 4096) ((pgsize.toNat + 4095) / 4096) ++
        List.replicate n stackPage) := hleft
  obtain ⟨t, fl', halloc, hgiven, hrest⟩ := hclosed.regionAlloc_returns hstack hspare hone
  have hkern : ∀ t, (Jos.regionAlloc e (ustacktop - pgsize) pgsize).run
      (s₁.withEntry e (eEntry s.mem binary)) = .ok ((), t) → t.kernPgdir = kva L.kd := by
    intro t ht
    obtain ⟨⟨fl', h'⟩, -⟩ := hclosed.regionAlloc hstack ht
    exact h'.inv.kernPgdir
  have hend := (loadIcodeEnd_ok hentry hkern h.good.kd_lt').mpr ⟨t, halloc, rfl⟩
  refine ⟨_, fl', (loadIcode_ok hmagic hphoff hphnum hpgdir).mpr
    ⟨hfile, (Prog.bind_of_ok hsegs).trans hend⟩, hgiven.inv.loadPgdir _, ?_⟩
  unfold Enough at hrest
  rw [List.length_replicate] at hrest
  exact le_trans (Nat.le_add_right _ _) hrest

end Jos
