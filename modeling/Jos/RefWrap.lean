import Jos.FreshKernel
import Jos.Translation

/-!
What happens when one page is mapped more often than its 16-bit count can tell.
The page is first mapped at page number 65536 and then at 0, 1, 2, and so on: the
mapping at page number 65534 takes the count from 65535 to 0, the next one to 1,
and removing that one frees the page, while 65536 entries still map it.
-/

namespace Jos

variable {L : Layout} {fl fl' : List Nat} {s s₀ s' : Machine} {e : Fin nenv} {f g p : Nat}
  {va perm : UInt32} {i j : Nat}

theorem pageVa_lt_utop (hj : j ≤ 65536) : pageVa j < utop := by
  have hutop : utop.toNat = 4005560320 := rfl
  rw [UInt32.lt_iff_toNat_lt, pageVa_toNat (by omega), hutop]
  omega

theorem pageVa_slot_ne (hi : i ≤ 65536) (hj : j ≤ 65536) (hij : j ≠ i) :
    Slot.pte e (pdxIdx (pageVa j)) (ptxIdx (pageVa j)) ≠
      Slot.pte e (pdxIdx (pageVa i)) (ptxIdx (pageVa i)) := by
  intro h
  injection h with _ hd ht
  have hd' := congrArg Fin.val hd
  have ht' := congrArg Fin.val ht
  rw [pdxIdx_pageVa (by omega), pdxIdx_pageVa (by omega)] at hd'
  rw [ptxIdx_pageVa (by omega), ptxIdx_pageVa (by omega)] at ht'
  omega

/-- The state after `page_insert` wrote the empty entry of `va` in the page
table `g`. -/
def Machine.mapPage (s : Machine) (g p : Nat) (va perm : UInt32) : Machine :=
  (s.setMem (s.mem.setWord g (ptxIdx va) (newPte p perm))).incref p

/-- `page_insert` at an unmapped address, when its page table is there or can be
had. -/
theorem KInv.pageInsert_unmapped (h : KInv L fl s) (hf : dirFrame s.envs e = some f)
    (hva : va < utop) (hnone : mappedAt s e va = none)
    (hroom : fl ≠ [] ∨ pdeFrame s.mem s.envs e (pdxIdx va) ≠ none) (perm : UInt32) :
    ∃ g s₁ fl₁, Walked L e f va s fl g s₁ fl₁ ∧
      (Jos.pageInsert (kva f) p va perm).run s = .ok (0, s₁.mapPage g p va perm) := by
  rcases h.pgdirWalk hf (pdxIdx_lt_userPdes hva) with ⟨hnil, hpde, -⟩ | ⟨g, s₁, fl₁, hrun, hw⟩
  · exact absurd hroom (by simp [hnil, hpde])
  refine ⟨g, s₁, fl₁, hw, pageInsert_new perm hrun ?_ ?_⟩
  · exact hw.inv.inWindow (hw.inv.pde_lt hw.table)
  · have hpte : pteFrame s₁.mem s₁.envs e (pdxIdx va) (ptxIdx va) = none :=
      (hw.other (.pte e (pdxIdx va) (ptxIdx va)) (by simp)).trans hnone
    rw [pteFrame_of_pde hw.table] at hpte
    exact entryFrame_eq_none.mp hpte

/-- One more mapping of the allocated page `p`. -/
structure OneMore (L : Layout) (e : Fin nenv) (f p : Nat) (va : UInt32) (s : Machine)
    (fl : List Nat) (s' : Machine) (fl' : List Nat) : Prop where
  inv : KInv L fl' s'
  dir : dirFrame s'.envs e = some f
  taken : p ∉ fl'
  here : mappedAt s' e va = some p
  other : ∀ va', Slot.pte e (pdxIdx va') (ptxIdx va') ≠ .pte e (pdxIdx va) (ptxIdx va) →
    mappedAt s' e va' = mappedAt s e va'
  count : (s'.pages p).ppRef.toNat = (s.pages p).ppRef.toNat + 1
  room : fl.length = fl'.length ∨
    (pdeFrame s.mem s.envs e (pdxIdx va) = none ∧ fl.length = fl'.length + 1)

theorem KInv.oneMore (h : KInv L fl s) (hf : dirFrame s.envs e = some f) (hva : va < utop)
    (hnone : mappedAt s e va = none) (hmanaged : L.Managed p) (hfree : p ∉ fl)
    (hcnt : (s.pages p).ppRef.toNat < 65535)
    (hroom : fl ≠ [] ∨ pdeFrame s.mem s.envs e (pdxIdx va) ≠ none) :
    ∃ s' fl', (MemCall.pageInsert e p va pteU).Returns s s' ∧ OneMore L e f p va s fl s' fl' := by
  obtain ⟨g, s₁, fl₁, hw, hrun⟩ := h.pageInsert_unmapped hf hva hnone hroom pteU
  have hp16 := h.good.lt hmanaged
  have hfree₁ : p ∉ fl₁ := fun hp => hfree (hw.free_sub hp)
  have hpages : s₁.pages p = s.pages p := hw.pages_eq hfree
  have hnone₁ : pteFrame s₁.mem s₁.envs e (pdxIdx va) (ptxIdx va) = none :=
    (hw.other (.pte e (pdxIdx va) (ptxIdx va)) (by simp)).trans hnone
  have hv : entryFrame (newPte p pteU) = some p := entryFrame_newPte (by omega) (by decide)
  obtain ⟨hinv, hown⟩ := hw.inv.mapped hw.table hnone₁
    hv hmanaged hfree₁ (by rw [hpages]; exact hcnt)
  have hpgdir := h.dir_kva hf
  refine ⟨_, fl₁, ⟨0, by rw [hpgdir]; exact hrun⟩, hinv, ?_, hfree₁, ?_, ?_, ?_, ?_⟩
  · change dirFrame s₁.envs e = some f
    rw [hw.pagesOnly.envs]
    exact hf
  · have hslot := congrFun hown (.pte e (pdxIdx va) (ptxIdx va))
    rw [Function.update_self] at hslot
    exact hslot
  · intro va' hne
    have hslot := congrFun hown (.pte e (pdxIdx va') (ptxIdx va'))
    rw [Function.update_of_ne hne] at hslot
    exact hslot.trans (hw.other (.pte e (pdxIdx va') (ptxIdx va')) (by simp))
  · have hself : ((s₁.mapPage g p va pteU).pages p).ppRef = (s₁.pages p).ppRef + 1 := by
      simp [Machine.mapPage, Machine.incref]
    rw [hpages] at hself
    exact (congrArg UInt16.toNat hself).trans (succ_toNat hcnt)
  · rcases hw.cases with ⟨-, rfl⟩ | ⟨hpde, rfl, -⟩
    · exact .inl rfl
    · exact .inr ⟨hpde, rfl⟩

/-- The page `p` is mapped at the page numbers below `i` and at 65536, and the
environment can still map it at all others below 65536. -/
structure Sharing (L : Layout) (e : Fin nenv) (f p i : Nat) (s : Machine) (fl : List Nat) :
    Prop where
  inv : KInv L fl s
  dir : dirFrame s.envs e = some f
  managed : L.Managed p
  taken : p ∉ fl
  done : ∀ j, j < i ∨ j = 65536 → mappedAt s e (pageVa j) = some p
  todo : ∀ j, i ≤ j → j < 65536 → mappedAt s e (pageVa j) = none
  count : (s.pages p).ppRef.toNat = i + 1
  /-- One page table serves 1024 of the page numbers. -/
  room : 64 ≤ fl.length + (i + 1023) / 1024

namespace Sharing

variable (h : Sharing L e f p i s fl)

include h

theorem live : (s.envs e).envStatus ≠ .free := (dirFrame_eq_some.mp h.dir).1

theorem contract (hj : j ≤ 65536) :
    (MemCall.pageInsert e p (pageVa j) pteU).Contract L s :=
  ⟨h.live, h.inv.allocated_iff.mpr ⟨h.managed, h.taken⟩, pageVa_lt_utop hj, by decide⟩

/-- The page table of page number `i`, unless `i` is the first in it. -/
theorem table (hi : i ≤ 65536) (hmod : i % 1024 ≠ 0) :
    ∃ g, pdeFrame s.mem s.envs e (pdxIdx (pageVa i)) = some g := by
  have hprev := h.done (i - 1) (.inl (by omega))
  obtain ⟨g, hg, -⟩ := pteFrame_eq_some.mp hprev
  have hsame : pdxIdx (pageVa (i - 1)) = pdxIdx (pageVa i) := by
    apply Fin.ext
    rw [pdxIdx_pageVa (by omega), pdxIdx_pageVa (by omega)]
    omega
  rw [hsame] at hg
  exact ⟨g, hg⟩

/-- One more mapping, while the count is below its limit. -/
theorem next (hi : i < 65534) :
    ∃ s' fl', (MemCall.pageInsert e p (pageVa i) pteU).Returns s s' ∧
      Sharing L e f p (i + 1) s' fl' := by
  have hnone := h.todo i (le_refl i) (by omega)
  have hroom := h.room
  have hcount := h.count
  have hpde : i % 1024 = 0 ∨ pdeFrame s.mem s.envs e (pdxIdx (pageVa i)) ≠ none := by
    by_cases hmod : i % 1024 = 0
    · exact .inl hmod
    · obtain ⟨g, hg⟩ := h.table (by omega) hmod
      exact .inr (by simp [hg])
  have havail : fl ≠ [] ∨ pdeFrame s.mem s.envs e (pdxIdx (pageVa i)) ≠ none := by
    refine hpde.imp_left ?_
    rintro hmod rfl
    simp only [List.length_nil] at hroom
    omega
  obtain ⟨s', fl', hret, hmore⟩ := h.inv.oneMore h.dir (pageVa_lt_utop (by omega)) hnone
    h.managed h.taken (by omega) havail
  have hother (j : Nat) (hj : j ≤ 65536) (hij : j ≠ i) :
      mappedAt s' e (pageVa j) = mappedAt s e (pageVa j) :=
    hmore.other _ (pageVa_slot_ne (by omega) hj hij)
  refine ⟨s', fl', hret, hmore.inv, hmore.dir, h.managed, hmore.taken, ?_, ?_, ?_, ?_⟩
  · intro j hj
    by_cases hij : j = i
    · subst hij
      exact hmore.here
    · rw [hother j (by omega) hij]
      exact h.done j (by omega)
  · intro j hij hj
    rw [hother j (by omega) (by omega)]
    exact h.todo j (by omega) hj
  · rw [hmore.count, hcount]
  · rcases hmore.room with hlen | ⟨hpdeNone, hlen⟩
    · omega
    · have hmod : i % 1024 = 0 := hpde.resolve_right (fun hne => hne hpdeNone)
      omega

end Sharing

/-- The first mapping, at page number 65536. -/
theorem KInv.startSharing (h : KInv L fl s) (hf : dirFrame s.envs e = some f)
    (hmanaged : L.Managed p) (hfree : p ∉ fl) (hcnt : (s.pages p).ppRef = 0)
    (hnone : ∀ va, mappedAt s e va = none) (hroom : 65 ≤ fl.length) :
    ∃ s' fl', (MemCall.pageInsert e p (pageVa 65536) pteU).Returns s s' ∧
      Sharing L e f p 0 s' fl' := by
  have hzero : (s.pages p).ppRef.toNat = 0 := by
    rw [hcnt]
    rfl
  have hne : fl ≠ [] := by
    rintro rfl
    simp at hroom
  obtain ⟨s', fl', hret, hmore⟩ := h.oneMore hf (pageVa_lt_utop (le_refl _))
    (hnone (pageVa 65536)) hmanaged hfree (by omega) (.inl hne)
  refine ⟨s', fl', hret, hmore.inv, hmore.dir, hmanaged, hmore.taken, ?_, ?_, ?_, ?_⟩
  · rintro j (hj | rfl)
    · omega
    · exact hmore.here
  · intro j _ hj
    rw [hmore.other _ (pageVa_slot_ne (by omega) (by omega) (by omega))]
    exact hnone (pageVa j)
  · rw [hmore.count, hzero]
  · rcases hmore.room with hlen | ⟨-, hlen⟩
    · omega
    · omega

/-- As `Sharing`, without the counts: the page table `g` is the one of the page
numbers from 64512 to 65535. -/
structure Overflowing (L : Layout) (e : Fin nenv) (f g p : Nat) (s : Machine) (fl : List Nat) :
    Prop where
  tables : TableInv L s.mem s.envs
  dir : dirFrame s.envs e = some f
  table : pdeFrame s.mem s.envs e 63 = some g
  at63 : ∀ va, pdxIdx va = 63 → TableAt s f g va
  managed : L.Managed p
  small : p < 65536 ∧ p < s.npages
  chain : Chain (fun q => (s.pages q).ppLink) s.pageFreeList fl
  taken : p ∉ fl
  link : (s.pages p).ppLink = none

theorem Sharing.overflowing (h : Sharing L e f p 65534 s fl) :
    ∃ g, Overflowing L e f g p s fl := by
  have hpdx : pdxIdx (pageVa 65534) = 63 := Fin.ext (pdxIdx_pageVa (by omega))
  obtain ⟨g, hg⟩ := h.table (by omega) (by decide)
  rw [hpdx] at hg
  refine ⟨g, h.inv.tables, h.dir, hg, ?_, h.managed, ?_, h.inv.pool.chain, h.taken, ?_⟩
  · intro va hva
    exact h.inv.tableAt h.dir (by rw [hva]; exact hg)
  · exact ⟨h.inv.good.lt h.managed, h.inv.lt_npages h.managed⟩
  · exact h.inv.pool.unlinked p h.managed h.taken

namespace Overflowing

variable (h : Overflowing L e f g p s fl)

include h

theorem live : (s.envs e).envStatus ≠ .free := (dirFrame_eq_some.mp h.dir).1

theorem own_mapPage (va : UInt32) :
    own (s.mapPage g p va pteU).mem s.envs =
      Function.update (own s.mem s.envs) (.pte e 63 (ptxIdx va)) (some p) := by
  have hset := h.tables.own_setPte h.table (ptxIdx va) (newPte p pteU)
  have hsmall := h.small.1
  rw [entryFrame_newPte (by omega) (by decide)] at hset
  exact hset

/-- One more mapping, whatever the count is. -/
theorem next (hpdx : pdxIdx va = 63) (hva : va < utop)
    (hnone : mappedAt s e va = none) :
    (MemCall.pageInsert e p va pteU).Contract L s ∧
      (MemCall.pageInsert e p va pteU).Returns s (s.mapPage g p va pteU) ∧
      Overflowing L e f g p (s.mapPage g p va pteU) fl := by
  have hat := h.at63 va hpdx
  have hfg : f ≠ g := h.tables.dir_ne_pde h.dir h.table
  have hpgdir := h.tables.pgdir e f h.dir
  have hmem : (s.mapPage g p va pteU).mem f = s.mem f := Mem.setWord_frame _ _ _ hfg
  have hlink (q : Nat) : ((s.mapPage g p va pteU).pages q).ppLink = (s.pages q).ppLink := by
    by_cases hq : q = p
    · subst hq
      simp [Machine.mapPage, Machine.incref]
    · simp [Machine.mapPage, Machine.incref, hq]
  refine ⟨⟨h.live, ⟨h.managed, fl, h.chain, h.taken⟩, hva, by decide⟩, ⟨0, ?_⟩, ?_⟩
  · rw [hpgdir]
    refine pageInsert_new pteU (hat.walk true) hat.tableWindow ?_
    rw [mappedAt, hpdx, pteFrame_of_pde h.table] at hnone
    exact entryFrame_eq_none.mp hnone
  · refine ⟨h.tables.setPte h.table (ptxIdx va) (newPte p pteU), h.dir, ?_, ?_, h.managed,
      h.small, h.chain.congr fun q _ => hlink q, h.taken, (hlink p).trans h.link⟩
    · exact (congrFun (h.own_mapPage va) (.pde e 63)).trans
        ((Function.update_of_ne (by simp) _ _).trans h.table)
    · intro va' hva'
      have hat' := h.at63 va' hva'
      refine ⟨hat'.dirWindow, hat'.tableWindow, ?_, ?_, hat'.lt⟩
      · rw [hmem]
        exact hat'.pde
      · rw [hmem]
        exact hat'.frame

/-- A count of 1 is taken for the last reference. -/
theorem free (hpdx : pdxIdx va = 63) (hva : va < utop) (hmapped : mappedAt s e va = some p)
    (hone : (s.pages p).ppRef = 1) :
    (MemCall.pageRemove e va).Contract L s ∧
      (MemCall.pageRemove e va).Returns s (s.unmapped g p va) ∧
      Chain (fun q => ((s.unmapped g p va).pages q).ppLink) (s.unmapped g p va).pageFreeList
        (p :: fl) := by
  have hpgdir := h.tables.pgdir e f h.dir
  have hlast : (s.pages p).ppRef - 1 = 0 := by
    rw [hone]
    decide
  refine ⟨⟨h.live, hva, by simp [hmapped]⟩, ?_, ?_⟩
  · rw [mappedAt, hpdx, pteFrame_of_pde h.table] at hmapped
    rw [MemCall.Returns, hpgdir]
    exact pageRemove_table (h.at63 va hpdx) (entryFrame_eq_some.mp hmapped).2 h.small.2
      fun _ => h.link
  · have hhead : (s.unmapped g p va).pageFreeList = some p := by
      simp [Machine.unmapped, hlast]
    rw [hhead]
    refine h.chain.push ?_ ?_
    · intro q hq
      have hne : q ≠ p := ne_of_mem_of_not_mem hq h.taken
      simp [Machine.unmapped, hne]
    · simp [Machine.unmapped, hlast]

end Overflowing

/-- A page with 65536 more mappings than its count can tell is freed by the
removal of one of them. -/
theorem Sharing.freed_while_mapped {ok : Machine → MemCall → Prop} (hok : ∀ s c, ok s c)
    (h : Sharing L e f p 65534 s fl) (hrun : MemRuns L ok s₀ s) :
    ∃ s', MemRuns L ok s₀ s' ∧ mappedAt s' e (pageVa 65534) = some p ∧
      ∃ l, Chain (fun q => (s'.pages q).ppLink) s'.pageFreeList l ∧ p ∈ l := by
  obtain ⟨g, h₀⟩ := h.overflowing
  have hpdx₀ : pdxIdx (pageVa 65534) = 63 := Fin.ext (pdxIdx_pageVa (by omega))
  have hpdx₁ : pdxIdx (pageVa 65535) = 63 := Fin.ext (pdxIdx_pageVa (by omega))
  have hptx : ptxIdx (pageVa 65534) ≠ ptxIdx (pageVa 65535) := by
    intro heq
    have hval := congrArg Fin.val heq
    rw [ptxIdx_pageVa (by omega), ptxIdx_pageVa (by omega)] at hval
    omega
  have hlim : (s.pages p).ppRef = 65535 := UInt16.toNat_inj.mp h.count
  -- the count goes from 65535 to 0
  obtain ⟨hcon₀, hret₀, h₁⟩ := h₀.next hpdx₀ (pageVa_lt_utop (by omega))
    (h.todo 65534 (by omega) (by omega))
  have hown₁ := h₀.own_mapPage (pageVa 65534)
  have hnone₁ : mappedAt (s.mapPage g p (pageVa 65534) pteU) e (pageVa 65535) = none := by
    have hslot := congrFun hown₁ (.pte e (pdxIdx (pageVa 65535)) (ptxIdx (pageVa 65535)))
    rw [Function.update_of_ne (by simp [Ne.symm hptx])] at hslot
    exact hslot.trans (h.todo 65535 (by omega) (by omega))
  -- and from 0 to 1
  obtain ⟨hcon₁, hret₁, h₂⟩ := h₁.next hpdx₁ (pageVa_lt_utop (by omega)) hnone₁
  have hown₂ := h₁.own_mapPage (pageVa 65535)
  have hmapped₂ : mappedAt ((s.mapPage g p (pageVa 65534) pteU).mapPage g p (pageVa 65535) pteU)
      e (pageVa 65535) = some p := by
    rw [mappedAt, hpdx₁]
    exact (congrFun hown₂ (.pte e 63 _)).trans (Function.update_self ..)
  have hone₂ : (((s.mapPage g p (pageVa 65534) pteU).mapPage g p (pageVa 65535) pteU).pages
      p).ppRef = 1 := by
    have hcount : (((s.mapPage g p (pageVa 65534) pteU).mapPage g p (pageVa 65535) pteU).pages
        p).ppRef = (s.pages p).ppRef + 1 + 1 := by
      simp [Machine.mapPage, Machine.incref]
    rw [hcount, hlim]
    decide
  obtain ⟨hcon₂, hret₂, hchain⟩ := h₂.free hpdx₁ (pageVa_lt_utop (by omega)) hmapped₂ hone₂
  refine ⟨_, ((hrun.call hcon₀ (hok _ _) hret₀).call hcon₁ (hok _ _) hret₁).call hcon₂
    (hok _ _) hret₂, ?_, _, hchain, List.mem_cons_self⟩
  have hown₃ := h₂.tables.own_setPte h₂.table (ptxIdx (pageVa 65535)) 0
  have hkept₃ := congrFun hown₃ (.pte e 63 (ptxIdx (pageVa 65534)))
  rw [Function.update_of_ne (by simp [hptx])] at hkept₃
  have hkept₂ := congrFun hown₂ (.pte e 63 (ptxIdx (pageVa 65534)))
  rw [Function.update_of_ne (by simp [hptx])] at hkept₂
  have hmapped₁ := congrFun hown₁ (.pte e 63 (ptxIdx (pageVa 65534)))
  rw [Function.update_self] at hmapped₁
  rw [mappedAt, hpdx₀]
  exact hkept₃.trans (hkept₂.trans hmapped₁)

/-- Mapping the page at one page number after the other. -/
theorem Sharing.fill {ok : Machine → MemCall → Prop} (hok : ∀ s c, ok s c)
    (h : Sharing L e f p 0 s fl) (hrun : MemRuns L ok s₀ s) (i : Nat) (hi : i ≤ 65534) :
    ∃ s' fl', MemRuns L ok s₀ s' ∧ Sharing L e f p i s' fl' := by
  induction i with
  | zero => exact ⟨s, fl, hrun, h⟩
  | succ i ih =>
    obtain ⟨s₁, fl₁, hrun₁, h₁⟩ := ih (by omega)
    obtain ⟨s₂, fl₂, hret, h₂⟩ := h₁.next (by omega)
    exact ⟨s₂, fl₂, hrun₁.call (h₁.contract (by omega)) (hok _ _) hret, h₂⟩

/-- In a kernel of 4 MB the environment in slot 0 maps page 375 once. -/
theorem oneEnv_shared (ok : Machine → MemCall → Prop) (hok : ∀ s, ok s (.envAlloc 0))
    (hok' : ∀ s, ok s (.pageAlloc 0))
    (hmap : ok (oneEnv 650) (.pageInsert 0 375 (pageVa 65536) pteU)) :
    ∃ s fl, MemRuns (freshLayout 650) ok (readyKernel 650) s ∧
      Sharing (freshLayout 650) 0 374 375 0 s fl := by
  obtain ⟨hrun, hinv, hdir, hnone⟩ := oneEnv_runs (k := 648) ok hok hok' (by omega)
  have hfree : 375 ∉ List.range' 376 648 := by
    rw [List.mem_range'_1]
    omega
  have hmanaged : (freshLayout 650).Managed 375 := ⟨by decide, by change ¬ 375 < 307; omega⟩
  have hcnt : ((oneEnv 650).pages 375).ppRef = 0 := by simp [oneEnv]
  obtain ⟨s, fl, hret, hshare⟩ := hinv.startSharing hdir hmanaged hfree hcnt hnone (by simp)
  have hlive := (dirFrame_eq_some.mp hdir).1
  exact ⟨s, fl, hrun.call (c := .pageInsert 0 375 (pageVa 65536) pteU)
    ⟨hlive, hinv.allocated_iff.mpr ⟨hmanaged, hfree⟩, pageVa_lt_utop (le_refl _), by decide⟩
    hmap hret, hshare⟩

/-- In every run in which each count that grows is below its limit, mapped pages
stay off the free list. -/
theorem counts_kept_of_fits {gens : Fin nenv → Nat} {efl : List (Fin nenv)}
    (h : MemInv L fl gens efl s₀)
    (hrun : MemRuns L (fun s c => c.CountFits s) s₀ s) : CountsKept s := by
  obtain ⟨fl', gens', efl', hinv⟩ := hrun.inv h
  exact hinv.kinv.countsKept

theorem counts_kept_oneEnv :
    ∃ s, MemRuns (freshLayout 650) (fun s c => c.CountFits s) (readyKernel 650) s ∧
      mappedAt s 0 (pageVa 65536) = some 375 ∧ CountsKept s := by
  obtain ⟨efl, hready⟩ := readyKernel_inv (k := 650) (by omega)
  obtain ⟨s, fl, hrun, hshare⟩ := oneEnv_shared (fun s c => c.CountFits s)
    (fun _ => trivial) (fun _ => trivial) (fun _ => by simp [oneEnv])
  exact ⟨s, hrun, hshare.done 65536 (.inr rfl), counts_kept_of_fits hready hrun⟩

/-- 65537 mappings of page 375 and one removal put the page on the free list
while it is still mapped. -/
theorem counts_lost_oneEnv :
    ∃ s, MemRuns (freshLayout 650) (fun _ _ => True) (readyKernel 650) s ∧ ¬ CountsKept s := by
  obtain ⟨s₁, fl₁, hrun₁, hshare⟩ := oneEnv_shared (fun _ _ => True)
    (fun _ => trivial) (fun _ => trivial) trivial
  obtain ⟨s₂, fl₂, hrun₂, hfull⟩ := hshare.fill (fun _ _ => trivial) hrun₁ 65534 (le_refl _)
  obtain ⟨s₃, hrun₃, hmapped, l, hchain, hmem⟩ :=
    hfull.freed_while_mapped (fun _ _ => trivial) hrun₂
  exact ⟨s₃, hrun₃, fun hkept => hkept.mapped _ _ _ hmapped l hchain hmem⟩

end Jos
