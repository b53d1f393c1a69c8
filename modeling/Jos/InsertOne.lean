import Jos.Translation
import Jos.PmapSpec
import Jos.FreshKernel

/-!
`page_insert` makes exactly one mapping: the entry of one virtual page changes, and the
counts of the page that is mapped, of the page that was mapped before, and of a new page
table.
-/

namespace Jos

/-- The pages mapped below `UTOP` are allocated and have references. -/
def UserPages (s : Machine) (f : Nat) : Prop :=
  ∀ (n : Vpn) e, n.1.val < userPdes → pteAt s.mem f n = some e →
    frameOf e < s.npages ∧ (s.pages (frameOf e)).ppRef ≠ 0 ∧ (s.pages (frameOf e)).ppLink = none

/-- The page mapped at `va`. -/
def pageAt (s : Machine) (f : Nat) (va : UInt32) : Option Nat :=
  (pteAt s.mem f (vpn va)).map frameOf

/-- The page that becomes the page table of `va`. -/
def newTableAt (s : Machine) (f : Nat) (va : UInt32) (fl : List Nat) : Option Nat :=
  if entryFrame (s.mem f (pdxIdx va)) = none then fl.head? else none

/-- What `page_insert` of the page `p` at `va` changes. -/
structure InsertedOne (f p : Nat) (va perm : UInt32) (s : Machine) (fl : List Nat) (s' : Machine)
    (fl' : List Nat) : Prop where
  chain : Chain (fun q => (s'.pages q).ppLink) s'.pageFreeList fl'
  check : (checkVa2pa (kva f) va).run s' = .ok (page2pa p, s')
  pte : pteAt s'.mem f (vpn va) = some (page2pa p ||| (perm ||| pteP))
  flags : (page2pa p ||| (perm ||| pteP)) &&& 0xFFF = perm ||| pteP
  other : ∀ n : Vpn, n ≠ vpn va → n.1 ≠ uvptIdx → pteAt s'.mem f n = pteAt s.mem f n
  again : pageAt s f va = some p → (s'.pages p).ppRef = (s.pages p).ppRef
  count : pageAt s f va ≠ some p → (s'.pages p).ppRef.toNat = (s.pages p).ppRef.toNat + 1
  replaced : ∀ q, pageAt s f va = some q → q ≠ p →
    (s'.pages q).ppRef.toNat + 1 = (s.pages q).ppRef.toNat
  table : ∀ g, newTableAt s f va fl = some g → (s'.pages g).ppRef = 1
  counts : ∀ q, q ≠ p → pageAt s f va ≠ some q → newTableAt s f va fl ≠ some q →
    (s'.pages q).ppRef = (s.pages q).ppRef
  /-- A page joins the free list exactly when its last reference went. -/
  free : ∀ q, q ∈ fl' ↔ (q ∈ fl ∧ newTableAt s f va fl ≠ some q) ∨
    (pageAt s f va = some q ∧ q ≠ p ∧ (s'.pages q).ppRef = 0)

variable {s s₁ s' : Machine} {f g p q : Nat} {fl fl₁ fl' : List Nat} {va perm e : UInt32}

theorem pageAt_eq_none : pageAt s f va = none ↔ pteAt s.mem f (vpn va) = none := by
  rw [pageAt, Option.map_eq_none_iff]

theorem TableReady.newTableAt_eq (h : TableReady f va s fl g s₁ fl₁) :
    newTableAt s f va fl = some q ↔ entryFrame (s.mem f (pdxIdx va)) = none ∧ q = g := by
  rw [newTableAt]
  rcases h.cases with ⟨-, -, hsome⟩ | ⟨hnone, rfl, -⟩
  · simp [hsome]
  · simp [hnone, eq_comm]

/-- The entry of `va` is written last; this is all that happens to the translations. -/
structure PteWritten (g p : Nat) (va perm : UInt32) (s₁ s' : Machine) : Prop where
  npages : s'.npages = s₁.npages
  cr3 : s'.cr3 = s₁.cr3
  mem : s'.mem = s₁.mem.setWord g (ptxIdx va) (newPte p perm)

namespace TableReady

variable (h : TableReady f va s fl g s₁ fl₁)

include h

theorem pte_written (hw : PteWritten g p va perm s₁ s') (hp : p < 1048576)
    (hperm : perm.toNat < 4096) :
    (checkVa2pa (kva f) va).run s' = .ok (page2pa p, s') ∧
      pteAt s'.mem f (vpn va) = some (page2pa p ||| (perm ||| pteP)) ∧
      (page2pa p ||| (perm ||| pteP)) &&& 0xFFF = perm ||| pteP ∧
      ∀ n : Vpn, n ≠ vpn va → n.1 ≠ uvptIdx → pteAt s'.mem f n = pteAt s.mem f n := by
  obtain ⟨-, hdir, hpte⟩ := h.pgdir.setPte h.index h.table (ptxIdx va) (newPte p perm)
  have hwin {f' : Nat} (hf : InWindow s₁ f') : InWindow s' f' := by
    unfold InWindow Machine.window at hf ⊢
    rw [hw.cr3]
    exact hf
  have hhere : pteAt s'.mem f (vpn va) = some (newPte p perm) := by
    rw [hw.mem, hpte (vpn va) h.index, vpn, Function.update_self, presentEntry_newPte hp]
  refine ⟨?_, by rw [← newPte_eq, hhere], entry_low hp (or_low hperm (by decide)), ?_⟩
  · have htable : ∀ g', entryFrame (s'.mem f (pdxIdx va)) = some g' →
        g' < s'.npages ∧ InWindow s' g' := by
      intro g' hg'
      rw [hw.mem, hdir] at hg'
      obtain ⟨hlt, hwin', -⟩ := h.pgdir.table _ g' h.index hg'
      exact ⟨hw.npages ▸ hlt, hwin hwin'⟩
    rw [checkVa2pa_run (hwin h.pgdir.dirWindow) htable, hhere, Option.map_some,
      Option.getD_some, pteAddr_eq_page2pa, frameOf_newPte hp hperm]
  · intro n hne hn
    rw [hw.mem, hpte n hn]
    exact (Function.update_of_ne hne ..).trans (h.same n hn)

/-- `page_insert` where nothing was mapped. -/
theorem inserted_new (hnone : pteAt s.mem f (vpn va) = none) (hpl : p ∉ fl) (hp : p < 1048576)
    (hcount : (s.pages p).ppRef.toNat < 65535) (hperm : perm.toNat < 4096) :
    InsertedOne f p va perm s fl
      ((s₁.setMem (s₁.mem.setWord g (ptxIdx va) (newPte p perm))).incref p) fl₁ := by
  have hw : PteWritten g p va perm s₁
      ((s₁.setMem (s₁.mem.setWord g (ptxIdx va) (newPte p perm))).incref p) := ⟨rfl, rfl, rfl⟩
  obtain ⟨hcheck, hhere, hflags, hother⟩ := h.pte_written hw hp hperm
  have hpage := pageAt_eq_none.mpr hnone
  have hpg : ¬ (entryFrame (s.mem f (pdxIdx va)) = none ∧ p = g) := by
    rintro ⟨hdir, rfl⟩
    rcases h.cases with ⟨-, -, hsome⟩ | ⟨-, rfl, -⟩
    · rw [hdir] at hsome
      cases hsome
    · exact hpl List.mem_cons_self
  have hrecord (q : Nat) (hq : q ≠ p) :
      (((s₁.setMem (s₁.mem.setWord g (ptxIdx va) (newPte p perm))).incref p).pages q) =
        s₁.pages q := by
    simp [Machine.incref, hq]
  have hself : (((s₁.setMem (s₁.mem.setWord g (ptxIdx va) (newPte p perm))).incref p).pages
      p).ppRef = (s.pages p).ppRef + 1 := by
    have hsame := h.pages p
    rw [if_neg hpg] at hsame
    simp [Machine.incref, hsame]
  have hpl₁ : p ∉ fl₁ := fun hmem => hpl ((h.free p).mp hmem).1
  refine ⟨?_, hcheck, hhere, hflags, hother, ?_, ?_, ?_, ?_, ?_, ?_⟩
  · refine Chain.congr h.pgdir.chain ?_
    intro q hq
    rw [hrecord q (ne_of_mem_of_not_mem hq hpl₁)]
  · intro hsome
    rw [hpage] at hsome
    cases hsome
  · intro _
    rw [hself, succ_toNat hcount]
  · intro q hsome
    rw [hpage] at hsome
    cases hsome
  · intro g' hg'
    obtain ⟨hdir, rfl⟩ := h.newTableAt_eq.mp hg'
    rw [hrecord g' (fun hgp => hpg ⟨hdir, hgp.symm⟩), h.pages, if_pos ⟨hdir, rfl⟩]
  · intro q hqp _ hnew
    rw [hrecord q hqp, h.pages, if_neg fun hc => hnew (h.newTableAt_eq.mpr hc)]
  · intro q
    rw [h.free q, hpage, ne_eq, h.newTableAt_eq]
    simp

end TableReady

/-- `page_insert` of the page that is mapped already. -/
theorem TableReady.inserted_same (h : TableReady f va s fl g s fl)
    (hpte : pteAt s.mem f (vpn va) = some e) (hframe : frameOf e = p) (hp : p < 1048576)
    (hperm : perm.toNat < 4096) :
    InsertedOne f p va perm s fl (s.setMem (s.mem.setWord g (ptxIdx va) (newPte p perm))) fl := by
  have hw : PteWritten g p va perm s (s.setMem (s.mem.setWord g (ptxIdx va) (newPte p perm))) :=
    ⟨rfl, rfl, rfl⟩
  obtain ⟨hcheck, hhere, hflags, hother⟩ := h.pte_written hw hp hperm
  have hpage : pageAt s f va = some p := by rw [pageAt, hpte, Option.map_some, hframe]
  have hnew : newTableAt s f va fl = none := by
    rw [newTableAt, (h.same_of_mapped hpte).2.2, if_neg (by simp)]
  refine ⟨h.pgdir.chain, hcheck, hhere, hflags, hother, fun _ => rfl, ?_, ?_, ?_,
    fun _ _ _ _ => rfl, ?_⟩
  · intro hne
    exact absurd hpage hne
  · intro q hq hqp
    rw [hpage] at hq
    exact absurd (Option.some.inj hq).symm hqp
  · intro g' hg'
    rw [hnew] at hg'
    cases hg'
  · intro q
    rw [hnew, hpage]
    simp only [ne_eq, reduceCtorEq, not_false_eq_true, and_true, Option.some.injEq]
    refine ⟨.inl, ?_⟩
    rintro (hq | ⟨rfl, hqp, -⟩)
    · exact hq
    · exact absurd rfl hqp

/-- `page_insert` over the page `q`. -/
theorem TableReady.inserted_replace (h : TableReady f va s fl g s fl)
    (hpte : pteAt s.mem f (vpn va) = some e) (hframe : frameOf e = q) (hqp : q ≠ p)
    (hq : (s.pages q).ppRef ≠ 0) (hp : p < 1048576)
    (hcount : (s.pages p).ppRef.toNat < 65535) (hperm : perm.toNat < 4096) :
    InsertedOne f p va perm s fl (((s.unmapped g q va).setMem
      ((s.unmapped g q va).mem.setWord g (ptxIdx va) (newPte p perm))).incref p)
      (s.afterDecref q fl) := by
  have hw : PteWritten g p va perm s (((s.unmapped g q va).setMem
      ((s.unmapped g q va).mem.setWord g (ptxIdx va) (newPte p perm))).incref p) :=
    ⟨s.unmapped_npages g q va, s.unmapped_cr3 g q va, Mem.setWord_idem _ _ _ _ _⟩
  obtain ⟨hcheck, hhere, hflags, hother⟩ := h.pte_written hw hp hperm
  have hpage : pageAt s f va = some q := by rw [pageAt, hpte, Option.map_some, hframe]
  have hnew : newTableAt s f va fl = none := by
    rw [newTableAt, (h.same_of_mapped hpte).2.2, if_neg (by simp)]
  have hql : q ∉ fl := fun hmem => hq (h.pgdir.free q hmem).2
  have hother' (r : Nat) (hrp : r ≠ p) (hrq : r ≠ q) : (((s.unmapped g q va).setMem
      ((s.unmapped g q va).mem.setWord g (ptxIdx va) (newPte p perm))).incref p).pages r =
        s.pages r := by
    simp [Machine.incref, Machine.unmapped, hrp, hrq]
  have hpos : 0 < (s.pages q).ppRef.toNat := by
    rw [Nat.pos_iff_ne_zero]
    exact fun hz => hq (UInt16.toNat_inj.mp hz)
  have hrefq : ((((s.unmapped g q va).setMem
      ((s.unmapped g q va).mem.setWord g (ptxIdx va) (newPte p perm))).incref p).pages q).ppRef =
        (s.pages q).ppRef - 1 := by
    simp [Machine.incref, Machine.unmapped, hqp]
  have hrefp : ((((s.unmapped g q va).setMem
      ((s.unmapped g q va).mem.setWord g (ptxIdx va) (newPte p perm))).incref p).pages p).ppRef =
        (s.pages p).ppRef + 1 := by
    simp [Machine.incref, Machine.unmapped, hqp.symm]
  refine ⟨?_, hcheck, hhere, hflags, hother, ?_, ?_, ?_, ?_, ?_, ?_⟩
  · have hchain : Chain (fun r => ((s.decref q).pages r).ppLink) (s.decref q).pageFreeList
        (s.afterDecref q fl) := by
      unfold Machine.afterDecref
      by_cases hlast : (s.pages q).ppRef - 1 = 0
      · rw [if_pos hlast, Machine.decref_pageFreeList, if_pos hlast]
        refine h.pgdir.chain.push ?_ (by simp [hlast])
        intro r hr
        simp [ne_of_mem_of_not_mem hr hql]
      · rw [if_neg hlast, Machine.decref_pageFreeList, if_neg hlast]
        refine h.pgdir.chain.congr ?_
        intro r hr
        simp [ne_of_mem_of_not_mem hr hql]
    refine hchain.congr ?_
    intro r _
    by_cases hrp : r = p
    · simp [hrp, Machine.incref, Machine.unmapped]
    · simp [hrp, Machine.incref, Machine.unmapped]
  · intro hsame
    rw [hpage] at hsame
    exact absurd (Option.some.inj hsame) hqp
  · intro _
    rw [hrefp, succ_toNat hcount]
  · intro r hr _
    rw [hpage] at hr
    obtain rfl := Option.some.inj hr
    rw [hrefq, pred_toNat hpos]
    omega
  · intro g' hg'
    rw [hnew] at hg'
    cases hg'
  · intro r hrp hr _
    rw [hpage] at hr
    rw [hother' r hrp fun hrq => hr (hrq ▸ rfl)]
  · intro r
    rw [mem_afterDecref, hnew, hpage]
    simp only [ne_eq, reduceCtorEq, not_false_eq_true, and_true, Option.some.injEq]
    refine or_congr_right ?_
    constructor
    · rintro ⟨rfl, hone⟩
      refine ⟨rfl, hqp, ?_⟩
      rw [hrefq, pred_eq_zero_iff]
      exact hone
    · rintro ⟨rfl, -, hzero⟩
      rw [hrefq, pred_eq_zero_iff] at hzero
      exact ⟨rfl, hzero⟩

/-- Every run of `page_insert` fails for want of a page table, or makes one mapping. -/
theorem Pgdir.pageInsert (h : Pgdir s f fl) (hu : UserPages s f)
    (hnear : entryFrame (s.mem f (pdxIdx va)) = none → ∀ g, fl.head? = some g → InWindow s g)
    (hp : p < s.npages) (hpl : p ∉ fl)
    (hcount : (s.pages p).ppRef.toNat < 65535) (hva : va < utop) (hperm : perm.toNat < 4096) :
    (entryFrame (s.mem f (pdxIdx va)) = none ∧ fl = [] ∧
      (pageInsert (kva f) p va perm).run s = .ok (-eNoMem, s)) ∨
    (¬ (entryFrame (s.mem f (pdxIdx va)) = none ∧ fl = []) ∧
      ∃ s' fl', (pageInsert (kva f) p va perm).run s = .ok (0, s') ∧
        InsertedOne f p va perm s fl s' fl') := by
  have hidx := pdxIdx_lt_userPdes hva
  have hd : pdxIdx va ≠ uvptIdx := by
    intro heq
    rw [heq] at hidx
    exact absurd hidx (by decide)
  have hp20 : p < 1048576 := lt_of_lt_of_le hp h.npages
  rcases h.walk hd hnear with ⟨hnone, hnil, hrun⟩ | ⟨g, s₁, fl₁, hrun, hw⟩
  · exact .inl ⟨hnone, hnil, pageInsert_no_memory perm hrun⟩
  right
  have hgw := (hw.pgdir.table _ g hd hw.table).2.1
  have hentry := hw.pteAt_va
  constructor
  · rintro ⟨hnone, rfl⟩
    rcases hw.cases with ⟨-, -, hsome⟩ | ⟨-, hcons, -⟩
    · rw [hnone] at hsome
      cases hsome
    · cases hcons
  · cases hpte : presentEntry (s₁.mem g (ptxIdx va)) with
    | none =>
      rw [hpte] at hentry
      exact ⟨_, fl₁, pageInsert_new perm hrun hgw (presentEntry_eq_none.mp hpte),
        hw.inserted_new hentry hpl hp20 hcount hperm⟩
    | some e =>
      rw [hpte] at hentry
      obtain ⟨hpresent, he⟩ := presentEntry_eq_some.mp hpte
      obtain ⟨rfl, rfl, -⟩ := hw.same_of_mapped hentry
      by_cases hframe : frameOf e = p
      · exact ⟨_, fl₁, pageInsert_same perm hrun hgw hpresent (he ▸ hframe),
          hw.inserted_same hentry hframe hp20 hperm⟩
      · obtain ⟨hlt, hq⟩ := hu (vpn va) e hidx hentry
        have hne : page2pa p ≠ pteAddr (s₁.mem g (ptxIdx va)) := by
          rw [pteAddr_eq_page2pa, he]
          intro heq
          exact hframe (page2pa_inj hp20 (frameOf_lt e) heq).symm
        have hremove := pageRemove_table (hw.pgdir.tableAt hd hw.table) (he ▸ rfl) hlt
          fun _ => hq.2
        exact ⟨_, _, pageInsert_replace perm hrun hgw hpresent hne hremove hgw,
          hw.inserted_replace hentry rfl hframe hq.1 hp20 hcount hperm⟩

variable {L : Layout} {e' : Fin nenv}

theorem KInv.free_ref (h : KInv L fl s) (hp : p ∈ fl) : (s.pages p).ppRef = 0 := by
  have hzero : (s.pages p).ppRef.toNat = 0 := h.pool.free_cnt p hp
  exact UInt16.toNat_inj.mp hzero

/-- The page directory of an environment, between the calls of the kernel. -/
theorem KInv.pgdir (h : KInv L fl s) (hf : dirFrame s.envs e' = some f) : Pgdir s f fl := by
  have hkpt {d : Fin 1024} (hd : ¬ d.val < userPdes) (hne : d ≠ uvptIdx) :
      entryFrame (s.mem f d) = L.kpt d := by
    rw [h.tables.dirKernel e' f hf d (by omega) hne, Layout.kpt, if_pos ⟨by omega, hne⟩]
  have hpde {d : Fin 1024} (hd : d.val < userPdes) :
      entryFrame (s.mem f d) = pdeFrame s.mem s.envs e' d := (pdeFrame_of_dir hf hd).symm
  have hnpages := h.npages
  have hle := h.good.npages_le
  refine ⟨by omega, h.pool.chain, ?_, h.inWindow (h.dir_lt hf), ?_, ⟨?_, ?_⟩, ?_⟩
  · intro p hp
    exact ⟨h.lt_npages (h.free_managed hp), h.free_ref hp⟩
  · exact fun hmem => h.free_not_owned hmem (.dir e') hf
  · intro d g hne hg
    by_cases hd : d.val < userPdes
    · exact (h.tables.dir_ne_pde hf ((hpde hd).symm.trans hg)).symm
    · rintro rfl
      exact h.tables.notKernel (.dir e') g trivial hf (.inr ⟨d, (hkpt hd hne).symm.trans hg⟩)
  · intro d d' g hne hne' hg hg'
    by_cases hd : d.val < userPdes <;> by_cases hd' : d'.val < userPdes
    · exact (h.tables.pde_unique ((hpde hd').symm.trans hg') ((hpde hd).symm.trans hg)).2
    · exact absurd (.inr ⟨d', (hkpt hd' hne').symm.trans hg'⟩)
        (h.tables.notKernel (.pde e' d) g trivial ((hpde hd).symm.trans hg))
    · exact absurd (.inr ⟨d, (hkpt hd hne).symm.trans hg⟩)
        (h.tables.notKernel (.pde e' d') g trivial ((hpde hd').symm.trans hg'))
    · exact h.good.kpt_unique d d' g ((hkpt hd hne).symm.trans hg) ((hkpt hd' hne').symm.trans hg')
  · intro d g hne hg
    by_cases hd : d.val < userPdes
    · have hown : own s.mem s.envs (.pde e' d) = some g := (hpde hd).symm.trans hg
      exact ⟨h.lt_npages (h.owned_managed hown), h.inWindow (h.owned_lt hown),
        fun hmem => h.free_not_owned hmem _ hown⟩
    · have hg' := (hkpt hd hne).symm.trans hg
      have hmanaged := h.good.kpt_managed d g hg'
      exact ⟨h.lt_npages hmanaged, h.inWindow (h.good.lt hmanaged),
        fun hmem => h.free_not_kernel hmem (.inr ⟨d, hg'⟩)⟩

theorem KInv.userPages (h : KInv L fl s) (hf : dirFrame s.envs e' = some f) : UserPages s f := by
  rintro ⟨d, t⟩ e hd hpte
  obtain ⟨g, hg, hleaf⟩ := Option.bind_eq_some_iff.mp hpte
  obtain ⟨hpresent, rfl⟩ := presentEntry_eq_some.mp hleaf
  have hown : own s.mem s.envs (.pte e' d t) = some (frameOf (s.mem g t)) :=
    pteFrame_eq_some.mpr ⟨g, (pdeFrame_of_dir hf hd).trans hg,
      entryFrame_eq_some.mpr ⟨hpresent, rfl⟩⟩
  refine ⟨h.lt_npages (h.owned_managed hown), ?_, h.pool.link_none hown⟩
  intro hzero
  have hpos := RefPool.cnt_pos_of_owned h.pool hown
  rw [hzero] at hpos
  exact absurd hpos (by decide)

/-- `kern_pgdir`, between the calls of the kernel. It maps nothing below `UTOP`. -/
theorem KInv.kernPgdir_pgdir (h : KInv L fl s) : Pgdir s L.kd fl ∧ UserPages s L.kd := by
  have hmem : s.mem L.kd = L.kmem L.kd := h.tables.kernel L.kd (.inl rfl)
  have hempty {d : Fin 1024} (hd : d.val < userPdes) : entryFrame (s.mem L.kd d) = none := by
    rw [hmem, entryFrame_eq_none]
    exact h.good.user_empty d hd
  have hkpt {d : Fin 1024} {g : Nat} (hne : d ≠ uvptIdx) (hg : entryFrame (s.mem L.kd d) = some g) :
      L.kpt d = some g := by
    by_cases hd : d.val < userPdes
    · rw [hempty hd] at hg
      cases hg
    · rw [Layout.kpt, if_pos ⟨by omega, hne⟩, ← hmem, hg]
  have hnpages := h.npages
  have hle := h.good.npages_le
  refine ⟨⟨by omega, h.pool.chain, ?_, h.inWindow h.good.kd_lt', ?_, ⟨?_, ?_⟩, ?_⟩, ?_⟩
  · intro p hp
    exact ⟨h.lt_npages (h.free_managed hp), h.free_ref hp⟩
  · exact fun hfree => h.good.kd_not_managed (h.free_managed hfree)
  · rintro d g hne hg rfl
    exact h.good.kd_not_managed (h.good.kpt_managed d _ (hkpt hne hg))
  · intro d d' g hne hne' hg hg'
    exact h.good.kpt_unique d d' g (hkpt hne hg) (hkpt hne' hg')
  · intro d g hne hg
    have hmanaged := h.good.kpt_managed d g (hkpt hne hg)
    exact ⟨h.lt_npages hmanaged, h.inWindow (h.good.lt hmanaged),
      fun hfree => h.free_not_kernel hfree (.inr ⟨d, hkpt hne hg⟩)⟩
  · rintro ⟨d, t⟩ e hd hpte
    rw [pteAt_of_no_table (hempty hd)] at hpte
    cases hpte

/-- `page_insert` fails exactly when the page table is missing and no page is free, and
then changes nothing. Otherwise it makes one mapping. -/
theorem pageInsert_maps_one (h : Pgdir s f fl) (hu : UserPages s f)
    (hnear : entryFrame (s.mem f (pdxIdx va)) = none → ∀ g, fl.head? = some g → InWindow s g)
    (hp : p < s.npages) (hpl : p ∉ fl)
    (hcount : (s.pages p).ppRef.toNat < 65535) (hva : va < utop) (hperm : perm.toNat < 4096) :
    ((∃ t, (pageInsert (kva f) p va perm).run s = .ok (-eNoMem, t)) ↔
      entryFrame (s.mem f (pdxIdx va)) = none ∧ fl = []) ∧
    (∀ t, (pageInsert (kva f) p va perm).run s = .ok (-eNoMem, t) → t = s) ∧
    (¬ (entryFrame (s.mem f (pdxIdx va)) = none ∧ fl = []) →
      ∃ s' fl', (pageInsert (kva f) p va perm).run s = .ok (0, s') ∧
        InsertedOne f p va perm s fl s' fl') := by
  rcases h.pageInsert hu hnear hp hpl hcount hva hperm with ⟨hnone, hnil, hrun⟩ |
    ⟨hroom, s', fl', hrun, hone⟩
  · refine ⟨iff_of_true ⟨s, hrun⟩ ⟨hnone, hnil⟩, ?_, fun hroom => absurd ⟨hnone, hnil⟩ hroom⟩
    intro t ht
    rw [hrun] at ht
    cases ht
    rfl
  · have hnot : ∀ t, (pageInsert (kva f) p va perm).run s ≠ .ok (-eNoMem, t) := by
      intro t ht
      rw [hrun] at ht
      cases ht
    refine ⟨iff_of_false ?_ hroom, fun t ht => absurd ht (hnot t), fun _ => ⟨s', fl', hrun, hone⟩⟩
    rintro ⟨t, ht⟩
    exact hnot t ht

/-- The environment in slot 0 maps page 375 at `UTEXT`. -/
theorem pageInsert_maps_one_oneEnv :
    ∃ s' fl', (pageInsert (kva 374) 375 0x800000 7).run (oneEnv 650) = .ok (0, s') ∧
      InsertedOne 374 375 0x800000 7 (oneEnv 650) (List.range' 376 648) s' fl' := by
  obtain ⟨-, hinv, hdir, -⟩ := oneEnv_runs (k := 648) (fun _ _ => True) (fun _ => trivial)
    (fun _ => trivial) (by omega)
  have hwin : ∀ g, (List.range' 376 648).head? = some g → InWindow (oneEnv 650) g := by
    intro g hg
    exact hinv.inWindow (hinv.good.lt (hinv.free_managed (List.mem_of_head? hg)))
  have hpl : 375 ∉ List.range' 376 648 := by
    rw [List.mem_range'_1]
    omega
  have hlt : 375 < (oneEnv 650).npages := by
    rw [hinv.npages]
    decide
  have hcount : ((oneEnv 650).pages 375).ppRef.toNat < 65535 := by simp [oneEnv]
  exact (pageInsert_maps_one (hinv.pgdir hdir) (hinv.userPages hdir) (fun _ => hwin) hlt hpl hcount
    (by decide) (by decide)).2.2 (by simp)

end Jos
