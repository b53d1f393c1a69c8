import Jos.Invariant

/-!
What the page table functions do to a state that satisfies the invariant, as
one specification for each function.
-/

namespace Jos

/-- Only the pages, physical memory and the cached translations changed. -/
def PagesOnly (s s' : Machine) : Prop :=
  s' = { s with
    pages := s'.pages
    pageFreeList := s'.pageFreeList
    mem := s'.mem
    tlb := s'.tlb
    clock := s'.clock }

namespace PagesOnly

variable {s s' s'' : Machine}

theorem refl (s : Machine) : PagesOnly s s := rfl

theorem trans (h : PagesOnly s s') (h' : PagesOnly s' s'') : PagesOnly s s'' := by
  unfold PagesOnly at *
  rw [h] at h'
  exact h'

theorem eq (h : PagesOnly s s') :
    s' = { s with
      pages := s'.pages
      pageFreeList := s'.pageFreeList
      mem := s'.mem
      tlb := s'.tlb
      clock := s'.clock } := h

theorem envs (h : PagesOnly s s') : s'.envs = s.envs := (congrArg Machine.envs h.eq :)

theorem cr3 (h : PagesOnly s s') : s'.cr3 = s.cr3 := (congrArg Machine.cr3 h.eq :)

theorem envFreeList (h : PagesOnly s s') : s'.envFreeList = s.envFreeList :=
  (congrArg Machine.envFreeList h.eq :)

theorem curenv (h : PagesOnly s s') : s'.curenv = s.curenv := (congrArg Machine.curenv h.eq :)

theorem kernPgdir (h : PagesOnly s s') : s'.kernPgdir = s.kernPgdir :=
  (congrArg Machine.kernPgdir h.eq :)

end PagesOnly

variable {L : Layout} {fl : List Nat} {s : Machine} {e : Fin nenv} {f g p : Nat} {va perm : UInt32}

theorem entryFrame_newPte (hp : p < 1048576) (hperm : perm.toNat < 4096) :
    entryFrame (newPte p perm) = some p := by
  rw [newPte, UInt32.or_assoc, entryFrame_eq_some]
  exact ⟨(present_entry hp).mpr (present_or_pteP perm),
    frameOf_entry hp (or_low hperm (by decide))⟩

/-- The page table `g` for `va` in the state `s'`, with the free list `fl'`:
either it was there before, or it is the first free page. -/
structure Walked (L : Layout) (e : Fin nenv) (f : Nat) (va : UInt32) (s : Machine)
    (fl : List Nat) (g : Nat) (s' : Machine) (fl' : List Nat) : Prop where
  inv : KInv L fl' s'
  table : pdeFrame s'.mem s'.envs e (pdxIdx va) = some g
  other : ∀ x, x ≠ .pde e (pdxIdx va) → own s'.mem s'.envs x = own s.mem s.envs x
  cases : (s' = s ∧ fl' = fl) ∨
    (pdeFrame s.mem s.envs e (pdxIdx va) = none ∧ fl = g :: fl' ∧ s' = s.newTable f g va)

theorem KInv.pgdirWalk (h : KInv L fl s) (hf : dirFrame s.envs e = some f)
    (hd : (pdxIdx va).val < userPdes) :
    (fl = [] ∧ pdeFrame s.mem s.envs e (pdxIdx va) = none ∧
      (pgdirWalk (kva f) va true).run s = .ok (none, s)) ∨
    ∃ g s' fl', (pgdirWalk (kva f) va true).run s = .ok (some (wordPtr g (ptxIdx va)), s') ∧
      Walked L e f va s fl g s' fl' := by
  have hfw := h.inWindow (h.dir_lt hf)
  cases hg : pdeFrame s.mem s.envs e (pdxIdx va) with
  | some g =>
    right
    exact ⟨g, s, fl, (h.tableAt hf hg).walk true, h, hg, fun _ _ => rfl, .inl ⟨rfl, rfl⟩⟩
  | none =>
    have hpde := KInv.not_present_of_pde_none hf hd hg
    cases fl with
    | nil =>
      left
      exact ⟨rfl, rfl, pgdirWalk_no_memory hfw hpde h.head_eq⟩
    | cons g fl' =>
      right
      have hmem : g ∈ g :: fl' := List.mem_cons_self
      obtain ⟨hinv, hown⟩ := h.newTable hf hd hg
      refine ⟨g, s.newTable f g va, fl',
        pgdirWalk_create hfw hpde h.head_eq (h.lt_npages (h.free_managed hmem))
          (h.inWindow (h.good.lt (h.free_managed hmem))), hinv, ?_, ?_, .inr ⟨hg, rfl, rfl⟩⟩
      · have hslot := congrFun hown (.pde e (pdxIdx va))
        rw [Function.update_self] at hslot
        exact hslot
      · intro x hx
        have hslot := congrFun hown x
        rw [Function.update_of_ne hx] at hslot
        exact hslot

namespace Walked

variable {s' : Machine} {fl' : List Nat}

theorem pagesOnly (h : Walked L e f va s fl g s' fl') : PagesOnly s s' := by
  rcases h.cases with ⟨rfl, -⟩ | ⟨-, -, rfl⟩ <;> rfl

/-- Only the page directory and the page table are written. -/
theorem frame (h : Walked L e f va s fl g s' fl') {f' : Nat} (hf : f' ≠ f) (hg : f' ≠ g) :
    s'.mem f' = s.mem f' := by
  rcases h.cases with ⟨rfl, -⟩ | ⟨-, -, rfl⟩
  · rfl
  · change ((s.mem.zeroFrame g).setWord f _ _) f' = _
    rw [Mem.setWord_frame _ _ _ hf, Mem.zeroFrame_frame _ hg]

theorem free_sub (h : Walked L e f va s fl g s' fl') {q : Nat} (hq : q ∈ fl') : q ∈ fl := by
  rcases h.cases with ⟨-, rfl⟩ | ⟨-, rfl, -⟩
  · exact hq
  · exact List.mem_cons_of_mem g hq

theorem free_kept (h : Walked L e f va s fl g s' fl') {q : Nat} (hq : q ∈ fl) :
    q ∈ fl' ∨ q = g := by
  rcases h.cases with ⟨-, rfl⟩ | ⟨-, rfl, -⟩
  · exact .inl hq
  · exact (List.mem_cons.mp hq).symm

/-- The count of a page that is not free does not change. -/
theorem pages_eq (h : Walked L e f va s fl g s' fl') {q : Nat} (hq : q ∉ fl) :
    s'.pages q = s.pages q := by
  rcases h.cases with ⟨rfl, -⟩ | ⟨-, rfl, rfl⟩
  · rfl
  · have hne : q ≠ g := fun hqg => hq (hqg ▸ List.mem_cons_self)
    simp [Machine.newTable, Machine.incref, hne]

/-- The page table was there before, or it was free. -/
theorem table_before (h : Walked L e f va s fl g s' fl') :
    pdeFrame s.mem s.envs e (pdxIdx va) = some g ∨
      (pdeFrame s.mem s.envs e (pdxIdx va) = none ∧ g ∈ fl) := by
  have htable := h.table
  rcases h.cases with ⟨rfl, -⟩ | ⟨hnone, rfl, -⟩
  · exact .inl htable
  · exact .inr ⟨hnone, List.mem_cons_self⟩

end Walked

theorem KInv.pageRemove (h : KInv L fl s) (hf : dirFrame s.envs e = some f)
    (hg : pdeFrame s.mem s.envs e (pdxIdx va) = some g)
    (hp : pteFrame s.mem s.envs e (pdxIdx va) (ptxIdx va) = some p) :
    (pageRemove (kva f) va).run s = .ok ((), s.unmapped g p va) := by
  have hentry := hp
  rw [pteFrame_of_pde hg] at hentry
  refine pageRemove_table (h.tableAt hf hg) (entryFrame_eq_some.mp hentry).2 ?_ ?_
  · exact h.lt_npages (h.owned_managed (x := .pte e _ _) hp)
  · intro _
    exact h.pool.link_none (x := .pte e _ _) hp

/-- What a successful `page_insert` of the page `p` at `va` in the page
directory `f` of the environment `e` leaves. -/
structure Inserted (e : Fin nenv) (f p : Nat) (va perm : UInt32) (s : Machine) (fl : List Nat)
    (s' : Machine) (fl' : List Nat) : Prop where
  rest : PagesOnly s s'
  table : ∃ g, pdeFrame s'.mem s'.envs e (pdxIdx va) = some g ∧
    s'.mem g (ptxIdx va) = newPte p perm ∧
    (pdeFrame s.mem s.envs e (pdxIdx va) = some g ∨
      (pdeFrame s.mem s.envs e (pdxIdx va) = none ∧ g ∈ fl)) ∧
    (∀ f', f' ≠ f → f' ≠ g → s'.mem f' = s.mem f') ∧
    ∀ q ∈ fl, q ∈ fl' ∨ q = g
  pte : own s'.mem s'.envs (.pte e (pdxIdx va) (ptxIdx va)) = some p
  other : ∀ x, x ≠ .pde e (pdxIdx va) → x ≠ .pte e (pdxIdx va) (ptxIdx va) →
    own s'.mem s'.envs x = own s.mem s.envs x
  freeSub : ∀ q ∈ fl', q ∈ fl ∨ pteFrame s.mem s.envs e (pdxIdx va) (ptxIdx va) = some q
  length : fl.length ≤ fl'.length + 1

/-- `page_insert` changes at most two references: that of the page table, which
comes from the free list, and that of the page itself. -/
theorem Inserted.own_eq {s' : Machine} {fl' : List Nat}
    (h : Inserted e f p va perm s fl s' fl') :
    ∃ g, (pdeFrame s.mem s.envs e (pdxIdx va) = some g ∨
        (pdeFrame s.mem s.envs e (pdxIdx va) = none ∧ g ∈ fl)) ∧
      own s'.mem s'.envs =
        Function.update (Function.update (own s.mem s.envs) (.pde e (pdxIdx va)) (some g))
          (.pte e (pdxIdx va) (ptxIdx va)) (some p) := by
  obtain ⟨g, hg, -, hbefore, -⟩ := h.table
  refine ⟨g, hbefore, ?_⟩
  funext x
  by_cases hpte : x = .pte e (pdxIdx va) (ptxIdx va)
  · subst hpte
    rw [Function.update_self]
    exact h.pte
  · rw [Function.update_of_ne hpte]
    by_cases hpde : x = .pde e (pdxIdx va)
    · subst hpde
      rw [Function.update_self]
      exact hg
    · rw [Function.update_of_ne hpde]
      exact h.other x hpde hpte

theorem Mem.setWord_idem (m : Mem) (f : Nat) (i : Fin 1024) (v w : UInt32) :
    (m.setWord f i v).setWord f i w = m.setWord f i w := by
  funext g j
  by_cases h : g = f ∧ j = i
  · simp [Mem.setWord, h]
  · simp [Mem.setWord, h]

/-- How `page_insert` goes on from the page table `g` that the walk left in the state
`s₁`: one entry is written, and a page that it named before loses its reference. -/
structure Rewritten (L : Layout) (e : Fin nenv) (f p : Nat) (va perm : UInt32) (s : Machine)
    (fl : List Nat) (g : Nat) (s₁ : Machine) (fl₁ : List Nat) (s' : Machine) (fl' : List Nat) :
    Prop where
  walked : Walked L e f va s fl g s₁ fl₁
  mem : s'.mem = s₁.mem.setWord g (ptxIdx va) (newPte p perm)
  rest : PagesOnly s₁ s'
  pages : ∀ q, q ≠ p → pteFrame s₁.mem s₁.envs e (pdxIdx va) (ptxIdx va) ≠ some q →
    s'.pages q = s₁.pages q
  free : fl' = fl₁ ∧ (∀ q, pteFrame s₁.mem s₁.envs e (pdxIdx va) (ptxIdx va) = some q → q = p) ∨
    ∃ q, pteFrame s₁.mem s₁.envs e (pdxIdx va) (ptxIdx va) = some q ∧
      fl' = s₁.afterDecref q fl₁

theorem Rewritten.own_eq {s₁ s' : Machine} {fl₁ fl' : List Nat}
    (h : Rewritten L e f p va perm s fl g s₁ fl₁ s' fl') (hp : p < 1048576)
    (hperm : perm.toNat < 4096) :
    own s'.mem s'.envs =
      Function.update (Function.update (own s.mem s.envs) (.pde e (pdxIdx va)) (some g))
        (.pte e (pdxIdx va) (ptxIdx va)) (some p) := by
  have hw := h.walked
  have hwalk : own s₁.mem s₁.envs =
      Function.update (own s.mem s.envs) (.pde e (pdxIdx va)) (some g) :=
    Function.eq_update_iff.mpr ⟨hw.table, fun x hx => hw.other x hx⟩
  have hset := hw.inv.tables.own_setPte hw.table (ptxIdx va) (newPte p perm)
  rw [entryFrame_newPte hp hperm, ← h.mem, ← h.rest.envs] at hset
  rw [hset, h.rest.envs, hwalk]

theorem Rewritten.inserted {s₁ s' : Machine} {fl₁ fl' : List Nat}
    (h : Rewritten L e f p va perm s fl g s₁ fl₁ s' fl') (hp : p < 1048576)
    (hperm : perm.toNat < 4096) : Inserted e f p va perm s fl s' fl' := by
  have hw := h.walked
  have hown := hw.inv.tables.own_setPte hw.table (ptxIdx va) (newPte p perm)
  rw [entryFrame_newPte hp hperm, ← h.mem, ← h.rest.envs] at hown
  rw [h.rest.envs] at hown
  have hkept : ∀ q ∈ fl₁, q ∈ fl' := by
    intro q hq
    rcases h.free with ⟨rfl, -⟩ | ⟨r, -, rfl⟩
    · exact hq
    · exact mem_afterDecref.mpr (.inl hq)
  refine ⟨hw.pagesOnly.trans h.rest, ⟨g, ?_, ?_, hw.table_before, ?_, ?_⟩, ?_, ?_, ?_, ?_⟩
  · have hslot := congrFun hown (.pde e (pdxIdx va))
    rw [Function.update_of_ne (by simp)] at hslot
    rw [h.rest.envs]
    exact hslot.trans hw.table
  · rw [h.mem, Mem.setWord_same]
  · intro f' hf' hg'
    rw [h.mem, Mem.setWord_frame _ _ _ hg']
    exact hw.frame hf' hg'
  · intro q hq
    exact (hw.free_kept hq).imp_left (hkept q)
  · rw [h.rest.envs, hown, Function.update_self]
  · intro x hpde hpte
    rw [h.rest.envs, hown, Function.update_of_ne hpte]
    exact hw.other x hpde
  · intro q hq
    have hsame := hw.other (.pte e (pdxIdx va) (ptxIdx va)) (by simp)
    rcases h.free with ⟨rfl, -⟩ | ⟨r, hr, rfl⟩
    · exact .inl (hw.free_sub hq)
    · rcases mem_afterDecref.mp hq with hq | ⟨rfl, -⟩
      · exact .inl (hw.free_sub hq)
      · exact .inr (hsame.symm.trans hr)
  · have hlen : fl.length ≤ fl₁.length + 1 := by
      rcases hw.cases with ⟨-, rfl⟩ | ⟨-, rfl, -⟩
      · omega
      · simp
    have hlen' : fl₁.length ≤ fl'.length := by
      rcases h.free with ⟨rfl, -⟩ | ⟨r, -, rfl⟩
      · exact le_refl _
      · unfold Machine.afterDecref
        split <;> simp
    omega

/-- `page_insert` either finds no page for a page table, or writes the entry. -/
theorem KInv.pageInsert_rewritten (h : KInv L fl s) (hf : dirFrame s.envs e = some f)
    (hd : (pdxIdx va).val < userPdes) (hp : L.Managed p) (hfree : p ∉ fl)
    (hperm : perm.toNat < 4096) :
    (fl = [] ∧ pdeFrame s.mem s.envs e (pdxIdx va) = none ∧
      (pageInsert (kva f) p va perm).run s = .ok (-eNoMem, s)) ∨
    ∃ g s₁ fl₁ s' fl', (pageInsert (kva f) p va perm).run s = .ok (0, s') ∧
      Rewritten L e f p va perm s fl g s₁ fl₁ s' fl' ∧
      ((pteFrame s.mem s.envs e (pdxIdx va) (ptxIdx va) ≠ some p →
        (s.pages p).ppRef.toNat < 65535) → KInv L fl' s') := by
  have hp16 := h.good.lt hp
  rcases h.pgdirWalk hf hd with ⟨hnil, hnone, hrun⟩ | ⟨g, s₁, fl₁, hrun, hw⟩
  · exact .inl ⟨hnil, hnone, pageInsert_no_memory perm hrun⟩
  right
  have hinv := hw.inv
  have hgw := hinv.inWindow (hinv.pde_lt hw.table)
  have hpages := hw.pages_eq hfree
  have hfree₁ : p ∉ fl₁ := fun hmem => hfree (hw.free_sub hmem)
  have hv : entryFrame (newPte p perm) = some p := entryFrame_newPte (by omega) hperm
  have hpte := hw.other (.pte e (pdxIdx va) (ptxIdx va)) (by simp)
  simp only [own] at hpte
  have hdir : dirFrame s₁.envs e = some f := by
    rw [hw.pagesOnly.envs]
    exact hf
  rw [← hpte]
  cases hq : pteFrame s₁.mem s₁.envs e (pdxIdx va) (ptxIdx va) with
  | none =>
    have hentry := hq
    rw [pteFrame_of_pde hw.table, entryFrame_eq_none] at hentry
    refine ⟨g, s₁, fl₁, _, fl₁, pageInsert_new perm hrun hgw hentry, ?_, ?_⟩
    · refine ⟨hw, rfl, rfl, ?_, .inl ⟨rfl, ?_⟩⟩
      · intro q hqp _
        exact Function.update_of_ne hqp ..
      · intro q hsome
        rw [hq] at hsome
        cases hsome
    · intro hcnt
      have hcnt' : (s₁.pages p).ppRef.toNat < 65535 := by
        rw [hpages]
        exact hcnt (by simp)
      exact (hinv.mapped hw.table hq hv hp hfree₁ hcnt').1
  | some q =>
    have hentry := hq
    rw [pteFrame_of_pde hw.table, entryFrame_eq_some] at hentry
    obtain ⟨hpresent, hframe⟩ := hentry
    by_cases hqp : q = p
    · subst hqp
      refine ⟨g, s₁, fl₁, _, fl₁, pageInsert_same perm hrun hgw hpresent hframe, ?_, ?_⟩
      · refine ⟨hw, rfl, rfl, fun _ _ _ => rfl, .inl ⟨rfl, ?_⟩⟩
        intro r hr
        rw [hq] at hr
        exact (Option.some.inj hr).symm
      · intro _
        exact (hinv.remapped hw.table hq hv).1
    · have hq16 := hinv.pte_lt hq
      have hne : page2pa p ≠ pteAddr (s₁.mem g (ptxIdx va)) := by
        rw [pteAddr_eq_page2pa, hframe]
        intro heq
        exact hqp (page2pa_inj (by omega) (by omega) heq).symm
      obtain ⟨hinv₂, hown₂⟩ := hinv.unmapped hw.table hq
      have hgw₂ : InWindow (s₁.unmapped g q va) g := hgw
      have htable₂ : pdeFrame (s₁.unmapped g q va).mem (s₁.unmapped g q va).envs e
          (pdxIdx va) = some g := by
        have hslot := congrFun hown₂ (.pde e (pdxIdx va))
        rw [Function.update_of_ne (by simp)] at hslot
        exact hslot.trans hw.table
      have hnone₂ : pteFrame (s₁.unmapped g q va).mem (s₁.unmapped g q va).envs e
          (pdxIdx va) (ptxIdx va) = none := by
        have hslot := congrFun hown₂ (.pte e (pdxIdx va) (ptxIdx va))
        rw [Function.update_self] at hslot
        exact hslot
      have hother {r : Nat} (hr : r ≠ q) : (s₁.unmapped g q va).pages r = s₁.pages r := by
        simp [Machine.unmapped, hr]
      have hfree₂ : p ∉ s₁.afterDecref q fl₁ := by
        rw [mem_afterDecref]
        rintro (hmem | ⟨rfl, -⟩)
        · exact hfree₁ hmem
        · exact hqp rfl
      refine ⟨g, s₁, fl₁, _, s₁.afterDecref q fl₁, pageInsert_replace perm hrun hgw hpresent hne
        (hinv.pageRemove hdir hw.table hq) hgw₂, ?_, ?_⟩
      · refine ⟨hw, Mem.setWord_idem _ _ _ _ _, rfl, ?_, .inr ⟨q, hq, rfl⟩⟩
        intro r hrp hr
        rw [hq] at hr
        have hrq : r ≠ q := fun hrq => hr (hrq ▸ rfl)
        exact (Function.update_of_ne hrp ..).trans (hother hrq)
      · intro hcnt
        have hcnt₂ : ((s₁.unmapped g q va).pages p).ppRef.toNat < 65535 := by
          rw [hother (Ne.symm hqp), hpages]
          exact hcnt (by simpa using hqp)
        exact (hinv₂.mapped htable₂ hnone₂ hv hp hfree₂ hcnt₂).1

theorem KInv.pageInsert (h : KInv L fl s) (hf : dirFrame s.envs e = some f)
    (hd : (pdxIdx va).val < userPdes) (hp : L.Managed p) (hfree : p ∉ fl)
    (hperm : perm.toNat < 4096) :
    (fl = [] ∧ pdeFrame s.mem s.envs e (pdxIdx va) = none ∧
      (pageInsert (kva f) p va perm).run s = .ok (-eNoMem, s)) ∨
    ∃ s' fl', (pageInsert (kva f) p va perm).run s = .ok (0, s') ∧
      Inserted e f p va perm s fl s' fl' ∧
      ((pteFrame s.mem s.envs e (pdxIdx va) (ptxIdx va) ≠ some p →
        (s.pages p).ppRef.toNat < 65535) → KInv L fl' s') := by
  have hp16 := h.good.lt hp
  rcases h.pageInsert_rewritten hf hd hp hfree hperm with hnomem |
    ⟨g, s₁, fl₁, s', fl', hrun, hw, hinv⟩
  · exact .inl hnomem
  · exact .inr ⟨s', fl', hrun, hw.inserted (by omega) hperm, hinv⟩

end Jos
