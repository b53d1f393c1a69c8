import Jos.PmapRun

/-!
Every way a page table function can return. Nothing is assumed of the page
tables: where an entry points outside memory the function panics instead.
-/

namespace Jos

variable {s s' : Machine} {f g p : Nat} {va : UInt32}

/-- A page directory other than that of `entry.S` is loaded, all of memory lies
in the kernel window, and the free list names pages of the machine. -/
structure Running (s : Machine) : Prop where
  cr3 : ∃ pa, s.cr3 = .pgdir pa
  npages : s.npages ≤ 65536
  head : ∀ p, s.pageFreeList = some p → p < s.npages
  link : ∀ p q, (s.pages p).ppLink = some q → q < s.npages

namespace Running

theorem inWindow (h : Running s) (hf : f < 65536) : InWindow s f := by
  obtain ⟨pa, hpa⟩ := h.cr3
  exact inWindow_of_pgdir hpa hf

theorem takePage (h : Running s) (p : Nat) : Running (s.takePage p) where
  cr3 := h.cr3
  npages := h.npages
  head := fun q hq => h.link p q hq
  link := by
    intro r q hq
    by_cases hrp : r = p
    · subst hrp
      simp at hq
    · simp only [Machine.takePage_pages, Function.update_of_ne hrp] at hq
      exact h.link r q hq

theorem setRef (h : Running s) (p : Nat) (r : UInt16) : Running (s.setRef p r) where
  cr3 := h.cr3
  npages := h.npages
  head := h.head
  link := by
    intro q q' hq
    by_cases hqp : q = p
    · subst hqp
      simp only [Machine.setRef_pages, Function.update_self] at hq
      exact h.link q q' hq
    · simp only [Machine.setRef_pages, Function.update_of_ne hqp] at hq
      exact h.link q q' hq

theorem decref (h : Running s) (hp : p < s.npages) : Running (s.decref p) where
  cr3 := h.cr3
  npages := h.npages
  head := by
    intro q hq
    simp only [Machine.decref_pageFreeList] at hq
    split at hq
    · cases hq
      exact hp
    · exact h.head q hq
  link := by
    intro q q' hq
    by_cases hqp : q = p
    · subst hqp
      simp only [Machine.decref_pages, Function.update_self] at hq
      split at hq
      · exact h.head q' hq
      · exact h.link q q' hq
    · simp only [Machine.decref_pages, Function.update_of_ne hqp] at hq
      exact h.link q q' hq

theorem setMem (h : Running s) (m : Mem) : Running (s.setMem m) :=
  ⟨h.cr3, h.npages, h.head, h.link⟩

theorem flush (h : Running s) (va : UInt32) : Running (s.flush va) :=
  ⟨h.cr3, h.npages, h.head, h.link⟩

theorem newTable (h : Running s) (f g : Nat) (va : UInt32) : Running (s.newTable f g va) :=
  (((h.takePage g).setMem _).setRef g _).setMem _

theorem unmapped (h : Running s) (g : Nat) (va : UInt32) (hp : p < s.npages) :
    Running (s.unmapped g p va) :=
  ((h.decref hp).setMem _).flush va

end Running

theorem kaddr_panic (hlt : f < 1048576) (hf : ¬ f < s.npages) :
    (kaddr (page2pa f)).run s = .error (.panic "KADDR called with invalid pa %08lx") := by
  rw [kaddr, Prog.run_read_bind, pgnum_page2pa hlt, if_pos (by omega)]
  rfl

theorem pa2page_panic (hlt : f < 1048576) (hf : ¬ f < s.npages) :
    (pa2page (page2pa f)).run s = .error (.panic "pa2page called with invalid pa") := by
  rw [pa2page, Prog.run_read_bind, pgnum_page2pa hlt, if_pos (by omega)]
  rfl

theorem pgdirWalk_cases {create : Bool} {r : Option UInt32} (h : Running s) (hf : f < 65536)
    (hrun : (pgdirWalk (kva f) va create).run s = .ok (r, s')) :
    (∃ g, TableAt s f g va ∧ r = some (wordPtr g (ptxIdx va)) ∧ s' = s) ∨
    (¬ present (s.mem f (pdxIdx va)) ∧ r = none ∧ s' = s) ∨
    ∃ g, create = true ∧ ¬ present (s.mem f (pdxIdx va)) ∧ s.pageFreeList = some g ∧
      g < s.npages ∧ r = some (wordPtr g (ptxIdx va)) ∧ s' = s.newTable f g va := by
  have hfw := h.inWindow hf
  have hn := h.npages
  by_cases hpde : present (s.mem f (pdxIdx va))
  · left
    by_cases hlt : frameOf (s.mem f (pdxIdx va)) < s.npages
    · have hg16 : frameOf (s.mem f (pdxIdx va)) < 65536 := by omega
      have htable : TableAt s f _ va := ⟨hfw, h.inWindow hg16, hpde, rfl, hlt⟩
      rw [htable.walk create] at hrun
      cases hrun
      exact ⟨_, htable, rfl, rfl⟩
    · simp only [pgdirWalk, entryPtr_pdx hfw.lt] at hrun
      rw [Prog.bind_of_ok (kload_wordPtr _ hfw), if_pos hpde, pteAddr_eq_page2pa,
        Prog.bind_of_error (kaddr_panic (frameOf_lt _) hlt)] at hrun
      cases hrun
  · right
    cases create with
    | false =>
      rw [pgdirWalk_absent hfw hpde] at hrun
      cases hrun
      exact .inl ⟨hpde, rfl, rfl⟩
    | true =>
      cases hfree : s.pageFreeList with
      | none =>
        rw [pgdirWalk_no_memory hfw hpde hfree] at hrun
        cases hrun
        exact .inl ⟨hpde, rfl, rfl⟩
      | some g =>
        have hg := h.head g hfree
        rw [pgdirWalk_create hfw hpde hfree hg (h.inWindow (by omega))] at hrun
        cases hrun
        exact .inr ⟨g, rfl, hpde, rfl, hg, rfl, rfl⟩

theorem pageDecref_cases {r : Unit} (hrun : (pageDecref p).run s = .ok (r, s')) :
    ((s.pages p).ppRef - 1 = 0 → (s.pages p).ppLink = none) ∧ s' = s.decref p := by
  have hlink : (s.pages p).ppRef - 1 = 0 → (s.pages p).ppLink = none := by
    intro hzero
    by_contra hne
    simp only [pageDecref, Prog.run_read_bind, setPage, Prog.run_update_bind, if_pos hzero,
      pageFree, Function.update_self] at hrun
    rw [if_pos (.inr hne)] at hrun
    cases hrun
  rw [pageDecref_ok hlink] at hrun
  cases hrun
  exact ⟨hlink, rfl⟩

theorem pageRemove_cases (h : Running s) (hf : f < 65536)
    (hrun : (pageRemove (kva f) va).run s = .ok ((), s')) :
    (¬ present (s.mem f (pdxIdx va)) ∧ s' = s) ∨
    ∃ g p, TableAt s f g va ∧ frameOf (s.mem g (ptxIdx va)) = p ∧ p < s.npages ∧
      s' = s.unmapped g p va := by
  have hfw := h.inWindow hf
  by_cases hpde : present (s.mem f (pdxIdx va))
  · right
    obtain ⟨found, t, hlookup, hrest⟩ := Prog.bind_eq_ok.mp hrun
    obtain ⟨walked, t', hwalk, hload⟩ := Prog.bind_eq_ok.mp hlookup
    rcases pgdirWalk_cases h hf hwalk with ⟨g, htable, rfl, rfl⟩ | ⟨habsent, -⟩ |
      ⟨_, hcreate, -⟩
    · by_cases hlt : frameOf (t'.mem g (ptxIdx va)) < t'.npages
      · rw [pageLookup_table htable hlt] at hlookup
        cases hlookup
        obtain ⟨⟨⟩, t'', hdecref, hclear⟩ := Prog.bind_eq_ok.mp hrest
        have hlink := (pageDecref_cases hdecref).1
        rw [pageRemove_table htable rfl hlt hlink] at hrun
        cases hrun
        exact ⟨g, _, htable, rfl, hlt, rfl⟩
      · simp only at hload
        rw [Prog.bind_of_ok (kload_wordPtr _ htable.tableWindow), pteAddr_eq_page2pa,
          Prog.bind_of_error (pa2page_panic (frameOf_lt _) hlt)] at hload
        cases hload
    · exact absurd hpde habsent
    · cases hcreate
  · rw [pageRemove_absent hfw hpde] at hrun
    cases hrun
    exact .inl ⟨hpde, rfl⟩

/-- The state in which `pgdir_walk` found or created the page table `g`. -/
theorem tableAt_newTable (h : Running s) (hf : f < 65536) (hg : g < s.npages) :
    TableAt (s.newTable f g va) f g va := by
  have hn := h.npages
  have hentry : (s.newTable f g va).mem f (pdxIdx va) = page2pa g ||| tableFlags :=
    Mem.setWord_same _ _ _ _
  refine ⟨(h.newTable f g va).inWindow hf, (h.newTable f g va).inWindow (by omega), ?_, ?_, hg⟩
  · rw [hentry, present_entry (by omega)]
    decide
  · rw [hentry]
    exact frameOf_entry (by omega) (by decide)

/-- After the walk `page_insert` writes the entry of `va` in one of three ways. -/
inductive EntryWritten (f g p : Nat) (va perm : UInt32) (s : Machine) : Machine → Prop
  | same (hpte : present (s.mem g (ptxIdx va))) (hframe : frameOf (s.mem g (ptxIdx va)) = p) :
      EntryWritten f g p va perm s (s.setMem (s.mem.setWord g (ptxIdx va) (newPte p perm)))
  | new (hpte : ¬ present (s.mem g (ptxIdx va))) :
      EntryWritten f g p va perm s
        ((s.setMem (s.mem.setWord g (ptxIdx va) (newPte p perm))).incref p)
  | replace {q : Nat} (hpte : present (s.mem g (ptxIdx va)))
      (hframe : frameOf (s.mem g (ptxIdx va)) = q) (hqp : q ≠ p) (hq : q < s.npages) :
      EntryWritten f g p va perm s
        (((s.unmapped g q va).setMem
          ((s.unmapped g q va).mem.setWord g (ptxIdx va) (newPte p perm))).incref p)

theorem pageInsert_cases {perm : UInt32} {r : Int} (h : Running s) (hf : f < 65536)
    (hp : p < s.npages) (hrun : (pageInsert (kva f) p va perm).run s = .ok (r, s')) :
    s' = s ∨
    ∃ g s₁, TableAt s₁ f g va ∧ EntryWritten f g p va perm s₁ s' ∧
      (s₁ = s ∨ (¬ present (s.mem f (pdxIdx va)) ∧ s.pageFreeList = some g ∧ g < s.npages ∧
        s₁ = s.newTable f g va)) := by
  have hn := h.npages
  have hwritten {g : Nat} {s₁ : Machine} (h₁ : Running s₁) (htable : TableAt s₁ f g va)
      (hwalk : (pgdirWalk (kva f) va true).run s = .ok (some (wordPtr g (ptxIdx va)), s₁)) :
      EntryWritten f g p va perm s₁ s' := by
    have hgw := htable.tableWindow
    by_cases hpte : present (s₁.mem g (ptxIdx va))
    · by_cases hframe : frameOf (s₁.mem g (ptxIdx va)) = p
      · rw [pageInsert_same perm hwalk hgw hpte hframe] at hrun
        cases hrun
        exact .same hpte hframe
      · have hne : page2pa p ≠ pteAddr (s₁.mem g (ptxIdx va)) := by
          rw [pteAddr_eq_page2pa]
          intro heq
          exact hframe (page2pa_inj (by omega) (frameOf_lt _) heq).symm
        have hrun' := hrun
        simp only [pageInsert] at hrun'
        rw [Prog.bind_of_ok hwalk] at hrun'
        simp only at hrun'
        rw [Prog.bind_of_ok (kload_wordPtr _ hgw), if_neg (fun hsame => hne hsame.2),
          if_pos hpte] at hrun'
        obtain ⟨⟨⟩, s₂, hremove, -⟩ := Prog.bind_eq_ok.mp hrun'
        rcases pageRemove_cases h₁ hf hremove with ⟨habsent, -⟩ | ⟨g', q, htable', hq, hlt, rfl⟩
        · exact absurd htable.pde habsent
        · have hgg : g' = g := htable'.frame.symm.trans htable.frame
          subst hgg
          rw [pageInsert_replace perm hwalk hgw hpte hne hremove (by exact hgw)] at hrun
          cases hrun
          exact .replace hpte hq (by rw [← hq]; exact hframe) hlt
    · rw [pageInsert_new perm hwalk hgw hpte] at hrun
      cases hrun
      exact .new hpte
  obtain ⟨walked, t, hwalk, -⟩ := Prog.bind_eq_ok.mp hrun
  rcases pgdirWalk_cases h hf hwalk with ⟨g, htable, rfl, rfl⟩ | ⟨habsent, rfl, rfl⟩ |
    ⟨g, -, habsent, hfree, hg, rfl, rfl⟩
  · exact .inr ⟨g, _, htable, hwritten h htable hwalk, .inl rfl⟩
  · rw [pageInsert_no_memory perm hwalk] at hrun
    cases hrun
    exact .inl rfl
  · have htable : TableAt (s.newTable f g va) f g va := tableAt_newTable h hf hg
    exact .inr ⟨g, _, htable, hwritten (h.newTable f g va) htable hwalk,
      .inr ⟨habsent, hfree, hg, rfl⟩⟩

end Jos
