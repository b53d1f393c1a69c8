import Jos.Access

/-!
What the functions of `kern/pmap.c` return and which state they leave, case by
case. A page directory is given by its frame `f`, a page table by its frame
`g`; everything else about the state is arbitrary.
-/

namespace Jos

namespace Machine

/-- The state after `page_alloc` took page `p` off the free list. -/
@[simps -fullyApplied]
def takePage (s : Machine) (p : Nat) : Machine :=
  { s with
    pageFreeList := (s.pages p).ppLink
    pages := Function.update s.pages p { ppLink := none, ppRef := 0 } }

/-- The state after `page_free` put page `p` on the free list. -/
@[simps -fullyApplied]
def putPage (s : Machine) (p : Nat) : Machine :=
  { s with
    pageFreeList := some p
    pages := Function.update s.pages p { s.pages p with ppLink := s.pageFreeList } }

@[simps -fullyApplied]
def setRef (s : Machine) (p : Nat) (r : UInt16) : Machine :=
  { s with pages := Function.update s.pages p { s.pages p with ppRef := r } }

def incref (s : Machine) (p : Nat) : Machine := s.setRef p ((s.pages p).ppRef + 1)

/-- The state after `page_decref`. -/
@[simps -fullyApplied]
def decref (s : Machine) (p : Nat) : Machine :=
  { s with
    pageFreeList := if (s.pages p).ppRef - 1 = 0 then some p else s.pageFreeList
    pages := Function.update s.pages p
      { ppLink := if (s.pages p).ppRef - 1 = 0 then s.pageFreeList else (s.pages p).ppLink
        ppRef := (s.pages p).ppRef - 1 } }

/-- The state after `pgdir_walk` put the new page table `g` into the entry for
`va` of the page directory `f`. -/
def newTable (s : Machine) (f g : Nat) (va : UInt32) : Machine :=
  (((s.takePage g).setMem (s.mem.zeroFrame g)).incref g).setMem
    ((s.mem.zeroFrame g).setWord f (pdxIdx va) (page2pa g ||| tableFlags))

@[simps -fullyApplied]
def flush (s : Machine) (va : UInt32) : Machine :=
  { s with tlb := Function.update s.tlb (vpn va) none }

end Machine

variable {s s' : Machine} {f g p : Nat} {va : UInt32}

theorem pageAlloc_none (allocFlags : UInt32) (h : s.pageFreeList = none) :
    (pageAlloc allocFlags).run s = .ok (none, s) := by
  simp [pageAlloc, h]

theorem pageAlloc_some (h : s.pageFreeList = some p) :
    (pageAlloc 0).run s = .ok (some p, s.takePage p) := by
  simp [pageAlloc, h, setPageFreeList, setPage, Machine.takePage]

theorem pageAlloc_zero_some (h : s.pageFreeList = some p) (hp : p < s.npages)
    (hw : InWindow s p) :
    (pageAlloc allocZero).run s =
      .ok (some p, (s.takePage p).setMem (s.mem.zeroFrame p)) := by
  have hlt := hw.lt
  have hflag : allocZero &&& allocZero ≠ 0 := by decide
  simp only [pageAlloc, Prog.run_read_bind, h, setPageFreeList, setPage,
    Prog.run_update_bind, if_pos hflag]
  rw [Prog.bind_of_ok (page2kva_eq (by exact hp) (by omega)),
    Prog.bind_of_ok (kmemset_page (by exact hw))]
  rfl

theorem pageFree_ok (href : (s.pages p).ppRef = 0) (hlink : (s.pages p).ppLink = none) :
    (pageFree p).run s = .ok ((), s.putPage p) := by
  simp [pageFree, href, hlink, setPageFreeList, setPage, Machine.putPage]

theorem pageDecref_ok (hlink : (s.pages p).ppRef - 1 = 0 → (s.pages p).ppLink = none) :
    (pageDecref p).run s = .ok ((), s.decref p) := by
  simp only [pageDecref, Prog.run_read_bind, setPage, Prog.run_update_bind, Prog.run_ite]
  by_cases hzero : (s.pages p).ppRef - 1 = 0
  · rw [if_pos hzero, pageFree_ok (by simp [hzero]) (by simp [hlink hzero])]
    simp [Machine.putPage, Machine.decref, hzero]
  · simp [Machine.decref, hzero]

theorem pgdirWalk_present (create : Bool) (hf : InWindow s f)
    (hpde : present (s.mem f (pdxIdx va))) (hg : frameOf (s.mem f (pdxIdx va)) = g)
    (hlt : g < s.npages) (hg16 : g < 65536) :
    (pgdirWalk (kva f) va create).run s = .ok (some (wordPtr g (ptxIdx va)), s) := by
  simp only [pgdirWalk, entryPtr_pdx hf.lt]
  rw [Prog.bind_of_ok (kload_wordPtr _ hf), if_pos hpde, pteAddr_eq_page2pa, hg,
    Prog.bind_of_ok (kaddr_page2pa hlt (by omega)), entryPtr_ptx hg16]
  rfl

theorem pgdirWalk_absent (hf : InWindow s f) (hpde : ¬ present (s.mem f (pdxIdx va))) :
    (pgdirWalk (kva f) va false).run s = .ok (none, s) := by
  simp only [pgdirWalk, entryPtr_pdx hf.lt]
  rw [Prog.bind_of_ok (kload_wordPtr _ hf), if_neg hpde]
  rfl

theorem pgdirWalk_no_memory (hf : InWindow s f) (hpde : ¬ present (s.mem f (pdxIdx va)))
    (hfree : s.pageFreeList = none) :
    (pgdirWalk (kva f) va true).run s = .ok (none, s) := by
  simp only [pgdirWalk, entryPtr_pdx hf.lt]
  rw [Prog.bind_of_ok (kload_wordPtr _ hf), if_neg hpde, if_pos trivial,
    Prog.bind_of_ok (pageAlloc_none _ hfree)]
  rfl

theorem pgdirWalk_create (hf : InWindow s f) (hpde : ¬ present (s.mem f (pdxIdx va)))
    (hfree : s.pageFreeList = some g) (hlt : g < s.npages) (hg : InWindow s g) :
    (pgdirWalk (kva f) va true).run s =
      .ok (some (wordPtr g (ptxIdx va)), s.newTable f g va) := by
  have hg16 := hg.lt
  simp only [pgdirWalk, entryPtr_pdx hf.lt]
  rw [Prog.bind_of_ok (kload_wordPtr _ hf), if_neg hpde, if_pos trivial,
    Prog.bind_of_ok (pageAlloc_zero_some hfree hlt hg)]
  simp only [Prog.run_read_bind, setPage, Prog.run_update_bind]
  rw [Prog.bind_of_ok (page2kva_eq (by exact hlt) (by omega)),
    Prog.bind_of_ok (paddr_kva hg16), Prog.bind_of_ok (kstore_wordPtr _ _ (by exact hf)),
    entryPtr_ptx hg16, UInt32.or_assoc, UInt32.or_assoc, ← UInt32.or_assoc pteP]
  simp [Machine.newTable, Machine.takePage, Machine.setMem, Machine.incref, Machine.setRef,
    tableFlags]

/-- The page table of `va` is there: its entry in the page directory `f` points
to the frame `g`. -/
structure TableAt (s : Machine) (f g : Nat) (va : UInt32) : Prop where
  dirWindow : InWindow s f
  tableWindow : InWindow s g
  pde : present (s.mem f (pdxIdx va))
  frame : frameOf (s.mem f (pdxIdx va)) = g
  lt : g < s.npages

theorem TableAt.walk (h : TableAt s f g va) (create : Bool) :
    (pgdirWalk (kva f) va create).run s = .ok (some (wordPtr g (ptxIdx va)), s) :=
  pgdirWalk_present create h.dirWindow h.pde h.frame h.lt h.tableWindow.lt

/-- `page_lookup` never tests whether the entry of `va` is present. -/
theorem pageLookup_table (h : TableAt s f g va)
    (hlt : frameOf (s.mem g (ptxIdx va)) < s.npages) :
    (pageLookup (kva f) va).run s =
      .ok (some (frameOf (s.mem g (ptxIdx va)), wordPtr g (ptxIdx va)), s) := by
  simp only [pageLookup]
  rw [Prog.bind_of_ok (h.walk false), Prog.bind_of_ok (kload_wordPtr _ h.tableWindow),
    pteAddr_eq_page2pa, Prog.bind_of_ok (pa2page_page2pa hlt (frameOf_lt _))]
  rfl

theorem pageLookup_absent (hf : InWindow s f) (hpde : ¬ present (s.mem f (pdxIdx va))) :
    (pageLookup (kva f) va).run s = .ok (none, s) := by
  simp only [pageLookup]
  rw [Prog.bind_of_ok (pgdirWalk_absent hf hpde)]
  rfl

/-- The state after `page_remove` of `va`, whose entry in the page table `g`
held the page `p`. -/
def Machine.unmapped (s : Machine) (g p : Nat) (va : UInt32) : Machine :=
  ((s.decref p).setMem (s.mem.setWord g (ptxIdx va) 0)).flush va

@[simp] theorem Machine.unmapped_npages (s : Machine) (g p : Nat) (va : UInt32) :
    (s.unmapped g p va).npages = s.npages := by
  simp [Machine.unmapped]

@[simp] theorem Machine.unmapped_cr3 (s : Machine) (g p : Nat) (va : UInt32) :
    (s.unmapped g p va).cr3 = s.cr3 := by
  simp [Machine.unmapped]

theorem pageRemove_table (h : TableAt s f g va) (hp : frameOf (s.mem g (ptxIdx va)) = p)
    (hlt : p < s.npages) (hlink : (s.pages p).ppRef - 1 = 0 → (s.pages p).ppLink = none) :
    (pageRemove (kva f) va).run s = .ok ((), s.unmapped g p va) := by
  simp only [pageRemove]
  rw [Prog.bind_of_ok (pageLookup_table h (by rw [hp]; exact hlt)), hp,
    Prog.bind_of_ok (pageDecref_ok hlink),
    Prog.bind_of_ok (kstore_wordPtr _ _ (by exact h.tableWindow))]
  rfl

theorem pageRemove_absent (hf : InWindow s f) (hpde : ¬ present (s.mem f (pdxIdx va))) :
    (pageRemove (kva f) va).run s = .ok ((), s) := by
  simp only [pageRemove]
  rw [Prog.bind_of_ok (pageLookup_absent hf hpde)]
  rfl

/-- The entry that `page_insert` writes. -/
def newPte (pp : Nat) (perm : UInt32) : UInt32 := page2pa pp ||| perm ||| pteP

theorem pageInsert_no_memory {pgdir : UInt32} (perm : UInt32)
    (hwalk : (pgdirWalk pgdir va true).run s = .ok (none, s')) :
    (pageInsert pgdir p va perm).run s = .ok (-eNoMem, s') := by
  simp only [pageInsert]
  rw [Prog.bind_of_ok hwalk]
  rfl

/-- The same page again: only the flags change, and the translation cached for
`va` is kept. -/
theorem pageInsert_same {pgdir : UInt32} (perm : UInt32)
    (hwalk : (pgdirWalk pgdir va true).run s = .ok (some (wordPtr g (ptxIdx va)), s'))
    (hg : InWindow s' g) (hpte : present (s'.mem g (ptxIdx va)))
    (hp : frameOf (s'.mem g (ptxIdx va)) = p) :
    (pageInsert pgdir p va perm).run s =
      .ok (0, s'.setMem (s'.mem.setWord g (ptxIdx va) (newPte p perm))) := by
  simp only [pageInsert]
  rw [Prog.bind_of_ok hwalk, Prog.bind_of_ok (kload_wordPtr _ hg),
    if_pos ⟨hpte, by rw [pteAddr_eq_page2pa, hp]⟩, Prog.bind_of_ok (kstore_wordPtr _ _ hg)]
  rfl

theorem pageInsert_new {pgdir : UInt32} (perm : UInt32)
    (hwalk : (pgdirWalk pgdir va true).run s = .ok (some (wordPtr g (ptxIdx va)), s'))
    (hg : InWindow s' g) (hpte : ¬ present (s'.mem g (ptxIdx va))) :
    (pageInsert pgdir p va perm).run s =
      .ok (0, (s'.setMem (s'.mem.setWord g (ptxIdx va) (newPte p perm))).incref p) := by
  simp only [pageInsert]
  rw [Prog.bind_of_ok hwalk, Prog.bind_of_ok (kload_wordPtr _ hg),
    if_neg (fun h => hpte h.1), if_neg hpte,
    Prog.bind_of_ok (kstore_wordPtr _ _ hg)]
  rfl

theorem pageInsert_replace {pgdir : UInt32} {s'' : Machine} (perm : UInt32)
    (hwalk : (pgdirWalk pgdir va true).run s = .ok (some (wordPtr g (ptxIdx va)), s'))
    (hg : InWindow s' g) (hpte : present (s'.mem g (ptxIdx va)))
    (hp : page2pa p ≠ pteAddr (s'.mem g (ptxIdx va)))
    (hremove : (pageRemove pgdir va).run s' = .ok ((), s'')) (hg'' : InWindow s'' g) :
    (pageInsert pgdir p va perm).run s =
      .ok (0, (s''.setMem (s''.mem.setWord g (ptxIdx va) (newPte p perm))).incref p) := by
  simp only [pageInsert]
  rw [Prog.bind_of_ok hwalk, Prog.bind_of_ok (kload_wordPtr _ hg),
    if_neg (fun h => hp h.2), if_pos hpte, Prog.bind_of_ok hremove,
    Prog.bind_of_ok (kstore_wordPtr _ _ hg'')]
  rfl

end Jos
