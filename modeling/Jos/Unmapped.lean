import Jos.Boot
import Jos.PmapRun

/-!
`page_lookup` and `page_remove` on addresses that nothing maps. An address is
unmapped when its page table is absent or when its entry in the page table is
not present. The two functions only treat the first case as unmapped: they
never test `PTE_P` of the entry itself.
-/

namespace Jos

variable {s s' : Machine} {f : Nat} {va : UInt32}

/-- No present entry maps `va` in the page directory in frame `f`. -/
def Unmapped (s : Machine) (f : Nat) (va : UInt32) : Prop :=
  ¬ (present (s.mem f (pdxIdx va)) ∧
    present (s.mem (frameOf (s.mem f (pdxIdx va))) (ptxIdx va)))

instance (s : Machine) (f : Nat) (va : UInt32) : Decidable (Unmapped s f va) :=
  inferInstanceAs (Decidable (¬ (_ ∧ _)))

def TableAbsent (s : Machine) (f : Nat) (va : UInt32) : Prop :=
  ¬ present (s.mem f (pdxIdx va))

instance (s : Machine) (f : Nat) (va : UInt32) : Decidable (TableAbsent s f va) :=
  inferInstanceAs (Decidable (¬ present _))

/-- `page_lookup` finds nothing at `va`, and `page_remove` returns with every
page record, the free list and all of memory as they were. -/
structure Undisturbed (s : Machine) (f : Nat) (va : UInt32) : Prop where
  lookup : (pageLookup (kva f) va).run s = .ok (none, s)
  remove : ∃ s', (pageRemove (kva f) va).run s = .ok ((), s') ∧
    s'.pages = s.pages ∧ s'.pageFreeList = s.pageFreeList ∧ s'.mem = s.mem

/-- Once the page table is there, `pgdir_walk` never returns `NULL`. -/
theorem pgdirWalk_table_ne_none {r : Option UInt32} (hf : InWindow s f)
    (hpde : present (s.mem f (pdxIdx va)))
    (hrun : (pgdirWalk (kva f) va false).run s = .ok (r, s')) : r ≠ none := by
  simp only [pgdirWalk, entryPtr_pdx hf.lt] at hrun
  rw [Prog.bind_of_ok (kload_wordPtr _ hf), if_pos hpde] at hrun
  obtain ⟨pgtab, t, -, hret⟩ := Prog.bind_eq_ok.mp hrun
  cases hret
  simp

/-- Once the page table is there, `page_lookup` never returns `NULL`. -/
theorem pageLookup_table_ne_none {r : Option (Nat × UInt32)} (hf : InWindow s f)
    (hpde : present (s.mem f (pdxIdx va)))
    (hrun : (pageLookup (kva f) va).run s = .ok (r, s')) : r ≠ none := by
  obtain ⟨walked, t, hwalk, hrest⟩ := Prog.bind_eq_ok.mp hrun
  cases walked with
  | none => exact absurd rfl (pgdirWalk_table_ne_none hf hpde hwalk)
  | some pgtab =>
    obtain ⟨pte, t', -, hpage⟩ := Prog.bind_eq_ok.mp hrest
    obtain ⟨pp, t'', -, hret⟩ := Prog.bind_eq_ok.mp hpage
    cases hret
    simp

theorem undisturbed_of_tableAbsent (hf : InWindow s f) (habsent : TableAbsent s f va) :
    Undisturbed s f va where
  lookup := pageLookup_absent hf habsent
  remove := ⟨s, pageRemove_absent hf habsent, rfl, rfl, rfl⟩

/-- An unmapped address is left alone exactly when its page table is absent. -/
theorem undisturbed_iff_tableAbsent (s : Machine) (f : Nat) (va : UInt32)
    (hf : InWindow s f) (_hva : Unmapped s f va) :
    Undisturbed s f va ↔ TableAbsent s f va := by
  constructor
  · intro h hpde
    exact pageLookup_table_ne_none hf hpde h.lookup rfl
  · exact undisturbed_of_tableAbsent hf

/-- The kernel image of the sample states: `end` is the value that the comment
of `boot_alloc` gives. -/
def sampleImage : Image where
  kend := 0xF0117BA0
  bootstack := 0xF010E000
  kend_gt := by decide
  bootstack_aligned := by decide
  bootstack_ge := by decide
  bootstack_le := by decide

/-- Page directory in frame 300 with an empty page table in frame 301 behind
entry 0; page 0 is in use, as `page_init` leaves it. -/
def emptyTable : Machine :=
  { Machine.atEntry sampleImage (fun _ => 0)
      (Mem.setWord (fun _ _ => 0) 300 (pdxIdx 0) 0x12D007) with
    npages := 1024
    cr3 := .pgdir 0x12C000
    pages := fun p => { ppLink := none, ppRef := if p = 0 then 1 else 0 } }

theorem emptyTable_tableAt : TableAt emptyTable 300 301 0 where
  dirWindow := by decide
  tableWindow := by decide
  pde := by decide
  frame := by decide
  lt := by decide

/-- In the empty page table `page_lookup` finds page 0 at address 0, and
`page_remove` puts page 0 on the free list. -/
theorem emptyTable_disturbed :
    InWindow emptyTable 300 ∧ Unmapped emptyTable 300 0 ∧ ¬ Undisturbed emptyTable 300 0 ∧
      ∃ s', (pageRemove (kva 300) 0).run emptyTable = .ok ((), s') ∧
        s'.pageFreeList = some 0 := by
  refine ⟨by decide, by decide, ?_, _, pageRemove_table emptyTable_tableAt (p := 0) (by decide)
    (by decide) (by decide), rfl⟩
  intro h
  exact pageLookup_table_ne_none emptyTable_tableAt.dirWindow emptyTable_tableAt.pde h.lookup rfl

/-- Addresses whose page table is absent are left alone, here the second 4 MB. -/
theorem emptyTable_undisturbed : Undisturbed emptyTable 300 0x400000 :=
  (undisturbed_iff_tableAbsent emptyTable 300 0x400000 (by decide) (by decide)).mpr (by decide)

end Jos
