import Jos.SandboxRuns

/-!
`check_page` passes on every three pages, and leaves them and `kern_pgdir` as they were.
-/

namespace Jos

namespace Sandbox

variable {s₀ : Machine} {kd : Nat} {pp : Fin 3 → Nat} {tail : List Nat}

/-- The free pages `free`, the counts of the three pages, where page 0 is a page table, and its
first two entries. -/
def pages (free : List (Fin 3)) (r₀ r₁ r₂ : UInt16) (dir : Option (Fin 1024))
    (e₀ e₁ : Option (Fin 3 × UInt32)) : Sandbox :=
  ⟨free, ![r₀, r₁, r₂], dir, ![e₀, e₁], fun _ => none⟩

/-- The operation gives the sandbox `b'`. -/
def gives (o : Option Sandbox) (b' : Sandbox) : Bool :=
  match o with
  | none => false
  | some b => decide (b.free = b'.free ∧ (∀ i, b.ref i = b'.ref i) ∧ b.dir = b'.dir ∧
      (∀ t, b.tab t = b'.tab t) ∧ ∀ i, b.word i = b'.word i)

theorem eq_of_gives {o : Option Sandbox} {b' : Sandbox} (h : gives o b' = true) : o = some b' := by
  unfold gives at h
  split at h
  · cases h
  · rename_i b
    obtain ⟨hfree, href, hdir, htab, hword⟩ := of_decide_eq_true h
    cases b
    cases b'
    simp only [Option.some.injEq, Sandbox.mk.injEq]
    exact ⟨hfree, funext href, hdir, funext htab, funext hword⟩

section Values

variable {b : Sandbox} {i : Fin 3} {t : Fin 2} {d : Fin 1024} {perm : UInt32}
  (hp : TestPages s₀ kd pp tail)

include hp

theorem pteAddr_pde (hdir : b.dir = some d) : pteAddr (b.pde pp d) = page2pa (pp 0) := by
  have hlt := lt_16 hp 0
  rw [Sandbox.pde, if_pos hdir, pteAddr_eq_page2pa, frameOf_entry (by omega) (by decide)]

theorem pde_user (hdir : b.dir = some d) : b.pde pp d &&& pteU ≠ 0 := by
  have hlt := lt_16 hp 0
  rw [Sandbox.pde, if_pos hdir, entry_and (by omega) (by decide)]
  decide

theorem newPte_and (bit : UInt32) (hbit : bit.toNat < 4096) :
    newPte (pp i) perm &&& bit = (perm ||| pteP) &&& bit := by
  have hlt := lt_16 hp i
  rw [newPte_eq, entry_and (by omega) hbit]

/-- The kernel address of the page table. -/
theorem runs_tableKva (hdir : b.dir = some d) :
    Runs s₀ kd pp tail (kaddr (pteAddr (b.pde pp d))) b (kva (pp 0)) b := by
  rw [pteAddr_pde hp hdir]
  exact runs_page2kva hp

/-- The entry that `pgdir_walk` finds. -/
theorem runs_walkPte (hdir : b.dir = some 0) :
    Runs s₀ kd pp tail (walkPte (testVa t)) b (b.entry t pp) b := by
  have hva := testVa_pdx t
  refine .bind (runs_kernPgdir hp)
    (.bind (runs_find hp (by rw [hva]; decide) (by rw [hva]; exact hdir) false) ?_)
  intro s hs
  refine ⟨s, ?_, hs⟩
  rw [loadPte, Option.getD_some, kload_wordPtr _ (hs.rest.inWindow (hp.window 0)), testVa_ptx,
    holds_entry hs (by simp [hdir])]

end Values

theorem runs_checkPageInsert (hp : TestPages s₀ kd pp []) :
    Runs s₀ kd pp [] (checkPageInsert (pp 0) (pp 1) (pp 2)) (pages [] 0 0 0 none none none) ()
      (pages [] 1 1 1 (some 0) (some (1, pteW)) (some (2, pteW))) := by
  unfold checkPageInsert
  refine .bind (runs_noPage rfl rfl) ?_
  refine .bind (runs_kernPgdir hp) (.bind (runs_noMapping hp (by decide) (by decide)) ?_)
  refine .bind (runs_check rfl) ?_
  refine .bind (runs_insertFails hp (by decide) (by decide) rfl rfl) ?_
  refine .bind (runs_free hp (eq_of_gives rfl : _ = some (pages [0] 0 0 0 none none none))) ?_
  refine .bind (runs_assertInsert hp (t := 0) (by decide)
    (eq_of_gives rfl : _ = some (pages [] 1 1 0 (some 0) (some (1, pteW)) none))) ?_
  refine .bind (runs_loadPde hp (d := 0) (by decide)) ?_
  refine .bind (runs_check (pteAddr_pde hp rfl)) ?_
  refine .bind (runs_assertVa2pa hp (t := 0) rfl) ?_
  refine .bind (runs_assertRef rfl) ?_
  refine .bind (runs_assertRef rfl) ?_
  refine .bind (runs_assertInsert hp (t := 1) (by decide)
    (eq_of_gives rfl : _ = some (pages [] 1 1 1 (some 0) (some (1, pteW)) (some (2, pteW))))) ?_
  refine .bind (runs_assertVa2pa hp (t := 1) rfl) ?_
  refine .bind (runs_assertRef rfl) ?_
  exact runs_noPage rfl rfl

theorem runs_checkPageReinsert (hp : TestPages s₀ kd pp []) :
    Runs s₀ kd pp [] (checkPageReinsert (pp 0) (pp 2))
      (pages [] 1 1 1 (some 0) (some (1, pteW)) (some (2, pteW))) ()
      (pages [] 1 1 1 (some 0) (some (1, pteW)) (some (2, pteW))) := by
  have hlt := lt_16 hp 0
  unfold checkPageReinsert
  refine .bind (runs_assertInsert hp (t := 1) (by decide)
    (eq_of_gives rfl : _ = some (pages [] 1 1 1 (some 0) (some (1, pteW)) (some (2, pteW))))) ?_
  refine .bind (runs_assertVa2pa hp (t := 1) rfl) ?_
  refine .bind (runs_assertRef rfl) ?_
  refine .bind (runs_noPage rfl rfl) ?_
  refine .bind (runs_loadPde hp (d := 0) (by decide)) ?_
  refine .bind (runs_tableKva hp rfl) ?_
  refine .bind (runs_kernPgdir hp) ?_
  refine .bind (runs_find hp (by decide : (pdxIdx pgsize).val < 2) (by decide) false) ?_
  refine .bind (runs_check (by rw [entryPtr_ptx hlt])) ?_
  refine .bind (runs_assertInsert hp (t := 1) (by decide) (eq_of_gives rfl :
    _ = some (pages [] 1 1 1 (some 0) (some (1, pteW)) (some (2, pteW ||| pteU))))) ?_
  refine .bind (runs_assertVa2pa hp (t := 1) rfl) ?_
  refine .bind (runs_assertRef rfl) ?_
  refine .bind (runs_walkPte hp (t := 1) rfl) ?_
  refine .bind (runs_check (ne_of_eq_of_ne (newPte_and hp pteU (by decide)) (by decide))) ?_
  refine .bind (runs_loadPde hp (d := 0) (by decide)) ?_
  refine .bind (runs_check (pde_user hp rfl)) ?_
  refine .bind (runs_assertInsert hp (t := 1) (by decide)
    (eq_of_gives rfl : _ = some (pages [] 1 1 1 (some 0) (some (1, pteW)) (some (2, pteW))))) ?_
  refine .bind (runs_walkPte hp (t := 1) rfl) ?_
  refine .bind (runs_check (ne_of_eq_of_ne (newPte_and hp pteW (by decide)) (by decide))) ?_
  refine .bind (runs_walkPte hp (t := 1) rfl) ?_
  refine .bind (runs_check ((newPte_and hp pteU (by decide)).trans (by decide))) ?_
  exact runs_insertFails hp (by decide) (by decide) rfl rfl

theorem runs_checkPageRemove (hp : TestPages s₀ kd pp []) :
    Runs s₀ kd pp [] (checkPageRemove (pp 1) (pp 2))
      (pages [] 1 1 1 (some 0) (some (1, pteW)) (some (2, pteW))) ()
      (pages [] 1 0 0 (some 0) none none) := by
  unfold checkPageRemove
  refine .bind (runs_assertInsert hp (t := 1) (by decide)
    (eq_of_gives rfl : _ = some (pages [2] 1 2 0 (some 0) (some (1, pteW)) (some (1, pteW))))) ?_
  refine .bind (runs_walkPte hp (t := 1) rfl) ?_
  refine .bind (runs_check ((newPte_and hp pteU (by decide)).trans (by decide))) ?_
  refine .bind (runs_assertVa2pa hp (t := 0) rfl) ?_
  refine .bind (runs_assertVa2pa hp (t := 1) rfl) ?_
  refine .bind (runs_assertRef rfl) ?_
  refine .bind (runs_assertRef rfl) ?_
  refine .bind (runs_alloc hp (i := 2)
    (eq_of_gives rfl : _ = some (pages [] 1 2 0 (some 0) (some (1, pteW)) (some (1, pteW))))) ?_
  refine .bind (runs_check rfl) ?_
  refine .bind (runs_kernPgdir hp) (.bind (runs_remove hp (t := 0)
    (eq_of_gives rfl : _ = some (pages [] 1 1 0 (some 0) none (some (1, pteW))))) ?_)
  refine .bind (runs_assertVa2pa hp (t := 0) rfl) ?_
  refine .bind (runs_assertVa2pa hp (t := 1) rfl) ?_
  refine .bind (runs_assertRef rfl) ?_
  refine .bind (runs_assertRef rfl) ?_
  refine .bind (runs_assertInsert hp (t := 1) (by decide)
    (eq_of_gives rfl : _ = some (pages [] 1 1 0 (some 0) none (some (1, 0))))) ?_
  refine .bind runs_refOf (.bind (runs_check (by decide)) ?_)
  refine .bind (.read fun s hs => hs.unlinked 1 (by decide)) (.bind (runs_check rfl) ?_)
  refine .bind (runs_kernPgdir hp) (.bind (runs_remove hp (t := 1)
    (eq_of_gives rfl : _ = some (pages [1] 1 0 0 (some 0) none none))) ?_)
  refine .bind (runs_assertVa2pa hp (t := 0) rfl) ?_
  refine .bind (runs_assertVa2pa hp (t := 1) rfl) ?_
  refine .bind (runs_assertRef rfl) ?_
  refine .bind (runs_assertRef rfl) ?_
  refine .bind (runs_alloc hp (i := 1)
    (eq_of_gives rfl : _ = some (pages [] 1 0 0 (some 0) none none))) ?_
  refine .bind (runs_check rfl) ?_
  exact runs_noPage rfl rfl

/-- A new page table is empty. -/
theorem runs_assertEmpty (hp : TestPages s₀ kd pp tail) (free : List (Fin 3)) (r₀ r₁ r₂ : UInt16)
    (d : Fin 1024) (text : String) :
    Runs s₀ kd pp tail (Prog.forRange 0 nptentries fun i => do
      kassert (¬ present (← kload (entryPtr (kva (pp 0)) (UInt32.ofNat i)))) text)
      (pages free r₀ r₁ r₂ (some d) none none) () (pages free r₀ r₁ r₂ (some d) none none) := by
  refine .forRange 0 _ fun i _ hi => ?_
  have hlt : i < 0 + 1024 := hi
  rw [Nat.zero_add] at hlt
  refine .bind (a := 0) ?_ (runs_check present_zero)
  intro s hs
  refine ⟨s, ?_, hs⟩
  have hzero : s.mem (pp 0) ⟨i, hlt⟩ = 0 := by
    rw [hs.table (by simp [pages])]
    split
    · rename_i h2
      have hi2 : i = 0 ∨ i = 1 := by
        change i < 2 at h2
        omega
      rcases hi2 with rfl | rfl <;> rfl
    · rfl
  have hptr := entryPtr_ofNat (lt_16 hp 0) ⟨i, hlt⟩
  rw [hptr, kload_wordPtr _ (hs.rest.inWindow (hp.window 0)), hzero]

theorem runs_checkPageWalk (hp : TestPages s₀ kd pp []) :
    Runs s₀ kd pp [] (checkPageWalk (pp 0)) (pages [] 1 0 0 (some 0) none none) ()
      (pages [] 0 0 0 none none none) := by
  have hlt := lt_16 hp 0
  unfold checkPageWalk
  refine .bind (runs_loadPde hp (d := 0) (by decide)) ?_
  refine .bind (runs_check (pteAddr_pde hp rfl)) ?_
  refine .bind (runs_clearPde hp (d := 0) (by decide) rfl
    (eq_of_gives rfl : _ = some (pages [] 1 0 0 none none none))) ?_
  refine .bind (runs_assertRef rfl) ?_
  refine .bind (runs_clearRef hp
    (eq_of_gives rfl : _ = some (pages [] 0 0 0 none none none))) ?_
  refine .bind (runs_free hp (eq_of_gives rfl : _ = some (pages [0] 0 0 0 none none none))) ?_
  refine .bind (runs_kernPgdir hp) (.bind (runs_walk hp (by decide)
    (eq_of_gives rfl : _ = some (pages [] 1 0 0 (some 1) none none))) ?_)
  refine .bind (runs_loadPde hp (d := 1) (by decide)) (.bind (runs_tableKva hp rfl) ?_)
  refine .bind (runs_check (by rw [entryPtr_ptx hlt])) ?_
  refine .bind (runs_clearPde hp (d := 1) (by decide) rfl
    (eq_of_gives rfl : _ = some (pages [] 1 0 0 none none none))) ?_
  refine .bind (runs_clearRef hp
    (eq_of_gives rfl : _ = some (pages [] 0 0 0 none none none))) ?_
  refine .bind (runs_page2kva hp) (.bind (runs_memset hp 0xFF (w := none) (fun _ => rfl)
    (fun v hv => by cases hv) (eq_of_gives rfl : _ = some (pages [] 0 0 0 none none none))) ?_)
  refine .bind (runs_free hp (eq_of_gives rfl : _ = some (pages [0] 0 0 0 none none none))) ?_
  refine .bind (runs_kernPgdir hp) (.bind (runs_walk hp (by decide)
    (eq_of_gives rfl : _ = some (pages [] 1 0 0 (some 0) none none))) ?_)
  refine .bind (runs_page2kva hp) ?_
  refine .bind (runs_assertEmpty hp [] 1 0 0 0 _) ?_
  refine .bind (runs_clearPde hp (d := 0) (by decide) rfl
    (eq_of_gives rfl : _ = some (pages [] 1 0 0 none none none))) ?_
  exact runs_clearRef hp (eq_of_gives rfl : _ = some (pages [] 0 0 0 none none none))

end Sandbox

end Jos
