import Jos.Lib.Simulation
import Jos.Sandbox
import Jos.SelfTest

/-!
The functions of `kern/pmap.c` and the assertions of the self-tests, as steps of the sandbox.
-/

namespace Jos

/-- The addresses at which the self-tests map pages. -/
def testVa (t : Fin 2) : UInt32 := if t = 0 then 0 else pgsize

theorem testVa_pdx (t : Fin 2) : pdxIdx (testVa t) = 0 := by
  fin_cases t <;> rfl

theorem testVa_ptx (t : Fin 2) : ptxIdx (testVa t) = Sandbox.idx t := by
  fin_cases t <;> rfl

namespace Sandbox

attribute [local instance] neZero_pages neZero_entries

/-- The program `x` takes the sandbox from `b` to `b'` and returns `a`. -/
abbrev Runs (s₀ : Machine) (kd : Nat) (pp : Fin 3 → Nat) (tail : List Nat) {α : Type}
    (x : Kern α) : Sandbox → α → Sandbox → Prop :=
  Prog.Simulates (Holds s₀ kd pp tail) x

/-- What `check_va2pa` finds at the address of the entry `t`. -/
def pa (b : Sandbox) (pp : Fin 3 → Nat) (t : Fin 2) : UInt32 :=
  if b.dir = some 0 then
    match b.tab t with
    | some (j, _) => page2pa (pp j)
    | none => ~~~0
  else ~~~0

/-- What is in the entry `d` of `kern_pgdir`, one of the first two. -/
def pde (b : Sandbox) (pp : Fin 3 → Nat) (d : Fin 1024) : UInt32 :=
  if b.dir = some d then page2pa (pp 0) ||| tableFlags else 0

variable {s₀ : Machine} {kd : Nat} {pp : Fin 3 → Nat} {tail : List Nat} {b b' : Sandbox}
  {i : Fin 3} {t : Fin 2} {perm va : UInt32} {text : String}

theorem runs_check {c : Prop} [Decidable c] (hc : c) :
    Runs s₀ kd pp tail (kassert (decide c) text) b () b := by
  intro s hs
  exact ⟨s, kassert_run hc text s, hs⟩

section Steps

variable (hp : TestPages s₀ kd pp tail)

include hp

theorem lt_16 (i : Fin 3) : pp i < 65536 := (hp.window i).lt

theorem runs_kernPgdir : Runs s₀ kd pp tail (Prog.read (·.kernPgdir)) b (kva kd) b :=
  .read fun _ hs => hs.rest.kernPgdir.trans hp.kernPgdir

theorem runs_page2kva : Runs s₀ kd pp tail (page2kva (pp i)) b (kva (pp i)) b := by
  intro s hs
  have hlt := lt_16 hp i
  exact ⟨s, page2kva_eq (hs.lt hp i) (by omega), hs⟩

theorem runs_alloc (hb : b.take i = some b') :
    Runs s₀ kd pp tail (pageAlloc 0) b (some (pp i)) b' := by
  intro s hs
  obtain ⟨hhead, hs'⟩ := hs.takePage hp hb
  exact ⟨_, pageAlloc_some hhead, hs'⟩

theorem runs_free (hb : b.put i = some b') :
    Runs s₀ kd pp tail (pageFree (pp i)) b () b' := by
  intro s hs
  refine ⟨_, pageFree_ok ?_ ?_, hs.putPage hp hb⟩
  all_goals
    unfold Sandbox.put at hb
    split at hb
  · rename_i hok
    rw [hs.ref]
    exact hok.1
  · cases hb
  · rename_i hok
    exact hs.unlinked i hok.2
  · cases hb

omit hp in
theorem runs_refOf : Runs s₀ kd pp tail (refOf (pp i)) b (b.ref i) b :=
  .read fun _ hs => hs.ref i

omit hp in
theorem runs_assertRef {r : UInt16} (hr : b.ref i = r) :
    Runs s₀ kd pp tail (assertRef (pp i) r text) b () b :=
  runs_refOf.bind (runs_check hr)

theorem runs_clearRef (hb : some (b.setRef i 0) = some b') :
    Runs s₀ kd pp tail (clearRef (pp i)) b () b' := by
  intro s hs
  rw [← Option.some.inj hb]
  exact ⟨_, rfl, hs.setRef hp i 0⟩

/-- `memset` of a whole page that is no page table. -/
theorem runs_memset (c : UInt8) {w : Option UInt32} (hdir : i = 0 → b.dir = none)
    (hw : ∀ v, w = some v → v = wordOf fun _ => c)
    (hb : some { b with word := Function.update b.word i w } = some b') :
    Runs s₀ kd pp tail (kmemset (kva (pp i)) c pgsize.toNat) b () b' := by
  intro s hs
  have hsize : pgsize.toNat = 4096 := rfl
  have hwin := hs.rest.inWindow (hp.window i)
  have hfit : pp i * 4096 + 4096 ≤ s.window := by
    unfold InWindow at hwin
    omega
  refine ⟨s.setMem (s.mem.fill (pp i * 4096) 4096 c), ?_, ?_⟩
  · simp only [kmemset, Prog.run_read_bind, id, hsize, kernPa_kva true hwin]
    simp [hfit]
  · rw [← Option.some.inj hb]
    refine hs.setPage hp hdir (fun g hg => Mem.fill_frame _ c le_rfl hg) fun v hv => ?_
    rw [Mem.fill_whole, hw v hv]

theorem holds_pde {s : Machine} (hs : Holds s₀ kd pp tail b s) {d : Fin 1024} (hd : d.val < 2) :
    s.mem kd d = b.pde pp d := by
  rw [hs.dir, pde, hp.empty d hd]

theorem entryFrame_pde {d : Fin 1024} :
    entryFrame (b.pde pp d) = if b.dir = some d then some (pp 0) else none := by
  have hlt := lt_16 hp 0
  unfold pde
  split
  · exact entryFrame_eq_some.mpr
      ⟨(present_entry (by omega)).mpr (by decide), frameOf_entry (by omega) (by decide)⟩
  · exact entryFrame_zero

/-- The page table is there. -/
theorem tableAt {s : Machine} (hs : Holds s₀ kd pp tail b s) (hva : (pdxIdx va).val < 2)
    (hdir : b.dir = some (pdxIdx va)) : TableAt s kd (pp 0) va := by
  have hframe := entryFrame_pde (b := b) hp (d := pdxIdx va)
  rw [if_pos hdir, ← holds_pde hp hs hva] at hframe
  obtain ⟨hpresent, hframe⟩ := entryFrame_eq_some.mp hframe
  exact ⟨hs.rest.inWindow hp.dirWindow, hs.rest.inWindow (hp.window 0), hpresent, hframe,
    hs.lt hp 0⟩

/-- The page table is not there. -/
theorem not_present {s : Machine} (hs : Holds s₀ kd pp tail b s) (hva : (pdxIdx va).val < 2)
    (hdir : b.dir ≠ some (pdxIdx va)) : ¬ present (s.mem kd (pdxIdx va)) := by
  rw [holds_pde hp hs hva, pde, if_neg hdir]
  exact present_zero

theorem runs_loadPde {d : Fin 1024} (hd : d.val < 2) :
    Runs s₀ kd pp tail (loadPde (UInt32.ofNat d.val)) b (b.pde pp d) b := by
  intro s hs
  have hkern := hs.rest.kernPgdir.trans hp.kernPgdir
  have hwin := hs.rest.inWindow hp.dirWindow
  refine ⟨s, ?_, hs⟩
  rw [loadPde, Prog.run_read_bind, hkern, entryPtr_ofNat hwin.lt, kload_wordPtr _ hwin,
    holds_pde hp hs hd]

theorem runs_clearPde {d : Fin 1024} (hd : d.val < 2) (hdir : b.dir = some d)
    (hb : some { b with dir := none } = some b') :
    Runs s₀ kd pp tail (clearPde (UInt32.ofNat d.val)) b () b' := by
  intro s hs
  have hkern := hs.rest.kernPgdir.trans hp.kernPgdir
  have hwin := hs.rest.inWindow hp.dirWindow
  refine ⟨_, ?_, Option.some.inj hb ▸ hs.clearDir hp hdir hd⟩
  rw [clearPde, Prog.run_read_bind, hkern, entryPtr_ofNat hwin.lt, kstore_wordPtr _ _ hwin]

/-- `pgdir_walk` that may create the page table. -/
theorem runs_walk (hva : (pdxIdx va).val < 2) (hb : b.walk (pdxIdx va) = some b') :
    Runs s₀ kd pp tail (pgdirWalk (kva kd) va true) b (some (wordPtr (pp 0) (ptxIdx va))) b' := by
  intro s hs
  have hwin := hs.rest.inWindow hp.dirWindow
  cases hdir : b.dir with
  | some d =>
    simp only [Sandbox.walk, hdir] at hb
    split at hb
    · rename_i hd
      obtain rfl := Option.some.inj hb
      exact ⟨s, (tableAt hp hs hva (hd ▸ hdir)).walk true, hs⟩
    · cases hb
  | none =>
    simp only [Sandbox.walk, hdir] at hb
    split at hb
    · cases hb
    · rename_i i l hfree
      split at hb
      · rename_i hi
        subst hi
        have hchain := hs.chain
        rw [hfree] at hchain
        have htake : b.take 0 = some { b with free := l, ref := Function.update b.ref 0 0 } := by
          simp [Sandbox.take, hfree]
        have hzero (j : Fin 1024) : s.mem.zeroFrame (pp 0) (pp 0) j = 0 := Mem.zeroFrame_same ..
        have hcleared := (hs.takePage hp htake).2.setPage hp (m := s.mem.zeroFrame (pp 0))
          (w := none) (fun _ => hdir) (fun g hg => Mem.zeroFrame_frame _ hg)
          (fun v hv => by cases hv)
        have hstate := (hcleared.setRef hp 0 1).setDir hp (d := pdxIdx va) hdir hzero
        have href : ((s.takePage (pp 0)).pages (pp 0)).ppRef + 1 = 1 := by simp
        obtain rfl := Option.some.inj hb
        refine ⟨s.newTable kd (pp 0) va, pgdirWalk_create hwin ?_ hchain.1 (hs.lt hp 0)
          (hs.rest.inWindow (hp.window 0)), ?_⟩
        · exact not_present hp hs hva (by simp [hdir])
        · simp only [Sandbox.setRef, Function.update_idem] at hstate
          unfold Machine.newTable Machine.incref
          rw [Machine.setMem_pages, href]
          exact hstate
      · cases hb

/-- `pgdir_walk` that finds the page table. -/
theorem runs_find (hva : (pdxIdx va).val < 2) (hdir : b.dir = some (pdxIdx va)) (create : Bool) :
    Runs s₀ kd pp tail (pgdirWalk (kva kd) va create) b (some (wordPtr (pp 0) (ptxIdx va))) b :=
  fun s hs => ⟨s, (tableAt hp hs hva hdir).walk create, hs⟩

/-- Without a page for it the page table is not made. -/
theorem runs_insertFails (hva : (pdxIdx va).val < 2) (hdir : b.dir ≠ some (pdxIdx va))
    (hfree : b.free = []) (htail : tail = []) :
    Runs s₀ kd pp tail (assertInsertFails (pp i) va perm text) b () b := by
  refine (runs_kernPgdir hp).bind ((?_ : Runs s₀ kd pp tail _ b (-eNoMem) b).bind
    (runs_check (by decide)))
  intro s hs
  have hchain := hs.chain
  rw [hfree, htail] at hchain
  refine ⟨s, pageInsert_no_memory perm (pgdirWalk_no_memory ?_ ?_ hchain), hs⟩
  · exact hs.rest.inWindow hp.dirWindow
  · exact not_present hp hs hva hdir

theorem runs_noMapping (hva : (pdxIdx va).val < 2) (hdir : b.dir ≠ some (pdxIdx va)) :
    Runs s₀ kd pp tail (pageLookup (kva kd) va) b none b :=
  fun s hs =>
    ⟨s, pageLookup_absent (hs.rest.inWindow hp.dirWindow) (not_present hp hs hva hdir), hs⟩

omit hp in
theorem runs_noPage (hfree : b.free = []) (htail : tail = []) :
    Runs s₀ kd pp tail assertNoPage b () b := by
  refine Prog.Simulates.bind (?_ : Runs s₀ kd pp tail _ b none b) (runs_check rfl)
  intro s hs
  have hchain := hs.chain
  rw [hfree, htail] at hchain
  exact ⟨s, pageAlloc_none 0 hchain, hs⟩

omit hp in
theorem holds_entry {s : Machine} (hs : Holds s₀ kd pp tail b s) (hdir : b.dir ≠ none)
    (t : Fin 2) : s.mem (pp 0) (idx t) = b.entry t pp := by
  have hlt : (idx t).val < 2 := t.isLt
  rw [hs.table hdir, dif_pos hlt]
  rfl

/-- What is mapped at the entry `t`. -/
theorem tab_frame {s : Machine} (hs : Holds s₀ kd pp tail b s) {j : Fin 3}
    (htab : b.tab t = some (j, perm)) :
    present (b.entry t pp) ∧ frameOf (b.entry t pp) = pp j := by
  have hlt := lt_16 hp j
  rw [Sandbox.entry, htab]
  exact ⟨present_newPte (by omega) perm, frameOf_newPte (by omega) (hs.perm t j perm htab)⟩

theorem runs_remove (hb : b.remove t = some b') :
    Runs s₀ kd pp tail (pageRemove (kva kd) (testVa t)) b () b' := by
  intro s hs
  unfold Sandbox.remove at hb
  split at hb
  · cases hb
  · rename_i j perm htab
    split at hb
    · rename_i hdir
      obtain ⟨b₁, hdrop, rfl⟩ := Option.map_eq_some_iff.mp hb
      have hne : b.dir ≠ none := by simp [hdir]
      have hat : TableAt s kd (pp 0) (testVa t) := by
        refine tableAt hp hs ?_ ?_ <;> rw [testVa_pdx]
        · decide
        · exact hdir
      have hframe := (tab_frame hp hs htab).2
      rw [← holds_entry hs hne, ← testVa_ptx] at hframe
      have hdir₁ : b₁.dir ≠ none := by
        rw [drop_dir hdrop]
        exact hne
      have hstate := ((hs.decref hp hdrop).setEntry hp (t := t) (v := none) hdir₁
        (fun _ _ hv => by cases hv)).flush (testVa t)
      refine ⟨_, pageRemove_table hat hframe (hs.lt hp j) (hs.drop_link hdrop), ?_⟩
      have hentry : (b₁.setEntry t none).entry t pp = 0 := by
        simp [Sandbox.entry, Sandbox.setEntry]
      rw [hentry] at hstate
      unfold Machine.unmapped
      rw [testVa_ptx]
      exact hstate
    · cases hb

theorem runs_insert (hperm : perm.toNat < 4096) (hb : b.insert i t perm = some b') :
    Runs s₀ kd pp tail (pageInsert (kva kd) (pp i) (testVa t) perm) b 0 b' := by
  intro s hs
  obtain ⟨b₁, hwalk, hb⟩ := Option.bind_eq_some_iff.mp hb
  have hva : (pdxIdx (testVa t)).val < 2 := by
    rw [testVa_pdx]
    decide
  obtain ⟨s₁, hrun, hs₁⟩ := runs_walk hp hva (by rw [testVa_pdx]; exact hwalk) s hs
  have hne : b₁.dir ≠ none := by simp [walk_dir hwalk]
  have hwin := hs₁.rest.inWindow (hp.window 0)
  have hentry := holds_entry hs₁ hne t
  have hnew : ∀ (j : Fin 3) (perm' : UInt32), some (i, perm) = some (j, perm') →
      perm'.toNat < 4096 := by
    rintro j perm' heq
    cases heq
    exact hperm
  have hset {b : Sandbox} : (b.setEntry t (some (i, perm))).entry t pp = newPte (pp i) perm := by
    simp [Sandbox.entry, Sandbox.setEntry]
  cases htab : b₁.tab t with
  | none =>
    simp only [htab] at hb
    obtain rfl := Option.some.inj hb
    have hzero : b₁.entry t pp = 0 := by
      rw [Sandbox.entry, htab]
    refine ⟨_, pageInsert_new perm hrun hwin ?_, ?_⟩
    · rw [testVa_ptx, hentry, hzero]
      exact present_zero
    · have hstate := (hs₁.setEntry hp (t := t) hne hnew).setRef hp i (b₁.ref i + 1)
      rw [hset] at hstate
      rw [testVa_ptx, Machine.incref, Machine.setMem_pages, hs₁.ref]
      exact hstate
  | some jp =>
    obtain ⟨j, perm'⟩ := jp
    simp only [htab] at hb
    obtain ⟨hpresent, hframe⟩ := tab_frame hp hs₁ htab
    rw [← hentry, ← testVa_ptx] at hpresent hframe
    by_cases hij : j = i
    · subst hij
      rw [if_pos rfl] at hb
      obtain rfl := Option.some.inj hb
      have hstate := hs₁.setEntry hp (t := t) hne hnew
      rw [hset] at hstate
      refine ⟨_, pageInsert_same perm hrun hwin hpresent hframe, ?_⟩
      rw [testVa_ptx]
      exact hstate
    · rw [if_neg hij] at hb
      obtain ⟨b₂, hremove, rfl⟩ := Option.map_eq_some_iff.mp hb
      obtain ⟨s₂, hrun₂, hs₂⟩ := runs_remove hp hremove s₁ hs₁
      have hdir₂ : b₂.dir ≠ none := by
        rw [remove_dir hremove]
        exact hne
      have hstate := (hs₂.setEntry hp (t := t) hdir₂ hnew).setRef hp i (b₂.ref i + 1)
      rw [hset] at hstate
      have hother : page2pa (pp i) ≠ pteAddr (s₁.mem (pp 0) (ptxIdx (testVa t))) := by
        rw [pteAddr_eq_page2pa, hframe]
        intro heq
        have hi := lt_16 hp i
        have hj := lt_16 hp j
        exact hij (hp.inj (page2pa_inj (by omega) (by omega) heq).symm)
      refine ⟨_, pageInsert_replace perm hrun hwin hpresent hother hrun₂
        (hs₂.rest.inWindow (hp.window 0)), ?_⟩
      rw [testVa_ptx, Machine.incref, Machine.setMem_pages, hs₂.ref]
      exact hstate

theorem runs_assertInsert (hperm : perm.toNat < 4096) (hb : b.insert i t perm = some b') :
    Runs s₀ kd pp tail (assertInsert (pp i) (testVa t) perm text) b () b' :=
  (runs_kernPgdir hp).bind ((runs_insert hp hperm hb).bind (runs_check rfl))

/-- `check_va2pa` of the address behind the entry `t`. -/
theorem runs_va2pa : Runs s₀ kd pp tail (checkVa2pa (kva kd) (testVa t)) b (b.pa pp t) b := by
  intro s hs
  have hwin := hs.rest.inWindow hp.dirWindow
  have hpde := entryFrame_pde (b := b) hp (d := 0)
  rw [← holds_pde hp hs (by decide)] at hpde
  refine ⟨s, ?_, hs⟩
  rw [checkVa2pa_run hwin]
  · rw [vpn, testVa_pdx, testVa_ptx, Sandbox.pa]
    by_cases hdir : b.dir = some 0
    · rw [if_pos hdir] at hpde ⊢
      rw [pteAt_of_table hpde, holds_entry hs (by simp [hdir]), Sandbox.entry]
      cases htab : b.tab t with
      | none =>
        simp only [presentEntry_eq_none.mpr present_zero]
        rfl
      | some jp =>
        obtain ⟨j, perm⟩ := jp
        have hlt := lt_16 hp j
        have hframe := frameOf_newPte (p := pp j) (by omega) (hs.perm t j perm htab)
        simp only [presentEntry_newPte (by omega : pp j < 1048576) perm, Option.map_some,
          Option.getD_some, pteAddr_eq_page2pa, hframe]
    · rw [if_neg hdir] at hpde ⊢
      rw [pteAt_of_no_table hpde]
      rfl
  · intro g hg
    rw [testVa_pdx, hpde] at hg
    split at hg
    · obtain rfl := Option.some.inj hg
      exact ⟨hs.lt hp 0, hs.rest.inWindow (hp.window 0)⟩
    · cases hg

theorem runs_assertVa2pa {pa : UInt32} (hpa : b.pa pp t = pa) :
    Runs s₀ kd pp tail (assertVa2pa (testVa t) pa text) b () b :=
  (runs_kernPgdir hp).bind ((runs_va2pa hp).bind (runs_check hpa))

end Steps

end Sandbox

end Jos
