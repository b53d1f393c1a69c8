import Jos.Tables
import Jos.SelfTest
import Jos.Lib.Radix

/-!
What a page directory says about every virtual page, and what the page table functions do
to it. `Pgdir` is all that they need of the tables and of the allocator; it also holds
while `mem_init` runs with the page directory of `entry.S`.
-/

namespace Jos

/-- The address of page number `j`. -/
def pageVa (j : Nat) : UInt32 := UInt32.ofNat (j * 4096)

def presentEntry (v : UInt32) : Option UInt32 := if present v then some v else none

def pageFormat : Radix.Format Nat UInt32 UInt32 := ⟨entryFrame, presentEntry⟩

/-- The entry that the two-level walk from the page directory `f` finds for the virtual
page `n`. -/
def pteAt (m : Mem) (f : Nat) (n : Vpn) : Option UInt32 := pageFormat.lookup m f n

/-- `va` is translated to `pa`, with the flags `perm | PTE_P`. -/
def Translates (s : Machine) (f : Nat) (va pa perm : UInt32) : Prop :=
  ∃ e, pteAt s.mem f (vpn va) = some e ∧ pteAddr e + pgoff va = pa ∧ e &&& 0xFFF = perm ||| pteP

/-- The page directory in frame `f`, its page tables, and the free list `fl`. -/
structure Pgdir (s : Machine) (f : Nat) (fl : List Nat) : Prop where
  npages : s.npages ≤ 1048576
  chain : Chain (fun p => (s.pages p).ppLink) s.pageFreeList fl
  free : ∀ p ∈ fl, p < s.npages ∧ (s.pages p).ppRef = 0
  dirWindow : InWindow s f
  dirUsed : f ∉ fl
  tree : pageFormat.Tree (· ≠ uvptIdx) s.mem f
  table : ∀ d g, d ≠ uvptIdx → entryFrame (s.mem f d) = some g →
    g < s.npages ∧ InWindow s g ∧ g ∉ fl

variable {s s' : Machine} {f g p : Nat} {fl fl' : List Nat} {va perm v : UInt32} {n : Vpn} {j : Nat}

theorem pageVa_toNat (hj : j < 1048576) : (pageVa j).toNat = j * 4096 := by
  rw [pageVa, UInt32.toNat_ofNat']
  omega

theorem pdxIdx_pageVa (hj : j < 1048576) : (pdxIdx (pageVa j)).val = j / 1024 := by
  change (pdx _).toNat = _
  rw [pdx_toNat, pageVa_toNat hj]
  omega

theorem ptxIdx_pageVa (hj : j < 1048576) : (ptxIdx (pageVa j)).val = j % 1024 := by
  change (ptx _).toNat = _
  rw [ptx_toNat, pageVa_toNat hj]
  omega

theorem pageVa_succ (j : Nat) : pageVa j + pgsize = pageVa (j + 1) := by
  apply UInt32.toNat_inj.mp
  have hsize : pgsize.toNat = 4096 := rfl
  rw [UInt32.toNat_add, hsize, pageVa, pageVa, UInt32.toNat_ofNat', UInt32.toNat_ofNat']
  omega

theorem vpn_eq_iff {va va' : UInt32} : vpn va = vpn va' ↔ va.toNat / 4096 = va'.toNat / 4096 := by
  have h := toNat_lt va
  have h' := toNat_lt va'
  simp only [vpn, Prod.mk.injEq, Fin.ext_iff, pdxIdx, ptxIdx, pdx_toNat, ptx_toNat]
  omega

/-- Every address lies in the page of its page number. -/
theorem vpn_pageVa (va : UInt32) : vpn va = vpn (pageVa (va.toNat / 4096)) := by
  have h := toNat_lt va
  rw [vpn_eq_iff, pageVa_toNat (by omega)]
  omega

theorem presentEntry_of_present (h : present v) : presentEntry v = some v := if_pos h

theorem presentEntry_eq_some {e : UInt32} : presentEntry v = some e ↔ present v ∧ v = e := by
  unfold presentEntry
  split <;> simp_all

theorem presentEntry_eq_none : presentEntry v = none ↔ ¬ present v := by
  unfold presentEntry
  split <;> simp_all

theorem pteAt_of_table {m : Mem} {d t : Fin 1024} (hg : entryFrame (m f d) = some g) :
    pteAt m f (d, t) = presentEntry (m g t) := by
  simp only [pteAt, Radix.Format.lookup, pageFormat, hg, Option.bind_some]

theorem pteAt_of_no_table {m : Mem} {d t : Fin 1024} (hd : entryFrame (m f d) = none) :
    pteAt m f (d, t) = none := by
  simp only [pteAt, Radix.Format.lookup, pageFormat, hd, Option.bind_none]

/-- `check_va2pa` returns the address in the entry, or all ones. -/
theorem checkVa2pa_run (hf : InWindow s f)
    (htable : ∀ g, entryFrame (s.mem f (pdxIdx va)) = some g → g < s.npages ∧ InWindow s g) :
    (checkVa2pa (kva f) va).run s =
      .ok (((pteAt s.mem f (vpn va)).map pteAddr).getD (~~~0), s) := by
  simp only [checkVa2pa, entryPtr_pdx hf.lt]
  rw [Prog.bind_of_ok (kload_wordPtr _ hf)]
  by_cases hpde : present (s.mem f (pdxIdx va))
  · have hframe : entryFrame (s.mem f (pdxIdx va)) = some (frameOf (s.mem f (pdxIdx va))) :=
      entryFrame_eq_some.mpr ⟨hpde, rfl⟩
    obtain ⟨hlt, hwin⟩ := htable _ hframe
    rw [if_pos hpde, pteAddr_eq_page2pa, Prog.bind_of_ok (kaddr_page2pa hlt (frameOf_lt _)),
      entryPtr_ptx hwin.lt, Prog.bind_of_ok (kload_wordPtr _ hwin), vpn, pteAt_of_table hframe]
    by_cases hpte : present (s.mem (frameOf (s.mem f (pdxIdx va))) (ptxIdx va))
    · rw [if_pos hpte, presentEntry_of_present hpte]
      rfl
    · rw [if_neg hpte, presentEntry_eq_none.mpr hpte]
      rfl
  · rw [if_neg hpde, vpn, pteAt_of_no_table (entryFrame_eq_none.mpr hpde)]
    rfl

theorem entry_low {fl : UInt32} (hp : p < 1048576) (hfl : fl.toNat < 4096) :
    (page2pa p ||| fl) &&& 0xFFF = fl := by
  have hmask : (0xFFF : UInt32).toNat < 4096 := by decide
  rw [entry_and hp hmask]
  apply UInt32.toNat_inj.mp
  have hmask' : (0xFFF : UInt32).toNat = 2 ^ 12 - 1 := rfl
  rw [UInt32.toNat_and, hmask', Nat.and_two_pow_sub_one_eq_mod]
  omega

theorem newPte_eq (p : Nat) (perm : UInt32) : newPte p perm = page2pa p ||| (perm ||| pteP) :=
  UInt32.or_assoc ..

theorem newPte_flags (hp : p < 1048576) (hperm : perm.toNat < 4096) :
    newPte p perm &&& 0xFFF = perm ||| pteP := by
  rw [newPte_eq, entry_low hp (or_low hperm (by decide))]

theorem frameOf_newPte (hp : p < 1048576) (hperm : perm.toNat < 4096) :
    frameOf (newPte p perm) = p := by
  rw [newPte_eq, frameOf_entry hp (or_low hperm (by decide))]

theorem present_newPte (hp : p < 1048576) (perm : UInt32) : present (newPte p perm) := by
  rw [newPte_eq, present_entry hp]
  exact present_or_pteP perm

theorem presentEntry_newPte (hp : p < 1048576) (perm : UInt32) :
    presentEntry (newPte p perm) = some (newPte p perm) :=
  presentEntry_of_present (present_newPte hp perm)

theorem Mem.entrySet (m : Mem) (g : Nat) (t : Fin 1024) (v : UInt32) :
    Radix.Format.EntrySet m (m.setWord g t v) g t v := by
  refine ⟨?_, fun f hf => Mem.setWord_frame _ _ _ hf⟩
  funext i
  by_cases hi : i = t
  · rw [hi, Function.update_self, Mem.setWord_same]
  · rw [Function.update_of_ne hi, Mem.setWord_of_ne _ _ fun _ => hi]

namespace Pgdir

theorem tableAt (h : Pgdir s f fl) (hd : pdxIdx va ≠ uvptIdx)
    (hg : entryFrame (s.mem f (pdxIdx va)) = some g) : TableAt s f g va := by
  obtain ⟨hpde, hframe⟩ := entryFrame_eq_some.mp hg
  obtain ⟨hlt, hwin, -⟩ := h.table _ g hd hg
  exact ⟨h.dirWindow, hwin, hpde, hframe, hlt⟩

theorem check (h : Pgdir s f fl) (hd : pdxIdx va ≠ uvptIdx) :
    (checkVa2pa (kva f) va).run s =
      .ok (((pteAt s.mem f (vpn va)).map pteAddr).getD (~~~0), s) := by
  refine checkVa2pa_run h.dirWindow fun g hg => ?_
  obtain ⟨hlt, hwin, -⟩ := h.table _ g hd hg
  exact ⟨hlt, hwin⟩

/-- Writing an entry of a page table. -/
theorem setPte (h : Pgdir s f fl) {d : Fin 1024} (hd : d ≠ uvptIdx)
    (hg : entryFrame (s.mem f d) = some g) (t : Fin 1024) (v : UInt32) :
    Pgdir (s.setMem (s.mem.setWord g t v)) f fl ∧ (s.mem.setWord g t v) f = s.mem f ∧
      ∀ n : Vpn, n.1 ≠ uvptIdx → pteAt (s.mem.setWord g t v) f n =
        Function.update (pteAt s.mem f) (d, t) (presentEntry v) n := by
  have hset := s.mem.entrySet g t v
  have hroot : g ≠ f := h.tree.ne_root d g hd hg
  have hsame : (s.mem.setWord g t v) f = s.mem f := Mem.setWord_frame _ _ _ hroot.symm
  refine ⟨⟨h.npages, h.chain, h.free, h.dirWindow, h.dirUsed, h.tree.entrySet hroot hset, ?_⟩,
    hsame, ?_⟩
  · intro d' g' hd' hg'
    change entryFrame ((s.mem.setWord g t v) f d') = some g' at hg'
    rw [hsame] at hg'
    exact h.table d' g' hd' hg'
  · intro n hn
    exact h.tree.lookup_entrySet hd hg hset hn

/-- The first free page becomes the page table of `va`. -/
theorem newTable (h : Pgdir s f (g :: fl))
    (hnone : entryFrame (s.mem f (pdxIdx va)) = none) (hg : InWindow s g) :
    Pgdir (s.newTable f g va) f fl ∧
      entryFrame ((s.newTable f g va).mem f (pdxIdx va)) = some g ∧
      (∀ d, d ≠ pdxIdx va → (s.newTable f g va).mem f d = s.mem f d) ∧
      ∀ n : Vpn, n.1 ≠ uvptIdx → pteAt (s.newTable f g va).mem f n = pteAt s.mem f n := by
  have hmem : g ∈ g :: fl := List.mem_cons_self
  have hroot : g ≠ f := fun heq => h.dirUsed (heq ▸ hmem)
  have hglt := (h.free g hmem).1
  have hnpages := h.npages
  have hentry : entryFrame (page2pa g ||| tableFlags) = some g :=
    entryFrame_eq_some.mpr
      ⟨(present_entry (by omega)).mpr (by decide), frameOf_entry (by omega) (by decide)⟩
  have hdir : (s.newTable f g va).mem f =
      Function.update (s.mem f) (pdxIdx va) (page2pa g ||| tableFlags) := by
    have hzero : s.mem.zeroFrame g f = s.mem f := Mem.zeroFrame_frame _ hroot.symm
    exact ((s.mem.zeroFrame g).entrySet f _ _).frame.trans (by rw [hzero])
  have hempty (t : Fin 1024) : (s.newTable f g va).mem g t = 0 := by
    have hframe := Mem.setWord_frame (s.mem.zeroFrame g) (pdxIdx va) (page2pa g ||| tableFlags)
      hroot
    exact (congrFun hframe t).trans (Mem.zeroFrame_same ..)
  have hadd : pageFormat.TableAdded (· ≠ uvptIdx) s.mem (s.newTable f g va).mem f g
      (pdxIdx va) := by
    refine ⟨hnone, ?_, hroot, ⟨_, hentry, hdir⟩, ?_, ?_⟩
    · intro d' hd' hg'
      exact (h.table d' g hd' hg').2.2 hmem
    · intro t
      rw [hempty]
      exact presentEntry_eq_none.mpr present_zero
    · intro f' hf' hg'
      exact (Mem.setWord_frame _ _ _ hf').trans (Mem.zeroFrame_frame _ hg')
  have hother {q : Nat} (hq : q ≠ g) : (s.newTable f g va).pages q = s.pages q := by
    simp [Machine.newTable, Machine.incref, hq]
  have hnot : g ∉ fl := h.chain.not_mem_tail
  refine ⟨⟨h.npages, ?_, ?_, h.dirWindow, ?_, h.tree.added hadd, ?_⟩, ?_, ?_, ?_⟩
  · refine Chain.pop (a := g) h.chain ?_
    intro q hq
    rw [hother (ne_of_mem_of_not_mem hq hnot)]
  · intro q hq
    rw [hother (ne_of_mem_of_not_mem hq hnot)]
    exact h.free q (List.mem_cons_of_mem g hq)
  · exact fun hf => h.dirUsed (List.mem_cons_of_mem g hf)
  · intro d g' hd' hg'
    have hnext := Radix.Format.Tree.next_added hadd d
    rw [show pageFormat.next = entryFrame from rfl, hg'] at hnext
    split at hnext
    · obtain rfl := Option.some.inj hnext
      exact ⟨hglt, hg, hnot⟩
    · obtain ⟨hlt, hwin, hused⟩ := h.table d g' hd' hnext.symm
      exact ⟨hlt, hwin, fun hmem' => hused (List.mem_cons_of_mem g hmem')⟩
  · rw [hdir, Function.update_self, hentry]
  · intro d hne
    rw [hdir, Function.update_of_ne hne]
  · intro n hn
    exact h.tree.lookup_added hadd hn

end Pgdir

/-- The page table `g` of `va` in the state `s'`, with the free list `fl'`: it was there
before, or it is the first free page. -/
structure TableReady (f : Nat) (va : UInt32) (s : Machine) (fl : List Nat) (g : Nat)
    (s' : Machine) (fl' : List Nat) : Prop where
  index : pdxIdx va ≠ uvptIdx
  pgdir : Pgdir s' f fl'
  table : entryFrame (s'.mem f (pdxIdx va)) = some g
  tables : ∀ d, d ≠ pdxIdx va → s'.mem f d = s.mem f d
  same : ∀ n : Vpn, n.1 ≠ uvptIdx → pteAt s'.mem f n = pteAt s.mem f n
  cases : (s' = s ∧ fl' = fl ∧ entryFrame (s.mem f (pdxIdx va)) = some g) ∨
    (entryFrame (s.mem f (pdxIdx va)) = none ∧ fl = g :: fl' ∧ s' = s.newTable f g va)

theorem Pgdir.walk (h : Pgdir s f fl) (hd : pdxIdx va ≠ uvptIdx)
    (hnear : entryFrame (s.mem f (pdxIdx va)) = none → ∀ g, fl.head? = some g → InWindow s g) :
    (entryFrame (s.mem f (pdxIdx va)) = none ∧ fl = [] ∧
      (pgdirWalk (kva f) va true).run s = .ok (none, s)) ∨
    ∃ g s' fl', (pgdirWalk (kva f) va true).run s = .ok (some (wordPtr g (ptxIdx va)), s') ∧
      TableReady f va s fl g s' fl' := by
  cases hg : entryFrame (s.mem f (pdxIdx va)) with
  | some g =>
    right
    exact ⟨g, s, fl, (h.tableAt hd hg).walk true, hd, h, hg, fun _ _ => rfl, fun _ _ => rfl,
      .inl ⟨rfl, rfl, hg⟩⟩
  | none =>
    have hpde := entryFrame_eq_none.mp hg
    have hhead := h.chain.head_eq
    cases fl with
    | nil =>
      left
      exact ⟨rfl, rfl, pgdirWalk_no_memory h.dirWindow hpde hhead⟩
    | cons g fl' =>
      right
      have hwin := hnear hg g rfl
      obtain ⟨hpgdir, htable, htables, hpte⟩ := h.newTable hg hwin
      exact ⟨g, s.newTable f g va, fl', pgdirWalk_create h.dirWindow hpde hhead
        (h.free g List.mem_cons_self).1 hwin, hd, hpgdir, htable, htables, hpte,
        .inr ⟨hg, rfl, rfl⟩⟩

namespace TableReady

variable (h : TableReady f va s fl g s' fl')

include h

/-- The page that became the page table has one reference, and no other record changed. -/
theorem pages (q : Nat) :
    s'.pages q = if entryFrame (s.mem f (pdxIdx va)) = none ∧ q = g
      then { ppLink := none, ppRef := 1 } else s.pages q := by
  rcases h.cases with ⟨rfl, -, hsome⟩ | ⟨hnone, -, rfl⟩
  · rw [if_neg]
    rintro ⟨hnone, -⟩
    rw [hsome] at hnone
    cases hnone
  · by_cases hq : q = g
    · rw [if_pos ⟨hnone, hq⟩, hq]
      simp [Machine.newTable, Machine.incref]
    · rw [if_neg fun hc => hq hc.2]
      simp [Machine.newTable, Machine.incref, hq]

theorem free (q : Nat) :
    q ∈ fl' ↔ q ∈ fl ∧ ¬ (entryFrame (s.mem f (pdxIdx va)) = none ∧ q = g) := by
  have hused : g ∉ fl' := (h.pgdir.table _ g h.index h.table).2.2
  rcases h.cases with ⟨rfl, rfl, hsome⟩ | ⟨hnone, rfl, -⟩
  · simp [hsome]
  · by_cases hq : q = g
    · simp [hq, hnone, hused]
    · simp [hq]

/-- Where `va` was mapped the walk changes nothing. -/
theorem same_of_mapped {e : UInt32} (hmapped : pteAt s.mem f (vpn va) = some e) :
    s' = s ∧ fl' = fl ∧ entryFrame (s.mem f (pdxIdx va)) = some g := by
  refine h.cases.resolve_right ?_
  rintro ⟨hnone, -⟩
  rw [vpn, pteAt_of_no_table hnone] at hmapped
  cases hmapped

theorem pteAt_va : pteAt s.mem f (vpn va) = presentEntry (s'.mem g (ptxIdx va)) := by
  rw [← h.same (vpn va) h.index, vpn, pteAt_of_table h.table]

end TableReady

end Jos
