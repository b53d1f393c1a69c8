import Jos.CheckPage
import Jos.PageInit

/-!
The free pages at boot, before the kernel's page tables are there. `check_page_alloc` and
`check_page` pass on them when three pages below 4 MB come first, and only change the order of
the list and the contents of free pages.
-/

namespace Jos

/-- The free pages `l` while `kern_pgdir`, in frame `kd`, has no page table for the tests. -/
structure BootPool (kd : Nat) (l : List Nat) (s : Machine) : Prop where
  kernPgdir : s.kernPgdir = kva kd
  npages : s.npages ≤ 65536
  dirWindow : InWindow s kd
  chain : Chain (fun p => (s.pages p).ppLink) s.pageFreeList l
  lt : ∀ p ∈ l, p < s.npages
  ref : ∀ p ∈ l, (s.pages p).ppRef = 0
  notDir : kd ∉ l
  empty : ∀ d, d ≠ uvptIdx → s.mem kd d = 0

variable {s s₀ s' : Machine} {kd p₀ p₁ p₂ : Nat} {rest l : List Nat} {pp : Fin 3 → Nat}
  {tail : List Nat} {b b' : Sandbox} {i : Fin 3}

/-- The pool after a change of its pages. -/
theorem BootPool.shuffled (h : BootPool kd l s) (hs : Shuffled l s s') {l' : List Nat}
    (hperm : l'.Perm l) (hchain : Chain (fun p => (s'.pages p).ppLink) s'.pageFreeList l')
    (href : ∀ p ∈ l', (s'.pages p).ppRef = 0) : BootPool kd l' s' where
  kernPgdir := hs.rest.kernPgdir.trans h.kernPgdir
  npages := by
    rw [hs.rest.npages]
    exact h.npages
  dirWindow := hs.rest.inWindow h.dirWindow
  chain := hchain
  lt p hp := by
    rw [hs.rest.npages]
    exact h.lt p (hperm.mem_iff.mp hp)
  ref := href
  notDir := hperm.mem_iff.not.mpr h.notDir
  empty d hd := by
    rw [hs.frames kd h.notDir]
    exact h.empty d hd

/-- Before a test the three pages are free. -/
theorem Sandbox.Holds.start
    (hchain : Chain (fun p => (s.pages p).ppLink) s.pageFreeList ([0, 1, 2].map pp ++ tail))
    (href : ∀ i, (s.pages (pp i)).ppRef = 0) :
    Holds s kd pp tail (Sandbox.pages [0, 1, 2] 0 0 0 none none none) s := by
  constructor
  · rfl
  · exact hchain
  · intro i hi
    fin_cases i <;> simp [Sandbox.pages] at hi
  · intro i
    rw [href]
    fin_cases i <;> rfl
  · exact fun q _ => rfl
  · intro d
    rw [if_neg (by simp [Sandbox.pages])]
  · exact fun hdir => absurd rfl hdir
  · intro t i perm htab
    fin_cases t <;> cases htab
  · intro i w hw
    cases hw
  · exact fun _ _ _ => rfl

/-- Without a page table the test has only changed its pages. -/
theorem Sandbox.Holds.shuffled (h : Holds s₀ kd pp tail b s) (hdir : b.dir = none)
    (hl : ∀ i, pp i ∈ l) (hkd : kd ∉ l) : Shuffled l s₀ s := by
  have hnot {q : Nat} (hq : q ∉ l) (i : Fin 3) : q ≠ pp i := fun heq => hq (heq ▸ hl i)
  refine ⟨h.rest, fun q hq => h.pages q (hnot hq), fun g hg => ?_⟩
  by_cases hd : g = kd
  · subst hd
    funext d
    rw [h.dir, hdir, if_neg (by simp)]
  · exact h.frames g hd (hnot hg)

section Three

variable (h : BootPool kd (p₀ :: p₁ :: p₂ :: rest) s)

include h

theorem BootPool.testPages (hwin : ∀ p ∈ [p₀, p₁, p₂], InWindow s p) :
    TestPages s kd ![p₀, p₁, p₂] rest := by
  have hnodup := h.chain.nodup
  have hlt := h.lt
  have hnot := h.notDir
  simp only [List.nodup_cons, List.mem_cons, not_or] at hnodup hnot
  simp only [List.mem_cons, forall_eq_or_imp] at hlt
  obtain ⟨⟨h01, h02, h0⟩, ⟨h12, h1⟩, h2, -⟩ := hnodup
  constructor
  · intro i j hij
    fin_cases i <;> fin_cases j <;> simp_all
  · intro i
    fin_cases i <;> simp_all
  · intro i
    fin_cases i <;> simp_all
  · exact h.kernPgdir
  · exact h.dirWindow
  · intro i
    fin_cases i <;> simp_all [eq_comm]
  · intro i
    fin_cases i <;> simp_all
  · intro d hd
    refine h.empty d ?_
    rintro rfl
    exact absurd hd (by decide)

theorem BootPool.holds :
    Sandbox.Holds s kd ![p₀, p₁, p₂] rest (Sandbox.pages [0, 1, 2] 0 0 0 none none none) s := by
  have href := h.ref
  simp only [List.mem_cons, forall_eq_or_imp] at href
  refine Sandbox.Holds.start h.chain fun i => ?_
  fin_cases i <;> simp_all

/-- The three pages are all back, in some order. -/
theorem BootPool.back {free : List (Fin 3)} (hfree : free.Perm [0, 1, 2])
    (hs : Sandbox.Holds s kd ![p₀, p₁, p₂] rest (Sandbox.pages free 0 0 0 none none none) s') :
    BootPool kd (free.map ![p₀, p₁, p₂] ++ rest) s' ∧
      Shuffled (p₀ :: p₁ :: p₂ :: rest) s s' ∧
      (free.map ![p₀, p₁, p₂] ++ rest).Perm (p₀ :: p₁ :: p₂ :: rest) := by
  have hperm : (free.map ![p₀, p₁, p₂] ++ rest).Perm (p₀ :: p₁ :: p₂ :: rest) :=
    (hfree.map ![p₀, p₁, p₂]).append_right rest
  have hshuffled : Shuffled (p₀ :: p₁ :: p₂ :: rest) s s' := by
    refine hs.shuffled rfl (fun i => ?_) h.notDir
    fin_cases i <;> simp
  refine ⟨h.shuffled hshuffled hperm hs.chain ?_, hshuffled, hperm⟩
  intro p hp
  by_cases hthree : ∃ i, p = ![p₀, p₁, p₂] i
  · obtain ⟨i, rfl⟩ := hthree
    rw [hs.ref i]
    fin_cases i <;> rfl
  · rw [hs.pages p (fun i heq => hthree ⟨i, heq⟩)]
    exact h.ref p (hperm.mem_iff.mp hp)

end Three

namespace Sandbox

/-- The free list of the machine is exchanged while all three pages are in use. -/
theorem Holds.setFreeList (h : Holds s₀ kd pp tail b s) (hfree : b.free = []) {head : Option Nat}
    {rest : List Nat} (hchain : Chain (fun p => (s₀.pages p).ppLink) head rest)
    (hapart : ∀ i, pp i ∉ rest) :
    Holds s₀ kd pp rest b { s with pageFreeList := head } := by
  constructor
  · exact h.rest.trans rfl
  · rw [hfree]
    refine hchain.congr fun q hq => ?_
    rw [h.pages q fun i heq => hapart i (heq ▸ hq)]
  · exact h.unlinked
  · exact h.ref
  · exact h.pages
  · exact h.dir
  · exact h.table
  · exact h.perm
  · exact h.word
  · exact h.frames

theorem Holds.emptied (h : Holds s₀ kd pp tail b s) (hfree : b.free = []) :
    Holds s₀ kd pp [] b { s with pageFreeList := none } := by
  have hchain : Chain (fun p => (s₀.pages p).ppLink) none [] := rfl
  exact h.setFreeList hfree hchain fun _ => List.not_mem_nil

section Three

variable (hp : TestPages s₀ kd pp tail)

include hp

theorem runs_assertAlloc {text : String} (hb : b.take i = some b') :
    Runs s₀ kd pp tail (assertAlloc 0 text) b (pp i) b' :=
  .bind (runs_alloc hp hb) (.pure _ _ _)

/-- Three pages are allocated one after the other. -/
theorem runs_assertThree {j k : Fin 3} {b₁ b₂ b₃ : Sandbox} (h₁ : b.take i = some b₁)
    (h₂ : b₁.take j = some b₂) (h₃ : b₂.take k = some b₃) (hij : j ≠ i) (hik : k ≠ i)
    (hjk : k ≠ j) : Runs s₀ kd pp tail assertThree b (pp i, pp j, pp k) b₃ := by
  have hne {m n : Fin 3} (hmn : m ≠ n) : pp m ≠ pp n := hp.inj.ne hmn
  unfold assertThree
  refine .bind (runs_assertAlloc hp h₁) ?_
  refine .bind (runs_assertAlloc hp h₂) ?_
  refine .bind (runs_assertAlloc hp h₃) ?_
  refine .bind (runs_check (hne hij)) ?_
  refine .bind (runs_check ⟨hne hjk, hne hik⟩) ?_
  exact .pure _ _ _

theorem runs_freeThree {j k : Fin 3} {b₁ b₂ b₃ : Sandbox} (h₁ : b.put i = some b₁)
    (h₂ : b₁.put j = some b₂) (h₃ : b₂.put k = some b₃) :
    Runs s₀ kd pp tail (freeThree (pp i) (pp j) (pp k)) b () b₃ :=
  .bind (runs_free hp h₁) (.bind (runs_free hp h₂) (runs_free hp h₃))

/-- `page_alloc(ALLOC_ZERO)` returns a page of zeros. -/
theorem Holds.allocZeroed {b₁ : Sandbox} (h : Holds s₀ kd pp tail b s) (text : String)
    (hb : b.take i = some b₁) (hdir : i = 0 → b₁.dir = none)
    (hb' : some { b₁ with word := Function.update b₁.word i none } = some b') :
    ∃ s', (assertAlloc allocZero text).run s = .ok (pp i, s') ∧ Holds s₀ kd pp tail b' s' ∧
      ∀ j, s'.mem (pp i) j = 0 := by
  obtain rfl := Option.some.inj hb'
  obtain ⟨hhead, htaken⟩ := h.takePage hp hb
  have hin := h.rest.inWindow (hp.window i)
  have hzeroed := htaken.setPage hp (i := i) (m := s.mem.zeroFrame (pp i)) (w := none) hdir
    (fun g hg => Mem.zeroFrame_frame _ hg) (fun v hv => by cases hv)
  refine ⟨_, ?_, hzeroed, fun j => Mem.zeroFrame_same ..⟩
  rw [assertAlloc, Prog.bind_of_ok (pageAlloc_zero_some hhead (h.lt hp i) hin)]
  rfl

end Three

end Sandbox

/-- The loop that looks for a byte that is not zero. -/
theorem assertZeroPage_run {p : Nat} (hcr3 : s.cr3 = .entry) (hin : InWindow s p)
    (hzero : ∀ j, s.mem p j = 0) : (assertZeroPage (kva p)).run s = .ok ((), s) := by
  have hlt := hin.lt
  obtain ⟨s', hrun, rfl⟩ := Prog.forRange_run (fun _ t => t = s) (fun i => do
      kassert ((← vloadByte (kva p + UInt32.ofNat i)) = 0) "c[i] == 0") pgsize.toNat 0
    (by
      rintro i t - hi rfl
      have hsize : pgsize.toNat = 4096 := rfl
      rw [hsize] at hi
      have haddr : (kva p + UInt32.ofNat i).toNat = 4026531840 + (p * 4096 + i) := by
        rw [UInt32.toNat_add, kva_toNat hlt, UInt32.toNat_ofNat']
        omega
      have hpa := kernPa_of_window (s := t) false haddr (by unfold InWindow at hin; omega)
      have hframe : (p * 4096 + i) / 4096 = p := by omega
      have hbyte : t.mem.byte (p * 4096 + i) = 0 := by
        have hnone (k : Nat) : byteOf 0 k = 0 := by simp [byteOf]
        rw [Mem.byte, hframe, hzero, hnone]
      have hload : (vloadByte (kva p + UInt32.ofNat i)).run t = .ok (0, t) := by
        simp [vloadByte, Machine.xlat, hcr3, hpa, hbyte]
      exact ⟨t, by rw [Prog.bind_of_ok hload]; exact kassert_run rfl _ t, rfl⟩) s rfl
  exact hrun

section Tests

variable (h : BootPool kd (p₀ :: p₁ :: p₂ :: rest) s)

include h

theorem BootPool.restChain : Chain (fun p => (s.pages p).ppLink) rest.head? rest := by
  have hlast := h.chain.2.2.2
  have hhead := hlast.head_eq
  rw [hhead] at hlast
  exact hlast

open Sandbox in
/-- The three pages are allocated and the rest of the list is put aside. -/
theorem BootPool.started (hwin : ∀ p ∈ [p₀, p₁, p₂], InWindow s p) :
    ∃ s₁, assertThree.run s =
        .ok ((![p₀, p₁, p₂] 0, ![p₀, p₁, p₂] 1, ![p₀, p₁, p₂] 2), s₁) ∧
      s₁.npages = s.npages ∧ s₁.pageFreeList = rest.head? ∧
      Holds s kd ![p₀, p₁, p₂] [] (pages [] 0 0 0 none none none)
        { s₁ with pageFreeList := none } := by
  obtain ⟨s₁, hrun, h₁⟩ := runs_assertThree (h.testPages hwin) (i := 0) (j := 1) (k := 2)
    (eq_of_gives rfl : _ = some (pages [1, 2] 0 0 0 none none none))
    (eq_of_gives rfl : _ = some (pages [2] 0 0 0 none none none))
    (eq_of_gives rfl : _ = some (pages [] 0 0 0 none none none))
    (by decide) (by decide) (by decide) s h.holds
  exact ⟨s₁, hrun, h₁.rest.npages, h₁.chain.head_eq, h₁.emptied rfl⟩

open Sandbox in
/-- `check_page` passes, and turns the first three pages around. -/
theorem BootPool.checkPage (hwin : ∀ p ∈ [p₀, p₁, p₂], InWindow s p) :
    ∃ s', checkPage.run s = .ok ((), s') ∧ BootPool kd (p₂ :: p₁ :: p₀ :: rest) s' ∧
      Shuffled (p₀ :: p₁ :: p₂ :: rest) s s' := by
  have hp := h.testPages hwin
  have hnone : TestPages s kd ![p₀, p₁, p₂] [] := { hp with tailApart := fun _ => by simp }
  obtain ⟨s₁, hrun₁, hsame, hhead, h₁⟩ := h.started hwin
  obtain ⟨s₂, hrun₂, h₂⟩ := runs_checkPageInsert hnone _ h₁
  obtain ⟨s₃, hrun₃, h₃⟩ := runs_checkPageReinsert hnone _ h₂
  obtain ⟨s₄, hrun₄, h₄⟩ := runs_checkPageRemove hnone _ h₃
  obtain ⟨s₅, hrun₅, h₅⟩ := runs_checkPageWalk hnone _ h₄
  have hback := h₅.setFreeList rfl h.restChain hp.tailApart
  obtain ⟨s₆, hrun₆, h₆⟩ := runs_freeThree hp (i := 0) (j := 1) (k := 2)
    (eq_of_gives rfl : _ = some (pages [0] 0 0 0 none none none))
    (eq_of_gives rfl : _ = some (pages [1, 0] 0 0 0 none none none))
    (eq_of_gives rfl : _ = some (pages [2, 1, 0] 0 0 0 none none none)) _ hback
  obtain ⟨hpool, hshuffled, -⟩ := h.back (by decide) h₆
  refine ⟨s₆, ?_, hpool, hshuffled⟩
  unfold Jos.checkPage
  rw [Prog.bind_of_ok hrun₁, Prog.run_read_bind, hhead]
  simp only [setPageFreeList, Prog.run_update_bind]
  rw [Prog.bind_of_ok hrun₂, Prog.bind_of_ok hrun₃, Prog.bind_of_ok hrun₄, Prog.bind_of_ok hrun₅]
  exact hrun₆

theorem BootPool.count (step nfree : Int) :
    (countPages step (s.npages + s.npagesBasemem) s.pageFreeList nfree).run s =
      .ok (nfree + (rest.length + 3 : Nat) * step, s) := by
  have hrange : p₀ :: p₁ :: p₂ :: rest ⊆ List.range s.npages :=
    fun p hp => List.mem_range.mpr (h.lt p hp)
  have hle := (List.subperm_of_subset h.chain.nodup hrange).length_le
  rw [List.length_range] at hle
  exact countPages_run step nfree h.chain (by omega)

open Sandbox in
/-- `check_page_alloc` passes, and puts the pages back in the same order. -/
theorem BootPool.checkPageAlloc (hcr3 : s.cr3 = .entry) (hpages : s.pagesKva ≠ 0)
    (hwin : ∀ p ∈ [p₀, p₁, p₂], InWindow s p) :
    ∃ s', checkPageAlloc.run s = .ok ((), s') ∧ BootPool kd (p₀ :: p₁ :: p₂ :: rest) s' ∧
      Shuffled (p₀ :: p₁ :: p₂ :: rest) s s' := by
  have hp := h.testPages hwin
  have hnone : TestPages s kd ![p₀, p₁, p₂] [] := { hp with tailApart := fun _ => by simp }
  obtain ⟨s₁, hrun₁, hsame, hhead, h₁⟩ := h.started hwin
  have hempty : Runs s kd ![p₀, p₁, p₂] [] assertNoPage (pages [] 0 0 0 none none none) ()
      (pages [] 0 0 0 none none none) := runs_noPage rfl rfl
  obtain ⟨s₂, hrun₂, h₂⟩ := hempty _ h₁
  obtain ⟨s₃, hrun₃, h₃⟩ := runs_freeThree hnone (i := 0) (j := 1) (k := 2)
    (eq_of_gives rfl : _ = some (pages [0] 0 0 0 none none none))
    (eq_of_gives rfl : _ = some (pages [1, 0] 0 0 0 none none none))
    (eq_of_gives rfl : _ = some (pages [2, 1, 0] 0 0 0 none none none)) _ h₂
  obtain ⟨s₄, hrun₄, h₄⟩ := runs_assertThree hnone (i := 2) (j := 1) (k := 0)
    (eq_of_gives rfl : _ = some (pages [1, 0] 0 0 0 none none none))
    (eq_of_gives rfl : _ = some (pages [0] 0 0 0 none none none))
    (eq_of_gives rfl : _ = some (pages [] 0 0 0 none none none))
    (by decide) (by decide) (by decide) _ h₃
  obtain ⟨s₅, hrun₅, h₅⟩ := hempty _ h₄
  obtain ⟨s₆, hrun₆, h₆⟩ := runs_memset hnone (i := 2) 1 (w := none) (fun hi => by cases hi)
    (fun v hv => by cases hv) (eq_of_gives rfl : _ = some (pages [] 0 0 0 none none none)) _ h₅
  obtain ⟨s₇, hrun₇, h₇⟩ := runs_free hnone (i := 2)
    (eq_of_gives rfl : _ = some (pages [2] 0 0 0 none none none)) _ h₆
  obtain ⟨s₈, hrun₈, h₈, hzero⟩ := Holds.allocZeroed hnone h₇ "(pp = page_alloc(ALLOC_ZERO))"
    (i := 2) (eq_of_gives rfl : _ = some (pages [] 0 0 0 none none none)) (fun hi => by cases hi)
    (eq_of_gives rfl : _ = some (pages [] 0 0 0 none none none))
  have hback := h₈.setFreeList rfl h.restChain hp.tailApart
  obtain ⟨s₉, hrun₉, h₉⟩ := runs_freeThree hp (i := 2) (j := 1) (k := 0)
    (eq_of_gives rfl : _ = some (pages [2] 0 0 0 none none none))
    (eq_of_gives rfl : _ = some (pages [1, 2] 0 0 0 none none none))
    (eq_of_gives rfl : _ = some (pages [0, 1, 2] 0 0 0 none none none)) _ hback
  obtain ⟨hpool, hshuffled, -⟩ := h.back (by decide) h₉
  refine ⟨s₉, ?_, hpool, hshuffled⟩
  have hbelow (i : Fin 3) : page2pa (![p₀, p₁, p₂] i) < UInt32.ofNat s.npages * pgsize := by
    have hlt := hp.lt i
    have hle := h.npages
    have hsize : pgsize.toNat = 4096 := rfl
    rw [UInt32.lt_iff_toNat_lt, page2pa_toNat (by omega), UInt32.toNat_mul, UInt32.toNat_ofNat',
      hsize]
    omega
  have hkva {t : Machine} (ht : PagesOnly s t) :
      (page2kva (![p₀, p₁, p₂] 2)).run t = .ok (kva (![p₀, p₁, p₂] 2), t) := by
    have hlt := lt_16 hp 2
    exact page2kva_eq (by rw [ht.npages]; exact hp.lt 2) (by omega)
  have hcr3₈ : s₈.cr3 = .entry := h₈.rest.cr3.trans hcr3
  have hfull : BootPool kd (p₀ :: p₁ :: p₂ :: rest) s₉ := hpool
  have hcount := hfull.count (-1) (0 + (rest.length + 3 : Nat) * 1)
  have hzeroed := assertZeroPage_run hcr3₈ (h₈.rest.inWindow (hp.window 2)) hzero
  unfold Jos.checkPageAlloc
  rw [Prog.run_read_bind, if_neg hpages]
  simp only [listFuel, setPageFreeList, Prog.run_read_bind]
  rw [Prog.bind_of_ok (h.count 1 0), Prog.bind_of_ok hrun₁]
  simp only [Prog.run_read_bind, hsame]
  rw [Prog.bind_of_ok (kassert_run (hbelow 0) _ s₁), Prog.bind_of_ok (kassert_run (hbelow 1) _ s₁),
    Prog.bind_of_ok (kassert_run (hbelow 2) _ s₁)]
  simp only [Prog.run_read_bind, Prog.run_update_bind, hhead]
  rw [Prog.bind_of_ok hrun₂, Prog.bind_of_ok hrun₃, Prog.bind_of_ok hrun₄, Prog.bind_of_ok hrun₅,
    Prog.bind_of_ok (hkva h₅.rest), Prog.bind_of_ok hrun₆, Prog.bind_of_ok hrun₇,
    Prog.bind_of_ok hrun₈, Prog.bind_of_ok (kassert_run rfl _ s₈),
    Prog.bind_of_ok (hkva h₈.rest), Prog.bind_of_ok hzeroed]
  simp only [Prog.run_update_bind]
  rw [Prog.bind_of_ok hrun₉]
  simp only [Prog.run_read_bind]
  rw [Prog.bind_of_ok hcount]
  exact kassert_run (by ring) _ s₉

end Tests

end Jos

