import Jos.PageInit
import Jos.Unmapped

/-!
Physical pages as the rest of the kernel sees them: the kernel address of a
page, and the allocator over whole runs from the free list that `page_init`
leaves.
-/

namespace Jos

/-- `page2kva` gives the page a kernel address, and the conversions between
pages, physical and kernel addresses undo one another. -/
def KvaValid (s : Machine) (i : Nat) : Prop :=
  ∃ kva, (page2kva i).run s = .ok (kva, s) ∧ kernbase ≤ kva ∧
    (paddr kva).run s = .ok (page2pa i, s) ∧ (page2pa i).toNat = i * pgsize.toNat ∧
    (pa2page (page2pa i)).run s = .ok (i, s)

theorem kvaValid_of_lt {s : Machine} {i : Nat} (hi : i < s.npages) (hlt : i < 65536) :
    KvaValid s i := by
  refine ⟨kva i, page2kva_eq hi (by omega), ?_, paddr_kva hlt, ?_, pa2page_page2pa hi (by omega)⟩
  · have hkva := kva_toNat hlt
    rw [UInt32.le_iff_toNat_le, hkva, kernbase_toNat]
    omega
  · exact page2pa_toNat (by omega)

/-- Beyond 256 MB the sum with `KERNBASE` wraps, and beyond 4 GB the physical
address does. -/
theorem not_kvaValid_of_ge {s : Machine} {i : Nat} (hi : i < s.npages) (hge : 65536 ≤ i) :
    ¬ KvaValid s i := by
  rintro ⟨v, hkva, hle, -, hpa, -⟩
  have hsize : pgsize.toNat = 4096 := rfl
  rw [hsize] at hpa
  have hbound := (page2pa i).toNat_lt
  have hlt : i < 1048576 := by omega
  rw [page2kva_eq hi hlt] at hkva
  obtain ⟨rfl, -⟩ := Prod.mk.inj (Except.ok.inj hkva)
  rw [UInt32.le_iff_toNat_le, kernbase_toNat, ← page2pa_add_kernbase hlt, UInt32.toNat_add,
    kernbase_toNat, hpa] at hle
  omega

/-- With the memory that `i386_detect_memory` finds, the kernel address of a page
is valid exactly when the page lies below 256 MB. -/
theorem kvaValid_iff_below_window (s : Machine) :
    ∃ s', i386DetectMemory.run s = .ok ((), s') ∧ s'.npages = (detected s.nvram).1 ∧
      ∀ i, i < s'.npages → (KvaValid s' i ↔ i < 65536) := by
  refine ⟨_, i386DetectMemory_run s, rfl, ?_⟩
  intro i hi
  constructor
  · intro hvalid
    by_contra hge
    exact not_kvaValid_of_ge hi (by omega) hvalid
  · exact kvaValid_of_lt hi

/-- 640 KB of base memory, and 65552 pages in all. -/
def largeNvram (r : Nat) : UInt8 :=
  if r = 0x15 then 0x80 else if r = 0x16 then 0x02
  else if r = 0x34 then 0x01 else if r = 0x35 then 0x0F else 0

theorem page_65536_without_kva :
    ∃ s', i386DetectMemory.run (.atEntry sampleImage largeNvram (fun _ _ => 0)) = .ok ((), s') ∧
      65536 < s'.npages ∧
      65536 ∈ initList s'.npages s'.npagesBasemem (sampleImage.firstFree s'.npages) ∧
      ¬ KvaValid s' 65536 := by
  refine ⟨_, i386DetectMemory_run _, ?_, ?_, ?_⟩
  · decide
  · exact mem_initList.mpr (.inl (by decide))
  · exact not_kvaValid_of_ge (by decide) (le_refl _)

/-- The state in which `page_init` starts: the records are cleared, the list is
empty, and `ff` is the first free frame behind the memory of `boot_alloc`. -/
structure PageInitEntry (s : Machine) (ff : Nat) : Prop where
  basemem_gt : 1 < s.npagesBasemem
  basemem_le : s.npagesBasemem ≤ (iophysmem / pgsize).toNat
  ff_gt : (extphysmem / pgsize).toNat < ff
  ff_le : ff ≤ s.npages
  nextfree : ff < 65536 ∧ s.nextfree = kva ff
  pages : s.pages = fun _ => { ppLink := none, ppRef := 0 }
  pageFreeList : s.pageFreeList = none

/-- The pages that `page_init` hands to the allocator. -/
def Allocatable (s : Machine) (ff p : Nat) : Prop :=
  (1 ≤ p ∧ p < s.npagesBasemem) ∨ (ff ≤ p ∧ p < s.npages)

/-- The states of the runs of `page_alloc` and of `page_free` of allocated
pages, with the pages that are allocated. -/
inductive AllocRun (s₀ : Machine) : Machine → List Nat → Prop
  | start : AllocRun s₀ s₀ []
  | none {s s' : Machine} {a : List Nat} {flags : UInt32} (h : AllocRun s₀ s a)
      (hrun : (pageAlloc flags).run s = .ok (none, s')) : AllocRun s₀ s' a
  | alloc {s s' : Machine} {a : List Nat} {flags : UInt32} {p : Nat} (h : AllocRun s₀ s a)
      (hrun : (pageAlloc flags).run s = .ok (some p, s')) : AllocRun s₀ s' (p :: a)
  | free {s s' : Machine} {a : List Nat} {p : Nat} (h : AllocRun s₀ s a) (hp : p ∈ a)
      (href : (s.pages p).ppRef = 0) (hrun : (pageFree p).run s = .ok ((), s')) :
      AllocRun s₀ s' (a.erase p)

/-- What holds of the free list `l` and the allocated pages `a` throughout. -/
structure AllocInv (managed : List Nat) (s : Machine) (a l : List Nat) : Prop where
  chain : Chain (fun p => (s.pages p).ppLink) s.pageFreeList l
  perm : (a ++ l).Perm managed
  allocated : ∀ p ∈ a, s.pages p = { ppLink := none, ppRef := 0 }
  free : ∀ p ∈ l, (s.pages p).ppRef = 0

theorem page2kva_state {p : Nat} {v : UInt32} {s s' : Machine}
    (h : (page2kva p).run s = .ok (v, s')) : s' = s := by
  simp only [page2kva, kaddr, Prog.run_read_bind] at h
  split at h
  · cases h
  · exact (Prod.mk.inj (Except.ok.inj h)).2.symm

theorem kmemset_records {p : UInt32} {c : UInt8} {n : Nat} {s s' : Machine}
    (h : (kmemset p c n).run s = .ok ((), s')) :
    s'.pages = s.pages ∧ s'.pageFreeList = s.pageFreeList := by
  simp only [kmemset, Prog.run_read_bind, id] at h
  split at h
  · cases h
    exact ⟨rfl, rfl⟩
  · split at h
    · split at h
      · cases h
        exact ⟨rfl, rfl⟩
      · cases h
    · cases h

/-- What `page_alloc` returns and leaves, whatever its flags. -/
theorem pageAlloc_records {flags : UInt32} {s s' : Machine} {r : Option Nat}
    (h : (pageAlloc flags).run s = .ok (r, s')) :
    r = s.pageFreeList ∧ match s.pageFreeList with
      | none => s' = s
      | some p => s'.pages = (s.takePage p).pages ∧
        s'.pageFreeList = (s.takePage p).pageFreeList := by
  cases hhead : s.pageFreeList with
  | none =>
    rw [pageAlloc_none flags hhead] at h
    obtain ⟨rfl, rfl⟩ := Prod.mk.inj (Except.ok.inj h)
    exact ⟨rfl, rfl⟩
  | some p =>
    simp only [pageAlloc, Prog.run_read_bind, hhead, setPageFreeList, setPage,
      Prog.run_update_bind] at h
    split at h
    · obtain ⟨v, t, hkva, hset⟩ := Prog.bind_eq_ok.mp h
      obtain ⟨_, u, hmem, hret⟩ := Prog.bind_eq_ok.mp hset
      obtain ⟨hpages, hlist⟩ := kmemset_records hmem
      obtain rfl := page2kva_state hkva
      cases hret
      exact ⟨rfl, hpages, hlist⟩
    · cases h
      exact ⟨rfl, rfl, rfl⟩

/-- `page_alloc` comes to its end; to clear a page it must be able to reach it. -/
theorem pageAlloc_returns {flags : UInt32} {s : Machine}
    (hzero : flags &&& allocZero ≠ 0 → ∀ p, s.pageFreeList = some p →
      p < s.npages ∧ InWindow s p) :
    ∃ r s', (pageAlloc flags).run s = .ok (r, s') := by
  cases hhead : s.pageFreeList with
  | none => exact ⟨_, _, pageAlloc_none flags hhead⟩
  | some p =>
    by_cases hflag : flags &&& allocZero ≠ 0
    · obtain ⟨hp, hw⟩ := hzero hflag p hhead
      have hlt := hw.lt
      refine ⟨some p, (s.takePage p).setMem (s.mem.zeroFrame p), ?_⟩
      simp only [pageAlloc, Prog.run_read_bind, hhead, setPageFreeList, setPage,
        Prog.run_update_bind, if_pos hflag]
      rw [Prog.bind_of_ok (page2kva_eq (by exact hp) (by omega)),
        Prog.bind_of_ok (kmemset_page (by exact hw))]
      rfl
    · refine ⟨some p, s.takePage p, ?_⟩
      simp only [pageAlloc, Prog.run_read_bind, hhead, setPageFreeList, setPage,
        Prog.run_update_bind, if_neg hflag]
      rfl

theorem AllocInv.init {s : Machine} {ff : Nat} (h : PageInitEntry s ff) :
    AllocInv (initList s.npages s.npagesBasemem ff)
      (s.withRecords (initPages s.npages s.npagesBasemem ff)
        (initHead s.npages s.npagesBasemem ff)) []
      (initList s.npages s.npagesBasemem ff) := by
  have hio : (iophysmem / pgsize).toNat = 160 := by decide
  have hext : (extphysmem / pgsize).toNat = 256 := by decide
  have hbase := h.basemem_le
  have hgt := h.ff_gt
  rw [hio] at hbase
  rw [hext] at hgt
  constructor
  · exact initPages_chain (by omega) (.inr (by omega))
  · exact List.Perm.refl _
  · simp
  · intro p hp
    change (initPages s.npages s.npagesBasemem ff p).ppRef = 0
    rw [initPages_ref (by omega), if_neg]
    rcases mem_initList.mp hp with hhigh | hlow
    all_goals omega

namespace AllocInv

variable {managed a l : List Nat} {s s' : Machine} {p : Nat}

theorem nodup (h : AllocInv managed s a l) (hm : managed.Nodup) : (a ++ l).Nodup :=
  h.perm.nodup_iff.mpr hm

theorem take (h : AllocInv managed s a l) (hm : managed.Nodup) (hp : s.pageFreeList = some p)
    (hpages : s'.pages = (s.takePage p).pages)
    (hlist : s'.pageFreeList = (s.takePage p).pageFreeList) :
    ∃ rest, l = p :: rest ∧ AllocInv managed s' (p :: a) rest := by
  have hchain := h.chain
  rw [hp] at hchain
  obtain ⟨rest, rfl, hrest⟩ := Chain.some_iff hchain
  have hnodup := h.nodup hm
  have hne : ∀ q ∈ a ++ rest, q ≠ p := by
    rintro q hq rfl
    have hperm : (a ++ q :: rest).Perm (q :: (a ++ rest)) := List.perm_middle
    exact (List.nodup_cons.mp (hperm.nodup_iff.mp hnodup)).1 hq
  have hother : ∀ q, q ≠ p → s'.pages q = s.pages q := by
    intro q hq
    rw [hpages, Machine.takePage_pages, Function.update_of_ne hq]
  refine ⟨rest, rfl, ?_, ?_, ?_, ?_⟩
  · rw [hlist, Machine.takePage_pageFreeList]
    apply hrest.congr
    intro q hq
    rw [hother q (hne q (List.mem_append_right a hq))]
  · exact List.perm_middle.symm.trans h.perm
  · intro q hq
    by_cases hqp : q = p
    · rw [hpages, hqp, Machine.takePage_pages, Function.update_self]
    · rw [hother q hqp]
      exact h.allocated q ((List.mem_cons.mp hq).resolve_left hqp)
  · intro q hq
    rw [hother q (hne q (List.mem_append_right a hq))]
    exact h.free q (List.mem_cons_of_mem p hq)

theorem put (h : AllocInv managed s a l) (hm : managed.Nodup) (hp : p ∈ a) :
    (pageFree p).run s = .ok ((), s.putPage p) ∧
      AllocInv managed (s.putPage p) (a.erase p) (p :: l) := by
  have hnodup := h.nodup hm
  have hinfo := h.allocated p hp
  have hl : p ∉ l := fun hmem => (List.nodup_append.mp hnodup).2.2 p hp p hmem rfl
  have hother : ∀ q, q ≠ p → (s.putPage p).pages q = s.pages q := by
    intro q hq
    rw [Machine.putPage_pages, Function.update_of_ne hq]
  refine ⟨pageFree_ok (by rw [hinfo]) (by rw [hinfo]), ?_, ?_, ?_, ?_⟩
  · rw [Machine.putPage_pageFreeList]
    apply h.chain.push
    · intro q hq
      rw [hother q (fun heq => hl (heq ▸ hq))]
    · rw [Machine.putPage_pages, Function.update_self]
  · apply List.Perm.trans _ h.perm
    apply List.perm_middle.trans
    rw [← List.cons_append]
    exact (List.perm_cons_erase hp).symm.append_right l
  · intro q hq
    have hane : q ≠ p := fun heq => (List.Nodup.mem_erase_iff
      (List.Nodup.of_append_left hnodup)).mp hq |>.1 heq
    rw [hother q hane]
    exact h.allocated q (List.mem_of_mem_erase hq)
  · intro q hq
    rcases List.mem_cons.mp hq with rfl | hq
    · rw [Machine.putPage_pages, Function.update_self, hinfo]
    · rw [hother q (fun heq => hl (heq ▸ hq))]
      exact h.free q hq

end AllocInv

theorem initList_nodup {s : Machine} {ff : Nat} (h : PageInitEntry s ff) :
    (initList s.npages s.npagesBasemem ff).Nodup :=
  (AllocInv.init h).chain.nodup

theorem mem_initList_iff (s : Machine) (ff p : Nat) :
    p ∈ initList s.npages s.npagesBasemem ff ↔ Allocatable s ff p := by
  unfold Allocatable
  rw [mem_initList]
  exact or_comm

theorem AllocRun.inv {managed l₀ : List Nat} {s₀ t : Machine} {a : List Nat}
    (hm : managed.Nodup) (h₀ : AllocInv managed s₀ [] l₀) (h : AllocRun s₀ t a) :
    ∃ l, AllocInv managed t a l := by
  induction h with
  | start => exact ⟨l₀, h₀⟩
  | none _ hrun ih =>
    obtain ⟨l, hinv⟩ := ih
    obtain ⟨hhead, hsame⟩ := pageAlloc_records hrun
    rw [← hhead] at hsame
    dsimp only at hsame
    rw [hsame]
    exact ⟨l, hinv⟩
  | alloc _ hrun ih =>
    obtain ⟨l, hinv⟩ := ih
    obtain ⟨hhead, hrecords⟩ := pageAlloc_records hrun
    rw [← hhead] at hrecords
    obtain ⟨hpages, hlist⟩ := hrecords
    obtain ⟨rest, -, hnext⟩ := hinv.take hm hhead.symm hpages hlist
    exact ⟨rest, hnext⟩
  | free _ hp _ hrun ih =>
    obtain ⟨l, hinv⟩ := ih
    obtain ⟨hfree, hnext⟩ := hinv.put hm hp
    rw [hfree] at hrun
    obtain ⟨-, rfl⟩ := Prod.mk.inj (Except.ok.inj hrun)
    exact ⟨_, hnext⟩

/-- `page_alloc` finds nothing exactly when every page is allocated. -/
theorem AllocInv.head_none_iff {managed a l : List Nat} {t : Machine}
    (h : AllocInv managed t a l) (hm : managed.Nodup) :
    t.pageFreeList = none ↔ ∀ p ∈ managed, p ∈ a := by
  have hhead := h.chain.head_eq
  constructor
  · intro hnone p hp
    have hl : l = [] := by
      rw [hnone] at hhead
      exact List.head?_eq_none_iff.mp hhead.symm
    have hmem := h.perm.mem_iff.mpr hp
    rwa [hl, List.append_nil] at hmem
  · intro hall
    cases l with
    | nil => exact hhead
    | cons p l =>
      have hp : p ∈ managed := h.perm.mem_iff.mp (List.mem_append_right a List.mem_cons_self)
      have hdisj := (List.nodup_append.mp (h.nodup hm)).2.2 p (hall p hp) p List.mem_cons_self
      exact absurd rfl hdisj

/-- `page_init` leaves a list of exactly the allocatable pages, and over every
run of `page_alloc` and `page_free` from there the allocator hands out each of
them to one owner at a time and no other page. It fails only where `page_alloc` has to clear
a page that the kernel cannot reach. -/
theorem page_allocator {s : Machine} {ff : Nat} (h : PageInitEntry s ff) :
    ∃ s₀, pageInit.run s = .ok ((), s₀) ∧
      (∃ l, Chain (fun p => (s₀.pages p).ppLink) s₀.pageFreeList l ∧ l.Nodup ∧
        (∀ p, p ∈ l ↔ Allocatable s ff p) ∧ ∀ p ∈ l, (s₀.pages p).ppRef = 0) ∧
      ∀ t a, AllocRun s₀ t a →
        (∀ flags, (flags &&& allocZero ≠ 0 → ∀ p, t.pageFreeList = some p →
            p < t.npages ∧ InWindow t p) → ∃ r t', (pageAlloc flags).run t = .ok (r, t')) ∧
        (∀ flags r t', (pageAlloc flags).run t = .ok (r, t') →
          (r = none ↔ ∀ p, Allocatable s ff p → p ∈ a) ∧
          ∀ p, r = some p → Allocatable s ff p ∧ p ≠ 0 ∧
            ¬ ((iophysmem / pgsize).toNat ≤ p ∧ p < ff) ∧ p ∉ a) ∧
        (∀ p ∈ a, ∃ t', (pageFree p).run t = .ok ((), t')) ∧
        ∃ l, Chain (fun p => (t.pages p).ppLink) t.pageFreeList l ∧
          l.length + a.length = (s.npagesBasemem - 1) + (s.npages - ff) := by
  have hinit := AllocInv.init h
  have hm := initList_nodup h
  have hmem := mem_initList_iff s ff
  refine ⟨_, pageInit_run h.nextfree.1 h.nextfree.2 h.pages h.pageFreeList, ?_, ?_⟩
  · exact ⟨_, hinit.chain, hm, hmem, hinit.free⟩
  · intro t a hrun
    obtain ⟨l, hinv⟩ := hrun.inv hm hinit
    refine ⟨fun _ => pageAlloc_returns, ?_, ?_, ?_⟩
    · intro flags r t' halloc
      obtain ⟨rfl, -⟩ := pageAlloc_records halloc
      constructor
      · rw [hinv.head_none_iff hm]
        exact forall_congr' fun p => imp_congr_left (hmem p)
      · intro p hp
        have hl : p ∈ l := by
          have hhead := hinv.chain.head_eq
          rw [hp] at hhead
          exact List.mem_of_mem_head? hhead.symm
        have halloc : Allocatable s ff p :=
          (hmem p).mp (hinv.perm.mem_iff.mp (List.mem_append_right a hl))
        have hbase := h.basemem_le
        have hgt := h.ff_gt
        have hio : (iophysmem / pgsize).toNat = 160 := by decide
        have hext : (extphysmem / pgsize).toNat = 256 := by decide
        rw [hio] at hbase ⊢
        rw [hext] at hgt
        refine ⟨halloc, ?_, ?_, ?_⟩
        · rcases halloc with hlow | hhigh
          all_goals omega
        · rcases halloc with hlow | hhigh
          all_goals omega
        · intro ha
          exact (List.nodup_append.mp (hinv.nodup hm)).2.2 p ha p hl rfl
    · intro p hp
      exact ⟨_, (hinv.put hm hp).1⟩
    · refine ⟨l, hinv.chain, ?_⟩
      have hlen := hinv.perm.length_eq
      rw [List.length_append, initList, List.length_append, List.length_reverse,
        List.length_reverse, List.length_range', List.length_range'] at hlen
      omega

/-- 640 KB of base memory, 4 MB in all, and the kernel's memory up to frame 307. -/
def pageInitSample : Machine :=
  { Machine.atEntry sampleImage (fun _ => 0) (fun _ _ => 0) with
    npages := 1024
    npagesBasemem := 160
    nextfree := 0xF0133000 }

/-- A page is handed out and given back. -/
theorem page_allocator_sample :
    ∃ s₀ t u p, pageInit.run pageInitSample = .ok ((), s₀) ∧
      (pageAlloc 0).run s₀ = .ok (some p, t) ∧ (pageFree p).run t = .ok ((), u) ∧
      ∃ l, Chain (fun p => (u.pages p).ppLink) u.pageFreeList l ∧
        l.length = 159 + (1024 - 307) := by
  obtain ⟨s₀, hrun, -, hruns⟩ := @page_allocator pageInitSample 307
    ⟨by decide, by decide, by decide, by decide, ⟨by decide, by decide⟩, rfl, rfl⟩
  obtain ⟨hreturns, hresult, -, -⟩ := hruns s₀ [] .start
  obtain ⟨r, t, halloc⟩ := hreturns 0 fun h => absurd rfl h
  have hsome : r ≠ none := fun hnone =>
    List.not_mem_nil ((hresult 0 r t halloc).1.mp hnone 1 (.inl (by decide)))
  obtain ⟨p, rfl⟩ := Option.ne_none_iff_exists'.mp hsome
  have htaken : AllocRun s₀ t [p] := .alloc .start halloc
  obtain ⟨-, -, hfrees, -⟩ := hruns t [p] htaken
  obtain ⟨u, hfree⟩ := hfrees p List.mem_cons_self
  obtain ⟨hhead, hrecords⟩ := pageAlloc_records halloc
  rw [← hhead] at hrecords
  have href : (t.pages p).ppRef = 0 := by
    rw [hrecords.1, Machine.takePage_pages, Function.update_self]
  obtain ⟨-, -, -, l, hchain, hlen⟩ := hruns u _ (.free htaken List.mem_cons_self href hfree)
  rw [List.erase_cons_head] at hlen
  exact ⟨s₀, t, u, p, hrun, halloc, hfree, l, hchain, hlen⟩

end Jos
