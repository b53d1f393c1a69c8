import Jos.PhysPages

/-!
What `page_free` does with a page that is free already. Its test takes a link for the
sign of a free page; the last page of the list has none, and freeing it again links it to
the head of the list.
-/

namespace Jos

/-- `page_free` of the page panics. -/
def FreePanics (s : Machine) (p : Nat) : Prop :=
  (pageFree p).run s = .error (.panic "pp->pp_ref is nonzero or pp->pp_link is not NULL.")

/-- `l` is the free list: it ends. -/
def FreeList (s : Machine) (l : List Nat) : Prop :=
  Chain (fun p => (s.pages p).ppLink) s.pageFreeList l

/-- The states of the runs of `page_alloc` and `page_free`, with the pages that are
allocated. Their owners change the counts of allocated pages, and a page that is already
free is freed again unless it is the last one of the list. -/
inductive PageRun (s₀ : Machine) : Machine → List Nat → Prop
  | start : PageRun s₀ s₀ []
  | alloc {s s' : Machine} {a : List Nat} {flags : UInt32} {r : Option Nat} (h : PageRun s₀ s a)
      (hrun : (pageAlloc flags).run s = .ok (r, s')) : PageRun s₀ s' (r.toList ++ a)
  | count {s : Machine} {a : List Nat} {p : Nat} {r : UInt16} (h : PageRun s₀ s a)
      (hp : p ∈ a) : PageRun s₀ (s.setRef p r) a
  | free {s s' : Machine} {a : List Nat} {p : Nat} (h : PageRun s₀ s a)
      (hp : p ∈ a ∨ ∃ l, FreeList s l ∧ p ∈ l ∧ l.getLast? ≠ some p)
      (hrun : (pageFree p).run s = .ok ((), s')) : PageRun s₀ s' (a.erase p)

/-- What holds of the allocated pages `a` and the free list `l` throughout. -/
structure PageRunInv (s : Machine) (a l : List Nat) : Prop where
  chain : FreeList s l
  apart : ∀ p ∈ a, p ∉ l
  nodup : a.Nodup
  allocated : ∀ p ∈ a, (s.pages p).ppLink = none
  free : ∀ p ∈ l, (s.pages p).ppRef = 0

variable {s s' s₀ t : Machine} {a l : List Nat} {p : Nat}

theorem freePanics_iff : FreePanics s p ↔ (s.pages p).ppRef ≠ 0 ∨ (s.pages p).ppLink ≠ none := by
  simp only [FreePanics, pageFree, Prog.run_read_bind]
  by_cases h : (s.pages p).ppRef ≠ 0 ∨ (s.pages p).ppLink ≠ none
  · rw [if_pos h]
    exact iff_of_true rfl h
  · rw [if_neg h]
    refine iff_of_false ?_ h
    rintro hrun
    cases hrun

namespace PageRunInv

theorem caught_iff (h : PageRunInv s a l) (hp : p ∈ l) :
    FreePanics s p ↔ l.getLast? ≠ some p := by
  rw [freePanics_iff, h.free p hp]
  simp only [ne_eq, not_true_eq_false, false_or]
  exact not_congr (h.chain.link_none_iff hp)

theorem alloc {flags : UInt32} {r : Option Nat} (h : PageRunInv s a l)
    (hrun : (pageAlloc flags).run s = .ok (r, s')) : ∃ l', PageRunInv s' (r.toList ++ a) l' := by
  obtain ⟨rfl, hrecords⟩ := pageAlloc_records hrun
  cases hhead : s.pageFreeList with
  | none =>
    rw [hhead] at hrecords
    rw [hrecords]
    exact ⟨l, h⟩
  | some p =>
    rw [hhead] at hrecords
    obtain ⟨hpages, hlist⟩ := hrecords
    have hchain := h.chain
    rw [FreeList, hhead] at hchain
    obtain ⟨rest, rfl, hrest⟩ := Chain.some_iff hchain
    have hnot := hchain.not_mem_tail
    have hother : ∀ q, q ≠ p → s'.pages q = s.pages q := by
      intro q hq
      rw [hpages, Machine.takePage_pages, Function.update_of_ne hq]
    refine ⟨rest, ?_, ?_, ?_, ?_, ?_⟩
    · rw [FreeList, hlist, Machine.takePage_pageFreeList]
      exact hrest.congr fun q hq => by rw [hother q (ne_of_mem_of_not_mem hq hnot)]
    · intro q hq
      rcases List.mem_cons.mp hq with rfl | hq
      · exact hnot
      · exact fun hmem => h.apart q hq (List.mem_cons_of_mem p hmem)
    · refine List.nodup_cons.mpr ⟨?_, h.nodup⟩
      exact fun hmem => h.apart p hmem List.mem_cons_self
    · intro q hq
      by_cases hqp : q = p
      · rw [hpages, hqp, Machine.takePage_pages, Function.update_self]
      · rw [hother q hqp]
        exact h.allocated q ((List.mem_cons.mp hq).resolve_left hqp)
    · intro q hq
      rw [hother q (ne_of_mem_of_not_mem hq hnot)]
      exact h.free q (List.mem_cons_of_mem p hq)

theorem count (h : PageRunInv s a l) (hp : p ∈ a) (r : UInt16) :
    PageRunInv (s.setRef p r) a l := by
  have hlink : ∀ q, ((s.setRef p r).pages q).ppLink = (s.pages q).ppLink := by
    intro q
    by_cases hqp : q = p
    · subst hqp
      simp
    · simp [hqp]
  refine ⟨?_, h.apart, h.nodup, ?_, ?_⟩
  · exact Chain.congr h.chain fun q _ => hlink q
  · intro q hq
    rw [hlink]
    exact h.allocated q hq
  · intro q hq
    have hne : q ≠ p := fun hqp => h.apart p hp (hqp ▸ hq)
    simp only [Machine.setRef_pages, Function.update_of_ne hne]
    exact h.free q hq

/-- `page_free` returns for an allocated page without references only. -/
theorem put (h : PageRunInv s a l) (hp : p ∈ a ∨ p ∈ l ∧ l.getLast? ≠ some p)
    (hrun : (pageFree p).run s = .ok ((), s')) : PageRunInv s' (a.erase p) (p :: l) := by
  have hnot : ¬ FreePanics s p := by
    intro hpanic
    rw [hpanic] at hrun
    cases hrun
  have hpa : p ∈ a := by
    refine hp.resolve_right ?_
    rintro ⟨hmem, hlast⟩
    exact hnot ((h.caught_iff hmem).mpr hlast)
  have hpl := h.apart p hpa
  simp only [freePanics_iff, not_or, not_not] at hnot
  rw [pageFree_ok hnot.1 hnot.2] at hrun
  cases hrun
  have hother : ∀ q, q ≠ p → (s.putPage p).pages q = s.pages q := by
    intro q hq
    rw [Machine.putPage_pages, Function.update_of_ne hq]
  have herase : ∀ q, q ∈ a.erase p ↔ q ≠ p ∧ q ∈ a := fun q => h.nodup.mem_erase_iff
  refine ⟨?_, ?_, h.nodup.erase p, ?_, ?_⟩
  · refine Chain.push h.chain ?_ (by simp)
    intro q hq
    rw [hother q (ne_of_mem_of_not_mem hq hpl)]
  · intro q hq
    obtain ⟨hqp, hqa⟩ := (herase q).mp hq
    rw [List.mem_cons, not_or]
    exact ⟨hqp, h.apart q hqa⟩
  · intro q hq
    obtain ⟨hqp, hqa⟩ := (herase q).mp hq
    rw [hother q hqp]
    exact h.allocated q hqa
  · intro q hq
    rcases List.mem_cons.mp hq with rfl | hq
    · rw [Machine.putPage_pages, Function.update_self]
      exact hnot.1
    · rw [hother q (ne_of_mem_of_not_mem hq hpl)]
      exact h.free q hq

end PageRunInv

theorem PageRun.inv (h₀ : PageRunInv s₀ [] l) (hrun : PageRun s₀ t a) :
    ∃ l', PageRunInv t a l' := by
  induction hrun with
  | start => exact ⟨l, h₀⟩
  | alloc _ halloc ih =>
    obtain ⟨l', hinv⟩ := ih
    exact hinv.alloc halloc
  | count _ hp ih =>
    obtain ⟨l', hinv⟩ := ih
    exact ⟨l', hinv.count hp _⟩
  | free _ hp hfree ih =>
    obtain ⟨l', hinv⟩ := ih
    refine ⟨_, hinv.put (hp.imp_right ?_) hfree⟩
    rintro ⟨m, hm, hmem, hlast⟩
    obtain rfl := Chain.unique hm hinv.chain
    exact ⟨hmem, hlast⟩

end Jos
