import Jos.EnvRuns

/-!
Runs of the calls that hand out, map and give back physical pages. A call comes
with the contract of its callers; `MemRuns` also takes a condition on the calls,
for results that need more than the contract. As long as no reference count
overflows, the invariant holds in every state of a run.
-/

namespace Jos

variable {L : Layout} {fl : List Nat} {s s₀ s' : Machine} {e : Fin nenv} {f p : Nat}

inductive MemCall where
  | pageAlloc (allocFlags : UInt32)
  | pageFree (pp : Nat)
  | pageInsert (e : Fin nenv) (pp : Nat) (va perm : UInt32)
  | pageRemove (e : Fin nenv) (va : UInt32)
  | envAlloc (parentId : Int32)
  | envFree (e : Fin nenv)
  | envRun (e : Fin nenv)

/-- The page `p` was handed out and is not back on the free list. -/
def Allocated (L : Layout) (s : Machine) (p : Nat) : Prop :=
  L.Managed p ∧ ∃ l, Chain (fun q => (s.pages q).ppLink) s.pageFreeList l ∧ p ∉ l

/-- The page that the environment `e` has mapped at `va`. -/
def mappedAt (s : Machine) (e : Fin nenv) (va : UInt32) : Option Nat :=
  pteFrame s.mem s.envs e (pdxIdx va) (ptxIdx va)

namespace MemCall

/-- What the callers promise. -/
def Contract (L : Layout) (s : Machine) : MemCall → Prop
  | pageAlloc _ => True
  | pageFree pp => Allocated L s pp ∧ ∀ x, own s.mem s.envs x ≠ some pp
  | pageInsert e pp va perm =>
    (s.envs e).envStatus ≠ .free ∧ Allocated L s pp ∧ va < utop ∧ perm.toNat < 4096
  | pageRemove e va =>
    (s.envs e).envStatus ≠ .free ∧ va < utop ∧ mappedAt s e va ≠ none
  | envAlloc _ => True
  | envFree e => (s.envs e).envStatus ≠ .free
  | envRun e => (s.envs e).envStatus ≠ .free

/-- The call returns and leaves the state `s'`. -/
def Returns (s s' : Machine) : MemCall → Prop
  | pageAlloc allocFlags => ∃ r, (Jos.pageAlloc allocFlags).run s = .ok (r, s')
  | pageFree pp => (Jos.pageFree pp).run s = .ok ((), s')
  | pageInsert e pp va perm =>
    ∃ r, (Jos.pageInsert (s.envs e).envPgdir pp va perm).run s = .ok (r, s')
  | pageRemove e va => (Jos.pageRemove (s.envs e).envPgdir va).run s = .ok ((), s')
  | envAlloc parentId => ∃ r, (Jos.envAlloc parentId).run s = .ok (r, s')
  | envFree e => (Jos.envFree e).run s = .ok ((), s')
  | envRun e => (Jos.envRun e).run s = .ok ((), s')

/-- The 16-bit count of a page that gets a new mapping is not at its limit. -/
def CountFits (s : Machine) : MemCall → Prop
  | pageInsert e pp va _ => mappedAt s e va ≠ some pp → (s.pages pp).ppRef.toNat < 65535
  | _ => True

end MemCall

/-- The states reached from `s₀` by calls that keep their contract and meet `ok`. -/
inductive MemRuns (L : Layout) (ok : Machine → MemCall → Prop) (s₀ : Machine) : Machine → Prop
  | start : MemRuns L ok s₀ s₀
  | call {s s' : Machine} {c : MemCall} (h : MemRuns L ok s₀ s) (hc : c.Contract L s)
      (hok : ok s c) (hret : c.Returns s s') : MemRuns L ok s₀ s'

/-- A free list in the state is the one of the invariant. -/
theorem KInv.chain_eq (h : KInv L fl s) {l : List Nat}
    (hl : Chain (fun q => (s.pages q).ppLink) s.pageFreeList l) : l = fl :=
  hl.unique h.pool.chain

theorem KInv.allocated_iff (h : KInv L fl s) : Allocated L s p ↔ L.Managed p ∧ p ∉ fl := by
  constructor
  · rintro ⟨hmanaged, l, hl, hp⟩
    rw [h.chain_eq hl] at hp
    exact ⟨hmanaged, hp⟩
  · rintro ⟨hmanaged, hp⟩
    exact ⟨hmanaged, fl, h.pool.chain, hp⟩

/-- The page directory of a live environment. -/
theorem KInv.live_dir (h : KInv L fl s) (hlive : (s.envs e).envStatus ≠ .free) :
    ∃ f, dirFrame s.envs e = some f ∧ (s.envs e).envPgdir = kva f := by
  have hf := dirFrame_eq_some.mpr ⟨hlive, rfl⟩
  exact ⟨_, hf, h.dir_kva hf⟩

theorem KInv.zeroFree (h : KInv L (p :: fl) s) :
    KInv L fl ((s.takePage p).setMem (s.mem.zeroFrame p)) := by
  have hmem : p ∈ p :: fl := List.mem_cons_self
  refine h.takePage.setMem ?_ ?_
  · intro x g _ hx
    refine Mem.zeroFrame_frame _ ?_
    rintro rfl
    exact h.free_not_owned hmem x hx
  · intro g hg
    refine Mem.zeroFrame_frame _ ?_
    rintro rfl
    exact h.free_not_kernel hmem hg

/-- `page_alloc` returns `NULL` exactly when no page is free, else the first free
page, cleared when `ALLOC_ZERO` is set. -/
theorem KInv.pageAlloc (h : KInv L fl s) (allocFlags : UInt32) :
    (fl = [] ∧ (pageAlloc allocFlags).run s = .ok (none, s)) ∨
    ∃ p fl', fl = p :: fl' ∧ ∃ s', (pageAlloc allocFlags).run s = .ok (some p, s') ∧
      s' = (if allocFlags &&& allocZero = 0 then s.takePage p
        else (s.takePage p).setMem (s.mem.zeroFrame p)) ∧ KInv L fl' s' := by
  cases fl with
  | nil => exact .inl ⟨rfl, pageAlloc_none allocFlags h.head_eq⟩
  | cons p fl' =>
    right
    have hmanaged := h.free_managed (p := p) List.mem_cons_self
    have hp16 := h.good.lt hmanaged
    have hpage := page2kva_eq (s := s.takePage p) (h.lt_npages hmanaged) (by omega)
    refine ⟨p, fl', rfl, ?_⟩
    by_cases hzero : allocFlags &&& allocZero = 0
    · refine ⟨_, ?_, (if_pos hzero).symm, h.takePage⟩
      simp [Jos.pageAlloc, h.head_eq, setPageFreeList, setPage, hzero, Machine.takePage]
    · refine ⟨_, ?_, (if_neg hzero).symm, h.zeroFree⟩
      have hclear := kmemset_page (s := s.takePage p) (h.takePage.inWindow hp16)
      simp only [Jos.pageAlloc, Prog.run_read_bind, h.head_eq, List.head?_cons, setPageFreeList,
        setPage, Prog.run_update_bind, hzero, ne_eq, not_false_eq_true, if_true]
      exact (Prog.bind_of_ok hpage).trans (Prog.bind_of_ok hclear)

/-- The invariant of the memory and of the table of environments. -/
structure MemInv (L : Layout) (fl : List Nat) (gens : Fin nenv → Nat) (efl : List (Fin nenv))
    (s : Machine) : Prop where
  kinv : KInv L fl s
  table : EnvTable gens efl s

theorem EnvTable.pagesOnly {gens : Fin nenv → Nat} {efl : List (Fin nenv)}
    (h : EnvTable gens efl s) (hs : PagesOnly s s') : EnvTable gens efl s' := by
  refine ⟨?_, ?_, ?_, ?_, ?_⟩
  all_goals simp only [hs.envs, hs.envFreeList, hs.curenv]
  · exact h.chain
  · exact h.free
  · exact h.id
  · exact h.live
  · exact h.running

variable {gens : Fin nenv → Nat} {efl : List (Fin nenv)}

/-- One call keeps the invariant. -/
theorem MemInv.call (h : MemInv L fl gens efl s) {c : MemCall} (hc : c.Contract L s)
    (hfits : c.CountFits s) (hret : c.Returns s s') :
    ∃ fl' gens' efl', MemInv L fl' gens' efl' s' := by
  have hk := h.kinv
  cases c with
  | pageAlloc allocFlags =>
    obtain ⟨r, hrun⟩ := hret
    rcases hk.pageAlloc allocFlags with ⟨-, hr⟩ | ⟨p, fl', rfl, t, hr, ht, hinv⟩
    · rw [hr] at hrun
      cases hrun
      exact ⟨fl, gens, efl, h⟩
    · rw [hr] at hrun
      cases hrun
      refine ⟨fl', gens, efl, hinv, h.table.pagesOnly ?_⟩
      rw [ht]
      split <;> rfl
  | pageFree pp =>
    obtain ⟨halloc, -⟩ := hc
    obtain ⟨hmanaged, hfree⟩ := hk.allocated_iff.mp halloc
    have hlink := hk.pool.unlinked pp hmanaged hfree
    have href : (s.pages pp).ppRef = 0 := by
      by_contra hne
      have hpanic : (pageFree pp).run s =
          .error (.panic "pp->pp_ref is nonzero or pp->pp_link is not NULL.") := by
        simp [Jos.pageFree, panic, hne]
      rw [MemCall.Returns, hpanic] at hret
      cases hret
    rw [MemCall.Returns, pageFree_ok href hlink] at hret
    cases hret
    exact ⟨pp :: fl, gens, efl, hk.putPage hmanaged hfree href, h.table.pagesOnly rfl⟩
  | pageInsert e pp va perm =>
    obtain ⟨hlive, halloc, hva, hperm⟩ := hc
    obtain ⟨r, hrun⟩ := hret
    obtain ⟨hmanaged, hfree⟩ := hk.allocated_iff.mp halloc
    obtain ⟨f, hf, hpgdir⟩ := hk.live_dir hlive
    rw [hpgdir] at hrun
    rcases hk.pageInsert hf (pdxIdx_lt_userPdes hva) hmanaged hfree hperm with
      ⟨-, -, hr⟩ | ⟨t, fl', hr, hins, hinv⟩
    · rw [hr] at hrun
      cases hrun
      exact ⟨fl, gens, efl, h⟩
    · rw [hr] at hrun
      cases hrun
      exact ⟨fl', gens, efl, hinv hfits, h.table.pagesOnly hins.rest⟩
  | pageRemove e va =>
    obtain ⟨hlive, -, hmapped⟩ := hc
    obtain ⟨f, hf, hpgdir⟩ := hk.live_dir hlive
    obtain ⟨p, hp⟩ := Option.ne_none_iff_exists'.mp hmapped
    obtain ⟨g, hg, -⟩ := pteFrame_eq_some.mp hp
    rw [MemCall.Returns, hpgdir, hk.pageRemove hf hg hp] at hret
    cases hret
    exact ⟨_, gens, efl, (hk.unmapped hg hp).1, h.table.pagesOnly rfl⟩
  | envAlloc parentId =>
    obtain ⟨r, hrun⟩ := hret
    rcases envAlloc_cases hk h.table parentId with ⟨-, hr⟩ | ⟨-, -, hr⟩ |
      ⟨e, efl', f, fl', rfl, rfl, hr⟩
    · rw [hr] at hrun
      cases hrun
      exact ⟨fl, gens, efl, h⟩
    · rw [hr] at hrun
      cases hrun
      exact ⟨fl, gens, efl, h⟩
    · rw [hr] at hrun
      cases hrun
      have hfree : (s.envs e).envStatus = .free := (h.table.free e).mp List.mem_cons_self
      exact ⟨fl', _, efl', (hk.newEnv parentId hfree).1, h.table.newEnv f L.kd parentId⟩
  | envFree e =>
    obtain ⟨t, fl', hr, hfreed⟩ := hk.envFree hc
    rw [MemCall.Returns, hr] at hret
    cases hret
    exact ⟨fl', gens, _, hfreed.inv, h.table.freed hc hfreed⟩
  | envRun e =>
    obtain ⟨f, hf, -⟩ := hk.live_dir hc
    rw [MemCall.Returns, envRun_ok hk hf] at hret
    cases hret
    exact ⟨fl, gens, efl, hk.ran hf, h.table.ran hc _⟩

/-- While the counts fit, every state of a run satisfies the invariant. -/
theorem MemRuns.inv (h : MemInv L fl gens efl s₀)
    (hrun : MemRuns L (fun s c => c.CountFits s) s₀ s) :
    ∃ fl' gens' efl', MemInv L fl' gens' efl' s := by
  induction hrun with
  | start => exact ⟨fl, gens, efl, h⟩
  | call _ hc hok hret ih =>
    obtain ⟨fl', gens', efl', hinv⟩ := ih
    exact hinv.call hc hok hret

/-- No page that some page table still maps is free, and no count is below the
number of references. -/
structure CountsKept (s : Machine) : Prop where
  mapped : ∀ e va p, mappedAt s e va = some p →
    ∀ l, Chain (fun q => (s.pages q).ppLink) s.pageFreeList l → p ∉ l
  refs : ∀ e va p, mappedAt s e va = some p →
    refs (own s.mem s.envs) p ≤ (s.pages p).ppRef.toNat

theorem KInv.countsKept (h : KInv L fl s) : CountsKept s where
  mapped := by
    intro e va p hp l hl hmem
    rw [h.chain_eq hl] at hmem
    exact h.free_not_owned hmem (.pte e (pdxIdx va) (ptxIdx va)) hp
  refs := by
    intro e va p hp
    have hcnt := h.pool.counted p (h.owned_managed (x := .pte e _ _) hp)
    omega

end Jos
