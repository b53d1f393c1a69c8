import Jos.RefWrap

/-!
Reference counts and ownership: in every run in which no page gets more references
than 16 bits can count, the count of a page is the number of entries and page
directories that refer to it, and the free list holds unreferenced pages only.
-/

namespace Jos

variable {L : Layout} {fl fl' : List Nat} {s s₀ s' : Machine} {e : Fin nenv} {f p : Nat}
  {va perm : UInt32} {gens : Fin nenv → Nat} {efl : List (Fin nenv)}

/-- The present entries below `UTOP` that map the page `p`, in the page tables of
live environments. -/
def pteRefs (s : Machine) (p : Nat) : Nat :=
  (Finset.univ.filter fun i : Fin nenv × Fin 1024 × Fin 1024 =>
    pteFrame s.mem s.envs i.1 i.2.1 i.2.2 = some p).card

/-- The present directory entries below `UTOP` that use `p` as page table. -/
def pdeRefs (s : Machine) (p : Nat) : Nat :=
  (Finset.univ.filter fun i : Fin nenv × Fin 1024 =>
    pdeFrame s.mem s.envs i.1 i.2 = some p).card

/-- Some live environment uses `p` as page directory. -/
def IsPgdir (s : Machine) (p : Nat) : Prop := ∃ e, dirFrame s.envs e = some p

instance (s : Machine) (p : Nat) : Decidable (IsPgdir s p) :=
  inferInstanceAs (Decidable (∃ e, dirFrame s.envs e = some p))

def Slot.equiv :
    Slot ≃ Fin nenv ⊕ (Fin nenv × Fin 1024) ⊕ (Fin nenv × Fin 1024 × Fin 1024) where
  toFun
    | .dir e => .inl e
    | .pde e d => .inr (.inl (e, d))
    | .pte e d t => .inr (.inr (e, d, t))
  invFun
    | .inl e => .dir e
    | .inr (.inl (e, d)) => .pde e d
    | .inr (.inr (e, d, t)) => .pte e d t
  left_inv x := by cases x <;> rfl
  right_inv x := by rcases x with e | ⟨e, d⟩ | ⟨e, d, t⟩ <;> rfl

theorem card_dirs (h : TableInv L s.mem s.envs) (p : Nat) :
    (Finset.univ.filter fun e : Fin nenv => dirFrame s.envs e = some p).card =
      if IsPgdir s p then 1 else 0 := by
  split
  · rename_i hdir
    obtain ⟨e, he⟩ := hdir
    refine Finset.card_eq_one.mpr ⟨e, ?_⟩
    ext e'
    simp only [Finset.mem_filter, Finset.mem_univ, true_and, Finset.mem_singleton]
    constructor
    · intro he'
      exact h.dir_unique he he'
    · rintro rfl
      exact he
  · rename_i hdir
    rw [Finset.card_eq_zero, Finset.filter_eq_empty_iff]
    intro e _ he
    exact hdir ⟨e, he⟩

/-- The references of the pool are those of the entries and directories. -/
theorem refs_own (h : TableInv L s.mem s.envs) (p : Nat) :
    refs (own s.mem s.envs) p =
      pteRefs s p + pdeRefs s p + if IsPgdir s p then 1 else 0 := by
  have hcard : refs (own s.mem s.envs) p =
      ((Finset.univ.filter fun e : Fin nenv => dirFrame s.envs e = some p).disjSum
        ((Finset.univ.filter fun i : Fin nenv × Fin 1024 =>
            pdeFrame s.mem s.envs i.1 i.2 = some p).disjSum
          (Finset.univ.filter fun i : Fin nenv × Fin 1024 × Fin 1024 =>
            pteFrame s.mem s.envs i.1 i.2.1 i.2.2 = some p))).card := by
    refine Finset.card_equiv Slot.equiv ?_
    intro x
    rw [Finset.mem_filter]
    cases x <;> simp [Slot.equiv, own]
  rw [hcard, Finset.card_disjSum, Finset.card_disjSum, card_dirs h, pteRefs, pdeRefs]
  omega

/-- The page that `page_insert` maps comes from `page_alloc`: it is no page table
that `mem_init` built. -/
def MemCall.InsertsAllocated (L : Layout) : MemCall → Prop
  | .pageInsert _ pp _ _ => ¬ L.IsKpt pp
  | _ => True

/-- No page gets more references than 16 bits can count. -/
def MemCall.Countable (L : Layout) (s : Machine) (c : MemCall) : Prop :=
  c.InsertsAllocated L ∧ ∀ s', c.Returns s s' → ∀ p, refs (own s'.mem s'.envs) p ≤ 65535

/-- A new mapping adds one reference to its page. -/
theorem Inserted.refs_eq (hins : Inserted e f p va perm s fl s' fl') (hfree : p ∉ fl)
    (hne : mappedAt s e va ≠ some p) :
    refs (own s'.mem s'.envs) p = refs (own s.mem s.envs) p + 1 := by
  obtain ⟨g, hbefore, hown⟩ := hins.own_eq
  have htable : refs (Function.update (own s.mem s.envs) (.pde e (pdxIdx va)) (some g)) p =
      refs (own s.mem s.envs) p := by
    rcases hbefore with hsame | ⟨hnone, hmem⟩
    · have hself : Function.update (own s.mem s.envs) (.pde e (pdxIdx va)) (some g) =
          own s.mem s.envs := Function.update_eq_self_iff.mpr hsame.symm
      rw [hself]
    · have hgp : g ≠ p := ne_of_mem_of_not_mem hmem hfree
      rw [refs_attach (x := Slot.pde e (pdxIdx va)) hnone g, if_neg hgp, Nat.add_zero]
  rw [hown, refs_gain, htable]
  rw [Function.update_of_ne (by simp)]
  exact hne

theorem MemInv.call_countable (h : MemInv L fl gens efl s) {c : MemCall} (hc : c.Contract L s)
    (hok : c.Countable L s) (hret : c.Returns s s') :
    ∃ fl' gens' efl', MemInv L fl' gens' efl' s' := by
  have hfits : c.CountFits s ∨ s' = s := by
    cases c with
    | pageInsert e pp va perm =>
      obtain ⟨hlive, halloc, hva, hperm⟩ := hc
      obtain ⟨hmanaged, hfree⟩ := h.kinv.allocated_iff.mp halloc
      obtain ⟨f, hf, hpgdir⟩ := h.kinv.live_dir hlive
      have hbound := hok.2 s' hret pp
      obtain ⟨r, hrun⟩ := hret
      rw [hpgdir] at hrun
      rcases h.kinv.pageInsert hf (pdxIdx_lt_userPdes hva) hmanaged hfree hperm with
        ⟨-, -, hr⟩ | ⟨t, fl', hr, hins, -⟩
      · rw [hr] at hrun
        cases hrun
        exact .inr rfl
      · rw [hr] at hrun
        cases hrun
        left
        intro hne
        have hcnt := h.kinv.pool.counted pp hmanaged
        rw [Layout.base_eq_zero.mpr hok.1] at hcnt
        rw [hins.refs_eq hfree hne] at hbound
        omega
    | _ => exact .inl trivial
  rcases hfits with hfits | rfl
  · exact h.call hc hfits hret
  · exact ⟨fl, gens, efl, h⟩

/-- What the page records say in the state `s`. -/
structure Ownership (L : Layout) (s : Machine) : Prop where
  count : ∀ p, L.Managed p → ¬ L.IsKpt p →
    (s.pages p).ppRef.toNat = pteRefs s p + pdeRefs s p + if IsPgdir s p then 1 else 0
  free : ∃ l, Chain (fun p => (s.pages p).ppLink) s.pageFreeList l ∧ l.Nodup ∧
    ∀ p ∈ l, (s.pages p).ppRef = 0 ∧ pteRefs s p = 0 ∧ pdeRefs s p = 0 ∧ ¬ IsPgdir s p

theorem KInv.ownership (h : KInv L fl s) : Ownership L s where
  count := by
    intro p hp hkpt
    rw [← refs_own h.tables p]
    have hcnt := h.pool.counted p hp
    rw [Layout.base_eq_zero.mpr hkpt] at hcnt
    omega
  free := by
    refine ⟨fl, h.pool.chain, h.pool.chain.nodup, ?_⟩
    intro p hp
    have hrefs := (RefPool.free_unreferenced h.pool hp).2
    rw [refs_own h.tables p] at hrefs
    refine ⟨UInt16.toNat_inj.mp (h.pool.free_cnt p hp), by omega, by omega, ?_⟩
    intro hdir
    rw [if_pos hdir] at hrefs
    omega

/-- In every state of a run the counts are right and the free list holds
unreferenced pages only. -/
theorem ownership_of_run (h : MemInv L fl gens efl s₀)
    (hrun : MemRuns L (fun s c => c.Countable L s) s₀ s) : Ownership L s := by
  have hinv : ∃ fl' gens' efl', MemInv L fl' gens' efl' s := by
    induction hrun with
    | start => exact ⟨fl, gens, efl, h⟩
    | call _ hc hok hret ih =>
      obtain ⟨fl', gens', efl', hinv⟩ := ih
      exact hinv.call_countable hc hok hret
  obtain ⟨fl', gens', efl', hinv⟩ := hinv
  exact hinv.kinv.ownership

theorem KInv.refs_le (h : KInv L fl s) (p : Nat) : refs (own s.mem s.envs) p ≤ 65535 := by
  by_cases hp : L.Managed p
  · have hcnt := h.pool.counted p hp
    have hlt := (s.pages p).ppRef.toNat_lt
    omega
  · have hzero : refs (own s.mem s.envs) p = 0 :=
      refs_eq_zero_iff.mpr fun x hx => hp (h.owned_managed hx)
    omega

/-- Where no count that grows is at its limit, no page gets too many references. -/
theorem MemRuns.countable (h : MemInv L fl gens efl s₀)
    (hrun : MemRuns L (fun s c => c.CountFits s ∧ c.InsertsAllocated L) s₀ s) :
    MemRuns L (fun s c => c.Countable L s) s₀ s := by
  have hboth : MemRuns L (fun s c => c.Countable L s) s₀ s ∧
      ∃ fl' gens' efl', MemInv L fl' gens' efl' s := by
    induction hrun with
    | start => exact ⟨.start, fl, gens, efl, h⟩
    | call _ hc hok hret ih =>
      obtain ⟨hruns, fl', gens', efl', hinv⟩ := ih
      refine ⟨hruns.call hc ⟨hok.2, ?_⟩ hret, hinv.call hc hok.1 hret⟩
      intro t ht
      obtain ⟨fl'', gens'', efl'', hinv'⟩ := hinv.call hc hok.1 ht
      exact hinv'.kinv.refs_le
  exact hboth.1

/-- The environment in slot 0 of a kernel of 4 MB maps page 375. -/
theorem ownership_oneEnv :
    ∃ s, MemRuns (freshLayout 650) (fun s c => c.Countable (freshLayout 650) s)
      (readyKernel 650) s ∧ mappedAt s 0 (pageVa 65536) = some 375 ∧
      Ownership (freshLayout 650) s := by
  obtain ⟨efl, hready⟩ := readyKernel_inv (k := 650) (by omega)
  obtain ⟨s, fl, hrun, hshare⟩ := oneEnv_shared
    (fun s c => c.CountFits s ∧ c.InsertsAllocated (freshLayout 650))
    (fun _ => ⟨trivial, trivial⟩) (fun _ => ⟨trivial, trivial⟩)
    ⟨fun _ => by simp [oneEnv], fun h => absurd ((freshLayout_isKpt 650).mp h) (by omega)⟩
  have hcount := hrun.countable hready
  exact ⟨s, hcount, hshare.done 65536 (.inr rfl), ownership_of_run hready hcount⟩

end Jos
