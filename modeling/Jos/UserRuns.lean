import Jos.FreshKernel

/-!
Runs in which the kernel maps pages for environments and the environments store
to the memory they can write. As long as the kernel maps no page table, the pages
that environments have mapped stay apart from all page tables, and no store of an
environment reaches one.
-/

namespace Jos

variable {L : Layout} {fl : List Nat} {s s₀ s' : Machine} {e : Fin nenv} {f p : Nat}
  {va : UInt32} {gens : Fin nenv → Nat} {efl : List (Fin nenv)}

/-- Nobody has a page table mapped below `UTOP`. -/
def DataApart (L : Layout) (o : Slot → Option Nat) : Prop :=
  ∀ e d t p, o (.pte e d t) = some p → ¬ L.KTable p ∧ ∀ x, x.IsTable → o x ≠ some p

/-- The page that `page_insert` maps is no page table. -/
def MemCall.InsertsData (L : Layout) (s : Machine) : MemCall → Prop
  | .pageInsert _ pp _ _ =>
    ¬ L.KTable pp ∧ ∀ x : Slot, x.IsTable → own s.mem s.envs x ≠ some pp
  | _ => True

/-- The states reached from `s₀` when environments run between the calls. -/
inductive UserRuns (L : Layout) (s₀ : Machine) : Machine → Prop
  | start : UserRuns L s₀ s₀
  | call {s s' : Machine} {c : MemCall} (h : UserRuns L s₀ s) (hc : c.Contract L s)
      (hfits : c.CountFits s) (hdata : c.InsertsData L s) (hret : c.Returns s s') :
      UserRuns L s₀ s'
  /-- The environment `e`, whose page directory is loaded, stores a byte. -/
  | store {s : Machine} {e : Fin nenv} {f pa : Nat} {va : UInt32} {b : UInt8}
      (h : UserRuns L s₀ s) (hdir : dirFrame s.envs e = some f)
      (hcr3 : s.cr3 = .pgdir (page2pa f)) (hwalk : s.walk f va true true = some pa) :
      UserRuns L s₀ (s.setMem (s.mem.setByte pa b))

namespace DataApart

variable {o o' : Slot → Option Nat}

/-- Dropping references keeps the mapped pages apart from the tables. -/
theorem mono (h : DataApart L o) (hsub : ∀ x p, o' x = some p → o x = some p) :
    DataApart L o' := by
  intro e d t p hp
  obtain ⟨hkernel, htables⟩ := h e d t p (hsub _ p hp)
  exact ⟨hkernel, fun x hx hxp => htables x hx (hsub x p hxp)⟩

/-- A new page directory or page table comes from the free list. -/
theorem newTable (h : DataApart L o) {y : Slot} (hy : y.IsTable) (hfresh : ∀ x, o x ≠ some f) :
    DataApart L (Function.update o y (some f)) := by
  intro e d t p hp
  have hne : Slot.pte e d t ≠ y := by
    rintro rfl
    exact hy
  rw [Function.update_of_ne hne] at hp
  obtain ⟨hkernel, htables⟩ := h e d t p hp
  refine ⟨hkernel, ?_⟩
  intro x hx hxp
  by_cases hxy : x = y
  · subst hxy
    rw [Function.update_self] at hxp
    cases hxp
    exact hfresh _ hp
  · rw [Function.update_of_ne hxy] at hxp
    exact htables x hx hxp

/-- A new mapping of a page that is no table. -/
theorem newPage (h : DataApart L o) {d t : Fin 1024} (hkernel : ¬ L.KTable p)
    (htables : ∀ x, x.IsTable → o x ≠ some p) :
    DataApart L (Function.update o (.pte e d t) (some p)) := by
  have hother (x : Slot) (hx : x.IsTable) :
      Function.update o (.pte e d t) (some p) x = o x := by
    refine Function.update_of_ne ?_ _ _
    rintro rfl
    exact hx
  intro e' d' t' q hq
  by_cases hslot : Slot.pte e' d' t' = .pte e d t
  · rw [hslot, Function.update_self] at hq
    cases hq
    refine ⟨hkernel, ?_⟩
    intro x hx
    rw [hother x hx]
    exact htables x hx
  · rw [Function.update_of_ne hslot] at hq
    obtain ⟨hk, ht⟩ := h e' d' t' q hq
    refine ⟨hk, ?_⟩
    intro x hx
    rw [hother x hx]
    exact ht x hx

end DataApart

/-- `page_insert` adds at most a page table from the free list and the mapping of
the page itself. -/
theorem Inserted.dataApart {perm : UInt32} {fl' : List Nat}
    (hins : Inserted e f p va perm s fl s' fl') (hinv : KInv L fl s)
    (h : DataApart L (own s.mem s.envs)) (hfree : p ∉ fl) (hkernel : ¬ L.KTable p)
    (htables : ∀ x : Slot, x.IsTable → own s.mem s.envs x ≠ some p) :
    DataApart L (own s'.mem s'.envs) := by
  obtain ⟨g, hbefore, hown⟩ := hins.own_eq
  have htable : DataApart L (Function.update (own s.mem s.envs) (.pde e (pdxIdx va)) (some g)) := by
    rcases hbefore with hsame | ⟨-, hmem⟩
    · have hself : Function.update (own s.mem s.envs) (.pde e (pdxIdx va)) (some g) =
          own s.mem s.envs := Function.update_eq_self_iff.mpr hsame.symm
      rw [hself]
      exact h
    · exact h.newTable trivial (hinv.free_not_owned hmem)
  have hpage := htable.newPage (e := e) (d := pdxIdx va) (t := ptxIdx va) hkernel (by
    intro x hx
    by_cases hxpde : x = .pde e (pdxIdx va)
    · subst hxpde
      rw [Function.update_self]
      rintro hgp
      cases hgp
      rcases hbefore with hsame | ⟨-, hmem⟩
      · exact htables (.pde e (pdxIdx va)) trivial hsame
      · exact hfree hmem
    · rw [Function.update_of_ne hxpde]
      exact htables x hx)
  rw [hown]
  exact hpage

theorem MemInv.call_dataApart (h : MemInv L fl gens efl s) (hdata : DataApart L (own s.mem s.envs))
    {c : MemCall} (hc : c.Contract L s) (hok : c.InsertsData L s) (hret : c.Returns s s') :
    DataApart L (own s'.mem s'.envs) := by
  have hk := h.kinv
  cases c with
  | pageAlloc allocFlags =>
    obtain ⟨r, hrun⟩ := hret
    rcases hk.pageAlloc allocFlags with ⟨-, hr⟩ | ⟨p, fl', rfl, t, hr, ht, -⟩
    · rw [hr] at hrun
      cases hrun
      exact hdata
    · rw [hr] at hrun
      cases hrun
      have hzero : own (s.mem.zeroFrame p) s.envs = own s.mem s.envs := by
        refine own_congr_mem fun x g _ hx => Mem.zeroFrame_frame _ ?_
        rintro rfl
        exact hk.free_not_owned List.mem_cons_self x hx
      rw [ht]
      split
      · exact hdata
      · change DataApart L (own (s.mem.zeroFrame p) s.envs)
        rw [hzero]
        exact hdata
  | pageFree pp =>
    have hsame : s'.mem = s.mem ∧ s'.envs = s.envs := by
      by_cases hpanic : (s.pages pp).ppRef ≠ 0 ∨ (s.pages pp).ppLink ≠ none
      · simp [MemCall.Returns, pageFree, panic, hpanic] at hret
      · simp only [MemCall.Returns, pageFree, Prog.run_read_bind, if_neg hpanic, setPageFreeList,
          setPage, Prog.run_update_bind] at hret
        cases hret
        exact ⟨rfl, rfl⟩
    rw [hsame.1, hsame.2]
    exact hdata
  | pageInsert e pp va perm =>
    obtain ⟨hlive, halloc, hva, hperm⟩ := hc
    obtain ⟨hkernel, htables⟩ := hok
    obtain ⟨r, hrun⟩ := hret
    obtain ⟨hmanaged, hfree⟩ := hk.allocated_iff.mp halloc
    obtain ⟨f, hf, hpgdir⟩ := hk.live_dir hlive
    rw [hpgdir] at hrun
    rcases hk.pageInsert hf (pdxIdx_lt_userPdes hva) hmanaged hfree hperm with
      ⟨-, -, hr⟩ | ⟨t, fl', hr, hins, -⟩
    · rw [hr] at hrun
      cases hrun
      exact hdata
    · rw [hr] at hrun
      cases hrun
      exact hins.dataApart hk hdata hfree hkernel htables
  | pageRemove e va =>
    obtain ⟨hlive, -, hmapped⟩ := hc
    obtain ⟨f, hf, hpgdir⟩ := hk.live_dir hlive
    obtain ⟨p, hp⟩ := Option.ne_none_iff_exists'.mp hmapped
    obtain ⟨g, hg, -⟩ := pteFrame_eq_some.mp hp
    rw [MemCall.Returns, hpgdir, hk.pageRemove hf hg hp] at hret
    cases hret
    refine hdata.mono ?_
    intro x q hq
    have hslot := (congrFun (hk.unmapped hg hp).2 x).symm.trans hq
    by_cases hx : x = .pte e (pdxIdx va) (ptxIdx va)
    · subst hx
      rw [Function.update_self] at hslot
      cases hslot
    · rw [Function.update_of_ne hx] at hslot
      exact hslot
  | envAlloc parentId =>
    obtain ⟨r, hrun⟩ := hret
    rcases envAlloc_cases hk h.table parentId with ⟨-, hr⟩ | ⟨-, -, hr⟩ |
      ⟨e, efl', f, fl', rfl, rfl, hr⟩
    · rw [hr] at hrun
      cases hrun
      exact hdata
    · rw [hr] at hrun
      cases hrun
      exact hdata
    · rw [hr] at hrun
      cases hrun
      have hfree : (s.envs e).envStatus = .free := (h.table.free e).mp List.mem_cons_self
      rw [(hk.newEnv parentId hfree).2]
      exact hdata.newTable trivial (hk.free_not_owned List.mem_cons_self)
  | envFree e =>
    obtain ⟨t, fl', hr, hfreed⟩ := hk.envFree hc
    rw [MemCall.Returns, hr] at hret
    cases hret
    refine hdata.mono ?_
    intro x q hq
    by_cases hx : x.env = e
    · rw [hfreed.gone x hx] at hq
      cases hq
    · rw [hfreed.other x hx] at hq
      exact hq
  | envRun e =>
    obtain ⟨f, hf, -⟩ := hk.live_dir hc
    rw [MemCall.Returns, envRun_ok hk hf] at hret
    cases hret
    rw [own_ran hf]
    exact hdata

/-- Of the user's stores only those below `UTOP` get through, and they reach the
page that the environment has mapped. -/
theorem KInv.walk_user_write (h : KInv L fl s) (hf : dirFrame s.envs e = some f) {pa : Nat}
    (hwalk : s.walk f va true true = some pa) : mappedAt s e va = some (pa / 4096) := by
  have hweak {v : UInt32} (hv : allows v true true) : allows v true false ∧ allows v false true :=
    ⟨⟨hv.1, hv.2.1, by simp⟩, ⟨hv.1, by simp, hv.2.2⟩⟩
  simp only [Machine.walk] at hwalk
  split at hwalk
  · rename_i hpde
    split at hwalk
    · rename_i hpte
      have hpa := Option.some.inj hwalk
      by_cases hd : (pdxIdx va).val < userPdes
      · have hg : pdeFrame s.mem s.envs e (pdxIdx va) = some (frameOf (s.mem f (pdxIdx va))) := by
          rw [pdeFrame_of_dir hf hd]
          exact entryFrame_eq_some.mpr ⟨hpde.1, rfl⟩
        rw [mappedAt, pteFrame_of_pde hg]
        refine entryFrame_eq_some.mpr ⟨hpte.1, ?_⟩
        have hoff := Nat.mod_lt va.toNat (by omega : 4096 > 0)
        rw [← hpa, pteAddr_toNat, pgoff_toNat, frameOf, pgnum_toNat]
        omega
      · exfalso
        by_cases huvpt : pdxIdx va = uvptIdx
        · have hself := h.tables.dirSelf e f hf
          have hlt := h.dir_lt hf
          rw [huvpt, hself, UInt32.or_assoc, allows_entry (by omega)] at hpde
          exact absurd hpde.2.1 (by decide)
        · have hentry := h.tables.dirKernel e f hf (pdxIdx va) (by omega) huvpt
          have hkpt : L.kpt (pdxIdx va) = some (frameOf (s.mem f (pdxIdx va))) := by
            rw [Layout.kpt, if_pos ⟨by omega, huvpt⟩, ← hentry]
            exact entryFrame_eq_some.mpr ⟨hpde.1, rfl⟩
          have htable := h.tables.kernel _ (.inr ⟨_, hkpt⟩)
          rw [htable] at hpte
          have hne : (pdxIdx va).val ≠ 957 := fun hv => huvpt (Fin.ext hv)
          rcases Nat.lt_or_gt_of_ne hne with hlow | hhigh
          · exact h.good.readonly _ _ _ hkpt hlow (hweak hpte).1
          · exact h.good.kernel_only _ _ _ hkpt hhigh (hweak hpte).2
    · cases hwalk
  · cases hwalk

theorem KInv.userStore (h : KInv L fl s) (hdata : DataApart L (own s.mem s.envs))
    (hf : dirFrame s.envs e = some f) {pa : Nat} (hwalk : s.walk f va true true = some pa)
    (b : UInt8) :
    KInv L fl (s.setMem (s.mem.setByte pa b)) ∧
      own (s.mem.setByte pa b) s.envs = own s.mem s.envs := by
  obtain ⟨hkernel, htables⟩ := hdata e _ _ _ (h.walk_user_write hf hwalk)
  have hframe : ∀ x g, x.IsTable → own s.mem s.envs x = some g →
      s.mem.setByte pa b g = s.mem g := by
    intro x g hx hg
    refine Mem.setByte_frame _ _ ?_
    rintro rfl
    exact htables x hx hg
  refine ⟨h.setMem hframe ?_, own_congr_mem hframe⟩
  intro g hg
  refine Mem.setByte_frame _ _ ?_
  rintro rfl
  exact hkernel hg

/-- The kernel when `env_init` returns. -/
structure Ready (L : Layout) (fl : List Nat) (efl : List (Fin nenv)) (s : Machine) : Prop where
  inv : MemInv L fl (fun _ => 0) efl s
  free : ∀ e, (s.envs e).envStatus = .free

/-- In every state of a run the invariant holds and the mapped pages are apart
from the tables. -/
theorem UserRuns.inv (h : Ready L fl efl s₀) (hrun : UserRuns L s₀ s) :
    (∃ fl' gens' efl', MemInv L fl' gens' efl' s) ∧ DataApart L (own s.mem s.envs) := by
  induction hrun with
  | start =>
    refine ⟨⟨fl, _, efl, h.inv⟩, ?_⟩
    intro e d t p hp
    rw [own_of_no_env h.free] at hp
    cases hp
  | call _ hc hfits hok hret ih =>
    obtain ⟨⟨fl', gens', efl', hinv⟩, hdata⟩ := ih
    exact ⟨hinv.call hc hfits hret, hinv.call_dataApart hdata hc hok hret⟩
  | @store s e f pa va b _ hdir _ hwalk ih =>
    obtain ⟨⟨fl', gens', efl', hinv⟩, hdata⟩ := ih
    obtain ⟨hk, hown⟩ := hinv.kinv.userStore hdata hdir hwalk b
    refine ⟨⟨fl', gens', efl', hk, hinv.table.pagesOnly rfl⟩, ?_⟩
    change DataApart L (own (s.mem.setByte pa b) s.envs)
    rw [hown]
    exact hdata

theorem UserRuns.of_memRuns
    (hrun : MemRuns L (fun s c => c.CountFits s ∧ c.InsertsData L s) s₀ s) : UserRuns L s₀ s := by
  induction hrun with
  | start => exact .start
  | call _ hc hok hret ih => exact ih.call hc hok.1 hok.2 hret

theorem readyKernel_ready {k : Nat} (hk : k ≤ 65162) :
    ∃ efl, Ready (freshLayout k) (List.range' 374 k) efl (readyKernel k) := by
  obtain ⟨efl, hinv⟩ := readyKernel_inv hk
  refine ⟨efl, hinv, ?_⟩
  intro e
  simp [readyKernel, Machine.initEnvs, initRecord]

end Jos
