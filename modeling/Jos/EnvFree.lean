import Jos.EnvSpec

/-!
`env_free` takes every reference of an environment away, one at a time: the
pages of each page table, then the page table, and at last the page directory.
`Draining` relates a state in the middle of this to the state at its start.
-/

namespace Jos

variable {L : Layout} {fl fl₀ : List Nat} {s s₀ : Machine} {e : Fin nenv} {d t : Fin 1024}
  {f g p : Nat}

/-- The environment a slot belongs to. -/
def Slot.env : Slot → Fin nenv
  | .dir e | .pde e _ | .pte e _ _ => e

structure Draining (L : Layout) (e : Fin nenv) (s₀ : Machine) (fl₀ : List Nat) (s : Machine)
    (fl : List Nat) : Prop where
  inv : KInv L fl s
  rest : PagesOnly s₀ s
  sub : ∀ x p, own s.mem s.envs x = some p → own s₀.mem s₀.envs x = some p
  other : ∀ x : Slot, x.env ≠ e → own s.mem s.envs x = own s₀.mem s₀.envs x
  /-- The pages that lost their last reference are free again. -/
  free : ∀ q, q ∈ fl ↔ q ∈ fl₀ ∨
    ((∃ x, own s₀.mem s₀.envs x = some q) ∧ L.base q + refs (own s.mem s.envs) q = 0)
  frame : ∀ f, (∀ x : Slot, x.IsTable → x.env = e → own s₀.mem s₀.envs x ≠ some f) →
    s.mem f = s₀.mem f

namespace Draining

theorem refl (e : Fin nenv) (h : KInv L fl s) : Draining L e s fl s fl where
  inv := h
  rest := PagesOnly.refl s
  sub := fun _ _ hx => hx
  other := fun _ _ => rfl
  free := by
    intro q
    constructor
    · exact .inl
    · rintro (hq | ⟨⟨x, hx⟩, hzero⟩)
      · exact hq
      · have hpos := refs_pos hx
        omega
  frame := fun _ _ => rfl

/-- One reference of the environment is dropped. -/
theorem drop (h : Draining L e s₀ fl₀ s fl) {x : Slot} {s' : Machine}
    (hx : own s.mem s.envs x = some p) (henv : x.env = e)
    (hinv : KInv L (s.afterDecref p fl) s') (hrest : PagesOnly s s')
    (hown : own s'.mem s'.envs = Function.update (own s.mem s.envs) x none)
    (hframe : ∀ f, (∀ y : Slot, y.IsTable → y.env = e → own s₀.mem s₀.envs y ≠ some f) →
      s'.mem f = s.mem f) :
    Draining L e s₀ fl₀ s' (s.afterDecref p fl) where
  inv := hinv
  rest := h.rest.trans hrest
  sub := by
    intro y q hy
    rw [hown] at hy
    by_cases hyx : y = x
    · rw [hyx, Function.update_self] at hy
      cases hy
    · rw [Function.update_of_ne hyx] at hy
      exact h.sub y q hy
  other := by
    intro y hy
    have hyx : y ≠ x := by
      rintro rfl
      exact hy henv
    rw [hown, Function.update_of_ne hyx]
    exact h.other y hy
  free := by
    intro q
    have hcnt := h.inv.pool.counted p (h.inv.owned_managed hx)
    have hdrop := refs_detach (p := q) hx
    rw [mem_afterDecref, h.free, hown]
    constructor
    · rintro ((hq | ⟨hq, hzero⟩) | ⟨rfl, hone⟩)
      · exact .inl hq
      · exact .inr ⟨hq, by omega⟩
      · refine .inr ⟨⟨x, h.sub x q hx⟩, ?_⟩
        rw [if_pos rfl] at hdrop
        omega
    · rintro (hq | ⟨hq, hzero⟩)
      · exact .inl (.inl hq)
      · by_cases hqp : p = q
        · subst hqp
          rw [if_pos rfl] at hdrop
          exact .inr ⟨rfl, by omega⟩
        · rw [if_neg hqp] at hdrop
          exact .inl (.inr ⟨hq, by omega⟩)
  frame := fun f hf => (hframe f hf).trans (h.frame f hf)

end Draining

theorem pgaddr_entry_toNat (d t : Fin 1024) :
    (pgaddr (UInt32.ofNat d.val) (UInt32.ofNat t.val) 0).toNat =
      d.val * 4194304 + t.val * 4096 := by
  have hd := d.isLt
  have ht := t.isLt
  have hdn : (UInt32.ofNat d.val).toNat = d.val := by
    rw [UInt32.toNat_ofNat']
    omega
  have htn : (UInt32.ofNat t.val).toNat = t.val := by
    rw [UInt32.toNat_ofNat']
    omega
  have hzero : (0 : UInt32).toNat = 0 := rfl
  rw [pgaddr_toNat _ _ _ (by omega) (by omega) (by decide), hdn, htn, hzero, Nat.add_zero]

theorem pdxIdx_pgaddr (d t : Fin 1024) :
    pdxIdx (pgaddr (UInt32.ofNat d.val) (UInt32.ofNat t.val) 0) = d := by
  have hd := d.isLt
  have ht := t.isLt
  refine Fin.ext ?_
  change (pdx _).toNat = d.val
  rw [pdx_toNat, pgaddr_entry_toNat]
  omega

theorem ptxIdx_pgaddr (d t : Fin 1024) :
    ptxIdx (pgaddr (UInt32.ofNat d.val) (UInt32.ofNat t.val) 0) = t := by
  have hd := d.isLt
  have ht := t.isLt
  refine Fin.ext ?_
  change (ptx _).toNat = t.val
  rw [ptx_toNat, pgaddr_entry_toNat]
  omega

/-- While the page table `g` behind entry `d` is emptied: the entries below `i`
and the directory entries below `d` are gone. -/
structure EmptyingTable (L : Layout) (e : Fin nenv) (s₀ : Machine) (fl₀ : List Nat)
    (d : Fin 1024) (g i : Nat) (s : Machine) (fl : List Nat) : Prop
    extends Draining L e s₀ fl₀ s fl where
  table : pdeFrame s.mem s.envs e d = some g
  below : ∀ d', d' < d → pdeFrame s.mem s.envs e d' = none
  cleared : ∀ t : Fin 1024, t.val < i → pteFrame s.mem s.envs e d t = none

theorem EmptyingTable.round (h : EmptyingTable L e s₀ fl₀ d g t.val s fl)
    (hf : dirFrame s₀.envs e = some f) :
    ∃ s' fl', (envFreePte e (kva g) d.val t.val).run s = .ok ((), s') ∧
      EmptyingTable L e s₀ fl₀ d g (t.val + 1) s' fl' := by
  have hdir : dirFrame s.envs e = some f := by
    rw [h.rest.envs]
    exact hf
  have hg16 := h.inv.pde_lt h.table
  have hgw := h.inv.inWindow hg16
  simp only [envFreePte, entryPtr_ofNat hg16]
  rw [Prog.bind_of_ok (kload_wordPtr _ hgw)]
  cases hp : pteFrame s.mem s.envs e d t with
  | none =>
    have hentry := hp
    rw [pteFrame_of_pde h.table, entryFrame_eq_none] at hentry
    rw [if_neg hentry]
    refine ⟨s, fl, rfl, h.toDraining, h.table, h.below, ?_⟩
    intro t' ht'
    by_cases htt : t' = t
    · rw [htt]
      exact hp
    · have hne : t'.val ≠ t.val := fun heq => htt (Fin.ext heq)
      exact h.cleared t' (by omega)
  | some p =>
    have hentry := hp
    rw [pteFrame_of_pde h.table, entryFrame_eq_some] at hentry
    rw [if_pos hentry.1, Prog.run_read_bind, h.inv.dir_kva hdir]
    have hd := pdxIdx_pgaddr d t
    have ht := ptxIdx_pgaddr d t
    generalize pgaddr (UInt32.ofNat d.val) (UInt32.ofNat t.val) 0 = va at hd ht ⊢
    subst hd ht
    obtain ⟨hinv, hown⟩ := h.inv.unmapped h.table hp
    have hslot (x : Slot) (hx : x ≠ .pte e (pdxIdx va) (ptxIdx va)) :
        own (s.unmapped g p va).mem s.envs x = own s.mem s.envs x := by
      rw [hown, Function.update_of_ne hx]
    refine ⟨_, s.afterDecref p fl, h.inv.pageRemove hdir h.table hp, ?_, ?_, ?_, ?_⟩
    · refine h.toDraining.drop (x := .pte e _ _) hp rfl hinv rfl hown ?_
      intro f' hf'
      apply Mem.setWord_frame
      rintro rfl
      exact hf' (.pde e _) trivial rfl (h.sub (.pde e _) _ h.table)
    · exact (hslot (.pde e _) (by simp)).trans h.table
    · intro d' hd'
      exact (hslot (.pde e d') (by simp)).trans (h.below d' hd')
    · intro t' ht'
      by_cases htt : t' = ptxIdx va
      · rw [htt]
        have hgone := congrFun hown (.pte e (pdxIdx va) (ptxIdx va))
        rw [Function.update_self] at hgone
        exact hgone
      · have hne : t'.val ≠ (ptxIdx va).val := fun heq => htt (Fin.ext heq)
        exact (hslot (.pte e _ t') (by simp [htt])).trans (h.cleared t' (by omega))

theorem EmptyingTable.run (h : EmptyingTable L e s₀ fl₀ d g 0 s fl)
    (hf : dirFrame s₀.envs e = some f) :
    ∃ s' fl', (Prog.forRange 0 ((ptx (~~~0)).toNat + 1) (envFreePte e (kva g) d.val)).run s =
      .ok ((), s') ∧ EmptyingTable L e s₀ fl₀ d g 1024 s' fl' := by
  have hcount : (ptx (~~~0)).toNat + 1 = 1024 := by decide
  rw [hcount]
  obtain ⟨s', hrun, fl', hs'⟩ := Prog.forRange_run
    (fun i s => ∃ fl, EmptyingTable L e s₀ fl₀ d g i s fl) (envFreePte e (kva g) d.val) 1024 0
    (by
      rintro i s - hi ⟨fl, hs⟩
      obtain ⟨t, rfl⟩ : ∃ t : Fin 1024, t.val = i := ⟨⟨i, by omega⟩, rfl⟩
      obtain ⟨s', fl', hrun, hs'⟩ := hs.round hf
      exact ⟨s', hrun, fl', hs'⟩) s ⟨fl, h⟩
  exact ⟨s', fl', hrun, hs'⟩

/-- Before the round for entry `i` of the page directory: the entries below are
gone. -/
structure EmptyingDir (L : Layout) (e : Fin nenv) (s₀ : Machine) (fl₀ : List Nat) (i : Nat)
    (s : Machine) (fl : List Nat) : Prop extends Draining L e s₀ fl₀ s fl where
  below : ∀ d : Fin 1024, d.val < i → pdeFrame s.mem s.envs e d = none

/-- The page table `g`, now empty, is given up. -/
theorem EmptyingTable.dropTable (h : EmptyingTable L e s₀ fl₀ d g 1024 s fl)
    (hf : dirFrame s₀.envs e = some f) (hd : d.val < userPdes) :
    EmptyingDir L e s₀ fl₀ (d.val + 1) ((s.decref g).setMem (s.mem.setWord f d 0))
      (s.afterDecref g fl) := by
  have hdir : dirFrame s.envs e = some f := by
    rw [h.rest.envs]
    exact hf
  have hold : ∀ t, pteFrame s.mem s.envs e d t = none := fun t => h.cleared t t.isLt
  have hnew : ∀ g' t, entryFrame 0 = some g' → g' ≠ f ∧ entryFrame (s.mem g' t) = none := by
    intro g' t hg'
    rw [entryFrame_zero] at hg'
    cases hg'
  have hown := h.inv.tables.own_setPde hdir hd hold hnew
  rw [entryFrame_zero] at hown
  have htables := h.inv.tables.setPde hdir hd hold hnew
    (by
      intro g' x hg'
      rw [entryFrame_zero] at hg'
      cases hg')
    (by
      intro g' hg'
      rw [entryFrame_zero] at hg'
      cases hg')
    (by
      intro g' hg'
      rw [entryFrame_zero] at hg'
      cases hg')
  have hinv := h.inv.detach (x := .pde e d) h.table hown htables
  refine ⟨h.toDraining.drop (x := .pde e d) h.table rfl hinv rfl hown ?_, ?_⟩
  · intro f' hf'
    apply Mem.setWord_frame
    rintro rfl
    exact hf' (.dir e) trivial rfl hf
  · intro d' hd'
    have hslot := congrFun hown (.pde e d')
    by_cases hdd : d' = d
    · subst hdd
      rw [Function.update_self] at hslot
      exact hslot
    · have hne : d'.val ≠ d.val := fun heq => hdd (Fin.ext heq)
      rw [Function.update_of_ne (by simp [hdd])] at hslot
      exact hslot.trans (h.below d' (by rw [Fin.lt_def]; omega))

theorem setMem_decref (s : Machine) (m : Mem) (p : Nat) :
    (s.setMem m).decref p = (s.decref p).setMem m := rfl

theorem EmptyingDir.round (h : EmptyingDir L e s₀ fl₀ d.val s fl)
    (hf : dirFrame s₀.envs e = some f) (hd : d.val < userPdes) :
    ∃ s' fl', (envFreePde e d.val).run s = .ok ((), s') ∧
      EmptyingDir L e s₀ fl₀ (d.val + 1) s' fl' := by
  have hdir : dirFrame s.envs e = some f := by
    rw [h.rest.envs]
    exact hf
  have hf16 := h.inv.dir_lt hdir
  have hfw := h.inv.inWindow hf16
  simp only [envFreePde, Prog.run_read_bind, h.inv.dir_kva hdir, entryPtr_ofNat hf16]
  rw [Prog.bind_of_ok (kload_wordPtr _ hfw)]
  cases hg : pdeFrame s.mem s.envs e d with
  | none =>
    rw [if_neg (KInv.not_present_of_pde_none hdir hd hg)]
    refine ⟨s, fl, rfl, h.toDraining, ?_⟩
    intro d' hd'
    by_cases hdd : d' = d
    · rw [hdd]
      exact hg
    · have hne : d'.val ≠ d.val := fun heq => hdd (Fin.ext heq)
      exact h.below d' (by omega)
  | some g =>
    have hentry := hg
    rw [pdeFrame_of_dir hdir hd, entryFrame_eq_some] at hentry
    have hg16 := h.inv.pde_lt hg
    have hglt := h.inv.lt_npages (h.inv.owned_managed (x := .pde e d) hg)
    have hstart : EmptyingTable L e s₀ fl₀ d g 0 s fl :=
      ⟨h.toDraining, hg, fun d' hd' => h.below d' (by rw [Fin.lt_def] at hd'; exact hd'),
        fun t ht => absurd ht (by omega)⟩
    obtain ⟨s', fl', hrun, hs'⟩ := hstart.run hf
    have hdir' : dirFrame s'.envs e = some f := by
      rw [hs'.rest.envs]
      exact hf
    have hfw' := hs'.inv.inWindow hf16
    have hglt' := hs'.inv.lt_npages (hs'.inv.owned_managed (x := .pde e d) hs'.table)
    have hlink := hs'.inv.pool.link_none (x := .pde e d) hs'.table
    rw [if_pos hentry.1, pteAddr_eq_page2pa, hentry.2,
      Prog.bind_of_ok (kaddr_page2pa hglt (by omega)), Prog.bind_of_ok hrun,
      Prog.run_read_bind, hs'.inv.dir_kva hdir', entryPtr_ofNat hf16,
      Prog.bind_of_ok (kstore_wordPtr _ _ hfw'),
      Prog.bind_of_ok (pa2page_page2pa (by exact hglt') (by omega)),
      pageDecref_ok (by exact fun _ => hlink), setMem_decref]
    exact ⟨_, _, rfl, hs'.dropTable hf hd⟩

theorem EmptyingDir.run (h : EmptyingDir L e s₀ fl₀ 0 s fl)
    (hf : dirFrame s₀.envs e = some f) :
    ∃ s' fl', (Prog.forRange 0 (pdx utop).toNat (envFreePde e)).run s = .ok ((), s') ∧
      EmptyingDir L e s₀ fl₀ userPdes s' fl' := by
  rw [pdx_utop]
  obtain ⟨s', hrun, fl', hs'⟩ := Prog.forRange_run
    (fun i s => ∃ fl, EmptyingDir L e s₀ fl₀ i s fl) (envFreePde e) userPdes 0
    (by
      rintro i s - hi ⟨fl, hs⟩
      have hi' : i < userPdes := by omega
      have hlt : i < 1024 := lt_trans hi' (by decide)
      obtain ⟨d, rfl⟩ : ∃ d : Fin 1024, d.val = i := ⟨⟨i, hlt⟩, rfl⟩
      obtain ⟨s', fl', hrun, hs'⟩ := hs.round hf hi'
      exact ⟨s', hrun, fl', hs'⟩) s ⟨fl, h⟩
  rw [Nat.zero_add] at hs'
  exact ⟨s', fl', hrun, hs'⟩

/-- The slot of a freed environment, with the free slot after it. -/
def freedRecord (env : Env) (link : Option (Fin nenv)) : Env :=
  { env with envPgdir := 0, envStatus := .free, envLink := link }

/-- What `env_free` of the environment `e` leaves. -/
structure Freed (L : Layout) (e : Fin nenv) (s : Machine) (fl : List Nat) (s' : Machine)
    (fl' : List Nat) : Prop where
  inv : KInv L fl' s'
  gone : ∀ x : Slot, x.env = e → own s'.mem s'.envs x = none
  other : ∀ x : Slot, x.env ≠ e → own s'.mem s'.envs x = own s.mem s.envs x
  /-- The pages that lost their last reference are free again. -/
  free : ∀ q, q ∈ fl' ↔ q ∈ fl ∨
    ((∃ x, own s.mem s.envs x = some q) ∧ L.base q + refs (own s'.mem s'.envs) q = 0)
  frame : ∀ f, (∀ x : Slot, x.IsTable → x.env = e → own s.mem s.envs x ≠ some f) →
    s'.mem f = s.mem f
  envs : s'.envs = Function.update s.envs e (freedRecord (s.envs e) s.envFreeList)
  envFreeList : s'.envFreeList = some e
  curenv : s'.curenv = s.curenv
  cr3 : s'.cr3 = if some e = s.curenv then .pgdir (page2pa L.kd) else s.cr3

/-- `lcr3(PADDR(kern_pgdir))` when the current environment is freed. -/
def Machine.leaveEnv (s : Machine) (e : Fin nenv) (kd : Nat) : Machine :=
  if some e = s.curenv then s.loadPgdir (page2pa kd) else s

theorem KInv.leaveEnv (h : KInv L fl s) (e : Fin nenv) : KInv L fl (s.leaveEnv e L.kd) := by
  unfold Machine.leaveEnv
  split
  · exact h.congr rfl rfl rfl ⟨_, rfl⟩ rfl rfl rfl rfl
  · exact h

/-- The state after the emptied page directory `f` was given up. -/
def Machine.dropEnv (s : Machine) (e : Fin nenv) (f : Nat) : Machine :=
  { (s.decref f).setEnvs
      (Function.update s.envs e (freedRecord (s.envs e) s.envFreeList)) with
    envFreeList := some e }

theorem EmptyingDir.dropEnv (h : EmptyingDir L e s₀ fl₀ userPdes s fl)
    (hf : dirFrame s₀.envs e = some f) :
    KInv L (s.afterDecref f fl) (s.dropEnv e f) ∧
      own (s.dropEnv e f).mem (s.dropEnv e f).envs =
        Function.update (own s.mem s.envs) (.dir e) none := by
  have hdir : dirFrame s.envs e = some f := by
    rw [h.rest.envs]
    exact hf
  have hempty : ∀ d, pdeFrame s.mem s.envs e d = none := by
    intro d
    by_cases hd : d.val < userPdes
    · exact h.below d hd
    · unfold pdeFrame
      rw [if_neg hd]
  have hfree : (freedRecord (s.envs e) s.envFreeList).envStatus = .free := rfl
  have hown := own_dropDir hfree hempty
  have htables := h.inv.tables.dropDir hfree hempty
  have hpool := h.inv.pool.decref (x := .dir e) hdir
  rw [← hown] at hpool
  exact ⟨⟨h.inv.good, h.inv.image, h.inv.npages, h.inv.kernPgdir, h.inv.cr3,
      hpool.congr rfl rfl, htables⟩,
    hown⟩

@[simp] theorem leaveEnv_envs (s : Machine) (e : Fin nenv) (kd : Nat) :
    (s.leaveEnv e kd).envs = s.envs := by
  unfold Machine.leaveEnv
  split <;> rfl

@[simp] theorem leaveEnv_mem (s : Machine) (e : Fin nenv) (kd : Nat) :
    (s.leaveEnv e kd).mem = s.mem := by
  unfold Machine.leaveEnv
  split <;> rfl

@[simp] theorem leaveEnv_curenv (s : Machine) (e : Fin nenv) (kd : Nat) :
    (s.leaveEnv e kd).curenv = s.curenv := by
  unfold Machine.leaveEnv
  split <;> rfl

@[simp] theorem leaveEnv_envFreeList (s : Machine) (e : Fin nenv) (kd : Nat) :
    (s.leaveEnv e kd).envFreeList = s.envFreeList := by
  unfold Machine.leaveEnv
  split <;> rfl

@[simp] theorem leaveEnv_cr3 (s : Machine) (e : Fin nenv) (kd : Nat) :
    (s.leaveEnv e kd).cr3 = if some e = s.curenv then .pgdir (page2pa kd) else s.cr3 := by
  unfold Machine.leaveEnv
  split <;> rfl

/-- After the loop over the page directory `env_free` returns. -/
theorem EmptyingDir.envFree_run (h : KInv L fl₀ s₀)
    (hloop : (Prog.forRange 0 (pdx utop).toNat (envFreePde e)).run (s₀.leaveEnv e L.kd) =
      .ok ((), s))
    (hs : EmptyingDir L e (s₀.leaveEnv e L.kd) fl₀ userPdes s fl)
    (hf : dirFrame s₀.envs e = some f) : (envFree e).run s₀ = .ok ((), s.dropEnv e f) := by
  have hdir : dirFrame s.envs e = some f := by
    rw [hs.rest.envs, leaveEnv_envs]
    exact hf
  have hf16 := hs.inv.dir_lt hdir
  have hlt := hs.inv.lt_npages (hs.inv.owned_managed (x := .dir e) hdir)
  have hlink := hs.inv.pool.link_none (x := .dir e) hdir
  have hstart : (envFree e).run s₀ =
      (Prog.forRange 0 (pdx utop).toNat (envFreePde e) >>= fun _ => do
        let pa ← paddr (← Prog.read fun s => (s.envs e).envPgdir)
        setEnv e fun env => { env with envPgdir := 0 }
        pageDecref (← pa2page pa)
        let link ← Prog.read (·.envFreeList)
        setEnv e fun env => { env with envStatus := .free, envLink := link }
        setEnvFreeList (some e)).run (s₀.leaveEnv e L.kd) := by
    simp only [envFree, Prog.run_read_bind]
    unfold Machine.leaveEnv
    split
    · simp only [Prog.run_read_bind]
      rw [Prog.bind_of_ok (paddr_of_eq_kva h.kernPgdir h.good.kd_lt')]
      rfl
    · rfl
  rw [hstart, Prog.bind_of_ok hloop]
  simp only [Prog.run_read_bind, hs.inv.dir_kva hdir]
  rw [Prog.bind_of_ok (paddr_kva hf16)]
  simp only [setEnv, Prog.run_update_bind]
  rw [Prog.bind_of_ok (pa2page_page2pa (by exact hlt) (by omega)),
    Prog.bind_of_ok (pageDecref_ok (by exact fun _ => hlink))]
  simp only [setEnvFreeList, Prog.run_read_bind, Prog.run_update_bind, Prog.run_update]
  simp only [Machine.dropEnv, freedRecord, Machine.setEnvs, Machine.decref,
    Function.update_self, Function.update_idem]
  rfl

/-- The state after the page directory is given up. -/
theorem EmptyingDir.freed (hs : EmptyingDir L e (s₀.leaveEnv e L.kd) fl₀ userPdes s fl)
    (hf : dirFrame s₀.envs e = some f) :
    Freed L e s₀ fl₀ (s.dropEnv e f) (s.afterDecref f fl) := by
  have hf₀ : dirFrame (s₀.leaveEnv e L.kd).envs e = some f := by
    rw [leaveEnv_envs]
    exact hf
  have hdir : dirFrame s.envs e = some f := by
    rw [hs.rest.envs]
    exact hf₀
  obtain ⟨hinv, hown⟩ := hs.dropEnv hf₀
  have hpde : ∀ d, pdeFrame s.mem s.envs e d = none := by
    intro d
    by_cases hd : d.val < userPdes
    · exact hs.below d hd
    · simp [pdeFrame, hd]
  refine ⟨hinv, ?_, ?_, ?_, ?_, ?_, rfl, ?_, ?_⟩
  · intro x hx
    rw [hown]
    cases x with
    | dir e' =>
      cases hx
      exact Function.update_self ..
    | pde e' d =>
      cases hx
      rw [Function.update_of_ne (by simp)]
      exact hpde d
    | pte e' d t =>
      cases hx
      rw [Function.update_of_ne (by simp)]
      exact pteFrame_of_no_pde (hpde d)
  · intro x hx
    have hne : x ≠ .dir e := by
      rintro rfl
      exact hx rfl
    rw [hown, Function.update_of_ne hne, hs.other x hx, leaveEnv_mem, leaveEnv_envs]
  · intro q
    have hcnt := hs.inv.pool.counted f (hs.inv.owned_managed (x := .dir e) hdir)
    have hslot : own s.mem s.envs (.dir e) = some f := hdir
    have hdrop := refs_detach (p := q) hslot
    rw [mem_afterDecref, hs.free, hown, leaveEnv_mem, leaveEnv_envs]
    constructor
    · rintro ((hq | ⟨hq, hzero⟩) | ⟨rfl, hone⟩)
      · exact .inl hq
      · exact .inr ⟨hq, by omega⟩
      · refine .inr ⟨⟨.dir e, hf⟩, ?_⟩
        rw [if_pos rfl] at hdrop
        omega
    · rintro (hq | ⟨hq, hzero⟩)
      · exact .inl (.inl hq)
      · by_cases hqf : f = q
        · subst hqf
          rw [if_pos rfl] at hdrop
          exact .inr ⟨rfl, by omega⟩
        · rw [if_neg hqf] at hdrop
          exact .inl (.inr ⟨hq, by omega⟩)
  · intro f' hf'
    have hframe := hs.frame f' (by rw [leaveEnv_mem, leaveEnv_envs]; exact hf')
    rw [leaveEnv_mem] at hframe
    exact hframe
  · have henvs := hs.rest.envs
    have hlist := hs.rest.envFreeList
    rw [leaveEnv_envs] at henvs
    rw [leaveEnv_envFreeList] at hlist
    simp [Machine.dropEnv, henvs, hlist]
  · exact hs.rest.curenv.trans (leaveEnv_curenv ..)
  · exact hs.rest.cr3.trans (leaveEnv_cr3 ..)

/-- `env_free` of a live environment returns and gives up everything the
environment held. -/
theorem KInv.envFree (h : KInv L fl s) (hlive : (s.envs e).envStatus ≠ .free) :
    ∃ s' fl', (envFree e).run s = .ok ((), s') ∧ Freed L e s fl s' fl' := by
  obtain ⟨f, hf⟩ : ∃ f, dirFrame s.envs e = some f := ⟨_, dirFrame_eq_some.mpr ⟨hlive, rfl⟩⟩
  have hstart : EmptyingDir L e (s.leaveEnv e L.kd) fl 0 (s.leaveEnv e L.kd) fl :=
    ⟨Draining.refl e (h.leaveEnv e), fun d hd => absurd hd (by omega)⟩
  obtain ⟨s₁, fl₁, hloop, hs₁⟩ := hstart.run (by rw [leaveEnv_envs]; exact hf)
  exact ⟨_, _, hs₁.envFree_run h hloop hf, hs₁.freed hf⟩

end Jos
