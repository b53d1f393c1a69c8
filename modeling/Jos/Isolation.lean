import Jos.EnvLives

/-!
What an environment can reach and who can reach its pages, in every state that any order of
events leads to.
-/

namespace Jos

variable {L : Layout} {fl : List Nat} {s s₀ s' : Machine} {e e' : Fin nenv} {f p : Nat}
  {va : UInt32} {gens : Fin nenv → Nat} {efl : List (Fin nenv)}

/-- The kernel between `env_init` and the first `env_create`: `kern_pgdir` is loaded, and all
pages but those of the kernel are free. -/
structure Booted (L : Layout) (fl : List Nat) (efl : List (Fin nenv)) (s : Machine) : Prop
    extends Ready L fl efl s where
  cr3 : s.cr3 = .pgdir (page2pa L.kd)
  complete : ∀ p, L.Managed p → ¬ L.KTable p → p ∈ fl

theorem Booted.lifeInv (h : Booted L fl efl s) : LifeInv L fl (fun _ => 0) efl s := by
  have hnone (x : Slot) : own s.mem s.envs x = none := own_of_no_env h.free x
  constructor
  · exact h.inv
  · intro x y p hx
    rw [hnone] at hx
    cases hx
  · intro e d t p hp
    rw [hnone] at hp
    cases hp
  · exact fun p hp hfree hkernel => absurd (h.complete p hp hkernel) hfree
  · exact .inl h.cr3

theorem fileKernel_booted {k : Nat} (hk : k ≤ 65162) :
    ∃ efl, Booted (freshLayout k) (List.range' 374 k) efl (fileKernel k) := by
  obtain ⟨efl, -, hinv⟩ := fileKernel_inv hk
  refine ⟨efl, ⟨hinv, fun _ => rfl⟩, rfl, ?_⟩
  intro p hp hkernel
  have hhi : p < 374 + k := hp.1
  have hlo : ¬ p < 307 := hp.2
  have htable : ¬ (307 ≤ p ∧ p < 374) := fun h =>
    hkernel (.inr ((freshLayout_isKpt k).mpr h))
  rw [List.mem_range'_1]
  omega

/-- Of the user's accesses those below `UTOP` reach what the environment has mapped. -/
theorem walk_user (hf : dirFrame s.envs e = some f) (hva : va < utop)
    {write : Bool} {pa : Nat} (hwalk : s.walk f va write true = some pa) :
    mappedAt s e va = some (pa / 4096) := by
  obtain ⟨v, hv, rfl⟩ := GivenPages.pteAt_of_walk hwalk
  have hslot := own_pte (s := s) hf (t := ptxIdx va) (pdxIdx_lt_userPdes hva)
  rw [← vpn, hv, Option.map_some] at hslot
  have hframe : ((pteAddr v).toNat + (pgoff va).toNat) / 4096 = frameOf v := by
    rw [pteAddr_toNat, pgoff_toNat, frameOf, pgnum_toNat]
    omega
  rw [hframe]
  exact hslot

/-- Nothing from `ULIM` on is open to the user. -/
theorem KInv.walk_above (h : KInv L fl s) (hf : dirFrame s.envs e = some f) (hva : ulim ≤ va)
    (write : Bool) : s.walk f va write true = none := by
  have hd : 957 < (pdxIdx va).val := by
    have hulim : ulim.toNat = 4018143232 := rfl
    rw [UInt32.le_iff_toNat_le, hulim] at hva
    change 957 < (pdx va).toNat
    rw [pdx_toNat]
    omega
  have hne : pdxIdx va ≠ uvptIdx := by
    intro heq
    rw [heq] at hd
    exact absurd hd (by decide)
  have hentry := h.tables.dirKernel e f hf (pdxIdx va) (by unfold userPdes; omega) hne
  cases hwalk : s.walk f va write true with
  | none => rfl
  | some pa =>
    exfalso
    have hread : s.walk f va false true = some pa := by
      cases write
      · exact hwalk
      · exact walk_read hwalk
    simp only [Machine.walk] at hread
    split at hread
    · rename_i hpde
      split at hread
      · rename_i hpte
        have hkpt : L.kpt (pdxIdx va) = some (frameOf (s.mem f (pdxIdx va))) := by
          rw [Layout.kpt, if_pos ⟨by unfold userPdes; omega, hne⟩, ← hentry]
          exact entryFrame_eq_some.mpr ⟨hpde.1, rfl⟩
        rw [h.tables.kernel _ (.inr ⟨_, hkpt⟩)] at hpte
        exact h.good.kernel_only _ _ _ hkpt hd hpte
      · cases hread
    · cases hread

/-- The frame `p` belongs to the slot `x` and to nothing else. -/
structure OwnPage (L : Layout) (s : Machine) (x : Slot) (p : Nat) : Prop where
  managed : L.Managed p
  notKernel : ¬ L.KTable p
  notFree : ∀ l, Chain (fun q => (s.pages q).ppLink) s.pageFreeList l → p ∉ l
  count : (s.pages p).ppRef = 1
  slot : ∀ y, own s.mem s.envs y = some p ↔ y = x

theorem LifeInv.ownPage (h : LifeInv L fl gens efl s) {x : Slot}
    (hx : own s.mem s.envs x = some p) : OwnPage L s x p where
  managed := h.kinv.owned_managed hx
  notKernel := h.not_kernel hx
  notFree l hl hmem := by
    rw [h.kinv.chain_eq hl] at hmem
    exact h.kinv.free_not_owned hmem x hx
  count := UInt16.toNat_inj.mp (h.kinv.ref_one hx (h.alone x) (h.not_kernel hx))
  slot y := by
    constructor
    · exact h.alone x y p hx
    · rintro rfl
      exact hx

/-- The user can reach the pages that its own page tables map below `UTOP`, and of the rest of
memory it can read at most what the kernel shows it between `UTOP` and `ULIM`. -/
structure Confined (L : Layout) (s : Machine) (e : Fin nenv) (f : Nat) : Prop where
  kernelHalf : ∀ d : Fin 1024, userPdes ≤ d.val → d ≠ uvptIdx → s.mem f d = s.mem L.kd d
  aboveUlim : ∀ va, ulim ≤ va → ∀ write, s.walk f va write true = none
  aboveUtop : ∀ va, utop ≤ va → s.walk f va true true = none
  belowUtop : ∀ va < utop, ∀ write pa, s.walk f va write true = some pa →
    OwnPage L s (.pte e (pdxIdx va) (ptxIdx va)) (pa / 4096)

theorem LifeInv.confined (h : LifeInv L fl gens efl s) (hf : dirFrame s.envs e = some f) :
    Confined L s e f where
  kernelHalf d hd hne := by
    rw [h.kinv.tables.dirKernel e f hf d hd hne, h.kinv.tables.kernel _ (.inl rfl)]
  aboveUlim va hva := h.kinv.walk_above hf hva
  aboveUtop va hva := by
    cases hwalk : s.walk f va true true with
    | none => rfl
    | some pa =>
      obtain ⟨g, hg, -⟩ := pteFrame_eq_some.mp (h.kinv.walk_user_write hf hwalk)
      have hd : (pdx va).toNat < 955 := (pdeFrame_eq_some.mp hg).1
      have hutop : utop.toNat = 4005560320 := rfl
      rw [UInt32.le_iff_toNat_le, hutop] at hva
      rw [pdx_toNat] at hd
      omega
  belowUtop va hva write pa hwalk := h.ownPage (walk_user hf hva hwalk)

/-- Whatever happened before, an environment reaches only its own pages. -/
theorem confined_of_lives (hboot : Booted L fl efl s₀) (hrun : Lives L s₀ s)
    (hf : dirFrame s.envs e = some f) : Confined L s e f := by
  obtain ⟨fl', gens', efl', hinv⟩ := Lives.inv hboot.lifeInv hrun
  exact hinv.confined hf

/-- The file of `fileKernel` is loaded; ten pages at least are left. -/
theorem fileKernel_created : ∃ efl e f tail fl' s,
    Booted (freshLayout 650) (f :: tail) efl (fileKernel 650) ∧
      f :: tail = List.range' 374 650 ∧ Lives (freshLayout 650) (fileKernel 650) s ∧
      Created (freshLayout 650) e f (eEntry (fileKernel 650).mem 0xF0101000) .user tail
        (fileKernel 650) s fl' ∧ 10 ≤ fl'.length := by
  obtain ⟨efl, hboot⟩ := fileKernel_booted (k := 650) (by omega)
  have hfits := fileKernel_fits 650
  have hslot : efl ≠ [] := by
    rintro rfl
    exact absurd ((hboot.inv.table.free 0).mpr (hboot.free 0)) (by simp)
  have hneed : pagesNeeded (loadable (fileKernel 650).mem 0xF0101000) + 10 <
      (List.range' 374 650).length := by
    rw [fileKernel_loadable, List.length_range']
    decide
  obtain ⟨r, s, fl', hrun, hkinv, hspare⟩ :=
    hboot.inv.envCreate_leaves hboot.lifeInv.dirLoaded hfits hslot hneed
  obtain ⟨e, efl', f, tail, fl₁, rfl, -, hfl, hcreated⟩ :=
    hboot.inv.envCreate hboot.lifeInv.dirLoaded hfits.toHeadersInside hfits.below hrun
  obtain rfl := hcreated.inv.chain_eq hkinv.pool.chain
  rw [hfl] at hboot
  exact ⟨efl, e, f, tail, _, s, hboot, hfl.symm,
    .single ⟨.create 0xF0101000 .user, hfits.toHeadersInside, hfits.below, _, hrun⟩, hcreated,
    hspare⟩

/-- It is run. -/
theorem fileKernel_lives : ∃ e f s t, Lives (freshLayout 650) (fileKernel 650) s ∧
    dirFrame s.envs e = some f ∧ Event.Leads (freshLayout 650) s t (.run e) ∧ InUser e f t := by
  obtain ⟨efl, e, f, tail, fl', s, -, -, hlives, hcreated, -⟩ := fileKernel_created
  have hlive : (s.envs e).envStatus ≠ .free := (dirFrame_eq_some.mp hcreated.dir).1
  have hleads := envRun_ok hcreated.inv hcreated.dir
  refine ⟨e, f, s, _, hlives, hcreated.dir, ⟨hlive, hleads⟩, rfl, ?_, rfl⟩
  exact (congrFun (own_ran hcreated.dir) (.dir e)).trans hcreated.dir

/-- The file runs confined. -/
theorem confined_of_lives_file :
    ∃ e f s, InUser e f s ∧ Confined (freshLayout 650) s e f := by
  obtain ⟨efl, hboot⟩ := fileKernel_booted (k := 650) (by omega)
  obtain ⟨e, f, s, t, hlives, -, hleads, huser⟩ := fileKernel_lives
  exact ⟨e, f, t, huser, confined_of_lives hboot (hlives.tail ⟨_, hleads⟩) huser.dir⟩

/-- From `UTOP` on a page directory has the entries of `kern_pgdir`, but for the one at `UVPT`. -/
theorem KInv.walk_upper {fl₀ : List Nat} (h : KInv L fl s) (h₀ : KInv L fl₀ s₀)
    (hf : dirFrame s.envs e = some f) (hva : utop ≤ va) (huvpt : pdxIdx va ≠ uvptIdx)
    (write user : Bool) : s.walk f va write user = s₀.walk L.kd va write user := by
  have hd : userPdes ≤ (pdxIdx va).val := by
    have hutop : utop.toNat = 4005560320 := rfl
    rw [UInt32.le_iff_toNat_le, hutop] at hva
    change 955 ≤ (pdx va).toNat
    rw [pdx_toNat]
    omega
  have hnow := h.tables.dirKernel e f hf _ hd huvpt
  have hthen := congrFun (h₀.tables.kernel L.kd (.inl rfl)) (pdxIdx va)
  simp only [Machine.walk, hnow, hthen]
  by_cases hpde : allows (L.kmem L.kd (pdxIdx va)) write user
  · have hkpt : L.kpt (pdxIdx va) = some (frameOf (L.kmem L.kd (pdxIdx va))) := by
      rw [Layout.kpt, if_pos ⟨hd, huvpt⟩]
      exact entryFrame_eq_some.mpr ⟨hpde.1, rfl⟩
    have htable : L.KTable (frameOf (L.kmem L.kd (pdxIdx va))) := .inr ⟨_, hkpt⟩
    rw [h.tables.kernel _ htable, h₀.tables.kernel _ htable]
  · rw [if_neg hpde, if_neg hpde]

/-- From `UTOP` on every environment translates addresses as `kern_pgdir` did before the first
one was made, but for the window at `UVPT`. -/
theorem kernel_half_of_lives (hboot : Booted L fl efl s₀) (hrun : Lives L s₀ s)
    (hf : dirFrame s.envs e = some f) (hva : utop ≤ va) (huvpt : pdxIdx va ≠ uvptIdx)
    (write user : Bool) : s.walk f va write user = s₀.walk L.kd va write user := by
  obtain ⟨fl', gens', efl', hinv⟩ := Lives.inv hboot.lifeInv hrun
  exact hinv.kinv.walk_upper hboot.inv.kinv hf hva huvpt write user

/-- The first page of the kernel in the address space of the file. -/
theorem kernel_half_of_lives_file : ∃ e f s, InUser e f s ∧ ∀ write user,
    s.walk f kernbase write user = (fileKernel 650).walk 280 kernbase write user := by
  obtain ⟨efl, hboot⟩ := fileKernel_booted (k := 650) (by omega)
  obtain ⟨e, f, s, t, hlives, -, hleads, huser⟩ := fileKernel_lives
  exact ⟨e, f, t, huser, kernel_half_of_lives hboot (hlives.tail ⟨_, hleads⟩) huser.dir
    (by decide) (by decide)⟩

/-- A page is free and counts no reference, or it is not, and counts the one slot that refers to
it. -/
def PageAccounted (L : Layout) (s : Machine) (p : Nat) : Prop :=
  (∃ l, Chain (fun q => (s.pages q).ppLink) s.pageFreeList l ∧ p ∈ l) ∧
      (s.pages p).ppRef = 0 ∧ (∀ x, own s.mem s.envs x ≠ some p) ∨
    ∃ x, OwnPage L s x p

theorem LifeInv.accounted (h : LifeInv L fl gens efl s) (hp : L.Managed p)
    (hkernel : ¬ L.KTable p) : PageAccounted L s p := by
  by_cases hmem : p ∈ fl
  · have hcount := h.kinv.pool.free_cnt p hmem
    exact .inl ⟨⟨fl, h.kinv.pool.chain, hmem⟩, UInt16.toNat_inj.mp hcount,
      h.kinv.free_not_owned hmem⟩
  · obtain ⟨x, hx⟩ := h.complete p hp hmem hkernel
    exact .inr ⟨x, h.ownPage hx⟩

/-- Whatever happened before, no page is lost and none is used twice, and without environments
all pages are free as at the start. -/
theorem pages_accounted_of_lives (hboot : Booted L fl efl s₀) (hrun : Lives L s₀ s) :
    (∀ p, L.Managed p → ¬ L.KTable p → PageAccounted L s p) ∧
      ((∀ e, (s.envs e).envStatus = .free) →
        ∀ l, Chain (fun q => (s.pages q).ppLink) s.pageFreeList l → ∀ p, p ∈ l ↔ p ∈ fl) := by
  obtain ⟨fl', gens', efl', hinv⟩ := Lives.inv hboot.lifeInv hrun
  refine ⟨fun p hp hkernel => hinv.accounted hp hkernel, ?_⟩
  intro hfree l hl p
  rw [hinv.kinv.chain_eq hl]
  constructor
  · intro hmem
    exact hboot.complete p (hinv.kinv.free_managed hmem) (hinv.kinv.free_not_kernel hmem)
  · intro hmem
    by_contra hno
    obtain ⟨x, hx⟩ := hinv.complete p (hboot.inv.kinv.free_managed hmem) hno
      (hboot.inv.kinv.free_not_kernel hmem)
    rw [own_of_no_env hfree] at hx
    cases hx

/-- The file is loaded and freed; all 650 pages are free again. -/
theorem pages_accounted_of_lives_file : ∃ e f s t, Lives (freshLayout 650) (fileKernel 650) s ∧
    dirFrame s.envs e = some f ∧ Event.Leads (freshLayout 650) s t (.free e) ∧
      (∀ p, 374 ≤ p → p < 1024 → PageAccounted (freshLayout 650) t p) ∧
      ∃ l, Chain (fun q => (t.pages q).ppLink) t.pageFreeList l ∧
        ∀ p, p ∈ l ↔ p ∈ List.range' 374 650 := by
  obtain ⟨efl, e, f, tail, fl', s, hboot, hfl, hlives, hcreated, -⟩ := fileKernel_created
  have hlive : (s.envs e).envStatus ≠ .free := (dirFrame_eq_some.mp hcreated.dir).1
  obtain ⟨t, fl₂, hrun, hfreed⟩ := hcreated.inv.envFree hlive
  have hlives' : Lives (freshLayout 650) (fileKernel 650) t :=
    hlives.tail ⟨.free e, hlive, hrun⟩
  obtain ⟨haccounted, hback⟩ := pages_accounted_of_lives hboot hlives'
  refine ⟨e, f, s, t, hlives, hcreated.dir, ⟨hlive, hrun⟩, fun p hlo hhi => ?_, fl₂,
    hfreed.inv.pool.chain, ?_⟩
  · refine haccounted p ⟨hhi, ?_⟩ ?_
    · change ¬ p < 307
      omega
    · rintro (rfl | hkpt)
      · have hkd : (freshLayout 650).kd = 280 := rfl
        omega
      · have hlt := ((freshLayout_isKpt 650).mp hkpt).2
        omega
  · rw [← hfl]
    refine hback (fun b => ?_) fl₂ hfreed.inv.pool.chain
    rw [hfreed.envs]
    by_cases hb : b = e
    · subst hb
      rw [Function.update_self]
      rfl
    · rw [Function.update_of_ne hb, hcreated.envs, Function.update_of_ne hb]
      exact hboot.free b

/-- What the environment `e` owns in `s` is the same in `s'`. -/
structure LeftAlone (e : Fin nenv) (s s' : Machine) : Prop where
  owns : ∀ x : Slot, x.env = e → own s'.mem s'.envs x = own s.mem s.envs x
  frames : ∀ (x : Slot) g, x.env = e → own s.mem s.envs x = some g → s'.mem g = s.mem g
  registers : (s'.envs e).envTf = (s.envs e).envTf
  id : (s'.envs e).envId = (s.envs e).envId

namespace LeftAlone

theorem refl (e : Fin nenv) (s : Machine) : LeftAlone e s s :=
  ⟨fun _ _ => rfl, fun _ _ _ _ => rfl, rfl, rfl⟩

theorem trans {t : Machine} (h : LeftAlone e s s') (h' : LeftAlone e s' t) :
    LeftAlone e s t where
  owns x hx := (h'.owns x hx).trans (h.owns x hx)
  frames x g hx hg :=
    (h'.frames x g hx ((h.owns x hx).trans hg)).trans (h.frames x g hx hg)
  registers := h'.registers.trans h.registers
  id := h'.id.trans h.id

theorem dir (h : LeftAlone e s s') (hf : dirFrame s.envs e = some f) :
    dirFrame s'.envs e = some f := (h.owns (.dir e) rfl).trans hf

/-- The address space below `UTOP` is the same. -/
theorem walk_eq (h : LeftAlone e s s') (hf : dirFrame s.envs e = some f) (hva : va < utop)
    (write user : Bool) : s'.walk f va write user = s.walk f va write user := by
  have hdir : s'.mem f = s.mem f := h.frames (.dir e) f rfl hf
  simp only [Machine.walk, hdir]
  by_cases hpde : allows (s.mem f (pdxIdx va)) write user
  · have hg : own s.mem s.envs (.pde e (pdxIdx va)) = some (frameOf (s.mem f (pdxIdx va))) :=
      (pdeFrame_of_dir hf (pdxIdx_lt_userPdes hva)).trans (entryFrame_eq_some.mpr ⟨hpde.1, rfl⟩)
    rw [h.frames (.pde e (pdxIdx va)) _ rfl hg]
  · rw [if_neg hpde, if_neg hpde]

/-- So are its contents. -/
theorem userRead_eq (h : LeftAlone e s s') (hf : dirFrame s.envs e = some f) (hva : va < utop) :
    userRead s' f va = userRead s f va := by
  rw [userRead, userRead, h.walk_eq hf hva]
  cases hwalk : s.walk f va false true with
  | none => rfl
  | some pa =>
    have hframe := h.frames (.pte e (pdxIdx va) (ptxIdx va)) _ rfl (walk_user hf hva hwalk)
    rw [Option.map_some, Option.map_some, Mem.byte, Mem.byte, hframe]

end LeftAlone

namespace LifeInv

theorem created_leftAlone (h : LifeInv L (f :: fl) gens (e' :: efl) s) {fl' : List Nat}
    {entry : UInt32} {type : EnvType} (hc : Created L e' f entry type fl s s' fl')
    (hlive : (s.envs e).envStatus ≠ .free) : LeftAlone e s s' := by
  have hne : e ≠ e' := by
    rintro rfl
    exact hlive ((h.table.free e).mp List.mem_cons_self)
  constructor
  · intro x hx
    exact hc.others x (by rw [hx]; exact hne)
  · intro x g hx hg
    refine hc.frame g (fun hmem => ?_) ?_
    · exact h.kinv.free_not_owned (List.mem_cons_of_mem f hmem) x hg
    · rintro rfl
      exact h.kinv.free_not_owned List.mem_cons_self x hg
  · rw [hc.envs, Function.update_of_ne hne]
  · rw [hc.envs, Function.update_of_ne hne]

theorem freed_leftAlone (h : LifeInv L fl gens efl s) {fl' : List Nat}
    (hfreed : Freed L e' s fl s' fl') (hne : e ≠ e') : LeftAlone e s s' := by
  constructor
  · intro x hx
    exact hfreed.other x (by rw [hx]; exact hne)
  · intro x g hx hg
    refine hfreed.frame g fun y _ hy hyg => hne ?_
    rw [← hx, ← hy, h.alone x y g hg hyg]
  · rw [hfreed.envs, Function.update_of_ne hne]
  · rw [hfreed.envs, Function.update_of_ne hne]

theorem stored_leftAlone (h : LifeInv L fl gens efl s) (hf : dirFrame s.envs e' = some f)
    {pa : Nat} (hwalk : s.walk f va true true = some pa) (b : UInt8) (hne : e ≠ e') :
    LeftAlone e s (s.setMem (s.mem.setByte pa b)) := by
  have hslot : own s.mem s.envs (.pte e' (pdxIdx va) (ptxIdx va)) = some (pa / 4096) :=
    h.kinv.walk_user_write hf hwalk
  constructor
  · intro x _
    exact congrFun (h.kinv.userStore h.data hf hwalk b).2 x
  · intro x g hx hg
    refine Mem.setByte_frame _ _ ?_
    rintro rfl
    have hsame := h.alone x _ _ hg hslot
    rw [← hsame] at hx
    exact hne hx.symm
  · rfl
  · rfl

end LifeInv

theorem stopCurenv_slot (s : Machine) (b : Fin nenv) :
    (s.stopCurenv.envs b).envTf = (s.envs b).envTf ∧
      (s.stopCurenv.envs b).envId = (s.envs b).envId := by
  rcases stopCurenv_cases s b with ⟨h, -⟩ | ⟨-, h⟩ <;> simp [h]

theorem stopCurenv_mem (s : Machine) : s.stopCurenv.mem = s.mem := by
  unfold Machine.stopCurenv
  split
  · split <;> rfl
  · rfl

theorem ran_leftAlone (hf : dirFrame s.envs e' = some f) (e : Fin nenv) :
    LeftAlone e s ((s.stopCurenv.startEnv e').loadPgdir (page2pa f)) := by
  obtain ⟨htf, hid⟩ := stopCurenv_slot s e
  constructor
  · exact fun x _ => congrFun (own_ran hf) x
  · intro x g _ _
    exact congrFun (stopCurenv_mem s) g
  · by_cases he : e = e'
    · subst he
      simpa [Machine.startEnv] using htf
    · simpa [Machine.startEnv, he] using htf
  · by_cases he : e = e'
    · subst he
      simpa [Machine.startEnv] using hid
    · simpa [Machine.startEnv, he] using hid

theorem withTf_leftAlone (s : Machine) (tf : Trapframe) (hne : e ≠ e') :
    LeftAlone e s (s.withTf e' tf) := by
  constructor
  · exact fun x _ => congrFun (own_congr_envs (withTf_dirFrame s e' · tf)) x
  · exact fun _ _ _ _ => rfl
  · rw [Machine.withTf, Machine.setEnvs_envs, Function.update_of_ne hne]
  · rw [Machine.withTf, Machine.setEnvs_envs, Function.update_of_ne hne]

/-- An event that is not its own leaves an environment alone. -/
theorem LifeInv.leads_leftAlone (h : LifeInv L fl gens efl s) {ev : Event} (hev : ev.Leads L s s')
    (hlive : (s.envs e).envStatus ≠ .free) (hother : ¬ ev.Concerns e s) : LeftAlone e s s' := by
  cases ev with
  | create binary type =>
    obtain ⟨hheaders, hbelow, r, hrun⟩ := hev
    obtain ⟨e', efl', f, tail, fl', -, rfl, rfl, hcreated⟩ :=
      h.toMemInv.envCreate h.dirLoaded hheaders hbelow hrun
    exact h.created_leftAlone hcreated hlive
  | run e' =>
    obtain ⟨hlive', hrun⟩ := hev
    obtain ⟨f, hf, -⟩ := h.kinv.live_dir hlive'
    rw [envRun_ok h.kinv hf] at hrun
    cases hrun
    exact ran_leftAlone hf e
  | free e' =>
    obtain ⟨hlive', hrun⟩ := hev
    obtain ⟨t, fl', hr, hfreed⟩ := h.kinv.envFree hlive'
    rw [hr] at hrun
    cases hrun
    exact h.freed_leftAlone hfreed fun heq => hother heq.symm
  | store va b =>
    obtain ⟨e', f, pa, huser, hwalk, rfl⟩ := hev
    refine h.stored_leftAlone huser.dir hwalk b ?_
    rintro rfl
    exact hother huser.curenv
  | trap tf =>
    obtain ⟨⟨e', f, huser⟩, hcs, hrun⟩ := hev
    have hne : e ≠ e' := by
      rintro rfl
      exact hother huser.curenv
    rw [trap_user huser.curenv hcs] at hrun
    have htf := h.withTf e' tf
    have hlive' : ((s.withTf e' tf).envs e').envStatus ≠ .free := by
      rw [(withTf_slot s e' e' tf).2.2.1]
      exact (dirFrame_eq_some.mp huser.dir).1
    obtain ⟨t, fl', hr, hfreed⟩ := htf.kinv.envFree hlive'
    rw [hr] at hrun
    cases hrun
    exact (withTf_leftAlone s tf hne).trans (htf.freed_leftAlone hfreed hne)

theorem OthersLive.leftAlone (h : LifeInv L fl gens efl s₀)
    (hlive : (s₀.envs e).envStatus ≠ .free) (hrun : OthersLive L e s₀ s) : LeftAlone e s₀ s := by
  induction hrun with
  | refl => exact LeftAlone.refl e s₀
  | tail hrun' hstep ih =>
    obtain ⟨ev, hev, hother⟩ := hstep
    obtain ⟨fl', gens', efl', hinv⟩ := Lives.inv h (OthersLive.lives hrun')
    have hdir := ih.dir (dirFrame_eq_some.mpr ⟨hlive, rfl⟩)
    exact ih.trans (hinv.leads_leftAlone hev (dirFrame_eq_some.mp hdir).1 hother)

/-- Whatever the other environments do, and whichever are made and freed, an environment keeps its
registers, its address space below `UTOP` and every byte in it. -/
theorem others_do_not_disturb (hboot : Booted L fl efl s₀) (hlives : Lives L s₀ s)
    (hf : dirFrame s.envs e = some f) (hrun : OthersLive L e s s') :
    dirFrame s'.envs e = some f ∧ (s'.envs e).envTf = (s.envs e).envTf ∧
      (s'.envs e).envId = (s.envs e).envId ∧
      ∀ va < utop, (∀ write user, s'.walk f va write user = s.walk f va write user) ∧
        userRead s' f va = userRead s f va := by
  obtain ⟨fl', gens', efl', hinv⟩ := Lives.inv hboot.lifeInv hlives
  have hleft := OthersLive.leftAlone hinv (dirFrame_eq_some.mp hf).1 hrun
  exact ⟨hleft.dir hf, hleft.registers, hleft.id, fun va hva =>
    ⟨hleft.walk_eq hf hva, hleft.userRead_eq hf hva⟩⟩

/-- While the file is loaded a second time, and that environment freed, the memory of the first one
stays as it is. -/
theorem others_do_not_disturb_file : ∃ e e' f s t u, e' ≠ e ∧ dirFrame s.envs e = some f ∧
    Event.Leads (freshLayout 650) s t (.create 0xF0101000 .user) ∧
      Event.Leads (freshLayout 650) t u (.free e') ∧
      userRead u f 0x800000 = userRead s f 0x800000 := by
  obtain ⟨efl, e, f, tail, fl', s, hboot, -, hlives, hcreated, hspare⟩ := fileKernel_created
  obtain ⟨fl₁, gens, efl₁, hinv⟩ := Lives.inv hboot.lifeInv hlives
  obtain rfl := hinv.kinv.chain_eq hcreated.inv.pool.chain
  have hfits := (hcreated.sameImage hboot.inv.kinv).programFits (fileKernel_fits 650)
  have hload := (hcreated.sameImage hboot.inv.kinv).loadable (fileKernel_fits 650).toHeadersInside
  have hlive : (s.envs e).envStatus ≠ .free := (dirFrame_eq_some.mp hcreated.dir).1
  obtain ⟨b, hb⟩ := exists_ne e
  have hslot : efl₁ ≠ [] := by
    rintro rfl
    have hfree : (s.envs b).envStatus = .free := by
      rw [hcreated.envs, Function.update_of_ne hb]
      exact hboot.free b
    exact absurd ((hinv.table.free b).mpr hfree) (by simp)
  have hneed : pagesNeeded (loadable s.mem 0xF0101000) < 10 := by
    rw [hload, fileKernel_loadable]
    decide
  obtain ⟨⟨r, t⟩, hrun⟩ : ∃ r, (envCreate 0xF0101000 .user).run s = .ok r :=
    hinv.toMemInv.envCreate_returns hinv.dirLoaded hfits hslot (lt_of_lt_of_le hneed hspare)
  obtain ⟨e', efl', f', tail', fl₂, rfl, rfl, -, hcreated'⟩ :=
    hinv.toMemInv.envCreate hinv.dirLoaded hfits.toHeadersInside hfits.below hrun
  have hne : e' ≠ e := by
    rintro rfl
    exact hlive ((hinv.table.free e').mp List.mem_cons_self)
  have hlive' : (t.envs e').envStatus ≠ .free := (dirFrame_eq_some.mp hcreated'.dir).1
  obtain ⟨u, fl₃, hfreeRun, -⟩ := hcreated'.inv.envFree hlive'
  have hcreate : Event.Leads (freshLayout 650) s t (.create 0xF0101000 .user) :=
    ⟨hfits.toHeadersInside, hfits.below, _, hrun⟩
  have hfree : Event.Leads (freshLayout 650) t u (.free e') := ⟨hlive', hfreeRun⟩
  have hothers : OthersLive (freshLayout 650) e s u :=
    (Relation.ReflTransGen.single ⟨_, hcreate, fun h => h⟩).tail ⟨_, hfree, hne⟩
  obtain ⟨-, -, -, hsame⟩ := others_do_not_disturb hboot hlives hcreated.dir hothers
  exact ⟨e, e', f, s, t, u, hne, hcreated.dir, hcreate, hfree, (hsame 0x800000 (by decide)).2⟩

end Jos
