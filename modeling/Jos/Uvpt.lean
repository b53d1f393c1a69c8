import Jos.UserRuns

/-!
The virtual page table of `inc/memlayout.h`: the directory entry at `PDX(UVPT)`
points to the page directory itself, so the walk of an address in the window at
`UVPT` goes through the directory twice. The user's `uvpd` and `uvpt` then show
the entries that `pgdir_walk` finds.
-/

namespace Jos

variable {L : Layout} {fl : List Nat} {s s₀ : Machine} {e : Fin nenv} {f g : Nat}
  {va : UInt32} {efl : List (Fin nenv)}

/-- `uvpd`, from `lib/entry.S`. -/
def uvpd : UInt32 := uvpt + (uvpt >>> 12) * 4

/-- `&uvpd[PDX(va)]`. -/
def uvpdEntry (va : UInt32) : UInt32 := entryPtr uvpd (pdx va)

/-- `&uvpt[PGNUM(va)]`. -/
def uvptEntry (va : UInt32) : UInt32 := entryPtr uvpt (pgnum va)

theorem uvpdEntry_toNat (va : UInt32) :
    (uvpdEntry va).toNat = 4017868800 + 4 * (va.toNat / 4194304) := by
  have hd := pdx_lt va
  have hbase : uvpd.toNat = 4017868800 := rfl
  have hfour : (4 : UInt32).toNat = 4 := rfl
  rw [uvpdEntry, entryPtr, UInt32.toNat_add, UInt32.toNat_mul, hbase, hfour]
  rw [pdx_toNat] at hd ⊢
  omega

theorem uvptEntry_toNat (va : UInt32) :
    (uvptEntry va).toNat = 4013948928 + 4 * (va.toNat / 4096) := by
  have hva := toNat_lt va
  have hbase : uvpt.toNat = 4013948928 := rfl
  have hfour : (4 : UInt32).toNat = 4 := rfl
  rw [uvptEntry, entryPtr, UInt32.toNat_add, UInt32.toNat_mul, hbase, hfour, pgnum_toNat]
  omega

theorem pdxIdx_eq {a : UInt32} {i : Fin 1024} (h : a.toNat / 4194304 = i.val) : pdxIdx a = i := by
  refine Fin.ext ?_
  change (pdx a).toNat = _
  rw [pdx_toNat, h]

theorem ptxIdx_eq {a : UInt32} {i : Fin 1024} (h : a.toNat / 4096 % 1024 = i.val) :
    ptxIdx a = i := by
  refine Fin.ext ?_
  change (ptx a).toNat = _
  rw [ptx_toNat, h]

theorem pdxIdx_uvpdEntry (va : UInt32) : pdxIdx (uvpdEntry va) = uvptIdx := by
  have hva := toNat_lt va
  refine pdxIdx_eq ?_
  rw [uvpdEntry_toNat]
  change _ = 957
  omega

theorem ptxIdx_uvpdEntry (va : UInt32) : ptxIdx (uvpdEntry va) = uvptIdx := by
  have hva := toNat_lt va
  refine ptxIdx_eq ?_
  rw [uvpdEntry_toNat]
  change _ = 957
  omega

theorem pdxIdx_uvptEntry (va : UInt32) : pdxIdx (uvptEntry va) = uvptIdx := by
  have hva := toNat_lt va
  refine pdxIdx_eq ?_
  rw [uvptEntry_toNat]
  change _ = 957
  omega

theorem ptxIdx_uvptEntry (va : UInt32) : ptxIdx (uvptEntry va) = pdxIdx va := by
  have hva := toNat_lt va
  refine ptxIdx_eq ?_
  rw [uvptEntry_toNat]
  change _ = (pdx va).toNat
  rw [pdx_toNat]
  omega

theorem pgoff_uvpdEntry (va : UInt32) :
    (pgoff (uvpdEntry va)).toNat = (pdxIdx va).val * 4 := by
  have hva := toNat_lt va
  rw [pgoff_toNat, uvpdEntry_toNat]
  change _ = (pdx va).toNat * 4
  rw [pdx_toNat]
  omega

theorem pgoff_uvptEntry (va : UInt32) :
    (pgoff (uvptEntry va)).toNat = (ptxIdx va).val * 4 := by
  have hva := toNat_lt va
  rw [pgoff_toNat, uvptEntry_toNat]
  change _ = (ptx va).toNat * 4
  rw [ptx_toNat]
  omega

/-- `pgdir_walk` created the page tables of the kernel too. -/
def Layout.TablesCreated (L : Layout) : Prop :=
  ∀ d g, L.kpt d = some g → L.kmem L.kd d = page2pa g ||| tableFlags

/-- Every present entry of a page directory lets the user read through it, and
points to a page with a `struct PageInfo`. -/
theorem KInv.pde_readable (h : KInv L fl s) (hcreated : L.TablesCreated)
    (hf : dirFrame s.envs e = some f) {d : Fin 1024} (hd : present (s.mem f d)) :
    L.Managed (frameOf (s.mem f d)) ∧ allows (s.mem f d) false true := by
  have hread : ∀ g, L.Managed g → s.mem f d = page2pa g ||| tableFlags →
      L.Managed (frameOf (s.mem f d)) ∧ allows (s.mem f d) false true := by
    intro g hg hentry
    have hlt := h.good.lt hg
    rw [hentry, frameOf_entry (by omega) (by decide), allows_entry (by omega)]
    exact ⟨hg, by decide⟩
  by_cases huser : d.val < userPdes
  · have hpde : pdeFrame s.mem s.envs e d = some (frameOf (s.mem f d)) := by
      rw [pdeFrame_of_dir hf huser]
      exact entryFrame_eq_some.mpr ⟨hd, rfl⟩
    exact hread _ (h.owned_managed (x := .pde e d) hpde) (h.tables.pdeFlags e f d _ hf hpde)
  · by_cases huvpt : d = uvptIdx
    · have hself := h.tables.dirSelf e f hf
      have hlt := h.dir_lt hf
      rw [huvpt, hself, UInt32.or_assoc, frameOf_entry (by omega) (by decide),
        allows_entry (by omega)]
      exact ⟨h.owned_managed (x := .dir e) hf, by decide⟩
    · have hentry := h.tables.dirKernel e f hf d (by omega) huvpt
      have hkpt : L.kpt d = some (frameOf (s.mem f d)) := by
        rw [Layout.kpt, if_pos ⟨by omega, huvpt⟩, ← hentry]
        exact entryFrame_eq_some.mpr ⟨hd, rfl⟩
      exact hread _ (h.good.kpt_managed d _ hkpt) (hentry.trans (hcreated d _ hkpt))

/-- The walk of an address in the window at `UVPT` ends in the frame that the
entry `d` of the directory points to. -/
theorem KInv.walk_uvpt (h : KInv L fl s) (hcreated : L.TablesCreated)
    (hf : dirFrame s.envs e = some f) {a : UInt32} (hpdx : pdxIdx a = uvptIdx)
    (hd : present (s.mem f (ptxIdx a))) :
    s.walk f a false true =
      some (frameOf (s.mem f (ptxIdx a)) * 4096 + (pgoff a).toNat) := by
  have hlt := h.dir_lt hf
  have hself := h.tables.dirSelf e f hf
  rw [UInt32.or_assoc] at hself
  have hallowed : allows (s.mem f uvptIdx) false true := by
    rw [hself, allows_entry (by omega)]
    decide
  have hframe : frameOf (s.mem f uvptIdx) = f := by
    rw [hself, frameOf_entry (by omega) (by decide)]
  obtain ⟨hmanaged, hread⟩ := h.pde_readable hcreated hf hd
  have hpage := h.good.lt hmanaged
  simp only [Machine.walk, hpdx, hframe, if_pos hallowed, if_pos hread]
  rw [pteAddr_eq_page2pa, page2pa_toNat (by omega)]

/-- Reading through the user's virtual page table reaches the entries of `va`
that the kernel works with. -/
structure UvptTruth (s : Machine) (e : Fin nenv) (va : UInt32) : Prop where
  pde : ∃ pa, s.kernPa false (entryPtr (s.envs e).envPgdir (pdx va)) = some pa ∧
    s.walk (frameOfKva (s.envs e).envPgdir) (uvpdEntry va) false true = some pa
  pte : present (s.mem (frameOfKva (s.envs e).envPgdir) (pdxIdx va)) →
    ∃ ptr pa, (pgdirWalk (s.envs e).envPgdir va false).run s = .ok (some ptr, s) ∧
      s.kernPa false ptr = some pa ∧
      s.walk (frameOfKva (s.envs e).envPgdir) (uvptEntry va) false true = some pa

theorem KInv.uvptTruth (h : KInv L fl s) (hcreated : L.TablesCreated)
    (hlive : (s.envs e).envStatus ≠ .free) (va : UInt32) : UvptTruth s e va := by
  obtain ⟨f, hf, hpgdir⟩ := h.live_dir hlive
  have hlt := h.dir_lt hf
  have hfw := h.inWindow hlt
  have hself := h.tables.dirSelf e f hf
  rw [UInt32.or_assoc] at hself
  refine ⟨?_, ?_⟩
  · rw [hpgdir, frameOfKva_kva hlt, entryPtr_pdx hlt]
    refine ⟨_, kernPa_wordPtr false (pdxIdx va) hfw, ?_⟩
    have hd : present (s.mem f (ptxIdx (uvpdEntry va))) := by
      rw [ptxIdx_uvpdEntry, hself, present_entry (by omega)]
      decide
    rw [h.walk_uvpt hcreated hf (pdxIdx_uvpdEntry va) hd, ptxIdx_uvpdEntry, hself,
      frameOf_entry (by omega) (by decide), pgoff_uvpdEntry]
  · rw [hpgdir, frameOfKva_kva hlt]
    intro hd
    obtain ⟨hmanaged, -⟩ := h.pde_readable hcreated hf hd
    have hpage := h.good.lt hmanaged
    refine ⟨_, _, pgdirWalk_present false hfw hd rfl (h.lt_npages hmanaged) hpage,
      kernPa_wordPtr false (ptxIdx va) (h.inWindow hpage), ?_⟩
    have hd' : present (s.mem f (ptxIdx (uvptEntry va))) := by
      rw [ptxIdx_uvptEntry]
      exact hd
    rw [h.walk_uvpt hcreated hf (pdxIdx_uvptEntry va) hd', ptxIdx_uvptEntry, pgoff_uvptEntry]

/-- In every state of a run, the virtual page table of every live environment
tells the truth about every address. -/
theorem uvpt_tells_the_truth (h : Ready L fl efl s₀) (hcreated : L.TablesCreated)
    (hrun : UserRuns L s₀ s) (hlive : (s.envs e).envStatus ≠ .free) (va : UInt32) :
    UvptTruth s e va := by
  obtain ⟨⟨fl', gens', efl', hinv⟩, -⟩ := hrun.inv h
  exact hinv.kinv.uvptTruth hcreated hlive va

theorem freshLayout_tablesCreated (k : Nat) : (freshLayout k).TablesCreated := by
  intro d g hg
  rw [freshLayout_kpt] at hg
  exact freshMem_pde hg

/-- The first environment of a kernel of 4 MB. -/
theorem uvpt_oneEnv :
    ∃ s, UserRuns (freshLayout 650) (readyKernel 650) s ∧ (s.envs 0).envStatus ≠ .free ∧
      ∀ va, UvptTruth s 0 va := by
  obtain ⟨efl, hready⟩ := readyKernel_ready (k := 650) (by omega)
  obtain ⟨hrun, -, hdir, -⟩ := oneEnv_runs (k := 648)
    (fun s c => c.CountFits s ∧ c.InsertsData (freshLayout 650) s)
    (fun _ => ⟨trivial, trivial⟩) (fun _ => ⟨trivial, trivial⟩) (by omega)
  have hlive := (dirFrame_eq_some.mp hdir).1
  have huser := UserRuns.of_memRuns hrun
  exact ⟨_, huser, hlive, fun va =>
    uvpt_tells_the_truth hready (freshLayout_tablesCreated 650) huser hlive va⟩

end Jos
