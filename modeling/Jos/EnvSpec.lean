import Jos.Env
import Jos.PmapSpec

/-!
What `env_alloc` and `env_free` do to a state that satisfies the invariant.
-/

namespace Jos

variable {L : Layout} {fl : List Nat} {s : Machine} {e : Fin nenv} {f g p : Nat}

/-- The environment that `env_alloc` puts into the slot `e`. -/
def newEnvRecord (e : Fin nenv) (env : Env) (f : Nat) (parentId : Int32) : Env where
  envTf := initialTf
  envLink := env.envLink
  envId := nextEnvId e env.envId
  envParentId := parentId
  envType := .user
  envStatus := .runnable
  envRuns := 0
  envPgdir := kva f

/-- The contents of the new page directory `f`, a copy of `kd`. -/
def newDirMem (m : Mem) (f kd : Nat) : Mem :=
  ((m.zeroFrame f).copyFrame f kd).setWord f uvptIdx (page2pa f ||| pteP ||| pteU)

/-- The state after `env_setup_vm` built the page directory `f`, before it is
given to an environment. -/
def Machine.newDir (s : Machine) (f kd : Nat) : Machine :=
  ((((s.takePage f).setMem (s.mem.zeroFrame f)).setMem
    ((s.mem.zeroFrame f).copyFrame f kd)).incref f).setMem (newDirMem s.mem f kd)

/-- The state after `env_alloc` took the slot `e` and the page `f`. -/
def Machine.newEnv (s : Machine) (e : Fin nenv) (f kd : Nat) (parentId : Int32) : Machine :=
  { (s.newDir f kd).setEnvs
      (Function.update s.envs e (newEnvRecord e (s.envs e) f parentId)) with
    envFreeList := (s.envs e).envLink }

section NewEnvFields

variable (s : Machine) (e : Fin nenv) (f kd : Nat) (parentId : Int32)

@[simp] theorem newEnv_image : (s.newEnv e f kd parentId).image = s.image := by
  simp [Machine.newEnv, Machine.newDir, Machine.incref]

@[simp] theorem newEnv_npages : (s.newEnv e f kd parentId).npages = s.npages := by
  simp [Machine.newEnv, Machine.newDir, Machine.incref]

@[simp] theorem newEnv_kernPgdir : (s.newEnv e f kd parentId).kernPgdir = s.kernPgdir := by
  simp [Machine.newEnv, Machine.newDir, Machine.incref]

@[simp] theorem newEnv_cr3 : (s.newEnv e f kd parentId).cr3 = s.cr3 := by
  simp [Machine.newEnv, Machine.newDir, Machine.incref]

@[simp] theorem newEnv_curenv : (s.newEnv e f kd parentId).curenv = s.curenv := by
  simp [Machine.newEnv, Machine.newDir, Machine.incref]

@[simp] theorem newEnv_mem : (s.newEnv e f kd parentId).mem = newDirMem s.mem f kd := by
  simp [Machine.newEnv, Machine.newDir, Machine.incref]

@[simp] theorem newEnv_envs : (s.newEnv e f kd parentId).envs =
    Function.update s.envs e (newEnvRecord e (s.envs e) f parentId) := by
  simp [Machine.newEnv]

@[simp] theorem newEnv_envFreeList :
    (s.newEnv e f kd parentId).envFreeList = (s.envs e).envLink := rfl

@[simp] theorem newEnv_pages : (s.newEnv e f kd parentId).pages =
    Function.update s.pages f { ppLink := none, ppRef := 1 } := by
  simp [Machine.newEnv, Machine.newDir, Machine.incref]

@[simp] theorem newEnv_pageFreeList :
    (s.newEnv e f kd parentId).pageFreeList = (s.pages f).ppLink := by
  simp [Machine.newEnv, Machine.newDir, Machine.incref]

end NewEnvFields

theorem newDirMem_other (m : Mem) {f kd g : Nat} (hg : g ≠ f) : newDirMem m f kd g = m g := by
  rw [newDirMem, Mem.setWord_frame _ _ _ hg, Mem.copyFrame_frame _ _ hg,
    Mem.zeroFrame_frame _ hg]

theorem newDirMem_copy (m : Mem) {f kd : Nat} (hkd : kd ≠ f) {d : Fin 1024}
    (hd : d ≠ uvptIdx) : newDirMem m f kd f d = m kd d := by
  rw [newDirMem, Mem.setWord_of_ne _ _ (fun _ => hd), Mem.copyFrame_same,
    Mem.zeroFrame_frame _ hkd]

theorem newDirMem_self (m : Mem) (f kd : Nat) :
    newDirMem m f kd f uvptIdx = page2pa f ||| pteP ||| pteU :=
  Mem.setWord_same _ _ _ _

theorem envAlloc_no_free_env (parentId : Int32) (h : s.envFreeList = none) :
    (envAlloc parentId).run s = .ok ((-eNoFreeEnv, none), s) := by
  simp [envAlloc, h]

theorem envAlloc_no_memory (parentId : Int32) (he : s.envFreeList = some e)
    (hfree : s.pageFreeList = none) :
    (envAlloc parentId).run s = .ok ((-eNoMem, none), s) := by
  have hneg : -eNoMem < 0 := by decide
  have hsetup : (envSetupVm e).run s = .ok (-eNoMem, s) := by
    simp only [envSetupVm]
    rw [Prog.bind_of_ok (pageAlloc_none _ hfree)]
    rfl
  simp only [envAlloc, Prog.run_read_bind, he]
  rw [Prog.bind_of_ok hsetup, if_pos hneg]
  rfl

theorem envAlloc_ok (h : KInv L (f :: fl) s) (parentId : Int32)
    (he : s.envFreeList = some e) :
    (envAlloc parentId).run s = .ok ((0, some e), s.newEnv e f L.kd parentId) := by
  have hmanaged := h.free_managed (p := f) List.mem_cons_self
  have hf16 := h.good.lt hmanaged
  have hlt := h.lt_npages hmanaged
  have hfw := h.inWindow hf16
  have hkw := h.inWindow h.good.kd_lt'
  have huvpt : pdx uvpt = UInt32.ofNat uvptIdx.val := rfl
  have hsetup : (envSetupVm e).run s = .ok (0, (s.newDir f L.kd).setEnvs
      (Function.update s.envs e { s.envs e with envPgdir := kva f })) := by
    simp only [envSetupVm]
    rw [Prog.bind_of_ok (pageAlloc_zero_some h.head_eq hlt hfw)]
    simp only
    rw [Prog.bind_of_ok (page2kva_eq (by exact hlt) (by omega))]
    simp only [setEnv, Prog.run_update_bind, Prog.run_read_bind, Machine.setEnvs_kernPgdir,
      Machine.setMem_kernPgdir, Machine.takePage_kernPgdir, h.kernPgdir]
    rw [Prog.bind_of_ok (kcopyPage_kva (by exact hfw) (by exact hkw))]
    simp only [Prog.run_read_bind, setPage, Prog.run_update_bind]
    rw [Prog.bind_of_ok (paddr_kva hf16), huvpt, entryPtr_ofNat hf16,
      Prog.bind_of_ok (kstore_wordPtr _ _ (by exact hfw))]
    rfl
  simp only [envAlloc, Prog.run_read_bind, he]
  rw [Prog.bind_of_ok hsetup, if_neg (by decide)]
  simp only [setEnv, setEnvFreeList, Prog.run_update_bind, Prog.run_read_bind]
  simp [Machine.newEnv, newEnvRecord, Machine.setEnvs]

/-- The state after a successful `env_alloc`. -/
theorem KInv.newEnv (h : KInv L (f :: fl) s) (parentId : Int32)
    (hfree : (s.envs e).envStatus = .free) :
    KInv L fl (s.newEnv e f L.kd parentId) ∧
      own (s.newEnv e f L.kd parentId).mem (s.newEnv e f L.kd parentId).envs =
        Function.update (own s.mem s.envs) (.dir e) (some f) := by
  have hmem : f ∈ f :: fl := List.mem_cons_self
  have hmanaged := h.free_managed hmem
  have hf16 := h.good.lt hmanaged
  have hfresh := h.free_not_owned hmem
  have hkernel := h.free_not_kernel hmem
  have hkd : L.kd ≠ f := by
    rintro rfl
    exact hkernel (.inl rfl)
  have hkdir : s.mem L.kd = L.kmem L.kd := h.tables.kernel L.kd (.inl rfl)
  have hlive : (newEnvRecord e (s.envs e) f parentId).envStatus ≠ .free := by
    simp [newEnvRecord]
  have hcopy : ∀ d : Fin 1024, d ≠ uvptIdx → newDirMem s.mem f L.kd f d = L.kmem L.kd d := by
    intro d hd
    rw [newDirMem_copy _ hkd hd, hkdir]
  have hempty : ∀ d : Fin 1024, d.val < userPdes → ¬ present (newDirMem s.mem f L.kd f d) := by
    intro d hd
    have hne : d ≠ uvptIdx := by
      rintro rfl
      exact absurd hd (by decide)
    rw [hcopy d hne]
    exact h.good.user_empty d hd
  have hother : ∀ g, g ≠ f → newDirMem s.mem f L.kd g = s.mem g :=
    fun g hg => newDirMem_other _ hg
  have hown := own_newDir hfree hlive rfl hf16 hother hempty hfresh
  have htables := h.tables.newDir hfree hlive rfl hf16 hother hempty hcopy
    (newDirMem_self _ _ _) hfresh hkernel
  have hpool := h.pool.takePage.incref (x := .dir e) hmanaged h.pool.chain.not_mem_tail
    (dirFrame_eq_none.mpr hfree) (by simp)
  rw [← hown] at hpool
  have hpages : (s.newEnv e f L.kd parentId).pages = ((s.takePage f).incref f).pages := by
    simp [Machine.incref]
  rw [newEnv_mem, newEnv_envs]
  refine ⟨⟨h.good, ?_, ?_, ?_, ?_, ?_, ?_⟩, hown⟩
  · rw [newEnv_image]
    exact h.image
  · rw [newEnv_npages]
    exact h.npages
  · rw [newEnv_kernPgdir]
    exact h.kernPgdir
  · rw [newEnv_cr3]
    exact h.cr3
  · rw [newEnv_mem, newEnv_envs]
    exact hpool.congr hpages (by simp [Machine.incref])
  · rw [newEnv_mem, newEnv_envs]
    exact htables

end Jos
