import Jos.Pmap

/-!
Environments: the table `envs`, its free list and the life of an environment,
from `kern/env.c`. A `struct Env *` is the index of the environment, with
`none` for `NULL`.
-/

namespace Jos

def gdKt : UInt16 := 0x08
def gdUt : UInt16 := 0x18
def gdUd : UInt16 := 0x20

def envx (envid : Int32) : Fin nenv :=
  ⟨(envid &&& (1024 - 1)).toUInt32.toNat % nenv, Nat.mod_lt _ (by decide)⟩

def setEnv (e : Fin nenv) (f : Env → Env) : Kern Unit :=
  Prog.update fun s => s.setEnvs (Function.update s.envs e (f (s.envs e)))

def setEnvFreeList (e : Option (Fin nenv)) : Kern Unit :=
  Prog.update fun s => { s with envFreeList := e }

/-- The status and the environment stored through `env_store`. -/
def envid2env (envid : Int32) (checkperm : Bool) : Kern (Int × Option (Fin nenv)) := do
  if envid = 0 then
    return (0, ← Prog.read (·.curenv))
  let e := envx envid
  let env ← Prog.read (·.envs e)
  if env.envStatus = .free ∨ env.envId ≠ envid then
    return (-eBadEnv, none)
  let curenv ← Prog.read (·.curenv)
  if checkperm ∧ some e ≠ curenv then
    match curenv with
    -- `curenv->env_id` of a null `curenv`
    | none => Prog.halt (.pageFault 72)
    | some c =>
      let cur ← Prog.read (·.envs c)
      if env.envParentId ≠ cur.envId then
        return (-eBadEnv, none)
      return (0, some e)
  return (0, some e)

/-- The loop of `env_init` over the slots `i - 1, …, 0`. -/
def envInitLoop : (i : Nat) → i ≤ nenv → Kern Unit
  | 0, _ => pure ()
  | i + 1, hi => do
    let link ← Prog.read (·.envFreeList)
    setEnv ⟨i, hi⟩ fun e => { e with envId := 0, envStatus := .free, envLink := link }
    setEnvFreeList (some ⟨i, hi⟩)
    envInitLoop i (Nat.le_of_succ_le hi)

def envInit : Kern Unit := envInitLoop nenv (le_refl nenv)

def envSetupVm (e : Fin nenv) : Kern Int := do
  match ← pageAlloc allocZero with
  | none => return -eNoMem
  | some p =>
    let envPgdir ← page2kva p
    setEnv e fun env => { env with envPgdir := envPgdir }
    kcopyPage envPgdir (← Prog.read (·.kernPgdir))
    let info ← Prog.read (·.pages p)
    setPage p { info with ppRef := info.ppRef + 1 }
    kstore (entryPtr envPgdir (pdx uvpt)) ((← paddr envPgdir) ||| pteP ||| pteU)
    return 0

/-- The next id of the slot `e` whose last id was `envId`. -/
def nextEnvId (e : Fin nenv) (envId : Int32) : Int32 :=
  let generation : Int32 := (envId + (1 : Int32) <<< 12) &&& ~~~(1024 - 1)
  let generation : Int32 := if generation ≤ 0 then (1 : Int32) <<< 12 else generation
  generation ||| Int32.ofNat e.val

def initialTf : Trapframe :=
  { Trapframe.zero with
    tfDs := gdUd ||| 3
    tfEs := gdUd ||| 3
    tfSs := gdUd ||| 3
    tfEsp := ustacktop
    tfCs := gdUt ||| 3 }

/-- The status and the environment stored through `newenv_store`. -/
def envAlloc (parentId : Int32) : Kern (Int × Option (Fin nenv)) := do
  match ← Prog.read (·.envFreeList) with
  | none => return (-eNoFreeEnv, none)
  | some e =>
    let r ← envSetupVm e
    if r < 0 then
      return (r, none)
    setEnv e fun env =>
      { env with
        envId := nextEnvId e env.envId
        envParentId := parentId
        envType := .user
        envStatus := .runnable
        envRuns := 0
        envTf := initialTf }
    setEnvFreeList (← Prog.read fun s => (s.envs e).envLink)
    return (0, some e)

/-- One round of the loop over the page table at `pt` in `env_free`. -/
def envFreePte (e : Fin nenv) (pt : UInt32) (pdeno pteno : Nat) : Kern Unit := do
  let pte ← kload (entryPtr pt (UInt32.ofNat pteno))
  if present pte then
    pageRemove (← Prog.read fun s => (s.envs e).envPgdir)
      (pgaddr (UInt32.ofNat pdeno) (UInt32.ofNat pteno) 0)

/-- One round of the loop over the page directory in `env_free`. -/
def envFreePde (e : Fin nenv) (pdeno : Nat) : Kern Unit := do
  let pgdir ← Prog.read fun s => (s.envs e).envPgdir
  let pde ← kload (entryPtr pgdir (UInt32.ofNat pdeno))
  if present pde then
    let pa := pteAddr pde
    let pt ← kaddr pa
    Prog.forRange 0 ((ptx (~~~0)).toNat + 1) (envFreePte e pt pdeno)
    kstore (entryPtr (← Prog.read fun s => (s.envs e).envPgdir) (UInt32.ofNat pdeno)) 0
    pageDecref (← pa2page pa)

def envFree (e : Fin nenv) : Kern Unit := do
  if some e = (← Prog.read (·.curenv)) then
    lcr3 (← paddr (← Prog.read (·.kernPgdir)))
  Prog.forRange 0 (pdx utop).toNat (envFreePde e)
  let pa ← paddr (← Prog.read fun s => (s.envs e).envPgdir)
  setEnv e fun env => { env with envPgdir := 0 }
  pageDecref (← pa2page pa)
  let link ← Prog.read (·.envFreeList)
  setEnv e fun env => { env with envStatus := .free, envLink := link }
  setEnvFreeList (some e)

/-- `env_run`, up to the `iret` in `env_pop_tf`. -/
def envRun (e : Fin nenv) : Kern Unit := do
  match ← Prog.read (·.curenv) with
  | some c =>
    if (← Prog.read fun s => (s.envs c).envStatus) = .running then
      setEnv c fun env => { env with envStatus := .runnable }
  | none => pure ()
  Prog.update fun s => { s with curenv := some e }
  setEnv e fun env => { env with envStatus := .running, envRuns := env.envRuns + 1 }
  lcr3 (← paddr (← Prog.read fun s => (s.envs e).envPgdir))

end Jos
