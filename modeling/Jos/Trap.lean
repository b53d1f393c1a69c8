import Jos.EnvTable

/-!
A trap of an environment, from `kern/trap.c`. The lab has no handler for any trap, so
`trap_dispatch` destroys the environment that trapped; `env_destroy` then stays in the monitor.
-/

namespace Jos

/-- `env_destroy`, up to the loop around `monitor`. -/
def envDestroy (e : Fin nenv) : Kern Unit := envFree e

/-- `trap_dispatch` of a frame with that `tf_cs`. -/
def trapDispatch (tfCs : UInt16) : Kern Unit := do
  if tfCs = gdKt then
    panic "unhandled trap in kernel"
  match ← Prog.read (·.curenv) with
  -- `e->env_id` of a null `curenv`
  | none => Prog.halt (.pageFault 72)
  | some e => envDestroy e

/-- `trap`, up to the loop around `monitor`. -/
def trap (tf : Trapframe) : Kern Unit := do
  if tf.tfCs &&& 3 = 3 then
    match ← Prog.read (·.curenv) with
    | none => panic "assertion failed: curenv"
    | some c => setEnv c fun env => { env with envTf := tf }
  trapDispatch tf.tfCs

variable {L : Layout} {fl : List Nat} {s s' : Machine} {e : Fin nenv} {tf : Trapframe}
  {gens : Fin nenv → Nat} {efl : List (Fin nenv)}

/-- The registers of the environment are saved in its slot. -/
def Machine.withTf (s : Machine) (e : Fin nenv) (tf : Trapframe) : Machine :=
  s.setEnvs (Function.update s.envs e { s.envs e with envTf := tf })

/-- A trap from user mode frees the current environment, whatever is in the frame. -/
theorem trap_user (hcur : s.curenv = some e) (hcs : tf.tfCs &&& 3 = 3) :
    (trap tf).run s = (envFree e).run (s.withTf e tf) := by
  have hkt : tf.tfCs ≠ gdKt := by
    intro heq
    rw [heq] at hcs
    exact absurd hcs (by decide)
  unfold trap trapDispatch
  simp only [if_pos hcs, if_neg hkt, Prog.run_read_bind, hcur, setEnv, Prog.run_update_bind,
    Machine.setEnvs_curenv]
  rfl

theorem withTf_dirFrame (s : Machine) (e e' : Fin nenv) (tf : Trapframe) :
    dirFrame (s.withTf e tf).envs e' = dirFrame s.envs e' := by
  unfold Machine.withTf dirFrame
  rw [Machine.setEnvs_envs]
  by_cases he : e' = e
  · subst he
    rw [Function.update_self]
  · rw [Function.update_of_ne he]

theorem withTf_slot (s : Machine) (e b : Fin nenv) (tf : Trapframe) :
    ((s.withTf e tf).envs b).envLink = (s.envs b).envLink ∧
      ((s.withTf e tf).envs b).envId = (s.envs b).envId ∧
      ((s.withTf e tf).envs b).envStatus = (s.envs b).envStatus ∧
      ((s.withTf e tf).envs b).envPgdir = (s.envs b).envPgdir := by
  unfold Machine.withTf
  rw [Machine.setEnvs_envs]
  by_cases hb : b = e
  · subst hb
    rw [Function.update_self]
    exact ⟨rfl, rfl, rfl, rfl⟩
  · rw [Function.update_of_ne hb]
    exact ⟨rfl, rfl, rfl, rfl⟩

theorem KInv.withTf (h : KInv L fl s) (e : Fin nenv) (tf : Trapframe) : KInv L fl (s.withTf e tf) :=
  h.setEnvs (withTf_dirFrame s e · tf) fun b => (withTf_slot s e b tf).2.2.2

/-- The table of environments depends on links, ids and states only. -/
theorem EnvTable.congr (h : EnvTable gens efl s)
    (hslot : ∀ b, (s'.envs b).envLink = (s.envs b).envLink ∧ (s'.envs b).envId = (s.envs b).envId ∧
      (s'.envs b).envStatus = (s.envs b).envStatus)
    (hlist : s'.envFreeList = s.envFreeList) (hcur : s'.curenv = s.curenv) :
    EnvTable gens efl s' where
  chain := by
    rw [hlist]
    exact h.chain.congr fun b _ => (hslot b).1
  free b := by
    rw [(hslot b).2.2]
    exact h.free b
  id b := by
    rw [(hslot b).2.1]
    exact h.id b
  live b hb := by
    rw [(hslot b).2.2] at hb
    exact h.live b hb
  running b hb := by
    rw [(hslot b).2.2] at hb
    rw [hcur]
    exact h.running b hb

theorem EnvTable.withTf (h : EnvTable gens efl s) (e : Fin nenv) (tf : Trapframe) :
    EnvTable gens efl (s.withTf e tf) :=
  h.congr (fun b => ⟨(withTf_slot s e b tf).1, (withTf_slot s e b tf).2.1,
    (withTf_slot s e b tf).2.2.1⟩) rfl rfl

end Jos
