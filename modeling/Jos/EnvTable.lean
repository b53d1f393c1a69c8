import Jos.EnvFree
import Jos.EnvId

/-!
The table of environments over whole runs: which slots are on the free list,
which ids they hold, and who runs. `EnvTable` is the invariant; it also counts
how often each slot has been allocated, as the ids depend on that.
-/

namespace Jos

variable {L : Layout} {fl : List Nat} {s s' : Machine} {e : Fin nenv} {f : Nat}
  {gens : Fin nenv → Nat} {efl : List (Fin nenv)}

/-- The id of a slot that has been allocated `n` times. -/
def idAt (n : Nat) (e : Fin nenv) : Int32 :=
  match n with
  | 0 => 0
  | n + 1 => idOf (n % idPeriod + 1) e

theorem idAt_gen_lt (n : Nat) : n % idPeriod + 1 < 524288 := by
  have hlt : n % idPeriod < idPeriod := Nat.mod_lt _ (by decide)
  have hperiod : idPeriod = 524287 := rfl
  omega

theorem nextEnvId_idAt (n : Nat) (e : Fin nenv) : nextEnvId e (idAt n e) = idAt (n + 1) e := by
  cases n with
  | zero => exact nextEnvId_zero e
  | succ n =>
    have hlt := idAt_gen_lt n
    have hperiod : idPeriod = 524287 := rfl
    have hnext := nextEnvId_idOf (k := n % idPeriod + 1) e (by omega) (by omega)
    have hmod : (n % idPeriod + 1) % idPeriod = (n + 1) % idPeriod := Nat.mod_add_mod ..
    rw [hmod] at hnext
    exact hnext

theorem idAt_pos (n : Nat) (e : Fin nenv) (hn : 0 < n) : 0 < idAt n e := by
  cases n with
  | zero => omega
  | succ n => exact idOf_pos e (by omega) (idAt_gen_lt n)

theorem envx_idAt (n : Nat) (e : Fin nenv) (hn : 0 < n) : envx (idAt n e) = e := by
  cases n with
  | zero => omega
  | succ n => exact envx_idOf e (idAt_gen_lt n)

/-- Two allocations of a slot with fewer than `2^19 - 1` between them give
different ids. -/
theorem idAt_ne {i j : Nat} (hij : i < j) (hwindow : j - i < idPeriod) (e : Fin nenv) :
    idAt (i + 1) e ≠ idAt (j + 1) e := by
  intro h
  obtain ⟨hmod, -⟩ := idOf_inj (idAt_gen_lt i) (idAt_gen_lt j) h
  have hsame : i % idPeriod = j % idPeriod := by omega
  have hdvd : idPeriod ∣ j - i := (Nat.modEq_iff_dvd' (by omega)).mp hsame
  exact absurd (Nat.le_of_dvd (by omega) hdvd) (by omega)

structure EnvTable (gens : Fin nenv → Nat) (efl : List (Fin nenv)) (s : Machine) : Prop where
  chain : Chain (fun e => (s.envs e).envLink) s.envFreeList efl
  free : ∀ e, e ∈ efl ↔ (s.envs e).envStatus = .free
  id : ∀ e, (s.envs e).envId = idAt (gens e) e
  live : ∀ e, (s.envs e).envStatus ≠ .free → 0 < gens e
  running : ∀ e, (s.envs e).envStatus = .running → s.curenv = some e

namespace EnvTable

theorem newEnv (h : EnvTable gens (e :: efl) s) (f kd : Nat) (parentId : Int32) :
    EnvTable (Function.update gens e (gens e + 1)) efl (s.newEnv e f kd parentId) where
  chain := by
    have hlink (b : Fin nenv) (hb : b ∈ efl) :
        ((s.newEnv e f kd parentId).envs b).envLink = (s.envs b).envLink := by
      have hne : b ≠ e := ne_of_mem_of_not_mem hb h.chain.not_mem_tail
      rw [newEnv_envs, Function.update_of_ne hne]
    exact h.chain.pop hlink
  free := by
    intro b
    rw [newEnv_envs]
    by_cases hb : b = e
    · subst hb
      simp [newEnvRecord, h.chain.not_mem_tail]
    · rw [Function.update_of_ne hb, ← h.free b]
      simp [hb]
  id := by
    intro b
    rw [newEnv_envs]
    by_cases hb : b = e
    · subst hb
      simp only [Function.update_self, newEnvRecord, h.id b]
      exact nextEnvId_idAt (gens b) b
    · rw [Function.update_of_ne hb, Function.update_of_ne hb]
      exact h.id b
  live := by
    intro b hb
    rw [newEnv_envs] at hb
    by_cases hbe : b = e
    · subst hbe
      rw [Function.update_self]
      omega
    · rw [Function.update_of_ne hbe] at hb ⊢
      exact h.live b hb
  running := by
    intro b hb
    rw [newEnv_envs] at hb
    rw [newEnv_curenv]
    by_cases hbe : b = e
    · subst hbe
      simp [newEnvRecord] at hb
    · rw [Function.update_of_ne hbe] at hb
      exact h.running b hb

theorem freed {fl fl' : List Nat} (h : EnvTable gens efl s)
    (hlive : (s.envs e).envStatus ≠ .free) (hfreed : Freed L e s fl s' fl') :
    EnvTable gens (e :: efl) s' where
  chain := by
    have hmem : e ∉ efl := fun hmem => hlive ((h.free e).mp hmem)
    rw [hfreed.envFreeList]
    apply h.chain.push
    · intro b hb
      have hne : b ≠ e := ne_of_mem_of_not_mem hb hmem
      simp only [hfreed.envs, Function.update_of_ne hne]
    · simp only [hfreed.envs, Function.update_self, freedRecord]
  free := by
    intro b
    rw [hfreed.envs]
    by_cases hb : b = e
    · subst hb
      simp [freedRecord]
    · rw [Function.update_of_ne hb, ← h.free b]
      simp [hb]
  id := by
    intro b
    rw [hfreed.envs]
    by_cases hb : b = e
    · subst hb
      rw [Function.update_self]
      exact h.id b
    · rw [Function.update_of_ne hb]
      exact h.id b
  live := by
    intro b hb
    rw [hfreed.envs] at hb
    by_cases hbe : b = e
    · subst hbe
      rw [Function.update_self] at hb
      exact absurd rfl hb
    · rw [Function.update_of_ne hbe] at hb
      exact h.live b hb
  running := by
    intro b hb
    rw [hfreed.envs] at hb
    rw [hfreed.curenv]
    by_cases hbe : b = e
    · subst hbe
      rw [Function.update_self] at hb
      cases hb
    · rw [Function.update_of_ne hbe] at hb
      exact h.running b hb

end EnvTable

/-- The current environment, if it runs, becomes runnable. -/
def Machine.stopCurenv (s : Machine) : Machine :=
  match s.curenv with
  | some c =>
    if (s.envs c).envStatus = .running then
      s.setEnvs (Function.update s.envs c { s.envs c with envStatus := .runnable })
    else s
  | none => s

/-- The environment `e` becomes the current one. -/
def Machine.startEnv (s : Machine) (e : Fin nenv) : Machine :=
  { s with
    curenv := some e
    envs := Function.update s.envs e
      { s.envs e with envStatus := .running, envRuns := (s.envs e).envRuns + 1 } }

/-- What `env_run` does to one slot. -/
theorem stopCurenv_cases (s : Machine) (b : Fin nenv) :
    s.stopCurenv.envs b = s.envs b ∧
        ¬ (s.curenv = some b ∧ (s.envs b).envStatus = .running) ∨
      (s.envs b).envStatus = .running ∧
        s.stopCurenv.envs b = { s.envs b with envStatus := .runnable } := by
  unfold Machine.stopCurenv
  cases hcur : s.curenv with
  | none => simp
  | some c =>
    by_cases hrunning : (s.envs c).envStatus = .running
    · simp only [hrunning, if_true, Machine.setEnvs_envs]
      by_cases hb : b = c
      · subst hb
        simp [hrunning]
      · simp [Function.update_of_ne hb, Ne.symm hb]
    · simp only [hrunning, if_false]
      left
      refine ⟨trivial, ?_⟩
      rintro ⟨hb, hrun⟩
      cases hb
      exact hrunning hrun

theorem stopCurenv_envPgdir (s : Machine) (b : Fin nenv) :
    (s.stopCurenv.envs b).envPgdir = (s.envs b).envPgdir := by
  rcases stopCurenv_cases s b with ⟨h, -⟩ | ⟨-, h⟩ <;> rw [h]

theorem stopCurenv_dirFrame (s : Machine) (b : Fin nenv) :
    dirFrame s.stopCurenv.envs b = dirFrame s.envs b := by
  rcases stopCurenv_cases s b with ⟨h, -⟩ | ⟨hrun, h⟩
  · simp only [dirFrame, h]
  · simp only [dirFrame, h, hrun]
    rfl

theorem KInv.stopCurenv (h : KInv L fl s) : KInv L fl s.stopCurenv := by
  have hset := h.setEnvs (stopCurenv_dirFrame s) (stopCurenv_envPgdir s)
  unfold Machine.stopCurenv at hset ⊢
  cases hcur : s.curenv with
  | none => exact h
  | some c =>
    by_cases hrunning : (s.envs c).envStatus = .running
    · simpa only [hcur, hrunning, if_true, Machine.setEnvs_envs] using hset
    · simpa only [hcur, hrunning, if_false] using h

theorem startEnv_dirFrame (hlive : (s.envs e).envStatus ≠ .free) (b : Fin nenv) :
    dirFrame (s.startEnv e).envs b = dirFrame s.envs b := by
  by_cases hb : b = e
  · subst hb
    simp [dirFrame, Machine.startEnv, hlive]
  · exact dirFrame_update_ne hb

theorem KInv.startEnv (h : KInv L fl s) (hlive : (s.envs e).envStatus ≠ .free) :
    KInv L fl (s.startEnv e) := by
  have hset : KInv L fl (s.setEnvs (s.startEnv e).envs) := h.setEnvs (startEnv_dirFrame hlive)
    (by
      intro b
      by_cases hb : b = e
      · subst hb
        simp [Machine.startEnv]
      · simp [Machine.startEnv, hb])
  exact hset.congr rfl rfl rfl h.cr3 rfl rfl rfl rfl

theorem envRun_ok (h : KInv L fl s) (hf : dirFrame s.envs e = some f) :
    (envRun e).run s = .ok ((), (s.stopCurenv.startEnv e).loadPgdir (page2pa f)) := by
  have hf' : dirFrame s.stopCurenv.envs e = some f := by
    rw [stopCurenv_dirFrame]
    exact hf
  have hpgdir := h.stopCurenv.dir_kva hf'
  have hstart : (do
      Prog.update fun s : Machine => { s with curenv := some e }
      setEnv e fun env => { env with envStatus := .running, envRuns := env.envRuns + 1 }
      lcr3 (← paddr (← Prog.read fun s => (s.envs e).envPgdir)) : Kern Unit).run
        s.stopCurenv = .ok ((), (s.stopCurenv.startEnv e).loadPgdir (page2pa f)) := by
    simp only [setEnv, Prog.run_update_bind, Prog.run_read_bind, Machine.setEnvs_envs,
      Function.update_self]
    rw [Prog.bind_of_ok (paddr_of_eq_kva hpgdir (h.dir_lt hf))]
    rfl
  rw [← hstart]
  simp only [envRun, Prog.run_read_bind]
  unfold Machine.stopCurenv
  cases hcur : s.curenv with
  | none => rfl
  | some c =>
    simp only [Prog.run_read_bind]
    by_cases hrunning : (s.envs c).envStatus = .running
    · simp only [hrunning, if_true, setEnv, Prog.run_update_bind]
    · simp only [hrunning, if_false]

theorem stopCurenv_live (hf : dirFrame s.envs e = some f) :
    (s.stopCurenv.envs e).envStatus ≠ .free := by
  rw [← stopCurenv_dirFrame] at hf
  exact (dirFrame_eq_some.mp hf).1

theorem KInv.ran (h : KInv L fl s) (hf : dirFrame s.envs e = some f) :
    KInv L fl ((s.stopCurenv.startEnv e).loadPgdir (page2pa f)) :=
  (h.stopCurenv.startEnv (stopCurenv_live hf)).congr rfl rfl rfl ⟨_, rfl⟩ rfl rfl rfl rfl

/-- `env_run` changes no reference. -/
theorem own_ran (hf : dirFrame s.envs e = some f) :
    own ((s.stopCurenv.startEnv e).loadPgdir (page2pa f)).mem
      ((s.stopCurenv.startEnv e).loadPgdir (page2pa f)).envs = own s.mem s.envs := by
  have hmem : s.stopCurenv.mem = s.mem := by
    unfold Machine.stopCurenv
    split
    · split <;> rfl
    · rfl
  change own s.stopCurenv.mem (s.stopCurenv.startEnv e).envs = _
  rw [hmem]
  refine own_congr_envs fun b => ?_
  rw [startEnv_dirFrame (stopCurenv_live hf) b, stopCurenv_dirFrame]

theorem EnvTable.ran (h : EnvTable gens efl s) (hlive : (s.envs e).envStatus ≠ .free)
    (pa : UInt32) : EnvTable gens efl ((s.stopCurenv.startEnv e).loadPgdir pa) := by
  have hlist : s.stopCurenv.envFreeList = s.envFreeList := by
    unfold Machine.stopCurenv
    split
    · split <;> rfl
    · rfl
  have hslot (b : Fin nenv) :
      (((s.stopCurenv.startEnv e).loadPgdir pa).envs b).envLink = (s.envs b).envLink ∧
      (((s.stopCurenv.startEnv e).loadPgdir pa).envs b).envId = (s.envs b).envId ∧
      ((((s.stopCurenv.startEnv e).loadPgdir pa).envs b).envStatus = .free ↔
        (s.envs b).envStatus = .free) := by
    change ((s.stopCurenv.startEnv e).envs b).envLink = _ ∧
      ((s.stopCurenv.startEnv e).envs b).envId = _ ∧
      (((s.stopCurenv.startEnv e).envs b).envStatus = .free ↔ _)
    by_cases hb : b = e
    · subst hb
      rcases stopCurenv_cases s b with ⟨hs, -⟩ | ⟨hrun, hs⟩
      · simp [Machine.startEnv, hs, hlive]
      · simp [Machine.startEnv, hs, hlive]
    · rcases stopCurenv_cases s b with ⟨hs, -⟩ | ⟨hrun, hs⟩
      · simp [Machine.startEnv, hb, hs]
      · simp [Machine.startEnv, hb, hs, hrun]
  refine ⟨?_, ?_, ?_, ?_, ?_⟩
  · change Chain _ s.stopCurenv.envFreeList efl
    rw [hlist]
    exact h.chain.congr fun b _ => (hslot b).1
  · intro b
    rw [(hslot b).2.2]
    exact h.free b
  · intro b
    rw [(hslot b).2.1]
    exact h.id b
  · intro b hb
    exact h.live b (fun hfree => hb ((hslot b).2.2.mpr hfree))
  · intro b hb
    change some e = some b
    by_contra hne
    have hbe : b ≠ e := fun heq => hne (heq ▸ rfl)
    have hb' : (s.stopCurenv.envs b).envStatus = .running := by
      have hsame : ((s.stopCurenv.startEnv e).loadPgdir pa).envs b = s.stopCurenv.envs b :=
        Function.update_of_ne hbe _ _
      rw [hsame] at hb
      exact hb
    rcases stopCurenv_cases s b with ⟨hs, hno⟩ | ⟨-, hs⟩
    · rw [hs] at hb'
      exact hno ⟨h.running b hb', hb'⟩
    · rw [hs] at hb'
      cases hb'

/-- The slot `b` after `env_init` on a table whose list head is `head`. -/
def initRecord (env : Env) (head : Option (Fin nenv)) (b : Fin nenv) : Env :=
  { env with
    envId := 0
    envStatus := .free
    envLink := if h : b.val + 1 < nenv then some ⟨b.val + 1, h⟩ else head }

/-- The state after the loop of `env_init` has reached slot `i` from above. -/
def Machine.initEnvs (s : Machine) (i : Nat) : Machine :=
  { s.setEnvs (fun b => if i ≤ b.val then initRecord (s.envs b) s.envFreeList b else s.envs b) with
    envFreeList := if h : i < nenv then some ⟨i, h⟩ else s.envFreeList }

theorem envInitLoop_run (s : Machine) (i : Nat) (hi : i ≤ nenv) :
    (envInitLoop i hi).run (s.initEnvs i) = .ok ((), s.initEnvs 0) := by
  induction i with
  | zero => rfl
  | succ i ih =>
    have hstep : ((s.initEnvs (i + 1)).setEnvs (Function.update (s.initEnvs (i + 1)).envs ⟨i, hi⟩
        { (s.initEnvs (i + 1)).envs ⟨i, hi⟩ with
          envId := 0, envStatus := .free, envLink := (s.initEnvs (i + 1)).envFreeList })).envs =
        (s.initEnvs i).envs := by
      funext b
      by_cases hb : b.val = i
      · have hbi : b = ⟨i, hi⟩ := Fin.ext hb
        subst hbi
        simp [Machine.initEnvs, initRecord]
      · have hbi : b ≠ ⟨i, hi⟩ := fun heq => hb (congrArg Fin.val heq)
        have hle : i < b.val ↔ i ≤ b.val := by omega
        simp [Machine.initEnvs, Function.update_of_ne hbi, hle]
    have hlt : i < nenv := hi
    rw [← ih (Nat.le_of_succ_le hi)]
    simp only [envInitLoop, Prog.run_read_bind, setEnv, setEnvFreeList, Prog.run_update_bind]
    congr 1
    rw [Machine.setEnvs_envs] at hstep
    simp only [Machine.setEnvs, hstep]
    simp [Machine.initEnvs, hlt]

theorem envInit_run (s : Machine) : envInit.run s = .ok ((), s.initEnvs 0) := by
  have hloop := envInitLoop_run s nenv (le_refl nenv)
  have hstart : s.initEnvs nenv = s := by
    have hno : ∀ b : Fin nenv, ¬ nenv ≤ b.val := fun b => Nat.not_le.mpr b.isLt
    simp only [Machine.initEnvs, hno, if_false, Machine.setEnvs, Nat.lt_irrefl, dif_neg,
      not_false_iff]
  rw [hstart] at hloop
  exact hloop

/-- The free list from slot `i` on. -/
theorem initEnvs_chain (s : Machine) (hlist : s.envFreeList = none) (n : Nat) (i : Nat)
    (hi : i + n = nenv) :
    ∃ efl, Chain (fun b => ((s.initEnvs 0).envs b).envLink)
        (if h : i < nenv then some ⟨i, h⟩ else none) efl ∧
      ∀ b : Fin nenv, b ∈ efl ↔ i ≤ b.val := by
  induction n generalizing i with
  | zero =>
    refine ⟨[], ?_, ?_⟩
    · rw [dif_neg (by omega)]
      rfl
    · intro b
      have hb := b.isLt
      simp
      omega
  | succ n ih =>
    obtain ⟨efl, hchain, hmem⟩ := ih (i + 1) (by omega)
    have hlt : i < nenv := by omega
    refine ⟨⟨i, hlt⟩ :: efl, ?_, ?_⟩
    · rw [dif_pos hlt]
      refine ⟨rfl, ?_⟩
      have hlink : ((s.initEnvs 0).envs ⟨i, hlt⟩).envLink =
          if h : i + 1 < nenv then some ⟨i + 1, h⟩ else none := by
        simp [Machine.initEnvs, initRecord, hlist]
      simp only [hlink]
      exact hchain
    · intro b
      simp only [List.mem_cons, hmem, Fin.ext_iff]
      omega

/-- `env_init` makes a table in which no slot has been allocated. -/
theorem initEnvs_table (s : Machine) (hlist : s.envFreeList = none) :
    ∃ efl, EnvTable (fun _ => 0) efl (s.initEnvs 0) := by
  obtain ⟨efl, hchain, hmem⟩ := initEnvs_chain s hlist nenv 0 (by omega)
  have hfree : ∀ b, ((s.initEnvs 0).envs b).envStatus = .free := by
    intro b
    simp [Machine.initEnvs, initRecord]
  refine ⟨efl, hchain, ?_, ?_, ?_, ?_⟩
  · intro b
    simp [hmem, hfree]
  · intro b
    simp [Machine.initEnvs, initRecord, idAt]
  · intro b hb
    exact absurd (hfree b) hb
  · intro b hb
    rw [hfree b] at hb
    cases hb

theorem KInv.initEnvs (h : KInv L fl s) (hfree : ∀ b, (s.envs b).envStatus = .free) :
    KInv L fl (s.initEnvs 0) := by
  have hset : KInv L fl (s.setEnvs (s.initEnvs 0).envs) := h.setEnvs
    (by
      intro b
      simp [dirFrame, Machine.initEnvs, initRecord, hfree])
    (by
      intro b
      simp [Machine.initEnvs, initRecord])
  exact hset.congr rfl rfl rfl h.cr3 rfl rfl rfl rfl

end Jos
