import Jos.FreshKernel

/-!
The table of environments from `env_init` on, over every run of `env_alloc`,
`env_free` and `env_run`.
-/

namespace Jos

variable {L : Layout} {fl : List Nat} {s s₀ s₁ : Machine} {log : List (Fin nenv × Int32)}

/-- The kernel when `env_init` is called: the table of environments is zero. -/
structure BeforeEnvInit (L : Layout) (fl : List Nat) (s : Machine) : Prop where
  kinv : KInv L fl s
  free : ∀ e, (s.envs e).envStatus = .free
  list : s.envFreeList = none

theorem BeforeEnvInit.inv (h : BeforeEnvInit L fl s₀) (hinit : envInit.run s₀ = .ok ((), s₁))
    (hrun : EnvRuns s₁ log s) : ∃ fl' efl gens, EnvInv L log s fl' efl gens := by
  rw [envInit_run] at hinit
  cases hinit
  obtain ⟨efl, htable⟩ := initEnvs_table s₀ h.list
  exact hrun.inv (h.kinv.initEnvs h.free) htable

/-- In every state of a run the free list holds the free slots, the live slots are
told apart by their ids and directories, at most the current environment runs, and
`env_alloc` fails only for want of a slot or of a page. -/
theorem env_table_of_run (h : BeforeEnvInit L fl s₀) (hinit : envInit.run s₀ = .ok ((), s₁))
    (hrun : EnvRuns s₁ log s) : EnvTableSpec s := by
  obtain ⟨fl', efl, gens, hinv⟩ := h.inv hinit hrun
  exact hinv.tableSpec

/-- What the ids given out along a run mean in its last state. -/
structure EnvIdsSpec (log : List (Fin nenv × Int32)) (s : Machine) : Prop where
  given : ∀ e, SlotIdsSpec (slotIds log e)
  resolve : ∀ envid checkperm, (checkperm = true → s.curenv ≠ none) →
    Envid2envSpec s envid checkperm
  /-- An id is rejected from the end of its environment on, until its slot has
  given out `2^19 - 1` more. -/
  stale : ∀ e i checkperm (_ : i < (slotIds log e).length),
    (s.envs e).envStatus = .free ∨ i + 1 < (slotIds log e).length →
    (slotIds log e).length - 1 - i < idPeriod →
    (envid2env (slotIds log e)[i] checkperm).run s = .ok ((-eBadEnv, none), s)

theorem env_ids_of_run (h : BeforeEnvInit L fl s₀) (hinit : envInit.run s₀ = .ok ((), s₁))
    (hrun : EnvRuns s₁ log s) : EnvIdsSpec log s := by
  obtain ⟨fl', efl, gens, hinv⟩ := h.inv hinit hrun
  refine ⟨hinv.slotIdsSpec, ?_, ?_⟩
  · intro envid checkperm hcur
    exact hinv.envid2env envid checkperm hcur
  · intro e i checkperm hi hfreed hwindow
    exact hinv.stale_rejected checkperm hi hfreed hwindow

theorem freshKernel_beforeEnvInit {k : Nat} (hk : k ≤ 65162) :
    BeforeEnvInit (freshLayout k) (List.range' 374 k) (freshKernel k) :=
  ⟨freshKernel_kinv hk, fun _ => rfl, rfl⟩

/-- In a kernel of 4 MB `env_alloc` takes slot 0. -/
theorem freshKernel_envAlloc :
    EnvRuns (readyKernel 650) [(0, 4096)] ((readyKernel 650).newEnv 0 374 280 0) := by
  have hready := readyKernel_kinv (k := 650) (by omega)
  rw [List.range'_succ] at hready
  exact EnvRuns.start.alloc (envAlloc_ok hready 0 rfl)

theorem env_table_freshKernel :
    EnvRuns (readyKernel 650) [(0, 4096)] ((readyKernel 650).newEnv 0 374 280 0) ∧
      EnvTableSpec ((readyKernel 650).newEnv 0 374 280 0) :=
  ⟨freshKernel_envAlloc, env_table_of_run (freshKernel_beforeEnvInit (by omega))
    (envInit_run _) freshKernel_envAlloc⟩

/-- Once that environment is freed, its id is rejected. -/
theorem env_ids_freshKernel :
    ∃ s, EnvRuns (readyKernel 650) [(0, 4096)] s ∧
      (envid2env 4096 false).run s = .ok ((-eBadEnv, none), s) := by
  have hready := readyKernel_kinv (k := 650) (by omega)
  rw [List.range'_succ] at hready
  have hnew : KInv (freshLayout 650) (List.range' 375 649)
      ((readyKernel 650).newEnv 0 374 280 0) := (hready.newEnv 0 rfl).1
  have hlive : (((readyKernel 650).newEnv 0 374 280 0).envs 0).envStatus ≠ .free := by
    simp [newEnvRecord]
  obtain ⟨s, fl, hfree, hfreed⟩ := hnew.envFree hlive
  have hrun := freshKernel_envAlloc.free hlive hfree
  have hspec := env_ids_of_run (freshKernel_beforeEnvInit (by omega)) (envInit_run _) hrun
  have hslot : (s.envs 0).envStatus = .free := by
    rw [hfreed.envs, Function.update_self]
    rfl
  exact ⟨s, hrun, hspec.stale 0 0 false (by decide) (.inl hslot) (by decide)⟩

end Jos
