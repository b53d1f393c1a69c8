import Jos.EnvTable

/-!
Runs of `env_alloc`, `env_free` and `env_run`, with the ids that were given out,
and how `envid2env` resolves ids in the states they reach.
-/

namespace Jos

variable {L : Layout} {fl : List Nat} {s s₀ s' : Machine} {e : Fin nenv}
  {gens : Fin nenv → Nat} {efl : List (Fin nenv)} {log : List (Fin nenv × Int32)}

/-- The id given out by an `env_alloc` that stored `o` and ended in `s`. -/
def given (s : Machine) : Option (Fin nenv) → List (Fin nenv × Int32)
  | none => []
  | some e => [(e, (s.envs e).envId)]

/-- The ids that the slot `e` gave out, in order. -/
def slotIds (log : List (Fin nenv × Int32)) (e : Fin nenv) : List Int32 :=
  (log.filter fun entry => entry.1 = e).map Prod.snd

/-- The states reached from `s₀`, with the ids given out on the way. -/
inductive EnvRuns (s₀ : Machine) : List (Fin nenv × Int32) → Machine → Prop
  | start : EnvRuns s₀ [] s₀
  | alloc {log : List (Fin nenv × Int32)} {s s' : Machine} {parentId : Int32} {r : Int}
      {o : Option (Fin nenv)} (h : EnvRuns s₀ log s)
      (hrun : (envAlloc parentId).run s = .ok ((r, o), s')) : EnvRuns s₀ (log ++ given s' o) s'
  | free {log : List (Fin nenv × Int32)} {s s' : Machine} {e : Fin nenv} (h : EnvRuns s₀ log s)
      (hlive : (s.envs e).envStatus ≠ .free) (hrun : (envFree e).run s = .ok ((), s')) :
      EnvRuns s₀ log s'
  | run {log : List (Fin nenv × Int32)} {s s' : Machine} {e : Fin nenv} (h : EnvRuns s₀ log s)
      (hlive : (s.envs e).envStatus ≠ .free) (hrun : (envRun e).run s = .ok ((), s')) :
      EnvRuns s₀ log s'

/-- `env_alloc` fails when no slot is free, else when no page is free. -/
theorem envAlloc_cases (h : KInv L fl s) (ht : EnvTable gens efl s) (parentId : Int32) :
    (efl = [] ∧ (envAlloc parentId).run s = .ok ((-eNoFreeEnv, none), s)) ∨
    (efl ≠ [] ∧ fl = [] ∧ (envAlloc parentId).run s = .ok ((-eNoMem, none), s)) ∨
    ∃ e efl' f fl', efl = e :: efl' ∧ fl = f :: fl' ∧
      (envAlloc parentId).run s = .ok ((0, some e), s.newEnv e f L.kd parentId) := by
  cases efl with
  | nil => exact .inl ⟨rfl, envAlloc_no_free_env parentId ht.chain.head_eq⟩
  | cons e efl' =>
    right
    cases fl with
    | nil =>
      left
      exact ⟨by simp, rfl, envAlloc_no_memory parentId ht.chain.head_eq h.head_eq⟩
    | cons f fl' =>
      right
      exact ⟨e, efl', f, fl', rfl, rfl, envAlloc_ok h parentId ht.chain.head_eq⟩

/-- What holds in every state of a run from a fresh table: each slot has given
out its ids in turn. -/
structure EnvInv (L : Layout) (log : List (Fin nenv × Int32)) (s : Machine) (fl : List Nat)
    (efl : List (Fin nenv)) (gens : Fin nenv → Nat) : Prop where
  kinv : KInv L fl s
  table : EnvTable gens efl s
  ids : ∀ e, slotIds log e = (List.range (gens e)).map fun j => idAt (j + 1) e

theorem slotIds_given_none (log : List (Fin nenv × Int32)) (s : Machine) :
    slotIds (log ++ given s none) = slotIds log := by
  simp [given]

theorem slotIds_given_some (log : List (Fin nenv × Int32)) (s : Machine) (e b : Fin nenv) :
    slotIds (log ++ given s (some e)) b =
      slotIds log b ++ if b = e then [(s.envs e).envId] else [] := by
  by_cases hb : b = e
  · simp [slotIds, given, hb]
  · simp [slotIds, given, hb, Ne.symm hb]

theorem EnvRuns.inv (hkinv : KInv L fl s₀) (htable : EnvTable (fun _ => 0) efl s₀)
    (hrun : EnvRuns s₀ log s) : ∃ fl efl gens, EnvInv L log s fl efl gens := by
  induction hrun with
  | start => exact ⟨fl, efl, fun _ => 0, hkinv, htable, fun _ => rfl⟩
  | @alloc log s s' parentId r o _ hstep ih =>
    obtain ⟨fl', efl', gens', h⟩ := ih
    rcases envAlloc_cases h.kinv h.table parentId with ⟨-, hr⟩ | ⟨-, -, hr⟩ |
      ⟨e, efl'', f, fl'', rfl, rfl, hr⟩
    · rw [hr] at hstep
      cases hstep
      exact ⟨fl', efl', gens', h.kinv, h.table, by rw [slotIds_given_none]; exact h.ids⟩
    · rw [hr] at hstep
      cases hstep
      exact ⟨fl', efl', gens', h.kinv, h.table, by rw [slotIds_given_none]; exact h.ids⟩
    · rw [hr] at hstep
      cases hstep
      have hfree : (s.envs e).envStatus = .free := (h.table.free e).mp List.mem_cons_self
      have htable' := h.table.newEnv f L.kd parentId
      refine ⟨fl'', efl'', _, (h.kinv.newEnv parentId hfree).1, htable', ?_⟩
      intro b
      rw [slotIds_given_some, h.ids b]
      by_cases hb : b = e
      · subst hb
        have hid := htable'.id b
        rw [Function.update_self] at hid ⊢
        rw [if_pos rfl, hid, List.range_succ, List.map_append]
        rfl
      · rw [if_neg hb, Function.update_of_ne hb, List.append_nil]
  | @free log s s' e _ hlive hstep ih =>
    obtain ⟨fl', efl', gens', h⟩ := ih
    obtain ⟨t, fl'', hfree, hfreed⟩ := h.kinv.envFree hlive
    rw [hfree] at hstep
    cases hstep
    exact ⟨fl'', _, gens', hfreed.inv, h.table.freed hlive hfreed, h.ids⟩
  | @run log s s' e _ hlive hstep ih =>
    obtain ⟨fl', efl', gens', h⟩ := ih
    have hf : dirFrame s.envs e = some (frameOfKva (s.envs e).envPgdir) :=
      dirFrame_eq_some.mpr ⟨hlive, rfl⟩
    rw [envRun_ok h.kinv hf] at hstep
    cases hstep
    exact ⟨fl', efl', gens', h.kinv.ran hf, h.table.ran hlive _, h.ids⟩

/-- What the table of environments looks like between calls, and when
`env_alloc` fails. -/
structure EnvTableSpec (s : Machine) : Prop where
  freeList : ∃ l, Chain (fun e => (s.envs e).envLink) s.envFreeList l ∧ l.Nodup ∧
    ∀ e, e ∈ l ↔ (s.envs e).envStatus = .free
  slot : ∀ e, (s.envs e).envStatus ≠ .free → 0 < (s.envs e).envId ∧ envx (s.envs e).envId = e
  pgdir : ∀ e, (s.envs e).envStatus ≠ .free → (s.envs e).envPgdir ≠ 0 ∧
    ∀ e', (s.envs e').envStatus ≠ .free → (s.envs e').envPgdir = (s.envs e).envPgdir → e' = e
  ids : ∀ e e', (s.envs e).envStatus ≠ .free → (s.envs e').envStatus ≠ .free →
    (s.envs e').envId = (s.envs e).envId → e' = e
  running : ∀ e, (s.envs e).envStatus = .running →
    s.curenv = some e ∧ ∀ e', (s.envs e').envStatus = .running → e' = e
  alloc : ∀ parentId, ∃ r o s', (envAlloc parentId).run s = .ok ((r, o), s') ∧
    (r = -eNoFreeEnv ↔ ∀ e, (s.envs e).envStatus ≠ .free) ∧
    (r = -eNoMem ↔ (∃ e, (s.envs e).envStatus = .free) ∧ s.pageFreeList = none) ∧
    (r ≠ 0 → s' = s)

theorem EnvInv.live_id {fl : List Nat} (h : EnvInv L log s fl efl gens)
    (hlive : (s.envs e).envStatus ≠ .free) :
    0 < (s.envs e).envId ∧ envx (s.envs e).envId = e := by
  have hpos := h.table.live e hlive
  rw [h.table.id e]
  exact ⟨idAt_pos _ e hpos, envx_idAt _ e hpos⟩

theorem EnvInv.tableSpec (h : EnvInv L log s fl efl gens) : EnvTableSpec s where
  freeList := ⟨efl, h.table.chain, h.table.chain.nodup, h.table.free⟩
  slot := fun e hlive => h.live_id hlive
  pgdir := by
    intro e hlive
    obtain ⟨f, hf⟩ : ∃ f, dirFrame s.envs e = some f := ⟨_, dirFrame_eq_some.mpr ⟨hlive, rfl⟩⟩
    constructor
    · rw [h.kinv.dir_kva hf]
      exact kva_ne_zero (h.kinv.dir_lt hf)
    · intro e' hlive' hsame
      have hf' : dirFrame s.envs e' = some f := by
        rw [dirFrame_eq_some, hsame]
        exact ⟨hlive', (dirFrame_eq_some.mp hf).2⟩
      exact h.kinv.tables.dir_unique hf hf'
  ids := by
    intro e e' hlive hlive' hsame
    rw [← (h.live_id hlive').2, hsame, (h.live_id hlive).2]
  running := by
    intro e hrun
    have hcur := h.table.running e hrun
    refine ⟨hcur, ?_⟩
    intro e' hrun'
    have hcur' := h.table.running e' hrun'
    rw [hcur] at hcur'
    exact (Option.some.inj hcur').symm
  alloc := by
    intro parentId
    have hhead := h.kinv.head_eq
    rcases envAlloc_cases h.kinv h.table parentId with ⟨rfl, hr⟩ | ⟨hne, rfl, hr⟩ |
      ⟨e, efl', f, fl', rfl, rfl, hr⟩
    · have hnone : ∀ e, (s.envs e).envStatus ≠ .free := by
        intro e hfree
        exact absurd ((h.table.free e).mpr hfree) (by simp)
      refine ⟨_, _, _, hr, ⟨fun _ => hnone, fun _ => rfl⟩, ?_, fun _ => rfl⟩
      constructor
      · intro heq
        exact absurd heq (by decide)
      · rintro ⟨⟨e, he⟩, -⟩
        exact absurd he (hnone e)
    · obtain ⟨e, hmem⟩ := List.exists_mem_of_ne_nil efl hne
      have hfree := (h.table.free e).mp hmem
      refine ⟨_, _, _, hr, ?_, ⟨fun _ => ⟨⟨e, hfree⟩, hhead⟩, fun _ => rfl⟩, fun _ => rfl⟩
      constructor
      · intro heq
        exact absurd heq (by decide)
      · intro hnone
        exact absurd hfree (hnone e)
    · have hfree := (h.table.free e).mp List.mem_cons_self
      refine ⟨_, _, _, hr, ?_, ?_, fun hne => absurd rfl hne⟩
      · constructor
        · intro heq
          exact absurd heq (by decide)
        · intro hnone
          exact absurd hfree (hnone e)
      · constructor
        · intro heq
          exact absurd heq (by decide)
        · rintro ⟨-, hlist⟩
          rw [hhead] at hlist
          cases hlist

/-- The caller may name the environment `e`. -/
def MayName (s : Machine) (checkperm : Bool) (e : Fin nenv) : Prop :=
  checkperm = false ∨ s.curenv = some e ∨
    ∃ c, s.curenv = some c ∧ (s.envs e).envParentId = (s.envs c).envId

section Envid2env

variable {envid : Int32} {checkperm : Bool}

theorem envid2env_zero : (envid2env 0 checkperm).run s = .ok ((0, s.curenv), s) := by
  simp [envid2env]

theorem envid2env_stale (hzero : envid ≠ 0)
    (hmiss : (s.envs (envx envid)).envStatus = .free ∨ (s.envs (envx envid)).envId ≠ envid) :
    (envid2env envid checkperm).run s = .ok ((-eBadEnv, none), s) := by
  simp only [envid2env, if_neg hzero, Prog.run_read_bind, if_pos hmiss]
  rfl

theorem envid2env_allowed (hzero : envid ≠ 0)
    (hhit : ¬ ((s.envs (envx envid)).envStatus = .free ∨ (s.envs (envx envid)).envId ≠ envid))
    (hmay : MayName s checkperm (envx envid)) :
    (envid2env envid checkperm).run s = .ok ((0, some (envx envid)), s) := by
  simp only [envid2env, if_neg hzero, Prog.run_read_bind, if_neg hhit]
  by_cases hcheck : checkperm = true ∧ some (envx envid) ≠ s.curenv
  · rw [if_pos hcheck]
    rcases hmay with hfalse | hself | ⟨c, hc, hparent⟩
    · rw [hfalse] at hcheck
      cases hcheck.1
    · exact absurd hself.symm hcheck.2
    · simp only [hc, Prog.run_read_bind]
      rw [if_neg (not_not.mpr hparent)]
      rfl
  · rw [if_neg hcheck]
    rfl

theorem envid2env_denied (hzero : envid ≠ 0)
    (hhit : ¬ ((s.envs (envx envid)).envStatus = .free ∨ (s.envs (envx envid)).envId ≠ envid))
    (hcur : checkperm = true → s.curenv ≠ none) (hmay : ¬ MayName s checkperm (envx envid)) :
    (envid2env envid checkperm).run s = .ok ((-eBadEnv, none), s) := by
  have hcheck : checkperm = true ∧ some (envx envid) ≠ s.curenv := by
    constructor
    · cases checkperm
      · exact absurd (.inl rfl) hmay
      · rfl
    · intro hself
      exact hmay (.inr (.inl hself.symm))
  obtain ⟨c, hc⟩ := Option.ne_none_iff_exists'.mp (hcur hcheck.1)
  have hparent : (s.envs (envx envid)).envParentId ≠ (s.envs c).envId :=
    fun heq => hmay (.inr (.inr ⟨c, hc, heq⟩))
  simp only [envid2env, if_neg hzero, Prog.run_read_bind, if_neg hhit]
  rw [if_pos hcheck]
  simp only [hc, Prog.run_read_bind]
  rw [if_pos hparent]
  rfl

end Envid2env

/-- `envid` stands for `o`: 0 is the current environment, and any other id is
that of the one live environment that has it, if the caller may name it. -/
def Resolves (s : Machine) (envid : Int32) (checkperm : Bool) (o : Option (Fin nenv)) : Prop :=
  (envid = 0 ∧ o = s.curenv) ∨
  ∃ e, o = some e ∧ (s.envs e).envStatus ≠ .free ∧ (s.envs e).envId = envid ∧
    (∀ e', (s.envs e').envStatus ≠ .free → (s.envs e').envId = envid → e' = e) ∧
    MayName s checkperm e

/-- What `envid2env` returns and stores. -/
structure Envid2envSpec (s : Machine) (envid : Int32) (checkperm : Bool) : Prop where
  found : ∀ o, (envid2env envid checkperm).run s = .ok ((0, o), s) ↔
    Resolves s envid checkperm o
  rejected : (∀ o, ¬ Resolves s envid checkperm o) →
    (envid2env envid checkperm).run s = .ok ((-eBadEnv, none), s)

theorem EnvInv.resolves_zero (h : EnvInv L log s fl efl gens) (checkperm : Bool)
    (o : Option (Fin nenv)) : Resolves s 0 checkperm o ↔ o = s.curenv := by
  constructor
  · rintro (⟨-, ho⟩ | ⟨e, -, hlive, hid, -⟩)
    · exact ho
    · have hpos := (h.live_id hlive).1
      rw [hid] at hpos
      exact absurd hpos (by decide)
  · intro ho
    exact .inl ⟨rfl, ho⟩

/-- The slot that `ENVX` names is the only candidate. -/
theorem EnvInv.resolves_slot (h : EnvInv L log s fl efl gens) {envid : Int32}
    (hzero : envid ≠ 0) (checkperm : Bool) (o : Option (Fin nenv)) :
    Resolves s envid checkperm o ↔
      o = some (envx envid) ∧
        ¬ ((s.envs (envx envid)).envStatus = .free ∨ (s.envs (envx envid)).envId ≠ envid) ∧
        MayName s checkperm (envx envid) := by
  have hcand : ∀ e, (s.envs e).envStatus ≠ .free → (s.envs e).envId = envid →
      e = envx envid := by
    intro e hlive hid
    rw [← hid, (h.live_id hlive).2]
  constructor
  · rintro (⟨heq, -⟩ | ⟨e, rfl, hlive, hid, -, hmay⟩)
    · exact absurd heq hzero
    · have he := hcand e hlive hid
      subst he
      refine ⟨rfl, ?_, hmay⟩
      rintro (hfree | hne)
      · exact hlive hfree
      · exact hne hid
  · rintro ⟨rfl, hhit, hmay⟩
    have hlive : (s.envs (envx envid)).envStatus ≠ .free := fun hfree => hhit (.inl hfree)
    have hid : (s.envs (envx envid)).envId = envid := by
      by_contra hne
      exact hhit (.inr hne)
    exact .inr ⟨_, rfl, hlive, hid, hcand, hmay⟩

theorem EnvInv.envid2env (h : EnvInv L log s fl efl gens) (envid : Int32) (checkperm : Bool)
    (hcur : checkperm = true → s.curenv ≠ none) : Envid2envSpec s envid checkperm := by
  by_cases hzero : envid = 0
  · subst hzero
    constructor
    · intro o
      rw [envid2env_zero, h.resolves_zero]
      constructor
      · intro heq
        cases heq
        rfl
      · rintro rfl
        rfl
    · intro hno
      exact absurd ((h.resolves_zero checkperm _).mpr rfl) (hno _)
  by_cases hmiss : (s.envs (envx envid)).envStatus = .free ∨ (s.envs (envx envid)).envId ≠ envid
  · have hrun : (Jos.envid2env envid checkperm).run s = .ok ((-eBadEnv, none), s) :=
      envid2env_stale hzero hmiss
    refine ⟨?_, fun _ => hrun⟩
    intro o
    rw [hrun, h.resolves_slot hzero]
    constructor
    · intro heq
      cases heq
    · rintro ⟨-, hhit, -⟩
      exact absurd hmiss hhit
  by_cases hmay : MayName s checkperm (envx envid)
  · constructor
    · intro o
      rw [envid2env_allowed hzero hmiss hmay, h.resolves_slot hzero]
      constructor
      · intro heq
        cases heq
        exact ⟨rfl, hmiss, hmay⟩
      · rintro ⟨rfl, -⟩
        rfl
    · intro hno
      exact absurd ((h.resolves_slot hzero checkperm _).mpr ⟨rfl, hmiss, hmay⟩) (hno _)
  · have hrun := envid2env_denied hzero hmiss hcur hmay
    refine ⟨?_, fun _ => hrun⟩
    intro o
    rw [hrun, h.resolves_slot hzero]
    constructor
    · intro heq
      cases heq
    · rintro ⟨-, -, hok⟩
      exact absurd hok hmay

theorem EnvInv.slotIds_length (h : EnvInv L log s fl efl gens) (e : Fin nenv) :
    (slotIds log e).length = gens e := by
  rw [h.ids e, List.length_map, List.length_range]

theorem EnvInv.slotIds_get (h : EnvInv L log s fl efl gens) {i : Nat}
    (hi : i < (slotIds log e).length) : (slotIds log e)[i] = idAt (i + 1) e := by
  simp only [h.ids e, List.getElem_map, List.getElem_range]

/-- The ids of a slot are positive, and any `2^19 - 1` successive ones differ. -/
structure SlotIdsSpec (ids : List Int32) : Prop where
  pos : ∀ id ∈ ids, 0 < id
  distinct : ∀ i j (_ : i < ids.length) (_ : j < ids.length), i < j → j - i < idPeriod →
    ids[i] ≠ ids[j]

theorem EnvInv.slotIdsSpec (h : EnvInv L log s fl efl gens) (e : Fin nenv) :
    SlotIdsSpec (slotIds log e) := by
  constructor
  · intro id hid
    rw [h.ids e] at hid
    obtain ⟨j, -, rfl⟩ := List.mem_map.mp hid
    exact idAt_pos _ e (by omega)
  · intro i j hi hj hij hwindow
    rw [h.slotIds_get, h.slotIds_get]
    exact idAt_ne hij hwindow e

/-- An id whose environment was freed is rejected as long as its slot has been
reallocated fewer than `2^19 - 1` times since. -/
theorem EnvInv.stale_rejected (h : EnvInv L log s fl efl gens) {i : Nat} (checkperm : Bool)
    (hi : i < (slotIds log e).length)
    (hfreed : (s.envs e).envStatus = .free ∨ i + 1 < (slotIds log e).length)
    (hwindow : (slotIds log e).length - 1 - i < idPeriod) :
    (Jos.envid2env (slotIds log e)[i] checkperm).run s = .ok ((-eBadEnv, none), s) := by
  have hlen := h.slotIds_length e
  have hget := h.slotIds_get hi
  have hpos := idAt_pos (i + 1) e (by omega)
  have hslot : envx (slotIds log e)[i] = e := by
    rw [hget]
    exact envx_idAt _ e (by omega)
  apply envid2env_stale
  · rw [hget]
    intro hzero
    rw [hzero] at hpos
    exact absurd hpos (by decide)
  · rw [hslot]
    rcases hfreed with hfree | hnext
    · exact .inl hfree
    · right
      rw [hget, h.table.id e]
      obtain ⟨n, hn⟩ : ∃ n, gens e = n + 1 := ⟨gens e - 1, by omega⟩
      rw [hn]
      exact (idAt_ne (by omega) (by omega) e).symm

end Jos
