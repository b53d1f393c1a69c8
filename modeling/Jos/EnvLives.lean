import Jos.EnvRestored
import Jos.Trap
import Jos.UserRuns

/-!
The lives of environments: `env_create`, `env_run`, `env_free`, the stores of whoever runs and his
traps, in any order. `LifeInv` holds in every state of such a run. It says that every page has one
reference, so that no page is shared, used twice or lost.
-/

namespace Jos

variable {L : Layout} {fl fl' : List Nat} {s s₀ s' : Machine} {e : Fin nenv} {f p : Nat}
  {va : UInt32} {gens : Fin nenv → Nat} {efl : List (Fin nenv)}

/-- The environment `e` runs, and its page directory `f` is loaded. -/
structure InUser (e : Fin nenv) (f : Nat) (s : Machine) : Prop where
  curenv : s.curenv = some e
  dir : dirFrame s.envs e = some f
  cr3 : s.cr3 = .pgdir (page2pa f)

inductive Event where
  | create (binary : UInt32) (type : EnvType)
  | run (e : Fin nenv)
  | free (e : Fin nenv)
  | store (va : UInt32) (b : UInt8)
  | trap (tf : Trapframe)

namespace Event

/-- The event leads from `s` to `s'`. The headers of a program that is loaded lie in the kernel
image and its segments below `UTOP`. -/
def Leads (L : Layout) (s s' : Machine) : Event → Prop
  | .create binary type => HeadersInside L.image s.mem binary ∧
      (∀ h ∈ loadable s.mem binary, h.BelowUtop) ∧
      ∃ r, (envCreate binary type).run s = .ok (r, s')
  | .run e => (s.envs e).envStatus ≠ .free ∧ (envRun e).run s = .ok ((), s')
  | .free e => (s.envs e).envStatus ≠ .free ∧ (envFree e).run s = .ok ((), s')
  | .store va b => ∃ e f pa, InUser e f s ∧ s.walk f va true true = some pa ∧
      s' = s.setMem (s.mem.setByte pa b)
  | .trap tf => (∃ e f, InUser e f s) ∧ tf.tfCs &&& 3 = 3 ∧ (Jos.trap tf).run s = .ok ((), s')

/-- The event frees the environment `e`, or is one of its own. -/
def Concerns (e : Fin nenv) (s : Machine) : Event → Prop
  | .create _ _ | .run _ => False
  | .free e' => e' = e
  | .store _ _ | .trap _ => s.curenv = some e

end Event

/-- The states reached from `s₀`. -/
def Lives (L : Layout) : Machine → Machine → Prop :=
  Relation.ReflTransGen fun s s' => ∃ ev : Event, ev.Leads L s s'

/-- The states reached from `s₀` while the environment `e` is left alone. -/
def OthersLive (L : Layout) (e : Fin nenv) : Machine → Machine → Prop :=
  Relation.ReflTransGen fun s s' => ∃ ev : Event, ev.Leads L s s' ∧ ¬ ev.Concerns e s

theorem OthersLive.lives (h : OthersLive L e s₀ s) : Lives L s₀ s := by
  induction h with
  | refl => exact .refl
  | tail _ hstep ih =>
    obtain ⟨ev, hev, -⟩ := hstep
    exact ih.tail ⟨ev, hev⟩

/-- The kernel between two events: every page is free, in the kernel's tables, or has one
reference. -/
structure LifeInv (L : Layout) (fl : List Nat) (gens : Fin nenv → Nat) (efl : List (Fin nenv))
    (s : Machine) : Prop extends MemInv L fl gens efl s where
  alone : ∀ x, Alone (own s.mem s.envs) x
  data : DataApart L (own s.mem s.envs)
  complete : ∀ p, L.Managed p → p ∉ fl → ¬ L.KTable p → ∃ x, own s.mem s.envs x = some p
  loaded : s.cr3 = .pgdir (page2pa L.kd) ∨ ∃ e f, InUser e f s

namespace LifeInv

theorem dirLoaded (h : LifeInv L fl gens efl s) : DirLoaded L s := by
  rcases h.loaded with hkern | ⟨e, f, huser⟩
  · exact ⟨L.kd, hkern, .inl rfl⟩
  · exact ⟨f, huser.cr3, .inr ⟨e, huser.dir⟩⟩

theorem not_kernel (h : LifeInv L fl gens efl s) {x : Slot} (hx : own s.mem s.envs x = some p) :
    ¬ L.KTable p := by
  cases x with
  | dir e => exact h.kinv.tables.notKernel (.dir e) p trivial hx
  | pde e d => exact h.kinv.tables.notKernel (.pde e d) p trivial hx
  | pte e d t => exact (h.data e d t p hx).1

theorem created (h : LifeInv L (f :: fl) gens (e :: efl) s) {entry : UInt32} {type : EnvType}
    (hc : Created L e f entry type fl s s' fl') :
    LifeInv L fl' (Function.update gens e (gens e + 1)) efl s' := by
  have hfree : (s.envs e).envStatus = .free := (h.table.free e).mp List.mem_cons_self
  have hpages {x : Slot} {q : Nat} (hx : x.env = e) (hq : own s'.mem s'.envs x = some q) :
      q ∈ f :: fl := hc.was_free hx hq
  have hothers {x : Slot} {q : Nat} (hx : x.env ≠ e) (hq : own s'.mem s'.envs x = some q) :
      own s.mem s.envs x = some q := (hc.others x hx).symm.trans hq
  constructor
  · refine ⟨hc.inv, (h.table.newEnv f L.kd 0).congr ?_ ?_ ?_⟩
    · intro b
      rw [hc.envs, newEnv_envs]
      by_cases hb : b = e
      · subst hb
        rw [Function.update_self, Function.update_self]
        exact ⟨rfl, rfl, rfl⟩
      · rw [Function.update_of_ne hb, Function.update_of_ne hb]
        exact ⟨rfl, rfl, rfl⟩
    · rw [hc.envFreeList, newEnv_envFreeList]
    · rw [hc.curenv, newEnv_curenv]
  · intro x y q hx hy
    by_cases hxe : x.env = e
    · by_cases hdir : x = .dir e
      · subst hdir
        obtain rfl := Option.some.inj (hc.dir.symm.trans hx)
        by_contra hyx
        by_cases hye : y.env = e
        · exact h.kinv.pool.chain.not_mem_tail (hc.given y f hye hyx hy).1
        · exact h.kinv.free_not_owned List.mem_cons_self y (hothers hye hy)
      · exact (hc.given x q hxe hdir hx).2 y q hx hy
    · have hold := hothers hxe hx
      by_cases hye : y.env = e
      · exact absurd hold (h.kinv.free_not_owned (hpages hye hy) x)
      · exact h.alone x y q hold (hothers hye hy)
  · intro e' d t q hq
    by_cases he : e' = e
    · have hmem := hpages (x := .pte e' d t) he hq
      refine ⟨h.kinv.free_not_kernel hmem, fun y hy hyq => ?_⟩
      subst he
      have halone := (hc.given (.pte e' d t) q rfl (by simp) hq).2 y q hq hyq
      rw [halone] at hy
      exact hy
    · have hold := hothers (x := .pte e' d t) he hq
      obtain ⟨hkernel, htables⟩ := h.data e' d t q hold
      refine ⟨hkernel, fun y hy hyq => ?_⟩
      by_cases hye : y.env = e
      · exact h.kinv.free_not_owned (hpages hye hyq) (.pte e' d t) hold
      · exact htables y hy (hothers hye hyq)
  · intro q hq hqfree hkernel
    by_cases hmem : q ∈ f :: fl
    · rcases List.mem_cons.mp hmem with rfl | htail
      · exact ⟨.dir e, hc.dir⟩
      · rcases hc.kept q htail with hkept | ⟨x, -, -, hx⟩
        · exact absurd hkept hqfree
        · exact ⟨x, hx⟩
    · obtain ⟨x, hx⟩ := h.complete q hq hmem hkernel
      have hne : x.env ≠ e := by
        intro henv
        rw [own_of_free hfree henv] at hx
        cases hx
      exact ⟨x, (hc.others x hne).trans hx⟩
  · exact .inl hc.cr3

theorem freed (h : LifeInv L fl gens efl s) (hlive : (s.envs e).envStatus ≠ .free)
    (hfreed : Freed L e s fl s' fl') : LifeInv L fl' gens (e :: efl) s' := by
  have hsub {x : Slot} {q : Nat} (hq : own s'.mem s'.envs x = some q) :
      x.env ≠ e ∧ own s.mem s.envs x = some q := by
    by_cases hx : x.env = e
    · rw [hfreed.gone x hx] at hq
      cases hq
    · exact ⟨hx, (hfreed.other x hx).symm.trans hq⟩
  constructor
  · exact ⟨hfreed.inv, h.table.freed hlive hfreed⟩
  · intro x y q hx hy
    exact h.alone x y q (hsub hx).2 (hsub hy).2
  · exact h.data.mono fun x q hq => (hsub hq).2
  · intro q hq hqfree hkernel
    have hold : q ∉ fl := fun hmem => hqfree ((hfreed.free q).mpr (.inl hmem))
    obtain ⟨x, hx⟩ := h.complete q hq hold hkernel
    by_cases hxe : x.env = e
    · exfalso
      have hbase : L.base q = 0 := Layout.base_eq_zero.mpr fun hkpt => hkernel (.inr hkpt)
      have hrefs : refs (own s'.mem s'.envs) q = 0 := by
        rw [refs_eq_zero_iff]
        intro y hy
        obtain ⟨hye, hyold⟩ := hsub hy
        rw [h.alone x y q hx hyold] at hye
        exact hye hxe
      exact hqfree ((hfreed.free q).mpr (.inr ⟨⟨x, hx⟩, by omega⟩))
    · exact ⟨x, (hfreed.other x hxe).trans hx⟩
  · rw [hfreed.cr3]
    split
    · exact .inl rfl
    · rename_i hcur
      refine h.loaded.imp_right ?_
      rintro ⟨e', f', huser⟩
      have hne : e' ≠ e := by
        rintro rfl
        exact hcur huser.curenv.symm
      refine ⟨e', f', hfreed.curenv.trans huser.curenv, ?_, ?_⟩
      · exact (hfreed.other (.dir e') hne).trans huser.dir
      · rw [hfreed.cr3, if_neg hcur]
        exact huser.cr3

theorem ran (h : LifeInv L fl gens efl s) (hf : dirFrame s.envs e = some f) :
    LifeInv L fl gens efl ((s.stopCurenv.startEnv e).loadPgdir (page2pa f)) := by
  have hown := own_ran hf
  constructor
  · exact ⟨h.kinv.ran hf, h.table.ran (dirFrame_eq_some.mp hf).1 _⟩
  · rw [hown]
    exact h.alone
  · rw [hown]
    exact h.data
  · rw [hown]
    exact h.complete
  · exact .inr ⟨e, f, rfl, (congrFun hown (.dir e)).trans hf, rfl⟩

theorem stored (h : LifeInv L fl gens efl s) (hf : dirFrame s.envs e = some f) {pa : Nat}
    (hwalk : s.walk f va true true = some pa) (b : UInt8) :
    LifeInv L fl gens efl (s.setMem (s.mem.setByte pa b)) := by
  obtain ⟨hk, hown⟩ := h.kinv.userStore h.data hf hwalk b
  constructor
  · exact ⟨hk, h.table.pagesOnly rfl⟩
  · rw [Machine.setMem_mem, Machine.setMem_envs, hown]
    exact h.alone
  · rw [Machine.setMem_mem, Machine.setMem_envs, hown]
    exact h.data
  · rw [Machine.setMem_mem, Machine.setMem_envs, hown]
    exact h.complete
  · exact h.loaded.imp_right fun ⟨e', f', huser⟩ => ⟨e', f', huser.curenv, huser.dir, huser.cr3⟩

theorem withTf (h : LifeInv L fl gens efl s) (e : Fin nenv) (tf : Trapframe) :
    LifeInv L fl gens efl (s.withTf e tf) := by
  have hown : own (s.withTf e tf).mem (s.withTf e tf).envs = own s.mem s.envs :=
    own_congr_envs (withTf_dirFrame s e · tf)
  constructor
  · exact ⟨h.kinv.withTf e tf, h.table.withTf e tf⟩
  · rw [hown]
    exact h.alone
  · rw [hown]
    exact h.data
  · rw [hown]
    exact h.complete
  · refine h.loaded.imp_right ?_
    rintro ⟨e', f', huser⟩
    exact ⟨e', f', huser.curenv, (withTf_dirFrame s e e' tf).trans huser.dir, huser.cr3⟩

end LifeInv

/-- What one event does. -/
theorem LifeInv.leads (h : LifeInv L fl gens efl s) {ev : Event} (hev : ev.Leads L s s') :
    ∃ fl' gens' efl', LifeInv L fl' gens' efl' s' := by
  cases ev with
  | create binary type =>
    obtain ⟨hheaders, hbelow, r, hrun⟩ := hev
    obtain ⟨e, efl', f, tail, fl', -, rfl, rfl, hcreated⟩ :=
      h.toMemInv.envCreate h.dirLoaded hheaders hbelow hrun
    exact ⟨fl', _, efl', h.created hcreated⟩
  | run e =>
    obtain ⟨hlive, hrun⟩ := hev
    obtain ⟨f, hf, -⟩ := h.kinv.live_dir hlive
    rw [envRun_ok h.kinv hf] at hrun
    cases hrun
    exact ⟨fl, gens, efl, h.ran hf⟩
  | free e =>
    obtain ⟨hlive, hrun⟩ := hev
    obtain ⟨t, fl', hr, hfreed⟩ := h.kinv.envFree hlive
    rw [hr] at hrun
    cases hrun
    exact ⟨fl', gens, _, h.freed hlive hfreed⟩
  | store va b =>
    obtain ⟨e, f, pa, huser, hwalk, rfl⟩ := hev
    exact ⟨fl, gens, efl, h.stored huser.dir hwalk b⟩
  | trap tf =>
    obtain ⟨⟨e, f, huser⟩, hcs, hrun⟩ := hev
    rw [trap_user huser.curenv hcs] at hrun
    have htf := h.withTf e tf
    have hlive : ((s.withTf e tf).envs e).envStatus ≠ .free := by
      rw [(withTf_slot s e e tf).2.2.1]
      exact (dirFrame_eq_some.mp huser.dir).1
    obtain ⟨t, fl', hr, hfreed⟩ := htf.kinv.envFree hlive
    rw [hr] at hrun
    cases hrun
    exact ⟨fl', gens, _, htf.freed hlive hfreed⟩

theorem Lives.inv (h : LifeInv L fl gens efl s₀) (hrun : Lives L s₀ s) :
    ∃ fl' gens' efl', LifeInv L fl' gens' efl' s := by
  induction hrun with
  | refl => exact ⟨fl, gens, efl, h⟩
  | tail _ hstep ih =>
    obtain ⟨fl', gens', efl', hinv⟩ := ih
    obtain ⟨ev, hev⟩ := hstep
    exact hinv.leads hev

end Jos
