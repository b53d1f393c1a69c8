import Jos.Lib.RefPool
import Jos.PmapRun

/-!
Who refers to which page. A reference below `UTOP` sits in one of finitely many
slots: the page directory of a live environment, an entry of such a directory,
or an entry of a page table that such a directory points to. `own` reads the
slots off physical memory and the environment table.

`TableInv` says that these structures do not overlap: every page directory and
page table is used for one purpose only, the tables of the kernel still hold
what `mem_init` wrote, and every directory agrees with `kern_pgdir` above
`UTOP` except for its own entry at `UVPT`.
-/

namespace Jos

/-- `PDX(UTOP)`: the directory entries below belong to the environment. -/
def userPdes : Nat := 955

theorem pdx_utop : (pdx utop).toNat = userPdes := rfl

theorem pdxIdx_lt_userPdes {va : UInt32} (hva : va < utop) : (pdxIdx va).val < userPdes := by
  rw [UInt32.lt_iff_toNat_lt] at hva
  have hutop : utop.toNat = 4005560320 := rfl
  simp only [pdxIdx, pdx_toNat, userPdes]
  omega

inductive Slot where
  | dir (e : Fin nenv)
  | pde (e : Fin nenv) (d : Fin 1024)
  | pte (e : Fin nenv) (d t : Fin 1024)
deriving DecidableEq, Fintype

/-- The slots whose pages are used as page directory or page table. -/
def Slot.IsTable : Slot → Prop
  | .dir _ | .pde _ _ => True
  | .pte _ _ _ => False

def entryFrame (e : UInt32) : Option Nat := if present e then some (frameOf e) else none

/-- The frame behind a kernel address. -/
def frameOfKva (va : UInt32) : Nat := (va.toNat - kernbase.toNat) / 4096

def dirFrame (envs : Fin nenv → Env) (e : Fin nenv) : Option Nat :=
  if (envs e).envStatus = .free then none else some (frameOfKva (envs e).envPgdir)

def pdeFrame (mem : Mem) (envs : Fin nenv → Env) (e : Fin nenv) (d : Fin 1024) : Option Nat :=
  if d.val < userPdes then (dirFrame envs e).bind fun f => entryFrame (mem f d) else none

def pteFrame (mem : Mem) (envs : Fin nenv → Env) (e : Fin nenv) (d t : Fin 1024) :
    Option Nat :=
  (pdeFrame mem envs e d).bind fun g => entryFrame (mem g t)

/-- The page each slot refers to. -/
def own (mem : Mem) (envs : Fin nenv → Env) : Slot → Option Nat
  | .dir e => dirFrame envs e
  | .pde e d => pdeFrame mem envs e d
  | .pte e d t => pteFrame mem envs e d t

section Reading

variable {mem mem' : Mem} {envs : Fin nenv → Env} {e : Fin nenv} {d t : Fin 1024} {f g : Nat}

theorem entryFrame_eq_some {v : UInt32} :
    entryFrame v = some g ↔ present v ∧ frameOf v = g := by
  unfold entryFrame
  split <;> simp_all

theorem entryFrame_eq_none {v : UInt32} : entryFrame v = none ↔ ¬ present v := by
  unfold entryFrame
  split <;> simp_all

@[simp] theorem entryFrame_zero : entryFrame 0 = none :=
  entryFrame_eq_none.mpr present_zero

theorem frameOfKva_kva (hf : f < 65536) : frameOfKva (kva f) = f := by
  rw [frameOfKva, kva_toNat hf, kernbase_toNat]
  omega

theorem dirFrame_eq_some :
    dirFrame envs e = some f ↔
      (envs e).envStatus ≠ .free ∧ frameOfKva (envs e).envPgdir = f := by
  unfold dirFrame
  split <;> simp_all

theorem dirFrame_eq_none : dirFrame envs e = none ↔ (envs e).envStatus = .free := by
  unfold dirFrame
  split <;> simp_all

theorem pdeFrame_eq_some :
    pdeFrame mem envs e d = some g ↔
      d.val < userPdes ∧ ∃ f, dirFrame envs e = some f ∧ entryFrame (mem f d) = some g := by
  unfold pdeFrame
  split
  · rename_i hd
    simp [hd, Option.bind_eq_some_iff]
  · rename_i hd
    simp [hd]

theorem pteFrame_eq_some {p : Nat} :
    pteFrame mem envs e d t = some p ↔
      ∃ g, pdeFrame mem envs e d = some g ∧ entryFrame (mem g t) = some p := by
  simp [pteFrame, Option.bind_eq_some_iff]

theorem pdeFrame_of_dir (hf : dirFrame envs e = some f) (hd : d.val < userPdes) :
    pdeFrame mem envs e d = entryFrame (mem f d) := by
  simp [pdeFrame, hd, hf]

theorem pteFrame_of_pde (hg : pdeFrame mem envs e d = some g) :
    pteFrame mem envs e d t = entryFrame (mem g t) := by
  simp [pteFrame, hg]

theorem pteFrame_of_no_pde (hg : pdeFrame mem envs e d = none) :
    pteFrame mem envs e d t = none := by
  simp [pteFrame, hg]

end Reading

/-- What boot fixes: how many pages there are, which of them never reach the
free list, the frame of `kern_pgdir`, and the contents of the tables of the
kernel. -/
structure Layout where
  image : Image
  npages : Nat
  resv : Nat → Prop
  kd : Nat
  kmem : Mem

namespace Layout

/-- The kernel page table behind entry `d` of `kern_pgdir`. -/
def kpt (L : Layout) (d : Fin 1024) : Option Nat :=
  if userPdes ≤ d.val ∧ d ≠ uvptIdx then entryFrame (L.kmem L.kd d) else none

def IsKpt (L : Layout) (g : Nat) : Prop := ∃ d, L.kpt d = some g

instance (L : Layout) (g : Nat) : Decidable (L.IsKpt g) :=
  inferInstanceAs (Decidable (∃ d, L.kpt d = some g))

/-- `kern_pgdir` or one of its page tables. -/
def KTable (L : Layout) (g : Nat) : Prop := g = L.kd ∨ L.IsKpt g

/-- The pages that can be handed out. -/
def Managed (L : Layout) (p : Nat) : Prop := p < L.npages ∧ ¬ L.resv p

/-- A kernel page table carries the reference of its entry in `kern_pgdir`. -/
def base (L : Layout) (p : Nat) : Nat := if L.IsKpt p then 1 else 0

theorem base_eq_zero {L : Layout} {p : Nat} : L.base p = 0 ↔ ¬ L.IsKpt p := by
  unfold base
  split <;> simp_all

end Layout

structure TableInv (L : Layout) (mem : Mem) (envs : Fin nenv → Env) : Prop where
  /-- A page directory or page table has no second use as a table. -/
  unique : ∀ x y f, x.IsTable → y.IsTable → own mem envs x = some f →
    own mem envs y = some f → x = y
  notKernel : ∀ x f, x.IsTable → own mem envs x = some f → ¬ L.KTable f
  kernel : ∀ f, L.KTable f → mem f = L.kmem f
  pgdir : ∀ e f, dirFrame envs e = some f → (envs e).envPgdir = kva f
  dirKernel : ∀ e f, dirFrame envs e = some f → ∀ d : Fin 1024, userPdes ≤ d.val →
    d ≠ uvptIdx → mem f d = L.kmem L.kd d
  dirSelf : ∀ e f, dirFrame envs e = some f → mem f uvptIdx = page2pa f ||| pteP ||| pteU
  pdeFlags : ∀ e f d g, dirFrame envs e = some f → pdeFrame mem envs e d = some g →
    mem f d = page2pa g ||| tableFlags

section TableUpdates

variable {L : Layout} {mem mem' : Mem} {envs : Fin nenv → Env} {e : Fin nenv}
  {d t : Fin 1024} {f g : Nat}

theorem TableInv.dir_ne_pde (h : TableInv L mem envs) {e' : Fin nenv}
    (hf : dirFrame envs e = some f) (hg : pdeFrame mem envs e' d = some g) : f ≠ g := by
  rintro rfl
  have hslot := h.unique (.dir e) (.pde e' d) f trivial trivial hf hg
  cases hslot

theorem TableInv.pde_unique (h : TableInv L mem envs) {e' : Fin nenv} {d' : Fin 1024}
    (hg : pdeFrame mem envs e d = some g) (hg' : pdeFrame mem envs e' d' = some g) :
    e' = e ∧ d' = d := by
  have hslot := h.unique (.pde e' d') (.pde e d) g trivial trivial hg' hg
  cases hslot
  exact ⟨rfl, rfl⟩

theorem TableInv.dir_unique (h : TableInv L mem envs) {e' : Fin nenv}
    (hf : dirFrame envs e = some f) (hf' : dirFrame envs e' = some f) : e' = e := by
  have hslot := h.unique (.dir e') (.dir e) f trivial trivial hf' hf
  cases hslot
  rfl

/-- The slots only depend on the directories and the page tables. -/
theorem own_congr_mem
    (hmem : ∀ x f, x.IsTable → own mem envs x = some f → mem' f = mem f) :
    own mem' envs = own mem envs := by
  have hpde (e d) : pdeFrame mem' envs e d = pdeFrame mem envs e d := by
    unfold pdeFrame
    split
    · cases hf : dirFrame envs e with
      | none => rfl
      | some f =>
        simp only [Option.bind_some]
        rw [hmem (.dir e) f trivial hf]
    · rfl
  funext x
  cases x with
  | dir e => rfl
  | pde e d => exact hpde e d
  | pte e d t =>
    simp only [own, pteFrame, hpde]
    cases hg : pdeFrame mem envs e d with
    | none => rfl
    | some g =>
      simp only [Option.bind_some]
      rw [hmem (.pde e d) g trivial hg]

/-- Changing frames that are no table of anyone keeps the tables. -/
theorem TableInv.congr_mem (h : TableInv L mem envs)
    (hmem : ∀ x f, x.IsTable → own mem envs x = some f → mem' f = mem f)
    (hkernel : ∀ f, L.KTable f → mem' f = mem f) : TableInv L mem' envs := by
  have hown := own_congr_mem hmem
  refine ⟨?_, ?_, ?_, h.pgdir, ?_, ?_, ?_⟩
  · rw [hown]
    exact h.unique
  · rw [hown]
    exact h.notKernel
  · intro f hf
    rw [hkernel f hf, h.kernel f hf]
  · intro e f hf d hd hne
    rw [hmem (.dir e) f trivial hf]
    exact h.dirKernel e f hf d hd hne
  · intro e f hf
    rw [hmem (.dir e) f trivial hf]
    exact h.dirSelf e f hf
  · intro e f d g hf hg
    rw [hmem (.dir e) f trivial hf]
    exact h.pdeFlags e f d g hf ((congrFun hown (.pde e d)).symm.trans hg)

/-- Writing an entry of a page table changes one slot. -/
theorem TableInv.own_setPte (h : TableInv L mem envs) (hg : pdeFrame mem envs e d = some g)
    (t : Fin 1024) (v : UInt32) :
    own (mem.setWord g t v) envs =
      Function.update (own mem envs) (.pte e d t) (entryFrame v) := by
  have hpde (e' d') : pdeFrame (mem.setWord g t v) envs e' d' = pdeFrame mem envs e' d' := by
    unfold pdeFrame
    split
    · cases hf : dirFrame envs e' with
      | none => rfl
      | some f' =>
        simp only [Option.bind_some]
        rw [Mem.setWord_frame _ _ _ (h.dir_ne_pde hf hg)]
    · rfl
  funext x
  cases x with
  | dir e' => rfl
  | pde e' d' => exact hpde e' d'
  | pte e' d' t' =>
    by_cases hslot : (Slot.pte e' d' t') = .pte e d t
    · cases hslot
      rw [Function.update_self]
      simp [own, pteFrame, hpde, hg]
    · rw [Function.update_of_ne hslot]
      simp only [own, pteFrame, hpde]
      cases hg' : pdeFrame mem envs e' d' with
      | none => rfl
      | some g' =>
        simp only [Option.bind_some]
        rw [Mem.setWord_of_ne]
        intro hgg htt
        rw [hgg] at hg'
        obtain ⟨rfl, rfl⟩ := h.pde_unique hg hg'
        exact hslot (by rw [htt])

theorem TableInv.setPte (h : TableInv L mem envs) (hg : pdeFrame mem envs e d = some g)
    (t : Fin 1024) (v : UInt32) : TableInv L (mem.setWord g t v) envs := by
  have htab (x : Slot) (hx : x.IsTable) :
      own (mem.setWord g t v) envs x = own mem envs x := by
    rw [h.own_setPte hg, Function.update_of_ne]
    rintro rfl
    exact hx
  have hkernel : ¬ L.KTable g := h.notKernel (.pde e d) g trivial hg
  refine ⟨?_, ?_, ?_, h.pgdir, ?_, ?_, ?_⟩
  · intro x y f hx hy hxf hyf
    rw [htab x hx] at hxf
    rw [htab y hy] at hyf
    exact h.unique x y f hx hy hxf hyf
  · intro x f hx hxf
    rw [htab x hx] at hxf
    exact h.notKernel x f hx hxf
  · intro f hf
    have hne : f ≠ g := by
      rintro rfl
      exact hkernel hf
    rw [Mem.setWord_frame _ _ _ hne]
    exact h.kernel f hf
  · intro e' f hf d' hd' hne
    rw [Mem.setWord_frame _ _ _ (h.dir_ne_pde hf hg)]
    exact h.dirKernel e' f hf d' hd' hne
  · intro e' f hf
    rw [Mem.setWord_frame _ _ _ (h.dir_ne_pde hf hg)]
    exact h.dirSelf e' f hf
  · intro e' f d' g' hf hg'
    rw [Mem.setWord_frame _ _ _ (h.dir_ne_pde hf hg)]
    exact h.pdeFlags e' f d' g' hf ((htab (.pde e' d') trivial).symm.trans hg')

/-- Writing an entry of a page directory changes one slot, when neither the
old nor the new page table maps anything. -/
theorem TableInv.own_setPde (h : TableInv L mem envs) (hf : dirFrame envs e = some f)
    (hd : d.val < userPdes) {v : UInt32}
    (hold : ∀ t, pteFrame mem envs e d t = none)
    (hnew : ∀ g t, entryFrame v = some g → g ≠ f ∧ entryFrame (mem g t) = none) :
    own (mem.setWord f d v) envs =
      Function.update (own mem envs) (.pde e d) (entryFrame v) := by
  have hsame : pdeFrame (mem.setWord f d v) envs e d = entryFrame v := by
    rw [pdeFrame_of_dir hf hd, Mem.setWord_same]
  have hother (e' d') (hne : (Slot.pde e' d') ≠ .pde e d) :
      pdeFrame (mem.setWord f d v) envs e' d' = pdeFrame mem envs e' d' := by
    unfold pdeFrame
    split
    · cases hf' : dirFrame envs e' with
      | none => rfl
      | some f' =>
        simp only [Option.bind_some]
        rw [Mem.setWord_of_ne]
        intro hff hdd
        rw [hff] at hf'
        rw [h.dir_unique hf hf', hdd] at hne
        exact hne rfl
    · rfl
  funext x
  cases x with
  | dir e' => rfl
  | pde e' d' =>
    by_cases hslot : (Slot.pde e' d') = .pde e d
    · cases hslot
      rw [Function.update_self]
      exact hsame
    · rw [Function.update_of_ne hslot]
      exact hother e' d' hslot
  | pte e' d' t' =>
    rw [Function.update_of_ne (by simp)]
    by_cases hslot : (Slot.pde e' d') = .pde e d
    · cases hslot
      change pteFrame _ _ _ _ _ = pteFrame _ _ _ _ _
      rw [hold t', pteFrame, hsame]
      cases hv : entryFrame v with
      | none => rfl
      | some g =>
        obtain ⟨hgf, hzero⟩ := hnew g t' hv
        simp only [Option.bind_some]
        rw [Mem.setWord_frame _ _ _ hgf, hzero]
    · simp only [own, pteFrame, hother e' d' hslot]
      cases hg' : pdeFrame mem envs e' d' with
      | none => rfl
      | some g' =>
        simp only [Option.bind_some]
        rw [Mem.setWord_frame _ _ _ (h.dir_ne_pde hf hg').symm]

theorem TableInv.setPde (h : TableInv L mem envs) (hf : dirFrame envs e = some f)
    (hd : d.val < userPdes) {v : UInt32}
    (hold : ∀ t, pteFrame mem envs e d t = none)
    (hnew : ∀ g t, entryFrame v = some g → g ≠ f ∧ entryFrame (mem g t) = none)
    (hfresh : ∀ g x, entryFrame v = some g → x.IsTable → own mem envs x ≠ some g)
    (hkernel : ∀ g, entryFrame v = some g → ¬ L.KTable g)
    (hflags : ∀ g, entryFrame v = some g → v = page2pa g ||| tableFlags) :
    TableInv L (mem.setWord f d v) envs := by
  have hown := h.own_setPde hf hd hold hnew
  have hfk : ¬ L.KTable f := h.notKernel (.dir e) f trivial hf
  refine ⟨?_, ?_, ?_, h.pgdir, ?_, ?_, ?_⟩
  · intro x y g hx hy hxg hyg
    rw [hown] at hxg hyg
    by_cases hxs : x = .pde e d <;> by_cases hys : y = .pde e d
    · rw [hxs, hys]
    · rw [hxs, Function.update_self] at hxg
      rw [Function.update_of_ne hys] at hyg
      exact absurd hyg (hfresh g y hxg hy)
    · rw [hys, Function.update_self] at hyg
      rw [Function.update_of_ne hxs] at hxg
      exact absurd hxg (hfresh g x hyg hx)
    · rw [Function.update_of_ne hxs] at hxg
      rw [Function.update_of_ne hys] at hyg
      exact h.unique x y g hx hy hxg hyg
  · intro x g hx hxg
    rw [hown] at hxg
    by_cases hxs : x = .pde e d
    · rw [hxs, Function.update_self] at hxg
      exact hkernel g hxg
    · rw [Function.update_of_ne hxs] at hxg
      exact h.notKernel x g hx hxg
  · intro g hg
    have hne : g ≠ f := by
      rintro rfl
      exact hfk hg
    rw [Mem.setWord_frame _ _ _ hne]
    exact h.kernel g hg
  · intro e' f' hf' d' hd' hne
    rw [Mem.setWord_of_ne _ _ (fun _ hdd => by subst hdd; omega)]
    exact h.dirKernel e' f' hf' d' hd' hne
  · intro e' f' hf'
    have hne : uvptIdx ≠ d := by
      rintro rfl
      exact absurd hd (by decide)
    rw [Mem.setWord_of_ne _ _ (fun _ => hne)]
    exact h.dirSelf e' f' hf'
  · intro e' f' d' g hf' hg
    have hslot := (congrFun hown (.pde e' d')).symm.trans hg
    by_cases hdd : (Slot.pde e' d') = .pde e d
    · cases hdd
      rw [hf] at hf'
      cases hf'
      rw [Function.update_self] at hslot
      rw [Mem.setWord_same]
      exact hflags g hslot
    · rw [Function.update_of_ne hdd] at hslot
      rw [Mem.setWord_of_ne]
      · exact h.pdeFlags e' f' d' g hf' hslot
      · intro hff hdv
        rw [hff] at hf'
        rw [h.dir_unique hf hf', hdv] at hdd
        exact hdd rfl

variable {envs' : Fin nenv → Env} {env : Env}

/-- The slots only depend on the live environments and their directories. -/
theorem own_congr_envs (hdir : ∀ e, dirFrame envs' e = dirFrame envs e) :
    own mem envs' = own mem envs := by
  funext x
  cases x with
  | dir e => exact hdir e
  | pde e d => simp only [own, pdeFrame, hdir]
  | pte e d t => simp only [own, pteFrame, pdeFrame, hdir]

/-- Without environments there are no references below `UTOP`. -/
theorem own_of_no_env (hfree : ∀ e, (envs e).envStatus = .free) (x : Slot) :
    own mem envs x = none := by
  have hdir (e : Fin nenv) : dirFrame envs e = none := dirFrame_eq_none.mpr (hfree e)
  have hpde (e : Fin nenv) (d : Fin 1024) : pdeFrame mem envs e d = none := by
    simp [pdeFrame, hdir]
  cases x with
  | dir e => exact hdir e
  | pde e d => exact hpde e d
  | pte e d t => exact pteFrame_of_no_pde (hpde e d)

theorem TableInv.congr_envs (h : TableInv L mem envs)
    (hdir : ∀ e, dirFrame envs' e = dirFrame envs e)
    (hpgdir : ∀ e, (envs' e).envPgdir = (envs e).envPgdir) : TableInv L mem envs' := by
  have hown : own mem envs' = own mem envs := own_congr_envs hdir
  refine ⟨?_, ?_, h.kernel, ?_, ?_, ?_, ?_⟩
  · rw [hown]
    exact h.unique
  · rw [hown]
    exact h.notKernel
  · intro e f hf
    rw [hdir] at hf
    rw [hpgdir]
    exact h.pgdir e f hf
  · intro e f hf
    rw [hdir] at hf
    exact h.dirKernel e f hf
  · intro e f hf
    rw [hdir] at hf
    exact h.dirSelf e f hf
  · intro e f d g hf hg
    rw [hdir] at hf
    exact h.pdeFlags e f d g hf ((congrFun hown (.pde e d)).symm.trans hg)

theorem dirFrame_update_ne {e' : Fin nenv} (hne : e' ≠ e) :
    dirFrame (Function.update envs e env) e' = dirFrame envs e' := by
  simp only [dirFrame, Function.update_of_ne hne]

/-- A copy of `kern_pgdir` in a fresh frame `f`, given to the free slot `e`. -/
theorem own_newDir (hfree : (envs e).envStatus = .free) (hlive : env.envStatus ≠ .free)
    (hpgdir : env.envPgdir = kva f) (hf16 : f < 65536)
    (hother : ∀ g, g ≠ f → mem' g = mem g)
    (hempty : ∀ d : Fin 1024, d.val < userPdes → ¬ present (mem' f d))
    (hfresh : ∀ x, own mem envs x ≠ some f) :
    own mem' (Function.update envs e env) =
      Function.update (own mem envs) (.dir e) (some f) := by
  have hself : dirFrame (Function.update envs e env) e = some f := by
    rw [dirFrame_eq_some, Function.update_self, hpgdir]
    exact ⟨hlive, frameOfKva_kva hf16⟩
  have hnone : dirFrame envs e = none := dirFrame_eq_none.mpr hfree
  have hpde (e' d) : pdeFrame mem' (Function.update envs e env) e' d = pdeFrame mem envs e' d := by
    unfold pdeFrame
    split
    · rename_i hd
      by_cases he : e' = e
      · subst he
        rw [hself, hnone]
        exact entryFrame_eq_none.mpr (hempty d hd)
      · rw [dirFrame_update_ne he]
        cases hg : dirFrame envs e' with
        | none => rfl
        | some g =>
          simp only [Option.bind_some]
          rw [hother g (by rintro rfl; exact hfresh (.dir e') hg)]
    · rfl
  funext x
  cases x with
  | dir e' =>
    by_cases he : e' = e
    · subst he
      rw [Function.update_self]
      exact hself
    · rw [Function.update_of_ne (by simp [he])]
      exact dirFrame_update_ne he
  | pde e' d =>
    rw [Function.update_of_ne (by simp)]
    exact hpde e' d
  | pte e' d t =>
    rw [Function.update_of_ne (by simp)]
    simp only [own, pteFrame, hpde]
    cases hg : pdeFrame mem envs e' d with
    | none => rfl
    | some g =>
      simp only [Option.bind_some]
      rw [hother g (by rintro rfl; exact hfresh (.pde e' d) hg)]

theorem TableInv.newDir (h : TableInv L mem envs) (hfree : (envs e).envStatus = .free)
    (hlive : env.envStatus ≠ .free) (hpgdir : env.envPgdir = kva f) (hf16 : f < 65536)
    (hother : ∀ g, g ≠ f → mem' g = mem g)
    (hempty : ∀ d : Fin 1024, d.val < userPdes → ¬ present (mem' f d))
    (hcopy : ∀ d : Fin 1024, d ≠ uvptIdx → mem' f d = L.kmem L.kd d)
    (hself : mem' f uvptIdx = page2pa f ||| pteP ||| pteU)
    (hfresh : ∀ x, own mem envs x ≠ some f) (hkernel : ¬ L.KTable f) :
    TableInv L mem' (Function.update envs e env) := by
  have hown := own_newDir hfree hlive hpgdir hf16 hother hempty hfresh
  have hdir {e' : Fin nenv} {g : Nat}
      (hg : dirFrame (Function.update envs e env) e' = some g) :
      (e' = e ∧ g = f) ∨ (e' ≠ e ∧ g ≠ f ∧ dirFrame envs e' = some g) := by
    by_cases he : e' = e
    · left
      rw [he, dirFrame_eq_some, Function.update_self, hpgdir, frameOfKva_kva hf16] at hg
      exact ⟨he, hg.2.symm⟩
    · right
      rw [dirFrame_update_ne he] at hg
      exact ⟨he, by rintro rfl; exact hfresh (.dir e') hg, hg⟩
  refine ⟨?_, ?_, ?_, ?_, ?_, ?_, ?_⟩
  · intro x y g hx hy hxg hyg
    rw [hown] at hxg hyg
    by_cases hxs : x = .dir e <;> by_cases hys : y = .dir e
    · rw [hxs, hys]
    · rw [hxs, Function.update_self] at hxg
      rw [Function.update_of_ne hys] at hyg
      cases hxg
      exact absurd hyg (hfresh y)
    · rw [hys, Function.update_self] at hyg
      rw [Function.update_of_ne hxs] at hxg
      cases hyg
      exact absurd hxg (hfresh x)
    · rw [Function.update_of_ne hxs] at hxg
      rw [Function.update_of_ne hys] at hyg
      exact h.unique x y g hx hy hxg hyg
  · intro x g hx hxg
    rw [hown] at hxg
    by_cases hxs : x = .dir e
    · rw [hxs, Function.update_self] at hxg
      cases hxg
      exact hkernel
    · rw [Function.update_of_ne hxs] at hxg
      exact h.notKernel x g hx hxg
  · intro g hg
    have hne : g ≠ f := by
      rintro rfl
      exact hkernel hg
    rw [hother g hne]
    exact h.kernel g hg
  · intro e' g hg
    rcases hdir hg with ⟨rfl, rfl⟩ | ⟨he, -, hg⟩
    · rw [Function.update_self]
      exact hpgdir
    · rw [Function.update_of_ne he]
      exact h.pgdir e' g hg
  · intro e' g hg d hd hne
    rcases hdir hg with ⟨rfl, rfl⟩ | ⟨-, hgf, hg⟩
    · exact hcopy d hne
    · rw [hother g hgf]
      exact h.dirKernel e' g hg d hd hne
  · intro e' g hg
    rcases hdir hg with ⟨rfl, rfl⟩ | ⟨-, hgf, hg⟩
    · exact hself
    · rw [hother g hgf]
      exact h.dirSelf e' g hg
  · intro e' g d g' hg hg'
    have hslot := (congrFun hown (.pde e' d)).symm.trans hg'
    rw [Function.update_of_ne (by simp)] at hslot
    rcases hdir hg with ⟨rfl, rfl⟩ | ⟨-, hgf, hg⟩
    · have hnone : pdeFrame mem envs e' d = none := by
        simp [pdeFrame, dirFrame_eq_none.mpr hfree]
      exact absurd (hslot.symm.trans hnone) (by simp)
    · rw [hother g hgf]
      exact h.pdeFlags e' g d g' hg hslot

/-- A slot given up once its directory has no page table left. -/
theorem own_dropDir (hfree : env.envStatus = .free)
    (hempty : ∀ d, pdeFrame mem envs e d = none) :
    own mem (Function.update envs e env) = Function.update (own mem envs) (.dir e) none := by
  have hnone : dirFrame (Function.update envs e env) e = none := by
    rw [dirFrame_eq_none, Function.update_self]
    exact hfree
  have hpde (e' d) : pdeFrame mem (Function.update envs e env) e' d = pdeFrame mem envs e' d := by
    by_cases he : e' = e
    · subst he
      rw [hempty d]
      simp [pdeFrame, hnone]
    · simp only [pdeFrame, dirFrame_update_ne he]
  funext x
  cases x with
  | dir e' =>
    by_cases he : e' = e
    · subst he
      rw [Function.update_self]
      exact hnone
    · rw [Function.update_of_ne (by simp [he])]
      exact dirFrame_update_ne he
  | pde e' d =>
    rw [Function.update_of_ne (by simp)]
    exact hpde e' d
  | pte e' d t =>
    rw [Function.update_of_ne (by simp)]
    simp only [own, pteFrame, hpde]

theorem TableInv.dropDir (h : TableInv L mem envs) (hfree : env.envStatus = .free)
    (hempty : ∀ d, pdeFrame mem envs e d = none) :
    TableInv L mem (Function.update envs e env) := by
  have hown := own_dropDir hfree hempty
  have hdir {e' : Fin nenv} {g : Nat}
      (hg : dirFrame (Function.update envs e env) e' = some g) :
      e' ≠ e ∧ dirFrame envs e' = some g := by
    have he : e' ≠ e := by
      rintro rfl
      have hnone : dirFrame (Function.update envs e' env) e' = none := by
        rw [dirFrame_eq_none, Function.update_self]
        exact hfree
      rw [hnone] at hg
      cases hg
    rw [dirFrame_update_ne he] at hg
    exact ⟨he, hg⟩
  have hsub {x : Slot} {g : Nat} (hx : own mem (Function.update envs e env) x = some g) :
      own mem envs x = some g := by
    rw [hown] at hx
    by_cases hxs : x = .dir e
    · rw [hxs, Function.update_self] at hx
      cases hx
    · rwa [Function.update_of_ne hxs] at hx
  refine ⟨?_, ?_, h.kernel, ?_, ?_, ?_, ?_⟩
  · intro x y g hx hy hxg hyg
    exact h.unique x y g hx hy (hsub hxg) (hsub hyg)
  · intro x g hx hxg
    exact h.notKernel x g hx (hsub hxg)
  · intro e' g hg
    obtain ⟨he, hg⟩ := hdir hg
    rw [Function.update_of_ne he]
    exact h.pgdir e' g hg
  · intro e' g hg
    exact h.dirKernel e' g (hdir hg).2
  · intro e' g hg
    exact h.dirSelf e' g (hdir hg).2
  · intro e' g d g' hg hg'
    exact h.pdeFlags e' g d g' (hdir hg).2 (hsub (x := .pde e' d) hg')

end TableUpdates

end Jos
