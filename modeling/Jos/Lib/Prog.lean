import Mathlib

/-!
Programs that change a state and may stop. A run either stops with a reason
or returns a value together with the next state. The rules below decompose a
successful run into the successful runs of its parts, and package the
induction over a counting loop that proofs about such programs need.
-/

/-- A program over the states `σ` that may stop with a reason in `ε`. -/
structure Prog (σ ε α : Type) where
  run : σ → Except ε (α × σ)

namespace Prog

variable {σ ε α β γ : Type}

instance : Monad (Prog σ ε) where
  pure a := ⟨fun s => .ok (a, s)⟩
  bind x f := ⟨fun s =>
    match x.run s with
    | .ok (a, s') => (f a).run s'
    | .error e => .error e⟩

def read (f : σ → α) : Prog σ ε α := ⟨fun s => .ok (f s, s)⟩

def update (f : σ → σ) : Prog σ ε Unit := ⟨fun s => .ok ((), f s)⟩

def halt (e : ε) : Prog σ ε α := ⟨fun _ => .error e⟩

@[simp] theorem run_pure (a : α) (s : σ) :
    (pure a : Prog σ ε α).run s = .ok (a, s) := rfl

@[simp] theorem run_read (f : σ → α) (s : σ) :
    (read f : Prog σ ε α).run s = .ok (f s, s) := rfl

@[simp] theorem run_update (f : σ → σ) (s : σ) :
    (update f : Prog σ ε Unit).run s = .ok ((), f s) := rfl

@[simp] theorem run_halt (e : ε) (s : σ) :
    (halt e : Prog σ ε α).run s = .error e := rfl

@[simp] theorem run_ite {c : Prop} [Decidable c] (x y : Prog σ ε α) (s : σ) :
    (if c then x else y).run s = if c then x.run s else y.run s := by
  split <;> rfl

theorem bind_of_ok {x : Prog σ ε α} {f : α → Prog σ ε β} {s s' : σ} {a : α}
    (h : x.run s = .ok (a, s')) : (x >>= f).run s = (f a).run s' := by
  change (match x.run s with
    | .ok (a, s') => (f a).run s'
    | .error e => .error e) = _
  rw [h]

theorem bind_of_error {x : Prog σ ε α} {f : α → Prog σ ε β} {s : σ} {e : ε}
    (h : x.run s = .error e) : (x >>= f).run s = .error e := by
  change (match x.run s with
    | .ok (a, s') => (f a).run s'
    | .error e => .error e) = _
  rw [h]

/-- A sequence returns exactly when its first part returns and the rest
returns from there. -/
theorem bind_eq_ok {x : Prog σ ε α} {f : α → Prog σ ε β} {s : σ} {r : β × σ} :
    (x >>= f).run s = .ok r ↔ ∃ a s', x.run s = .ok (a, s') ∧ (f a).run s' = .ok r := by
  cases h : x.run s with
  | error e => simp [bind_of_error h]
  | ok p =>
    obtain ⟨a, s'⟩ := p
    rw [bind_of_ok h]
    constructor
    · intro hf
      exact ⟨a, s', rfl, hf⟩
    · rintro ⟨b, t, hbt, hf⟩
      cases hbt
      exact hf

@[simp] theorem run_pure_bind (a : α) (f : α → Prog σ ε β) (s : σ) :
    ((pure a : Prog σ ε α) >>= f).run s = (f a).run s := rfl

@[simp] theorem run_read_bind (g : σ → α) (f : α → Prog σ ε β) (s : σ) :
    (read g >>= f).run s = (f (g s)).run s := rfl

@[simp] theorem run_update_bind (g : σ → σ) (f : Unit → Prog σ ε β) (s : σ) :
    (update g >>= f).run s = (f ()).run (g s) := rfl

@[simp] theorem run_halt_bind (e : ε) (f : α → Prog σ ε β) (s : σ) :
    ((halt e : Prog σ ε α) >>= f).run s = .error e := rfl

@[simp] theorem run_bind_assoc (x : Prog σ ε α) (f : α → Prog σ ε β)
    (g : β → Prog σ ε γ) (s : σ) :
    ((x >>= f) >>= g).run s = (x >>= fun a => f a >>= g).run s := by
  cases h : x.run s with
  | error e => rw [bind_of_error h, bind_of_error (bind_of_error h)]
  | ok p =>
    obtain ⟨a, s'⟩ := p
    rw [bind_of_ok h]
    cases hf : (f a).run s' with
    | error e =>
      have hx : (x >>= f).run s = .error e := (bind_of_ok h).trans hf
      rw [bind_of_error hf, bind_of_error hx]
    | ok q =>
      have hx : (x >>= f).run s = .ok q := (bind_of_ok h).trans hf
      rw [bind_of_ok hf, bind_of_ok hx]

/-- The loop `for (i = lo; i < lo + n; i++) body(i)`. -/
def forRange (lo : Nat) : Nat → (Nat → Prog σ ε Unit) → Prog σ ε Unit
  | 0, _ => pure ()
  | n + 1, body => do
      body lo
      forRange (lo + 1) n body

/-- When every round returns and carries `I i` to `I (i + 1)`, the loop
returns and carries `I lo` to `I (lo + n)`. -/
theorem forRange_run (I : Nat → σ → Prop) (body : Nat → Prog σ ε Unit) (n lo : Nat)
    (hbody : ∀ i s, lo ≤ i → i < lo + n → I i s →
      ∃ s', (body i).run s = .ok ((), s') ∧ I (i + 1) s')
    (s : σ) (hs : I lo s) :
    ∃ s', (forRange lo n body).run s = .ok ((), s') ∧ I (lo + n) s' := by
  induction n generalizing lo s with
  | zero => exact ⟨s, rfl, hs⟩
  | succ n ih =>
    obtain ⟨t, ht, hIt⟩ := hbody lo s (le_refl lo) (by omega) hs
    obtain ⟨s', hs', hI⟩ := ih (lo + 1)
      (fun i u hlo hhi hu => hbody i u (by omega) (by omega) hu) t hIt
    refine ⟨s', ?_, ?_⟩
    · rw [forRange, bind_of_ok ht, hs']
    · have harg : lo + (n + 1) = lo + 1 + n := by omega
      rw [harg]
      exact hI

end Prog
