import Jos.Lib.Prog

/-!
Programs against an abstract state. `R t s` says that the state `s` stands for `t`; a program that
simulates a step from `t` to `t'` returns the value of that step wherever `t` stands.
-/

namespace Prog

variable {τ σ ε α β : Type} {R : τ → σ → Prop} {t t' t'' : τ} {a : α} {b : β}

/-- Where the state stands for `t`, the program returns `a` and leaves a state for `t'`. -/
def Simulates (R : τ → σ → Prop) (x : Prog σ ε α) (t : τ) (a : α) (t' : τ) : Prop :=
  ∀ s, R t s → ∃ s', x.run s = .ok (a, s') ∧ R t' s'

namespace Simulates

theorem pure (R : τ → σ → Prop) (t : τ) (a : α) :
    Simulates R (Pure.pure a : Prog σ ε α) t a t :=
  fun s hs => ⟨s, rfl, hs⟩

theorem bind {x : Prog σ ε α} {f : α → Prog σ ε β} (hx : Simulates R x t a t')
    (hf : Simulates R (f a) t' b t'') : Simulates R (x >>= f) t b t'' := by
  intro s hs
  obtain ⟨u, hu, hRu⟩ := hx s hs
  obtain ⟨v, hv, hRv⟩ := hf u hRu
  exact ⟨v, (bind_of_ok hu).trans hv, hRv⟩

/-- What is read from the state is known from the abstract one. -/
theorem read {f : σ → α} (h : ∀ s, R t s → f s = a) :
    Simulates R (Prog.read f : Prog σ ε α) t a t := by
  intro s hs
  refine ⟨s, ?_, hs⟩
  rw [run_read, h s hs]

/-- A loop whose rounds do not move the abstract state. -/
theorem forRange {body : Nat → Prog σ ε Unit} (lo n : Nat)
    (hbody : ∀ i, lo ≤ i → i < lo + n → Simulates R (body i) t () t) :
    Simulates R (Prog.forRange lo n body) t () t := by
  intro s hs
  exact forRange_run (fun _ s => R t s) body n lo (fun i s hlo hhi hi => hbody i hlo hhi s hi) s hs

end Simulates

-- Loops that only look at the state.

variable {body : Nat → Prog σ ε Unit} {s : σ} {e : ε} {lo n m : Nat}

theorem forRange_same (h : ∀ i, lo ≤ i → i < lo + n → (body i).run s = .ok ((), s)) :
    (Prog.forRange lo n body).run s = .ok ((), s) := by
  obtain ⟨s', hrun, rfl⟩ := forRange_run (fun _ t => t = s) body n lo
    (fun i t hlo hhi ht => ⟨s, ht ▸ h i hlo hhi, rfl⟩) s rfl
  exact hrun

/-- The round after `m` good ones stops the loop. -/
theorem forRange_stops (h : ∀ i, lo ≤ i → i < lo + m → (body i).run s = .ok ((), s)) (hm : m < n)
    (hstop : (body (lo + m)).run s = .error e) : (Prog.forRange lo n body).run s = .error e := by
  induction m generalizing lo n with
  | zero =>
    obtain ⟨n, rfl⟩ := Nat.exists_eq_succ_of_ne_zero (Nat.ne_of_gt hm)
    rw [forRange]
    exact bind_of_error hstop
  | succ m ih =>
    obtain ⟨n, rfl⟩ := Nat.exists_eq_succ_of_ne_zero (Nat.ne_of_gt (Nat.zero_lt_of_lt hm))
    have hnext : lo + (m + 1) = lo + 1 + m := by omega
    rw [forRange, bind_of_ok (h lo (le_refl lo) (by omega))]
    exact ih (fun i hlo hhi => h i (by omega) (by omega)) (by omega) (hnext ▸ hstop)

end Prog
