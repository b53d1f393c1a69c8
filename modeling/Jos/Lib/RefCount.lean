import Mathlib

/-!
Reference counting over a finite set of slots. Each slot holds at most one
reference; `refs own p` counts the slots that hold `p`. Changing one slot
changes the count of its old and its new target by one and no other count.
-/

variable {σ ρ : Type} [Fintype σ] [DecidableEq ρ]
variable {own own' : σ → Option ρ} {x : σ} {p : ρ}

/-- The number of slots that hold a reference to `p`. -/
def refs (own : σ → Option ρ) (p : ρ) : Nat :=
  (Finset.univ.filter fun x => own x = some p).card

theorem refs_pos (h : own x = some p) : 0 < refs own p :=
  Finset.card_pos.mpr ⟨x, by simp [h]⟩

theorem refs_eq_zero_iff : refs own p = 0 ↔ ∀ x, own x ≠ some p := by
  simp [refs, Finset.filter_eq_empty_iff]

variable [DecidableEq σ]

/-- The change of a count when one slot changes. -/
theorem refs_update (v : Option ρ) :
    refs (Function.update own x v) p + (if own x = some p then 1 else 0) =
      refs own p + (if v = some p then 1 else 0) := by
  have hsplit (f : σ → Option ρ) :
      refs f p = (if f x = some p then 1 else 0) +
        ((Finset.univ.erase x).filter fun y => f y = some p).card := by
    unfold refs
    rw [← Finset.insert_erase (Finset.mem_univ x), Finset.filter_insert]
    split
    · rw [Finset.card_insert_of_notMem (by simp)]
      simp
      omega
    · simp
  have hrest : ((Finset.univ.erase x).filter
        fun y => Function.update own x v y = some p) =
      (Finset.univ.erase x).filter fun y => own y = some p := by
    apply Finset.filter_congr
    intro y hy
    rw [Function.update_of_ne (Finset.ne_of_mem_erase hy)]
  rw [hsplit (Function.update own x v), hsplit own, hrest]
  simp only [Function.update_self]
  omega

theorem refs_attach (hx : own x = none) (q : ρ) :
    refs (Function.update own x (some q)) p = refs own p + (if q = p then 1 else 0) := by
  have h : refs (Function.update own x (some q)) p + (if own x = some p then 1 else 0) =
      refs own p + (if some q = some p then 1 else 0) := refs_update (some q)
  simpa [hx] using h

theorem refs_detach {q : ρ} (hx : own x = some q) :
    refs (Function.update own x none) p + (if q = p then 1 else 0) = refs own p := by
  have h : refs (Function.update own x none) p + (if own x = some p then 1 else 0) =
      refs own p + (if none = some p then 1 else 0) := refs_update none
  simpa [hx] using h

theorem refs_gain (hx : own x ≠ some p) :
    refs (Function.update own x (some p)) p = refs own p + 1 := by
  have h : refs (Function.update own x (some p)) p + (if own x = some p then 1 else 0) =
      refs own p + (if some p = some p then 1 else 0) := refs_update (some p)
  simpa [hx] using h
