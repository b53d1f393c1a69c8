import Jos.Lib.Chain
import Jos.Lib.RefCount

/-!
A pool of reference-counted objects with an intrusive free list. Some objects
are managed; a managed object is either on the free list or carries a count
equal to the references to it: those of the slots `own` plus a fixed number
`base` of permanent ones. The rules say how taking an object off the free
list, adding and dropping a reference, and putting an unreferenced object back
keep the pool well formed.
-/

variable {σ ρ : Type} [Fintype σ] [DecidableEq ρ]

structure RefPool (managed : ρ → Prop) (base : ρ → Nat) (own : σ → Option ρ)
    (link : ρ → Option ρ) (cnt : ρ → Nat) (head : Option ρ) (free : List ρ) : Prop where
  chain : Chain link head free
  free_managed : ∀ p ∈ free, managed p
  free_cnt : ∀ p ∈ free, cnt p = 0
  unlinked : ∀ p, managed p → p ∉ free → link p = none
  counted : ∀ p, managed p → cnt p = base p + refs own p
  owned_managed : ∀ x p, own x = some p → managed p

namespace RefPool

variable {managed : ρ → Prop} {base : ρ → Nat} {own : σ → Option ρ}
  {link : ρ → Option ρ} {cnt : ρ → Nat} {head : Option ρ} {free : List ρ} {p : ρ} {x : σ}

theorem free_unreferenced (h : RefPool managed base own link cnt head free) (hp : p ∈ free) :
    base p = 0 ∧ refs own p = 0 := by
  have hcnt := h.counted p (h.free_managed p hp)
  rw [h.free_cnt p hp] at hcnt
  omega

theorem not_owned_of_free (h : RefPool managed base own link cnt head free) (hp : p ∈ free)
    (x : σ) : own x ≠ some p :=
  refs_eq_zero_iff.mp (h.free_unreferenced hp).2 x

theorem not_free_of_owned (h : RefPool managed base own link cnt head free)
    (hx : own x = some p) : p ∉ free :=
  fun hp => h.not_owned_of_free hp x hx

theorem cnt_pos_of_owned (h : RefPool managed base own link cnt head free)
    (hx : own x = some p) : 0 < cnt p := by
  have hcnt := h.counted p (h.owned_managed x p hx)
  have hpos := refs_pos hx
  omega

/-- The first object of the free list is taken and belongs to its taker. -/
theorem take (h : RefPool managed base own link cnt head (p :: free)) :
    RefPool managed base own (Function.update link p none) (Function.update cnt p 0)
      (link p) free where
  chain := h.chain.pop fun b hb =>
    Function.update_of_ne (ne_of_mem_of_not_mem hb h.chain.not_mem_tail) _ _
  free_managed := fun q hq => h.free_managed q (List.mem_cons_of_mem p hq)
  free_cnt := by
    intro q hq
    by_cases hqp : q = p
    · subst hqp
      exact Function.update_self ..
    · rw [Function.update_of_ne hqp]
      exact h.free_cnt q (List.mem_cons_of_mem p hq)
  unlinked := by
    intro q hq hfree
    by_cases hqp : q = p
    · subst hqp
      exact Function.update_self ..
    · rw [Function.update_of_ne hqp]
      exact h.unlinked q hq (by simp [hqp, hfree])
  counted := by
    intro q hq
    by_cases hqp : q = p
    · subst hqp
      have hzero := h.free_unreferenced List.mem_cons_self
      rw [Function.update_self]
      omega
    · rw [Function.update_of_ne hqp]
      exact h.counted q hq
  owned_managed := h.owned_managed

/-- An unreferenced managed object goes back to the free list. -/
theorem put (h : RefPool managed base own link cnt head free) (hp : managed p)
    (hfree : p ∉ free) (hcnt : cnt p = 0) :
    RefPool managed base own (Function.update link p head) cnt (some p) (p :: free) where
  chain := h.chain.push
    (fun b hb => Function.update_of_ne (ne_of_mem_of_not_mem hb hfree) _ _)
    (Function.update_self ..)
  free_managed := by
    intro q hq
    rcases List.mem_cons.mp hq with rfl | hq
    · exact hp
    · exact h.free_managed q hq
  free_cnt := by
    intro q hq
    rcases List.mem_cons.mp hq with rfl | hq
    · exact hcnt
    · exact h.free_cnt q hq
  unlinked := by
    intro q hq hmem
    have hne : q ≠ p := fun hqp => hmem (hqp ▸ List.mem_cons_self)
    rw [Function.update_of_ne hne]
    exact h.unlinked q hq (fun hq => hmem (List.mem_cons_of_mem p hq))
  counted := h.counted
  owned_managed := h.owned_managed

variable [DecidableEq σ]

/-- A new reference to an object that is not free. -/
theorem attach (h : RefPool managed base own link cnt head free) (hp : managed p)
    (hfree : p ∉ free) (hx : own x = none) :
    RefPool managed base (Function.update own x (some p)) link
      (Function.update cnt p (cnt p + 1)) head free where
  chain := h.chain
  free_managed := h.free_managed
  free_cnt := by
    intro q hq
    rw [Function.update_of_ne (ne_of_mem_of_not_mem hq hfree)]
    exact h.free_cnt q hq
  unlinked := h.unlinked
  counted := by
    intro q hq
    rw [refs_attach hx]
    by_cases hqp : q = p
    · subst hqp
      have hcnt := h.counted q hq
      rw [Function.update_self, if_pos rfl]
      omega
    · rw [Function.update_of_ne hqp, if_neg (Ne.symm hqp)]
      exact h.counted q hq
  owned_managed := by
    intro y q hy
    by_cases hyx : y = x
    · subst hyx
      rw [Function.update_self] at hy
      cases hy
      exact hp
    · rw [Function.update_of_ne hyx] at hy
      exact h.owned_managed y q hy

/-- Dropping a reference; the object stays off the free list. -/
theorem detach (h : RefPool managed base own link cnt head free) (hx : own x = some p) :
    RefPool managed base (Function.update own x none) link
      (Function.update cnt p (cnt p - 1)) head free where
  chain := h.chain
  free_managed := h.free_managed
  free_cnt := by
    intro q hq
    have hne : q ≠ p := ne_of_mem_of_not_mem hq (h.not_free_of_owned hx)
    rw [Function.update_of_ne hne]
    exact h.free_cnt q hq
  unlinked := h.unlinked
  counted := by
    intro q hq
    have hdrop := refs_detach (p := q) hx
    have hcnt := h.counted q hq
    by_cases hqp : q = p
    · subst hqp
      rw [if_pos rfl] at hdrop
      rw [Function.update_self]
      omega
    · rw [if_neg (Ne.symm hqp)] at hdrop
      rw [Function.update_of_ne hqp]
      omega
  owned_managed := by
    intro y q hy
    by_cases hyx : y = x
    · subst hyx
      rw [Function.update_self] at hy
      cases hy
    · rw [Function.update_of_ne hyx] at hy
      exact h.owned_managed y q hy

/-- An object whose only reference is dropped goes back to the free list. -/
theorem release (h : RefPool managed base own link cnt head free) (hx : own x = some p)
    (hcnt : cnt p = 1) :
    RefPool managed base (Function.update own x none) (Function.update link p head)
      (Function.update cnt p 0) (some p) (p :: free) := by
  have hdetach := h.detach hx
  rw [hcnt] at hdetach
  exact hdetach.put (h.owned_managed x p hx) (h.not_free_of_owned hx)
    (Function.update_self ..)

end RefPool
