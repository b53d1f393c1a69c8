import Mathlib

/-!
Writing over a function. A write is a partial function; writes are laid over a function one
after the other, and the last write that is defined at a place decides what stands there.
-/

namespace Overlay

variable {α β : Type} {m : α → β} {w : α → Option β} {ws ws' : List (α → Option β)} {a : α} {b : β}

def put (m : α → β) (w : α → Option β) : α → β := fun a => (w a).getD (m a)

def putAll (m : α → β) (ws : List (α → Option β)) : α → β := ws.foldl put m

@[simp] theorem putAll_nil : putAll m [] = m := rfl

@[simp] theorem putAll_cons : putAll m (w :: ws) = putAll (put m w) ws := rfl

theorem putAll_append : putAll m (ws ++ ws') = putAll (putAll m ws) ws' :=
  List.foldl_append ..

theorem put_none (h : w a = none) : put m w a = m a := by
  rw [put, h, Option.getD_none]

theorem put_some (h : w a = some b) : put m w a = b := by
  rw [put, h, Option.getD_some]

theorem putAll_none (h : ∀ w ∈ ws, w a = none) : putAll m ws a = m a := by
  induction ws generalizing m with
  | nil => rfl
  | cons w ws ih =>
    rw [putAll_cons, ih fun w' hw' => h w' (List.mem_cons_of_mem w hw'),
      put_none (h w List.mem_cons_self)]

/-- The last write decides. -/
theorem putAll_last (hw : w a = some b) (hlast : ∀ w' ∈ ws', w' a = none) :
    putAll m (ws ++ w :: ws') a = b := by
  rw [putAll_append, putAll_cons, putAll_none hlast, put_some hw]

/-- The last element of a list with a property. -/
theorem exists_last {γ : Type} {l : List γ} {p : γ → Prop} (h : ∃ c ∈ l, p c) :
    ∃ pre c post, l = pre ++ c :: post ∧ p c ∧ ∀ c' ∈ post, ¬ p c' := by
  induction l with
  | nil => simp at h
  | cons c l ih =>
    by_cases htail : ∃ c' ∈ l, p c'
    · obtain ⟨pre, c', post, rfl, hc', hpost⟩ := ih htail
      exact ⟨c :: pre, c', post, rfl, hc', hpost⟩
    · simp only [not_exists, not_and] at htail
      refine ⟨[], c, l, rfl, ?_, htail⟩
      obtain ⟨c', hc', hp⟩ := h
      rcases List.mem_cons.mp hc' with rfl | hc'
      · exact hp
      · exact absurd hp (htail c' hc')

end Overlay
