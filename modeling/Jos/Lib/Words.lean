import Mathlib

/-!
The words of a list: its longest runs without a separator, as a scanner finds them one after
the other.
-/

namespace Words

variable {α : Type*} {p : α → Bool} {xs ys : List α}

/-- What stands between the separators, where that is not empty. -/
def words (p : α → Bool) (xs : List α) : List (List α) :=
  (xs.splitOnP p).filter (fun w => !w.isEmpty)

theorem words_nil (p : α → Bool) : words p [] = [] := rfl

theorem words_skip {c : α} (hc : p c = true) (xs : List α) : words p (c :: xs) = words p xs := by
  unfold words
  have hsplit := List.splitOnP_append_cons (p := p) [] xs hc
  rw [List.nil_append] at hsplit
  rw [hsplit, List.splitOnP_nil]
  rfl

theorem words_dropWhile (p : α → Bool) (xs : List α) :
    words p (xs.dropWhile p) = words p xs := by
  induction xs with
  | nil => rfl
  | cons c xs ih =>
    by_cases hc : p c = true
    · rw [List.dropWhile_cons_of_pos hc, ih, words_skip hc]
    · rw [List.dropWhile_cons_of_neg hc]

/-- A word is followed by a separator or by the end. -/
theorem words_append (hne : xs ≠ []) (hword : ∀ c ∈ xs, p c = false)
    (hend : ∀ c ∈ ys.head?, p c = true) : words p (xs ++ ys) = xs :: words p ys := by
  cases ys with
  | nil =>
    rw [List.append_nil, words_nil]
    unfold words
    rw [List.splitOnP_eq_singleton hword, List.filter_cons_of_pos (by simp [hne]), List.filter_nil]
  | cons c ys =>
    have hc : p c = true := hend c rfl
    rw [words_skip hc]
    unfold words
    rw [List.splitOnP_append_cons_of_forall_mem hword c hc,
      List.filter_cons_of_pos (by simp [hne])]

theorem head_dropWhile (p : α → Bool) (xs : List α) :
    ∀ c ∈ (xs.dropWhile p).head?, p c = false := by
  intro c hc
  have hnot := List.head?_dropWhile_not p xs
  rw [Option.mem_def.mp hc] at hnot
  simpa using hnot

theorem words_takeWhile (hne : xs ≠ []) (hfirst : ∀ c ∈ xs.head?, p c = false) :
    words p xs = xs.takeWhile (fun c => !p c) :: words p (xs.dropWhile (fun c => !p c)) := by
  have hsplit := List.takeWhile_append_dropWhile (p := fun c => !p c) (l := xs)
  have hword : xs.takeWhile (fun c => !p c) ≠ [] := by
    cases xs with
    | nil => exact hne
    | cons c xs =>
      rw [List.takeWhile_cons_of_pos (by simp [hfirst c rfl])]
      exact List.cons_ne_nil _ _
  conv_lhs => rw [← hsplit]
  apply words_append hword
  · intro c hc
    simpa using List.mem_takeWhile_imp hc
  · intro c hc
    simpa using head_dropWhile (fun c => !p c) xs c hc

end Words
