import Mathlib

/-!
A queue kept in a circular array between a read and a write index. One cell
stays free, so that equal indices mean an empty queue.
-/

namespace Ring

variable {α : Type} {n r w : Nat} {cell : Nat → α} {q : List α}

/-- The index after `i` in an array of `n` cells. -/
def next (n i : Nat) : Nat :=
  if i + 1 = n then 0 else i + 1

/-- The cells from `r` up to `w`, around the end of the array, hold `q`. -/
structure Holds (n : Nat) (cell : Nat → α) (r w : Nat) (q : List α) : Prop where
  room : q.length < n
  first_lt : r < n
  last : w = (r + q.length) % n
  cells : ∀ i (hi : i < q.length), cell ((r + i) % n) = q.get ⟨i, hi⟩

theorem next_eq (hi : r < n) : next n r = (r + 1) % n := by
  unfold next
  split
  · next h => rw [h, Nat.mod_self]
  · exact (Nat.mod_eq_of_lt (by omega)).symm

theorem mod_injective {i j : Nat} (hi : i < n) (hj : j < n)
    (h : (r + i) % n = (r + j) % n) : i = j := by
  have hmod : i ≡ j [MOD n] := Nat.ModEq.add_left_cancel' r h
  exact Nat.ModEq.eq_of_lt_of_lt hmod hi hj

theorem Holds.last_lt (h : Holds n cell r w q) : w < n := by
  rw [h.last]
  exact Nat.mod_lt _ (Nat.zero_lt_of_lt h.first_lt)

theorem Holds.empty (cell : Nat → α) (hr : r < n) : Holds n cell r r [] where
  room := Nat.zero_lt_of_lt hr
  first_lt := hr
  last := by simp [Nat.mod_eq_of_lt hr]
  cells i hi := absurd hi (Nat.not_lt_zero i)

theorem Holds.indices_eq_iff (h : Holds n cell r w q) : r = w ↔ q = [] := by
  constructor
  · intro heq
    apply List.length_eq_zero_iff.mp
    apply mod_injective (r := r) h.room (Nat.zero_lt_of_lt h.first_lt)
    rw [← h.last, Nat.add_zero, Nat.mod_eq_of_lt h.first_lt]
    exact heq.symm
  · rintro rfl
    rw [h.last, List.length_nil, Nat.add_zero, Nat.mod_eq_of_lt h.first_lt]

theorem Holds.push (h : Holds n cell r w q) (hroom : q.length + 1 < n) (c : α) :
    Holds n (Function.update cell w c) r (next n w) (q ++ [c]) where
  room := by simpa using hroom
  first_lt := h.first_lt
  last := by
    rw [next_eq h.last_lt, h.last, Nat.mod_add_mod, List.length_append, List.length_singleton,
      Nat.add_assoc]
  cells i hi := by
    rw [List.length_append, List.length_singleton] at hi
    by_cases hold : i < q.length
    · have hne : (r + i) % n ≠ w := by
        intro heq
        rw [h.last] at heq
        have hidx := mod_injective (by omega) h.room heq
        omega
      rw [Function.update_of_ne hne, h.cells i hold]
      simp [List.getElem_append_left hold]
    · obtain rfl : i = q.length := by omega
      rw [← h.last, Function.update_self]
      simp

theorem Holds.pop {c : α} (h : Holds n cell r w (c :: q)) :
    cell r = c ∧ Holds n cell (next n r) w q := by
  have hroom := h.room
  rw [List.length_cons] at hroom
  constructor
  · have hfirst := h.cells 0 (by simp)
    rwa [Nat.add_zero, Nat.mod_eq_of_lt h.first_lt] at hfirst
  · constructor
    · omega
    · rw [next_eq h.first_lt]
      exact Nat.mod_lt _ (Nat.zero_lt_of_lt h.first_lt)
    · rw [h.last, next_eq h.first_lt, Nat.mod_add_mod, List.length_cons, Nat.add_assoc,
        Nat.add_comm 1]
    · intro i hi
      have hcell := h.cells (i + 1) (by simpa using hi)
      rw [next_eq h.first_lt, Nat.mod_add_mod, Nat.add_assoc, Nat.add_comm 1, hcell]
      rfl

/-- `q` was written one by one from the index `first` on, over whatever stood there; the
next index is `w`. What is older than `n` writes is gone. -/
structure Written (n : Nat) (cell : Nat → α) (first w : Nat) (q : List α) : Prop where
  first_lt : first < n
  last : w = (first + q.length) % n
  cells : ∀ i (hi : i < q.length), q.length ≤ i + n → cell ((first + i) % n) = q.get ⟨i, hi⟩

theorem Written.nil (cell : Nat → α) (hr : r < n) : Written n cell r r [] where
  first_lt := hr
  last := by simp [Nat.mod_eq_of_lt hr]
  cells i hi := absurd hi (Nat.not_lt_zero i)

theorem Written.last_lt (h : Written n cell r w q) : w < n := by
  rw [h.last]
  exact Nat.mod_lt _ (Nat.zero_lt_of_lt h.first_lt)

theorem Written.push (h : Written n cell r w q) (c : α) :
    Written n (Function.update cell w c) r (next n w) (q ++ [c]) where
  first_lt := h.first_lt
  last := by
    rw [next_eq h.last_lt, h.last, Nat.mod_add_mod, List.length_append, List.length_singleton,
      Nat.add_assoc]
  cells i hi hrecent := by
    rw [List.length_append, List.length_singleton] at hi hrecent
    by_cases hold : i < q.length
    · have hne : (r + i) % n ≠ w := by
        intro heq
        have hlast : r + q.length = r + i + (q.length - i) := by omega
        rw [h.last, hlast] at heq
        have hidx := mod_injective (n := n) (i := 0) (j := q.length - i) (by omega) (by omega) heq
        omega
      rw [Function.update_of_ne hne, h.cells i hold (by omega)]
      simp [List.getElem_append_left hold]
    · obtain rfl : i = q.length := by omega
      rw [← h.last, Function.update_self]
      simp

/-- Whatever was lost, the cells between the two indices hold the latest writes. -/
theorem Written.holds {first m : Nat} (h : Written n cell first w q) (hr : r < n) (hm : m < n)
    (hw : w = (r + m) % n) (hlen : m ≤ q.length) :
    Holds n cell r w (q.drop (q.length - m)) := by
  have hdrop : (q.drop (q.length - m)).length = m := by
    rw [List.length_drop]
    omega
  have hstart : r ≡ first + (q.length - m) [MOD n] := by
    apply Nat.ModEq.add_right_cancel' m
    have hsum : first + (q.length - m) + m = first + q.length := by omega
    rw [hsum]
    exact hw.symm.trans h.last
  constructor
  · rwa [hdrop]
  · exact hr
  · rwa [hdrop]
  · intro i hi
    rw [hdrop] at hi
    have hcell := h.cells (q.length - m + i) (by omega) (by omega)
    have hindex : (r + i) % n = (first + (q.length - m + i)) % n := by
      rw [← Nat.add_assoc]
      exact hstart.add_right i
    rw [hindex, hcell]
    simp

end Ring
