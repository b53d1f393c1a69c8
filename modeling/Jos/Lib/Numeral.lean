import Mathlib

/-!
Numbers written in a base, the most significant digit first, as printers and
parsers see them. Zero is written with one digit; every other number starts
with a digit that is not zero.
-/

namespace Jos

/-- The digits of `n` in base `b` in the order in which they are written. -/
def numeral (b n : Nat) : List Nat :=
  if n = 0 then [0] else (Nat.digits b n).reverse

section

variable {b n d : Nat}

theorem numeral_zero (b : Nat) : numeral b 0 = [0] := if_pos rfl

theorem numeral_of_lt (h : n < b) : numeral b n = [n] := by
  unfold numeral
  split
  · next hzero => rw [hzero]
  · next hpos =>
    rw [Nat.digits_of_lt b n hpos h]
    rfl

/-- The last digit is the remainder; the others write the quotient. -/
theorem numeral_of_le (hb : 1 < b) (h : b ≤ n) :
    numeral b n = numeral b (n / b) ++ [n % b] := by
  have hpos : n ≠ 0 := by omega
  have hquot : n / b ≠ 0 := (Nat.div_pos h (by omega)).ne'
  unfold numeral
  rw [if_neg hpos, if_neg hquot, Nat.digits_eq_cons_digits_div hb hpos, List.reverse_cons]

theorem numeral_ne_nil (b n : Nat) : numeral b n ≠ [] := by
  unfold numeral
  split
  · exact List.cons_ne_nil _ _
  · next hpos =>
    rw [ne_eq, List.reverse_eq_nil_iff]
    exact Nat.digits_ne_nil_iff_ne_zero.mpr hpos

theorem lt_of_mem_numeral (hb : 1 < b) (h : d ∈ numeral b n) : d < b := by
  unfold numeral at h
  split at h
  · obtain rfl := List.mem_singleton.mp h
    omega
  · exact Nat.digits_lt_base hb (List.mem_reverse.mp h)

theorem numeral_length_le (hb : 1 < b) {k : Nat} (hk : 0 < k) (h : n < b ^ k) :
    (numeral b n).length ≤ k := by
  unfold numeral
  split
  · exact hk
  · rw [List.length_reverse]
    exact (Nat.digits_length_le_iff hb n).mpr h

/-- What a parser accumulates over the digits. -/
theorem foldl_numeral (b n : Nat) : (numeral b n).foldl (fun v d => v * b + d) 0 = n := by
  unfold numeral
  split
  · next hzero => simp [hzero]
  · rw [List.foldl_reverse]
    have hvalue := Nat.ofDigits_eq_foldr b (Nat.digits b n)
    rw [Nat.ofDigits_digits] at hvalue
    conv_rhs => rw [hvalue]
    congr 1
    funext d v
    simp only [Nat.cast_id]
    ring

/-- The same in a number system with a wrapped `+` and `*`. -/
theorem foldl_numeral_hom {α : Type*} (f : Nat → α) (step : α → Nat → α)
    (hstep : ∀ v d, step (f v) d = f (v * b + d)) (n : Nat) :
    (numeral b n).foldl step (f 0) = f n := by
  rw [List.foldl_hom f hstep, foldl_numeral]

/-- A number other than zero starts with a digit other than zero. -/
theorem numeral_head_pos (hpos : n ≠ 0) : ∃ d ds, numeral b n = d :: ds ∧ d ≠ 0 := by
  have hnil : Nat.digits b n ≠ [] := Nat.digits_ne_nil_iff_ne_zero.mpr hpos
  refine ⟨(Nat.digits b n).getLast hnil, (Nat.digits b n).dropLast.reverse, ?_,
    Nat.getLast_digit_ne_zero b hpos⟩
  unfold numeral
  rw [if_neg hpos, ← List.reverse_concat, List.dropLast_append_getLast hnil]

/-- The digits of `ds` write `n` in base `b`: each is below the base, together they have the
value `n`, and the first is not zero unless it is the only one. -/
structure Writes (b n : Nat) (ds : List Nat) : Prop where
  digit : ∀ d ∈ ds, d < b
  value : ds.foldl (fun v d => v * b + d) 0 = n
  leading : ds = [0] ∨ ∃ d rest, ds = d :: rest ∧ d ≠ 0

theorem numeral_writes (hb : 1 < b) (n : Nat) : Writes b n (numeral b n) where
  digit _ hd := lt_of_mem_numeral hb hd
  value := foldl_numeral b n
  leading := by
    by_cases hzero : n = 0
    · rw [hzero, numeral_zero]
      exact .inl rfl
    · exact .inr (numeral_head_pos hzero)

/-- A number has no other numeral. -/
theorem writes_iff (hb : 1 < b) {ds : List Nat} : Writes b n ds ↔ ds = numeral b n := by
  constructor
  · intro h
    have hvalue : Nat.ofDigits b ds.reverse = n := by
      have hfold := h.value
      rw [← ds.reverse_reverse, List.foldl_reverse] at hfold
      rw [Nat.ofDigits_eq_foldr, ← hfold]
      congr 1
      funext d v
      simp only [Nat.cast_id]
      ring
    rcases h.leading with rfl | ⟨d, rest, rfl, hd⟩
    · have hzero : n = 0 := by simpa using h.value.symm
      rw [hzero, numeral_zero]
    · have hdigits : Nat.digits b n = (d :: rest).reverse := by
        rw [← hvalue]
        apply Nat.digits_ofDigits b hb
        · intro l hl
          exact h.digit l (List.mem_reverse.mp hl)
        · intro hnil
          rw [List.getLast_reverse]
          exact hd
      have hpos : n ≠ 0 := by
        rintro rfl
        rw [Nat.digits_zero] at hdigits
        exact List.cons_ne_nil _ _ (List.reverse_eq_nil_iff.mp hdigits.symm)
      unfold numeral
      rw [if_neg hpos, hdigits, List.reverse_reverse]
  · rintro rfl
    exact numeral_writes hb n

end

end Jos
