import Mathlib

/-!
C strings read by position, and the two ways in which a loop over memory that
it has no claim to can fail in the model.
-/

namespace Jos

/-- A run that needs more fuel, or a read outside of the memory it may read. -/
inductive Fault where
  | fuel
  | outside
deriving DecidableEq

/-- A NUL-terminated string, given by the bytes before the NUL. -/
structure CString where
  bytes : List UInt8
  nonzero : ∀ c ∈ bytes, c ≠ 0

namespace CString

/-- The byte at an offset. The NUL stands behind the last byte; what lies
further on may not be read. -/
def byteAt (s : CString) (i : Nat) : Option UInt8 :=
  (s.bytes ++ [0])[i]?

def lit (s : String) : CString where
  bytes := (s.toList.map Char.toUInt8).takeWhile (fun c => c ≠ 0)
  nonzero c hc := by simpa using List.mem_takeWhile_imp hc

variable {s : CString} {i : Nat} {c : UInt8}

theorem byteAt_eq_none : s.byteAt i = none ↔ s.bytes.length < i := by
  unfold byteAt
  rw [List.getElem?_eq_none_iff, List.length_append, List.length_singleton]
  omega

theorem byteAt_length (s : CString) : s.byteAt s.bytes.length = some 0 := by
  simp [byteAt]

theorem byteAt_of_lt (h : i < s.bytes.length) : s.byteAt i = some (s.bytes.get ⟨i, h⟩) := by
  simp [byteAt, List.getElem?_append_left h]

theorem le_of_byteAt (h : s.byteAt i = some c) : i ≤ s.bytes.length := by
  by_contra hlt
  rw [byteAt_eq_none.mpr (by omega)] at h
  cases h

theorem lt_of_byteAt (h : s.byteAt i = some c) (hc : c ≠ 0) : i < s.bytes.length := by
  rcases Nat.lt_or_eq_of_le (le_of_byteAt h) with hlt | rfl
  · exact hlt
  · rw [byteAt_length] at h
    exact absurd (Option.some.inj h).symm hc

theorem byteAt_eq_zero (h : s.byteAt i = some 0) : i = s.bytes.length := by
  rcases Nat.lt_or_eq_of_le (le_of_byteAt h) with hlt | heq
  · rw [byteAt_of_lt hlt] at h
    exact absurd (Option.some.inj h) (s.nonzero _ (List.get_mem _ _))
  · exact heq

theorem drop_of_byteAt (h : s.byteAt i = some c) (hc : c ≠ 0) :
    s.bytes.drop i = c :: s.bytes.drop (i + 1) := by
  have hlt := lt_of_byteAt h hc
  rw [byteAt_of_lt hlt] at h
  rw [List.drop_eq_getElem_cons hlt]
  exact congrArg (· :: _) (Option.some.inj h)

end CString

end Jos
