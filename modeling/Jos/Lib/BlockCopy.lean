import Mathlib

/-!
Copying a block of memory in place, a few cells at a time. The block stands at the places `s 0`,
`s 1`, ... and goes to `d 0`, `d 1`, ...; the places may overlap. A copy comes out right when no
cell is written before it is read.
-/

namespace BlockCopy

variable {α β : Type} {d s : Nat → α} {m₀ m m' : α → β} {lo hi n t c : Nat}

/-- The memory `m` is `m₀` with the cells from `lo` up to `hi` copied. -/
structure Copied (d s : Nat → α) (m₀ m : α → β) (lo hi : Nat) : Prop where
  copied : ∀ k, lo ≤ k → k < hi → m (d k) = m₀ (s k)
  others : ∀ a, (∀ k, lo ≤ k → k < hi → a ≠ d k) → m a = m₀ a

/-- One step: `c` cells are read from `t` on, and then written. -/
structure Moves (d s : Nat → α) (m m' : α → β) (t c : Nat) : Prop where
  moved : ∀ i, i < c → m' (d (t + i)) = m (s (t + i))
  others : ∀ a, (∀ i, i < c → a ≠ d (t + i)) → m' a = m a

/-- Going up, no cell has been written when it is read, and none is written twice. -/
def UpSafe (d s : Nat → α) (n : Nat) : Prop :=
  ∀ j i, j < i → i < n → s i ≠ d j ∧ d i ≠ d j

/-- The same for going down. -/
def DownSafe (d s : Nat → α) (n : Nat) : Prop :=
  ∀ j i, i < j → j < n → s i ≠ d j ∧ d i ≠ d j

theorem Copied.start (d s : Nat → α) (m₀ : α → β) (k : Nat) : Copied d s m₀ m₀ k k where
  copied _ hlo hhi := absurd hhi (Nat.not_lt.mpr hlo)
  others _ _ := rfl

/-- A step up makes the copied part longer at its end. -/
theorem Copied.up (h : Copied d s m₀ m lo hi) (hmove : Moves d s m m' hi c) (hle : lo ≤ hi)
    (hsafe : UpSafe d s n) (hn : hi + c ≤ n) : Copied d s m₀ m' lo (hi + c) where
  copied k hlo hhi := by
    rcases Nat.lt_or_ge k hi with hold | hnew
    · have hkept : ∀ i, i < c → d k ≠ d (hi + i) :=
        fun i hi' => (hsafe k (hi + i) (by omega) (by omega)).2.symm
      rw [hmove.others _ hkept]
      exact h.copied k hlo hold
    · obtain ⟨i, rfl⟩ := Nat.exists_eq_add_of_le hnew
      have hunread : ∀ j, lo ≤ j → j < hi → s (hi + i) ≠ d j :=
        fun j _ hj => (hsafe j (hi + i) (by omega) (by omega)).1
      rw [hmove.moved i (by omega)]
      exact h.others _ hunread
  others a ha := by
    rw [hmove.others a fun i hi' => ha (hi + i) (by omega) (by omega)]
    exact h.others a fun k hlo hk => ha k hlo (by omega)

/-- A step down makes it longer at its beginning. -/
theorem Copied.down (h : Copied d s m₀ m (t + c) hi) (hmove : Moves d s m m' t c)
    (hle : t + c ≤ hi) (hsafe : DownSafe d s n) (hn : hi ≤ n) : Copied d s m₀ m' t hi where
  copied k hlo hhi := by
    rcases Nat.lt_or_ge k (t + c) with hnew | hold
    · obtain ⟨i, rfl⟩ := Nat.exists_eq_add_of_le hlo
      have hunread : ∀ j, t + c ≤ j → j < hi → s (t + i) ≠ d j :=
        fun j hj hjhi => (hsafe j (t + i) (by omega) (by omega)).1
      rw [hmove.moved i (by omega)]
      exact h.others _ hunread
    · have hkept : ∀ i, i < c → d k ≠ d (t + i) :=
        fun i hi' => (hsafe k (t + i) (by omega) (by omega)).2.symm
      rw [hmove.others _ hkept]
      exact h.copied k hold hhi
  others a ha := by
    rw [hmove.others a fun i hi' => ha (t + i) (by omega) (by omega)]
    exact h.others a fun k hlo hk => ha k (by omega) hk

/-- The copy does not depend on the steps. -/
theorem Copied.unique (h : Copied d s m₀ m lo hi) (h' : Copied d s m₀ m' lo hi) : m = m' := by
  funext a
  by_cases ha : ∃ k, lo ≤ k ∧ k < hi ∧ a = d k
  · obtain ⟨k, hlo, hhi, rfl⟩ := ha
    rw [h.copied k hlo hhi, h'.copied k hlo hhi]
  · have hout : ∀ k, lo ≤ k → k < hi → a ≠ d k := fun k hlo hhi heq => ha ⟨k, hlo, hhi, heq⟩
    rw [h.others a hout, h'.others a hout]

end BlockCopy
