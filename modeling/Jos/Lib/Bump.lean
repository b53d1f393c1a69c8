import Mathlib

/-!
An allocator that hands out one block after the other and takes none back. Space is counted in
units of `u`; every block begins with a unit and keeps the whole units that its size reaches.
-/

namespace Bump

def units (u n : Nat) : Nat := (n + u - 1) / u

/-- The size and the place of every block, the first of them in the unit `base`. -/
def blocks (u : Nat) : Nat → List Nat → List (Nat × Nat)
  | _, [] => []
  | base, n :: ns => (n, u * base) :: blocks u (base + units u n) ns

/-- The unit behind all blocks. -/
def next (u : Nat) : Nat → List Nat → Nat
  | base, [] => base
  | base, n :: ns => next u (base + units u n) ns

section

variable {u base n k : Nat} {ns : List Nat} {b : Nat × Nat}

theorem le_units (hu : 0 < u) (n : Nat) : n ≤ u * units u n := by
  have hdiv := Nat.div_add_mod (n + u - 1) u
  have hmod := Nat.mod_lt (n + u - 1) hu
  unfold units
  omega

theorem units_le (hu : 0 < u) (h : n ≤ u * k) : units u n ≤ k := by
  unfold units
  apply Nat.le_of_lt_succ
  rw [Nat.div_lt_iff_lt_mul hu, Nat.succ_mul, Nat.mul_comm k u]
  omega

theorem units_zero (hu : 0 < u) : units u 0 = 0 := by
  unfold units
  apply Nat.div_eq_of_lt
  omega

theorem le_next (u base : Nat) (ns : List Nat) : base ≤ next u base ns := by
  induction ns generalizing base with
  | nil => exact le_refl _
  | cons n ns ih => exact (Nat.le_add_right _ _).trans (ih _)

/-- Every block lies behind `base` and before the next unit. -/
theorem blocks_bounds (hu : 0 < u) (hb : b ∈ blocks u base ns) :
    u * base ≤ b.2 ∧ b.2 + b.1 ≤ u * next u base ns := by
  induction ns generalizing base with
  | nil => cases hb
  | cons n ns ih =>
    rcases List.mem_cons.mp hb with rfl | hb
    · have hsize := le_units hu n
      have hmono := Nat.mul_le_mul_left u (le_next u (base + units u n) ns)
      rw [Nat.mul_add] at hmono
      exact ⟨le_refl _, le_trans (Nat.add_le_add_left hsize _) hmono⟩
    · obtain ⟨hlo, hhi⟩ := ih hb
      exact ⟨le_trans (Nat.mul_le_mul_left u (Nat.le_add_right _ _)) hlo, hhi⟩

/-- The next unit is the first behind `base` and all blocks. -/
theorem next_isLeast (hu : 0 < u) :
    IsLeast {k | base ≤ k ∧ ∀ b ∈ blocks u base ns, 0 < b.1 → b.2 + b.1 ≤ u * k}
      (next u base ns) := by
  refine ⟨⟨le_next u base ns, fun b hb _ => (blocks_bounds hu hb).2⟩, ?_⟩
  induction ns generalizing base with
  | nil => exact fun k hk => hk.1
  | cons n ns ih =>
    rintro k ⟨hbase, hblocks⟩
    refine ih ⟨?_, fun b hb => hblocks b (List.mem_cons_of_mem _ hb)⟩
    rcases Nat.eq_zero_or_pos n with rfl | hn
    · rw [units_zero hu]
      exact hbase
    · have hfirst := hblocks _ List.mem_cons_self hn
      have hroom : n ≤ u * (k - base) := by
        rw [Nat.mul_sub]
        dsimp only at hfirst
        omega
      have hunits := units_le hu hroom
      omega

/-- Where units were handed out, the first block begins at `base`. -/
theorem exists_first (hu : 0 < u) (h : next u base ns ≠ base) :
    ∃ b ∈ blocks u base ns, 0 < b.1 ∧ b.2 = u * base := by
  induction ns with
  | nil => exact absurd rfl h
  | cons n ns ih =>
    rcases Nat.eq_zero_or_pos n with rfl | hn
    · rw [next, units_zero hu] at h
      obtain ⟨b, hb, hpos, hplace⟩ := ih h
      refine ⟨b, ?_, hpos, hplace⟩
      rw [blocks, units_zero hu]
      exact List.mem_cons_of_mem _ hb
    · exact ⟨(n, u * base), List.mem_cons_self, hn, rfl⟩

end

end Bump
