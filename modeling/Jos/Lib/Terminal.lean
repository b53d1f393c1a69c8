import Mathlib

/-!
A terminal that writes to a tape of cells without end, and shows a window of it that moves
down by one row whenever the cursor leaves it.
-/

/-- The cursor and the origin of the window are indices of the tape. -/
structure Terminal (α : Type*) where
  tape : Nat → α
  cursor : Nat
  origin : Nat

namespace Terminal

variable {α : Type*}

inductive Action (α : Type*) where
  | write (cell : α)
  | newline
  | carriageReturn
  | backspace (cell : α)

section

variable (cols size : Nat)

/-- The action itself. The cursor may leave the window. -/
def move : Action α → Terminal α → Terminal α
  | .write cell, t =>
    { t with tape := Function.update t.tape t.cursor cell, cursor := t.cursor + 1 }
  | .newline, t => { t with cursor := (t.cursor / cols + 1) * cols }
  | .carriageReturn, t => { t with cursor := t.cursor / cols * cols }
  | .backspace cell, t =>
    if t.origin < t.cursor then
      { t with tape := Function.update t.tape (t.cursor - 1) cell, cursor := t.cursor - 1 }
    else t

/-- The window of `size` cells follows the cursor. -/
def follow (t : Terminal α) : Terminal α :=
  if t.origin + size ≤ t.cursor then { t with origin := t.origin + cols } else t

def act (a : Action α) (t : Terminal α) : Terminal α :=
  (t.move cols a).follow cols size

def run (as : List (Action α)) (t : Terminal α) : Terminal α :=
  as.foldl (fun t a => t.act cols size a) t

/-- What the window has not reached is blank, and the cursor is in it or right behind it. -/
structure Reached (blank : α) (t : Terminal α) : Prop where
  row : t.origin % cols = 0
  first : t.origin ≤ t.cursor
  last : t.cursor ≤ t.origin + size
  blank : ∀ i, t.origin + size ≤ i → t.tape i = blank

/-- What holds between two actions. -/
structure Within (blank : α) (t : Terminal α) : Prop extends Reached cols size blank t where
  shown : t.cursor < t.origin + size

end

variable {cols size : Nat} {blank : α} {t : Terminal α}

theorem row_start (hrow : t.origin % cols = 0) (hfirst : t.origin ≤ t.cursor) :
    t.origin ≤ t.cursor / cols * cols := by
  have hdvd : cols ∣ t.origin := Nat.dvd_of_mod_eq_zero hrow
  rw [← Nat.div_mul_cancel hdvd]
  exact Nat.mul_le_mul_right cols (Nat.div_le_div_right hfirst)

/-- The next row starts inside of the window or right behind it. -/
theorem next_row (hsize : cols ∣ size) (hrow : t.origin % cols = 0)
    (hshown : t.cursor < t.origin + size) :
    (t.cursor / cols + 1) * cols ≤ t.origin + size := by
  obtain ⟨rows, hrows⟩ := (Nat.dvd_of_mod_eq_zero hrow).add hsize
  rw [hrows] at hshown ⊢
  rw [Nat.mul_comm cols]
  apply Nat.mul_le_mul_right
  exact Nat.div_lt_of_lt_mul hshown

theorem Within.move (h : Within cols size blank t) (hcols : 0 < cols) (hsize : cols ∣ size)
    (a : Action α) : Reached cols size blank (t.move cols a) := by
  have hfirst := h.first
  have hshown := h.shown
  cases a with
  | write cell =>
    refine ⟨h.row, Nat.le_succ_of_le hfirst, hshown, fun i hi => ?_⟩
    have hbeyond : t.origin + size ≤ i := hi
    exact (Function.update_of_ne (by omega) _ _).trans (h.blank i hbeyond)
  | newline =>
    have hdiv := Nat.div_add_mod' t.cursor cols
    have hmod := Nat.mod_lt t.cursor hcols
    refine ⟨h.row, ?_, next_row hsize h.row hshown, h.blank⟩
    change t.origin ≤ (t.cursor / cols + 1) * cols
    rw [Nat.succ_mul]
    omega
  | carriageReturn =>
    have hle := Nat.div_mul_le_self t.cursor cols
    exact ⟨h.row, row_start h.row hfirst, hle.trans h.last, h.blank⟩
  | backspace cell =>
    unfold Terminal.move
    dsimp only
    split
    · refine ⟨h.row, by dsimp only; omega, by dsimp only; omega, fun i hi => ?_⟩
      dsimp only at hi ⊢
      exact (Function.update_of_ne (by omega) _ _).trans (h.blank i hi)
    · exact h.toReached

theorem Reached.follow (h : Reached cols size blank t) (hcols : 0 < cols) (hsize : cols ≤ size) :
    Within cols size blank (t.follow cols size) := by
  have hfirst := h.first
  have hlast := h.last
  unfold Terminal.follow
  split
  · refine ⟨⟨?_, ?_, ?_, fun i hi => ?_⟩, ?_⟩
    · change (t.origin + cols) % cols = 0
      rw [Nat.add_mod_right, h.row]
    · change t.origin + cols ≤ t.cursor
      omega
    · change t.cursor ≤ t.origin + cols + size
      omega
    · change t.origin + cols + size ≤ i at hi
      exact h.blank i (by omega)
    · change t.cursor < t.origin + cols + size
      omega
  · next hin => exact ⟨h, Nat.lt_of_not_le hin⟩

end Terminal
