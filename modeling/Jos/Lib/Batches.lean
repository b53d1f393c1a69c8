import Mathlib

/-!
Items collected in a buffer that is sent as soon as it holds a given number of them.
-/

namespace Batches

variable {α : Type*} {size : Nat}

/-- Whole batches that have been sent, and the items of the next one. -/
structure Collected (α : Type*) (size : Nat) where
  sent : List (List α)
  held : List α
  whole : ∀ batch ∈ sent, batch.length = size
  room : held.length < size

namespace Collected

def empty (hsize : 0 < size) : Collected α size where
  sent := []
  held := []
  whole _ hbatch := absurd hbatch List.not_mem_nil
  room := hsize

/-- All the items in their order. -/
def items (b : Collected α size) : List α := b.sent.flatten ++ b.held

def push (b : Collected α size) (c : α) : Collected α size :=
  if h : b.held.length + 1 = size then
    { sent := b.sent ++ [b.held ++ [c]]
      held := []
      whole := by
        intro batch hbatch
        rcases List.mem_append.mp hbatch with hold | hnew
        · exact b.whole batch hold
        · rw [List.mem_singleton.mp hnew, List.length_append, List.length_singleton, h]
      room := Nat.zero_lt_of_lt b.room }
  else
    { sent := b.sent
      held := b.held ++ [c]
      whole := b.whole
      room := by
        have hroom := b.room
        rw [List.length_append, List.length_singleton]
        omega }

/-- The batches with the last one, that may be empty. -/
def flush (b : Collected α size) : List (List α) := b.sent ++ [b.held]

theorem items_push (b : Collected α size) (c : α) : (b.push c).items = b.items ++ [c] := by
  unfold push items
  split <;> simp

theorem items_foldl (b : Collected α size) (cs : List α) :
    (cs.foldl push b).items = b.items ++ cs := by
  induction cs generalizing b with
  | nil => simp
  | cons c cs ih => rw [List.foldl_cons, ih, items_push, List.append_assoc, List.singleton_append]

theorem flatten_flush (b : Collected α size) : b.flush.flatten = b.items := by
  simp [flush, items]

theorem length_of_mem_flush (b : Collected α size) {batch : List α} (h : batch ∈ b.flush) :
    batch.length ≤ size := by
  rcases List.mem_append.mp h with hsent | hlast
  · exact (b.whole batch hsent).le
  · rw [List.mem_singleton.mp hlast]
    exact b.room.le

end Collected

end Batches
