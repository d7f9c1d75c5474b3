/-
# Ring buffers

A ring of fixed size holds a queue in the cells from a read position on, wrapping at its
end.  A copy into the free cells or out of the used ones never wraps: it is cut at the end
of the ring.  What the two copies do to the queue is an append at its end and a drop at its
front.

Nothing here depends on a particular system.
-/
import Mathlib

namespace RingBuffer

variable {α : Type}

/-- The cells from `pos` on replaced by `xs`. -/
def overwrite (cells : List α) (pos : ℕ) (xs : List α) : List α :=
  cells.take pos ++ xs ++ cells.drop (pos + xs.length)

/-- The queue of `used` cells that begins at `start`. -/
def queue (cells : List α) (start used : ℕ) : List α := (cells.rotate start).take used

theorem length_overwrite {cells xs : List α} {pos : ℕ} (h : pos + xs.length ≤ cells.length) :
    (overwrite cells pos xs).length = cells.length := by
  simp only [overwrite, List.length_append, List.length_take, List.length_drop]
  omega

theorem getElem?_overwrite {cells xs : List α} {pos : ℕ} (h : pos + xs.length ≤ cells.length)
    (i : ℕ) : (overwrite cells pos xs)[i]? =
      if pos ≤ i ∧ i < pos + xs.length then xs[i - pos]? else cells[i]? := by
  have hp : (cells.take pos).length = pos := by
    rw [List.length_take]
    omega
  unfold overwrite
  rcases Nat.lt_or_ge i pos with h₁ | h₁
  · rw [if_neg (by omega), List.append_assoc, List.getElem?_append_left (by omega),
      List.getElem?_take_of_lt h₁]
  rcases Nat.lt_or_ge i (pos + xs.length) with h₂ | h₂
  · rw [if_pos ⟨h₁, h₂⟩, List.getElem?_append_left (by rw [List.length_append]; omega),
      List.getElem?_append_right (by omega), hp]
  · rw [if_neg (by omega), List.getElem?_append_right (by rw [List.length_append]; omega),
      List.getElem?_drop, List.length_append, hp]
    congr 1
    omega

@[simp] theorem queue_zero (cells : List α) (start : ℕ) : queue cells start 0 = [] := by
  simp [queue]

theorem length_queue {cells : List α} {start used : ℕ} (h : used ≤ cells.length) :
    (queue cells start used).length = used := by
  rw [queue, List.length_take, List.length_rotate]
  omega

theorem getElem?_queue {cells : List α} {start used i : ℕ} (hu : used ≤ cells.length) :
    (queue cells start used)[i]? =
      if i < used then cells[(start + i) % cells.length]? else none := by
  unfold queue
  rcases Nat.lt_or_ge i used with hi | hi
  · rw [if_pos hi, List.getElem?_take_of_lt hi, List.getElem?_rotate (by omega), Nat.add_comm]
  · rw [if_neg (by omega), List.getElem?_eq_none]
    rw [List.length_take]
    omega

/-- A copy out of the ring yields the front of the queue. -/
theorem take_queue {cells : List α} {start used n : ℕ} (hs : start < cells.length)
    (hn : n ≤ min (cells.length - start) used) :
    (cells.drop start).take n = (queue cells start used).take n := by
  rw [queue, List.take_take, List.rotate_eq_drop_append_take hs.le, List.take_append_of_le_length]
  · congr 1
    omega
  · rw [List.length_drop]
    omega

/-- What is left when the front of the queue has been copied out. -/
theorem drop_queue {cells : List α} {start used n : ℕ} (hu : used ≤ cells.length)
    (hn : n ≤ used) :
    queue cells ((start + n) % cells.length) (used - n) = (queue cells start used).drop n := by
  have hl : n ≤ (cells.rotate start).length := by
    rw [List.length_rotate]
    omega
  unfold queue
  rw [List.rotate_mod, ← List.rotate_rotate, List.rotate_eq_drop_append_take hl,
    List.take_append_of_le_length, List.drop_take]
  rw [List.length_drop, List.length_rotate]
  omega

/-- A copy into the free cells appends to the queue. -/
theorem queue_overwrite {cells xs : List α} {start used : ℕ} (hs : start < cells.length)
    (hn : xs.length ≤ min (cells.length - (start + used) % cells.length) (cells.length - used))
    (hu : used ≤ cells.length) :
    queue (overwrite cells ((start + used) % cells.length) xs) start (used + xs.length) =
      queue cells start used ++ xs := by
  have hw : (start + used) % cells.length < cells.length := Nat.mod_lt _ (by omega)
  have hfit : (start + used) % cells.length + xs.length ≤ cells.length := by omega
  have hlen := length_overwrite hfit
  have hq : (queue cells start used).length = used := length_queue hu
  have hwrap : ∀ a, start + a < 2 * cells.length →
      (start + a) % cells.length = start + a ∧ start + a < cells.length ∨
        (start + a) % cells.length = start + a - cells.length ∧ cells.length ≤ start + a := by
    intro a ha
    rcases Nat.lt_or_ge (start + a) cells.length with h | h
    · exact Or.inl ⟨Nat.mod_eq_of_lt h, h⟩
    · exact Or.inr ⟨by rw [Nat.mod_eq_sub_mod h, Nat.mod_eq_of_lt (by omega)], h⟩
  have hu' := hwrap used (by omega)
  refine List.ext_getElem? fun i => ?_
  rw [getElem?_queue (by omega), hlen, getElem?_overwrite hfit]
  rcases Nat.lt_or_ge i used with hi | hi
  · -- a cell of the queue is none of the cells written
    have hi' := hwrap i (by omega)
    rw [if_pos (by omega), if_neg (by omega), List.getElem?_append_left (by omega),
      getElem?_queue hu, if_pos hi]
  rw [List.getElem?_append_right (by omega), hq]
  rcases Nat.lt_or_ge i (used + xs.length) with hx | hx
  · have hi' := hwrap i (by omega)
    have hpos : (start + i) % cells.length = (start + used) % cells.length + (i - used) := by omega
    rw [if_pos hx, hpos, if_pos (by omega), Nat.add_sub_cancel_left]
  · rw [if_neg (by omega), List.getElem?_eq_none (by omega)]

end RingBuffer
