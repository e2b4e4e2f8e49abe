import Mathlib.Data.List.Basic
import Mathlib.Data.Nat.ModEq
import Mathlib.Logic.Function.Basic

/-!
# Circular buffers

The contents of a circular buffer are a window of its cells: some number of
consecutive indices, taken modulo the capacity.  The start of a window may
run freely past the capacity, as the counters of shared rings do.
-/

namespace Cosec.Lib.CircularBuffers

open List

universe u

variable {Value : Type u} {cells others : Nat → Value} {capacity start count : Nat}

/-- The values of `count` cells from `start` on, around the buffer. -/
def window (cells : Nat → Value) (capacity start count : Nat) : List Value :=
  (List.range count).map fun offset => cells ((start + offset) % capacity)

@[simp]
theorem length_window : (window cells capacity start count).length = count := by simp [window]

theorem getElem_window
    {offset : Nat} (inside : offset < (window cells capacity start count).length) :
    (window cells capacity start count)[offset] = cells ((start + offset) % capacity) := by
  simp [window]

/-- A window in two parts. -/
theorem window_add (first second : Nat) :
    window cells capacity start (first + second) =
      window cells capacity start first ++ window cells capacity (start + first) second := by
  simp [window, range_add, Nat.add_assoc, Function.comp_def]

theorem window_congr
    (agree :
      ∀ offset < count,
        others ((start + offset) % capacity) = cells ((start + offset) % capacity)) :
    window others capacity start count = window cells capacity start count := by
  apply map_congr_left
  intro offset member
  exact agree offset (mem_range.mp member)

theorem drop_window {taken : Nat} (enough : taken ≤ count) :
    (window cells capacity start count).drop taken =
      window cells capacity (start + taken) (count - taken) := by
  have parts : count = taken + (count - taken) := by omega
  conv =>
    lhs
    rw [parts, window_add]
  apply drop_left' length_window

theorem take_window {kept : Nat} (enough : kept ≤ count) :
    (window cells capacity start count).take kept = window cells capacity start kept := by
  have parts : count = kept + (count - kept) := by omega
  conv =>
    lhs
    rw [parts, window_add]
  apply take_left' length_window

theorem window_append {values : List Value}
    (kept :
      ∀ offset < count, others ((start + offset) % capacity) = cells ((start + offset) % capacity))
    (added :
      ∀ offset (inside : offset < values.length),
        others ((start + count + offset) % capacity) = values[offset]) :
    window others capacity start (count + values.length) =
      window cells capacity start count ++ values := by
  rw [window_add, window_congr kept]
  congr 1
  apply ext_getElem
  · exact length_window
  · intro offset inWindow inValues
    rw [getElem_window inWindow]
    exact added offset inValues

end Cosec.Lib.CircularBuffers
