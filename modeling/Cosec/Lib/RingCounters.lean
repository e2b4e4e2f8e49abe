import Mathlib.Algebra.Group.Nat.Defs
import Cosec.Lib.CircularBuffers

/-!
# Free-running ring counters

A ring shared by a producer and a consumer is read between two counters that
are never reduced to the capacity: they wrap with their width, and an entry's
slot is its counter modulo the capacity.  When the capacity divides the range
of the counters, the slots of consecutive counters stay consecutive where the
counters wrap.
-/

namespace Cosec.Lib.RingCounters

open Function Lib.CircularBuffers List

universe u

variable {Value : Type u} {cells : Nat → Value} {value : Value} {width capacity : Nat}
  {first last : BitVec width}

/-- The slot that a counter stands for. -/
def slot (capacity : Nat) (counter : BitVec width) : Nat := counter.toNat % capacity

/-- The entries from one counter up to another. -/
def entries (cells : Nat → Value) (capacity : Nat) (first last : BitVec width) : List Value :=
  window cells capacity first.toNat (last - first).toNat

@[simp]
theorem length_entries : (entries cells capacity first last).length = (last - first).toNat :=
  length_window

@[simp]
theorem entries_self : entries cells capacity first first = [] := by
  apply eq_nil_of_length_eq_zero
  simp

/-! ## Distances -/

theorem toNat_succ {counter : BitVec width} (below : counter.toNat + 1 < 2 ^ width) :
    (counter + BitVec.ofNat width 1).toNat = counter.toNat + 1 := by
  have one : 1 % 2 ^ width = 1 := by
    apply Nat.mod_eq_of_lt
    exact (Nat.le_add_left 1 _).trans_lt below
  rw [BitVec.toNat_add, BitVec.toNat_ofNat, one, Nat.mod_eq_of_lt below]

/-- A distance that is not zero shrinks with its start. -/
theorem toNat_sub_succ (apart : first ≠ last) :
    (last - first).toNat = (last - (first + BitVec.ofNat width 1)).toNat + 1 := by
  have restored : last - first = last - (first + BitVec.ofNat width 1) + BitVec.ofNat width 1 := by
    grind
  have small : (last - (first + BitVec.ofNat width 1)).toNat + 1 ≤ 2 ^ width :=
    (last - (first + BitVec.ofNat width 1)).isLt
  rcases small.lt_or_eq with below | full
  · conv =>
      lhs
      rw [restored, toNat_succ below]
  · exfalso
    apply apart
    have zero : last - first = BitVec.ofNat width 0 := by
      apply BitVec.eq_of_toNat_eq
      rw [restored, BitVec.toNat_add, BitVec.toNat_ofNat, Nat.add_mod_mod,
        full, Nat.mod_self, BitVec.toNat_ofNat, Nat.zero_mod]
    grind

section

variable (divides : capacity ∣ 2 ^ width)

include divides

/-- The slots go on around the ring where the counters wrap. -/
theorem slot_add (counter : BitVec width) (offset : Nat) :
    slot capacity (counter + BitVec.ofNat width offset) = (counter.toNat + offset) % capacity := by
  rw [slot, BitVec.toNat_add, BitVec.toNat_ofNat, Nat.add_mod_mod, Nat.mod_mod_of_dvd _ divides]

/-- An entry that is produced comes behind the others. -/
theorem entries_produce
    (small : capacity < 2 ^ width) (room : (entries cells capacity first last).length < capacity) :
    entries (update cells (slot capacity last) value) capacity
        first (last + BitVec.ofNat width 1) = entries cells capacity first last ++ [value] := by
  rw [length_entries] at room
  have reached : slot capacity last = (first.toNat + (last - first).toNat) % capacity := by
    rw [← slot_add divides, BitVec.ofNat_toNat, BitVec.setWidth_eq]
    congr 1
    grind
  have shifted : last + BitVec.ofNat width 1 - first = last - first + BitVec.ofNat width 1 := by
    grind
  rw [entries, entries, shifted, toNat_succ (by omega), reached, ← length_singleton (a := value)]
  apply window_append
  · intro offset before
    apply update_of_ne
    intro same
    have equal : offset % capacity = (last - first).toNat % capacity :=
      Nat.ModEq.add_left_cancel' first.toNat same
    rw [Nat.mod_eq_of_lt room, Nat.mod_eq_of_lt (before.trans room)] at equal
    exact before.ne equal
  · intro offset inside
    have only : offset = 0 := Nat.lt_one_iff.mp inside
    subst only
    exact update_self ..

theorem entries_consume (pending : first ≠ last) :
    entries cells capacity first last =
      cells (slot capacity first) ::
        entries cells capacity (first + BitVec.ofNat width 1) last := by
  rw [entries, toNat_sub_succ pending, Nat.add_comm, window_add, entries]
  have head : window cells capacity first.toNat 1 = [cells (slot capacity first)] := rfl
  rw [head, singleton_append]
  congr 1
  apply map_congr_left
  intro offset _
  congr 1
  exact (Nat.ModEq.add_right offset (slot_add divides first 1)).symm

end

end Cosec.Lib.RingCounters
