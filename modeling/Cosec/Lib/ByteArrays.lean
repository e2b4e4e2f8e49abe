import Mathlib.Data.List.Basic
import Cosec.Lib.Word32

/-!
# Memory cells and sparse arrays

Two views of a sequence of cells.  A memory has a value at every address of
the thirty-two bit address space, and a copy into it wraps around at the end.
A sparse array has a value only where something was written.
-/

namespace Cosec.Lib.ByteArrays

open Lib.Word32 List

universe u

variable {Value : Type u}

/-! ## Copies into memory -/

/-- Memory after a copy of some values to consecutive addresses. -/
def copyIn (memory : Nat → Value) (dest : Nat) (values : List Value) : Nat → Value := fun addr =>
    match values[sub32 addr dest]? with
    | some value => value
    | none => memory addr

variable {values : List Value}

theorem copyIn_inside
    {memory : Nat → Value} {dest offset : Nat} (fits : dest + values.length ≤ 4294967296)
    (inside : offset < values.length) :
    copyIn memory dest values (dest + offset) = values[offset] := by
  have distance : sub32 (dest + offset) dest = offset := by
    unfold sub32
    omega
  simp [copyIn, distance, inside]

theorem copyIn_outside
    {memory : Nat → Value} {dest addr : Nat} (fits : dest + values.length ≤ 4294967296)
    (address : addr < 4294967296) (outside : addr < dest ∨ dest + values.length ≤ addr) :
    copyIn memory dest values addr = memory addr := by
  have beyond : values.length ≤ sub32 addr dest := by
    unfold sub32
    omega
  simp [copyIn, beyond]

/-- The value last written at each offset. -/
abbrev SparseArray (Value : Type u) := Nat → Option Value

def SparseArray.empty : SparseArray Value := fun _ => none

/-- A sparse array after a write at consecutive offsets. -/
def SparseArray.write (array : SparseArray Value) (pos : Nat) (values : List Value) :
    SparseArray Value :=
  fun offset =>
    if pos ≤ offset ∧ offset < pos + values.length then
      values[offset - pos]?
    else array offset

theorem SparseArray.write_inside
    {array : SparseArray Value} {pos offset : Nat} (lower : pos ≤ offset)
    (upper : offset < pos + values.length) :
    array.write pos values offset = values[offset - pos]? :=
  if_pos ⟨lower, upper⟩

theorem SparseArray.write_outside {array : SparseArray Value} {pos offset : Nat}
    (outside : offset < pos ∨ pos + values.length ≤ offset) :
    array.write pos values offset = array offset :=
  if_neg (by omega)

@[simp]
theorem SparseArray.write_nil (array : SparseArray Value) (pos : Nat) :
    array.write pos [] = array := by
  funext offset
  apply SparseArray.write_outside
  simp only [length_nil]
  omega

/-- A write in two parts. -/
theorem SparseArray.write_append (array : SparseArray Value) (pos : Nat) (front back : List Value) :
    (array.write pos front).write (pos + front.length) back = array.write pos (front ++ back) := by
  funext offset
  have length : (front ++ back).length = front.length + back.length := length_append
  rcases Nat.lt_or_ge offset pos with before | behind
  · rw [write_outside (Or.inl (by omega)), write_outside (Or.inl before),
      write_outside (Or.inl before)]
  · rcases Nat.lt_or_ge offset (pos + front.length) with inFront | inBack
    · rw [write_outside (Or.inl inFront), write_inside behind inFront,
        write_inside behind (by omega), getElem?_append_left (by omega)]
    · rcases Nat.lt_or_ge offset (pos + front.length + back.length) with
        within | beyond
      · rw [write_inside inBack within, write_inside behind (by omega),
          getElem?_append_right (by omega)]
        congr 1
        omega
      · rw [write_outside (Or.inr beyond), write_outside (Or.inr inBack),
          write_outside (Or.inr (by omega))]

end Cosec.Lib.ByteArrays
