import Mathlib.Algebra.Group.Nat.Defs
import Mathlib.Algebra.GroupWithZero.Nat
import Mathlib.Algebra.Ring.Nat

/-!
# Bit fields as arithmetic

Masks select the low or the high bits of a number, and fields that do not
overlap are put together by a disjunction.  In terms of remainders, quotients
and sums such expressions can be compared by linear arithmetic.
-/

namespace Cosec.Lib.BitFields

/-- A mask of the bits from `low` up to `width` clears the bits below. -/
theorem and_mask_high {value width low : Nat} (ordered : low ≤ width) (fits : value < 2 ^ width) :
    value &&& (2 ^ width - 2 ^ low) = 2 ^ low * (value / 2 ^ low) := by
  have mask : 2 ^ width - 2 ^ low = (2 ^ (width - low) - 1) <<< low := by
    rw [Nat.shiftLeft_eq, Nat.sub_mul, ← pow_add, Nat.sub_add_cancel ordered, one_mul]
  rw [mask, mul_comm, ← Nat.shiftLeft_eq, ← Nat.shiftRight_eq_div_pow]
  apply Nat.eq_of_testBit_eq
  intro index
  by_cases above : low ≤ index
  · have same : low + (index - low) = index := by omega
    by_cases inside : index < width
    · have kept : index - low < width - low := by omega
      simp [above, kept, same]
    · have zero : value.testBit index = false :=
        Nat.testBit_lt_two_pow
          (lt_of_lt_of_le fits (Nat.pow_le_pow_right (by decide) (not_lt.mp inside)))
      simp [same, zero]
  · simp [above]

/-- A field above another one. -/
theorem or_field {low width : Nat} (fits : low < 2 ^ width) (high : Nat) :
    low ||| 2 ^ width * high = low + 2 ^ width * high := by
  rw [Nat.or_comm, ← Nat.two_pow_add_eq_or_of_lt fits, add_comm]

end Cosec.Lib.BitFields
