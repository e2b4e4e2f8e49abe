import Mathlib.Init

/-!
# Thirty-two bit machine words

Machine words are natural numbers below `2 ^ 32`.  Unsigned arithmetic is
arithmetic on the naturals followed by `wrap32`; `asInt32` reads a word the
way a cast to a signed integer does.
-/

namespace Cosec.Lib.Word32

/-- Reduction of an unsigned result to thirty-two bits. -/
def wrap32 (value : Nat) : Nat := value % 4294967296

theorem wrap32_of_lt {value : Nat} (small : value < 4294967296) : wrap32 value = value :=
  Nat.mod_eq_of_lt small

/-- Unsigned subtraction of two words. -/
def sub32 (left right : Nat) : Nat := (left + 4294967296 - right) % 4294967296

theorem sub32_of_le {left right : Nat} (ordered : right ≤ left) (small : left < 4294967296) :
    sub32 left right = left - right := by
  unfold sub32
  omega

/-- The signed reading of a word. -/
def asInt32 (word : Nat) : Int :=
  if word < 2147483648 then (word : Int) else (word : Int) - 4294967296

theorem asInt32_of_lt {word : Nat} (small : word < 2147483648) : asInt32 word = (word : Int) :=
  if_pos small

/-- A sum below the sign bit is the same signed integer. -/
theorem asInt32_wrap32_of_lt {value : Nat} (positive : value < 2147483648) :
    asInt32 (wrap32 value) = (value : Int) := by
  rw [wrap32_of_lt (by omega), asInt32_of_lt positive]

end Cosec.Lib.Word32
