import Mathlib.Algebra.BigOperators.Group.List.Basic
import Mathlib.Data.Nat.ModEq

/-!
# One's complement sums

In one's complement the carry out of the top of a word comes back in at its
bottom.  Words are the numbers up to `top`, the word of all ones, so a carry
is worth `top + 1` and counts as one: sums are taken modulo `top`.  Zero has
two words, `0` and `top`, and a sum is `0` only when all its parts are;
`residue` picks the word of a total accordingly.
-/

namespace Cosec.Lib.OnesComplement

open List

variable {top : Nat}

/-- The sum of two words, with the carry brought round. -/
def addAround (top left right : Nat) : Nat :=
  (left + right) % (top + 1) + (left + right) / (top + 1)

/-- The word that a total comes to. -/
def residue (top total : Nat) : Nat := if total = 0 then 0 else (total - 1) % top + 1

@[simp]
theorem residue_zero : residue top 0 = 0 := if_pos rfl

variable {total : Nat}

theorem residue_of_pos (positive : 0 < total) : residue top total = (total - 1) % top + 1 :=
  if_neg (Nat.pos_iff_ne_zero.mp positive)

/-- A total that is a word comes to itself. -/
theorem residue_of_le (word : total ≤ top) : residue top total = total := by
  rcases Nat.eq_zero_or_pos total with rfl | positive
  · exact residue_zero
  · rw [residue_of_pos positive, Nat.mod_eq_of_lt (by omega)]
    omega

theorem residue_le (positive : 0 < top) (total : Nat) : residue top total ≤ top := by
  unfold residue
  split
  · exact Nat.zero_le _
  · exact Nat.mod_lt _ positive

theorem residue_eq_zero_iff : residue top total = 0 ↔ total = 0 := by
  unfold residue
  split <;> omega

/-- A total and its word agree modulo the word of all ones. -/
theorem residue_modEq (total : Nat) : residue top total ≡ total [MOD top] := by
  rcases Nat.eq_zero_or_pos total with rfl | positive
  · rw [residue_zero]
  · rw [residue_of_pos positive]
    have shifted := (Nat.mod_modEq (total - 1) top).add_right 1
    rwa [Nat.sub_add_cancel positive] at shifted

/-- The word of a total is determined by these three properties. -/
theorem residue_unique {word total : Nat} (bounded : word ≤ top) (same : word ≡ total [MOD top])
    (zero : word = 0 ↔ total = 0) : word = residue top total := by
  rcases Nat.eq_zero_or_pos total with rfl | positive
  · rw [residue_zero]
    exact zero.mpr rfl
  · have wordPositive : 0 < word := by omega
    have lowered : word - 1 ≡ total - 1 [MOD top] := by
      apply Nat.ModEq.add_right_cancel' 1
      rwa [Nat.sub_add_cancel wordPositive, Nat.sub_add_cancel positive]
    rw [residue_of_pos positive, ← lowered, Nat.mod_eq_of_lt (by omega)]
    omega

/-- A carry may be brought round at any time. -/
theorem residue_residue_add (positive : 0 < top) (left right : Nat) :
    residue top (residue top left + right) = residue top (left + right) := by
  apply residue_unique (residue_le positive _)
  · exact (residue_modEq _).trans ((residue_modEq left).add_right right)
  · rw [residue_eq_zero_iff, Nat.add_eq_zero_iff, residue_eq_zero_iff, Nat.add_eq_zero_iff]

theorem residue_add_residue (positive : 0 < top) (left right : Nat) :
    residue top (left + residue top right) = residue top (left + right) := by
  rw [add_comm, residue_residue_add positive, add_comm]

/-- Two words have one carry at most. -/
theorem addAround_eq_residue {left right : Nat} (leftWord : left ≤ top) (rightWord : right ≤ top) :
    addAround top left right = residue top (left + right) := by
  unfold addAround
  rcases lt_or_ge (left + right) (top + 1) with small | large
  · rw [Nat.mod_eq_of_lt small, Nat.div_eq_of_lt small, residue_of_le (by omega)]
    rfl
  · have carry : (left + right) / (top + 1) = 1 := Nat.div_eq_of_lt_le (by omega) (by omega)
    have rest : (left + right) % (top + 1) = left + right - (top + 1) := by
      rw [Nat.mod_eq_sub_mod large, Nat.mod_eq_of_lt (by omega)]
    rw [carry, rest, residue_of_pos (by omega), Nat.mod_eq_sub_mod (by omega)]
    rcases lt_or_ge (left + right - 1 - top) top with inside | outside
    · rw [Nat.mod_eq_of_lt inside]
      omega
    · omega

/-- Adding words one after the other brings all carries round. -/
theorem foldl_addAround
    (positive : 0 < top) {start : Nat} (startWord : start ≤ top) {words : List Nat}
    (bounded : ∀ word ∈ words, word ≤ top) :
    words.foldl (addAround top) start = residue top (start + words.sum) := by
  induction words generalizing start with
  | nil => rw [foldl_nil, sum_nil, add_zero, residue_of_le startWord]
  | cons word words ih =>
    obtain ⟨first, rest⟩ := forall_mem_cons.mp bounded
    rw [foldl_cons, addAround_eq_residue startWord first, ih (residue_le positive _) rest,
      residue_residue_add positive, sum_cons, add_assoc]

end Cosec.Lib.OnesComplement
