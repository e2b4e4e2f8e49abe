import Mathlib.Logic.Function.Basic

/-!
# Dependence on a part of an input

An input is a stream of values, of which only the first few belong to a
message.  An observation of the stream is determined by a limit when it does
not change with the values at or behind the limit.
-/

namespace Cosec.Lib.Prefixes

universe u v

variable {Value : Type u} {Result : Type v} {stream other : Nat → Value} {limit : Nat}

/-- Two streams with the same first values. -/
def AgreeBelow (limit : Nat) (stream other : Nat → Value) : Prop :=
  ∀ index < limit, other index = stream index

/-- The observation does not depend on values at or behind the limit. -/
def Determined (observe : (Nat → Value) → Result) (stream : Nat → Value) (limit : Nat) : Prop :=
  ∀ other, AgreeBelow limit stream other → observe other = observe stream

theorem agreeBelow_refl (limit : Nat) (stream : Nat → Value) : AgreeBelow limit stream stream :=
  fun _ _ => rfl

/-- A value may be replaced that lies behind the limit, or is the same. -/
theorem AgreeBelow.fix (agree : AgreeBelow limit stream other) {index : Nat} {value : Value}
    (same : index < limit → stream index = value) :
    AgreeBelow limit stream (Function.update other index value) := by
  intro position below
  by_cases here : position = index
  · subst here
    rw [Function.update_self, same below]
  · rw [Function.update_of_ne here]
    exact agree position below

theorem AgreeBelow.set
    (agree : AgreeBelow limit stream other) {index : Nat} (behind : limit ≤ index) (value : Value) :
    AgreeBelow limit stream (Function.update other index value) :=
  agree.fix fun below => absurd below (Nat.not_lt.mpr behind)

/-- Two completions are not told apart. -/
theorem Determined.same {observe : (Nat → Value) → Result} {first second : Nat → Value}
    (determined : Determined observe stream limit) (firstAgrees : AgreeBelow limit stream first)
    (secondAgrees : AgreeBelow limit stream second) : observe first = observe second := by
  rw [determined first firstAgrees, determined second secondAgrees]

end Cosec.Lib.Prefixes
