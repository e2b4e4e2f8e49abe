import Mathlib.Data.Finset.Card
import Mathlib.Logic.Function.Basic

/-!
# Exclusive holdings

A supply answers numbered requests, each with a resource or with nothing, and
never gives one resource twice.  The holdings of a system say which resource
each of its places holds.  They are exclusive when everything held was given
out and no resource is held in two places; a place that takes what the supply
gives next keeps them so.
-/

namespace Cosec.Lib.Holdings

open Function

universe u v

/-- The answers to the requests `0`, `1`, ... -/
structure Supply (Resource : Type u) where
  answer : Nat → Option Resource
  distinct :
    ∀ {first second : Nat} {resource : Resource}, answer first = some resource →
      answer second = some resource → first = second

variable {Resource : Type u} {Place : Type v}

/-- The resource was the answer to one of the first `given` requests. -/
def Supply.Given (supply : Supply Resource) (given : Nat) (resource : Resource) : Prop :=
  ∃ request, request < given ∧ supply.answer request = some resource

/-- Everything held was given out, and to one place only. -/
structure Exclusive
    (supply : Supply Resource) (given : Nat) (holdings : Place → Option Resource) : Prop where
  given :
    ∀ {place : Place} {resource : Resource},
      holdings place = some resource → supply.Given given resource
  single :
    ∀ {first second : Place} {resource : Resource}, holdings first = some resource →
      holdings second = some resource → first = second

variable {supply : Supply Resource} {given : Nat} {holdings : Place → Option Resource}
  {resource : Resource}

theorem Supply.Given.later (earlier : supply.Given given resource) :
    supply.Given (given + 1) resource := by
  obtain ⟨request, before, answered⟩ := earlier
  exact ⟨request, Nat.lt_succ_of_lt before, answered⟩

/-- The next answer is none of the resources given before. -/
theorem Supply.Given.ne_next {next : Resource} (earlier : supply.Given given resource)
    (answered : supply.answer given = some next) : resource ≠ next := by
  rintro rfl
  obtain ⟨request, before, sameAnswer⟩ := earlier
  exact absurd (supply.distinct sameAnswer answered) (Nat.ne_of_lt before)

theorem exclusive_empty : Exclusive supply given (fun _ : Place => none) where
  given := by
    intro place resource held
    cases held
  single := by
    intro first second resource held
    cases held

variable {place : Place}

section

variable {next : Resource} (exclusive : Exclusive supply given holdings)
  (answered : supply.answer given = some next)

include exclusive answered

/-- What the supply gives next is held nowhere. -/
theorem Exclusive.ne_next : holdings place ≠ some next := by
  intro held
  exact (exclusive.given held).ne_next answered rfl

theorem Exclusive.take [DecidableEq Place] (place : Place) :
    Exclusive supply (given + 1) (update holdings place (some next)) where
  given := by
    intro other resource held
    by_cases same : other = place
    · rw [same, update_self, Option.some.injEq] at held
      exact ⟨given, Nat.lt_succ_self given, held ▸ answered⟩
    · rw [update_of_ne same] at held
      exact (exclusive.given held).later
  single := by
    intro first second resource firstHeld secondHeld
    by_cases firstSame : first = place
    · by_cases secondSame : second = place
      · rw [firstSame, secondSame]
      · rw [firstSame, update_self] at firstHeld
        rw [update_of_ne secondSame, ← firstHeld] at secondHeld
        exact absurd secondHeld (exclusive.ne_next answered)
    · rw [update_of_ne firstSame] at firstHeld
      by_cases secondSame : second = place
      · rw [secondSame, update_self] at secondHeld
        rw [← secondHeld] at firstHeld
        exact absurd firstHeld (exclusive.ne_next answered)
      · rw [update_of_ne secondSame] at secondHeld
        exact exclusive.single firstHeld secondHeld

end

/-! ## How many places hold something -/

/-- The number of the given places that hold a resource. -/
def heldCount (holdings : Place → Option Resource) (places : Finset Place) : Nat :=
  (places.filter fun place => (holdings place).isSome).card

/-- A place that was empty takes a resource. -/
theorem heldCount_take [DecidableEq Place] {places : Finset Place} (member : place ∈ places)
    (empty : holdings place = none) :
    heldCount (update holdings place (some resource)) places = heldCount holdings places + 1 := by
  have added : (places.filter fun other =>
          (update holdings place (some resource) other).isSome) =
        insert place (places.filter fun other => (holdings other).isSome) := by
    ext other
    by_cases same : other = place
    · subst same
      simp [member]
    · simp [same]
  unfold heldCount
  rw [added, Finset.card_insert_of_notMem]
  simp [empty]

theorem heldCount_take_of_notMem
    [DecidableEq Place] {places : Finset Place} (outside : place ∉ places) :
    heldCount (update holdings place (some resource)) places = heldCount holdings places := by
  unfold heldCount
  congr 1
  ext other
  simp only [Finset.mem_filter, and_congr_right_iff]
  intro member
  have different : other ≠ place := by
    rintro rfl
    exact outside member
  rw [update_of_ne different]

end Cosec.Lib.Holdings
