import Mathlib.Logic.Function.Basic

/-!
# Memory of words

Memory holds a word at every address, and consecutive words are four apart.
Lists of words are stored upwards from a base address.  Code that uses the
stack below some address may leave anything there and nothing elsewhere,
which `AgreeFrom` says.
-/

namespace Cosec.Lib.WordMemory

open Function

universe u

variable {Word : Type u} {memory later scratch : Int → Word} {base limit address : Int}
  {values : List Word} {index : Nat}

/-- The word of an index, counted from a base address. -/
def word (memory : Int → Word) (base : Int) (index : Nat) : Word := memory (base + 4 * index)

/-- Memory after words have been stored from a base address on. -/
def store (memory : Int → Word) (base : Int) : List Word → Int → Word
  | [] => memory
  | value :: values => store (update memory base value) (base + 4) values

/-- Memory after everything below a limit may have been overwritten. -/
def scribble (memory scratch : Int → Word) (limit : Int) : Int → Word :=
  fun address => if address < limit then scratch address else memory address

/-- Two memories hold the same words from a limit on. -/
def AgreeFrom (limit : Int) (later memory : Int → Word) : Prop :=
  ∀ address, limit ≤ address → later address = memory address

/-! ## Stores -/

theorem store_outside (outside : address < base ∨ base + 4 * values.length ≤ address) :
    store memory base values address = memory address := by
  induction values generalizing memory base with
  | nil => rfl
  | cons value values ih =>
    rw [List.length_cons] at outside
    rw [store, ih (by omega)]
    apply update_of_ne
    omega

theorem word_zero : word memory base 0 = memory base := by
  show memory (base + 4 * (0 : Int)) = memory base
  rw [Int.mul_zero, Int.add_zero]

theorem word_succ : word memory base (index + 1) = word memory (base + 4) index := by
  have shifted : base + 4 * ((index + 1 : Nat) : Int) = base + 4 + 4 * (index : Int) := by omega
  show memory (base + 4 * ((index + 1 : Nat) : Int)) = _
  rw [shifted]
  rfl

theorem word_store :
    word (store memory base values) base index = values.getD index (word memory base index) := by
  induction values generalizing memory base index with
  | nil => rfl
  | cons value values ih =>
    rw [store]
    cases index with
    | zero =>
      rw [word_zero, store_outside (by omega), update_self]
      rfl
    | succ index =>
      rw [word_succ, ih, List.getD_cons_succ, word_succ]
      congr 1
      apply update_of_ne
      omega

theorem AgreeFrom.mono
    {higher : Int} (agree : AgreeFrom limit later memory) (ordered : limit ≤ higher) :
    AgreeFrom higher later memory :=
  fun address inside => agree address (Int.le_trans ordered inside)

theorem AgreeFrom.trans {earlier : Int → Word} (second : AgreeFrom limit later memory)
    (first : AgreeFrom limit memory earlier) : AgreeFrom limit later earlier :=
  fun address inside => (second address inside).trans (first address inside)

theorem agreeFrom_scribble : AgreeFrom limit (scribble memory scratch limit) memory :=
  fun _ inside => if_neg (Int.not_lt.mpr inside)

theorem agreeFrom_store (below : base + 4 * values.length ≤ limit) :
    AgreeFrom limit (store memory base values) memory := by
  intro address inside
  apply store_outside
  omega

end Cosec.Lib.WordMemory
