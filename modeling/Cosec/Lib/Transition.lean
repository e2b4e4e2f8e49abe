import Mathlib.Init

/-!
# Guarded transition systems

A system says where its runs begin and what one action may do to a state.
`System.Reached` collects the states met by the runs all of whose actions
satisfy a guard, so that one rule, `System.Reached.invariant`, turns a
one-step argument into a statement about every state of every such run.  The
guard `fun _ _ => True` gives the unrestricted runs.
-/

namespace Cosec.Lib.Transition

universe u v

/-- Where runs begin, and which states one action may lead to. -/
structure System (State : Type u) (Action : Type v) where
  start : State → Prop
  step : State → Action → State → Prop

variable {State : Type u} {Action : Type v}

/-- The states met by runs whose every action satisfies `allowed`. -/
inductive System.Reached
    (system : System State Action) (allowed : State → Action → Prop) : State → Prop
  | start {state : State} (initial : system.start state) : System.Reached system allowed state
  | step {source target : State} {action : Action}
      (earlier : System.Reached system allowed source)
      (permitted : allowed source action)
      (taken : system.step source action target) :
      System.Reached system allowed target

/-- The guard that lets every action through. -/
def unrestricted (_ : State) (_ : Action) : Prop := True

/--
A property of the initial states which every permitted action preserves
holds in every state that a guarded run meets.
-/
theorem System.Reached.invariant
    {system : System State Action} {allowed : State → Action → Prop} {property : State → Prop}
    (initially : ∀ state, system.start state → property state)
    (preserved :
      ∀ source action target, property source → allowed source action →
        system.step source action target → property target)
    {state : State} (reached : system.Reached allowed state) : property state := by
  induction reached with
  | start initial => exact initially _ initial
  | step earlier permitted taken ih =>
    exact preserved _ _ _ ih permitted taken

/-- The state after the actions of a list, if all of them can be performed. -/
def performAll (perform : State → Action → Option State) : State → List Action → Option State
  | state, [] => some state
  | state, action :: actions =>
    (perform state action).bind fun later => performAll perform later actions

/-- A list of permitted actions leads from states of runs to such states. -/
theorem System.Reached.performAll {system : System State Action} {allowed : State → Action → Prop}
    {perform : State → Action → Option State}
    (possible :
      ∀ source action target, perform source action = some target →
        allowed source action ∧ system.step source action target)
    {source target : State} {actions : List Action} (reached : system.Reached allowed source)
    (returned : performAll perform source actions = some target) :
    system.Reached allowed target := by
  induction actions generalizing source with
  | nil =>
    cases returned
    exact reached
  | cons action actions ih =>
    obtain ⟨later, first, rest⟩ := Option.bind_eq_some_iff.mp returned
    obtain ⟨permitted, taken⟩ := possible _ _ _ first
    exact ih (reached.step permitted taken) rest

theorem exists_of_any {result : Option State} {fact : State → Prop} [DecidablePred fact]
    (computed : (result.any fun state => fact state) = true) :
    ∃ state, result = some state ∧ fact state := by
  obtain ⟨state, returned, holds⟩ := (Option.any_eq_true _ _).mp computed
  exact ⟨state, returned, of_decide_eq_true holds⟩

end Cosec.Lib.Transition
