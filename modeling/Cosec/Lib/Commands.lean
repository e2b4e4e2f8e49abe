import Mathlib.Tactic.MkIffOfInductiveProp

/-!
# Commands

A command runs in a state and returns a value, returns an error, or does
something the language does not define.  An error keeps the state in which it
was raised.

`Ensures` is the rule of postconditions, for both kinds of return.  Each
building block has one rule, an equivalence, so that postconditions are
computed by rewriting, and the specification of a called command enters
through `Ensures.mono`.  `Returns` runs a command forward, one rule for each
building block, and `Fails` says that it ends in some error.
-/

namespace Cosec.Lib.Commands

universe u

/-- A stateful computation; `none` is undefined behaviour. -/
def Command (State Error Value : Type u) : Type u := State → Option (Except Error Value × State)

variable {State Error Value Result : Type u}

namespace Command

/-- Sequencing: an error or undefined behaviour ends the command. -/
def andThen (command : Command State Error Value) (next : Value → Command State Error Result) :
    Command State Error Result :=
  fun state =>
    match command state with
    | none => none
    | some (.error error, changed) => some (.error error, changed)
    | some (.ok value, changed) => next value changed

instance : Monad (Command State Error) where
  pure value := fun state => some (.ok value, state)
  bind := andThen

/-! ## Building blocks -/

def fail (error : Error) : Command State Error Value := fun state => some (.error error, state)

def undefined : Command State Error Value := fun _ => none

/-- A value read off the state. -/
def query (read : State → Value) : Command State Error Value :=
  fun state => some (.ok (read state), state)

/-- A function of the state that may fail or be undefined. -/
def consult (answer : State → Option (Except Error Value)) : Command State Error Value :=
  fun state => (answer state).map fun outcome => (outcome, state)

/-- A value that has to be there, such as the target of a pointer. -/
def demand (read : State → Option Value) : Command State Error Value :=
  consult fun state => (read state).map .ok

def update (change : State → State) : Command State Error PUnit :=
  fun state => some (.ok ⟨⟩, change state)

def failIf (condition : Prop) [Decidable condition] (error : Error) : Command State Error PUnit :=
  if condition then fail error else pure ⟨⟩

/-- An error is handled by another command. -/
def handle (command : Command State Error Value) (handler : Error → Command State Error Value) :
    Command State Error Value :=
  fun state =>
    match command state with
    | some (.error error, changed) => handler error changed
    | other => other

/-- An error is returned as a value. -/
def attempt (command : Command State Error Value) : Command State Error (Except Error Value) :=
  fun state => (command state).map fun outcome => (.ok outcome.1, outcome.2)

/-- A command on a part of the state. -/
def within {Part : Type u} (part : State → Part) (replace : State → Part → State)
    (command : Command Part Error Value) : Command State Error Value :=
  fun state => (command (part state)).map fun outcome => (outcome.1, replace state outcome.2)

end Command

open Command

/-! ## Running forward -/

/-- The command returns, with this outcome and in this state. -/
structure Returns
    (command : Command State Error Value) (state : State)
    (outcome : Except Error Value) (changed : State) : Prop where
  run : command state = some (outcome, changed)

variable {answer : State → Option (Except Error Value)} {condition : Prop} {state changed : State}
  {value : Value} {error : Error}

namespace Returns

variable {final : State}

theorem pure : Returns (Pure.pure value : Command State Error Value) state (.ok value) state :=
  ⟨rfl⟩

variable {command : Command State Error Value} {next : Value → Command State Error Result}

/-- A command goes on from the state in which its first part returns. -/
theorem run_bind (first : Returns command state (.ok value) changed) :
    (command >>= next) state = next value changed := by
  change andThen command next state = _
  simp only [andThen, first.run]

theorem bind {outcome : Except Error Result} (first : Returns command state (.ok value) changed)
    (rest : Returns (next value) changed outcome final) :
    Returns (command >>= next) state outcome final :=
  ⟨first.run_bind.trans rest.run⟩

theorem bind_error (first : Returns command state (.error error) changed) :
    Returns (command >>= next) state (.error error) changed := by
  constructor
  change andThen command next state = _
  simp only [andThen, first.run]

theorem fail :
    Returns (Command.fail error : Command State Error Value) state (.error error) state :=
  ⟨rfl⟩

theorem query {read : State → Value} :
    Returns (Command.query read : Command State Error Value) state (.ok (read state)) state :=
  ⟨rfl⟩

variable {outcome : Except Error Value}

theorem consult (answered : answer state = some outcome) :
    Returns (Command.consult answer) state outcome state := by
  constructor
  simp only [Command.consult, answered, Option.map_some]

theorem demand {read : State → Option Value} (present : read state = some value) :
    Returns (Command.demand read : Command State Error Value) state (.ok value) state := by
  apply consult
  simp only [present, Option.map_some]

theorem update {change : State → State} :
    Returns (Command.update change : Command State Error PUnit) state (.ok ⟨⟩) (change state) :=
  ⟨rfl⟩

theorem failIf [Decidable condition] (fails : ¬ condition) :
    Returns (Command.failIf condition error) state (.ok ⟨⟩) state := by
  constructor
  rw [Command.failIf, if_neg fails]
  rfl

theorem failIf_error [Decidable condition] (holds : condition) :
    Returns (Command.failIf condition error) state (.error error) state := by
  constructor
  rw [Command.failIf, if_pos holds]
  rfl

theorem handle {handler : Error → Command State Error Value}
    (first : Returns command state (.ok value) changed) :
    Returns (Command.handle command handler) state (.ok value) changed := by
  constructor
  simp only [Command.handle, first.run]

theorem handle_error {handler : Error → Command State Error Value}
    (first : Returns command state (.error error) changed)
    (rest : Returns (handler error) changed outcome final) :
    Returns (Command.handle command handler) state outcome final := by
  constructor
  simp only [Command.handle, first.run, rest.run]

theorem attempt (first : Returns command state outcome changed) :
    Returns (Command.attempt command) state (.ok outcome) changed := by
  constructor
  simp only [Command.attempt, first.run, Option.map_some]

end Returns

/-- The command returns this error. -/
def FailsWith (error : Error) (command : Command State Error Value) (state : State) : Prop :=
  ∃ changed, Returns command state (.error error) changed

/-- The command returns an error. -/
def Fails (command : Command State Error Value) (state : State) : Prop :=
  ∃ error changed, Returns command state (.error error) changed

variable {command : Command State Error Value} {next : Value → Command State Error Result}

namespace Fails

theorem consult (answered : answer state = some (.error error)) :
    Fails (Command.consult answer) state :=
  ⟨error, state, .consult answered⟩

theorem failIf [Decidable condition] (holds : condition) :
    Fails (Command.failIf condition error) state :=
  ⟨error, state, .failIf_error holds⟩

theorem bind_error (first : Fails command state) : Fails (command >>= next) state := by
  obtain ⟨error, changed, returned⟩ := first
  exact ⟨error, changed, .bind_error returned⟩

theorem bind (first : Returns command state (.ok value) changed) (rest : Fails (next value) changed) :
    Fails (command >>= next) state := by
  obtain ⟨error, final, returned⟩ := rest
  exact ⟨error, final, .bind first returned⟩

end Fails

namespace FailsWith

theorem fails (failed : FailsWith error command state) : Fails command state := ⟨error, failed⟩

theorem failIf [Decidable condition] (holds : condition) :
    FailsWith error (Command.failIf condition error) state :=
  ⟨state, .failIf_error holds⟩

theorem bind_error (first : FailsWith error command state) :
    FailsWith error (command >>= next) state := by
  obtain ⟨changed, returned⟩ := first
  exact ⟨changed, .bind_error returned⟩

theorem bind (first : Returns command state (.ok value) changed)
    (rest : FailsWith error (next value) changed) : FailsWith error (command >>= next) state := by
  obtain ⟨final, returned⟩ := rest
  exact ⟨final, .bind first returned⟩

end FailsWith

/-! ## Postconditions -/

/-- Every return of the command, value or error, meets the postcondition. -/
@[mk_iff]
structure Ensures
    (command : Command State Error Value) (state : State)
    (post : Except Error Value → State → Prop) : Prop where
  returns : ∀ outcome changed, command state = some (outcome, changed) → post outcome changed

variable {post : Except Error Value → State → Prop}

theorem Ensures.mono
    {weaker : Except Error Value → State → Prop} (ensured : Ensures command state post)
    (implied : ∀ outcome changed, post outcome changed → weaker outcome changed) :
    Ensures command state weaker where
  returns := fun outcome changed returned =>
    implied outcome changed (ensured.returns outcome changed returned)

/-- A weaker postcondition, one case for each kind of return. -/
theorem Ensures.cases
    {weaker : Except Error Value → State → Prop} (ensured : Ensures command state post)
    (error : ∀ error changed, post (.error error) changed → weaker (.error error) changed)
    (ok : ∀ value changed, post (.ok value) changed → weaker (.ok value) changed) :
    Ensures command state weaker := by
  refine ensured.mono fun outcome changed returned => ?_
  cases outcome with
  | error cause => exact error cause changed returned
  | ok value => exact ok value changed returned

/-- What the rest of a sequence has to ensure after its first command. -/
def Continues
    (next : Value → Command State Error Result) (post : Except Error Result → State → Prop) :
    Except Error Value → State → Prop
  | .ok value, changed => Ensures (next value) changed post
  | .error error, changed => post (.error error) changed

@[simp]
theorem continues_ok {post : Except Error Result → State → Prop} :
    Continues next post (.ok value) state ↔ Ensures (next value) state post :=
  Iff.rfl

@[simp]
theorem continues_error {post : Except Error Result → State → Prop} :
    Continues next post (.error error) state ↔ post (.error error) state :=
  Iff.rfl

theorem ensures_of_eq {outcome : Except Error Value}
    (returned : command state = some (outcome, changed)) :
    Ensures command state post ↔ post outcome changed := by
  simp [ensures_iff, returned]

@[simp]
theorem ensures_pure : Ensures (pure value) state post ↔ post (.ok value) state :=
  ensures_of_eq rfl

@[simp]
theorem ensures_bind {post : Except Error Result → State → Prop} :
    Ensures (command >>= next) state post ↔ Ensures command state (Continues next post) := by
  change Ensures (andThen command next) state post ↔ _
  simp only [ensures_iff, andThen]
  cases command state with
  | none => simp
  | some returned =>
    obtain ⟨outcome, changed⟩ := returned
    cases outcome with
    | ok value => simp [Continues, ensures_iff]
    | error error => simp [Continues]

/-- A sequence, from what its first command ensures. -/
theorem Ensures.bind {later : Except Error Result → State → Prop}
    (ensured : Ensures command state post)
    (error : ∀ error changed, post (.error error) changed → later (.error error) changed)
    (ok : ∀ value changed, post (.ok value) changed → Ensures (next value) changed later) :
    Ensures (command >>= next) state later :=
  ensures_bind.mpr (ensured.cases error ok)

@[simp]
theorem ensures_fail : Ensures (fail error) state post ↔ post (.error error) state :=
  ensures_of_eq rfl

@[simp]
theorem ensures_undefined : Ensures undefined state post ↔ True := by simp [ensures_iff, undefined]

@[simp]
theorem ensures_query {read : State → Value} :
    Ensures (query read) state post ↔ post (.ok (read state)) state :=
  ensures_of_eq rfl

@[simp]
theorem ensures_consult :
    Ensures (consult answer) state post ↔
      ∀ outcome, answer state = some outcome → post outcome state := by
  simp only [ensures_iff, consult]
  cases answer state with
  | none => simp
  | some outcome => simp

/-- A sequence that begins with a function of the state. -/
theorem Ensures.consult {later : Except Error Result → State → Prop}
    (error : ∀ error, answer state = some (.error error) → later (.error error) state)
    (ok : ∀ value, answer state = some (.ok value) → Ensures (next value) state later) :
    Ensures (Command.consult answer >>= next) state later := by
  rw [ensures_bind, ensures_consult]
  intro outcome answered
  cases outcome with
  | error cause => exact error cause answered
  | ok value => exact ok value answered

@[simp]
theorem ensures_demand {read : State → Option Value} :
    Ensures (demand read) state post ↔
      ∀ value, read state = some value → post (.ok value) state := by
  unfold demand
  rw [ensures_consult]
  cases read state with
  | none => simp
  | some value => simp

@[simp]
theorem ensures_update {post : Except Error PUnit → State → Prop} {change : State → State} :
    Ensures (update change) state post ↔ post (.ok ⟨⟩) (change state) :=
  ensures_of_eq rfl

@[simp]
theorem ensures_failIf {post : Except Error PUnit → State → Prop} [Decidable condition] :
    Ensures (failIf condition error) state post ↔
      (condition → post (.error error) state) ∧ (¬ condition → post (.ok ⟨⟩) state) := by
  unfold failIf
  split
  · rename_i holds
    simp [holds]
  · rename_i fails
    simp [fails]

@[simp]
theorem ensures_ite [Decidable condition] {yes no : Command State Error Value} :
    Ensures (if condition then yes else no) state post ↔
      (condition → Ensures yes state post) ∧ (¬ condition → Ensures no state post) := by
  split
  · rename_i holds
    simp [holds]
  · rename_i fails
    simp [fails]

/-- What an error handler has to ensure. -/
def Recovers
    (handler : Error → Command State Error Value) (post : Except Error Value → State → Prop) :
    Except Error Value → State → Prop
  | .ok value, changed => post (.ok value) changed
  | .error error, changed => Ensures (handler error) changed post

variable {handler : Error → Command State Error Value}

@[simp]
theorem recovers_ok : Recovers handler post (.ok value) state ↔ post (.ok value) state :=
  Iff.rfl

@[simp]
theorem recovers_error :
    Recovers handler post (.error error) state ↔ Ensures (handler error) state post :=
  Iff.rfl

@[simp]
theorem ensures_handle :
    Ensures (handle command handler) state post ↔
      Ensures command state (Recovers handler post) := by
  simp only [ensures_iff, handle]
  cases command state with
  | none => simp
  | some returned =>
    obtain ⟨outcome, changed⟩ := returned
    cases outcome with
    | ok value => simp [Recovers]
    | error error => simp [Recovers, ensures_iff]

@[simp]
theorem ensures_attempt {post : Except Error (Except Error Value) → State → Prop} :
    Ensures (attempt command) state post ↔
      Ensures command state (fun outcome changed => post (.ok outcome) changed) := by
  simp only [ensures_iff, attempt]
  cases command state with
  | none => simp
  | some returned =>
    obtain ⟨outcome, changed⟩ := returned
    simp

@[simp]
theorem ensures_within {Part : Type u} {part : State → Part} {replace : State → Part → State}
    {command : Command Part Error Value} :
    Ensures (within part replace command) state post ↔
      Ensures command (part state)
        (fun outcome changed => post outcome (replace state changed)) := by
  simp only [ensures_iff, within]
  cases command (part state) with
  | none => simp
  | some returned =>
    obtain ⟨outcome, changed⟩ := returned
    simp

end Cosec.Lib.Commands
