import Mathlib.Logic.Function.Basic
import Cosec.Lib.ForwardRing
import Cosec.Lib.Transition

/-!
# The ring of tasks

The tasks that may run are linked through their `next` fields.
`sched_add_task` puts a task behind the current one, and `the_scheduler`
walks the links for the next task that is ready.

As long as only tasks that are not linked yet are added, the scheduler takes
its ready tasks in turn.  `run_init` adds the same init task each time it
runs; the second time cuts the ring.
-/

namespace Cosec.Core.Scheduler

open Function Lib.ForwardRing Lib.Transition List

universe u

/-! ## Tasks -/

/-- `enum taskstate`. -/
inductive TaskState where
  | ready
  | blocked
  | stopped
  | exited
deriving DecidableEq

variable {Task : Type u} [DecidableEq Task]

/-- The fields `next` and `state` of the tasks, and `theCurrentTask`. -/
structure Tasks (Task : Type u) where
  next : Task → Option Task
  state : Task → TaskState
  current : Task

/-- `TS_READY`. -/
def Tasks.isReady (tasks : Tasks Task) (task : Task) : Bool := decide (tasks.state task = .ready)

/-- The loop of `the_scheduler`; without fuel it does not end. -/
def schedulerLoop (tasks : Tasks Task) : Nat → Option Task → Option (Option Task)
  | 0, _ => none
  | _ + 1, none => some none
  | fuel + 1, some task =>
    if task = tasks.current then some none
    else if tasks.isReady task then some (some task)
    else schedulerLoop tasks fuel (tasks.next task)

/-- `the_scheduler`: the inner `none` is the null task. -/
def theScheduler (tasks : Tasks Task) (fuel : Nat) : Option (Option Task) :=
  schedulerLoop tasks fuel (tasks.next tasks.current)

/-- `sched_add_task`. -/
def schedAddTask (tasks : Tasks Task) (task : Task) : Tasks Task :=
  let wasNext := tasks.next tasks.current
  { tasks with
    next := update (update tasks.next task wasNext) tasks.current (some task) }

/-- `task_timer_handler`, as far as the choice of the task goes. -/
def taskTimerHandler (tasks : Tasks Task) (fuel : Nat) : Option (Tasks Task) :=
  match theScheduler tasks fuel with
  | none => none
  | some none => some tasks
  | some (some task) => some { tasks with current := task }

/-- The assignment of a state to a task. -/
def Tasks.setState (tasks : Tasks Task) (task : Task) (state : TaskState) : Tasks Task :=
  { tasks with state := update tasks.state task state }

/--
What happens to the tasks.  `run_init` may give up before it has set up its
task.
-/
inductive Event where
  | tick
  | yield
  | exit
  | runInit (loaded : Bool)

/-- The tasks after an event; `none` when the scheduler does not return. -/
def Tasks.after (tasks : Tasks Task) (initTask : Task) (fuel : Nat) : Event → Option (Tasks Task)
  | .tick => taskTimerHandler tasks fuel
  | .yield => taskTimerHandler tasks fuel
  | .exit => taskTimerHandler (tasks.setState tasks.current .exited) fuel
  | .runInit false => some tasks
  | .runInit true => some (schedAddTask (tasks.setState initTask .ready) initTask)

/-- The tasks that run after each of a number of timer interrupts. -/
def ticks (fuel : Nat) : Nat → Tasks Task → Option (List Task)
  | 0, _ => some []
  | count + 1, tasks =>
    (taskTimerHandler tasks fuel).bind fun later =>
      (ticks fuel count later).map fun others => later.current :: others

variable {tasks : Tasks Task} {rest : List Task} {fuel : Nat}

theorem schedulerLoop_path
    {path : List Task} (follows : Follows tasks.next (path ++ [tasks.current]))
    (elsewhere : tasks.current ∉ path) (enough : path.length < fuel) :
    schedulerLoop tasks fuel (path ++ [tasks.current]).head? = some (path.find? tasks.isReady) := by
  induction path generalizing fuel with
  | nil =>
    cases fuel with
    | zero => exact absurd enough (Nat.not_lt_zero _)
    | succ fuel =>
      show schedulerLoop tasks (fuel + 1) (some tasks.current) = _
      rw [schedulerLoop, if_pos rfl]
      rfl
  | cons task tail ih =>
    rw [mem_cons, not_or] at elsewhere
    cases fuel with
    | zero => exact absurd enough (Nat.not_lt_zero _)
    | succ fuel =>
      show schedulerLoop tasks (fuel + 1) (some task) = _
      rw [schedulerLoop, if_neg (Ne.symm elsewhere.1)]
      by_cases ready : tasks.isReady task = true
      · rw [if_pos ready, find?_cons_of_pos ready]
      · rw [if_neg ready, find?_cons_of_neg ready]
        have link := Follows.next_eq follows (by simp)
        rw [link]
        apply ih
        · exact List.IsChain.tail follows
        · exact elsewhere.2
        · exact Nat.lt_of_succ_lt_succ enough

/-- The scheduler returns the first ready task behind the current one. -/
theorem theScheduler_eq (ring : Ring tasks.next tasks.current rest) (enough : rest.length < fuel) :
    theScheduler tasks fuel = some (rest.find? tasks.isReady) := by
  unfold theScheduler
  rw [Follows.next_eq ring.linked (by simp)]
  apply schedulerLoop_path
  · exact List.IsChain.tail ring.linked
  · exact (nodup_cons.mp ring.distinct).1
  · exact enough

theorem schedulerLoop_mono {fuel more : Nat} {start : Option Task} {result : Option Task}
    (ended : schedulerLoop tasks fuel start = some result) (ordered : fuel ≤ more) :
    schedulerLoop tasks more start = some result := by
  induction fuel generalizing more start with
  | zero => cases ended
  | succ fuel ih =>
    cases more with
    | zero => exact absurd ordered (Nat.not_succ_le_zero _)
    | succ more =>
      cases start with
      | none => exact ended
      | some task =>
        rw [schedulerLoop] at ended ⊢
        by_cases back : task = tasks.current
        · rw [if_pos back] at ended ⊢
          exact ended
        · rw [if_neg back] at ended ⊢
          by_cases ready : tasks.isReady task = true
          · rw [if_pos ready] at ended ⊢
            exact ended
          · rw [if_neg ready] at ended ⊢
            exact ih ended (Nat.le_of_succ_le_succ ordered)

theorem result_of_theScheduler (ring : Ring tasks.next tasks.current rest) {result : Option Task}
    (returned : theScheduler tasks fuel = some result) : result = rest.find? tasks.isReady := by
  have longer := schedulerLoop_mono returned (Nat.le_max_left fuel (rest.length + 1))
  have expected :=
    theScheduler_eq ring
      (lt_of_lt_of_le (Nat.lt_succ_self rest.length) (Nat.le_max_right fuel (rest.length + 1)))
  exact Option.some.inj (longer.symm.trans expected)

theorem ticks_eq {fuel count : Nat} (ring : Ring tasks.next tasks.current rest)
    (ready : ∀ task ∈ tasks.current :: rest, tasks.isReady task = true)
    (enough : rest.length < fuel) (once : count ≤ rest.length + 1) :
    ticks fuel count tasks = some ((rest ++ [tasks.current]).take count) := by
  induction count generalizing tasks rest with
  | zero => rfl
  | succ count ih =>
    rw [ticks]
    cases rest with
    | nil =>
      have alone : count = 0 := Nat.eq_zero_of_le_zero (Nat.le_of_succ_le_succ once)
      subst alone
      have same : taskTimerHandler tasks fuel = some tasks := by
        unfold taskTimerHandler
        rw [theScheduler_eq ring enough]
        rfl
      rw [same]
      rfl
    | cons task tail =>
      have taskReady := ready task (mem_cons_of_mem _ mem_cons_self)
      rw [taskTimerHandler, theScheduler_eq ring enough, find?_cons_of_pos taskReady]
      have turned : Ring tasks.next task (tail ++ [tasks.current]) := Ring.rotate ring
      have others :
          ticks fuel count { tasks with current := task } =
            some (((tail ++ [tasks.current]) ++ [task]).take count) := by
        apply ih turned
        · intro member inside
          apply ready member
          simp only [mem_cons, mem_append, not_mem_nil, or_false] at inside ⊢
          tauto
        · simpa using enough
        · exact Nat.le_succ_of_le (by simpa using once)
      rw [Option.bind_some, others, Option.map_some, take_append_of_le_length (by simpa using once)]
      rfl

/-! ## Every run -/

/-- The tasks of a run, and those that have been added to them. -/
structure Run (Task : Type u) where
  tasks : Tasks Task
  added : List Task

/-- The tasks that an event adds. -/
def Event.adds (initTask : Task) : Event → List Task
  | .runInit true => [initTask]
  | _ => []

/-- Runs of the task ring from `tasks_setup`. -/
def scheduling (defaultTask initTask : Task) : System (Run Task) Event where
  start run :=
    initTask ≠ defaultTask ∧
      run.tasks.next = update (fun _ => none) defaultTask (some defaultTask) ∧
      run.tasks.current = defaultTask ∧ run.added = []
  step source event target :=
    (∃ fuel, source.tasks.after initTask fuel event = some target.tasks) ∧
      target.added = event.adds initTask ++ source.added

/-- `run_init` sets up its task while that is not linked. -/
def AddsUnlinked (initTask : Task) (run : Run Task) (event : Event) : Prop :=
  event = .runInit true → run.tasks.next initTask = none

/--
The tasks are linked in one ring, the scheduler takes the first ready one
behind the current one, and tasks that are all ready run in turn.
-/
structure InTurn (defaultTask : Task) (run : Run Task) (rest : List Task) : Prop where
  ring : Ring run.tasks.next run.tasks.current rest
  members : ∀ task, task ∈ run.tasks.current :: rest ↔ task = defaultTask ∨ task ∈ run.added
  chosen :
    ∀ fuel, rest.length < fuel → theScheduler run.tasks fuel = some (rest.find? run.tasks.isReady)
  idle :
    ∀ fuel, theScheduler run.tasks fuel = some none →
      ∀ task, task = defaultTask ∨ task ∈ run.added → task ≠ run.tasks.current →
        run.tasks.isReady task = false
  fair : (∀ task ∈ run.tasks.current :: rest, run.tasks.isReady task = true) →
    ∀ fuel, rest.length < fuel →
      ticks fuel (rest.length + 1) run.tasks = some (rest ++ [run.tasks.current])

/-- `InTurn` for some order of the tasks. -/
def TakesTurns (defaultTask : Task) (run : Run Task) : Prop := ∃ rest, InTurn defaultTask run rest

variable {defaultTask initTask : Task} {run source target : Run Task}

theorem InTurn.of_ring (ring : Ring run.tasks.next run.tasks.current rest)
    (members : ∀ task, task ∈ run.tasks.current :: rest ↔ task = defaultTask ∨ task ∈ run.added) :
    InTurn defaultTask run rest where
  ring := ring
  members := members
  chosen _ enough := theScheduler_eq ring enough
  idle := by
    intro fuel returned task added other
    have none := (result_of_theScheduler ring returned).symm
    rcases mem_cons.mp ((members task).mpr added) with same | behind
    · exact absurd same other
    · exact Bool.eq_false_iff.mpr (find?_eq_none.mp none task behind)
  fair := by
    intro ready fuel enough
    rw [ticks_eq ring ready enough le_rfl]
    congr 1
    apply take_of_length_le
    simp

/-- A timer interrupt keeps the tasks in turn. -/
theorem taskTimerHandler_inTurn
    {tasks later : Tasks Task} {added : List Task} (ring : Ring tasks.next tasks.current rest)
    (members : ∀ task, task ∈ tasks.current :: rest ↔ task = defaultTask ∨ task ∈ added)
    (returned : taskTimerHandler tasks fuel = some later) :
    TakesTurns defaultTask ⟨later, added⟩ := by
  unfold taskTimerHandler at returned
  split at returned
  · cases returned
  · cases returned
    exact ⟨rest, InTurn.of_ring ring members⟩
  · rename_i task chosen
    cases returned
    have found : rest.find? tasks.isReady = some task := (result_of_theScheduler ring chosen).symm
    obtain ⟨before, after, rfl⟩ := append_of_mem (mem_of_find?_eq_some found)
    refine ⟨after ++ tasks.current :: before, InTurn.of_ring ring.rotate fun member => ?_⟩
    have same : (task :: after ++ tasks.current :: before).Perm _ := perm_append_comm
    exact same.mem_iff.trans (members member)

theorem schedAddTask_ring
    {task : Task} (ring : Ring tasks.next tasks.current rest) (unlinked : tasks.next task = none) :
    Ring (schedAddTask tasks task).next tasks.current (task :: rest) := by
  have outside : task ∉ tasks.current :: rest := by
    intro member
    obtain ⟨second, linked⟩ := ring.next_eq_some member
    rw [unlinked] at linked
    cases linked
  have notCurrent : task ≠ tasks.current := fun same => outside (same ▸ mem_cons_self)
  apply ring.insert outside
  · exact update_self ..
  · show update _ _ _ task = _
    rw [update_of_ne notCurrent, update_self]
  · intro member inside
    have notTask : member ≠ task := fun same => outside (same ▸ mem_cons_of_mem _ inside)
    have other : member ≠ tasks.current :=
      fun same => (nodup_cons.mp ring.distinct).1 (same ▸ inside)
    show update _ _ _ member = _
    rw [update_of_ne other, update_of_ne notTask]

theorem inTurn_start (initial : (scheduling defaultTask initTask).start run) :
    TakesTurns defaultTask run := by
  obtain ⟨_, links, current, none⟩ := initial
  refine ⟨[], InTurn.of_ring ?_ ?_⟩
  · rw [links, current]
    exact ⟨nodup_singleton _, isChain_pair.mpr (update_self ..)⟩
  · intro task
    rw [current, none]
    simp

theorem inTurn_step {event : Event} (before : TakesTurns defaultTask source)
    (unlinked : AddsUnlinked initTask source event)
    (taken : (scheduling defaultTask initTask).step source event target) :
    TakesTurns defaultTask target := by
  obtain ⟨rest, inTurn⟩ := before
  obtain ⟨later, added⟩ := target
  obtain ⟨⟨fuel, returned⟩, adds⟩ := taken
  cases adds
  have ring := inTurn.ring
  have members := inTurn.members
  cases event with
  | tick => exact taskTimerHandler_inTurn ring members returned
  | yield => exact taskTimerHandler_inTurn ring members returned
  | exit =>
    have exited :
        Ring (source.tasks.setState source.tasks.current .exited).next source.tasks.current rest :=
      ring
    exact taskTimerHandler_inTurn exited members returned
  | runInit loaded =>
    cases loaded with
    | false =>
      cases returned
      exact ⟨rest, inTurn⟩
    | true =>
      have entered := schedAddTask_ring ring (unlinked rfl)
      cases returned
      refine ⟨initTask :: rest, InTurn.of_ring entered ?_⟩
      intro task
      have known := members task
      show task ∈ source.tasks.current :: initTask :: rest ↔
        task = defaultTask ∨ task ∈ initTask :: source.added
      rw [mem_cons] at known ⊢
      rw [mem_cons, mem_cons]
      tauto

/--
In every run that sets up the init task only while it is not linked, the
tasks form one ring of the default task and every added task, which the
scheduler goes through in turn.
-/
theorem inTurn_of_addsUnlinked
    (reached : (scheduling defaultTask initTask).Reached (AddsUnlinked initTask) run) :
    TakesTurns defaultTask run := by
  refine System.Reached.invariant ?_ ?_ reached
  · exact fun _ initial => inTurn_start initial
  · exact fun _ _ _ before unlinked taken => inTurn_step before unlinked taken

/-- `tasks_setup` with the default task `false` and the init task `true`. -/
def setUp : Run Bool where
  tasks :=
    { next := update (fun _ => none) false (some false)
      state := fun _ => .ready
      current := false }
  added := []

theorem setUp_start : (scheduling false true).start setUp := ⟨by decide, rfl, rfl, rfl⟩

/-- The run after `run_init` has set up the init task. -/
def afterRunInit (run : Run Bool) : Run Bool where
  tasks := schedAddTask (run.tasks.setState true .ready) true
  added := true :: run.added

theorem afterRunInit_step (run : Run Bool) :
    (scheduling false true).step run (.runInit true) (afterRunInit run) :=
  ⟨⟨0, rfl⟩, rfl⟩

theorem inTurn_one_init :
    ticks 2 2 (afterRunInit setUp).tasks = some [true, false] ∧
      TakesTurns false (afterRunInit setUp) := by
  refine ⟨by decide, ?_⟩
  have unlinked : AddsUnlinked true setUp (.runInit true) := fun _ => rfl
  apply inTurn_of_addsUnlinked
  exact System.Reached.step (System.Reached.start setUp_start) unlinked (afterRunInit_step setUp)

/--
Running `run_init` twice from the default task links the init task to
itself.  The default task is never chosen again.
-/
theorem default_lost_after_two_inits :
    ¬ ∀ run : Run Bool, (scheduling false true).Reached unrestricted run →
        TakesTurns false run := by
  intro takesTurns
  let twice := afterRunInit (afterRunInit setUp)
  let switched : Run Bool := ⟨{ twice.tasks with current := true }, twice.added⟩
  have ticked : (scheduling false true).step twice .tick switched := ⟨⟨1, rfl⟩, rfl⟩
  have reached : (scheduling false true).Reached unrestricted switched := by
    apply System.Reached.step _ trivial ticked
    apply System.Reached.step _ trivial (afterRunInit_step _)
    apply System.Reached.step _ trivial (afterRunInit_step _)
    exact System.Reached.start setUp_start
  obtain ⟨rest, inTurn⟩ := takesTurns switched reached
  have alone : rest = [] := inTurn.ring.rest_eq_nil rfl
  subst alone
  have member := (inTurn.members false).mpr (Or.inl rfl)
  exact absurd (mem_singleton.mp member) (by decide)

/-! ## Waiting -/

/-- A ready task with some of the other tasks of the ring before it. -/
structure Waiting (tasks : Tasks Task) (task : Task) (before after : List Task) : Prop where
  ready : tasks.isReady task = true
  ring : Ring tasks.next tasks.current (before ++ task :: after)

variable {task : Task} {before after : List Task} {events : List Event}

/-- A switch runs the task or leaves fewer tasks before it. -/
theorem Waiting.switch (waiting : Waiting tasks task before after)
    (enough : before.length + after.length + 1 < fuel) :
    ∃ later, taskTimerHandler tasks fuel = some later ∧
      (later.current = task ∨ ∃ fewer others, Waiting later task fewer others ∧
        fewer.length < before.length ∧
        fewer.length + others.length = before.length + after.length) := by
  unfold taskTimerHandler
  rw [theScheduler_eq waiting.ring (by simpa [← Nat.add_assoc] using enough), find?_append,
    find?_cons_of_pos waiting.ready]
  cases found : before.find? tasks.isReady with
  | none => exact ⟨_, rfl, Or.inl rfl⟩
  | some chosen =>
    obtain ⟨front, back, rfl⟩ := append_of_mem (mem_of_find?_eq_some found)
    have ring := waiting.ring
    rw [append_assoc, cons_append] at ring
    refine ⟨_, rfl, Or.inr ⟨back, after ++ tasks.current :: front, ⟨waiting.ready, ?_⟩, ?_⟩⟩
    · simpa using ring.rotate
    · simp only [length_append, length_cons]
      omega

/-- An exit is a switch from a task that is no longer ready. -/
theorem Waiting.exit (waiting : Waiting tasks task before after) :
    Waiting (tasks.setState tasks.current .exited) task before after where
  ready := by
    have other : task ≠ tasks.current := by
      rintro rfl
      exact (nodup_cons.mp waiting.ring.distinct).1 (by simp)
    simpa [Tasks.isReady, Tasks.setState, update_of_ne other] using waiting.ready
  ring := waiting.ring

theorem Waiting.runs (waiting : Waiting tasks task before after)
    (enough : before.length + after.length + 1 < fuel)
    (switches : ∀ loaded, .runInit loaded ∉ events) (long : before.length < events.length) :
    ∃ count ≤ before.length + 1, ∃ later,
      performAll (fun tasks event => tasks.after initTask fuel event) tasks (events.take count) =
          some later ∧ later.current = task := by
  induction events generalizing tasks before after with
  | nil => cases long
  | cons event events ih =>
    obtain ⟨later, switched, turn⟩ : ∃ later, tasks.after initTask fuel event = some later ∧
        (later.current = task ∨ ∃ fewer others, Waiting later task fewer others ∧
          fewer.length < before.length ∧
          fewer.length + others.length = before.length + after.length) := by
      cases event with
      | runInit loaded => exact absurd mem_cons_self (switches loaded)
      | exit => exact waiting.exit.switch enough
      | tick => exact waiting.switch enough
      | yield => exact waiting.switch enough
    rcases turn with here | ⟨fewer, others, waits, closer, size⟩
    · refine ⟨1, Nat.le_add_left 1 _, later, ?_, here⟩
      simp [performAll, switched]
    · rw [length_cons] at long
      obtain ⟨count, bound, final, performed, here⟩ :=
        ih waits (by omega) (fun loaded => not_mem_of_not_mem_cons (switches loaded)) (by omega)
      refine ⟨count + 1, by omega, final, ?_, here⟩
      rw [take_succ_cons, performAll, switched]
      exact performed

/--
However many tasks the ring has, a ready one that waits runs after at most as
many switches as there are other tasks, whether these are ready, yield or
exit.
-/
theorem waiting_bounded
    (ring : Ring tasks.next tasks.current rest)
    (waits : task ∈ rest)
    (ready : tasks.isReady task = true)
    (enough : rest.length < fuel)
    (switches : ∀ loaded, .runInit loaded ∉ events)
    (long : rest.length ≤ events.length) :
    ∃ count ≤ rest.length, ∃ later,
      performAll (fun tasks event => tasks.after initTask fuel event) tasks
          (events.take count) = some later ∧ later.current = task := by
  obtain ⟨before, after, rfl⟩ := append_of_mem waits
  have waiting : Waiting tasks task before after := ⟨ready, ring⟩
  rw [length_append, length_cons] at enough long ⊢
  obtain ⟨count, bound, ran⟩ :=
    @Waiting.runs _ _ _ fuel initTask _ _ _ _ waiting (by omega) switches
      (by omega)
  exact ⟨count, by omega, ran⟩

/-- The default task, and two tasks that were added to it. -/
def threeTasks : Tasks Nat :=
  schedAddTask
    (schedAddTask ⟨update (fun _ => none) 0 (some 0), fun _ => .ready, 0⟩ 1) 2

theorem threeTasks_ring :
    Ring threeTasks.next threeTasks.current [2, 1] := by
  have alone : Ring (update (fun _ => none) 0 (some 0)) 0 [] :=
    ⟨nodup_singleton _, isChain_pair.mpr (update_self ..)⟩
  have two := @schedAddTask_ring _ _ ⟨_, fun _ => .ready, 0⟩ _ 1 alone rfl
  exact @schedAddTask_ring _ _ (schedAddTask ⟨_, _, 0⟩ 1) _ 2 two rfl

/-- The task that was added first runs once the others have had a turn. -/
theorem waiting_bounded_behind_two :
    ∃ count ≤ 2, ∃ later,
      performAll (fun tasks event => tasks.after 1 3 event) threeTasks
          ([.exit, .yield].take count) = some later ∧ later.current = 1 :=
  waiting_bounded threeTasks_ring (by simp) rfl (by decide) (by simp) le_rfl

end Cosec.Core.Scheduler
