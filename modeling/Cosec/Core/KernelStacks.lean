import Cosec.Lib.Transition
import Cosec.Lib.WordMemory

/-!
# The kernel stack of a user task

An interrupt of a user task in ring 3 pushes five words below `tss.esp0`,
one in ring 0 three words below the stack pointer; `INTR_PROLOG` adds the
other registers.  `task_save_context` takes every interrupt of a user task
for one in ring 3 when it sets `tss.esp0`.

This is right as long as the task is only switched away from in ring 3.  A
switch inside `dev_tty_read`, which waits with interrupts enabled, leaves
`tss.esp0` below where `task_init` had put it.
-/

namespace Cosec.Core.KernelStacks

open Function Lib.Transition Lib.WordMemory

/-! ## Registers and contexts -/

abbrev Word := BitVec 32

def SEL_KERN_CS : Word := 0x08
def SEL_USER_CS : Word := 0x1b
def SEL_USER_DS : Word := 0x23

def EFL_RSRVD : Word := 0x2
def EFL_IF : Word := 0x200

/-- The size in bytes of `struct interrupt_context`. -/
def CONTEXT_SIZE : Int := 0x30

/-- The registers that `INTR_PROLOG` pushes, apart from `esp`. -/
structure General where
  fs : Word
  gs : Word
  es : Word
  ds : Word
  edi : Word
  esi : Word
  ebp : Word
  ebx : Word
  edx : Word
  ecx : Word
  eax : Word
deriving DecidableEq

structure Registers where
  general : General
  eip : Word
  eflags : Word
deriving DecidableEq

def Registers.interruptible (registers : Registers) : Prop := registers.eflags &&& EFL_IF = EFL_IF

instance (registers : Registers) : Decidable registers.interruptible :=
  inferInstanceAs (Decidable (_ = _))

theorem eflags_or (registers : Registers) (interruptible : registers.interruptible) :
    registers.eflags ||| EFL_IF = registers.eflags := by
  have flag : registers.eflags &&& EFL_IF = EFL_IF := interruptible
  ext index inside
  have bit := congrArg (fun flags : Word => flags.getLsbD index) flag
  simp only [BitVec.getLsbD_and] at bit
  simp only [← BitVec.getLsbD_eq_getElem, BitVec.getLsbD_or]
  cases set : EFL_IF.getLsbD index with
  | false => rw [Bool.or_false]
  | true =>
    rw [set, Bool.and_true] at bit
    rw [bit]
    rfl

/--
What the processor executes for the task.  In ring 0 the stack pointer is an
address of its kernel stack.
-/
inductive Execution where
  | user (registers : Registers) (esp ss : Word)
  | kernel (registers : Registers) (esp : Int)
deriving DecidableEq

def Execution.registers : Execution → Registers
  | .user registers _ _ => registers
  | .kernel registers _ => registers

/-- The words that `INTR_PROLOG` leaves on the stack, upwards. -/
def General.pushed (general : General) (esp : Int) : List Word :=
  [general.fs, general.gs, general.es, general.ds,
    general.edi, general.esi, general.ebp, BitVec.ofInt 32 esp,
    general.ebx, general.edx, general.ecx, general.eax]

/-- `INTR_END` and `iret` from a context; `popa` drops the stored `esp`. -/
def popContext (memory : Int → Word) (context : Int) : Execution :=
  let general : General :=
    { fs := word memory context 0
      gs := word memory context 1
      es := word memory context 2
      ds := word memory context 3
      edi := word memory context 4
      esi := word memory context 5
      ebp := word memory context 6
      ebx := word memory context 8
      edx := word memory context 9
      ecx := word memory context 10
      eax := word memory context 11 }
  let registers : Registers :=
    { general := general
      eip := word memory context 12
      eflags := word memory context 14 }
  if word memory context 13 = SEL_KERN_CS then
    .kernel registers (context + CONTEXT_SIZE + 4 * 3)
  else .user registers (word memory context 15) (word memory context 16)

/-! ## The machine -/

/-- The fields of the task's `tss` that switching uses. -/
structure Tss where
  esp0 : Int
  cs : Word

/--
The kernel stack of the task, its `tss`, the two variables of `intr.S`, and
the context of the system call that the task is making.
-/
structure Machine where
  memory : Int → Word
  tss : Tss
  contextEsp : Int
  switchToEsp : Int
  syscallContext : Int

/-- `task_sysinfo_size`. -/
def taskSysinfoSize (tss : Tss) : Int := if tss.cs = SEL_KERN_CS then 3 else 5

/-- An interrupt, up to the end of `INTR_PROLOG`. -/
def Machine.interrupted (machine : Machine) : Execution → Machine
  | .user registers esp ss =>
    let iret := machine.tss.esp0 - 4 * 5
    let context := iret - CONTEXT_SIZE
    { machine with
      memory :=
        store machine.memory context
          (registers.general.pushed iret ++ [registers.eip, SEL_USER_CS, registers.eflags, esp, ss])
      contextEsp := context
      switchToEsp := 0 }
  | .kernel registers esp =>
    let iret := esp - 4 * 3
    let context := iret - CONTEXT_SIZE
    { machine with
      memory :=
        store machine.memory context
          (registers.general.pushed iret ++ [registers.eip, SEL_KERN_CS, registers.eflags])
      contextEsp := context
      switchToEsp := 0 }

/-- A handler leaves something on the stack below its context. -/
def Machine.handled (machine : Machine) (scratch : Int → Word) : Machine :=
  { machine with
    memory := scribble machine.memory scratch machine.contextEsp }

/-- `INTR_END` and `iret`, in a handler whose context lies at `esp`. -/
def Machine.intrEnd (machine : Machine) (esp : Int) : Machine × Execution :=
  let context := if machine.switchToEsp = 0 then esp else machine.switchToEsp
  ({ machine with contextEsp := 0 }, popContext machine.memory context)

/-- `task_save_context`; `none` is the panic. -/
def Machine.taskSaveContext (machine : Machine) : Option Machine :=
  if machine.contextEsp = 0 then none
  else
    some
      { machine with
        tss :=
          { machine.tss with
            esp0 := machine.contextEsp + CONTEXT_SIZE + taskSysinfoSize machine.tss * 4 } }

/-- `task_push_context`. -/
def Machine.taskPushContext (machine : Machine) : Machine :=
  let iretStack := machine.tss.esp0 - 4 * taskSysinfoSize machine.tss
  { machine with
    memory :=
      update machine.memory (iretStack + 4 * 2) (machine.memory (iretStack + 4 * 2) ||| EFL_IF)
    switchToEsp := iretStack - CONTEXT_SIZE }

/-- `task_init`, as far as the stack and these fields of the `tss` go. -/
def Machine.taskInit (machine : Machine) (entry : Word) (esp0 : Int) (esp3 cs ds : Word) :
    Machine :=
  let tss : Tss := { esp0 := esp0, cs := cs }
  let stack := esp0 - 4 * taskSysinfoSize tss
  let context := stack - CONTEXT_SIZE
  let ring3 := if cs = SEL_KERN_CS then [] else [esp3, ds]
  { machine with
    tss := tss
    memory :=
      store (store machine.memory stack ([entry, cs, EFL_RSRVD ||| EFL_IF] ++ ring3))
        context [ds, ds, ds, ds] }

/-! ## Runs of one task -/

/-- What was interrupted when the task was switched away from. -/
structure Saved where
  context : Int
  execution : Execution
deriving DecidableEq

inductive Place where
  | running (execution : Execution)
  | away (saved : Saved)
deriving DecidableEq

structure State where
  machine : Machine
  place : Place

/--
What the task and the processor do.  Kernel code may set the interrupt flag,
as `dev_tty_read` does.
-/
inductive Action where
  | compute (registers : Registers) (esp ss : Word)
  | syscall (handler : Registers)
  | work (registers : Registers) (esp : Int) (scratch : Int → Word)
  | sysret (result : Word)
  | interrupt (scratch : Int → Word)
  | switchAway (scratch : Int → Word)
  | others (contextEsp switchToEsp : Int)
  | switchIn (esp : Int)

/-- The switch to the task, in the handler of an interrupt of another. -/
def Machine.switchIn (machine : Machine) (esp : Int) : Machine × Execution :=
  machine.taskPushContext.intrEnd esp

/-- The state in which the task executes. -/
def runningState (outcome : Machine × Execution) : State where
  machine := outcome.1
  place := .running outcome.2

/-- An interrupt whose handler returns to what it interrupted. -/
def Machine.interruptReturn (machine : Machine) (execution : Execution) (scratch : Int → Word) :
    Machine × Execution :=
  let handled := (machine.interrupted execution).handled scratch
  handled.intrEnd handled.contextEsp

/-- A timer interrupt whose handler goes on with another task. -/
def Machine.switchAway (machine : Machine) (execution : Execution) (scratch : Int → Word) :
    Option State :=
  let handled := (machine.interrupted execution).handled scratch
  handled.taskSaveContext.map fun saved =>
    { machine := saved
      place := .away ⟨handled.contextEsp, execution⟩ }

/-- The system call of a task in ring 3; the gate clears the interrupt flag. -/
def Machine.syscall (machine : Machine) (execution : Execution) (handler : Registers) : State :=
  let entered := machine.interrupted execution
  { machine := { entered with syscallContext := entered.contextEsp }
    place := .running (.kernel handler (entered.contextEsp - 4 * 2)) }

/-- The end of `int_syscall`, which stores the result in the context. -/
def Machine.sysret (machine : Machine) (result : Word) : Machine × Execution :=
  let stored :=
    { machine with
      memory := update machine.memory (machine.syscallContext + 4 * 11) result }
  stored.intrEnd machine.syscallContext

/-- One action; `none` if it cannot be taken here. -/
def State.perform (state : State) : Action → Option State
  | .compute registers esp ss =>
    match state.place with
    | .running (.user _ _ _) =>
      if registers.interruptible then
        some { state with place := .running (.user registers esp ss) }
      else none
    | _ => none
  | .syscall handler =>
    match state.place with
    | .running (.user registers esp ss) =>
      if handler.interruptible then none
      else
        some (state.machine.syscall (.user registers esp ss) handler)
    | _ => none
  | .work registers esp scratch =>
    match state.place with
    | .running (.kernel _ _) =>
      if esp ≤ state.machine.syscallContext - 4 * 2 then
        some
          { machine :=
              { state.machine with
                memory := scribble state.machine.memory scratch state.machine.syscallContext }
            place := .running (.kernel registers esp) }
      else none
    | _ => none
  | .sysret result =>
    match state.place with
    | .running (.kernel _ _) => some (runningState (state.machine.sysret result))
    | _ => none
  | .interrupt scratch =>
    match state.place with
    | .running execution =>
      if execution.registers.interruptible then
        some (runningState (state.machine.interruptReturn execution scratch))
      else none
    | _ => none
  | .switchAway scratch =>
    match state.place with
    | .running execution =>
      if execution.registers.interruptible then
        state.machine.switchAway execution scratch
      else none
    | _ => none
  | .others contextEsp switchToEsp =>
    match state.place with
    | .away _ =>
      some
        { state with
          machine :=
            { state.machine with
              contextEsp := contextEsp
              switchToEsp := switchToEsp } }
    | _ => none
  | .switchIn esp =>
    match state.place with
    | .away _ => some (runningState (state.machine.switchIn esp))
    | _ => none

/-- Runs of a user task whose kernel stack `task_init` put at `top`. -/
def userTask (top : Int) : System State Action where
  start state :=
    4 * 5 + CONTEXT_SIZE < top ∧
      ∃ earlier entry esp3,
        state.machine = Machine.taskInit earlier entry top esp3 SEL_USER_CS SEL_USER_DS ∧
        state.place =
          .away
            ⟨top - 4 * 5 - CONTEXT_SIZE,
              popContext state.machine.memory (top - 4 * 5 - CONTEXT_SIZE)⟩
  step source action target := source.perform action = some target

/-- The task is switched away from in ring 3 only. -/
def SwitchesInUser (state : State) (action : Action) : Prop :=
  ∀ scratch, action = .switchAway scratch →
    ∃ registers esp ss, state.place = .running (.user registers esp ss)

/--
In ring 3, `tss.esp0` is where `task_init` put it; and a switch to the task
goes on from the context, and with the registers, that it was switched away
from.
-/
structure Steady (top : Int) (state : State) : Prop where
  esp0 :
    ∀ registers esp ss, state.place = .running (.user registers esp ss) →
      state.machine.tss.esp0 = top
  resumes :
    ∀ saved, state.place = .away saved →
      ∀ esp,
        (state.machine.switchIn esp).1.switchToEsp = saved.context ∧
          (state.machine.switchIn esp).2 = saved.execution

variable {memory later : Int → Word} {context top : Int} {machine : Machine}
  {state source target : State}

/-- Execution in ring 3, where interrupts cannot be turned off. -/
def IsUser (execution : Execution) : Prop :=
  ∃ registers esp ss, execution = .user registers esp ss ∧ registers.interruptible

theorem popContext_congr (agree : AgreeFrom context later memory) :
    popContext later context = popContext memory context := by
  have same : ∀ index, word later context index = word memory context index :=
    fun _ => agree _ (by omega)
  unfold popContext
  simp only [same]

/-- What an interrupt pushed is what its return goes on with. -/
theorem interrupted_spec (machine : Machine) (execution : Execution) :
    popContext (machine.interrupted execution).memory (machine.interrupted execution).contextEsp =
      execution := by
  unfold popContext Machine.interrupted
  cases execution with
  | user registers esp ss =>
    simp only [word_store]
    rfl
  | kernel registers esp =>
    have back : esp - 4 * 3 - CONTEXT_SIZE + CONTEXT_SIZE + 4 * 3 = esp := by omega
    simp only [word_store, back]
    rfl

theorem handled_spec (machine : Machine) (execution : Execution) (scratch : Int → Word) :
    popContext ((machine.interrupted execution).handled scratch).memory
        (machine.interrupted execution).contextEsp = execution := by
  refine (popContext_congr ?_).trans (interrupted_spec machine execution)
  exact agreeFrom_scribble

/-! ## What holds between switches -/

/-- Where an interrupt in ring 3 leaves the context. -/
def userContext (top : Int) : Int := top - 4 * 5 - CONTEXT_SIZE

/-- The invariant of the task, by what it is doing. -/
def PlaceSettled (top : Int) (machine : Machine) : Place → Prop
  | .running (.user registers _ _) => registers.interruptible
  | .running (.kernel _ esp) =>
    machine.switchToEsp = 0 ∧ machine.syscallContext = userContext top ∧ esp ≤ userContext top ∧
      IsUser (popContext machine.memory (userContext top))
  | .away saved =>
    saved.context = userContext top ∧ IsUser saved.execution ∧
      popContext machine.memory (userContext top) = saved.execution

structure Settled (top : Int) (state : State) : Prop where
  room : 0 < userContext top
  esp0 : state.machine.tss.esp0 = top
  cs : state.machine.tss.cs = SEL_USER_CS
  place : PlaceSettled top state.machine state.place

theorem taskSysinfoSize_user {tss : Tss} (cs : tss.cs = SEL_USER_CS) : taskSysinfoSize tss = 5 := by
  unfold taskSysinfoSize
  rw [cs]
  rfl

variable {registers : Registers} {esp ss : Word}

/-- A switch to a settled task goes on from where it was. -/
theorem switchIn_eq
    (room : 0 < userContext top) (esp0 : machine.tss.esp0 = top) (cs : machine.tss.cs = SEL_USER_CS)
    (user : IsUser (popContext machine.memory (userContext top))) (esp : Int) :
    machine.switchIn esp =
      ({ machine with contextEsp := 0, switchToEsp := userContext top },
        popContext machine.memory (userContext top)) := by
  -- The flags of a task in ring 3 have the interrupt flag already.
  have pushed : machine.taskPushContext = { machine with switchToEsp := userContext top } := by
    obtain ⟨registers, esp, ss, popped, interruptible⟩ := user
    have place : top - 4 * 5 + 4 * 2 = userContext top + 4 * (14 : Nat) := by
      unfold userContext CONTEXT_SIZE
      omega
    have flags : machine.memory (top - 4 * 5 + 4 * 2) = registers.eflags := by
      unfold popContext at popped
      split at popped
      · cases popped
      · cases popped
        rw [place]
        rfl
    have unchanged :
        machine.memory (top - 4 * 5 + 4 * 2) ||| EFL_IF = machine.memory (top - 4 * 5 + 4 * 2) := by
      rw [flags]
      exact eflags_or registers interruptible
    unfold Machine.taskPushContext
    simp only [taskSysinfoSize_user cs, esp0, unchanged, update_eq_self]
    rfl
  unfold Machine.switchIn
  rw [pushed]
  unfold Machine.intrEnd
  rw [if_neg (Int.ne_of_gt room)]

theorem Settled.steady (settled : Settled top state) : Steady top state where
  esp0 _ _ _ _ := settled.esp0
  resumes := by
    intro saved away esp
    have place := settled.place
    rw [away] at place
    obtain ⟨context, user, popped⟩ := place
    rw [← popped] at user
    rw [switchIn_eq settled.room settled.esp0 settled.cs user]
    exact ⟨context.symm, popped⟩

/-! ## One action at a time -/

theorem contextEsp_interrupted_user
    (esp0 : machine.tss.esp0 = top) (registers : Registers) (esp ss : Word) :
    (machine.interrupted (.user registers esp ss)).contextEsp = userContext top := by
  subst esp0
  rfl

/-- A handler that switches to no task returns from its own context. -/
theorem intrEnd_of_idle (idle : machine.switchToEsp = 0) (esp : Int) :
    machine.intrEnd esp = ({ machine with contextEsp := 0 }, popContext machine.memory esp) := by
  unfold Machine.intrEnd
  rw [if_pos idle]

theorem interruptReturn_eq (machine : Machine) (execution : Execution) (scratch : Int → Word) :
    machine.interruptReturn execution scratch =
      ({ (machine.interrupted execution).handled scratch with
          contextEsp := 0 },
        execution) := by
  have idle : ((machine.interrupted execution).handled scratch).switchToEsp = 0 :=
    by cases execution <;> rfl
  have popped := handled_spec machine execution scratch
  refine (intrEnd_of_idle idle _).trans ?_
  exact congrArg _ popped

theorem agreeFrom_interrupted_kernel
    (machine : Machine) (registers : Registers) (esp : Int) (scratch : Int → Word) :
    AgreeFrom esp ((machine.interrupted (.kernel registers esp)).handled scratch).memory
      machine.memory := by
  have below :
      AgreeFrom (esp - 4 * 3 - CONTEXT_SIZE)
        ((machine.interrupted (.kernel registers esp)).handled scratch).memory
        (machine.interrupted (.kernel registers esp)).memory :=
    agreeFrom_scribble
  refine (below.mono ?_).trans (agreeFrom_store ?_)
  · unfold CONTEXT_SIZE
    omega
  · show esp - 4 * 3 - 0x30 + 4 * (15 : Int) ≤ esp
    omega

theorem settled_interrupt
    {execution : Execution} (settled : Settled top ⟨machine, .running execution⟩)
    (scratch : Int → Word) :
    Settled top (runningState (machine.interruptReturn execution scratch)) := by
  rw [interruptReturn_eq]
  have tss : (machine.interrupted execution).tss = machine.tss := by cases execution <;> rfl
  refine ⟨settled.room, ?_, ?_, ?_⟩
  · exact (congrArg Tss.esp0 tss).trans settled.esp0
  · exact (congrArg Tss.cs tss).trans settled.cs
  · cases execution with
    | user registers esp ss => exact settled.place
    | kernel registers esp =>
      obtain ⟨_, context, below, user⟩ := settled.place
      refine ⟨rfl, context, below, ?_⟩
      have kept :=
        popContext_congr ((agreeFrom_interrupted_kernel machine registers esp scratch).mono below)
      exact kept ▸ user

theorem settled_switchAway
    {scratch : Int → Word} (settled : Settled top ⟨machine, .running (.user registers esp ss)⟩)
    (taken : machine.switchAway (.user registers esp ss) scratch = some target) :
    Settled top target := by
  have context := contextEsp_interrupted_user settled.esp0 registers esp ss
  have popped := handled_spec machine (.user registers esp ss) scratch
  rw [context] at popped
  unfold Machine.switchAway Machine.taskSaveContext at taken
  obtain ⟨saved, kept, same⟩ := Option.map_eq_some_iff.mp taken
  have size : taskSysinfoSize machine.tss = 5 := taskSysinfoSize_user settled.cs
  split at kept
  · cases kept
  · cases kept
    subst same
    refine ⟨settled.room, ?_, settled.cs, context, ?_, popped⟩
    · show
        (machine.interrupted (.user registers esp ss)).contextEsp +
            CONTEXT_SIZE + taskSysinfoSize machine.tss * 4 = top
      rw [context, size]
      unfold userContext
      omega
    · exact ⟨registers, esp, ss, rfl, settled.place⟩

theorem settled_syscall
    (settled : Settled top ⟨machine, .running (.user registers esp ss)⟩) (handler : Registers) :
    Settled top (machine.syscall (.user registers esp ss) handler) := by
  have context := contextEsp_interrupted_user settled.esp0 registers esp ss
  have popped := interrupted_spec machine (.user registers esp ss)
  rw [context] at popped
  refine ⟨settled.room, settled.esp0, settled.cs, rfl, context, ?_, ?_⟩
  · show (machine.interrupted (.user registers esp ss)).contextEsp - 4 * 2 ≤ userContext top
    rw [context]
    omega
  · exact ⟨registers, esp, ss, popped, settled.place⟩

/-- Storing the result leaves the frame of the processor as it was. -/
theorem isUser_result (user : IsUser (popContext memory context)) (result : Word) :
    IsUser (popContext (update memory (context + 4 * 11) result) context) := by
  have kept :
      ∀ index, index ≠ 11 →
        word (update memory (context + 4 * 11) result) context index =
          word memory context index := by
    intro index other
    apply update_of_ne
    omega
  obtain ⟨registers, esp, ss, popped, interruptible⟩ := user
  unfold popContext at popped ⊢
  rw [kept 13 (by decide)]
  split at popped
  · cases popped
  · rename_i ring
    cases popped
    rw [if_neg ring]
    refine ⟨_, _, _, rfl, ?_⟩
    rw [kept 14 (by decide)]
    exact interruptible

theorem settled_sysret
    {esp : Int} (settled : Settled top ⟨machine, .running (.kernel registers esp)⟩)
    (result : Word) : Settled top (runningState (machine.sysret result)) := by
  obtain ⟨idle, context, _, user⟩ := settled.place
  have returns :
      machine.sysret result =
        ({ machine with
            memory := update machine.memory (machine.syscallContext + 4 * 11) result
            contextEsp := 0 },
          popContext (update machine.memory (machine.syscallContext + 4 * 11) result)
            machine.syscallContext) := by
    apply intrEnd_of_idle
    exact idle
  rw [returns]
  have returned := isUser_result user result
  rw [← context] at returned
  obtain ⟨registers, esp, ss, popped, interruptible⟩ := returned
  refine ⟨settled.room, settled.esp0, settled.cs, ?_⟩
  rw [popped]
  exact interruptible

theorem settled_work {registers later : Registers} {esp below : Int} {scratch : Int → Word}
    (settled : Settled top ⟨machine, .running (.kernel registers esp)⟩)
    (bounded : below ≤ machine.syscallContext - 4 * 2) :
    Settled top
      { machine :=
          { machine with
            memory := scribble machine.memory scratch machine.syscallContext }
        place := .running (.kernel later below) } := by
  obtain ⟨idle, context, _, user⟩ := settled.place
  have context : machine.syscallContext = userContext top := context
  refine ⟨settled.room, settled.esp0, settled.cs, idle, context, ?_, ?_⟩
  · omega
  · have kept :
        popContext (scribble machine.memory scratch machine.syscallContext) (userContext top) =
          popContext machine.memory (userContext top) :=
      popContext_congr (context ▸ agreeFrom_scribble)
    exact kept ▸ user

theorem settled_perform
    {action : Action} (settled : Settled top source) (ring3 : SwitchesInUser source action)
    (taken : source.perform action = some target) : Settled top target := by
  obtain ⟨machine, place⟩ := source
  cases action with
  | compute registers esp ss =>
    rcases place with ⟨_ | _⟩ | _
    · simp only [State.perform, Option.ite_none_right_eq_some, Option.some.injEq] at taken
      obtain ⟨interruptible, rfl⟩ := taken
      exact ⟨settled.room, settled.esp0, settled.cs, interruptible⟩
    · cases taken
    · cases taken
  | syscall handler =>
    rcases place with ⟨_ | _⟩ | _
    · simp only [State.perform, Option.ite_none_left_eq_some, Option.some.injEq] at taken
      obtain ⟨_, rfl⟩ := taken
      exact settled_syscall settled handler
    · cases taken
    · cases taken
  | work registers esp scratch =>
    rcases place with ⟨_ | _⟩ | _
    · cases taken
    · simp only [State.perform, Option.ite_none_right_eq_some, Option.some.injEq] at taken
      obtain ⟨bounded, rfl⟩ := taken
      exact settled_work settled bounded
    · cases taken
  | sysret result =>
    rcases place with ⟨_ | _⟩ | _
    · cases taken
    · cases taken
      exact settled_sysret settled result
    · cases taken
  | interrupt scratch =>
    rcases place with execution | _
    · simp only [State.perform, Option.ite_none_right_eq_some, Option.some.injEq] at taken
      obtain ⟨_, rfl⟩ := taken
      exact settled_interrupt settled scratch
    · cases taken
  | switchAway scratch =>
    obtain ⟨registers, esp, ss, running⟩ := ring3 scratch rfl
    cases running
    simp only [State.perform, Option.ite_none_right_eq_some] at taken
    exact settled_switchAway settled taken.2
  | others contextEsp switchToEsp =>
    rcases place with _ | saved
    · cases taken
    · cases taken
      exact ⟨settled.room, settled.esp0, settled.cs, settled.place⟩
  | switchIn esp =>
    rcases place with _ | saved
    · cases taken
    · cases taken
      obtain ⟨_, user, popped⟩ := settled.place
      rw [← popped] at user
      rw [switchIn_eq settled.room settled.esp0 settled.cs user]
      refine ⟨settled.room, settled.esp0, settled.cs, ?_⟩
      obtain ⟨registers, esp, ss, same, interruptible⟩ := user
      rw [same]
      exact interruptible

theorem isUser_taskInit (machine : Machine) (entry : Word) (top : Int) (esp3 : Word) :
    IsUser
      (popContext (machine.taskInit entry top esp3 SEL_USER_CS SEL_USER_DS).memory
        (userContext top)) := by
  let values : List Word := [entry, SEL_USER_CS, EFL_RSRVD ||| EFL_IF, esp3, SEL_USER_DS]
  have frame :
      ∀ index,
        word (machine.taskInit entry top esp3 SEL_USER_CS SEL_USER_DS).memory
            (userContext top) (12 + index) =
          values.getD index (word machine.memory (top - 4 * 5) index) := by
    intro index
    have place :
        userContext top + 4 * ((12 + index : Nat) : Int) = top - 4 * 5 + 4 * (index : Int) := by
      unfold userContext CONTEXT_SIZE
      omega
    show (machine.taskInit entry top esp3 SEL_USER_CS SEL_USER_DS).memory
      (userContext top + 4 * ((12 + index : Nat) : Int)) = _
    rw [place]
    refine (store_outside (Or.inr ?_)).trans word_store
    show top - 4 * 5 - 0x30 + 4 * (4 : Int) ≤ top - 4 * 5 + 4 * (index : Int)
    omega
  have ring3 : ¬SEL_USER_CS = SEL_KERN_CS := by decide
  have flags : (EFL_RSRVD ||| EFL_IF) &&& EFL_IF = EFL_IF := by decide
  unfold popContext
  rw [frame 1]
  refine ⟨_, _, _, if_neg ring3, ?_⟩
  rw [frame 2]
  exact flags

theorem settled_start (initial : (userTask top).start state) : Settled top state := by
  obtain ⟨machine, place⟩ := state
  obtain ⟨room, earlier, entry, esp3, same, away⟩ := initial
  have away : place = .away ⟨userContext top, popContext machine.memory (userContext top)⟩ := away
  subst away same
  refine ⟨?_, rfl, rfl, rfl, isUser_taskInit earlier entry top esp3, rfl⟩
  unfold userContext
  omega

/--
In every run that switches away from the task in ring 3 only, `tss.esp0` does
not drift and every switch to the task goes on from where it was left.
-/
theorem steady_of_switchesInUser (reached : (userTask top).Reached SwitchesInUser state) :
    Steady top state := by
  have settled : Settled top state := by
    refine System.Reached.invariant ?_ ?_ reached
    · exact fun _ initial => settled_start initial
    · exact fun _ _ _ before ring3 taken => settled_perform before ring3 taken
  exact settled.steady

/-! ## A task that waits for its terminal -/

/-- A machine with an empty stack, before the task is set up. -/
def blankMachine : Machine where
  memory := fun _ => 0
  tss := { esp0 := 0, cs := 0 }
  contextEsp := 0
  switchToEsp := 0
  syscallContext := 0

/-- The task after `task_init`, with its kernel stack at 4064. -/
def freshTask : State where
  machine := blankMachine.taskInit 0x1000 4064 0xbffffff0 SEL_USER_CS SEL_USER_DS
  place :=
    .away
      ⟨4064 - 4 * 5 - CONTEXT_SIZE,
        popContext (blankMachine.taskInit 0x1000 4064 0xbffffff0 SEL_USER_CS SEL_USER_DS).memory
          (4064 - 4 * 5 - CONTEXT_SIZE)⟩

theorem freshTask_start : (userTask 4064).start freshTask :=
  ⟨by decide, blankMachine, 0x1000, 0xbffffff0, rfl, rfl⟩

/-- The task in ring 3, after the first switch to it. -/
def startedTask : State := runningState (freshTask.machine.switchIn 0)

theorem startedTask_user :
    ∃ registers esp ss, startedTask.place = .running (.user registers esp ss) :=
  ⟨_, _, _, rfl⟩

theorem steady_after_switch :
    ∃ state, startedTask.perform (.switchAway fun _ => 0) = some state ∧ Steady 4064 state := by
  have returned : (startedTask.perform (.switchAway fun _ => 0)).isSome = true := by decide +kernel
  obtain ⟨state, taken⟩ := Option.isSome_iff_exists.mp returned
  refine ⟨state, taken, ?_⟩
  have started : (userTask 4064).Reached SwitchesInUser startedTask := by
    have taken : freshTask.perform (.switchIn 0) = some startedTask := rfl
    refine System.Reached.step (System.Reached.start freshTask_start) ?_ taken
    intro scratch other
    cases other
  apply steady_of_switchesInUser
  exact System.Reached.step started (fun _ _ => startedTask_user) taken

/-- The registers of a handler. -/
def handlerRegisters (eflags : Word) : Registers where
  general := ⟨0, 0, 0, 0, 0, 0, 0, 0, 0, 0, 0⟩
  eip := 0xc0100000
  eflags := eflags

/-- The stack pointer for ring 0, when the task executes in ring 3. -/
def State.ring3Esp0 (state : State) : Option Int := match state.place with
  | .running (.user _ _ _) => some state.machine.tss.esp0
  | _ => none

/--
The task reads from its terminal; a timer interrupt while it waits switches
away and another one back; the keyboard ends the wait.
-/
def terminalRead : List Action :=
  [.switchIn 0, .syscall (handlerRegisters EFL_RSRVD),
    .work (handlerRegisters (EFL_RSRVD ||| EFL_IF)) 3988 (fun _ => 0), .switchAway (fun _ => 0),
    .switchIn 0, .interrupt (fun _ => 0), .sysret 1]

theorem ring3Esp0_terminalRead :
    (performAll State.perform freshTask terminalRead).map State.ring3Esp0 = some (some 3996) := by
  decide +kernel

/--
A switch while `dev_tty_read` waits moves `tss.esp0` down to the place of
the interrupt in ring 0.  It is there when the task is back in ring 3.
-/
theorem esp0_drifts_in_terminalRead :
    ¬ ∀ top state, (userTask top).Reached unrestricted state → Steady top state := by
  intro steady
  obtain ⟨state, taken, user⟩ := Option.map_eq_some_iff.mp ring3Esp0_terminalRead
  have reached : (userTask 4064).Reached unrestricted state := by
    refine System.Reached.performAll ?_ ?_ taken
    · exact fun _ _ _ performed => ⟨trivial, performed⟩
    · exact System.Reached.start freshTask_start
  have esp0 := (steady 4064 state reached).esp0
  unfold State.ring3Esp0 at user
  split at user
  · rename_i registers esp ss running
    have same := esp0 registers esp ss running
    rw [same] at user
    exact absurd (Option.some.inj user) (by decide)
  · cases user

end Cosec.Core.KernelStacks
