import Cosec.Lib.ByteArrays
import Cosec.Lib.CircularBuffers
import Cosec.Lib.Transition

/-!
# The input queue of a terminal

A `tty_inpqueue` is meant to be a FIFO of bytes in a circular buffer: bytes
are pushed at `start` and popped at `end`.  A queue is wrapped when `start`
is behind `end`.

Pushing and unpushing are right in every state that is not wrapped.  In a
wrapped state `tty_inpq_size` adds up the free part of the buffer, and
`tty_inpq_pop` copies up to the end of the buffer and leaves `end` at the
number of bytes copied.
-/

namespace Cosec.Dev.InputQueue

open Lib.ByteArrays Lib.CircularBuffers Lib.Transition Lib.Word32 List

/-! ## The operations -/

/-- `MAX_INPUT`. -/
def maxInput : Nat := 512

/-- `tty_inpqueue`, with `stop` for `end`. -/
structure InpQueue where
  start : Nat
  stop : Nat
  buf : Nat → UInt8

/-- `tty_inpq_size`. -/
def ttyInpqSize (inpq : InpQueue) : Nat :=
  if inpq.start < inpq.stop then (maxInput - inpq.start) + inpq.stop
  else inpq.start - inpq.stop

/-- `tty_inpq_push`. -/
def ttyInpqPush (inpq : InpQueue) (buf : List UInt8) : Bool × InpQueue :=
  let len := buf.length
  if inpq.start < inpq.stop then
    if inpq.start + len + 1 ≥ inpq.stop then (false, inpq)
    else
      (true,
        { inpq with
          buf := copyIn inpq.buf inpq.start buf
          start := inpq.start + len })
  else if inpq.start + len ≤ maxInput then
    let filled := { inpq with buf := copyIn inpq.buf inpq.start buf }
    if inpq.start + len = maxInput then
      if inpq.stop = 0 then (false, filled)
      else (true, { filled with start := 0 })
    else
      (true, { filled with start := inpq.start + len })
  else
    let breakOffset := maxInput - inpq.start
    if len - breakOffset + 1 ≥ inpq.stop then (false, inpq)
    else
      (true,
        { inpq with
          buf := copyIn (copyIn inpq.buf inpq.start (buf.take breakOffset)) 0 (buf.drop breakOffset)
          start := len - breakOffset })

/-- `tty_inpq_unpush`. -/
def ttyInpqUnpush : InpQueue → Nat → Bool × InpQueue
  | inpq, 0 => (true, inpq)
  | inpq, len + 1 =>
    if inpq.start = inpq.stop then (false, inpq)
    else
      let start := if inpq.start = 0 then maxInput else inpq.start
      ttyInpqUnpush { inpq with start := start - 1 } len

/-- Consecutive bytes of the buffer. -/
def slice (buf : Nat → UInt8) (start count : Nat) : List UInt8 :=
  (List.range count).map fun offset => buf (start + offset)

/--
`tty_inpq_pop`: the number of bytes popped, the caller's buffer and the
queue.
-/
def ttyInpqPop (inpq : InpQueue) (buf : Nat → UInt8) (len : Nat) : Nat × (Nat → UInt8) × InpQueue :=
  if inpq.start = inpq.stop then (0, buf, inpq)
  else if inpq.stop < inpq.start then
    let popped := if len > inpq.start - inpq.stop then sub32 inpq.stop inpq.start else len
    (popped, copyIn buf 0 (slice inpq.buf inpq.stop popped),
      { inpq with stop := wrap32 (inpq.stop + popped) })
  else
    let breakOffset := maxInput - inpq.stop
    let popped := if (maxInput - inpq.stop) + inpq.start < len then
        inpq.start + breakOffset
      else len
    (popped,
      copyIn (copyIn buf 0 (slice inpq.buf inpq.stop breakOffset))
        breakOffset (slice inpq.buf 0 (sub32 popped breakOffset)),
      { inpq with stop := breakOffset })

/-! ## The abstract queue -/

/-- How many bytes lie between `end` and `start` around the buffer. -/
def fill (inpq : InpQueue) : Nat :=
  if inpq.stop ≤ inpq.start then inpq.start - inpq.stop
  else maxInput - inpq.stop + inpq.start

/-- The bytes from `end` up to `start` around the buffer. -/
def contents (inpq : InpQueue) : List UInt8 := window inpq.buf maxInput inpq.stop (fill inpq)

/-- Both indices are in the buffer and the queue is not wrapped. -/
structure Unwrapped (inpq : InpQueue) : Prop where
  ordered : inpq.stop ≤ inpq.start
  inBuffer : inpq.start < maxInput

variable {inpq later : InpQueue} {buf : List UInt8}

/-- What a push may do to the contents. -/
structure Pushes (inpq : InpQueue) (buf : List UInt8) (outcome : Bool × InpQueue) : Prop where
  accepted : outcome.1 = true → contents outcome.2 = contents inpq ++ buf
  refused : outcome.1 = false → contents outcome.2 = contents inpq

/-- What a pop of `len` bytes should do. -/
structure Pops
    (inpq : InpQueue) (buf : Nat → UInt8) (len : Nat)
    (outcome : Nat × (Nat → UInt8) × InpQueue) : Prop where
  popped : outcome.1 = len
  delivered : ∀ offset < len, some (outcome.2.1 offset) = (contents inpq)[offset]?
  untouched : ∀ offset, len ≤ offset → offset < 4294967296 → outcome.2.1 offset = buf offset
  removed : contents outcome.2.2 = (contents inpq).drop len

theorem pushes_true (appended : contents later = contents inpq ++ buf) :
    Pushes inpq buf (true, later) where
  accepted := fun _ => appended
  refused := by
    intro refused
    cases refused

theorem pushes_false (same : contents later = contents inpq) : Pushes inpq buf (false, later) where
  accepted := by
    intro accepted
    cases accepted
  refused := fun _ => same

/-- Bytes stored behind the contents become part of them. -/
theorem contents_append
    (sameStop : later.stop = inpq.stop) (grown : fill later = fill inpq + buf.length)
    (kept :
      ∀ offset < fill inpq,
        later.buf ((inpq.stop + offset) % maxInput) = inpq.buf ((inpq.stop + offset) % maxInput))
    (added :
      ∀ offset (inside : offset < buf.length),
        later.buf ((inpq.stop + fill inpq + offset) % maxInput) = buf[offset]) :
    contents later = contents inpq ++ buf := by
  unfold contents
  rw [sameStop, grown]
  exact window_append kept added

section Unwrapped

variable (unwrapped : Unwrapped inpq)

include unwrapped

theorem Unwrapped.fill_eq : fill inpq = inpq.start - inpq.stop :=
  if_pos unwrapped.ordered

/-- The cells of a queue that is not wrapped lie before `start`. -/
theorem Unwrapped.cell_eq {offset : Nat} (inside : offset < fill inpq) :
    (inpq.stop + offset) % maxInput = inpq.stop + offset ∧ inpq.stop + offset < inpq.start := by
  rw [unwrapped.fill_eq] at inside
  have bound := unwrapped.inBuffer
  unfold maxInput at *
  omega

/-- The bytes of a push that reaches the end of the buffer at most. -/
theorem Unwrapped.contents_push_straight (room : inpq.start + buf.length ≤ maxInput)
    (stored : later.buf = copyIn inpq.buf inpq.start buf) (sameStop : later.stop = inpq.stop)
    (grown : fill later = fill inpq + buf.length) : contents later = contents inpq ++ buf := by
  have ordered := unwrapped.ordered
  have fillEq := unwrapped.fill_eq
  unfold maxInput at room
  apply contents_append sameStop grown
  · intro offset inside
    obtain ⟨cell, before⟩ := unwrapped.cell_eq inside
    rw [cell, stored]
    apply copyIn_outside
    · omega
    · omega
    · exact Or.inl before
  · intro offset inside
    have cell : (inpq.stop + fill inpq + offset) % maxInput = inpq.start + offset := by
      unfold maxInput
      omega
    rw [cell, stored]
    exact copyIn_inside (by omega) inside

/-- The bytes of a push that goes around the end of the buffer. -/
theorem Unwrapped.contents_push_around (small : buf.length ≤ 4)
    (beyond : maxInput < inpq.start + buf.length)
    (room : buf.length - (maxInput - inpq.start) + 1 < inpq.stop)
    (stored :
      later.buf =
        copyIn (copyIn inpq.buf inpq.start (buf.take (maxInput - inpq.start)))
          0 (buf.drop (maxInput - inpq.start)))
    (sameStop : later.stop = inpq.stop) (grown : fill later = fill inpq + buf.length) :
    contents later = contents inpq ++ buf := by
  have ordered := unwrapped.ordered
  have bound := unwrapped.inBuffer
  have fillEq := unwrapped.fill_eq
  have front : (buf.take (maxInput - inpq.start)).length = maxInput - inpq.start :=
    length_take_of_le (by omega)
  have back : (buf.drop (maxInput - inpq.start)).length = buf.length - (maxInput - inpq.start) :=
    length_drop
  apply contents_append sameStop grown
  · intro offset inside
    obtain ⟨cell, before⟩ := unwrapped.cell_eq inside
    rw [cell, stored]
    unfold maxInput at *
    rw [copyIn_outside (by omega) (by omega) (by omega)]
    exact copyIn_outside (by omega) (by omega) (by omega)
  · intro offset inside
    rw [stored]
    rcases lt_or_ge offset (maxInput - inpq.start) with
      inFront | inBack
    · have cell : (inpq.stop + fill inpq + offset) % maxInput = inpq.start + offset := by
        unfold maxInput at *
        omega
      rw [cell]
      unfold maxInput at *
      rw [copyIn_outside (by omega) (by omega) (by omega), copyIn_inside (by omega) (by omega)]
      exact getElem_take
    · have cell :
          (inpq.stop + fill inpq + offset) % maxInput = 0 + (offset - (maxInput - inpq.start)) := by
        unfold maxInput at *
        omega
      rw [cell]
      rw [copyIn_inside (by omega) (by omega), getElem_drop]
      congr 1
      omega

theorem Unwrapped.push (small : buf.length ≤ 4) : Pushes inpq buf (ttyInpqPush inpq buf) := by
  have ordered := unwrapped.ordered
  have bound := unwrapped.inBuffer
  unfold ttyInpqPush
  rw [if_neg (not_lt.mpr ordered)]
  by_cases straight : inpq.start + buf.length ≤ maxInput
  · rw [if_pos straight]
    by_cases full : inpq.start + buf.length = maxInput
    · rw [if_pos full]
      by_cases first : inpq.stop = 0
      · rw [if_pos first]
        apply pushes_false
        apply window_congr
        intro offset inside
        obtain ⟨cell, before⟩ := unwrapped.cell_eq inside
        simp only [cell]
        unfold maxInput at *
        exact copyIn_outside (by omega) (by omega) (Or.inl before)
      · rw [if_neg first]
        apply pushes_true
        refine unwrapped.contents_push_straight straight ?_ ?_ ?_
        · rfl
        · rfl
        · unfold fill
          rw [if_neg (by simp only; omega), if_pos ordered]
          simp only
          omega
    · rw [if_neg full]
      apply pushes_true
      refine unwrapped.contents_push_straight straight ?_ ?_ ?_
      · rfl
      · rfl
      · unfold fill
        rw [if_pos (by simp only; omega), if_pos ordered]
        simp only
        omega
  · rw [if_neg straight]
    by_cases crowded : buf.length - (maxInput - inpq.start) + 1 ≥ inpq.stop
    · simp only [if_pos crowded]
      exact pushes_false rfl
    · simp only [if_neg crowded]
      apply pushes_true
      refine unwrapped.contents_push_around small (by omega) (by omega) ?_ ?_ ?_
      · rfl
      · rfl
      · unfold fill
        rw [if_neg (by simp only; omega), if_pos ordered]
        simp only
        omega

theorem Unwrapped.unpush_empty (empty : contents inpq = []) :
    ttyInpqUnpush inpq 1 = (false, inpq) := by
  have length : (contents inpq).length = 0 := by rw [empty, length_nil]
  unfold contents at length
  rw [length_window, unwrapped.fill_eq] at length
  have ordered := unwrapped.ordered
  rw [ttyInpqUnpush, if_pos (by omega)]

theorem Unwrapped.unpush (nonempty : contents inpq ≠ []) :
    (ttyInpqUnpush inpq 1).1 = true ∧ contents (ttyInpqUnpush inpq 1).2 = (contents inpq).dropLast ∧
      Unwrapped (ttyInpqUnpush inpq 1).2 := by
  have ordered := unwrapped.ordered
  have bound := unwrapped.inBuffer
  have different : inpq.start ≠ inpq.stop := by
    intro same
    apply nonempty
    unfold contents
    rw [unwrapped.fill_eq, same, Nat.sub_self]
    rfl
  have stepped : ttyInpqUnpush inpq 1 = (true, { inpq with start := inpq.start - 1 }) := by
    rw [ttyInpqUnpush, if_neg different, ttyInpqUnpush, if_neg (by omega)]
  have later : Unwrapped { inpq with start := inpq.start - 1 } := by
    constructor
    · show inpq.stop ≤ inpq.start - 1
      omega
    · show inpq.start - 1 < maxInput
      omega
  rw [stepped]
  refine ⟨rfl, ?_, later⟩
  have shrunk : fill { inpq with start := inpq.start - 1 } = fill inpq - 1 := by
    rw [later.fill_eq, unwrapped.fill_eq]
    simp only
    omega
  unfold contents
  rw [shrunk, dropLast_eq_take, length_window]
  exact (take_window (Nat.sub_le _ _)).symm

theorem Unwrapped.pop {len : Nat} (buf : Nat → UInt8) (positive : 1 ≤ len)
    (enough : len ≤ (contents inpq).length) :
    Pops inpq buf len (ttyInpqPop inpq buf len) ∧ Unwrapped (ttyInpqPop inpq buf len).2.2 := by
  have bound := unwrapped.inBuffer
  have fillEq := unwrapped.fill_eq
  unfold contents at enough
  rw [length_window] at enough
  have outcome :
      ttyInpqPop inpq buf len =
        (len, copyIn buf 0 (slice inpq.buf inpq.stop len),
          { inpq with stop := inpq.stop + len }) := by
    unfold ttyInpqPop
    unfold maxInput at bound
    rw [if_neg (by omega), if_pos (by omega)]
    simp only [if_neg (show ¬ len > inpq.start - inpq.stop by omega)]
    rw [wrap32_of_lt (by omega)]
  have later : Unwrapped { inpq with stop := inpq.stop + len } := by
    constructor
    · show inpq.stop + len ≤ inpq.start
      omega
    · exact bound
  have length : (slice inpq.buf inpq.stop len).length = len := by simp [slice]
  have small : len < 512 := by
    unfold maxInput at bound
    omega
  rw [outcome]
  refine ⟨⟨rfl, ?_, ?_, ?_⟩, later⟩
  · intro offset inside
    have stored :
        copyIn buf 0 (slice inpq.buf inpq.stop len) (0 + offset) =
          (slice inpq.buf inpq.stop len)[offset] :=
      copyIn_inside (by omega) (by omega)
    rw [zero_add] at stored
    obtain ⟨cell, _⟩ := unwrapped.cell_eq (lt_of_lt_of_le inside enough)
    have found : (contents inpq)[offset]? = some (inpq.buf ((inpq.stop + offset) % maxInput)) := by
      unfold contents
      rw [getElem?_eq_getElem (by rw [length_window]; omega), getElem_window]
    have byte : (slice inpq.buf inpq.stop len)[offset] = inpq.buf (inpq.stop + offset) := by
      simp [slice]
    rw [found, cell]
    exact congrArg some (stored.trans byte)
  · intro offset behind address
    exact copyIn_outside (by omega) address (Or.inr (by omega))
  · have shrunk : fill { inpq with stop := inpq.stop + len } = fill inpq - len := by
      rw [later.fill_eq, fillEq]
      simp only
      omega
    unfold contents
    rw [shrunk]
    exact (drop_window enough).symm

end Unwrapped

/-! ## Sequences of operations -/

/-- A call of one of the operations, with the arguments of its callers. -/
inductive Operation where
  | push (buf : List UInt8)
  | unpush
  | pop (len : Nat)

/-- The arguments that callers pass. -/
def Callable (inpq : InpQueue) : Operation → Prop
  | .push buf => 1 ≤ buf.length ∧ buf.length ≤ 4
  | .unpush => True
  | .pop len => 1 ≤ len ∧ len ≤ (contents inpq).length

instance (inpq : InpQueue) (operation : Operation) : Decidable (Callable inpq operation) :=
  match operation with
  | .push buf => inferInstanceAs (Decidable (1 ≤ buf.length ∧ buf.length ≤ 4))
  | .unpush => inferInstanceAs (Decidable True)
  | .pop len => inferInstanceAs (Decidable (1 ≤ len ∧ len ≤ (contents inpq).length))

/-- The queue after a call. -/
def perform (inpq : InpQueue) : Operation → InpQueue
  | .push buf => (ttyInpqPush inpq buf).2
  | .unpush => (ttyInpqUnpush inpq 1).2
  | .pop len => (ttyInpqPop inpq (fun _ => 0) len).2.2

/-- The calls made on one queue, from the empty queue on. -/
def queueSystem : System InpQueue Operation where
  start inpq := inpq.start = 0 ∧ inpq.stop = 0
  step inpq operation target := Callable inpq operation ∧ target = perform inpq operation

/-- A push that does not wrap the queue: it ends earlier, or is refused. -/
def StaysStraight (inpq : InpQueue) : Operation → Prop
  | .push buf =>
    inpq.start + buf.length < maxInput ∨ (inpq.start + buf.length = maxInput ∧ inpq.stop = 0) ∨
      (maxInput < inpq.start + buf.length ∧ inpq.stop ≤ buf.length - (maxInput - inpq.start) + 1)
  | .unpush => True
  | .pop _ => True

/-- The operations and the size are those of a FIFO of bytes. -/
structure Fifo (inpq : InpQueue) : Prop where
  size : ttyInpqSize inpq = (contents inpq).length
  push : ∀ buf, 1 ≤ buf.length → buf.length ≤ 4 → Pushes inpq buf (ttyInpqPush inpq buf)
  unpushEmpty : contents inpq = [] → ttyInpqUnpush inpq 1 = (false, inpq)
  unpush : contents inpq ≠ [] →
    (ttyInpqUnpush inpq 1).1 = true ∧ contents (ttyInpqUnpush inpq 1).2 = (contents inpq).dropLast
  pop :
    ∀ len buf, 1 ≤ len → len ≤ (contents inpq).length → Pops inpq buf len (ttyInpqPop inpq buf len)

theorem Unwrapped.fifo (unwrapped : Unwrapped inpq) : Fifo inpq := by
  constructor
  · unfold ttyInpqSize contents
    rw [length_window, unwrapped.fill_eq, if_neg (not_lt.mpr unwrapped.ordered)]
  · intro buf _ small
    exact unwrapped.push small
  · exact unwrapped.unpush_empty
  · intro nonempty
    obtain ⟨removed, rest, _⟩ := unwrapped.unpush nonempty
    exact ⟨removed, rest⟩
  · intro len buf positive enough
    exact (unwrapped.pop buf positive enough).1

/-- A push that stays straight leaves the queue unwrapped. -/
theorem Unwrapped.push_straight
    (unwrapped : Unwrapped inpq) (straight : StaysStraight inpq (.push buf)) :
    Unwrapped (ttyInpqPush inpq buf).2 := by
  have ordered := unwrapped.ordered
  unfold ttyInpqPush
  rw [if_neg (not_lt.mpr ordered)]
  rcases straight with short | ⟨full, first⟩ | ⟨beyond, crowded⟩
  · rw [if_pos (le_of_lt short), if_neg (ne_of_lt short)]
    constructor
    · show inpq.stop ≤ inpq.start + buf.length
      omega
    · exact short
  · rw [if_pos (le_of_eq full), if_pos full, if_pos first]
    exact ⟨ordered, unwrapped.inBuffer⟩
  · simp only [if_neg (not_le.mpr beyond), if_pos crowded]
    exact unwrapped

theorem Unwrapped.perform
    (unwrapped : Unwrapped inpq) {operation : Operation} (callable : Callable inpq operation)
    (straight : StaysStraight inpq operation) : Unwrapped (perform inpq operation) := by
  cases operation with
  | push buf => exact unwrapped.push_straight straight
  | unpush =>
    show Unwrapped (ttyInpqUnpush inpq 1).2
    by_cases empty : contents inpq = []
    · rw [unwrapped.unpush_empty empty]
      exact unwrapped
    · exact (unwrapped.unpush empty).2.2
  | pop len => exact (unwrapped.pop _ callable.1 callable.2).2

theorem unwrapped_of_reached (reached : queueSystem.Reached StaysStraight inpq) :
    Unwrapped inpq := by
  refine System.Reached.invariant ?_ ?_ reached
  · rintro state ⟨startZero, stopZero⟩
    constructor
    · rw [startZero, stopZero]
    · rw [startZero]
      decide
  · rintro source operation target unwrapped straight ⟨callable, rfl⟩
    exact unwrapped.perform callable straight

/--
In every run in which no push wraps the queue, the queue behaves as a FIFO
in every state.
-/
theorem queue_fifo_of_straight (reached : queueSystem.Reached StaysStraight inpq) : Fifo inpq :=
  (unwrapped_of_reached reached).fifo

/-- An empty queue with a cleared buffer. -/
def emptyQueue : InpQueue where
  start := 0
  stop := 0
  buf := fun _ => 0

theorem emptyQueue_start : queueSystem.start emptyQueue := ⟨rfl, rfl⟩

theorem queue_fifo_three_bytes :
    contents (perform emptyQueue (.push [1, 2, 3])) = [1, 2, 3] ∧
      Fifo (perform emptyQueue (.push [1, 2, 3])) := by
  refine ⟨by decide, ?_⟩
  have callable : Callable emptyQueue (.push [1, 2, 3]) := by decide
  have straight : StaysStraight emptyQueue (.push [1, 2, 3]) := Or.inl (by decide)
  apply queue_fifo_of_straight
  exact System.Reached.step (System.Reached.start emptyQueue_start) straight ⟨callable, rfl⟩

/-- A call that is made as its callers make it. -/
def performCallable (inpq : InpQueue) (operation : Operation) : Option InpQueue :=
  if Callable inpq operation then some (perform inpq operation) else none

/-- Bytes up to the end of the buffer, of which only the last four stay. -/
def wrappingCalls : List Operation :=
  List.replicate 127 (.push [1, 2, 3, 4]) ++ [.pop 508, .push [5, 6, 7, 8]]

/-- Four bytes in a wrapped queue are reported as `1020`. -/
theorem queue_not_fifo_when_wrapped :
    ¬ ∀ inpq, queueSystem.Reached unrestricted inpq → Fifo inpq := by
  intro always
  obtain ⟨inpq, performed, reported, held⟩ : ∃ inpq,
      performAll performCallable emptyQueue wrappingCalls = some inpq ∧
        ttyInpqSize inpq = 1020 ∧ (contents inpq).length = 4 :=
    exists_of_any (by decide +kernel)
  have reached : queueSystem.Reached unrestricted inpq := by
    refine System.Reached.performAll ?_ ?_ performed
    · intro source operation target returned
      obtain ⟨callable, ⟨⟩⟩ := Option.ite_none_right_eq_some.mp returned
      exact ⟨trivial, callable, rfl⟩
    · exact System.Reached.start emptyQueue_start
  have size := (always inpq reached).size
  rw [reported, held] at size
  cases size

end Cosec.Dev.InputQueue
