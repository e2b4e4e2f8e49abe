import Mathlib.Data.List.Infix
import Mathlib.Logic.Function.Basic

/-!
# The keyboard buffer

Scancodes are pushed at `head` and popped at `tail` of a circular buffer.
`kbd_push_scancode` stores behind the index it advances and
`kbd_pop_scancode` reads at the index it then advances, so the first pop
that should return a scancode reads a cell that was not written.
-/

namespace Cosec.Dev.KeyboardBuffer

open List

/-- `theKbdBuf`. -/
structure KbdBuf where
  head : UInt8
  tail : UInt8
  buf : UInt8 → UInt8

/-- `kbd_buf_clear`, which leaves the scancodes. -/
def kbdBufClear (kbd : KbdBuf) : KbdBuf := { kbd with head := 0, tail := 0 }

/-- `kbd_pop_scancode`. -/
def kbdPopScancode (kbd : KbdBuf) : UInt8 × KbdBuf :=
  if kbd.head = kbd.tail then (0, kbd)
  else if kbd.tail ≠ 255 then (kbd.buf kbd.tail, { kbd with tail := kbd.tail + 1 })
  else (kbd.buf 255, { kbd with tail := 0 })

/-- `next_circular` with the limit `KBD_BUF_SIZE`. -/
def nextCircular (index : UInt8) : UInt8 := if index ≠ 255 then index + 1 else 0

/-- `kbd_push_scancode`, whose test for a full buffer adds as an `int`. -/
def kbdPushScancode (kbd : KbdBuf) (scan : UInt8) : KbdBuf :=
  let tail := if kbd.tail.toNat = kbd.head.toNat + 1 then nextCircular kbd.tail else kbd.tail
  let head := nextCircular kbd.head
  { head := head, tail := tail, buf := Function.update kbd.buf head scan }

/-! ## Runs -/

/-- A call. -/
inductive Call where
  | push (scan : UInt8)
  | pop
deriving DecidableEq

/-- A call and what it returned. -/
inductive Event where
  | pushed (scan : UInt8)
  | popped (scan : UInt8)
deriving DecidableEq

/-- What happens in a sequence of calls. -/
def events : KbdBuf → List Call → List Event
  | _, [] => []
  | kbd, .push scan :: calls => .pushed scan :: events (kbdPushScancode kbd scan) calls
  | kbd, .pop :: calls =>
    .popped (kbdPopScancode kbd).1 :: events (kbdPopScancode kbd).2 calls

/--
Events of a queue that holds the pending scancodes.  It drops the oldest at
most, and only when it keeps `KBD_BUF_SIZE - 1` or more.
-/
inductive Served : List UInt8 → List Event → Prop
  | done {pending : List UInt8} : Served pending []
  | pushed {pending kept : List UInt8} {scan : UInt8} {later : List Event}
      (latest : kept <:+ pending ++ [scan])
      (enough : kept = pending ++ [scan] ∨ 255 ≤ kept.length)
      (rest : Served kept later) :
      Served pending (.pushed scan :: later)
  | idle {later : List Event} (rest : Served [] later) : Served [] (.popped 0 :: later)
  | popped {pending : List UInt8} {scan : UInt8} {later : List Event}
      (rest : Served pending later) :
      Served (scan :: pending) (.popped scan :: later)

/-- No call pops once a scancode has been pushed. -/
def PopsFirst : List Call → Prop
  | [] => True
  | .pop :: calls => PopsFirst calls
  | .push _ :: calls => .pop ∉ calls

theorem served_pushes
    {calls : List Call} (pushes : .pop ∉ calls) (kbd : KbdBuf) (pending : List UInt8) :
    Served pending (events kbd calls) := by
  induction calls generalizing kbd pending with
  | nil => exact Served.done
  | cons call calls ih =>
    obtain ⟨other, rest⟩ := not_or.mp (mt mem_cons.mpr pushes)
    cases call with
    | pop => exact absurd rfl other
    | push scan =>
      exact Served.pushed suffix_rfl (Or.inl rfl) (ih rest _ _)

/-- Calls that pop only while nothing is pending are served. -/
theorem keyboard_served (kbd : KbdBuf) {calls : List Call} (ordered : PopsFirst calls) :
    Served [] (events (kbdBufClear kbd) calls) := by
  induction calls with
  | nil => exact Served.done
  | cons call calls ih =>
    cases call with
    | push scan =>
      have pushes : .pop ∉ calls := ordered
      exact Served.pushed suffix_rfl (Or.inl rfl) (served_pushes pushes _ _)
    | pop => exact Served.idle (ih ordered)

/-- A buffer that was never used. -/
def freshBuffer : KbdBuf := ⟨0, 0, fun _ => 0⟩

theorem keyboard_served_pop_push :
    PopsFirst [.pop, .push 30] ∧ Served [] (events (kbdBufClear freshBuffer) [.pop, .push 30]) := by
  have ordered : PopsFirst [.pop, .push 30] := not_mem_nil
  exact ⟨ordered, keyboard_served freshBuffer ordered⟩

/-- The first scancode is not returned. -/
theorem keyboard_loses_scancode :
    ¬ ∀ calls, .push 0 ∉ calls → Served [] (events (kbdBufClear freshBuffer) calls) := by
  intro served
  have first := served [.push 30, .pop] (by decide)
  have happened : events (kbdBufClear freshBuffer) [.push 30, .pop] = [.pushed 30, .popped 0] := by
    decide
  rw [happened] at first
  cases first with
  | pushed latest enough rest =>
    rcases enough with all | large
    · subst all
      cases rest
    · exact absurd (latest.length_le) (by simp; omega)

end Cosec.Dev.KeyboardBuffer
