import Mathlib.Tactic.SplitIfs
import Cosec.Dev.ConsoleWrites
import Cosec.Lib.Transition
import Cosec.Lib.Word32

/-!
# Cursors stay on the screen

In `vcs_data` the line and the column of a cursor are words, and the routines
compare and add them as words and as signed integers.  On a cursor that is
on the screen each routine does what `Cursor` says, so every cursor stays on
the screen in every run.
-/

namespace Cosec.Dev.CursorBounds

open Dev.ConsoleWrites Dev.VirtualConsoles Function Lib.Transition Lib.Word32

/-- `line` and `col` of an entry of `vcs_data`. -/
structure WordCursor where
  line : Nat
  col : Nat
deriving DecidableEq

/-- `vcsa_set_cursor`. -/
def WordCursor.setCursor (cursor : WordCursor) (x y : Int) : WordCursor :=
  let x := if x ≥ 80 then 79 else x
  let y := if y ≥ 25 then 24 else y
  { line := if y ≥ 0 then y.toNat else cursor.line
    col := if x ≥ 0 then x.toNat else cursor.col }

/-- A coordinate moved by `vcsa_move_cursor_by`, up to a last one. -/
def moveCoordinate (limit : Int) (word : Nat) (delta : Int) : Nat :=
  let moved := toInt (toInt word + delta)
  if moved ≥ limit then (limit - 1).toNat else if moved < 0 then 0 else moved.toNat

/-- `vcsa_newline`. -/
def WordCursor.newline (cursor : WordCursor) : WordCursor where
  line := if wrap32 (cursor.line + 1) < 25 then wrap32 (cursor.line + 1) else cursor.line
  col := 0

/-- `vcsa_move_cursor_back`. -/
def WordCursor.back (cursor : WordCursor) : WordCursor :=
  let x := toInt cursor.col
  let y := toInt cursor.line
  if y = 0 ∧ x = 0 then cursor
  else if x = 0 then cursor.setCursor 79 (y - 1)
  else cursor.setCursor (x - 1) y

/-- `vcsa_move_cursor_tabstop`. -/
def WordCursor.tabstop (cursor : WordCursor) : WordCursor :=
  let x := 8 * (1 + (toInt cursor.col).tdiv 8)
  cursor.setCursor (if x ≥ 80 then 79 else x) (toInt cursor.line)

/-- `vcsa_move_cursor_next`. -/
def WordCursor.next (cursor : WordCursor) : WordCursor :=
  if wrap32 (cursor.col + 1) < 80 then { cursor with col := wrap32 (cursor.col + 1) }
  else cursor.newline

/-- The routines, with the arguments that their effect on a cursor depends on. -/
inductive Routine where
  | setAttribute
  | setCursor (x y : Int)
  | eraseLine
  | eraseScreen
  | clear
  | switch
  | scrollLines
  | moveCursorBy (dx dy : Int)
  | newline
  | moveCursorBack
  | moveCursorTabstop
  | moveCursorNext
  | setChar
  | cprint
deriving DecidableEq

/-- What a routine does to the cursor of its console. -/
def Routine.move (cursor : WordCursor) : Routine → WordCursor
  | .setCursor x y => cursor.setCursor x y
  | .clear => cursor.setCursor 0 0
  | .moveCursorBy dx dy =>
    ⟨moveCoordinate 25 cursor.line dy, moveCoordinate 80 cursor.col dx⟩
  | .newline => cursor.newline
  | .moveCursorBack => cursor.back
  | .moveCursorTabstop => cursor.tabstop
  | .moveCursorNext => cursor.next
  | .cprint => cursor.next
  | _ => cursor

/-- The routine that `cprint` calls for a character. -/
def cprintRoutine (char : UInt8) : Routine :=
  if char = 0x0a then .newline
  else if char = 0x0d then .setCursor 0 (-1)
  else if char = 0x09 then .moveCursorTabstop
  else if char = 0x08 then .moveCursorBack
  else .cprint

/-- The routines that `dev_tty_write` calls for a command. -/
def routines (vcsno : Fin 8) : Command → List (Fin 8 × Routine)
  | .nothing => []
  | .backspace => [(vcsno, .moveCursorBack), (vcsno, .setChar)]
  | .tab => [(vcsno, .moveCursorTabstop)]
  | .newline => [(vcsno, .newline)]
  | .moveBy dx dy => [(vcsno, .moveCursorBy dx dy)]
  | .setCursor x y => [(vcsno, .setCursor x y)]
  | .clear => [(vcsno, .clear)]
  | .setTabstop => tabstopError.flatten.map fun char => (CONSOLE_VCSA, cprintRoutine char)
  | .eraseScreen _ => [(vcsno, .eraseScreen)]
  | .eraseLine _ => [(vcsno, .eraseLine)]
  | .graphicMode _ => [(vcsno, .setAttribute)]
  | .print _ => [(vcsno, .cprint)]
  | .printControl _ => [(vcsno, .cprint), (vcsno, .cprint)]

/-- The cursors of all consoles after a routine of one of them. -/
def callRoutine (cursors : Fin 8 → WordCursor) (call : Fin 8 × Routine) : Fin 8 → WordCursor :=
  update cursors call.1 (call.2.move (cursors call.1))

/-- A call of a routine, or of `dev_tty_write` with some bytes. -/
inductive Operation where
  | call (vcsno : Fin 8) (routine : Routine)
  | ttyWrite (around : Surroundings) (vcsno : Fin 8) (buf : List UInt8)

/-- The routines that an operation calls. -/
def Operation.calls : Operation → List (Fin 8 × Routine)
  | .call vcsno routine => [(vcsno, routine)]
  | .ttyWrite around vcsno buf => (readCommands around 0 buf).flatMap (routines vcsno)

/-- Operations from the cleared `vcs_data` on. -/
def cursorSystem : System (Fin 8 → WordCursor) Operation where
  start cursors := ∀ vcsno, cursors vcsno = ⟨0, 0⟩
  step cursors operation later := later = operation.calls.foldl callRoutine cursors

/-! ## The cursors of the screen -/

/-- The words of a cursor on the screen. -/
def ofCursor (cursor : Cursor) : WordCursor := ⟨cursor.line.val, cursor.col.val⟩

theorem toInt_of_lt {value : Nat} (small : value < 80) : toInt value = value := by
  unfold toInt
  rw [Int.bmod_def]
  omega

theorem setCursor_ofCursor (cursor : Cursor) (x y : Int) :
    (ofCursor cursor).setCursor x y = ofCursor (cursor.place x y) := by
  unfold WordCursor.setCursor Cursor.place ofCursor clamp
  dsimp only
  congr 1
  · split_ifs <;> simp <;> omega
  · split_ifs <;> simp <;> omega

theorem moveCoordinate_clamp {last word : Nat} (inside : word < 80) (delta : Int) :
    moveCoordinate (last + 1) word delta = (clamp last (toInt (word + delta))).val := by
  unfold moveCoordinate clamp
  rw [toInt_of_lt inside]
  dsimp only
  split_ifs <;> omega

theorem newline_ofCursor (cursor : Cursor) :
    (ofCursor cursor).newline = ofCursor cursor.newline := by
  unfold WordCursor.newline Cursor.newline ofCursor clamp wrap32
  congr 1
  dsimp only
  split_ifs <;> omega

theorem next_ofCursor (cursor : Cursor) : (ofCursor cursor).next = ofCursor cursor.next := by
  have word : wrap32 (cursor.col.val + 1) = cursor.col.val + 1 := wrap32_of_lt (by omega)
  unfold WordCursor.next Cursor.next
  simp only [ofCursor, word]
  split_ifs with inside
  · simp only [clamp, WordCursor.mk.injEq, true_and]
    omega
  · exact newline_ofCursor cursor

theorem back_ofCursor (cursor : Cursor) : (ofCursor cursor).back = ofCursor cursor.back := by
  have line : toInt cursor.line.val = cursor.line.val := toInt_of_lt (by omega)
  have col := toInt_of_lt cursor.col.isLt
  unfold WordCursor.back Cursor.back
  simp only [show (ofCursor cursor).line = cursor.line.val from rfl,
    show (ofCursor cursor).col = cursor.col.val from rfl, line, col, Int.natCast_eq_zero,
    setCursor_ofCursor]
  split_ifs
  · rfl
  · rfl
  · rfl

theorem tabstop_ofCursor (cursor : Cursor) :
    (ofCursor cursor).tabstop = ofCursor (cursor.place cursor.tabstop cursor.line.val) := by
  have line : toInt cursor.line.val = cursor.line.val := toInt_of_lt (by omega)
  have col := toInt_of_lt cursor.col.isLt
  have column :
      (if 8 * (1 + (cursor.col.val : Int).tdiv 8) ≥ 80 then 79
        else 8 * (1 + (cursor.col.val : Int).tdiv 8)) = cursor.tabstop := by
    rw [Int.tdiv_eq_ediv_of_nonneg (Int.natCast_nonneg _)]
    unfold Cursor.tabstop
    split_ifs <;> omega
  rw [← setCursor_ofCursor, ← column, ← line, ← col]
  rfl

/-- Each routine leaves a cursor that is on the screen there. -/
theorem move_ofCursor (routine : Routine) (cursor : Cursor) :
    ∃ later : Cursor, routine.move (ofCursor cursor) = ofCursor later := by
  cases routine with
  | setCursor x y => exact ⟨_, setCursor_ofCursor cursor x y⟩
  | clear => exact ⟨_, setCursor_ofCursor cursor 0 0⟩
  | moveCursorBy dx dy =>
    refine ⟨cursor.moveBy dx dy, ?_⟩
    exact congrArg₂ WordCursor.mk (@moveCoordinate_clamp 24 cursor.line.val (by omega) dy)
      (@moveCoordinate_clamp 79 _ cursor.col.isLt dx)
  | newline => exact ⟨_, newline_ofCursor cursor⟩
  | moveCursorBack => exact ⟨_, back_ofCursor cursor⟩
  | moveCursorTabstop => exact ⟨_, tabstop_ofCursor cursor⟩
  | moveCursorNext => exact ⟨_, next_ofCursor cursor⟩
  | cprint => exact ⟨_, next_ofCursor cursor⟩
  | _ => exact ⟨cursor, rfl⟩

/-- Every cursor is on the screen. -/
def OnScreen (cursors : Fin 8 → WordCursor) : Prop := ∀ vcsno, ∃ cursor, cursors vcsno = ofCursor cursor

theorem OnScreen.callRoutine
    {cursors : Fin 8 → WordCursor} (onScreen : OnScreen cursors) (call : Fin 8 × Routine) :
    OnScreen (callRoutine cursors call) := by
  intro vcsno
  unfold CursorBounds.callRoutine
  by_cases own : vcsno = call.1
  · obtain ⟨cursor, placed⟩ := onScreen call.1
    rw [own, update_self, placed]
    exact move_ofCursor call.2 cursor
  · rw [update_of_ne own]
    exact onScreen vcsno

theorem OnScreen.calls {cursors : Fin 8 → WordCursor} (onScreen : OnScreen cursors)
    (calls : List (Fin 8 × Routine)) : OnScreen (calls.foldl CursorBounds.callRoutine cursors) := by
  induction calls generalizing cursors with
  | nil => exact onScreen
  | cons call calls ih => exact ih (onScreen.callRoutine call)

/-- In every run every cursor stays on the screen. -/
theorem cursors_on_screen
    {cursors : Fin 8 → WordCursor} (reached : cursorSystem.Reached unrestricted cursors)
    (vcsno : Fin 8) : (cursors vcsno).line < 25 ∧ (cursors vcsno).col < 80 := by
  have onScreen : OnScreen cursors := by
    refine System.Reached.invariant ?_ ?_ reached
    · intro cursors start vcsno
      exact ⟨.home, start vcsno⟩
    · rintro source operation target onScreen _ rfl
      exact onScreen.calls operation.calls
  obtain ⟨cursor, placed⟩ := onScreen vcsno
  rw [placed]
  exact ⟨cursor.line.isLt, cursor.col.isLt⟩

/-- The cleared cursors. -/
def homeCursors : Fin 8 → WordCursor := fun _ => ⟨0, 0⟩

/-- A motion that overflows. -/
def overflowingMotion (vcsno : Fin 8) : Operation :=
  .call vcsno (.moveCursorBy 2147483647 2147483647)

theorem cursors_on_screen_overflow :
    let cursors := (overflowingMotion 1).calls.foldl callRoutine homeCursors
    (cursors 1).line < 25 ∧ (cursors 1).col < 80 := by
  have start : cursorSystem.start homeCursors := fun _ => rfl
  have moved : cursorSystem.step homeCursors (overflowingMotion 1) _ := rfl
  exact cursors_on_screen ((System.Reached.start start).step trivial moved) 1

end Cosec.Dev.CursorBounds
