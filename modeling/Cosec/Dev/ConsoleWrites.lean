import Cosec.Dev.VirtualConsoles
import Cosec.Libc.CharacterClasses

/-!
# Writing to a console

`dev_tty_write` reads control characters and escape sequences off its bytes
and has the routines of the console carry them out.  What it reads depends on
the bytes alone, so it is a list of commands that are performed in turn.

A write keeps to its console exactly if no cursor motion takes the cursor
more than a screen below the last line, and the unfinished `ESC H`, which
prints an error to console 0, is only written there.
-/

namespace Cosec.Dev.ConsoleWrites

open Dev.VirtualConsoles Libc.CharacterClasses List

/--
What the code reads outside its data: the words before `ascii_chrgrp`, for
characters that are negative as a `char`; the word at address zero; and the
bytes behind the buffer.
-/
structure Surroundings where
  chrgrpBefore : UInt8 → Nat
  nullWord : Int
  behind : List UInt8

variable (around : Surroundings)

/-- The value of a `char`. -/
def charValue (char : UInt8) : Int := Int.bmod char.toNat 256

/-! ## Commands -/

/-- What a character or an escape sequence asks for. -/
inductive Command where
  | nothing
  | backspace
  | tab
  | newline
  | moveBy (dx dy : Int)
  | setCursor (x y : Int)
  | clear
  | setTabstop
  | eraseScreen (method : Eraser)
  | eraseLine (method : Eraser)
  | graphicMode (arg : Int)
  | print (char : UInt8)
  | printControl (char : UInt8)
deriving DecidableEq

/-- The eraser of `ESC [ J` and `ESC [ K`, which may read through null. -/
def csiEraser (arg1 : Option Int) : Option Eraser := match arg1.getD 1 with
  | 1 =>
    if arg1.getD around.nullWord ≠ 0 then some .beforeCursor
    else some .afterCursor
  | 2 => some .whole
  | _ => none

/-- `ecma48_csi`. -/
def ecma48Csi (char : UInt8) (a1 a2 : Option Int) : Command :=
  let arg1 := a1.getD 1
  let arg2 := a2.getD 1
  if char = 0x41 then .moveBy 0 (toInt (-arg1))
  else if char = 0x42 then .moveBy 0 arg1
  else if char = 0x44 then .moveBy (toInt (-arg1)) 0
  else if char = 0x43 then .moveBy arg1 0
  else if char = 0x46 then .moveBy (-80) (toInt (-arg1))
  else if char = 0x45 then .moveBy (-80) arg1
  else if char = 0x47 then .setCursor arg1 (-1)
  else if char = 0x48 then .setCursor arg2 arg1
  else if char = 0x4a then
    ((csiEraser around a1).map .eraseScreen).getD .nothing
  else if char = 0x4b then
    ((csiEraser around a1).map .eraseLine).getD .nothing
  else if char = 0x6d then .graphicMode (a1.getD 0)
  else .nothing

/-- The number that digits make, and what follows them. -/
def readNumber (value : Int) : List UInt8 → Int × List UInt8
  | [] => (value, [])
  | char :: rest =>
    if isdigit around.chrgrpBefore char then
      readNumber (toInt (value * 10 + (charValue char - 0x30))) rest
    else (value, char :: rest)

/-- The character at a pointer. -/
def charAt (text : List UInt8) : UInt8 := text.headD 0

/-- A control sequence from behind `ESC [` on, and where it ends. -/
def readCsi (text : List UInt8) : Command × List UInt8 :=
  let first := if isdigit around.chrgrpBefore (charAt text) then
      let number := readNumber around 0 text
      (some number.1, number.2)
    else (none, text)
  let second := if charAt first.2 = 0x3b then
      let number := readNumber around 0 first.2.tail
      (some number.1, number.2)
    else (none, first.2)
  (ecma48Csi around (charAt second.2) first.1 second.1, second.2.tail)

/-- An escape sequence from behind `ESC` on, and what follows it. -/
def readEscape (text : List UInt8) : Command × List UInt8 :=
  let char := charAt text
  if char = 0x63 then (.clear, text.tail)
  else if char = 0x44 then (.moveBy 0 1, text.tail)
  else if char = 0x45 then (.newline, text.tail)
  else if char = 0x48 then (.setTabstop, text.tail)
  else if char = 0x4d then (.moveBy 0 (-1), text.tail)
  else if char = 0x5b then readCsi around text.tail
  else (.nothing, text.tail)

/-- One turn of the loop of `dev_tty_write`, and what follows it. -/
def readCommand (char : UInt8) (text : List UInt8) : Command × List UInt8 :=
  if iscntrl around.chrgrpBefore char then
    if char = 0x07 then (.nothing, text)
    else if char = 0x08 then (.backspace, text)
    else if char = 0x09 then (.tab, text)
    else if char = 0x0a then (.newline, text)
    else if char = 0x0b ∨ char = 0x0c then (.moveBy 0 1, text)
    else if char = 0x0d then (.setCursor 0 (-1), text)
    else if char = 0x7f then (.nothing, text)
    else if char = 0x1b then readEscape around text
    else (.printControl char, text)
  else (.print char, text)

/--
The commands in a buffer.  The first argument counts characters that belong
to a sequence which has been read already.
-/
def readCommands : Nat → List UInt8 → List Command
  | _, [] => []
  | skipped + 1, _ :: rest => readCommands skipped rest
  | 0, char :: rest =>
    let text := rest ++ around.behind
    let read := readCommand around char text
    read.1 :: readCommands (text.length - read.2.length) rest

/-- `ecma48_to_vga_color`. -/
def ecma48ToVgaColor : List UInt8 := [0, 4, 2, 6, 1, 5, 3, 7]

/-- The attribute that `ESC [ m` sets. -/
def graphicAttribute (attr : UInt8) (arg : Int) : UInt8 :=
  if arg = 0 then VCSA_DEFAULT_ATTRIBUTE
  else if 30 ≤ arg ∧ arg ≤ 37 then
    (attr &&& (0xf0 : UInt8)) ||| ecma48ToVgaColor.getD (arg - 30).toNat 0
  else if 40 ≤ arg ∧ arg ≤ 47 then
    (attr &&& (0x0f : UInt8)) ||| (ecma48ToVgaColor.getD (arg - 40).toNat 0 <<< (4 : UInt8))
  else attr

/-- The bytes of an ASCII text. -/
def ascii (text : String) : List UInt8 := text.toList.map fun char => UInt8.ofNat char.toNat

/-- The texts that `logmsgef` prints for `ESC H`. -/
def tabstopError : List (List UInt8) :=
  [ascii "Error: ", ascii "dev_tty_write: TODO: set tabstop at current column", ascii "\n"]

/-- A command carried out on a console. -/
def perform (vcsno : Fin 8) (screen : Screen) : Command → Screen
  | .nothing => screen
  | .backspace => vcsaSetChar (vcsaMoveCursorBack screen vcsno) vcsno 0x20
  | .tab => vcsaMoveCursorTabstop screen vcsno
  | .newline => vcsaNewline screen vcsno
  | .moveBy dx dy => vcsaMoveCursorBy screen vcsno dx dy
  | .setCursor x y => vcsaSetCursor screen vcsno x y
  | .clear => vcsaClear screen vcsno
  | .setTabstop => tabstopError.foldl kPrintf screen
  | .eraseScreen method => vcsaEraseScreen screen vcsno method
  | .eraseLine method => vcsaEraseLine screen vcsno method
  | .graphicMode arg =>
    vcsaSetAttribute screen vcsno (graphicAttribute (screen.vcsData vcsno).attr arg)
  | .print char => vcsaCprint screen vcsno char
  | .printControl char => vcsaCprint (vcsaCprint screen vcsno 0x5e) vcsno (0x40 + char)

/-- `dev_tty_write`, to the console of its device. -/
def devTtyWrite (vcsno : Fin 8) (buf : List UInt8) (screen : Screen) : Screen :=
  (readCommands around 0 buf).foldl (perform vcsno) screen

/-! ## Writes that keep to their console -/

/-- Where a command leaves the cursor of its console. -/
def Command.cursor (vcsno : Fin 8) (cursor : Cursor) : Command → Cursor
  | .backspace => cursor.back
  | .tab => cursor.place cursor.tabstop cursor.line.val
  | .newline => cursor.newline
  | .moveBy dx dy => cursor.moveBy dx dy
  | .setCursor x y => cursor.place x y
  | .clear => .home
  | .setTabstop =>
    if vcsno = CONSOLE_VCSA then
      tabstopError.flatten.foldl Cursor.cprint cursor
    else cursor
  | .print _ => cursor.next
  | .printControl _ => cursor.next.next
  | _ => cursor

/--
A command that scrolls no further than the screen is high, and prints no
error to another console.
-/
def Command.Gentle (vcsno : Fin 8) (cursor : Cursor) : Command → Prop
  | .moveBy _ dy => cursor.scrLn dy ≤ 25
  | .setTabstop => vcsno = CONSOLE_VCSA
  | _ => True

/-- Every command of a list is gentle where the cursor is by then. -/
def Gentle (vcsno : Fin 8) : Cursor → List Command → Prop
  | _, [] => True
  | cursor, command :: commands =>
    command.Gentle vcsno cursor ∧ Gentle vcsno (command.cursor vcsno cursor) commands

/--
Whatever else the screen holds, a write of some bytes to a console whose
cursor is at a given place leaves the other consoles alone.
-/
def Isolated (vcsno : Fin 8) (cursor : Cursor) (buf : List UInt8) : Prop :=
  ∀ screen : Screen, screen.cursorOf vcsno = cursor →
    OthersKept vcsno screen (devTtyWrite around vcsno buf screen)

variable {around} {vcsno : Fin 8} {screen : Screen} {command : Command} {commands : List Command}
  {cursor : Cursor}

theorem moves_kPrintfs (texts : List (List UInt8)) :
    Moves CONSOLE_VCSA (texts.flatten.foldl Cursor.cprint (screen.cursorOf CONSOLE_VCSA)) screen
      (texts.foldl kPrintf screen) := by
  induction texts generalizing screen with
  | nil => exact Moves.refl CONSOLE_VCSA screen
  | cons text texts ih =>
    rw [flatten_cons, foldl_append, ← (moves_kPrintf text).cursor]
    exact (moves_kPrintf text).trans ih

/-- A gentle command moves the cursor and keeps the other consoles. -/
theorem moves_perform (gentle : command.Gentle vcsno (screen.cursorOf vcsno)) :
    Moves vcsno (command.cursor vcsno (screen.cursorOf vcsno)) screen
      (perform vcsno screen command) := by
  cases command with
  | nothing => exact Moves.refl vcsno screen
  | backspace => exact moves_vcsaMoveCursorBack.keep (moves_vcsaSetChar _)
  | tab => exact moves_vcsaSetCursor _ _
  | newline => exact moves_vcsaNewline
  | moveBy dx dy => exact moves_vcsaMoveCursorBy gentle
  | setCursor x y => exact moves_vcsaSetCursor x y
  | clear => exact moves_vcsaClear
  | setTabstop =>
    have here : vcsno = CONSOLE_VCSA := gentle
    subst here
    unfold perform Command.cursor
    rw [if_pos rfl]
    exact moves_kPrintfs tabstopError
  | eraseScreen method => exact moves_vcsaEraseScreen method
  | eraseLine method => exact moves_vcsaEraseLine method
  | graphicMode arg => exact moves_vcsaSetAttribute _
  | print char => exact moves_vcsaCprint char
  | printControl char =>
    have caret : Moves vcsno _ screen (vcsaCprint screen vcsno 0x5e) := moves_vcsaCprint _
    unfold Command.cursor
    rw [← caret.cursor]
    exact caret.trans (moves_vcsaCprint _)

theorem cursorOf_perform :
    (perform vcsno screen command).cursorOf vcsno =
      command.cursor vcsno (screen.cursorOf vcsno) := by
  by_cases gentle : command.Gentle vcsno (screen.cursorOf vcsno)
  · exact (moves_perform gentle).cursor
  · cases command with
    | moveBy dx dy =>
      unfold perform Screen.cursorOf
      rw [vcsData_vcsaMoveCursorBy]
      exact (moves_setCursor _).cursor
    | setTabstop =>
      have elsewhere : vcsno ≠ CONSOLE_VCSA := gentle
      have kept : Moves CONSOLE_VCSA _ screen (perform vcsno screen .setTabstop) :=
        moves_kPrintfs tabstopError
      unfold Command.cursor
      rw [if_neg elsewhere]
      exact congrArg VcsData.cursor (kept.vcsData vcsno elsewhere)
    | _ => exact absurd trivial gentle

theorem othersKept_commands (gentle : Gentle vcsno (screen.cursorOf vcsno) commands) :
    OthersKept vcsno screen (commands.foldl (perform vcsno) screen) := by
  induction commands generalizing screen with
  | nil => exact OthersKept.refl vcsno screen
  | cons command commands ih =>
    obtain ⟨first, rest⟩ := gentle
    apply (moves_perform first).toOthersKept.trans
    apply ih
    rw [cursorOf_perform]
    exact rest

/-! ## Writes that do not -/

theorem cursor_tabstopError (line : Fin 25) :
    tabstopError.flatten.foldl Cursor.cprint ⟨line, 0⟩ = ⟨clamp 24 (line.val + 1), 0⟩ := by
  revert line
  decide +kernel

section

variable {line : Fin 25} (elsewhere : vcsno ≠ CONSOLE_VCSA)
  (margin : screen.cursorOf CONSOLE_VCSA = ⟨line, 0⟩)

include elsewhere margin

/-- `ESC H` elsewhere takes the cursor of console 0 to a new line. -/
theorem cursor_console_perform :
    ∃ later,
      (perform vcsno screen command).cursorOf CONSOLE_VCSA = ⟨later, 0⟩ ∧
        line ≤ later ∧ (command = .setTabstop → 0 < later) := by
  by_cases error : command = .setTabstop
  · subst error
    refine ⟨clamp 24 (line.val + 1), ?_, ?_, fun _ => ?_⟩
    · unfold perform
      rw [(moves_kPrintfs tabstopError).cursor, margin, cursor_tabstopError]
    · show line.val ≤ min ((line.val : Int) + 1).toNat 24
      omega
    · show 0 < min ((line.val : Int) + 1).toNat 24
      omega
  · refine ⟨line, ?_, Fin.le_refl line, fun same => absurd same error⟩
    rw [← margin]
    refine congrArg VcsData.cursor ?_
    by_cases gentle : command.Gentle vcsno (screen.cursorOf vcsno)
    · exact (moves_perform gentle).vcsData _ (Ne.symm elsewhere)
    · cases command with
      | moveBy dx dy =>
        refine (congrFun (vcsData_vcsaMoveCursorBy dx dy) CONSOLE_VCSA).trans ?_
        exact Function.update_of_ne (Ne.symm elsewhere) _ _
      | setTabstop => exact absurd rfl error
      | _ => exact absurd trivial gentle

theorem cursor_console_commands :
    ∃ later,
      (commands.foldl (perform vcsno) screen).cursorOf CONSOLE_VCSA = ⟨later, 0⟩ ∧
        line ≤ later := by
  induction commands generalizing screen line with
  | nil => exact ⟨line, margin, Fin.le_refl line⟩
  | cons command commands ih =>
    obtain ⟨between, placed, first, _⟩ := cursor_console_perform elsewhere margin
    obtain ⟨later, final, rest⟩ := ih placed
    exact ⟨later, final, Fin.le_trans first rest⟩

end

theorem cursor_console_of_mem
    (elsewhere : vcsno ≠ CONSOLE_VCSA) (margin : screen.cursorOf CONSOLE_VCSA = .home)
    (member : Command.setTabstop ∈ commands) :
    (commands.foldl (perform vcsno) screen).cursorOf CONSOLE_VCSA ≠ .home := by
  obtain ⟨before, after, split⟩ := append_of_mem member
  subst split
  obtain ⟨first, placed, _⟩ := cursor_console_commands elsewhere margin
  obtain ⟨second, printed, _, moved⟩ := cursor_console_perform elsewhere placed
  obtain ⟨third, final, later⟩ := cursor_console_commands elsewhere printed
  rw [foldl_append, foldl_cons, final]
  intro same
  have back : third = 0 := congrArg Cursor.line same
  subst back
  exact absurd (moved rfl) (Fin.not_lt.mpr later)

/-- Scrolling too far clears the cell behind the console. -/
theorem char_behind_perform (rude : ¬command.Gentle vcsno (screen.cursorOf vcsno))
    (here : command = .setTabstop → vcsno = CONSOLE_VCSA) :
    ((perform vcsno screen command).cells (base vcsno + 2000)).char = 0x20 := by
  cases command with
  | moveBy dx dy =>
    have exceeds : 25 < (screen.cursorOf vcsno).scrLn dy := Nat.lt_of_not_le rude
    have scrolls := Nat.ne_of_gt (Nat.zero_lt_of_lt exceeds)
    simp only [perform, vcsaMoveCursorBy, if_neg scrolls]
    rw [cells_vcsaScrollLines_of_lt exceeds]
    rfl
  | setTabstop => exact absurd (here rfl) rude
  | _ => exact absurd trivial rude

theorem char_behind_commands
    (start :
      ¬Gentle vcsno (screen.cursorOf vcsno) commands ∨
        (screen.cells (base vcsno + 2000)).char = 0x20)
    (here : .setTabstop ∈ commands → vcsno = CONSOLE_VCSA) :
    ((commands.foldl (perform vcsno) screen).cells (base vcsno + 2000)).char = 0x20 := by
  induction commands generalizing screen with
  | nil => exact start.resolve_left fun rude => rude trivial
  | cons command commands ih =>
    apply ih
    · by_cases gentle : command.Gentle vcsno (screen.cursorOf vcsno)
      · have kept :=
          (moves_perform gentle).cells (base vcsno + 2000) (Or.inr (Nat.le_refl _))
        rw [cursorOf_perform, kept]
        exact start.imp_left fun rude rest => rude ⟨gentle, rest⟩
      · apply Or.inr (char_behind_perform gentle _)
        exact fun same => here (same ▸ mem_cons_self)
    · exact fun member => here (mem_cons_of_mem _ member)

/-- A screen on which everything else is empty. -/
def bareScreen (vcsno : Fin 8) (cursor : Cursor) : Screen where
  cells := fun _ => ⟨0, 0⟩
  vcsData := fun other => if other = vcsno then ⟨cursor, 0⟩ else ⟨.home, 0⟩
  active := vcsno
  video := fun _ => ⟨0, 0⟩
  hwCursor := 0

theorem cursorOf_bareScreen : (bareScreen vcsno cursor).cursorOf vcsno = cursor := by
  have entry : (bareScreen vcsno cursor).vcsData vcsno = ⟨cursor, 0⟩ := if_pos rfl
  exact congrArg VcsData.cursor entry

/-- Commands that are not gentle reach beyond the console of a bare screen. -/
theorem not_othersKept_bareScreen (rude : ¬Gentle vcsno cursor commands) :
    ¬OthersKept vcsno (bareScreen vcsno cursor)
      (commands.foldl (perform vcsno) (bareScreen vcsno cursor)) := by
  intro kept
  by_cases here : .setTabstop ∈ commands → vcsno = CONSOLE_VCSA
  · have reached : ¬Gentle vcsno ((bareScreen vcsno cursor).cursorOf vcsno) commands := by
      rw [cursorOf_bareScreen]
      exact rude
    have blank := char_behind_commands (Or.inl reached) here
    rw [kept.cells (base vcsno + 2000) (Or.inr (Nat.le_refl _))] at blank
    have empty : (0 : UInt8) = 0x20 := blank
    exact absurd empty (by decide)
  · rw [Classical.not_imp] at here
    obtain ⟨member, elsewhere⟩ := here
    have margin : (bareScreen vcsno cursor).cursorOf CONSOLE_VCSA = .home := by
      have entry : (bareScreen vcsno cursor).vcsData CONSOLE_VCSA = ⟨.home, 0⟩ :=
        if_neg (Ne.symm elsewhere)
      exact congrArg VcsData.cursor entry
    have moved := cursor_console_of_mem elsewhere margin member
    have same := congrArg VcsData.cursor (kept.vcsData CONSOLE_VCSA (Ne.symm elsewhere))
    exact moved (same.trans margin)

/--
A write leaves the other consoles alone, whatever they show, exactly if its
commands are gentle from where the cursor is.
-/
theorem isolated_iff_gentle
    (around : Surroundings) (vcsno : Fin 8) (cursor : Cursor) (buf : List UInt8) :
    Isolated around vcsno cursor buf ↔ Gentle vcsno cursor (readCommands around 0 buf) := by
  constructor
  · intro isolated
    by_contra rude
    exact not_othersKept_bareScreen rude (isolated (bareScreen vcsno cursor) cursorOf_bareScreen)
  · intro gentle screen placed
    subst placed
    exact othersKept_commands gentle

/-- Surroundings in which nothing is special. -/
def plainSurroundings : Surroundings where
  chrgrpBefore := fun _ => 0
  nullWord := 0
  behind := []

/--
`ESC [ 5 0 B` on console 0, with the cursor on the first line, scrolls
twenty-six lines and clears the first line of console 1.
-/
theorem cursor_down_not_isolated :
    ¬ ∀ around vcsno cursor buf, Isolated around vcsno cursor buf := by
  intro isolated
  have kept :=
    isolated plainSurroundings 0 .home (ascii "\x1b[50B") (bareScreen 0 .home) cursorOf_bareScreen
  have read : readCommands plainSurroundings 0 (ascii "\x1b[50B") = [.moveBy 0 50] := by
    decide +kernel
  unfold devTtyWrite at kept
  rw [read] at kept
  refine not_othersKept_bareScreen ?_ kept
  intro gentle
  have fits : Cursor.home.scrLn 50 ≤ 25 := gentle.1
  exact absurd fits (by decide)

end Cosec.Dev.ConsoleWrites
