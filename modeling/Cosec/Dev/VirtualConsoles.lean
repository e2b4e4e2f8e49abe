import Mathlib.Logic.Function.Basic

/-!
# Virtual consoles

The eight consoles share one array of character cells, twenty-five lines of
eighty for each.  A console has a cursor and an attribute of its own.  The
cells of the active console are copied to video memory, and the hardware
cursor follows its cursor.

`OthersKept` says that nothing but one console, and what is shown of it, has
changed.  Every routine keeps the others, except that scrolling by more lines
than there are runs past the console, and error messages go to console 0.
-/

namespace Cosec.Dev.VirtualConsoles

open Function List

/-! ## State -/

/-- A character and its attribute, two bytes of `vcsa_buf`. -/
structure Cell where
  char : UInt8
  attr : UInt8
deriving DecidableEq

/-- A position on a screen of `SCR_HEIGHT` lines and `SCR_WIDTH` columns. -/
structure Cursor where
  line : Fin 25
  col : Fin 80
deriving DecidableEq

/-- The upper left corner. -/
def Cursor.home : Cursor := ⟨0, 0⟩

/-- An entry of `vcs_data`. -/
structure VcsData where
  cursor : Cursor
  attr : UInt8
deriving DecidableEq

/--
The consoles.  The cells are those of `vcsa_buf`, and from 16000 on the
memory past it.
-/
structure Screen where
  cells : Nat → Cell
  vcsData : Fin 8 → VcsData
  active : Fin 8
  video : Nat → Cell
  hwCursor : Nat

/-- The cursor of a console. -/
def Screen.cursorOf (screen : Screen) (vcsno : Fin 8) : Cursor := (screen.vcsData vcsno).cursor

/-- The first cell of a console, `GET_VCSA_BUF`. -/
def base (vcsno : Fin 8) : Nat := 2000 * vcsno.val

/-- `CONSOLE_VCSA`. -/
def CONSOLE_VCSA : Fin 8 := ⟨0, Nat.zero_lt_succ 7⟩

/-- `VCSA_DEFAULT_ATTRIBUTE`. -/
def VCSA_DEFAULT_ATTRIBUTE : UInt8 := 7

/-- `clear_vga_sym`. -/
def clearVgaSym (attr : UInt8) : Cell where
  char := 0x20
  attr := attr

/-! ## Cursors -/

/-- A signed word. -/
def toInt (value : Int) : Int := Int.bmod value 4294967296

/-- The nearest of the positions up to the last one. -/
def clamp (last : Nat) (value : Int) : Fin (last + 1) := ⟨min value.toNat last, by omega⟩

/-- The cursor that `vcsa_set_cursor` sets; negative positions are ignored. -/
def Cursor.place (cursor : Cursor) (x y : Int) : Cursor where
  line := if 0 ≤ y then clamp 24 y else cursor.line
  col := if 0 ≤ x then clamp 79 x else cursor.col

/-- The cursor that `vcsa_move_cursor_by` sets. -/
def Cursor.moveBy (cursor : Cursor) (dx dy : Int) : Cursor where
  line := clamp 24 (toInt (cursor.line.val + dy))
  col := clamp 79 (toInt (cursor.col.val + dx))

/-- The number of lines that `vcsa_move_cursor_by` scrolls. -/
def Cursor.scrLn (cursor : Cursor) (dy : Int) : Nat :=
  let line := toInt (cursor.line.val + dy)
  if 25 ≤ line then (line - 24).toNat else 0

/-- The cursor after `vcsa_newline`. -/
def Cursor.newline (cursor : Cursor) : Cursor where
  line := clamp 24 (cursor.line.val + 1)
  col := 0

/-- The cursor after `vcsa_move_cursor_back`. -/
def Cursor.back (cursor : Cursor) : Cursor :=
  if cursor.line.val = 0 ∧ cursor.col.val = 0 then cursor
  else if cursor.col.val = 0 then cursor.place 79 (cursor.line.val - 1)
  else cursor.place (cursor.col.val - 1) cursor.line.val

/-- The column of `vcsa_move_cursor_tabstop`. -/
def Cursor.tabstop (cursor : Cursor) : Int := min (8 * (1 + (cursor.col.val : Int) / 8)) 79

/-- The cursor after `vcsa_move_cursor_next`. -/
def Cursor.next (cursor : Cursor) : Cursor := if cursor.col.val + 1 < 80 then
    { cursor with col := clamp 79 (cursor.col.val + 1) }
  else cursor.newline

/-- `move_hw_cursor`; the controller takes sixteen bits. -/
def moveHwCursor (screen : Screen) (x y : Int) : Screen :=
  { screen with hwCursor := ((y * 80 + x) % 65536).toNat }

/-- `update_hw_cursor`. -/
def updateHwCursor (screen : Screen) : Screen :=
  let cursor := screen.cursorOf screen.active
  moveHwCursor screen cursor.col.val cursor.line.val

/-- `vcsa_refresh`. -/
def vcsaRefresh (screen : Screen) : Screen :=
  updateHwCursor
    { screen with
      video := fun index =>
        if index < 2000 then screen.cells (base screen.active + index)
        else screen.video index }

/-- The last steps of routines that show what they did. -/
def ifActive (vcsno : Fin 8) (action : Screen → Screen) (screen : Screen) : Screen :=
  if vcsno = screen.active then action screen else screen

/-! ## Routines of a console -/

/-- Assignment to the cursor of a console. -/
def setCursor (screen : Screen) (vcsno : Fin 8) (cursor : Cursor) : Screen :=
  { screen with
    vcsData := update screen.vcsData vcsno { screen.vcsData vcsno with cursor := cursor } }

/-- `vcsa_set_attribute`. -/
def vcsaSetAttribute (screen : Screen) (vcsno : Fin 8) (attr : UInt8) : Screen :=
  { screen with
    vcsData := update screen.vcsData vcsno { screen.vcsData vcsno with attr := attr } }

/-- `vcsa_set_cursor`, which shows a negative position too. -/
def vcsaSetCursor (screen : Screen) (vcsno : Fin 8) (x y : Int) : Screen :=
  let cursor := screen.cursorOf vcsno
  ifActive vcsno (fun placed => moveHwCursor placed (min x 79) (min y 24))
    (setCursor screen vcsno (cursor.place x y))

/-- A loop over cells. -/
def forCells
    (count : Nat) (body : Nat → (Nat → Cell) → Nat → Cell) (cells : Nat → Cell) : Nat → Cell :=
  (List.range count).foldl (fun cells index => body index cells) cells

/-- `enum vcsa_eraser`. -/
inductive Eraser where
  | afterCursor
  | beforeCursor
  | whole
deriving DecidableEq

/-- Whether a cell before the cursor, or one that is not, is erased. -/
def Eraser.erases (method : Eraser) (before : Bool) : Bool :=
  if before then decide (method ≠ .afterCursor)
  else decide (method ≠ .beforeCursor)

/-- `vcsa_erase_line`. -/
def vcsaEraseLine (screen : Screen) (vcsno : Fin 8) (method : Eraser) : Screen :=
  let cursor := screen.cursorOf vcsno
  let blank := clearVgaSym (screen.vcsData vcsno).attr
  let start := base vcsno + 80 * cursor.line.val
  ifActive vcsno vcsaRefresh
    { screen with
      cells := forCells 80 (fun j cells =>
            if method.erases (decide (j < cursor.col.val)) then
              update cells (start + j) blank
            else cells)
          screen.cells }

/-- `vcsa_erase_screen`. -/
def vcsaEraseScreen (screen : Screen) (vcsno : Fin 8) (method : Eraser) : Screen :=
  let cursor := screen.cursorOf vcsno
  let blank := clearVgaSym (screen.vcsData vcsno).attr
  let before (index : Nat) : Bool := if index / 80 = cursor.line.val then
      decide (index % 80 < cursor.col.val)
    else decide (index / 80 < cursor.line.val)
  ifActive vcsno vcsaRefresh
    { screen with
      cells := forCells 2000 (fun index cells =>
            if method.erases (before index) then
              update cells (base vcsno + index) blank
            else cells)
          screen.cells }

/-- `vcsa_clear`. -/
def vcsaClear (screen : Screen) (vcsno : Fin 8) : Screen :=
  let coloured := if (screen.vcsData vcsno).attr = 0 then
      vcsaSetAttribute screen vcsno VCSA_DEFAULT_ATTRIBUTE
    else screen
  let erased := vcsaEraseScreen coloured vcsno .whole
  ifActive vcsno vcsaRefresh (vcsaSetCursor erased vcsno 0 0)

/--
`vcsa_scroll_lines`.  The cells that stay are moved up, and as many lines as
are scrolled are cleared behind them.
-/
def vcsaScrollLines (screen : Screen) (vcsno : Fin 8) (lines : Nat) : Screen :=
  let blank := clearVgaSym (screen.vcsData vcsno).attr
  let moved := forCells (80 * (25 - lines)) (fun index cells =>
        update cells (base vcsno + index) (cells (base vcsno + index + 80 * lines)))
      screen.cells
  let cleared := forCells (80 * lines) (fun index cells =>
        update cells (base vcsno + 80 * (25 - lines) + index) blank)
      moved
  ifActive vcsno vcsaRefresh { screen with cells := cleared }

/-- `vcsa_move_cursor_by`. -/
def vcsaMoveCursorBy (screen : Screen) (vcsno : Fin 8) (dx dy : Int) : Screen :=
  let cursor := screen.cursorOf vcsno
  let moved := setCursor screen vcsno (cursor.moveBy dx dy)
  if cursor.scrLn dy = 0 then moved
  else vcsaScrollLines moved vcsno (cursor.scrLn dy)

/-- `vcsa_newline`. -/
def vcsaNewline (screen : Screen) (vcsno : Fin 8) : Screen :=
  let cursor := screen.cursorOf vcsno
  let moved := setCursor screen vcsno cursor.newline
  ifActive vcsno updateHwCursor (if cursor.line.val + 1 < 25 then moved
    else vcsaScrollLines moved vcsno 1)

/-- `vcsa_move_cursor_back`. -/
def vcsaMoveCursorBack (screen : Screen) (vcsno : Fin 8) : Screen :=
  let cursor := screen.cursorOf vcsno
  if cursor.line.val = 0 ∧ cursor.col.val = 0 then screen
  else if cursor.col.val = 0 then
    vcsaSetCursor screen vcsno 79 (cursor.line.val - 1)
  else vcsaSetCursor screen vcsno (cursor.col.val - 1) cursor.line.val

/-- `vcsa_move_cursor_tabstop`. -/
def vcsaMoveCursorTabstop (screen : Screen) (vcsno : Fin 8) : Screen :=
  let cursor := screen.cursorOf vcsno
  vcsaSetCursor screen vcsno cursor.tabstop cursor.line.val

/-- `vcsa_move_cursor_next`. -/
def vcsaMoveCursorNext (screen : Screen) (vcsno : Fin 8) : Screen :=
  let cursor := screen.cursorOf vcsno
  ifActive vcsno updateHwCursor (if cursor.col.val + 1 < 80 then
      setCursor screen vcsno { cursor with col := clamp 79 (cursor.col.val + 1) }
    else vcsaNewline screen vcsno)

/-- `vcsa_set_char`. -/
def vcsaSetChar (screen : Screen) (vcsno : Fin 8) (char : UInt8) : Screen :=
  let cursor := screen.cursorOf vcsno
  let offset := 80 * cursor.line.val + cursor.col.val
  let cell : Cell := ⟨char, (screen.vcsData vcsno).attr⟩
  ifActive vcsno (fun written =>
      { written with video := update written.video offset cell })
    { screen with
      cells := update screen.cells (base vcsno + offset) cell }

/-- `vcsa_cprint`. -/
def vcsaCprint (screen : Screen) (vcsno : Fin 8) (char : UInt8) : Screen :=
  vcsaMoveCursorNext (vcsaSetChar screen vcsno char) vcsno

/-- `cprint`, which prints to console 0. -/
def cprint (screen : Screen) (char : UInt8) : Screen :=
  let printed :=
    if char = 0x0a then vcsaNewline screen CONSOLE_VCSA
    else if char = 0x0d then vcsaSetCursor screen CONSOLE_VCSA 0 (-1)
    else if char = 0x09 then vcsaMoveCursorTabstop screen CONSOLE_VCSA
    else if char = 0x08 then vcsaMoveCursorBack screen CONSOLE_VCSA
    else vcsaCprint screen CONSOLE_VCSA char
  ifActive CONSOLE_VCSA updateHwCursor printed

/-- `k_printf` of a formatted text. -/
def kPrintf (screen : Screen) (text : List UInt8) : Screen :=
  ifActive CONSOLE_VCSA vcsaRefresh (text.foldl cprint screen)

/-! ## What a routine changes -/

variable {vcsno : Fin 8} {screen before between after : Screen}

/-- Cells that are not those of a console. -/
def Outside (vcsno : Fin 8) (index : Nat) : Prop := index < base vcsno ∨ base vcsno + 2000 ≤ index

/--
Only a console has changed, and what is shown if it is the active one: no
other entry of `vcs_data`, no cell outside it, and no more of video memory
than the screen.
-/
structure OthersKept (vcsno : Fin 8) (before after : Screen) : Prop where
  active : after.active = before.active
  vcsData : ∀ other, other ≠ vcsno → after.vcsData other = before.vcsData other
  cells : ∀ index, Outside vcsno index → after.cells index = before.cells index
  video : ∀ index, vcsno = before.active ∧ index < 2000 ∨ after.video index = before.video index
  hwCursor : vcsno = before.active ∨ after.hwCursor = before.hwCursor

theorem OthersKept.refl (vcsno : Fin 8) (screen : Screen) : OthersKept vcsno screen screen where
  active := rfl
  vcsData _ _ := rfl
  cells _ _ := rfl
  video _ := Or.inr rfl
  hwCursor := Or.inr rfl

theorem OthersKept.trans
    (first : OthersKept vcsno before between) (second : OthersKept vcsno between after) :
    OthersKept vcsno before after where
  active := second.active.trans first.active
  vcsData other different := (second.vcsData other different).trans (first.vcsData other different)
  cells index outside := (second.cells index outside).trans (first.cells index outside)
  video := by
    intro index
    rcases first.video index with shown | same
    · exact Or.inl shown
    · rcases second.video index with shown | later
      · exact Or.inl (first.active ▸ shown)
      · exact Or.inr (later.trans same)
  hwCursor := by
    rcases first.hwCursor with shown | same
    · exact Or.inl shown
    · rcases second.hwCursor with shown | later
      · exact Or.inl (first.active ▸ shown)
      · exact Or.inr (later.trans same)

/-- Only a console has changed, and its cursor is at a given place. -/
structure Moves (vcsno : Fin 8) (place : Cursor) (before after : Screen) : Prop
    extends OthersKept vcsno before after where
  cursor : after.cursorOf vcsno = place

variable {place final : Cursor}

theorem Moves.refl (vcsno : Fin 8) (screen : Screen) :
    Moves vcsno (screen.cursorOf vcsno) screen screen :=
  ⟨OthersKept.refl vcsno screen, rfl⟩

theorem Moves.trans
    (first : Moves vcsno place before between) (second : Moves vcsno final between after) :
    Moves vcsno final before after :=
  ⟨first.toOthersKept.trans second.toOthersKept, second.cursor⟩

/-- The second routine leaves the cursor where the first one put it. -/
theorem Moves.keep (first : Moves vcsno place before between)
    (second : Moves vcsno (between.cursorOf vcsno) between after) :
    Moves vcsno place before after :=
  first.cursor ▸ first.trans second

/-- Writes to the cells of a console. -/
theorem moves_cells
    {cells : Nat → Cell} (kept : ∀ index, Outside vcsno index → cells index = screen.cells index) :
    Moves vcsno (screen.cursorOf vcsno) screen { screen with cells := cells } where
  active := rfl
  vcsData _ _ := rfl
  cells := kept
  video _ := Or.inr rfl
  hwCursor := Or.inr rfl
  cursor := rfl

theorem moves_vcsData (entry : VcsData) :
    Moves vcsno entry.cursor screen
      { screen with
        vcsData := update screen.vcsData vcsno entry } where
  active := rfl
  vcsData _ different := update_of_ne different _ _
  cells _ _ := rfl
  video _ := Or.inr rfl
  hwCursor := Or.inr rfl
  cursor := congrArg VcsData.cursor (update_self _ _ _)

theorem moves_setCursor (cursor : Cursor) :
    Moves vcsno cursor screen (setCursor screen vcsno cursor) :=
  moves_vcsData { screen.vcsData vcsno with cursor := cursor }

theorem moves_vcsaSetAttribute (attr : UInt8) :
    Moves vcsno (screen.cursorOf vcsno) screen (vcsaSetAttribute screen vcsno attr) :=
  moves_vcsData { screen.vcsData vcsno with attr := attr }

theorem moves_ifActive {action : Screen → Screen}
    (shows : vcsno = screen.active → Moves vcsno (screen.cursorOf vcsno) screen (action screen)) :
    Moves vcsno (screen.cursorOf vcsno) screen (ifActive vcsno action screen) := by
  unfold ifActive
  split
  · rename_i active
    exact shows active
  · exact Moves.refl vcsno screen

theorem moves_moveHwCursor (active : vcsno = screen.active) (x y : Int) :
    Moves vcsno (screen.cursorOf vcsno) screen (moveHwCursor screen x y) where
  active := rfl
  vcsData _ _ := rfl
  cells _ _ := rfl
  video _ := Or.inr rfl
  hwCursor := Or.inl active
  cursor := rfl

theorem moves_updateHwCursor (active : vcsno = screen.active) :
    Moves vcsno (screen.cursorOf vcsno) screen (updateHwCursor screen) :=
  moves_moveHwCursor active _ _

theorem moves_vcsaRefresh (active : vcsno = screen.active) :
    Moves vcsno (screen.cursorOf vcsno) screen (vcsaRefresh screen) where
  active := rfl
  vcsData _ _ := rfl
  cells _ _ := rfl
  video := by
    intro index
    by_cases inside : index < 2000
    · exact Or.inl ⟨active, inside⟩
    · exact Or.inr (if_neg inside)
  hwCursor := Or.inl active
  cursor := rfl

theorem cells_ifActive_vcsaRefresh : (ifActive vcsno vcsaRefresh screen).cells = screen.cells := by
  unfold ifActive
  split <;> rfl

theorem moves_vcsaSetCursor (x y : Int) :
    Moves vcsno ((screen.cursorOf vcsno).place x y) screen (vcsaSetCursor screen vcsno x y) := by
  unfold vcsaSetCursor
  exact (moves_setCursor _).keep (moves_ifActive fun active => moves_moveHwCursor active _ _)

/-! ## Loops over cells -/

variable {count index start : Nat} {cells : Nat → Cell} {body : Nat → (Nat → Cell) → Nat → Cell}

theorem forCells_succ :
    forCells (count + 1) body cells = body count (forCells count body cells) := by
  unfold forCells
  rw [range_succ, foldl_append]
  rfl

theorem forCells_kept (kept : ∀ step, step < count → ∀ cells, body step cells index = cells index) :
    forCells count body cells index = cells index := by
  induction count with
  | zero => rfl
  | succ count ih =>
    rw [forCells_succ, kept count (Nat.lt_succ_self count)]
    apply ih
    exact fun step inside => kept step (Nat.lt_succ_of_lt inside)

theorem forCells_erased {value : Cell} {erased : Nat → Bool}
    (away : index < start ∨ start + count ≤ index) :
    forCells count (fun step cells =>
        if erased step then update cells (start + step) value else cells)
      cells index = cells index := by
  apply forCells_kept
  intro step inside cells
  split
  · apply update_of_ne
    omega
  · rfl

theorem forCells_written {value : Cell} (inside : index < count) :
    forCells count (fun step cells => update cells (start + step) value)
        cells (start + index) = value := by
  induction count with
  | zero => exact absurd inside (Nat.not_lt_zero _)
  | succ count ih =>
    rw [forCells_succ]
    by_cases last : index = count
    · rw [last, update_self]
    · rw [update_of_ne (by omega)]
      apply ih
      omega

theorem moves_vcsaEraseLine (method : Eraser) :
    Moves vcsno (screen.cursorOf vcsno) screen (vcsaEraseLine screen vcsno method) := by
  refine Moves.keep (moves_cells ?_) (moves_ifActive moves_vcsaRefresh)
  intro index outside
  exact forCells_erased (by unfold Outside at outside; omega)

theorem moves_vcsaEraseScreen (method : Eraser) :
    Moves vcsno (screen.cursorOf vcsno) screen (vcsaEraseScreen screen vcsno method) :=
  (moves_cells fun _ => forCells_erased).keep (moves_ifActive moves_vcsaRefresh)

theorem moves_vcsaClear : Moves vcsno .home screen (vcsaClear screen vcsno) := by
  have coloured : Moves vcsno (screen.cursorOf vcsno) screen
      (if (screen.vcsData vcsno).attr = 0 then
          vcsaSetAttribute screen vcsno VCSA_DEFAULT_ATTRIBUTE
        else screen) := by
    split
    · exact moves_vcsaSetAttribute _
    · exact Moves.refl vcsno screen
  have placed := (coloured.trans (moves_vcsaEraseScreen .whole)).trans (moves_vcsaSetCursor 0 0)
  exact placed.keep (moves_ifActive moves_vcsaRefresh)

theorem moves_vcsaScrollLines {lines : Nat} (fits : lines ≤ 25) :
    Moves vcsno (screen.cursorOf vcsno) screen (vcsaScrollLines screen vcsno lines) := by
  refine Moves.keep (moves_cells ?_) (moves_ifActive moves_vcsaRefresh)
  intro index outside
  unfold Outside at outside
  refine (forCells_kept ?_).trans (forCells_kept ?_)
  · intro step inside cells
    apply update_of_ne
    omega
  · intro step inside cells
    apply update_of_ne
    omega

theorem cells_vcsaScrollLines_of_lt {lines : Nat} (exceeds : 25 < lines) :
    (vcsaScrollLines screen vcsno lines).cells (base vcsno + 2000) =
      clearVgaSym (screen.vcsData vcsno).attr := by
  have none : 80 * (25 - lines) = 0 := by omega
  have written : forCells (80 * lines) (fun index cells =>
            update cells (base vcsno + 80 * (25 - lines) + index)
              (clearVgaSym (screen.vcsData vcsno).attr))
          (forCells (80 * (25 - lines)) (fun index cells =>
              update cells (base vcsno + index) (cells (base vcsno + index + 80 * lines)))
            screen.cells)
          (base vcsno + 80 * (25 - lines) + 2000) =
        clearVgaSym (screen.vcsData vcsno).attr :=
    forCells_written (by omega)
  rw [none, Nat.add_zero] at written
  unfold vcsaScrollLines
  rw [cells_ifActive_vcsaRefresh, none]
  exact written

theorem moves_vcsaMoveCursorBy {dx dy : Int} (fits : (screen.cursorOf vcsno).scrLn dy ≤ 25) :
    Moves vcsno ((screen.cursorOf vcsno).moveBy dx dy) screen
      (vcsaMoveCursorBy screen vcsno dx dy) := by
  unfold vcsaMoveCursorBy
  dsimp only
  split
  · exact moves_setCursor _
  · exact (moves_setCursor _).keep (moves_vcsaScrollLines fits)

theorem vcsData_vcsaMoveCursorBy (dx dy : Int) :
    (vcsaMoveCursorBy screen vcsno dx dy).vcsData =
      (setCursor screen vcsno ((screen.cursorOf vcsno).moveBy dx dy)).vcsData := by
  unfold vcsaMoveCursorBy
  dsimp only
  split
  · rfl
  · unfold vcsaScrollLines ifActive
    dsimp only
    split <;> rfl

theorem moves_vcsaNewline :
    Moves vcsno (screen.cursorOf vcsno).newline screen (vcsaNewline screen vcsno) := by
  refine Moves.keep ?_ (moves_ifActive moves_updateHwCursor)
  split
  · exact moves_setCursor _
  · exact (moves_setCursor _).keep (moves_vcsaScrollLines (by decide))

theorem moves_vcsaMoveCursorBack :
    Moves vcsno (screen.cursorOf vcsno).back screen (vcsaMoveCursorBack screen vcsno) := by
  unfold vcsaMoveCursorBack Cursor.back
  by_cases home : (screen.cursorOf vcsno).line.val = 0 ∧ (screen.cursorOf vcsno).col.val = 0
  · simp only [if_pos home]
    exact Moves.refl vcsno screen
  · by_cases margin : (screen.cursorOf vcsno).col.val = 0
    · simp only [if_neg home, if_pos margin]
      exact moves_vcsaSetCursor _ _
    · simp only [if_neg home, if_neg margin]
      exact moves_vcsaSetCursor _ _

theorem moves_vcsaMoveCursorNext :
    Moves vcsno (screen.cursorOf vcsno).next screen (vcsaMoveCursorNext screen vcsno) := by
  refine Moves.keep ?_ (moves_ifActive moves_updateHwCursor)
  unfold Cursor.next
  by_cases inside : (screen.cursorOf vcsno).col.val + 1 < 80
  · simp only [if_pos inside]
    exact moves_setCursor _
  · simp only [if_neg inside]
    exact moves_vcsaNewline

theorem moves_vcsaSetChar (char : UInt8) :
    Moves vcsno (screen.cursorOf vcsno) screen (vcsaSetChar screen vcsno char) := by
  unfold vcsaSetChar
  refine Moves.keep (moves_cells ?_) (moves_ifActive ?_)
  · intro index outside
    apply update_of_ne
    unfold Outside at outside
    omega
  · intro active
    refine ⟨⟨rfl, fun _ _ => rfl, fun _ _ => rfl, ?_, Or.inr rfl⟩, rfl⟩
    intro index
    by_cases shown : index < 2000
    · exact Or.inl ⟨active, shown⟩
    · right
      apply update_of_ne
      omega

theorem moves_vcsaCprint (char : UInt8) :
    Moves vcsno (screen.cursorOf vcsno).next screen (vcsaCprint screen vcsno char) := by
  have written : Moves vcsno _ screen (vcsaSetChar screen vcsno char) := moves_vcsaSetChar char
  rw [← written.cursor]
  exact written.trans moves_vcsaMoveCursorNext

/-- The cursor of console 0 after `cprint`. -/
def Cursor.cprint (cursor : Cursor) (char : UInt8) : Cursor :=
  if char = 0x0a then cursor.newline
  else if char = 0x0d then cursor.place 0 (-1)
  else if char = 0x09 then cursor.place cursor.tabstop cursor.line.val
  else if char = 0x08 then cursor.back
  else cursor.next

theorem moves_cprint (char : UInt8) :
    Moves CONSOLE_VCSA ((screen.cursorOf CONSOLE_VCSA).cprint char) screen (cprint screen char) := by
  refine Moves.keep ?_ (moves_ifActive moves_updateHwCursor)
  unfold Cursor.cprint
  split
  · exact moves_vcsaNewline
  · split
    · exact moves_vcsaSetCursor _ _
    · split
      · exact moves_vcsaSetCursor _ _
      · split
        · exact moves_vcsaMoveCursorBack
        · exact moves_vcsaCprint char

theorem moves_kPrintf (text : List UInt8) :
    Moves CONSOLE_VCSA (text.foldl Cursor.cprint (screen.cursorOf CONSOLE_VCSA)) screen
      (kPrintf screen text) := by
  refine Moves.keep ?_ (moves_ifActive moves_vcsaRefresh)
  induction text generalizing screen with
  | nil => exact Moves.refl CONSOLE_VCSA screen
  | cons char text ih =>
    rw [foldl_cons, ← (moves_cprint char).cursor]
    exact (moves_cprint char).trans ih

end Cosec.Dev.VirtualConsoles
