import Mathlib.Logic.Function.Basic
import Mathlib.Tactic.SplitIfs
import Cosec.Lib.Word32
import Cosec.Libc.Strings

/-!
# Lines of the kernel shell

`kshell_readline` edits a line in a buffer.  A Tab stores a zero behind the
cursor without a look at the size, and the room is computed as an `int`.
-/

namespace Cosec.Core.ShellLines

open Function Lib.Word32 Libc.Strings List

/-- The buffer, the cursor and the places that were stored to. -/
structure State where
  buf : Nat → UInt8
  cur : Nat
  stored : List Nat

def State.store (state : State) (place : Nat) (byte : UInt8) : State :=
  { state with
    buf := update state.buf place byte
    stored := place :: state.stored }

/-- A key other than Enter: backspace, Ctrl-L, Tab, or a character. -/
def press (size : Nat) (state : State) (key : CChar) : State :=
  if key.val = 8 then { state with cur := state.cur - 1 }
  else if key.val = 12 then state.store state.cur 0
  else if key.val = 9 then state.store (state.cur + 1) 0
  else if (state.cur : Int) + 1 < asInt32 size then
    { state.store state.cur key.val with cur := state.cur + 1 }
  else state

/-- The keys up to Enter; `kbd_getchar` returns no zero. -/
def kshellReadline (size : Nat) (state : State) : List CChar → State
  | [] => state
  | key :: keys =>
    if key.val = 10 then state.store state.cur 0
    else kshellReadline size (press size state key) keys

/-- The sizes of buffers. -/
structure BufferSize where
  value : Nat
  positive : 1 ≤ value
  word : value < 4294967296

/-- What a key other than Enter does to a line. -/
def edit (room : Nat) (line : CString) (key : CChar) : CString :=
  if key.val = 8 then line.dropLast
  else if key.val = 12 then line
  else if key.val = 9 then line
  else if line.length < room then line ++ [key]
  else line

/-- The line when Enter is pressed. -/
def edited (room : Nat) (line : CString) : List CChar → Option CString
  | [] => none
  | key :: keys => if key.val = 10 then some line else edited room (edit room line key) keys

/-- No Tab comes while the line fills the buffer. -/
def TabsInside (room size : Nat) (line : CString) : List CChar → Prop
  | [] => True
  | key :: keys =>
    key.val = 10 ∨
      (key.val = 9 → line.length + 1 < size) ∧ TabsInside room size (edit room line key) keys

/-- A buffer that begins with a line. -/
def Begins (buf : Nat → UInt8) (front : CString) : Prop :=
  ∀ i char, front[i]? = some char → buf i = char.val

/-- Nothing is stored outside the buffer, and Enter finds the line and a zero in it. -/
def LineRight (size : Nat) (buf : Nat → UInt8) (keys : List CChar) : Prop :=
  (∀ place ∈ (kshellReadline size ⟨buf, 0, []⟩ keys).stored, place < size) ∧
    ∀ line ∈ edited (size - 1) [] keys,
      Begins (kshellReadline size ⟨buf, 0, []⟩ keys).buf line ∧
        (kshellReadline size ⟨buf, 0, []⟩ keys).buf line.length = 0

variable {size room : Nat} {state : State} {line : CString} {key : CChar}

theorem begins_store {place : Nat} {byte : UInt8} (begins : Begins state.buf line)
    (behind : line.length ≤ place) : Begins (state.store place byte).buf line := by
  intro i char here
  have inside := (List.getElem?_eq_some_iff.mp here).1
  exact (update_of_ne (by omega) _ _).trans (begins i char here)

/-- The cursor stands behind the line, which the buffer begins with. -/
structure Follows (room : Nat) (state : State) (line : CString) : Prop where
  cur : state.cur = line.length
  begins : Begins state.buf line
  fits : line.length ≤ room

theorem follows_press (follows : Follows room state line)
    (hasRoom : state.cur < room ↔ (state.cur : Int) + 1 < asInt32 size) :
    Follows room (press size state key) (edit room line key) := by
  obtain ⟨cur, begins, fits⟩ := follows
  rw [cur] at hasRoom
  unfold press edit
  rw [cur]
  split_ifs with back clears tab appends inside inside
  · refine ⟨by simp, fun i char here => begins i char ?_, ?_⟩
    · rw [getElem?_dropLast] at here
      exact (Option.ite_none_right_eq_some.mp here).2
    · rw [length_dropLast]
      omega
  · exact ⟨cur, begins_store begins (Nat.le_refl _), fits⟩
  · exact ⟨cur, begins_store begins (Nat.le_succ _), fits⟩
  · refine ⟨by simp, fun i char here => ?_, by simpa [Nat.succ_le_iff] using inside⟩
    rcases Nat.lt_or_ge i line.length with before | beyond
    · rw [getElem?_append_left before] at here
      exact begins_store begins (Nat.le_refl _) i char here
    · obtain ⟨last, isKey⟩ := List.getElem?_eq_some_iff.mp here
      obtain rfl : i = line.length := by
        rw [length_append, length_singleton] at last
        omega
      rw [← isKey, getElem_concat_length rfl]
      exact update_self ..
  · exact absurd (hasRoom.mpr appends) inside
  · exact absurd (hasRoom.mp inside) appends
  · exact ⟨cur, begins, fits⟩

theorem stored_press (follows : Follows room state line) (small : room < size) :
    (∀ place ∈ (press size state key).stored, place < size) ↔
      (∀ place ∈ state.stored, place < size) ∧ (key.val = 9 → line.length + 1 < size) := by
  obtain ⟨cur, _, fits⟩ := follows
  have inside : state.cur < size := by omega
  unfold press
  split_ifs with back clears tab appends
  · simp [back]
  · simp [State.store, inside, clears]
  · simp [State.store, tab, cur, and_comm]
  · simp [State.store, inside, tab]
  · simp [tab]

/-- A run, from any state on. -/
theorem readline_follows (follows : Follows room state line) (small : room < size)
    (hasRoom : ∀ length, length < room ↔ (length : Int) + 1 < asInt32 size) (keys : List CChar) :
    ((∀ place ∈ (kshellReadline size state keys).stored, place < size) ↔
        (∀ place ∈ state.stored, place < size) ∧ TabsInside room size line keys) ∧
      ∀ final ∈ edited room line keys,
        Begins (kshellReadline size state keys).buf final ∧
          (kshellReadline size state keys).buf final.length = 0 := by
  induction keys generalizing state line with
  | nil => simp [kshellReadline, TabsInside, edited]
  | cons key keys ih =>
    unfold kshellReadline TabsInside edited
    by_cases enter : key.val = 10
    · have behind : state.cur < size := by
        rw [follows.cur]
        exact Nat.lt_of_le_of_lt follows.fits small
      rw [if_pos enter, if_pos enter]
      refine ⟨by simp [State.store, behind, enter], fun final isLine => ?_⟩
      cases isLine
      refine ⟨begins_store follows.begins (Nat.le_of_eq follows.cur.symm), ?_⟩
      rw [← follows.cur]
      exact update_self ..
    · rw [if_neg enter, if_neg enter]
      obtain ⟨places, lines⟩ := ih (@follows_press size _ _ _ key follows (hasRoom state.cur))
      refine ⟨?_, lines⟩
      rw [places, stored_press follows small, and_assoc]
      simp [enter]

theorem edit_zero (key : CChar) : edit 0 [] key = [] := by simp [edit]

theorem edited_zero {keys : List CChar} {final : CString} (enters : final ∈ edited room line keys) :
    [] ∈ edited 0 [] keys := by
  induction keys generalizing line with
  | nil => cases enters
  | cons key keys ih =>
    unfold edited at enters ⊢
    split at enters
    · rename_i enter
      rw [if_pos enter]
      rfl
    · rename_i other
      rw [if_neg other, edit_zero]
      exact ih enters

theorem tabsInside_zero (large : 1 < size) (keys : List CChar) : TabsInside 0 size [] keys := by
  induction keys with
  | nil => trivial
  | cons key keys ih =>
    refine Or.inr ⟨fun _ => large, ?_⟩
    rwa [edit_zero]

/-- The line is right exactly when no Tab comes while it fills the buffer; with a size that is
negative as an `int` it has to be empty. -/
theorem line_right_iff (size : BufferSize) (buf : Nat → UInt8) (keys : List CChar) :
    LineRight size.value buf keys ↔
      if size.value < 2147483648 then TabsInside (size.value - 1) size.value [] keys
      else ∀ line ∈ edited (size.value - 1) [] keys, line = [] := by
  obtain ⟨size, positive, word⟩ := size
  have empty (room : Nat) : Follows room ⟨buf, 0, []⟩ [] := ⟨rfl, by simp [Begins], Nat.zero_le _⟩
  unfold LineRight
  rcases Nat.lt_or_ge size 2147483648 with small | large
  · have hasRoom (length : Nat) : length < size - 1 ↔ (length : Int) + 1 < asInt32 size := by
      rw [asInt32_of_lt small]
      omega
    obtain ⟨places, lines⟩ := readline_follows (empty (size - 1)) (by omega) hasRoom keys
    rw [if_pos small, places, and_iff_left lines]
    simp
  · have hasRoom (length : Nat) : length < 0 ↔ (length : Int) + 1 < asInt32 size := by
      rw [asInt32, if_neg (by omega)]
      omega
    obtain ⟨places, lines⟩ := readline_follows (empty 0) (by omega) hasRoom keys
    have inside := tabsInside_zero (show 1 < size by omega) keys
    rw [if_neg (Nat.not_lt.mpr large), and_iff_right (places.mpr ⟨by simp, inside⟩)]
    refine forall₂_congr fun line enters => ?_
    obtain ⟨_, zero⟩ := lines [] (edited_zero enters)
    cases line with
    | nil => simpa [Begins] using zero
    | cons char rest =>
      refine iff_of_false (fun holds => char.property ?_) (cons_ne_nil _ _)
      exact (holds.1 0 char rfl).symm.trans zero

/-- A Tab after the only character of a line of two stores behind the buffer. -/
theorem tab_past_end : ¬ LineRight 2 (fun _ => 0) (ofBytes [97, 9]) := by
  intro right
  have inside := right.1 2 (by decide)
  omega

end Cosec.Core.ShellLines
