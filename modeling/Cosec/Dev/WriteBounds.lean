import Mathlib.Tactic.SplitIfs
import Cosec.Dev.ConsoleWrites

/-!
# What a write to a terminal may read

`dev_tty_write` advances through control sequences without looking at the
length of its buffer, looks up bytes as signed characters in `ascii_chrgrp`
and reads through an argument pointer that may be null.  All it reads is in
bounds for exactly the buffers that are made of complete sequences.
-/

namespace Cosec.Dev.WriteBounds

open Dev.ConsoleWrites Libc.CharacterClasses List

/-! ## Reads in bounds -/

section Reads

variable (around : Surroundings)

/-- The characters that a parameter is read from, up to the one that ends it. -/
def NumberInBounds : List UInt8 → Prop
  | [] => False
  | char :: rest => char < 0x80 ∧ (isdigit around.chrgrpBefore char = true → NumberInBounds rest)

/-- The first parameter of a control sequence, and what follows it. -/
def firstParameter (text : List UInt8) : Option Int × List UInt8 :=
  if isdigit around.chrgrpBefore (charAt text) then
    (some (readNumber around 0 text).1, (readNumber around 0 text).2)
  else (none, text)

/-- The second parameter of a control sequence, and what follows it. -/
def secondParameter (text : List UInt8) : Option Int × List UInt8 :=
  if charAt text = 0x3b then
    (some (readNumber around 0 text.tail).1, (readNumber around 0 text.tail).2)
  else (none, text)

/-- `ESC [ J` and `ESC [ K` read the first parameter. -/
def CsiInBounds (text : List UInt8) : Prop :=
  let first := firstParameter around text
  let final := charAt (secondParameter around first.2).2
  NumberInBounds around text ∧ (charAt first.2 = 0x3b → NumberInBounds around first.2.tail) ∧
    (final = 0x4a ∨ final = 0x4b → first.1 ≠ none)

/-- One turn of the loop, with the text behind its character. -/
def CommandInBounds (char : UInt8) (text : List UInt8) : Prop :=
  char < 0x80 ∧ (char = 0x1b → text ≠ [] ∧ (charAt text = 0x5b → CsiInBounds around text.tail))

/-- The turns that `readCommands` makes. -/
def CommandsInBounds : Nat → List UInt8 → Prop
  | _, [] => True
  | skipped + 1, _ :: rest => CommandsInBounds skipped rest
  | 0, char :: rest =>
    CommandInBounds around char rest ∧
      CommandsInBounds (rest.length - (readCommand around char rest).2.length) rest

theorem readCsi_rest (text : List UInt8) :
    (readCsi around text).2 = (secondParameter around (firstParameter around text).2).2.tail :=
  rfl

end Reads

/-- What may follow the digits of a parameter. -/
def EndsNumber (char : UInt8) : Prop := char < 0x80 ∧ ¬IsDigit char

/-- A character or an escape sequence with all its characters. -/
inductive Complete : List UInt8 → Prop
  | char {char : UInt8} (ascii : char < 0x80) (plain : char ≠ 0x1b) : Complete [char]
  | escape {char : UInt8} (short : char ≠ 0x5b) : Complete [0x1b, char]
  | control {digits : List UInt8} {final : UInt8} (all : ∀ char ∈ digits, IsDigit char)
      (ends : EndsNumber final) (single : final ≠ 0x3b)
      (given : final = 0x4a ∨ final = 0x4b → digits ≠ []) :
      Complete (0x1b :: 0x5b :: (digits ++ [final]))
  | control2 {digits digits2 : List UInt8} {final : UInt8} (all : ∀ char ∈ digits, IsDigit char)
      (all2 : ∀ char ∈ digits2, IsDigit char) (ends : EndsNumber final)
      (given : final = 0x4a ∨ final = 0x4b → digits ≠ []) :
      Complete (0x1b :: 0x5b :: (digits ++ 0x3b :: (digits2 ++ [final])))

variable {around : Surroundings} {char final : UInt8} {digits text rest : List UInt8}

theorem EndsNumber.isdigit (ends : EndsNumber char) : ¬isdigit around.chrgrpBefore char = true :=
  fun digit => ends.2 ((isdigit_iff ends.1).mp digit)

theorem numberInBounds_iff :
    NumberInBounds around text ↔
      ∃ digits final rest,
        (∀ char ∈ digits, IsDigit char) ∧ EndsNumber final ∧ text = digits ++ final :: rest := by
  constructor
  · intro bounded
    induction text with
    | nil => exact bounded.elim
    | cons char text ih =>
      by_cases digit : IsDigit char
      · obtain ⟨digits, final, rest, all, ends, rfl⟩ :=
          ih (bounded.2 digit.isdigit)
        exact ⟨char :: digits, final, rest, forall_mem_cons.mpr ⟨digit, all⟩, ends, rfl⟩
      · exact ⟨[], char, text, nofun, ⟨bounded.1, digit⟩, rfl⟩
  · rintro ⟨digits, final, rest, all, ends, rfl⟩
    induction digits with
    | nil => exact ⟨ends.1, fun digit => absurd digit ends.isdigit⟩
    | cons char digits ih =>
      obtain ⟨digit, others⟩ := forall_mem_cons.mp all
      exact ⟨digit.ascii, fun _ => ih others⟩

section

variable (all : ∀ char ∈ digits, IsDigit char) (ends : EndsNumber final)

include all ends

theorem readNumber_digits (value : Int) :
    (readNumber around value (digits ++ final :: rest)).2 = final :: rest := by
  induction digits generalizing value with
  | nil => rw [nil_append, readNumber, if_neg ends.isdigit]
  | cons char digits ih =>
    obtain ⟨digit, others⟩ := forall_mem_cons.mp all
    rw [cons_append, readNumber, if_pos digit.isdigit]
    exact ih others _

theorem firstParameter_digits :
    (firstParameter around (digits ++ final :: rest)).2 = final :: rest ∧
      ((firstParameter around (digits ++ final :: rest)).1 = none ↔ digits = []) := by
  unfold firstParameter
  cases digits with
  | nil =>
    rw [if_neg (by exact ends.isdigit)]
    exact ⟨rfl, by simp⟩
  | cons char digits =>
    rw [if_pos (by exact (all char mem_cons_self).isdigit)]
    exact ⟨readNumber_digits all ends 0, by simp⟩

theorem csi_single (single : final ≠ 0x3b) :
    (CsiInBounds around (digits ++ final :: rest) ↔ (final = 0x4a ∨ final = 0x4b → digits ≠ [])) ∧
      (readCsi around (digits ++ final :: rest)).2 = rest := by
  obtain ⟨after, absent⟩ := @firstParameter_digits around final digits rest all ends
  have second : secondParameter around (final :: rest) = (none, final :: rest) := if_neg single
  rw [readCsi_rest]
  unfold CsiInBounds
  simp only [after, second, ne_eq, absent]
  refine ⟨⟨fun bounded => bounded.2.2, fun given => ⟨?_, fun same => absurd same single, given⟩⟩, rfl⟩
  exact numberInBounds_iff.mpr ⟨digits, final, rest, all, ends, rfl⟩

end

theorem csi_double {digits2 : List UInt8} (all : ∀ char ∈ digits, IsDigit char)
    (all2 : ∀ char ∈ digits2, IsDigit char) (ends : EndsNumber final) :
    (CsiInBounds around (digits ++ 0x3b :: (digits2 ++ final :: rest)) ↔
        (final = 0x4a ∨ final = 0x4b → digits ≠ [])) ∧
      (readCsi around (digits ++ 0x3b :: (digits2 ++ final :: rest))).2 = rest := by
  have separator : EndsNumber 0x3b := ⟨by decide, fun digit => absurd digit.2 (by decide)⟩
  obtain ⟨after, absent⟩ :=
    @firstParameter_digits around 0x3b digits (digits2 ++ final :: rest) all separator
  have second : (secondParameter around (0x3b :: (digits2 ++ final :: rest))).2 = final :: rest :=
    readNumber_digits all2 ends 0
  rw [readCsi_rest]
  unfold CsiInBounds
  simp only [after, second, ne_eq, absent]
  refine ⟨⟨fun bounded => bounded.2.2, fun given => ⟨?_, fun _ => ?_, given⟩⟩, rfl⟩
  · exact numberInBounds_iff.mpr ⟨digits, 0x3b, _, all, separator, rfl⟩
  · exact numberInBounds_iff.mpr ⟨digits2, final, rest, all2, ends, rfl⟩

theorem complete_of_csiInBounds (bounded : CsiInBounds around text) :
    ∃ body, Complete (0x1b :: 0x5b :: body) ∧ text = body ++ (readCsi around text).2 := by
  obtain ⟨digits, final, rest, all, ends, rfl⟩ := numberInBounds_iff.mp bounded.1
  by_cases separator : final = 0x3b
  · subst separator
    have after := (@firstParameter_digits around 0x3b digits rest all ends).1
    have second := bounded.2.1
    rw [after] at second
    obtain ⟨digits2, final, rest, all2, ends2, rfl⟩ := numberInBounds_iff.mp (second rfl)
    obtain ⟨given, left⟩ := @csi_double around final digits rest digits2 all all2 ends2
    refine ⟨digits ++ 0x3b :: (digits2 ++ [final]), ?_, by simp [left]⟩
    exact Complete.control2 all all2 ends2 (given.mp bounded)
  · obtain ⟨given, left⟩ := @csi_single around final digits rest all ends separator
    refine ⟨digits ++ [final], Complete.control all ends separator (given.mp bounded), ?_⟩
    simp [left]

/-! ## Commands -/

theorem readCommand_plain (plain : char ≠ 0x1b) : (readCommand around char text).2 = text := by
  unfold readCommand
  split_ifs <;> rfl

theorem readCommand_escape : readCommand around 0x1b text = readEscape around text := by
  have control : iscntrl around.chrgrpBefore 0x1b = true := by
    unfold iscntrl chrgrp
    rw [if_pos (by decide)]
    decide
  rw [readCommand, if_pos control]
  rfl

theorem readEscape_short (short : char ≠ 0x5b) : (readEscape around (char :: text)).2 = text := by
  unfold readEscape
  simp only [show charAt (char :: text) = char from rfl, if_neg short]
  split_ifs <;> rfl

theorem complete_of_commandInBounds (bounded : CommandInBounds around char text) :
    ∃ body, Complete (char :: body) ∧ text = body ++ (readCommand around char text).2 := by
  by_cases plain : char = 0x1b
  · subst plain
    obtain ⟨some, control⟩ := bounded.2 rfl
    cases text with
    | nil => exact absurd rfl some
    | cons next text =>
      rw [readCommand_escape]
      by_cases short : next = 0x5b
      · subst short
        obtain ⟨body, complete, left⟩ := complete_of_csiInBounds (control rfl)
        exact ⟨0x5b :: body, complete, congrArg (0x5b :: ·) left⟩
      · rw [readEscape_short short]
        exact ⟨[next], Complete.escape short, rfl⟩
  · rw [readCommand_plain plain]
    exact ⟨[], Complete.char bounded.1 plain, rfl⟩

theorem Complete.commandInBounds {body : List UInt8} (complete : Complete (char :: body)) :
    CommandInBounds around char (body ++ rest) ∧
      (readCommand around char (body ++ rest)).2 = rest := by
  have escape : (0x1b : UInt8) < 0x80 := by decide
  cases complete with
  | char ascii plain => exact ⟨⟨ascii, fun same => absurd same plain⟩, readCommand_plain plain⟩
  | @escape next short =>
    rw [readCommand_escape]
    exact ⟨⟨escape, fun _ => ⟨nofun, fun same => absurd same short⟩⟩, readEscape_short short⟩
  | @control digits final all ends single given =>
    obtain ⟨bounded, left⟩ := @csi_single around final digits rest all ends single
    simp only [cons_append, append_assoc, nil_append, readCommand_escape]
    exact ⟨⟨escape, fun _ => ⟨nofun, fun _ => bounded.mpr given⟩⟩, left⟩
  | @control2 digits digits2 final all all2 ends given =>
    obtain ⟨bounded, left⟩ := @csi_double around final digits rest digits2 all all2 ends
    simp only [cons_append, append_assoc, nil_append, readCommand_escape]
    exact ⟨⟨escape, fun _ => ⟨nofun, fun _ => bounded.mpr given⟩⟩, left⟩

theorem commandsInBounds_skip (skipped : Nat) (buf : List UInt8) :
    CommandsInBounds around skipped buf = CommandsInBounds around 0 (buf.drop skipped) := by
  induction skipped generalizing buf with
  | zero => rfl
  | succ skipped ih =>
    cases buf with
    | nil => rfl
    | cons char rest => exact ih rest

theorem commandsInBounds_cons
    {body : List UInt8} (left : (readCommand around char (body ++ rest)).2 = rest) :
    CommandsInBounds around 0 (char :: (body ++ rest)) ↔
      CommandInBounds around char (body ++ rest) ∧ CommandsInBounds around 0 rest := by
  rw [CommandsInBounds, left, commandsInBounds_skip]
  simp

/-- A write reads in bounds exactly if its bytes are complete sequences. -/
theorem write_reads_in_bounds_iff (around : Surroundings) (buf : List UInt8) :
    CommandsInBounds around 0 buf ↔
      ∃ sequences : List (List UInt8),
        (∀ sequence ∈ sequences, Complete sequence) ∧ buf = sequences.flatten := by
  constructor
  · intro bounded
    induction size : buf.length using Nat.strongRecOn generalizing buf with
    | ind length ih =>
      cases buf with
      | nil => exact ⟨[], nofun, rfl⟩
      | cons char text =>
        obtain ⟨body, complete, left⟩ := complete_of_commandInBounds bounded.1
        generalize (readCommand around char text).2 = rest at left
        subst left
        rw [commandsInBounds_cons complete.commandInBounds.2] at bounded
        obtain ⟨sequences, all, rfl⟩ :=
          ih rest.length (by simp at size; omega) rest bounded.2 rfl
        exact ⟨(char :: body) :: sequences, forall_mem_cons.mpr ⟨complete, all⟩, rfl⟩
  · rintro ⟨sequences, all, rfl⟩
    induction sequences with
    | nil => trivial
    | cons sequence sequences ih =>
      obtain ⟨complete, others⟩ := forall_mem_cons.mp all
      cases sequence with
      | nil => cases complete
      | cons char body =>
        obtain ⟨bounded, left⟩ := complete.commandInBounds
        exact (commandsInBounds_cons left).mpr ⟨bounded, ih others⟩

/-- A lone escape reads the byte behind the buffer. -/
theorem lone_escape_reads_behind : ¬ ∀ around buf, CommandsInBounds around 0 buf := by
  intro bounded
  have command := (bounded plainSurroundings [0x1b]).1
  exact (command.2 rfl).1 rfl

end Cosec.Dev.WriteBounds
