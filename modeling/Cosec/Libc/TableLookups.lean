import Cosec.Libc.CharacterClasses
import Cosec.Libc.NumberTexts

/-!
# Table lookups by character

`isspace` and `isdigit` index `ascii_chrgrp` with a signed character, and so
does `strpbrk` with a table of its own.  An index is inside the table exactly
for an ASCII character.
-/

namespace Cosec.Libc.TableLookups

open Libc.CharacterClasses Libc.NumberTexts Libc.Strings

/-- The characters that a loop looks up until its test fails. -/
def lookups (test : UInt8 → Bool) (text : List UInt8) : List UInt8 :=
  text.takeWhile test ++ (text.dropWhile test).take 1

/-- The characters that `atoi` looks up in a string with its zero. -/
def atoiLookups (before : UInt8 → Nat) (nptr : List UInt8) : List UInt8 :=
  lookups (isspace before) nptr ++
    lookups (isdigit before) (behindSign (nptr.dropWhile (isspace before)))

/-- The characters that `strtol` looks up. -/
def strtolLookups (before : UInt8 → Nat) (nptr : List UInt8) (base : Int) : List UInt8 :=
  if base > 36 then [] else lookups (isspace before) nptr

/-- All characters index `ascii_chrgrp` inside. -/
def InTable (chars : List UInt8) : Prop := ∀ char ∈ chars, 0 ≤ asInt8 char ∧ asInt8 char < 128

/-- The second loop of `strpbrk`; the table holds the characters to accept. -/
def strpbrkLoop (accept : CString) : CString → Nat → Option (Option Nat)
  | [], _ => some none
  | char :: rest, position =>
    if 255 < asInt8 char.val % 4294967296 then none
    else if char ∈ accept then some (some position) else strpbrkLoop accept rest (position + 1)

/-- The position that `strpbrk` returns; `none` after an index outside of its table. -/
def strpbrk (s accept : CString) : Option (Option Nat) :=
  if accept.all fun char => 0 ≤ asInt8 char.val ∧ asInt8 char.val ≤ 255 then
    strpbrkLoop accept s 0
  else none

/-! ## Where lookups stay inside -/

def isDigitChar (char : UInt8) : Bool := 0x30 ≤ char ∧ char ≤ 0x39

/-- The character behind a front of some kind is an ASCII character. -/
def EndsAscii (kind : UInt8 → Bool) (text : List UInt8) : Prop :=
  ∀ next, (text.dropWhile kind).head? = some next → next < 0x80

variable {before : UInt8 → Nat} {char : UInt8} {test kind : UInt8 → Bool} {text : List UInt8}

theorem asInt8_inside : 0 ≤ asInt8 char ∧ asInt8 char < 128 ↔ char < 0x80 := by
  have bounded := char.toNat_lt
  have limit : UInt8.toNat 0x80 = 128 := rfl
  rw [UInt8.lt_iff_toNat_lt, asInt8]
  split
  all_goals omega

theorem isdigit_eq (ascii : char < 0x80) : isdigit before char = isDigitChar char :=
  Bool.eq_iff_iff.mpr ((isdigit_iff ascii).trans (by simp [isDigitChar, IsDigit]))

/-- A test of ASCII characters. -/
structure Tests (test kind : UInt8 → Bool) : Prop where
  agrees : ∀ char, char < 0x80 → test char = kind char
  ascii : ∀ char, kind char = true → char < 0x80

theorem Tests.lookups_iff (tests : Tests test kind) (text : List UInt8) :
    ((∀ char ∈ lookups test text, char < 0x80) ↔ EndsAscii kind text) ∧
      (EndsAscii kind text → text.dropWhile test = text.dropWhile kind) := by
  induction text with
  | nil => simp [lookups, EndsAscii]
  | cons char text ih =>
    unfold lookups EndsAscii at ih ⊢
    by_cases ascii : char < 0x80
    · cases passes : kind char with
      | true => simpa [tests.agrees char ascii, passes, ascii] using ih
      | false => simp [tests.agrees char ascii, passes, ascii]
    · have fails : kind char = false := Bool.eq_false_iff.mpr fun holds =>
        ascii (tests.ascii char holds)
      cases passes : test char <;> simp [fails, passes, ascii]

theorem strpbrkLoop_eq_iff {accept : CString} (accepted : ∀ char ∈ accept, char.val < 0x80)
    (s : CString) (position : Nat) :
    strpbrkLoop accept s position = some ((s.findIdx? (· ∈ accept)).map (· + position)) ↔
      ∀ char ∈ s.takeWhile (· ∉ accept), char.val < 0x80 := by
  induction s generalizing position with
  | nil => simp [strpbrkLoop]
  | cons char s ih =>
    have index : 255 < asInt8 char.val % 4294967296 ↔ ¬ char.val < 0x80 := by
      have bounded := char.val.toNat_lt
      rw [UInt8.lt_iff_toNat_lt, asInt8]
      split <;> simp <;> omega
    rw [strpbrkLoop, List.findIdx?_cons]
    by_cases ascii : char.val < 0x80
    · rw [if_neg (index.not.mpr (not_not.mpr ascii))]
      by_cases accepts : char ∈ accept
      · simp [accepts]
      · have rest := ih (position + 1)
        simpa [accepts, ascii, Function.comp_def, Nat.add_assoc, Nat.add_comm 1] using rest
    · have refused : char ∉ accept := fun member => ascii (accepted char member)
      rw [if_pos (index.mpr ascii)]
      simp [refused, ascii]

/-- The lookups stay inside exactly as long as they meet ASCII characters only. -/
theorem lookups_inside_iff (before : UInt8 → Nat) (nptr s accept : CString) (base : Int) :
    let text := nptr.map Subtype.val ++ [0]
    (InTable (atoiLookups before text) ↔
        EndsAscii isSpaceChar text ∧
          EndsAscii isDigitChar (behindSign (text.dropWhile isSpaceChar))) ∧
      (InTable (strtolLookups before text base) ↔ (base ≤ 36 → EndsAscii isSpaceChar text)) ∧
      (strpbrk s accept = some (s.findIdx? (· ∈ accept)) ↔
        (∀ char ∈ accept, char.val < 0x80) ∧
          ∀ char ∈ s.takeWhile (· ∉ accept), char.val < 0x80) := by
  have spaces : Tests (isspace before) isSpaceChar :=
    ⟨fun _ => isspace_eq, fun char space => by
      have space := of_decide_eq_true space
      rcases space with ⟨_, small⟩ | rfl
      · exact UInt8.lt_of_le_of_lt small (by decide)
      · decide⟩
  have digits : Tests (isdigit before) isDigitChar :=
    ⟨fun _ => isdigit_eq, fun char digit =>
      UInt8.lt_of_le_of_lt (of_decide_eq_true digit).2 (by decide)⟩
  intro text
  unfold InTable atoiLookups strtolLookups
  simp only [asInt8_inside]
  refine ⟨?_, ?_, ?_⟩
  · obtain ⟨inside, dropped⟩ := spaces.lookups_iff text
    rw [List.forall_mem_append, inside, (digits.lookups_iff _).1]
    exact and_congr_right fun ends => by rw [dropped ends]
  · split
    · rename_i large
      simp [Int.not_le.mpr large]
    · rename_i small
      rw [(spaces.lookups_iff text).1, forall_prop_of_true (Int.not_lt.mp small)]
  · have indexes (char : CChar) :
        0 ≤ asInt8 char.val ∧ asInt8 char.val ≤ 255 ↔ char.val < 0x80 := by
      have bounded := char.val.toNat_lt
      rw [← asInt8_inside, asInt8]
      split <;> omega
    simp only [strpbrk, indexes, List.all_eq_true, decide_eq_true_eq]
    split
    · rename_i accepted
      rw [and_iff_right accepted]
      simpa using strpbrkLoop_eq_iff accepted s 0
    · rename_i outside
      exact iff_of_false (Option.some_ne_none _).symm fun both => outside both.1

/-- A byte that is negative as a character is stored in front of the table. -/
theorem strpbrk_before_table :
    ¬ strpbrk (ofBytes [97]) (ofBytes [0xC3]) = some ((ofBytes [97]).findIdx? (· ∈ ofBytes [0xC3])) := by
  decide

end Cosec.Libc.TableLookups
