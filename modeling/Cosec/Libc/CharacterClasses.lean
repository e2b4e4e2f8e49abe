import Mathlib.Init

/-!
# Character classes

`isspace`, `isdigit` and `iscntrl` look a character up in `ascii_chrgrp`, a
table of 128 words, and test one bit of its word.  The index is a signed
character, so a byte from 0x80 on is looked up in front of the table.  What
stands there is not known: it is a parameter, `before`, of every lookup.

For an ASCII character the classes are what their names say, whatever stands
in front of the table.  The classes that no modelled function asks for, and
`toupper` and `tolower`, which do not use the table, are not in this module.
-/

namespace Cosec.Libc.CharacterClasses

/-- `ascii_chrgrp`. -/
def asciiChrgrp : List Nat :=
  [0x0004, 0x0004, 0x0004, 0x0004, 0x0004, 0x0004, 0x0004, 0x0004,
    0x0004, 0x0804, 0x0804, 0x0804, 0x0804, 0x0804, 0x0004, 0x0004,
    0x0004, 0x0004, 0x0004, 0x0004, 0x0004, 0x0004, 0x0004, 0x0004,
    0x0004, 0x0004, 0x0004, 0x0004, 0x0004, 0x0004, 0x0004, 0x0004,
    0x0800, 0x0010, 0x0010, 0x0010, 0x0010, 0x0010, 0x0010, 0x0010,
    0x0010, 0x0010, 0x0010, 0x0010, 0x0010, 0x0010, 0x0010, 0x0010,
    0x20b9, 0x20b9, 0x20b9, 0x20b9, 0x20b9, 0x20b9, 0x20b9, 0x20b9,
    0x20b9, 0x20b9, 0x0010, 0x0010, 0x0010, 0x0010, 0x0010, 0x0010,
    0x0010, 0x3033, 0x3033, 0x3033, 0x3033, 0x3033, 0x3033, 0x1013,
    0x1013, 0x1013, 0x1013, 0x1013, 0x1013, 0x1013, 0x1013, 0x1013,
    0x1013, 0x1013, 0x1013, 0x1013, 0x1013, 0x1013, 0x1013, 0x1013,
    0x1013, 0x1013, 0x1013, 0x0010, 0x0010, 0x0010, 0x0010, 0x0010,
    0x0010, 0x2073, 0x2073, 0x2073, 0x2073, 0x2073, 0x2073, 0x0053,
    0x0053, 0x0053, 0x0053, 0x0053, 0x0053, 0x0053, 0x0053, 0x0053,
    0x0053, 0x0053, 0x0053, 0x0053, 0x0053, 0x0053, 0x0053, 0x0053,
    0x0053, 0x0053, 0x0053, 0x0010, 0x0010, 0x0010, 0x0010, 0x0004]

section Lookups

variable (before : UInt8 → Nat)

def chrgrp (char : UInt8) : Nat :=
  if char < 0x80 then asciiChrgrp.getD char.toNat 0 else before char

def isspace (char : UInt8) : Bool := chrgrp before char &&& 0x0800 != 0

def iscntrl (char : UInt8) : Bool := chrgrp before char &&& 0x0004 != 0

def isdigit (char : UInt8) : Bool := chrgrp before char &&& 0x0008 != 0

end Lookups

/-- A decimal digit. -/
def IsDigit (char : UInt8) : Prop := 0x30 ≤ char ∧ char ≤ 0x39

def isSpaceChar (char : UInt8) : Bool := 9 ≤ char ∧ char ≤ 13 ∨ char = 32

variable {before : UInt8 → Nat} {char : UInt8}

theorem digit_class :
    ∀ index : Fin 128,
      (asciiChrgrp.getD index.val 0 &&& 0x0008 != 0) =
        decide (0x30 ≤ index.val ∧ index.val ≤ 0x39) := by
  decide

theorem space_class :
    ∀ index : Fin 128,
      (asciiChrgrp.getD index.val 0 &&& 0x0800 != 0) =
        decide (9 ≤ index.val ∧ index.val ≤ 13 ∨ index.val = 32) := by
  decide

theorem isdigit_iff (ascii : char < 0x80) :
    isdigit before char = true ↔ IsDigit char := by
  have entry := digit_class ⟨char.toNat, ascii⟩
  unfold isdigit chrgrp
  rw [if_pos ascii, entry, decide_eq_true_eq]
  exact Iff.rfl

theorem IsDigit.ascii (digit : IsDigit char) : char < 0x80 :=
  UInt8.lt_of_le_of_lt digit.2 (by decide)

theorem IsDigit.isdigit (digit : IsDigit char) : isdigit before char = true :=
  (isdigit_iff digit.ascii).mpr digit

theorem isspace_eq (ascii : char < 0x80) :
    isspace before char = isSpaceChar char := by
  have entry := space_class ⟨char.toNat, ascii⟩
  unfold isspace chrgrp isSpaceChar
  rw [if_pos ascii, entry]
  simp [UInt8.le_iff_toNat_le, ← UInt8.toNat_inj]

theorem IsDigit.bounds (digit : IsDigit char) :
    48 ≤ char.toNat ∧ char.toNat ≤ 57 :=
  digit.imp UInt8.le_iff_toNat_le.mp UInt8.le_iff_toNat_le.mp

theorem IsDigit.not_isspace (digit : IsDigit char) :
    isspace before char = false := by
  have bounds := digit.bounds
  rw [isspace_eq digit.ascii]
  simp [isSpaceChar, UInt8.le_iff_toNat_le, ← UInt8.toNat_inj]
  omega

end Cosec.Libc.CharacterClasses
