import Mathlib.Data.Nat.Digits.Lemmas
import Cosec.Libc.NumberTexts

/-!
# Printed numbers

`snprint_uint` and `snprint_int` print a number in a field.  A sign in front of
padding makes the field too long, and a width above 32 leaves the buffer.
`sscan_uint` reads a field back unless it is padded with spaces.
-/

namespace Cosec.Libc.PrintedNumbers

open Lib.Word32 List

/-- `get_digit`. -/
def getDigit (digit : Nat) : UInt8 :=
  if digit < 10 then UInt8.ofNat (48 + digit) else UInt8.ofNat (65 + digit - 10)

structure Flags where
  zeroPadded : Bool
  printPlus : Bool
  leftPadded : Bool
  spacePlus : Bool

/-- The digits go to the end of `a`, which has `n` characters left; `none` is an index outside. -/
def putDigits (base : Nat) : Nat → Nat → List UInt8 → Option (List UInt8)
  | _, 0, a => some a
  | 0, _ + 1, _ => none
  | n + 1, x + 1, a => putDigits base n ((x + 1) / base) (getDigit ((x + 1) % base) :: a)

def putPadding (padding : UInt8) (indent : Nat) : Nat → List UInt8 → Option (List UInt8)
  | 0, a => some a
  | minwidth + 1, a =>
    if indent < minwidth + 1 then
      if a.length < 32 then putPadding padding indent minwidth (padding :: a) else none
    else some a

/-- The text, without an end of the output; the test of `LEFT_PADDED` is always true. -/
def snprintUint (x base : Nat) (flags : Flags) (minwidth : Nat) : Option (List UInt8) :=
  (if x = 0 then some [48] else putDigits base 32 x []).bind fun a =>
    putPadding (if flags.zeroPadded then 48 else 32) a.length minwidth a

/-- The sign that `snprint_int` writes. -/
def signText (x : Int) (flags : Flags) : List UInt8 :=
  if x < 0 then [45] else if flags.printPlus then [43] else if flags.spacePlus then [32] else []

/-- `-INT_MIN` is `INT_MIN`, which is 2147483648 as an unsigned number. -/
def snprintInt (x : Int) (base : Nat) (flags : Flags) (minwidth : Nat) : Option (List UInt8) :=
  (snprintUint (wrap32 x.natAbs) base flags minwidth).map fun text => signText x flags ++ text

/-- The bases of the printed numbers. -/
structure PrintBase where
  value : Nat
  atLeast : 2 ≤ value
  atMost : value ≤ 16

/-- A number in a base. -/
def digitText (base x : Nat) : List UInt8 :=
  if x = 0 then [48] else (Nat.digits base x).reverse.map getDigit

/-- A field: the sign stands next to the digits or before the zeros. -/
def fieldText (sign digits : List UInt8) (flags : Flags) (width : Nat) : List UInt8 :=
  let fill := width - (sign.length + digits.length)
  if flags.zeroPadded then sign ++ (List.replicate fill 48 ++ digits)
  else List.replicate fill 32 ++ (sign ++ digits)

theorem length_fieldText (sign digits : List UInt8) (flags : Flags) (width : Nat) :
    (fieldText sign digits flags width).length = max width (sign.length + digits.length) := by
  unfold fieldText
  split
  · simp only [length_append, length_replicate]
    omega
  · simp only [length_append, length_replicate]
    omega

theorem putDigits_eq {base n x : Nat} (atLeast : 2 ≤ base) (fits : x < base ^ n) (a : List UInt8) :
    putDigits base n x a = some ((Nat.digits base x).reverse.map getDigit ++ a) := by
  induction n generalizing x a with
  | zero =>
    obtain rfl : x = 0 := by simpa using fits
    simp [putDigits]
  | succ n ih =>
    cases x with
    | zero => simp [putDigits]
    | succ x =>
      rw [putDigits, ih (Nat.div_lt_of_lt_mul (Nat.pow_succ' ▸ fits)),
        Nat.digits_def' atLeast (Nat.succ_pos x)]
      simp

theorem putPadding_eq {padding : UInt8} {indent width : Nat} {a : List UInt8}
    (fits : a.length ≤ 32) :
    putPadding padding indent width a = if a.length + (width - indent) ≤ 32 then
        some (List.replicate (width - indent) padding ++ a) else none := by
  induction width generalizing a with
  | zero => simp [putPadding, fits]
  | succ width ih =>
    rw [putPadding]
    by_cases pads : indent < width + 1
    · have more : width + 1 - indent = width - indent + 1 := by omega
      rw [if_pos pads, more]
      by_cases inside : a.length < 32
      · rw [if_pos inside, @ih (padding :: a) inside, length_cons, replicate_succ']
        simp only [append_assoc, singleton_append, add_assoc, add_comm 1]
      · rw [if_neg inside, if_neg (by omega)]
    · rw [if_neg pads, Nat.sub_eq_zero_of_le (by omega)]
      simp [fits]

/-- The digits, and what pads them to the width. -/
theorem snprintUint_eq {x : Nat} (base : PrintBase) (flags : Flags) (width : Nat)
    (small : x < 4294967296) :
    snprintUint x base.value flags width =
      if width ≤ 32 then some (fieldText [] (digitText base.value x) flags width) else none := by
  have fits : (digitText base.value x).length ≤ 32 := by
    unfold digitText
    split
    · decide
    · rw [length_map, length_reverse, Nat.digits_length_le_iff base.atLeast]
      exact small.trans_le (Nat.pow_le_pow_left base.atLeast 32)
  have digits : (if x = 0 then some [48] else putDigits base.value 32 x []) =
      some (digitText base.value x) := by
    unfold digitText
    split
    · rfl
    · rw [putDigits_eq base.atLeast (small.trans_le (Nat.pow_le_pow_left base.atLeast 32)),
        append_nil]
  rw [snprintUint, digits, Option.bind_some, putPadding_eq fits]
  by_cases narrow : width ≤ 32
  · rw [if_pos narrow, if_pos (by omega), fieldText]
    cases flags.zeroPadded with
    | false => simp
    | true => simp
  · rw [if_neg narrow, if_neg (by omega)]

theorem natAbs_lt (x : BitVec 32) : x.toInt.natAbs < 4294967296 := by
  have lower := x.le_toInt
  have upper := x.toInt_lt
  omega

/-- A sign in front of a padded field makes it too long. -/
theorem sign_fieldText_iff {sign digits : List UInt8} {flags : Flags} {width : Nat} :
    sign ++ fieldText [] digits flags width = fieldText sign digits flags width ↔
      sign = [] ∨ width ≤ digits.length := by
  constructor
  · intro same
    have lengths := congrArg List.length same
    rw [length_append, length_fieldText, length_fieldText, length_nil] at lengths
    rcases Nat.eq_zero_or_pos sign.length with none_ | signed
    · exact Or.inl (length_eq_zero_iff.mp none_)
    · exact Or.inr (by omega)
  · rintro (rfl | unpadded)
    · rfl
    · have none_ : width - digits.length = 0 := Nat.sub_eq_zero_of_le unpadded
      have signed : width - (sign.length + digits.length) = 0 := by omega
      simp [fieldText, none_, signed]

/-- A field is printed as it should be exactly when its width is at most 32 and there is no sign
in front of padding. -/
theorem field_width_iff (base : PrintBase) (x : BitVec 32) (flags : Flags) (width : Nat) :
    (snprintUint x.toNat base.value flags width =
        some (fieldText [] (digitText base.value x.toNat) flags width) ↔ width ≤ 32) ∧
      (snprintInt x.toInt base.value flags width =
        some (fieldText (signText x.toInt flags) (digitText base.value x.toInt.natAbs) flags
          width) ↔
        width ≤ 32 ∧ (signText x.toInt flags = [] ∨
          width ≤ (digitText base.value x.toInt.natAbs).length)) := by
  rw [snprintInt, wrap32_of_lt (natAbs_lt x), snprintUint_eq base flags width x.isLt,
    snprintUint_eq base flags width (natAbs_lt x)]
  by_cases narrow : width ≤ 32
  · rw [if_pos narrow, if_pos narrow, Option.map_some]
    simp [narrow, sign_fieldText_iff]
  · simp [narrow]

/-- The field of -1 with width 5 has six characters. -/
theorem signed_field_too_long :
    snprintInt (-1) 10 ⟨false, false, false, false⟩ 5 ≠
      some (fieldText (signText (-1) ⟨false, false, false, false⟩) (digitText 10 1)
        ⟨false, false, false, false⟩ 5) := by
  simp [fieldText, signText, digitText, getDigit]
  decide

/-! ## Scanning what was printed -/

section

open Libc.Formatting Libc.NumberTexts

theorem digitValue_getDigit : ∀ digit < 16, digitValue (getDigit digit) = digit := by decide

/-- A property of the digits of a base is one of all characters of a number. -/
theorem forall_mem_digitText
    {base x : Nat}
    {property : UInt8 → Prop}
    (atLeast : 2 ≤ base)
    (digits : ∀ digit < base, property (getDigit digit)) :
    ∀ char ∈ digitText base x, property char := by
  intro char member
  unfold digitText at member
  split at member
  · cases mem_singleton.mp member
    exact digits 0 (by omega)
  · obtain ⟨digit, isDigit, rfl⟩ := mem_map.mp member
    exact digits digit (Nat.digits_lt_base atLeast (mem_reverse.mp isDigit))

/-- The characters of a number are digits of its base. -/
theorem digitOf_digitText (base : PrintBase) (x : Nat) :
    ∀ char ∈ digitText base.value x,
      digitOf base.value char = some (digitValue char) := by
  have below := base.atMost
  refine forall_mem_digitText base.atLeast fun digit small => ?_
  apply digitOf_valid (by omega)
  rw [validDigit, digitValue_getDigit digit (by omega)]
  exact decide_eq_true small

theorem numberOf_digitText (base : PrintBase) (x : Nat) :
    numberOf base.value (digitText base.value x) = x := by
  unfold digitText numberOf
  split
  · rename_i zero
    rw [zero]
    rfl
  · rw [foldl_map, foldl_reverse]
    have whole := Nat.ofDigits_digits base.value x
    rw [Nat.ofDigits_eq_foldr] at whole
    refine (foldr_ext _ _ _ fun digit member number => ?_).trans whole
    have small := (Nat.digits_lt_base base.atLeast member).trans_le base.atMost
    rw [digitValue_getDigit digit small, Nat.cast_id, add_comm]

theorem digitText_ne_nil (base x : Nat) : digitText base x ≠ [] := by
  unfold digitText
  split
  · exact cons_ne_nil _ _
  · rename_i nonzero
    simpa [Nat.digits_eq_nil_iff_eq_zero] using nonzero

theorem sscanUint_digitText
    (base : PrintBase)
    {x : Nat}
    (small : x < 4294967296)
    {stop : UInt8}
    (stops : digitOf base.value stop = none)
    (count res : Nat)
    (behind : List UInt8) :
    sscanUint
        (List.replicate count 48 ++ digitText base.value x ++ stop :: behind)
        res base.value =
      some (x, stop :: behind) := by
  have number :
      numberOf base.value (List.replicate count 48 ++ digitText base.value x) =
        x := by
    induction count with
    | zero => exact numberOf_digitText base x
    | succ count ih => exact ih
  have valued : ∀ char ∈ List.replicate count 48 ++ digitText base.value x,
      digitOf base.value char = some (digitValue char) := by
    intro char member
    rcases mem_append.mp member with zero | digit
    · rw [eq_of_mem_replicate zero]
      rfl
    · exact digitOf_digitText base x char digit
  unfold numberOf at number
  rw [sscanUint_digits valued stops, if_neg (by simp [digitText_ne_nil]),
    number, wrap32_of_lt small]

/--
A printed number is scanned back, whatever follows it, exactly when it is not
padded with spaces.
-/
theorem scanned_back_iff (base : PrintBase) (x : BitVec 32) (flags : Flags) {width : Nat}
    (narrow : width ≤ 32) {stop : UInt8} (stops : digitOf base.value stop = none) (res : Nat)
    (behind : List UInt8) :
    (∃ text, snprintUint x.toNat base.value flags width = some text ∧
        sscanUint (text ++ stop :: behind) res base.value = some (x.toNat, stop :: behind)) ↔
      flags.zeroPadded = true ∨ width ≤ (digitText base.value x.toNat).length := by
  have zeros := fun count => sscanUint_digitText base x.isLt stops count res behind
  rw [snprintUint_eq base flags width x.isLt, if_pos narrow]
  generalize digitText base.value x.toNat = digits at *
  by_cases padded : flags.zeroPadded = true ∨ width ≤ digits.length
  · refine iff_of_true ⟨_, rfl, ?_⟩ padded
    have text : fieldText [] digits flags width =
        List.replicate (width - digits.length) 48 ++ digits := by
      rcases padded with zero | unpadded
      · simp [fieldText, zero]
      · simp [fieldText, Nat.sub_eq_zero_of_le unpadded]
    rw [text]
    exact zeros _
  · refine iff_of_false ?_ padded
    rintro ⟨_, ⟨⟩, scans⟩
    rw [not_or, not_le] at padded
    obtain ⟨fill, isFill⟩ := Nat.exists_eq_add_of_lt padded.2
    have spaces : fieldText [] digits flags width = 32 :: (List.replicate fill 32 ++ digits) := by
      simp [fieldText, padded.1, isFill, add_assoc, replicate_succ]
    have noDigit : digitOf base.value 32 = none := by simp [digitOf, toupper, Strings.asInt8]
    have stopped := @sscanUint_digits base.value digitValue [] (by simp) 32 noDigit res
      (List.replicate fill 32 ++ digits ++ stop :: behind)
    rw [spaces] at scans
    have same := congrArg List.length (Prod.mk.inj (Option.some.inj (stopped.symm.trans scans))).2
    simp at same
    omega

theorem scanned_back_seven :
    ∃ text, snprintUint 7 10 ⟨true, false, false, false⟩ 3 = some text ∧
      sscanUint (text ++ [0]) 0 10 = some (7, [0]) :=
  (scanned_back_iff ⟨10, by decide, by decide⟩ 7 ⟨true, false, false, false⟩ (by decide)
    (by decide) 0 []).mpr (Or.inl rfl)

end

end Cosec.Libc.PrintedNumbers
