import Mathlib.Data.List.TakeWhile
import Cosec.Libc.Formatting

/-!
# Numbers in texts

`sscan_uint` and `sscan_int` read a number at the start of a string.  They
should consume the longest front of digits of their base.  They go wrong at
the character above the last digit of a base, at a decimal digit that is too
large, and at a sign without a number.
-/

namespace Cosec.Libc.NumberTexts

open Lib.Word32 Libc.Formatting List

/-! ## Scanning -/

/-- The value of a digit or of a letter in either case; 256 is no digit of any base. -/
def digitValue (byte : UInt8) : Nat :=
  if 48 ≤ byte.toNat ∧ byte.toNat ≤ 57 then byte.toNat - 48
  else if 65 ≤ byte.toNat ∧ byte.toNat ≤ 90 then byte.toNat - 55
  else if 97 ≤ byte.toNat ∧ byte.toNat ≤ 122 then byte.toNat - 87
  else 256

/-- The digits valid in a base. -/
def validDigit (base : Nat) (byte : UInt8) : Bool := digitValue byte < base

/-- The number that digits stand for. -/
def numberOf (base : Nat) (digits : List UInt8) : Nat :=
  digits.foldl (fun number digit => base * number + digitValue digit) 0

/-- What a scan should store and return: the longest front of valid digits is consumed. -/
def scanned (base : Nat) (str : List UInt8) (res : Nat) : Nat × List UInt8 :=
  let digits := str.takeWhile (validDigit base)
  (if digits = [] then res else wrap32 (numberOf base digits), str.dropWhile (validDigit base))

/-- A string behind its sign. -/
def behindSign (str : List UInt8) : List UInt8 :=
  if str.head? = some 45 ∨ str.head? = some 43 then str.tail else str

/-- `*res`, as a word, and the result. -/
def sscanInt (str : List UInt8) (res base : Nat) : Option (Nat × List UInt8) :=
  (sscanUint (behindSign str) res base).map fun found =>
    (if found.2.length ≠ (behindSign str).length ∧ str.head? = some 45 then sub32 0 found.1
      else found.1, found.2)

/-- What a scan with a sign should store and return. -/
def scannedInt (base : Nat) (str : List UInt8) (res : Nat) : Nat × List UInt8 :=
  let found := scanned base (behindSign str) res
  if (behindSign str).takeWhile (validDigit base) = [] then (res, str)
  else (if str.head? = some 45 then sub32 0 found.1 else found.1, found.2)

/-- A decimal digit that is too large, or the character above the last digit of the base. -/
def Misread (base : Nat) (byte : UInt8) : Prop :=
  (base ≤ digitValue byte ∧ digitValue byte ≤ 9) ∨
    (10 < base ∧ (byte.toNat = 55 + base ∨ (byte.toNat = 87 + base ∧ base < 36)))

/-- What follows the valid digits is not taken for a digit. -/
def Ends (base : Nat) (str : List UInt8) : Prop :=
  ∀ next, (str.dropWhile (validDigit base)).head? = some next → ¬ Misread base next

/-- The bases of the numbers that are scanned. -/
structure ScanBase where
  value : Nat
  atLeast : 2 ≤ value
  atMost : value ≤ 36

variable {base res : Nat} {str : List UInt8}

theorem digitOf_valid {byte : UInt8} (small : base ≤ 36) (valid : validDigit base byte = true) :
    digitOf base byte = some (digitValue byte) := by
  have below := of_decide_eq_true valid
  unfold digitValue at below ⊢
  unfold digitOf toupper Strings.asInt8
  grind

theorem digitOf_invalid_iff {byte : UInt8} (small : base ≤ 36)
    (invalid : ¬ validDigit base byte = true) : digitOf base byte = none ↔ ¬ Misread base byte := by
  rw [validDigit, decide_eq_true_eq] at invalid
  have bound := byte.toNat_lt
  have isNone : digitOf base byte = none ↔
      ¬ ((48 ≤ toupper (Strings.asInt8 byte) ∧ toupper (Strings.asInt8 byte) ≤ 57) ∨
        (10 < base ∧ 65 ≤ toupper (Strings.asInt8 byte) ∧
          toupper (Strings.asInt8 byte) ≤ 65 + base - 10)) := by
    unfold digitOf
    grind
  rw [isNone, not_iff_not]
  unfold Misread
  unfold digitValue at invalid ⊢
  unfold toupper Strings.asInt8
  split_ifs at invalid ⊢ <;> omega

theorem scanLoop_length_le {r : Nat} {found : Nat × List UInt8}
    (scans : scanLoop base r str = some found) : found.2.length ≤ str.length := by
  induction str generalizing r with
  | nil => cases scans
  | cons byte rest ih =>
    rw [scanLoop] at scans
    split at scans
    · exact Nat.le_succ_of_le (ih scans)
    · cases scans
      exact le_rfl

/-- A scan does what it should, or it goes on behind the digits. -/
theorem sscanUint_cases (small : base ≤ 36) (terminated : 0 ∈ str) (res : Nat) :
    (Ends base str ∧ sscanUint str res base = some (scanned base str res)) ∨
      ¬ Ends base str ∧ ∀ found, sscanUint str res base = some found →
        found.2.length < (str.dropWhile (validDigit base)).length := by
  have valued : ∀ digit ∈ str.takeWhile (validDigit base),
      digitOf base digit = some (digitValue digit) :=
    fun digit member => digitOf_valid small (mem_takeWhile_imp member)
  have split := @List.takeWhile_append_dropWhile _ (validDigit base) str
  cases rest : str.dropWhile (validDigit base) with
  | nil =>
    have zero : 256 < base := of_decide_eq_true (dropWhile_eq_nil_iff.mp rest 0 terminated)
    omega
  | cons next tail =>
    have invalid := head?_dropWhile_not (validDigit base) str
    rw [rest] at split invalid
    have stopsIff := digitOf_invalid_iff small (Bool.eq_false_iff.mp invalid)
    unfold Ends
    rw [rest]
    by_cases stops : digitOf base next = none
    · refine Or.inl ⟨fun _ same => by cases same; exact stopsIff.mp stops, ?_⟩
      have found := sscanUint_digits valued stops res tail
      rw [split] at found
      rw [found, scanned, rest]
      rfl
    · refine Or.inr ⟨fun ends => stops (stopsIff.mpr (ends next rfl)), fun found scans => ?_⟩
      obtain ⟨digit, isDigit⟩ := Option.ne_none_iff_exists'.mp stops
      obtain ⟨loop, isLoop, rfl⟩ := Option.map_eq_some_iff.mp scans
      have goesOn := scanLoop_digits valued 0 (next :: tail)
      rw [split, wrap32_of_lt (by decide), isLoop, scanLoop.eq_2, isDigit] at goesOn
      exact Nat.lt_succ_of_le (@scanLoop_length_le base tail _ loop goesOn.symm)

theorem zero_mem_behindSign (terminated : 0 ∈ str) : 0 ∈ behindSign str := by
  unfold behindSign
  split
  · rename_i signed
    cases str with
    | nil => cases terminated
    | cons first rest =>
      rcases mem_cons.mp terminated with rfl | later
      · simp at signed
      · exact later
  · exact terminated

/-- A sign is no digit, nor taken for one. -/
theorem ends_of_sign (small : base ≤ 36) (signed : str.head? = some 45 ∨ str.head? = some 43) :
    Ends base str := by
  cases str with
  | nil => simp at signed
  | cons first rest =>
    have noDigit : digitValue first = 256 ∧ first.toNat ≤ 45 := by
      rcases signed with same | same
      · cases same
        decide
      · cases same
        decide
    intro next isNext
    rw [dropWhile_cons_of_neg (by simp [validDigit, noDigit.1]; omega)] at isNext
    cases isNext
    unfold Misread
    omega

theorem sscanInt_iff (small : base ≤ 36) (terminated : 0 ∈ behindSign str) (res : Nat) :
    sscanInt str res base = some (scannedInt base str res) ↔
      Ends base (behindSign str) ∧
        (behindSign str = str ∨ (behindSign str).takeWhile (validDigit base) ≠ []) := by
  rcases sscanUint_cases small terminated res with ⟨ends, scans⟩ | ⟨goesOn, further⟩
  · rw [sscanInt, scans, Option.map_some, Option.some.injEq, scannedInt]
    have split := @List.takeWhile_append_dropWhile _ (validDigit base) (behindSign str)
    by_cases none_ : (behindSign str).takeWhile (validDigit base) = []
    · rw [none_, nil_append] at split
      simp [scanned, none_, split, ends]
    · have shorter :
          ((behindSign str).dropWhile (validDigit base)).length ≠ (behindSign str).length := by
        have digits := length_pos_of_ne_nil none_
        rw [← congrArg List.length split, length_append]
        omega
      simp [scanned, none_, shorter, ends]
  · constructor
    · intro same
      obtain ⟨found, isFound, foundEq⟩ := Option.map_eq_some_iff.mp same
      have shorter := further found isFound
      have result : found.2 = (scannedInt base str res).2 := by rw [← foundEq]
      have longer : ((behindSign str).dropWhile (validDigit base)).length ≤ found.2.length := by
        rw [result, scannedInt]
        split
        · refine (length_dropWhile_le _ _).trans ?_
          unfold behindSign
          split
          · rw [length_tail]
            exact Nat.sub_le _ _
          · exact le_rfl
        · exact le_rfl
      omega
    · rintro ⟨ends, _⟩
      exact absurd ends goesOn

/-- Both scans stop where the number stops exactly when nothing behind it is taken for a digit and
a sign is followed by a digit. -/
theorem scan_stops_iff (base : ScanBase) (text behind : List UInt8) (res : Nat) :
    (sscanUint (text ++ 0 :: behind) res base.value =
          some (scanned base.value (text ++ 0 :: behind) res) ∧
        sscanInt (text ++ 0 :: behind) res base.value =
          some (scannedInt base.value (text ++ 0 :: behind) res)) ↔
      Ends base.value (behindSign (text ++ 0 :: behind)) ∧
        (behindSign (text ++ 0 :: behind) = text ++ 0 :: behind ∨
          (behindSign (text ++ 0 :: behind)).takeWhile (validDigit base.value) ≠ []) := by
  have small := base.atMost
  have terminated : (0 : UInt8) ∈ text ++ 0 :: behind := by simp
  generalize text ++ 0 :: behind = str at terminated ⊢
  generalize base.value = base at small ⊢
  rw [sscanInt_iff small (zero_mem_behindSign terminated)]
  refine and_iff_right_of_imp fun stops => ?_
  have ends : Ends base str := by
    by_cases signed : str.head? = some 45 ∨ str.head? = some 43
    · exact ends_of_sign small signed
    · have same : behindSign str = str := if_neg signed
      exact same ▸ stops.1
  rcases sscanUint_cases small terminated res with ⟨_, scans⟩ | ⟨goesOn, _⟩
  · exact scans
  · exact absurd ends goesOn

/-- In base 16, `G` is taken for a digit. -/
theorem scan_takes_letter : sscanUint [71, 0] 5 16 ≠ some (scanned 16 [71, 0] 5) := by decide

end Cosec.Libc.NumberTexts
