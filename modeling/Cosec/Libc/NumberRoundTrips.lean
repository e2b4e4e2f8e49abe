import Cosec.Libc.CharacterClasses
import Cosec.Libc.PrintedNumbers

/-!
# Printing and scanning are inverse

A number that `snprint_uint` prints without padding or with zeros is read back
by `sscan_uint`, and one that `snprint_int` prints in base 10 is read back by
`sscan_int` and by `atoi`.  The scans read a string with its terminating zero,
whatever stands behind it.

The smallest `int` has no positive counterpart.  `snprint_int` negates it to
itself and prints it as an unsigned number; `sscan_int` and `atoi` collect
that number in a word and negate it again.  So all three wrap around and the
round trip holds for it, too.

Fields that are padded with spaces, and signs other than the minus, are left
to `PrintedNumbers`; what `atoi` reads outside of its tables is left to
`TableLookups`.
-/

namespace Cosec.Libc.NumberRoundTrips

open Lib.Word32 Libc.CharacterClasses Libc.Formatting Libc.NumberTexts
open Libc.PrintedNumbers Libc.Strings List

/-- One turn of the loop of `atoi`. -/
def atoiStep (res : BitVec 32) (char : UInt8) : BitVec 32 :=
  res * 10 + BitVec.ofInt 32 (asInt8 char - 48)

def atoi (before : UInt8 → Nat) (nptr : List UInt8) : Int :=
  let nptr := nptr.dropWhile (isspace before)
  let res :=
    ((behindSign nptr).takeWhile (isdigit before)).foldl atoiStep 0
  (if nptr.head? = some 45 then -res else res).toInt

/-- The flags of a call that sets none. -/
def noFlags : Flags := ⟨false, false, false, false⟩

/-- The base of `atoi`. -/
def decimal : PrintBase := ⟨10, by decide, by decide⟩

variable {before : UInt8 → Nat} {x : Nat} {behind : List UInt8}

/-! ## Texts of decimal numbers -/

theorem isDigit_digitText : ∀ char ∈ digitText 10 x, IsDigit char :=
  forall_mem_digitText (by decide) (by unfold IsDigit; decide)

/-- The first character of a number is neither a space nor a sign. -/
theorem digitText_cons (x : Nat) :
    ∃ first rest, digitText 10 x = first :: rest ∧ IsDigit first := by
  cases text : digitText 10 x with
  | nil => exact absurd text (digitText_ne_nil 10 x)
  | cons first rest =>
    exact ⟨first, rest, rfl, isDigit_digitText first (text ▸ mem_cons_self)⟩

theorem behindSign_digitText :
    behindSign (digitText 10 x ++ behind) = digitText 10 x ++ behind ∧
      (digitText 10 x ++ behind).head? ≠ some 45 := by
  obtain ⟨first, rest, text, digit⟩ := digitText_cons x
  have bounds := digit.bounds
  rw [text, behindSign]
  simp [← UInt8.toNat_inj]
  omega

theorem behindSign_minus :
    behindSign (45 :: (digitText 10 x ++ behind)) = digitText 10 x ++ behind :=
  if_pos (Or.inl rfl)

/-! ## Scanning signed numbers -/

theorem sscanInt_digitText
    (small : x < 4294967296)
    (res : Nat) :
    sscanInt (digitText 10 x ++ 0 :: behind) res 10 =
        some (x, 0 :: behind) ∧
      sscanInt (45 :: (digitText 10 x ++ 0 :: behind)) res 10 =
        some (sub32 0 x, 0 :: behind) := by
  have scans :=
    @sscanUint_digitText decimal x small 0 (by decide) 0 res behind
  rw [replicate_zero, nil_append] at scans
  obtain ⟨unsigned, noMinus⟩ := @behindSign_digitText x (0 :: behind)
  unfold sscanInt
  constructor
  · rw [unsigned]
    refine (congrArg _ scans).trans ?_
    rw [Option.map_some, if_neg fun signed => noMinus signed.2]
  · rw [behindSign_minus]
    refine (congrArg _ scans).trans ?_
    simp [digitText_ne_nil]

/-! ## `atoi` -/

/-- The word collects the digits, modulo its size. -/
theorem foldl_atoiStep
    {digits : List UInt8}
    (decimals : ∀ char ∈ digits, IsDigit char)
    (res : Nat) :
    digits.foldl atoiStep (BitVec.ofNat 32 res) =
      BitVec.ofNat 32
        (digits.foldl (fun number digit => 10 * number + digitValue digit) res) := by
  induction digits generalizing res with
  | nil => rfl
  | cons char digits ih =>
    obtain ⟨digit, others⟩ := forall_mem_cons.mp decimals
    have bounds := digit.bounds
    have value : asInt8 char - 48 = (digitValue char : Int) := by
      unfold asInt8 digitValue
      grind
    have next :
        atoiStep (BitVec.ofNat 32 res) char =
          BitVec.ofNat 32 (10 * res + digitValue char) := by
      rw [atoiStep, value, BitVec.ofInt_natCast, BitVec.ofNat_add,
        BitVec.ofNat_mul, BitVec.mul_comm]
      rfl
    rw [foldl_cons, foldl_cons, next]
    exact ih others _

theorem foldl_digitText (before : UInt8 → Nat) (x : Nat) (behind : List UInt8) :
    ((digitText 10 x ++ 0 :: behind).takeWhile (isdigit before)).foldl
        atoiStep 0 =
      BitVec.ofNat 32 x := by
  have zero : ¬ isdigit before 0 = true := by
    rw [isdigit_iff (by decide)]
    unfold IsDigit
    decide
  have digits := @isDigit_digitText x
  rw [takeWhile_append_of_pos fun char member => (digits char member).isdigit,
    takeWhile_cons_of_neg zero, append_nil]
  refine (foldl_atoiStep digits 0).trans (congrArg _ ?_)
  exact numberOf_digitText decimal x

/-- `atoi` reads a number, and a number behind a minus. -/
theorem atoi_digitText :
    atoi before (digitText 10 x ++ 0 :: behind) = (BitVec.ofNat 32 x).toInt ∧
      atoi before (45 :: (digitText 10 x ++ 0 :: behind)) =
        (-BitVec.ofNat 32 x).toInt := by
  have number := foldl_digitText before x behind
  obtain ⟨unsigned, noMinus⟩ := @behindSign_digitText x (0 :: behind)
  constructor
  · have unspaced :
        (digitText 10 x ++ 0 :: behind).dropWhile (isspace before) =
          digitText 10 x ++ 0 :: behind := by
      obtain ⟨first, rest, text, digit⟩ := digitText_cons x
      rw [text]
      exact dropWhile_cons_of_neg (by simp [digit.not_isspace])
    simp only [atoi, unspaced, unsigned, number, if_neg noMinus]
  · have unspaced :
        (45 :: (digitText 10 x ++ 0 :: behind)).dropWhile (isspace before) =
          45 :: (digitText 10 x ++ 0 :: behind) :=
      dropWhile_cons_of_neg (by rw [isspace_eq (by decide)]; decide)
    simp only [atoi, unspaced, behindSign_minus, number, head?_cons, if_true]

/-! ## Round trips -/

/-- What `snprint_int` prints without flags and width. -/
theorem snprintInt_decimal (x : BitVec 32) :
    snprintInt x.toInt 10 noFlags 0 =
      some (signText x.toInt noFlags ++ digitText 10 x.toInt.natAbs) := by
  have printed := snprintUint_eq decimal noFlags 0 (natAbs_lt x)
  rw [snprintInt, wrap32_of_lt (natAbs_lt x)]
  refine (congrArg _ printed).trans ?_
  simp [fieldText, noFlags, decimal]

/-- Numbers that were printed are scanned back. -/
theorem printed_number_scanned
    (base : PrintBase)
    (x : BitVec 32)
    (flags : Flags)
    (width : Fin 33)
    (res : Nat)
    (behind : List UInt8)
    (before : UInt8 → Nat) :
    (∃ text,
        snprintUint x.toNat base.value flags 0 = some text ∧
          sscanUint (text ++ 0 :: behind) res base.value =
            some (x.toNat, 0 :: behind)) ∧
      (∃ text,
        snprintUint x.toNat base.value { flags with zeroPadded := true }
            width = some text ∧
          sscanUint (text ++ 0 :: behind) res base.value =
            some (x.toNat, 0 :: behind)) ∧
      ∃ text,
        snprintInt x.toInt 10 noFlags 0 = some text ∧
          sscanInt (text ++ 0 :: behind) res 10 =
            some (x.toNat, 0 :: behind) ∧
          atoi before (text ++ 0 :: behind) = x.toInt := by
  have stops : digitOf base.value 0 = none := by
    simp [digitOf, toupper, asInt8]
  have narrow := Nat.le_of_lt_succ width.isLt
  refine ⟨⟨_, snprintUint_eq base flags 0 x.isLt, ?_⟩,
    ⟨_, (snprintUint_eq base _ width x.isLt).trans (if_pos narrow), ?_⟩,
    _, snprintInt_decimal x, ?_⟩
  · have plain := sscanUint_digitText base x.isLt stops 0 res behind
    simpa [fieldText] using plain
  · have zeros := sscanUint_digitText base x.isLt stops
      (width - (digitText base.value x.toNat).length) res behind
    simpa [fieldText] using zeros
  · obtain ⟨scans, scansMinus⟩ :=
      @sscanInt_digitText _ behind (natAbs_lt x) res
    obtain ⟨reads, readsMinus⟩ :=
      @atoi_digitText before x.toInt.natAbs behind
    have value := x.toInt_eq_toNat_cond
    have small := x.isLt
    unfold signText
    split
    · rename_i negative
      have negated : sub32 0 x.toInt.natAbs = x.toNat := by
        unfold sub32
        omega
      have word : -BitVec.ofNat 32 x.toInt.natAbs = x := by
        apply BitVec.eq_of_toNat_eq
        rw [BitVec.toNat_neg, BitVec.toNat_ofNat]
        omega
      rw [negated] at scansMinus
      rw [word] at readsMinus
      exact ⟨scansMinus, readsMinus⟩
    · have same : x.toInt.natAbs = x.toNat := by omega
      rw [same] at scans reads ⊢
      rw [BitVec.ofNat_toNat, BitVec.setWidth_eq] at reads
      exact ⟨scans, reads⟩

end Cosec.Libc.NumberRoundTrips
