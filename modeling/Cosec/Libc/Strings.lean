import Mathlib.Data.List.Basic

/-!
# C strings

A C string is the list of its characters in front of the terminating zero, so
no character of it is zero.  The functions are the ones of the kernel's C
library that the file system calls; a pointer into a string is the number of
characters in front of it.
-/

namespace Cosec.Libc.Strings

open List

/-- A character that does not end a string. -/
abbrev CChar := { byte : UInt8 // byte ≠ 0 }

abbrev CString := List CChar

/-- `SIZE_MAX`. -/
def sizeMax : Nat := 0xFFFFFFFF

/-- A string in memory, with the terminating zero, is shorter than memory. -/
structure Path where
  chars : CString
  bounded : chars.length < sizeMax

/-- The string that starts with some bytes of memory. -/
def ofBytes : List UInt8 → CString
  | [] => []
  | byte :: bytes => if zero : byte = 0 then [] else ⟨byte, zero⟩ :: ofBytes bytes

/-- `FS_SEP`. -/
def fsSep : UInt8 := 47

def isSep (char : CChar) : Bool := char.val == fsSep

/-! ## Search -/

/-- `strnchr` from a place in a buffer on, which stops at a null byte. -/
def strnchr (buf : Nat → UInt8) (char : UInt8) : Nat → Nat → Option Nat
  | _, 0 => none
  | start, count + 1 =>
    if buf start = 0 then none
    else if buf start = char then some 0
    else (strnchr buf char (start + 1) count).map (· + 1)

/-! ## Comparison -/

/-- A `char` as an `int`. -/
def asInt8 (byte : UInt8) : Int := if byte.toNat < 128 then byte.toNat else (byte.toNat : Int) - 256

def strncmp : CString → CString → Nat → Int
  | _, _, 0 => 0
  | [], [], _ + 1 => 0
  | [], right :: _, _ + 1 => 0 - asInt8 right.val
  | left :: _, [], _ + 1 => asInt8 left.val - 0
  | left :: lefts, right :: rights, count + 1 =>
    if left ≠ right then asInt8 left.val - asInt8 right.val
    else strncmp lefts rights count

/-- `strncmp` with `UINT_MAX`. -/
def strcmp (left right : CString) : Int := strncmp left right 0xFFFFFFFF

theorem asInt8_inj {left right : UInt8} (equal : asInt8 left = asInt8 right) : left = right := by
  have leftBound := left.toNat_lt
  have rightBound := right.toNat_lt
  unfold asInt8 at equal
  apply UInt8.toNat_inj.mp
  split at equal <;> split at equal <;> omega

theorem strncmp_eq_zero_iff :
    ∀ {left right : CString} {count : Nat},
      strncmp left right count = 0 ↔ left.take count = right.take count
  | left, right, 0 => by simp [strncmp]
  | [], [], count + 1 => by simp [strncmp]
  | [], right :: rights, count + 1 => by
      have nonzero : asInt8 right.val ≠ 0 := fun isZero =>
        right.property (asInt8_inj (isZero.trans rfl))
      simp only [strncmp, take_nil, take_succ_cons, nil_eq, reduceCtorEq, iff_false]
      omega
  | left :: lefts, [], count + 1 => by
      have nonzero : asInt8 left.val ≠ 0 := fun isZero =>
        left.property (asInt8_inj (isZero.trans rfl))
      simp only [strncmp, take_nil, take_succ_cons, reduceCtorEq, iff_false]
      omega
  | left :: lefts, right :: rights, count + 1 => by
      rw [strncmp, take_succ_cons, take_succ_cons, List.cons.injEq]
      by_cases same : left = right
      · rw [if_neg (not_not.mpr same), strncmp_eq_zero_iff]
        simp [same]
      · have different : asInt8 left.val - asInt8 right.val ≠ 0 := fun isZero =>
            same (Subtype.ext (asInt8_inj (Int.sub_eq_zero.mp isZero)))
        rw [if_pos same]
        simp [same, different]

/-- A comparison past the end of one string compares the whole of both. -/
theorem strncmp_eq_zero_of_lt {left right : CString} {count : Nat} (short : left.length < count) :
    strncmp left right count = 0 ↔ left = right := by
  rw [strncmp_eq_zero_iff, take_of_length_le (Nat.le_of_lt short)]
  constructor
  · intro taken
    have length := congrArg List.length taken
    rw [length_take] at length
    rw [taken]
    exact take_of_length_le (by omega)
  · intro equal
    rw [← equal, take_of_length_le (Nat.le_of_lt short)]

theorem strncmp_eq_zero_comm {left right : CString} {count : Nat} :
    strncmp left right count = 0 ↔ strncmp right left count = 0 := by
  rw [strncmp_eq_zero_iff, strncmp_eq_zero_iff]
  exact eq_comm

/-- The position of the last `FS_SEP` among the first `count` characters. -/
def strnrchr : CString → Nat → Option Nat
  | [], _ => none
  | _, 0 => none
  | char :: rest, count + 1 =>
    match strnrchr rest count with
    | some later => some (later + 1)
    | none => if isSep char then some 0 else none

theorem strnrchr_lt_length :
    ∀ {string : CString} {count position : Nat},
      strnrchr string count = some position → position < string.length
  | [], _, _, found => by simp [strnrchr] at found
  | _ :: _, 0, _, found => by simp [strnrchr] at found
  | char :: rest, count + 1, position, found => by
      rw [strnrchr] at found
      rw [length_cons]
      cases later : strnrchr rest count with
      | some inner =>
        rw [later] at found
        cases found
        exact Nat.succ_lt_succ (strnrchr_lt_length later)
      | none =>
        rw [later] at found
        simp only [Option.ite_none_right_eq_some, Option.some.injEq] at found
        omega

/-- `strnrchr` with `INT_MAX`. -/
def strrchr (string : CString) : Option Nat := strnrchr string 0x7FFFFFFF

/-- The loops `while (*p == FS_SEP) ++p`. -/
def skipSeps (string : CString) : CString := string.dropWhile isSep

/-- A `char` converted to `uint32_t`. -/
def asUInt32 (byte : UInt8) : UInt32 :=
  if byte.toNat < 128 then byte.toUInt32 else byte.toUInt32 + 0xFFFFFF00

/-- One turn of the loop of `jenkins_one_at_a_time_hash`. -/
def mixChar (hash : UInt32) (char : CChar) : UInt32 :=
  let added := hash + asUInt32 char.val
  let shifted := added + (added <<< 10)
  shifted ^^^ (shifted >>> 6)

def strhash (key : CString) : UInt32 :=
  let hash := key.foldl mixChar 0
  let hash := hash + (hash <<< 3)
  let hash := hash + (hash >>> 11)
  hash + (hash <<< 15)

/-- The stores of `strncpy` from an index of the destination on. -/
def strncpy : CString → Nat → Nat → List (Nat × UInt8)
  | [], _, index => [(index, 0)]
  | _ :: _, 0, index => [(index, 0)]
  | char :: rest, count + 1, index => (index, char.val) :: strncpy rest count (index + 1)

/-- The last store is the terminating zero behind the characters. -/
theorem strncpy_below_iff {limit : Nat} (src : CString) (count index : Nat) :
    (∀ store ∈ strncpy src count index, store.1 < limit) ↔
      index + (src.take count).length < limit := by
  induction src generalizing count index with
  | nil => simp [strncpy]
  | cons char rest ih =>
    cases count with
    | zero => simp [strncpy]
    | succ count =>
      rw [strncpy, forall_mem_cons, ih, take_succ_cons, length_cons]
      constructor
      · rintro ⟨_, later⟩
        omega
      · intro inside
        constructor
        · show index < limit
          omega
        · omega

end Cosec.Libc.Strings
