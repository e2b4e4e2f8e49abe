import Cosec.Lib.Word32
import Cosec.Libc.Strings

/-!
# Scanned numbers

This module embeds `toupper` and `sscan_uint`.
-/

namespace Cosec.Libc.Formatting

open Lib.Word32 Libc.Strings List

/-! ## Numbers -/

def toupper (c : Int) : Int := if 97 ≤ c ∧ c ≤ 122 then c + 65 - 97 else c

/-- The value `sscan_uint` gives to a character, if it goes on behind it. -/
def digitOf (base : Nat) (byte : UInt8) : Option Nat :=
  let c := toupper (asInt8 byte)
  if 48 ≤ c ∧ c ≤ 57 then some (c - 48).toNat
  else if 10 < base ∧ 65 ≤ c ∧ c ≤ 65 + base - 10 then
    some (c - 65 + 10).toNat
  else none

/-- The loop of `sscan_uint`: the number, and where the loop stops. -/
def scanLoop (base : Nat) : Nat → List UInt8 → Option (Nat × List UInt8)
  | _, [] => none
  | r, byte :: rest =>
    match digitOf base byte with
    | some digit => scanLoop base (wrap32 (wrap32 (r * base) + digit)) rest
    | none => some (r, byte :: rest)

/--
What `*res` holds afterwards, and the result.  It keeps what it holds where
there is no digit; the bytes may end before the number does.
-/
def sscanUint (str : List UInt8) (res base : Nat) : Option (Nat × List UInt8) :=
  (scanLoop base 0 str).map fun scanned =>
    (if scanned.2.length = str.length then res else scanned.1, scanned.2)

section

variable {base : Nat} {value : UInt8 → Nat} {digits : List UInt8}
  (valued : ∀ digit ∈ digits, digitOf base digit = some (value digit))

include valued

/-- The loop takes a front of digits into the number. -/
theorem scanLoop_digits (r : Nat) (rest : List UInt8) :
    scanLoop base (wrap32 r) (digits ++ rest) =
      scanLoop base
        (wrap32 (digits.foldl (fun number digit => base * number + value digit) r)) rest := by
  induction digits generalizing r with
  | nil => rfl
  | cons digit digits ih =>
    have next :
        wrap32 (wrap32 (wrap32 r * base) + value digit) = wrap32 (base * r + value digit) := by
      unfold wrap32
      rw [Nat.mod_mul_mod, Nat.mod_add_mod, Nat.mul_comm]
    rw [cons_append, scanLoop, valued digit mem_cons_self, foldl_cons,
      ← ih fun other member => valued other (mem_cons_of_mem digit member)]
    simp only [next]

theorem sscanUint_digits {stop : UInt8}
    (stops : digitOf base stop = none) (res : Nat) (rest : List UInt8) :
    sscanUint (digits ++ stop :: rest) res base = some (if digits = [] then res else
        wrap32 (digits.foldl (fun number digit => base * number + value digit) 0),
        stop :: rest) := by
  have scanned := scanLoop_digits valued 0 (stop :: rest)
  rw [wrap32_of_lt (by decide), scanLoop.eq_2, stops] at scanned
  rw [sscanUint, scanned, Option.map_some]
  simp only [length_append, Nat.right_eq_add, length_eq_zero_iff]

end

end Cosec.Libc.Formatting
