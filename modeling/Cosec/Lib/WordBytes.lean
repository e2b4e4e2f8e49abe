import Mathlib.Init

/-!
# Bytes of words

A word of thirty-two bits is four bytes, the lowest first.  An array of words
is an array of four times as many bytes, and storing bytes into it leaves the
other bytes as they were.
-/

namespace Cosec.Lib.WordBytes

/-! ## One word -/

/-- A byte of a word, counted from the lowest. -/
def byteOf (word : BitVec 32) (lane : Nat) : BitVec 8 := word.extractLsb' (8 * lane) 8

/-- The word of four bytes. -/
def ofBytes (bytes : Nat → BitVec 8) : BitVec 32 := bytes 3 ++ bytes 2 ++ bytes 1 ++ bytes 0

theorem byteOf_ofBytes (bytes : Nat → BitVec 8) {lane : Nat} (small : lane < 4) :
    byteOf (ofBytes bytes) lane = bytes lane := by
  apply BitVec.eq_of_getLsbD_eq
  intro bit inside
  unfold byteOf ofBytes
  rw [BitVec.getLsbD_extractLsb', BitVec.getLsbD_append,
    BitVec.getLsbD_append, BitVec.getLsbD_append]
  obtain rfl | rfl | rfl | rfl : lane = 0 ∨ lane = 1 ∨ lane = 2 ∨ lane = 3 := by omega
  · simp [inside]
  · simp [inside]
  · simp [inside]
    grind
  · simp [inside]
    grind

section Arrays

variable {width : Nat} {words : BitVec width → BitVec 32} {start count offset : Nat}
  {value : Nat → BitVec 8}

/-- A byte of an array of words. -/
def byteAt (words : BitVec width → BitVec 32) (offset : Nat) : BitVec 8 :=
  byteOf (words (BitVec.ofNat width (offset / 4))) (offset % 4)

/-- The array after `count` bytes were stored from `start` on. -/
def storeBytes (words : BitVec width → BitVec 32) (start count : Nat)
    (value : Nat → BitVec 8) : BitVec width → BitVec 32 :=
  fun slot =>
    ofBytes fun lane =>
      let offset := 4 * slot.toNat + lane
      if start ≤ offset ∧ offset < start + count then
        value (offset - start)
      else byteOf (words slot) lane

theorem byteAt_storeBytes (inside : (BitVec.ofNat width (offset / 4)).toNat = offset / 4) :
    byteAt (storeBytes words start count value) offset =
      if start ≤ offset ∧ offset < start + count then
        value (offset - start)
      else byteAt words offset := by
  have place : 4 * (BitVec.ofNat width (offset / 4)).toNat + offset % 4 = offset := by omega
  unfold byteAt storeBytes
  rw [byteOf_ofBytes _ (Nat.mod_lt _ (by omega))]
  simp only [place]

end Arrays

end Cosec.Lib.WordBytes
