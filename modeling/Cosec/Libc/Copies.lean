import Mathlib.Logic.Function.Basic
import Cosec.Lib.Word32
import Cosec.Libc.Strings

/-!
# Copies of bytes and of strings

`memmove` copies forward, or backward where the destination begins inside the
source.  A turn of either loop reads a byte that no turn before has written.

`strncpy` ends a string that it has cut off behind the last place it may use,
and `strndup` allocates no room for that.
-/

namespace Cosec.Libc.Copies

open Function Lib.Word32 Libc.Strings

/-! ## `memmove` -/

abbrev Memory := Nat → UInt8

/-- `memory[target] = memory[source]`. -/
def copyByte (memory : Memory) (target source : Nat) : Memory :=
  update memory target (memory source)

/-- The loop of `memcpy_from_start`, after some turns. -/
def memcpyFromStart (dest src : Nat) (memory : Memory) : Nat → Memory
  | 0 => memory
  | i + 1 => copyByte (memcpyFromStart dest src memory i) (dest + i) (src + i)

/-- The loop of `memcpy_from_end`, after some turns. -/
def memcpyFromEnd (dest src size : Nat) (memory : Memory) : Nat → Memory
  | 0 => memory
  | i + 1 =>
    copyByte (memcpyFromEnd dest src size memory i) (dest + (size - 1 - i)) (src + (size - 1 - i))

def memmove (memory : Memory) (dst src len : Nat) : Memory :=
  if dst = src then memory
  else if src < dst ∧ dst < wrap32 (src + len) then memcpyFromEnd dst src len memory len
  else memcpyFromStart dst src memory len

/-- Memory with bytes replaced by those at a distance, all read beforehand. -/
def moved (memory : Memory) (dst src first last : Nat) : Memory := fun addr =>
  if dst + first ≤ addr ∧ addr < dst + last then memory (src + (addr - dst)) else memory addr

variable {memory : Memory} {dest src size : Nat}

/-- One more byte is replaced, whose source was not. -/
theorem copyByte_moved {first last newFirst newLast i : Nat}
    (intact : src + i < dest + first ∨ dest + last ≤ src + i)
    (covers : ∀ addr, dest + newFirst ≤ addr ∧ addr < dest + newLast ↔
      (dest + first ≤ addr ∧ addr < dest + last) ∨ addr = dest + i) :
    copyByte (moved memory dest src first last) (dest + i) (src + i) =
      moved memory dest src newFirst newLast := by
  have source : moved memory dest src first last (src + i) = memory (src + i) :=
    if_neg (by omega)
  funext addr
  unfold copyByte
  by_cases here : addr = dest + i
  · rw [here, update_self, source, moved, if_pos ((covers _).mpr (Or.inr rfl)),
      Nat.add_sub_cancel_left]
  · rw [update_of_ne here]
    simp only [moved, covers addr, here, or_false]

theorem memcpyFromStart_eq (apart : dest ≤ src ∨ src + size ≤ dest) :
    memcpyFromStart dest src memory size = moved memory dest src 0 size := by
  induction size with
  | zero =>
    funext addr
    exact (if_neg (by omega)).symm
  | succ size ih =>
    rw [memcpyFromStart, ih (by omega)]
    exact copyByte_moved (by omega) (by omega)

theorem memcpyFromEnd_eq {turns : Nat} (ahead : src < dest) (fits : turns ≤ size) :
    memcpyFromEnd dest src size memory turns = moved memory dest src (size - turns) size := by
  induction turns with
  | zero =>
    funext addr
    exact (if_neg (by omega)).symm
  | succ turns ih =>
    rw [memcpyFromEnd, ih (by omega)]
    exact copyByte_moved (by omega) (by omega)

/-- `memmove` replaces every byte of the destination by what its source held before. -/
theorem memmove_through_copy (memory : Memory) (dst src len : Nat)
    (dstFits : dst + len ≤ 4294967296) (srcFits : src + len ≤ 4294967296) :
    (∀ i < len, memmove memory dst src len (dst + i) = memory (src + i)) ∧
      ∀ addr, addr < dst ∨ dst + len ≤ addr → memmove memory dst src len addr = memory addr := by
  have whole : memmove memory dst src len = moved memory dst src 0 len := by
    unfold memmove
    by_cases same : dst = src
    · rw [if_pos same]
      funext addr
      unfold moved
      split
      · rw [same, Nat.add_sub_cancel' (by omega)]
      · rfl
    · rw [if_neg same]
      split
      · rename_i overlaps
        rw [memcpyFromEnd_eq overlaps.1 (Nat.le_refl len), Nat.sub_self]
      · rename_i apart
        apply memcpyFromStart_eq
        unfold wrap32 at apart
        omega
  rw [whole]
  unfold moved
  constructor
  · intro i inside
    rw [if_pos (by omega), Nat.add_sub_cancel_left]
  · intro addr outside
    rw [if_neg (by omega)]

theorem memmove_through_copy_overlap : memmove (fun addr => UInt8.ofNat addr) 1 0 3 3 = 2 :=
  (memmove_through_copy (fun addr => UInt8.ofNat addr) 1 0 3 (by decide) (by decide)).1 2 (by decide)

/-! ## `strncpy` and `strndup` -/

/-- The size of the block that `strndup` asks for, and the stores into it. -/
def strndup (s : CString) (n : Nat) : Nat × List (Nat × UInt8) :=
  let len := wrap32 (s.length + 1)
  (if len > n then n else len, strncpy s n 0)

/-- A string with its terminating zero, byte by byte. -/
def terminated (s : CString) : List (Nat × UInt8) :=
  (s.map Subtype.val ++ [0]).zipIdx.map Prod.swap

/-- The block holds the front of the string, and nothing is stored behind its end. -/
def DuplicateRight (s : CString) (n : Nat) : Prop :=
  (strndup s n).2 = terminated (s.take n) ∧ ∀ store ∈ (strndup s n).2, store.1 < (strndup s n).1

theorem strncpy_eq (src : CString) (count index : Nat) :
    strncpy src count index =
      (((src.take count).map Subtype.val ++ [0]).zipIdx index).map Prod.swap := by
  induction src generalizing count index with
  | nil => simp [strncpy]
  | cons char rest ih =>
    cases count with
    | zero => simp [strncpy]
    | succ count => simp [strncpy, ih]

/-- Both functions keep to their bounds exactly for strings that fit with their end. -/
theorem copies_bounded_iff (src : Path) (n : Nat) :
    ((∀ store ∈ strncpy src.chars n 0, store.1 < n) ↔ src.chars.length < n) ∧
      (DuplicateRight src.chars n ↔ src.chars.length < n) := by
  have bounded := src.bounded
  unfold sizeMax at bounded
  have length : wrap32 (src.chars.length + 1) = src.chars.length + 1 := wrap32_of_lt (by omega)
  have stored : (strndup src.chars n).2 = terminated (src.chars.take n) := strncpy_eq _ _ _
  unfold DuplicateRight
  rw [and_iff_right stored]
  simp only [strndup, strncpy_below_iff, List.length_take, length]
  constructor
  · omega
  · split <;> omega

/-- The end of "a" goes behind the one place for it. -/
theorem strncpy_past_end : ¬ ∀ store ∈ strncpy (ofBytes [97]) 1 0, store.1 < 1 := by decide

end Cosec.Libc.Copies
