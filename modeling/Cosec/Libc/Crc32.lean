import Mathlib.Logic.Function.Iterate

/-!
# The CRC of Ethernet frames

`ethernet_crc32` runs a table over bytes whose bits are reversed, highest bit
first, and reverses the bits of the result.  That is the reflected CRC, which
takes the bits of each byte lowest first.
-/

namespace Cosec.Libc.Crc32

/-! ## The functions -/

/-- `nib_reverse`. -/
def nibReverse (nib : BitVec 8) : BitVec 8 :=
  [0x0, 0x8, 0x4, 0xc, 0x2, 0xa, 0x6, 0xe, 0x1, 0x9, 0x5, 0xd, 0x3, 0xb, 0x7, 0xf].getD nib.toNat 0

/-- The table of `digital_update_crc32`. -/
def table : List (BitVec 32) :=
  [0x00000000, 0x04c11db7, 0x09823b6e, 0x0d4326d9, 0x130476dc, 0x17c56b6b, 0x1a864db2, 0x1e475005,
    0x2608edb8, 0x22c9f00f, 0x2f8ad6d6, 0x2b4bcb61, 0x350c9b64, 0x31cd86d3, 0x3c8ea00a, 0x384fbdbd,
    0x4c11db70, 0x48d0c6c7, 0x4593e01e, 0x4152fda9, 0x5f15adac, 0x5bd4b01b, 0x569796c2, 0x52568b75,
    0x6a1936c8, 0x6ed82b7f, 0x639b0da6, 0x675a1011, 0x791d4014, 0x7ddc5da3, 0x709f7b7a, 0x745e66cd,
    0x9823b6e0, 0x9ce2ab57, 0x91a18d8e, 0x95609039, 0x8b27c03c, 0x8fe6dd8b, 0x82a5fb52, 0x8664e6e5,
    0xbe2b5b58, 0xbaea46ef, 0xb7a96036, 0xb3687d81, 0xad2f2d84, 0xa9ee3033, 0xa4ad16ea, 0xa06c0b5d,
    0xd4326d90, 0xd0f37027, 0xddb056fe, 0xd9714b49, 0xc7361b4c, 0xc3f706fb, 0xceb42022, 0xca753d95,
    0xf23a8028, 0xf6fb9d9f, 0xfbb8bb46, 0xff79a6f1, 0xe13ef6f4, 0xe5ffeb43, 0xe8bccd9a, 0xec7dd02d,
    0x34867077, 0x30476dc0, 0x3d044b19, 0x39c556ae, 0x278206ab, 0x23431b1c, 0x2e003dc5, 0x2ac12072,
    0x128e9dcf, 0x164f8078, 0x1b0ca6a1, 0x1fcdbb16, 0x018aeb13, 0x054bf6a4, 0x0808d07d, 0x0cc9cdca,
    0x7897ab07, 0x7c56b6b0, 0x71159069, 0x75d48dde, 0x6b93dddb, 0x6f52c06c, 0x6211e6b5, 0x66d0fb02,
    0x5e9f46bf, 0x5a5e5b08, 0x571d7dd1, 0x53dc6066, 0x4d9b3063, 0x495a2dd4, 0x44190b0d, 0x40d816ba,
    0xaca5c697, 0xa864db20, 0xa527fdf9, 0xa1e6e04e, 0xbfa1b04b, 0xbb60adfc, 0xb6238b25, 0xb2e29692,
    0x8aad2b2f, 0x8e6c3698, 0x832f1041, 0x87ee0df6, 0x99a95df3, 0x9d684044, 0x902b669d, 0x94ea7b2a,
    0xe0b41de7, 0xe4750050, 0xe9362689, 0xedf73b3e, 0xf3b06b3b, 0xf771768c, 0xfa325055, 0xfef34de2,
    0xc6bcf05f, 0xc27dede8, 0xcf3ecb31, 0xcbffd686, 0xd5b88683, 0xd1799b34, 0xdc3abded, 0xd8fba05a,
    0x690ce0ee, 0x6dcdfd59, 0x608edb80, 0x644fc637, 0x7a089632, 0x7ec98b85, 0x738aad5c, 0x774bb0eb,
    0x4f040d56, 0x4bc510e1, 0x46863638, 0x42472b8f, 0x5c007b8a, 0x58c1663d, 0x558240e4, 0x51435d53,
    0x251d3b9e, 0x21dc2629, 0x2c9f00f0, 0x285e1d47, 0x36194d42, 0x32d850f5, 0x3f9b762c, 0x3b5a6b9b,
    0x0315d626, 0x07d4cb91, 0x0a97ed48, 0x0e56f0ff, 0x1011a0fa, 0x14d0bd4d, 0x19939b94, 0x1d528623,
    0xf12f560e, 0xf5ee4bb9, 0xf8ad6d60, 0xfc6c70d7, 0xe22b20d2, 0xe6ea3d65, 0xeba91bbc, 0xef68060b,
    0xd727bbb6, 0xd3e6a601, 0xdea580d8, 0xda649d6f, 0xc423cd6a, 0xc0e2d0dd, 0xcda1f604, 0xc960ebb3,
    0xbd3e8d7e, 0xb9ff90c9, 0xb4bcb610, 0xb07daba7, 0xae3afba2, 0xaafbe615, 0xa7b8c0cc, 0xa379dd7b,
    0x9b3660c6, 0x9ff77d71, 0x92b45ba8, 0x9675461f, 0x8832161a, 0x8cf30bad, 0x81b02d74, 0x857130c3,
    0x5d8a9099, 0x594b8d2e, 0x5408abf7, 0x50c9b640, 0x4e8ee645, 0x4a4ffbf2, 0x470cdd2b, 0x43cdc09c,
    0x7b827d21, 0x7f436096, 0x7200464f, 0x76c15bf8, 0x68860bfd, 0x6c47164a, 0x61043093, 0x65c52d24,
    0x119b4be9, 0x155a565e, 0x18197087, 0x1cd86d30, 0x029f3d35, 0x065e2082, 0x0b1d065b, 0x0fdc1bec,
    0x3793a651, 0x3352bbe6, 0x3e119d3f, 0x3ad08088, 0x2497d08d, 0x2056cd3a, 0x2d15ebe3, 0x29d4f654,
    0xc5a92679, 0xc1683bce, 0xcc2b1d17, 0xc8ea00a0, 0xd6ad50a5, 0xd26c4d12, 0xdf2f6bcb, 0xdbee767c,
    0xe3a1cbc1, 0xe760d676, 0xea23f0af, 0xeee2ed18, 0xf0a5bd1d, 0xf464a0aa, 0xf9278673, 0xfde69bc4,
    0x89b8fd09, 0x8d79e0be, 0x803ac667, 0x84fbdbd0, 0x9abc8bd5, 0x9e7d9662, 0x933eb0bb, 0x97ffad0c,
    0xafb010b1, 0xab710d06, 0xa6322bdf, 0xa2f33668, 0xbcb4666d, 0xb8757bda, 0xb5365d03, 0xb1f740b4]

/-- The bits of a byte in the opposite order, by its two halves. -/
def reversedByte (byte : BitVec 8) : BitVec 8 :=
  (nibReverse (byte &&& 0x0f) <<< 4) ||| nibReverse (byte >>> 4)

/-- One turn of the loop of `digital_update_crc32`. -/
def updateByte (crc : BitVec 32) (byte : BitVec 8) : BitVec 32 :=
  table.getD (reversedByte byte ^^^ ((crc >>> 24) &&& 0xff).setWidth 8).toNat 0 ^^^ (crc <<< 8)

/-- `digital_update_crc32`. -/
def digitalUpdateCrc32 (crc : BitVec 32) (data : List (BitVec 8)) : BitVec 32 :=
  data.foldl updateByte crc

/-- `digital_crc32`. -/
def digitalCrc32 (buf : List (BitVec 8)) : BitVec 32 :=
  digitalUpdateCrc32 0xffffffff buf ^^^ 0xffffffff

/-- The loop of `ethernet_crc32`. -/
def reverseNibbles : Nat → BitVec 32 → BitVec 32 → BitVec 32
  | 0, _, rcrc => rcrc
  | turns + 1, crc, rcrc =>
    reverseNibbles turns (crc >>> 4)
      ((rcrc <<< 4) ||| (nibReverse ((crc &&& 0xf).setWidth 8)).setWidth 32)

/-- `ethernet_crc32`, whose variable `rcrc` is not initialised. -/
def ethernetCrc32 (rcrc : BitVec 32) (b : List (BitVec 8)) : BitVec 32 :=
  reverseNibbles 8 (digitalCrc32 b) rcrc

/-- A bit of the reflected CRC. -/
def reflectedBit (crc : BitVec 32) : BitVec 32 :=
  (crc >>> 1) ^^^ if crc.getLsbD 0 then 0xedb88320 else 0

/-- A byte of the reflected CRC. -/
def reflectedByte (crc : BitVec 32) (byte : BitVec 8) : BitVec 32 :=
  reflectedBit^[8] (crc ^^^ byte.setWidth 32)

/-- The reflected CRC of a byte string. -/
def reflectedCrc (bytes : List (BitVec 8)) : BitVec 32 :=
  bytes.foldl reflectedByte 0xffffffff ^^^ 0xffffffff

/-- A bit of the CRC that takes the highest bit first. -/
def advance (crc : BitVec 32) : BitVec 32 := (crc <<< 1) ^^^ if crc.msb then 0x04c11db7 else 0

theorem advance_xor (left right : BitVec 32) :
    advance (left ^^^ right) = advance left ^^^ advance right := by
  unfold advance
  rw [BitVec.shiftLeft_xor_distrib, BitVec.msb_xor]
  cases left.msb <;> cases right.msb <;> simp <;> grind

theorem advance_iterate_xor (count : Nat) (left right : BitVec 32) :
    advance^[count] (left ^^^ right) = advance^[count] left ^^^ advance^[count] right := by
  induction count generalizing left right with
  | zero => rfl
  | succ count ih =>
    simp only [Function.iterate_succ_apply, advance_xor, ih]

/-- A table entry is the CRC of its index. -/
theorem table_eq (index : BitVec 8) :
    table.getD index.toNat 0 = advance^[8] (index.setWidth 32 <<< 24) := by
  revert index
  decide +kernel

/-- Without its highest byte, a CRC is only shifted. -/
theorem advance_iterate_low {count : Nat} (few : count ≤ 8) (crc : BitVec 32) :
    advance^[count] ((crc <<< 8) >>> 8) = ((crc <<< 8) >>> 8) <<< count := by
  induction count with
  | zero => simp
  | succ count ih =>
    have clear : (((crc <<< 8) >>> 8) <<< count).msb = false := by
      rw [BitVec.msb_eq_getLsbD_last]
      simp
      omega
    rw [Function.iterate_succ_apply', ih (by omega), advance, clear]
    simp [BitVec.shiftLeft_add]

/-- A turn of the table is eight bits, highest first. -/
theorem updateByte_eq (crc : BitVec 32) (byte : BitVec 8) :
    updateByte crc byte = advance^[8] (crc ^^^ ((reversedByte byte).setWidth 32 <<< 24)) := by
  have highest : ((crc >>> 24) &&& 0xff).setWidth 8 = (crc >>> 24).setWidth 8 := by
    rw [BitVec.setWidth_and]
    exact BitVec.and_allOnes
  have parts :
      crc ^^^ ((reversedByte byte).setWidth 32 <<< 24) =
        ((reversedByte byte ^^^ (crc >>> 24).setWidth 8).setWidth 32 <<< 24) ^^^
          ((crc <<< 8) >>> 8) := by
    apply BitVec.eq_of_getLsbD_eq
    intro bit inside
    simp
    grind
  rw [parts, advance_iterate_xor, ← table_eq, advance_iterate_low (Nat.le_refl 8)]
  unfold updateByte
  rw [highest]
  congr 1
  apply BitVec.eq_of_getLsbD_eq
  intro bit inside
  simp
  grind

/-! ## Reversal -/

theorem reverse_xor (left right : BitVec 32) :
    (left ^^^ right).reverse = left.reverse ^^^ right.reverse := by
  apply BitVec.eq_of_getLsbD_eq
  intro bit inside
  simp [BitVec.getLsbD_reverse, BitVec.getMsbD_xor]

theorem reverse_advance (crc : BitVec 32) : (advance crc).reverse = reflectedBit crc.reverse := by
  have shifted : (crc <<< 1).reverse = crc.reverse >>> 1 := by
    apply BitVec.eq_of_getLsbD_eq
    intro bit inside
    simp [BitVec.getLsbD_reverse, Nat.add_comm]
  have lowest : crc.reverse.getLsbD 0 = crc.msb := BitVec.getLsbD_reverse
  have polynomial :
      (if crc.msb then 0x04c11db7 else 0 : BitVec 32).reverse =
        if crc.msb then 0xedb88320 else 0 := by
    cases crc.msb <;> decide +kernel
  unfold advance reflectedBit
  rw [reverse_xor, shifted, lowest, polynomial]

theorem reverse_advance_iterate (count : Nat) (crc : BitVec 32) :
    (advance^[count] crc).reverse = reflectedBit^[count] crc.reverse := by
  induction count generalizing crc with
  | zero => rfl
  | succ count ih =>
    rw [Function.iterate_succ_apply, Function.iterate_succ_apply, ih, reverse_advance]

theorem reverse_byte (byte : BitVec 8) :
    ((reversedByte byte).setWidth 32 <<< 24).reverse = byte.setWidth 32 := by
  revert byte
  decide +kernel

theorem reverse_updateByte (crc : BitVec 32) (byte : BitVec 8) :
    (updateByte crc byte).reverse = reflectedByte crc.reverse byte := by
  rw [updateByte_eq, reverse_advance_iterate, reverse_xor, reverse_byte]
  rfl

theorem reverse_update (crc : BitVec 32) (data : List (BitVec 8)) :
    (digitalUpdateCrc32 crc data).reverse = data.foldl reflectedByte crc.reverse := by
  unfold digitalUpdateCrc32
  induction data generalizing crc with
  | nil => rfl
  | cons byte data ih =>
    rw [List.foldl_cons, List.foldl_cons, ih, reverse_updateByte]

theorem nibReverse_eq (nib : BitVec 4) : nibReverse (nib.setWidth 8) = nib.reverse.setWidth 8 := by
  revert nib
  decide

theorem lowNibble_eq (crc : BitVec 32) : (crc &&& 0xf).setWidth 8 = (crc.setWidth 4).setWidth 8 := by
  have masked : ∀ byte : BitVec 8, byte &&& 0xf = (byte.setWidth 4).setWidth 8 := by decide
  rw [BitVec.setWidth_and]
  refine (masked (crc.setWidth 8)).trans ?_
  rw [BitVec.setWidth_setWidth_of_le crc (by decide)]

theorem getLsbD_reverseNibbles
    (turns : Nat) (crc rcrc : BitVec 32) {bit : Nat} (inside : bit < 32) :
    (reverseNibbles turns crc rcrc).getLsbD bit =
      if bit < 4 * turns then crc.getLsbD (4 * turns - 1 - bit)
      else rcrc.getLsbD (bit - 4 * turns) := by
  induction turns generalizing crc rcrc with
  | zero => simp [reverseNibbles]
  | succ turns ih =>
    rw [reverseNibbles, ih, lowNibble_eq, nibReverse_eq]
    rcases Nat.lt_or_ge bit (4 * turns) with before | after
    · rw [if_pos before, if_pos (by omega), BitVec.getLsbD_ushiftRight]
      congr 1
      omega
    · rw [if_neg (by omega), BitVec.getLsbD_or, BitVec.getLsbD_shiftLeft, BitVec.getLsbD_setWidth,
        BitVec.getLsbD_setWidth, BitVec.getLsbD_reverse, BitVec.getMsbD_eq_getLsbD,
        BitVec.getLsbD_setWidth]
      rcases Nat.lt_or_ge (bit - 4 * turns) 4 with nibble | above
      · have index : 4 - 1 - (bit - 4 * turns) = 4 * (turns + 1) - 1 - bit := by omega
        rw [if_pos (by omega), index]
        simp [nibble, show 4 * (turns + 1) - 1 - bit < 4 by omega, show bit - 4 * turns < 8 by omega,
          show bit - 4 * turns < 32 by omega]
      · have index : bit - 4 * turns - 4 = bit - 4 * (turns + 1) := by omega
        rw [if_neg (by omega), index]
        simp [Nat.not_lt.mpr above, show bit - 4 * turns < 32 by omega]

theorem reverseNibbles_eq (crc rcrc : BitVec 32) : reverseNibbles 8 crc rcrc = crc.reverse := by
  apply BitVec.eq_of_getLsbD_eq
  intro bit inside
  rw [getLsbD_reverseNibbles 8 crc rcrc inside, if_pos inside, BitVec.getLsbD_reverse,
    BitVec.getMsbD_eq_getLsbD]
  simp [inside]

/-- `ethernet_crc32` is the reflected CRC, whatever its variable holds at first. -/
theorem ethernet_crc_reflected (rcrc : BitVec 32) (bytes : List (BitVec 8)) :
    ethernetCrc32 rcrc bytes = reflectedCrc bytes := by
  have ones : (0xffffffff : BitVec 32).reverse = 0xffffffff := by decide +kernel
  unfold ethernetCrc32 digitalCrc32 reflectedCrc
  rw [reverseNibbles_eq, reverse_xor, reverse_update, ones]

end Cosec.Libc.Crc32
