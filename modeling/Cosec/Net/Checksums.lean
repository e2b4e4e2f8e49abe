import Mathlib.Data.List.Range
import Cosec.Lib.OnesComplement
import Cosec.Net.Frames

/-!
# The Internet checksum

`ones_complement_words_sum` adds the words of a header in one's complement,
so the result is the residue of their plain total, and neither their order
nor the places where the sum is broken off matter.  An odd last byte counts
as a word with a zero behind it.

A checksum field is set to zero, the sum is taken, and its complement is
stored in the field; the sum with the field is then all ones.
-/

namespace Cosec.Net.Checksums

open Lib.ByteArrays Lib.OnesComplement List Net.Frames

variable {memory other : Nat → UInt8} {start len : Nat}

/-! ## Words in memory -/

theorem ntohs_lt (memory : Nat → UInt8) (start : Nat) : ntohs memory start < 65536 := by
  have high := (memory start).toNat_lt
  have low := (memory (start + 1)).toNat_lt
  unfold ntohs
  omega

@[simp]
theorem length_htons (value : Nat) : (htons value).length = 2 := rfl

theorem htons_zero : htons 0 = [0, 0] := rfl

variable {value : Nat}

theorem htons_value (word : value < 65536) (first : 0 < (htons value).length)
    (second : 1 < (htons value).length) :
    256 * (htons value)[0].toNat + (htons value)[1].toNat = value := by
  simp only [htons, getElem_cons_zero, getElem_cons_succ, UInt8.toNat_ofNat']
  omega

/-- A word that was stored is read back. -/
theorem ntohs_store (word : value < 65536) (fits : start + 2 ≤ 4294967296) :
    ntohs (copyIn memory start (htons value)) start = value := by
  have first : copyIn memory start (htons value) (start + 0) = _ :=
    copyIn_inside fits Nat.zero_lt_two
  have second : copyIn memory start (htons value) (start + 1) = _ :=
    copyIn_inside fits Nat.one_lt_two
  rw [add_zero] at first
  unfold ntohs
  rw [first, second]
  exact htons_value word _ _

/-- A word beside the one that was stored. -/
theorem ntohs_store_apart {dest : Nat} (apart : start + 2 ≤ dest ∨ dest + 2 ≤ start)
    (destFits : dest + 2 ≤ 4294967296) (fits : start + 2 ≤ 4294967296) :
    ntohs (copyIn memory dest (htons value)) start = ntohs memory start := by
  unfold ntohs
  rw [copyIn_outside (by rw [length_htons]; omega) (by omega) (by rw [length_htons]; omega),
    copyIn_outside (by rw [length_htons]; omega) (by omega) (by rw [length_htons]; omega)]

/-- The words from an address on, in host order. -/
def words (memory : Nat → UInt8) (start count : Nat) : List Nat :=
  (List.range count).map fun index => ntohs memory (start + 2 * index)

theorem words_add (memory : Nat → UInt8) (start first second : Nat) :
    words memory start (first + second) =
      words memory start first ++ words memory (start + 2 * first) second := by
  simp [words, range_add, Nat.mul_add, add_assoc, Function.comp_def]

theorem onesComplement_eq {left right : Nat} (leftWord : left ≤ 65535) (rightWord : right ≤ 65535) :
    onesComplement left right = addAround 65535 left right := by
  unfold onesComplement addAround
  omega

/-- The plain total, with a zero behind an odd last byte. -/
def paddedTotal (memory : Nat → UInt8) (start len : Nat) : Nat :=
  (words memory start (len / 2)).sum + if len % 2 = 0 then 0
    else 256 * (memory (start + (len - 1))).toNat

theorem paddedTotal_even (memory : Nat → UInt8) (start count : Nat) :
    paddedTotal memory start (2 * count) = (words memory start count).sum := by
  unfold paddedTotal
  rw [Nat.mul_div_cancel_left count (by decide), if_pos (Nat.mul_mod_right 2 count), add_zero]

/-- The loop over whole words. -/
theorem foldl_onesComplement (startWord : start ≤ 65535) {values : List Nat}
    (bounded : ∀ word ∈ values, word ≤ 65535) :
    values.foldl onesComplement start = values.foldl (addAround 65535) start := by
  induction values generalizing start with
  | nil => rfl
  | cons word values ih =>
    obtain ⟨first, rest⟩ := forall_mem_cons.mp bounded
    rw [foldl_cons, foldl_cons, onesComplement_eq startWord first]
    apply ih _ rest
    rw [addAround_eq_residue startWord first]
    exact residue_le (by decide) _

theorem onesComplementWordsSum_eq (memory : Nat → UInt8) (start len : Nat) :
    onesComplementWordsSum memory start len = residue 65535 (paddedTotal memory start len) := by
  have loop : (List.range (len / 2)).foldl (fun sum index =>
            onesComplement sum (ntohs memory (start + 2 * index))) 0 =
        residue 65535 (words memory start (len / 2)).sum := by
    have bounded : ∀ word ∈ words memory start (len / 2), word ≤ 65535 := by
      intro word member
      obtain ⟨index, _, rfl⟩ := mem_map.mp member
      exact Nat.le_of_lt_succ (ntohs_lt memory _)
    rw [← zero_add (words memory start (len / 2)).sum,
      ← foldl_addAround (by decide) (by decide) bounded,
      ← foldl_onesComplement (by decide) bounded, words, foldl_map]
  unfold onesComplementWordsSum paddedTotal
  simp only [loop]
  have lastByte := (memory (start + (len - 1))).toNat_lt
  split
  · rw [add_zero]
  · rw [onesComplement_eq (residue_le (by decide) _) (by omega),
      addAround_eq_residue (residue_le (by decide) _) (by omega), residue_residue_add (by decide)]

/-- The sum depends on the bytes it covers only. -/
theorem onesComplementWordsSum_congr
    (agree : ∀ offset < len, other (start + offset) = memory (start + offset)) :
    onesComplementWordsSum other start len = onesComplementWordsSum memory start len := by
  have sameWords : words other start (len / 2) = words memory start (len / 2) := by
    apply map_congr_left
    intro index member
    have below := mem_range.mp member
    unfold ntohs
    rw [add_assoc start, agree (2 * index) (by omega), agree (2 * index + 1) (by omega)]
  rw [onesComplementWordsSum_eq, onesComplementWordsSum_eq, paddedTotal, paddedTotal, sameWords]
  split
  · rfl
  · rw [agree (len - 1) (by omega)]

variable {index : Nat}

theorem sum_words_store {count : Nat} (word : value < 65536)
    (zero : ntohs memory (start + 2 * index) = 0) (fits : start + 2 * index + 2 ≤ 4294967296)
    (allFit : start + 2 * count ≤ 4294967296) :
    (words (copyIn memory (start + 2 * index) (htons value)) start count).sum =
      (words memory start count).sum + if index < count then value else 0 := by
  induction count with
  | zero => simp [words]
  | succ count ih =>
    unfold words at ih ⊢
    rw [range_succ, map_append, map_append, sum_append, sum_append, ih (by omega), map_singleton,
      map_singleton, sum_singleton, sum_singleton]
    rcases lt_trichotomy index count with before | here | behind
    · rw [ntohs_store_apart (by omega) fits (by omega), if_pos before, if_pos (by omega)]
      omega
    · subst here
      rw [ntohs_store word fits, zero, if_neg (lt_irrefl _), if_pos (Nat.lt_succ_self _)]
    · rw [ntohs_store_apart (by omega) fits (by omega), if_neg (by omega), if_neg (by omega)]
      omega

theorem checksum_stored (zero : ntohs memory (start + 2 * index) = 0) (inside : 2 * index + 1 < len)
    (fits : start + len ≤ 4294967296) :
    onesComplementWordsSum
        (copyIn memory (start + 2 * index)
          (htons (65535 - onesComplementWordsSum memory start len))) start len = 65535 := by
  have stored (value : Nat) (word : value < 65536) :
      paddedTotal (copyIn memory (start + 2 * index) (htons value)) start len =
        paddedTotal memory start len + value := by
    unfold paddedTotal
    rw [sum_words_store word zero (by omega) (by omega), if_pos (by omega)]
    split
    · omega
    · rw [copyIn_outside (by rw [length_htons]; omega) (by omega) (by rw [length_htons]; omega)]
      omega
  rw [onesComplementWordsSum_eq, stored _ (by omega), onesComplementWordsSum_eq,
    ← residue_residue_add (by decide),
    Nat.add_sub_cancel' (residue_le (by decide) _)]
  exact residue_of_le (le_refl _)

theorem netBufIpv4Checksum_sum (frame : Nat → UInt8) :
    onesComplementWordsSum (netBufIpv4Checksum frame) 14 20 = 65535 := by
  have zero : ntohs (copyIn frame (14 + 2 * 5) [0, 0]) (14 + 2 * 5) = 0 := by
    rw [← htons_zero]
    exact ntohs_store (by decide) (by decide)
  have stored := checksum_stored zero (show 2 * 5 + 1 < 20 by decide) (by decide)
  simpa only [netBufIpv4Checksum] using stored

/-- The header checksum changes its own field only. -/
theorem netBufIpv4Checksum_apart
    {frame : Nat → UInt8} {addr : Nat} (address : addr < 4294967296) (notFirst : addr ≠ 24)
    (notSecond : addr ≠ 25) : netBufIpv4Checksum frame addr = frame addr := by
  have fits : 24 + 2 ≤ 4294967296 := by decide
  have outside : addr < 24 ∨ 24 + 2 ≤ addr := by omega
  unfold netBufIpv4Checksum
  rw [copyIn_outside fits address outside, ← htons_zero, copyIn_outside fits address outside]

/--
The sum of the source is the residue of the plain sum of the words, modulo
65535 and zero only for words that are all zero.  It does not depend on the
order of the words, and it is the one's complement sum of the sums of any two
parts.  After `net_buf_ipv4_checksum` the ten words of a header come to all
ones, and no byte outside the checksum has changed.
-/
theorem checksum_end_around :
    (∀ (memory : Nat → UInt8) (start count : Nat),
      onesComplementWordsSum memory start (2 * count) =
        residue 65535 (words memory start count).sum) ∧
    (∀ (memory other : Nat → UInt8) (start otherStart count : Nat),
      (words memory start count).Perm (words other otherStart count) →
        onesComplementWordsSum memory start (2 * count) =
          onesComplementWordsSum other otherStart (2 * count)) ∧
    (∀ (memory : Nat → UInt8) (start first second : Nat),
      onesComplementWordsSum memory start (2 * (first + second)) =
        onesComplement (onesComplementWordsSum memory start (2 * first))
          (onesComplementWordsSum memory (start + 2 * first) (2 * second))) ∧
    ∀ frame : Nat → UInt8,
      onesComplementWordsSum (netBufIpv4Checksum frame) 14 20 = 0xffff ∧
        ∀ addr < 4294967296, addr ≠ 24 → addr ≠ 25 →
          netBufIpv4Checksum frame addr = frame addr := by
  have evenSum (memory : Nat → UInt8) (start count : Nat) :
      onesComplementWordsSum memory start (2 * count) =
        residue 65535 (words memory start count).sum := by
    rw [onesComplementWordsSum_eq, paddedTotal_even]
  refine ⟨evenSum, ?_, ?_, ?_⟩
  · intro memory other start otherStart count permuted
    rw [evenSum, evenSum, permuted.sum_eq]
  · intro memory start first second
    have firstWord : residue 65535 (words memory start first).sum ≤ 65535 :=
      residue_le (by decide) _
    have secondWord : residue 65535 (words memory (start + 2 * first) second).sum ≤ 65535 :=
      residue_le (by decide) _
    rw [evenSum, evenSum, evenSum, onesComplement_eq firstWord secondWord,
      addAround_eq_residue firstWord secondWord,
      residue_residue_add (by decide), residue_add_residue (by decide), words_add, sum_append]
  · intro frame
    exact ⟨netBufIpv4Checksum_sum frame, fun addr address notFirst
      notSecond => netBufIpv4Checksum_apart address notFirst notSecond⟩

/-- The words `0x0102` and `0xfeff`, in the order given. -/
def twoWords (bytes : List UInt8) (addr : Nat) : UInt8 := bytes.getD addr 0

theorem checksum_end_around_swapped :
    onesComplementWordsSum (twoWords [1, 2, 0xfe, 0xff]) 0 (2 * 2) =
        onesComplementWordsSum (twoWords [0xfe, 0xff, 1, 2]) 0 (2 * 2) ∧
      netBufIpv4Checksum (twoWords [1, 2]) 1 = 2 := by
  obtain ⟨_, ordered, _, headers⟩ := checksum_end_around
  refine ⟨ordered _ _ 0 0 2 (by decide), ?_⟩
  exact (headers _).2 1 (by decide) (by decide) (by decide)

end Cosec.Net.Checksums
