import Cosec.Libc.Strings

/-!
# Comparison of strings

All comparison functions look for the first bytes that differ, and answer with
a difference of those.  `memcmp` takes it as a `char`, `strncmp` compares
signed characters, and `strncasecmp` subtracts the other way round.
-/

namespace Cosec.Libc.Comparisons

open Libc.Strings

/-- `memcmp`, whose difference is a `char`. -/
def memcmp : Nat → List UInt8 → List UInt8 → Int
  | count + 1, first :: s1, second :: s2 =>
    let diff := (first - second).toBitVec.toInt
    if diff ≠ 0 then diff else memcmp count s1 s2
  | _, _, _ => 0

def tolower (c : Int) : Int := if 65 ≤ c ∧ c ≤ 90 then c + 97 - 65 else c

def strncasecmp : Nat → List UInt8 → List UInt8 → Int
  | count + 1, first :: s1, second :: s2 =>
    let lc1 := tolower (asInt8 first)
    let lc2 := tolower (asInt8 second)
    if lc1 ≠ lc2 then lc2 - lc1 else if first = 0 then 0 else strncasecmp count s1 s2
  | _, _, _ => 0

/-- The bytes of a string in memory. -/
def stringBytes (s : CString) : List UInt8 := s.map Subtype.val ++ [0]

/-- Up to `n` bytes of a string. -/
def front (s : CString) (n : Nat) : List UInt8 := (stringBytes s).take n

/-- A letter in lower case. -/
def lowered (byte : UInt8) : UInt8 := if 65 ≤ byte.toNat ∧ byte.toNat ≤ 90 then byte + 32 else byte

/-- The first two bytes that differ. -/
def firstDifference (s1 s2 : List UInt8) : Option (UInt8 × UInt8) :=
  (s1.zip s2).find? fun pair => pair.1 ≠ pair.2

/-- Comparison by a difference of the first bytes that differ. -/
def compared (difference : UInt8 → UInt8 → Int) (s1 s2 : List UInt8) : Int :=
  (firstDifference s1 s2).elim 0 fun pair => difference pair.1 pair.2

/-- Lexicographic comparison of unsigned bytes. -/
def lexicographic : List UInt8 → List UInt8 → Int :=
  compared fun first second => (first.toNat : Int) - second.toNat

def SameSign (left right : Int) : Prop := (left < 0 ↔ right < 0) ∧ (0 < left ↔ 0 < right)

instance (left right : Int) : Decidable (SameSign left right) :=
  inferInstanceAs (Decidable (_ ∧ _))

theorem charDifference_eq_zero {first second : UInt8} :
    (first - second).toBitVec.toInt = 0 ↔ first = second := by
  rw [← BitVec.toInt_zero, BitVec.toInt_inj, UInt8.toBitVec_sub, BitVec.sub_eq_iff_eq_add,
    BitVec.zero_add, UInt8.toBitVec_inj]

theorem memcmp_eq_zero_iff
    {count : Nat} {s1 s2 : List UInt8} (first : s1.length = count) (second : s2.length = count) :
    memcmp count s1 s2 = 0 ↔ s1 = s2 := by
  induction count generalizing s1 s2 with
  | zero =>
    rw [List.length_eq_zero_iff.mp first, List.length_eq_zero_iff.mp second]
    exact ⟨fun _ => rfl, fun _ => rfl⟩
  | succ count ih =>
    obtain ⟨c1, s1, rfl⟩ := List.exists_cons_of_length_eq_add_one first
    obtain ⟨c2, s2, rfl⟩ := List.exists_cons_of_length_eq_add_one second
    have rest := ih (Nat.succ.inj first) (Nat.succ.inj second)
    rw [memcmp, List.cons.injEq, ← rest, ← @charDifference_eq_zero c1 c2]
    split
    · rename_i differs
      exact ⟨fun zero => absurd zero differs, fun both => absurd both.1 differs⟩
    · rename_i equal
      exact ⟨fun zero => ⟨not_not.mp equal, zero⟩, fun both => both.2⟩

variable {difference : UInt8 → UInt8 → Int} {s1 s2 : List UInt8} {first second : UInt8}

theorem compared_cons :
    compared difference (first :: s1) (second :: s2) =
      if first ≠ second then difference first second else compared difference s1 s2 := by
  unfold compared firstDifference
  by_cases same : first = second <;> simp [same]

@[simp]
theorem compared_nil_left : compared difference [] s2 = 0 := rfl

@[simp]
theorem compared_nil_right : compared difference s1 [] = 0 := by
  simp [compared, firstDifference]

theorem memcmp_eq (count : Nat) (s1 s2 : List UInt8) :
    memcmp count s1 s2 =
      compared (fun first second => (first - second).toBitVec.toInt) (s1.take count)
        (s2.take count) := by
  induction count generalizing s1 s2 with
  | zero => simp [memcmp]
  | succ count ih =>
    cases s1 with
    | nil => simp [memcmp]
    | cons first s1 =>
      cases s2 with
      | nil => simp [memcmp]
      | cons second s2 =>
        simp only [memcmp, List.take_succ_cons, compared_cons, ne_eq, charDifference_eq_zero, ih]

theorem strncmp_eq (left right : CString) (count : Nat) :
    strncmp left right count =
      compared (fun first second => asInt8 first - asInt8 second) (front left count)
        (front right count) := by
  fun_induction strncmp left right count with
  | case1 => simp [front]
  | case2 => simp [front, stringBytes, compared_cons]
  | case3 right rights count =>
    simp [front, stringBytes, compared_cons, right.property.symm, asInt8]
  | case4 left lefts count =>
    simp [front, stringBytes, compared_cons, left.property, asInt8]
  | case5 left lefts right rights count differs =>
    simp [front, stringBytes, compared_cons, Subtype.val_inj, differs]
  | case6 left lefts right rights count same ih =>
    rw [ih]
    simp [front, stringBytes, compared_cons, not_not.mp same]

theorem tolower_asInt8 (byte : UInt8) : tolower (asInt8 byte) = asInt8 (lowered byte) := by
  have bounded := byte.toNat_lt
  unfold tolower lowered asInt8
  by_cases letter : 65 ≤ byte.toNat ∧ byte.toNat ≤ 90
  · have sum : (byte + 32).toNat = byte.toNat + 32 := by
      exact Nat.mod_eq_of_lt (by simp; omega)
    rw [if_pos letter, sum, if_pos (by omega), if_pos (by omega), if_pos (by omega)]
    omega
  · rw [if_neg letter]
    split <;> rw [if_neg (by omega)]

theorem strncasecmp_cons (count : Nat) :
    strncasecmp (count + 1) (first :: s1) (second :: s2) =
      if lowered first ≠ lowered second then asInt8 (lowered second) - asInt8 (lowered first)
      else if first = 0 then 0 else strncasecmp count s1 s2 := by
  have same : asInt8 (lowered first) = asInt8 (lowered second) ↔ lowered first = lowered second :=
    ⟨asInt8_inj, congrArg asInt8⟩
  simp only [strncasecmp, tolower_asInt8, ne_eq, same]

theorem strncasecmp_nil (count : Nat) : strncasecmp count s1 [] = 0 := by
  cases count <;> cases s1 <;> rfl

theorem strncasecmp_eq (left right : CString) (count : Nat) :
    strncasecmp count (stringBytes left) (stringBytes right) =
      compared (fun first second => asInt8 second - asInt8 first)
        ((front left count).map lowered) ((front right count).map lowered) := by
  induction count generalizing left right with
  | zero => simp [strncasecmp, front]
  | succ count ih =>
    cases left with
    | nil => cases right <;> simp [front, stringBytes, strncasecmp_cons, compared_cons]
    | cons first left =>
      cases right with
      | nil => simp [front, stringBytes, strncasecmp_cons, compared_cons, strncasecmp_nil]
      | cons second right =>
        have rest := ih left right
        unfold front stringBytes at rest
        unfold front stringBytes
        simp only [List.map_cons, List.cons_append, List.take_succ_cons, strncasecmp_cons,
          compared_cons, if_neg first.property, rest]

/-- Comparison is right where the differences are. -/
theorem sameSign_compared_iff {condition : UInt8 → UInt8 → Prop} (s1 s2 : List UInt8)
    (pointwise : ∀ first second, first ≠ second →
      (SameSign (difference first second) (first.toNat - second.toNat) ↔ condition first second)) :
    SameSign (compared difference s1 s2) (lexicographic s1 s2) ↔
      ∀ pair ∈ firstDifference s1 s2, condition pair.1 pair.2 := by
  unfold lexicographic compared
  cases differing : firstDifference s1 s2 with
  | none => simp [SameSign]
  | some pair =>
    have different : pair.1 ≠ pair.2 := by simpa using List.find?_some differing
    simpa using pointwise pair.1 pair.2 different

theorem charDifference_sign (first second : UInt8) :
    SameSign (first - second).toBitVec.toInt (first.toNat - second.toNat) ↔
      first.toNat < second.toNat + 128 ∧ second.toNat ≤ first.toNat + 128 := by
  have firstBound := first.toNat_lt
  have secondBound := second.toNat_lt
  rw [BitVec.toInt_eq_toNat_cond, UInt8.toNat_toBitVec, UInt8.toNat_sub]
  unfold SameSign
  split <;> omega

theorem signedDifference_sign {first second : UInt8} (different : first ≠ second) :
    SameSign (asInt8 first - asInt8 second) (first.toNat - second.toNat) ↔
      (first.toNat < 128 ↔ second.toNat < 128) := by
  have firstBound := first.toNat_lt
  have secondBound := second.toNat_lt
  have apart : first.toNat ≠ second.toNat := fun equal => different (UInt8.toNat_inj.mp equal)
  unfold SameSign asInt8
  split <;> split <;> omega

theorem reversedDifference_sign {first second : UInt8} (different : first ≠ second) :
    SameSign (asInt8 second - asInt8 first) (first.toNat - second.toNat) ↔
      ¬ (first.toNat < 128 ↔ second.toNat < 128) := by
  have apart : asInt8 first ≠ asInt8 second := fun equal => different (asInt8_inj equal)
  have unequal : first.toNat ≠ second.toNat := fun equal => different (UInt8.toNat_inj.mp equal)
  rw [← signedDifference_sign different]
  unfold SameSign
  omega

/-- The comparison functions are right exactly where their differences have the right sign. -/
theorem comparison_signs_iff (n : Nat) (s1 s2 : List UInt8) (left right : Path) :
    (SameSign (memcmp n s1 s2) (lexicographic (s1.take n) (s2.take n)) ↔
        ∀ pair ∈ firstDifference (s1.take n) (s2.take n),
          pair.1.toNat < pair.2.toNat + 128 ∧ pair.2.toNat ≤ pair.1.toNat + 128) ∧
      (SameSign (strncmp left.chars right.chars n)
          (lexicographic (front left.chars n) (front right.chars n)) ↔
        ∀ pair ∈ firstDifference (front left.chars n) (front right.chars n),
          (pair.1.toNat < 128 ↔ pair.2.toNat < 128)) ∧
      (SameSign (strcmp left.chars right.chars)
          (lexicographic (stringBytes left.chars) (stringBytes right.chars)) ↔
        ∀ pair ∈ firstDifference (stringBytes left.chars) (stringBytes right.chars),
          (pair.1.toNat < 128 ↔ pair.2.toNat < 128)) ∧
      (SameSign (strncasecmp n (stringBytes left.chars) (stringBytes right.chars))
          (lexicographic ((front left.chars n).map lowered) ((front right.chars n).map lowered)) ↔
        ∀ pair ∈
            firstDifference ((front left.chars n).map lowered) ((front right.chars n).map lowered),
          ¬ (pair.1.toNat < 128 ↔ pair.2.toNat < 128)) := by
  have whole (s : Path) : front s.chars 0xFFFFFFFF = stringBytes s.chars := by
    have bounded := s.bounded
    unfold sizeMax at bounded
    exact List.take_of_length_le (by simp [stringBytes]; omega)
  unfold strcmp
  rw [memcmp_eq, strncmp_eq, strncmp_eq, strncasecmp_eq, whole, whole]
  exact ⟨sameSign_compared_iff _ _ fun first second _ => charDifference_sign first second,
    sameSign_compared_iff _ _ fun _ _ => signedDifference_sign,
    sameSign_compared_iff _ _ fun _ _ => signedDifference_sign,
    sameSign_compared_iff _ _ fun _ _ => reversedDifference_sign⟩

/-- "a" is put behind "b". -/
theorem strncasecmp_reversed :
    ¬ SameSign (strncasecmp 1 [97, 0] [98, 0]) (lexicographic [97] [98]) := by
  decide

end Cosec.Libc.Comparisons
