import Cosec.Mem.HeapRuns

/-!
# New heaps

`firstfit_new` compares the size of the region with the sizes of its own
structures, and then rounds the first chunk up from the start of the region
and the closing chunk down from its end.  For regions a little above the
threshold the two roundings can take more than the region has, and the
closing chunk is not behind the first one.
-/

namespace Cosec.Mem.NewHeaps

open Lib.Word32 Mem.ChunkHeaders Mem.FirstFit Mem.HeapRuns

/--
The two chunks lie inside the region behind the allocator record, and the
first is below the closing one with at least one byte of data.
-/
structure WellPlaced (startmem size : Nat) : Prop where
  initialBehind : startmem + allocSize ≤ initialChunk startmem
  initialInside : initialChunk startmem + chunkSize ≤ startmem + size
  closingBehind : startmem + allocSize ≤ heapEnd (startmem + size)
  closingInside : heapEnd (startmem + size) + chunkSize ≤ startmem + size
  room : initialChunk startmem + chunkSize + 1 ≤ heapEnd (startmem + size)

/-- The record, two chunks and one byte between them, anywhere. -/
def Placeable (startmem size : Nat) : Prop :=
  ∃ initial closing,
    startmem + allocSize ≤ initial ∧ initial + chunkSize + 1 ≤ closing ∧
      closing + chunkSize ≤ startmem + size

/-- Asking for one byte returns a block. -/
def GrantsByte (heap : Heap) : Prop :=
  ∃ pointer after, firstfitMalloc heap 1 = some (pointer, after) ∧ pointer ≠ 0

/-- `firstfit_new` accepts a region exactly when it can be used. -/
structure AcceptsUsable (memory : Memory) (startmem size : Nat) : Prop where
  accepted :
    ∀ heap, firstfitNew memory startmem size = some heap →
      WellPlaced startmem size ∧ GrantsByte heap
  refused : firstfitNew memory startmem size = none → ¬ Placeable startmem size

/-- The start of the first data, and the end of the closing chunk. -/
def RoundingLeavesRoom (startmem size : Nat) : Prop :=
  16 * ((startmem + 47) / 16) + 16 ≤ 16 * ((startmem + size) / 16)

instance (startmem size : Nat) : Decidable (RoundingLeavesRoom startmem size) :=
  inferInstanceAs (Decidable (_ ≤ _))

variable {memory : Memory} {heap : Heap} {startmem size : Nat}

theorem firstfitNew_none_iff : firstfitNew memory startmem size = none ↔ size < 45 := by
  have needed : aligned (allocSize + chunkSize) + chunkSize + 1 = 45 := by decide
  unfold firstfitNew
  rw [needed]
  split <;> simp [*]

theorem initialChunk_add (noWrap : startmem + 45 ≤ 4294967295) :
    initialChunk startmem + 12 = 16 * ((startmem + 47) / 16) := by
  unfold initialChunk allocSize chunkSize aligned align
  rw [wrap32_of_lt (by omega)]
  split
  · rw [sub32_of_le (by omega) (by omega)]
    omega
  · -- the rounded address may be the end of the address space
    unfold sub32 wrap32
    omega

theorem heapEnd_add (low : 45 ≤ startmem + size) (noWrap : startmem + size ≤ 4294967295) :
    heapEnd (startmem + size) + 12 = 16 * ((startmem + size) / 16) := by
  unfold heapEnd align chunkSize
  rw [sub32_of_le (by omega) (by omega)]
  omega

theorem wellPlaced_iff (enough : 45 ≤ size) (noWrap : startmem + size ≤ 4294967295) :
    WellPlaced startmem size ↔ RoundingLeavesRoom startmem size := by
  have initialEq := @initialChunk_add startmem (by omega)
  have closingEq := @heapEnd_add startmem size (by omega) noWrap
  unfold RoundingLeavesRoom
  constructor
  · intro placed
    have room := placed.room
    omega
  · intro leaves
    constructor <;> simp only [allocSize, chunkSize] <;> omega

theorem grantsByte_new (narrow : size < 2147483648) (noWrap : startmem + size ≤ 4294967295)
    (leaves : RoundingLeavesRoom startmem size)
    (created : firstfitNew memory startmem size = some heap) : GrantsByte heap := by
  have enough : 45 ≤ size := by
    by_contra few
    have refused := (@firstfitNew_none_iff memory startmem size).mpr (by omega)
    rw [refused] at created
    cases created
  have initialEq := @initialChunk_add startmem (by omega)
  have closingEq := @heapEnd_add startmem size (by omega) noWrap
  unfold RoundingLeavesRoom at leaves
  obtain ⟨initialHeader, _, _, _, cursor⟩ :=
    firstfitNew_chunks created (by omega) (by omega) (by omega) (by omega)
  have nextEq : next heap.memory heap.current = heapEnd (startmem + size) := by
    rw [cursor]
    exact congrArg Header.next initialHeader
  have free : isUsed heap.memory heap.current = false := by
    have sum :
        checksum heap.memory heap.current =
          markedSum (initialChunk startmem) (heapEnd (startmem + size)) false := by
      rw [cursor]
      exact congrArg Header.checksum initialHeader
    have marked :=
      usedBit_le_markedSum_iff (initialChunk startmem) (heapEnd (startmem + size)) false
    rw [isUsed, sum]
    simp [marked]
  have sized :
      getSize heap.memory heap.current =
        heapEnd (startmem + size) - initialChunk startmem - 12 := by
    have distance :
        sub32 (heapEnd (startmem + size)) (initialChunk startmem) =
          heapEnd (startmem + size) - initialChunk startmem :=
      sub32_of_le (by omega) (by omega)
    rw [getSize, nextEq, cursor, distance, chunkSize, sub32_of_le (by omega) (by omega)]
  have fit : fits heap.memory 1 heap.current = true := by
    rw [fits, free, sized, asInt32_of_lt (by decide), asInt32_of_lt (by omega)]
    simp only [Bool.not_false, Bool.true_and, decide_eq_true_eq]
    omega
  have found : searchChunk heap 1 searchFuel heap.current = some (some heap.current) := if_pos fit
  refine ⟨_, _, by rw [firstfitMalloc, if_neg (by decide), found], ?_⟩
  rw [chunkData, chunkSize, cursor, wrap32_of_lt (by omega)]
  omega

/-- Forty-five bytes are needed wherever the parts are put. -/
theorem not_placeable_of_lt (few : size < 45) : ¬ Placeable startmem size := by
  rintro ⟨initial, closing, behind, room, inside⟩
  unfold allocSize at behind
  unfold chunkSize at room inside
  omega

/--
`firstfit_new` accepts exactly the regions that can be used, for the regions
that are too small and for those where the roundings leave room.
-/
theorem firstfit_new_accepts_iff
    (memory : Memory) (startmem size : Nat) (noWrap : startmem + size ≤ 4294967295)
    (narrow : size < 2147483648) :
    AcceptsUsable memory startmem size ↔ size < 45 ∨ RoundingLeavesRoom startmem size := by
  constructor
  · intro accepts
    by_cases few : size < 45
    · exact Or.inl few
    · right
      have created : ∃ heap, firstfitNew memory startmem size = some heap := by
        apply Option.ne_none_iff_exists'.mp
        rwa [ne_eq, firstfitNew_none_iff]
      obtain ⟨heap, created⟩ := created
      have placed := (accepts.accepted heap created).1
      exact (wellPlaced_iff (Nat.not_lt.mp few) noWrap).mp placed
  · rintro (few | leaves)
    · constructor
      · intro heap created
        have refused := (@firstfitNew_none_iff memory startmem size).mpr few
        rw [refused] at created
        cases created
      · intro _
        exact not_placeable_of_lt few
    · constructor
      · intro heap created
        have enough : 45 ≤ size := by
          unfold RoundingLeavesRoom at leaves
          omega
        exact ⟨(wellPlaced_iff enough noWrap).mpr leaves,
          grantsByte_new narrow noWrap leaves created⟩
      · intro refused
        exact not_placeable_of_lt (firstfitNew_none_iff.mp refused)

theorem firstfit_new_accepts_iff_sample : AcceptsUsable (fun _ => 0) 4097 63 :=
  (firstfit_new_accepts_iff (fun _ => 0) 4097 63 (by decide) (by decide)).mpr (Or.inr (by decide))

/-- A region of 45 bytes that is accepted, its two chunks in one place. -/
theorem firstfit_new_crosses :
    (firstfitNew (fun _ => 0) 4096 45).isSome = true ∧
      initialChunk 4096 = 4116 ∧ heapEnd (4096 + 45) = 4116 ∧
      ¬ AcceptsUsable (fun _ => 0) 4096 45 := by
  refine ⟨by decide, by decide, by decide, ?_⟩
  intro accepts
  have created : firstfitNew (fun _ => 0) 4096 45 ≠ none := by
    decide
  obtain ⟨heap, created⟩ := Option.ne_none_iff_exists'.mp created
  have room := (accepts.accepted heap created).1.room
  exact absurd room (by decide)

end Cosec.Mem.NewHeaps
