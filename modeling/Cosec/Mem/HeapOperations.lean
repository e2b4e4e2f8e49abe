import Mathlib.Data.List.Perm.Subperm
import Mathlib.Data.List.Range
import Cosec.Mem.ChunkHeaders

/-!
# The allocator on layouts

Each operation of the allocator, run on memory that represents a layout,
leaves memory that represents the layout the abstract operation gives:
`firstfit_malloc` takes a free block, whole or cut, and `firstfit_free`
releases a used one.
-/

namespace Cosec.Mem.HeapOperations

open Lib.LinkedRing Lib.Word32 List Mem.BlockLayout Mem.ChunkHeaders Mem.FirstFit

/-! ## The search loop -/

variable {size chunk : Nat}

/--
On a ring whose checksums hold, the loop visits the chunks in ring order and
stops at the first that fits.
-/
theorem searchChunk_eq_find {heap : Heap} {rest : List Nat}
    (summed : ∀ member ∈ rest, checkSum heap.memory member = true) (away : heap.current ∉ rest)
    {fuel : Nat}
    (linked : Linked (next heap.memory) (prev heap.memory) (chunk :: rest ++ [heap.current]))
    (enough : rest.length < fuel) :
    searchChunk heap size fuel chunk = some ((chunk :: rest).find? (fits heap.memory size)) := by
  induction rest generalizing chunk fuel with
  | nil =>
    obtain ⟨fuel, rfl⟩ := Nat.exists_eq_succ_of_ne_zero (ne_of_gt enough)
    have back := (isChain_cons_cons.mp linked).1.1
    cases fitting : fits heap.memory size chunk with
    | true => simp [searchChunk, fitting]
    | false => simp [searchChunk, fitting, back]
  | cons second rest ih =>
    obtain ⟨fuel, rfl⟩ := Nat.exists_eq_succ_of_ne_zero
      (ne_of_gt (lt_of_le_of_lt (Nat.zero_le _) enough))
    obtain ⟨⟨toSecond, _⟩, fromSecond⟩ := isChain_cons_cons.mp linked
    have notCurrent : second ≠ heap.current := by
      intro same
      exact away (by simp [same])
    cases fitting : fits heap.memory size chunk with
    | true => simp [searchChunk, fitting]
    | false =>
      have continued :
          searchChunk heap size (fuel + 1) chunk = searchChunk heap size fuel second := by
        simp [searchChunk, fitting, toSecond, summed second (by simp), notCurrent]
      rw [Nat.succ_eq_add_one, continued, find?_cons_of_neg (by simp [fitting])]
      apply ih
      · intro member inside
        exact summed member (mem_cons_of_mem second inside)
      · intro inside
        exact away (mem_cons_of_mem second inside)
      · exact fromSecond
      · simpa using enough

variable {heap : Heap} {layout before after : Layout} {first closing : Nat}

theorem searchChunk_of_represents
    (represents : Represents heap.memory layout) (ordered : Ordered first closing layout)
    (small : closing + 1 < searchFuel) (onChain : heap.current ∈ Layout.addrs layout) (size : Nat) :
    ∃ path : List Nat,
      (∀ addr, addr ∈ path ↔ addr ∈ Layout.addrs layout) ∧
        searchChunk heap size searchFuel heap.current =
          some (path.find? (fits heap.memory size)) := by
  obtain ⟨front, back, split⟩ := append_of_mem onChain
  have ring := represents.ring
  rw [split] at ring
  have nodup := ordered.nodup
  rw [split, nodup_middle, nodup_cons] at nodup
  have inRange : Layout.addrs layout ⊆ List.range (closing + 1) := by
    intro addr member
    obtain ⟨block, inside, rfl⟩ := mem_map.mp member
    exact mem_range.mpr (Nat.lt_succ_of_le (ordered.addr_le_closing inside))
  have short := (subperm_of_subset ordered.nodup inRange).length_le
  rw [split, length_range] at short
  refine ⟨heap.current :: (back ++ front), ?_, ?_⟩
  · intro addr
    rw [split]
    simp only [mem_cons, mem_append]
    tauto
  · apply searchChunk_eq_find
    · intro addr inside
      have member : addr ∈ Layout.addrs layout := by
        rw [split]
        simp only [mem_cons, mem_append] at inside ⊢
        tauto
      obtain ⟨block, blockMember, rfl⟩ := mem_map.mp member
      exact represents.checkSum blockMember
    · intro inside
      apply nodup.1
      simp only [mem_append] at inside ⊢
      tauto
    · exact ring.from
    · simp only [length_append, length_cons] at short ⊢
      omega

variable {memory : Memory}

/-- Rounding up to the alignment, away from the end of the address space. -/
theorem aligned_spec {value : Nat} (small : value + 16 < 4294967296) :
    value ≤ aligned value ∧ aligned value < value + 16 ∧ aligned value % 16 = 0 := by
  unfold aligned align
  split
  · omega
  · rw [wrap32_of_lt (by omega)]
    omega

/-- The memory in which a chunk is marked when it is taken. -/
def cutMemory (memory : Memory) (size chunk following : Nat) : Memory :=
  if chunk + aligned (size + 12) + 16 ≤ following then
    splitChunk memory chunk (chunk + aligned (size + 12)) following
  else
    memory

theorem chunkData_of_le (below : chunk + 28 ≤ 4294967296) : chunkData chunk = chunk + 12 :=
  wrap32_of_lt (by unfold chunkSize; omega)

theorem sub32_chunkSize (below : chunk + 28 ≤ 4294967296) :
    sub32 (chunk + 12) chunkSize = chunk := by
  rw [chunkSize, sub32_of_le (by omega) (by omega), Nat.add_sub_cancel]

variable {following : Nat}

/-- Taking a chunk, without the arithmetic of addresses. -/
theorem allocateChunk_eq (toFollowing : next heap.memory chunk = following)
    (chunkGrid : chunk % 16 = 4) (followingGrid : following % 16 = 4)
    (bounded : following + 28 ≤ 4294967296) (room : chunk + 12 + size ≤ following) :
    (allocateChunk heap size chunk).memory =
        setUsed (cutMemory heap.memory size chunk following) chunk ∧
      (allocateChunk heap size chunk).current =
        next (setUsed (cutMemory heap.memory size chunk following) chunk) chunk := by
  obtain ⟨coversSize, tightSize, sizeGrid⟩ := @aligned_spec (size + 12) (by omega)
  have offsetEq :
      sub32 (aligned (wrap32 (size + chunkSize))) chunkSize = aligned (size + 12) - 12 := by
    unfold chunkSize
    rw [wrap32_of_lt (by omega), sub32_of_le (by omega) (by omega)]
  have newChunkEq :
      wrap32 (chunkData chunk + (aligned (size + 12) - 12)) = chunk + aligned (size + 12) := by
    rw [chunkData_of_le (by omega), wrap32_of_lt (by omega)]
    omega
  have roomEq :
      wrap32 (chunkData (chunk + aligned (size + 12)) + 4) = chunk + aligned (size + 12) + 16 := by
    rw [chunkData_of_le (by omega), wrap32_of_lt (by omega)]
  unfold allocateChunk cutMemory
  simp only [offsetEq, toFollowing, newChunkEq, roomEq, and_self]

/--
The effect of taking a chunk: a layout in which the chunk is used, with the
cursor on the block behind it.
-/
theorem allocateChunk_represents
    (represents : Represents heap.memory (before ++ ⟨chunk, false⟩ :: ⟨following, true⟩ :: after))
    (tiling : Tiling first closing (before ++ ⟨chunk, false⟩ :: ⟨following, true⟩ :: after))
    (bounded : closing + 28 ≤ 4294967296) (room : chunk + 12 + size ≤ following) :
    ∃ taken,
      Represents (allocateChunk heap size chunk).memory taken ∧ Tiling first closing taken ∧
        (allocateChunk heap size chunk).current ∈ Layout.addrs taken ∧
        ∀ live, Accounts closing (before ++ ⟨chunk, false⟩ :: ⟨following, true⟩ :: after) live →
          Accounts closing taken (⟨chunk + 12, size⟩ :: live) := by
  have chunkGrid : chunk % 16 = 4 := tiling.onGrid ⟨chunk, false⟩ (by simp)
  have followingGrid : following % 16 = 4 := tiling.onGrid ⟨following, true⟩ (by simp)
  have followingBound : following ≤ closing :=
    tiling.addr_le_closing (show (⟨following, true⟩ : Block) ∈ _ by simp)
  obtain ⟨coversSize, tightSize, sizeGrid⟩ := @aligned_spec (size + 12) (by omega)
  obtain ⟨memoryEq, currentEq⟩ :=
    allocateChunk_eq represents.neighbours.1 chunkGrid followingGrid (by omega) room
  rw [memoryEq, currentEq, cutMemory]
  by_cases cuts : chunk + aligned (size + 12) + 16 ≤ following
  · rw [if_pos cuts]
    have cutTiling := tiling.takeFront (show chunk < chunk + aligned (size + 12) by omega)
      (by omega) (by omega)
    obtain ⟨marked, cursor⟩ :=
      (represents.split tiling.toOrdered (by omega) (by omega)
        (show (chunk + aligned (size + 12)) % 16 = 4 by omega) ).markUsed cutTiling.toOrdered
    refine ⟨_, marked, cutTiling, ?_, ?_⟩
    · rw [cursor]
      simp
    · intro live accounts
      exact accounts.takeFront tiling (by omega) (by omega) (by omega)
  · rw [if_neg cuts]
    obtain ⟨marked, cursor⟩ := represents.markUsed tiling.toOrdered
    refine ⟨_, marked, tiling.take, ?_, ?_⟩
    · rw [cursor]
      simp
    · intro live accounts
      exact accounts.take tiling room

theorem mergeNext_represents (represents : Represents memory (before ++ ⟨chunk, false⟩ :: after))
    (tiling : Tiling first closing (before ++ ⟨chunk, true⟩ :: after))
    (notClosing : chunk ≠ closing) :
    ∃ following rest,
      dropFree after = ⟨following, true⟩ :: rest ∧ (mergeNext memory chunk).2 = following ∧
        Represents (mergeNext memory chunk).1
          (before ++ ⟨chunk, false⟩ :: ⟨following, true⟩ :: rest) := by
  obtain ⟨following, rest, dropped, _, _⟩ := tiling.releaseRight notClosing
  match after with
  | [] => simp [dropFree] at dropped
  | ⟨second, true⟩ :: rest =>
    have used : isUsed memory second = true :=
      represents.isUsed (show (⟨second, true⟩ : Block) ∈ _ by simp)
    refine ⟨second, rest, rfl, ?_⟩
    simp only [mergeNext, represents.neighbours.1, used, Bool.not_true, Bool.false_eq_true,
      if_false]
    exact ⟨trivial, represents⟩
  | [⟨second, false⟩] => simp [dropFree] at dropped
  | ⟨second, false⟩ :: ⟨third, mark⟩ :: rest =>
    have thirdUsed : mark = true := by
      simp only [dropFree, List.cons.injEq, Block.mk.injEq] at dropped
      exact dropped.1.2
    subst thirdUsed
    have fromSecond :
        Represents memory
          ((before ++ [⟨chunk, false⟩]) ++ ⟨second, false⟩ :: ⟨third, true⟩ :: rest) := by
      simpa using represents
    have free : isUsed memory second = false :=
      represents.isUsed (show (⟨second, false⟩ : Block) ∈ _ by simp)
    refine ⟨third, rest, rfl, ?_⟩
    simp only [mergeNext, represents.neighbours.1, free, Bool.not_false, if_true,
      fromSecond.neighbours.1]
    exact ⟨trivial, represents.absorb tiling.toOrdered.mark⟩

theorem mergePrev_represents {rest : Layout}
    (represents : Represents memory (before ++ ⟨chunk, false⟩ :: ⟨following, true⟩ :: rest))
    (ordered : Ordered first closing (before ++ ⟨chunk, false⟩ :: ⟨following, true⟩ :: rest)) :
    ∃ joined,
      joined =
          (if endsFree before then before ++ ⟨following, true⟩ :: rest
           else before ++ ⟨chunk, false⟩ :: ⟨following, true⟩ :: rest) ∧
        Represents (mergePrev memory chunk following).1 joined ∧
        (mergePrev memory chunk following).2 ∈ Layout.addrs joined := by
  refine ⟨_, rfl, ?_⟩
  rcases eq_nil_or_concat' before with rfl | ⟨front, last, rfl⟩
  · have closes : (⟨following, true⟩ :: rest).getLast? = _ := ordered.closes
    obtain ⟨middle, split⟩ := getLast?_eq_some_iff.mp closes
    rw [nil_append, split] at represents
    have ring :
        Circular (next memory) (prev memory) (chunk :: Layout.addrs middle ++ [closing]) := by
      simpa [Layout.addrs] using represents.ring
    have used : isUsed memory closing = true :=
      represents.isUsed (show (⟨closing, true⟩ : Block) ∈ _ by simp)
    have merged : mergePrev memory chunk following = (memory, chunk) := by
      simp [mergePrev, ring.closing.2, used]
    rw [if_neg (by simp [endsFree]), merged, nil_append, split]
    exact ⟨represents, by simp⟩
  · obtain ⟨lastAddr, lastUsed⟩ := last
    simp only [append_assoc, cons_append, nil_append] at represents ordered ⊢
    have marked := represents.isUsed (show (⟨lastAddr, lastUsed⟩ : Block) ∈ _ by simp)
    cases lastUsed with
    | false =>
      have merged :
          mergePrev memory chunk following =
            (absorb memory lastAddr chunk following, lastAddr) := by
        simp [mergePrev, represents.neighbours.2, marked]
      rw [if_pos (by simp [endsFree]), merged]
      exact ⟨represents.absorb ordered, by simp⟩
    | true =>
      have merged : mergePrev memory chunk following = (memory, chunk) := by
        simp [mergePrev, represents.neighbours.2, marked]
      rw [if_neg (by simp [endsFree]), merged]
      exact ⟨represents, by simp⟩

section

variable (represents : Represents heap.memory (before ++ ⟨chunk, true⟩ :: after))
  (tiling : Tiling first closing (before ++ ⟨chunk, true⟩ :: after))
  (bounded : closing + 28 ≤ 4294967296) (notClosing : chunk ≠ closing)

include represents tiling bounded notClosing

theorem firstfitFree_eq :
    ∃ following rest,
      dropFree after = ⟨following, true⟩ :: rest ∧
        Represents (setFree heap.memory chunk) (before ++ ⟨chunk, false⟩ :: after) ∧
        Represents (mergeNext (setFree heap.memory chunk) chunk).1
          (before ++ ⟨chunk, false⟩ :: ⟨following, true⟩ :: rest) ∧
        firstfitFree heap (chunk + 12) =
          { heap with
            memory := (mergePrev (mergeNext (setFree heap.memory chunk) chunk).1 chunk following).1
            current := (mergePrev (mergeNext (setFree heap.memory chunk) chunk).1 chunk following).2
            nFree := wrap32 (heap.nFree + 1) } := by
  have member : (⟨chunk, true⟩ : Block) ∈ before ++ ⟨chunk, true⟩ :: after := by simp
  have chunkGrid : chunk % 16 = 4 := tiling.onGrid _ member
  have chunkBound : chunk ≤ closing := tiling.addr_le_closing member
  have freed : Represents (setFree heap.memory chunk) (before ++ ⟨chunk, false⟩ :: after) :=
    represents.mark tiling.toOrdered fun other grid => header_marked chunkGrid grid false
  obtain ⟨following, rest, dropped, followingEq, joined⟩ :=
    mergeNext_represents freed tiling notClosing
  refine ⟨following, rest, dropped, freed, joined, ?_⟩
  simp [firstfitFree, sub32_chunkSize (show chunk + 28 ≤ _ by omega), represents.checkSum member,
    followingEq]

theorem firstfitFree_represents :
    Represents (firstfitFree heap (chunk + 12)).memory (release before chunk after) ∧
      (firstfitFree heap (chunk + 12)).current ∈ Layout.addrs (release before chunk after) := by
  obtain ⟨following, rest, dropped, _, joined, freeEq⟩ :=
    firstfitFree_eq represents tiling bounded notClosing
  obtain ⟨_, _, droppedAgain, ordered, _⟩ := tiling.releaseRight notClosing
  rw [dropped, List.cons.injEq, Block.mk.injEq] at droppedAgain
  obtain ⟨⟨rfl, _⟩, rfl⟩ := droppedAgain
  obtain ⟨_, rfl, merged, onChain⟩ := mergePrev_represents joined ordered
  rw [freeEq, release, dropped]
  exact ⟨merged, onChain⟩

end

end Cosec.Mem.HeapOperations
