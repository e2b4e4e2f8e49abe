import Cosec.Mem.ReallocBlocks

/-!
# Refused reallocations

When a block can neither grow in place nor be moved, the caller of
`firstfit_realloc` should get null and keep the block.  The code takes the
null that `firstfit_malloc` returns for a new block: it copies the old block
to address zero and then frees it.
-/

namespace Cosec.Mem.RefusedRealloc

open Lib.Transition Lib.Word32 Mem.BlockLayout Mem.ChunkHeaders Mem.FirstFit Mem.HeapFrames
open Mem.HeapOperations Mem.HeapRealloc Mem.HeapRuns Mem.ReallocBlocks

/-! ## Requests that cannot be met -/

/-- The size rounded up to the alignment, without wrapping. -/
def roundedUp (size : Nat) : Nat := 16 * ((size + 15) / 16)

/-- Neither the block nor the block with the next chunk holds the size. -/
def CannotGrow (heap : Heap) (pointer size : Nat) : Prop :=
  getSize heap.memory (sub32 pointer chunkSize) ≤ roundedUp size ∧
    (isUsed heap.memory (next heap.memory (sub32 pointer chunkSize)) = true ∨
      getSize heap.memory (sub32 pointer chunkSize) +
          getSize heap.memory (next heap.memory (sub32 pointer chunkSize)) < roundedUp size)

/-- No free chunk is large enough. -/
def NoRoom (heap : Heap) (size : Nat) : Prop :=
  ∀ steps,
    isUsed heap.memory ((next heap.memory)^[steps] heap.current) = true ∨
      getSize heap.memory ((next heap.memory)^[steps] heap.current) < size

/--
The call returns null, copies nothing, and leaves the block in use with its
size and its bytes.
-/
def KeptOnFailure (run : HeapRun) (pointer size : Nat) : Prop :=
  ∃ heap,
    firstfitRealloc run.heap pointer size = some (0, heap) ∧
      reallocCopied run.heap pointer size = 0 ∧
      isUsed heap.memory (sub32 pointer chunkSize) = true ∧
      getSize heap.memory (sub32 pointer chunkSize) =
        getSize run.heap.memory (sub32 pointer chunkSize) ∧
      BlockKept run.heap.memory heap.memory pointer

variable {region : HeapRegion} {run : HeapRun} {layout : Layout} {allocation : Allocation}
  {size : Nat} {heap : Heap}

/-- The search returns a chunk it meets on its way that fits. -/
theorem searchChunk_met
    {fuel chunk found : Nat} (searched : searchChunk heap size fuel chunk = some (some found)) :
    ∃ steps, (next heap.memory)^[steps] chunk = found ∧ fits heap.memory size found = true := by
  induction fuel generalizing chunk with
  | zero => cases searched
  | succ fuel ih =>
    rw [searchChunk] at searched
    split at searched
    · cases searched
      exact ⟨0, rfl, ‹_›⟩
    · dsimp only at searched
      split at searched
      · cases searched
      · split at searched
        · cases searched
        · obtain ⟨steps, met, fitting⟩ := ih searched
          exact ⟨steps + 1, met, fitting⟩

variable {pointer : Nat}

theorem hasRoom_of_granted
    {heap grown : Heap} (granted : firstfitMalloc heap size = some (pointer, grown))
    (nonNull : pointer ≠ 0) : HasRoom heap size := by
  obtain ⟨positive, signed⟩ := accepted_of_granted granted nonNull
  refine ⟨positive, signed, ?_⟩
  rw [firstfitMalloc, if_neg (by omega)] at granted
  cases searched : searchChunk heap size searchFuel heap.current with
  | none => simp [searched] at granted
  | some outcome =>
    cases outcome with
    | none =>
      simp only [searched, Option.some.injEq, Prod.mk.injEq] at granted
      exact absurd granted.1.symm nonNull
    | some found =>
      obtain ⟨steps, rfl, fitting⟩ := searchChunk_met searched
      exact ⟨steps, fitting⟩

theorem malloc_refused
    (invariant : HeapInvariant region run layout) (noRoom : NoRoom run.heap size) :
    firstfitMalloc run.heap size = some (0, run.heap) := by
  rcases invariant.malloc_cases size with
    ⟨refused, _⟩ | ⟨before, chunk, following, after, _, _, granted⟩
  · exact refused
  · obtain ⟨_, signed, steps, fitting⟩ := hasRoom_of_granted granted (by omega)
    unfold intMax at signed
    obtain ⟨free, large⟩ :=
      (fits_iff_getSize invariant (cursor_iterate_mem invariant steps) (by omega)).mp fitting
    rcases noRoom steps with used | short
    · rw [free] at used
      cases used
    · omega

theorem noRoom_of_region_le
    (invariant : HeapInvariant region run layout) (large : region.size ≤ size) :
    NoRoom run.heap size := by
  intro steps
  obtain ⟨⟨addr, used⟩, member, same⟩ := List.mem_map.mp (cursor_iterate_mem invariant steps)
  rw [← same]
  cases used with
  | true => exact Or.inl (invariant.represents.isUsed member)
  | false =>
    right
    obtain ⟨initialEq, closingEq⟩ := region.bounds
    obtain ⟨before, following, after, rfl⟩ := invariant.tiling.free_successor member
    obtain ⟨_, _, sized⟩ := invariant.sized
    have low := invariant.tiling.first_le_addr member
    have high := invariant.tiling.addr_le_closing (show (⟨following, true⟩ : Block) ∈ _ by simp)
    omega

/-- The chunk of a pointer that was freed is not in use. -/
theorem isUsed_firstfitFree {heap : Heap} {before after : Layout} {first closing chunk : Nat}
    (represents : Represents heap.memory (before ++ ⟨chunk, true⟩ :: after))
    (tiling : Tiling first closing (before ++ ⟨chunk, true⟩ :: after))
    (bounded : closing + 28 ≤ 4294967296) (notClosing : chunk ≠ closing) :
    isUsed (firstfitFree heap (chunk + 12)).memory chunk = false := by
  obtain ⟨following, rest, _, _, joined, freeEq⟩ :=
    firstfitFree_eq represents tiling bounded notClosing
  have joinedFree := joined.isUsed (show (⟨chunk, false⟩ : Block) ∈ _ by simp)
  rw [freeEq]
  simp only [mergePrev]
  split
  · -- joined to the chunk in front, whose merge clears this header
    simp [absorb, erase, isUsed, checksum, store, usedBit]
  · exact joinedFree

theorem represents_memcpy_below
    {memory : Memory} {first closing source count : Nat} (represents : Represents memory layout)
    (ordered : Ordered first closing layout) (below : 4 * count ≤ first)
    (bounded : first < 4294967296) : Represents (memcpyWords memory 0 source count) layout := by
  apply represents.congr
  intro block member
  have high := ordered.first_le_addr member
  have kept (addr : Nat) (behind : block.addr ≤ addr) :
      memcpyWords memory 0 source count addr = memory addr :=
    memcpyWords_outside (by omega) (by omega)
  simp only [header, next, prev, checksum]
  rw [kept _ le_rfl, kept _ (Nat.le_add_right _ 4), kept _ (Nat.le_add_right _ 8)]

theorem CannotGrow.blocked (cannotGrow : CannotGrow heap pointer size) :
    isUsed heap.memory (next heap.memory (sub32 pointer chunkSize)) = true ∨
      getSize heap.memory (next heap.memory (sub32 pointer chunkSize)) <
        roundedUp size - getSize heap.memory (sub32 pointer chunkSize) :=
  cannotGrow.2.imp_right fun short => by omega

theorem aligned_eq_roundedUp (small : size ≤ 4294967280) :
    aligned size = roundedUp size ∧ roundedUp size + 16 ≤ 4294967296 := by
  obtain ⟨covers, near, grid, roundBound⟩ := aligned_of_le small
  unfold roundedUp
  omega

theorem reallocCopied_of_cannotGrow
    (small : size ≤ 4294967280) (cannotGrow : CannotGrow heap pointer size) :
    reallocCopied heap pointer size = getSize heap.memory (sub32 pointer chunkSize) := by
  obtain ⟨rounds, bound⟩ := aligned_eq_roundedUp small
  have grows := cannotGrow.1
  have noMerge :
      ¬ ((!isUsed heap.memory (next heap.memory (sub32 pointer chunkSize))) = true ∧
          sub32 (roundedUp size) (getSize heap.memory (sub32 pointer chunkSize)) ≤
            getSize heap.memory (next heap.memory (sub32 pointer chunkSize))) := by
    rw [sub32_of_le grows (by omega)]
    rcases cannotGrow.blocked with used | short
    · simp [used]
    · exact fun both => absurd both.2 (not_le.mpr short)
  simp only [reallocCopied, rounds]
  rw [if_neg (not_lt.mpr grows), if_neg noMerge]

theorem refused_call (invariant : HeapInvariant region run layout) (held : allocation ∈ run.live)
    (small : size ≤ 4294967280) (cannotGrow : CannotGrow run.heap allocation.pointer size)
    (noRoom : NoRoom run.heap size) :
    ∃ heap,
      firstfitRealloc run.heap allocation.pointer size = some (0, heap) ∧
        reallocCopied run.heap allocation.pointer size =
          getSize run.heap.memory (sub32 allocation.pointer chunkSize) ∧
        0 < getSize run.heap.memory (sub32 allocation.pointer chunkSize) ∧
        (getSize run.heap.memory (sub32 allocation.pointer chunkSize) ≤
            initialChunk region.startmem →
          isUsed heap.memory (sub32 allocation.pointer chunkSize) = false) := by
  obtain ⟨regionBound, _, ordered⟩ := region.limits
  obtain ⟨rounds, bound⟩ := aligned_eq_roundedUp small
  have copies := reallocCopied_of_cannotGrow small cannotGrow
  have blocked := cannotGrow.blocked
  have grows := cannotGrow.1
  rw [← rounds] at grows blocked bound
  obtain ⟨before, chunk, following, after, rfl, placed⟩ := live_neighbours invariant held
  have pointerEq := placed.pointerEq
  have chunkEq := placed.chunkEq
  have sized := placed.sized
  have spaced := placed.spaced
  have returned :=
    firstfitRealloc_moves (by omega) bound grows blocked
      (malloc_refused invariant noRoom) (by omega)
  refine ⟨_, returned, copies, by rw [chunkEq]; omega, ?_⟩
  intro below
  have followingMember : following ∈ before ++ ⟨chunk, true⟩ :: following :: after := by simp
  have high := invariant.tiling.addr_le_closing followingMember
  have copied :=
    @represents_memcpy_below _ _ _ _ allocation.pointer
      (getSize run.heap.memory (sub32 allocation.pointer chunkSize) / 4)
      invariant.represents invariant.tiling.toOrdered (by omega) (by omega)
  have freed :=
    @isUsed_firstfitFree
      { run.heap with
        memory :=
          memcpyWords run.heap.memory 0 allocation.pointer
            (getSize run.heap.memory (sub32 allocation.pointer chunkSize) / 4) }
      _ _ _ _ _ copied invariant.tiling regionBound (by omega)
  rw [← pointerEq] at freed
  rwa [chunkEq] at freed ⊢

theorem not_kept_of_refused
    (invariant : HeapInvariant region run layout) (held : allocation ∈ run.live)
    (bounded : size < 4294967296) (cannotGrow : CannotGrow run.heap allocation.pointer size)
    (noRoom : NoRoom run.heap size) : ¬ KeptOnFailure run allocation.pointer size := by
  rintro ⟨heap, returned, nothing, _⟩
  by_cases small : size ≤ 4294967280
  · obtain ⟨_, _, copied, positive, _⟩ := refused_call invariant held small cannotGrow noRoom
    omega
  · -- a size that rounds to zero shrinks the block and never gives null
    exact not_usable_of_gt invariant held (not_le.mp small) bounded
      ⟨0, heap, returned, fun nonNull => absurd rfl nonNull⟩

/--
A reallocation that cannot be met never leaves the block as it was.  For
every size that rounds up without wrapping it returns null, writes as many
bytes as the block has from address zero on, and, where these lie below the
heap, frees the block.
-/
theorem refused_realloc_iff
    (region : HeapRegion) (run : HeapRun) (reached : (heapSystem region).Reached unrestricted run)
    (allocation : Allocation) (held : allocation ∈ run.live) (size : UInt32) :
    ((CannotGrow run.heap allocation.pointer size.toNat →
        NoRoom run.heap size.toNat → KeptOnFailure run allocation.pointer size.toNat) ↔
      ¬ (CannotGrow run.heap allocation.pointer size.toNat ∧ NoRoom run.heap size.toNat)) ∧
      (CannotGrow run.heap allocation.pointer size.toNat → NoRoom run.heap size.toNat →
        size.toNat ≤ 4294967280 →
          ∃ heap,
            firstfitRealloc run.heap allocation.pointer size.toNat = some (0, heap) ∧
              reallocCopied run.heap allocation.pointer size.toNat =
                getSize run.heap.memory (sub32 allocation.pointer chunkSize) ∧
              0 < getSize run.heap.memory (sub32 allocation.pointer chunkSize) ∧
              (getSize run.heap.memory (sub32 allocation.pointer chunkSize) ≤
                  initialChunk region.startmem →
                isUsed heap.memory (sub32 allocation.pointer chunkSize) = false)) := by
  obtain ⟨layout, invariant⟩ := consistent_of_reached reached
  refine ⟨⟨?_, ?_⟩, ?_⟩
  · rintro kept ⟨cannotGrow, noRoom⟩
    exact not_kept_of_refused invariant held size.toNat_lt cannotGrow
      noRoom (kept cannotGrow noRoom)
  · intro possible cannotGrow noRoom
    exact absurd ⟨cannotGrow, noRoom⟩ possible
  · intro cannotGrow noRoom small
    exact refused_call invariant held small cannotGrow noRoom

/-- A request for 1000 bytes cannot be met by the small heap. -/
theorem sampleTaken_cannotGrow : CannotGrow sampleTaken 4128 1000 := by
  unfold CannotGrow
  decide

theorem sampleTaken_noRoom : NoRoom sampleTaken 1000 := by
  obtain ⟨layout, invariant⟩ := consistent_of_reached sampleTaken_reached
  exact noRoom_of_region_le invariant (by decide)

theorem refused_realloc_iff_sample :
    ∃ heap,
      firstfitRealloc sampleTaken 4128 1000 = some (0, heap) ∧
        reallocCopied sampleTaken 4128 1000 = 20 ∧ isUsed heap.memory 4116 = false := by
  obtain ⟨heap, returned, copied, _, freed⟩ :=
    (refused_realloc_iff sampleRegion _ sampleTaken_reached ⟨4128, 5⟩
      (by simp) 1000).2 sampleTaken_cannotGrow sampleTaken_noRoom (by decide)
  have sized : getSize sampleTaken.memory (sub32 4128 chunkSize) = 20 := by decide
  exact ⟨heap, returned, copied.trans sized, freed (by decide)⟩

/-- The block at 4128 of the small heap is not kept. -/
theorem refused_realloc_frees_block :
    ¬ ∀ (region : HeapRegion) (run : HeapRun),
      (heapSystem region).Reached unrestricted run →
        ∀ allocation ∈ run.live, ∀ size : UInt32,
          CannotGrow run.heap allocation.pointer size.toNat →
            NoRoom run.heap size.toNat → KeptOnFailure run allocation.pointer size.toNat := by
  intro always
  obtain ⟨layout, invariant⟩ := consistent_of_reached sampleTaken_reached
  have held : (⟨4128, 5⟩ : Allocation) ∈ [(⟨4128, 5⟩ : Allocation)] := by simp
  have kept :=
    always sampleRegion _ sampleTaken_reached ⟨4128, 5⟩ held 1000
      sampleTaken_cannotGrow sampleTaken_noRoom
  exact not_kept_of_refused invariant held (by decide)
    sampleTaken_cannotGrow sampleTaken_noRoom kept

end Cosec.Mem.RefusedRealloc
