import Cosec.Mem.HeapFrames
import Cosec.Mem.HeapRealloc

/-!
# The block a reallocation returns

`firstfit_realloc` rounds the requested size up to a multiple of sixteen in
thirty-two bits.  As long as that does not wrap, each of its branches returns
a usable block: large enough, with the old bytes, and with no byte of another
block.  A size within sixteen bytes of the end of the address space rounds to
zero, and the call shrinks the block instead.
-/

namespace Cosec.Mem.ReallocBlocks

open Lib.Transition Lib.Word32 Mem.BlockLayout Mem.FirstFit Mem.HeapFrames Mem.HeapOperations
open Mem.HeapRealloc Mem.HeapRuns

/-! ## What a caller may rely on -/

/-- The number of bytes `firstfit_realloc` copies. -/
def reallocCopied (heap : Heap) (pointer size : Nat) : Nat :=
  let chunk := sub32 pointer chunkSize
  let thisSize := getSize heap.memory chunk
  let nextChunk := next heap.memory chunk
  if aligned size < thisSize then
    0
  else if !isUsed heap.memory nextChunk ∧
      sub32 (aligned size) thisSize ≤ getSize heap.memory nextChunk then
    0
  else
    thisSize

/--
The block at `moved` holds `size` bytes and all that was copied, starts with
the bytes of the old block, and every other live block is what it was.
-/
structure Usable (run : HeapRun) (pointer size moved : Nat) (heap : Heap) : Prop where
  large : size ≤ getSize heap.memory (sub32 moved chunkSize)
  content :
    ∀ offset, offset < getSize run.heap.memory (sub32 pointer chunkSize) →
      offset < size →
        byteAt heap.memory (moved + offset) = byteAt run.heap.memory (pointer + offset)
  copied : reallocCopied run.heap pointer size ≤ getSize heap.memory (sub32 moved chunkSize)
  others :
    ∀ other ∈ run.live,
      other.pointer ≠ pointer → BlockKept run.heap.memory heap.memory other.pointer

/-- The call returns, and a block it returns is usable. -/
def ReallocUsable (run : HeapRun) (pointer size : Nat) : Prop :=
  ∃ moved heap,
    firstfitRealloc run.heap pointer size = some (moved, heap) ∧
      (moved ≠ 0 → Usable run pointer size moved heap)

variable {dest source addr : Nat} {memory : Memory}

/-- A copy writes its destination only. -/
theorem memcpyWords_outside {count : Nat}
    (bounded : dest + 4 * count ≤ 4294967296) (away : addr < dest ∨ dest + 4 * count ≤ addr) :
    memcpyWords memory dest source count addr = memory addr := by
  induction count with
  | zero => rfl
  | succ count ih =>
    simp only [memcpyWords]
    rw [wrap32_of_lt (by omega), store_other (by omega)]
    exact ih (by omega) (by omega)

/-- A copy between separate places carries every word over. -/
theorem memcpyWords_word {count index : Nat}
    (destBounded : dest + 4 * count ≤ 4294967296) (sourceBounded : source + 4 * count ≤ 4294967296)
    (apart : source + 4 * count ≤ dest ∨ dest + 4 * count ≤ source) (inside : index < count) :
    memcpyWords memory dest source count (dest + 4 * index) = memory (source + 4 * index) := by
  induction count with
  | zero => omega
  | succ count ih =>
    simp only [memcpyWords]
    rw [wrap32_of_lt (by omega), wrap32_of_lt (by omega)]
    rcases eq_or_ne index count with rfl | earlier
    · rw [store, if_pos rfl]
      exact memcpyWords_outside (by omega) (by omega)
    · rw [store_other (by omega)]
      exact ih (by omega) (by omega) (by omega) (by omega)

/-- Bytes at aligned places agree when their words do. -/
theorem byteAt_of_words {memory' : Memory} {offset : Nat} (destAligned : dest % 4 = 0)
    (sourceAligned : source % 4 = 0)
    (words : memory' (dest + 4 * (offset / 4)) = memory (source + 4 * (offset / 4))) :
    byteAt memory' (dest + offset) = byteAt memory (source + offset) := by
  have destWord : dest + offset - (dest + offset) % 4 = dest + 4 * (offset / 4) := by omega
  have sourceWord : source + offset - (source + offset) % 4 = source + 4 * (offset / 4) := by omega
  have sameByte : (dest + offset) % 4 = (source + offset) % 4 := by omega
  unfold byteAt
  rw [destWord, sourceWord, sameByte, words]

variable {region : HeapRegion} {run : HeapRun} {layout : Layout} {allocation : Allocation}

theorem free_neighbour (invariant : HeapInvariant region run layout) (free : ⟨addr, false⟩ ∈ layout)
    : ∃ third,
      next run.heap.memory addr = third ∧ getSize run.heap.memory addr = third - addr - 12 ∧
        third % 16 = 4 ∧ addr + 16 ≤ third ∧ third + 28 ≤ 4294967296 ∧
        ∀ other ∈ run.live,
          blockLimit run.heap.memory other.pointer ≤ addr ∨ third + 12 ≤ other.pointer := by
  obtain ⟨before, third, after, rfl⟩ := invariant.tiling.free_successor free
  obtain ⟨spaced, _, sized⟩ := invariant.sized
  obtain ⟨toThird, _, thirdGrid, thirdBound⟩ := granted_bounds invariant
  refine ⟨third, toThird, sized, thirdGrid, spaced, thirdBound, ?_⟩
  intro other held
  exact block_beside invariant held (live_ne_free invariant held free)

section Carve

variable {memory : Memory} {chunk newChunk following : Nat}

theorem carveChunk_outside (chunkOutside : Outside chunk addr) (newOutside : Outside newChunk addr)
    (followingOutside : Outside following addr) :
    carveChunk memory chunk newChunk following addr = memory addr := by
  unfold carveChunk
  rw [setChunk_outside newOutside, setPrev_outside followingOutside, setNext_outside chunkOutside]

theorem next_setNext : next (setNext memory chunk newChunk) chunk = newChunk := by
  simp only [next, setNext]
  split
  · simp [setUsed, store]
  · simp [setFree, store]

end Carve

theorem getSize_carveChunk {chunk rounded limit : Nat} (room : chunk + 12 + rounded + 12 ≤ limit)
    (bounded : limit < 4294967296) :
    getSize (carveChunk memory chunk (chunk + 12 + rounded) limit) chunk = rounded := by
  have distance : sub32 (chunk + 12 + rounded) chunk = 12 + rounded := by
    rw [sub32_of_le (by omega) (by omega)]
    omega
  have carved :
      next (carveChunk memory chunk (chunk + 12 + rounded) limit) chunk = chunk + 12 + rounded := by
    unfold carveChunk next
    rw [setChunk_outside (Or.inl (by omega)), setPrev_outside (Or.inl (by omega))]
    exact next_setNext
  unfold getSize chunkSize
  rw [carved, distance, sub32_of_le (by omega) (by omega)]
  omega

/--
A chunk cut at a rounded size is cut in front of the next used chunk, and no
other live block lies between the two.
-/
structure Carved
    (run : HeapRun) (chunk rounded limit : Nat) (moved : Nat) (heap : Heap) : Prop where
  pointer : moved = chunk + 12
  memory : heap.memory = carveChunk run.heap.memory chunk (chunk + 12 + rounded) limit
  room : chunk + 12 + rounded + 12 ≤ limit
  bounded : limit < 4294967296
  beside :
    ∀ other ∈ run.live, other.pointer ≠ chunk + 12 →
      other.pointer % 4 = 0 ∧
        (blockLimit run.heap.memory other.pointer ≤ chunk ∨ limit + 12 ≤ other.pointer)

variable {heap : Heap} {size : Nat}

/-- A block cut off behind at least `size` bytes stays usable. -/
theorem Carved.usable
    {chunk rounded limit moved : Nat} (carved : Carved run chunk rounded limit moved heap)
    (chunkAligned : chunk % 4 = 0) (chunkEq : sub32 (chunk + 12) chunkSize = chunk)
    (covers : size ≤ rounded) (noCopy : reallocCopied run.heap (chunk + 12) size = 0) :
    Usable run (chunk + 12) size moved heap := by
  obtain ⟨rfl, written, room, bounded, beside⟩ := carved
  have sized : getSize heap.memory chunk = rounded := by
    rw [written]
    exact getSize_carveChunk room bounded
  constructor
  · rw [chunkEq, sized]
    exact covers
  · intro offset _ inSize
    apply byteAt_of_words
    · omega
    · omega
    · rw [written]
      apply carveChunk_outside <;> unfold Outside <;> omega
  · rw [noCopy]
    exact Nat.zero_le _
  · intro other held different
    obtain ⟨otherAligned, away⟩ := beside other held different
    apply blockKept_of_words otherAligned
    intro addr fromPointer belowLimit
    rw [written]
    apply carveChunk_outside <;> unfold Outside <;> omega

/-- Sizes that round up without wrapping. -/
theorem aligned_of_le (small : size ≤ 4294967280) :
    size ≤ aligned size ∧ aligned size < size + 16 ∧
      aligned size % 16 = 0 ∧ aligned size ≤ 4294967280 := by
  unfold aligned align wrap32
  split <;> omega

/-- The heap after the request and the copy of a call that moves. -/
def movedHeap (heap : Heap) (pointer size taken : Nat) : Heap :=
  { allocateChunk heap size taken with
    memory :=
      memcpyWords (allocateChunk heap size taken).memory (taken + 12) pointer
        (getSize heap.memory (sub32 pointer chunkSize) / 4) }

section Moved

variable {before after : Layout} {taken limit size : Nat}
  (invariant : HeapInvariant region run (before ++ ⟨taken, false⟩ :: ⟨limit, true⟩ :: after))
  (held : allocation ∈ run.live) (room : taken + 12 + size ≤ limit)
variable
  (granted : firstfitMalloc run.heap size = some (taken + 12, allocateChunk run.heap size taken))
variable (signed : size ≤ intMax)
  (grows : getSize run.heap.memory (sub32 allocation.pointer chunkSize) ≤ aligned size)

include invariant held granted signed grows

/-- The new block holds the bytes asked for and the bytes copied. -/
theorem movedHeap_invariant :
    ∃ edited,
      HeapInvariant region
        ⟨movedHeap run.heap allocation.pointer size taken,
          ⟨taken + 12, max size (getSize run.heap.memory (sub32 allocation.pointer chunkSize))⟩ ::
            run.live⟩ edited := by
  have takenFree :
      (⟨taken, false⟩ : Block) ∈ before ++ ⟨taken, false⟩ :: ⟨limit, true⟩ :: after := by
    simp
  obtain ⟨edited, copied, ends⟩ :=
    copied_invariant invariant held grows signed (invariant.tiling.onGrid _ takenFree) granted
  have fresh : forget (⟨taken + 12, size⟩ :: run.live) (taken + 12) = run.live := by
    simp only [forget, ne_eq, not_true_eq_false, decide_false,
      Bool.false_eq_true, not_false_eq_true, List.filter_cons_of_neg]
    apply List.filter_eq_self.mpr
    intro other otherHeld
    simpa using live_ne_free invariant otherHeld takenFree
  obtain ⟨chunk, chunkEq, _, _, sizeEnds⟩ := copied.accounts.backed ⟨taken + 12, size⟩ (by simp)
  have sameChunk : chunk = taken := by
    simp only at chunkEq
    omega
  subst sameChunk
  have resized :=
    @Accounts.resize _ _ _ (max size (getSize run.heap.memory (sub32 allocation.pointer chunkSize)))
      ⟨chunk + 12, size⟩ copied.accounts (by simp) (by
        intro block member above
        have bytesEnd := ends block member (by simpa using above)
        have sizeEnd := sizeEnds block member (by simpa using above)
        simp only at bytesEnd sizeEnd ⊢
        omega)
  rw [fresh] at resized
  exact ⟨edited, { copied with accounts := resized }⟩

include room

/-- The live blocks keep their ends and lie beside what is written. -/
theorem moved_beside {other : Allocation} (otherHeld : other ∈ run.live) :
    blockLimit (movedHeap run.heap allocation.pointer size taken).memory other.pointer =
        blockLimit run.heap.memory other.pointer ∧
      (blockLimit run.heap.memory other.pointer ≤ taken ∨
        taken + 12 + getSize run.heap.memory (sub32 allocation.pointer chunkSize) + 12 ≤
          other.pointer) := by
  obtain ⟨edited, copied⟩ := movedHeap_invariant invariant held granted signed grows
  obtain ⟨bounded, _, _⟩ := region.limits
  obtain ⟨own, ownLimit, ownEq, _, ownRoom, _, ownBound, ownMember,
    ownBeside⟩ := copied.block List.mem_cons_self
  obtain ⟨chunk, chunkLimit, pointerEq, limitEq, _, _, chunkBound, member, beside⟩ :=
    copied.block (List.mem_cons_of_mem _ otherHeld)
  have apart := ownBeside _ member
  have ownApart := beside _ ownMember
  have different := live_ne_free invariant otherHeld (show (⟨taken, false⟩ : Block) ∈ _ by simp)
  simp only at ownEq ownRoom apart ownApart limitEq
  have sameLimit :
      blockLimit (movedHeap run.heap allocation.pointer size taken).memory other.pointer =
        blockLimit run.heap.memory other.pointer := by
    rw [← granted_limit invariant room otherHeld]
    apply blockLimit_congr
    rw [pointerEq, sub32_chunkSize (by omega), next, next]
    exact memcpyWords_outside (by omega) (by omega)
  exact ⟨sameLimit, by omega⟩

theorem moved_words {other : Allocation} (otherHeld : other ∈ run.live)
    (fromPointer : other.pointer ≤ addr)
    (belowLimit : addr < blockLimit run.heap.memory other.pointer) :
    (firstfitFree (movedHeap run.heap allocation.pointer size taken)
        allocation.pointer).memory addr = run.heap.memory addr := by
  obtain ⟨edited, copied⟩ := movedHeap_invariant invariant held granted signed grows
  obtain ⟨bounded, _, _⟩ := region.limits
  obtain ⟨own, ownLimit, ownEq, _, ownRoom, _, ownBound, _⟩ := copied.block List.mem_cons_self
  obtain ⟨sameLimit, beside⟩ := moved_beside invariant held room granted signed grows otherHeld
  simp only at ownEq ownRoom
  have belowMoved :
      addr <
        blockLimit (movedHeap run.heap allocation.pointer size taken).memory other.pointer := by
    rw [sameLimit]
    exact belowLimit
  have kept :=
    freed_words copied (List.mem_cons_of_mem _ held) (List.mem_cons_of_mem _ otherHeld) fromPointer belowMoved
  calc (firstfitFree (movedHeap run.heap allocation.pointer size taken)
        allocation.pointer).memory addr
      = (movedHeap run.heap allocation.pointer size taken).memory addr := kept
    _ = (allocateChunk run.heap size taken).memory addr := by
        exact memcpyWords_outside (by omega) (by omega)
    _ = run.heap.memory addr := granted_words invariant room otherHeld fromPointer belowLimit

/-- The words of the moved block arrive in the new one. -/
theorem moved_content {index : Nat}
    (inside : index < getSize run.heap.memory (sub32 allocation.pointer chunkSize) / 4) :
    (firstfitFree (movedHeap run.heap allocation.pointer size taken)
        allocation.pointer).memory (taken + 12 + 4 * index) =
      run.heap.memory (allocation.pointer + 4 * index) := by
  obtain ⟨edited, copied⟩ := movedHeap_invariant invariant held granted signed grows
  obtain ⟨bounded, _, _⟩ := region.limits
  obtain ⟨own, ownLimit, ownEq, limitEq, ownRoom, _, ownBound, _⟩ := copied.block List.mem_cons_self
  obtain ⟨_, beside⟩ := moved_beside invariant held room granted signed grows held
  obtain ⟨_, oldLimit, _, oldEq, _, _, oldBound, _⟩ := invariant.block held
  have oldSize :
      blockLimit run.heap.memory allocation.pointer =
        allocation.pointer + getSize run.heap.memory (sub32 allocation.pointer chunkSize) :=
    rfl
  simp only at ownEq limitEq ownRoom
  have kept :=
    freed_words copied (List.mem_cons_of_mem _ held)
      List.mem_cons_self (Nat.le_add_right (taken + 12) (4 * index)) (by simp only [limitEq]; omega)
  calc (firstfitFree (movedHeap run.heap allocation.pointer size taken)
        allocation.pointer).memory (taken + 12 + 4 * index)
      = (movedHeap run.heap allocation.pointer size taken).memory (taken + 12 + 4 * index) := kept
    _ = (allocateChunk run.heap size taken).memory (allocation.pointer + 4 * index) := by
        exact memcpyWords_word (by omega) (by omega) (by omega) inside
    _ = run.heap.memory (allocation.pointer + 4 * index) :=
        granted_words invariant room held (Nat.le_add_right _ _) (by omega)

theorem moved_usable :
    Usable run allocation.pointer size (taken + 12)
      (firstfitFree (movedHeap run.heap allocation.pointer size taken) allocation.pointer) := by
  obtain ⟨edited, copied⟩ := movedHeap_invariant invariant held granted signed grows
  obtain ⟨_, chunk, following, _, _, pointerEq, chunkEq, _, sized,
    chunkGrid, followingGrid, _⟩ := live_neighbours invariant held
  have takenGrid : taken % 16 = 4 := invariant.tiling.onGrid ⟨taken, false⟩ (by simp)
  have different := live_ne_free invariant held (show (⟨taken, false⟩ : Block) ∈ _ by simp)
  obtain ⟨released, freed⟩ := copied.free (List.mem_cons_of_mem _ held)
  obtain ⟨_, _, _, limitEq, ownRoom, _⟩ :=
    freed.block (mem_forget.mpr ⟨List.mem_cons_self, different.symm⟩)
  simp only [blockLimit] at limitEq ownRoom
  have copiedBound :
      reallocCopied run.heap allocation.pointer size ≤
        getSize run.heap.memory (sub32 allocation.pointer chunkSize) := by
    simp only [reallocCopied]
    split_ifs <;> omega
  constructor
  · omega
  · intro offset inOld _
    rw [chunkEq, sized] at inOld
    apply byteAt_of_words
    · omega
    · omega
    · apply moved_content invariant held room granted signed grows
      rw [chunkEq, sized]
      omega
  · omega
  · intro other otherHeld _
    have otherAligned := live_aligned invariant otherHeld
    refine blockKept_of_words (by omega) ?_
    intro addr fromPointer belowLimit
    exact moved_words invariant held room granted signed grows otherHeld fromPointer belowLimit

end Moved

/-! ## Every call -/

theorem live_gap {before after : Layout} {chunk : Nat} {following : Block}
    (invariant : HeapInvariant region run (before ++ ⟨chunk, true⟩ :: following :: after))
    (followingBound : following.addr + 28 ≤ 4294967296) :
    ∃ limit, (if !isUsed run.heap.memory following.addr then
          next run.heap.memory following.addr
        else following.addr) = limit ∧
        (following.used = false →
          getSize run.heap.memory following.addr = limit - following.addr - 12 ∧
            limit % 16 = 4 ∧ following.addr + 16 ≤ limit) ∧
        following.addr ≤ limit ∧ limit + 28 ≤ 4294967296 ∧
        ∀ other ∈ run.live, other.pointer ≠ chunk + 12 →
          other.pointer % 4 = 0 ∧
            (blockLimit run.heap.memory other.pointer ≤ chunk ∨ limit + 12 ≤ other.pointer) := by
  have marked : isUsed run.heap.memory following.addr = following.used :=
    invariant.represents.isUsed (by simp)
  have chunkBeside :
      ∀ other ∈ run.live, other.pointer ≠ chunk + 12 →
        other.pointer % 16 = 0 ∧ other.pointer ≤ blockLimit run.heap.memory other.pointer ∧
          (blockLimit run.heap.memory other.pointer ≤ chunk ∨
            following.addr + 12 ≤ other.pointer) := by
    intro other otherHeld different
    refine ⟨live_aligned invariant otherHeld, ?_, block_beside invariant otherHeld different⟩
    unfold blockLimit
    omega
  rw [marked]
  obtain ⟨addr, used⟩ := following
  cases used with
  | true =>
    refine ⟨addr, by simp, by simp, le_refl _, followingBound, ?_⟩
    intro other otherHeld different
    obtain ⟨otherAligned, _, beside⟩ := chunkBeside other otherHeld different
    exact ⟨by omega, beside⟩
  | false =>
    obtain ⟨third, toThird, sized, thirdGrid, spaced, thirdBound, thirdBeside⟩ :=
      free_neighbour invariant (show (⟨addr, false⟩ : Block) ∈ _ by simp)
    simp only at followingBound chunkBeside ⊢
    refine ⟨third, by simp [toThird], fun _ => ⟨sized, thirdGrid, spaced⟩, by omega, thirdBound, ?_⟩
    intro other otherHeld different
    obtain ⟨otherAligned, ordered, beside⟩ := chunkBeside other otherHeld different
    have beyond := thirdBeside other otherHeld
    omega

section Calls

variable {before after : Layout} {chunk size : Nat} {following : Block}
  (invariant : HeapInvariant region run (before ++ ⟨chunk, true⟩ :: following :: after))
  (placed : LiveChunk run.heap.memory (chunk + 12) chunk following.addr)
  (roundGrid : aligned size % 16 = 0)

include invariant placed roundGrid

/-- A block much longer than the rounded size is cut. -/
theorem shrunk_carved (shrinks : aligned size < getSize run.heap.memory chunk)
    (loose : aligned size + chunkSize < getSize run.heap.memory chunk) :
    ∃ limit moved heap,
      firstfitRealloc run.heap (chunk + 12) size = some (moved, heap) ∧
        Carved run chunk (aligned size) limit moved heap := by
  obtain ⟨_, chunkEq, toFollowing, sized, chunkGrid, followingGrid,
    spaced, followingBound⟩ := placed
  obtain ⟨limit, limitEq, _, behind, bounded, beside⟩ := live_gap invariant followingBound
  have longer : aligned size + 12 < getSize run.heap.memory chunk := loose
  have newEq : wrap32 (chunk + chunkSize + aligned size) = chunk + 12 + aligned size :=
    wrap32_of_lt (by unfold chunkSize; omega)
  have roundEq : wrap32 (aligned size + chunkSize) = aligned size + 12 :=
    wrap32_of_lt (by unfold chunkSize; omega)
  simp only [firstfitRealloc]
  rw [if_neg (by omega), chunkEq, if_pos shrinks, roundEq, if_neg (by omega), newEq, toFollowing,
    limitEq]
  exact ⟨limit, _, _, rfl,
    { pointer := chunkData_of_le (by omega)
      memory := rfl
      room := by omega
      bounded := by omega
      beside := beside }⟩

theorem extended_carved
    (grows : ¬ aligned size < getSize run.heap.memory chunk) (free : following.used = false)
    (roundBound : aligned size < 4294967296)
    (enough :
      sub32 (aligned size) (getSize run.heap.memory chunk) ≤
        getSize run.heap.memory following.addr) :
    ∃ limit moved heap,
      firstfitRealloc run.heap (chunk + 12) size = some (moved, heap) ∧
        Carved run chunk (aligned size) limit moved heap := by
  obtain ⟨_, chunkEq, toFollowing, sized, chunkGrid, followingGrid,
    spaced, followingBound⟩ := placed
  have unmarked := (invariant.represents.isUsed (by simp)).trans free
  obtain ⟨limit, limitEq, thirdFacts, behind, bounded, beside⟩ := live_gap invariant followingBound
  obtain ⟨thirdSize, thirdGrid, thirdSpaced⟩ := thirdFacts free
  rw [unmarked, Bool.not_false, if_pos rfl] at limitEq
  simp only [firstfitRealloc]
  rw [if_neg (by omega), chunkEq, if_neg grows, toFollowing, limitEq,
    if_pos ⟨by simp [unmarked], enough⟩]
  rw [sub32_of_le (by omega) roundBound, thirdSize] at enough
  have newEq : wrap32 (chunk + chunkSize + aligned size) = chunk + 12 + aligned size :=
    wrap32_of_lt (by unfold chunkSize; omega)
  rw [newEq]
  exact ⟨limit, _, _, rfl,
    { pointer := chunkData_of_le (by omega)
      memory := rfl
      room := by omega
      bounded := by omega
      beside := beside }⟩

end Calls

section

variable {before after : Layout} {chunk size : Nat} {following : Block}
  (invariant : HeapInvariant region run (before ++ ⟨chunk, true⟩ :: following :: after))

include invariant

/-- A block longer than the rounded size stays where it is. -/
theorem shrunk_usable (placed : LiveChunk run.heap.memory (chunk + 12) chunk following.addr)
    (small : size ≤ 4294967280) (shrinks : aligned size < getSize run.heap.memory chunk) :
    ReallocUsable run (chunk + 12) size := by
  obtain ⟨covers, _, roundGrid, roundBound⟩ := aligned_of_le small
  have chunkEq := placed.chunkEq
  have chunkGrid := placed.chunkGrid
  by_cases close : getSize run.heap.memory chunk ≤ aligned size + chunkSize
  · refine ⟨_, _, firstfitRealloc_inPlace (by omega) (by omega) ?_ ?_,
      fun _ => ⟨by rw [chunkEq]; omega, fun _ _ _ => rfl, ?_, fun _ _ _ _ _ _ => rfl⟩⟩
    · rw [chunkEq]
      exact shrinks
    · rw [chunkEq]
      exact close
    · simp only [reallocCopied]
      rw [chunkEq, if_pos shrinks]
      exact Nat.zero_le _
  · obtain ⟨limit, moved, heap, returned, carved⟩ :=
      shrunk_carved invariant placed roundGrid shrinks (not_le.mp close)
    refine ⟨moved, heap, returned, fun _ => carved.usable (by omega) chunkEq covers ?_⟩
    simp only [reallocCopied]
    rw [chunkEq, if_pos shrinks]

/-- A block that the next chunk cannot extend moves or is refused. -/
theorem relocated_usable (held : allocation ∈ run.live)
    (placed : LiveChunk run.heap.memory allocation.pointer chunk following.addr)
    (small : size ≤ 4294967280) (grows : getSize run.heap.memory chunk ≤ aligned size)
    (blocked :
      isUsed run.heap.memory following.addr = true ∨
        getSize run.heap.memory following.addr < aligned size - getSize run.heap.memory chunk) :
    ReallocUsable run allocation.pointer size := by
  obtain ⟨_, _, _, roundBound⟩ := aligned_of_le small
  have pointerEq := placed.pointerEq
  rw [← placed.toFollowing, ← placed.chunkEq] at blocked
  rw [← placed.chunkEq] at grows
  rcases invariant.malloc_cases size with
    ⟨refused, _⟩ | ⟨front, taken, limit, back, split, room, granted⟩
  · refine ⟨_, _,
      firstfitRealloc_moves (by omega) (by omega) grows blocked refused
        (by omega), fun nonNull => absurd rfl nonNull⟩
  · have signed := (accepted_of_granted granted (by omega)).2
    rw [split] at invariant
    have different := live_ne_free invariant held (show (⟨taken, false⟩ : Block) ∈ _ by simp)
    exact ⟨_, _, firstfitRealloc_moves (by omega) (by omega) grows blocked granted different.symm,
      fun _ => moved_usable invariant held room granted signed grows⟩

end

/-- A size that rounds up without wrapping gives a usable block. -/
theorem usable_of_le (invariant : HeapInvariant region run layout) (held : allocation ∈ run.live)
    (small : size ≤ 4294967280) : ReallocUsable run allocation.pointer size := by
  obtain ⟨covers, _, roundGrid, roundBound⟩ := aligned_of_le small
  obtain ⟨before, chunk, following, after, rfl, placed⟩ := live_neighbours invariant held
  have marked : isUsed run.heap.memory following.addr = following.used :=
    invariant.represents.isUsed (by simp)
  have pointerEq := placed.pointerEq
  have chunkGrid := placed.chunkGrid
  by_cases shrinks : aligned size < getSize run.heap.memory chunk
  · rw [pointerEq] at placed ⊢
    exact shrunk_usable invariant placed small shrinks
  · by_cases free :
        following.used = false ∧
          sub32 (aligned size) (getSize run.heap.memory chunk) ≤
            getSize run.heap.memory following.addr
    · rw [pointerEq] at placed ⊢
      obtain ⟨limit, moved, heap, returned, carved⟩ :=
        extended_carved invariant placed roundGrid shrinks free.1 (by omega) free.2
      refine ⟨moved, heap, returned, fun _ => carved.usable (by omega) placed.chunkEq covers ?_⟩
      simp only [reallocCopied]
      rw [placed.chunkEq, placed.toFollowing, marked, if_neg shrinks,
        if_pos ⟨by simp [free.1], free.2⟩]
    · apply relocated_usable invariant held placed small (by omega)
      rw [marked]
      rw [sub32_of_le (by omega) (by omega)] at free
      cases used : following.used with
      | true => exact Or.inl rfl
      | false =>
        right
        by_contra enough
        exact free ⟨used, by omega⟩

/-- A size that wraps round to zero leaves a block that is too short. -/
theorem not_usable_of_gt
    (invariant : HeapInvariant region run layout) (held : allocation ∈ run.live)
    (large : 4294967280 < size) (bounded : size < 4294967296) :
    ¬ ReallocUsable run allocation.pointer size := by
  have zero : aligned size = 0 := by
    unfold aligned align wrap32
    split <;> omega
  obtain ⟨before, chunk, following, after, rfl, placed⟩ := live_neighbours invariant held
  have pointerEq := placed.pointerEq
  rw [pointerEq] at placed ⊢
  have chunkEq := placed.chunkEq
  have sized := placed.sized
  have spaced := placed.spaced
  have above := placed.bounded
  rintro ⟨moved, heap, returned, usable⟩
  have shrinks : aligned size < getSize run.heap.memory chunk := by omega
  by_cases close : getSize run.heap.memory chunk ≤ aligned size + chunkSize
  · have kept :=
      @firstfitRealloc_inPlace run.heap (chunk + 12) size (by omega)
        (by omega) (by rw [chunkEq]; exact shrinks) (by rw [chunkEq]; exact close)
    rw [kept, Option.some.injEq, Prod.mk.injEq] at returned
    obtain ⟨rfl, rfl⟩ := returned
    have enough := (usable (by omega)).large
    rw [chunkEq] at enough
    omega
  · obtain ⟨limit, again, same, returnedAgain, carved⟩ :=
      shrunk_carved invariant placed (by omega) shrinks (not_le.mp close)
    rw [returnedAgain, Option.some.injEq, Prod.mk.injEq] at returned
    obtain ⟨rfl, rfl⟩ := returned
    have enough := (usable (by rw [carved.pointer]; omega)).large
    rw [carved.pointer, chunkEq, carved.memory,
      getSize_carveChunk carved.room carved.bounded] at enough
    omega

/--
In every state a run of requests and releases reaches, reallocation of a live
pointer returns, and the block it returns is usable, exactly when the size is
at most `2 ^ 32 - 16`.
-/
theorem realloc_usable_iff
    (region : HeapRegion) (run : HeapRun) (reached : (heapSystem region).Reached unrestricted run)
    (allocation : Allocation) (held : allocation ∈ run.live) (size : UInt32) :
    ReallocUsable run allocation.pointer size.toNat ↔ size.toNat ≤ 4294967280 := by
  obtain ⟨layout, invariant⟩ := consistent_of_reached reached
  constructor
  · intro usable
    by_contra large
    exact not_usable_of_gt invariant held (not_le.mp large) size.toNat_lt usable
  · intro small
    exact usable_of_le invariant held small

theorem realloc_usable_iff_sample : ReallocUsable ⟨sampleTaken, [⟨4128, 5⟩]⟩ 4128 30 := by
  have usable := realloc_usable_iff sampleRegion _ sampleTaken_reached ⟨4128, 5⟩ (by simp) 30
  exact usable.mpr (by decide)

/--
The block at 4128 of the small heap is not usable after a reallocation to
`2 ^ 32 - 1` bytes, which shrinks it.
-/
theorem realloc_wraps_to_zero :
    ¬ ∀ (region : HeapRegion) (run : HeapRun),
      (heapSystem region).Reached unrestricted run →
        ∀ allocation ∈ run.live, ∀ size : UInt32,
          0 < size.toNat → ReallocUsable run allocation.pointer size.toNat := by
  intro always
  have usable :=
    always sampleRegion _ sampleTaken_reached ⟨4128, 5⟩ (by simp) 0xFFFFFFFF (by decide)
  obtain ⟨layout, invariant⟩ := consistent_of_reached sampleTaken_reached
  exact not_usable_of_gt invariant (by simp) (by decide) (by decide) usable

end Cosec.Mem.ReallocBlocks
