import Mathlib.Algebra.Group.Nat.Defs
import Cosec.Mem.HeapRuns

/-!
# What the allocator leaves alone

Every store of the allocator goes to a chunk header, and the data of a live
block lies between two headers of the layout, so `firstfit_malloc` and
`firstfit_free` change no byte of it.

With the search over the ring this gives the complete account of
`firstfit_malloc`: a request is granted exactly when some free chunk holds it.
-/

namespace Cosec.Mem.HeapFrames

open Lib.Transition Lib.Word32 List Mem.BlockLayout Mem.ChunkHeaders Mem.FirstFit Mem.HeapOperations
open Mem.HeapRuns

/-! ## Stores to headers -/

/-- An address that is no part of the header of a chunk. -/
def Outside (chunk addr : Nat) : Prop := addr < chunk ∨ chunk + 12 ≤ addr

variable {addr : Nat} {memory : Memory}

theorem store_other {target value : Nat} (different : addr ≠ target) :
    store memory target value addr = memory addr :=
  if_neg different

section Headers

variable {memory : Memory} {chunk addr : Nat} (outside : Outside chunk addr)

include outside

theorem outside_words : addr ≠ chunk ∧ addr ≠ chunk + 4 ∧ addr ≠ chunk + 8 := by
  unfold Outside at outside
  omega

theorem setUsed_outside : setUsed memory chunk addr = memory addr :=
  store_other (outside_words outside).2.2

theorem setFree_outside : setFree memory chunk addr = memory addr :=
  store_other (outside_words outside).2.2

theorem erase_outside : erase memory chunk addr = memory addr :=
  store_other (outside_words outside).2.2

theorem setPrev_outside (previous : Nat) : setPrev memory chunk previous addr = memory addr :=
  store_other (outside_words outside).2.1

theorem setNext_outside (following : Nat) : setNext memory chunk following addr = memory addr := by
  have linked : store memory chunk following addr = memory addr :=
    store_other (outside_words outside).1
  simp only [setNext]
  split
  · rw [setUsed_outside outside, linked]
  · rw [setFree_outside outside, linked]

theorem setChunk_outside (following previous : Nat) (used : Bool) :
    setChunk memory chunk following previous used addr = memory addr := by
  obtain ⟨notNext, notPrev, _⟩ := outside_words outside
  have linked : store (store memory chunk following) (chunk + 4) previous addr = memory addr := by
    rw [store_other notPrev, store_other notNext]
  simp only [setChunk]
  split
  · rw [setUsed_outside outside, linked]
  · rw [setFree_outside outside, linked]

end Headers

variable {chunk : Nat}

/-- A merge writes the three headers involved. -/
theorem absorb_outside {left middle right : Nat} (leftOutside : Outside left addr)
    (middleOutside : Outside middle addr) (rightOutside : Outside right addr) :
    absorb memory left middle right addr = memory addr := by
  simp only [absorb]
  rw [erase_outside middleOutside, setPrev_outside rightOutside, setNext_outside leftOutside]

variable {heap : Heap} {layout before after : Layout} {first closing : Nat}

section Taken

variable {chunk following size : Nat} (toFollowing : next heap.memory chunk = following)
  (chunkGrid : chunk % 16 = 4) (followingGrid : following % 16 = 4)
  (bounded : following + 28 ≤ 4294967296) (room : chunk + 12 + size ≤ following)

include toFollowing chunkGrid followingGrid bounded room

theorem next_allocateChunk {other : Nat} (otherGrid : other % 16 = 4) (different : other ≠ chunk)
    (apart : other ≤ chunk ∨ following ≤ other) :
    next (allocateChunk heap size chunk).memory other = next heap.memory other := by
  have roundBounds := @aligned_spec (size + 12) (by omega)
  have marked :
      next (setUsed (cutMemory heap.memory size chunk following) chunk) other =
        next (cutMemory heap.memory size chunk following) other :=
    setUsed_outside (by unfold Outside; omega)
  rw [(allocateChunk_eq toFollowing chunkGrid followingGrid bounded room).1, marked, cutMemory]
  split
  · rw [(links_splitChunk chunkGrid (by omega) followingGrid otherGrid
      (by omega) (by omega) (by omega)).1, if_neg different, if_neg (by omega)]
  · rfl

end Taken

theorem firstfitFree_outside
    (represents : Represents heap.memory (before ++ ⟨chunk, true⟩ :: after))
    (tiling : Tiling first closing (before ++ ⟨chunk, true⟩ :: after))
    (bounded : closing + 28 ≤ 4294967296) (notClosing : chunk ≠ closing)
    (outside : ∀ block ∈ Layout.addrs (before ++ ⟨chunk, true⟩ :: after), Outside block addr) :
    (firstfitFree heap (chunk + 12)).memory addr = heap.memory addr := by
  have sameAddrs :
      Layout.addrs (before ++ ⟨chunk, false⟩ :: after) =
        Layout.addrs (before ++ ⟨chunk, true⟩ :: after) := by
    simp
  obtain ⟨following, rest, dropped, freed, joined, freeEq⟩ :=
    firstfitFree_eq represents tiling bounded notClosing
  rw [← dropped] at joined
  have kept :
      ∀ block ∈ Layout.addrs (before ++ ⟨chunk, false⟩ :: dropFree after), Outside block addr := by
    intro block member
    apply outside
    rw [Layout.addrs_append, Layout.addrs_cons, mem_append, mem_cons] at member ⊢
    rcases member with inBefore | same | inAfter
    · exact Or.inl inBefore
    · exact Or.inr (Or.inl same)
    · obtain ⟨other, inside, rfl⟩ := mem_map.mp inAfter
      exact Or.inr (Or.inr (Layout.mem_addrs (mem_dropFree inside)))
  have chunkOutside : Outside chunk addr := outside chunk (by simp)
  rw [freeEq]
  calc (mergePrev (mergeNext (setFree heap.memory chunk) chunk).1 chunk following).1 addr
      = (mergeNext (setFree heap.memory chunk) chunk).1 addr := by
        simp only [mergePrev]
        split
        · exact absorb_outside (kept _ (joined.ring.neighbours_mem (by simp)).2)
            (kept _ (by simp)) (kept _ (by simp [dropped]))
        · rfl
    _ = setFree heap.memory chunk addr := by
        have apart := sameAddrs ▸ outside
        have nextMember := (freed.ring.neighbours_mem (show chunk ∈ _ by simp)).1
        simp only [mergeNext]
        split
        · exact absorb_outside chunkOutside (apart _ nextMember)
            (apart _ (freed.ring.neighbours_mem nextMember).1)
        · rfl
    _ = heap.memory addr := setFree_outside chunkOutside

/-! ## The data of live blocks -/

variable {region : HeapRegion} {run : HeapRun}

/-- The byte at an address, of words stored with the low byte first. -/
def byteAt (memory : Memory) (addr : Nat) : Nat := memory (addr - addr % 4) / 256 ^ (addr % 4) % 256

/-- Every byte of the block of a pointer is what it was. -/
def BlockKept (before after : Memory) (pointer : Nat) : Prop :=
  ∀ addr, pointer ≤ addr → addr < blockLimit before pointer → byteAt after addr = byteAt before addr

variable {pointer : Nat}

/-- The end of a block is decided by the link of its chunk. -/
theorem blockLimit_congr {memory' : Memory}
    (linkKept : next memory' (sub32 pointer chunkSize) = next memory (sub32 pointer chunkSize)) :
    blockLimit memory' pointer = blockLimit memory pointer := by
  simp only [blockLimit, getSize, linkKept]

theorem blockKept_of_words {memory' : Memory} (wordAligned : pointer % 4 = 0)
    (words :
      ∀ addr, pointer ≤ addr → addr < blockLimit memory pointer → memory' addr = memory addr) :
    BlockKept memory memory' pointer := by
  intro addr fromPointer belowLimit
  unfold byteAt
  rw [words (addr - addr % 4) (by omega) (by omega)]

variable {allocation : Allocation}

/-- The search test, without the signed comparison. -/
theorem fits_iff_getSize {size : Nat} (invariant : HeapInvariant region run layout)
    (member : chunk ∈ Layout.addrs layout) (signed : size < 2147483648) :
    fits run.heap.memory size chunk = true ↔
      isUsed run.heap.memory chunk = false ∧ size ≤ getSize run.heap.memory chunk := by
  obtain ⟨⟨addr, used⟩, inside, rfl⟩ := mem_map.mp member
  cases used with
  | true =>
    have marked := invariant.represents.isUsed inside
    simp [fits, marked]
  | false =>
    obtain ⟨before, following, after, rfl⟩ := invariant.tiling.free_successor inside
    obtain ⟨spaced, _, sized⟩ := invariant.sized
    rw [invariant.fits_iff signed, sized, invariant.represents.isUsed inside]
    simp only [true_and] at spaced ⊢
    omega

theorem block_beside {left right : Block}
    (invariant : HeapInvariant region run (before ++ left :: right :: after))
    (held : allocation ∈ run.live) (different : allocation.pointer ≠ left.addr + 12) :
    blockLimit run.heap.memory allocation.pointer ≤ left.addr ∨
      right.addr + 12 ≤ allocation.pointer := by
  obtain ⟨chunk, limit, pointerEq, limitEq, _, _, _, member, adjacent⟩ := invariant.block held
  rw [limitEq]
  rcases adjacent left (by simp) with below | above
  · rcases invariant.tiling.neighbours_adjacent member with
      atLeft | beyond
    · simp only at atLeft
      omega
    · right
      simp only at beyond
      omega
  · left
    exact above

section Granted

variable {chunk following size : Nat}
variable
  (invariant : HeapInvariant region run (before ++ ⟨chunk, false⟩ :: ⟨following, true⟩ :: after))
include invariant

theorem granted_bounds :
    next run.heap.memory chunk = following ∧ chunk % 16 = 4 ∧
      following % 16 = 4 ∧ following + 28 ≤ 4294967296 :=
  ⟨invariant.represents.neighbours.1, invariant.tiling.onGrid ⟨chunk, false⟩ (by simp),
    invariant.tiling.onGrid ⟨following, true⟩ (by simp), invariant.sized.2.1⟩

variable (room : chunk + 12 + size ≤ following)

include room

theorem granted_words (held : allocation ∈ run.live) (fromPointer : allocation.pointer ≤ addr)
    (belowLimit : addr < blockLimit run.heap.memory allocation.pointer) :
    (allocateChunk run.heap size chunk).memory addr = run.heap.memory addr := by
  obtain ⟨toFollowing, chunkGrid, followingGrid, bounded⟩ := granted_bounds invariant
  have beside := block_beside invariant held (live_ne_free invariant held (by simp))
  simp only at beside
  have chunkOutside : Outside chunk addr := by
    unfold Outside
    omega
  rw [(allocateChunk_eq toFollowing chunkGrid followingGrid bounded room).1,
    setUsed_outside chunkOutside, cutMemory]
  split
  · simp only [splitChunk]
    rw [setChunk_outside chunkOutside, setChunk_outside, setChunk_outside]
    all_goals
      unfold Outside
      omega
  · rfl

theorem granted_limit (held : allocation ∈ run.live) :
    blockLimit (allocateChunk run.heap size chunk).memory allocation.pointer =
      blockLimit run.heap.memory allocation.pointer := by
  obtain ⟨toFollowing, chunkGrid, followingGrid, bounded⟩ := granted_bounds invariant
  obtain ⟨taken, _, pointerEq, _, _, _, _, member, _⟩ := invariant.block held
  have takenGrid : taken % 16 = 4 := invariant.tiling.onGrid _ member
  have different := live_ne_free invariant held (show (⟨chunk, false⟩ : Block) ∈ _ by simp)
  have apart := invariant.tiling.neighbours_adjacent member
  obtain ⟨closingBound, _, _⟩ := region.limits
  apply blockLimit_congr
  rw [pointerEq, sub32_chunkSize (by omega)]
  exact next_allocateChunk toFollowing chunkGrid followingGrid bounded
    room takenGrid (by omega) apart

theorem granted_kept (held : allocation ∈ run.live) :
    BlockKept run.heap.memory (allocateChunk run.heap size chunk).memory allocation.pointer := by
  have pointerAligned := live_aligned invariant held
  refine blockKept_of_words (by omega) ?_
  intro addr fromPointer belowLimit
  exact granted_words invariant room held fromPointer belowLimit

end Granted

theorem freed_words {other : Allocation} (invariant : HeapInvariant region run layout)
    (held : allocation ∈ run.live) (otherHeld : other ∈ run.live)
    (fromPointer : other.pointer ≤ addr)
    (belowLimit : addr < blockLimit run.heap.memory other.pointer) :
    (firstfitFree run.heap allocation.pointer).memory addr = run.heap.memory addr := by
  obtain ⟨bounded, _, _⟩ := region.limits
  obtain ⟨_, _, _, _, _, _, _, _, adjacent⟩ := invariant.block otherHeld
  obtain ⟨chunk, pointerEq, notClosing, used, _⟩ := invariant.accounts.backed allocation held
  obtain ⟨before, after, rfl⟩ := append_of_mem used
  rw [pointerEq]
  refine firstfitFree_outside invariant.represents invariant.tiling bounded notClosing ?_
  intro block member
  obtain ⟨placed, inside, rfl⟩ := mem_map.mp member
  rcases adjacent placed inside with below | beyond
  · right
    omega
  · left
    omega

/-- Only sizes that are positive signed integers are granted. -/
theorem accepted_of_granted {size : Nat} {grown : Heap}
    (granted : firstfitMalloc heap size = some (pointer, grown)) (nonNull : pointer ≠ 0) :
    0 < size ∧ size ≤ intMax := by
  by_cases outOfRange : size = 0 ∨ intMax < size
  · rw [firstfitMalloc, if_pos outOfRange, Option.some.injEq, Prod.mk.injEq] at granted
    exact absurd granted.1.symm nonNull
  · omega

/--
In every state a run reaches, every request returns; it is granted exactly
when its size is positive, is a signed integer, and some free chunk of the
list holds it.  A refused request leaves the heap as it is, and a granted one
changes no byte of a live block.
-/
theorem malloc_granted_iff
    (region : HeapRegion) (run : HeapRun) (reached : (heapSystem region).Reached unrestricted run) :
    ∃ chunks,
      ChunkList run.heap chunks ∧
        ∀ size : UInt32, ∃ pointer heap,
          firstfitMalloc run.heap size.toNat = some (pointer, heap) ∧
            (pointer ≠ 0 ↔
              0 < size.toNat ∧ size.toNat ≤ intMax ∧
                ∃ chunk ∈ chunks,
                  isUsed run.heap.memory chunk = false ∧
                    size.toNat ≤ getSize run.heap.memory chunk) ∧ (pointer = 0 → heap = run.heap) ∧
            ∀ allocation ∈ run.live, BlockKept run.heap.memory heap.memory allocation.pointer := by
  obtain ⟨layout, invariant⟩ := consistent_of_reached reached
  refine ⟨Layout.addrs layout, invariant.chunkList, ?_⟩
  intro size
  rcases invariant.malloc_cases size.toNat with
    ⟨refused, noneFits⟩ | ⟨before, chunk, following, after, rfl, room, granted⟩
  · refine ⟨0, run.heap, refused, ?_, fun _ => rfl, ?_⟩
    · constructor
      · intro nonNull
        exact absurd rfl nonNull
      · rintro ⟨positive, signed, chunk, member, free, large⟩
        have fitting :=
          (fits_iff_getSize invariant member (by unfold intMax at signed; omega)).mpr ⟨free, large⟩
        rw [noneFits positive signed chunk member] at fitting
        cases fitting
    · intro allocation _ addr _ _
      rfl
  · refine ⟨_, _, granted, ?_, ?_, ?_⟩
    · constructor
      · intro _
        obtain ⟨positive, signed⟩ := accepted_of_granted granted (by omega)
        have spaced := invariant.sized.2.2
        refine ⟨positive, signed, chunk, by simp,
          invariant.represents.isUsed (show (⟨chunk, false⟩ : Block) ∈ _ by simp), ?_⟩
        simp only at spaced
        omega
      · intro _
        omega
    · intro null
      omega
    · intro allocation held
      exact granted_kept invariant room held

theorem malloc_granted_iff_sample :
    ∃ chunks,
      ChunkList sampleTaken chunks ∧
        ∀ size : UInt32, ∃ pointer heap,
          firstfitMalloc sampleTaken size.toNat = some (pointer, heap) ∧
            (pointer ≠ 0 ↔
              0 < size.toNat ∧ size.toNat ≤ intMax ∧
                ∃ chunk ∈ chunks,
                  isUsed sampleTaken.memory chunk = false ∧
                    size.toNat ≤ getSize sampleTaken.memory chunk) := by
  obtain ⟨chunks, list, requests⟩ := malloc_granted_iff sampleRegion _ sampleTaken_reached
  refine ⟨chunks, list, fun size => ?_⟩
  obtain ⟨pointer, heap, returned, granted, _⟩ := requests size
  exact ⟨pointer, heap, returned, granted⟩

end Cosec.Mem.HeapFrames
