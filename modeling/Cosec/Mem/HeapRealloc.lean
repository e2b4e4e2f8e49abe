import Cosec.Mem.HeapRuns

/-!
# Reallocation on the first-fit heap

`firstfit_realloc` rounds the requested size up to the alignment and puts the
header of a carved chunk right behind that many data bytes.  Data starts
twelve bytes behind a grid address, so every call that carves a chunk leaves
the grid, and pointers handed out from that chunk are not aligned.

A call that `CarvesNothing` returns the block as it is or moves it to another
free chunk.  Runs of such calls keep the chunk list in order.
-/

namespace Cosec.Mem.HeapRealloc

open Lib.Transition Lib.Word32 Mem.BlockLayout Mem.FirstFit Mem.HeapOperations Mem.HeapRuns

/-! ## Runs with reallocation -/

inductive ReallocCall where
  | heap (call : HeapCall)
  | realloc (allocation : Allocation) (size : UInt32)

/-- The calls of `HeapStep` and `firstfit_realloc` of a live pointer. -/
inductive ReallocStep : HeapRun → ReallocCall → HeapRun → Prop where
  | heap {run target : HeapRun} {call : HeapCall}
      (taken : HeapStep run call target) :
      ReallocStep run (.heap call) target
  | refused {run : HeapRun} {allocation : Allocation} {size : UInt32}
      {heap : Heap}
      (held : allocation ∈ run.live)
      (returned : firstfitRealloc run.heap allocation.pointer size.toNat = some (0, heap)) :
      ReallocStep run (.realloc allocation size) ⟨heap, forget run.live allocation.pointer⟩
  | granted {run : HeapRun} {allocation : Allocation} {size : UInt32}
      {pointer : Nat} {heap : Heap}
      (held : allocation ∈ run.live)
      (returned : firstfitRealloc run.heap allocation.pointer size.toNat = some (pointer, heap))
      (nonNull : pointer ≠ 0) :
      ReallocStep run (.realloc allocation size)
        ⟨heap, ⟨pointer, size.toNat⟩ :: forget run.live allocation.pointer⟩

/-- The runs of malloc, free, realloc and client writes. -/
def reallocSystem (region : HeapRegion) : System HeapRun ReallocCall where
  start := (heapSystem region).start
  step := ReallocStep

/--
The chunk list is in order and every pointer handed out is a multiple of
sixteen.
-/
def InOrder (run : HeapRun) : Prop :=
  (∃ chunks, ChunkList run.heap chunks) ∧ ∀ allocation ∈ run.live, allocation.pointer % 16 = 0

/-! ## Calls that carve nothing -/

/-- Some chunk behind the cursor is free and holds the bytes asked for. -/
def HasRoom (heap : Heap) (size : Nat) : Prop :=
  0 < size ∧ size ≤ intMax ∧
    ∃ steps, fits heap.memory size ((next heap.memory)^[steps] heap.current) = true

/--
The requested size rounds up without wrapping, and either the block is less
than a header longer than the rounded size, so it is returned as it is, or
the rounded size exceeds the block, the next chunk cannot take the
difference, and another chunk has room.
-/
def CarvesNothing (run : HeapRun) : ReallocCall → Prop
  | .heap _ => True
  | .realloc allocation size =>
    let chunk := sub32 allocation.pointer chunkSize
    let thisSize := getSize run.heap.memory chunk
    let nextChunk := next run.heap.memory chunk
    let alignedSize := aligned size.toNat
    size.toNat ≤ alignedSize ∧
      ((alignedSize < thisSize ∧ thisSize ≤ alignedSize + chunkSize) ∨
        (thisSize ≤ alignedSize ∧
          (isUsed run.heap.memory nextChunk = true ∨
            getSize run.heap.memory nextChunk < alignedSize - thisSize) ∧
          HasRoom run.heap size.toNat))

variable {region : HeapRegion} {run : HeapRun} {layout : Layout}

/-- Rounded sizes are multiples of sixteen below the end of memory. -/
theorem aligned_grid (size : UInt32) :
    aligned size.toNat % 16 = 0 ∧ aligned size.toNat + 16 ≤ 4294967296 := by
  have bound := size.toNat_lt
  unfold aligned align wrap32
  split <;> omega

/-- A call in the first case of `CarvesNothing` returns the block. -/
theorem firstfitRealloc_inPlace {heap : Heap} {pointer size : Nat} (nonNull : pointer ≠ 0)
    (small : aligned size + 16 ≤ 4294967296)
    (shrinks : aligned size < getSize heap.memory (sub32 pointer chunkSize))
    (tight : getSize heap.memory (sub32 pointer chunkSize) ≤ aligned size + chunkSize) :
    firstfitRealloc heap pointer size = some (pointer, heap) := by
  have exact12 : wrap32 (aligned size + chunkSize) = aligned size + chunkSize :=
    wrap32_of_lt (by unfold chunkSize; omega)
  simp only [firstfitRealloc]
  rw [if_neg nonNull, if_pos shrinks, exact12, if_pos tight]

/-- A call in the second case of `CarvesNothing` moves the block. -/
theorem firstfitRealloc_moves {heap grown : Heap} {pointer size moved : Nat} (nonNull : pointer ≠ 0)
    (small : aligned size + 16 ≤ 4294967296)
    (grows : getSize heap.memory (sub32 pointer chunkSize) ≤ aligned size)
    (blocked :
      isUsed heap.memory (next heap.memory (sub32 pointer chunkSize)) = true ∨
        getSize heap.memory (next heap.memory (sub32 pointer chunkSize)) <
          aligned size - getSize heap.memory (sub32 pointer chunkSize))
    (returned : firstfitMalloc heap size = some (moved, grown)) (different : moved ≠ pointer) :
    firstfitRealloc heap pointer size =
      some
        (moved,
          firstfitFree
            { grown with
              memory :=
                memcpyWords grown.memory moved pointer
                  (getSize heap.memory (sub32 pointer chunkSize) / 4) }
            pointer) := by
  have difference := sub32_of_le grows (by omega)
  have noMerge :
      ¬ ((!isUsed heap.memory (next heap.memory (sub32 pointer chunkSize))) = true ∧
          sub32 (aligned size) (getSize heap.memory (sub32 pointer chunkSize)) ≤
            getSize heap.memory (next heap.memory (sub32 pointer chunkSize))) := by
    rw [difference]
    rcases blocked with used | tooSmall
    · simp [used]
    · exact fun both => absurd both.2 (not_le.mpr tooSmall)
  simp only [firstfitRealloc]
  rw [if_neg nonNull, if_neg (not_lt.mpr grows), if_neg noMerge, returned]
  simp only [if_neg different]

/-- A chunk in use, its successor and its size. -/
structure LiveChunk (memory : Memory) (pointer chunk following : Nat) : Prop where
  pointerEq : pointer = chunk + 12
  chunkEq : sub32 pointer chunkSize = chunk
  toFollowing : next memory chunk = following
  sized : getSize memory chunk = following - chunk - 12
  chunkGrid : chunk % 16 = 4
  followingGrid : following % 16 = 4
  spaced : chunk + 16 ≤ following
  bounded : following + 28 ≤ 4294967296

section Invariant

variable {size : UInt32} (invariant : HeapInvariant region run layout)

include invariant

/-- The chunks met from the cursor on belong to the layout. -/
theorem cursor_iterate_mem (steps : Nat) :
    (next run.heap.memory)^[steps] run.heap.current ∈ Layout.addrs layout := by
  induction steps with
  | zero => exact invariant.cursor
  | succ steps ih =>
    rw [Function.iterate_succ_apply']
    exact (invariant.represents.ring.neighbours_mem ih).1

/-- Copying words into the data of one block keeps the invariant. -/
theorem heapInvariant_memcpy {chunk source count : Nat} (grid : chunk % 16 = 4)
    (notClosing : chunk < heapEnd (region.startmem + region.size))
    (beforeNext : ∀ block ∈ layout, chunk < block.addr → chunk + 12 + 4 * count ≤ block.addr) :
    HeapInvariant region
      { run with
        heap :=
          { run.heap with
            memory := memcpyWords run.heap.memory (chunk + 12) source count } }
      layout := by
  induction count with
  | zero => exact invariant
  | succ count ih =>
    have earlier := ih fun block member above => by
        have beyond := beforeNext block member above
        omega
    obtain ⟨bounded, _, _⟩ := region.limits
    have belowClosing := beforeNext _ invariant.tiling.closing_mem notClosing
    simp only at belowClosing
    have addrEq : wrap32 (chunk + 12 + 4 * count) = chunk + 12 + 4 * count :=
      wrap32_of_lt (by omega)
    simp only [memcpyWords, addrEq]
    apply earlier.store
    · omega
    · exact Nat.le_add_right _ _
    · intro block member above
      have beyond := beforeNext block member above
      omega

variable {allocation : Allocation} (held : allocation ∈ run.live)

include held

theorem live_neighbours :
    ∃ before chunk following after,
      layout = before ++ ⟨chunk, true⟩ :: following :: after ∧
        LiveChunk run.heap.memory allocation.pointer chunk following.addr := by
  obtain ⟨chunk, pointerEq, notClosing, used, _⟩ := invariant.accounts.backed allocation held
  obtain ⟨before, following, after, rfl⟩ := invariant.tiling.exists_successor used notClosing
  obtain ⟨spaced, bounded, sized⟩ := invariant.sized
  simp only at spaced sized
  exact ⟨before, chunk, following, after, rfl,
    { pointerEq := pointerEq
      chunkEq := by rw [pointerEq, sub32_chunkSize (by omega)]
      toFollowing := invariant.represents.neighbours.1
      sized := sized
      chunkGrid := invariant.tiling.onGrid _ used
      followingGrid := invariant.tiling.onGrid following (by simp)
      spaced := spaced
      bounded := bounded }⟩

theorem copied_invariant {size taken : Nat}
    (grows : getSize run.heap.memory (sub32 allocation.pointer chunkSize) ≤ aligned size)
    (signed : size ≤ intMax) (takenGrid : taken % 16 = 4)
    (granted :
      firstfitMalloc run.heap size = some (taken + 12, allocateChunk run.heap size taken)) :
    ∃ edited,
      HeapInvariant region
          ⟨{ allocateChunk run.heap size taken with
              memory :=
                memcpyWords (allocateChunk run.heap size taken).memory
                  (taken + 12) allocation.pointer
                  (getSize run.heap.memory (sub32 allocation.pointer chunkSize) / 4) },
            ⟨taken + 12, size⟩ :: run.live⟩
          edited ∧
        ∀ block ∈ edited, taken < block.addr →
          taken + 12 + getSize run.heap.memory (sub32 allocation.pointer chunkSize) ≤
            block.addr := by
  obtain ⟨_, chunk, following, _, _, _, chunkEq, _, sized, chunkGrid, followingGrid, spaced, _⟩ :=
    live_neighbours invariant held
  rw [chunkEq, sized] at grows ⊢
  have roundBounds : size ≤ aligned size ∧ aligned size < size + 16 ∧ aligned size % 16 = 0 :=
    aligned_spec (by unfold intMax at signed; omega)
  rcases invariant.malloc granted with ⟨null, _⟩ | ⟨_, edited, grown⟩
  · omega
  · obtain ⟨fresh, freshEq, notClosing, freshUsed, ends⟩ :=
      grown.accounts.backed ⟨taken + 12, size⟩ (by simp)
    have freshTaken : fresh = taken := by
      simp only at freshEq
      omega
    subst freshTaken
    have belowClosing := grown.tiling.addr_le_closing freshUsed
    simp only at belowClosing
    have roomy :
        ∀ block ∈ edited, fresh < block.addr →
          fresh + 12 + (following.addr - chunk - 12) ≤ block.addr := by
      intro block member above
      have beyond := ends block member above
      have blockGrid := grown.tiling.onGrid block member
      simp only at beyond
      omega
    refine ⟨edited, ?_, roomy⟩
    refine heapInvariant_memcpy grown takenGrid (by omega) ?_
    intro block member above
    have beyond := roomy block member above
    omega

theorem realloc_moves_invariant
    (grows : getSize run.heap.memory (sub32 allocation.pointer chunkSize) ≤ aligned size.toNat)
    (blocked :
      isUsed run.heap.memory (next run.heap.memory (sub32 allocation.pointer chunkSize)) = true ∨
        getSize run.heap.memory (next run.heap.memory (sub32 allocation.pointer chunkSize)) <
          aligned size.toNat - getSize run.heap.memory (sub32 allocation.pointer chunkSize))
    (room : HasRoom run.heap size.toNat) :
    ∃ pointer heap edited,
      firstfitRealloc run.heap allocation.pointer size.toNat = some (pointer, heap) ∧ pointer ≠ 0 ∧
        HeapInvariant region ⟨heap, ⟨pointer, size.toNat⟩ :: forget run.live allocation.pointer⟩
          edited := by
  obtain ⟨chunk, pointerEq, _⟩ := invariant.accounts.backed allocation held
  obtain ⟨positive, signed, steps, fitting⟩ := room
  obtain ⟨before, taken, limit, after, split, _, granted⟩ :=
    invariant.granted (cursor_iterate_mem invariant steps) fitting positive signed
  have takenFree : (⟨taken, false⟩ : Block) ∈ layout := by
    rw [split]
    simp
  have takenGrid : taken % 16 = 4 := invariant.tiling.onGrid _ takenFree
  have different := (live_ne_free invariant held takenFree).symm
  obtain ⟨edited, copied, _⟩ := copied_invariant invariant held grows signed takenGrid granted
  have stillHeld : allocation ∈ (⟨taken + 12, size.toNat⟩ :: run.live : List Allocation) :=
    List.mem_cons_of_mem _ held
  obtain ⟨released, freed⟩ := copied.free stillHeld
  have kept :
      forget (⟨taken + 12, size.toNat⟩ :: run.live) allocation.pointer =
        ⟨taken + 12, size.toNat⟩ :: forget run.live allocation.pointer := by
    simp [forget, different]
  have moved :=
    firstfitRealloc_moves (by omega) (aligned_grid size).2 grows blocked granted different
  rw [kept] at freed
  exact ⟨taken + 12, _, released, moved, by omega, freed⟩

theorem realloc_succeeds (permitted : CarvesNothing run (.realloc allocation size)) :
    ∃ pointer heap edited,
      firstfitRealloc run.heap allocation.pointer size.toNat = some (pointer, heap) ∧ pointer ≠ 0 ∧
        HeapInvariant region ⟨heap, ⟨pointer, size.toNat⟩ :: forget run.live allocation.pointer⟩
          edited := by
  obtain ⟨chunk, pointerEq, _⟩ := invariant.accounts.backed allocation held
  have nonNull : allocation.pointer ≠ 0 := by omega
  obtain ⟨noWrap, ⟨shrinks, tight⟩ | ⟨grows, blocked, room⟩⟩ := permitted
  · refine ⟨allocation.pointer, run.heap, layout,
      firstfitRealloc_inPlace nonNull (aligned_grid size).2 shrinks tight, nonNull,
      { invariant with accounts := invariant.accounts.resize held ?_ }⟩
    -- the block holds the new size
    obtain ⟨before, chunk, following, after, rfl, live⟩ := live_neighbours invariant held
    have pointerEq := live.pointerEq
    rw [live.chunkEq, live.sized] at shrinks
    intro other member above
    rcases invariant.tiling.neighbours_adjacent member with below | beyond
    · simp only at below
      omega
    · omega
  · exact realloc_moves_invariant invariant held grows blocked room

end Invariant

theorem realloc_step_consistent
    {source target : HeapRun} {call : ReallocCall} (consistent : Consistent region source)
    (permitted : CarvesNothing source call) (taken : ReallocStep source call target) :
    Consistent region target := by
  obtain ⟨layout, invariant⟩ := consistent
  cases taken with
  | heap taken => exact heapInvariant_step invariant taken
  | refused held returned =>
    obtain ⟨pointer, heap, edited, succeeded, nonNull, _⟩ :=
      realloc_succeeds invariant held permitted
    rw [succeeded, Option.some.injEq, Prod.mk.injEq] at returned
    exact absurd returned.1 nonNull
  | granted held returned nonNull =>
    obtain ⟨pointer, heap, edited, succeeded, _, kept⟩ :=
      realloc_succeeds invariant held permitted
    rw [succeeded, Option.some.injEq, Prod.mk.injEq] at returned
    obtain ⟨rfl, rfl⟩ := returned
    exact ⟨edited, kept⟩

theorem inOrder_of_consistent (consistent : Consistent region run) : InOrder run := by
  obtain ⟨layout, invariant⟩ := consistent
  refine ⟨⟨_, invariant.chunkList⟩, ?_⟩
  intro allocation held
  exact live_aligned invariant held

/--
In every run whose reallocations carve nothing, the chunk list stays in order
and every pointer handed out is aligned.
-/
theorem realloc_runs_keep_chunk_list (region : HeapRegion) (run : HeapRun)
    (reached : (reallocSystem region).Reached CarvesNothing run) : InOrder run := by
  apply inOrder_of_consistent
  refine System.Reached.invariant ?_ ?_ reached
  · rintro state ⟨memory, heap, created, rfl⟩
    exact ⟨_, heapInvariant_new created⟩
  · intro source call target consistent permitted taken
    exact realloc_step_consistent consistent permitted taken

theorem reached_of_heap_reached (reached : (heapSystem region).Reached unrestricted run) :
    (reallocSystem region).Reached CarvesNothing run := by
  induction reached with
  | start initial => exact .start initial
  | @step source target call earlier permitted taken ih =>
    have carvesNothing : CarvesNothing source (.heap call) := trivial
    exact .step ih carvesNothing (.heap taken)

theorem realloc_runs_keep_chunk_list_sample : InOrder ⟨sampleTaken, [⟨4128, 10⟩]⟩ := by
  have sizes :
      aligned 10 < getSize sampleTaken.memory 4116 ∧
        getSize sampleTaken.memory 4116 ≤ aligned 10 + chunkSize := by
    decide +kernel
  have permitted : CarvesNothing ⟨sampleTaken, [⟨4128, 5⟩]⟩ (.realloc ⟨4128, 5⟩ 10) :=
    ⟨by decide, Or.inl sizes⟩
  have returned : firstfitRealloc sampleTaken 4128 (10 : UInt32).toNat = some (4128, sampleTaken) :=
    firstfitRealloc_inPlace (by decide) (by decide) sizes.1 sizes.2
  have granted :
      ReallocStep ⟨sampleTaken, [⟨4128, 5⟩]⟩ (.realloc ⟨4128, 5⟩ 10)
        ⟨sampleTaken, ⟨4128, 10⟩ :: forget [⟨4128, 5⟩] 4128⟩ :=
    .granted (by simp) returned (by decide)
  exact realloc_runs_keep_chunk_list sampleRegion _
    (.step (reached_of_heap_reached sampleTaken_reached) permitted granted)

/-- The small heap after a request that takes its whole first chunk. -/
def sampleWhole : Heap := ((firstfitMalloc sampleHeap 50).get (by decide +kernel)).2

/-- The small heap after that block was shrunk to ten bytes. -/
def sampleShrunk : Heap := ((firstfitRealloc sampleWhole 4128 10).get (by decide +kernel)).2

theorem sampleShrunk_reached :
    (reallocSystem sampleRegion).Reached unrestricted ⟨sampleShrunk, [⟨4128, 10⟩]⟩ := by
  have wholeReturned : firstfitMalloc sampleHeap (50 : UInt32).toNat = some (4128, sampleWhole) :=
    eq_some_of_get (by decide +kernel) (by decide +kernel)
  have shrunkReturned :
      firstfitRealloc sampleWhole 4128 (10 : UInt32).toNat = some (4128, sampleShrunk) :=
    eq_some_of_get (by decide +kernel) (by decide +kernel)
  have taken : HeapStep ⟨sampleHeap, []⟩ (.malloc 50) ⟨sampleWhole, [⟨4128, 50⟩]⟩ :=
    .granted wholeReturned (by decide)
  have shrunk :
      ReallocStep ⟨sampleWhole, [⟨4128, 50⟩]⟩ (.realloc ⟨4128, 50⟩ 10)
        ⟨sampleShrunk, ⟨4128, 10⟩ :: forget [⟨4128, 50⟩] 4128⟩ :=
    .granted (by simp) shrunkReturned (by decide)
  exact .step (.step (.start ⟨_, _, sampleHeap_created, rfl⟩) trivial (.heap taken)) trivial shrunk

/--
Shrinking a block of 52 bytes to ten carves a chunk at a multiple of sixteen,
so the chunk list of the reached state is not in order.
-/
theorem realloc_runs_leave_grid :
    ¬ ∀ (region : HeapRegion) (run : HeapRun),
      (reallocSystem region).Reached unrestricted run → InOrder run := by
  intro always
  obtain ⟨⟨chunks, list⟩, _⟩ := always sampleRegion _ sampleShrunk_reached
  have second := (list.linked.neighbours_mem (List.mem_of_head? list.starts)).1
  have grid := list.onGrid _ second
  revert grid
  decide

end Cosec.Mem.HeapRealloc
