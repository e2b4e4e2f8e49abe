import Cosec.Lib.Transition
import Cosec.Mem.HeapOperations

/-!
# Runs of the first-fit heap

A run starts from `firstfit_new` on a region and takes any sequence of
`firstfit_malloc` calls, `firstfit_free` calls on live pointers and writes of
the clients into their own blocks.

`ChunkList` is the invariant of the chunk list in the words of the source and
`LiveBlocks` what the clients rely on.  By `HeapInvariant` memory represents
a tiling of the area that accounts for exactly the live pointers.
-/

namespace Cosec.Mem.HeapRuns

open Lib.LinkedRing Lib.Transition Lib.Word32 Mem.BlockLayout Mem.ChunkHeaders Mem.FirstFit
open Mem.HeapOperations

/-! ## Regions and runs -/

/--
A region for `firstfit_new`: aligned, of at least 48 bytes and at most 2 GiB,
and not wrapping around the address space.
-/
structure HeapRegion where
  startmem : Nat
  size : Nat
  alignedStart : startmem % 16 = 0
  atLeast : 48 ≤ size
  below : size ≤ 2147483648
  noWrap : startmem + size < 4294967296

/-- The heap together with the allocations its clients hold. -/
structure HeapRun where
  heap : Heap
  live : List Allocation

inductive HeapCall where
  | malloc (size : UInt32)
  | free (allocation : Allocation)
  | write (allocation : Allocation) (addr value : Nat)

/-- A call and its effect on the heap and on the allocations held. -/
inductive HeapStep : HeapRun → HeapCall → HeapRun → Prop where
  | refused {run : HeapRun} {size : UInt32} {heap : Heap}
      (returned : firstfitMalloc run.heap size.toNat = some (0, heap)) :
      HeapStep run (.malloc size) { run with heap := heap }
  | granted {run : HeapRun} {size : UInt32} {pointer : Nat} {heap : Heap}
      (returned : firstfitMalloc run.heap size.toNat = some (pointer, heap))
      (nonNull : pointer ≠ 0) :
      HeapStep run (.malloc size) ⟨heap, ⟨pointer, size.toNat⟩ :: run.live⟩
  | freed {run : HeapRun} {allocation : Allocation}
      (held : allocation ∈ run.live) :
      HeapStep run (.free allocation)
        ⟨firstfitFree run.heap allocation.pointer, forget run.live allocation.pointer⟩
  | written {run : HeapRun} {allocation : Allocation} {addr value : Nat}
      (held : allocation ∈ run.live)
      (word : addr % 4 = 0)
      (fromStart : allocation.pointer ≤ addr)
      (beforeEnd : addr < allocation.pointer + allocation.size) :
      HeapStep run (.write allocation addr value)
        { run with
          heap := { run.heap with memory := store run.heap.memory addr value } }

/-- The runs that start right after `firstfit_new`. -/
def heapSystem (region : HeapRegion) : System HeapRun HeapCall where
  start run :=
    ∃ memory heap, firstfitNew memory region.startmem region.size = some heap ∧ run = ⟨heap, []⟩
  step := HeapStep

/--
The chunks are linked in increasing address order from the initial chunk to
the closing one and back, with valid checksums, on the grid, and without two
free neighbours; the closing chunk is used and the cursor is on the chain.
-/
structure ChunkList (heap : Heap) (chunks : List Nat) : Prop where
  starts : chunks.head? = some (initialChunk heap.startmem)
  ends : chunks.getLast? = some (heapEnd heap.endmem)
  increasing : chunks.Pairwise (· < ·)
  linked : Circular (next heap.memory) (prev heap.memory) chunks
  summed : ∀ chunk ∈ chunks, checkSum heap.memory chunk = true
  onGrid : ∀ chunk ∈ chunks, chunk % 16 = 4
  apart : chunks.IsChain fun left right =>
      isUsed heap.memory left = true ∨ isUsed heap.memory right = true
  endUsed : isUsed heap.memory (heapEnd heap.endmem) = true
  cursor : heap.current ∈ chunks

/-- The first byte behind the block a pointer stands for. -/
def blockLimit (memory : Memory) (pointer : Nat) : Nat :=
  pointer + getSize memory (sub32 pointer chunkSize)

/--
Live blocks hold the bytes asked for, lie inside the heap, and do not
overlap.
-/
structure LiveBlocks (heap : Heap) (live : List Allocation) : Prop where
  large :
    ∀ allocation ∈ live,
      allocation.pointer + allocation.size ≤ blockLimit heap.memory allocation.pointer
  inside :
    ∀ allocation ∈ live,
      heap.startmem ≤ allocation.pointer ∧ blockLimit heap.memory allocation.pointer ≤ heap.endmem
  disjoint : live.Pairwise fun left right =>
      blockLimit heap.memory left.pointer ≤ right.pointer ∨
        blockLimit heap.memory right.pointer ≤ left.pointer

/-! ## The inductive invariant -/

/-- Where a region puts its first and its closing chunk. -/
theorem HeapRegion.bounds (region : HeapRegion) :
    initialChunk region.startmem = region.startmem + 20 ∧
      heapEnd (region.startmem + region.size) + 12 =
        16 * ((region.startmem + region.size) / 16) := by
  have alignedStart := region.alignedStart
  have atLeast := region.atLeast
  have noWrap := region.noWrap
  constructor
  · unfold initialChunk allocSize chunkSize
    rw [wrap32_of_lt (by omega), aligned, align, if_pos (by omega),
      sub32_of_le (by omega) (by omega)]
    omega
  · unfold heapEnd align chunkSize
    rw [sub32_of_le (by omega) (by omega)]
    omega

/--
Memory represents a tiling of the area in which exactly the live pointers
are in use.
-/
structure HeapInvariant (region : HeapRegion) (run : HeapRun) (layout : Layout) : Prop where
  startKept : run.heap.startmem = region.startmem
  endKept : run.heap.endmem = region.startmem + region.size
  represents : Represents run.heap.memory layout
  tiling : Tiling (initialChunk region.startmem) (heapEnd (region.startmem + region.size)) layout
  accounts : Accounts (heapEnd (region.startmem + region.size)) layout run.live
  cursor : run.heap.current ∈ Layout.addrs layout

/-- The chunks of a region stay clear of the end of the address space. -/
theorem HeapRegion.limits (region : HeapRegion) :
    heapEnd (region.startmem + region.size) + 28 ≤ 4294967296 ∧
      heapEnd (region.startmem + region.size) < initialChunk region.startmem + 2147483648 ∧
      initialChunk region.startmem < heapEnd (region.startmem + region.size) := by
  obtain ⟨initialEq, closingEq⟩ := region.bounds
  have atLeast := region.atLeast
  have below := region.below
  have noWrap := region.noWrap
  omega

variable {region : HeapRegion} {run : HeapRun} {layout before after : Layout} {left right : Block}
  {memory : Memory} {heap : Heap}

/-- The size of a chunk is the distance to its successor. -/
theorem HeapInvariant.sized
    (invariant : HeapInvariant region run (before ++ left :: right :: after)) :
    left.addr + 16 ≤ right.addr ∧ right.addr + 28 ≤ 4294967296 ∧
      getSize run.heap.memory left.addr = right.addr - left.addr - 12 := by
  obtain ⟨bounded, _, _⟩ := region.limits
  obtain ⟨_, leftRight, _⟩ := invariant.tiling.around
  have leftGrid := invariant.tiling.onGrid left (by simp)
  have rightGrid := invariant.tiling.onGrid right (by simp)
  have rightBound : right.addr ≤ _ := invariant.tiling.addr_le_closing (by simp)
  refine ⟨by omega, by omega, ?_⟩
  have distance : sub32 right.addr left.addr = right.addr - left.addr :=
    sub32_of_le (by omega) (by omega)
  unfold getSize chunkSize
  rw [invariant.represents.neighbours.1, distance, sub32_of_le (by omega) (by omega)]

variable {size : Nat}

/-- A block that fits is free and holds the bytes asked for. -/
theorem HeapInvariant.fits_iff
    (invariant : HeapInvariant region run (before ++ left :: right :: after))
    (signed : size < 2147483648) :
    fits run.heap.memory size left.addr = true ↔
      left.used = false ∧ left.addr + 12 + size ≤ right.addr := by
  obtain ⟨_, narrow, _⟩ := region.limits
  obtain ⟨spaced, _, sized⟩ := invariant.sized
  have leftBound : _ ≤ left.addr := invariant.tiling.first_le_addr (by simp)
  have rightBound : right.addr ≤ _ := invariant.tiling.addr_le_closing (by simp)
  unfold fits
  rw [invariant.represents.isUsed (by simp), sized, asInt32_of_lt signed, asInt32_of_lt (by omega)]
  simp only [Bool.and_eq_true, Bool.not_eq_true', decide_eq_true_eq]
  exact and_congr_right fun _ => by omega

theorem firstfitNew_chunks {startmem : Nat} (created : firstfitNew memory startmem size = some heap)
    (noWrap : startmem + size < 4294967296) (initialGrid : initialChunk startmem % 16 = 4)
    (closingGrid : heapEnd (startmem + size) % 16 = 4)
    (apart : initialChunk startmem ≠ heapEnd (startmem + size)) :
    header heap.memory (initialChunk startmem) =
        ⟨heapEnd (startmem + size), heapEnd (startmem + size),
          markedSum (initialChunk startmem) (heapEnd (startmem + size)) false⟩ ∧
      header heap.memory (heapEnd (startmem + size)) =
        ⟨initialChunk startmem, initialChunk startmem,
          markedSum (heapEnd (startmem + size)) (initialChunk startmem) true⟩ ∧
      heap.startmem = startmem ∧ heap.endmem = startmem + size ∧
      heap.current = initialChunk startmem := by
  have endEq : wrap32 (size + startmem) = startmem + size := by
    rw [Nat.add_comm, wrap32_of_lt noWrap]
  unfold firstfitNew at created
  split at created
  · cases created
  · rw [Option.some.injEq] at created
    subst created
    simp only [endEq]
    refine ⟨?_, ?_, trivial, trivial, trivial⟩
    · rw [header_setChunk closingGrid initialGrid, if_neg apart,
        header_setChunk initialGrid initialGrid, if_pos rfl]
    · rw [header_setChunk closingGrid closingGrid, if_pos rfl]

theorem heapInvariant_new (created : firstfitNew memory region.startmem region.size = some heap) :
    HeapInvariant region ⟨heap, []⟩
      [⟨initialChunk region.startmem, false⟩, ⟨heapEnd (region.startmem + region.size), true⟩] := by
  obtain ⟨initialEq, closingEq⟩ := region.bounds
  obtain ⟨_, _, apart⟩ := region.limits
  have alignedStart := region.alignedStart
  obtain ⟨initialHeader, closingHeader, startKept, endKept, cursor⟩ :=
    firstfitNew_chunks created region.noWrap (by omega) (by omega) (ne_of_lt apart)
  refine ⟨startKept, endKept, ⟨?_, ?_⟩, ⟨⟨?_, ?_, rfl, rfl⟩, ?_⟩, ?_, ?_⟩
  · refine ⟨by simp [Layout.addrs], ?_⟩
    refine List.isChain_cons_cons.mpr ⟨?_, List.isChain_pair.mpr ?_⟩
    · exact ⟨congrArg Header.next initialHeader, congrArg Header.prev closingHeader⟩
    · exact ⟨congrArg Header.next closingHeader, congrArg Header.prev initialHeader⟩
  · rw [header, Header.mk.injEq] at initialHeader closingHeader
    simp [initialHeader, closingHeader]
  · simpa using apart
  · simp only [List.forall_mem_cons, List.not_mem_nil, false_implies, implies_true, and_true]
    omega
  · exact List.isChain_pair.mpr (Or.inr rfl)
  · refine ⟨List.nodup_nil, fun _ none_ => absurd none_ List.not_mem_nil, ?_⟩
    intro addr notClosing used
    simp [notClosing] at used
  · simp [cursor]

@[simp]
theorem firstfitFree_startmem (heap : Heap) (pointer : Nat) :
    (firstfitFree heap pointer).startmem = heap.startmem := by
  simp only [firstfitFree]
  split_ifs <;> rfl

@[simp]
theorem firstfitFree_endmem (heap : Heap) (pointer : Nat) :
    (firstfitFree heap pointer).endmem = heap.endmem := by
  simp only [firstfitFree]
  split_ifs <;> rfl

section Invariant

variable (invariant : HeapInvariant region run layout)

include invariant

theorem HeapInvariant.malloc_cases (size : Nat) :
    (firstfitMalloc run.heap size = some (0, run.heap) ∧
        (0 < size → size ≤ intMax →
          ∀ addr ∈ Layout.addrs layout, fits run.heap.memory size addr = false)) ∨
      ∃ before chunk following after,
        layout = before ++ ⟨chunk, false⟩ :: ⟨following, true⟩ :: after ∧
          chunk + 12 + size ≤ following ∧
          firstfitMalloc run.heap size = some (chunk + 12, allocateChunk run.heap size chunk) := by
  obtain ⟨bounded, _, _⟩ := region.limits
  unfold firstfitMalloc
  by_cases refused : size = 0 ∨ intMax < size
  · left
    rw [if_pos refused]
    exact ⟨rfl, by omega⟩
  · rw [if_neg refused]
    obtain ⟨path, samePath, searched⟩ :=
      searchChunk_of_represents invariant.represents invariant.tiling.toOrdered
        (by unfold searchFuel; omega) invariant.cursor size
    rw [searched]
    cases found : path.find? (fits run.heap.memory size) with
    | none =>
      left
      refine ⟨rfl, fun _ _ addr member => ?_⟩
      have misfit := List.find?_eq_none.mp found addr ((samePath addr).mpr member)
      simpa using misfit
    | some chunk =>
      right
      have fitting := List.find?_some found
      obtain ⟨⟨chunk, used⟩, member, rfl⟩ :=
        List.mem_map.mp ((samePath chunk).mp (List.mem_of_find?_eq_some found))
      have unmarked : isUsed run.heap.memory chunk = false := by
        simp only [fits, Bool.and_eq_true, Bool.not_eq_true'] at fitting
        exact fitting.1
      rw [invariant.represents.isUsed member] at unmarked
      obtain rfl : used = false := unmarked
      obtain ⟨before, following, after, rfl⟩ := invariant.tiling.free_successor member
      have room := (invariant.fits_iff (by unfold intMax at refused; omega)).mp fitting
      obtain ⟨_, below, _⟩ := invariant.sized
      have dataEq : chunkData chunk = chunk + 12 :=
        chunkData_of_le (by simp only at room below; omega)
      refine ⟨before, chunk, following, after, rfl, room.2, ?_⟩
      simp only [dataEq]

theorem HeapInvariant.granted {chunk : Nat} (member : chunk ∈ Layout.addrs layout)
    (fitting : fits run.heap.memory size chunk = true) (positive : 0 < size)
    (signed : size ≤ intMax) :
    ∃ before taken following after,
      layout = before ++ ⟨taken, false⟩ :: ⟨following, true⟩ :: after ∧
        taken + 12 + size ≤ following ∧
        firstfitMalloc run.heap size = some (taken + 12, allocateChunk run.heap size taken) := by
  rcases invariant.malloc_cases size with ⟨_, noneFits⟩ | granted
  · have misfit := noneFits positive signed chunk member
    rw [fitting] at misfit
    cases misfit
  · exact granted

/-- A successful `firstfit_malloc` takes a block of the layout. -/
theorem HeapInvariant.malloc {pointer : Nat}
    (returned : firstfitMalloc run.heap size = some (pointer, heap)) :
    (pointer = 0 ∧ heap = run.heap) ∨
      (pointer ≠ 0 ∧ ∃ taken, HeapInvariant region ⟨heap, ⟨pointer, size⟩ :: run.live⟩ taken) := by
  obtain ⟨bounded, _, _⟩ := region.limits
  rcases invariant.malloc_cases size with
    ⟨refused, _⟩ | ⟨before, chunk, following, after, rfl, room, granted⟩
  · rw [refused, Option.some.injEq, Prod.mk.injEq] at returned
    exact Or.inl ⟨returned.1.symm, returned.2.symm⟩
  · rw [granted, Option.some.injEq, Prod.mk.injEq] at returned
    obtain ⟨rfl, rfl⟩ := returned
    obtain ⟨taken, represents, tiling, cursor, accounts⟩ :=
      allocateChunk_represents invariant.represents invariant.tiling bounded room
    exact Or.inr ⟨by omega, taken,
      { startKept := invariant.startKept
        endKept := invariant.endKept
        represents := represents
        tiling := tiling
        accounts := accounts run.live invariant.accounts
        cursor := cursor }⟩

variable {allocation : Allocation}

theorem HeapInvariant.free (held : allocation ∈ run.live) :
    ∃ released,
      HeapInvariant region
        ⟨firstfitFree run.heap allocation.pointer,
          forget run.live allocation.pointer⟩ released := by
  obtain ⟨bounded, _, _⟩ := region.limits
  obtain ⟨addr, pointerEq, notClosing, used, _⟩ := invariant.accounts.backed allocation held
  obtain ⟨before, after, rfl⟩ := List.append_of_mem used
  obtain ⟨represents, cursor⟩ :=
    firstfitFree_represents invariant.represents invariant.tiling bounded notClosing
  rw [pointerEq]
  exact ⟨release before addr after,
    { startKept := by simp [invariant.startKept]
      endKept := by simp [invariant.endKept]
      represents := represents
      tiling := invariant.tiling.release notClosing
      accounts := invariant.accounts.release invariant.tiling
      cursor := cursor }⟩

theorem HeapInvariant.store {chunk addr value : Nat} (word : addr % 4 = 0)
    (behindHeader : chunk + 12 ≤ addr)
    (beforeNext : ∀ block ∈ layout, chunk < block.addr → addr < block.addr) :
    HeapInvariant region
      { run with
        heap := { run.heap with memory := store run.heap.memory addr value } }
      layout := by
  have kept (block : Block) (member : block ∈ layout) :
      header (FirstFit.store run.heap.memory addr value) block.addr =
        header run.heap.memory block.addr := by
    have missed : block.addr ≠ addr ∧ block.addr + 4 ≠ addr ∧ block.addr + 8 ≠ addr := by
      rcases le_or_gt block.addr chunk with below | above
      · omega
      · have beyond := beforeNext block member above
        omega
    simp [header, next, prev, checksum, FirstFit.store, missed]
  exact
    { startKept := invariant.startKept
      endKept := invariant.endKept
      represents := invariant.represents.congr kept
      tiling := invariant.tiling
      accounts := invariant.accounts
      cursor := invariant.cursor }

theorem heapInvariant_step {target : HeapRun} {call : HeapCall} (taken : HeapStep run call target) :
    ∃ edited, HeapInvariant region target edited := by
  cases taken with
  | refused returned =>
    rcases invariant.malloc returned with ⟨_, same⟩ | ⟨nonNull, _⟩
    · subst same
      exact ⟨layout, invariant⟩
    · exact absurd rfl nonNull
  | granted returned nonNull =>
    rcases invariant.malloc returned with ⟨null, _⟩ | ⟨_, granted⟩
    · exact absurd null nonNull
    · exact granted
  | freed held => exact invariant.free held
  | written held word fromStart beforeEnd =>
    obtain ⟨chunk, pointerEq, _, _, ends⟩ := invariant.accounts.backed _ held
    refine ⟨layout, invariant.store word (pointerEq ▸ fromStart) ?_⟩
    intro block member above
    exact lt_of_lt_of_le beforeEnd (ends block member above)

/-! ## What the invariant says about the source's list -/

theorem HeapInvariant.chunkList : ChunkList run.heap (Layout.addrs layout) := by
  have endsAt := invariant.tiling.closes
  refine ⟨?_, ?_, ?_, invariant.represents.ring, ?_, ?_, ?_, ?_, invariant.cursor⟩
  · rw [invariant.startKept]
    exact invariant.tiling.starts
  · rw [invariant.endKept, Layout.addrs, List.getLast?_map, endsAt]
    rfl
  · exact List.pairwise_map.mpr invariant.tiling.increasing
  · intro chunk member
    obtain ⟨block, inside, rfl⟩ := List.mem_map.mp member
    exact invariant.represents.checkSum inside
  · intro chunk member
    obtain ⟨block, inside, rfl⟩ := List.mem_map.mp member
    exact invariant.tiling.onGrid block inside
  · rw [Layout.addrs, List.isChain_map]
    apply invariant.tiling.separated.imp_of_mem_imp
    intro left right leftMember rightMember separated
    rw [invariant.represents.isUsed leftMember, invariant.represents.isUsed rightMember]
    exact separated
  · have used := invariant.represents.isUsed invariant.tiling.closing_mem
    rw [invariant.endKept]
    exact used

theorem HeapInvariant.block (held : allocation ∈ run.live) :
    ∃ chunk following,
      allocation.pointer = chunk + 12 ∧ blockLimit run.heap.memory allocation.pointer = following ∧
        allocation.pointer + allocation.size ≤ following ∧ initialChunk region.startmem ≤ chunk ∧
        following ≤ heapEnd (region.startmem + region.size) ∧ ⟨chunk, true⟩ ∈ layout ∧
        ∀ block ∈ layout, block.addr ≤ chunk ∨ following ≤ block.addr := by
  obtain ⟨chunk, pointerEq, notClosing, used, ends⟩ := invariant.accounts.backed allocation held
  obtain ⟨before, following, after, rfl⟩ := invariant.tiling.exists_successor used notClosing
  have followingMember : following ∈ before ++ ⟨chunk, true⟩ :: following :: after := by simp
  have chunkLow := invariant.tiling.first_le_addr used
  have followingHigh := invariant.tiling.addr_le_closing followingMember
  obtain ⟨spaced, below, sized⟩ := invariant.sized
  simp only at spaced sized
  have roomy := ends following followingMember (by omega)
  refine ⟨chunk, following.addr, pointerEq, ?_, roomy, chunkLow, followingHigh, used, ?_⟩
  · rw [blockLimit, pointerEq, sub32_chunkSize (by omega), sized]
    omega
  · intro block member
    exact invariant.tiling.neighbours_adjacent member

theorem live_aligned (held : allocation ∈ run.live) : allocation.pointer % 16 = 0 := by
  obtain ⟨chunk, pointerEq, _, used, _⟩ := invariant.accounts.backed allocation held
  have grid := invariant.tiling.onGrid _ used
  simp only at grid
  omega

theorem live_ne_free {addr : Nat} (held : allocation ∈ run.live) (free : ⟨addr, false⟩ ∈ layout) :
    allocation.pointer ≠ addr + 12 := by
  obtain ⟨chunk, pointerEq, _, used, _⟩ := invariant.accounts.backed allocation held
  intro same
  obtain rfl : chunk = addr := by omega
  exact invariant.tiling.not_used_of_free free used

theorem HeapInvariant.liveBlocks : LiveBlocks run.heap run.live := by
  obtain ⟨initialEq, closingEq⟩ := region.bounds
  refine ⟨?_, ?_, ?_⟩
  · intro allocation held
    obtain ⟨chunk, following, _, limitEq, roomy, _⟩ := invariant.block held
    rw [limitEq]
    exact roomy
  · intro allocation held
    obtain ⟨chunk, following, pointerEq, limitEq, _, low, high, _⟩ := invariant.block held
    rw [limitEq, invariant.startKept, invariant.endKept]
    omega
  · have distinct := List.pairwise_map.mp invariant.accounts.distinct
    apply distinct.imp_of_mem
    intro left right leftHeld rightHeld different
    obtain ⟨leftChunk, leftFollowing, leftEq, leftLimit, _, _, _,
      leftMember, leftAdjacent⟩ := invariant.block leftHeld
    obtain ⟨rightChunk, rightFollowing, rightEq, rightLimit, _, _, _,
      rightMember, rightAdjacent⟩ := invariant.block rightHeld
    have rightOfLeft := leftAdjacent _ rightMember
    have leftOfRight := rightAdjacent _ leftMember
    simp only at rightOfLeft leftOfRight
    omega

theorem HeapInvariant.malloc_returns (size : Nat) :
    (firstfitMalloc run.heap size).isSome = true := by
  rcases invariant.malloc_cases size with ⟨refused, _⟩ | ⟨_, _, _, _, _, _, granted⟩
  · rw [refused]
    rfl
  · rw [granted]
    rfl

end Invariant

/-- Some layout satisfies the heap invariant. -/
def Consistent (region : HeapRegion) (run : HeapRun) : Prop :=
  ∃ layout, HeapInvariant region run layout

theorem consistent_of_reached (reached : (heapSystem region).Reached unrestricted run) :
    Consistent region run := by
  refine System.Reached.invariant ?_ ?_ reached
  · rintro state ⟨memory, heap, created, rfl⟩
    exact ⟨_, heapInvariant_new created⟩
  · rintro source call target ⟨layout, invariant⟩ _ taken
    exact heapInvariant_step invariant taken

/-- The headers of a heap with nothing in use. -/
theorem headers_of_idle
    {first closing : Nat} (represents : Represents memory [⟨first, false⟩, ⟨closing, true⟩]) :
    header memory first = ⟨closing, closing, markedSum first closing false⟩ ∧
      header memory closing = ⟨first, first, markedSum closing first true⟩ := by
  have closed : Circular (next memory) (prev memory) (first :: [] ++ [closing]) := represents.ring
  obtain ⟨toClosing, fromClosing⟩ := @Represents.neighbours _ [] [] _ _ _ _ represents
  obtain ⟨toFirst, fromFirst⟩ := closed.closing
  have firstSum := represents.sums ⟨first, false⟩ (by simp)
  have closingSum := represents.sums ⟨closing, true⟩ (by simp)
  simp only [toClosing, toFirst] at firstSum closingSum
  exact ⟨Header.ext toClosing fromFirst firstSum, Header.ext toFirst fromClosing closingSum⟩

/-! ## Every run -/

/--
In every state a run reaches, the chunk list is in order, the live blocks
are disjoint, large enough and inside the heap, and the next request
returns.
-/
theorem heap_runs_keep_chunk_list
    (region : HeapRegion) (run : HeapRun) (reached : (heapSystem region).Reached unrestricted run) :
    (∃ chunks, ChunkList run.heap chunks) ∧ LiveBlocks run.heap run.live ∧
      run.heap.startmem = region.startmem ∧ run.heap.endmem = region.startmem + region.size ∧
      ∀ size, (firstfitMalloc run.heap size).isSome = true := by
  obtain ⟨layout, invariant⟩ := consistent_of_reached reached
  exact ⟨⟨Layout.addrs layout, invariant.chunkList⟩,
    invariant.liveBlocks, invariant.startKept, invariant.endKept, invariant.malloc_returns⟩

/-- A small region to run the heap on. -/
def sampleRegion : HeapRegion where
  startmem := 4096
  size := 96
  alignedStart := by decide
  atLeast := by decide
  below := by decide
  noWrap := by decide

/-- The heap of the small region over zeroed memory. -/
def sampleHeap : Heap := (firstfitNew (fun _ => 0) 4096 96).get (by decide)

theorem sampleHeap_created :
    firstfitNew (fun _ => 0) sampleRegion.startmem sampleRegion.size = some sampleHeap := by
  simp [sampleHeap, sampleRegion]

/-- A call that returns, with the pointer it returns. -/
theorem eq_some_of_get
    {result : Option (Nat × Heap)} {pointer : Nat} (returns : result.isSome = true)
    (pointerEq : (result.get returns).1 = pointer) :
    result = some (pointer, (result.get returns).2) := by
  rw [← pointerEq]
  exact (Option.some_get returns).symm

/-- The small heap after a request for five bytes. -/
def sampleTaken : Heap := ((firstfitMalloc sampleHeap 5).get (by decide +kernel)).2

theorem sampleTaken_reached :
    (heapSystem sampleRegion).Reached unrestricted ⟨sampleTaken, [⟨4128, 5⟩]⟩ := by
  have granted : HeapStep ⟨sampleHeap, []⟩ (.malloc 5) ⟨sampleTaken, [⟨4128, 5⟩]⟩ :=
    .granted (eq_some_of_get (by decide +kernel) (by decide +kernel)) (by decide)
  exact .step (.start ⟨_, _, sampleHeap_created, rfl⟩) trivial granted

theorem heap_runs_keep_chunk_list_sample :
    (∃ chunks, ChunkList sampleTaken chunks) ∧ LiveBlocks sampleTaken [⟨4128, 5⟩] := by
  obtain ⟨list, blocks, _⟩ := heap_runs_keep_chunk_list sampleRegion _ sampleTaken_reached
  exact ⟨list, blocks⟩

/--
Once every live pointer has been freed, the chunk list consists of the two
chunks of the new heap, with the headers `firstfit_new` wrote, and a request
for all of the first chunk is granted.
-/
theorem heap_coalesces_when_idle (region : HeapRegion) (memory : Memory) (fresh : Heap)
    (created : firstfitNew memory region.startmem region.size = some fresh) (run : HeapRun)
    (reached : (heapSystem region).Reached unrestricted run) (idle : run.live = []) :
    ChunkList run.heap [initialChunk region.startmem, heapEnd (region.startmem + region.size)] ∧
      isUsed run.heap.memory (initialChunk region.startmem) = false ∧
      header run.heap.memory (initialChunk region.startmem) =
        header fresh.memory (initialChunk region.startmem) ∧
      header run.heap.memory (heapEnd (region.startmem + region.size)) =
        header fresh.memory (heapEnd (region.startmem + region.size)) ∧
      ∃ grown,
        firstfitMalloc run.heap (getSize fresh.memory (initialChunk region.startmem)) =
          some (chunkData (initialChunk region.startmem), grown) := by
  obtain ⟨bounded, narrow, apart⟩ := region.limits
  obtain ⟨layout, invariant⟩ := consistent_of_reached reached
  have accounts := invariant.accounts
  rw [idle] at accounts
  have twoBlocks := accounts.idle invariant.tiling apart
  subst twoBlocks
  have freshInvariant := heapInvariant_new created
  obtain ⟨initialHeader, closingHeader⟩ := headers_of_idle invariant.represents
  obtain ⟨freshInitial, freshClosing⟩ := headers_of_idle freshInvariant.represents
  have free :=
    invariant.represents.isUsed (show (⟨initialChunk region.startmem, false⟩ : Block) ∈ _ by simp)
  obtain ⟨spaced, _, sized⟩ := @HeapInvariant.sized _ _ [] [] _ _ freshInvariant
  simp only at spaced sized
  have fitting :
      fits run.heap.memory (getSize fresh.memory (initialChunk region.startmem))
        (initialChunk region.startmem) = true :=
    (@HeapInvariant.fits_iff _ _ [] [] _ _ _ invariant (by omega)).mpr ⟨rfl, by simp only; omega⟩
  obtain ⟨before, taken, following, after, split, _, granted⟩ :=
    invariant.granted (by simp) fitting (by omega) (by unfold intMax; omega)
  have takenFree : (⟨taken, false⟩ : Block) ∈ before ++ ⟨taken, false⟩ :: ⟨following, true⟩ :: after :=
    by simp
  have takenEq : taken = initialChunk region.startmem := by simpa [← split] using takenFree
  refine ⟨invariant.chunkList, free, initialHeader.trans freshInitial.symm,
    closingHeader.trans freshClosing.symm, ?_⟩
  rw [granted, chunkData_of_le (by omega), takenEq]
  exact ⟨_, rfl⟩

theorem heap_coalesces_when_idle_sample :
    ChunkList (firstfitFree sampleTaken 4128)
        [initialChunk sampleRegion.startmem, heapEnd (sampleRegion.startmem + sampleRegion.size)] ∧
      ∃ grown,
        firstfitMalloc (firstfitFree sampleTaken 4128)
            (getSize sampleHeap.memory (initialChunk sampleRegion.startmem)) =
          some (chunkData (initialChunk sampleRegion.startmem), grown) := by
  have held : (⟨4128, 5⟩ : Allocation) ∈ (⟨sampleTaken, [⟨4128, 5⟩]⟩ : HeapRun).live := by simp
  have freed :
      (heapSystem sampleRegion).Reached unrestricted
        ⟨firstfitFree sampleTaken 4128, forget [⟨4128, 5⟩] 4128⟩ :=
    .step sampleTaken_reached trivial (.freed held)
  obtain ⟨list, _, _, _, granted⟩ :=
    heap_coalesces_when_idle sampleRegion _ sampleHeap sampleHeap_created _ freed (by decide)
  exact ⟨list, granted⟩

end Cosec.Mem.HeapRuns
