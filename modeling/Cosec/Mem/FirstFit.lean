import Cosec.Lib.Word32

/-!
# The first-fit allocator

This module embeds `ff_alloc.c`; `alloc_firstfit.c` of the C library is the
same code.

`memory addr` is the 32-bit word at byte address `addr`, a multiple of four.
A chunk header is three words, `next`, `prev` and `checksum`, whose highest
bit is the used bit: `|= USED` is `% usedBit + usedBit`, and `&= ~USED` is
`% usedBit`.

The allocator record is kept as the fields of `Heap`.  The search of
`firstfit_malloc` follows links in memory, so it carries fuel; no search that
ends can exceed `searchFuel`, the number of addresses.
-/

namespace Cosec.Mem.FirstFit

open Lib.Word32

/-! ## Words and chunk headers -/

abbrev Memory := Nat → Nat

def store (memory : Memory) (addr value : Nat) : Memory :=
  fun other => if other = addr then value else memory other

/-- `ALIGN`. -/
def align : Nat := 16

/-- `CHUNK_SIZE`, the size of a chunk header. -/
def chunkSize : Nat := 12

/-- `ALLOC_SIZE`, the size of the allocator record. -/
def allocSize : Nat := 20

/-- `USED`. -/
def usedBit : Nat := 0x80000000

/-- `INT_MAX`. -/
def intMax : Nat := 0x7FFFFFFF

def aligned (addr : Nat) : Nat :=
  if addr % align = 0 then addr
  else wrap32 (align + (addr - addr % align))

def next (memory : Memory) (chunk : Nat) : Nat := memory chunk

def prev (memory : Memory) (chunk : Nat) : Nat := memory (chunk + 4)

def checksum (memory : Memory) (chunk : Nat) : Nat := memory (chunk + 8)

def setUsed (memory : Memory) (chunk : Nat) : Memory :=
  store memory (chunk + 8) (wrap32 (next memory chunk + chunk) % usedBit + usedBit)

def setFree (memory : Memory) (chunk : Nat) : Memory :=
  store memory (chunk + 8) (wrap32 (next memory chunk + chunk) % usedBit)

def isUsed (memory : Memory) (chunk : Nat) : Bool := decide (usedBit ≤ checksum memory chunk)

def checkSum (memory : Memory) (chunk : Nat) : Bool :=
  decide (wrap32 (chunk + next memory chunk) % usedBit = checksum memory chunk % usedBit)

def setPrev (memory : Memory) (chunk previous : Nat) : Memory := store memory (chunk + 4) previous

def setNext (memory : Memory) (chunk following : Nat) : Memory :=
  let linked := store memory chunk following
  if isUsed linked chunk then setUsed linked chunk
  else setFree linked chunk

def getSize (memory : Memory) (chunk : Nat) : Nat :=
  sub32 (sub32 (next memory chunk) chunk) chunkSize

def chunkData (chunk : Nat) : Nat := wrap32 (chunk + chunkSize)

def erase (memory : Memory) (chunk : Nat) : Memory := store memory (chunk + 8) 0

def setChunk (memory : Memory) (chunk following previous : Nat) (used : Bool) : Memory :=
  let linked := store (store memory chunk following) (chunk + 4) previous
  if used then setUsed linked chunk else setFree linked chunk

/-! ## The allocator -/

/-- Memory together with the fields of `struct firstfit_allocator`. -/
structure Heap where
  memory : Memory
  startmem : Nat
  endmem : Nat
  current : Nat
  nMalloc : Nat
  nFree : Nat

/-- The first chunk of a heap that starts at `startmem`. -/
def initialChunk (startmem : Nat) : Nat :=
  sub32 (aligned (wrap32 (startmem + allocSize + chunkSize))) chunkSize

/-- The closing chunk of a heap that ends at `endmem`. -/
def heapEnd (endmem : Nat) : Nat := sub32 (align * (endmem / align)) chunkSize

def firstfitNew (memory : Memory) (startmem size : Nat) : Option Heap :=
  if size < aligned (allocSize + chunkSize) + chunkSize + 1 then
    none
  else
    let endmem := wrap32 (size + startmem)
    let initial := initialChunk startmem
    let closing := heapEnd endmem
    let withInitial := setChunk memory initial closing closing false
    some
      { memory := setChunk withInitial closing initial initial true
        startmem := startmem
        endmem := endmem
        current := initial
        nMalloc := 0
        nFree := 0 }

/-- The test of the search loop: a free chunk that holds `size` bytes. -/
def fits (memory : Memory) (size chunk : Nat) : Bool :=
  !isUsed memory chunk && decide (asInt32 size ≤ asInt32 (getSize memory chunk))

/-- The number of machine addresses. -/
def searchFuel : Nat := 4294967296

/--
The search loop from `chunk` on.  The outer `none` means that the fuel ran
out; the inner `none` means that the loop ended without a chunk, either back
at the cursor or at a chunk with a wrong checksum.
-/
def searchChunk (heap : Heap) (size : Nat) : Nat → Nat → Option (Option Nat)
  | 0, _ => none
  | fuel + 1, chunk =>
    if fits heap.memory size chunk then
      some (some chunk)
    else
      let following := next heap.memory chunk
      if !checkSum heap.memory following then
        some none
      else if following = heap.current then
        some none
      else
        searchChunk heap size fuel following

/-- The three `set_chunk` calls that cut `chunk` off at `newChunk`. -/
def splitChunk (memory : Memory) (chunk newChunk nextChunk : Nat) : Memory :=
  let first := setChunk memory newChunk nextChunk chunk false
  let second := setChunk first nextChunk (next first nextChunk) newChunk true
  setChunk second chunk newChunk (prev second chunk) true

/-- Taking a chunk found by the search, split when the rest holds a chunk. -/
def allocateChunk (heap : Heap) (size chunk : Nat) : Heap :=
  let newChunkOffset := sub32 (aligned (wrap32 (size + chunkSize))) chunkSize
  let nextChunk := next heap.memory chunk
  let newChunk := wrap32 (chunkData chunk + newChunkOffset)
  let split := if wrap32 (chunkData newChunk + 4) ≤ nextChunk then
      splitChunk heap.memory chunk newChunk nextChunk
    else
      heap.memory
  let taken := setUsed split chunk
  { heap with
    memory := taken
    current := next taken chunk
    nMalloc := wrap32 (heap.nMalloc + 1) }

/-- The returned pointer is `0` for null. -/
def firstfitMalloc (heap : Heap) (size : Nat) : Option (Nat × Heap) :=
  if size = 0 ∨ intMax < size then
    some (0, heap)
  else
    match searchChunk heap size searchFuel heap.current with
    | none => none
    | some none => some (0, heap)
    | some (some chunk) => some (chunkData chunk, allocateChunk heap size chunk)

/-- Both merges of `firstfit_free`: `left` takes over `middle`. -/
def absorb (memory : Memory) (left middle right : Nat) : Memory :=
  erase (setPrev (setNext memory left right) right left) middle

/--
The merge of a free chunk with its successor: the new memory and the chunk
that follows in it.
-/
def mergeNext (memory : Memory) (chunk : Nat) : Memory × Nat :=
  let nextChunk := next memory chunk
  if !isUsed memory nextChunk then
    let nextnextChunk := next memory nextChunk
    (absorb memory chunk nextChunk nextnextChunk, nextnextChunk)
  else
    (memory, nextChunk)

/--
The merge of a free chunk with its predecessor: the new memory and the chunk
that is free in it.
-/
def mergePrev (memory : Memory) (chunk nextChunk : Nat) : Memory × Nat :=
  let prevChunk := prev memory chunk
  if !isUsed memory prevChunk then
    (absorb memory prevChunk chunk nextChunk, prevChunk)
  else
    (memory, chunk)

def firstfitFree (heap : Heap) (pointer : Nat) : Heap := if pointer = 0 then
    heap
  else
    let chunk := sub32 pointer chunkSize
    if !checkSum heap.memory chunk then
      heap
    else
      let joined := mergeNext (setFree heap.memory chunk) chunk
      let merged := mergePrev joined.1 chunk joined.2
      { heap with
        memory := merged.1
        current := merged.2
        nFree := wrap32 (heap.nFree + 1) }

/-- `memcpy` of whole words, from the start. -/
def memcpyWords (memory : Memory) (dest source : Nat) : Nat → Memory
  | 0 => memory
  | count + 1 =>
    let copied := memcpyWords memory dest source count
    store copied (wrap32 (dest + 4 * count)) (copied (wrap32 (source + 4 * count)))

/-- A chunk carved out behind `chunk`, in front of `nextChunk`. -/
def carveChunk (memory : Memory) (chunk newChunk nextChunk : Nat) : Memory :=
  setChunk (setPrev (setNext memory chunk newChunk) nextChunk newChunk)
    newChunk nextChunk chunk false

def firstfitRealloc (heap : Heap) (pointer size : Nat) : Option (Nat × Heap) := if pointer = 0 then
    firstfitMalloc heap size
  else
    let alignedSize := aligned size
    let chunk := sub32 pointer chunkSize
    let thisSize := getSize heap.memory chunk
    let nextChunk := next heap.memory chunk
    let newChunk := wrap32 (chunk + chunkSize + alignedSize)
    if alignedSize < thisSize then
      if thisSize ≤ wrap32 (alignedSize + chunkSize) then
        some (pointer, heap)
      else
        let merges := !isUsed heap.memory nextChunk
        let following := if merges then next heap.memory nextChunk else nextChunk
        some
          (chunkData chunk,
            { heap with
              memory := carveChunk heap.memory chunk newChunk following
              current := if merges ∧ heap.current = nextChunk then newChunk else heap.current })
    else if !isUsed heap.memory nextChunk ∧
        sub32 alignedSize thisSize ≤ getSize heap.memory nextChunk then
      let following := next heap.memory nextChunk
      some
        (chunkData chunk,
          { heap with
            memory := carveChunk heap.memory chunk newChunk following
            current := if heap.current = nextChunk then following else heap.current })
    else
      match firstfitMalloc heap size with
      | none => none
      | some (moved, grown) =>
        let copied :=
          { grown with
            memory := if moved = pointer then grown.memory else
                memcpyWords grown.memory moved pointer (thisSize / 4) }
        some (moved, firstfitFree copied pointer)

end Cosec.Mem.FirstFit
