import Mathlib.Tactic.IntervalCases
import Cosec.Libc.ErrorNumbers
import Cosec.Mem.RefusedRealloc

/-!
# Zeroed blocks

`calloc` multiplies its arguments in thirty-two bits, asks `malloc` for the
product, and clears as many bytes from the pointer it gets on, also when that
is null.  Memory is the one of the allocator, a word at each multiple of
four; `memset` stores the bytes of these words one at a time.
-/

namespace Cosec.Libc.ZeroedBlocks

open Lib.Transition Lib.Word32 Libc.ErrorNumbers Mem.BlockLayout Mem.FirstFit Mem.HeapFrames
open Mem.HeapOperations Mem.HeapRealloc Mem.HeapRuns Mem.RefusedRealloc

/-! ## Bytes of words -/

/-- A word with one of its bytes replaced. -/
def replaceByte (word lane byte : Nat) : Nat :=
  word - word / 256 ^ lane % 256 * 256 ^ lane + byte * 256 ^ lane

/-- A store of one byte. -/
def storeByte (memory : Memory) (addr byte : Nat) : Memory :=
  store memory (addr - addr % 4) (replaceByte (memory (addr - addr % 4)) (addr % 4) byte)

theorem byte_replaceByte {word lane other byte : Nat} (small : byte < 256) (inWord : lane < 4)
    (otherInWord : other < 4) :
    replaceByte word lane byte / 256 ^ other % 256 =
      if other = lane then byte else word / 256 ^ other % 256 := by
  unfold replaceByte
  interval_cases lane <;> interval_cases other <;> simp <;> omega

variable {memory : Memory}

theorem byteAt_storeByte {addr byte other : Nat} (small : byte < 256) :
    byteAt (storeByte memory addr byte) other =
      if other = addr then byte else byteAt memory other := by
  unfold byteAt storeByte
  by_cases sameWord : other - other % 4 = addr - addr % 4
  · have sameByte : other % 4 = addr % 4 ↔ other = addr := by omega
    rw [sameWord, store, if_pos rfl,
      byte_replaceByte small (Nat.mod_lt _ (by decide)) (Nat.mod_lt _ (by decide))]
    simp only [sameByte]
  · have different : other ≠ addr := by
      rintro rfl
      exact sameWord rfl
    rw [store_other sameWord, if_neg different]

/-- `memset` of some bytes. -/
def memset (memory : Memory) (s c : Nat) : Nat → Memory
  | 0 => memory
  | count + 1 => storeByte (memset memory s c count) (wrap32 (s + count)) c

/-- The addresses that `memset` stores to. -/
def memsetStores (s count : Nat) : List Nat :=
  (List.range count).map fun index => wrap32 (s + index)

/-- The heap of the library and `theErrNo`. -/
structure LibcState where
  heap : Heap
  theErrNo : Option Errno

/-- `malloc`; there is no result when the search of the heap does not end. -/
def malloc (libc : LibcState) (size : Nat) : Option (Nat × LibcState) :=
  (firstfitMalloc libc.heap size).map fun returned =>
    (returned.1,
      { heap := returned.2
        theErrNo := if returned.1 = 0 then some .enomem else none })

/-- What `calloc` returns, leaves, and stores to. -/
structure Zeroed where
  pointer : Nat
  libc : LibcState
  stores : List Nat

/-- `calloc`. -/
def calloc (libc : LibcState) (nmemb size : Nat) : Option Zeroed :=
  let sz := wrap32 (nmemb * size)
  (malloc libc sz).map fun returned =>
    { pointer := returned.1
      libc :=
        { returned.2 with
          heap :=
            { returned.2.heap with
              memory := memset returned.2.heap.memory returned.1 0 sz } }
      stores := memsetStores returned.1 sz }

theorem memset_word
    {s c count addr : Nat} (bounded : s + count ≤ 4294967296) (wordAligned : addr % 4 = 0)
    (away : addr + 4 ≤ s ∨ s + count ≤ addr) : memset memory s c count addr = memory addr := by
  induction count with
  | zero => rfl
  | succ count ih =>
    rw [memset, storeByte, wrap32_of_lt (by omega), store_other (by omega)]
    exact ih (by omega) (by omega)

theorem byteAt_memset {s c count index : Nat} (small : c < 256) (bounded : s + count ≤ 4294967296)
    (inside : index < count) : byteAt (memset memory s c count) (s + index) = c := by
  induction count with
  | zero => omega
  | succ count ih =>
    rw [memset, byteAt_storeByte small, wrap32_of_lt (by omega)]
    split
    · rfl
    · exact ih (by omega) (by omega)

/-! ## Blocks -/

/--
The call returns; a block it returns holds the exact product of bytes, all of
them zero, and if it returns null nothing was stored.
-/
def CallocRight (libc : LibcState) (nmemb size : Nat) : Prop :=
  ∃ zeroed,
    calloc libc nmemb size = some zeroed ∧
      (zeroed.pointer ≠ 0 →
        nmemb * size ≤ getSize zeroed.libc.heap.memory (sub32 zeroed.pointer chunkSize) ∧
          ∀ offset < nmemb * size, byteAt zeroed.libc.heap.memory (zeroed.pointer + offset) = 0) ∧
      (zeroed.pointer = 0 → zeroed.stores = [])

variable {region : HeapRegion} {run : HeapRun} {layout : Layout} {libc : LibcState}
  {nmemb size : Nat}

theorem calloc_eq {pointer : Nat} {heap : Heap}
    (returned : firstfitMalloc libc.heap (wrap32 (nmemb * size)) = some (pointer, heap)) :
    calloc libc nmemb size =
      some
        { pointer := pointer
          libc :=
            { heap :=
                { heap with
                  memory := memset heap.memory pointer 0 (wrap32 (nmemb * size)) }
              theErrNo := if pointer = 0 then some .enomem else none }
          stores := memsetStores pointer (wrap32 (nmemb * size)) } := by
  simp [calloc, malloc, returned]

theorem memsetStores_eq_nil_iff {s count : Nat} : memsetStores s count = [] ↔ count = 0 := by
  simp [memsetStores]

/-- A refused call is right when there is nothing to clear. -/
theorem callocRight_of_refused
    (refused : firstfitMalloc libc.heap (wrap32 (nmemb * size)) = some (0, libc.heap)) :
    CallocRight libc nmemb size ↔ wrap32 (nmemb * size) = 0 := by
  unfold CallocRight
  rw [calloc_eq refused]
  simp [memsetStores_eq_nil_iff]

/-- The size of a block does not change when its data is cleared. -/
theorem getSize_memset (invariant : HeapInvariant region run layout) {allocation : Allocation}
    (held : allocation ∈ run.live) :
    getSize (memset run.heap.memory allocation.pointer 0 allocation.size)
        (sub32 allocation.pointer chunkSize) =
      getSize run.heap.memory (sub32 allocation.pointer chunkSize) := by
  obtain ⟨bounded, _, _⟩ := region.limits
  obtain ⟨chunk, following, pointerEq, _, ends, _, high, member, _⟩ := invariant.block held
  have grid : chunk % 16 = 4 := invariant.tiling.onGrid _ member
  have chunkEq : sub32 allocation.pointer chunkSize = chunk := by
    rw [pointerEq, sub32_chunkSize (by omega)]
  have kept :
      next (memset run.heap.memory allocation.pointer 0 allocation.size) chunk =
        next run.heap.memory chunk :=
    memset_word (by omega) (by omega) (by omega)
  rw [chunkEq, getSize, getSize, kept]

theorem callocRight_of_granted
    (invariant : HeapInvariant region run layout) {pointer : Nat} {heap : Heap}
    (sameHeap : libc.heap = run.heap)
    (returned : firstfitMalloc libc.heap (wrap32 (nmemb * size)) = some (pointer, heap))
    (nonNull : pointer ≠ 0) : CallocRight libc nmemb size ↔ nmemb * size < 4294967296 := by
  unfold CallocRight
  rw [calloc_eq returned]
  constructor
  · rintro ⟨zeroed, same, block, _⟩
    cases same
    exact Nat.lt_of_le_of_lt (block nonNull).1 (Nat.mod_lt _ (by decide))
  · intro exactProduct
    rw [wrap32_of_lt exactProduct] at returned ⊢
    rw [sameHeap] at returned
    rcases invariant.malloc returned with ⟨null, _⟩ | ⟨_, taken, granted⟩
    · exact absurd null nonNull
    · have held : (⟨pointer, nmemb * size⟩ : Allocation) ∈ ⟨pointer, nmemb * size⟩ :: run.live :=
        List.mem_cons_self
      obtain ⟨bounded, _, _⟩ := region.limits
      obtain ⟨_, following, _, limit, ends, _, high, _⟩ := granted.block held
      simp only [blockLimit] at limit ends
      refine ⟨_, rfl, fun _ => ⟨?_, ?_⟩, fun null => absurd null nonNull⟩
      · have sized := getSize_memset granted held
        simp only at sized ⊢
        omega
      · intro offset inside
        exact byteAt_memset (by decide) (by omega) inside

/--
In every state that a run of the allocator reaches, `calloc` is right exactly
when the product of its arguments is a multiple of `2 ^ 32`, so that nothing
is asked for, or is below it and there is room for it.
-/
theorem calloc_right_iff
    (region : HeapRegion) (run : HeapRun) (reached : (heapSystem region).Reached unrestricted run)
    (theErrNo : Option Errno) (nmemb size : UInt32) :
    CallocRight ⟨run.heap, theErrNo⟩ nmemb.toNat size.toNat ↔
      nmemb.toNat * size.toNat % 4294967296 = 0 ∨
        (nmemb.toNat * size.toNat < 4294967296 ∧ HasRoom run.heap (nmemb.toNat * size.toNat)) := by
  obtain ⟨layout, invariant⟩ := consistent_of_reached reached
  generalize nmemb.toNat = nmemb
  generalize size.toNat = size
  rcases invariant.malloc_cases (wrap32 (nmemb * size)) with
    ⟨refused, _⟩ | ⟨_, chunk, _, _, _, _, granted⟩
  · rw [@callocRight_of_refused ⟨run.heap, theErrNo⟩ nmemb size refused]
    refine ⟨Or.inl, ?_⟩
    rintro (nothing | ⟨exactProduct, positive, signed, steps, fitting⟩)
    · exact nothing
    · rw [wrap32_of_lt exactProduct] at refused
      obtain ⟨_, taken, _, _, _, _, granted⟩ :=
        invariant.granted (cursor_iterate_mem invariant steps) fitting positive signed
      rw [refused, Option.some.injEq, Prod.mk.injEq] at granted
      omega
  · rw [@callocRight_of_granted _ _ _ ⟨run.heap, theErrNo⟩ nmemb size
      invariant _ _ rfl granted (by omega)]
    have room := hasRoom_of_granted granted (by omega)
    constructor
    · intro exactProduct
      rw [wrap32_of_lt exactProduct] at room
      exact Or.inr ⟨exactProduct, room⟩
    · rintro (nothing | ⟨exactProduct, _⟩)
      · have positive := room.1
        unfold wrap32 at positive
        omega
      · exact exactProduct

/-- Three words of the small heap. -/
theorem calloc_right_iff_sample : CallocRight ⟨sampleTaken, none⟩ 3 4 := by
  have right := calloc_right_iff sampleRegion _ sampleTaken_reached none 3 4
  exact right.mpr (Or.inr ⟨by decide, by decide, by decide, 0, by decide⟩)

/--
Arguments whose product wraps to sixteen give a block of a few bytes, and a
request that is refused is cleared from address zero on.
-/
theorem calloc_wraps :
    ¬ CallocRight ⟨sampleTaken, none⟩ 0x10000001 16 ∧ ¬ CallocRight ⟨sampleTaken, none⟩ 1 1000 := by
  obtain ⟨layout, invariant⟩ := consistent_of_reached sampleTaken_reached
  constructor
  · obtain ⟨before, chunk, following, after, _, _, granted⟩ :=
      invariant.granted (cursor_iterate_mem invariant 0)
        (show fits sampleTaken.memory 16 _ = true by decide) (by decide) (by decide)
    rw [@callocRight_of_granted _ _ _ ⟨sampleTaken, none⟩ 0x10000001 16
      invariant _ _ rfl granted (by omega)]
    decide
  · have refused := malloc_refused invariant sampleTaken_noRoom
    rw [@callocRight_of_refused ⟨sampleTaken, none⟩ 1 1000 refused]
    decide

end Cosec.Libc.ZeroedBlocks
