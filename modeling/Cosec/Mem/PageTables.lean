import Cosec.Lib.Holdings
import Cosec.Mem.Layout

/-!
# Page directories and page tables

This module embeds `pagedir_alloc` and `pagedir_get_or_new` together with the
page walk of the processor.

A word of physical memory is named by its page frame and its slot in the
frame, since the code reaches it only at page-aligned bases plus an entry
number; a frame number stands for the address of its first byte, and `0` for
null.  Call number `n` of `pmem_alloc(1)` returns the frame `supply.answer n`,
or null.  Pages keep their old contents.
-/

namespace Cosec.Mem.PageTables

open Function Lib.Holdings

/-- A physical address divided by `PAGE_BYTES`. -/
abbrev Frame := BitVec 20

/-- The number of an entry in a directory or a table. -/
abbrev Slot := BitVec 10

abbrev Word := BitVec 32

/-- `KERN_OFF`. -/
def kernOff : Word := BitVec.ofNat 32 Layout.kernOff

/-! ## Entries

`pde_t` and `pte_t` lay out the same bits, apart from bit 7. -/

/-- The field `index`. -/
def index (entry : Word) : Frame := entry.extractLsb' 12 20

/-- The bit `present`. -/
def present (entry : Word) : Bool := entry.getLsbD 0

/-- The bit `hugepage` of a directory entry. -/
def hugepage (entry : Word) : Bool := entry.getLsbD 7

/-- An assignment to the field `index`. -/
def setIndex (entry : Word) (frame : Frame) : Word := frame ++ entry.extractLsb' 0 12

/--
The entry made for a new page table: `present`, `writable`, `user`,
`writethrough` and `dontcache` are set in an empty entry.
-/
def newPde (pde : Word) (pagetbl : Frame) : Word := setIndex (pde ||| 0x1f#32) pagetbl

/-- The entry made for a new page: `present` and `user` are set in the mask. -/
def newPte (pteMask : Word) (page : Frame) : Word := setIndex (pteMask ||| 0x5#32) page

@[simp]
theorem index_setIndex (entry : Word) (frame : Frame) : index (setIndex entry frame) = frame := by
  show BitVec.extractLsb' 12 20 (frame ++ _) = frame
  rw [BitVec.extractLsb'_append_eq_of_le (le_refl 12)]
  exact BitVec.extractLsb'_eq_self

/-- The low bits stay as they were when the index is assigned. -/
theorem getLsbD_setIndex (entry : Word) (frame : Frame) {bit : Nat} (low : bit < 12) :
    (setIndex entry frame).getLsbD bit = entry.getLsbD bit := by
  show (frame ++ entry.extractLsb' 0 12).getLsbD bit = _
  rw [BitVec.getLsbD_append, if_pos low, BitVec.getLsbD_extractLsb']
  simp [low]

@[simp]
theorem index_newPde (pagetbl : Frame) : index (newPde 0 pagetbl) = pagetbl :=
  index_setIndex _ pagetbl

@[simp]
theorem present_newPde (pagetbl : Frame) : present (newPde 0 pagetbl) = true :=
  getLsbD_setIndex _ pagetbl (by decide)

@[simp]
theorem hugepage_newPde (pagetbl : Frame) : hugepage (newPde 0 pagetbl) = false :=
  getLsbD_setIndex _ pagetbl (by decide)

@[simp]
theorem index_newPte (pteMask : Word) (page : Frame) : index (newPte pteMask page) = page :=
  index_setIndex _ page

@[simp]
theorem present_newPte (pteMask : Word) (page : Frame) : present (newPte pteMask page) = true := by
  unfold present newPte
  rw [getLsbD_setIndex _ page (by decide), BitVec.getLsbD_or]
  simp

theorem ne_zero_of_present {entry : Word} (marked : present entry = true) : entry ≠ 0 := by
  rintro rfl
  exact absurd marked (by decide)

/-! ## Physical memory -/

/-- Physical memory by words and the number of `pmem_alloc` calls so far. -/
structure PhysMemory where
  words : Frame → Slot → Word
  granted : Nat

/-- A store of one word. -/
def PhysMemory.write (memory : PhysMemory) (frame : Frame) (slot : Slot) (word : Word) :
    PhysMemory :=
  { memory with
    words := update memory.words frame (update (memory.words frame) slot word) }

/-- `memset` of a whole page to zero. -/
def PhysMemory.clear (memory : PhysMemory) (frame : Frame) : PhysMemory :=
  { memory with words := update memory.words frame fun _ => 0 }

section

variable {memory : PhysMemory} {frame other : Frame}

@[simp]
theorem PhysMemory.words_write_self (slot : Slot) (word : Word) :
    (memory.write frame slot word).words frame = update (memory.words frame) slot word :=
  update_self ..

theorem PhysMemory.words_write_of_ne (different : other ≠ frame) (slot : Slot) (word : Word) :
    (memory.write frame slot word).words other = memory.words other :=
  update_of_ne different ..

@[simp]
theorem PhysMemory.words_clear_self : (memory.clear frame).words frame = fun _ => 0 :=
  update_self ..

theorem PhysMemory.words_clear_of_ne (different : other ≠ frame) :
    (memory.clear frame).words other = memory.words other :=
  update_of_ne different ..

end

/-- `pmem_alloc(1)`. -/
def pmemAlloc (supply : Supply Frame) (memory : PhysMemory) : Frame × PhysMemory :=
  ((supply.answer memory.granted).getD 0, { memory with granted := memory.granted + 1 })

/-- `KERN_OFF >> PDE_SHIFT`. -/
def kpdeOffset : Nat := 768

/--
`pagedir_alloc`.  The entries of `kernel` are those of `thePageDirectory`;
the page is used without a check for null.
-/
def pagedirAlloc
    (supply : Supply Frame) (kernel : Slot → Word) (memory : PhysMemory) : Frame × PhysMemory :=
  let (pagedir, memory) := pmemAlloc supply memory
  let memory := memory.clear pagedir
  let memory :=
    { memory with
      words := update memory.words pagedir fun slot =>
          if kpdeOffset ≤ slot.toNat then kernel slot
          else memory.words pagedir slot }
  (pagedir, memory.write pagedir 0 (kernel 0))

/-- `(vaddr >> PTE_SHIFT) & 0x3ff`. -/
def pteIndex (vaddr : Word) : Slot := vaddr.extractLsb' 12 10

/-- `vaddr >> PDE_SHIFT`. -/
def pdeIndex (vaddr : Word) : Slot := vaddr.extractLsb' 22 10

/--
The page table for an address, made when the directory entry is zero; `none`
when there is no page for it.
-/
def pageTable (supply : Supply Frame) (pagedir : Frame) (vaddr : Word)
    (memory : PhysMemory) : Option Frame × PhysMemory :=
  let pde := memory.words pagedir (pdeIndex vaddr)
  if pde = 0 then
    let (pagetbl, memory) := pmemAlloc supply memory
    if pagetbl = 0 then (none, memory)
    else
      (some pagetbl, (memory.clear pagetbl).write pagedir (pdeIndex vaddr) (newPde pde pagetbl))
  else
    (some (index pde), memory)

/-- The page of an entry, allocated when the entry is zero. -/
def tablePage (supply : Supply Frame) (pagetbl : Frame) (slot : Slot)
    (pteMask : Word) (memory : PhysMemory) : Frame × PhysMemory :=
  let pte := memory.words pagetbl slot
  if pte = 0 then
    let (page, memory) := pmemAlloc supply memory
    if page = 0 then (0, memory)
    else
      let pte := newPte pteMask page
      (index pte, memory.write pagetbl slot pte)
  else
    (index pte, memory)

/-- `pagedir_get_or_new`. -/
def pagedirGetOrNew (supply : Supply Frame) (pagedir : Frame) (vaddr pteMask : Word)
    (memory : PhysMemory) : Frame × PhysMemory :=
  if vaddr < kernOff then
    match pageTable supply pagedir vaddr memory with
    | (none, memory) => (0, memory)
    | (some pagetbl, memory) => tablePage supply pagetbl (pteIndex vaddr) pteMask memory
  else
    (0, memory)

/-- The frame of an address below a directory entry. -/
def walkEntry (words : Frame → Slot → Word) (pde vaddr : Word) : Option Frame := if present pde then
    if hugepage pde then
      some ((index pde).extractLsb' 10 10 ++ pteIndex vaddr)
    else
      let pte := words (index pde) (pteIndex vaddr)
      if present pte then some (index pte) else none
  else
    none

/-- The frame to which the processor translates an address. -/
def walk (words : Frame → Slot → Word) (pagedir : Frame) (vaddr : Word) : Option Frame :=
  walkEntry words (words pagedir (pdeIndex vaddr)) vaddr

/-- The number of the virtual page of an address. -/
def pageNumber (vaddr : Word) : Frame := vaddr.extractLsb' 12 20

theorem pageNumber_eq (vaddr : Word) : pageNumber vaddr = pdeIndex vaddr ++ pteIndex vaddr := by
  apply Eq.symm
  apply BitVec.extractLsb'_append_extractLsb'_eq_extractLsb'
  rfl

/-- Two addresses are in one page when both levels of the walk agree. -/
theorem pageNumber_eq_iff (first second : Word) :
    pageNumber first = pageNumber second ↔
      pdeIndex first = pdeIndex second ∧ pteIndex first = pteIndex second := by
  constructor
  · intro equal
    have upper := congrArg (BitVec.extractLsb' 10 10) equal
    have lower := congrArg (BitVec.extractLsb' 0 10) equal
    rw [pageNumber_eq, pageNumber_eq] at upper lower
    rw [BitVec.extractLsb'_append_eq_of_le (le_refl 10),
      BitVec.extractLsb'_append_eq_of_le (le_refl 10)] at upper
    rw [BitVec.extractLsb'_append_eq_of_add_le (le_refl 10),
      BitVec.extractLsb'_append_eq_of_add_le (le_refl 10)] at lower
    simp only [Nat.sub_self, BitVec.extractLsb'_eq_self] at upper lower
    exact ⟨upper, lower⟩
  · rintro ⟨upper, lower⟩
    rw [pageNumber_eq, pageNumber_eq, upper, lower]

end Cosec.Mem.PageTables
