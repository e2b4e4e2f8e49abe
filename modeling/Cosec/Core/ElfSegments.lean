import Cosec.Lib.Word32
import Cosec.Lib.WordBytes
import Cosec.Libc.ErrorNumbers
import Cosec.Mem.PageTables

/-!
# Loading the segments of an ELF image

This module embeds `process_segment_from_memory` and the part of `run_init`
that makes the page directory and goes through the program headers.

The image is in physical memory from `elfmem` on, and pages are reached
through `__va`, so both are bytes of physical frames.  Headers are read when
the loop comes to them.  Sizes, offsets and addresses are words; the loops
carry fuel, and `none` means that they do not end.
-/

namespace Cosec.Core.ElfSegments

open Lib.Holdings Lib.Word32 Lib.WordBytes Libc.ErrorNumbers Mem.PageTables

/-! ## Bytes of physical memory -/

export Mem.Layout (pageBytes)

/-- The frame of a physical address. -/
def frameOf (addr : Nat) : Frame := BitVec.ofNat 20 (addr / pageBytes)

/-- The byte at a physical address. -/
def physByte (words : Frame → Slot → Word) (addr : Nat) : BitVec 8 :=
  byteAt (words (frameOf addr)) (addr % pageBytes)

/-- The half word at a physical address. -/
def physHalf (words : Frame → Slot → Word) (addr : Nat) : Nat :=
  (physByte words addr).toNat + 256 * (physByte words (addr + 1)).toNat

/-- The word at a physical address. -/
def physWord (words : Frame → Slot → Word) (addr : Nat) : Nat :=
  physHalf words addr + 65536 * physHalf words (addr + 2)

/-- Bytes stored into a frame. -/
def storeFrame (memory : PhysMemory) (frame : Frame) (start count : Nat)
    (value : Nat → BitVec 8) : PhysMemory :=
  { memory with
    words :=
      Function.update memory.words frame (storeBytes (memory.words frame) start count value) }

/-- The fields of `Elf32_Phdr` that are used. -/
structure Phdr where
  pType : Nat
  pOffset : Nat
  pVaddr : Nat
  pFilesz : Nat
  pMemsz : Nat
  pAlign : Nat
deriving DecidableEq, Repr

/-- `PT_LOAD`. -/
def ptLoad : Nat := 1

/-- The field `e_phoff` of the ELF header. -/
def ePhoff (words : Frame → Slot → Word) (elfmem : Nat) : Nat := physWord words (elfmem + 28)

/-- The field `e_phnum` of the ELF header. -/
def ePhnum (words : Frame → Slot → Word) (elfmem : Nat) : Nat := physHalf words (elfmem + 44)

/-- `program_headers[i]`. -/
def programHeader (words : Frame → Slot → Word) (programHeaders i : Nat) : Phdr :=
  let addr := programHeaders + 32 * i
  { pType := physWord words addr
    pOffset := physWord words (addr + 4)
    pVaddr := physWord words (addr + 8)
    pFilesz := physWord words (addr + 16)
    pMemsz := physWord words (addr + 20)
    pAlign := physWord words (addr + 28) }

/-- `PTE_WRITABLE | PTE_USER`. -/
def pteMask : Word := 6#32

/--
One page of a segment: `bytesToCopy` bytes from `source` go to the page of
`vaddr` at `voff`, and zeros fill the rest of `size` bytes.
-/
def loadPage (supply : Supply Frame) (pagedir : Frame) (vaddr : Word)
    (voff size source bytesToCopy : Nat) (memory : PhysMemory) : Except Errno Unit × PhysMemory :=
  let (paddr, memory) := pagedirGetOrNew supply pagedir vaddr pteMask memory
  if paddr = 0 then (.error .enomem, memory)
  else
    let memory := storeFrame memory paddr voff bytesToCopy fun index =>
        physByte memory.words (source + index)
    (.ok (), storeFrame memory paddr (voff + bytesToCopy) (size - bytesToCopy) fun _ => 0)

/-- The bytes of the image that belong in the page at `off`. -/
def bytesToCopy (hdr : Phdr) (off : Nat) : Nat :=
  if off < hdr.pFilesz then min (hdr.pFilesz - off) pageBytes else 0

/-- The loop over whole pages. -/
def segmentPages (supply : Supply Frame) (hdr : Phdr) (elfmem : Nat) (pagedir : Frame) :
    Nat → Nat → PhysMemory → Option (Except Errno Unit × PhysMemory)
  | 0, _, _ => none
  | fuel + 1, off, memory =>
    if off < hdr.pMemsz then
      match
        loadPage supply pagedir (BitVec.ofNat 32 (hdr.pVaddr + off)) 0
          pageBytes (elfmem + hdr.pOffset + off) (bytesToCopy hdr off) memory with
      | (.error error, stopped) => some (.error error, stopped)
      | (.ok (), loaded) =>
        segmentPages supply hdr elfmem pagedir fuel (wrap32 (off + pageBytes)) loaded
    else
      some (.ok (), memory)

/-- `process_segment_from_memory`; the error is returned with a minus. -/
def processSegmentFromMemory
    (supply : Supply Frame) (hdr : Phdr) (elfmem : Nat) (pagedir : Frame) (memory : PhysMemory) :
    Option (Except Errno Unit × PhysMemory) :=
  if hdr.pAlign ≠ pageBytes then
    some (.error .einval, memory)
  else
    let fuel := hdr.pMemsz / pageBytes + 2
    let voff := hdr.pVaddr % pageBytes
    if voff = 0 then
      segmentPages supply hdr elfmem pagedir fuel 0 memory
    else
      let size := pageBytes - voff
      match
        loadPage supply pagedir (BitVec.ofNat 32 (hdr.pVaddr - voff)) voff
          size (elfmem + hdr.pOffset) (min size hdr.pFilesz) memory with
      | (.error error, stopped) => some (.error error, stopped)
      | (.ok (), loaded) => segmentPages supply hdr elfmem pagedir fuel size loaded

/-- The loop over the program headers; the result is `heap_end`. -/
def loadSegments (supply : Supply Frame) (elfmem programHeaders : Nat) (pagedir : Frame) :
    Nat → Nat → Nat → PhysMemory → Option (Except Errno Nat × PhysMemory)
  | 0, _, _, _ => none
  | fuel + 1, i, heapEnd, memory =>
    if i < ePhnum memory.words elfmem then
      let hdr := programHeader memory.words programHeaders i
      if hdr.pType ≠ ptLoad then
        loadSegments supply elfmem programHeaders pagedir fuel (i + 1) heapEnd memory
      else
        match processSegmentFromMemory supply hdr elfmem pagedir memory with
        | none => none
        | some (.error error, stopped) => some (.error error, stopped)
        | some (.ok (), loaded) =>
          loadSegments supply elfmem programHeaders pagedir fuel (i + 1)
            (max heapEnd (wrap32 (hdr.pVaddr + hdr.pMemsz))) loaded
    else
      some (.ok heapEnd, memory)

/-- Why `run_init` gives up. -/
inductive InitStop where
  | noPagedir
  | phoffOutside
  | segmentFailed (error : Errno)
deriving DecidableEq, Repr

/--
`run_init` from `pagedir_alloc` to the end of the header loop: the page
directory and `heap_end`.
-/
def runInit
    (supply : Supply Frame) (kernel : Slot → Word) (elfmem elfSize : Nat) (memory : PhysMemory) :
    Option (Except InitStop (Frame × Nat) × PhysMemory) :=
  let (pagedir, memory) := pagedirAlloc supply kernel memory
  if pagedir = 0 then some (.error .noPagedir, memory)
  else if ePhoff memory.words elfmem < elfSize then
    let programHeaders := elfmem + ePhoff memory.words elfmem
    match
      loadSegments supply elfmem programHeaders pagedir
        (ePhnum memory.words elfmem + 1) 0 0 memory with
    | none => none
    | some (.error error, stopped) => some (.error (.segmentFailed error), stopped)
    | some (.ok heapEnd, loaded) => some (.ok (pagedir, heapEnd), loaded)
  else some (.error .phoffOutside, memory)

end Cosec.Core.ElfSegments
