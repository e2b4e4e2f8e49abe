import Cosec.Lib.ByteArrays
import Cosec.Libc.ErrorNumbers
import Cosec.Mem.Layout

/-!
# Blocks of regular files

This module embeds the block management of ramfs, `ramfs_read_inode` and
`ramfs_write_inode`.

Blocks are pages of kernel memory.  `source` gives the address that call
number `n` of `kmem_alloc(1)` returns, `0` for null; pages keep their old
contents.  The twelve direct blocks are words of the inode, and the indirect
block is a page of words that `ramfs_block_by_index` reads as single signed
characters.

Positions are naturals; lengths and sums are reduced to thirty-two bits and
compared as signed integers where the source casts them.  The loops over
whole pages carry fuel, and `none` means that they do not end.
-/

namespace Cosec.Fs.FileBlocks

open Lib.ByteArrays Lib.Word32 Libc.ErrorNumbers

/-! ## Blocks -/

export Mem.Layout (pageBytes)

/-- `N_DIRECT_BLOCKS`. -/
def nDirectBlocks : Nat := 12

/-- `PAGE_BYTES / sizeof(off_t)`. -/
def nIndblocks : Nat := 1024

/-- Kernel memory by bytes and the number of `kmem_alloc` calls so far. -/
structure PageMemory where
  bytes : Nat → UInt8
  granted : Nat

/-- `i_size` and the block numbers of a regular inode. -/
structure RegFile where
  size : Int
  blockCount : Nat
  directblock : Nat → Nat
  indir1stBlock : Nat

/-- A regular inode as `memset` leaves it. -/
def emptyFile : RegFile where
  size := 0
  blockCount := 0
  directblock := fun _ => 0
  indir1stBlock := 0

/-- A little-endian word. -/
def readWord (bytes : Nat → UInt8) (addr : Nat) : Nat :=
  (bytes (wrap32 addr)).toNat + 256 * (bytes (wrap32 (addr + 1))).toNat +
    65536 * (bytes (wrap32 (addr + 2))).toNat + 16777216 * (bytes (wrap32 (addr + 3))).toNat

/-- The bytes of a word, lowest first. -/
def wordBytes (value : Nat) : List UInt8 :=
  [UInt8.ofNat value, UInt8.ofNat (value / 256),
    UInt8.ofNat (value / 65536), UInt8.ofNat (value / 16777216)]

/-- A signed character extended to a word. -/
def signExtend (byte : UInt8) : Nat :=
  if byte.toNat < 128 then byte.toNat else byte.toNat + 4294967040

/-- The address of a block, `0` for null. -/
def blockByIndex (memory : PageMemory) (file : RegFile) (index : Nat) : Nat :=
  if index < nDirectBlocks then
    file.directblock index
  else if file.indir1stBlock = 0 then
    0
  else if index - nDirectBlocks < nIndblocks then
    signExtend (memory.bytes (wrap32 (file.indir1stBlock + (index - nDirectBlocks))))
  else
    0

/-- `ramfs_new_block`. -/
def newBlock (source : Nat → Nat) (memory : PageMemory) : Nat × PageMemory :=
  (source memory.granted, { memory with granted := memory.granted + 1 })

/-- The address of a block that is allocated when it is missing. -/
def blockByIndexOrNew (source : Nat → Nat) (memory : PageMemory) (file : RegFile)
    (index : Nat) : Nat × RegFile × PageMemory :=
  if index < nDirectBlocks then
    if file.directblock index = 0 then
      let (blkdata, memory) := newBlock source memory
      (blkdata,
        { file with
          directblock := fun other => if other = index then blkdata else file.directblock other
          blockCount := file.blockCount + 1 },
        memory)
    else
      (file.directblock index, file, memory)
  else if index - nDirectBlocks < nIndblocks then
    let (ind1blk, file, memory) := if file.indir1stBlock = 0 then
        let (ind1blk, memory) := newBlock source memory
        (ind1blk, { file with indir1stBlock := ind1blk }, memory)
      else
        (file.indir1stBlock, file, memory)
    let entry := ind1blk + 4 * (index - nDirectBlocks)
    let blkdata := readWord memory.bytes entry
    if blkdata = 0 then
      let (blkdata, memory) := newBlock source memory
      (blkdata, { file with blockCount := file.blockCount + 1 },
        { memory with
          bytes := copyIn memory.bytes (wrap32 entry) (wordBytes blkdata) })
    else
      (blkdata, file, memory)
  else
    (0, file, memory)

/-- The variables of `ramfs_write_inode`. -/
structure Transfer where
  file : RegFile
  memory : PageMemory
  nwrite : Nat
  blkindex : Nat

/--
One block of a write: the bytes go to the block at `offset`.  The result is
`false` when the block is missing.
-/
def writeBlock (source : Nat → Nat) (transfer : Transfer) (offset : Nat)
    (bytes : List UInt8) : Bool × Transfer :=
  let (blkdata, file, memory) :=
    blockByIndexOrNew source transfer.memory transfer.file transfer.blkindex
  if blkdata = 0 then
    (false, { transfer with file := file, memory := memory })
  else
    (true,
      { file := file
        memory :=
          { memory with
            bytes := copyIn memory.bytes (wrap32 (blkdata + offset)) bytes }
        nwrite := transfer.nwrite + bytes.length
        blkindex := transfer.blkindex + 1 })

/-- The partial block at the start of a write. -/
def writeHead (source : Nat → Nat) (memory : PageMemory) (file : RegFile)
    (pos : Nat) (buf : List UInt8) : Bool × Transfer :=
  let offset := pos % pageBytes
  let start : Transfer := ⟨file, memory, 0, pos / pageBytes⟩
  if offset = 0 then (true, start)
  else writeBlock source start offset (buf.take (pageBytes - offset))

/-- The loop over whole pages. -/
def writePages (source : Nat → Nat) (buf : List UInt8) : Nat → Transfer → Option (Bool × Transfer)
  | 0, _ => none
  | fuel + 1, transfer =>
    if wrap32 (transfer.nwrite + pageBytes) ≤ buf.length then
      match writeBlock source transfer 0 ((buf.drop transfer.nwrite).take pageBytes) with
      | (false, stopped) => some (false, stopped)
      | (true, written) => writePages source buf fuel written
    else
      some (true, transfer)

/-- The partial block at the end of a write. -/
def writeTail (source : Nat → Nat) (buf : List UInt8) (transfer : Transfer) : Bool × Transfer :=
  if transfer.nwrite < buf.length then
    writeBlock source transfer 0 (buf.drop transfer.nwrite)
  else
    (true, transfer)

/-- The label `fun_exit`: the size grows even after an error. -/
def writeExit (pos buflen : Nat) (succeeded : Bool) (transfer : Transfer) :
    Except Errno Unit × Nat × RegFile × PageMemory :=
  let endpos := asInt32 (wrap32 (pos + buflen))
  (if succeeded then .ok () else .error .eio, transfer.nwrite, if transfer.file.size < endpos then
      { transfer.file with size := endpos }
    else transfer.file,
    transfer.memory)

/-- The outcome, the bytes written, and the new inode and memory. -/
def writeInode
    (source : Nat → Nat) (memory : PageMemory) (file : RegFile) (pos : Nat) (buf : List UInt8) :
    Option (Except Errno Unit × Nat × RegFile × PageMemory) :=
  match writeHead source memory file pos buf with
  | (false, head) => some (writeExit pos buf.length false head)
  | (true, head) =>
    match writePages source buf (buf.length / pageBytes + 2) head with
    | none => none
    | some (false, pages) => some (writeExit pos buf.length false pages)
    | some (true, pages) =>
      let (tailDone, tail) := writeTail source buf pages
      some (writeExit pos buf.length tailDone tail)

/-! ## Reading -/

/-- The caller's buffer after `count` bytes were stored from `start` on. -/
def storeBuffer (buf : Nat → UInt8) (start count : Nat) (value : Nat → UInt8) : Nat → UInt8 :=
  fun index =>
    if start ≤ index ∧ index < start + count then value (index - start)
    else buf index

/-- One block of a read: the bytes of the block, or zeros for a hole. -/
def readBlock (memory : PageMemory) (file : RegFile) (blkindex offset : Nat)
    (buf : Nat → UInt8) (nread count : Nat) : Nat → UInt8 :=
  let blkdata := blockByIndex memory file blkindex
  if blkdata ≠ 0 then
    storeBuffer buf nread count fun index => memory.bytes (wrap32 (blkdata + offset + index))
  else
    storeBuffer buf nread count fun _ => 0

/-- The loop over whole pages: the bytes read, the next block, the buffer. -/
def readPages (memory : PageMemory) (file : RegFile) (pos buflen : Nat) :
    Nat → Nat → Nat → (Nat → UInt8) → Option (Nat × Nat × (Nat → UInt8))
  | 0, _, _, _ => none
  | fuel + 1, nread, blkindex, buf =>
    if wrap32 (nread + pageBytes) ≤ buflen ∧
        asInt32 (wrap32 (pos + nread + pageBytes)) ≤ file.size then
      readPages memory file pos buflen fuel (nread + pageBytes) (blkindex + 1)
        (readBlock memory file blkindex 0 buf nread pageBytes)
    else
      some (nread, blkindex, buf)

/-- The bytes of the partial block at the start of a read. -/
def headCount (file : RegFile) (pos buflen : Nat) : Nat :=
  let nread := min (pageBytes - pos % pageBytes) buflen
  if file.size < asInt32 nread then file.size.toNat else nread

/-- The bytes of the partial block at the end of a read. -/
def tailCount (file : RegFile) (pos buflen nread : Nat) : Nat :=
  let tocopy := buflen - nread
  if file.size < asInt32 (wrap32 (pos + nread + tocopy)) then
    sub32 file.size.toNat (wrap32 (pos + nread))
  else tocopy

/-- The partial block at the start of a read. -/
def readHead (memory : PageMemory) (file : RegFile) (pos : Nat)
    (buf : Nat → UInt8) (buflen : Nat) : Nat × Nat × (Nat → UInt8) :=
  let blkindex := pos / pageBytes
  let offset := pos % pageBytes
  if offset = 0 then (0, blkindex, buf)
  else
    let nread := headCount file pos buflen
    (nread, blkindex + 1, readBlock memory file blkindex offset buf 0 nread)

/-- The partial block at the end of a read. -/
def readTail (memory : PageMemory) (file : RegFile) (pos buflen : Nat)
    (nread blkindex : Nat) (buf : Nat → UInt8) : Nat × (Nat → UInt8) :=
  if nread < buflen ∧ asInt32 (wrap32 (pos + nread)) < file.size then
    let tocopy := tailCount file pos buflen nread
    (nread + tocopy, readBlock memory file blkindex 0 buf nread tocopy)
  else
    (nread, buf)

/-- The bytes reported in `*written` and the caller's buffer. -/
def readInode
    (memory : PageMemory) (file : RegFile) (pos : Nat) (buf : Nat → UInt8) (buflen : Nat) :
    Option (Nat × (Nat → UInt8)) :=
  if file.size ≤ pos then
    some (0, buf)
  else
    let (nread, blkindex, buf) := readHead memory file pos buf buflen
    match readPages memory file pos buflen (buflen / pageBytes + 2) nread blkindex buf with
    | none => none
    | some (nread, blkindex, buf) => some (readTail memory file pos buflen nread blkindex buf)

end Cosec.Fs.FileBlocks
