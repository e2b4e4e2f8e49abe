import Mathlib.Data.List.Range
import Mathlib.Tactic.SplitIfs
import Cosec.Fs.FileBlocks

/-!
# A write as a sequence of blocks

`ramfs_write_inode` copies the rest of a block, whole blocks and the
beginning of a last one.  Each of these is one block write, so a write is a
walk over the blocks it needs, and what every block write keeps, the whole
write keeps.
-/

namespace Cosec.Fs.BlockWrites

open Fs.FileBlocks Lib.Word32 Libc.ErrorNumbers List

/-! ## The blocks of a write -/

/-- The blocks a write at `pos` has to get, in the order it asks for them. -/
def neededBlocks (pos len : Nat) : List Nat :=
  List.range' (pos / 4096) ((pos % 4096 + len + 4095) / 4096)

/-- Where the bytes of a write start in a block. -/
def blockOffset (pos index : Nat) : Nat := pos - 4096 * index

/-- The bytes of a write that go to a block. -/
def blockPiece (pos : Nat) (buf : List UInt8) (index : Nat) : List UInt8 :=
  (buf.drop (4096 * index - pos)).take (4096 - blockOffset pos index)

/-- The blocks of a write one after the other, up to the first null page. -/
def writeBlocks (source : Nat → Nat) (pos : Nat) (buf : List UInt8) :
    Nat → Transfer → Bool × Transfer
  | 0, transfer => (true, transfer)
  | count + 1, transfer =>
    match
      writeBlock source transfer (blockOffset pos transfer.blkindex)
        (blockPiece pos buf transfer.blkindex) with
    | (false, stopped) => (false, stopped)
    | (true, written) => writeBlocks source pos buf count written

/-- The loop over whole pages and the block at the end. -/
def writeRest (source : Nat → Nat) (buf : List UInt8) (fuel : Nat)
    (transfer : Transfer) : Option (Bool × Transfer) :=
  match writePages source buf fuel transfer with
  | none => none
  | some (false, pages) => some (false, pages)
  | some (true, pages) => some (writeTail source buf pages)

variable {source : Nat → Nat} {pos : Nat} {buf : List UInt8}

theorem length_blockPiece (pos : Nat) (buf : List UInt8) (index : Nat) :
    (blockPiece pos buf index).length =
      min (4096 - blockOffset pos index) (buf.length - (4096 * index - pos)) := by
  rw [blockPiece, length_take, length_drop]

theorem blockOffset_first (pos : Nat) : blockOffset pos (pos / 4096) = pos % 4096 := by
  unfold blockOffset
  omega

theorem blockPiece_first (pos : Nat) (buf : List UInt8) :
    blockPiece pos buf (pos / 4096) = buf.take (4096 - pos % 4096) := by
  have start : 4096 * (pos / 4096) - pos = 0 := by omega
  rw [blockPiece, blockOffset_first, start, drop_zero]

variable {nwrite : Nat}

/-- Where a block starts that a write has come to. -/
theorem blockOffset_next {index : Nat} (placed : pos + nwrite = 4096 * index) :
    blockOffset pos index = 0 := by
  unfold blockOffset
  omega

theorem blockPiece_next {index : Nat} (placed : pos + nwrite = 4096 * index) :
    blockPiece pos buf index = (buf.drop nwrite).take pageBytes := by
  have done : 4096 * index - pos = nwrite := by omega
  rw [blockPiece, blockOffset_next placed, done]
  rfl

theorem writeBlock_beyond {transfer : Transfer} {offset : Nat} {bytes : List UInt8}
    (beyond : ¬ transfer.blkindex < 1036) :
    writeBlock source transfer offset bytes = (false, transfer) := by
  have nothing :
      blockByIndexOrNew source transfer.memory transfer.file transfer.blkindex =
        (0, transfer.file, transfer.memory) := by
    unfold blockByIndexOrNew nDirectBlocks nIndblocks
    rw [if_neg (by omega), if_neg (by omega)]
  rw [writeBlock, nothing]
  rfl

theorem writeBlock_advances {transfer written : Transfer} {offset : Nat} {bytes : List UInt8}
    (stored : writeBlock source transfer offset bytes = (true, written)) :
    transfer.blkindex < 1036 ∧ written.nwrite = transfer.nwrite + bytes.length ∧
      written.blkindex = transfer.blkindex + 1 := by
  have bounded : transfer.blkindex < 1036 := by
    by_contra beyond
    rw [writeBlock_beyond beyond] at stored
    cases stored
  unfold writeBlock at stored
  dsimp only at stored
  split at stored
  · cases stored
  · cases stored
    exact ⟨bounded, rfl, rfl⟩

/-! ## Where a write stands -/

/-- Where a write stands in front of a block, with some blocks to go. -/
structure AtBlock (pos : Nat) (buf : List UInt8) (count : Nat) (transfer : Transfer) : Prop where
  started : pos / 4096 ≤ transfer.blkindex
  reaches : pos + buf.length ≤ 4096 * (transfer.blkindex + count)
  within : 4096 * (transfer.blkindex + count) < pos + buf.length + 4096
  nwrite : transfer.nwrite = min buf.length (4096 * transfer.blkindex - pos)

variable {count fuel : Nat} {transfer written : Transfer}

theorem atBlock_start (pos : Nat) (buf : List UInt8) (memory : PageMemory) (file : RegFile) :
    AtBlock pos buf ((pos % 4096 + buf.length + 4095) / 4096) ⟨file, memory, 0, pos / 4096⟩ := by
  constructor <;> simp only <;> omega

theorem AtBlock.inPage (position : AtBlock pos buf count transfer) :
    blockOffset pos transfer.blkindex + (blockPiece pos buf transfer.blkindex).length ≤ 4096 := by
  have started := position.started
  rw [length_blockPiece]
  unfold blockOffset
  omega

theorem AtBlock.next (position : AtBlock pos buf (count + 1) transfer)
    (stored :
      writeBlock source transfer (blockOffset pos transfer.blkindex)
        (blockPiece pos buf transfer.blkindex) = (true, written)) :
    AtBlock pos buf count written := by
  obtain ⟨started, reaches, within, nwrite⟩ := position
  obtain ⟨_, advanced, next⟩ := writeBlock_advances stored
  rw [length_blockPiece] at advanced
  unfold blockOffset at advanced
  constructor <;> omega

/-- The loop and the last block, from a whole block on. -/
theorem writeRest_eq (short : transfer.nwrite ≤ 4243456) (behind : pos ≤ 4096 * transfer.blkindex)
    (position : AtBlock pos buf count transfer) (enough : count < fuel) :
    writeRest source buf fuel transfer = some (writeBlocks source pos buf count transfer) := by
  induction fuel generalizing transfer count with
  | zero => omega
  | succ fuel ih =>
    have ⟨started, reaches, within, nwrite⟩ := position
    have next : wrap32 (transfer.nwrite + pageBytes) = transfer.nwrite + 4096 :=
      wrap32_of_lt (by unfold pageBytes; omega)
    rw [writeRest, writePages, next]
    cases count with
    | zero =>
      rw [if_neg (by omega)]
      simp only
      rw [writeTail, if_neg (by omega), writeBlocks]
    | succ count =>
      have placed : pos + transfer.nwrite = 4096 * transfer.blkindex := by omega
      rw [writeBlocks, blockOffset_next placed, blockPiece_next placed]
      by_cases wholePage : transfer.nwrite + 4096 ≤ buf.length
      · rw [if_pos wholePage]
        cases stored : writeBlock source transfer 0 ((buf.drop transfer.nwrite).take pageBytes) with
        | mk succeeded written =>
          cases succeeded with
          | false => rfl
          | true =>
            obtain ⟨bounded, advanced, later⟩ := writeBlock_advances stored
            rw [← blockOffset_next placed, ← blockPiece_next placed] at stored
            have after := position.next stored
            exact ih (by have := after.nwrite; omega) (by omega) after (by omega)
      · have rest : (buf.drop transfer.nwrite).take pageBytes = buf.drop transfer.nwrite := by
          apply take_of_length_le
          rw [length_drop, pageBytes]
          omega
        obtain rfl : count = 0 := by omega
        rw [if_neg wholePage, rest]
        simp only
        rw [writeTail, if_pos (by omega)]
        rcases writeBlock source transfer 0 (buf.drop transfer.nwrite) with ⟨_ | _, written⟩
        · rfl
        · rfl

variable {memory : PageMemory} {file : RegFile}

theorem writeInode_of_rest {head : Transfer} {ended : Bool × Transfer}
    (headed : writeHead source memory file pos buf = (true, head))
    (rest : writeRest source buf (buf.length / pageBytes + 2) head = some ended) :
    writeInode source memory file pos buf = some (writeExit pos buf.length ended.1 ended.2) := by
  unfold writeInode
  rw [headed]
  simp only
  unfold writeRest at rest
  cases looped : writePages source buf (buf.length / pageBytes + 2) head with
  | none =>
    rw [looped] at rest
    cases rest
  | some loop =>
    rw [looped] at rest
    obtain ⟨continued, pages⟩ := loop
    cases continued with
    | false =>
      cases rest
      rfl
    | true =>
      cases rest
      rfl

theorem writeHead_unaligned
    (memory : PageMemory) (file : RegFile) (unaligned : pos % pageBytes ≠ 0) :
    writeHead source memory file pos buf =
      writeBlock source ⟨file, memory, 0, pos / 4096⟩ (blockOffset pos (pos / 4096))
        (blockPiece pos buf (pos / 4096)) := by
  rw [writeHead, if_neg unaligned, blockPiece_first, blockOffset_first]
  rfl

/-- A write is its blocks, one after the other. -/
theorem writeInode_eq
    (source : Nat → Nat) (memory : PageMemory) (file : RegFile) (pos : Nat) (buf : List UInt8) :
    writeInode source memory file pos buf =
      some
        (let ended :=
          writeBlocks source pos buf (neededBlocks pos buf.length).length
            ⟨file, memory, 0, pos / 4096⟩
        writeExit pos buf.length ended.1 ended.2) := by
  rw [neededBlocks, length_range']
  have position := atBlock_start pos buf memory file
  by_cases aligned : pos % pageBytes = 0
  · apply writeInode_of_rest (if_pos aligned)
    unfold pageBytes at *
    exact writeRest_eq (Nat.zero_le _) (by simp only; omega) position (by omega)
  · have headed := @writeHead_unaligned source pos buf memory file aligned
    unfold pageBytes at aligned
    obtain ⟨count, countEq⟩ : ∃ count, (pos % 4096 + buf.length + 4095) / 4096 = count + 1 :=
      ⟨(pos % 4096 + buf.length + 4095) / 4096 - 1, by omega⟩
    rw [countEq] at position ⊢
    rw [writeBlocks]
    cases stored :
        writeBlock source ⟨file, memory, 0, pos / 4096⟩ (blockOffset pos (pos / 4096))
          (blockPiece pos buf (pos / 4096)) with
    | mk succeeded written =>
      rw [stored] at headed
      cases succeeded with
      | false => rw [writeInode, headed]
      | true =>
        obtain ⟨_, advanced, next⟩ := writeBlock_advances stored
        simp only [length_blockPiece, Nat.zero_add] at advanced next
        apply writeInode_of_rest headed
        exact writeRest_eq (by omega) (by omega) (position.next stored) (by unfold pageBytes; omega)

theorem writeBlocks_of_writeInode {after : PageMemory} {stored : RegFile}
    (wrote : writeInode source memory file pos buf = some (.ok (), nwrite, stored, after)) :
    ∃ transfer,
      writeBlocks source pos buf ((pos % 4096 + buf.length + 4095) / 4096)
          ⟨file, memory, 0, pos / 4096⟩ = (true, transfer) ∧
        writeExit pos buf.length true transfer = (.ok (), nwrite, stored, after) := by
  rw [writeInode_eq, neededBlocks, length_range', Option.some.injEq] at wrote
  cases ended :
      writeBlocks source pos buf ((pos % 4096 + buf.length + 4095) / 4096)
        ⟨file, memory, 0, pos / 4096⟩ with
  | mk succeeded transfer =>
    rw [ended] at wrote
    cases succeeded with
    | false => cases congrArg Prod.fst wrote
    | true => exact ⟨transfer, rfl, wrote⟩

theorem writeBlocks_rule {invariant : Bool → Transfer → Prop}
    (kept :
      ∀ count transfer done written,
        invariant true transfer → AtBlock pos buf (count + 1) transfer →
        writeBlock source transfer (blockOffset pos transfer.blkindex)
          (blockPiece pos buf transfer.blkindex) = (done, written) → invariant done written)
    {done : Bool} (holds : invariant true transfer) (position : AtBlock pos buf count transfer)
    (ended : writeBlocks source pos buf count transfer = (done, written)) :
    invariant done written ∧ (done = true → AtBlock pos buf 0 written) := by
  induction count generalizing transfer with
  | zero =>
    cases ended
    exact ⟨holds, fun _ => position⟩
  | succ count ih =>
    rw [writeBlocks] at ended
    split at ended
    · rename_i stopped stored
      cases ended
      exact ⟨kept count transfer _ _ holds position stored, nofun⟩
    · rename_i next stored
      exact ih (kept count transfer _ _ holds position stored) (position.next stored) ended

end Cosec.Fs.BlockWrites
