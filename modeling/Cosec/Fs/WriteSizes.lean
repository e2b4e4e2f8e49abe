import Cosec.Fs.PlacedBlocks

/-!
# What a write reports and what it leaves

A write should account for itself: the bytes it reports are in the file, the
size grows to their end and no further, and a write that returns `0` reports
all of its bytes.

`ramfs_write_inode` stops at the first block it cannot get.  The data is
there, as long as the pages of the file are kept apart, but the size is taken
from the length that was asked for: it is wrong after a write that stopped,
unless the file was longer, and after an empty write behind the end.
-/

namespace Cosec.Fs.WriteSizes

open Fs.BlockOwnership Fs.BlockWrites Fs.FileBlocks Fs.PlacedBlocks Lib.Transition Lib.Word32
open Libc.ErrorNumbers List

/-! ## What a write has to account for -/

/-- The result of a write agrees with the file it leaves. -/
structure Accounted
    (before : RegFile) (pos : Nat) (buf : List UInt8) (outcome : Except Errno Unit) (nwrite : Nat)
    (stored : RegFile) (after : PageMemory) : Prop where
  held : ∀ index < nwrite, index < buf.length ∧ fileByte after stored (pos + index) = buf[index]?
  size : stored.size = if 0 < nwrite then max before.size (pos + nwrite) else before.size
  complete : outcome = .ok () → nwrite = buf.length

/-! ## The pages of a write -/

/-- The blocks of a list that a file does not have. -/
def missingBlocks (memory : PageMemory) (file : RegFile) (blocks : List Nat) : Nat :=
  blocks.countP fun index => decide (index < 1036 ∧ blockOf memory file index = 0)

/-- A write to some blocks has to make the table. -/
def NeedsTable (file : RegFile) (blocks : List Nat) : Prop :=
  file.indir1stBlock = 0 ∧ ∃ index ∈ blocks, 12 ≤ index ∧ index < 1036

instance (file : RegFile) (blocks : List Nat) : Decidable (NeedsTable file blocks) :=
  inferInstanceAs (Decidable (_ ∧ _))

/-- The pages a write to some blocks asks for, if it gets them all. -/
def pagesNeeded (memory : PageMemory) (file : RegFile) (blocks : List Nat) : Nat :=
  missingBlocks memory file blocks + if NeedsTable file blocks then 1 else 0

/-- The request for the table comes after those for the direct blocks. -/
def tableRequest (memory : PageMemory) (file : RegFile) (blocks : List Nat) : Nat :=
  memory.granted + blocks.countP fun index => decide (index < 12 ∧ blockOf memory file index = 0)

section Counting

variable {memory after : PageMemory} {file stored : RegFile} {index count : Nat}

section Others

variable
  (others : ∀ other < 1036, other ≠ index → blockOf after stored other = blockOf memory file other)

include others

theorem countP_blockOf_congr {bound : Nat} (small : bound ≤ 1036) :
    ((List.range' (index + 1) count).countP fun other =>
        decide (other < bound ∧ blockOf after stored other = 0)) =
      (List.range' (index + 1) count).countP fun other =>
        decide (other < bound ∧ blockOf memory file other = 0) := by
  apply countP_congr
  intro other member
  obtain ⟨lower, _⟩ := mem_range'_1.mp member
  simp only [decide_eq_true_eq]
  apply and_congr_right
  intro inside
  rw [others other (by omega) (by omega)]

end Others

theorem needsTable_next (bounded : index < 1036)
    (rooted : stored.indir1stBlock = 0 ↔ file.indir1stBlock = 0 ∧ index < 12) :
    (if NeedsTable file (List.range' index (count + 1)) then 1 else 0) =
      (if 12 ≤ index ∧ file.indir1stBlock = 0 then 1 else 0) +
        if NeedsTable stored (List.range' (index + 1) count) then 1 else 0 := by
  by_cases direct : index < 12
  · have free : ¬ (12 ≤ index ∧ file.indir1stBlock = 0) := by
      rintro ⟨indirect, _⟩
      omega
    have next : NeedsTable file (List.range' index (count + 1)) ↔
        NeedsTable stored (List.range' (index + 1) count) := by
      unfold NeedsTable
      rw [rooted, List.range'_succ]
      simp only [mem_cons, exists_eq_or_imp]
      constructor
      · rintro ⟨rootless, here | there⟩
        · omega
        · exact ⟨⟨rootless, direct⟩, there⟩
      · rintro ⟨⟨rootless, _⟩, there⟩
        exact ⟨rootless, Or.inr there⟩
    simp only [next, if_neg free, Nat.zero_add]
  · have indirect : 12 ≤ index := not_lt.mp direct
    have later : ¬ NeedsTable stored (List.range' (index + 1) count) := by
      rintro ⟨rootless, _⟩
      exact direct (rooted.mp rootless).2
    have needs :
        NeedsTable file (List.range' index (count + 1)) ↔ file.indir1stBlock = 0 :=
      ⟨And.left, fun rootless => ⟨rootless, index, mem_cons_self, indirect, bounded⟩⟩
    simp only [needs, indirect, true_and, if_neg later, Nat.add_zero]

theorem pagesNeeded_next (bounded : index < 1036)
    (others :
      ∀ other < 1036, other ≠ index → blockOf after stored other = blockOf memory file other)
    (rooted : stored.indir1stBlock = 0 ↔ file.indir1stBlock = 0 ∧ index < 12) :
    pagesNeeded memory file (List.range' index (count + 1)) =
      blockCost memory file index + pagesNeeded after stored (List.range' (index + 1) count) := by
  unfold pagesNeeded blockCost missingBlocks
  rw [countP_blockOf_congr others le_rfl, List.range'_succ, countP_cons, ← List.range'_succ,
    needsTable_next bounded rooted]
  simp only [bounded, true_and, decide_eq_true_eq]
  omega

end Counting

/-! ## A whole write -/

/-- A write in front of its next block, with some blocks to go. -/
structure Underway
    (source : Nat → Nat) (limit pos : Nat) (buf : List UInt8)
    (count : Nat) (transfer : Transfer) : Prop where
  placed : Placed source limit transfer.memory transfer.file
  budget :
    transfer.memory.granted +
        pagesNeeded transfer.memory transfer.file (List.range' transfer.blkindex count) = limit
  ready : NeedsTable transfer.file (List.range' transfer.blkindex count) →
    TableReady source transfer.memory
      (tableRequest transfer.memory transfer.file (List.range' transfer.blkindex count))
  started : pos / 4096 ≤ transfer.blkindex
  reaches : pos + buf.length ≤ 4096 * (transfer.blkindex + count)
  within : 4096 * (transfer.blkindex + count) < pos + buf.length + 4096
  nwrite : transfer.nwrite = min buf.length (4096 * transfer.blkindex - pos)
  held :
    ∀ index < transfer.nwrite, fileByte transfer.memory transfer.file (pos + index) = buf[index]?

section Underway

variable {source : Nat → Nat} {limit pos : Nat} {buf : List UInt8} {count : Nat}
  {transfer written stopped : Transfer}

theorem Underway.atBlock (underway : Underway source limit pos buf count transfer) :
    AtBlock pos buf count transfer :=
  ⟨underway.started, underway.reaches, underway.within, underway.nwrite⟩

/-- The page for the table is still to be given. -/
theorem tableRequest_lt
    {memory : PageMemory} {file : RegFile} {blocks : List Nat} (needs : NeedsTable file blocks) :
    tableRequest memory file blocks < memory.granted + pagesNeeded memory file blocks := by
  have direct : (blocks.countP fun index =>
          decide (index < 12 ∧ blockOf memory file index = 0)) ≤
        missingBlocks memory file blocks := by
    apply countP_mono_left
    intro index _ counted
    simp only [decide_eq_true_eq] at counted ⊢
    exact ⟨by omega, counted.2⟩
  unfold tableRequest pagesNeeded
  rw [if_pos needs]
  omega

section Next

variable (underway : Underway source limit pos buf (count + 1) transfer)

include underway

theorem Underway.obtained (bounded : transfer.blkindex < 1036) :
    Obtained source limit transfer.memory transfer.file transfer.blkindex
      (blockByIndexOrNew source transfer.memory transfer.file transfer.blkindex) := by
  have member : transfer.blkindex ∈ List.range' transfer.blkindex (count + 1) := by
    exact mem_cons_self
  apply underway.placed.obtained bounded
  · have budget := underway.budget
    have blocks :
        (if blockOf transfer.memory transfer.file transfer.blkindex = 0 then 1 else 0) ≤
          missingBlocks transfer.memory transfer.file
            (List.range' transfer.blkindex (count + 1)) := by
      unfold missingBlocks
      rw [List.range'_succ, countP_cons]
      simp only [bounded, true_and, decide_eq_true_eq]
      omega
    have tables :
        (if 12 ≤ transfer.blkindex ∧ transfer.file.indir1stBlock = 0 then 1 else 0) ≤
          if NeedsTable transfer.file
            (List.range' transfer.blkindex (count + 1)) then 1 else 0 := by
      split
      · rename_i needs
        rw [if_pos ⟨needs.2, transfer.blkindex, member, needs.1, bounded⟩]
      · exact Nat.zero_le _
    unfold pagesNeeded at budget
    unfold blockCost
    omega
  · intro indirect rootless
    have ready := underway.ready ⟨rootless, transfer.blkindex, member, indirect, bounded⟩
    rw [tableRequest, countP_eq_zero.mpr, Nat.add_zero] at ready
    · exact ready
    · intro other inside
      obtain ⟨lower, _⟩ := mem_range'_1.mp inside
      simp only [decide_eq_true_eq]
      omega

/-- The table can still be made after a block. -/
theorem Underway.ready_next {offset : Nat} {bytes : List UInt8}
    (stepped : Stepped source limit transfer offset bytes written)
    (needs : NeedsTable written.file (List.range' (transfer.blkindex + 1) count))
    (budget :
      written.memory.granted +
          pagesNeeded written.memory written.file (List.range' (transfer.blkindex + 1) count) =
        limit) :
    TableReady source written.memory
      (tableRequest written.memory written.file (List.range' (transfer.blkindex + 1) count)) := by
  obtain ⟨rootless, direct⟩ := stepped.rooted.mp needs.1
  have earlier : NeedsTable transfer.file (List.range' transfer.blkindex (count + 1)) := by
    obtain ⟨_, index, member, bounds⟩ := needs
    refine ⟨rootless, index, ?_, bounds⟩
    exact mem_cons_of_mem _ member
  have same :
      tableRequest written.memory written.file (List.range' (transfer.blkindex + 1) count) =
        tableRequest transfer.memory transfer.file
          (List.range' transfer.blkindex (count + 1)) := by
    have free : ¬ (12 ≤ transfer.blkindex ∧ transfer.file.indir1stBlock = 0) := by
      rintro ⟨indirect, _⟩
      omega
    unfold tableRequest
    rw [countP_blockOf_congr stepped.others (by omega), List.range'_succ,
      countP_cons, stepped.granted, blockCost, if_neg free]
    simp only [direct, true_and, decide_eq_true_eq]
    omega
  obtain ⟨given, zeros⟩ := underway.ready earlier
  have ahead :
      written.memory.granted ≤
        tableRequest written.memory written.file (List.range' (transfer.blkindex + 1) count) :=
    Nat.le_add_right _ _
  have below :
      tableRequest written.memory written.file
          (List.range' (transfer.blkindex + 1) count) < limit := by
    rw [← budget]
    exact tableRequest_lt needs
  rw [← same] at given zeros
  refine ⟨given, ?_⟩
  intro position inside
  rw [← zeros position inside]
  exact
    stepped.kept (.request _) ⟨ahead, below⟩ Slot.noConfusion Slot.noConfusion given position inside

/-- The bytes of a block join those that were already written. -/
theorem Underway.held_next (bounded : transfer.blkindex < 1036)
    (stepped :
      Stepped source limit transfer (blockOffset pos transfer.blkindex)
        (blockPiece pos buf transfer.blkindex) written)
    {index : Nat} (inside : index < min buf.length (4096 * (transfer.blkindex + 1) - pos)) :
    fileByte written.memory written.file (pos + index) = buf[index]? := by
  have nwrite := underway.nwrite
  have length := length_blockPiece pos buf transfer.blkindex
  by_cases earlier : index < transfer.nwrite
  · rw [stepped.fileByte_kept (by omega) (by omega)]
    exact underway.held index earlier
  · have data :=
      stepped.data (index - (4096 * transfer.blkindex - pos))
        (by unfold blockOffset at length; omega)
    have position :
        4096 * transfer.blkindex + blockOffset pos transfer.blkindex +
            (index - (4096 * transfer.blkindex - pos)) = pos + index := by
      unfold blockOffset
      omega
    rw [position] at data
    rw [data, blockPiece, getElem?_take_of_lt, getElem?_drop]
    · congr 1
      omega
    · unfold blockOffset
      omega

theorem Underway.next (bounded : transfer.blkindex < 1036)
    (stored :
      writeBlock source transfer (blockOffset pos transfer.blkindex)
          (blockPiece pos buf transfer.blkindex) = (true, written)) :
    Underway source limit pos buf count written ∧ written.file.size = transfer.file.size ∧
      transfer.memory.granted ≤ written.memory.granted ∧
      ∀ request, transfer.memory.granted ≤ request →
        request < written.memory.granted → source request ≠ 0 := by
  obtain ⟨stepped, answered⟩ :=
    (writeBlock_outcome (underway.obtained bounded) bounded underway.atBlock.inPage stored).1 rfl
  have next := (writeBlock_advances stored).2.2
  have position := underway.atBlock.next stored
  have nwrite := position.nwrite
  have budget := underway.budget
  rw [pagesNeeded_next bounded stepped.others stepped.rooted,
    ← Nat.add_assoc, ← stepped.granted, ← next] at budget
  refine ⟨?_, stepped.size, ?_, answered⟩
  · refine ⟨stepped.placed, budget, ?_, position.started, position.reaches, position.within,
      nwrite, ?_⟩
    · rw [next] at budget ⊢
      intro needs
      exact underway.ready_next stepped needs budget
    · intro index inside
      rw [nwrite, next] at inside
      exact underway.held_next bounded stepped inside
  · rw [stepped.granted]
    exact Nat.le_add_right _ _

end Next

/-- Every block is a block of a file, and no page up to `limit` is null. -/
def Supplies (source : Nat → Nat) (granted limit : Nat) (blocks : List Nat) : Prop :=
  (∀ index ∈ blocks, index < 1036) ∧
    ∀ request, granted ≤ request → request < limit → source request ≠ 0

/-- The end of a write, at its last block or at the first null page. -/
structure Finished
    (source : Nat → Nat) (limit pos : Nat) (buf : List UInt8)
    (count : Nat) (transfer : Transfer) (ended : Bool × Transfer) :
    Prop where
  size : ended.2.file.size = transfer.file.size
  held :
    ∀ index < ended.2.nwrite,
      index < buf.length ∧ fileByte ended.2.memory ended.2.file (pos + index) = buf[index]?
  succeeds :
    ended.1 = true ↔
      Supplies source transfer.memory.granted limit (List.range' transfer.blkindex count)
  complete : ended.1 = true → ended.2.nwrite = buf.length
  short : ended.1 = false → ended.2.nwrite < buf.length ∨ ended.2.nwrite = 0 ∧ buf.length = 0

theorem Underway.finished_zero (underway : Underway source limit pos buf 0 transfer) :
    Finished source limit pos buf 0 transfer (true, transfer) := by
  have reaches := underway.reaches
  have nwrite := underway.nwrite
  have all : transfer.nwrite = buf.length := by omega
  constructor
  · rfl
  · intro index inside
    exact ⟨by simp only at inside; omega, underway.held index inside⟩
  · simp only [true_iff]
    constructor
    · intro index member
      cases member
    · intro request lower upper
      have budget := underway.budget
      have nothing :
          pagesNeeded transfer.memory transfer.file (List.range' transfer.blkindex 0) = 0 := by
        simp [pagesNeeded, missingBlocks, NeedsTable]
      omega
  · intro _
    exact all
  · intro failed
    cases failed

/-- A block is not to be had, and what was written stays. -/
theorem Underway.finished_stopped (underway : Underway source limit pos buf (count + 1) transfer)
    (size : stopped.file.size = transfer.file.size) (nwriteSame : stopped.nwrite = transfer.nwrite)
    (kept :
      ∀ position, position / 4096 < transfer.blkindex →
        fileByte stopped.memory stopped.file position =
          fileByte transfer.memory transfer.file position)
    (lacking :
      ¬ Supplies source transfer.memory.granted limit (List.range' transfer.blkindex (count + 1))) :
    Finished source limit pos buf (count + 1) transfer (false, stopped) := by
  have nwrite := underway.nwrite
  have within := underway.within
  constructor
  · exact size
  · intro index inside
    simp only [nwriteSame] at inside
    refine ⟨by omega, ?_⟩
    rw [kept _ (by omega)]
    exact underway.held index inside
  · constructor
    · intro succeeded
      cases succeeded
    · intro supplies
      exact absurd supplies lacking
  · intro succeeded
    cases succeeded
  · intro _
    simp only [nwriteSame]
    omega

theorem supplies_next {granted after : Nat} (bounded : transfer.blkindex < 1036)
    (answered : ∀ request, granted ≤ request → request < after → source request ≠ 0)
    (ordered : granted ≤ after) :
    Supplies source after limit (List.range' (transfer.blkindex + 1) count) ↔
      Supplies source granted limit (List.range' transfer.blkindex (count + 1)) := by
  unfold Supplies
  rw [List.range'_succ, forall_mem_cons]
  constructor
  · rintro ⟨small, later⟩
    refine ⟨⟨bounded, small⟩, ?_⟩
    intro request lower upper
    by_cases given : request < after
    · exact answered request lower given
    · exact later request (not_lt.mp given) upper
  · rintro ⟨⟨_, small⟩, all⟩
    refine ⟨small, ?_⟩
    intro request lower upper
    exact all request (le_trans ordered lower) upper

/-- A write in front of a block comes to an end that accounts for it. -/
theorem Underway.finished (underway : Underway source limit pos buf count transfer) :
    Finished source limit pos buf count transfer (writeBlocks source pos buf count transfer) := by
  induction count generalizing transfer with
  | zero => exact underway.finished_zero
  | succ count ih =>
    rw [writeBlocks]
    by_cases bounded : transfer.blkindex < 1036
    · cases stored :
          writeBlock source transfer (blockOffset pos transfer.blkindex)
            (blockPiece pos buf transfer.blkindex) with
      | mk succeeded result =>
        cases succeeded with
        | false =>
          obtain ⟨nullBlock, nwriteSame⟩ :=
            (writeBlock_outcome (underway.obtained bounded) bounded underway.atBlock.inPage
              stored).2 rfl
          apply underway.finished_stopped nullBlock.size nwriteSame
          · intro position earlier
            apply fileByte_congr (nullBlock.others _ (by omega) (by omega))
            intro present
            exact
              nullBlock.kept (.block (position / 4096)) (by simp only [Slot.Within]; omega)
                Slot.noConfusion present _ (Nat.mod_lt _ (by omega))
          · rintro ⟨_, all⟩
            have granted := nullBlock.granted
            have budget := underway.budget
            rw [pagesNeeded_next bounded nullBlock.others nullBlock.rooted] at budget
            apply nullBlock.answered.mpr _ rfl
            intro request lower upper
            exact all request lower (by omega)
        | true =>
          obtain ⟨next, size, ordered, answered⟩ := underway.next bounded stored
          have advanced := (writeBlock_advances stored).2.2
          have later := ih next
          constructor
          · exact later.size.trans size
          · exact later.held
          · rw [← supplies_next bounded answered ordered, ← advanced]
            exact later.succeeds
          · exact later.complete
          · exact later.short
    · rw [writeBlock_beyond bounded]
      apply underway.finished_stopped rfl rfl
      · intro position _
        rfl
      · rintro ⟨small, _⟩
        apply bounded
        apply small
        exact mem_cons_self

end Underway

/-- All that a write asks for is there. -/
def Complete (source : Nat → Nat) (memory : PageMemory) (file : RegFile) (pos len : Nat) : Prop :=
  Supplies source memory.granted
    (memory.granted + pagesNeeded memory file (neededBlocks pos len)) (neededBlocks pos len)

/--
The pages of a file and those a write is given are kept apart, and a table
that it has to make starts with zeros.
-/
structure Sheltered
    (source : Nat → Nat) (memory : PageMemory) (file : RegFile) (pos len : Nat) : Prop where
  placed :
    Placed source (memory.granted + pagesNeeded memory file (neededBlocks pos len)) memory file
  ready : NeedsTable file (neededBlocks pos len) →
    TableReady source memory (tableRequest memory file (neededBlocks pos len))

section Sheltered

variable {source : Nat → Nat} {memory : PageMemory} {file : RegFile} {pos : Nat} {buf : List UInt8}

theorem Sheltered.underway (sheltered : Sheltered source memory file pos buf.length) :
    Underway source (memory.granted + pagesNeeded memory file (neededBlocks pos buf.length))
      pos buf ((pos % 4096 + buf.length + 4095) / 4096) ⟨file, memory, 0, pos / 4096⟩ := by
  constructor
  · exact sheltered.placed
  · rfl
  · exact sheltered.ready
  · exact le_rfl
  · simp only
    omega
  · simp only
    omega
  · simp only
    omega
  · intro index inside
    cases inside

/-- The size follows the length that was asked for. -/
theorem writeExit_size
    {succeeded : Bool} {transfer : Transfer} (representable : pos + buf.length < 2147483648) :
    (writeExit pos buf.length succeeded transfer).2.2.1.size =
      max transfer.file.size ((pos + buf.length : Nat) : Int) := by
  unfold writeExit
  simp only [asInt32_wrap32_of_lt representable]
  split
  · simp only
    omega
  · omega

theorem fileByte_writeExit (succeeded : Bool) (transfer : Transfer) (position : Nat) :
    fileByte (writeExit pos buf.length succeeded transfer).2.2.2
        (writeExit pos buf.length succeeded transfer).2.2.1 position =
      fileByte transfer.memory transfer.file position := by
  unfold writeExit
  simp only
  split
  · rfl
  · rfl

/-- What the data, the size and the count come to at the end of a write. -/
theorem accounted_writeExit_iff
    {succeeded : Bool} {transfer : Transfer} (representable : pos + buf.length < 2147483648)
    (size : transfer.file.size = file.size)
    (held :
      ∀ index < transfer.nwrite,
        index < buf.length ∧ fileByte transfer.memory transfer.file (pos + index) = buf[index]?)
    (complete : succeeded = true → transfer.nwrite = buf.length) :
    Accounted file pos buf (writeExit pos buf.length succeeded transfer).1
        (writeExit pos buf.length succeeded transfer).2.1
        (writeExit pos buf.length succeeded transfer).2.2.1
        (writeExit pos buf.length succeeded transfer).2.2.2 ↔
      max file.size ((pos + buf.length : Nat) : Int) = if 0 < transfer.nwrite then
          max file.size ((pos : Int) + transfer.nwrite)
        else file.size := by
  have newSize := @writeExit_size pos buf succeeded transfer representable
  rw [size] at newSize
  constructor
  · intro accounted
    rw [← newSize]
    exact accounted.size
  · intro sizes
    constructor
    · intro index inside
      rw [fileByte_writeExit]
      exact held index inside
    · rw [newSize]
      exact sizes
    · intro returned
      apply complete
      cases succeeded with
      | false => cases returned
      | true => rfl

/--
A write accounts for itself exactly when it gets all its pages and is not an
empty one behind the end of the file, or when it does not get them and the
file is long enough already.
-/
theorem write_accounted_iff (representable : pos + buf.length < 2147483648)
    (sheltered : Sheltered source memory file pos buf.length) :
    ∃ outcome nwrite stored after,
      writeInode source memory file pos buf = some (outcome, nwrite, stored, after) ∧
        (Accounted file pos buf outcome nwrite stored after ↔
          (Complete source memory file pos buf.length ∧
              (0 < buf.length ∨ (pos : Int) ≤ file.size)) ∨
            (¬ Complete source memory file pos buf.length ∧
              ((pos + buf.length : Nat) : Int) ≤ file.size)) := by
  have wrote := writeInode_eq source memory file pos buf
  have finished := sheltered.underway.finished
  rw [neededBlocks, length_range'] at wrote
  cases ended :
      writeBlocks source pos buf ((pos % 4096 + buf.length + 4095) / 4096)
        ⟨file, memory, 0, pos / 4096⟩ with
  | mk succeeded transfer =>
    rw [ended] at wrote finished
    have completeIff : succeeded = true ↔ Complete source memory file pos buf.length :=
      finished.succeeds
    have accountedIff :=
      @accounted_writeExit_iff file pos buf succeeded transfer
        representable finished.size finished.held finished.complete
    refine ⟨_, _, _, _, wrote, accountedIff.trans ?_⟩
    rw [← completeIff]
    cases succeeded with
    | false =>
      have short : transfer.nwrite < buf.length ∨ transfer.nwrite = 0 ∧ buf.length = 0 :=
        finished.short rfl
      simp only [Bool.false_eq_true, not_false_iff, false_and, true_and, false_or]
      split
      · omega
      · omega
    | true =>
      have all : transfer.nwrite = buf.length := finished.complete rfl
      simp only [not_true_eq_false, false_and, true_and, or_false, all]
      split
      · omega
      · omega

end Sheltered

/-! ## Files of supplied runs -/

/-- The slot of a file that a place is. -/
def slotOf : Place → Slot
  | .direct _ index => .block index
  | .indirect _ => .table
  | .entry _ index => .block (12 + index)

section Owned

variable {supply : PageSupply} {disk : Disk} {ino limit : Nat}

/-- A page in use is the reference of a place. -/
theorem references_of_slot {slot : Slot} (within : slot.Within disk.memory limit)
    (present : slot.page (kmemAlloc supply.toSupply) disk.memory (disk.files ino) ≠ 0) :
    (∃ number, slot = .request number) ∨
      ∃ place,
        slotOf place = slot ∧
          references disk place =
            some (slot.page (kmemAlloc supply.toSupply) disk.memory (disk.files ino)) := by
  cases slot with
  | table => exact Or.inr ⟨.indirect ino, rfl, references_eq_some.mpr ⟨rfl, present⟩⟩
  | block index =>
    apply Or.inr
    have bounded : index < 1036 := within
    by_cases direct : index < 12
    · refine ⟨.direct ino ⟨index, direct⟩, rfl, ?_⟩
      apply references_eq_some.mpr
      exact ⟨(blockOf_direct direct).symm, present⟩
    · have indirect : 12 ≤ index := not_lt.mp direct
      refine ⟨.entry ino ⟨index - 12, by omega⟩, ?_, ?_⟩
      · simp only [slotOf]
        rw [Nat.add_sub_cancel' indirect]
      · apply references_eq_some.mpr
        refine ⟨?_, present⟩
        rw [Slot.page, blockOf, if_neg (show ¬ index < nDirectBlocks from direct)]
        rfl
  | request number => exact Or.inl ⟨number, rfl⟩

theorem not_held_of_ahead (owned : Owned supply disk) {request page : Nat} {place : Place}
    (ahead : disk.memory.granted ≤ request) (answered : supply.mapped.answer request = some page) :
    references disk place ≠ some page := by
  intro held
  obtain ⟨earlier, before, sameAnswer⟩ := owned.exclusive.given held
  have sameRequest := supply.mapped.distinct sameAnswer answered
  omega

theorem placed_of_owned (owned : Owned supply disk)
    (answered :
      ∀ request, disk.memory.granted ≤ request → request < limit →
        ∃ addr, Ready supply request addr) :
    Placed (kmemAlloc supply.toSupply) limit disk.memory (disk.files ino) := by
  have ready :
      ∀ number, (Slot.request number).Within disk.memory limit →
        supply.mapped.answer number = some (kmemAlloc supply.toSupply number) := by
    rintro number ⟨lower, upper⟩
    obtain ⟨addr, next⟩ := answered number lower upper
    rw [next.kmemAlloc_eq]
    exact next.1
  constructor
  · intro slot within present
    rcases references_of_slot within present with
      ⟨number, rfl⟩ | ⟨place, _, held⟩
    · exact PageSupply.page_of_given ⟨number, Nat.lt_succ_self _, ready number within⟩
    · exact owned.page held
  · intro left right leftWithin rightWithin present same
    have rightPresent := present
    rw [same] at rightPresent
    rcases references_of_slot leftWithin present with
      ⟨first, rfl⟩ | ⟨leftPlace, rfl, leftHeld⟩
    · have leftAnswer := ready first leftWithin
      rcases references_of_slot rightWithin rightPresent with
        ⟨second, rfl⟩ | ⟨rightPlace, rfl, rightHeld⟩
      · have rightAnswer := ready second rightWithin
        rw [show kmemAlloc supply.toSupply second =
          kmemAlloc supply.toSupply first from same.symm] at rightAnswer
        rw [supply.mapped.distinct leftAnswer rightAnswer]
      · rw [← same] at rightHeld
        exact absurd rightHeld (not_held_of_ahead owned leftWithin.1 leftAnswer)
    · rcases references_of_slot rightWithin rightPresent with
        ⟨second, rfl⟩ | ⟨rightPlace, rfl, rightHeld⟩
      · rw [same] at leftHeld
        exact absurd leftHeld (not_held_of_ahead owned rightWithin.1 (ready second rightWithin))
      · rw [← same] at rightHeld
        rw [owned.exclusive.single leftHeld rightHeld]

/-- A write whose pages are there, and whose table is to be made of zeros. -/
theorem sheltered_of_reached
    {call : WriteCall}
    (reached : (ownershipSystem supply).Reached (Supplied supply) disk)
    (supplied :
      SuppliedUpto supply disk call
        (disk.memory.granted +
          pagesNeeded disk.memory (disk.files call.ino)
            (neededBlocks call.pos call.buf.length))) :
    Sheltered (kmemAlloc supply.toSupply) disk.memory
      (disk.files call.ino) call.pos call.buf.length := by
  obtain ⟨answered, tables⟩ := supplied
  refine ⟨placed_of_owned (owned_of_reached reached) answered, fun needs => ?_⟩
  have lower :
      disk.memory.granted ≤
        tableRequest disk.memory (disk.files call.ino) (neededBlocks call.pos call.buf.length) :=
    Nat.le_add_right _ _
  have upper := @tableRequest_lt disk.memory _ _ needs
  obtain ⟨addr, ready⟩ := answered _ lower upper
  rw [TableReady, ready.kmemAlloc_eq]
  refine ⟨ready.2, ?_⟩
  rcases tables with direct | rooted | zeros
  · obtain ⟨_, index, member, indirect, _⟩ := needs
    obtain ⟨_, below⟩ := mem_range'_1.mp member
    unfold WriteCall.Direct at direct
    omega
  · exact absurd needs.1 rooted
  · exact zeros _ addr lower upper ready

end Owned

theorem sheltered_emptyFile (pos : Nat) {buf : List UInt8} (short : buf.length < 4096) :
    Sheltered (kmemAlloc eightPages.toSupply) emptyDisk.memory emptyFile pos buf.length := by
  have reached : (ownershipSystem eightPages).Reached (Supplied eightPages) emptyDisk :=
    System.Reached.start fun _ => rfl
  have few :
      pagesNeeded emptyDisk.memory emptyFile (neededBlocks pos buf.length) < 8 := by
    have blocks :
        missingBlocks emptyDisk.memory emptyFile (neededBlocks pos buf.length) ≤
          (pos % 4096 + buf.length + 4095) / 4096 := by
      refine le_trans countP_le_length ?_
      rw [neededBlocks, length_range']
    unfold pagesNeeded
    split <;> omega
  refine @sheltered_of_reached _ _ ⟨0, pos, buf⟩ reached ⟨?_, Or.inr (Or.inr ?_)⟩
  · intro request _ upper
    exact ⟨_, eightPages_ready (upper.trans (by simpa [emptyDisk] using few))⟩
  · intro request addr _ _ _ index _
    rfl

/-- Three bytes over the end of the first block of an empty file. -/
theorem write_accounted_two_blocks :
    ∃ outcome nwrite stored after,
      writeInode (kmemAlloc eightPages.toSupply) emptyDisk.memory emptyFile 4095 [7, 8, 9] =
          some (outcome, nwrite, stored, after) ∧
        Accounted emptyFile 4095 [7, 8, 9] outcome nwrite stored after := by
  have sheltered := @sheltered_emptyFile 4095 [7, 8, 9] (by decide)
  obtain ⟨outcome, nwrite, stored, after, wrote, accounted⟩ :=
    write_accounted_iff (by decide) sheltered
  refine ⟨outcome, nwrite, stored, after, wrote, accounted.mpr ?_⟩
  refine Or.inl ⟨⟨?_, ?_⟩, Or.inl (by decide)⟩
  · intro index member
    obtain ⟨_, below⟩ := mem_range'_1.mp member
    have small : index < 2 := below
    omega
  · intro request _ upper
    have two : request < 2 := upper
    obtain rfl | rfl : request = 0 ∨ request = 1 := by omega
    · decide
    · decide

/--
A write behind the last block fails without a byte, and an empty write
behind the end of a file succeeds; both leave the file longer.
-/
theorem write_not_accounted :
    ∃ (source : Nat → Nat) (memory : PageMemory),
      (Sheltered source memory emptyFile 4243456 1 ∧
        ∃ stored after,
          writeInode source memory emptyFile 4243456 [7] = some (.error .eio, 0, stored, after) ∧
            stored.size = 4243457 ∧
            ¬ Accounted emptyFile 4243456 [7] (.error .eio) 0 stored after) ∧
        Sheltered source memory emptyFile 1 0 ∧
          ∃ stored after,
            writeInode source memory emptyFile 1 [] = some (.ok (), 0, stored, after) ∧
              stored.size = 1 ∧ ¬ Accounted emptyFile 1 [] (.ok ()) 0 stored after := by
  have behindBlocks := @sheltered_emptyFile 4243456 [7] (by decide)
  have behindEnd := @sheltered_emptyFile 1 [] (by decide)
  refine
    ⟨kmemAlloc eightPages.toSupply, emptyDisk.memory,
      ⟨behindBlocks, _, _, rfl, rfl, ?_⟩, behindEnd, _, _, rfl, rfl, ?_⟩
  · intro accounted
    exact absurd accounted.size (by decide)
  · intro accounted
    exact absurd accounted.size (by decide)

end Cosec.Fs.WriteSizes
