import Cosec.Fs.WriteSizes

/-!
# The pages of a removed file

`ramfs_free_inode_blocks` should give back every page that `pmem_alloc`
handed out for the file.  It calls `pmem_free` with the words of the block
lists, which are kernel addresses and not page indexes, and it does not give
back the page of the table.  So the pages of a file come back only when it
never had any: when every write to it was empty and stood at the start of a
block.

Nothing stores to the words for second and third level tables.
-/

namespace Cosec.Fs.FreedPages

open Fs.BlockOwnership Fs.BlockWrites Fs.FileBlocks Function Lib.Holdings Lib.Transition Lib.Word32
open List

/-! ## Calls of `pmem_free` -/

/-- The first argument for a block; there is no call for a null block. -/
def freeBlock (blkdata : Nat) : Option Nat := if blkdata = 0 then none else some blkdata

/-- The first arguments of the calls for a table; the second is `1`. -/
def freeBlocksInList (bytes : Nat → UInt8) (blklst : Nat) : List Nat := if blklst = 0 then [] else
    (List.range nIndblocks).filterMap fun index => freeBlock (readWord bytes (blklst + 4 * index))

/-- The calls for a table of tables. -/
def freeBlocks2ndlvl (bytes : Nat → UInt8) (ind2lst : Nat) : List Nat := if ind2lst = 0 then [] else
    (List.range nIndblocks).flatMap fun index =>
      freeBlocksInList bytes (readWord bytes (ind2lst + 4 * index))

/-- The calls for an inode, in their order. -/
def freeInodeBlocks
    (bytes : Nat → UInt8) (file : RegFile) (indir2ndBlock indir3rdBlock : Nat) : List Nat :=
  if indir3rdBlock ≠ 0 then []
  else
    freeBlocks2ndlvl bytes indir2ndBlock ++ freeBlocksInList bytes file.indir1stBlock ++
      (List.range nDirectBlocks).filterMap fun index => freeBlock (file.directblock index)

theorem freeBlock_eq_some {blkdata page : Nat} :
    freeBlock blkdata = some page ↔ blkdata = page ∧ page ≠ 0 := by
  rw [freeBlock, Option.ite_none_left_eq_some, Option.some.injEq, and_comm]
  exact and_congr_right fun same => by rw [same]

/-- An inode without blocks. -/
def Blockless (file : RegFile) : Prop :=
  (∀ index, file.directblock index = 0) ∧ file.indir1stBlock = 0

theorem freeInodeBlocks_blockless
    {file : RegFile} (bytes : Nat → UInt8) (blockless : Blockless file) :
    freeInodeBlocks bytes file 0 0 = [] := by
  rw [freeInodeBlocks, if_neg (fun present => present rfl),
    freeBlocks2ndlvl, if_pos rfl, freeBlocksInList,
    if_pos blockless.2, nil_append, nil_append, filterMap_eq_nil_iff]
  intro index _
  exact if_pos (blockless.1 index)

/-! ## Writes and the pages handed out for them -/

/-- The pages that `pmem_alloc` handed out between two requests. -/
def handedOut (supply : Supply Nat) (before after : Nat) : List Nat :=
  (List.range' before (after - before)).filterMap supply.answer

/-- The files, the pages handed out for each, and the writes so far. -/
structure Traffic where
  disk : Disk
  handed : Nat → List Nat
  calls : List WriteCall

/-- The state after a write, if it succeeds. -/
def Traffic.write (supply : PageSupply) (traffic : Traffic) (call : WriteCall) : Option Traffic :=
  match traffic.disk.write supply.toSupply call with
  | some (.ok (), disk) =>
    some
      { disk := disk
        handed :=
          update traffic.handed call.ino
            (traffic.handed call.ino ++
              handedOut supply.toSupply traffic.disk.memory.granted disk.memory.granted)
        calls := call :: traffic.calls }
  | _ => none

/-- The state after a write that left a disk. -/
def Traffic.after
    (supply : PageSupply) (traffic : Traffic) (call : WriteCall) (disk : Disk) : Traffic where
  disk := disk
  handed :=
    update traffic.handed call.ino
      (traffic.handed call.ino ++
        handedOut supply.toSupply traffic.disk.memory.granted disk.memory.granted)
  calls := call :: traffic.calls

variable {call : WriteCall}

theorem Traffic.write_eq_some {supply : PageSupply} {traffic later : Traffic}
    (wrote : traffic.write supply call = some later) :
    ∃ disk,
      traffic.disk.write supply.toSupply call = some (.ok (), disk) ∧
        later = traffic.after supply call disk := by
  unfold Traffic.write at wrote
  split at wrote
  · rename_i disk written
    cases wrote
    exact ⟨disk, written, rfl⟩
  · cases wrote

/-- Runs of successful writes, from inodes that were just made. -/
def fileWrites (supply : PageSupply) : System Traffic WriteCall where
  start traffic :=
    (∀ ino, traffic.disk.files ino = emptyFile) ∧ (∀ ino, traffic.handed ino = []) ∧
      traffic.calls = []
  step traffic call later := traffic.write supply call = some later

/--
`pmem_free` is called once for the index of each page of the inode, and for
no other index.
-/
def ReturnsPages (traffic : Traffic) (ino : Nat) : Prop :=
  ∀ pageIndex,
    (freeInodeBlocks traffic.disk.memory.bytes (traffic.disk.files ino) 0 0).count pageIndex =
      if pageIndex ∈ (traffic.handed ino).map (· / 4096) then 1 else 0

/-- An empty write at the start of a block, which needs no page. -/
def Idle (call : WriteCall) : Prop := call.pos % 4096 = 0 ∧ call.buf = []

/-- All writes to an inode were idle. -/
def IdleFor (calls : List WriteCall) (ino : Nat) : Prop :=
  ∀ call ∈ calls, call.ino = ino → Idle call

/-! ## What writes do to the block numbers -/

/-- Requests go on, and block numbers that are set stay. -/
structure Persists
    (memory : PageMemory) (file : RegFile) (after : PageMemory) (stored : RegFile) : Prop where
  granted : memory.granted ≤ after.granted
  direct : ∀ index, file.directblock index ≠ 0 → stored.directblock index = file.directblock index
  table : file.indir1stBlock ≠ 0 → stored.indir1stBlock = file.indir1stBlock

section Persists

variable {memory after last : PageMemory} {file stored final : RegFile} {index : Nat}

theorem Persists.refl (memory : PageMemory) (file : RegFile) :
    Persists memory file memory file where
  granted := le_refl _
  direct := fun _ _ => rfl
  table := fun _ => rfl

theorem Persists.trans
    (first : Persists memory file after stored) (second : Persists after stored last final) :
    Persists memory file last final where
  granted := le_trans first.granted second.granted
  direct := by
    intro index present
    have kept := first.direct index present
    rw [second.direct index (by rw [kept]; exact present)]
    exact kept
  table := by
    intro present
    have kept := first.table present
    rw [second.table (by rw [kept]; exact present)]
    exact kept

theorem blockByIndexOrNew_persists
    (source : Nat → Nat) (memory : PageMemory) (file : RegFile) (index : Nat) :
    Persists memory file (blockByIndexOrNew source memory file index).2.2
      (blockByIndexOrNew source memory file index).2.1 := by
  unfold blockByIndexOrNew newBlock
  by_cases direct : index < nDirectBlocks
  · rw [if_pos direct]
    split
    · rename_i missing
      refine ⟨Nat.le_succ _, ?_, fun _ => rfl⟩
      intro other present
      have different : other ≠ index := by
        rintro rfl
        exact present missing
      exact if_neg different
    · exact Persists.refl _ _
  · rw [if_neg direct]
    split
    · by_cases rootless : file.indir1stBlock = 0
      · simp only [if_pos rootless]
        split
        · refine ⟨?_, fun _ _ => rfl, fun present => ?_⟩
          · show memory.granted ≤ memory.granted + 1 + 1
            omega
          · exact absurd rootless present
        · refine ⟨Nat.le_succ _, fun _ _ => rfl, fun present => ?_⟩
          exact absurd rootless present
      · simp only [if_neg rootless]
        split
        · exact ⟨Nat.le_succ _, fun _ _ => rfl, fun _ => rfl⟩
        · exact Persists.refl _ _
    · exact Persists.refl _ _

theorem writeBlocks_persists
    (source : Nat → Nat) (pos : Nat) (buf : List UInt8) (count : Nat) (transfer : Transfer) :
    Persists transfer.memory transfer.file (writeBlocks source pos buf count transfer).2.memory
      (writeBlocks source pos buf count transfer).2.file := by
  induction count generalizing transfer with
  | zero => exact Persists.refl _ _
  | succ count ih =>
    have kept := blockByIndexOrNew_persists source transfer.memory transfer.file transfer.blkindex
    have first (offset : Nat) (bytes : List UInt8) :
        Persists transfer.memory transfer.file (writeBlock source transfer offset bytes).2.memory
          (writeBlock source transfer offset bytes).2.file := by
      unfold writeBlock
      simp only
      split
      · exact kept
      · exact ⟨kept.granted, kept.direct, kept.table⟩
    replace first := first (blockOffset pos transfer.blkindex) (blockPiece pos buf transfer.blkindex)
    rw [writeBlocks]
    split
    · rename_i stopped stored
      rw [stored] at first
      exact first
    · rename_i written stored
      rw [stored] at first
      exact first.trans (ih written)

/-- The first block of a file is asked for and recorded. -/
theorem blockByIndexOrNew_blockless
    (source : Nat → Nat) (memory : PageMemory) (blockless : Blockless file)
    (bounded : index < 1036) :
    memory.granted < (blockByIndexOrNew source memory file index).2.2.granted ∧
      ((blockByIndexOrNew source memory file index).2.1.indir1stBlock = source memory.granted ∨
        index < 12 ∧
          (blockByIndexOrNew source memory file index).2.1.directblock index =
            source memory.granted) := by
  unfold blockByIndexOrNew newBlock
  by_cases direct : index < nDirectBlocks
  · rw [if_pos direct, if_pos (blockless.1 index)]
    exact ⟨Nat.lt_succ_self _, Or.inr ⟨direct, if_pos rfl⟩⟩
  · have inTable : index - nDirectBlocks < nIndblocks := by
      unfold nDirectBlocks nIndblocks at *
      omega
    rw [if_neg direct, if_pos inTable]
    simp only [if_pos blockless.2]
    split
    · exact ⟨Nat.lt_succ_of_lt (Nat.lt_succ_self _), Or.inl rfl⟩
    · exact ⟨Nat.lt_succ_self _, Or.inl rfl⟩

end Persists

section Writes

variable {supply : PageSupply} {disk later : Disk} {call : WriteCall} {ino : Nat}

theorem write_blocks (wrote : disk.write supply.toSupply call = some (.ok (), later)) :
    ∃ transfer size,
      writeBlocks (kmemAlloc supply.toSupply) call.pos call.buf
          (neededBlocks call.pos call.buf.length).length
          ⟨disk.files call.ino, disk.memory, 0, call.pos / 4096⟩ = (true, transfer) ∧
        later = disk.put call.ino { transfer.file with size := size } transfer.memory := by
  unfold Disk.write at wrote
  rw [writeInode_eq] at wrote
  cases ended :
      writeBlocks (kmemAlloc supply.toSupply) call.pos call.buf
        (neededBlocks call.pos call.buf.length).length
        ⟨disk.files call.ino, disk.memory, 0, call.pos / 4096⟩ with
  | mk succeeded transfer =>
    rw [ended] at wrote
    obtain ⟨outcome, laterEq⟩ := Prod.mk.inj (Option.some.inj wrote)
    cases succeeded with
    | false => cases outcome
    | true =>
      split at laterEq
      · exact ⟨transfer, _, rfl, laterEq.symm⟩
      · exact ⟨transfer, transfer.file.size, rfl, laterEq.symm⟩

theorem write_persists
    (wrote : disk.write supply.toSupply call = some (.ok (), later)) (ino : Nat) :
    Persists disk.memory (disk.files ino) later.memory (later.files ino) := by
  obtain ⟨transfer, size, ended, rfl⟩ := write_blocks wrote
  have kept :=
    writeBlocks_persists (kmemAlloc supply.toSupply) call.pos call.buf
      (neededBlocks call.pos call.buf.length).length
      ⟨disk.files call.ino, disk.memory, 0, call.pos / 4096⟩
  rw [ended] at kept
  by_cases here : ino = call.ino
  · subst here
    rw [Disk.put_files_self, Disk.put_memory]
    exact ⟨kept.granted, kept.direct, kept.table⟩
  · rw [Disk.put_files_of_ne _ _ _ here, Disk.put_memory]
    exact ⟨kept.granted, fun _ _ => rfl, fun _ => rfl⟩

/-- The address that `kmem_alloc` returns without a page is recorded. -/
def RecordsNoPage (file : RegFile) : Prop :=
  file.indir1stBlock = kernOff ∨ ∃ index < 12, file.directblock index = kernOff

theorem Persists.recordsNoPage
    {memory after : PageMemory} {file stored : RegFile} (kept : Persists memory file after stored)
    (records : RecordsNoPage file) : RecordsNoPage stored := by
  have nonzero : kernOff ≠ 0 := by decide
  rcases records with table | ⟨index, small, direct⟩
  · refine Or.inl ?_
    rw [kept.table (by rw [table]; exact nonzero), table]
  · refine Or.inr ⟨index, small, ?_⟩
    rw [kept.direct index (by rw [direct]; exact nonzero), direct]

/-- The first block of a file without blocks. -/
theorem writeBlock_blockless {transfer written : Transfer} {offset : Nat} {bytes : List UInt8}
    (blockless : Blockless transfer.file)
    (stored : writeBlock (kmemAlloc supply.toSupply) transfer offset bytes = (true, written)) :
    transfer.memory.granted < written.memory.granted ∧
      (supply.answer transfer.memory.granted = none → RecordsNoPage written.file) := by
  obtain ⟨asked, recorded⟩ :=
    blockByIndexOrNew_blockless (kmemAlloc supply.toSupply)
      transfer.memory blockless (writeBlock_advances stored).1
  unfold writeBlock at stored
  simp only at stored
  split at stored
  · cases stored
  cases stored
  refine ⟨asked, ?_⟩
  intro unanswered
  have address : kmemAlloc supply.toSupply transfer.memory.granted = kernOff := by
    rw [kmemAlloc, unanswered]
    rfl
  rw [address] at recorded
  rcases recorded with table | ⟨small, direct⟩
  · exact Or.inl table
  · exact Or.inr ⟨_, small, direct⟩

theorem write_blockless (blockless : Blockless (disk.files call.ino)) (busy : ¬ Idle call)
    (wrote : disk.write supply.toSupply call = some (.ok (), later)) :
    handedOut supply.toSupply disk.memory.granted later.memory.granted ≠ [] ∨
      RecordsNoPage (later.files call.ino) := by
  obtain ⟨transfer, size, ended, rfl⟩ := write_blocks wrote
  obtain ⟨count, countEq⟩ : ∃ count, (neededBlocks call.pos call.buf.length).length = count + 1 := by
    have positive : 0 < call.pos % 4096 + call.buf.length := by
      by_contra nothing
      exact busy ⟨by omega, length_eq_zero_iff.mp (by omega)⟩
    rw [neededBlocks, length_range']
    exact ⟨(call.pos % 4096 + call.buf.length + 4095) / 4096 - 1, by omega⟩
  rw [countEq, writeBlocks] at ended
  split at ended
  · cases ended
  · rename_i written stored
    obtain ⟨asked, recorded⟩ := writeBlock_blockless blockless stored
    have kept := writeBlocks_persists (kmemAlloc supply.toSupply) call.pos call.buf count written
    rw [ended] at kept
    rw [Disk.put_files_self, Disk.put_memory]
    cases answered : supply.answer disk.memory.granted with
    | none => exact Or.inr (kept.recordsNoPage (recorded answered))
    | some page =>
      have later : disk.memory.granted < transfer.memory.granted :=
        lt_of_lt_of_le asked kept.granted
      refine Or.inl (ne_nil_of_mem (mem_filterMap.mpr ⟨_, mem_range'_1.mpr ⟨le_rfl, ?_⟩, answered⟩))
      exact (Nat.add_sub_of_le later.le).symm ▸ later

end Writes

/-! ## What a run of writes leaves -/

/-- A file has pages or traces of missing ones unless its writes were idle. -/
structure Tracked (supply : PageSupply) (ino : Nat) (traffic : Traffic) : Prop where
  idle : IdleFor traffic.calls ino → Blockless (traffic.disk.files ino) ∧ traffic.handed ino = []
  busy : ¬ IdleFor traffic.calls ino →
    traffic.handed ino ≠ [] ∨ RecordsNoPage (traffic.disk.files ino)
  answers : ∀ page ∈ traffic.handed ino, ∃ request, supply.answer request = some page

section Runs

variable {supply : PageSupply} {ino : Nat} {traffic : Traffic}

theorem tracked_start (started : (fileWrites supply).start traffic) :
    Tracked supply ino traffic := by
  obtain ⟨files, handed, calls⟩ := started
  have idle : IdleFor traffic.calls ino := by
    intro call member
    rw [calls] at member
    cases member
  constructor
  · intro _
    rw [files ino]
    exact ⟨⟨fun _ => rfl, rfl⟩, handed ino⟩
  · intro busy
    exact absurd idle busy
  · intro page member
    rw [handed ino] at member
    cases member

theorem idleFor_cons {calls : List WriteCall} :
    IdleFor (call :: calls) ino ↔ (call.ino = ino → Idle call) ∧ IdleFor calls ino :=
  forall_mem_cons

/-- A write to the inode itself. -/
theorem Tracked.here {disk : Disk} (tracked : Tracked supply call.ino traffic)
    (wrote : traffic.disk.write supply.toSupply call = some (.ok (), disk)) :
    Tracked supply call.ino (traffic.after supply call disk) := by
  constructor
  · intro idle
    obtain ⟨idleNow, idleBefore⟩ := idleFor_cons.mp idle
    obtain ⟨blockless, nothing⟩ := tracked.idle idleBefore
    obtain ⟨transfer, size, ended, rfl⟩ := write_blocks wrote
    obtain ⟨aligned, empty⟩ := idleNow rfl
    rw [neededBlocks, length_range', aligned, empty] at ended
    cases ended
    simp only [Traffic.after, Disk.put_files_self, Disk.put_memory,
      update_self, nothing, handedOut, Nat.sub_self]
    exact ⟨blockless, rfl⟩
  · intro busy
    simp only [Traffic.after, update_self]
    by_cases idleBefore : IdleFor traffic.calls call.ino
    · have busyNow : ¬ Idle call := by
        intro idleNow
        exact busy (idleFor_cons.mpr ⟨fun _ => idleNow, idleBefore⟩)
      obtain ⟨blockless, _⟩ := tracked.idle idleBefore
      rcases write_blockless blockless busyNow wrote with given | records
      · exact Or.inl (append_ne_nil_of_right_ne_nil _ given)
      · exact Or.inr records
    · rcases tracked.busy idleBefore with given | records
      · exact Or.inl (append_ne_nil_of_left_ne_nil given _)
      · exact Or.inr ((write_persists wrote call.ino).recordsNoPage records)
  · intro page member
    simp only [Traffic.after, update_self, mem_append] at member
    rcases member with before | now
    · exact tracked.answers page before
    · obtain ⟨request, _, answered⟩ := mem_filterMap.mp now
      exact ⟨request, answered⟩

theorem tracked_of_reached (reached : (fileWrites supply).Reached unrestricted traffic) :
    Tracked supply ino traffic := by
  refine System.Reached.invariant ?_ ?_ reached
  · intro state started
    exact tracked_start started
  · intro state call later tracked _ stepped
    obtain ⟨disk, wrote, rfl⟩ := Traffic.write_eq_some stepped
    by_cases here : call.ino = ino
    · subst here
      exact tracked.here wrote
    · have same : disk.files ino = state.disk.files ino := by
        obtain ⟨transfer, size, _, rfl⟩ := write_blocks wrote
        exact Disk.put_files_of_ne _ _ _ (Ne.symm here)
      have sameHanded : (state.after supply call disk).handed ino = state.handed ino :=
        update_of_ne (Ne.symm here) _ _
      have sameIdle : IdleFor (call :: state.calls) ino ↔ IdleFor state.calls ino := by
        rw [idleFor_cons]
        exact ⟨And.right, fun idle => ⟨fun mine => absurd mine here, idle⟩⟩
      constructor
      · rw [sameHanded]
        simp only [Traffic.after, sameIdle, same]
        exact tracked.idle
      · rw [sameHanded]
        simp only [Traffic.after, sameIdle, same]
        exact tracked.busy
      · rw [sameHanded]
        exact tracked.answers

/-- The pages of `pmem_alloc` are those the kernel maps at `KERN_OFF`. -/
def LowMemory (supply : PageSupply) : Prop :=
  ∀ request page, supply.answer request = some page → page < 1073741824

/-- An address that an owned inode refers to is above `KERN_OFF`. -/
theorem above_of_references
    (owned : Owned supply traffic.disk) (low : LowMemory supply) {place : Place} {addr : Nat}
    (held : references traffic.disk place = some addr) : kernOff < addr := by
  obtain ⟨request, _, answered⟩ := owned.exclusive.given held
  obtain ⟨page, given, rfl⟩ := Option.map_eq_some_iff.mp answered
  have small := low request page given
  have nonzero := supply.nonzero given
  unfold va wrap32 kernOff
  omega

theorem not_recordsNoPage (owned : Owned supply traffic.disk) (low : LowMemory supply) :
    ¬ RecordsNoPage (traffic.disk.files ino) := by
  have nowhere : ∀ place, references traffic.disk place ≠ some kernOff := by
    intro place held
    exact absurd (above_of_references owned low held) (lt_irrefl _)
  rintro (table | ⟨index, small, direct⟩)
  · apply nowhere (.indirect ino)
    exact references_eq_some.mpr ⟨table, by decide⟩
  · apply nowhere (.direct ino ⟨index, small⟩)
    exact references_eq_some.mpr ⟨direct, by decide⟩

theorem Tracked.not_freed (tracked : Tracked supply ino traffic) (owned : Owned supply traffic.disk)
    (low : LowMemory supply) {page : Nat} (given : page ∈ traffic.handed ino) :
    page / 4096 ∉ freeInodeBlocks traffic.disk.memory.bytes (traffic.disk.files ino) 0 0 := by
  intro freed
  -- What is freed is what the data places of the inode refer to.
  obtain ⟨place, held⟩ : ∃ place, references traffic.disk place = some (page / 4096) := by
    rw [freeInodeBlocks, if_neg (fun present => present rfl),
      freeBlocks2ndlvl, if_pos rfl, nil_append, mem_append] at freed
    rcases freed with inTable | direct
    · unfold freeBlocksInList at inTable
      by_cases rootless : (traffic.disk.files ino).indir1stBlock = 0
      · rw [if_pos rootless] at inTable
        cases inTable
      · rw [if_neg rootless] at inTable
        obtain ⟨index, inside, freedHere⟩ := mem_filterMap.mp inTable
        obtain ⟨wordEq, present⟩ := freeBlock_eq_some.mp freedHere
        refine ⟨.entry ino ⟨index, mem_range.mp inside⟩, references_eq_some.mpr ⟨?_, present⟩⟩
        rw [← wordEq]
        exact if_neg rootless
    · obtain ⟨index, inside, freedHere⟩ := mem_filterMap.mp direct
      refine ⟨.direct ino ⟨index, mem_range.mp inside⟩, ?_⟩
      exact references_eq_some.mpr (freeBlock_eq_some.mp freedHere)
  obtain ⟨request, answered⟩ := tracked.answers page given
  have above := above_of_references owned low held
  have small := low request page answered
  unfold kernOff at above
  omega

/--
A file whose writes were all idle gives back its pages, of which it has none.
An owned file does so in no other case.
-/
theorem freed_pages_returned_iff (supply : PageSupply) (ino : Nat) {traffic : Traffic}
    (reached : (fileWrites supply).Reached unrestricted traffic) :
    (IdleFor traffic.calls ino → ReturnsPages traffic ino) ∧
      (Owned supply traffic.disk → LowMemory supply →
        ReturnsPages traffic ino → IdleFor traffic.calls ino) := by
  have tracked : Tracked supply ino traffic := tracked_of_reached reached
  constructor
  · intro idle pageIndex
    obtain ⟨blockless, nothing⟩ := tracked.idle idle
    rw [freeInodeBlocks_blockless _ blockless, nothing]
    rfl
  · intro owned low returns
    by_contra busy
    rcases tracked.busy busy with handed | records
    · obtain ⟨page, given⟩ := exists_mem_of_ne_nil _ handed
      have member : page / 4096 ∈ (traffic.handed ino).map (· / 4096) := mem_map_of_mem given
      have once := returns (page / 4096)
      rw [if_pos member, count_eq_zero.mpr (tracked.not_freed owned low given)] at once
      cases once
    · exact not_recordsNoPage owned low records

end Runs

/-- An empty write to the start of a file. -/
def emptyWrite (ino : Nat) : WriteCall where
  ino := ino
  pos := 0
  buf := []

/-- The files before any write. -/
def quietTraffic : Traffic where
  disk := emptyDisk
  handed := fun _ => []
  calls := []

theorem reached_write {supply : PageSupply} {later : Traffic}
    (wrote : quietTraffic.write supply call = some later) :
    (fileWrites supply).Reached unrestricted later := by
  have started : (fileWrites supply).start quietTraffic := ⟨fun _ => rfl, fun _ => rfl, rfl⟩
  exact (System.Reached.start started).step trivial wrote

theorem freed_pages_of_empty_write :
    ∃ traffic,
      quietTraffic.write eightPages (emptyWrite 5) = some traffic ∧ ReturnsPages traffic 5 := by
  obtain ⟨traffic, wrote⟩ :
      ∃ traffic, quietTraffic.write eightPages (emptyWrite 5) = some traffic :=
    ⟨_, rfl⟩
  refine ⟨traffic, wrote, ?_⟩
  apply (freed_pages_returned_iff eightPages 5 (reached_write wrote)).1
  obtain ⟨disk, _, rfl⟩ := Traffic.write_eq_some wrote
  intro call member _
  obtain rfl := mem_singleton.mp member
  exact ⟨rfl, rfl⟩

/--
After a write of one byte, `pmem_free` is called for `0xc0001000` and not for
the page with index `1`.
-/
theorem freed_pages_not_returned :
    ¬ ∀ (supply : PageSupply) (ino : Nat) (traffic : Traffic),
        (fileWrites supply).Reached unrestricted traffic → ReturnsPages traffic ino := by
  intro always
  have evaluated : (quietTraffic.write eightPages (oneByte 5)).map (fun later =>
            (freeInodeBlocks later.disk.memory.bytes (later.disk.files 5) 0 0, later.handed 5)) =
        some ([0xc0001000], [0x1000]) := by
    decide +kernel
  obtain ⟨later, wrote, outcome⟩ := Option.map_eq_some_iff.mp evaluated
  obtain ⟨freed, handed⟩ := Prod.mk.inj outcome
  have once := always eightPages 5 later (reached_write wrote) 1
  rw [freed, handed] at once
  exact absurd once (by decide)

end Cosec.Fs.FreedPages
