import Cosec.Fs.LinkedLookups
import Cosec.Fs.WriteSizes

/-!
# Runs of appending writes

`O_APPEND` sets the position of a descriptor to the end of the file when it
is opened, and never again.  A write appends as long as the position is still
the end of the file, that is as long as no other descriptor has written since.
-/

namespace Cosec.Fs.AppendRuns

open Fs.BlockOwnership Fs.BlockWrites Fs.CallRuns Fs.FileBlocks Fs.FileCalls Fs.InodeNumbers
open Fs.LinkedLookups Fs.MountSteps Fs.PlacedBlocks Fs.Ramfs Fs.Vfs Fs.VfsSteps Fs.WriteSizes
open Lib.ByteArrays Lib.Commands Lib.Transition Lib.Word32 Libc.ErrorNumbers Libc.Strings List

/-! ## What is in front of a write -/

section Front

variable {source : Nat → Nat} {limit pos : Nat} {buf : List UInt8} {count : Nat}
  {transfer written : Transfer}

theorem writeBlock_front (placed : Placed source limit transfer.memory transfer.file)
    (bounded : transfer.blkindex < 1036)
    (present : blockOf transfer.memory transfer.file transfer.blkindex ≠ 0)
    {offset position : Nat} {bytes : List UInt8} (inside : offset < 4096)
    (inPage : offset + bytes.length ≤ 4096)
    (stored : writeBlock source transfer offset bytes = (true, written))
    (here : position / 4096 = transfer.blkindex) (front : position % 4096 < offset) :
    fileByte written.memory written.file position =
      fileByte transfer.memory transfer.file position := by
  have grid := placed.pages (.block transfer.blkindex) bounded present
  simp only [Slot.page] at grid
  rw [writeBlock, blockByIndexOrNew_present bounded present] at stored
  simp only [if_neg present] at stored
  cases stored
  have same :=
    placed.blockOf_storeAt bounded present inPage (show transfer.blkindex < 1036 from bounded)
  simp only [storeAt] at same
  simp only [fileByte, here, same, if_neg present]
  rw [wrap32_of_lt (by omega), copyIn_outside (by omega) (by omega) (Or.inl (by omega))]

theorem Underway.front (underway : Underway source limit pos buf count transfer)
    (stored : writeBlocks source pos buf count transfer = (true, written)) {position : Nat}
    (front : position < pos)
    (present :
      position / 4096 = transfer.blkindex →
        blockOf transfer.memory transfer.file transfer.blkindex ≠ 0) :
    fileByte written.memory written.file position =
      fileByte transfer.memory transfer.file position := by
  induction count generalizing transfer with
  | zero =>
    cases stored
    rfl
  | succ count ih =>
    rw [writeBlocks] at stored
    split at stored
    · cases stored
    · rename_i next step
      have started := underway.started
      have inPage := underway.atBlock.inPage
      obtain ⟨bounded, _, advanced⟩ := writeBlock_advances step
      obtain ⟨stepped, _⟩ :=
        (writeBlock_outcome (underway.obtained bounded) bounded inPage step).1 rfl
      rw [ih (underway.next bounded step).1 stored (by omega)]
      by_cases here : position / 4096 = transfer.blkindex
      · have offset : blockOffset pos transfer.blkindex = pos % 4096 := by
          unfold blockOffset
          omega
        exact writeBlock_front underway.placed bounded
          (present here) (by omega) inPage step here (by omega)
      · exact stepped.fileByte_kept (by omega) here

end Front

/-- The bytes of a file up to its size, zero where there is no block. -/
def content (memory : PageMemory) (file : RegFile) : List UInt8 :=
  (List.range file.size.toNat).map fun offset => (fileByte memory file offset).getD 0

/--
A file holds these bytes, its size is an `off_t`, and it has a block for its
last bytes unless it ends with a block.
-/
structure Holds (memory : PageMemory) (file : RegFile) (bytes : List UInt8) : Prop where
  size : file.size = (bytes.length : Int)
  content : content memory file = bytes
  representable : bytes.length < 2147483648
  ends : bytes.length % 4096 = 0 ∨ blockOf memory file (bytes.length / 4096) ≠ 0

section Append

variable {source : Nat → Nat} {memory after : PageMemory} {file stored : RegFile} {pos nwrite : Nat}
  {bytes buf : List UInt8}

theorem content_append
    (before : file.size = (pos : Int)) (size : stored.size = ((pos + buf.length : Nat) : Int))
    (front : ∀ position < pos, fileByte after stored position = fileByte memory file position)
    (held : ∀ index < buf.length, fileByte after stored (pos + index) = buf[index]?) :
    content after stored = content memory file ++ buf := by
  unfold content
  rw [size, before, Int.toNat_natCast, Int.toNat_natCast, range_add, map_append, map_map]
  congr 1
  · apply map_congr_left
    intro position member
    rw [front position (mem_range.mp member)]
  · apply ext_getElem
    · rw [length_map, length_range]
    · intro index _ inside
      rw [getElem_map, getElem_range, Function.comp_apply,
        held index inside, getElem?_eq_getElem inside]
      rfl

/-- The block in which a file ends, by the last byte in front of the end. -/
theorem ends_iff {length : Nat} (inside : length % 4096 ≠ 0) :
    blockOf memory file (length / 4096) ≠ 0 ↔
      (fileByte memory file (length - 1)).isSome = true := by
  have same : (length - 1) / 4096 = length / 4096 := by omega
  simp only [fileByte, same]
  split
  · simp_all
  · simp_all

theorem Holds.write (holds : Holds memory file bytes)
    (sheltered : Sheltered source memory file bytes.length buf.length)
    (wrote :
      writeInode source memory file bytes.length buf = some (.ok (), nwrite, stored, after)) :
    Holds after stored (bytes ++ buf) := by
  have underway := sheltered.underway
  have finished := underway.finished
  obtain ⟨transfer, ended, exited⟩ := writeBlocks_of_writeInode wrote
  rw [ended] at finished
  have whole : transfer.nwrite = buf.length := finished.complete rfl
  have representable : bytes.length + buf.length < 2147483648 := by
    have supplies := (finished.succeeds.mp rfl).1
    have before := holds.representable
    by_cases nothing : buf.length = 0
    · omega
    · dsimp only at supplies
      have last :=
        supplies ((bytes.length + buf.length - 1) / 4096) (mem_range'_1.mpr (by omega))
      omega
  have size := @writeExit_size bytes.length buf true transfer representable
  have shown := @fileByte_writeExit bytes.length buf true transfer
  rw [exited] at size shown
  have held : ∀ index < buf.length, fileByte after stored (bytes.length + index) = buf[index]? := by
    intro index inside
    rw [shown]
    exact (finished.held index (by rw [whole]; exact inside)).2
  have front :
      ∀ position < bytes.length,
        fileByte after stored position = fileByte memory file position := by
    intro position before
    rw [shown]
    refine Underway.front underway ended before ?_
    intro here
    have present := holds.ends
    simp only at here ⊢
    omega
  have sizeEq : stored.size = ((bytes.length + buf.length : Nat) : Int) := by
    rw [size, finished.size, holds.size]
    omega
  constructor
  · rw [length_append, sizeEq]
  · rw [content_append holds.size sizeEq front held, holds.content]
  · rw [length_append]
    exact representable
  · rw [length_append, Classical.or_iff_not_imp_left]
    intro inside
    rw [ends_iff inside]
    by_cases nothing : buf.length = 0
    · rw [nothing, Nat.add_zero] at inside ⊢
      rw [front _ (by omega), ← ends_iff inside]
      exact holds.ends.resolve_left inside
    · have last := held (buf.length - 1) (by omega)
      rw [← Nat.add_sub_assoc (by omega)] at last
      rw [last, getElem?_eq_getElem (by omega)]
      rfl

end Append

/-- The inode is a linked regular file that holds these bytes. -/
def HoldsFile (fs : Mount) (ino : Nat) (bytes : List UInt8) : Prop :=
  ∃ idata inode,
    idataByInode fs ino = some (some (idata, inode)) ∧ fileType inode.mode = sIfreg ∧
      inode.nlinks ≠ 0 ∧ Holds fs.memory inode.file bytes

/--
The position is the end of the file, and the pages of the file and those the
write is given are kept apart.
-/
def WritesAtEnd
    (machine : Machine) (fs : Mount) (ino : Nat) (pos : Int) (buf : List UInt8) : Prop :=
  ∀ idata inode,
    idataByInode fs ino = some (some (idata, inode)) →
      pos = inode.file.size ∧ Sheltered machine.pages fs.memory inode.file pos.toNat buf.length

/-- The slot of a process that a descriptor stands for. -/
def descriptor (world : World) (pid : Nat) (fd : Int) : Option Filedescr :=
  world.processes[pid]?.bind fun process => (filedescrForPid fd).map process.fds

section Calls

variable {machine : Machine} {devices : Devices} {fs : Mount} {world : World} {pid ino : Nat}
  {fd : Int} {pos : Int} {filedes : Filedescr} {answer : Except Errno Nat} {bytes buf : List UInt8}

theorem ramfsWriteInode_appends
    (holds : HoldsFile fs ino bytes) (atEnd : WritesAtEnd machine fs ino pos buf) :
    Ensures (ramfsWriteInode machine ino pos buf) fs fun outcome changed =>
        ∀ count, outcome = .ok count → HoldsFile changed ino (bytes ++ buf) := by
  obtain ⟨idata, inode, found, regular, linked, holds⟩ := holds
  obtain ⟨rfl, sheltered⟩ := atEnd idata inode found
  unfold ramfsWriteInode
  simp only [ensures_bind, ensures_idataOr, continues_error, continues_ok,
    ensures_demand, ensures_editInode, ensures_update, found, reduceCtorEq,
    false_implies, implies_true, true_and, Option.some.injEq, Prod.mk.injEq]
  rintro _ _ ⟨rfl, rfl⟩ ⟨outcome, count, file, memory⟩ wrote
  rw [Option.ite_none_left_eq_some] at wrote
  cases outcome with
  | error error => simp
  | ok done =>
    rw [ensures_pure]
    intro _ _
    rw [holds.size, Int.toNat_natCast] at sheltered wrote
    exact ⟨idata, { inode with file := file },
      idataByInode_edit found (fun inode => { inode with file := file }) fs.directories,
      regular, linked, holds.write sheltered wrote.2⟩

theorem vfsInodeWrite_appends
    (holds : HoldsFile fs ino bytes) (atEnd : WritesAtEnd machine fs ino pos buf) :
    Ensures (vfsInodeWrite machine devices answer ino pos buf) fs fun outcome changed =>
        ∀ count, outcome = .ok count → HoldsFile changed ino (bytes ++ buf) := by
  have appends := ramfsWriteInode_appends holds atEnd
  obtain ⟨idata, inode, found, regular, _⟩ := holds
  unfold vfsInodeWrite
  simp only [inodeGet, ensures_bind, ensures_idataOr, continues_error,
    continues_ok, ensures_pure, found, reduceCtorEq, false_implies,
    implies_true, true_and, Option.some.injEq, Prod.mk.injEq]
  rintro _ _ ⟨rfl, rfl⟩
  rw [if_pos regular]
  exact appends

/-- Opening a file that is there leaves its bytes. -/
theorem sysOpen_holds {path : CString} {flags : UInt32} (holds : HoldsFile world.fs ino bytes)
    (leads : Looked world.fs path ino) (numbered : ino ≠ 0) :
    Ensures (sysOpen machine devices pid path flags) world fun outcome changed =>
        ∀ fd, outcome = .ok fd → HoldsFile changed.fs ino bytes := by
  refine sysOpen_spec.mono ?_
  rintro outcome changed returned fd rfl
  obtain ⟨process, other, middle, _, located, opened⟩ := returned
  cases located with
  | created creating missing made looked =>
    rcases missing with looked | fails
    · exact absurd (looked_inj leads looked) numbered
    · exact absurd fails (not_lookFails leads _)
  | found looked =>
    cases looked_inj leads looked
    rcases opened.setBack with unchanged | ⟨idata, inode, found, none, _⟩
    · rw [unchanged]
      exact holds
    · obtain ⟨_, _, fileFound, _, linked, _⟩ := holds
      rw [found] at fileFound
      cases fileFound
      exact absurd none linked

end Calls

/-! ## Runs -/

/-- The flags ask for appending and not for truncation. -/
def Appending (flags : UInt32) : Prop := flags &&& oAppend ≠ 0 ∧ flags &&& oTrunc = 0

instance (flags : UInt32) : Decidable (Appending flags) := by
  unfold Appending
  infer_instance

/-- The value and the state of a call that succeeded. -/
def completed {State Value : Type} : Option (Except Errno Value × State) → Option (Value × State)
  | some (.ok value, later) => some (value, later)
  | _ => none

theorem completed_eq_some_iff {State Value : Type} {result : Option (Except Errno Value × State)}
    {value : Value} {later : State} :
    completed result = some (value, later) ↔ result = some (.ok value, later) := by
  unfold completed
  split
  · simp
  · rename_i other
    exact ⟨nofun, fun succeeded => absurd succeeded (other value later)⟩

/-- A world and what was written to the file so far. -/
structure Log where
  world : World
  written : List UInt8

/-- A descriptor is opened, or a buffer is written. -/
inductive AppendCall where
  | openFile (pid : Nat) (path : Path) (flags : UInt32)
  | write (pid : Nat) (fd : Int) (answer : Except Errno Nat) (buf : List UInt8)

/-- The path leads to the inode, of which descriptors can be opened. -/
def LeadsTo (fs : Mount) (path : CString) (ino : Nat) : Prop :=
  ino ≠ 0 ∧ (vfsLookup path fs).map Prod.fst = some (.ok ino)

instance (fs : Mount) (path : CString) (ino : Nat) : Decidable (LeadsTo fs path ino) := by
  unfold LeadsTo
  infer_instance

variable (machine : Machine) (devices : Devices) (ino : Nat)

/--
Calls that succeed completely: an appending descriptor is opened on the
inode, and a buffer is written through one.
-/
def performAppend (log : Log) : AppendCall → Option Log
  | .openFile pid path flags =>
    if Appending flags ∧ LeadsTo log.world.fs path.chars ino then
      (completed (sysOpen machine devices pid path.chars flags log.world)).map
        fun opened => { log with world := opened.2 }
    else
      none
  | .write pid fd answer buf =>
    (descriptor log.world pid fd).bind fun filedes =>
      if filedes.ino = ino ∧ filedes.viaOpen = true ∧ Appending filedes.flags then
        (completed (sysWrite machine devices answer pid fd buf log.world)).bind fun wrote =>
            if wrote.1 = buf.length then
              some ⟨wrote.2, log.written ++ buf⟩
            else
              none
      else
        none

/-- Opening and writing from a state in which the file holds `old`. -/
def appends (old : List UInt8) : System Log AppendCall where
  start log := HoldsFile log.world.fs ino old ∧ log.written = []
  step source call target := performAppend machine devices ino source call = some target

/-- A write is at the end of the file. -/
def AtEnd (log : Log) : AppendCall → Prop
  | .openFile _ _ _ => True
  | .write pid fd _ buf =>
    ∀ filedes,
      descriptor log.world pid fd = some filedes →
        WritesAtEnd machine log.world.fs ino filedes.pos buf

/-- The inode of a number, if there is one. -/
def inodeOf (fs : Mount) : Option Inode :=
  (idataByInode fs ino).bind fun found => found.map Prod.snd

/-- The bytes of the file with the inode number. -/
def contentOf (fs : Mount) : Option (List UInt8) :=
  (inodeOf ino fs).map fun inode => content fs.memory inode.file

variable {machine devices ino} {log later : Log} {old : List UInt8}

theorem performAppend_write
    {pid : Nat} {fd : Int} {answer : Except Errno Nat} {bytes buf : List UInt8}
    (holds : HoldsFile log.world.fs ino bytes)
    (atEnd : AtEnd machine ino log (.write pid fd answer buf))
    (performed : performAppend machine devices ino log (.write pid fd answer buf) = some later) :
    HoldsFile later.world.fs ino (bytes ++ buf) ∧ later.written = log.written ++ buf := by
  obtain ⟨filedes, slotFound, allowed⟩ := Option.bind_eq_some_iff.mp performed
  rw [Option.ite_none_right_eq_some, Option.bind_eq_some_iff] at allowed
  obtain ⟨⟨onFile, _⟩, ⟨count, changed⟩, returned, whole⟩ := allowed
  rw [Option.ite_none_right_eq_some] at whole
  obtain ⟨_, logged⟩ := whole
  cases logged
  rw [completed_eq_some_iff] at returned
  have appends : Ensures (sysWrite machine devices answer pid fd buf) log.world
      fun outcome changed =>
        ∀ count, outcome = .ok count → HoldsFile changed.fs ino (bytes ++ buf) := by
    rw [sysWrite_eq]
    refine ensures_slotTransfer (by simp) (by simp) ?_
    intro process slot running inRange _
    obtain rfl : process.fds slot = filedes := by
      simpa [descriptor, running, inRange] using slotFound
    rw [onFile]
    refine (vfsInodeWrite_appends holds (atEnd _ slotFound)).mono ?_
    intro outcome changed appends
    exact ⟨by simp, fun count succeeded _ _ => appends count succeeded⟩
  exact ⟨appends.returns _ _ returned count rfl, rfl⟩

/-- The file holds the old bytes and then what was written. -/
def Appended (ino : Nat) (old : List UInt8) (log : Log) : Prop :=
  HoldsFile log.world.fs ino (old ++ log.written)

theorem appended_of_reached
    (reached : (appends machine devices ino old).Reached (AtEnd machine ino) log) :
    Appended ino old log := by
  refine System.Reached.invariant ?_ ?_ reached
  · rintro log ⟨holds, nothing⟩
    rw [Appended, nothing, append_nil]
    exact holds
  · intro source call target holds atEnd performed
    cases call with
    | openFile pid path flags =>
      simp only [appends, performAppend, Option.ite_none_right_eq_some, Option.map_eq_some_iff]
        at performed
      obtain ⟨⟨_, leads⟩, ⟨fd, changed⟩, returned, rfl⟩ := performed
      rw [completed_eq_some_iff] at returned
      obtain ⟨⟨outcome, changed⟩, run, isFound⟩ := Option.map_eq_some_iff.mp leads.2
      cases isFound
      have looked := (vfsLookup_spec.returns _ _ run).2
      exact (sysOpen_holds holds looked leads.1).returns _ _ returned fd rfl
    | write pid fd answer buf =>
      obtain ⟨kept, grown⟩ := performAppend_write holds atEnd performed
      rw [Appended, grown, ← append_assoc]
      exact kept

/--
In every run whose writes are at the end of the file, its bytes are the old
ones and then what was written, in the order of the writes.
-/
theorem appended_in_order
    (reached : (appends machine devices ino old).Reached (AtEnd machine ino) log) :
    contentOf ino log.world.fs = some (old ++ log.written) := by
  obtain ⟨idata, inode, found, _, _, held⟩ := appended_of_reached reached
  rw [contentOf, inodeOf, found]
  exact congrArg some held.content

/-! ## Two descriptors -/

/-- A machine with eight pages for files. -/
def paged : Machine where
  grants := fun _ => true
  pages := kmemAlloc eightPages.toSupply

/-- The empty file `/a` in a new file system. -/
def fileA : Option World :=
  (mountedWorld paged zeroMemory [idleProcess]).bind
    (runCalls paged noDevices [.mknod pathA (sIfreg ||| 0o644) 0])

/-- Opening `/a` for appending. -/
def openA : AppendCall := .openFile 0 pathA (oWronly ||| oAppend)

/-- Calls on the empty file `/a`, whose inode number is 2. -/
def appendRun (calls : List AppendCall) : Option Log := fileA.bind fun world =>
    performAll (performAppend paged noDevices 2) ⟨world, []⟩ calls

theorem inodeOf_eq_some_iff {fs : Mount} {inode : Inode} :
    inodeOf ino fs = some inode ↔ ∃ idata, idataByInode fs ino = some (some (idata, inode)) := by
  rw [inodeOf, Option.bind_eq_some_iff]
  constructor
  · rintro ⟨_, found, isInode⟩
    obtain ⟨⟨idata, _⟩, rfl, rfl⟩ := Option.map_eq_some_iff.mp isInode
    exact ⟨idata, found⟩
  · rintro ⟨idata, found⟩
    exact ⟨_, found, rfl⟩

/-- The file system with `/a` is one that calls lead to. -/
theorem fileA_start :
    ∃ world,
      fileA = some world ∧ (kernel paged noDevices).Reached unrestricted world ∧
        (appends paged noDevices 2 []).start ⟨world, []⟩ := by
  obtain ⟨world, made, inWorld⟩ : ∃ world,
      fileA = some world ∧
        ((inodeOf 2 world.fs).any fun inode =>
          fileType inode.mode = sIfreg ∧ inode.nlinks = 1 ∧ inode.file.size = 0) = true :=
    exists_of_any (by decide +kernel)
  obtain ⟨inode, found, regular, linked, empty⟩ := exists_of_any inWorld
  refine ⟨world, made, ?_, ?_, rfl⟩
  · obtain ⟨start, mounted, run⟩ := Option.bind_eq_some_iff.mp made
    have started : (kernel paged noDevices).start start :=
      start_of_mountedWorld noneOpen_idleProcess mounted
    exact reached_of_runCalls (.start started) (fun _ _ _ _ => trivial) run
  · obtain ⟨idata, found⟩ := inodeOf_eq_some_iff.mp found
    refine ⟨idata, inode, found, regular, by omega, ?_⟩
    constructor
    · exact empty
    · rw [content, empty]
      rfl
    · decide
    · exact Or.inl rfl

theorem openA_atEnd :
    ∃ log,
      (appends paged noDevices 2 []).Reached (AtEnd paged 2) log ∧ appendRun [openA] = some log ∧
        AtEnd paged 2 log (.write 0 0 (.ok 0) [7, 8, 9]) := by
  obtain ⟨world, made, _, started⟩ := fileA_start
  have position : ((appendRun [openA]).bind fun log =>
        (descriptor log.world 0 0).map Filedescr.pos) =
        some 0 := by
    decide +kernel
  have opened : ((appendRun [openA]).bind fun log =>
        (inodeOf 2 log.world.fs).map fun inode => (log.world.fs.memory, inode.file)) =
        some (emptyDisk.memory, emptyFile) := by
    rfl
  obtain ⟨log, run, inLog⟩ := Option.bind_eq_some_iff.mp opened
  rw [run, Option.bind_some] at position
  obtain ⟨inode, found, isEmpty⟩ := Option.map_eq_some_iff.mp inLog
  obtain ⟨filedes, isDescriptor, atZero⟩ := Option.map_eq_some_iff.mp position
  simp only [Prod.mk.injEq] at isEmpty
  obtain ⟨idata, found⟩ := inodeOf_eq_some_iff.mp found
  refine ⟨log, ?_, run, ?_⟩
  · obtain ⟨start, isStart, performed⟩ := Option.bind_eq_some_iff.mp run
    cases made.symm.trans isStart
    obtain ⟨later, performed, same⟩ := Option.bind_eq_some_iff.mp performed
    cases same
    have permitted : AtEnd paged 2 ⟨world, []⟩ openA := trivial
    exact (System.Reached.start started).step permitted performed
  · intro other isOther
    cases isDescriptor.symm.trans isOther
    intro otherIdata otherInode otherFound
    cases found.symm.trans otherFound
    rw [isEmpty.1, isEmpty.2, atZero]
    exact ⟨rfl, sheltered_emptyFile 0 (by decide)⟩

theorem appended_in_order_sample :
    ∃ log,
      (appends paged noDevices 2 []).Reached (AtEnd paged 2) log ∧ log.written = [7, 8, 9] ∧
        contentOf 2 log.world.fs = some ([] ++ [7, 8, 9]) := by
  obtain ⟨log, reached, run, atEnd⟩ := openA_atEnd
  have computed : ((appendRun [openA]).bind fun log =>
        (performAppend paged noDevices 2 log (.write 0 0 (.ok 0) [7, 8, 9])).map Log.written) =
        some [7, 8, 9] := by
    decide +kernel
  rw [run, Option.bind_some] at computed
  obtain ⟨later, performed, written⟩ := Option.map_eq_some_iff.mp computed
  have reachedLater := reached.step atEnd performed
  have appended := appended_in_order reachedLater
  rw [written] at appended
  exact ⟨later, reachedLater, written, appended⟩

/--
Of two descriptors that were opened on the empty file, the second writes over
what the first has written.
-/
theorem append_overwrites :
    ∃ world log,
      (kernel paged noDevices).Reached unrestricted world ∧
        (appends paged noDevices 2 []).start ⟨world, []⟩ ∧
        (appends paged noDevices 2 []).Reached unrestricted log ∧ log.written = [1, 2] ∧
        contentOf 2 log.world.fs = some [2] ∧
        contentOf 2 log.world.fs ≠ some ([] ++ log.written) := by
  obtain ⟨world, made, reached, started⟩ := fileA_start
  obtain ⟨log, run, written, contents⟩ : ∃ log,
      appendRun [openA, openA, .write 0 0 (.ok 0) [1], .write 0 1 (.ok 0) [2]] = some log ∧
        log.written = [1, 2] ∧ contentOf 2 log.world.fs = some [2] :=
    exists_of_any (by decide +kernel)
  rw [appendRun, made, Option.bind_some] at run
  refine ⟨world, log, reached, started, ?_, written, contents, ?_⟩
  · refine System.Reached.performAll ?_ (.start started) run
    intro source call target performed
    exact ⟨trivial, performed⟩
  · rw [contents, written]
    decide

end Cosec.Fs.AppendRuns
