import Cosec.Fs.BlockWrites
import Cosec.Fs.InodeUpdates

/-!
# Calls on descriptors that are not open

`alloc_fd_for_pid` takes a slot for free when its inode number is zero, but
of the calls on descriptors only `sys_lseek` looks at the number.  The others
go on with the flags and the superblock that the last opening left in the
slot, and with inode zero, which is an entry of the inode table.
-/

namespace Cosec.Fs.ClosedDescriptors

open Fs.BlockWrites Fs.CallRuns Fs.FileCalls Fs.InodeNumbers Fs.InodeUpdates Fs.MountSteps Fs.Ramfs
open Fs.Vfs Lib.Commands Lib.Commands.Command Lib.Transition Libc.ErrorNumbers Libc.Strings

/-! ## Calls on descriptors -/

/-- A call on a descriptor; `answer` is what a driver says if it is asked. -/
inductive SlotCall where
  | read (answer : Except Errno Nat) (buf : Nat → UInt8) (count : Nat)
  | write (answer : Except Errno Nat) (buf : List UInt8)
  | close
  | lseek (offset : Int32) (whence : Int)

def slotCallOf (machine : Machine) (devices : Devices) (pid : Nat) (fd : Int) :
    SlotCall → WorldCommand PUnit
  | .read answer buf count => dropValue (sysRead devices answer pid fd buf count)
  | .write answer buf => dropValue (sysWrite machine devices answer pid fd buf)
  | .close => sysClose pid fd
  | .lseek offset whence => dropValue (sysLseek devices pid fd offset whence)

/-- Openings and calls on descriptors. -/
inductive FileCall where
  | openFile (pid : Nat) (path : Path) (flags : UInt32)
  | onSlot (pid : Nat) (fd : Int) (call : SlotCall)

def fileCallOf (machine : Machine) (devices : Devices) : FileCall → WorldCommand PUnit
  | .openFile pid path flags => dropValue (sysOpen machine devices pid path.chars flags)
  | .onSlot pid fd call => slotCallOf machine devices pid fd call

/-- The runs of such calls on a mounted ramfs. -/
def fileCalls (machine : Machine) (devices : Devices) : System World FileCall where
  start := (kernel machine devices).start
  step := fun world call target =>
    ∃ outcome, fileCallOf machine devices call world = some (outcome, target)

/-- The slot is free for `alloc_fd_for_pid`. -/
def Closed (filedes : Filedescr) : Prop := filedes.ino = 0

/-- The call returns `EBADF` and changes nothing. -/
def Rejected (command : WorldCommand PUnit) (world : World) : Prop :=
  Returns command world (.error .ebadf) world

/-! ## Where the error comes from -/

/-- A device that is asked to read. -/
def ReadDevice (devices : Devices) (inode : Inode) : Prop :=
  (fileType inode.mode = sIfchr ∧
      ∃ device, devices.chr (inodeDevno inode) = some device ∧ device.readBuf = true) ∨
    (fileType inode.mode = sIfblk ∧ devices.blk (inodeDevno inode) = true)

/-- A device that is asked to write. -/
def WriteDevice (devices : Devices) (inode : Inode) : Prop :=
  fileType inode.mode = sIfchr ∧
    ∃ device, devices.chr (inodeDevno inode) = some device ∧ device.writeBuf = true

/-- Inode zero is a device of the kind, and its driver says `EBADF`. -/
def DriverRefuses (asked : Inode → Prop) (fs : Mount) (answer : Except Errno Nat) : Prop :=
  answer = .error .ebadf ∧
    ∃ idata inode, idataByInode fs 0 = some (some (idata, inode)) ∧ asked inode

/-- What is left in a closed slot makes the call return `EBADF`. -/
def Refuses (devices : Devices) (fs : Mount) (filedes : Filedescr) : SlotCall → Prop
  | .read answer _ _ =>
    filedes.flags &&& oWronly ≠ 0 ∨
      (filedes.sb = true ∧ DriverRefuses (ReadDevice devices) fs answer)
  | .write answer _ =>
    filedes.flags &&& oRdonly ≠ 0 ∨
      (filedes.sb = true ∧ DriverRefuses (WriteDevice devices) fs answer)
  | .close => False
  | .lseek _ _ => True

variable {machine : Machine} {devices : Devices} {fs : Mount} {world : World} {pid : Nat} {fd : Int}
  {process : Process} {slot : Fin 20} {answer : Except Errno Nat}

theorem ensures_deviceAnswer {post : Except Errno Nat → Mount → Prop} :
    Ensures (deviceAnswer answer) fs post ↔ post answer fs :=
  ensures_of_eq rfl

variable {pos : Int}

/-- Of the errors of a read, only a driver's can be `EBADF`. -/
theorem vfsInodeRead_badf {buf : Nat → UInt8} {buflen : Nat} :
    Ensures (vfsInodeRead devices answer 0 pos buf buflen) fs fun outcome _ =>
        outcome = .error .ebadf → DriverRefuses (ReadDevice devices) fs answer := by
  unfold vfsInodeRead
  simp only [inodeGet, ensures_bind, ensures_idataOr, continues_error,
    continues_ok, ensures_pure, ensures_ite, ensures_fail, ensures_failIf,
    ramfsReadInode, ensures_demand, ensures_deviceAnswer, reduceCtorEq,
    Except.error.injEq, false_implies, implies_true, true_and, and_true]
  intro idata inode found
  constructor
  · intro isChar
    cases driver : devices.chr (inodeDevno inode) with
    | none => simp
    | some device =>
      simp only [ensures_bind, ensures_failIf, continues_error,
        continues_ok, ensures_deviceAnswer, reduceCtorEq,
        Except.error.injEq, false_implies, implies_true, true_and]
      intro reads
      cases answer with
      | ok count => simp
      | error error =>
        intro isBadf
        cases isBadf
        exact ⟨rfl, idata, inode, found, Or.inl ⟨isChar, device, driver, by simpa using reads⟩⟩
  · intro _ isBlock present
    cases answer with
    | ok count => simp
    | error error =>
      intro isBadf
      cases isBadf
      exact ⟨rfl, idata, inode, found, Or.inr ⟨isBlock, by simpa using present⟩⟩

theorem vfsInodeRead_refused
    {buf : Nat → UInt8} {buflen : Nat} (refuses : DriverRefuses (ReadDevice devices) fs answer) :
    Returns (vfsInodeRead devices answer 0 pos buf buflen) fs (.error .ebadf) fs := by
  obtain ⟨rfl, idata, inode, found, asked⟩ := refuses
  refine .bind (returns_inodeGet found) ?_
  rcases asked with ⟨isChar, device, driver, reads⟩ | ⟨isBlock, present⟩
  · rw [if_pos isChar, driver]
    exact .bind (.failIf (by simp [reads])) (.bind_error (.consult rfl))
  · have notChar : ¬ fileType inode.mode = sIfchr := by
      rw [isBlock]
      decide
    rw [if_neg notChar, if_pos isBlock]
    exact .bind (.failIf (by simp [present])) (.bind_error (.consult rfl))

variable {buf : List UInt8}

theorem ramfsWriteInode_not_badf {ino : Nat} :
    Ensures (ramfsWriteInode machine ino pos buf) fs fun outcome _ =>
      outcome ≠ .error .ebadf := by
  unfold ramfsWriteInode
  simp only [ensures_bind, ensures_idataOr, continues_error, continues_ok,
    ensures_demand, ensures_editInode, ensures_update]
  refine ⟨fun _ => by simp, ?_⟩
  rintro idata inode found ⟨outcome, count, file, memory⟩ wrote
  have ended : outcome = .ok () ∨ outcome = .error .eio := by
    rw [Option.ite_none_left_eq_some, writeInode_eq, FileBlocks.writeExit, Option.some.injEq,
      Prod.mk.injEq] at wrote
    rw [← wrote.2.1]
    split_ifs
    · exact Or.inl rfl
    · exact Or.inr rfl
  rcases ended with rfl | rfl
  · simp
  · simp

theorem vfsInodeWrite_badf :
    Ensures (vfsInodeWrite machine devices answer 0 pos buf) fs fun outcome _ =>
        outcome = .error .ebadf → DriverRefuses (WriteDevice devices) fs answer := by
  unfold vfsInodeWrite
  simp only [inodeGet, ensures_bind, ensures_idataOr, continues_error,
    continues_ok, ensures_pure, ensures_ite, ensures_fail, reduceCtorEq,
    Except.error.injEq, false_implies, implies_true, true_and, and_true]
  intro idata inode found
  constructor
  · intro _
    refine ramfsWriteInode_not_badf.mono ?_
    intro outcome changed notBadf isBadf
    exact absurd isBadf notBadf
  · intro _ _ _ isChar
    cases driver : devices.chr (inodeDevno inode) with
    | none => simp
    | some device =>
      simp only [ensures_bind, ensures_failIf, continues_error,
        continues_ok, ensures_deviceAnswer, reduceCtorEq,
        Except.error.injEq, false_implies, implies_true, true_and]
      intro writes isBadf
      exact ⟨isBadf, idata, inode, found, isChar, device, driver, by simpa using writes⟩

theorem vfsInodeWrite_refused (refuses : DriverRefuses (WriteDevice devices) fs answer) :
    Returns (vfsInodeWrite machine devices answer 0 pos buf) fs (.error .ebadf) fs := by
  obtain ⟨rfl, idata, inode, found, isChar, device, driver, writes⟩ := refuses
  have notReg : ¬ fileType inode.mode = sIfreg := by
    rw [isChar]
    decide
  have notDir : ¬ IsDir inode.mode := by
    unfold IsDir
    rw [isChar]
    decide
  have notBlock : ¬ fileType inode.mode = sIfblk := by
    rw [isChar]
    decide
  refine .bind (returns_inodeGet found) ?_
  rw [if_neg notReg, if_neg notDir, if_neg notBlock, if_pos isChar, driver]
  exact .bind (.failIf (by simp [writes])) (.consult rfl)

theorem rejected_dropValue {Value : Type} {command : WorldCommand Value} :
    Rejected (dropValue command) world ↔ Returns command world (.error .ebadf) world := by
  constructor
  · rintro ⟨run⟩
    have ensured : Ensures (dropValue command) world fun outcome changed =>
          outcome = .error .ebadf → Returns command world (.error .ebadf) changed := by
      unfold dropValue
      rw [ensures_bind]
      constructor
      intro outcome changed returned
      cases outcome with
      | ok value => simp
      | error error =>
        intro isBadf
        cases isBadf
        exact ⟨returned⟩
    exact ensured.returns _ _ run rfl
  · intro returned
    exact .bind_error returned

section Slots

variable (running : world.processes[pid]? = some process) (inRange : filedescrForPid fd = some slot)
  (closed : Closed (process.fds slot))

include running inRange closed

theorem lseek_rejected (offset : Int32) (whence : Int) :
    Rejected (dropValue (sysLseek devices pid fd offset whence)) world :=
  rejected_dropValue.mpr
    (.bind (returns_slotOr inRange)
      (.bind (returns_currentProc running) (.bind_error (.failIf_error closed))))

omit closed in
theorem slotTransfer_badf_iff {Value : Type} {forbidden : UInt32}
    {command : Filedescr → MountCommand Value} {moved : Value → Nat} {refuses : Prop}
    (refused : Ensures (command (process.fds slot)) world.fs fun outcome _ =>
        outcome = .error .ebadf → refuses)
    (refusing : refuses → Returns (command (process.fds slot)) world.fs (.error .ebadf) world.fs) :
    Returns (slotTransfer pid fd forbidden command moved) world (.error .ebadf) world ↔
      (process.fds slot).flags &&& forbidden ≠ 0 ∨ ((process.fds slot).sb = true ∧ refuses) := by
  by_cases flagged : (process.fds slot).flags &&& forbidden ≠ 0
  · refine iff_of_true ?_ (Or.inl flagged)
    exact .bind (returns_currentProc running)
      (.bind (returns_slotOr inRange) (.bind_error (.failIf_error flagged)))
  · constructor
    · intro returned
      have ensured : Ensures (slotTransfer pid fd forbidden command moved) world fun outcome _ =>
              outcome = .error .ebadf → (process.fds slot).sb = true ∧ refuses := by
        refine ensures_slotTransfer (by simp) ?_ ?_
        · intro other otherSlot isProcess isSlot isFlagged
          cases running.symm.trans isProcess
          cases inRange.symm.trans isSlot
          exact absurd isFlagged flagged
        · intro other otherSlot isProcess isSlot mounted
          cases running.symm.trans isProcess
          cases inRange.symm.trans isSlot
          refine refused.mono ?_
          intro outcome changed refused
          constructor
          · rintro error rfl isBadf
            cases isBadf
            exact ⟨mounted, refused rfl⟩
          · simp
      exact Or.inr (ensured.returns _ _ returned.run rfl)
    · rintro (isFlagged | ⟨mounted, isRefused⟩)
      · exact absurd isFlagged flagged
      · refine .bind (returns_currentProc running)
          (.bind (returns_slotOr inRange) (.bind (.failIf flagged) ?_))
        rw [if_neg (by simp [mounted])]
        exact .bind_error (returns_onMount (refusing isRefused))

omit closed in
/-- Closing goes wrong only where there is no inode of the number. -/
theorem close_not_rejected : ¬ Rejected (sysClose pid fd) world := by
  have ensured : Ensures (sysClose pid fd) world fun outcome _ =>
        outcome ≠ .error .ebadf := by
    unfold sysClose slotOr currentProc
    simp only [ensures_bind, ensures_consult, inRange, Option.some.injEq,
      forall_eq', continues_ok, ensures_demand, running, ensures_ite,
      ensures_undefined, implies_true, true_and, ensures_onMount,
      vfsInodeGet, inodeGet, ensures_idataOr, continues_error,
      ensures_pure, ensures_attempt, ensures_editSlot]
    refine fun _ => ⟨by simp, fun idata inode _ => ?_⟩
    constructor
    intro outcome changed _
    simp
  intro rejected
  exact ensured.returns _ _ rejected.run rfl

end Slots

/-! ## Every closed descriptor -/

/--
In every state, whatever calls led to it, and for every descriptor whose slot
is closed: `sys_lseek` rejects it, `sys_close` never does, and `sys_read` and
`sys_write` do so exactly when the flags left in the slot forbid the transfer
or inode zero is a device whose driver answers `EBADF`.
-/
theorem closed_rejected_iff
    (machine : Machine) (devices : Devices) (world : World) (pid : Nat) (process : Process)
    (running : world.processes[pid]? = some process) (fd : Int) (slot : Fin 20)
    (inRange : filedescrForPid fd = some slot) (closed : Closed (process.fds slot))
    (call : SlotCall) :
    Rejected (slotCallOf machine devices pid fd call) world ↔
      Refuses devices world.fs (process.fds slot) call := by
  cases call with
  | read answer buf count =>
    rw [slotCallOf, rejected_dropValue, sysRead_eq, Refuses]
    apply slotTransfer_badf_iff running inRange
    · rw [closed]
      exact vfsInodeRead_badf
    · rw [closed]
      exact vfsInodeRead_refused
  | write answer buf =>
    rw [slotCallOf, rejected_dropValue, sysWrite_eq, Refuses]
    apply slotTransfer_badf_iff running inRange
    · rw [closed]
      exact vfsInodeWrite_badf
    · rw [closed]
      exact vfsInodeWrite_refused
  | close => exact iff_of_false (close_not_rejected running inRange) id
  | lseek offset whence =>
    exact iff_of_true (lseek_rejected running inRange closed offset whence) trivial

/-- One call, whatever it returns. -/
def performCall
    (machine : Machine) (devices : Devices) (world : World) (call : FileCall) : Option World :=
  (fileCallOf machine devices call world).map Prod.snd

/-- The state after some calls of one process on a generous machine. -/
def fileRun (calls : List FileCall) : Option World :=
  (mountedWorld generous zeroMemory [idleProcess]).bind fun world =>
    performAll (performCall generous noDevices) world calls

theorem reached_of_fileRun {calls : List FileCall} (run : fileRun calls = some world) :
    (fileCalls generous noDevices).Reached unrestricted world := by
  obtain ⟨start, mounted, performed⟩ := Option.bind_eq_some_iff.mp run
  have started : (kernel generous noDevices).start start :=
    start_of_mountedWorld noneOpen_idleProcess mounted
  refine System.Reached.performAll ?_ (.start started) performed
  intro source call target taken
  obtain ⟨⟨outcome, changed⟩, returned, rfl⟩ := Option.map_eq_some_iff.mp taken
  exact ⟨trivial, outcome, returned⟩

/-- A run that creates `/a` and closes it. -/
def closedA : List FileCall := [.openFile 0 pathA (oCreat ||| oWronly), .onSlot 0 0 .close]

/--
After that run slot zero is closed, with the flags of the opening left in it.
-/
theorem closedA_slot :
    ∃ world process,
      fileRun closedA = some world ∧ world.processes[0]? = some process ∧
        Closed (process.fds (Fin.ofNat 20 0)) ∧
        (process.fds (Fin.ofNat 20 0)).flags = oCreat ||| oWronly := by
  obtain ⟨world, run, found⟩ : ∃ world,
      fileRun closedA = some world ∧
        (world.processes[0]?.any fun process =>
          let filedes := process.fds (Fin.ofNat 20 0)
          filedes.ino = 0 ∧ filedes.flags = oCreat ||| oWronly) = true :=
    exists_of_any (by decide +kernel)
  obtain ⟨process, running, closed, flags⟩ := exists_of_any found
  exact ⟨world, process, run, running, closed, flags⟩

/-- A read of the closed descriptor is rejected, it was opened to write. -/
theorem closed_rejected_iff_sample :
    ∃ world,
      fileRun closedA = some world ∧
        Rejected (slotCallOf generous noDevices 0 0 (.read (.ok 0) (fun _ => 0) 1)) world := by
  obtain ⟨world, process, run, running, closed, flags⟩ := closedA_slot
  have rejected :=
    closed_rejected_iff generous noDevices world 0 process running 0
      (Fin.ofNat 20 0) rfl closed (.read (.ok 0) (fun _ => 0) 1)
  refine ⟨world, run, rejected.mpr (Or.inl ?_)⟩
  rw [flags]
  decide

/-- Closing the descriptor once more is not rejected. -/
theorem closed_twice :
    ¬ ∀ (machine : Machine) (devices : Devices) (world : World),
        (fileCalls machine devices).Reached unrestricted world →
          ∀ (pid : Nat) (process : Process) (fd : Int) (slot : Fin 20),
            world.processes[pid]? = some process → filedescrForPid fd = some slot →
            Closed (process.fds slot) →
              ∀ call, Rejected (slotCallOf machine devices pid fd call) world := by
  intro always
  obtain ⟨world, process, run, running, closed, _⟩ := closedA_slot
  have rejected :=
    always generous noDevices world (reached_of_fileRun run) 0 process 0
      (Fin.ofNat 20 0) running rfl closed .close
  exact close_not_rejected running rfl rejected

end Cosec.Fs.ClosedDescriptors
