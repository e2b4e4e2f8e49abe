import Cosec.Fs.Vfs

/-!
# System calls on files

This module embeds `fs_sys.c` and the descriptor tables of `process.c`.  The
current process of a call is named by its place in the list of processes.

The field `viaOpen` is not part of `struct filedesc`: it marks the slots that
`sys_open` filled and no `sys_close` emptied, as opposed to the slots a new
process starts with.
-/

namespace Cosec.Fs.FileCalls

open Fs.Ramfs Fs.Vfs Lib.Commands Lib.Commands.Command Libc.ErrorNumbers Libc.Strings

/-! ## Processes -/

/-- `struct filedesc`; `sb` tells whether `fd_sb` is set. -/
structure Filedescr where
  sb : Bool
  ino : Nat
  flags : UInt32
  pos : Int
  viaOpen : Bool

/-- `N_PROCESS_FDS` is 20. -/
structure Process where
  umask : UInt32
  fds : Fin 20 → Filedescr

structure World where
  fs : Mount
  processes : List Process

abbrev WorldCommand := Command World Errno

def onMount {Value : Type} (command : MountCommand Value) : WorldCommand Value :=
  within World.fs (fun world fs => { world with fs := fs }) command

def editSlot (pid : Nat) (fd : Fin 20) (edit : Filedescr → Filedescr) : WorldCommand PUnit :=
  update fun world =>
    { world with
      processes := world.processes.modify pid fun process =>
          { process with
            fds := fun slot =>
              if slot = fd then edit (process.fds slot)
              else process.fds slot } }

/-- `alloc_fd_for_pid`: the first slot whose inode number is zero. -/
def allocFd (process : Process) : Option (Fin 20) :=
  (List.finRange 20).find? fun fd => (process.fds fd).ino == 0

/-- `get_filedescr_for_pid` on a process that exists. -/
def filedescrForPid (fd : Int) : Option (Fin 20) :=
  if fd < 0 ∨ 20 ≤ fd then none else some (Fin.ofNat 20 fd.toNat)

/-- The slot of a descriptor, or an error. -/
def slotOr (bad : Errno) (fd : Int) : WorldCommand (Fin 20) := consult fun _ =>
    match filedescrForPid fd with
    | some slot => some (.ok slot)
    | none => some (.error bad)

def currentProc (pid : Nat) : WorldCommand Process := demand fun world => world.processes[pid]?

/-! ## Opening and closing -/

/-- `O_RDWR`. -/
def oRdwr : UInt32 := 0x01

/-- `O_RDONLY`. -/
def oRdonly : UInt32 := 0x02

/-- `O_WRONLY`. -/
def oWronly : UInt32 := 0x04

/-- `O_APPEND`. -/
def oAppend : UInt32 := 0x08

/-- `O_CREAT`. -/
def oCreat : UInt32 := 0x10

/-- `O_TRUNC`. -/
def oTrunc : UInt32 := 0x20

/-- The access mode of `flags`. -/
def accessMode (flags : UInt32) : UInt32 := flags &&& (oRdwr ||| oRdonly ||| oWronly)

/-- More than one access mode is set. -/
def Ambiguous (rw : UInt32) : Prop :=
  (rw &&& oRdwr ≠ 0 ∧ rw &&& ~~~oRdwr ≠ 0) ∨ (rw &&& oRdonly ≠ 0 ∧ rw &&& ~~~oRdonly ≠ 0) ∨
    (rw &&& oWronly ≠ 0 ∧ rw &&& ~~~oWronly ≠ 0)

instance (rw : UInt32) : Decidable (Ambiguous rw) := by
  unfold Ambiguous
  infer_instance

variable (machine : Machine) (devices : Devices)

/-- The inode to open, `0` when it is to be created. -/
def openLookup (path : CString) (flags : UInt32) : WorldCommand Nat :=
  handle (onMount (vfsLookup path)) fun error =>
    if error = .enoent ∧ flags &&& oCreat ≠ 0 then pure 0
    else fail error

/-- `O_CREAT` of a path that was not found. -/
def openCreate (path : CString) (umask : UInt32) : WorldCommand Nat := do
  onMount (vfsMknod machine path (sIfreg ||| umask) 0)
  handle (onMount (vfsLookup path)) fun _ => fail .ekern

/-- The inode that is opened, created when it was not found. -/
def openInode (path : CString) (flags umask : UInt32) (found : Nat) : WorldCommand Nat :=
  if found = 0 ∧ flags &&& oCreat ≠ 0 then openCreate machine path umask
  else pure found

/-- The position of a new descriptor. -/
def openPos (idata : Inode) (flags : UInt32) : Int := if fileType idata.mode = sIfchr then
    match devices.chr (inodeDevno idata) with
    | some device => if device.hasData then -1 else 0
    | none => 0
  else if fileType idata.mode = sIfsock ∨ fileType idata.mode = sIfifo then
    0
  else if accessMode flags &&& (oRdwr ||| oWronly) ≠ 0 ∧
      flags &&& oTrunc = 0 ∧ flags &&& oAppend ≠ 0 then
    idata.file.size
  else
    0

/-- The descriptor; the result of `vfs_inode_set` is not looked at. -/
def sysOpen (pid : Nat) (path : CString) (flags : UInt32) : WorldCommand (Fin 20) := do
  failIf (accessMode flags = 0) .einval
  failIf (Ambiguous (accessMode flags)) .einval
  let found ← openLookup path flags
  let process ← currentProc pid
  let fd ← consult fun _ =>
    match allocFd process with
    | some fd => some (.ok fd)
    | none => some (.error .emfile)
  editSlot pid fd fun filedes => { filedes with flags := flags, pos := 0 }
  let ino ← openInode machine path flags process.umask found
  let idata ← onMount (vfsInodeGet ino)
  let _ ← attempt (onMount (vfsInodeSet ino { idata with nfds := idata.nfds + 1 }))
  editSlot pid fd fun filedes =>
    { filedes with
      pos := openPos devices idata flags
      sb := true
      ino := ino
      viaOpen := true }
  pure fd

/-- `--idata.i_nfds`, of an unsigned counter. -/
def dropFd (inode : Inode) : Inode :=
  { inode with
    nfds := if inode.nfds = 0 then 4294967295 else inode.nfds - 1 }

/-- A slot whose `fd_sb` was never set is read through a null pointer. -/
def sysClose (pid : Nat) (fd : Int) : WorldCommand PUnit := do
  let slot ← slotOr .ebadf fd
  let process ← currentProc pid
  let filedes := process.fds slot
  if filedes.sb = false then
    undefined
  else
    let idata ← onMount (vfsInodeGet filedes.ino)
    let _ ← attempt (onMount (vfsInodeSet filedes.ino (dropFd idata)))
    editSlot pid slot fun filedes => { filedes with ino := 0, viaOpen := false }

/-- The position moves unless it is negative. -/
def advancePos (count : Nat) (pos : Int) : Int := if 0 ≤ pos then pos + count else pos

def advance (count : Nat) (filedes : Filedescr) : Filedescr :=
  { filedes with pos := advancePos count filedes.pos }

def sysRead (answer : Except Errno Nat) (pid : Nat) (fd : Int) (buf : Nat → UInt8) (count : Nat) :
    WorldCommand (Nat × (Nat → UInt8)) := do
  let process ← currentProc pid
  let slot ← slotOr .einval fd
  let filedes := process.fds slot
  failIf (filedes.flags &&& oWronly ≠ 0) .ebadf
  if filedes.sb = false then
    undefined
  else
    let read ← onMount (vfsInodeRead devices answer filedes.ino filedes.pos buf count)
    editSlot pid slot (advance read.1)
    pure read

def sysWrite (answer : Except Errno Nat) (pid : Nat) (fd : Int)
    (buf : List UInt8) : WorldCommand Nat := do
  let process ← currentProc pid
  let slot ← slotOr .einval fd
  let filedes := process.fds slot
  failIf (filedes.flags &&& oRdonly ≠ 0) .ebadf
  if filedes.sb = false then
    undefined
  else
    let nwritten ← onMount (vfsInodeWrite machine devices answer filedes.ino filedes.pos buf)
    editSlot pid slot (advance nwritten)
    pure nwritten

/-! ## Seeking -/

/-- `SEEK_SET`. -/
def seekSet : Int := 0

/-- `SEEK_CUR`. -/
def seekCur : Int := 1

/-- `SEEK_END`. -/
def seekEnd : Int := 2

/-- The value of a sum as an `off_t`, which is an `int`. -/
def asOffT (value : Int) : Int := value.bmod 4294967296

/-- The file types `sys_lseek` refuses. -/
def unseekable (idata : Inode) : Option Errno :=
  if fileType idata.mode = sIfifo ∨ fileType idata.mode = sIfsock then
    some .espipe
  else if IsDir idata.mode then
    some .eisdir
  else if fileType idata.mode = sIfchr then
    match devices.chr (inodeDevno idata) with
    | none => some .enxio
    | some device => if device.hasData then some .espipe else none
  else
    none

/-- The position that is stored first; `none` for an unknown `whence`. -/
def seekTarget (whence pos size offset : Int) : Option Int :=
  if whence = seekCur then some (asOffT (pos + offset))
  else if whence = seekSet then some offset
  else if whence = seekEnd then some (asOffT (size - offset))
  else none

/-- The corrections made to the stored position. -/
def clampPos (size target : Int) : Int :=
  let pos := if size < target then size else target
  if pos < 0 then 0 else pos

/-- The value returned is the position before it is corrected. -/
def moveSlot (pid : Nat) (slot : Fin 20) (whence pos size offset : Int) : WorldCommand Int :=
  match seekTarget whence pos size offset with
  | none => fail .einval
  | some target => do
      editSlot pid slot fun filedes => { filedes with pos := clampPos size target }
      pure target

def sysLseek (pid : Nat) (fd : Int) (offset : Int32) (whence : Int) : WorldCommand Int := do
  let slot ← slotOr .ebadf fd
  let process ← currentProc pid
  let filedes := process.fds slot
  failIf (filedes.ino = 0) .ebadf
  failIf (filedes.pos < 0) .espipe
  if filedes.sb = false then
    undefined
  else
    let idata ← onMount (vfsInodeGet filedes.ino)
    match unseekable devices idata with
    | some error => fail error
    | none => moveSlot pid slot whence filedes.pos idata.file.size offset.toInt

def sysMkdir (path : CString) (mode : UInt32) : WorldCommand PUnit :=
  onMount (vfsMkdir machine path mode)

def sysUnlink (path : CString) : WorldCommand PUnit := onMount (vfsUnlink path)

def sysRename (oldpath newpath : CString) : WorldCommand PUnit :=
  onMount (vfsRename machine oldpath newpath)

end Cosec.Fs.FileCalls
