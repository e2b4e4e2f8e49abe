import Cosec.Fs.Ramfs

/-!
# The virtual file system

This module embeds the operations of `vfs.c` over the root mount, which is
the only mount `vfs_mount` makes, with the operations table of ramfs: the
table has no `free_inode`, and `trunc_inode` returns `ETODO`.

Paths are strings in memory.  The path inside the mount is the path without
its first separator.
-/

namespace Cosec.Fs.Vfs

open Fs.Ramfs Lib.Commands.Command Libc.ErrorNumbers Libc.Strings

variable (machine : Machine)

/-! ## Paths -/

/-- The path inside the root mount. -/
def mountnodeByPath : CString → Except Errno CString
  | [] => .error .einval
  | char :: rest => if isSep char then .ok rest else .error .einval

theorem mountnodeByPath_length {path fspath : CString} (mount : mountnodeByPath path = .ok fspath) :
    fspath.length < path.length := by
  cases path with
  | nil => cases mount
  | cons char rest =>
    rw [mountnodeByPath] at mount
    split at mount
    · cases mount
      exact Nat.lt_succ_self _
    · cases mount

/-- The path inside the root mount, as a step of an operation. -/
def fspathOf (path : CString) : MountCommand CString := consult fun _ => some (mountnodeByPath path)

def vfsLookup (path : CString) : MountCommand Nat := do
  let fspath ← fspathOf path
  consult (lookupInode fspath sizeMax)

def vfsInodeGet (ino : Nat) : MountCommand Inode := inodeGet ino

/--
The inode that is written back is the one `inode_get` has just read, and not
the caller's.
-/
def vfsInodeSet (ino : Nat) (inobuf : Inode) : MountCommand PUnit := do
  let idata ← inodeGet ino
  failIf (fileType idata.mode ≠ fileType inobuf.mode) .einval
  failIf (idata.ino ≠ inobuf.ino) .einval
  failIf (idata.data ≠ inobuf.data) .einval
  inodeSet ino idata

/-! ## Namespace operations -/

def vfsMkdir (path : CString) (mode : UInt32) : MountCommand PUnit := do
  let localpath ← handle (fspathOf path) fun _ => fail .enoent
  let _ ← makeDirectory machine localpath ((mode &&& ~~~sIfmt) ||| sIfdir)
  pure ⟨⟩

/-- The conversion of the signed length of `vfs_mknod` to `size_t`. -/
def asSize (length : Int) : Nat := if length < 0 then sizeMax else length.toNat

/-- A node is a regular file unless its mode says otherwise. -/
def nodeMode (mode : UInt32) : UInt32 := if fileType mode = 0 then mode ||| sIfreg else mode

/-- The last component of a path, behind the name of its directory. -/
def linkName (fspath : CString) (dirnamelen : Int) : CString :=
  skipSeps (fspath.drop dirnamelen.toNat)

/--
The inode of the parent is not initialised when `vfs_inode_get` fails.  When
the length of the directory name is negative, the name starts at the
separator in front of the path, which the loop skips.
-/
def vfsMknod (path : CString) (mode : UInt32) (dev : UInt64) : MountCommand PUnit := do
  failIf (IsDir mode) .einval
  failIf (fileType mode = sIflnk) .einval
  let mode := nodeMode mode
  let fspath ← fspathOf path
  let dirnamelen := pathDirnameLen fspath sizeMax
  let dirino ← consult (lookupInode fspath (asSize dirnamelen))
  let idata ← handle (vfsInodeGet dirino) fun _ => undefined
  failIf (¬ IsDir idata.mode) .enotdir
  let mkinfo := if IsDevice mode then dev.toUInt32 else 0
  let ino ← makeNode machine mode mkinfo
  linkInode machine ino dirino (linkName fspath dirnamelen) sizeMax

def vfsHardlink (path newpath : CString) : MountCommand PUnit := do
  let fspath ← fspathOf path
  let newFspath ← fspathOf newpath
  let ino ← consult (lookupInode fspath sizeMax)
  let dlen := pathDirnameLen newFspath sizeMax
  failIf (dlen < 0) .einval
  let dirino ← consult (lookupInode newFspath dlen.toNat)
  linkInode machine ino dirino (linkName newFspath dlen) sizeMax

def vfsUnlink (path : CString) : MountCommand PUnit := do
  let fspath ← fspathOf path
  unlinkInode fspath sizeMax

def vfsRename (oldpath newpath : CString) : MountCommand PUnit := do
  vfsHardlink machine oldpath newpath
  vfsUnlink oldpath

/-! ## File contents -/

/-- Which operations a character device provides. -/
structure CharDevice where
  readBuf : Bool
  writeBuf : Bool
  hasData : Bool

/-- `device_by_devno`; of a block device only its presence matters. -/
structure Devices where
  chr : UInt64 → Option CharDevice
  blk : UInt64 → Bool

def inodeDevno (idata : Inode) : UInt64 := gnuDevMakedev idata.maj idata.min

/-- `struct stat`; the fields that are left zero are not part of it. -/
structure Stat where
  dev : UInt64
  ino : Nat
  mode : UInt32
  nlink : Nat
  rdev : UInt64
  size : Int

/-- `sbDev` is the device of the mount. -/
def vfsInodeStat (sbDev : UInt64) (ino : Nat) : MountCommand Stat := do
  let idata ← inodeGet ino
  pure
    { dev := sbDev
      ino := ino
      mode := idata.mode
      nlink := idata.nlinks
      rdev := if IsDevice idata.mode then inodeDevno idata else 0
      size := idata.file.size }

def vfsStat (sbDev : UInt64) (path : CString) : MountCommand Stat := do
  let fspath ← fspathOf path
  let ino ← consult (lookupInode fspath sizeMax)
  vfsInodeStat sbDev ino

variable (devices : Devices)

/-- A device answers with an error or a number of bytes. -/
def deviceAnswer (answer : Except Errno Nat) : MountCommand Nat := consult fun _ => some answer

def vfsInodeRead (answer : Except Errno Nat) (ino : Nat) (pos : Int)
    (buf : Nat → UInt8) (buflen : Nat) :
    MountCommand (Nat × (Nat → UInt8)) := do
  let idata ← inodeGet ino
  if fileType idata.mode = sIfchr then
    match devices.chr (inodeDevno idata) with
    | none => fail .enodev
    | some device =>
      failIf (device.readBuf = false) .enosys
      let count ← deviceAnswer answer
      pure (count, buf)
  else if fileType idata.mode = sIfblk then
    failIf (devices.blk (inodeDevno idata) = false) .enodev
    let count ← deviceAnswer answer
    pure (count, buf)
  else if fileType idata.mode = sIfsock ∨ fileType idata.mode = sIfifo ∨
      fileType idata.mode = sIflnk then
    fail .etodo
  else if IsDir idata.mode then
    fail .eisdir
  else if fileType idata.mode = sIfreg then
    if idata.file.size ≤ pos then pure (0, buf)
    else ramfsReadInode ino pos buf buflen
  else
    fail .ekern

def vfsInodeWrite (answer : Except Errno Nat) (ino : Nat) (pos : Int)
    (buf : List UInt8) : MountCommand Nat := do
  let idata ← inodeGet ino
  if fileType idata.mode = sIfreg then
    ramfsWriteInode machine ino pos buf
  else if IsDir idata.mode then
    fail .eisdir
  else if fileType idata.mode = sIfblk then
    fail .etodo
  else if fileType idata.mode = sIfchr then
    match devices.chr (inodeDevno idata) with
    | none => fail .enodev
    | some device =>
      failIf (device.writeBuf = false) .enosys
      deviceAnswer answer
  else if fileType idata.mode = sIflnk ∨ fileType idata.mode = sIfsock ∨
      fileType idata.mode = sIfifo then
    fail .etodo
  else
    fail .ekern

end Cosec.Fs.Vfs
