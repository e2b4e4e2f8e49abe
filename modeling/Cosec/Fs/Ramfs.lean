import Mathlib.Logic.Function.Basic
import Cosec.Fs.FileBlocks
import Cosec.Fs.InodeTree
import Cosec.Lib.Commands
import Cosec.Lib.ObjectStore
import Cosec.Libc.Strings

/-!
# The ramfs driver

This module embeds the namespace half of `ramfs.c`: directories, inodes, path
lookup, links and the driver operations built from them.

Inodes and directories are objects of two stores, and a pointer is the number
of its object; object `0` of the inodes is `theInvalidInode`.  `kfree` adds to
the count of frees of an object and leaves its contents.  Directory entries,
their names and the nodes of the inode table are values.

The machine says whether call number `n` of `kmalloc` is granted, and the
mount counts the calls.  Every function is a command: it may return an error
after a change, and is undefined where the source reads through a null
pointer or writes behind an array.
-/

namespace Cosec.Fs.Ramfs

open Fs.FileBlocks Fs.InodeTree Lib.Commands Lib.Commands.Command Lib.ObjectStore Lib.Word32
open Libc.ErrorNumbers Libc.Strings

/-! ## File types and device numbers -/

/-- `mode & S_IFMT`. -/
def fileType (mode : UInt32) : UInt32 := mode &&& 0xF000

/-- `S_IFMT`. -/
def sIfmt : UInt32 := 0xF000

/-- `S_IFDIR`. -/
def sIfdir : UInt32 := 0x4000

/-- `S_IFREG`. -/
def sIfreg : UInt32 := 0x8000

/-- `S_IFCHR`. -/
def sIfchr : UInt32 := 0x2000

/-- `S_IFBLK`. -/
def sIfblk : UInt32 := 0x6000

/-- `S_IFLNK`. -/
def sIflnk : UInt32 := 0xA000

/-- `S_IFSOCK`. -/
def sIfsock : UInt32 := 0xC000

/-- `S_IFIFO`. -/
def sIfifo : UInt32 := 0x1000

/-- `S_ISDIR`. -/
def IsDir (mode : UInt32) : Prop := fileType mode = sIfdir

instance (mode : UInt32) : Decidable (IsDir mode) :=
  inferInstanceAs (Decidable (fileType mode = sIfdir))

/-- `S_ISCHR(mode) || S_ISBLK(mode)`. -/
def IsDevice (mode : UInt32) : Prop := fileType mode = sIfchr ∨ fileType mode = sIfblk

instance (mode : UInt32) : Decidable (IsDevice mode) :=
  inferInstanceAs (Decidable (fileType mode = sIfchr ∨ fileType mode = sIfblk))

def gnuDevMajor (dev : UInt64) : UInt32 :=
  ((dev >>> 8) &&& 0xfff).toUInt32 ||| ((dev >>> 32).toUInt32 &&& 0xfffff000)

def gnuDevMinor (dev : UInt64) : UInt32 :=
  (dev &&& 0xff).toUInt32 ||| ((dev >>> 12).toUInt32 &&& 0xffffff00)

def gnuDevMakedev (major minor : UInt32) : UInt64 :=
  let low : UInt32 := minor &&& 0xff
  let middle : UInt32 := (major &&& 0xfff) <<< 8
  let minorHigh : UInt32 := minor &&& 0xffffff00
  let majorHigh : UInt32 := major &&& 0xfffff000
  (low ||| middle).toUInt64 ||| (minorHigh.toUInt64 <<< 12) ||| (majorHigh.toUInt64 <<< 32)

/-! ## Objects -/

/-- `struct ramfs_direntry`. -/
structure Direntry where
  hash : UInt32
  name : CString
  ino : Nat

/-- `struct ramfs_directory`, whose hash table has eight buckets. -/
structure Directory where
  size : Nat
  ht : Fin 8 → List Direntry

/--
`struct inode`.  The blocks and the device number share memory in the source;
the type of an inode never changes and tells which of them is in use.
-/
structure Inode where
  ino : Nat
  mode : UInt32
  nlinks : Nat
  nfds : Nat
  data : Option Nat
  file : RegFile
  maj : UInt32
  min : UInt32

/-- An inode as `ramfs_inode_new` leaves it. -/
def newInode (ino : Nat) (mode : UInt32) : Inode where
  ino := ino
  mode := mode
  nlinks := 0
  nfds := 0
  data := none
  file := emptyFile
  maj := 0
  min := 0

/-- The mount: the superblock, the inode table and the objects. -/
structure Mount where
  tree : Slot Nat
  rootIno : Nat
  inodes : Store Inode
  directories : Store Directory
  kmallocs : Nat
  memory : PageMemory

/-- What the kernel around the file system answers. -/
structure Machine where
  grants : Nat → Bool
  pages : Nat → Nat

abbrev MountCommand := Command Mount Errno

variable (machine : Machine)

def kmalloc : MountCommand Bool := do
  let granted ← query fun fs => machine.grants fs.kmallocs
  update fun fs => { fs with kmallocs := fs.kmallocs + 1 }
  pure granted

/-! ## Directories -/

def emptyDirectory : Directory where
  size := 0
  ht := fun _ => []

/-- `hash % htcap`. -/
def htIndex (hash : UInt32) : Fin 8 := Fin.ofNat 8 hash.toNat

/-- The test of `ramfs_directory_insert` and `ramfs_directory_delete_entry`. -/
def sameName (hash : UInt32) (name : CString) (de : Direntry) : Bool :=
  de.hash == hash && strcmp de.name name == 0

def directoryInsert (dir : Directory) (de : Direntry) : Except Errno Directory :=
  let bucket := dir.ht (htIndex de.hash)
  if bucket.any (sameName de.hash de.name) then
    .error .eexist
  else
    .ok
      { size := dir.size + 1
        ht := Function.update dir.ht (htIndex de.hash) (bucket ++ [de]) }

def directoryDelete (dir : Directory) (name : CString) (namelen : Nat) : Except Errno Directory :=
  let hash := strhash (name.take namelen)
  let bucket := dir.ht (htIndex hash)
  if bucket.any (sameName hash name) then
    .ok
      { size := dir.size - 1
        ht := Function.update dir.ht (htIndex hash) (bucket.eraseP (sameName hash name)) }
  else
    .error .enoent

/-- The inode number of the first entry that matches. -/
def directorySearch (dir : Directory) (basename : CString) (len : Nat) : Except Errno Nat :=
  let hash := strhash (basename.take len)
  match (dir.ht (htIndex hash)).find? fun de =>
      de.hash == hash && strncmp basename de.name len == 0 with
  | some de => .ok de.ino
  | none => .error .enoent

/-- `ramfs_directory_new`. -/
def directoryNew : MountCommand Nat := do
  let record ← kmalloc machine
  failIf (record = false) .enomem
  let table ← kmalloc machine
  failIf (table = false) .enomem
  let dir ← query fun fs => fs.directories.count
  update fun fs => { fs with directories := fs.directories.add emptyDirectory }
  pure dir

/-- `ramfs_directory_new_entry`; `strdup` allocates the name. -/
def directoryNewEntry (dir : Option Nat) (name : CString) (ino : Nat) : MountCommand PUnit := do
  let entry ← kmalloc machine
  failIf (entry = false) .enomem
  let copy ← kmalloc machine
  failIf (copy = false) .enomem
  let id ← demand fun _ => dir
  let changed ← consult fun fs =>
    (fs.directories.read id).map fun table => directoryInsert table ⟨strhash name, name, ino⟩
  update fun fs => { fs with directories := fs.directories.change id fun _ => changed }

def directoryDeleteEntry (dir : Nat) (name : CString) (namelen : Nat) : MountCommand PUnit := do
  let changed ← consult fun fs =>
    (fs.directories.read dir).map fun table => directoryDelete table name namelen
  update fun fs => { fs with directories := fs.directories.change dir fun _ => changed }

def directoryFree (dir : Nat) : MountCommand PUnit :=
  update fun fs => { fs with directories := fs.directories.free dir }

/-! ## Inodes -/

/-- A mount on which nothing was allocated. -/
def blank (memory : PageMemory) : Mount where
  tree := .null
  rootIno := 0
  inodes := Store.empty.add (newInode 0 0)
  directories := Store.empty
  kmallocs := 0
  memory := memory

def dataNew : MountCommand PUnit := do
  let data ← kmalloc machine
  failIf (data = false) .enomem
  let bnode ← kmalloc machine
  failIf (bnode = false) .enomem
  let (_, tree) ← demand fun _ => setLeaf 0 (btreeNew 64)
  update fun fs => { fs with tree := tree }

/-- The object of the new inode. -/
def inodeNew (mode : UInt32) : MountCommand Nat := do
  let granted ← kmalloc machine
  failIf (granted = false) .enomem
  let idata ← query fun fs => fs.inodes.count
  let (ino, tree, kmallocs) ← demand fun fs => newLeaf machine.grants fs.kmallocs fs.tree idata
  update fun fs =>
    { fs with
      tree := tree
      inodes := fs.inodes.add (newInode ino mode)
      kmallocs := kmallocs }
  pure idata

/--
`ramfs_inode_free`.  The pages of a regular file go back to the page
allocator, which is not part of the mount.
-/
def inodeFree (idata : Nat) : MountCommand PUnit := do
  let inode ← demand fun fs => fs.inodes.read idata
  match inode.data with
  | some dir => if IsDir inode.mode then directoryFree dir else pure ⟨⟩
  | none => pure ⟨⟩
  update fun fs => { fs with inodes := fs.inodes.free idata }

/--
`ramfs_idata_by_inode`: the object and its contents, the inner `none` for
null.
-/
def idataByInode (fs : Mount) (ino : Nat) : Option (Option (Nat × Inode)) :=
  match getIndex fs.tree ino with
  | some .null => some none
  | some (.leaf idata) => (fs.inodes.read idata).map fun inode => some (idata, inode)
  | _ => none

/-- A lookup of `ramfs_idata_by_inode` whose null is the given error. -/
def idataOr (missing : Errno) (ino : Nat) : MountCommand (Nat × Inode) := consult fun fs =>
    (idataByInode fs ino).map fun found =>
      match found with
      | some idata => .ok idata
      | none => .error missing

def editInode (idata : Nat) (edit : Inode → Inode) : MountCommand PUnit :=
  update fun fs => { fs with inodes := fs.inodes.change idata edit }

/-- `++idata->i_nlinks`. -/
def addLink (inode : Inode) : Inode := { inode with nlinks := inode.nlinks + 1 }

/-- `--idata->i_nlinks`, of an unsigned counter. -/
def dropLink (inode : Inode) : Inode :=
  { inode with
    nlinks := if inode.nlinks = 0 then 4294967295 else inode.nlinks - 1 }

def freeInode (ino : Nat) : MountCommand PUnit := do
  let idata ← idataOr .enoent ino
  inodeFree idata.1

/-- `ramfs_inode_get`. -/
def inodeGet (ino : Nat) : MountCommand Inode := do
  let idata ← idataOr .enoent ino
  pure idata.2

/-- `ramfs_inode_set`. -/
def inodeSet (ino : Nat) (inobuf : Inode) : MountCommand PUnit := do
  let idata ← idataOr .enoent ino
  editInode idata.1 fun _ => inobuf
  if inobuf.nlinks = 0 ∧ inobuf.nfds = 0 then freeInode ino
  else pure ⟨⟩

def searchAt (fs : Mount) (dir : Nat) (basename : CString) (len : Nat) :
    Option (Except Errno Nat) :=
  (fs.directories.read dir).map fun table => directorySearch table basename len

/-- The directory of an inode on the way to the last component. -/
def enterDirectory (fs : Mount) (ino : Nat) : Option (Except Errno Nat) :=
  match idataByInode fs ino with
  | none => none
  | some none => some (.error .ekern)
  | some (some (_, inode)) =>
    if IsDir inode.mode then inode.data.map .ok
    else some (.error .enotdir)

/--
The loops of `ramfs_lookup_inode`: the path from `basename_end` on, what is
left of `pathlen`, the directory, and the characters from `basename` to
`basename_end`.  While `skipping`, separators are passed over whatever is
left of `pathlen`.
-/
def lookupLoop (fs : Mount) : CString → Nat → Nat → CString → Bool → Option (Except Errno Nat)
  | [], _, dir, basename, _ => searchAt fs dir basename basename.length
  | char :: rest, pathlen, dir, basename, skipping =>
    if skipping && isSep char then
      lookupLoop fs rest (pathlen - 1) dir basename true
    else if pathlen = 0 then
      searchAt fs dir basename basename.length
    else if !isSep char then
      lookupLoop fs rest (pathlen - 1) dir (basename ++ [char]) false
    else
      match searchAt fs dir basename basename.length with
      | some (.ok ino) =>
        if rest.isEmpty then
          some (.ok ino)
        else
          match enterDirectory fs ino with
          | some (.ok below) => lookupLoop fs rest (pathlen - 1) below [] true
          | failed => failed
      | failed => failed

/-- The directory of the root inode. -/
def rootDirectory (fs : Mount) : Option (Except Errno Nat) := match idataByInode fs fs.rootIno with
  | none => none
  | some none => some (.error .ekern)
  | some (some (_, inode)) =>
    if IsDir inode.mode then inode.data.map .ok
    else some (.error .ekern)

def lookupInode (path : CString) (pathlen : Nat) (fs : Mount) : Option (Except Errno Nat) :=
  if path.isEmpty ∨ pathlen = 0 then
    some (.ok fs.rootIno)
  else
    match rootDirectory fs with
    | some (.ok dir) => lookupLoop fs path pathlen dir [] false
    | failed => failed

/--
The loop of `vfs_path_dirname_len` from the separator at a position on.  The
path of a mount is preceded by the separator in front of it, which the loop
runs over; the character before that one is taken not to be a separator.
-/
def dirnameEnd (path : CString) : Nat → Int
  | 0 => -1
  | lastSep + 1 =>
    match path[lastSep]? with
    | some char => if isSep char then dirnameEnd path lastSep else lastSep + 1
    | none => lastSep + 1

/-- `vfs_path_dirname_len`. -/
def pathDirnameLen (path : CString) (pathlen : Nat) : Int := match strnrchr path pathlen with
  | none => 0
  | some lastSep => dirnameEnd path lastSep

/-- `buf` holds `UCHAR_MAX` characters. -/
def linkInode (ino dirino : Nat) (name : CString) (namelen : Nat) : MountCommand PUnit := do
  let buf := name.take namelen
  if 255 ≤ buf.length then
    undefined
  else
    let dirIdata ← idataOr .ekern dirino
    failIf (¬ IsDir dirIdata.2.mode) .enotdir
    failIf (dirIdata.2.data = none) .ekern
    let idata ← idataOr .enoent ino
    directoryNewEntry machine dirIdata.2.data buf idata.2.ino
    editInode idata.1 addLink

/-- The loop of `ramfs_unlink_inode` up to the last component. -/
def skipToBasename : CString → Nat → Nat → Option (CString × Nat)
  | [], dirlen, _ => some ([], dirlen)
  | char :: rest, dirlen, pathlen =>
    if isSep char then
      if pathlen ≤ dirlen then none
      else skipToBasename rest (dirlen + 1) pathlen
    else
      some (char :: rest, dirlen)

/-- The second half of `ramfs_unlink_inode`: the last component is found. -/
def unlinkEntry (dir : Nat) (basename : CString) (namelen : Nat) : MountCommand PUnit := do
  let ino ← consult fun fs => searchAt fs dir basename namelen
  let idata ← idataOr .ekern ino
  failIf (IsDir idata.2.mode) .eisdir
  directoryDeleteEntry dir basename namelen
  editInode idata.1 dropLink
  let inode ← demand fun fs => fs.inodes.read idata.1
  if 0 < inode.nlinks ∨ 0 < inode.nfds then pure ⟨⟩
  else freeInode ino

def unlinkInode (path : CString) (pathlen : Nat) : MountCommand PUnit := do
  let dlen := pathDirnameLen path pathlen
  failIf (dlen < 0) .einval
  let parino ← consult (lookupInode path dlen.toNat)
  let dirIdata ← idataOr .ekern parino
  failIf (¬ IsDir dirIdata.2.mode) .enotdir
  match dirIdata.2.data, skipToBasename (path.drop dlen.toNat) dlen.toNat pathlen with
  | none, _ => fail .ekern
  | some _, none => fail .einval
  | some dir, some (basename, dirlen) => unlinkEntry dir basename (sub32 pathlen dirlen)

/-! ## New directories and nodes -/

/-- `"."`. -/
def dotName : CString := [⟨46, by decide⟩]

/-- `".."`. -/
def dotdotName : CString := [⟨46, by decide⟩, ⟨46, by decide⟩]

/-- The position of the name of a new directory in its path. -/
def basenameStart (path : CString) : Nat := (strrchr path).getD 0

/-- The name of a new directory in its parent. -/
def newName (path : CString) : CString := skipSeps (path.drop (basenameStart path))

/-- The entry `..` of a root directory. -/
def enterSelf (idata dir ino : Nat) : MountCommand Bool := do
  directoryNewEntry machine (some dir) dotdotName ino
  editInode idata addLink
  pure true

/--
The entry of a new directory in its parent, whose error is not looked at.
The result is `false` when the inode of the parent is missing, where the
source leaves through `error_exit` with the return value of the successful
lookup.
-/
def enterParent (path : CString) (idata ino : Nat) : MountCommand Bool := do
  let parino ← consult (lookupInode path (basenameStart path))
  let parent ← demand fun fs => idataByInode fs parino
  match parent with
  | none => pure false
  | some (_, parIdata) =>
    failIf (¬ IsDir parIdata.mode) .enotdir
    let _ ← attempt (directoryNewEntry machine parIdata.data (newName path) ino)
    editInode idata addLink
    pure true

/-- The entry of a new directory in the directory above it. -/
def enterAbove (path : CString) (idata dir ino : Nat) : MountCommand Bool :=
  if path.isEmpty then enterSelf machine idata dir ino
  else enterParent machine path idata ino

/-- The entries of a new directory, in its parent and in itself. -/
def makeEntries (path : CString) (idata dir : Nat) : MountCommand Bool := do
  let inode ← demand fun fs => fs.inodes.read idata
  let entered ← enterAbove machine path idata dir inode.ino
  if entered then
    directoryNewEntry machine (some dir) dotName inode.ino
    pure true
  else
    pure false

/-- The label `error_exit` of `ramfs_make_directory`. -/
def errorExit (dir : Option Nat) (idata : Nat) : MountCommand PUnit := do
  match dir with
  | some dir => directoryFree dir
  | none => pure ⟨⟩
  inodeFree idata

/-- `idata->i_data = dir`. -/
def setData (dir : Nat) (inode : Inode) : Inode := { inode with data := some dir }

/-- The inode number of the new directory. -/
def makeDirectory (path : CString) (mode : UInt32) : MountCommand Nat := do
  let idata ← inodeNew machine (sIfdir ||| mode)
  let dir ← handle (directoryNew machine) fun error => do
    errorExit none idata
    fail error
  let finished ← handle (makeEntries machine path idata dir) fun error => do
    errorExit (some dir) idata
    fail error
  if finished then
    editInode idata fun inode => addLink (setData dir inode)
    let inode ← demand fun fs => fs.inodes.read idata
    pure inode.ino
  else
    errorExit (some dir) idata
    pure 0

/-- The device number of a device inode. -/
def setDevice (info : UInt32) (inode : Inode) : Inode :=
  { inode with
    maj := gnuDevMajor info.toUInt64
    min := gnuDevMinor info.toUInt64 }

/-- The inode number of the new node. -/
def makeNode (mode : UInt32) (info : UInt32) : MountCommand Nat := do
  let idata ← inodeNew machine mode
  if IsDevice mode then editInode idata (setDevice info)
  else pure ⟨⟩
  let inode ← demand fun fs => fs.inodes.read idata
  pure inode.ino

/-- `ramfs_read_superblock` of a root mount. -/
def readSuperblock : MountCommand PUnit := do
  dataNew machine
  let rootIno ← makeDirectory machine [] (sIfdir ||| 0o755)
  update fun fs => { fs with rootIno := rootIno }

/--
`ramfs_read_inode`, for the positions at which it is defined: the bytes
reported and the caller's buffer.
-/
def ramfsReadInode (ino : Nat) (pos : Int) (buf : Nat → UInt8)
    (buflen : Nat) : MountCommand (Nat × (Nat → UInt8)) := do
  let idata ← idataOr .enoent ino
  demand fun fs =>
    if pos < 0 then none
    else readInode fs.memory idata.2.file pos.toNat buf buflen

/-- `ramfs_write_inode`: the bytes reported. -/
def ramfsWriteInode (ino : Nat) (pos : Int) (buf : List UInt8) : MountCommand Nat := do
  let idata ← idataOr .enoent ino
  let (outcome, count, file, memory) ← demand fun fs =>
    if pos < 0 then none
    else writeInode machine.pages fs.memory idata.2.file pos.toNat buf
  editInode idata.1 fun inode => { inode with file := file }
  update fun fs => { fs with memory := memory }
  match outcome with
  | .ok _ => pure count
  | .error error => fail error

end Cosec.Fs.Ramfs
