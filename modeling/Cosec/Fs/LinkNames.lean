import Cosec.Fs.LinkedLookups
import Cosec.Fs.NameGraph

/-!
# Names of links

`vfs_mknod` and `vfs_hardlink` hand the last component of a path to
`ramfs_link_inode`, which copies it into a buffer of 255 characters and makes
an entry of the copy.  The copy is not limited.  The entry can be found under
the path unless the path ends in a separator or already led somewhere else.
-/

namespace Cosec.Fs.LinkNames

open Fs.CallRuns Fs.Dirnames Fs.FailedCalls Fs.FileCalls Fs.InodeNumbers Fs.LinkedLookups
open Fs.MountSteps Fs.NameGraph Fs.PathLookup Fs.Ramfs Fs.TreeRuns Fs.Vfs Fs.VfsSteps Lib.Commands
open Lib.Commands.Command Lib.Components Lib.ObjectStore Lib.Transition Libc.Strings List

variable {machine : Machine} {fs changed : Mount}

/-! ## The last component -/

/-- The name that is linked. -/
def nameOf (fspath : CString) : CString := linkName fspath (pathDirnameLen fspath sizeMax)

/-- A name that is not empty is the last component of its path. -/
theorem last_component
    {fspath : CString} (bounded : fspath.length ≤ sizeMax) (named : nameOf fspath ≠ []) :
    (components isSep fspath).getLast? = some (nameOf fspath) := by
  unfold nameOf at named ⊢
  cases shape fspath with
  | single isRun =>
    rw [pathDirnameLen_single isRun, linkName_single isRun] at named ⊢
    rw [components_run named isRun]
    rfl
  | @atTop seps base top =>
    have name : linkName fspath (-1) = base := by
      rw [top.split]
      exact skipSeps_append top.areSeps (startsInSep_run top.isRun)
    rw [pathDirnameLen_atTop top bounded, name] at named ⊢
    rw [top.split, components_seps_append top.areSeps, components_run named top.isRun]
    rfl
  | @below front seps base under =>
    rw [pathDirnameLen_below under bounded, linkName_below under] at named ⊢
    rw [components_below under, components_run named under.isRun, getLast?_concat]

/-- The calls that link an inode under a path. -/
inductive LinkCall where
  | mknod (mode : UInt32) (dev : UInt64)
  | hardlink (oldpath : Path)

def linkCallOf (machine : Machine) (path : Path) : LinkCall → MountCommand PUnit
  | .mknod mode dev => vfsMknod machine path.chars mode dev
  | .hardlink oldpath => vfsHardlink machine oldpath.chars path.chars

/-- The parent of a path is a directory. -/
structure Parent
    (fs : Mount) (path : Path) (fspath : CString)
    (dirino dirIdata : Nat) (dirInode : Inode) : Prop where
  mount : mountnodeByPath path.chars = .ok fspath
  looked : lookupInode fspath (asSize (pathDirnameLen fspath sizeMax)) fs = some (.ok dirino)
  found : idataByInode fs dirino = some (some (dirIdata, dirInode))
  isDir : IsDir dirInode.mode

/-- The lookups of the call do not follow a null pointer. -/
def Readable (fs : Mount) : LinkCall → Prop
  | .mknod _ _ => True
  | .hardlink oldpath => lookupOf fs oldpath.chars ≠ none

/--
The call gets as far as linking an inode, after it has used this many
`kmalloc` calls of the machine.
-/
def Links (machine : Machine) (fs : Mount) (fspath : CString) : LinkCall → Nat → Nat → Prop
  | .mknod mode _, ino, calls =>
    ¬ IsDir mode ∧ fileType mode ≠ sIflnk ∧ machine.grants fs.kmallocs = true ∧
      ino = fs.inodes.count ∧ calls = fs.kmallocs + 1
  | .hardlink oldpath, ino, calls =>
    Looked fs oldpath.chars ino ∧ 0 ≤ pathDirnameLen fspath sizeMax ∧ calls = fs.kmallocs

section Calls

variable {path : Path} {fspath : CString} {dirino dirIdata : Nat} {dirInode : Inode}
  (parent : Parent fs path fspath dirino dirIdata dirInode)

include parent

theorem fails_unlinked {call : LinkCall} (readable : Readable fs call)
    (stopped : ¬ ∃ ino calls, Links machine fs fspath call ino calls) :
    Fails (linkCallOf machine path call) fs := by
  cases call with
  | mknod mode dev =>
    by_cases isDir : IsDir mode
    · exact .bind_error (.failIf isDir)
    refine .bind (.failIf isDir) ?_
    by_cases isLink : fileType mode = sIflnk
    · exact .bind_error (.failIf isLink)
    refine .bind (.failIf isLink) ?_
    have refused : machine.grants fs.kmallocs = false := by
      by_contra granted
      exact stopped ⟨_, _, isDir, isLink, by simpa using granted, rfl, rfl⟩
    refine .bind (returns_fspathOf parent.mount) (.bind (.consult parent.looked) ?_)
    refine .bind (.handle (.bind (returns_idataOr parent.found) .pure)) ?_
    refine .bind (.failIf (not_not.mpr parent.isDir)) ?_
    exact .bind_error (.bind_error (.bind (returns_kmalloc refused) (.bind_error (.failIf rfl))))
  | hardlink oldpath =>
    cases oldMount : mountnodeByPath oldpath.chars with
    | error error => exact .bind_error (.consult (by rw [oldMount]))
    | ok oldFspath =>
      refine .bind (.consult (by rw [oldMount])) (.bind (returns_fspathOf parent.mount) ?_)
      cases looked : lookupInode oldFspath sizeMax fs with
      | none =>
        have unread : lookupOf fs oldpath.chars = none := by
          rw [lookupOf, vfsLookup, (returns_fspathOf oldMount).run_bind, consult, looked]
          rfl
        exact absurd unread readable
      | some outcome =>
        cases outcome with
        | error error => exact .bind_error (.consult looked)
        | ok ino =>
          refine .bind (.consult looked) (.bind_error (.failIf ?_))
          by_contra inside
          exact stopped ⟨ino, fs.kmallocs, ⟨oldFspath, oldMount, looked⟩, Int.not_lt.mp inside, rfl⟩

/-- A state from which the rest of a call is the link. -/
structure Reaches
    (machine : Machine) (fs : Mount) (path : Path) (call : LinkCall)
    (name : CString) (ino dirino calls : Nat) (made : Mount) : Prop where
  numbered : Numbered made
  agrees : Agrees fs made
  directories : made.directories = fs.directories
  kmallocs : made.kmallocs = calls
  present : ino < made.inodes.count
  rest :
    ∀ outcome changed,
      Returns (linkInode machine ino dirino name sizeMax) made outcome changed →
        Returns (linkCallOf machine path call) fs outcome changed

theorem exists_reaches
    (numbered : Numbered fs) (room : fs.inodes.count < 64) {call : LinkCall} {ino calls : Nat}
    (links : Links machine fs fspath call ino calls) :
    ∃ made, Reaches machine fs path call (nameOf fspath) ino dirino calls made := by
  cases call with
  | mknod mode dev =>
    obtain ⟨notDir, notLink, granted, rfl, rfl⟩ := links
    obtain ⟨node, fresh, made⟩ :=
      returns_makeNode numbered room granted (nodeMode mode) (mknodInfo mode dev)
    refine ⟨_, numbered.inodeNew room fresh _,
      agrees_withInode numbered room node _, rfl, rfl, ?_, ?_⟩
    · simp [withInode]
    · intro outcome changed returned
      refine .bind (.failIf notDir) (.bind (.failIf notLink) ?_)
      refine .bind (returns_fspathOf parent.mount) (.bind (.consult parent.looked) ?_)
      refine .bind (.handle (.bind (returns_idataOr parent.found) .pure)) ?_
      exact .bind (.failIf (not_not.mpr parent.isDir)) (.bind made returned)
  | hardlink oldpath =>
    obtain ⟨⟨oldFspath, oldMount, looked⟩, inside, rfl⟩ := links
    refine ⟨fs, numbered, ⟨rfl, fun _ _ => rfl, fun _ _ => rfl⟩, rfl, rfl,
      numbered.lt_of_lookupInode looked, ?_⟩
    intro outcome changed returned
    have dirLooked := parent.looked
    rw [asSize, if_neg (Int.not_lt.mpr inside)] at dirLooked
    refine .bind (.consult (by rw [oldMount])) (.bind (returns_fspathOf parent.mount) ?_)
    exact .bind (.consult looked)
      (.bind (.failIf (Int.not_lt.mpr inside)) (.bind (.consult dirLooked) returned))

end Calls

/-! ## Names that are handled -/

/-- An entry that was not in its bucket and now is. -/
def Created (fs changed : Mount) (dir : Nat) (name : CString) (ino : Nat) : Prop :=
  ∃ table grown,
    fs.directories.read dir = some table ∧ changed.directories.read dir = some grown ∧
      ⟨strhash name, name, ino⟩ ∉ table.ht (htIndex (strhash name)) ∧
      ⟨strhash name, name, ino⟩ ∈ grown.ht (htIndex (strhash name))

/--
The name is stored inside the buffer, and the call returns an error or makes
an entry of the last component, which a lookup of the path finds.
-/
def HandlesName (machine : Machine) (fs : Mount) (path : Path) (fspath : CString)
    (dirInode : Inode) (call : LinkCall) : Prop :=
  (∀ ino calls, Links machine fs fspath call ino calls →
    ∀ store ∈ strncpy (nameOf fspath) sizeMax 0, store.1 < 255) ∧
    ∃ outcome changed,
      Returns (linkCallOf machine path call) fs outcome changed ∧
        ((∃ error, outcome = .error error) ∨
          ∃ ino calls dir base,
            Links machine fs fspath call ino calls ∧ dirInode.data = some dir ∧
              (components isSep fspath).getLast? = some base ∧ Created fs changed dir base ino ∧
              Looked changed path.chars ino)

/-- The lengths and the states for which a name is handled. -/
def NameSafe (machine : Machine) (fs : Mount) (path : Path) (fspath : CString)
    (dirInode : Inode) (call : LinkCall) : Prop :=
  ∀ ino calls, Links machine fs fspath call ino calls →
    (nameOf fspath).length < 255 ∧
      (LinkFault machine fs calls dirInode (nameOf fspath) ∨
        (nameOf fspath ≠ [] ∧ (LookFails fs path.chars .enoent ∨ Looked fs path.chars ino)))

theorem created_iff
    {made : Mount} {table grown : Directory} {dir ino other : Nat} {name base : CString}
    (directories : made.directories = fs.directories)
    (reading : fs.directories.read dir = some table)
    (inserted : directoryInsert table ⟨strhash name, name, ino⟩ = .ok grown) :
    Created fs (linkedMount made dir ino grown) dir base other ↔ base = name ∧ other = ino := by
  have readingLater : (linkedMount made dir ino grown).directories.read dir = some grown := by
    unfold linkedMount
    rw [Store.read_change, if_pos rfl, directories, reading]
    rfl
  constructor
  · rintro ⟨table', grown', reading', readingLater', absent, member⟩
    cases reading.symm.trans reading'
    cases readingLater.symm.trans readingLater'
    rcases mem_of_directoryInsert inserted member with same | earlier
    · rw [Direntry.mk.injEq] at same
      exact same.2
    · exact absurd earlier absent
  · rintro ⟨rfl, rfl⟩
    refine ⟨table, grown, reading, readingLater, ?_, ?_⟩
    · intro member
      refine (directoryInsert_ok_iff.mp inserted).1 ⟨_, member, ?_⟩
      have same : strcmp base base = 0 := strncmp_eq_zero_iff.mpr rfl
      simp [sameName, same]
    · rw [ht_of_directoryInsert inserted, if_pos rfl]
      exact mem_append_right _ mem_cons_self

section Linked

variable {path : Path} {fspath : CString} {dirino dirIdata ino calls : Nat} {dirInode : Inode}
  {call : LinkCall} {made : Mount} (numbered : Numbered fs)
  (parent : Parent fs path fspath dirino dirIdata dirInode)
  (links : Links machine fs fspath call ino calls)
  (reaches : Reaches machine fs path call (nameOf fspath) ino dirino calls made)

theorem nameSafe_iff (links : Links machine fs fspath call ino calls) :
    NameSafe machine fs path fspath dirInode call ↔
      (nameOf fspath).length < 255 ∧
        (LinkFault machine fs calls dirInode (nameOf fspath) ∨
          (nameOf fspath ≠ [] ∧ (LookFails fs path.chars .enoent ∨ Looked fs path.chars ino))) := by
  constructor
  · intro safe
    exact safe ino calls links
  · intro safe other otherCalls others
    cases call with
    | mknod mode dev =>
      obtain ⟨_, _, _, rfl, rfl⟩ := links
      obtain ⟨_, _, _, rfl, rfl⟩ := others
      exact safe
    | hardlink oldpath =>
      obtain ⟨looked, _, rfl⟩ := links
      obtain ⟨otherLooked, _, rfl⟩ := others
      rwa [looked_inj otherLooked looked]

include parent in
/-- The stores stay in the buffer when the name is short. -/
theorem stores_below_iff :
    (∀ store ∈ strncpy (nameOf fspath) sizeMax 0, store.1 < 255) ↔
      (nameOf fspath).length < 255 := by
  have whole : (nameOf fspath).take sizeMax = nameOf fspath := linkName_take path parent.mount _
  rw [strncpy_below_iff, whole, zero_add]

include numbered parent reaches

/-- A link that is refused is an error. -/
theorem fails_of_fault (short : (nameOf fspath).length < 255)
    (fault : LinkFault machine fs calls dirInode (nameOf fspath)) :
    Fails (linkCallOf machine path call) fs := by
  have dirFound :=
    (reaches.agrees.inode dirino (numbered.lt_of_lookupInode parent.looked)).trans parent.found
  have faultLater : LinkFault machine made made.kmallocs dirInode (nameOf fspath) := by
    unfold LinkFault
    rw [reaches.kmallocs, reaches.directories]
    exact fault
  obtain ⟨error, changed, returned⟩ :=
    fails_link reaches.numbered dirFound parent.isDir reaches.present short faultLater
  exact ⟨error, changed, reaches.rest _ _ returned⟩

include links

/-- A link that is made is found under its path, if it can be. -/
theorem handled_of_link (short : (nameOf fspath).length < 255)
    (possible : ¬ LinkFault machine fs calls dirInode (nameOf fspath)) :
    HandlesName machine fs path fspath dirInode call ↔
      nameOf fspath ≠ [] ∧ (LookFails fs path.chars .enoent ∨ Looked fs path.chars ino) := by
  have dirFound :=
    (reaches.agrees.inode dirino (numbered.lt_of_lookupInode parent.looked)).trans parent.found
  have possibleLater : ¬ LinkFault machine made made.kmallocs dirInode (nameOf fspath) := by
    unfold LinkFault
    rw [reaches.kmallocs, reaches.directories]
    exact possible
  obtain ⟨dir, table, grown, data, reading, inserted, linked⟩ :=
    returns_link reaches.numbered dirFound parent.isDir reaches.present short possibleLater
  have returned := reaches.rest _ _ linked
  have extended : Extends fs (linkedMount made dir ino grown) dir (nameOf fspath) ino :=
    .earlier numbered reaches.agrees reaches.directories (extends_linked reading inserted)
  rw [reaches.directories] at reading
  have entered := enterDirectory_of_found parent.found parent.isDir data
  have looked := extended.looked parent.mount parent.looked entered rfl
  have bounded : fspath.length ≤ sizeMax :=
    le_of_lt (lt_trans (mountnodeByPath_length parent.mount) path.bounded)
  constructor
  · rintro ⟨_, outcome, changed, otherReturned, ending⟩
    have same := returned.run.symm.trans otherReturned.run
    obtain ⟨rfl, rfl⟩ := same
    rcases ending with ⟨error, impossible⟩ |
      ⟨other, _, otherDir, base, _, otherData, last, created, found⟩
    · cases impossible
    · cases data.symm.trans otherData
      obtain ⟨rfl, rfl⟩ := (created_iff reaches.directories reading inserted).mp created
      refine ⟨by simpa using (mem_filter.mp (mem_of_getLast? last)).2, ?_⟩
      rcases looked with ⟨before, looked, after⟩ | ⟨missing, _⟩
      · cases looked_inj after found
        exact Or.inr looked
      · exact Or.inl missing
  · rintro ⟨named, free⟩
    have stores := (stores_below_iff parent).mpr short
    refine ⟨fun _ _ _ => stores, _, _, returned, Or.inr ⟨ino, calls, dir,
      nameOf fspath, links, data, last_component bounded named,
      (created_iff reaches.directories reading inserted).mpr ⟨rfl, rfl⟩, ?_⟩⟩
    rcases looked with ⟨before, looked, after⟩ | ⟨_, after⟩
    · rcases free with missing | earlier
      · exact absurd missing (not_lookFails looked _)
      · cases looked_inj looked earlier
        exact after
    · exact after

end Linked

theorem parent_of_run {path : Path} {fspath : CString} {dirIdata : Nat} {dirInode : Inode}
    (mount : mountnodeByPath path.chars = .ok fspath) (isRun : Run isSep fspath)
    (found : idataByInode fs fs.rootIno = some (some (dirIdata, dirInode)))
    (isDir : IsDir dirInode.mode) : Parent fs path fspath fs.rootIno dirIdata dirInode where
  mount := mount
  looked := by
    rw [pathDirnameLen_single isRun]
    exact lookupInode_root (Or.inr rfl)
  found := found
  isDir := isDir

/-- A new mount has a root directory, and `/a` leads nowhere. -/
theorem mounted_root :
    ∃ world dirIdata dirInode,
      (kernel generous noDevices).Reached unrestricted world ∧ world.fs.inodes.count < 64 ∧
        idataByInode world.fs world.fs.rootIno = some (some (dirIdata, dirInode)) ∧
        IsDir dirInode.mode ∧ LookFails world.fs pathA.chars .enoent := by
  obtain ⟨world, reached, room, missing, root⟩ : ∃ world,
      (kernel generous noDevices).Reached unrestricted world ∧ world.fs.inodes.count < 64 ∧
        lookupInode pathA.chars.tail sizeMax world.fs = some (.error .enoent) ∧
        ((idataByInode world.fs world.fs.rootIno).join.any fun root => IsDir root.2.mode) = true :=
    exists_sampleRun [] (fun _ _ _ _ => trivial) (by decide +kernel)
  obtain ⟨⟨dirIdata, dirInode⟩, isFound, isDir⟩ := exists_of_any root
  exact ⟨world, dirIdata, dirInode, reached, room, Option.join_eq_some_iff.mp isFound, isDir,
    Or.inr ⟨pathA.chars.tail, rfl, missing⟩⟩

/-- A name of 255 times the same character. -/
def longName : CString := (List.replicate 255 pathA.chars.tail).flatten

def longPath : Path where
  chars := pathA.chars.take 1 ++ longName
  bounded := by decide +kernel

end Cosec.Fs.LinkNames
