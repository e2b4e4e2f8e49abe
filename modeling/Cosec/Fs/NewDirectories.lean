import Cosec.Fs.PathLookup

/-!
# How `vfs_mkdir` ends

In a numbered mount with room in its table, the number of a new inode and the
`kmalloc` calls of `ramfs_make_directory` are known in advance, and the parent
is looked up as if nothing had been made yet.  So each end of the operation
is described by the mount it started from.
-/

namespace Cosec.Fs.NewDirectories

open Fs.InodeNumbers Fs.MountSteps Fs.PathLookup Fs.Ramfs Fs.Vfs Fs.VfsSteps Lib.Commands
open Lib.ObjectStore Libc.ErrorNumbers Libc.Strings

variable {machine : Machine} {fs changed : Mount} {node : Inode} {mode : UInt32} {path : CString}

/-! ## Allocations in pairs -/

/-- One of two `kmalloc` calls in a row is refused. -/
def PairRefused (machine : Machine) (calls : Nat) : Prop :=
  machine.grants calls = false ∨ machine.grants (calls + 1) = false

theorem not_pairRefused (granting : ∀ call, machine.grants call = true) (calls : Nat) :
    ¬ PairRefused machine calls := by
  unfold PairRefused
  simp [granting]

theorem emptyDirectory_hasName (name : CString) : ¬ HasName emptyDirectory name := by
  rintro ⟨de, member, _⟩
  cases member

/-- An entry is refused for want of memory unless the name is taken. -/
theorem pairRefused_of_entryRefused
    {dir : Option Nat} {name : CString} (refused : EntryRefused machine fs dir name)
    (free :
      ∀ id table, dir = some id → fs.directories.read id = some table → ¬ HasName table name) :
    PairRefused machine fs.kmallocs := by
  rcases refused with first | second | ⟨id, table, isDir, reading, taken⟩
  · exact Or.inl first
  · exact Or.inr second
  · exact absurd taken (free id table isDir reading)

/-- The mount in which the entries of a new directory are made. -/
def making (fs : Mount) (node : Inode) : Mount :=
  withDirectory (withInode fs node (fs.kmallocs + 1))

theorem making_directory :
    (making fs node).directories.read fs.directories.count = some emptyDirectory :=
  Store.read_add_count

theorem making_inode : (making fs node).inodes.read fs.inodes.count = some node :=
  Store.read_add_count

/-- The directory above a new one is not the new one. -/
theorem lt_of_parentOf
    (numbered : Numbered fs) {dir : Nat} (parentOf : ParentOf fs path (some dir)) :
    dir < fs.directories.count := by
  obtain ⟨parino, parIdata, inode, _, found, _, hasData⟩ := parentOf
  exact numbered.dataAll parino parIdata inode dir found hasData

/-! ## The ends of `ramfs_make_directory` -/

/-- How `ramfs_make_directory` ends once it has made its inode. -/
inductive MkdirEnd
    (machine : Machine) (fs : Mount) (node : Inode) (path : CString) :
    Except Errno Nat → Mount → Prop
  | noDirectory {middle : Mount} {error : Errno}
      (refused : PairRefused machine (fs.kmallocs + 1))
      (untouched : Untouched (withInode fs node (fs.kmallocs + 1)) middle) :
      MkdirEnd machine fs node path (.error error) (freed middle fs.inodes.count node)
  | noEntry {middle : Mount} {error : Errno}
      (root : path = [])
      (refused : PairRefused machine (fs.kmallocs + 3))
      (untouched : Untouched (making fs node) middle) :
      MkdirEnd machine fs node path (.error error)
        (abandoned middle fs.directories.count fs.inodes.count node)
  | noParent {error : Errno}
      (below : path ≠ [])
      (fault : ParentFault fs path) :
      MkdirEnd machine fs node path (.error error)
        (abandoned (making fs node) fs.directories.count fs.inodes.count node)
  | noDot {middle stopped : Mount} {inode : Inode} {error : Errno}
      (entered :
        Entered machine path fs.inodes.count fs.directories.count
          fs.inodes.count (making fs node) middle)
      (refused : PairRefused machine middle.kmallocs)
      (untouched : Untouched middle stopped)
      (reading : stopped.inodes.read fs.inodes.count = some inode) :
      MkdirEnd machine fs node path (.error error)
        (abandoned stopped fs.directories.count fs.inodes.count inode)
  | done {middle : Mount} {number : Nat}
      (entries :
        EntriesMade machine path fs.inodes.count fs.directories.count
          fs.inodes.count (making fs node) middle) :
      MkdirEnd machine fs node path (.ok number)
        (attached middle fs.inodes.count fs.directories.count)

/-- The entry of a new directory is only refused for want of memory. -/
theorem making_pairRefused {name : CString}
    (refused : EntryRefused machine (making fs node) (some fs.directories.count) name) :
    PairRefused machine (fs.kmallocs + 3) := by
  refine pairRefused_of_entryRefused refused ?_
  rintro id table ⟨⟩ reading
  rw [making_directory] at reading
  cases reading
  exact emptyDirectory_hasName name

variable (numbered : Numbered fs) (room : fs.inodes.count < 64)

include numbered room

theorem agrees_making (node : Inode) : Agrees fs (making fs node) where
  root := rfl
  inode := (agrees_withInode numbered room node (fs.kmallocs + 1)).inode
  directory := by
    intro dir present
    simp only [making, withDirectory, withInode, Store.read_add]
    rw [if_neg (ne_of_lt present)]

theorem making_quietly (fresh : FreshNode node fs.inodes.count mode) :
    Quietly fs (making fs node) := by
  have stored := newLeaf_flat numbered.flat room (fun _ => true) (fs.kmallocs + 1)
  exact (Relation.ReflTransGen.single (Quiet.inodeNew fresh stored)).trans (withDirectory_quietly _)

theorem done_quietly {middle : Mount} (fresh : FreshNode node fs.inodes.count mode)
    (entries :
      EntriesMade machine path fs.inodes.count fs.directories.count
        fs.inodes.count (making fs node) middle) :
    Quietly fs (attached middle fs.inodes.count fs.directories.count) := by
  have quiet := (entriesMade_quietly making_inode fresh.ino.symm entries).1
  have present : fs.directories.count < middle.directories.count := by
    have grows := (count_le_of_quietly quiet).2
    simp only [making, withDirectory, withInode, Store.count_add] at grows
    omega
  exact ((making_quietly numbered room fresh).trans quiet).trans
    (attached_quietly fs.inodes.count present)

/-- A new directory has no entry for itself before it is given one. -/
theorem entered_not_hasName {middle : Mount}
    (entered :
      Entered machine path fs.inodes.count fs.directories.count
        fs.inodes.count (making fs node) middle)
    {table : Directory} (reading : middle.directories.read fs.directories.count = some table) :
    ¬ HasName table dotName := by
  cases entered with
  | self root emptyReading inserted =>
    rw [making_directory] at emptyReading
    cases emptyReading
    simp only [Store.read_change, if_true, making_directory,
      Option.map_some, Option.some.injEq] at reading
    subst reading
    rintro ⟨de, member, same⟩
    rcases mem_of_directoryInsert inserted member with rfl | older
    · have different :
          ¬ sameName (strhash dotName) dotName
            ⟨strhash dotdotName, dotdotName, fs.inodes.count⟩ := by
        simp [sameName, strcmp, strncmp, dotdotName, dotName, asInt8]
      exact different same
    · cases older
  | parent below parentOf tried =>
    have parentBefore := ((agrees_making numbered room node).parentOf_iff numbered).mp parentOf
    have unchanged : table = emptyDirectory := by
      rcases tried with
        ⟨_, id, other, grown, rfl, _, _, rfl⟩ | ⟨_, rfl⟩
      · have earlier := lt_of_parentOf numbered parentBefore
        simp only [Store.read_change] at reading
        rw [if_neg (Nat.ne_of_gt earlier), making_directory] at reading
        cases reading
        rfl
      · rw [making_directory] at reading
        cases reading
        rfl
    rw [unchanged]
    exact emptyDirectory_hasName dotName

theorem mkdirEnd_of_populated {outcome : Except Errno Nat} (number : node.ino = fs.inodes.count)
    (populated :
      Populated machine path fs.inodes.count
        (withInode fs node (fs.kmallocs + 1)) outcome changed) :
    MkdirEnd machine fs node path outcome changed := by
  have agrees := agrees_making numbered room node
  cases populated with
  | noMemory refused untouched reading =>
    rw [untouched] at reading
    cases Store.read_add_count.symm.trans reading
    exact .noDirectory refused untouched
  | stopped returned reading =>
    obtain ⟨inode, target, stop⟩ := makeEntries_spec.returns _ _ returned
    cases making_inode.symm.trans target
    rw [number] at stop
    cases stop with
    | self root untouched refused =>
      rw [untouched] at reading
      cases making_inode.symm.trans reading
      exact .noEntry root (making_pairRefused refused) untouched
    | parent below fault =>
      cases making_inode.symm.trans reading
      exact .noParent below ((agrees.parentFault_iff numbered).mp fault)
    | dot entered untouched refused =>
      refine .noDot entered (pairRefused_of_entryRefused refused ?_) untouched reading
      rintro id table ⟨⟩ tableReading
      exact entered_not_hasName numbered room entered tableReading
  | lost returned reading =>
    obtain ⟨_, _, _, missing, _⟩ := makeEntries_spec.returns _ _ returned
    obtain ⟨parino, looked, noInode⟩ := missing
    have lookedBefore := (agrees.lookupInode numbered _ _).symm.trans looked
    have present := numbered.lt_of_lookupInode lookedBefore
    exact absurd ⟨parino, lookedBefore, (agrees.inode parino present).symm.trans noInode⟩
      numbered.not_parentMissing
  | finished returned reading =>
    obtain ⟨inode, target, entries⟩ := makeEntries_spec.returns _ _ returned
    cases making_inode.symm.trans target
    rw [number] at entries
    exact .done entries

theorem vfsMkdir_flat :
    Ensures (vfsMkdir machine path mode) fs fun outcome changed =>
      (∃ error, outcome = .error error ∧ Untouched fs changed ∧
        ((∃ cause, mountnodeByPath path = .error cause) ∨ machine.grants fs.kmallocs = false)) ∨
      ∃ fspath directoryMode result, mountnodeByPath path = .ok fspath ∧
        machine.grants fs.kmallocs = true ∧
        MkdirEnd machine fs (newInode fs.inodes.count directoryMode) fspath result changed ∧
        (outcome = .ok ⟨⟩ ↔ ∃ number, result = .ok number) := by
  refine vfsMkdir_spec.mono ?_
  intro outcome changed returned
  rcases returned with
    untouched | ⟨fspath, ino, made, result, mount, grown, populated, ends⟩
  · exact Or.inl untouched
  · have granted := grown.granted
    obtain ⟨number, rfl⟩ := grown_flat numbered.flat room grown
    obtain rfl : ino = fs.inodes.count := number
    exact Or.inr ⟨fspath, _, result, mount, granted,
      mkdirEnd_of_populated numbered room rfl populated, ends⟩

end Cosec.Fs.NewDirectories
