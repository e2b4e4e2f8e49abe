import Cosec.Fs.CallRuns
import Cosec.Fs.NewDirectories

/-!
# Namespace operations that fail

A failed operation should leave the names as they were: the entries, the link
counters, and the inode numbers that resolve.  `vfs_hardlink` and `vfs_unlink`
return their errors before the first change.  `vfs_mkdir` and `vfs_mknod` make
an inode before they know that it can be linked, and its number goes on
resolving, because ramfs offers no way to take an inode back and `error_exit`
frees an inode without clearing its slot.

`LeavesTrace` says from the mount and the machine alone when that happens.
-/

namespace Cosec.Fs.FailedCalls

open Fs.CallRuns Fs.FileCalls Fs.InodeNumbers Fs.MountSteps Fs.NewDirectories Fs.PathLookup Fs.Ramfs
open Fs.Vfs Fs.VfsSteps Lib.Commands Lib.Commands.Command Lib.ObjectStore Lib.Transition
open Libc.ErrorNumbers Libc.Strings

variable {machine : Machine} {devices : Devices} {fs changed : Mount} {path name : CString}
  {idata dir ino : Nat} {node inode : Inode} {mode : UInt32} {error : Errno} {Value : Type}

/-! ## Names that stay -/

/-- A directory that was never freed has an entry. -/
def HasEntry (fs : Mount) (dir : Nat) (name : CString) (ino : Nat) : Prop :=
  fs.directories.Live dir ∧
    ∃ table, fs.directories.read dir = some table ∧
      ∃ bucket, ∃ de ∈ table.ht bucket, de.name = name ∧ de.ino = ino

/-- An inode number finds an inode in the table. -/
def Resolves (fs : Mount) (ino : Nat) : Prop :=
  ∃ idata inode, idataByInode fs ino = some (some (idata, inode))

/-- The entries, the link counters and the numbers that resolve are equal. -/
structure SameNames (fs changed : Mount) : Prop where
  entries : ∀ dir name ino, HasEntry changed dir name ino ↔ HasEntry fs dir name ino
  counters :
    ∀ idata inode, fs.inodes.read idata = some inode →
      ∃ after, changed.inodes.read idata = some after ∧ after.nlinks = inode.nlinks
  numbers : ∀ ino, Resolves changed ino ↔ Resolves fs ino

theorem sameNames_of_untouched (same : Untouched fs changed) : SameNames fs changed := by
  rw [same]
  exact ⟨fun _ _ _ => Iff.rfl, fun _ inode reading => ⟨inode, reading, rfl⟩, fun _ => Iff.rfl⟩

/-- The command leaves the names alone whenever it returns an error. -/
def FailsCleanly (command : MountCommand PUnit) (fs : Mount) : Prop :=
  ∀ error changed, Returns command fs (.error error) changed → SameNames fs changed

/-- A namespace operation on any paths. -/
inductive Request where
  | mkdir (path : CString) (mode : UInt32)
  | mknod (path : CString) (mode : UInt32) (dev : UInt64)
  | hardlink (path newpath : CString)
  | unlink (path : CString)

def Request.command (machine : Machine) : Request → MountCommand PUnit
  | .mkdir path mode => vfsMkdir machine path mode
  | .mknod path mode dev => vfsMknod machine path mode dev
  | .hardlink path newpath => vfsHardlink machine path newpath
  | .unlink path => vfsUnlink path

/-- The operation gets as far as making an inode. -/
def MakesInode (machine : Machine) (fs : Mount) : Request → Prop
  | .mkdir path _ => machine.grants fs.kmallocs = true ∧ ∃ fspath, mountnodeByPath path = .ok fspath
  | .mknod path mode _ =>
    machine.grants fs.kmallocs = true ∧
      ∃ dirino dirInode name, MknodParent fs path mode dirino dirInode name
  | .hardlink _ _ => False
  | .unlink _ => False

/-- Why a directory is not made although its inode was. -/
inductive MkdirFault (machine : Machine) (fs : Mount) (path : CString) : Prop
  | noDirectory (refused : PairRefused machine (fs.kmallocs + 1))
  | noEntry (root : path = []) (refused : PairRefused machine (fs.kmallocs + 3))
  | noRootDot (root : path = []) (refused : PairRefused machine (fs.kmallocs + 5))
  | noParent (below : path ≠ []) (fault : ParentFault fs path)
  | noDot {data : Option Nat}
      (below : path ≠ [])
      (parentOf : ParentOf fs path data)
      (entered : data = none → PairRefused machine (fs.kmallocs + 3))
      (refused : PairRefused machine (fs.kmallocs + 3 + entryCalls machine (fs.kmallocs + 3)))

/-- Why a new node is not linked. -/
def MknodFault (machine : Machine) (fs : Mount) (dirInode : Inode) (name : CString) : Prop :=
  dirInode.data = none ∨ PairRefused machine (fs.kmallocs + 1) ∨
    ∃ dir table,
      dirInode.data = some dir ∧ fs.directories.read dir = some table ∧ HasName table name

/-- The operation makes an inode and fails afterwards. -/
def LeavesTrace (machine : Machine) (fs : Mount) : Request → Prop
  | .mkdir path _ =>
    machine.grants fs.kmallocs = true ∧
      ∃ fspath, mountnodeByPath path = .ok fspath ∧ MkdirFault machine fs fspath
  | .mknod path mode _ =>
    machine.grants fs.kmallocs = true ∧
      ∃ dirino dirInode name,
        MknodParent fs path mode dirino dirInode name ∧ name.length < 255 ∧
          MknodFault machine fs dirInode name
  | .hardlink _ _ => False
  | .unlink _ => False

variable {request : Request}

/-! ## The parts of an operation -/

/-- An operation that makes no inode fails cleanly, in every mount. -/
theorem failsCleanly_of_not_makesInode (makesNone : ¬ MakesInode machine fs request) :
    FailsCleanly (request.command machine) fs := by
  intro error changed returned
  cases request with
  | mkdir path mode =>
    rcases vfsMkdir_spec.returns _ _ returned.run with
      ⟨_, _, untouched, _⟩ | ⟨fspath, _, _, _, mount, grown, _⟩
    · exact sameNames_of_untouched untouched
    · cases grown with
      | intro granted inserted => exact absurd ⟨granted, fspath, mount⟩ makesNone
  | mknod path mode dev =>
    rcases vfsMknod_spec.returns _ _ returned.run with
      ⟨_, _, untouched, _⟩ | ⟨_, _, _, _, _, parent, _, grown, _⟩
    · exact sameNames_of_untouched untouched
    · cases grown with
      | intro granted inserted => exact absurd ⟨granted, _, _, _, parent⟩ makesNone
  | hardlink path newpath =>
    exact sameNames_of_untouched (vfsHardlink_spec.returns _ _ returned.run)
  | unlink path =>
    have unchanged : changed = fs := vfsUnlink_spec.returns _ _ returned.run
    rw [unchanged]
    exact sameNames_of_untouched (Untouched.refl fs)

theorem entered_kmallocs (entered : Entered machine path idata dir ino fs changed) :
    (path = [] ∧ changed.kmallocs = fs.kmallocs + 2) ∨
      ∃ data,
        path ≠ [] ∧ ParentOf fs path data ∧ (data = none → PairRefused machine fs.kmallocs) ∧
          changed.kmallocs = fs.kmallocs + entryCalls machine fs.kmallocs := by
  cases entered with
  | self root reading inserted => exact Or.inl ⟨root, rfl⟩
  | parent below parentOf tried =>
    refine Or.inr ⟨_, below, parentOf, ?_, ?_⟩
    · rintro rfl
      rcases tried with ⟨_, _, _, _, impossible, _⟩ | ⟨refused, _⟩
      · cases impossible
      · refine pairRefused_of_entryRefused refused ?_
        intro id table impossible
        cases impossible
    · rcases tried with
        ⟨calls, _, _, _, _, _, _, rfl⟩ | ⟨_, rfl⟩
      · rw [calls]
      · rfl

theorem returns_inodeFree (reading : fs.inodes.read idata = some inode) :
    Returns (inodeFree idata) fs (.ok ⟨⟩) (freed fs idata inode) := by
  unfold inodeFree freed
  refine .bind (.demand reading) ?_
  cases inode.data with
  | none => exact .bind .pure .update
  | some dir =>
    by_cases isDir : IsDir inode.mode
    · simp only [if_pos isDir]
      exact .bind .update .update
    · simp only [if_neg isDir]
      exact .bind .pure .update

/-- Two allocations in a row, one of which is refused. -/
theorem fails_pair {rest : MountCommand Value} (refused : PairRefused machine fs.kmallocs) :
    FailsWith .enomem (do
        let first ← Ramfs.kmalloc machine
        failIf (first = false) .enomem
        let second ← Ramfs.kmalloc machine
        failIf (second = false) .enomem
        rest) fs := by
  cases first : machine.grants fs.kmallocs with
  | false => exact .bind (returns_kmalloc first) (.bind_error (.failIf rfl))
  | true =>
    have second : machine.grants (fs.kmallocs + 1) = false := by
      rcases refused with notFirst | second
      · rw [first] at notFirst
        cases notFirst
      · exact second
    refine .bind (returns_kmalloc first) ?_
    refine .bind (.failIf (by simp)) ?_
    exact .bind (returns_kmalloc second) (.bind_error (.failIf rfl))

/-- Two allocations in a row, both of which are granted. -/
theorem returns_pair {rest : MountCommand Value} {outcome : Except Errno Value}
    (accepted : ¬ PairRefused machine fs.kmallocs)
    (returned : Returns rest { fs with kmallocs := fs.kmallocs + 2 } outcome changed) :
    Returns (do
        let first ← Ramfs.kmalloc machine
        failIf (first = false) .enomem
        let second ← Ramfs.kmalloc machine
        failIf (second = false) .enomem
        rest) fs outcome changed := by
  unfold PairRefused at accepted
  simp only [not_or, Bool.not_eq_false] at accepted
  refine .bind (returns_kmalloc accepted.1) ?_
  refine .bind (.failIf (by simp)) ?_
  refine .bind (returns_kmalloc accepted.2) ?_
  exact .bind (.failIf (by simp)) returned

theorem returns_directoryNew (accepted : ¬ PairRefused machine fs.kmallocs) :
    Returns (directoryNew machine) fs (.ok fs.directories.count) (withDirectory fs) :=
  returns_pair accepted (.bind .query (.bind .update .pure))

theorem fails_directoryNewEntry {dir : Option Nat} (refused : PairRefused machine fs.kmallocs) :
    FailsWith .enomem (directoryNewEntry machine dir name ino) fs :=
  fails_pair refused

theorem returns_directoryNewEntry {dir : Option Nat} (name : CString) (ino : Nat)
    (defined :
      PairRefused machine fs.kmallocs ∨
        ∃ id table, dir = some id ∧ fs.directories.read id = some table) :
    ∃ outcome changed, Returns (directoryNewEntry machine dir name ino) fs outcome changed := by
  by_cases refused : PairRefused machine fs.kmallocs
  · have failed : FailsWith .enomem (directoryNewEntry machine dir name ino) fs :=
      fails_directoryNewEntry refused
    obtain ⟨changed, returned⟩ := failed
    exact ⟨_, changed, returned⟩
  · rcases defined with refused' | ⟨id, table, rfl, reading⟩
    · exact absurd refused' refused
    · cases inserted : directoryInsert table ⟨strhash name, name, ino⟩ with
      | error error =>
        exact ⟨.error error, _,
          returns_pair refused (.bind (.demand rfl)
            (.bind_error (.consult (by simp [reading, inserted]))))⟩
      | ok grown =>
        exact ⟨.ok ⟨⟩, _,
          returns_pair refused (.bind (.demand rfl)
            (.bind (.consult (by simp [reading, inserted]; rfl)) .update))⟩

theorem fails_makeEntries_above (target : fs.inodes.read idata = some inode)
    (above : Fails (enterAbove machine path idata dir inode.ino) fs) :
    Fails (makeEntries machine path idata dir) fs :=
  .bind (.demand target) (.bind_error above)

theorem fails_makeEntries_dot {middle : Mount} (target : fs.inodes.read idata = some inode)
    (above : Returns (enterAbove machine path idata dir inode.ino) fs (.ok true) middle)
    (refused : PairRefused machine middle.kmallocs) :
    FailsWith .enomem (makeEntries machine path idata dir) fs :=
  .bind (.demand target) (.bind above (.bind_error (fails_directoryNewEntry refused)))

theorem returns_enterAbove_root
    (node : Inode) (accepted : ¬ PairRefused machine (fs.kmallocs + 3)) :
    ∃ middle,
      Returns
        (enterAbove machine [] fs.inodes.count fs.directories.count
          node.ino) (making fs node) (.ok true) middle := by
  have entry :
      ∃ outcome changed,
        Returns
          (directoryNewEntry machine (some fs.directories.count)
            dotdotName node.ino) (making fs node) outcome changed :=
    returns_directoryNewEntry dotdotName node.ino
      (Or.inr ⟨fs.directories.count, emptyDirectory, rfl, making_directory⟩)
  obtain ⟨outcome, changed, returned⟩ := entry
  cases outcome with
  | error error =>
    have refused := (directoryNewEntry_spec.returns _ _ returned.run).1
    exact absurd (making_pairRefused refused) accepted
  | ok done => exact ⟨_, .bind returned (.bind .update .pure)⟩

theorem fails_enterAbove_parent (below : path ≠ []) (fault : ParentFault fs path) :
    Fails (enterAbove machine path idata dir ino) fs := by
  have notRoot : ¬ path.isEmpty = true := fun isEmpty => below (List.isEmpty_iff.mp isEmpty)
  unfold enterAbove
  rw [if_neg notRoot]
  rcases fault with
    ⟨error, looked⟩ | ⟨parino, parIdata, inode, looked, found, notDir⟩
  · exact .bind_error (.consult looked)
  · exact .bind (.consult looked) (.bind (.demand found) (.bind_error (.failIf notDir)))

theorem returns_enterAbove_parent
    {data : Option Nat} (below : path ≠ []) (parentOf : ParentOf fs path data)
    (defined :
      PairRefused machine fs.kmallocs ∨
        ∃ id table, data = some id ∧ fs.directories.read id = some table) :
    ∃ middle, Returns (enterAbove machine path idata dir ino) fs (.ok true) middle := by
  have notRoot : ¬ path.isEmpty = true := fun isEmpty => below (List.isEmpty_iff.mp isEmpty)
  unfold enterAbove
  rw [if_neg notRoot]
  obtain ⟨parino, parIdata, inode, looked, found, isDir, rfl⟩ := parentOf
  obtain ⟨outcome, changed, returned⟩ := returns_directoryNewEntry (newName path) ino defined
  exact ⟨_, .bind (.consult looked) (.bind (.demand found)
    (.bind (.failIf (not_not.mpr isDir)) (.bind (.attempt returned) (.bind .update .pure))))⟩

theorem fails_handle_errorExit {command : MountCommand Value} {dir : Option Nat}
    (failed : FailsWith error command fs)
    (quiet : Ensures command fs fun _ changed => fs.inodes.count ≤ changed.inodes.count)
    (present : idata < fs.inodes.count) :
    FailsWith error (handle command fun error => do
        errorExit dir idata
        fail error) fs := by
  obtain ⟨middle, returned⟩ := failed
  have later := quiet.returns _ _ returned.run
  obtain ⟨inode, reading⟩ := Store.exists_read (lt_of_lt_of_le present later)
  obtain ⟨changed, exited⟩ : ∃ changed, Returns (errorExit dir idata) middle (.ok ⟨⟩) changed := by
    cases dir with
    | none => exact ⟨_, returns_inodeFree reading⟩
    | some dir => exact ⟨_, .bind .update (returns_inodeFree reading)⟩
  exact ⟨changed, .handle_error returned (.bind exited .fail)⟩

theorem mkdirEnd_count {result : Except Errno Nat} (fresh : FreshNode node fs.inodes.count mode)
    (ended : MkdirEnd machine fs node path result changed) :
    changed.inodes.count = fs.inodes.count + 1 := by
  cases ended with
  | noDirectory refused untouched =>
    rw [untouched]
    simp [freed, withInode]
  | noEntry root refused untouched =>
    rw [untouched]
    simp [abandoned, freed, making, withDirectory, withInode]
  | noParent below fault => simp [abandoned, freed, making, withDirectory, withInode]
  | noDot entered refused untouched reading =>
    rw [untouched]
    have inodes := (entered_quietly making_inode fresh.ino.symm entered).2
    simp [abandoned, freed, inodes, making, withDirectory, withInode]
  | done entries =>
    have inodes := (entriesMade_quietly making_inode fresh.ino.symm entries).2
    simp [attached, inodes, making, withDirectory, withInode]

theorem returns_idataOr {missing : Errno} (found : idataByInode fs ino = some (some (idata, inode)))
    : Returns (idataOr missing ino) fs (.ok (idata, inode)) fs :=
  .consult (by rw [found]; rfl)

theorem fails_directoryNewEntry_taken {id : Nat} {table : Directory}
    (reading : fs.directories.read id = some table) (taken : HasName table name) :
    Fails (directoryNewEntry machine (some id) name ino) fs := by
  obtain ⟨outcome, changed, returned⟩ :=
    returns_directoryNewEntry name ino
      (Or.inr ⟨id, table, rfl, reading⟩ : PairRefused machine fs.kmallocs ∨ _)
  cases outcome with
  | error error => exact ⟨error, changed, returned⟩
  | ok done =>
    obtain ⟨_, other, otherTable, grown, equal, otherReading, inserted,
      _⟩ := directoryNewEntry_spec.returns _ _ returned.run
    cases equal
    cases reading.symm.trans otherReading
    exact absurd taken (directoryInsert_ok_iff.mp inserted).1

variable {dirino : Nat} {dirInode : Inode}

theorem fails_linkInode {dirIdata namelen : Nat} (short : (name.take namelen).length < 255)
    (dirFound : idataByInode fs dirino = some (some (dirIdata, dirInode)))
    (isDir : IsDir dirInode.mode) (found : idataByInode fs ino = some (some (idata, inode)))
    (refused :
      dirInode.data = none ∨
        Fails (directoryNewEntry machine dirInode.data (name.take namelen) inode.ino) fs) :
    Fails (linkInode machine ino dirino name namelen) fs := by
  unfold linkInode
  simp only [if_neg (not_le.mpr short)]
  refine .bind (returns_idataOr dirFound) ?_
  refine .bind (.failIf (not_not.mpr isDir)) ?_
  by_cases noData : dirInode.data = none
  · exact .bind_error (.failIf noData)
  · refine .bind (.failIf noData) (.bind (returns_idataOr found) ?_)
    rcases refused with noData' | failed
    · exact absurd noData' noData
    · exact .bind_error failed

/-! ## Operations with room in the table -/

section Flat

variable (numbered : Numbered fs) (room : fs.inodes.count < 64)

include numbered room

theorem mkdirFault_of_end (ended : MkdirEnd machine fs node path (.error error) changed) :
    MkdirFault machine fs path := by
  cases ended with
  | noDirectory refused untouched => exact .noDirectory refused
  | noEntry root refused untouched => exact .noEntry root refused
  | noParent below fault => exact .noParent below fault
  | noDot entered refused untouched reading =>
    rcases entered_kmallocs entered with
      ⟨root, calls⟩ | ⟨data, below, parentOf, unentered, calls⟩
    · rw [calls] at refused
      exact .noRootDot root refused
    · rw [calls] at refused
      have parentBefore := ((agrees_making numbered room node).parentOf_iff numbered).mp parentOf
      exact .noDot below parentBefore unentered refused

theorem mknodFault_of_linkRefused (parent : MknodParent fs path mode dirino dirInode name)
    (refused :
      LinkRefused machine (withInode fs node (fs.kmallocs + 1)) fs.inodes.count dirino name) :
    MknodFault machine fs dirInode name := by
  obtain ⟨_, dirIdata, _, _, dirFound, _⟩ := parent.parent
  obtain ⟨rfl, dirReading⟩ := numbered.read_of_found dirFound
  have dirFoundAfter :=
    ((agrees_withInode numbered room node (fs.kmallocs + 1)).inode dirIdata
      (Store.lt_count_of_read dirReading)).trans dirFound
  have found :
      idataByInode (withInode fs node (fs.kmallocs + 1)) fs.inodes.count =
        some (some (fs.inodes.count, node)) := by
    rw [idataByInode_flat (withInode_flat room node (fs.kmallocs + 1))]
    simp only [withInode, Store.read_add_count, Option.map_some]
  rcases refused _ _ _ _ dirFoundAfter parent.isDir found with
    noData | entryRefused
  · exact Or.inl noData
  · rcases entryRefused with first | second | taken
    · exact Or.inr (Or.inl (Or.inl first))
    · exact Or.inr (Or.inl (Or.inr second))
    · exact Or.inr (Or.inr taken)

theorem failsCleanly_of_not_leavesTrace (traceless : ¬ LeavesTrace machine fs request) :
    FailsCleanly (request.command machine) fs := by
  cases request with
  | mkdir path mode =>
    intro error changed returned
    rcases (vfsMkdir_flat numbered room).returns _ _ returned.run with
      ⟨_, _, untouched, _⟩ |
      ⟨fspath, _, result, mount, granted, ended, ends⟩
    · exact sameNames_of_untouched untouched
    · cases result with
      | ok number => cases ends.mpr ⟨number, rfl⟩
      | error cause =>
        exact absurd ⟨granted, fspath, mount, mkdirFault_of_end numbered room ended⟩ traceless
  | mknod path mode dev =>
    intro error changed returned
    rcases vfsMknod_spec.returns _ _ returned.run with
      ⟨_, _, untouched, _⟩ | ⟨_, _, name, ino, made, parent, fresh, grown, short, linking⟩
    · exact sameNames_of_untouched untouched
    · have granted := grown.granted
      obtain ⟨number, rfl⟩ := grown_flat numbered.flat room grown
      obtain rfl : ino = fs.inodes.count := fresh.ino.symm.trans number
      exact absurd
        ⟨granted, _, _, name, parent, short,
          mknodFault_of_linkRefused numbered room parent linking.2⟩ traceless
  | hardlink path newpath => exact failsCleanly_of_not_makesInode fun impossible => impossible
  | unlink path => exact failsCleanly_of_not_makesInode fun impossible => impossible

/-- The directory above a new one is there for its entry. -/
theorem making_parent_defined {data : Option Nat} (node : Inode) (parentOf : ParentOf fs path data)
    (unentered : data = none → PairRefused machine (fs.kmallocs + 3)) :
    PairRefused machine (making fs node).kmallocs ∨
      ∃ id table, data = some id ∧ (making fs node).directories.read id = some table := by
  cases data with
  | none => exact Or.inl (unentered rfl)
  | some id =>
    have present := lt_of_parentOf numbered parentOf
    obtain ⟨table, reading⟩ := Store.exists_read present
    rw [← (agrees_making numbered room node).directory id present] at reading
    exact Or.inr ⟨id, table, rfl, reading⟩

theorem fails_makeEntries (fault : MkdirFault machine fs path)
    (accepted : ¬ PairRefused machine (fs.kmallocs + 1)) :
    Fails (makeEntries machine path fs.inodes.count fs.directories.count) (making fs node) := by
  have agrees := agrees_making numbered room node
  cases fault with
  | noDirectory refused => exact absurd refused accepted
  | noEntry root refused =>
    subst root
    exact fails_makeEntries_above making_inode (.bind_error (fails_directoryNewEntry refused).fails)
  | noRootDot root refused =>
    subst root
    by_cases first : PairRefused machine (fs.kmallocs + 3)
    · exact fails_makeEntries_above making_inode (.bind_error (fails_directoryNewEntry first).fails)
    · obtain ⟨middle, above⟩ := returns_enterAbove_root node first
      refine (fails_makeEntries_dot making_inode above ?_).fails
      rcases entered_kmallocs (enterAbove_spec.returns _ _ above.run) with
        ⟨_, calls⟩ | ⟨_, below, _⟩
      · rw [calls]
        exact refused
      · exact absurd rfl below
  | noParent below fault =>
    exact fails_makeEntries_above making_inode
      (fails_enterAbove_parent below ((agrees.parentFault_iff numbered).mpr fault))
  | noDot below parentOf unentered refused =>
    obtain ⟨middle, above⟩ :=
      returns_enterAbove_parent below ((agrees.parentOf_iff numbered).mpr parentOf)
        (making_parent_defined numbered room node parentOf unentered)
    refine (fails_makeEntries_dot making_inode above ?_).fails
    rcases entered_kmallocs (enterAbove_spec.returns _ _ above.run) with
      ⟨root, _⟩ | ⟨_, _, _, _, calls⟩
    · exact absurd root below
    · rw [calls]
      exact refused

theorem not_failsCleanly_of_count {command : MountCommand PUnit}
    (returned : Returns command fs (.error error) changed) (steps : Eventually fs changed)
    (count : changed.inodes.count = fs.inodes.count + 1) : ¬ FailsCleanly command fs := by
  intro cleanly
  have after := numbered.eventually steps (by omega)
  have same := cleanly error changed returned
  obtain ⟨inode, _, found⟩ := after.found_of_lt (show fs.inodes.count < _ by omega)
  obtain ⟨idata, content, foundBefore⟩ := (same.numbers fs.inodes.count).mp ⟨_, inode, found⟩
  obtain ⟨_, reading⟩ := numbered.read_of_found foundBefore
  exact lt_irrefl _ (Store.lt_count_of_read reading)

section Granted

variable (granted : machine.grants fs.kmallocs = true)

include granted

theorem failsWith_makeDirectory
    (stopped :
      (PairRefused machine (fs.kmallocs + 1) ∧ error = .enomem) ∨
        (¬ PairRefused machine (fs.kmallocs + 1) ∧
          FailsWith error (makeEntries machine path fs.inodes.count fs.directories.count)
            (making fs (newInode fs.inodes.count (sIfdir ||| mode))))) :
    FailsWith error (makeDirectory machine path mode) fs := by
  have made := inodeNew_flat numbered.flat room granted (sIfdir ||| mode)
  have present :
      fs.inodes.count <
        (withInode fs (newInode fs.inodes.count (sIfdir ||| mode))
          (fs.kmallocs + 1)).inodes.count := by
    simp [withInode]
  refine .bind made ?_
  rcases stopped with ⟨refused, rfl⟩ | ⟨accepted, failed⟩
  · refine .bind_error (fails_handle_errorExit
      (fails_pair refused) (directoryNew_spec.cases ?_ ?_) present)
    · exact fun _ _ failed => (count_le_of_quietly failed.1.quietly).1
    · rintro _ _ ⟨_, rfl⟩
      exact le_rfl
  · refine .bind (.handle (returns_directoryNew accepted)) ?_
    refine .bind_error (fails_handle_errorExit failed (makeEntries_quietly.mono ?_) present)
    intro outcome changed quiet
    exact (count_le_of_quietly quiet).1

theorem fails_makeDirectory (fault : MkdirFault machine fs path) :
    Fails (makeDirectory machine path mode) fs := by
  by_cases refused : PairRefused machine (fs.kmallocs + 1)
  · exact ⟨_, failsWith_makeDirectory numbered room granted (Or.inl ⟨refused, rfl⟩)⟩
  · obtain ⟨error, failed⟩ := fails_makeEntries numbered room fault refused
    exact ⟨error, failsWith_makeDirectory numbered room granted (Or.inr ⟨refused, failed⟩)⟩

theorem fails_vfsMkdir {path fspath : CString} (mount : mountnodeByPath path = .ok fspath)
    (fault : MkdirFault machine fs fspath) : Fails (vfsMkdir machine path mode) fs :=
  .bind (.handle (returns_fspathOf mount))
    (.bind_error (fails_makeDirectory numbered room granted fault))

theorem returns_makeNode (mode info : UInt32) :
    ∃ node,
      FreshNode node fs.inodes.count mode ∧
        Returns (makeNode machine mode info) fs (.ok fs.inodes.count)
          (withInode fs node (fs.kmallocs + 1)) := by
  have made := inodeNew_flat numbered.flat room granted mode
  have returned : ∃ ino changed, Returns (makeNode machine mode info) fs (.ok ino) changed := by
    unfold makeNode
    by_cases isDevice : IsDevice mode
    · simp only [if_pos isDevice]
      exact ⟨_, _, .bind made (.bind .update (.bind
        (.demand (by simp [withInode, Store.change_add_count]; rfl)) .pure))⟩
    · simp only [if_neg isDevice]
      exact ⟨_, _, .bind made (.bind (.demand (by simp [withInode]; rfl)) .pure)⟩
  obtain ⟨ino, changed, run⟩ := returned
  have grown := makeNode_made.returns _ _ run.run
  obtain ⟨number, rfl⟩ := grown_flat numbered.flat room grown
  have fresh := madeNode_freshNode ino mode info
  obtain rfl : ino = fs.inodes.count := fresh.ino.symm.trans number
  exact ⟨_, fresh, run⟩

theorem fails_vfsMknod {dev : UInt64} (parent : MknodParent fs path mode dirino dirInode name)
    (short : name.length < 255) (fault : MknodFault machine fs dirInode name) :
    Fails (vfsMknod machine path mode dev) fs := by
  obtain ⟨fspath, dirIdata, mount, looked, dirFound, rfl⟩ := parent.parent
  obtain ⟨node, fresh, made⟩ :=
    returns_makeNode numbered room granted (nodeMode mode)
      (if IsDevice (nodeMode mode) then dev.toUInt32 else 0)
  obtain ⟨rfl, dirReading⟩ := numbered.read_of_found dirFound
  have dirFoundAfter :=
    ((agrees_withInode numbered room node (fs.kmallocs + 1)).inode dirIdata
      (Store.lt_count_of_read dirReading)).trans dirFound
  have after := numbered.inodeNew room fresh (fs.kmallocs + 1)
  obtain ⟨content, _, found⟩ :=
    after.found_of_lt (show fs.inodes.count < (withInode fs node (fs.kmallocs + 1)).inodes.count by
        simp [withInode])
  refine .bind (.failIf parent.notDir) ?_
  refine .bind (.failIf parent.notLink) ?_
  refine .bind (returns_fspathOf mount) (.bind (.consult looked) ?_)
  refine .bind (.handle (.bind (returns_idataOr dirFound) .pure)) ?_
  refine .bind (.failIf (not_not.mpr parent.isDir)) ?_
  refine .bind made (fails_linkInode short dirFoundAfter parent.isDir found ?_)
  rcases fault with noData | refused | ⟨dir, table, hasData, reading, taken⟩
  · exact Or.inl noData
  · exact Or.inr (fails_directoryNewEntry refused).fails
  · rw [hasData]
    exact Or.inr (fails_directoryNewEntry_taken reading taken)

end Granted

theorem not_failsCleanly_of_leavesTrace (trace : LeavesTrace machine fs request) :
    ¬ FailsCleanly (request.command machine) fs := by
  cases request with
  | mkdir path mode =>
    obtain ⟨granted, fspath, mount, fault⟩ := trace
    have failed : Fails (vfsMkdir machine path mode) fs :=
      fails_vfsMkdir numbered room granted mount fault
    obtain ⟨error, changed, returned⟩ := failed
    refine not_failsCleanly_of_count numbered room returned
      (vfsMkdir_eventually.returns _ _ returned.run) ?_
    rcases (vfsMkdir_flat numbered room).returns _ _ returned.run with
      ⟨_, _, _, ⟨cause, unmounted⟩ | refused⟩ |
      ⟨_, _, _, _, _, ended, _⟩
    · cases mount.symm.trans unmounted
    · cases granted.symm.trans refused
    · exact mkdirEnd_count (newInode_freshNode _ _) ended
  | mknod path mode dev =>
    obtain ⟨granted, dirino, dirInode, name, parent, short, fault⟩ := trace
    have failed : Fails (vfsMknod machine path mode dev) fs :=
      fails_vfsMknod numbered room granted parent short fault
    obtain ⟨error, changed, returned⟩ := failed
    refine not_failsCleanly_of_count numbered room returned
      (vfsMknod_eventually.returns _ _ returned.run) ?_
    rcases vfsMknod_spec.returns _ _ returned.run with
      ⟨_, _, _, parentless | refused⟩ | ⟨_, _, _, _, _, _, _, grown, _, linking⟩
    · exact absurd parent (parentless _ _ _)
    · cases granted.symm.trans refused
    · rw [linking.1]
      cases grown
      exact Store.count_add
  | hardlink path newpath => exact trace.elim
  | unlink path => exact trace.elim

end Flat

/--
In every reachable state, an operation that makes no inode fails cleanly.
While the inode table has room, an operation fails cleanly exactly when it
does not fail after it has made an inode.
-/
theorem failed_calls_clean_iff {machine : Machine} {devices : Devices} {world : World}
    (reached : (kernel machine devices).Reached unrestricted world) (request : Request) :
    (¬ MakesInode machine world.fs request → FailsCleanly (request.command machine) world.fs) ∧
    (world.fs.inodes.count < 64 →
      (FailsCleanly (request.command machine) world.fs ↔
        ¬ LeavesTrace machine world.fs request)) := by
  refine ⟨failsCleanly_of_not_makesInode, fun room => ⟨?_, ?_⟩⟩
  · intro cleanly trace
    have numbered := reached_numberedWhileFlat reached (le_of_lt room)
    exact not_failsCleanly_of_leavesTrace numbered room trace cleanly
  · have numbered := reached_numberedWhileFlat reached (le_of_lt room)
    exact failsCleanly_of_not_leavesTrace numbered room

/-- The command returns an error, with this many more inodes. -/
def failsGrowing (command : MountCommand PUnit) (more : Nat) (fs : Mount) : Bool :=
  match command fs with
  | some (.error _, changed) => changed.inodes.count == fs.inodes.count + more
  | _ => false

theorem returns_of_failsGrowing
    {command : MountCommand PUnit} {more : Nat} (failing : failsGrowing command more fs = true) :
    ∃ error changed,
      Returns command fs (.error error) changed ∧
        changed.inodes.count = fs.inodes.count + more := by
  unfold failsGrowing at failing
  split at failing
  · rename_i error changed run
    exact ⟨error, changed, ⟨run⟩, beq_iff_eq.mp failing⟩
  · cases failing

/-- A new mount, on which an unlink finds nothing. -/
theorem failed_calls_clean_sample :
    ∃ world,
      (kernel generous noDevices).Reached unrestricted world ∧
        ¬ MakesInode generous world.fs (.unlink pathA.chars) ∧ world.fs.inodes.count < 64 ∧
        Fails (vfsUnlink pathA.chars) world.fs ∧ FailsCleanly (vfsUnlink pathA.chars) world.fs ∧
        ¬ LeavesTrace generous world.fs (.unlink pathA.chars) := by
  obtain ⟨world, reached, room, failing⟩ : ∃ world,
      (kernel generous noDevices).Reached unrestricted world ∧ world.fs.inodes.count < 64 ∧
        failsGrowing (vfsUnlink pathA.chars) 0 world.fs = true :=
    exists_sampleRun [] (fun _ _ _ _ => trivial) (by decide +kernel)
  obtain ⟨error, changed, returned, _⟩ := returns_of_failsGrowing failing
  have clean := failed_calls_clean_iff reached (.unlink pathA.chars)
  have cleanly := clean.1 fun impossible => impossible
  exact ⟨world, reached, fun impossible => impossible, room,
    ⟨error, changed, returned⟩, cleanly, (clean.2 room).mp cleanly⟩

/-- A file that is made twice leaves an inode behind the second time. -/
theorem failed_call_leaves_inode :
    ∃ (machine : Machine) (devices : Devices) (world : World) (request : Request),
      (kernel machine devices).Reached unrestricted world ∧
        ¬ FailsCleanly (request.command machine) world.fs := by
  obtain ⟨world, reached, room, failing⟩ : ∃ world,
      (kernel generous noDevices).Reached unrestricted world ∧ world.fs.inodes.count < 64 ∧
        failsGrowing (vfsMknod generous pathA.chars sIfreg 0) 1 world.fs = true :=
    exists_sampleRun [.mknod pathA sIfreg 0] (fun _ _ _ _ => trivial) (by decide +kernel)
  have numbered := reached_numberedWhileFlat reached (le_of_lt room)
  obtain ⟨error, changed, returned, count⟩ := returns_of_failsGrowing failing
  exact ⟨generous, noDevices, world, .mknod pathA.chars sIfreg 0, reached,
    not_failsCleanly_of_count numbered room returned
      (vfsMknod_eventually.returns _ _ returned.run) count⟩

end Cosec.Fs.FailedCalls
