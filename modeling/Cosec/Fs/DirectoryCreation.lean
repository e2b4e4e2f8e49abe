import Mathlib.Tactic.IntervalCases
import Cosec.Fs.NameGraph

/-!
# The making of a directory

`ramfs_make_directory` looks up the parent of a path by the position of its
last separator, and then makes three entries whose errors it treats apart: the
error of the entry in the parent is overwritten by that of the entry `.`.
-/

namespace Cosec.Fs.DirectoryCreation

open Fs.CallRuns Fs.ComponentWalk Fs.DirectoryMaps Fs.Dirnames Fs.FailedCalls Fs.FileCalls
open Fs.InodeNumbers Fs.MountSteps Fs.NameGraph Fs.NewDirectories Fs.PathLookup Fs.Ramfs Fs.TreeRuns
open Fs.Vfs Fs.VfsSteps Function Lib.Commands Lib.Commands.Command Lib.Components Lib.ObjectStore
open Lib.Transition Libc.Strings List

variable {machine : Machine} {devices : Devices} {fs changed : Mount} {fspath base : CString}
  {front : List CString} {dir : Nat}

/-! ## The parent of a path -/

/--
A path with a last component, one separator in front of it and no separator at
the ends.  The search for the last separator is limited to `INT_MAX`
characters.
-/
inductive Written (fspath : CString) : Prop
  | single (isRun : Run isSep fspath) (named : fspath ≠ [])
  | below {above last : CString} {sep : CChar}
      (under : Below fspath above [sep] last)
      (start : startsInSep isSep fspath = false)
      (named : last ≠ [])
      (inside : above.length < 0x7FFFFFFF)

/-- A path whose parts are also those of `ramfs_make_directory`. -/
structure MkdirParts (fspath : CString) (front : List CString) (base : CString) : Prop where
  parts : Parts fspath front base
  name : newName fspath = base
  parent : ∀ fs, resolve fs fspath (basenameStart fspath) = componentWalk fs false fs.rootIno front

theorem mkdirParts_of_basenameStart (parts : Parts fspath front base)
    (same : basenameStart fspath = (pathDirnameLen fspath sizeMax).toNat) :
    MkdirParts fspath front base where
  parts := parts
  name := by
    rw [newName, same]
    exact parts.link
  parent := by
    intro fs
    rw [same]
    exact parts.parent fs

theorem Written.parts (written : Written fspath) (bounded : fspath.length < sizeMax) :
    ∃ front base, MkdirParts fspath front base := by
  cases written with
  | single isRun named =>
    refine ⟨[], fspath, mkdirParts_of_basenameStart (parts_single isRun named) ?_⟩
    rw [pathDirnameLen_single isRun, basenameStart, strrchr, strnrchr_run isRun]
    rfl
  | @below above last sep under start named inside =>
    refine ⟨_, last, mkdirParts_of_basenameStart (parts_below bounded under start named) ?_⟩
    have found :=
      strnrchr_seps under.isRun under.hasSeps under.areSeps above
        (show above.length + [sep].length ≤ 0x7FFFFFFF from inside)
    rw [← under.split] at found
    rw [pathDirnameLen_below under (le_of_lt bounded),
      basenameStart, strrchr, found, Int.toNat_natCast]
    rfl

/-- The parent of a path in a sound mount. -/
theorem parentOf_iff (sound : Sound fs) (split : MkdirParts fspath front base) (data : Option Nat) :
    ParentOf fs fspath data ↔
      ∃ parino dir,
        componentWalk fs false fs.rootIno front = .ok parino ∧
          directoryObject fs parino = some dir ∧ data = some dir := by
  have looked := sound.looked_iff.mpr (split.parent fs)
  unfold ParentOf
  rw [looked]
  constructor
  · rintro ⟨parino, idata, inode, walked, found, isDir, rfl⟩
    rw [Option.some.injEq] at walked
    rw [walked] at looked
    obtain ⟨_, reading⟩ := sound.numbered.read_of_found found
    obtain ⟨dir, hasData⟩ :=
      Option.ne_none_iff_exists'.mp (sound.whole_of_lookupInode looked inode reading isDir)
    exact ⟨parino, dir, walked, object_of_found found isDir hasData, hasData⟩
  · rintro ⟨parino, dir, walked, object, rfl⟩
    obtain ⟨idata, inode, found, isDir, hasData⟩ := found_of_object object
    exact ⟨parino, idata, inode, by rw [walked], found, isDir, hasData⟩

theorem parentFault_iff (sound : Sound fs) (split : MkdirParts fspath front base) :
    ParentFault fs fspath ↔
      ∀ parino dir, componentWalk fs false fs.rootIno front = .ok parino →
        directoryObject fs parino ≠ some dir := by
  have looked := sound.looked_iff.mpr (split.parent fs)
  constructor
  · rintro fault parino dir walked object
    rw [walked] at looked
    rcases fault with
      ⟨error, failed⟩ | ⟨other, idata, inode, otherLooked, found, notDir⟩
    · cases looked.symm.trans failed
    · cases looked.symm.trans otherLooked
      obtain ⟨_, _, refound, isDir, _⟩ := found_of_object object
      cases found.symm.trans refound
      exact notDir isDir
  · intro none
    cases walked : componentWalk fs false fs.rootIno front with
    | error error =>
      rw [walked] at looked
      exact Or.inl ⟨error, looked⟩
    | ok parino =>
      rw [walked] at looked
      have present := sound.numbered.lt_of_lookupInode looked
      have noObject := Option.eq_none_iff_forall_ne_some.mpr fun dir => none parino dir walked
      obtain ⟨inode, found, notDir⟩ :=
        found_of_no_object sound present (sound.whole_of_lookupInode looked) noObject
      exact Or.inr ⟨parino, parino, inode, looked, found, notDir⟩

/-- The allocations whose refusal is reported are granted. -/
def Accepted (machine : Machine) (fs : Mount) : Prop :=
  machine.grants fs.kmallocs = true ∧ ¬ PairRefused machine (fs.kmallocs + 1) ∧
    ¬ PairRefused machine (fs.kmallocs + 3 + entryCalls machine (fs.kmallocs + 3))

variable {middle : Mount} {node : Inode}

/-- The entry of a new directory for itself. -/
theorem returns_dotEntry
    (sound : Sound fs) (room : fs.inodes.count < 64) (number : node.ino = fs.inodes.count)
    (above :
      Returns
        (enterAbove machine fspath fs.inodes.count fs.directories.count
          node.ino) (making fs node) (.ok true) middle)
    (granted : ¬ PairRefused machine middle.kmallocs) :
    ∃ final,
      Returns
        (directoryNewEntry machine (some fs.directories.count) dotName
          node.ino) middle (.ok ⟨⟩) final := by
  have entered := enterAbove_spec.returns _ _ above.run
  have quiet := (entered_quietly making_inode rfl entered).1
  have present : fs.directories.count < middle.directories.count := by
    have grows := (count_le_of_quietly quiet).2
    simp only [making, withDirectory, withInode, Store.count_add] at grows
    omega
  obtain ⟨table, reading⟩ := Store.exists_read present
  obtain ⟨outcome, final, returned⟩ :=
    returns_directoryNewEntry dotName node.ino
      (Or.inr ⟨fs.directories.count, table, rfl, reading⟩ : PairRefused machine middle.kmallocs ∨ _)
  cases outcome with
  | ok done => exact ⟨final, returned⟩
  | error error =>
    have refused := (directoryNewEntry_spec.returns _ _ returned.run).1
    refine absurd (pairRefused_of_entryRefused refused ?_) granted
    rintro id other ⟨⟩ otherReading
    rw [number] at entered
    exact entered_not_hasName sound.numbered room entered otherReading

section Parent

variable (sound : Sound fs) (room : fs.inodes.count < 64) (split : MkdirParts fspath front base)
  {parino : Nat} (walked : componentWalk fs false fs.rootIno front = .ok parino)
  (object : directoryObject fs parino = some dir)

include sound room split walked object

/-- The entry in the parent is tried, with whatever result. -/
theorem returns_enterAbove (machine : Machine) (node : Inode) :
    ∃ middle,
      Returns
          (enterAbove machine fspath fs.inodes.count fs.directories.count
            node.ino) (making fs node) (.ok true) middle ∧
        middle.kmallocs = fs.kmallocs + 3 + entryCalls machine (fs.kmallocs + 3) := by
  have below := split.parts.nonempty
  have numbered := sound.numbered
  have parentOf : ParentOf fs fspath (some dir) :=
    (parentOf_iff sound split _).mpr ⟨parino, dir, walked, object, rfl⟩
  have agrees := agrees_making numbered room node
  obtain ⟨middle, above⟩ :=
    returns_enterAbove_parent below ((agrees.parentOf_iff numbered).mpr parentOf)
      (making_parent_defined numbered room node parentOf fun impossible =>
        absurd impossible (Option.some_ne_none dir))
  refine ⟨middle, above, ?_⟩
  rcases entered_kmallocs (enterAbove_spec.returns _ _ above.run) with
    ⟨root, _⟩ | ⟨_, _, _, _, calls⟩
  · exact absurd root below
  · exact calls

/-- A directory is made when all reported allocations are granted. -/
theorem returns_makeDirectory (accepted : Accepted machine fs) (mode : UInt32) :
    ∃ number changed, Returns (makeDirectory machine fspath mode) fs (.ok number) changed := by
  obtain ⟨granted, directoryGranted, dotGranted⟩ := accepted
  have made := inodeNew_flat sound.numbered.flat room granted (sIfdir ||| mode)
  obtain ⟨middle, above, calls⟩ :=
    returns_enterAbove sound room split walked object machine
      (newInode fs.inodes.count (sIfdir ||| mode))
  rw [← calls] at dotGranted
  obtain ⟨final, dotted⟩ := returns_dotEntry sound room rfl above dotGranted
  have entries :
      Returns (makeEntries machine fspath fs.inodes.count fs.directories.count)
        (making fs (newInode fs.inodes.count (sIfdir ||| mode))) (.ok true) final :=
    .bind (.demand making_inode) (.bind above (.bind dotted .pure))
  have present :
      fs.inodes.count < (attached final fs.inodes.count fs.directories.count).inodes.count := by
    have grows := (count_le_of_quietly (makeEntries_quietly.returns _ _ entries.run)).1
    simp only [making, withDirectory, withInode, Store.count_add] at grows
    simp only [attached, Store.count_change]
    omega
  obtain ⟨inode, reading⟩ := Store.exists_read present
  exact ⟨inode.ino, _, .bind made
    (.bind (.handle (returns_directoryNew directoryGranted))
      (.bind (.handle entries) (.bind .update (.bind (.demand reading) .pure))))⟩

/-- Otherwise the outcome is `ENOMEM`. -/
theorem failsWith_enomem (refused : ¬ Accepted machine fs) (mode : UInt32) :
    FailsWith .enomem (makeDirectory machine fspath mode) fs := by
  cases granted : machine.grants fs.kmallocs with
  | false => exact .bind_error (.bind (returns_kmalloc granted) (.bind_error (.failIf rfl)))
  | true =>
    by_cases noDirectory : PairRefused machine (fs.kmallocs + 1)
    · exact failsWith_makeDirectory sound.numbered room granted (Or.inl ⟨noDirectory, rfl⟩)
    · refine failsWith_makeDirectory sound.numbered room granted (Or.inr ⟨noDirectory, ?_⟩)
      obtain ⟨middle, above, calls⟩ :=
        returns_enterAbove sound room split walked object machine
          (newInode fs.inodes.count (sIfdir ||| mode))
      refine fails_makeEntries_dot making_inode above ?_
      rw [calls]
      by_contra dotGranted
      exact refused ⟨granted, noDirectory, dotGranted⟩

end Parent

theorem isDir_directoryMode (mode : UInt32) :
    IsDir (sIfdir ||| ((mode &&& ~~~sIfmt) ||| sIfdir)) := by
  have rights : (mode &&& ~~~sIfmt) &&& 0xF000 = 0 := by
    apply UInt32.eq_of_toBitVec_eq
    simp [sIfmt, BitVec.and_assoc]
  have distributes (left right : UInt32) :
      (left ||| right) &&& 0xF000 = (left &&& 0xF000) ||| (right &&& 0xF000) :=
    UInt32.eq_of_toBitVec_eq BitVec.and_or_distrib_right
  rw [IsDir, fileType, distributes, distributes, rights]
  decide

/-- The directories after a name in one of them was given to a new one. -/
def madeDirectories (fs : Mount) (dir : Nat) (table : Directory) (base : CString) :
    Store Directory :=
  ((fs.directories.add emptyDirectory).change dir fun _ =>
    withEntry table base fs.inodes.count).change fs.directories.count fun _ =>
      withEntry emptyDirectory dotName fs.inodes.count

/-- Where the entries of a new directory are made. -/
theorem entries_made
    (sound : Sound fs) (room : fs.inodes.count < 64) (split : MkdirParts fspath front base)
    {parino : Nat} (walked : componentWalk fs false fs.rootIno front = .ok parino)
    (object : directoryObject fs parino = some dir) (free : nameAt fs dir base = none)
    (bounded : base.length < sizeMax) (granted : ¬ PairRefused machine (fs.kmallocs + 3))
    (entries :
      EntriesMade machine fspath fs.inodes.count fs.directories.count
        fs.inodes.count (making fs node) middle) :
    ∃ table,
      fs.directories.read dir = some table ∧
        middle.directories = madeDirectories fs dir table base := by
  have numbered := sound.numbered
  have agrees := agrees_making numbered room node
  have older := object_lt numbered object
  obtain ⟨table, reading⟩ := Store.exists_read older
  have hashed := (sound.good dir table reading).hashed
  rw [nameAt, reading, Option.bind_some] at free
  cases entries with
  | intro entered dotReading dotInserted =>
    cases entered with
    | self root => exact absurd root split.parts.nonempty
    | parent below parentOf tried =>
      obtain ⟨other, otherDir, otherWalked, otherObject, rfl⟩ :=
        (parentOf_iff sound split _).mp ((agrees.parentOf_iff numbered).mp parentOf)
      cases walked.symm.trans otherWalked
      cases object.symm.trans otherObject
      rw [split.name] at tried
      have makingReading := (agrees.directory dir older).trans reading
      rcases tried with
        ⟨_, id, found, grown, same, foundReading, inserted, rfl⟩ |
        ⟨refused, _⟩
      · cases same
        cases makingReading.symm.trans foundReading
        rw [hashed.insert bounded, if_pos free] at inserted
        cases inserted
        rw [Store.read_change, if_neg (ne_of_gt older), making_directory] at dotReading
        cases dotReading
        cases dotInserted
        exact ⟨table, reading, rfl⟩
      · refine absurd (pairRefused_of_entryRefused refused ?_) granted
        rintro id found ⟨⟩ foundReading taken
        cases makingReading.symm.trans foundReading
        exact (hashed.hasName_iff bounded).mp taken free

variable {mode : UInt32}

section Done

variable (fresh : FreshNode node fs.inodes.count mode)
variable
  (entries :
    EntriesMade machine fspath fs.inodes.count fs.directories.count
      fs.inodes.count (making fs node) middle)
variable (soundLater : Sound (attached middle fs.inodes.count fs.directories.count))

include fresh entries soundLater

/-- A new directory is one more name, and one more inode behind it. -/
theorem differs_of_done (sound : Sound fs) (room : fs.inodes.count < 64) {table : Directory}
    (reading : fs.directories.read dir = some table) (free : nameMap table base = none)
    (directories : middle.directories = madeDirectories fs dir table base) :
    Differs fs (attached middle fs.inodes.count fs.directories.count) dir
      base (some fs.inodes.count) := by
  have older := Store.lt_count_of_read reading
  have inodes := (entriesMade_quietly making_inode fresh.ino.symm entries).2
  have readAt (other : Nat) (present : other < fs.directories.count) :
      middle.directories.read other = if other = dir then
          some (withEntry table base fs.inodes.count)
        else fs.directories.read other := by
    rw [directories, madeDirectories, Store.read_change, if_neg (ne_of_lt present),
      Store.read_change, Store.read_add, if_neg (ne_of_lt present)]
    split
    · rename_i same
      rw [same, reading]
      rfl
    · rfl
  refine ⟨?_, ?_, ?_, ?_⟩
  · exact (keepsTypes_of_eventually (Quietly.eventually
      (done_quietly sound.numbered room fresh entries))).root
  · intro ino present
    rw [directoryObject_eq soundLater.numbered, directoryObject_eq sound.numbered]
    simp only [attached, inodes, Store.read_change, making, withDirectory,
      withInode, Store.read_add, if_neg (ne_of_lt present)]
  · rw [nameAt, attached]
    rw [readAt dir older, if_pos rfl, Option.bind_some, nameMap_withEntry free, update_self]
  · intro other present otherName apart
    rw [nameAt, nameAt, attached]
    rw [readAt other present]
    split
    · rename_i same
      subst same
      rw [reading, Option.bind_some, Option.bind_some, nameMap_withEntry free,
        update_of_ne fun sameName => apart ⟨rfl, sameName⟩]
    · rfl

end Done

/-! ## Correctness -/

/-- A path resolves. -/
def PathExists (fs : Mount) (path : CString) : Prop := ∃ ino, lookupOf fs path = some (.ok ino)

/-- The parent of a path is a directory. -/
def ParentIsDirectory (fs : Mount) (path : CString) : Prop :=
  ∃ dir name, NamesEntry fs path dir name

/--
The allocations of a new directory are granted: one for the inode, two for the
table, two for the entry in the parent, and two for its own.
-/
def AllGranted (machine : Machine) (fs : Mount) : Prop :=
  ∀ call < 7, machine.grants (fs.kmallocs + call) = true

/-- What the making of a directory is for. -/
structure Created (fs : Mount) (path : CString) (changed : Mount) : Prop where
  made :
    ∃ ino dir,
      lookupOf changed path = some (.ok ino) ∧ idataByInode fs ino = some none ∧
        directoryObject changed ino = some dir ∧ nameAt changed dir dotName = some ino
  others :
    ∀ other : Path, ¬ PassesEntryOf fs path other.chars →
      lookupOf changed other.chars = lookupOf fs other.chars

/-- A directory is made where none is, and refused where something is. -/
def MkdirCorrect (machine : Machine) (fs : Mount) (path : CString) (mode : UInt32) : Prop :=
  ∃ outcome changed,
    Returns (vfsMkdir machine path mode) fs outcome changed ∧
      (outcome = .ok ⟨⟩ ↔
        ¬ PathExists fs path ∧ ParentIsDirectory fs path ∧ AllGranted machine fs) ∧
      (outcome = .ok ⟨⟩ → Created fs path changed) ∧ (PathExists fs path → outcome = .error .eexist)

/-- The entry in the parent is refused for want of memory, unnoticed. -/
def EntryLost (machine : Machine) (fs : Mount) (path : CString) : Prop :=
  ParentIsDirectory fs path ∧ Accepted machine fs ∧ PairRefused machine (fs.kmallocs + 3)

theorem not_pairRefused_iff {calls : Nat} :
    ¬ PairRefused machine calls ↔
      machine.grants calls = true ∧ machine.grants (calls + 1) = true := by
  unfold PairRefused
  rw [not_or, Bool.not_eq_false, Bool.not_eq_false]

theorem allGranted_iff :
    AllGranted machine fs ↔ Accepted machine fs ∧ ¬ PairRefused machine (fs.kmallocs + 3) := by
  unfold AllGranted Accepted entryCalls
  rw [not_pairRefused_iff, not_pairRefused_iff, not_pairRefused_iff]
  constructor
  · intro granted
    rw [if_pos (granted 3 (by decide))]
    exact ⟨⟨granted 0 (by decide), ⟨granted 1 (by decide), granted 2 (by decide)⟩,
      ⟨granted 5 (by decide), granted 6 (by decide)⟩⟩,
      ⟨granted 3 (by decide), granted 4 (by decide)⟩⟩
  · rintro ⟨⟨first, directory, dot⟩, entry⟩ call inside
    rw [if_pos entry.1] at dot
    interval_cases call
    · exact first
    · exact directory.1
    · exact directory.2
    · exact entry.1
    · exact entry.2
    · exact dot.1
    · exact dot.2

/-- The parent of a path with parts, as a name in a directory. -/
theorem namesEntry_iff {path : CString} {name : CString} (mount : mountnodeByPath path = .ok fspath)
    (split : MkdirParts fspath front base) :
    NamesEntry fs path dir name ↔
      name = base ∧
        ∃ parino,
          componentWalk fs false fs.rootIno front = .ok parino ∧
            directoryObject fs parino = some dir := by
  constructor
  · rintro ⟨other, otherFront, parino, otherMount, otherSplit, walked, object⟩
    cases mount.symm.trans otherMount
    rw [split.parts.split] at otherSplit
    obtain ⟨rfl, last⟩ := append_inj' otherSplit rfl
    cases last
    exact ⟨rfl, parino, walked, object⟩
  · rintro ⟨rfl, parino, walked, object⟩
    exact ⟨fspath, front, parino, mount, split.parts.split, walked, object⟩

section Mkdir

variable (sound : Sound fs) (room : fs.inodes.count < 64) (path : Path)
  (mount : mountnodeByPath path.chars = .ok fspath) (split : MkdirParts fspath front base)

include sound mount split

theorem parentIsDirectory_of_pathExists (exists_ : PathExists fs path.chars) :
    ParentIsDirectory fs path.chars := by
  obtain ⟨ino, looked⟩ := exists_
  rw [lookupOf_eq sound, resolved_eq mount, Option.some.injEq] at looked
  obtain ⟨parino, dir, walked, object, _⟩ :=
    split.parts.walk sound.numbered (mountnodeByPath_take path mount) looked
  exact ⟨dir, base, (namesEntry_iff mount split).mpr ⟨rfl, parino, walked, object⟩⟩

section Parent

variable {parino : Nat} (walked : componentWalk fs false fs.rootIno front = .ok parino)
  (object : directoryObject fs parino = some dir)

include walked object

/-- What a path resolves to when its parent is a directory. -/
theorem pathExists_iff : PathExists fs path.chars ↔ nameAt fs dir base ≠ none := by
  unfold PathExists
  rw [lookupOf_eq sound, resolved_eq mount,
    split.parts.resolve_eq sound.numbered (mountnodeByPath_take path mount) walked object]
  cases nameAt fs dir base with
  | none => simp [foundOr]
  | some child => simp [foundOr]

include room

/-- A directory that was made, with all its allocations. -/
theorem created_of_returns (free : nameAt fs dir base = none)
    (plain : PlainDirectory path.chars) (granted : AllGranted machine fs)
    (returned : Returns (vfsMkdir machine path.chars mode) fs (.ok ⟨⟩) changed) :
    Created fs path.chars changed := by
  have numbered := sound.numbered
  obtain ⟨_, entryGranted⟩ := allGranted_iff.mp granted
  have bounded : base.length < sizeMax := by
    rw [← split.name]
    exact skipSeps_bounded path mount _
  have dotGranted := not_pairRefused_iff.mpr ⟨granted 5 (by decide), granted 6 (by decide)⟩
  rcases vfsMkdir_spec.returns _ _ returned.run with
    ⟨_, impossible, _⟩ |
    ⟨other, ino, made, result, otherMount, grown, populated, ends⟩
  · cases impossible
  cases mount.symm.trans otherMount
  obtain ⟨number, rfl⟩ := grown_flat numbered.flat room grown
  obtain rfl : ino = fs.inodes.count := number
  have ended := mkdirEnd_of_populated numbered room rfl populated
  have fresh := newInode_freshNode fs.inodes.count (sIfdir ||| ((mode &&& ~~~sIfmt) ||| sIfdir))
  have fits : changed.inodes.count ≤ 64 := by
    rw [mkdirEnd_count fresh ended]
    exact room
  have soundLater := (vfsMkdir_sound sound plain dotGranted).returns _ _ returned.run fits
  obtain ⟨_, rfl⟩ := ends.mp rfl
  cases ended with
  | @done middle _ entries =>
    obtain ⟨table, reading, directories⟩ :=
      entries_made sound room split walked object free bounded entryGranted entries
    have mapped : nameMap table base = none := by
      rw [nameAt, reading, Option.bind_some] at free
      exact free
    have differs := differs_of_done fresh entries soundLater sound room reading mapped directories
    have unused : idataByInode fs fs.inodes.count = some none := by
      rw [idataByInode_flat numbered.flat, Store.read_eq_none_iff.mpr le_rfl]
      rfl
    constructor
    · refine ⟨fs.inodes.count, fs.directories.count, ?_, unused, ?_, ?_⟩
      · rw [lookupOf_eq soundLater, resolved_eq mount,
          split.parts.resolve_entered sound.numbered soundLater.numbered
            (mountnodeByPath_take path mount) walked object free differs]
      · have inodes := (entriesMade_quietly making_inode fresh.ino.symm entries).2
        rw [directoryObject_eq soundLater.numbered]
        simp only [attached, inodes, Store.read_change, if_true, making_inode,
          Option.map_some, Option.bind_some]
        exact if_pos (isDir_directoryMode mode)
      · rw [nameAt, attached]
        rw [directories, madeDirectories, Store.read_change, if_pos rfl, Store.read_change,
          if_neg (ne_of_gt (Store.lt_count_of_read reading)),
          Store.read_add, if_pos rfl, Option.map_some, Option.bind_some,
          nameMap_withEntry (nameMap_emptyDirectory dotName), update_self]
    · intro otherPath notPassing
      have names := (namesEntry_iff mount split).mpr ⟨rfl, parino, walked, object⟩
      rw [lookupOf_eq soundLater, lookupOf_eq sound,
        differs.resolved sound.numbered soundLater.numbered otherPath
          fun passes => notPassing ⟨dir, base, names, passes⟩]

/-- The outcome of `vfs_mkdir`, from that of `ramfs_make_directory`. -/
theorem vfsMkdir_ends (machine : Machine) (mode : UInt32) :
    (Accepted machine fs →
        ∃ changed, Returns (vfsMkdir machine path.chars mode) fs (.ok ⟨⟩) changed) ∧
      (¬ Accepted machine fs → FailsWith .enomem (vfsMkdir machine path.chars mode) fs) := by
  constructor
  · intro accepted
    obtain ⟨number, changed, returned⟩ :=
      returns_makeDirectory sound room split walked object accepted ((mode &&& ~~~sIfmt) ||| sIfdir)
    exact ⟨changed, .bind (.handle (returns_fspathOf mount)) (.bind returned .pure)⟩
  · intro refused
    exact .bind (.handle (returns_fspathOf mount)) (.bind_error
      (failsWith_enomem sound room split walked object refused _))

end Parent

include room

/-- Without a directory to make it in, a directory is not made. -/
theorem fails_of_parentFault (fault : ParentFault fs fspath) (machine : Machine) (mode : UInt32) :
    Fails (vfsMkdir machine path.chars mode) fs := by
  cases granted : machine.grants fs.kmallocs with
  | false =>
    exact .bind (.handle (returns_fspathOf mount)) (.bind_error (.bind_error
      (.bind (returns_kmalloc granted) (.bind_error (.failIf rfl)))))
  | true =>
    exact fails_vfsMkdir sound.numbered room granted mount (.noParent split.parts.nonempty fault)

end Mkdir

/-- An error that is no `EEXIST`, where nothing is in the way. -/
theorem mkdirCorrect_of_fails {path : CString} (absent : ¬ PathExists fs path)
    (impossible : ¬ (ParentIsDirectory fs path ∧ AllGranted machine fs))
    (failed : Fails (vfsMkdir machine path mode) fs) : MkdirCorrect machine fs path mode := by
  obtain ⟨error, changed, returned⟩ := failed
  refine ⟨_, changed, returned, ⟨?_, ?_⟩, ?_, ?_⟩
  · intro isOk
    cases isOk
  · rintro ⟨_, possible⟩
    exact absurd possible impossible
  · intro isOk
    cases isOk
  · intro present
    exact absurd present absent

/--
In every run of orderly calls, with room for an inode, a directory is made
correctly under a plain name exactly when the path does not exist and the
entry in the parent is not lost for want of memory.
-/
theorem mkdir_correct_iff {machine : Machine} {devices : Devices} {world : World}
    (reached : (kernel machine devices).Reached (Orderly machine) world)
    (room : world.fs.inodes.count < 64) (path : Path) {fspath : CString}
    (mount : mountnodeByPath path.chars = .ok fspath) (written : Written fspath)
    (plain : PlainDirectory path.chars) (mode : UInt32) :
    MkdirCorrect machine world.fs path.chars mode ↔
      ¬ PathExists world.fs path.chars ∧ ¬ EntryLost machine world.fs path.chars := by
  have sound := reached_soundWhileFlat reached (le_of_lt room)
  obtain ⟨front, base, split⟩ :=
    written.parts (lt_trans (mountnodeByPath_length mount) path.bounded)
  by_cases inDirectory : ParentIsDirectory world.fs path.chars
  · obtain ⟨dir, name, names⟩ := inDirectory
    obtain ⟨rfl, parino, walked, object⟩ := (namesEntry_iff mount split).mp names
    obtain ⟨succeeds, fails⟩ := vfsMkdir_ends sound room path mount split walked object machine mode
    constructor
    · rintro ⟨outcome, changed, returned, isOk, _, isTaken⟩
      refine ⟨fun present => ?_, fun ⟨_, accepted, lost⟩ => ?_⟩
      · by_cases accepted : Accepted machine world.fs
        · obtain ⟨final, done⟩ := succeeds accepted
          cases done.run.symm.trans returned.run
          cases isTaken present
        · obtain ⟨final, refused⟩ := fails accepted
          cases refused.run.symm.trans returned.run
          cases isTaken present
      · obtain ⟨final, done⟩ := succeeds accepted
        cases done.run.symm.trans returned.run
        exact (allGranted_iff.mp (isOk.mp rfl).2.2).2 lost
    · rintro ⟨absent, kept⟩
      by_cases granted : AllGranted machine world.fs
      · obtain ⟨changed, done⟩ := succeeds (allGranted_iff.mp granted).1
        have free : nameAt world.fs dir name = none :=
          not_not.mp (mt (pathExists_iff sound path mount split walked object).mpr absent)
        refine ⟨_, changed, done, ⟨fun _ => ⟨absent, ⟨dir, name, names⟩, granted⟩, fun _ => rfl⟩,
          fun _ => ?_, fun present => absurd present absent⟩
        exact created_of_returns sound room path mount split walked object free plain granted done
      · have refused : ¬ Accepted machine world.fs := by
          intro accepted
          refine kept ⟨⟨dir, name, names⟩, accepted, ?_⟩
          by_contra entryGranted
          exact granted (allGranted_iff.mpr ⟨accepted, entryGranted⟩)
        exact mkdirCorrect_of_fails absent
          (fun possible => granted possible.2) (fails refused).fails
  · have absent := mt (parentIsDirectory_of_pathExists sound path mount split) inDirectory
    have fault : ParentFault world.fs fspath := by
      refine (parentFault_iff sound split).mpr ?_
      intro parino dir walked object
      exact inDirectory ⟨dir, base, (namesEntry_iff mount split).mpr ⟨rfl, parino, walked, object⟩⟩
    constructor
    · intro _
      exact ⟨absent, fun lost => inDirectory lost.1⟩
    · intro _
      exact mkdirCorrect_of_fails absent (fun possible => inDirectory possible.1)
        (fails_of_parentFault sound room path mount split fault machine mode)

theorem pathA_plainDirectory : PlainDirectory pathA.chars := by
  intro fspath mount _
  cases mount
  decide +kernel

theorem pathA_written : ∃ fspath, mountnodeByPath pathA.chars = .ok fspath ∧ Written fspath := by
  refine ⟨_, rfl, .single ?_ (cons_ne_nil _ _)⟩
  intro char member
  cases mem_singleton.mp member
  decide

theorem mkdir_correct_sample :
    ∃ world fspath,
      (kernel generous noDevices).Reached (Orderly generous) world ∧ world.fs.inodes.count < 64 ∧
        mountnodeByPath pathA.chars = .ok fspath ∧ Written fspath ∧ PlainDirectory pathA.chars ∧
        MkdirCorrect generous world.fs pathA.chars 0 := by
  obtain ⟨world, reached, room, looked⟩ : ∃ world,
      (kernel generous noDevices).Reached (Orderly generous) world ∧ world.fs.inodes.count < 64 ∧
        lookupOf world.fs pathA.chars = some (.error .enoent) :=
    exists_sampleRun [] (by simp) (by decide +kernel)
  obtain ⟨fspath, mount, written⟩ := pathA_written
  refine ⟨world, fspath, reached, room, mount, written, pathA_plainDirectory,
    (mkdir_correct_iff reached room pathA mount written pathA_plainDirectory 0).mpr ⟨?_, ?_⟩⟩
  · rintro ⟨ino, present⟩
    cases looked.symm.trans present
  · rintro ⟨_, _, refused⟩
    exact not_pairRefused (fun _ => rfl) _ refused

/-- A directory is made a second time under its name, and nothing says so. -/
theorem mkdir_of_existing_succeeds :
    ∃ (machine : Machine) (devices : Devices) (world : World) (path : Path) (mode : UInt32),
      (kernel machine devices).Reached (fun _ _ => True) world ∧ world.fs.inodes.count < 64 ∧
        ¬ MkdirCorrect machine world.fs path.chars mode := by
  obtain ⟨world, reached, room, looked, again⟩ : ∃ world,
      (kernel generous noDevices).Reached (fun _ _ => True) world ∧ world.fs.inodes.count < 64 ∧
        lookupOf world.fs pathA.chars = some (.ok 2) ∧
        ((vfsMkdir generous pathA.chars 0 world.fs).any fun returned =>
          returned.1 = .ok ⟨⟩) = true :=
    exists_sampleRun [.mkdir pathA 0] (fun _ _ _ _ => trivial) (by decide +kernel)
  obtain ⟨⟨outcome, changed⟩, returned, rfl⟩ := exists_of_any again
  refine ⟨generous, noDevices, world, pathA, 0, reached, room, ?_⟩
  rintro ⟨outcome, final, finalReturned, _, _, isTaken⟩
  cases returned.symm.trans finalReturned.run
  cases isTaken ⟨2, looked⟩

end Cosec.Fs.DirectoryCreation
