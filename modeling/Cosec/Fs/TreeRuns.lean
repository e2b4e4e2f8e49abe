import Cosec.Fs.ComponentWalk
import Cosec.Fs.Dirnames

/-!
# Runs that keep the directory tree

The mount is a directory tree without ambiguous names in every state of the
runs in which the inode table has room for every new inode, every new name is
one that no search mistakes, and no directory is given up after its parent
has an entry for it.

Every operation on names derives its directories from the ones before, by
inserting and deleting entries; the invariant is checked once for that.
-/

namespace Cosec.Fs.TreeRuns

open Fs.CallRuns Fs.ComponentWalk Fs.DirectoryMaps Fs.FileBlocks Fs.FileCalls Fs.InodeNumbers
open Fs.MountSteps Fs.NewDirectories Fs.PathLookup Fs.Ramfs Fs.Vfs Fs.VfsSteps Function Lib.Commands
open Lib.ObjectStore Lib.Transition Libc.ErrorNumbers Libc.Strings List

/-! ## Names that no search mistakes -/

/-- No other string in front of the name has its hash. -/
def Plain (name : CString) : Prop :=
  name ≠ [] ∧ ∀ wanted, wanted <+: name → strhash wanted = strhash name → wanted = name

instance (name : CString) : Decidable (Plain name) :=
  decidable_of_iff
    (name ≠ [] ∧ ∀ wanted ∈ name.inits, strhash wanted = strhash name → wanted = name)
    (by simp only [mem_inits, Plain])

/-- A hashed directory with plain names. -/
structure GoodTable (table : Directory) : Prop where
  hashed : Hashed table
  plain : ∀ name, nameMap table name ≠ none → Plain name

theorem emptyDirectory_good : GoodTable emptyDirectory where
  hashed := emptyDirectory_hashed
  plain := fun name named => absurd (nameMap_emptyDirectory name) named

/-! ## Derived directories -/

/--
A directory made of one of a store, or of an empty one, by inserting plain
names for some numbers and by deleting names.
-/
inductive Derived (store : Store Directory) (targets : Nat → Prop) : Directory → Prop
  | kept {dir : Nat} {table : Directory}
      (reading : store.read dir = some table) :
      Derived store targets table
  | empty : Derived store targets emptyDirectory
  | insert {table grown : Directory} {name : CString} {ino : Nat}
      (earlier : Derived store targets table)
      (plain : Plain name)
      (bounded : name.length < sizeMax)
      (target : targets ino)
      (inserted : directoryInsert table ⟨strhash name, name, ino⟩ = .ok grown) :
      Derived store targets grown
  | delete {table shrunk : Directory} {name : CString} {namelen : Nat}
      (earlier : Derived store targets table)
      (bounded : name.length < sizeMax)
      (deleted : directoryDelete table name namelen = .ok shrunk) :
      Derived store targets shrunk

/-- All directories of a store are derived from those of another. -/
def AllDerived (store : Store Directory) (targets : Nat → Prop) (later : Store Directory) : Prop :=
  ∀ dir table, later.read dir = some table → Derived store targets table

variable {store later : Store Directory} {targets : Nat → Prop}

theorem Derived.good {table : Directory} (derived : Derived store targets table)
    (allGood : ∀ dir table, store.read dir = some table → GoodTable table) : GoodTable table := by
  induction derived with
  | kept reading => exact allGood _ _ reading
  | empty => exact emptyDirectory_good
  | @insert table grown name ino _ plain bounded _ inserted earlierGood =>
    rw [earlierGood.hashed.insert bounded] at inserted
    split at inserted
    · rename_i free
      cases inserted
      refine ⟨earlierGood.hashed.withEntry free ino, ?_⟩
      intro other named
      rw [nameMap_withEntry free] at named
      by_cases same : other = name
      · rw [same]
        exact plain
      · rw [update_of_ne same] at named
        exact earlierGood.plain other named
    · cases inserted
  | @delete table shrunk name namelen _ bounded deleted earlierGood =>
    rw [earlierGood.hashed.delete bounded] at deleted
    split at deleted
    · rename_i present
      cases deleted
      refine ⟨earlierGood.hashed.withoutEntry present.2, ?_⟩
      intro other named
      rw [earlierGood.hashed.nameMap_withoutEntry] at named
      by_cases same : other = name
      · rw [same, update_self] at named
        exact absurd rfl named
      · rw [update_of_ne same] at named
        exact earlierGood.plain other named
    · cases deleted

/-- The entries of a derived directory are old ones or lead to targets. -/
theorem Derived.entries
    {table : Directory} (derived : Derived store targets table) {bucket : Fin 8} {de : Direntry}
    (member : de ∈ table.ht bucket) :
    targets de.ino ∨ ∃ dir older, store.read dir = some older ∧ de ∈ older.ht bucket := by
  induction derived with
  | kept reading => exact Or.inr ⟨_, _, reading, member⟩
  | empty => cases member
  | insert _ _ _ target inserted ih =>
    rcases mem_of_directoryInsert inserted member with rfl | older
    · exact Or.inl target
    · exact ih older
  | delete _ _ deleted ih =>
    exact ih (mem_of_directoryDelete deleted member)

theorem allDerived_refl : AllDerived store targets store := fun _ _ reading => .kept reading

theorem AllDerived.change (derived : AllDerived store targets later) {table : Directory}
    (new : Derived store targets table) (dir : Nat) :
    AllDerived store targets (later.change dir fun _ => table) := by
  intro other found reading
  rcases read_change_const reading with ⟨_, rfl⟩ | unchanged
  · exact new
  · exact derived other found unchanged

theorem AllDerived.add (derived : AllDerived store targets later) :
    AllDerived store targets (later.add emptyDirectory) := by
  intro dir table reading
  rw [Store.read_add] at reading
  split at reading
  · cases reading
    exact .empty
  · exact derived dir table reading

theorem AllDerived.free (derived : AllDerived store targets later) (dir : Nat) :
    AllDerived store targets (later.free dir) := by
  intro other table reading
  rw [Store.read_free] at reading
  exact derived other table reading

theorem AllDerived.freed
    {fs : Mount} (derived : AllDerived store targets fs.directories) (idata : Nat) (inode : Inode) :
    AllDerived store targets (freed fs idata inode).directories := by
  unfold MountSteps.freed
  split
  · split
    · exact derived.free _
    · exact derived
  · exact derived

/-! ## Directories with their tables -/

/-- A directory behind a number has its table. -/
def Whole (fs : Mount) (ino : Nat) : Prop :=
  ∀ inode, fs.inodes.read ino = some inode → IsDir inode.mode → inode.data ≠ none

/-- What the runs keep. -/
structure Sound (fs : Mount) : Prop where
  numbered : Numbered fs
  good : ∀ dir table, fs.directories.read dir = some table → GoodTable table
  whole :
    ∀ dir table, fs.directories.read dir = some table →
      ∀ bucket, ∀ de ∈ table.ht bucket, Whole fs de.ino
  root : ∃ inode, fs.inodes.read fs.rootIno = some inode ∧ IsDir inode.mode ∧ inode.data ≠ none

variable {machine : Machine} {devices : Devices} {fs changed : Mount}

/-- Inodes keep their types, and directories their tables. -/
def KeepsTables (fs changed : Mount) : Prop :=
  ∀ idata inode, fs.inodes.read idata = some inode →
    ∃ after, changed.inodes.read idata = some after ∧
      after.mode = inode.mode ∧ (inode.data ≠ none → after.data ≠ none)

variable {ino : Nat}

theorem keepsTables_of_eventually (steps : Eventually fs changed) : KeepsTables fs changed :=
  (kept_of_eventually steps).2

theorem Whole.kept (whole : Whole fs ino) (present : ino < fs.inodes.count)
    (keeps : KeepsTables fs changed) : Whole changed ino := by
  intro after afterReading isDir
  obtain ⟨inode, reading⟩ := Store.exists_read present
  obtain ⟨other, otherReading, mode, data⟩ := keeps ino inode reading
  rw [afterReading] at otherReading
  cases otherReading
  rw [mode] at isDir
  exact data (whole inode reading isDir)

variable {path : CString}

section Sound

variable (sound : Sound fs)

include sound

theorem Sound.unambiguous (names : List CString) : Unambiguous fs names := by
  intro dir table reading
  have good := sound.good dir table reading
  constructor
  · by_contra named
    exact (good.plain [] named).1 rfl
  · rintro wanted - ⟨other, named, different, sameHash, begins⟩
    exact different ((good.plain other named).2 wanted begins sameHash.symm).symm

/-- The table of a directory inode that is whole. -/
theorem Sound.table {inode : Inode} (reading : fs.inodes.read ino = some inode)
    (hasData : inode.data ≠ none) :
    ∃ dir table, inode.data = some dir ∧ fs.directories.read dir = some table := by
  obtain ⟨dir, data⟩ := Option.ne_none_iff_exists'.mp hasData
  obtain ⟨table, tableReading⟩ := Store.exists_read (sound.numbered.data ino inode dir reading data)
  exact ⟨dir, table, data, tableReading⟩

theorem Sound.tree : Tree fs where
  hashed := fun dir table reading => (sound.good dir table reading).hashed
  children := by
    intro dir table bucket reading de member
    obtain ⟨inode, inodeReading, found⟩ :=
      sound.numbered.found_of_lt (sound.numbered.entries dir table reading bucket de member)
    refine ⟨de.ino, inode, found, fun isDir => ?_⟩
    exact sound.table inodeReading
      (sound.whole dir table reading bucket de member inode inodeReading isDir)
  root := by
    obtain ⟨inode, reading, isDir, hasData⟩ := sound.root
    obtain ⟨dir, table, data, tableReading⟩ := sound.table reading hasData
    refine ⟨fs.rootIno, inode, dir, table, ?_, isDir, data, tableReading⟩
    rw [idataByInode_flat sound.numbered.flat, reading]
    rfl

theorem Sound.looked_iff {pathlen : Nat} {outcome : Except Errno Nat} :
    lookupInode path pathlen fs = some outcome ↔ resolve fs path pathlen = outcome := by
  rw [lookupInode_eq sound.tree _ _ (sound.unambiguous _), Option.some.injEq]

theorem Sound.derived (steps : Eventually fs changed) (fits : changed.inodes.count ≤ 64)
    (derived : AllDerived fs.directories targets changed.directories)
    (aimed : ∀ ino, targets ino → Whole changed ino) : Sound changed where
  numbered := sound.numbered.eventually steps fits
  good := fun dir table reading => (derived dir table reading).good sound.good
  whole := by
    intro dir table reading bucket de member
    rcases (derived dir table reading).entries member with
      target | ⟨older, olderTable, olderReading, olderMember⟩
    · exact aimed de.ino target
    · exact (sound.whole older olderTable olderReading bucket de
        olderMember).kept
          (sound.numbered.entries older olderTable olderReading bucket de olderMember)
          (keepsTables_of_eventually steps)
  root := by
    obtain ⟨inode, reading, isDir, hasData⟩ := sound.root
    obtain ⟨after, afterReading, mode, data⟩ :=
      keepsTables_of_eventually steps fs.rootIno inode reading
    rw [(keepsTypes_of_eventually steps).root]
    exact ⟨after, afterReading, by rw [mode]; exact isDir, data hasData⟩

theorem Sound.whole_of_lookupInode {pathlen : Nat}
    (looked : lookupInode path pathlen fs = some (.ok ino)) : Whole fs ino := by
  rcases lookupInode_ends sound.numbered.dataAll looked with
    rfl | ⟨dir, _, table, reading, bucket, de, member, rfl⟩
  · obtain ⟨inode, reading, _, hasData⟩ := sound.root
    intro other otherReading _
    rw [reading] at otherReading
    cases otherReading
    exact hasData
  · exact sound.whole dir table reading bucket de member

theorem Sound.kept (steps : Eventually fs changed) (fits : changed.inodes.count ≤ 64)
    (directories : changed.directories = fs.directories) : Sound changed := by
  have derived : AllDerived fs.directories (fun _ => False) changed.directories := by
    rw [directories]
    exact allDerived_refl
  exact sound.derived steps fits derived fun _ => False.elim

theorem Sound.untouched (same : Untouched fs changed) : Sound changed := by
  refine sound.kept same.quietly.eventually ?_ ?_
  · rw [same]
    exact sound.numbered.flat.fits
  · rw [same]

theorem Sound.freed (idata : Nat) (inode : Inode) : Sound (freed fs idata inode) := by
  have derived :
      AllDerived fs.directories (fun _ => False) (MountSteps.freed fs idata inode).directories :=
    allDerived_refl.freed idata inode
  refine sound.derived (freed_eventually _ _ _) ?_ derived fun _ => False.elim
  simp only [MountSteps.freed, Store.count_free]
  exact sound.numbered.flat.fits

end Sound

/-! ## Operations on names -/

theorem Sound.linked (sound : Sound fs) {dirino : Nat} {name : CString}
    (present : ino < fs.inodes.count) (whole : Whole fs ino) (plain : Plain name)
    (bounded : name.length < sizeMax) (link : Linked fs ino dirino name changed)
    (fits : changed.inodes.count ≤ 64) : Sound changed := by
  have steps := Quietly.eventually (linked_quietly link)
  have derived : AllDerived fs.directories (· = ino) changed.directories := by
    cases link with
    | @intro _ _ _ _ _ _ grown dirFound isDir dirData found reading inserted =>
      refine allDerived_refl.change (.insert (.kept reading) plain bounded ?_ inserted) _
      exact sound.numbered.self _ _ (sound.numbered.read_of_found found).2
  refine sound.derived steps fits derived ?_
  rintro _ rfl
  exact whole.kept present (keepsTables_of_eventually steps)

variable {dir : Nat}

/-- The name that a path is linked under is plain. -/
def PlainLink (path : CString) : Prop :=
  ∀ fspath, mountnodeByPath path = .ok fspath →
    Plain (linkName fspath (pathDirnameLen fspath sizeMax))

/-- The part of a mounted path behind some separators is in memory. -/
theorem skipSeps_bounded (path : Path) {fspath : CString}
    (mount : mountnodeByPath path.chars = .ok fspath) (count : Nat) :
    (skipSeps (fspath.drop count)).length < sizeMax := by
  have dropped := (dropWhile_sublist isSep (l := fspath.drop count)).length_le
  rw [length_drop] at dropped
  refine lt_of_le_of_lt (dropped.trans (Nat.sub_le _ _)) ?_
  exact lt_trans (mountnodeByPath_length mount) path.bounded

theorem linkName_take (path : Path) {fspath : CString}
    (mount : mountnodeByPath path.chars = .ok fspath) (length : Int) :
    (linkName fspath length).take sizeMax = linkName fspath length :=
  take_of_length_le (le_of_lt (skipSeps_bounded path mount length.toNat))

theorem vfsHardlink_sound (sound : Sound fs) {newpath : Path} (plain : PlainLink newpath.chars) :
    Ensures (vfsHardlink machine path newpath.chars) fs fun _ changed =>
      changed.inodes.count ≤ 64 → Sound changed := by
  refine vfsHardlink_spec.cases (fun _ _ same _ => sound.untouched same) ?_
  rintro _ _ ⟨ino, dirino, name, target, link⟩ fits
  obtain ⟨fspath, _, looked⟩ := target.source
  obtain ⟨newFspath, mount, _, nameEq⟩ := target.target
  rw [linkName_take newpath mount] at nameEq
  rw [nameEq] at link
  exact sound.linked (sound.numbered.lt_of_lookupInode looked)
    (sound.whole_of_lookupInode looked) (plain newFspath mount)
    (skipSeps_bounded newpath mount _) link fits

theorem vfsUnlink_sound (sound : Sound fs) (path : Path) :
    Ensures (vfsUnlink path.chars) fs fun _ changed =>
      changed.inodes.count ≤ 64 → Sound changed := by
  refine vfsUnlink_spec.cases (fun _ _ unchanged _ => unchanged ▸ sound) ?_
  rintro _ _ ⟨fspath, dir, basename, namelen, mount, target, removed⟩ fits
  have bounded : fspath.length < sizeMax :=
    lt_trans (mountnodeByPath_length mount) path.bounded
  obtain ⟨short, inMemory⟩ := unlinkTarget_length_lt target bounded
  refine sound.derived (removed_eventually removed) fits ?_ fun _ => False.elim
  cases removed with
  | intro reading searched found notDir deleted =>
    have shorter := lt_of_lt_of_le short inMemory
    have dropped :
        AllDerived fs.directories (fun _ => False) (fs.directories.change dir fun _ => _) :=
      allDerived_refl.change (.delete (.kept reading) shorter deleted) _
    split
    · exact dropped
    · exact AllDerived.freed dropped _ _

theorem vfsRename_sound
    (sound : Sound fs) (oldpath : Path) {newpath : Path} (plain : PlainLink newpath.chars) :
    Ensures (vfsRename machine oldpath.chars newpath.chars) fs
      fun _ changed => changed.inodes.count ≤ 64 → Sound changed := by
  refine (vfsHardlink_sound sound plain).bind (fun _ _ linked => linked) fun _ middle linked => ?_
  refine ⟨fun outcome changed returned fits => ?_⟩
  have steps := vfsUnlink_eventually.returns _ _ returned
  have middleFits := le_trans (count_le_of_eventually steps) fits
  exact (vfsUnlink_sound (linked middleFits) oldpath).returns _ _ returned fits

variable {mode : UInt32}

theorem not_isDir_nodeMode (notDir : ¬ IsDir mode) : ¬ IsDir (nodeMode mode) := by
  unfold nodeMode
  split
  · rename_i untyped
    have typed : fileType (mode ||| sIfreg) = fileType mode ||| fileType sIfreg :=
      UInt32.eq_of_toBitVec_eq BitVec.and_or_distrib_right
    rw [IsDir, typed, untyped]
    decide
  · exact notDir

/-- The invariant with one more inode that no entry leads to. -/
theorem Sound.withInode (sound : Sound fs) (room : fs.inodes.count < 64) {node : Inode}
    (fresh : FreshNode node fs.inodes.count mode) (kmallocs : Nat) :
    Sound (withInode fs node kmallocs) := by
  have stored := newLeaf_flat sound.numbered.flat room (fun _ => true) kmallocs
  refine sound.kept (Quietly.eventually (.single (.inodeNew fresh stored))) ?_ rfl
  simp only [InodeNumbers.withInode, Store.count_add]
  omega

theorem vfsMknod_sound (sound : Sound fs) {path : Path} {dev : UInt64}
    (plain : PlainLink path.chars) :
    Ensures (vfsMknod machine path.chars mode dev) fs fun _ changed =>
      changed.inodes.count ≤ 64 → Sound changed := by
  refine vfsMknod_spec.mono ?_
  intro outcome changed returned fits
  rcases returned with
    ⟨_, _, untouched, _⟩ | ⟨_, _, _, ino, made, parent, fresh, grown, _, linking⟩
  · exact sound.untouched untouched
  · have later : made.inodes.count ≤ changed.inodes.count := by
      cases outcome with
      | error error => exact (count_le_of_quietly linking.1.quietly).1
      | ok done => exact (count_le_of_quietly (linked_quietly linking)).1
    have room : fs.inodes.count < 64 := by
      cases grown
      simp only [Store.count_add] at later
      omega
    obtain ⟨number, rfl⟩ := grown_flat sound.numbered.flat room grown
    obtain rfl : ino = fs.inodes.count := fresh.ino.symm.trans number
    have madeSound := sound.withInode room fresh (fs.kmallocs + 1)
    cases outcome with
    | error error => exact madeSound.untouched linking.1
    | ok done =>
      obtain ⟨fspath, _, mount, _, _, nameEq⟩ := parent.parent
      rw [linkName_take path mount] at nameEq
      rw [nameEq] at linking
      refine madeSound.linked ?_ ?_ (plain fspath mount)
        (skipSeps_bounded path mount _) linking fits
      · simp [withInode]
      · intro inode reading isDir
        cases Store.read_add_count.symm.trans reading
        rw [fresh.mode] at isDir
        exact absurd isDir (not_isDir_nodeMode parent.notDir)

/-! ## New directories -/

/-- The name a directory is made under is plain. -/
def PlainDirectory (path : CString) : Prop :=
  ∀ fspath, mountnodeByPath path = .ok fspath → fspath ≠ [] → Plain (newName fspath)

theorem dotName_plain : Plain dotName := by decide +kernel

theorem dotdotName_plain : Plain dotdotName := by decide +kernel

variable {idata : Nat}

section

variable (holds : AllDerived store targets fs.directories) (target : targets ino)
  (plain : path ≠ [] → Plain (newName path)) (bounded : (newName path).length < sizeMax)

include holds target plain bounded

/-- The directories after the first entry of a new one. -/
theorem Entered.derived (entered : Entered machine path idata dir ino fs changed) :
    AllDerived store targets changed.directories := by
  cases entered with
  | self root reading inserted =>
    exact holds.change
      (.insert (holds dir _ reading) dotdotName_plain (by decide) target inserted) _
  | parent below parentOf tried =>
    rcases tried with
      ⟨_, id, table, grown, _, reading, inserted, rfl⟩ | ⟨_, rfl⟩
    · exact holds.change (.insert (holds id table reading) (plain below) bounded target inserted) _
    · exact holds

theorem EntriesMade.derived (made : EntriesMade machine path idata dir ino fs changed) :
    AllDerived store targets changed.directories := by
  cases made with
  | intro entered reading inserted =>
    have earlier := Entered.derived holds target plain bounded entered
    exact earlier.change
      (.insert (earlier dir _ reading) dotName_plain (by decide) target inserted) _

end

/-- An entry that was made took two allocations. -/
theorem Entered.kmallocs (entered : Entered machine path idata dir ino fs changed) :
    changed.kmallocs = fs.kmallocs + 2 ∨ changed.directories = fs.directories := by
  cases entered with
  | self => exact Or.inl rfl
  | parent below parentOf tried =>
    rcases tried with ⟨_, _, _, _, _, _, _, rfl⟩ | ⟨_, rfl⟩
    · exact Or.inl rfl
    · exact Or.inr rfl

theorem attached_whole (fs : Mount) (idata dir : Nat) : Whole (attached fs idata dir) idata := by
  intro inode reading _
  simp only [attached, Store.read_change, if_true] at reading
  obtain ⟨before, _, rfl⟩ := Option.map_eq_some_iff.mp reading
  exact Option.some_ne_none _

theorem MkdirEnd.derived {node : Inode} {result : Except Errno Nat}
    (plain : path ≠ [] → Plain (newName path)) (bounded : (newName path).length < sizeMax)
    (granted : ¬ PairRefused machine (fs.kmallocs + 5))
    (ended : MkdirEnd machine fs node path result changed) :
    ∃ targets : Nat → Prop,
      AllDerived fs.directories targets changed.directories ∧
        ∀ ino, targets ino → Whole changed ino := by
  have started {targets : Nat → Prop} :
      AllDerived fs.directories targets (making fs node).directories :=
    allDerived_refl.add
  cases ended with
  | noDirectory refused untouched =>
    refine ⟨fun _ => False, AllDerived.freed ?_ _ _, fun _ => False.elim⟩
    rw [untouched]
    exact allDerived_refl
  | noEntry root refused untouched =>
    refine ⟨fun _ => False, (AllDerived.free ?_ _).freed _ _, fun _ => False.elim⟩
    rw [untouched]
    exact started
  | noParent below fault =>
    exact ⟨fun _ => False, (started.free _).freed _ _, fun _ => False.elim⟩
  | noDot entered refused untouched reading =>
    refine ⟨fun _ => False, (AllDerived.free ?_ _).freed _ _, fun _ => False.elim⟩
    rw [untouched]
    rcases Entered.kmallocs entered with calls | directories
    · rw [calls] at refused
      exact absurd refused granted
    · dsimp only
      rw [directories]
      exact started
  | done entries =>
    have derived : AllDerived fs.directories (· = fs.inodes.count) _ :=
      EntriesMade.derived started rfl plain bounded entries
    refine ⟨(· = fs.inodes.count), derived, ?_⟩
    rintro _ rfl
    exact attached_whole _ _ _

theorem vfsMkdir_sound (sound : Sound fs) {path : Path} (plain : PlainDirectory path.chars)
    (granted : ¬ PairRefused machine (fs.kmallocs + 5)) :
    Ensures (vfsMkdir machine path.chars mode) fs fun _ changed =>
      changed.inodes.count ≤ 64 → Sound changed := by
  refine ⟨fun outcome changed returned fits => ?_⟩
  have steps := vfsMkdir_eventually.returns _ _ returned
  rcases vfsMkdir_spec.returns _ _ returned with
    ⟨_, _, untouched, _⟩ | ⟨_, _, made, _, _, grown, populated, _⟩
  · exact sound.untouched untouched
  · have room : fs.inodes.count < 64 := by
      have later := count_le_of_eventually (populated_eventually populated)
      cases grown
      simp only [Store.count_add] at later
      omega
    rcases (vfsMkdir_flat sound.numbered room).returns _ _ returned with
      ⟨_, _, untouched, _⟩ | ⟨fspath, _, _, mount, _, ended, _⟩
    · exact sound.untouched untouched
    · obtain ⟨targets, derived, aimed⟩ :=
        MkdirEnd.derived (plain fspath mount) (skipSeps_bounded path mount _) granted ended
      exact sound.derived steps fits derived aimed

/--
A call that keeps the directory tree: a new name is plain, and a directory
that has got an entry in its parent is not given up for want of memory.
-/
def Orderly (machine : Machine) (world : World) : CallRuns.Call → Prop
  | .mkdir path _ => PlainDirectory path.chars ∧ ¬ PairRefused machine (world.fs.kmallocs + 5)
  | .mknod path _ _ => PlainLink path.chars
  | .hardlink _ newpath => PlainLink newpath.chars
  | .rename _ newpath => PlainLink newpath.chars
  | .openFile _ path flags => flags &&& oCreat ≠ 0 → PlainLink path.chars
  | .unlink _ | .close .. | .read .. | .write .. => True

theorem SetBack.sound (sound : Sound fs) (setBack : SetBack ino fs changed) : Sound changed := by
  rcases setBack with rfl | ⟨idata, inode, _, _, _, rfl⟩
  · exact sound
  · exact sound.freed idata inode

theorem OpenFailed.sound {path : Path} {flags : UInt32} (sound : Sound fs)
    (plain : flags &&& oCreat ≠ 0 → PlainLink path.chars)
    (failed : OpenFailed machine path.chars flags fs changed) (fits : changed.inodes.count ≤ 64) :
    Sound changed := by
  rcases failed with rfl | ⟨creating, umask, outcome, made⟩
  · exact sound
  · exact (vfsMknod_sound sound (plain creating)).returns _ _ made fits

theorem callOf_sound {world : World} {call : CallRuns.Call} (sound : Sound world.fs)
    (orderly : Orderly machine world call) :
    Ensures (callOf machine devices call) world fun _ changed =>
      changed.fs.inodes.count ≤ 64 → Sound changed.fs := by
  cases call with
  | mkdir path mode => exact ensures_onMount.mpr (vfsMkdir_sound sound orderly.1 orderly.2)
  | mknod path mode dev => exact ensures_onMount.mpr (vfsMknod_sound sound orderly)
  | hardlink path newpath => exact ensures_onMount.mpr (vfsHardlink_sound sound orderly)
  | unlink path => exact ensures_onMount.mpr (vfsUnlink_sound sound path)
  | rename oldpath newpath => exact ensures_onMount.mpr (vfsRename_sound sound oldpath orderly)
  | openFile pid path flags =>
    refine ensures_dropValue (sysOpen_spec.cases ?_ ?_)
    · exact fun _ _ failed fits => OpenFailed.sound sound orderly failed.1 fits
    · rintro _ _ ⟨_, _, _, _, located, opened⟩ fits
      have middleFits := le_trans (count_le_of_eventually opened.setBack.eventually) fits
      exact SetBack.sound (OpenFailed.sound sound orderly located.openFailed middleFits)
        opened.setBack
  | close pid fd =>
    refine sysClose_spec.mono ?_
    rintro outcome changed ⟨_, unchanged | ⟨_, _, _, _, setBack⟩⟩ _
    · rw [unchanged]
      exact sound
    · exact SetBack.sound sound setBack
  | read pid fd answer buf count =>
    refine ensures_dropValue (sysRead_spec.mono ?_)
    rintro outcome changed ⟨_, unchanged⟩ _
    rw [unchanged]
    exact sound
  | write pid fd answer buf =>
    refine ensures_dropValue (sysWrite_spec.mono ?_)
    rintro outcome changed ⟨_, quiet, directories⟩ fits
    exact sound.kept (Quietly.eventually quiet) fits directories

/-- A mounted file system is a root directory that leads to itself. -/
theorem readSuperblock_sound
    {memory : PageMemory} (mounted : Returns (readSuperblock machine) (blank memory) (.ok ⟨⟩) fs) :
    Sound fs := by
  have numbered := readSuperblock_numbered mounted
  obtain ⟨middle, entries, rfl⟩ := readSuperblock_spec.returns _ _ mounted.run rfl
  have started :
      AllDerived (dataMount memory).directories (· = 1) (rootMaking memory).directories :=
    allDerived_refl.add
  have derived := EntriesMade.derived started rfl (absurd rfl) (by decide) entries
  have nothing (dir : Nat) (table : Directory) :
      (dataMount memory).directories.read dir ≠ some table := by
    intro reading
    cases reading
  refine ⟨numbered, ?_, ?_, ?_⟩
  · intro dir table reading
    exact (derived dir table reading).good fun other older olderReading =>
      absurd olderReading (nothing other older)
  · intro dir table reading bucket de member
    rcases (derived dir table reading).entries member with
      isRoot | ⟨other, older, olderReading, _⟩
    · rw [isRoot]
      exact attached_whole middle 1 0
    · exact absurd olderReading (nothing other older)
  · have inodes := (entriesMade_quietly (rootMaking_target memory) rfl entries).2
    refine ⟨addLink (setData 0 (addLink (newInode 1 rootMode))), ?_,
      by decide, Option.some_ne_none 0⟩
    simp only [attached, inodes, Store.read_change, if_true, rootMaking_target, Option.map_some]

/-- The mount is sound as long as its table has not grown. -/
def SoundWhileFlat (world : World) : Prop := world.fs.inodes.count ≤ 64 → Sound world.fs

theorem reached_soundWhileFlat
    {world : World} (reached : (kernel machine devices).Reached (Orderly machine) world) :
    SoundWhileFlat world := by
  refine System.Reached.invariant ?_ ?_ reached
  · rintro world ⟨⟨memory, mounted⟩, _⟩ _
    exact readSuperblock_sound mounted
  · rintro source call target earlier orderly ⟨outcome, returned⟩ fits
    have smaller :=
      le_trans (count_le_of_eventually (callOf_eventually.returns _ _ returned)) fits
    exact (callOf_sound (earlier smaller) orderly).returns _ _ returned fits

end Cosec.Fs.TreeRuns
