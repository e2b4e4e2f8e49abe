import Cosec.Fs.FailedCalls
import Cosec.Fs.LinkCounts

/-!
# Lifetimes of inodes

`ramfs_free_inode` returns an inode to the heap and leaves its slot in the
table as it is, since `btree_free_leaf` does nothing.  A table that has not
grown therefore holds allocated inodes exactly as long as no inode is freed;
`FreesNothing` says from the world before a call when that is so.

`sys_open` ends in a `vfs_inode_set`, which frees an inode without links and
openings.  It never meets one: a path ends at the root, which is linked to
itself, or at an entry, and an inode counts at least its entries.
-/

namespace Cosec.Fs.InodeLifetimes

open Fs.CallRuns Fs.DirectoryLinks Fs.FailedCalls Fs.FileCalls Fs.InodeNumbers Fs.InodeTree
open Fs.LinkCounts Fs.MountSteps Fs.NewDirectories Fs.PathLookup Fs.Ramfs Fs.Vfs Fs.VfsSteps
open Lib.Commands Lib.ObjectStore Lib.RefCounts Lib.Transition Libc.Strings List

variable {machine : Machine} {devices : Devices} {fs changed : Mount} {world : World}

/-! ## Leaves and objects -/

/-- The object of `theInvalidInode`, which slot 0 of the table holds. -/
def theInvalidInode : Nat := 0

/--
The leaves of the table, other than the one in slot 0, are inodes that are
allocated; no inode was freed twice, and `theInvalidInode` was not freed.
-/
structure LifetimesSound (fs : Mount) : Prop where
  leaves :
    ∀ pointer, LeafOf pointer fs.tree → pointer ≠ .leaf theInvalidInode →
      ∃ idata, pointer = .leaf idata ∧ fs.inodes.Live idata
  once : ∀ idata, fs.inodes.frees idata ≤ 1
  invalid : fs.inodes.frees theInvalidInode = 0

/-- No inode was freed. -/
def NoneFreed (fs : Mount) : Prop := ∀ idata, fs.inodes.frees idata = 0

theorem lifetimesSound_of_noneFreed (flat : FlatMount fs) (noneFreed : NoneFreed fs) :
    LifetimesSound fs where
  leaves := by
    intro pointer leafOf _
    rw [flat.tree] at leafOf
    cases leafOf with
    | here member present =>
      rcases mem_append.mp member with inLeaves | isNull
      · obtain ⟨idata, inside, equal⟩ := mem_map.mp inLeaves
        exact ⟨idata, equal.symm, mem_range.mp inside, noneFreed idata⟩
      · exact absurd (eq_of_mem_replicate isNull) present
  once := fun idata => noneFreed idata ▸ Nat.zero_le 1
  invalid := noneFreed theInvalidInode

theorem NoneFreed.quiet (noneFreed : NoneFreed fs) (step : Quiet fs changed) :
    NoneFreed changed := by
  intro idata
  cases step with
  | inodeNew => exact Store.frees_add.trans (noneFreed idata)
  | edit | attach => exact Store.frees_change.trans (noneFreed idata)
  | kmalloc | memory | directoryNew | insert | delete => exact noneFreed idata

theorem NoneFreed.quietly (noneFreed : NoneFreed fs) (quiet : Quietly fs changed) :
    NoneFreed changed := by
  induction quiet with
  | refl => exact noneFreed
  | tail _ step ih => exact ih.quiet step

/-- The root is a directory, and something is linked to it. -/
def RootLinked (fs : Mount) : Prop :=
  ∃ inode, fs.inodes.read fs.rootIno = some inode ∧ IsDir inode.mode ∧ 0 < inode.nlinks

section RootLinked

variable (rootLinked : RootLinked fs)

include rootLinked

theorem RootLinked.untouched (same : Untouched fs changed) : RootLinked changed := by
  rw [same]
  exact rootLinked

theorem RootLinked.add {node : Inode} (root : changed.rootIno = fs.rootIno)
    (inodes : changed.inodes = fs.inodes.add node) : RootLinked changed := by
  obtain ⟨inode, reading, facts⟩ := rootLinked
  refine ⟨inode, ?_, facts⟩
  rw [root, inodes]
  exact Store.read_add_of_read reading

/-- An edit that drops no link of a directory. -/
theorem RootLinked.change {idata : Nat} (edit : Inode → Inode)
    (keeps :
      ∀ inode, fs.inodes.read idata = some inode → IsDir inode.mode →
        (edit inode).mode = inode.mode ∧ inode.nlinks ≤ (edit inode).nlinks)
    (root : changed.rootIno = fs.rootIno) (inodes : changed.inodes = fs.inodes.change idata edit) :
    RootLinked changed := by
  obtain ⟨inode, reading, isDir, positive⟩ := rootLinked
  unfold RootLinked
  rw [root, inodes, Store.read_change, reading]
  split
  · rename_i isRoot
    rw [isRoot] at reading
    obtain ⟨mode, atLeast⟩ := keeps inode reading isDir
    refine ⟨edit inode, rfl, ?_, lt_of_lt_of_le positive atLeast⟩
    rwa [mode]
  · exact ⟨inode, rfl, isDir, positive⟩

theorem RootLinked.linked {ino dirino : Nat} {name : CString}
    (link : Linked fs ino dirino name changed) : RootLinked changed := by
  cases link with
  | intro dirFound isDir dirData found reading inserted =>
    exact rootLinked.change addLink (fun _ _ _ => ⟨rfl, Nat.le_succ _⟩) rfl rfl

theorem RootLinked.removed {dir namelen : Nat} {basename : CString}
    (removed : Removed fs dir basename namelen changed) : RootLinked changed := by
  cases removed with
  | @intro ino idata inode table shrunk reading searched found notDir deleted =>
    have target := read_of_idataByInode found
    have dropped : RootLinked (entryDropped fs dir shrunk idata) := by
      refine rootLinked.change dropLink ?_ rfl rfl
      intro other otherReading isDir
      cases target.symm.trans otherReading
      exact absurd isDir notDir
    split
    · exact dropped
    · obtain ⟨root, rootReading, facts⟩ := dropped
      exact ⟨root, Store.read_free.trans rootReading, facts⟩

theorem RootLinked.done {node : Inode} {path : CString} {middle : Mount} {mode : UInt32}
    (fresh : FreshNode node fs.inodes.count mode)
    (entries :
      EntriesMade machine path fs.inodes.count fs.directories.count
        fs.inodes.count (making fs node) middle) :
    RootLinked (attached middle fs.inodes.count fs.directories.count) := by
  obtain ⟨quiet, inodes⟩ := entriesMade_quietly making_inode fresh.ino.symm entries
  have root := (keepsTypes_of_eventually (Quietly.eventually quiet)).root
  have made : RootLinked (making fs node) := rootLinked.add rfl rfl
  have entered : RootLinked middle :=
    made.change addLink (fun _ _ _ => ⟨rfl, Nat.le_succ _⟩) root inodes
  exact entered.change (fun inode => addLink (setData fs.directories.count inode))
    (fun _ _ _ => ⟨rfl, Nat.le_succ _⟩) rfl rfl

end RootLinked

/-! ## What a path leads to is in use -/

/-- An inode without links and openings, which `vfs_inode_set` frees. -/
def Unused (fs : Mount) (ino : Nat) : Prop :=
  ∃ idata inode,
    idataByInode fs ino = some (some (idata, inode)) ∧ inode.nlinks = 0 ∧ inode.nfds = 0

variable {ino : Nat}

theorem unchanged_of_setBack (setBack : SetBack ino fs changed) (inUse : ¬ Unused fs ino) :
    changed = fs := by
  rcases setBack with unchanged | ⟨idata, inode, found, links, fds, _⟩
  · exact unchanged
  · exact absurd ⟨idata, inode, found, links, fds⟩ inUse

/--
Nothing was freed, the counters are at least the number of entries, and the
root is linked.
-/
structure LifetimeInvariant (fs : Mount) : Prop where
  noneFreed : NoneFreed fs
  names : NameInvariant (· ≤ ·) fs
  root : RootLinked fs

variable {path : CString} {mode : UInt32}

/-- An unlink takes the last link of an inode that is not open. -/
def LastLink (fs : Mount) (path : CString) : Prop :=
  ∃ fspath dir basename namelen table ino idata inode,
    mountnodeByPath path = .ok fspath ∧ UnlinkTarget fs fspath sizeMax dir basename namelen ∧
      fs.directories.read dir = some table ∧ directorySearch table basename namelen = .ok ino ∧
      idataByInode fs ino = some (some (idata, inode)) ∧ ¬ IsDir inode.mode ∧
      inode.nlinks = 1 ∧ inode.nfds = 0

/-- A directory is made, or the call ends before it makes an inode. -/
def MkdirCompletes (machine : Machine) (fs : Mount) (path : CString) (mode : UInt32) : Prop :=
  ¬ MakesInode machine fs (.mkdir path mode) ∨
    (fs.inodes.count < 64 ∧ ¬ LeavesTrace machine fs (.mkdir path mode))

/-- No file is created, or its inode has room in the table. -/
def OpenFits (fs : Mount) (flags : UInt32) : Prop := flags &&& oCreat = 0 ∨ fs.inodes.count < 64

theorem vfsMknod_count {dev : UInt64} : Ensures (vfsMknod machine path mode dev) fs fun _ changed =>
      changed.inodes.count ≤ fs.inodes.count + 1 := by
  refine vfsMknod_spec.mono ?_
  intro outcome changed returned
  rcases returned with
    ⟨_, _, untouched, _⟩ | ⟨_, _, _, _, made, _, _, grown, _, linking⟩
  · rw [untouched]
    exact Nat.le_succ _
  · have count : made.inodes.count = fs.inodes.count + 1 := by
      cases grown
      exact Store.count_add
    cases outcome with
    | error error =>
      rw [linking.1]
      exact le_of_eq count
    | ok done =>
      cases linking
      rw [Store.count_change]
      exact le_of_eq count

section Kept

variable (invariant : LifetimeInvariant fs)

include invariant

theorem LifetimeInvariant.not_unused (looked : Looked fs path ino) : ¬ Unused fs ino := by
  rintro ⟨idata, inode, found, noLinks, _⟩
  have linked := invariant.names.linked
  obtain ⟨rfl, reading⟩ := linked.numbered.read_of_found found
  obtain ⟨fspath, _, ends⟩ := looked
  have positive : 0 < inode.nlinks := by
    rcases lookupInode_ends linked.dataAll ends with
      rfl | ⟨dir, live, table, tableReading, member⟩
    · obtain ⟨rootInode, rootReading, _, counts⟩ := invariant.root
      cases rootReading.symm.trans reading
      exact counts
    · exact linked.counted.counter_pos tracks_le live tableReading
        (entryRefs_pos_iff.mpr member) reading
  exact ne_of_gt positive noLinks

theorem LifetimeInvariant.untouched (same : Untouched fs changed) : LifetimeInvariant changed :=
  ⟨invariant.noneFreed.quietly same.quietly,
    invariant.names.untouched same, invariant.root.untouched same⟩

theorem vfsHardlink_lifetimes {path newpath : CString} :
    Ensures (vfsHardlink machine path newpath) fs fun _ changed =>
      LifetimeInvariant changed := by
  refine ⟨fun outcome changed returned => ?_⟩
  have ended := vfsHardlink_spec.returns _ _ returned
  refine ⟨invariant.noneFreed.quietly (vfsHardlink_quietly.returns _ _ returned),
    (vfsHardlink_keeps tracks_le invariant.names).returns _ _ returned, ?_⟩
  cases outcome with
  | error error => exact invariant.root.untouched ended
  | ok done =>
    obtain ⟨_, _, _, _, link⟩ := ended
    exact invariant.root.linked link

theorem vfsMknod_lifetimes {dev : UInt64}
    (fits : ¬ MakesInode machine fs (.mknod path mode dev) ∨ fs.inodes.count < 64) :
    Ensures (vfsMknod machine path mode dev) fs fun _ changed =>
      LifetimeInvariant changed := by
  refine ⟨fun outcome changed returned => ?_⟩
  rcases vfsMknod_spec.returns _ _ returned with
    ⟨_, _, untouched, _⟩ | ⟨_, _, _, _, made, parent, _, grown, _, linking⟩
  · exact invariant.untouched untouched
  · have room : fs.inodes.count < 64 := by
      rcases fits with makesNone | room
      · cases grown with
        | intro granted inserted => exact absurd ⟨granted, _, _, _, parent⟩ makesNone
      · exact room
    have flat := le_trans (vfsMknod_count.returns _ _ returned) room
    have madeRoot : RootLinked made := by
      cases grown
      exact invariant.root.add rfl rfl
    refine ⟨invariant.noneFreed.quietly (vfsMknod_quietly.returns _ _ returned),
      (vfsMknod_keeps tracks_le invariant.names).returns _ _ returned flat, ?_⟩
    cases outcome with
    | error error => exact madeRoot.untouched linking.1
    | ok done => exact madeRoot.linked linking

theorem vfsUnlink_lifetimes (path : Path) (further : ¬ LastLink fs path.chars) :
    Ensures (vfsUnlink path.chars) fs fun _ changed =>
      LifetimeInvariant changed := by
  refine ⟨fun outcome changed returned => ?_⟩
  have ended := vfsUnlink_spec.returns _ _ returned
  cases outcome with
  | error error =>
    have unchanged : changed = fs := ended
    rw [unchanged]
    exact invariant
  | ok done =>
    obtain ⟨fspath, dir, basename, namelen, mount, target, removed⟩ := ended
    refine ⟨?_, (vfsUnlink_keeps tracks_le invariant.names path).returns _ _ returned,
      invariant.root.removed removed⟩
    cases removed with
    | intro reading searched found notDir deleted =>
      split
      · exact invariant.noneFreed.quietly (entryDropped_quietly reading deleted _)
      · rename_i unused
        refine absurd
          ⟨fspath, dir, basename, namelen, _, _, _, _, mount, target,
            reading, searched, found, notDir, ?_, ?_⟩ further
        · simp only [dropLink] at unused
          split at unused <;> omega
        · simp only [dropLink] at unused
          omega

theorem vfsMkdir_lifetimes (completes : MkdirCompletes machine fs path mode) :
    Ensures (vfsMkdir machine path mode) fs fun _ changed =>
      LifetimeInvariant changed := by
  rcases completes with makesNone | ⟨room, traceless⟩
  · refine vfsMkdir_spec.mono ?_
    intro outcome changed returned
    rcases returned with
      ⟨_, _, untouched, _⟩ | ⟨fspath, _, _, _, mount, grown, _⟩
    · exact invariant.untouched untouched
    · cases grown with
      | intro granted inserted => exact absurd ⟨granted, fspath, mount⟩ makesNone
  · have numbered := invariant.names.linked.numbered
    refine (vfsMkdir_flat numbered room).mono ?_
    intro outcome changed returned
    rcases returned with
      ⟨_, _, untouched, _⟩ |
      ⟨fspath, directoryMode, result, mount, granted, ended, _⟩
    · exact invariant.untouched untouched
    · cases result with
      | error error =>
        exact absurd ⟨granted, fspath, mount, mkdirFault_of_end numbered room ended⟩ traceless
      | ok number =>
        have fresh := newInode_freshNode fs.inodes.count directoryMode
        cases ended with
        | done entries =>
          have quiet := done_quietly numbered room fresh entries
          refine ⟨invariant.noneFreed.quietly quiet, ⟨?_, invariant.names.rooted.quietly quiet⟩,
            invariant.root.done fresh entries⟩
          exact invariant.names.linked.makeDirectory tracks_le room
            fresh (Or.inl fun _ _ => Nat.le_succ_of_le) entries

theorem openFailed_lifetimes {flags : UInt32} (fits : OpenFits fs flags)
    (failed : OpenFailed machine path flags fs changed) : LifetimeInvariant changed := by
  rcases failed with rfl | ⟨creating, _, _, made⟩
  · exact invariant
  · have room := fits.resolve_left creating
    exact (vfsMknod_lifetimes invariant (Or.inr room)).returns _ _ made

end Kept

theorem sysOpen_lifetimes (invariant : LifetimeInvariant world.fs) {pid : Nat} {flags : UInt32}
    (fits : OpenFits world.fs flags) :
    Ensures (sysOpen machine devices pid path flags) world
      fun _ changed => LifetimeInvariant changed.fs := by
  refine sysOpen_spec.cases (fun _ _ failed => openFailed_lifetimes invariant fits failed.1) ?_
  rintro _ changed ⟨_, ino, middle, _, located, opened⟩
  have kept := openFailed_lifetimes invariant fits located.openFailed
  have used : ¬ Unused middle ino := by
    cases located with
    | found looked => exact kept.not_unused looked
    | created creating missing made looked => exact kept.not_unused looked
  rw [unchanged_of_setBack opened.setBack used]
  exact kept

/-- A close of a slot whose inode has neither links nor openings. -/
def ClosesUnused (world : World) (pid : Nat) (fd : Int) : Prop :=
  ∃ slot process,
    filedescrForPid fd = some slot ∧ world.processes[pid]? = some process ∧
      Unused world.fs (process.fds slot).ino

/-! ## Runs -/

/-- The calls whose runs are considered. -/
def LifetimeCall (_ : World) : Call → Prop
  | .mkdir .. | .mknod .. | .hardlink .. | .unlink .. | .openFile ..
  | .close .. => True
  | .rename .. | .read .. | .write .. => False

/-- One of these calls, in a world in which it frees no inode. -/
def FreesNothing (machine : Machine) (world : World) : Call → Prop
  | .mkdir path mode => MkdirCompletes machine world.fs path.chars mode
  | .mknod path mode dev =>
    ¬ MakesInode machine world.fs (.mknod path.chars mode dev) ∨ world.fs.inodes.count < 64
  | .hardlink .. => True
  | .unlink path => ¬ LastLink world.fs path.chars
  | .openFile _ _ flags => OpenFits world.fs flags
  | .close pid fd => ¬ ClosesUnused world pid fd
  | .rename .. | .read .. | .write .. => False

def LifetimesKept (world : World) : Prop := LifetimeInvariant world.fs

theorem lifetimesKept_start (started : (kernel machine devices).start world) :
    LifetimesKept world := by
  obtain ⟨⟨memory, mounted⟩, _⟩ := started
  obtain ⟨linked, rooted⟩ := mounted_linkedMount tracks_le mounted
  obtain ⟨middle, entries, isMounted⟩ := readSuperblock_spec.returns _ _ mounted.run rfl
  have base : NoneFreed (dataMount memory) := fun _ => Store.frees_add
  have noneFreed := base.quietly (mounted_quietly entries).1
  refine ⟨?_, ⟨linked, rooted⟩, ?_⟩
  · rw [isMounted]
    exact noneFreed
  · have inodes := (entriesMade_quietly (rootMaking_target memory) rfl entries).2
    rw [isMounted]
    refine ⟨addLink (setData 0 (addLink (newInode 1 rootMode))), ?_, by decide, by decide⟩
    simp only [attached, inodes, Store.read_change, if_true, rootMaking_target, Option.map_some]

theorem lifetimesKept_step {source target : World} {call : Call} (invariant : LifetimesKept source)
    (permitted : FreesNothing machine source call)
    (taken : (kernel machine devices).step source call target) : LifetimesKept target := by
  obtain ⟨outcome, returned⟩ := taken
  cases call with
  | mkdir path mode =>
    exact (vfsMkdir_lifetimes invariant permitted).returns _ _ (run_of_onMount returned)
  | mknod path mode dev =>
    exact (vfsMknod_lifetimes invariant permitted).returns _ _ (run_of_onMount returned)
  | hardlink path newpath =>
    exact (vfsHardlink_lifetimes invariant).returns _ _ (run_of_onMount returned)
  | unlink path =>
    exact (vfsUnlink_lifetimes invariant path permitted).returns _ _ (run_of_onMount returned)
  | openFile pid path flags =>
    exact (ensures_dropValue (sysOpen_lifetimes invariant permitted)).returns _ _ returned
  | close pid fd =>
    obtain ⟨_, unchanged | ⟨slot, process, found, running, setBack⟩⟩ :=
      sysClose_spec.returns _ _ returned
    · rw [LifetimesKept, unchanged]
      exact invariant
    · rw [LifetimesKept,
        unchanged_of_setBack setBack fun unused => permitted ⟨slot, process, found, running, unused⟩]
      exact invariant
  | rename | read | write => exact permitted.elim

/--
In every run whose calls free no inode, the leaves of the table are inodes
that are allocated.
-/
theorem inode_lifetimes_sound {machine : Machine} {devices : Devices} {world : World}
    (reached : (kernel machine devices).Reached (FreesNothing machine) world) :
    LifetimesSound world.fs := by
  have invariant : LifetimesKept world := by
    refine System.Reached.invariant ?_ ?_ reached
    · exact fun _ => lifetimesKept_start
    · exact fun _ _ _ => lifetimesKept_step
  exact lifetimesSound_of_noneFreed invariant.names.linked.numbered.flat invariant.noneFreed

/-- A file that is made, opened and linked under a second name. -/
def linkedFile : List Call :=
  [.mknod pathA sIfreg 0, .openFile 0 pathA oRdwr, .hardlink pathA pathB]

theorem inode_lifetimes_sound_sample :
    ∃ world,
      (kernel generous noDevices).Reached (FreesNothing generous) world ∧
        LifetimesSound world.fs := by
  obtain ⟨world, reached, _⟩ : ∃ world,
      (kernel generous noDevices).Reached (FreesNothing generous) world ∧
        world.fs.inodes.count ≤ 64 := by
    refine exists_sampleRun linkedFile ?_ (by decide +kernel)
    intro call member world room
    simp only [linkedFile, mem_cons, not_mem_nil, or_false] at member
    rcases member with rfl | rfl | rfl
    · exact Or.inr room
    · exact Or.inr room
    · trivial
  exact ⟨world, reached, inode_lifetimes_sound reached⟩

/-- A slot of a flat table still leads to an inode that was freed. -/
def dangling (fs : Mount) (ino : Nat) : Bool := match fs.tree with
  | .node 0 _ children =>
    match children[ino]? with
    | some (.leaf idata) => idata != theInvalidInode && fs.inodes.frees idata != 0
    | _ => false
  | _ => false

theorem leafOf_of_dangling (dangles : dangling fs ino = true) :
    ∃ idata, LeafOf (.leaf idata) fs.tree ∧ idata ≠ theInvalidInode ∧ ¬ fs.inodes.Live idata := by
  unfold dangling at dangles
  split at dangles
  · rename_i used children isFlat
    split at dangles
    · rename_i idata found
      simp only [Bool.and_eq_true, bne_iff_ne] at dangles
      rw [isFlat]
      refine ⟨idata, .here (mem_of_getElem? found) ?_, dangles.1, fun live => dangles.2 live.2⟩
      intro isNull
      cases isNull
    · cases dangles
  · cases dangles

/-- A file that is created, closed three times and unlinked. -/
def closedTooOften : List Call :=
  [.openFile 0 pathA (oRdwr ||| oCreat), .close 0 0, .close 0 0, .close 0 0, .unlink pathA]

/--
The slot of an unlinked file still leads to its inode, and two closes of a
descriptor that is not open have freed `theInvalidInode` twice.
-/
theorem inode_lifetimes_not_sound :
    ∃ (machine : Machine) (devices : Devices) (world : World),
      (kernel machine devices).Reached LifetimeCall world ∧
        (∃ idata,
          LeafOf (.leaf idata) world.fs.tree ∧ idata ≠ theInvalidInode ∧
            ¬ world.fs.inodes.Live idata) ∧ world.fs.inodes.frees theInvalidInode = 2 ∧
        ¬ LifetimesSound world.fs := by
  obtain ⟨world, reached, dangles, freedTwice⟩ : ∃ world,
      (kernel generous noDevices).Reached LifetimeCall world ∧
        dangling world.fs 2 = true ∧ world.fs.inodes.frees theInvalidInode = 2 :=
    exists_sampleRun closedTooOften (by simp [closedTooOften, LifetimeCall]) (by decide +kernel)
  refine ⟨generous, noDevices, world, reached, leafOf_of_dangling dangles, freedTwice, ?_⟩
  intro sound
  rw [sound.invalid] at freedTwice
  cases freedTwice

end Cosec.Fs.InodeLifetimes
