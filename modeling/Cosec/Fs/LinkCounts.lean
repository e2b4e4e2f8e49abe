import Cosec.Fs.DirectoryLinks
import Cosec.Fs.NewDirectories

/-!
# Link counters over runs

`i_nlinks` is exact when it is the number of entries that lead to an inode.
Every namespace operation keeps it exact, with one exception:
`ramfs_make_directory` counts the link of the entry in the parent even when
that entry was refused because the name is taken.
-/

namespace Cosec.Fs.LinkCounts

open Fs.CallRuns Fs.DirectoryLinks Fs.FileCalls Fs.InodeNumbers Fs.MountSteps Fs.NewDirectories
open Fs.PathLookup Fs.Ramfs Fs.Vfs Fs.VfsSteps Lib.Commands Lib.ObjectStore Lib.RefCounts
open Lib.Transition Libc.ErrorNumbers Libc.Strings List

variable {machine : Machine} {devices : Devices} {fs changed : Mount} {related : Nat → Nat → Prop}
  {path : CString} {mode : UInt32}

/-! ## Exact counters -/

/--
Every entry leads to an inode that was never freed, and the counter of every
such inode is the number of the entries that lead to it.
-/
structure LinkCountsExact (fs : Mount) : Prop where
  resolves :
    ∀ dir table bucket de, fs.directories.Live dir →
      fs.directories.read dir = some table → de ∈ table.ht bucket →
      ∃ idata inode, idataByInode fs de.ino = some (some (idata, inode)) ∧ fs.inodes.Live idata
  counted :
    ∀ ino idata inode, idataByInode fs ino = some (some (idata, inode)) →
      fs.inodes.Live idata → inode.nlinks = entryCount fs ino

theorem linkCountsExact_of_linkedMount (linked : LinkedMount (· = ·) fs) : LinkCountsExact fs where
  resolves := by
    intro dir table bucket de live reading member
    have entry : EntryIn fs dir de.ino := ⟨table, reading, bucket, de, member, rfl⟩
    have targetLive := linked.live_of_entryIn live entry
    obtain ⟨inode, _, found⟩ := linked.numbered.found_of_lt targetLive.1
    exact ⟨de.ino, inode, found, targetLive⟩
  counted := by
    intro ino idata inode found live
    obtain ⟨rfl, reading⟩ := linked.numbered.read_of_found found
    exact (linked.counted.balance idata inode live reading).symm

/-! ## Namespace operations -/

/-- What the operations on names keep. -/
structure NameInvariant (related : Nat → Nat → Prop) (fs : Mount) : Prop where
  linked : LinkedMount related fs
  rooted : Rooted fs

theorem NameInvariant.untouched
    (invariant : NameInvariant related fs) (same : Untouched fs changed) :
    NameInvariant related changed :=
  ⟨same ▸ invariant.linked.kmalloc _, invariant.rooted.quietly same.quietly⟩

section Tracked

variable (tracks : Tracks related) (invariant : NameInvariant related fs)

include tracks invariant

theorem vfsHardlink_keeps {path newpath : CString} :
    Ensures (vfsHardlink machine path newpath) fs fun _ changed =>
      NameInvariant related changed := by
  refine vfsHardlink_spec.cases (fun _ _ => invariant.untouched) ?_
  rintro _ _ ⟨ino, dirino, name, target, link⟩
  obtain ⟨fspath, _, looked⟩ := target.source
  have live : fs.inodes.Live ino := by
    rcases lookupInode_ends invariant.linked.dataAll looked with rfl | ⟨dir, live, entry⟩
    · exact invariant.rooted.live
    · exact invariant.linked.live_of_entryIn live entry
  exact ⟨invariant.linked.linkInode tracks live link,
    invariant.rooted.quietly (linked_quietly link)⟩

theorem vfsUnlink_keeps (path : Path) :
    Ensures (vfsUnlink path.chars) fs fun _ changed =>
      NameInvariant related changed := by
  refine vfsUnlink_spec.cases (fun _ _ unchanged => unchanged ▸ invariant) ?_
  rintro _ _ ⟨fspath, dir, basename, namelen, mount, target, removed⟩
  have bounded : fspath.length < sizeMax :=
    lt_trans (mountnodeByPath_length mount) path.bounded
  obtain ⟨short, inMemory⟩ := unlinkTarget_length_lt target bounded
  obtain ⟨_, _, _, _, found, _, hasData⟩ := target.parent
  have live := invariant.linked.dataAll _ _ _ _ found hasData
  exact ⟨invariant.linked.remove tracks live short inMemory removed,
    invariant.rooted.removed invariant.linked.numbered removed⟩

theorem vfsRename_keeps (oldpath newpath : Path) :
    Ensures (vfsRename machine oldpath.chars newpath.chars) fs
      fun _ changed => NameInvariant related changed := by
  refine (vfsHardlink_keeps tracks invariant).bind (fun _ _ linked => linked) ?_
  exact fun _ _ linked => vfsUnlink_keeps tracks linked oldpath

theorem vfsMknod_keeps {dev : UInt64} :
    Ensures (vfsMknod machine path mode dev) fs fun _ changed =>
      changed.inodes.count ≤ 64 → NameInvariant related changed := by
  refine vfsMknod_spec.mono ?_
  intro outcome changed returned fits
  rcases returned with
    ⟨_, _, untouched, _⟩ | ⟨_, _, _, ino, made, _, fresh, grown, _, linking⟩
  · exact invariant.untouched untouched
  · have madeQuiet := grown_quietly grown fresh
    have later : made.inodes.count ≤ changed.inodes.count := by
      cases outcome with
      | error error => exact (count_le_of_quietly linking.1.quietly).1
      | ok done => exact (count_le_of_quietly (linked_quietly linking)).1
    have room : fs.inodes.count < 64 := by
      cases grown
      simp only [Store.count_add] at later
      omega
    obtain ⟨number, rfl⟩ := grown_flat invariant.linked.numbered.flat room grown
    obtain rfl : ino = fs.inodes.count := fresh.ino.symm.trans number
    have madeInvariant :=
      NameInvariant.mk (invariant.linked.inodeNew tracks room fresh (fs.kmallocs + 1))
        (invariant.rooted.quietly madeQuiet)
    cases outcome with
    | error error => exact madeInvariant.untouched linking.1
    | ok done =>
      exact ⟨madeInvariant.linked.linkInode tracks (Store.live_add_iff.mpr (Or.inr rfl)) linking,
        madeInvariant.rooted.quietly (linked_quietly linking)⟩

end Tracked

/-- The name of a new directory is taken in its parent. -/
def NameTaken (fs : Mount) (path : CString) : Prop :=
  path ≠ [] ∧
    ∃ dir table,
      ParentOf fs path (some dir) ∧ fs.directories.read dir = some table ∧
        HasName table (newName path)

section

variable (granting : ∀ call, machine.grants call = true)

include granting

theorem mkdirEnd_keeps (invariant : NameInvariant (· = ·) fs)
    (room : fs.inodes.count < 64) {result : Except Errno Nat} (free : ¬ NameTaken fs path)
    (ended : MkdirEnd machine fs (newInode fs.inodes.count mode) path result changed) :
    NameInvariant (· = ·) changed := by
  have numbered := invariant.linked.numbered
  have fresh := newInode_freshNode fs.inodes.count mode
  cases ended with
  | noDirectory refused untouched => exact absurd refused (not_pairRefused granting _)
  | noEntry root refused untouched => exact absurd refused (not_pairRefused granting _)
  | noDot entered refused untouched reading => exact absurd refused (not_pairRefused granting _)
  | noParent below fault =>
    refine ⟨invariant.linked.abandon tracks_eq room fresh _, ?_⟩
    have made := invariant.rooted.quietly (making_quietly numbered room fresh)
    exact made.eventually (abandoned_eventually _ _ _ _)
      (Store.live_free_iff.mpr ⟨made.live, ne_of_lt numbered.root⟩)
  | done entries =>
    refine ⟨invariant.linked.makeDirectory tracks_eq room fresh (Or.inr ?_) entries, ?_⟩
    · have agrees := agrees_making numbered room (newInode fs.inodes.count mode)
      intro data below parentOf refused
      have parentBefore := (agrees.parentOf_iff numbered).mp parentOf
      refine not_pairRefused granting _ (pairRefused_of_entryRefused refused ?_)
      rintro id table rfl reading taken
      have same := agrees.directory id (lt_of_parentOf numbered parentBefore)
      exact free ⟨below, id, table, parentBefore, same.symm.trans reading, taken⟩
    · exact invariant.rooted.quietly (done_quietly numbered room fresh entries)

theorem vfsMkdir_keeps (invariant : NameInvariant (· = ·) fs)
    (free : ∀ fspath, mountnodeByPath path = .ok fspath → ¬ NameTaken fs fspath) :
    Ensures (vfsMkdir machine path mode) fs fun _ changed =>
      changed.inodes.count ≤ 64 → NameInvariant (· = ·) changed := by
  by_cases room : fs.inodes.count < 64
  · refine (vfsMkdir_flat invariant.linked.numbered room).mono ?_
    intro outcome changed returned _
    rcases returned with
      ⟨_, _, untouched, _⟩ | ⟨fspath, _, result, mount, _, ended, _⟩
    · exact invariant.untouched untouched
    · exact mkdirEnd_keeps granting invariant room (free fspath mount) ended
  · refine vfsMkdir_spec.mono ?_
    intro outcome changed returned fits
    rcases returned with
      ⟨_, _, untouched, _⟩ | ⟨_, _, made, _, _, grown, populated, _⟩
    · exact invariant.untouched untouched
    · have later := count_le_of_eventually (populated_eventually populated)
      cases grown
      simp only [Store.count_add] at later
      omega

end

/-! ## Runs of namespace operations -/

/-- A namespace operation, on any paths. -/
def NameCall (_ : World) : Call → Prop
  | .mkdir .. | .mknod .. | .hardlink .. | .unlink .. | .rename .. => True
  | .openFile .. | .close .. | .read .. | .write .. => False

/--
A namespace operation that does not make a directory under a name that its
parent already has.
-/
def NameCallApart (world : World) : Call → Prop
  | .mkdir path _ => ∀ fspath, mountnodeByPath path.chars = .ok fspath → ¬ NameTaken world.fs fspath
  | call => NameCall world call

/-- The invariant of the runs, as long as the table has not grown. -/
def ExactWhileFlat (world : World) : Prop :=
  world.fs.inodes.count ≤ 64 → NameInvariant (· = ·) world.fs

theorem exactWhileFlat_step
    (granting : ∀ call, machine.grants call = true) {source target : World} {call : Call}
    (exact_ : ExactWhileFlat source) (permitted : NameCallApart source call)
    (taken : (kernel machine devices).step source call target) : ExactWhileFlat target := by
  obtain ⟨outcome, returned⟩ := taken
  intro fits
  have smaller : source.fs.inodes.count ≤ 64 :=
    le_trans (count_le_of_eventually (callOf_eventually.returns _ _ returned)) fits
  have invariant := exact_ smaller
  cases call with
  | mkdir path mode =>
    exact (vfsMkdir_keeps granting invariant permitted).returns _ _ (run_of_onMount returned) fits
  | mknod path mode dev =>
    exact (vfsMknod_keeps tracks_eq invariant).returns _ _ (run_of_onMount returned) fits
  | hardlink path newpath =>
    exact (vfsHardlink_keeps tracks_eq invariant).returns _ _ (run_of_onMount returned)
  | unlink path =>
    exact (vfsUnlink_keeps tracks_eq invariant path).returns _ _ (run_of_onMount returned)
  | rename oldpath newpath =>
    exact (vfsRename_keeps tracks_eq invariant oldpath newpath).returns
      _ _ (run_of_onMount returned)
  | openFile | close | read | write => exact permitted.elim

/--
In every run of namespace operations that never makes a directory under a
taken name, with memory and with a table that has not grown, the link
counters are exact.
-/
theorem link_counts_exact {machine : Machine} {devices : Devices} {world : World}
    (granting : ∀ call, machine.grants call = true)
    (reached : (kernel machine devices).Reached NameCallApart world)
    (fits : world.fs.inodes.count ≤ 64) : LinkCountsExact world.fs := by
  have invariant : ExactWhileFlat world := by
    refine System.Reached.invariant ?_ ?_ reached
    · rintro world ⟨⟨memory, mounted⟩, _⟩ _
      obtain ⟨linked, rooted⟩ := mounted_linkedMount tracks_eq mounted
      exact ⟨linked, rooted⟩
    · intro source call target earlier permitted taken
      exact exactWhileFlat_step granting earlier permitted taken
  exact linkCountsExact_of_linkedMount (invariant fits).linked

/-- A file that is made, linked under a second name and unlinked. -/
def linkedTwice : List Call := [.mknod pathA sIfreg 0, .hardlink pathA pathB, .unlink pathA]

theorem link_counts_exact_sample :
    ∃ world,
      (∀ call, generous.grants call = true) ∧
        (kernel generous noDevices).Reached NameCallApart world ∧ world.fs.inodes.count ≤ 64 ∧
        LinkCountsExact world.fs := by
  obtain ⟨world, reached, fits⟩ : ∃ world,
      (kernel generous noDevices).Reached NameCallApart world ∧ world.fs.inodes.count ≤ 64 :=
    exists_sampleRun linkedTwice (by simp [linkedTwice, NameCallApart, NameCall]) (by decide +kernel)
  exact ⟨world, fun _ => rfl, reached, fits, link_counts_exact (fun _ => rfl) reached fits⟩

/-- An inode that was never freed has another counter than entries. -/
def miscounted (fs : Mount) (ino : Nat) : Bool := match idataByInode fs ino with
  | some (some (idata, inode)) => decide (fs.inodes.Live idata) && inode.nlinks != entryCount fs ino
  | _ => false

theorem not_exact_of_miscounted {ino : Nat} (wrong : miscounted fs ino = true) :
    ¬ LinkCountsExact fs := by
  intro exact_
  unfold miscounted at wrong
  split at wrong
  · rename_i idata inode found
    simp only [Bool.and_eq_true, decide_eq_true_eq, bne_iff_ne] at wrong
    exact wrong.2 (exact_.counted ino idata inode found wrong.1)
  · cases wrong

/-- Two directories under one name. -/
def madeTwice : List Call := [.mkdir pathA 0, .mkdir pathA 0]

/--
The second of two directories under one name counts two links, and the only
entry that leads to it is its own.
-/
theorem link_counts_not_exact :
    ∃ (machine : Machine) (devices : Devices) (world : World),
      (∀ call, machine.grants call = true) ∧ (kernel machine devices).Reached NameCall world ∧
        world.fs.inodes.count ≤ 64 ∧ ¬ LinkCountsExact world.fs := by
  obtain ⟨world, reached, fits, wrong⟩ : ∃ world,
      (kernel generous noDevices).Reached NameCall world ∧
        world.fs.inodes.count ≤ 64 ∧ miscounted world.fs 3 = true :=
    exists_sampleRun madeTwice (by simp [madeTwice, NameCall]) (by decide +kernel)
  exact ⟨generous, noDevices, world, fun _ => rfl, reached, fits, not_exact_of_miscounted wrong⟩

end Cosec.Fs.LinkCounts
