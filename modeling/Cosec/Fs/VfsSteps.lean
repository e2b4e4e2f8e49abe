import Cosec.Fs.MountSteps
import Cosec.Fs.Vfs

/-!
# What the operations of the virtual file system do

The first half splits the driver operations into elementary changes.  The
second half says what each operation of the virtual file system returns and
how it leaves the mount, in terms of the driver operations it calls.
-/

namespace Cosec.Fs.VfsSteps

open Fs.MountSteps Fs.Ramfs Fs.Vfs Lib.Commands Lib.ObjectStore Libc.ErrorNumbers Libc.Strings

variable {machine : Machine} {fs changed : Mount}

/-! ## Driver operations as elementary changes -/

variable {inode : Inode} {dir idata : Nat}

theorem entry_quietly {table grown : Directory} {de : Direntry}
    (reading : fs.directories.read dir = some table)
    (inserted : directoryInsert table de = .ok grown) (target : fs.inodes.read idata = some inode)
    (number : de.ino = inode.ino) (kmallocs : Nat) :
    Quietly fs
      { fs with
        directories := fs.directories.change dir fun _ => grown
        kmallocs := kmallocs } :=
  .tail (.single (.insert reading inserted target number)) (.kmalloc kmallocs)

variable {name : CString}

theorem linked_quietly {ino dirino : Nat} (linked : Linked fs ino dirino name changed) :
    Quietly fs changed := by
  cases linked with
  | intro dirFound isDir dirData found reading inserted =>
    exact .tail (entry_quietly reading inserted (read_of_idataByInode found) rfl _)
      (.edit _ addLink_keepsIdentity)

variable {mode : UInt32} {ino : Nat}

theorem grown_quietly
    {node : Inode} (grown : Grown machine fs node changed) (fresh : FreshNode node ino mode) :
    Quietly fs changed := by
  cases grown with
  | intro granted inserted =>
    rw [fresh.ino] at inserted
    exact .single (.inodeNew fresh inserted)

theorem entryDropped_quietly {namelen : Nat} {table shrunk : Directory}
    (reading : fs.directories.read dir = some table)
    (deleted : directoryDelete table name namelen = .ok shrunk) (idata : Nat) :
    Quietly fs (entryDropped fs dir shrunk idata) :=
  .tail (.single (.delete reading deleted)) (.edit _ dropLink_keepsIdentity)

theorem removed_eventually {namelen : Nat} {basename : CString}
    (removed : Removed fs dir basename namelen changed) : Eventually fs changed := by
  cases removed with
  | intro reading searched found notDir deleted =>
    have dropped (idata : Nat) := (entryDropped_quietly reading deleted idata).eventually
    split
    · exact dropped _
    · exact (dropped _).trans (freed_eventually _ _ _)

variable {path : CString}

section

variable (target : fs.inodes.read idata = some inode) (number : ino = inode.ino)

include target number

/-- The first entry of a new directory and its link. -/
theorem entered_quietly (entered : Entered machine path idata dir ino fs changed) :
    Quietly fs changed ∧ changed.inodes = fs.inodes.change idata addLink := by
  cases entered with
  | self root reading inserted =>
    exact ⟨.tail (entry_quietly reading inserted target number _)
      (.edit _ addLink_keepsIdentity), rfl⟩
  | parent below parentOf tried =>
    rcases tried with
      ⟨_, id, table, grown, _, reading, inserted, rfl⟩ | ⟨_, rfl⟩
    · exact ⟨.tail (entry_quietly reading inserted target number _)
        (.edit _ addLink_keepsIdentity), rfl⟩
    · exact ⟨.tail (.single (.kmalloc _)) (.edit _ addLink_keepsIdentity), rfl⟩

theorem entriesMade_quietly (made : EntriesMade machine path idata dir ino fs changed) :
    Quietly fs changed ∧ changed.inodes = fs.inodes.change idata addLink := by
  cases made with
  | intro entered reading inserted =>
    obtain ⟨quiet, inodes⟩ := entered_quietly target number entered
    have retarget : (fs.inodes.change idata addLink).read idata = some (addLink inode) := by
      rw [Store.read_change, if_pos rfl, target]
      rfl
    rw [← inodes] at retarget
    exact ⟨quiet.trans (entry_quietly reading inserted retarget number _), inodes⟩

theorem entriesStopped_quietly (stopped : EntriesStopped machine path idata dir ino fs changed) :
    Quietly fs changed := by
  cases stopped with
  | self root untouched refused => exact untouched.quietly
  | parent below fault => exact .refl
  | dot entered untouched refused =>
    exact (entered_quietly target number entered).1.trans untouched.quietly

end

theorem makeEntries_quietly :
    Ensures (makeEntries machine path idata dir) fs fun _ changed => Quietly fs changed := by
  refine makeEntries_spec.mono ?_
  rintro outcome changed ⟨inode, target, returned⟩
  match outcome, returned with
  | .error error, stopped => exact entriesStopped_quietly target rfl stopped
  | .ok false, ⟨_, _, unchanged⟩ => rw [unchanged]
  | .ok true, made => exact (entriesMade_quietly target rfl made).1

theorem withDirectory_quietly (fs : Mount) : Quietly fs (withDirectory fs) :=
  .tail (.single .directoryNew) (.kmalloc _)

theorem abandoned_eventually (fs : Mount) (dir idata : Nat) (inode : Inode) :
    Eventually fs (abandoned fs dir idata inode) :=
  .trans (.single (Or.inr (.directory dir))) (freed_eventually _ _ _)

/-- The entries of a new directory are made without freeing anything. -/
theorem quietly_of_makeEntries {outcome : Except Errno Bool} {middle : Mount}
    (returned : makeEntries machine path idata dir (withDirectory fs) = some (outcome, middle)) :
    Quietly fs middle :=
  (withDirectory_quietly fs).trans (makeEntries_quietly.returns outcome middle returned)

theorem count_le_of_quiet (quiet : Quiet fs changed) :
    fs.inodes.count ≤ changed.inodes.count ∧ fs.directories.count ≤ changed.directories.count := by
  cases quiet with
  | inodeNew | directoryNew => simp
  | kmalloc | memory | insert | delete | edit | attach => simp

theorem count_le_of_quietly (quiet : Quietly fs changed) :
    fs.inodes.count ≤ changed.inodes.count ∧ fs.directories.count ≤ changed.directories.count := by
  induction quiet with
  | refl => exact ⟨le_rfl, le_rfl⟩
  | tail _ step ih =>
    have grows := count_le_of_quiet step
    omega

theorem attached_quietly (idata : Nat) (present : dir < fs.directories.count) :
    Quietly fs (attached fs idata dir) := by
  have linked :
      Quiet { fs with inodes := fs.inodes.change idata (setData dir) }
        { fs with
          inodes := (fs.inodes.change idata (setData dir)).change idata addLink } :=
    .edit idata addLink_keepsIdentity
  rw [Store.change_change] at linked
  exact .tail (.single (.attach idata present)) linked

theorem populated_eventually {made : Mount} {outcome : Except Errno Nat}
    (populated : Populated machine path idata made outcome changed) : Eventually made changed := by
  cases populated with
  | noMemory refused untouched reading =>
    exact untouched.quietly.eventually.trans (freed_eventually _ _ _)
  | stopped returned reading =>
    exact (quietly_of_makeEntries returned).eventually.trans (abandoned_eventually _ _ _ _)
  | lost returned reading =>
    exact (quietly_of_makeEntries returned).eventually.trans (abandoned_eventually _ _ _ _)
  | finished returned reading =>
    have entries := makeEntries_quietly.returns _ _ returned
    have present := (count_le_of_quietly entries).2
    simp only [withDirectory, Store.count_add] at present
    have quiet := (quietly_of_makeEntries returned).trans (attached_quietly idata present)
    exact Quietly.eventually quiet

/-! ## Operations on names -/

@[simp]
theorem ensures_fspathOf {post : Except Errno CString → Mount → Prop} :
    Ensures (fspathOf path) fs post ↔ post (mountnodeByPath path) fs :=
  ensures_of_eq rfl

theorem returns_fspathOf {outcome : Except Errno CString} (mount : mountnodeByPath path = outcome) :
    Returns (fspathOf path) fs outcome fs :=
  .consult (congrArg some mount)

theorem ensures_mounted {Value : Type} {next : CString → MountCommand Value}
    {post : Except Errno Value → Mount → Prop}
    (error : ∀ error, mountnodeByPath path = .error error → post (.error error) fs)
    (ok : ∀ fspath, mountnodeByPath path = .ok fspath → Ensures (next fspath) fs post) :
    Ensures (fspathOf path >>= next) fs post :=
  .consult (fun cause failed => error cause (Option.some.inj failed))
    fun fspath mounted => ok fspath (Option.some.inj mounted)

/-- The two lookups of a hard link. -/
structure HardlinkTarget
    (fs : Mount) (path newpath : CString) (ino dirino : Nat) (name : CString) : Prop where
  source :
    ∃ fspath, mountnodeByPath path = .ok fspath ∧ lookupInode fspath sizeMax fs = some (.ok ino)
  target :
    ∃ newFspath,
      mountnodeByPath newpath = .ok newFspath ∧
        lookupInode newFspath (pathDirnameLen newFspath sizeMax).toNat fs = some (.ok dirino) ∧
        name = (linkName newFspath (pathDirnameLen newFspath sizeMax)).take sizeMax

variable {newpath : CString}

theorem vfsHardlink_spec :
    Ensures (vfsHardlink machine path newpath) fs fun outcome changed =>
      match outcome with
      | .ok _ =>
        ∃ ino dirino name,
          HardlinkTarget fs path newpath ino dirino name ∧ Linked fs ino dirino name changed
      | .error _ => Untouched fs changed := by
  refine ensures_mounted (fun _ _ => rfl) fun fspath mount =>
    ensures_mounted (fun _ _ => rfl) fun newFspath newMount =>
      .consult (fun _ _ => rfl) fun ino looked => ?_
  rw [ensures_bind, ensures_failIf]
  refine ⟨fun _ => rfl, fun _ => .consult (fun _ _ => rfl) fun dirino dirLooked => ?_⟩
  refine linkInode_spec.cases (fun _ _ refused => refused.2.1) fun _ _ linked => ?_
  exact ⟨ino, dirino, _, ⟨⟨fspath, mount, looked⟩, ⟨newFspath, newMount, dirLooked, rfl⟩⟩, linked.2⟩

/-- What `vfs_mknod` checks before it makes an inode. -/
structure MknodParent
    (fs : Mount) (path : CString) (mode : UInt32) (dirino : Nat)
    (dirInode : Inode) (name : CString) : Prop where
  notDir : ¬ IsDir mode
  notLink : fileType mode ≠ sIflnk
  parent :
    ∃ fspath dirIdata,
      mountnodeByPath path = .ok fspath ∧
        lookupInode fspath (asSize (pathDirnameLen fspath sizeMax)) fs = some (.ok dirino) ∧
        idataByInode fs dirino = some (some (dirIdata, dirInode)) ∧
        name = (linkName fspath (pathDirnameLen fspath sizeMax)).take sizeMax
  isDir : IsDir dirInode.mode

/-- `vfs_mknod` ends before it makes an inode. -/
def MknodRefused (machine : Machine) (fs : Mount) (path : CString) (mode : UInt32) : Prop :=
  (∀ dirino dirInode name, ¬ MknodParent fs path mode dirino dirInode name) ∨
    machine.grants fs.kmallocs = false

/-- What `vfs_mknod` hands on of the device number. -/
def mknodInfo (mode : UInt32) (dev : UInt64) : UInt32 :=
  if IsDevice (nodeMode mode) then dev.toUInt32 else 0

variable {dev : UInt64}

/-- What `vfs_mknod` makes, and where. -/
theorem vfsMknod_spec : Ensures (vfsMknod machine path mode dev) fs fun outcome changed =>
      (∃ error, outcome = .error error ∧ Untouched fs changed ∧ MknodRefused machine fs path mode) ∨
      ∃ dirino dirInode name ino made, MknodParent fs path mode dirino dirInode name ∧
        FreshNode (madeNode ino (nodeMode mode) (mknodInfo mode dev)) ino (nodeMode mode) ∧
        Grown machine fs (madeNode ino (nodeMode mode) (mknodInfo mode dev)) made ∧
        name.length < 255 ∧ match outcome with
        | .ok _ => Linked made ino dirino name changed
        | .error _ =>
          Untouched made changed ∧ LinkRefused machine made ino dirino name := by
  unfold vfsMknod
  simp only [ensures_bind, ensures_failIf, continues_error, continues_ok]
  refine ⟨fun isDir => Or.inl ⟨_, rfl, rfl, Or.inl fun _ _ _ parent =>
      parent.notDir isDir⟩, fun notDir =>
    ⟨fun isLink => Or.inl ⟨_, rfl, rfl, Or.inl fun _ _ _ parent =>
      parent.notLink isLink⟩, fun notLink => ?_⟩⟩
  rw [← ensures_bind]
  refine ensures_mounted ?_ fun fspath mount => .consult ?_ fun dirino looked => ?_
  · refine fun error mount => Or.inl ⟨error, rfl, rfl, Or.inl fun _ _ _ parent => ?_⟩
    obtain ⟨_, _, mounted, _⟩ := parent.parent
    cases mount.symm.trans mounted
  · refine fun error looked => Or.inl ⟨error, rfl, rfl, Or.inl fun _ _ _ parent => ?_⟩
    obtain ⟨_, _, mounted, found, _⟩ := parent.parent
    cases mount.symm.trans mounted
    cases looked.symm.trans found
  simp only [continues_ok, ensures_bind, ensures_handle,
    vfsInodeGet, inodeGet, ensures_idataOr, continues_error,
    recovers_error, ensures_undefined, implies_true, true_and,
    ensures_pure, recovers_ok, ensures_failIf]
  intro dirIdata dirInode dirFound
  refine ⟨fun notADir => Or.inl ⟨_, rfl, rfl, Or.inl fun _ _ _ parent => ?_⟩, fun isDir => ?_⟩
  · obtain ⟨_, _, mounted, found, parentFound, _⟩ := parent.parent
    cases mount.symm.trans mounted
    cases looked.symm.trans found
    cases dirFound.symm.trans parentFound
    exact notADir parent.isDir
  refine makeNode_made.cases
    (fun error _ refused => Or.inl ⟨error, rfl, refused.1, Or.inr refused.2⟩) ?_
  intro ino made grown
  refine linkInode_spec.mono fun outcome changed linking => ?_
  have parent :
      MknodParent fs path mode dirino dirInode
        ((linkName fspath (pathDirnameLen fspath sizeMax)).take sizeMax) :=
    ⟨notDir, notLink, ⟨fspath, dirIdata, mount, looked, dirFound, rfl⟩, not_not.mp isDir⟩
  exact Or.inr ⟨dirino, dirInode, _, ino, made, parent, madeNode_freshNode ino _ _, grown, linking⟩

theorem vfsUnlink_spec : Ensures (vfsUnlink path) fs fun outcome changed =>
      match outcome with
      | .ok _ =>
        ∃ fspath dir basename namelen,
          mountnodeByPath path = .ok fspath ∧ UnlinkTarget fs fspath sizeMax dir basename namelen ∧
            Removed fs dir basename namelen changed
      | .error _ => changed = fs := by
  refine ensures_mounted (fun _ _ => rfl) fun fspath mount => ?_
  refine unlinkInode_spec.cases (fun _ _ unchanged => unchanged) ?_
  rintro _ _ ⟨dir, basename, namelen, target, removed⟩
  exact ⟨fspath, dir, basename, namelen, mount, target, removed⟩

theorem vfsMkdir_spec : Ensures (vfsMkdir machine path mode) fs fun outcome changed =>
      (∃ error, outcome = .error error ∧ Untouched fs changed ∧
        ((∃ cause, mountnodeByPath path = .error cause) ∨ machine.grants fs.kmallocs = false)) ∨
      ∃ fspath ino made result, mountnodeByPath path = .ok fspath ∧
        Grown machine fs (newInode ino (sIfdir ||| ((mode &&& ~~~sIfmt) ||| sIfdir))) made ∧
        Populated machine fspath fs.inodes.count made result changed ∧
        (outcome = .ok ⟨⟩ ↔ ∃ number, result = .ok number) := by
  unfold vfsMkdir
  simp only [ensures_bind, ensures_handle, ensures_fspathOf]
  cases mount : mountnodeByPath path with
  | error error =>
    simp only [recovers_error, ensures_fail, continues_error]
    exact Or.inl ⟨_, rfl, rfl, Or.inl ⟨error, rfl⟩⟩
  | ok fspath =>
    simp only [recovers_ok, continues_ok, ensures_bind]
    refine makeDirectory_spec.mono ?_
    intro outcome changed returned
    rcases returned with
      ⟨error, rfl, untouched, refused⟩ | ⟨ino, made, grown, populated⟩
    · exact Or.inl ⟨error, rfl, untouched, Or.inr refused⟩
    · cases outcome with
      | error error => exact Or.inr ⟨fspath, ino, made, _, rfl, grown, populated, by simp⟩
      | ok number =>
        rw [continues_ok, ensures_pure]
        exact Or.inr ⟨fspath, ino, made, _, rfl, grown, populated, by simp⟩

theorem vfsHardlink_quietly :
    Ensures (vfsHardlink machine path newpath) fs fun _ changed =>
      Quietly fs changed := by
  refine vfsHardlink_spec.cases (fun _ _ => Untouched.quietly) ?_
  rintro _ _ ⟨_, _, _, _, linked⟩
  exact linked_quietly linked

theorem vfsMknod_quietly : Ensures (vfsMknod machine path mode dev) fs fun _ changed =>
      Quietly fs changed := by
  refine vfsMknod_spec.mono ?_
  intro outcome changed returned
  rcases returned with
    ⟨_, _, untouched, _⟩ | ⟨_, _, _, _, _, _, fresh, grown, _, linking⟩
  · exact untouched.quietly
  · have made := grown_quietly grown fresh
    cases outcome with
    | error error => exact made.trans linking.1.quietly
    | ok done => exact made.trans (linked_quietly linking)

theorem vfsHardlink_eventually :
    Ensures (vfsHardlink machine path newpath) fs fun _ changed => Eventually fs changed :=
  vfsHardlink_quietly.mono fun _ _ => Quietly.eventually

theorem vfsMknod_eventually : Ensures (vfsMknod machine path mode dev) fs fun _ changed =>
      Eventually fs changed :=
  vfsMknod_quietly.mono fun _ _ => Quietly.eventually

theorem vfsUnlink_eventually : Ensures (vfsUnlink path) fs fun _ changed =>
      Eventually fs changed := by
  refine vfsUnlink_spec.cases ?_ ?_
  · rintro _ _ ⟨⟩
    exact .refl
  · rintro _ _ ⟨_, _, _, _, _, _, removed⟩
    exact removed_eventually removed

theorem vfsMkdir_eventually : Ensures (vfsMkdir machine path mode) fs fun _ changed =>
      Eventually fs changed := by
  refine vfsMkdir_spec.mono ?_
  intro outcome changed returned
  rcases returned with
    ⟨_, _, untouched, _⟩ | ⟨_, _, _, _, _, grown, populated, _⟩
  · exact Quietly.eventually untouched.quietly
  · exact (Quietly.eventually
      (grown_quietly grown (newInode_freshNode _ _))).trans (populated_eventually populated)

/-- A path leads to an inode number. -/
def Looked (fs : Mount) (path : CString) (ino : Nat) : Prop :=
  ∃ fspath, mountnodeByPath path = .ok fspath ∧ lookupInode fspath sizeMax fs = some (.ok ino)

/-- A path leads to an error. -/
def LookFails (fs : Mount) (path : CString) (error : Errno) : Prop :=
  mountnodeByPath path = .error error ∨
    ∃ fspath,
      mountnodeByPath path = .ok fspath ∧ lookupInode fspath sizeMax fs = some (.error error)

theorem vfsLookup_spec : Ensures (vfsLookup path) fs fun outcome changed =>
      changed = fs ∧ match outcome with
        | .ok ino => Looked fs path ino
        | .error error => LookFails fs path error := by
  refine ensures_mounted (fun _ mount => ⟨rfl, Or.inl mount⟩) fun fspath mount => ?_
  rw [ensures_consult]
  intro outcome looked
  cases outcome with
  | error error => exact ⟨rfl, Or.inr ⟨fspath, mount, looked⟩⟩
  | ok ino => exact ⟨rfl, fspath, mount, looked⟩

/--
`vfs_inode_set` writes back what it has read, so it changes nothing, except
that it frees an inode without links and openings.
-/
theorem vfsInodeSet_spec {inobuf : Inode} : Ensures (vfsInodeSet ino inobuf) fs fun _ changed =>
      changed = fs ∨
        ∃ idata inode, idataByInode fs ino = some (some (idata, inode)) ∧
          inode.nlinks = 0 ∧ inode.nfds = 0 ∧ changed = freed fs idata inode := by
  unfold vfsInodeSet
  simp only [inodeGet, ensures_bind, ensures_idataOr, continues_error,
    continues_ok, ensures_pure, ensures_failIf, true_or, implies_true, true_and]
  intro idata inode found _ _ _
  unfold inodeSet
  simp only [ensures_bind, ensures_idataOr, continues_error, continues_ok,
    ensures_editInode, ensures_ite, ensures_pure, true_or, implies_true, true_and]
  intro other content refound
  rw [found] at refound
  cases refound
  rw [Store.change_of_read (read_of_idataByInode found)]
  refine ⟨fun unused => ?_, fun _ => Or.inl rfl⟩
  refine freeInode_spec.cases (fun _ _ missing => Or.inl missing.2) ?_
  rintro _ _ ⟨other, content, refound, rfl⟩
  cases found.symm.trans refound
  exact Or.inr ⟨idata, inode, found, unused.1, unused.2, rfl⟩

variable {pos : Int}

theorem vfsInodeRead_spec
    {devices : Devices} {answer : Except Errno Nat} {buf : Nat → UInt8} {buflen : Nat} :
    Ensures (vfsInodeRead devices answer ino pos buf buflen) fs fun _ changed => changed = fs := by
  unfold vfsInodeRead
  simp only [inodeGet, ensures_bind, ensures_idataOr, continues_error,
    continues_ok, ensures_pure, ensures_ite, ensures_fail, ensures_failIf,
    ramfsReadInode, ensures_demand, deviceAnswer, ensures_consult, implies_true, true_and, and_true]
  intro idata inode found
  constructor
  · intro _
    cases devices.chr (inodeDevno inode) with
    | none => rw [ensures_fail]
    | some device =>
      simp only [ensures_bind, ensures_failIf, continues_error,
        continues_ok, ensures_consult, implies_true, true_and]
      intro _ outcome _
      cases outcome with
      | error error => rfl
      | ok count => rw [continues_ok, ensures_pure]
  · intro _ _ _ outcome _
    cases outcome with
    | error error => rfl
    | ok count => rw [continues_ok, ensures_pure]

/-- Changes of files and memory that leave the directories. -/
def Rewritten (fs changed : Mount) : Prop :=
  Quietly fs changed ∧ changed.directories = fs.directories

theorem Rewritten.refl (fs : Mount) : Rewritten fs fs := ⟨.refl, rfl⟩

/-- Writing changes the contents of one file and the memory behind it. -/
theorem ramfsWriteInode_rewritten {buf : List UInt8} :
    Ensures (ramfsWriteInode machine ino pos buf) fs fun _ changed =>
      Rewritten fs changed := by
  unfold ramfsWriteInode
  simp only [ensures_bind, ensures_idataOr, continues_error, continues_ok,
    ensures_demand, ensures_editInode, ensures_update]
  refine ⟨fun _ => .refl fs, ?_⟩
  rintro idata inode found ⟨outcome, count, file, memory⟩ _
  have kept : KeepsIdentity fun inode : Inode => { inode with file := file } :=
    ⟨fun _ => rfl, fun _ => rfl, fun _ => rfl, fun _ => rfl⟩
  have written :
      Rewritten fs
        { fs with
          inodes := fs.inodes.change idata fun inode => { inode with file := file }
          memory := memory } :=
    ⟨.tail (.single (.edit idata kept)) (.memory memory), rfl⟩
  cases outcome with
  | ok done => simpa only [ensures_pure] using written
  | error error => simpa only [ensures_fail] using written

theorem vfsInodeWrite_rewritten {devices : Devices} {answer : Except Errno Nat} {buf : List UInt8} :
    Ensures (vfsInodeWrite machine devices answer ino pos buf) fs
      fun _ changed => Rewritten fs changed := by
  have same := Rewritten.refl fs
  unfold vfsInodeWrite
  simp only [inodeGet, ensures_bind, ensures_idataOr, continues_error,
    continues_ok, ensures_pure, ensures_ite, ensures_fail]
  refine ⟨fun _ => same, fun idata inode found =>
    ⟨fun _ => ramfsWriteInode_rewritten, fun _ =>
      ⟨fun _ => same, fun _ => ⟨fun _ => same, fun _ =>
        ⟨fun _ => ?_, fun _ => ⟨fun _ => same, fun _ => same⟩⟩⟩⟩⟩⟩
  cases devices.chr (inodeDevno inode) with
  | none =>
    rw [ensures_fail]
    exact same
  | some device =>
    simp only [ensures_bind, ensures_failIf, continues_error,
      continues_ok, deviceAnswer, ensures_consult]
    exact ⟨fun _ => same, fun _ _ _ => same⟩

end Cosec.Fs.VfsSteps
