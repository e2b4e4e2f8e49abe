import Cosec.Fs.LinkedLookups
import Cosec.Fs.NameGraph

/-!
# Renaming

`vfs_rename` makes a hard link under the new name and unlinks the old one.
The link is not taken back when the second step is refused, and it is refused
for everything but files whose path does not end in a separator.
-/

namespace Cosec.Fs.Renaming

open Fs.CallRuns Fs.ComponentWalk Fs.DirectoryMaps Fs.Dirnames Fs.FailedCalls Fs.FileCalls
open Fs.InodeNumbers Fs.LinkedLookups Fs.MountSteps Fs.NameGraph Fs.NewDirectories Fs.PathLookup
open Fs.Ramfs Fs.TreeRuns Fs.Vfs Fs.VfsSteps Function Lib.Commands Lib.Commands.Command
open Lib.Components Lib.ObjectStore Lib.Transition Lib.Word32 Libc.Strings List

variable {machine : Machine} {devices : Devices} {fs changed : Mount} {dir : Nat} {name : CString}

/-! ## Links and removals as changes of one name -/

theorem differs_of_change (numbered : Numbered fs) (numberedLater : Numbered changed)
    (idata : Nat) {edit : Inode → Inode} {table new : Directory} {value : Option Nat}
    (kept : KeepsIdentity edit) (root : changed.rootIno = fs.rootIno)
    (inodes : ∀ ino, changed.inodes.read ino = (fs.inodes.change idata edit).read ino)
    (directories :
      ∀ other, changed.directories.read other = (fs.directories.change dir fun _ => new).read other)
    (reading : fs.directories.read dir = some table)
    (mapped : nameMap new = update (nameMap table) name value) :
    Differs fs changed dir name value where
  root := root
  objects := by
    intro ino _
    rw [directoryObject_eq numberedLater, directoryObject_eq numbered, inodes, Store.read_change]
    split
    · cases fs.inodes.read ino with
      | none => rfl
      | some inode => rw [Option.map_some, Option.bind_some, Option.bind_some, kept.mode, kept.data]
    · rfl
  self := by
    rw [nameAt, directories, Store.read_change, if_pos rfl, reading,
      Option.map_some, Option.bind_some, mapped, update_self]
  others := by
    intro other _ otherName apart
    rw [nameAt, nameAt, directories, Store.read_change]
    split
    · rename_i same
      subst same
      rw [reading, Option.map_some, Option.bind_some, Option.bind_some,
        mapped, update_of_ne fun sameName => apart ⟨rfl, sameName⟩]
    · rfl

variable {ino : Nat}

theorem Linked.differs (sound : Sound fs) (numberedLater : Numbered changed) {dirino : Nat}
    (bounded : name.length < sizeMax) (linked : Linked fs ino dirino name changed) :
    ∃ dir,
      directoryObject fs dirino = some dir ∧ nameAt fs dir name = none ∧
        Differs fs changed dir name (some ino) := by
  cases linked with
  | @intro _ _ dir _ inode table _ dirFound isDir dirData found reading inserted =>
    have hashed := (sound.good dir table reading).hashed
    rw [hashed.insert bounded] at inserted
    split at inserted
    · rename_i free
      cases inserted
      refine ⟨dir, object_of_found dirFound isDir dirData, ?_, ?_⟩
      · rw [nameAt, reading, Option.bind_some, free]
      · have number := sound.numbered.self _ _ (sound.numbered.read_of_found found).2
        refine differs_of_change sound.numbered numberedLater _
          addLink_keepsIdentity rfl (fun _ => rfl) (fun _ => rfl) reading ?_
        rw [nameMap_withEntry free, number]
    · cases inserted

theorem freed_reads (fs : Mount) (idata : Nat) (inode : Inode) (other : Nat) :
    (freed fs idata inode).inodes.read other = fs.inodes.read other ∧
      (freed fs idata inode).directories.read other = fs.directories.read other := by
  unfold freed
  refine ⟨Store.read_free, ?_⟩
  split
  · split
    · exact Store.read_free
    · rfl
  · rfl

theorem Removed.differs (sound : Sound fs) (numberedLater : Numbered changed) {namelen : Nat}
    (bounded : name.length < sizeMax) (removed : Removed fs dir name namelen changed) :
    Differs fs changed dir name none := by
  have root := (keepsTypes_of_eventually (removed_eventually removed)).root
  cases removed with
  | @intro _ idata inode table shrunk reading searched found notDir deleted =>
    have hashed := (sound.good dir table reading).hashed
    rw [hashed.delete bounded] at deleted
    split at deleted
    · cases deleted
      refine differs_of_change sound.numbered numberedLater idata
        dropLink_keepsIdentity root ?_ ?_ reading (hashed.nameMap_withoutEntry name)
      · intro ino
        split
        · rfl
        · rw [(freed_reads _ _ _ _).1]
          rfl
      · intro other
        split
        · rfl
        · rw [(freed_reads _ _ _ _).2]
          rfl
    · cases deleted

/-! ## Unlinking -/

theorem searchAt_whole (sound : Sound fs) (present : dir < fs.directories.count)
    {len : Nat} (short : name.length < len) :
    searchAt fs dir name len = some (foundOr (nameAt fs dir name)) := by
  obtain ⟨table, reading⟩ := Store.exists_read present
  have searched :=
    (sound.good dir table reading).hashed.search
      (Or.inl short : SearchExact (nameMap table) name len)
  rw [take_of_length_le (le_of_lt short)] at searched
  rw [searchAt, nameAt, reading, Option.map_some, Option.bind_some, searched]

theorem fails_unlinkEntry (sound : Sound fs) (present : dir < fs.directories.count)
    {len : Nat} (short : name.length < len)
    (refused : ∀ child, nameAt fs dir name = some child → directoryObject fs child ≠ none) :
    Fails (unlinkEntry dir name len) fs := by
  have searched := searchAt_whole sound present short
  cases named : nameAt fs dir name with
  | none =>
    rw [named] at searched
    exact .bind_error (.consult searched)
  | some child =>
    rw [named] at searched
    obtain ⟨below, object⟩ := Option.ne_none_iff_exists'.mp (refused child named)
    obtain ⟨idata, inode, found, isDir, _⟩ := found_of_object object
    exact .bind (.consult searched) (.bind (returns_idataOr found) (.bind_error (.failIf isDir)))

/-- An inode is freed unless it is in use. -/
theorem returns_release
    {idata : Nat} {inode : Inode} (found : idataByInode fs ino = some (some (idata, inode))) :
    ∃ changed, Returns (do
          let inode ← demand fun fs => fs.inodes.read idata
          if 0 < inode.nlinks ∨ 0 < inode.nfds then pure ⟨⟩
          else freeInode ino) fs (.ok ⟨⟩) changed := by
  have reading := read_of_idataByInode found
  by_cases used : 0 < inode.nlinks ∨ 0 < inode.nfds
  · refine ⟨fs, .bind (.demand reading) ?_⟩
    rw [if_pos used]
    exact .pure
  · refine ⟨freed fs idata inode, .bind (.demand reading) ?_⟩
    rw [if_neg used]
    exact .bind (returns_idataOr found) (returns_inodeFree reading)

theorem returns_unlinkEntry (sound : Sound fs) {len child : Nat} (short : name.length < len)
    (bounded : name.length < sizeMax) (named : nameAt fs dir name = some child)
    (file : directoryObject fs child = none) :
    ∃ changed, Returns (unlinkEntry dir name len) fs (.ok ⟨⟩) changed := by
  obtain ⟨table, reading, mapped⟩ := Option.bind_eq_some_iff.mp named
  have searched := searchAt_whole sound (Store.lt_count_of_read reading) short
  rw [named] at searched
  have whole : Whole fs child := by
    obtain ⟨de, member, _, rfl⟩ := exists_entry_of_nameMap mapped
    exact sound.whole dir table reading _ de member
  obtain ⟨inode, found, notDir⟩ :=
    found_of_no_object sound (child_lt sound.numbered named) whole file
  have deleted : directoryDelete table name len = .ok (withoutEntry table name) := by
    rw [(sound.good dir table reading).hashed.delete bounded, if_pos]
    rw [take_of_length_le (le_of_lt short), mapped]
    exact ⟨rfl, Option.some_ne_none child⟩
  have delete :
      Returns (directoryDeleteEntry dir name len) fs (.ok ⟨⟩)
        { fs with
          directories := fs.directories.change dir fun _ => withoutEntry table name } :=
    .bind (.consult (by rw [reading, Option.map_some, deleted])) .update
  have refound :=
    idataByInode_edit found dropLink (fs.directories.change dir fun _ => withoutEntry table name)
  obtain ⟨changed, finished⟩ := returns_release refound
  exact ⟨changed, .bind (.consult searched) (.bind (returns_idataOr found)
    (.bind (.failIf notDir) (.bind delete (.bind .update finished))))⟩

theorem vfsUnlink_eq (sound : Sound fs) (path : Path) {fspath base : CString} {parino dirlen : Nat}
    (mount : mountnodeByPath path.chars = .ok fspath) (inside : 0 ≤ pathDirnameLen fspath sizeMax)
    (parent : resolve fs fspath (pathDirnameLen fspath sizeMax).toNat = .ok parino)
    (object : directoryObject fs parino = some dir)
    (skipped :
      skipToBasename (fspath.drop (pathDirnameLen fspath sizeMax).toNat)
          (pathDirnameLen fspath sizeMax).toNat sizeMax = some (base, dirlen)) :
    base.length < sub32 sizeMax dirlen ∧
      vfsUnlink path.chars fs = unlinkEntry dir base (sub32 sizeMax dirlen) fs := by
  obtain ⟨idata, inode, found, isDir, data⟩ := found_of_object object
  have looked := sound.looked_iff.mpr parent
  have target : UnlinkTarget fs fspath sizeMax dir base (sub32 sizeMax dirlen) :=
    ⟨inside, ⟨parino, idata, inode, looked, found, isDir, data⟩, ⟨dirlen, skipped, rfl⟩⟩
  refine ⟨(unlinkTarget_length_lt target
    (lt_trans (mountnodeByPath_length mount) path.bounded)).1, ?_⟩
  refine (returns_fspathOf mount).run_bind.trans ?_
  refine (Returns.run_bind (.failIf (Int.not_lt.mpr inside))).trans ?_
  refine (Returns.run_bind (.consult looked)).trans ?_
  refine (Returns.run_bind (returns_idataOr found)).trans ?_
  refine (Returns.run_bind (.failIf (not_not.mpr isDir))).trans ?_
  rw [data, skipped]

theorem walk_after_removal
    (sound : Sound fs) (soundLater : Sound changed) {last below : Nat} {parts : List CString}
    (named : nameAt fs dir name = some ino) (file : directoryObject fs ino = none)
    (differs : Differs fs changed dir name none)
    (walked : componentWalk fs false fs.rootIno parts = .ok last)
    (object : directoryObject fs last = some below) :
    componentWalk changed false changed.rootIno parts = .ok last ∧
      directoryObject changed last = some below := by
  have numbered := sound.numbered
  have apart : ¬ Passes fs dir name fs.rootIno parts := by
    intro passes
    obtain ⟨child, childNamed, ends⟩ := child_of_passes numbered walked passes
    cases named.symm.trans childNamed
    rcases ends with rfl | isDirectory
    · cases file.symm.trans object
    · exact isDirectory file
  exact differs.walk_object numbered soundLater.numbered apart walked object

section Named

variable {fspath base : CString} {front : List CString} {parino ino : Nat} (sound : Sound fs)
  (path : Path) (mount : mountnodeByPath path.chars = .ok fspath) (parts : Parts fspath front base)
  (walked : componentWalk fs false fs.rootIno front = .ok parino)
  (object : directoryObject fs parino = some dir) (named : nameAt fs dir base = some ino)

include sound mount parts walked object named

theorem returns_vfsUnlink (file : directoryObject fs ino = none) :
    ∃ namelen changed,
      Returns (vfsUnlink path.chars) fs (.ok ⟨⟩) changed ∧ Removed fs dir base namelen changed ∧
        base.length < sizeMax := by
  obtain ⟨dirlen, skipped⟩ := parts.skipped
  obtain ⟨short, same⟩ :=
    vfsUnlink_eq sound path mount parts.inside ((parts.parent fs).trans walked) object skipped
  have bounded : base.length < sizeMax := by
    rw [← parts.link]
    exact skipSeps_bounded path mount _
  obtain ⟨changed, returned⟩ := returns_unlinkEntry sound short bounded named file
  exact ⟨_, changed, ⟨same.trans returned.run⟩, unlinkEntry_spec.returns _ _ returned.run, bounded⟩

/-- The name of a directory is not removed. -/
theorem fails_vfsUnlink_directory (isDirectory : directoryObject fs ino ≠ none) :
    Fails (vfsUnlink path.chars) fs := by
  obtain ⟨dirlen, skipped⟩ := parts.skipped
  obtain ⟨short, same⟩ :=
    vfsUnlink_eq sound path mount parts.inside ((parts.parent fs).trans walked) object skipped
  obtain ⟨error, changed, returned⟩ :=
    fails_unlinkEntry sound (object_lt sound.numbered object) short fun child childNamed => by
      cases named.symm.trans childNamed
      exact isDirectory
  exact ⟨error, changed, ⟨same.trans returned.run⟩⟩

end Named

/-- A path that leads to an inode but not by a name of its own. -/
structure Nameless (fspath : CString) : Prop where
  inside : 0 ≤ pathDirnameLen fspath sizeMax
  skipped :
    ∃ dirlen,
      skipToBasename (fspath.drop (pathDirnameLen fspath sizeMax).toNat)
          (pathDirnameLen fspath sizeMax).toNat sizeMax = some ([], dirlen)
  parent :
    ∀ fs ino, resolve fs fspath sizeMax = .ok ino →
      resolve fs fspath (pathDirnameLen fspath sizeMax).toNat = .ok ino

theorem nameless_empty : Nameless [] where
  inside := by rw [pathDirnameLen_single (fun _ member => by cases member)]
  skipped := ⟨_, rfl⟩
  parent := by
    intro fs ino resolves
    exact resolves

variable {fspath : CString}

theorem nameless_of_trailing
    (bounded : fspath.length < sizeMax) (start : startsInSep isSep fspath = false)
    (finish : endsInSep isSep fspath = true) : Nameless fspath := by
  cases shape fspath with
  | single isRun =>
    rw [endsInSep_run isRun] at finish
    cases finish
  | atTop top => exact absurd top.startsInSep (Bool.eq_false_iff.mp start)
  | @below front seps base under =>
    have nameless : base = [] := by
      by_contra named
      rw [under.split, ← append_assoc, endsInSep_append _ named,
        endsInSep_run under.isRun] at finish
      cases finish
    have length := pathDirnameLen_below under (le_of_lt bounded)
    have whole : fspath.take sizeMax = fspath := take_of_length_le (le_of_lt bounded)
    have taken : fspath.take front.length = front := by rw [under.split, take_left]
    have sameComponents : components isSep fspath = components isSep front := by
      rw [components_below under, nameless, components_nil, append_nil]
    refine ⟨?_, ?_, ?_⟩
    · rw [length]
      exact Int.natCast_nonneg _
    · rw [length, Int.toNat_natCast, under.split, drop_left, nameless]
      refine ⟨_, skipToBasename_seps under.areSeps rfl ?_⟩
      rw [under.split, length_append, length_append] at bounded
      omega
    · intro fs ino resolves
      rw [length, Int.toNat_natCast,
        resolve_plain (by rw [taken, startsInSep_below under]; exact start)
          (by rw [taken]; exact under.finish), taken, walkPath, under.finish, ← sameComponents]
      exact walk_of_resolve whole resolves

/-- An empty name is not removed. -/
theorem fails_vfsUnlink_nameless
    (sound : Sound fs) (path : Path) (mount : mountnodeByPath path.chars = .ok fspath)
    (nameless : Nameless fspath) (resolves : resolve fs fspath sizeMax = .ok ino) :
    Fails (vfsUnlink path.chars) fs := by
  have parent := nameless.parent fs ino resolves
  obtain ⟨present, whole⟩ := resolve_lt sound parent
  cases object : directoryObject fs ino with
  | none =>
    obtain ⟨inode, found, notDir⟩ := found_of_no_object sound present whole object
    have looked := sound.looked_iff.mpr parent
    exact .bind (returns_fspathOf mount) (.bind (.failIf (Int.not_lt.mpr nameless.inside))
      (.bind (.consult looked) (.bind (returns_idataOr found) (.bind_error (.failIf notDir)))))
  | some dir =>
    obtain ⟨dirlen, skipped⟩ := nameless.skipped
    obtain ⟨short, same⟩ := vfsUnlink_eq sound path mount nameless.inside parent object skipped
    have inStore := object_lt sound.numbered object
    have refused : Fails (unlinkEntry dir [] (sub32 sizeMax dirlen)) fs := by
      refine fails_unlinkEntry sound inStore short ?_
      intro child named
      obtain ⟨table, reading, mapped⟩ := Option.bind_eq_some_iff.mp named
      rw [(sound.unambiguous [] dir table reading).1] at mapped
      cases mapped
    obtain ⟨error, changed, returned⟩ := refused
    exact ⟨error, changed, ⟨same.trans returned.run⟩⟩

/-- A hard link under a free name of a directory, with memory for it. -/
structure CanLink
    (machine : Machine) (fs : Mount) (oldpath newpath : CString) (ino : Nat) : Prop where
  source : lookupOf fs oldpath = some (.ok ino)
  target :
    ∃ fspath dirino dir,
      mountnodeByPath newpath = .ok fspath ∧ 0 ≤ pathDirnameLen fspath sizeMax ∧
        lookupInode fspath (pathDirnameLen fspath sizeMax).toNat fs = some (.ok dirino) ∧
        directoryObject fs dirino = some dir ∧
        nameAt fs dir (linkName fspath (pathDirnameLen fspath sizeMax)) = none ∧
        (linkName fspath (pathDirnameLen fspath sizeMax)).length < 255
  memory : ¬ PairRefused machine fs.kmallocs

/-- `ramfs_link_inode` in a directory with a free name. -/
theorem returns_linkInode (sound : Sound fs) {dirino : Nat} (short : name.length < 255)
    (object : directoryObject fs dirino = some dir) (present : ino < fs.inodes.count)
    (free : nameAt fs dir name = none) (memory : ¬ PairRefused machine fs.kmallocs) :
    ∃ changed, Returns (linkInode machine ino dirino name sizeMax) fs (.ok ⟨⟩) changed := by
  obtain ⟨dirIdata, dirInode, dirFound, isDir, dirData⟩ := found_of_object object
  have possible : ¬ LinkFault machine fs fs.kmallocs dirInode name := by
    rintro (noData | refused | ⟨other, table, data, reading, taken⟩)
    · cases dirData.symm.trans noData
    · exact memory refused
    · cases dirData.symm.trans data
      have hashed := (sound.good dir table reading).hashed
      have bounded : name.length < sizeMax := lt_trans short (by decide)
      rw [nameAt, reading, Option.bind_some] at free
      exact (hashed.hasName_iff bounded).mp taken free
  obtain ⟨_, _, _, _, _, _, returned⟩ :=
    returns_link sound.numbered dirFound isDir present short possible
  exact ⟨_, returned⟩

variable {oldpath : CString}

/-- A link that was made met all conditions of one. -/
theorem canLink_of_linkInode (sound : Sound fs) {fspath newFspath : CString} (newpath : Path)
    {dirino : Nat} {done : PUnit} (mount : mountnodeByPath oldpath = .ok fspath)
    (looked : lookupInode fspath sizeMax fs = some (.ok ino))
    (newMount : mountnodeByPath newpath.chars = .ok newFspath)
    (inside : 0 ≤ pathDirnameLen newFspath sizeMax)
    (dirLooked :
      lookupInode newFspath (pathDirnameLen newFspath sizeMax).toNat fs = some (.ok dirino))
    (returned :
      linkInode machine ino dirino (linkName newFspath (pathDirnameLen newFspath sizeMax))
          sizeMax fs = some (.ok done, changed)) :
    CanLink machine fs oldpath newpath.chars ino := by
  have bounded : (linkName newFspath (pathDirnameLen newFspath sizeMax)).length < sizeMax :=
    skipSeps_bounded newpath newMount _
  obtain ⟨short, link⟩ := linkInode_spec.returns _ _ returned
  have shortName := short
  rw [linkName_take newpath newMount] at link shortName
  have source : lookupOf fs oldpath = some (.ok ino) := by
    rw [lookupOf_eq sound, resolved_eq mount, sound.looked_iff.mp looked]
  cases link with
  | @intro dirIdata idata dir dirInode inode table grown dirFound isDir
      dirData found reading inserted =>
      have hashed := (sound.good dir table reading).hashed
      rw [hashed.insert bounded] at inserted
      split at inserted
      · rename_i free
        refine ⟨source, ⟨newFspath, dirino, dir, newMount, inside,
          dirLooked, object_of_found dirFound isDir dirData, ?_, shortName⟩, fun refused => ?_⟩
        · rw [nameAt, reading, Option.bind_some]
          exact free
        · obtain ⟨error, other, failed⟩ :=
            fails_linkInode short dirFound isDir found
              (Or.inr (fails_directoryNewEntry refused).fails)
          cases failed.run.symm.trans returned
      · cases inserted

/-- A hard link that is made could be made. -/
theorem vfsHardlink_canLink (sound : Sound fs) (newpath : Path) :
    Ensures (vfsHardlink machine oldpath newpath.chars) fs fun outcome _ =>
        outcome = .ok ⟨⟩ → ∃ ino, CanLink machine fs oldpath newpath.chars ino := by
  refine ensures_mounted (fun _ _ => nofun) fun fspath mount =>
    ensures_mounted (fun _ _ => nofun) fun newFspath newMount =>
      .consult (fun _ _ => nofun) fun ino looked => ?_
  rw [ensures_bind, ensures_failIf]
  refine ⟨fun _ => nofun, fun inside => .consult (fun _ _ => nofun) fun dirino dirLooked => ?_⟩
  refine ⟨fun outcome changed returned isOk => ?_⟩
  subst isOk
  exact ⟨ino, canLink_of_linkInode sound newpath mount
    looked newMount (Int.not_lt.mp inside) dirLooked returned⟩

/-- The mount between the two steps of a renaming. -/
structure LinkMade
    (fs middle : Mount) (oldpath : CString) (newFspath : CString)
    (ino parino dir : Nat) (front : List CString) (base : CString) :
    Prop where
  sound : Sound middle
  source : resolved fs oldpath = .ok ino
  parts : Parts newFspath front base
  walked : componentWalk fs false fs.rootIno front = .ok parino
  object : directoryObject fs parino = some dir
  free : nameAt fs dir base = none
  differs : Differs fs middle dir base (some ino)

theorem linkMade_of_vfsHardlink
    (sound : Sound fs) (newpath : Path) (plain : PlainLink newpath.chars)
    (can : CanLink machine fs oldpath newpath.chars ino) {middle : Mount} {done : PUnit}
    (returned : vfsHardlink machine oldpath newpath.chars fs = some (.ok done, middle)) :
    ∃ newFspath parino dir front base,
      mountnodeByPath newpath.chars = .ok newFspath ∧
        LinkMade fs middle oldpath newFspath ino parino dir front base := by
  obtain ⟨other, dirino, name, target, link⟩ := vfsHardlink_spec.returns _ _ returned
  have count : middle.inodes.count = fs.inodes.count := by
    cases link with
    | intro => exact Store.count_change
  have soundLater :=
    (vfsHardlink_sound sound plain).returns _ _ returned (count.trans_le sound.numbered.flat.fits)
  obtain ⟨fspath, mount, looked⟩ := target.source
  have resolves : resolved fs oldpath = .ok other := by
    rw [resolved_eq mount, sound.looked_iff.mp looked]
  have source := can.source
  rw [lookupOf_eq sound, resolves] at source
  cases source
  obtain ⟨newFspath, newMount, dirLooked, nameEq⟩ := target.target
  obtain ⟨_, _, _, sameMount, inside, _⟩ := can.target
  cases newMount.symm.trans sameMount
  rw [linkName_take newpath newMount] at nameEq
  have bounded : (linkName newFspath (pathDirnameLen newFspath sizeMax)).length < sizeMax :=
    skipSeps_bounded newpath newMount _
  have parent := sound.looked_iff.mp dirLooked
  obtain ⟨front, base, parts⟩ :=
    exists_parts_of_parent (lt_trans (mountnodeByPath_length newMount) newpath.bounded)
      inside parent (plain newFspath newMount).1
  rw [nameEq] at link
  obtain ⟨dir, object, free, differs⟩ := Linked.differs sound soundLater.numbered bounded link
  rw [parts.link] at free differs
  exact ⟨newFspath, dirino, dir, front, base, newMount, soundLater, resolves, parts,
    (parts.parent fs).symm.trans parent, object, free, differs⟩

section LinkMade

variable {middle : Mount} {oldpath newFspath base : CString} {ino parino : Nat}
  {front : List CString} (sound : Sound fs)
  (made : LinkMade fs middle oldpath newFspath ino parino dir front base)

include sound made

/-- The walk to a directory stays as it is. -/
theorem LinkMade.walk_object {last below : Nat} {parts : List CString}
    (walked : componentWalk fs false fs.rootIno parts = .ok last)
    (object : directoryObject fs last = some below) :
    componentWalk middle false middle.rootIno parts = .ok last ∧
      directoryObject middle last = some below :=
  made.differs.walk_object sound.numbered made.sound.numbered
    (not_passes_of_free sound.numbered made.free walked) walked object

theorem LinkMade.resolved_old (path : Path) (isOld : path.chars = oldpath) :
    resolved middle oldpath = .ok ino := by
  subst isOld
  have same := made.differs.resolved sound.numbered made.sound.numbered path
  rw [same, made.source]
  rintro ⟨fspath, mount, _, passes⟩
  have source := made.source
  rw [resolved_eq mount] at source
  exact not_passes_of_free sound.numbered made.free
    (walk_of_resolve (mountnodeByPath_take path mount) source) passes

end LinkMade

/-! ## All or nothing -/

/-- What a renaming is for. -/
structure Renamed (fs : Mount) (oldpath newpath : CString) (changed : Mount) : Prop where
  moved : ∃ ino, lookupOf fs oldpath = some (.ok ino) ∧ lookupOf changed newpath = some (.ok ino)
  gone : ∀ ino, lookupOf changed oldpath ≠ some (.ok ino)
  others :
    ∀ path : Path, ¬ PassesEntryOf fs oldpath path.chars → ¬ PassesEntryOf fs newpath path.chars →
      lookupOf changed path.chars = lookupOf fs path.chars

/-- Every path resolves as before. -/
def SamePaths (fs changed : Mount) : Prop :=
  ∀ path : Path, lookupOf changed path.chars = lookupOf fs path.chars

/-- A renaming renames, or fails and leaves every path. -/
def AllOrNothing (machine : Machine) (fs : Mount) (oldpath newpath : CString) : Prop :=
  ∀ outcome changed, vfsRename machine oldpath newpath fs = some (outcome, changed) →
    match outcome with
    | .ok _ => Renamed fs oldpath newpath changed
    | .error _ => SamePaths fs changed

theorem samePaths_of_untouched (sound : Sound fs) (same : Untouched fs changed) :
    SamePaths fs changed := by
  have agrees : Agrees fs changed := by
    constructor
    · rw [same]
    · intro ino _
      rw [same]
      rfl
    · intro other _
      rw [same]
  intro path
  rw [lookupOf_eq (sound.untouched same), lookupOf_eq sound, resolved, resolved]
  cases mount : mountnodeByPath path.chars with
  | error error => rfl
  | ok fspath =>
    have looked := sound.looked_iff.mpr (Eq.refl (resolve fs fspath sizeMax))
    rw [← agrees.lookupInode sound.numbered] at looked
    exact congrArg some ((sound.untouched same).looked_iff.mp looked)

section Second

variable {middle : Mount} {base : CString} {ino parino dir : Nat} {front : List CString}
  {newFspath : CString} (sound : Sound fs) (oldpath : Path)
  (made : LinkMade fs middle oldpath.chars newFspath ino parino dir front base)

include sound made

section

variable (newpath : Path) (mount : mountnodeByPath newpath.chars = .ok newFspath)

include newpath mount

theorem LinkMade.not_samePaths : ¬ SamePaths fs middle := by
  intro same
  have whole := mountnodeByPath_take newpath mount
  have equal := same newpath
  rw [lookupOf_eq made.sound, lookupOf_eq sound, resolved_eq mount, resolved_eq mount,
    made.parts.resolve_eq sound.numbered whole made.walked made.object, made.free,
    made.parts.resolve_entered sound.numbered made.sound.numbered whole made.walked made.object
      made.free made.differs] at equal
  cases equal

/-- The old name of a file is removed, and nothing else changes. -/
theorem LinkMade.renamed {fspath oldBase : CString} {oldFront : List CString}
    (oldMount : mountnodeByPath oldpath.chars = .ok fspath)
    (oldParts : Parts fspath oldFront oldBase) (file : directoryObject fs ino = none) :
    ∃ changed,
      Returns (vfsUnlink oldpath.chars) middle (.ok ⟨⟩) changed ∧
        Renamed fs oldpath.chars newpath.chars changed := by
  have oldWhole := mountnodeByPath_take oldpath oldMount
  have source := made.source
  rw [resolved_eq oldMount] at source
  obtain ⟨oldParino, oldDir, oldWalked, oldObject, oldNamed⟩ :=
    oldParts.walk sound.numbered oldWhole source
  have entriesApart : ¬ (dir = oldDir ∧ base = oldBase) := by
    rintro ⟨rfl, rfl⟩
    cases made.free.symm.trans oldNamed
  obtain ⟨middleWalked, middleObject⟩ := made.walk_object sound oldWalked oldObject
  have middleNamed : nameAt middle oldDir oldBase = some ino := by
    rw [made.differs.others oldDir (object_lt sound.numbered oldObject)
      oldBase fun same => entriesApart ⟨same.1.symm, same.2.symm⟩]
    exact oldNamed
  have middleFile : directoryObject middle ino = none := by
    rw [made.differs.objects ino (child_lt sound.numbered oldNamed)]
    exact file
  obtain ⟨namelen, changed, returned, removed, bounded⟩ :=
    returns_vfsUnlink made.sound oldpath oldMount oldParts middleWalked
      middleObject middleNamed middleFile
  refine ⟨changed, returned, ?_⟩
  have count : changed.inodes.count = middle.inodes.count := by
    cases removed with
    | intro reading searched found notDir deleted =>
      split
      · simp [entryDropped]
      · simp [entryDropped, freed]
  have soundLater :=
    (vfsUnlink_sound made.sound oldpath).returns _ _ returned.run
      (count.trans_le made.sound.numbered.flat.fits)
  have differs := Removed.differs made.sound soundLater.numbered bounded removed
  have resolvesAs := lookupOf_eq soundLater
  refine ⟨⟨ino, ?_, ?_⟩, ?_, ?_⟩
  · rw [lookupOf_eq sound, made.source]
  · obtain ⟨newWalked, newObject⟩ := made.walk_object sound made.walked made.object
    obtain ⟨walked, object⟩ :=
      walk_after_removal made.sound soundLater middleNamed middleFile differs newWalked newObject
    rw [resolvesAs, resolved_eq mount, made.parts.resolve_eq soundLater.numbered
      (mountnodeByPath_take newpath mount) walked object,
      differs.others dir (object_lt made.sound.numbered newObject) base entriesApart,
      made.differs.self]
    rfl
  · intro other resolves
    obtain ⟨walked, object⟩ :=
      walk_after_removal made.sound soundLater middleNamed middleFile
        differs middleWalked middleObject
    rw [resolvesAs, resolved_eq oldMount,
      oldParts.resolve_eq soundLater.numbered oldWhole walked object, differs.self] at resolves
    cases resolves
  · intro path notOld notNew
    rw [resolvesAs, lookupOf_eq sound,
      made.differs.resolved_twice differs sound.numbered
        made.sound.numbered soundLater.numbered path
        (fun passes => notNew ⟨dir, base, ⟨newFspath, front, parino, mount,
          made.parts.split, made.walked, made.object⟩, passes⟩)
        (fun passes => notOld ⟨oldDir, oldBase, ⟨fspath, oldFront,
          oldParino, oldMount, oldParts.split, oldWalked, oldObject⟩, passes⟩)]

theorem LinkMade.renamed_file
    (file : directoryObject fs ino = none) (finish : endsInSep isSep oldpath.chars = false) :
    ∃ changed,
      Returns (vfsUnlink oldpath.chars) middle (.ok ⟨⟩) changed ∧
        Renamed fs oldpath.chars newpath.chars changed := by
  obtain ⟨fspath, oldMount, source⟩ := mounted_of_resolved made.source
  obtain ⟨nonempty, oldFinish⟩ := (endsInSep_mounted oldMount).mp finish
  obtain ⟨oldFront, oldBase, oldParts⟩ :=
    exists_parts (lt_trans (mountnodeByPath_length oldMount) oldpath.bounded)
      nonempty (start_of_resolve nonempty source) oldFinish
  exact made.renamed sound oldpath newpath mount oldMount oldParts file

end

/-- Whatever is no file with a name of its own stays. -/
theorem LinkMade.fails
    (refused : ¬ (directoryObject fs ino = none ∧ endsInSep isSep oldpath.chars = false)) :
    Fails (vfsUnlink oldpath.chars) middle := by
  obtain ⟨fspath, oldMount, resolves⟩ := mounted_of_resolved (made.resolved_old sound oldpath rfl)
  have bounded := lt_trans (mountnodeByPath_length oldMount) oldpath.bounded
  have named : (∃ front base, Parts fspath front base) ∨ Nameless fspath := by
    by_cases empty : fspath = []
    · rw [empty]
      exact Or.inr nameless_empty
    · have start := start_of_resolve empty resolves
      cases finish : endsInSep isSep fspath with
      | false => exact Or.inl (exists_parts bounded empty start finish)
      | true => exact Or.inr (nameless_of_trailing bounded start finish)
  rcases named with ⟨oldFront, oldBase, parts⟩ | nameless
  · obtain ⟨oldParino, oldDir, walked, object, named⟩ :=
      parts.walk made.sound.numbered (mountnodeByPath_take oldpath oldMount) resolves
    refine fails_vfsUnlink_directory made.sound oldpath oldMount parts
      walked object named fun file => refused ⟨?_, ?_⟩
    · have source := made.source
      rw [resolved_eq oldMount] at source
      rw [← made.differs.objects ino (resolve_lt sound source).1]
      exact file
    · exact (endsInSep_mounted oldMount).mpr ⟨parts.nonempty, parts.finish⟩
  · exact fails_vfsUnlink_nameless made.sound oldpath oldMount nameless resolves

end Second

theorem returns_vfsHardlink (sound : Sound fs) (newpath : Path)
    (can : CanLink machine fs oldpath newpath.chars ino) :
    ∃ middle, Returns (vfsHardlink machine oldpath newpath.chars) fs (.ok ⟨⟩) middle := by
  have source := can.source
  rw [lookupOf_eq sound, Option.some.injEq] at source
  obtain ⟨newFspath, dirino, dir, newMount, inside, dirLooked, object, free, short⟩ := can.target
  obtain ⟨fspath, mount, resolves⟩ := mounted_of_resolved source
  have looked := sound.looked_iff.mpr resolves
  obtain ⟨middle, returned⟩ :=
    returns_linkInode sound short object (resolve_lt sound resolves).1 free can.memory
  exact ⟨middle, .bind (returns_fspathOf mount) (.bind (returns_fspathOf newMount)
    (.bind (.consult looked) (.bind (.failIf (Int.not_lt.mpr inside))
      (.bind (.consult dirLooked) returned))))⟩

/--
In every run of orderly calls, renaming is all or nothing exactly when no link
can be made, or what is renamed is not a directory and its path does not end
in a separator.
-/
theorem rename_all_or_nothing_iff {machine : Machine} {devices : Devices} {world : World}
    (reached : (kernel machine devices).Reached (Orderly machine) world)
    (fits : world.fs.inodes.count ≤ 64) (oldpath newpath : Path) (plain : PlainLink newpath.chars) :
    AllOrNothing machine world.fs oldpath.chars newpath.chars ↔
      ∀ ino, CanLink machine world.fs oldpath.chars newpath.chars ino →
        directoryObject world.fs ino = none ∧ endsInSep isSep oldpath.chars = false := by
  have sound := reached_soundWhileFlat reached fits
  constructor
  · intro all ino can
    obtain ⟨middle, linked⟩ := returns_vfsHardlink sound newpath can
    obtain ⟨newFspath, parino, dir, front, base, mount, made⟩ :=
      linkMade_of_vfsHardlink sound newpath plain can linked.run
    by_contra refused
    obtain ⟨error, changed, failed⟩ := made.fails sound oldpath refused
    have unchanged : changed = middle := vfsUnlink_spec.returns _ _ failed.run
    rw [unchanged] at failed
    have same : SamePaths world.fs middle := all (.error error) middle (linked.bind failed).run
    exact made.not_samePaths sound oldpath newpath mount same
  · intro condition outcome changed returned
    have ensured :
        Ensures (vfsRename machine oldpath.chars newpath.chars) world.fs fun outcome changed =>
            match outcome with
            | .ok _ => Renamed world.fs oldpath.chars newpath.chars changed
            | .error _ => SamePaths world.fs changed := by
      unfold vfsRename
      rw [ensures_bind]
      refine ⟨fun outcome middle linked => ?_⟩
      cases outcome with
      | error error => exact samePaths_of_untouched sound (vfsHardlink_spec.returns _ _ linked)
      | ok done =>
        obtain ⟨ino, can⟩ := (vfsHardlink_canLink sound newpath).returns _ _ linked rfl
        obtain ⟨newFspath, parino, dir, front, base, mount, made⟩ :=
          linkMade_of_vfsHardlink sound newpath plain can linked
        obtain ⟨file, finish⟩ := condition ino can
        obtain ⟨final, removed, renamed⟩ :=
          made.renamed_file sound oldpath newpath mount file finish
        refine ⟨fun outcome changed unlinked => ?_⟩
        cases removed.run.symm.trans unlinked
        exact renamed
    exact ensured.returns outcome changed returned

theorem pathA_plainLink : PlainLink pathA.chars := by
  intro fspath mount
  cases mount
  decide +kernel

theorem pathB_plainLink : PlainLink pathB.chars := by
  intro fspath mount
  cases mount
  decide +kernel

theorem rename_all_or_nothing_sample :
    ∃ world,
      (kernel generous noDevices).Reached (Orderly generous) world ∧
        world.fs.inodes.count ≤ 64 ∧ PlainLink pathB.chars ∧
        AllOrNothing generous world.fs pathA.chars pathB.chars := by
  obtain ⟨world, reached, fits, looked, file⟩ : ∃ world,
      (kernel generous noDevices).Reached (Orderly generous) world ∧ world.fs.inodes.count ≤ 64 ∧
        lookupOf world.fs pathA.chars = some (.ok 2) ∧ directoryObject world.fs 2 = none := by
    refine exists_sampleRun [.mknod pathA sIfreg 0] ?_ (by decide +kernel)
    intro call member world _
    cases mem_singleton.mp member
    exact pathA_plainLink
  refine ⟨world, reached, fits, pathB_plainLink,
    (rename_all_or_nothing_iff reached fits pathA pathB pathB_plainLink).mpr ?_⟩
  intro ino can
  cases looked.symm.trans can.source
  exact ⟨file, rfl⟩

/-- The renaming of a directory fails and leaves a second name for it. -/
theorem rename_of_directory_not_nothing :
    ∃ (machine : Machine) (devices : Devices) (world : World) (oldpath newpath : Path),
      oldpath ≠ newpath ∧ (kernel machine devices).Reached (fun _ _ => True) world ∧
        world.fs.inodes.count ≤ 64 ∧
        ¬ AllOrNothing machine world.fs oldpath.chars newpath.chars := by
  obtain ⟨world, reached, fits, before, renamed⟩ : ∃ world,
      (kernel generous noDevices).Reached (fun _ _ => True) world ∧ world.fs.inodes.count ≤ 64 ∧
        lookupOf world.fs pathB.chars = some (.error .enoent) ∧
        ((vfsRename generous pathA.chars pathB.chars world.fs).any fun returned =>
          returned.1 = .error .eisdir ∧ lookupOf returned.2 pathB.chars = some (.ok 2)) = true :=
    exists_sampleRun [.mkdir pathA 0] (fun _ _ _ _ => trivial) (by decide +kernel)
  obtain ⟨⟨outcome, changed⟩, returned, rfl, after⟩ := exists_of_any renamed
  refine ⟨generous, noDevices, world, pathA, pathB, ?_, reached, fits, fun all => ?_⟩
  · intro same
    have chars := congrArg Path.chars same
    revert chars
    decide
  · have same : SamePaths world.fs changed := all (.error .eisdir) changed returned
    cases before.symm.trans ((same pathB).symm.trans after)

end Cosec.Fs.Renaming
