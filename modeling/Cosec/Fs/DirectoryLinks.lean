import Mathlib.Algebra.BigOperators.Fin
import Cosec.Fs.CallRuns
import Cosec.Lib.RefCounts

/-!
# Directory entries and link counters

Directories refer to inodes by the numbers in their entries, and `i_nlinks`
is the counter of an inode, so a mount is an instance of reference counting.
`LinkedMount` says that the mount is numbered, its entries and counters are
related, and the directory of every inode was never freed.  The relation is
left open, because some operations only keep the counters high enough.
-/

namespace Cosec.Fs.DirectoryLinks

open Fs.CallRuns Fs.FileBlocks Fs.InodeNumbers Fs.MountSteps Fs.PathLookup Fs.Ramfs Fs.VfsSteps
open Function Lib.Commands Lib.ObjectStore Lib.RefCounts Libc.Strings List

variable {machine : Machine} {fs changed : Mount}

/-! ## The entries of a directory -/

/-- The number of entries of a directory that lead to a number. -/
def entryRefs (table : Directory) (ino : Nat) : Nat :=
  ∑ bucket, (table.ht bucket).countP fun de => de.ino == ino

/-- Entries are references, and `i_nlinks` counts them. -/
def linkScheme : Scheme Directory Inode where
  refs := entryRefs
  counter := Inode.nlinks

/-- The number of entries that lead to a number. -/
def entryCount (fs : Mount) (ino : Nat) : Nat := linkScheme.references fs.directories ino

theorem entryRefs_emptyDirectory (ino : Nat) : entryRefs emptyDirectory ino = 0 := by
  simp [entryRefs, emptyDirectory]

variable {ino : Nat}

theorem entryRefs_pos_iff {table : Directory} :
    0 < entryRefs table ino ↔ ∃ bucket, ∃ de ∈ table.ht bucket, de.ino = ino := by
  unfold entryRefs
  rw [Nat.pos_iff_ne_zero, ne_eq, Finset.sum_eq_zero_iff]
  simp [countP_eq_zero]

/-- Replacing one bucket moves the number of entries by the difference. -/
theorem entryRefs_update
    (table : Directory) (bucket : Fin 8) (entries : List Direntry) (size ino : Nat) :
    entryRefs ⟨size, update table.ht bucket entries⟩ ino +
        (table.ht bucket).countP (fun de => de.ino == ino) =
      entryRefs table ino + entries.countP (fun de => de.ino == ino) := by
  unfold entryRefs
  rw [← Finset.add_sum_erase _ _ (Finset.mem_univ bucket),
    ← Finset.add_sum_erase (Finset.univ)
      (fun other => (table.ht other).countP fun de => de.ino == ino) (Finset.mem_univ bucket)]
  have others :
      ∑ other ∈ Finset.univ.erase bucket,
          (update table.ht bucket entries other).countP (fun de => de.ino == ino) =
        ∑ other ∈ Finset.univ.erase bucket, (table.ht other).countP (fun de => de.ino == ino) := by
    refine Finset.sum_congr rfl ?_
    intro other member
    rw [update_of_ne (Finset.ne_of_mem_erase member)]
  simp only [update_self, others]
  omega

variable {de : Direntry}

theorem entryRefs_insert {table grown : Directory} (inserted : directoryInsert table de = .ok grown)
    (ino : Nat) : entryRefs grown ino = entryRefs table ino + if ino = de.ino then 1 else 0 := by
  unfold directoryInsert at inserted
  simp only at inserted
  split at inserted
  · cases inserted
  · cases inserted
    have moved :=
      entryRefs_update table (htIndex de.hash)
        (table.ht (htIndex de.hash) ++ [de]) (table.size + 1) ino
    rw [countP_append, countP_singleton] at moved
    simp only [beq_iff_eq, eq_comm (a := de.ino)] at moved
    omega

variable {basename : CString} {namelen : Nat}

theorem sameName_iff_found {hash : UInt32} (short : basename.length < namelen)
    (bounded : namelen ≤ sizeMax) :
    (de.hash == hash && strncmp basename de.name namelen == 0) = sameName hash basename de := by
  have whole : strncmp basename de.name namelen = 0 ↔ strcmp de.name basename = 0 := by
    have inMemory : basename.length < 0xFFFFFFFF := lt_of_lt_of_le short bounded
    unfold strcmp
    rw [strncmp_eq_zero_of_lt short, strncmp_eq_zero_comm, strncmp_eq_zero_of_lt inMemory]
  unfold sameName
  rw [Bool.eq_iff_iff]
  simp only [Bool.and_eq_true, beq_iff_eq, whole]

theorem entryRefs_delete {table shrunk : Directory} (short : basename.length < namelen)
    (bounded : namelen ≤ sizeMax) (searched : directorySearch table basename namelen = .ok ino)
    (deleted : directoryDelete table basename namelen = .ok shrunk) (other : Nat) :
    entryRefs table other = entryRefs shrunk other + if other = ino then 1 else 0 := by
  unfold directorySearch at searched
  simp only [sameName_iff_found short bounded] at searched
  split at searched
  · rename_i de found
    cases searched
    unfold directoryDelete at deleted
    simp only at deleted
    split at deleted
    · cases deleted
      obtain ⟨matches_, before, after, split, unmatched⟩ := find?_eq_some_iff_append.mp found
      have moved :=
        entryRefs_update table (htIndex (strhash (basename.take namelen)))
          (before ++ after) (table.size - 1) other
      rw [split] at moved ⊢
      rw [eraseP_append_right _ (by simpa using unmatched), eraseP_cons_of_pos matches_]
      simp only [countP_append, countP_cons, beq_iff_eq, eq_comm (a := de.ino)] at moved
      omega
    · cases deleted
  · cases searched

/-! ## The invariant -/

/-- A numbered mount whose entries and counters are related. -/
structure LinkedMount (related : Nat → Nat → Prop) (fs : Mount) : Prop where
  numbered : Numbered fs
  counted : Counted linkScheme related fs.directories fs.inodes
  data :
    ∀ idata inode dir, fs.inodes.read idata = some inode →
      inode.data = some dir → fs.directories.Live dir

/-- The root is a directory that was never freed. -/
structure Rooted (fs : Mount) : Prop where
  live : fs.inodes.Live fs.rootIno
  isDir : ∃ inode, fs.inodes.read fs.rootIno = some inode ∧ IsDir inode.mode

theorem live_of_quietly
    {id : Nat} (quiet : Quietly fs changed) : (fs.inodes.Live id → changed.inodes.Live id) ∧
      (fs.directories.Live id → changed.directories.Live id) := by
  induction quiet with
  | refl => exact ⟨fun live => live, fun live => live⟩
  | tail _ step ih =>
    refine ⟨fun live => ?_, fun live => ?_⟩
    · have earlier := ih.1 live
      cases step with
      | inodeNew => exact Store.live_add_iff.mpr (Or.inl earlier)
      | edit | attach => exact Store.live_change_iff.mpr earlier
      | kmalloc | memory | directoryNew | insert | delete => exact earlier
    · have earlier := ih.2 live
      cases step with
      | directoryNew => exact Store.live_add_iff.mpr (Or.inl earlier)
      | insert | delete => exact Store.live_change_iff.mpr earlier
      | kmalloc | memory | inodeNew | edit | attach => exact earlier

theorem Rooted.eventually
    (rooted : Rooted fs) (steps : Eventually fs changed) (live : changed.inodes.Live fs.rootIno) :
    Rooted changed := by
  have kept := keepsTypes_of_eventually steps
  obtain ⟨inode, reading, isDir⟩ := rooted.isDir
  obtain ⟨after, afterReading, mode⟩ := kept.mode _ inode reading
  refine ⟨?_, after, ?_, ?_⟩
  · rwa [kept.root]
  · rwa [kept.root]
  · rwa [mode]

theorem Rooted.quietly (rooted : Rooted fs) (quiet : Quietly fs changed) : Rooted changed :=
  rooted.eventually (Quietly.eventually quiet) ((live_of_quietly quiet).1 rooted.live)

variable {idata : Nat}

/-- An unlink frees no directory, so it does not free the root. -/
theorem Rooted.removed (rooted : Rooted fs) (numbered : Numbered fs) {dir : Nat}
    (removed : Removed fs dir basename namelen changed) : Rooted changed := by
  cases removed with
  | intro reading searched found notDir deleted =>
    obtain ⟨rfl, target⟩ := numbered.read_of_found found
    have dropped (idata : Nat) := rooted.quietly (entryDropped_quietly reading deleted idata)
    split
    · exact dropped _
    · refine (dropped _).eventually (freed_eventually _ _ _)
        (Store.live_free_iff.mpr ⟨(dropped _).live, ?_⟩)
      intro isRoot
      obtain ⟨inode, rootReading, isDir⟩ := rooted.isDir
      rw [← isRoot] at target
      cases rootReading.symm.trans target
      exact notDir isDir

namespace LinkedMount

variable {related : Nat → Nat → Prop} {path : CString} {table grown : Directory} {dir : Nat}
  (linked : LinkedMount related fs)

include linked

theorem dataAll : DataAll fs fs.directories.Live := by
  intro ino idata inode dir found hasData
  exact linked.data idata inode dir (read_of_idataByInode found) hasData

theorem live_of_entryIn (live : fs.directories.Live dir) (entry : EntryIn fs dir ino) :
    fs.inodes.Live ino := by
  obtain ⟨table, reading, member⟩ := entry
  exact linked.counted.sound dir table live reading ino (entryRefs_pos_iff.mpr member)

/-! ## Changes that keep the invariant -/

theorem kmalloc (kmallocs : Nat) : LinkedMount related { fs with kmallocs := kmallocs } where
  numbered := linked.numbered.quiet (.kmalloc kmallocs) linked.numbered.flat.fits
  counted := linked.counted
  data := linked.data

theorem directoryNew : LinkedMount related (withDirectory fs) where
  numbered :=
    linked.numbered.eventually (Quietly.eventually (withDirectory_quietly fs))
      linked.numbered.flat.fits
  counted := linked.counted.addHolder entryRefs_emptyDirectory
  data := by
    intro idata inode dir reading hasData
    exact Store.live_add_iff.mpr (Or.inl (linked.data idata inode dir reading hasData))

variable {mode : UInt32} {node : Inode} (tracks : Tracks related)

include tracks

theorem inodeNew (room : fs.inodes.count < 64) (fresh : FreshNode node fs.inodes.count mode)
    (kmallocs : Nat) : LinkedMount related (withInode fs node kmallocs) where
  numbered := linked.numbered.inodeNew room fresh kmallocs
  counted := linked.counted.addTarget tracks fresh.nlinks
  data := by
    intro idata inode dir reading hasData
    simp only [withInode, Store.read_add] at reading
    split at reading
    · cases reading
      rw [fresh.data] at hasData
      cases hasData
    · exact linked.data idata inode dir reading hasData

theorem link (edit : Inode → Inode) (live : fs.directories.Live dir)
    (reading : fs.directories.read dir = some table)
    (inserted : directoryInsert table de = .ok grown) (targetLive : fs.inodes.Live de.ino)
    (keepsNumber : ∀ inode, (edit inode).ino = inode.ino)
    (counts : ∀ inode, (edit inode).nlinks = inode.nlinks + 1)
    (givesData :
      ∀ inode other, (edit inode).data = some other →
        inode.data = some other ∨ fs.directories.Live other) (kmallocs : Nat) :
    LinkedMount related
      { fs with
        directories := fs.directories.change dir fun _ => grown
        inodes := fs.inodes.change de.ino edit
        kmallocs := kmallocs } where
  numbered := by
    obtain ⟨inode, target⟩ := Store.exists_read targetLive.1
    have number := linked.numbered.self de.ino inode target
    have fits := linked.numbered.flat.fits
    have entered := linked.numbered.quiet (.insert reading inserted target number.symm) fits
    have edited := entered.changeInode de.ino keepsNumber fun inode other hasData =>
          (givesData inode other hasData).imp_right fun otherLive => by
            rw [Store.count_change]
            exact otherLive.1
    exact edited.quiet (.kmalloc kmallocs) (by simpa using fits)
  counted := linked.counted.link tracks live reading targetLive (entryRefs_insert inserted) counts
  data := by
    intro idata inode other otherReading hasData
    rw [Store.live_change_iff]
    obtain ⟨before, beforeReading, rfl | rfl⟩ := read_change_inode otherReading
    · exact linked.data idata inode other beforeReading hasData
    · rcases givesData before other hasData with older | otherLive
      · exact linked.data idata before other beforeReading older
      · exact otherLive

theorem linkEntry (live : fs.directories.Live dir) (reading : fs.directories.read dir = some table)
    (inserted : directoryInsert table de = .ok grown) (targetLive : fs.inodes.Live de.ino)
    (kmallocs : Nat) :
    LinkedMount related
      { fs with
        directories := fs.directories.change dir fun _ => grown
        inodes := fs.inodes.change de.ino addLink
        kmallocs := kmallocs } :=
  linked.link tracks addLink live reading inserted targetLive
    (fun _ => rfl) (fun _ => rfl) (fun _ _ => Or.inl) kmallocs

theorem freeInode {inode : Inode} (reading : fs.inodes.read idata = some inode)
    (unlinked : inode.nlinks = 0) (plain : inode.data = none ∨ ¬ IsDir inode.mode) :
    LinkedMount related (freed fs idata inode) := by
  have directories : (freed fs idata inode).directories = fs.directories := by
    unfold freed
    cases hasData : inode.data with
    | none => rfl
    | some dir =>
      rcases plain with noData | notDir
      · rw [hasData] at noData
        cases noData
      · simp only [if_neg notDir]
  have numbered :=
    linked.numbered.eventually (freed_eventually fs idata inode)
      (by simpa [freed] using linked.numbered.flat.fits)
  refine ⟨numbered, ?_, ?_⟩
  · rw [directories]
    exact linked.counted.freeTarget tracks reading unlinked
  · intro other content dir otherReading hasData
    rw [directories]
    simp only [freed, Store.read_free] at otherReading
    exact linked.data other content dir otherReading hasData

theorem linkInode {dirino : Nat} {name : CString} (targetLive : fs.inodes.Live ino)
    (link : Linked fs ino dirino name changed) : LinkedMount related changed := by
  cases link with
  | intro dirFound isDir dirData found reading inserted =>
    obtain ⟨rfl, target⟩ := linked.numbered.read_of_found found
    have number := linked.numbered.self _ _ target
    have live := linked.dataAll _ _ _ _ dirFound dirData
    rw [number] at inserted
    exact linked.linkEntry tracks live reading inserted targetLive _

theorem enter (live : fs.directories.Live dir) (targetLive : fs.inodes.Live idata)
    (unrefused :
      (∀ references counter, related references counter → related references (counter + 1)) ∨
      ∀ data, path ≠ [] → ParentOf fs path data → ¬ EntryRefused machine fs data (newName path))
    (entered : Entered machine path idata dir idata fs changed) : LinkedMount related changed := by
  cases entered with
  | self root reading inserted => exact linked.linkEntry tracks live reading inserted targetLive _
  | parent below parentOf tried =>
    rcases tried with
      ⟨_, id, table, grown, rfl, reading, inserted, rfl⟩ |
      ⟨refused, rfl⟩
    · obtain ⟨parino, parIdata, inode, _, found, _, hasData⟩ := parentOf
      have dirLive := linked.dataAll parino parIdata inode id found hasData
      exact linked.linkEntry tracks dirLive reading inserted targetLive _
    · rcases unrefused with lenient | accepted
      · have before := linked.kmalloc (fs.kmallocs + entryCalls machine fs.kmallocs)
        constructor
        · exact before.numbered.quiet (.edit idata addLink_keepsIdentity)
            (by simpa using before.numbered.flat.fits)
        · exact before.counted.editTarget fun references inode => lenient references inode.nlinks
        · intro other inode dir reading hasData
          obtain ⟨found, foundReading, rfl | rfl⟩ := read_change_inode reading
          · exact before.data other inode dir foundReading hasData
          · exact before.data other found dir foundReading hasData
      · exact absurd refused (accepted _ below parentOf)

theorem finish (live : fs.directories.Live dir) (targetLive : fs.inodes.Live idata)
    (reading : fs.directories.read dir = some table)
    (inserted : directoryInsert table ⟨strhash dotName, dotName, idata⟩ = .ok grown)
    (kmallocs : Nat) :
    LinkedMount related
      (attached
        { fs with
          directories := fs.directories.change dir fun _ => grown
          kmallocs := kmallocs } idata dir) := by
  have attachedData :
      ∀ (inode : Inode) other,
        (addLink (setData dir inode)).data = some other →
          inode.data = some other ∨ fs.directories.Live other := by
    intro inode other hasData
    cases hasData
    exact Or.inr live
  exact linked.link tracks (fun inode => addLink (setData dir inode))
    live reading inserted targetLive (fun _ => rfl) (fun _ => rfl) attachedData kmallocs

/-- The second half of `ramfs_unlink_inode`. -/
theorem remove (live : fs.directories.Live dir) (short : basename.length < namelen)
    (bounded : namelen ≤ sizeMax) (removed : Removed fs dir basename namelen changed) :
    LinkedMount related changed := by
  cases removed with
  | intro reading searched found notDir deleted =>
    obtain ⟨rfl, target⟩ := linked.numbered.read_of_found found
    rename_i ino _ _ shrunk
    have dropped : LinkedMount related (entryDropped fs dir shrunk ino) := by
      constructor
      · exact linked.numbered.eventually
          (Quietly.eventually (entryDropped_quietly reading deleted ino))
          (by simpa [entryDropped] using linked.numbered.flat.fits)
      · refine linked.counted.unlink tracks live reading
          (entryRefs_delete short bounded searched deleted) ?_
        intro inode positive
        have counts : 0 < inode.nlinks := positive
        simp only [linkScheme, dropLink]
        rw [if_neg (ne_of_gt counts)]
        omega
      · intro idata inode other otherReading hasData
        simp only [entryDropped] at otherReading ⊢
        rw [Store.live_change_iff]
        obtain ⟨before, beforeReading, rfl | rfl⟩ := read_change_inode otherReading
        · exact linked.data idata inode other beforeReading hasData
        · exact linked.data idata before other beforeReading hasData
    split
    · exact dropped
    · rename_i unused
      rw [not_or, not_lt, Nat.le_zero] at unused
      refine dropped.freeInode tracks ?_ unused.1 (Or.inr notDir)
      simp only [entryDropped, Store.read_change, if_true, target]
      rfl

/-- `error_exit` of a directory that was not entered anywhere. -/
theorem abandon (room : fs.inodes.count < 64) (fresh : FreshNode node fs.inodes.count mode)
    (kmallocs : Nat) :
    LinkedMount related
      (abandoned (withDirectory (withInode fs node kmallocs))
        fs.directories.count fs.inodes.count node) := by
  have made := (linked.inodeNew tracks room fresh kmallocs).directoryNew
  have live : (withDirectory (withInode fs node kmallocs)).directories.Live fs.directories.count :=
    Store.live_add_iff.mpr (Or.inr rfl)
  have emptied :
      LinkedMount related
        { withDirectory (withInode fs node kmallocs) with
          directories := (fs.directories.add emptyDirectory).free fs.directories.count } :=
    { numbered := made.numbered.freeing (.directory _)
      counted := made.counted.freeHolder live Store.read_add_count entryRefs_emptyDirectory
      data := by
        intro idata inode other reading hasData
        refine Store.live_free_iff.mpr ⟨made.data idata inode other reading hasData, ?_⟩
        rintro rfl
        exact lt_irrefl _
          ((linked.inodeNew tracks room fresh kmallocs).data idata inode _ reading hasData).1 }
  exact emptied.freeInode tracks Store.read_add_count fresh.nlinks (Or.inl fresh.data)

theorem makeDirectory (room : fs.inodes.count < 64) {middle : Mount} {kmallocs : Nat}
    (fresh : FreshNode node fs.inodes.count mode)
    (unrefused :
      (∀ references counter, related references counter → related references (counter + 1)) ∨
      ∀ data, path ≠ [] → ParentOf (withDirectory (withInode fs node kmallocs)) path data →
        ¬ EntryRefused machine (withDirectory (withInode fs node kmallocs)) data (newName path))
    (entries :
      EntriesMade machine path fs.inodes.count fs.directories.count
        fs.inodes.count (withDirectory (withInode fs node kmallocs)) middle) :
    LinkedMount related (attached middle fs.inodes.count fs.directories.count) := by
  have made := (linked.inodeNew tracks room fresh kmallocs).directoryNew
  have live : (withDirectory (withInode fs node kmallocs)).directories.Live fs.directories.count :=
    Store.live_add_iff.mpr (Or.inr rfl)
  have targetLive : (withDirectory (withInode fs node kmallocs)).inodes.Live fs.inodes.count :=
    Store.live_add_iff.mpr (Or.inr rfl)
  cases entries with
  | intro entered reading inserted =>
    have target :
        (withDirectory (withInode fs node kmallocs)).inodes.read fs.inodes.count = some node :=
      Store.read_add_count
    have quiet := (entered_quietly target fresh.ino.symm entered).1
    exact (made.enter tracks live targetLive unrefused entered).finish
      tracks ((live_of_quietly quiet).2 live)
      ((live_of_quietly quiet).1 targetLive) reading inserted _

end LinkedMount

variable {related : Nat → Nat → Prop}

theorem dataMount_linkedMount (tracks : Tracks related) (memory : PageMemory) :
    LinkedMount related (dataMount memory) := by
  have empty :
      Counted linkScheme related (Store.empty : Store Directory) (Store.empty : Store Inode) :=
    ⟨fun _ _ live => absurd live.1 (Nat.not_lt_zero _),
      fun _ _ live => absurd live.1 (Nat.not_lt_zero _)⟩
  refine ⟨dataMount_numbered memory, empty.addTarget tracks rfl, ?_⟩
  intro idata inode dir reading hasData
  have present := (dataMount_numbered memory).data idata inode dir reading hasData
  exact absurd present (Nat.not_lt_zero _)

/-- A mounted file system satisfies the invariant, however it is related. -/
theorem mounted_linkedMount (tracks : Tracks related) {memory : PageMemory}
    (mounted : Returns (readSuperblock machine) (blank memory) (.ok ⟨⟩) fs) :
    LinkedMount related fs ∧ Rooted fs := by
  obtain ⟨middle, entries, rfl⟩ := readSuperblock_spec.returns _ _ mounted.run rfl
  have quiet := (entriesMade_quietly (rootMaking_target memory) rfl entries).1
  have attachedQuiet := quiet.trans (attached_quietly 1 (count_le_of_quietly quiet).2)
  have linked :=
    (dataMount_linkedMount tracks memory).makeDirectory tracks
      (show 1 < 64 by decide) (newInode_freshNode 1 rootMode)
      (Or.inr fun _ below => absurd rfl below) entries
  have live := (live_of_quietly attachedQuiet).1 (Store.live_add_iff.mpr (Or.inr rfl))
  obtain ⟨inode, reading, mode⟩ :=
    (keepsTypes_of_eventually (Quietly.eventually attachedQuiet)).mode 1
      _ (rootMaking_target memory)
  have isDir : IsDir inode.mode := by
    rw [mode]
    decide
  exact ⟨⟨readSuperblock_numbered mounted, linked.counted, linked.data⟩,
    ⟨live, inode, reading, isDir⟩⟩

end Cosec.Fs.DirectoryLinks
