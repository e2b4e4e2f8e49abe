import Cosec.Fs.InodeNumbers
import Cosec.Fs.VfsSteps

/-!
# Path lookup in a numbered mount

While the inode table has not grown, inode numbers and objects are the same
numbers and everything a lookup meets is a number that was given out.  Every
elementary change keeps this, so it holds in every mount with at most 64
objects that the operations lead to.

So a lookup does not see inodes and directories that were made after the
entries it follows, which relates the lookups in the middle of an operation
to the mount it started from.
-/

namespace Cosec.Fs.PathLookup

open Fs.InodeNumbers Fs.MountSteps Fs.Ramfs Fs.VfsSteps Function Lib.ObjectStore Lib.Word32
open Libc.Strings List

variable {machine : Machine} {fs changed : Mount}

/-! ## Numbered mounts -/

theorem idataByInode_flat (flat : FlatMount fs) (ino : Nat) :
    idataByInode fs ino = some ((fs.inodes.read ino).map fun inode => (ino, inode)) := by
  unfold idataByInode
  rw [getIndex_flat flat]
  by_cases inside : ino < fs.inodes.count
  · obtain ⟨inode, reading⟩ := Store.exists_read inside
    simp [inside, reading]
  · have missing := Store.read_eq_none_iff.mpr (not_lt.mp inside)
    simp [inside, missing]

/-- Every number in a mount is one that was given out. -/
structure Numbered (fs : Mount) : Prop where
  flat : FlatMount fs
  self : ∀ idata inode, fs.inodes.read idata = some inode → inode.ino = idata
  entries :
    ∀ dir table, fs.directories.read dir = some table →
      ∀ bucket, ∀ de ∈ table.ht bucket, de.ino < fs.inodes.count
  data :
    ∀ idata inode dir, fs.inodes.read idata = some inode →
      inode.data = some dir → dir < fs.directories.count
  root : fs.rootIno < fs.inodes.count

variable {table : Directory}

/-- A new entry comes behind the others of its bucket. -/
theorem ht_of_directoryInsert {grown : Directory} {de : Direntry}
    (inserted : directoryInsert table de = .ok grown) (bucket : Fin 8) :
    grown.ht bucket = table.ht bucket ++ if bucket = htIndex de.hash then [de] else [] := by
  unfold directoryInsert at inserted
  dsimp only at inserted
  split_ifs at inserted
  cases inserted
  dsimp only
  by_cases here : bucket = htIndex de.hash
  · subst here
    rw [if_pos rfl, update_self]
  · rw [if_neg here, append_nil, update_of_ne here]

theorem mem_of_directoryInsert {grown : Directory} {de other : Direntry} {bucket : Fin 8}
    (inserted : directoryInsert table de = .ok grown) (member : other ∈ grown.ht bucket) :
    other = de ∨ other ∈ table.ht bucket := by
  rw [ht_of_directoryInsert inserted, mem_append] at member
  rcases member with older | new
  · exact Or.inr older
  · split_ifs at new with here
    · exact Or.inl (mem_singleton.mp new)
    · cases new

theorem mem_of_directoryDelete
    {shrunk : Directory} {name : CString} {namelen : Nat} {other : Direntry} {bucket : Fin 8}
    (deleted : directoryDelete table name namelen = .ok shrunk)
    (member : other ∈ shrunk.ht bucket) : other ∈ table.ht bucket := by
  unfold directoryDelete at deleted
  simp only at deleted
  split at deleted
  · cases deleted
    simp only at member
    by_cases here : bucket = htIndex (strhash (name.take namelen))
    · subst here
      rw [update_self] at member
      exact mem_of_mem_eraseP member
    · rw [update_of_ne here] at member
      exact member
  · cases deleted

/-- The tables of the directories after one of them was replaced. -/
theorem read_change_const {store : Store Directory} {dir other : Nat} {found : Directory}
    (reading : (store.change dir fun _ => table).read other = some found) :
    (other = dir ∧ found = table) ∨ store.read other = some found := by
  rw [Store.read_change] at reading
  split at reading
  · rename_i same
    obtain ⟨_, _, rfl⟩ := Option.map_eq_some_iff.mp reading
    exact Or.inl ⟨same, rfl⟩
  · exact Or.inr reading

variable {edit : Inode → Inode}

/-- The inodes after one of them was edited. -/
theorem read_change_inode {store : Store Inode} {idata other : Nat} {found : Inode}
    (reading : (store.change idata edit).read other = some found) :
    ∃ before, store.read other = some before ∧ (found = before ∨ found = edit before) := by
  rw [Store.read_change] at reading
  split at reading
  · obtain ⟨before, beforeReading, equal⟩ := Option.map_eq_some_iff.mp reading
    exact ⟨before, beforeReading, Or.inr equal.symm⟩
  · exact ⟨found, reading, Or.inl rfl⟩

theorem count_le_of_elementary (step : Elementary fs changed) :
    fs.inodes.count ≤ changed.inodes.count := by
  rcases step with quiet | freeing
  · exact (count_le_of_quiet quiet).1
  · cases freeing with
    | inode idata => simp
    | directory dir => exact le_rfl

theorem count_le_of_eventually (steps : Eventually fs changed) :
    fs.inodes.count ≤ changed.inodes.count := by
  induction steps with
  | refl => exact le_rfl
  | tail _ step ih =>
    exact le_trans ih (count_le_of_elementary step)

section Numbered

variable (numbered : Numbered fs)

include numbered

theorem Numbered.inodeNew (room : fs.inodes.count < 64) {node : Inode} {mode : UInt32}
    (fresh : FreshNode node fs.inodes.count mode) (kmallocs : Nat) :
    Numbered (withInode fs node kmallocs) where
  flat := withInode_flat room node kmallocs
  self := by
    intro idata inode reading
    simp only [withInode, Store.read_add] at reading
    split at reading
    · rename_i isNew
      cases reading
      exact fresh.ino.trans isNew.symm
    · exact numbered.self idata inode reading
  entries := by
    intro dir table reading bucket de member
    have earlier := numbered.entries dir table reading bucket de member
    simp only [withInode, Store.count_add]
    omega
  data := by
    intro idata inode dir reading hasData
    simp only [withInode, Store.read_add] at reading
    split at reading
    · cases reading
      rw [fresh.data] at hasData
      cases hasData
    · exact numbered.data idata inode dir reading hasData
  root := by
    have earlier := numbered.root
    simp only [withInode, Store.count_add]
    omega

theorem Numbered.changeInode (idata : Nat) (keepsNumber : ∀ inode, (edit inode).ino = inode.ino)
    (givesData :
      ∀ inode dir, (edit inode).data = some dir →
        inode.data = some dir ∨ dir < fs.directories.count) :
    Numbered { fs with inodes := fs.inodes.change idata edit } := by
  obtain ⟨flat, self, entries, data, root⟩ := numbered
  constructor
  · constructor
    · rw [Store.count_change]
      exact flat.inhabited
    · rw [Store.count_change]
      exact flat.fits
    · rw [Store.count_change]
      exact flat.tree
  · intro other inode reading
    obtain ⟨before, beforeReading, rfl | rfl⟩ := read_change_inode reading
    · exact self other _ beforeReading
    · rw [keepsNumber]
      exact self other before beforeReading
  · intro dir table reading bucket de member
    rw [Store.count_change]
    exact entries dir table reading bucket de member
  · intro other inode dir reading hasData
    obtain ⟨before, beforeReading, rfl | rfl⟩ := read_change_inode reading
    · exact data other _ dir beforeReading hasData
    · rcases givesData before dir hasData with older | present
      · exact data other before dir beforeReading older
      · exact present
  · rw [Store.count_change]
    exact root

theorem Numbered.quiet (quiet : Quiet fs changed) (fits : changed.inodes.count ≤ 64) :
    Numbered changed := by
  obtain ⟨flat, self, entries, data, root⟩ := numbered
  cases quiet with
  | kmalloc kmallocs => exact ⟨⟨flat.inhabited, flat.fits, flat.tree⟩, self, entries, data, root⟩
  | memory memory => exact ⟨⟨flat.inhabited, flat.fits, flat.tree⟩, self, entries, data, root⟩
  | inodeNew fresh inserted =>
    simp only [Store.count_add] at fits
    have room : fs.inodes.count < 64 := by omega
    rw [newLeaf_flat flat room] at inserted
    cases inserted
    exact Numbered.inodeNew ⟨flat, self, entries, data, root⟩ room fresh _
  | directoryNew =>
    refine ⟨⟨flat.inhabited, flat.fits, flat.tree⟩, self, ?_, ?_, root⟩
    · intro dir table reading bucket de member
      simp only [Store.read_add] at reading
      split at reading
      · cases reading
        cases member
      · exact entries dir table reading bucket de member
    · intro idata inode dir reading hasData
      have earlier := data idata inode dir reading hasData
      simp only [Store.count_add]
      omega
  | insert reading inserted target number =>
    refine ⟨⟨flat.inhabited, flat.fits, flat.tree⟩, self, ?_, ?_, root⟩
    · intro other table otherReading bucket de member
      rcases read_change_const otherReading with ⟨_, rfl⟩ | before
      · rcases mem_of_directoryInsert inserted member with rfl | older
        · have bound := Store.lt_count_of_read target
          rw [number, self _ _ target]
          exact bound
        · exact entries _ _ reading bucket de older
      · exact entries other table before bucket de member
    · intro idata inode dir inodeReading hasData
      rw [Store.count_change]
      exact data idata inode dir inodeReading hasData
  | delete reading deleted =>
    refine ⟨⟨flat.inhabited, flat.fits, flat.tree⟩, self, ?_, ?_, root⟩
    · intro other table otherReading bucket de member
      rcases read_change_const otherReading with ⟨_, rfl⟩ | before
      · exact entries _ _ reading bucket de (mem_of_directoryDelete deleted member)
      · exact entries other table before bucket de member
    · intro idata inode dir inodeReading hasData
      rw [Store.count_change]
      exact data idata inode dir inodeReading hasData
  | edit idata kept =>
    exact Numbered.changeInode ⟨flat, self, entries, data, root⟩ idata
      kept.ino (fun inode dir hasData => Or.inl (by rwa [kept.data] at hasData))
  | attach idata present =>
    exact Numbered.changeInode ⟨flat, self, entries, data, root⟩ idata
      (fun _ => rfl) (fun inode dir hasData => Or.inr (by
        cases hasData
        exact present))

variable {ino : Nat}

theorem Numbered.freeing (freeing : Freeing fs changed) : Numbered changed := by
  obtain ⟨flat, self, entries, data, root⟩ := numbered
  cases freeing with
  | inode idata =>
    constructor
    · constructor
      · rw [Store.count_free]
        exact flat.inhabited
      · rw [Store.count_free]
        exact flat.fits
      · rw [Store.count_free]
        exact flat.tree
    · intro other inode reading
      rw [Store.read_free] at reading
      exact self other inode reading
    · intro dir table reading bucket de member
      rw [Store.count_free]
      exact entries dir table reading bucket de member
    · intro other inode dir reading hasData
      rw [Store.read_free] at reading
      exact data other inode dir reading hasData
    · rw [Store.count_free]
      exact root
  | directory dir =>
    refine ⟨⟨flat.inhabited, flat.fits, flat.tree⟩, self, ?_, ?_, root⟩
    · intro other table reading bucket de member
      rw [Store.read_free] at reading
      exact entries other table reading bucket de member
    · intro idata inode other reading hasData
      rw [Store.count_free]
      exact data idata inode other reading hasData

/-- A run that never outgrows the table keeps the numbering. -/
theorem Numbered.eventually (steps : Eventually fs changed) (fits : changed.inodes.count ≤ 64) :
    Numbered changed := by
  induction steps with
  | refl => exact numbered
  | tail _ step ih =>
    have earlier := ih (le_trans (count_le_of_elementary step) fits)
    rcases step with quiet | freeing
    · exact earlier.quiet quiet fits
    · exact earlier.freeing freeing

end Numbered

/-- The root and the types of the inodes of a mount stay. -/
structure KeepsTypes (fs changed : Mount) : Prop where
  root : changed.rootIno = fs.rootIno
  mode :
    ∀ idata inode, fs.inodes.read idata = some inode →
      ∃ after, changed.inodes.read idata = some after ∧ after.mode = inode.mode

/-- An inode keeps its type, and a directory its table. -/
def KeptInode (inode after : Inode) : Prop :=
  after.mode = inode.mode ∧ (inode.data ≠ none → after.data ≠ none)

theorem kept_change {idata other : Nat} {inode : Inode}
    (reading : fs.inodes.read other = some inode)
    (kept : ∀ inode, KeptInode inode (edit inode)) :
    ∃ after, (fs.inodes.change idata edit).read other = some after ∧ KeptInode inode after := by
  simp only [Store.read_change]
  split
  · exact ⟨edit inode, by rw [reading]; rfl, kept inode⟩
  · exact ⟨inode, reading, rfl, id⟩

theorem kept_of_elementary {idata : Nat} {inode : Inode} (step : Elementary fs changed)
    (reading : fs.inodes.read idata = some inode) :
    ∃ after, changed.inodes.read idata = some after ∧ KeptInode inode after := by
  rcases step with quiet | freeing
  · cases quiet with
    | kmalloc | memory | directoryNew | insert | delete => exact ⟨inode, reading, rfl, id⟩
    | inodeNew fresh inserted => exact ⟨inode, Store.read_add_of_read reading, rfl, id⟩
    | edit idata kept =>
      exact kept_change reading fun inode => ⟨kept.mode inode, by rw [kept.data]; exact id⟩
    | attach idata present =>
      refine kept_change reading ?_
      exact fun _ => ⟨rfl, fun _ => Option.some_ne_none _⟩
  · cases freeing with
    | inode idata => exact ⟨inode, by rwa [Store.read_free], rfl, id⟩
    | directory dir => exact ⟨inode, reading, rfl, id⟩

/-- A run keeps the root, the types and the tables. -/
theorem kept_of_eventually (steps : Eventually fs changed) :
    changed.rootIno = fs.rootIno ∧
      ∀ idata inode, fs.inodes.read idata = some inode →
        ∃ after, changed.inodes.read idata = some after ∧ KeptInode inode after := by
  induction steps with
  | refl => exact ⟨rfl, fun idata inode reading => ⟨inode, reading, rfl, id⟩⟩
  | tail _ step ih =>
    constructor
    · rw [← ih.1]
      rcases step with quiet | freeing
      · cases quiet <;> rfl
      · cases freeing <;> rfl
    · intro idata inode reading
      obtain ⟨middle, middleReading, middleMode, middleData⟩ := ih.2 idata inode reading
      obtain ⟨after, afterReading, mode, data⟩ := kept_of_elementary step middleReading
      exact ⟨after, afterReading, mode.trans middleMode, fun hasData => data (middleData hasData)⟩

theorem keepsTypes_of_eventually (steps : Eventually fs changed) : KeepsTypes fs changed := by
  obtain ⟨root, inodes⟩ := kept_of_eventually steps
  refine ⟨root, fun idata inode reading => ?_⟩
  obtain ⟨after, afterReading, mode, _⟩ := inodes idata inode reading
  exact ⟨after, afterReading, mode⟩

/-! ## Where a lookup ends -/

/-- An entry of a directory leads to a number. -/
def EntryIn (fs : Mount) (dir ino : Nat) : Prop :=
  ∃ table, fs.directories.read dir = some table ∧ ∃ bucket, ∃ de ∈ table.ht bucket, de.ino = ino

theorem entryIn_of_searchAt {dir len ino : Nat} {basename : CString}
    (searched : searchAt fs dir basename len = some (.ok ino)) : EntryIn fs dir ino := by
  obtain ⟨table, reading, found⟩ := Option.map_eq_some_iff.mp searched
  unfold directorySearch at found
  simp only at found
  split at found
  · rename_i de isFound
    cases found
    exact ⟨table, reading, _, de, mem_of_find?_eq_some isFound, rfl⟩
  · cases found

/-- Every directory that an inode number leads to satisfies `good`. -/
def DataAll (fs : Mount) (good : Nat → Prop) : Prop :=
  ∀ ino idata inode dir, idataByInode fs ino = some (some (idata, inode)) →
    inode.data = some dir → good dir

variable {good : Nat → Prop}

theorem rootDirectory_iff {dir : Nat} :
    rootDirectory fs = some (.ok dir) ↔ enterDirectory fs fs.rootIno = some (.ok dir) := by
  unfold rootDirectory enterDirectory
  cases idataByInode fs fs.rootIno with
  | none => rfl
  | some found =>
    cases found with
    | none => simp
    | some pair =>
      dsimp only
      split_ifs
      · rfl
      · simp

theorem good_of_enterDirectory
    (all : DataAll fs good) {ino dir : Nat} (entered : enterDirectory fs ino = some (.ok dir)) :
    good dir := by
  unfold enterDirectory at entered
  split at entered
  · cases entered
  · cases entered
  · rename_i idata inode found
    split at entered
    · obtain ⟨_, hasData, equal⟩ := Option.map_eq_some_iff.mp entered
      cases equal
      exact all ino idata inode dir found hasData
    · cases entered

variable {path : CString}

theorem lookupLoop_ends (all : DataAll fs good) :
    ∀ {pathlen dir ino : Nat} {basename : CString} {skipping : Bool}, good dir →
      lookupLoop fs path pathlen dir basename skipping = some (.ok ino) →
      ∃ last, good last ∧ EntryIn fs last ino := by
  induction path with
  | nil =>
    intro pathlen dir ino basename skipping isGood looked
    exact ⟨dir, isGood, entryIn_of_searchAt looked⟩
  | cons char rest ih =>
    intro pathlen dir ino basename skipping isGood looked
    rw [lookupLoop] at looked
    split at looked
    · exact ih isGood looked
    · split at looked
      · exact ⟨dir, isGood, entryIn_of_searchAt looked⟩
      · split at looked
        · exact ih isGood looked
        · split at looked
          · rename_i found searched
            split at looked
            · cases looked
              exact ⟨dir, isGood, entryIn_of_searchAt searched⟩
            · split at looked
              · rename_i below entered
                exact ih (good_of_enterDirectory all entered) looked
              · rename_i notOk
                exact absurd looked (notOk ino)
          · rename_i notOk
            exact absurd looked (notOk ino)

/-- A lookup ends at the root or at an entry of a good directory. -/
theorem lookupInode_ends (all : DataAll fs good) {pathlen ino : Nat}
    (looked : lookupInode path pathlen fs = some (.ok ino)) :
    ino = fs.rootIno ∨ ∃ dir, good dir ∧ EntryIn fs dir ino := by
  unfold lookupInode at looked
  split at looked
  · cases looked
    exact Or.inl rfl
  · split at looked
    · rename_i dir entered
      have isGood := good_of_enterDirectory all (rootDirectory_iff.mp entered)
      exact Or.inr (lookupLoop_ends all isGood looked)
    · rename_i notOk
      exact absurd looked (notOk ino)

/-! ## Lookups that do not see what was made later -/

/-- A later mount in which the numbers of an earlier one stand unchanged. -/
structure Agrees (fs later : Mount) : Prop where
  root : later.rootIno = fs.rootIno
  inode : ∀ ino, ino < fs.inodes.count → idataByInode later ino = idataByInode fs ino
  directory :
    ∀ dir, dir < fs.directories.count → later.directories.read dir = fs.directories.read dir

variable {later : Mount}

theorem Agrees.searchAt
    (agrees : Agrees fs later) {dir : Nat} (present : dir < fs.directories.count)
    (basename : CString) (len : Nat) :
    searchAt later dir basename len = searchAt fs dir basename len := by
  unfold Ramfs.searchAt
  rw [agrees.directory dir present]

theorem Agrees.enterDirectory (agrees : Agrees fs later) (present : ino < fs.inodes.count) :
    enterDirectory later ino = enterDirectory fs ino := by
  unfold Ramfs.enterDirectory
  rw [agrees.inode ino present]

section Lookups

variable (numbered : Numbered fs)

include numbered

/-- A number that resolves was given out, and its object is read. -/
theorem Numbered.read_of_found {ino idata : Nat} {inode : Inode}
    (found : idataByInode fs ino = some (some (idata, inode))) :
    idata = ino ∧ fs.inodes.read ino = some inode := by
  rw [idataByInode_flat numbered.flat] at found
  simp only [Option.some.injEq, Option.map_eq_some_iff, Prod.mk.injEq] at found
  obtain ⟨content, reading, rfl, rfl⟩ := found
  exact ⟨rfl, reading⟩

theorem Numbered.found_of_lt (present : ino < fs.inodes.count) :
    ∃ inode, fs.inodes.read ino = some inode ∧ idataByInode fs ino = some (some (ino, inode)) := by
  obtain ⟨inode, reading⟩ := Store.exists_read present
  refine ⟨inode, reading, ?_⟩
  rw [idataByInode_flat numbered.flat, reading]
  rfl

/-- The directories a lookup enters are among those of the mount. -/
theorem Numbered.dataAll : DataAll fs fun dir => dir < fs.directories.count := by
  intro ino idata inode dir found hasData
  obtain ⟨_, reading⟩ := numbered.read_of_found found
  exact numbered.data ino inode dir reading hasData

theorem Numbered.lt_of_entryIn {dir ino : Nat} (entry : EntryIn fs dir ino) :
    ino < fs.inodes.count := by
  obtain ⟨table, reading, bucket, de, member, rfl⟩ := entry
  exact numbered.entries dir table reading bucket de member

theorem Numbered.lt_of_lookupInode {pathlen ino : Nat}
    (looked : lookupInode path pathlen fs = some (.ok ino)) : ino < fs.inodes.count := by
  rcases lookupInode_ends numbered.dataAll looked with
    rfl | ⟨dir, _, entry⟩
  · exact numbered.root
  · exact numbered.lt_of_entryIn entry

theorem Numbered.not_parentMissing : ¬ ParentMissing fs path := by
  rintro ⟨parino, looked, missing⟩
  obtain ⟨inode, _, found⟩ := numbered.found_of_lt (numbered.lt_of_lookupInode looked)
  rw [missing] at found
  cases found

theorem agrees_withInode (room : fs.inodes.count < 64) (node : Inode) (kmallocs : Nat) :
    Agrees fs (withInode fs node kmallocs) where
  root := rfl
  inode := by
    intro ino present
    rw [idataByInode_flat (withInode_flat room node kmallocs), idataByInode_flat numbered.flat]
    simp only [withInode, Store.read_add]
    rw [if_neg (ne_of_lt present)]
  directory := fun _ _ => rfl

variable (agrees : Agrees fs later)

include agrees

theorem Agrees.lookupLoop :
    ∀ {pathlen dir : Nat} {basename : CString} {skipping : Bool}, dir < fs.directories.count →
      lookupLoop later path pathlen dir basename skipping =
        lookupLoop fs path pathlen dir basename skipping := by
  induction path with
  | nil =>
    intro pathlen dir basename skipping present
    exact agrees.searchAt present _ _
  | cons char rest ih =>
    intro pathlen dir basename skipping present
    rw [Ramfs.lookupLoop, Ramfs.lookupLoop, agrees.searchAt present, ih present, ih present]
    split
    · rfl
    · split
      · rfl
      · split
        · rfl
        · cases searched : Ramfs.searchAt fs dir basename basename.length with
          | none => rfl
          | some outcome =>
            cases outcome with
            | error error => rfl
            | ok ino =>
              have numberPresent := numbered.lt_of_entryIn (entryIn_of_searchAt searched)
              simp only
              rw [agrees.enterDirectory numberPresent]
              split
              · rfl
              · split
                · rename_i below entered
                  exact ih (good_of_enterDirectory numbered.dataAll entered)
                · rfl

theorem Agrees.lookupInode (path : CString) (pathlen : Nat) :
    lookupInode path pathlen later = lookupInode path pathlen fs := by
  unfold Ramfs.lookupInode Ramfs.rootDirectory
  rw [agrees.root, agrees.inode fs.rootIno numbered.root]
  split
  · rfl
  · split
    · rename_i dir entered
      have isGood := good_of_enterDirectory numbered.dataAll (rootDirectory_iff.mp entered)
      exact agrees.lookupLoop numbered isGood
    · rfl

theorem Agrees.parentOf_iff {data : Option Nat} :
    ParentOf later path data ↔ ParentOf fs path data := by
  unfold ParentOf
  rw [agrees.lookupInode numbered]
  refine exists_congr fun parino => exists_congr fun parIdata =>
    exists_congr fun inode => and_congr_right fun looked => ?_
  rw [agrees.inode parino (numbered.lt_of_lookupInode looked)]

theorem Agrees.parentFault_iff : ParentFault later path ↔ ParentFault fs path := by
  unfold ParentFault
  rw [agrees.lookupInode numbered]
  refine or_congr_right (exists_congr fun parino =>
    exists_congr fun parIdata => exists_congr fun inode => and_congr_right fun looked => ?_)
  rw [agrees.inode parino (numbered.lt_of_lookupInode looked)]

end Lookups

theorem dirnameEnd_le (path : CString) (position : Nat) : dirnameEnd path position ≤ position := by
  induction position with
  | zero =>
    rw [dirnameEnd]
    decide
  | succ earlier ih =>
    rw [dirnameEnd]
    split
    · split <;> omega
    · omega

theorem pathDirnameLen_le_length (path : CString) (pathlen : Nat) :
    (pathDirnameLen path pathlen).toNat ≤ path.length := by
  unfold pathDirnameLen
  split
  · exact Nat.zero_le _
  · rename_i lastSep found
    have inside := strnrchr_lt_length found
    have below := dirnameEnd_le path lastSep
    omega

theorem skipToBasename_length {path basename : CString} {dirlen pathlen skipped : Nat}
    (found : skipToBasename path dirlen pathlen = some (basename, skipped)) :
    basename.length + skipped = path.length + dirlen := by
  induction path generalizing dirlen with
  | nil =>
    cases found
    rfl
  | cons char rest ih =>
    rw [skipToBasename] at found
    split at found
    · split at found
      · cases found
      · have later := ih found
        rw [length_cons]
        omega
    · cases found
      rfl

/-- The length an unlink compares with goes past the end of the name. -/
theorem unlinkTarget_length_lt {path basename : CString} {dir namelen : Nat}
    (target : UnlinkTarget fs path sizeMax dir basename namelen) (bounded : path.length < sizeMax) :
    basename.length < namelen ∧ namelen ≤ sizeMax := by
  obtain ⟨dirlen, skipped, rfl⟩ := target.skipped
  have total := skipToBasename_length skipped
  have inside := pathDirnameLen_le_length path sizeMax
  rw [length_drop] at total
  rw [sub32_of_le (by omega) (by decide)]
  omega

end Cosec.Fs.PathLookup
