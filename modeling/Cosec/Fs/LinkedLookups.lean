import Cosec.Fs.TreeRuns

/-!
# Lookups after a link

A new entry goes to the end of its bucket.  A lookup that found something
before finds the same afterwards, whatever else it may have looked for; a
lookup of the path of the link that found nothing before finds the new link.
Nothing is assumed about the names in the directories.
-/

namespace Cosec.Fs.LinkedLookups

open Fs.ComponentWalk Fs.Dirnames Fs.FailedCalls Fs.InodeNumbers Fs.InodeTree Fs.MountSteps
open Fs.NewDirectories Fs.PathLookup Fs.Ramfs Fs.TreeRuns Fs.Vfs Fs.VfsSteps Lib.Commands
open Lib.Components Lib.ObjectStore Libc.ErrorNumbers Libc.Strings List

variable {machine : Machine} {fs changed : Mount}

/-! ## Searches of one directory -/

variable {found : Nat}

section Searches

variable {table grown : Directory} {name : CString} {ino : Nat}
  (inserted : directoryInsert table ⟨strhash name, name, ino⟩ = .ok grown)

include inserted

theorem directorySearch_kept {basename : CString} {len : Nat}
    (searched : directorySearch table basename len = .ok found) :
    directorySearch grown basename len = .ok found := by
  unfold directorySearch at searched ⊢
  dsimp only at searched ⊢
  rw [ht_of_directoryInsert inserted, find?_append]
  cases first : (table.ht (htIndex (strhash (basename.take len)))).find? fun de =>
        de.hash == strhash (basename.take len) && strncmp basename de.name len == 0 with
  | none =>
    rw [first] at searched
    cases searched
  | some de =>
    rw [first] at searched
    exact searched

/-- The new name is found, unless something was found for it before. -/
theorem directorySearch_new
    {error : Errno} (missing : directorySearch table name name.length = .error error) :
    directorySearch grown name name.length = .ok ino := by
  unfold directorySearch at missing ⊢
  dsimp only at missing ⊢
  rw [ht_of_directoryInsert inserted, find?_append]
  rw [take_length] at missing ⊢
  cases first : (table.ht (htIndex (strhash name))).find? fun de =>
        de.hash == strhash name && strncmp name de.name name.length == 0 with
  | none =>
    have itself : strncmp name name name.length = 0 := strncmp_eq_zero_iff.mpr rfl
    simp [itself]
  | some de =>
    rw [first] at missing
    cases missing

end Searches

section Steps

variable {char : CChar} {rest basename : CString} {left dir : Nat}

theorem lookupLoop_char {skipping : Bool} (notSep : isSep char = false) :
    lookupLoop fs (char :: rest) (left + 1) dir basename skipping =
      lookupLoop fs rest left dir (basename ++ [char]) false := by
  rw [lookupLoop]
  simp [notSep]

theorem lookupLoop_skip (isSeparator : isSep char = true) :
    lookupLoop fs (char :: rest) left dir basename true =
      lookupLoop fs rest (left - 1) dir basename true := by
  rw [lookupLoop]
  simp [isSeparator]

/-- A separator at the end of the path is not looked at. -/
theorem lookupLoop_finish (isSeparator : isSep char = true) :
    lookupLoop fs [char] (left + 1) dir basename false =
      searchAt fs dir basename basename.length := by
  rw [lookupLoop]
  cases searched : searchAt fs dir basename basename.length with
  | none => simp [isSeparator]
  | some outcome =>
    cases outcome with
    | error error => simp [isSeparator]
    | ok found => simp [isSeparator]

theorem lookupLoop_enter (isSeparator : isSep char = true) (goesOn : rest ≠ []) {next : Nat}
    (searched : searchAt fs dir basename basename.length = some (.ok found))
    (entered : enterDirectory fs found = some (.ok next)) :
    lookupLoop fs (char :: rest) (left + 1) dir basename false =
      lookupLoop fs rest left next [] true := by
  rw [lookupLoop]
  simp [isSeparator, searched, goesOn, entered]

theorem entered_of_lookupLoop (isSeparator : isSep char = true) (goesOn : rest ≠ []) {ino : Nat}
    (looked : lookupLoop fs (char :: rest) (left + 1) dir basename false = some (.ok ino)) :
    ∃ found next,
      searchAt fs dir basename basename.length = some (.ok found) ∧
        enterDirectory fs found = some (.ok next) ∧
        lookupLoop fs rest left next [] true = some (.ok ino) := by
  rw [lookupLoop] at looked
  simp only [Bool.false_and, Bool.false_eq_true, if_false, Nat.add_eq_zero_iff, one_ne_zero,
    and_false, isSeparator, Bool.not_true, List.isEmpty_iff, goesOn] at looked
  split at looked
  · rename_i found searched
    split at looked
    · rename_i next entered
      exact ⟨found, next, searched, entered, looked⟩
    · rename_i failed
      exact absurd looked (failed ino)
  · rename_i failed
    exact absurd looked (failed ino)

end Steps

theorem lookupLoop_front {sep : CChar} (isSeparator : isSep sep = true) {parent below : Nat}
    (entered : enterDirectory fs parent = some (.ok below)) (rest : CString) (left : Nat)
    {front : CString} :
    ∀ {dir : Nat} {basename : CString} {skipping : Bool}, endsInSep isSep front = false →
      (front = [] → skipping = false) →
      lookupLoop fs (front ++ sep :: rest) front.length dir basename skipping = some (.ok parent) →
      lookupLoop fs (front ++ sep :: rest) (front.length + (left + 1)) dir basename skipping =
        if rest.isEmpty then some (.ok parent) else lookupLoop fs rest left below [] true := by
  induction front with
  | nil =>
    intro dir basename skipping _ reading looked
    rw [reading rfl] at looked ⊢
    rw [length_nil, nil_append, lookupLoop_zero] at looked
    rw [length_nil, nil_append, lookupLoop]
    simp [isSeparator, looked, entered]
  | cons char others ih =>
    intro dir basename skipping finish _ looked
    have othersFinish : endsInSep isSep others = false := by
      by_cases ended : others = []
      · rw [ended]
        rfl
      · rw [← endsInSep_append [char] ended]
        exact finish
    have longer : (char :: others).length + (left + 1) = (others.length + (left + 1)) + 1 := by
      rw [length_cons]
      omega
    rw [cons_append, length_cons] at looked
    rw [cons_append, longer]
    cases kind : isSep char with
    | false =>
      rw [lookupLoop_char kind] at looked ⊢
      exact ih othersFinish (fun _ => rfl) looked
    | true =>
      have goesOn : others ≠ [] := by
        rintro rfl
        exact absurd kind (by simpa [endsInSep] using finish)
      cases skipping with
      | true =>
        rw [lookupLoop_skip kind] at looked ⊢
        exact ih othersFinish (fun ended => absurd ended goesOn) looked
      | false =>
        have behind : others ++ sep :: rest ≠ [] := by simp
        obtain ⟨found, next, searched, enters, looked⟩ :=
          entered_of_lookupLoop kind behind looked
        rw [lookupLoop_enter kind behind searched enters]
        exact ih othersFinish (fun ended => absurd ended goesOn) looked

variable {pathlen : Nat}

theorem lookupLoop_single
    {base : CString} (isRun : Run isSep base) (bounded : base.length ≤ pathlen) {dir : Nat} :
    lookupLoop fs base pathlen dir [] false = searchAt fs dir base base.length := by
  have last :
      lookupLoop fs (base ++ []) pathlen dir [] false =
        searchAt fs dir (base.take pathlen) (base.take pathlen).length :=
    lookupLoop_last isRun (Or.inr rfl) dir
  rw [append_nil, take_of_length_le bounded] at last
  exact last

theorem lookupLoop_below {path front seps base : CString} (under : Below path front seps base)
    (bounded : path.length ≤ pathlen) {dir parent below : Nat}
    (entered : enterDirectory fs parent = some (.ok below))
    (looked : lookupLoop fs path front.length dir [] false = some (.ok parent)) :
    lookupLoop fs path pathlen dir [] false = if (seps ++ base).length = 1 then some (.ok parent)
      else searchAt fs below base base.length := by
  obtain ⟨sep, others, rfl⟩ := exists_cons_of_ne_nil under.hasSeps
  obtain ⟨isSeparator, areSeps⟩ := forall_mem_cons.mp under.areSeps
  have length : path.length = front.length + (others.length + base.length + 1) := by
    rw [under.split, length_append, cons_append, length_cons, length_append]
  obtain ⟨more, rfl⟩ := Nat.exists_eq_add_of_le bounded
  have pathlen : path.length + more = front.length + (others.length + base.length + more + 1) := by
    omega
  rw [pathlen]
  rw [under.split, cons_append] at looked ⊢
  rw [lookupLoop_front isSeparator entered (others ++ base)
    (others.length + base.length + more) under.finish
    (fun empty => absurd empty under.hasFront) looked]
  have onlyOne : (sep :: (others ++ base)).length = 1 ↔ (others ++ base).isEmpty = true := by simp
  by_cases ends : (others ++ base).isEmpty = true
  · rw [if_pos ends, if_pos (onlyOne.mpr ends)]
  · rw [if_neg ends, if_neg (mt onlyOne.mp ends)]
    have left : others.length + base.length + more - others.length = base.length + more := by omega
    rw [lookupLoop_seps areSeps, left, lookupLoop_skipped (startsInSep_run under.isRun),
      lookupLoop_single under.isRun (Nat.le_add_right _ _)]

variable {path : CString}

theorem lookupInode_root (atRoot : path.isEmpty ∨ pathlen = 0) :
    lookupInode path pathlen fs = some (.ok fs.rootIno) :=
  if_pos atRoot

theorem lookupInode_started {top : Nat} (notRoot : ¬ (path.isEmpty ∨ pathlen = 0))
    (start : rootDirectory fs = some (.ok top)) :
    lookupInode path pathlen fs = lookupLoop fs path pathlen top [] false := by
  unfold lookupInode
  rw [if_neg notRoot, start]

theorem start_of_lookupInode (notRoot : ¬ (path.isEmpty ∨ pathlen = 0))
    (looked : lookupInode path pathlen fs = some (.ok found)) :
    ∃ top,
      rootDirectory fs = some (.ok top) ∧
        lookupLoop fs path pathlen top [] false = some (.ok found) := by
  unfold lookupInode at looked
  rw [if_neg notRoot] at looked
  split at looked
  · rename_i top start
    exact ⟨top, start, looked⟩
  · rename_i failed
    exact absurd looked (failed found)

/-! ## One more entry -/

/-- A mount with one more entry in a directory. -/
structure Extends (fs changed : Mount) (dir : Nat) (name : CString) (ino : Nat) : Prop where
  root : changed.rootIno = fs.rootIno
  enters :
    ∀ other next, enterDirectory fs other = some (.ok next) →
      enterDirectory changed other = some (.ok next)
  searches :
    ∀ other basename len found,
      searchAt fs other basename len = some (.ok found) →
        searchAt changed other basename len = some (.ok found)
  table : ∃ table, fs.directories.read dir = some table
  entry :
    ∀ error, searchAt fs dir name name.length = some (.error error) →
      searchAt changed dir name name.length = some (.ok ino)

variable {dir ino : Nat} {name : CString}

variable {fspath : CString}

section Extended

variable (extended : Extends fs changed dir name ino)

include extended

theorem Extends.lookupLoop :
    ∀ {pathlen start found : Nat} {basename : CString} {skipping : Bool},
      Ramfs.lookupLoop fs path pathlen start basename skipping = some (.ok found) →
        Ramfs.lookupLoop changed path pathlen start basename skipping = some (.ok found) := by
  induction path with
  | nil =>
    intro pathlen start found basename skipping looked
    exact extended.searches _ _ _ _ looked
  | cons char rest ih =>
    intro pathlen start found basename skipping looked
    cases kind : isSep char with
    | false =>
      cases pathlen with
      | zero =>
        simp only [Ramfs.lookupLoop, kind, Bool.and_false, Bool.false_eq_true, if_false, if_true]
          at looked ⊢
        exact extended.searches _ _ _ _ looked
      | succ left =>
        rw [lookupLoop_char kind] at looked ⊢
        exact ih looked
    | true =>
      cases skipping with
      | true =>
        rw [lookupLoop_skip kind] at looked ⊢
        exact ih looked
      | false =>
        cases pathlen with
        | zero =>
          exact extended.searches _ _ _ _ looked
        | succ left =>
          by_cases ends : rest = []
          · subst ends
            rw [lookupLoop_finish kind] at looked ⊢
            exact extended.searches _ _ _ _ looked
          · obtain ⟨other, next, searched, entered, looked⟩ :=
              entered_of_lookupLoop kind ends looked
            rw [lookupLoop_enter kind ends (extended.searches _ _ _ _ searched)
              (extended.enters _ _ entered)]
            exact ih looked

theorem Extends.rootDirectory {top : Nat} (start : Ramfs.rootDirectory fs = some (.ok top)) :
    Ramfs.rootDirectory changed = some (.ok top) := by
  rw [rootDirectory_iff] at start ⊢
  rw [extended.root]
  exact extended.enters _ _ start

/-- What a path led to it still leads to. -/
theorem Extends.lookupInode (looked : Ramfs.lookupInode path pathlen fs = some (.ok found)) :
    Ramfs.lookupInode path pathlen changed = some (.ok found) := by
  by_cases atRoot : path.isEmpty ∨ pathlen = 0
  · rw [lookupInode_root atRoot] at looked ⊢
    rw [extended.root]
    exact looked
  · obtain ⟨top, start, looked⟩ := start_of_lookupInode atRoot looked
    rw [lookupInode_started atRoot (extended.rootDirectory start)]
    exact extended.lookupLoop looked

theorem Extends.searchAt_new :
    (∃ found,
      searchAt fs dir name name.length = some (.ok found) ∧
        searchAt changed dir name name.length = some (.ok found)) ∨
      (searchAt fs dir name name.length = some (.error .enoent) ∧
        searchAt changed dir name name.length = some (.ok ino)) := by
  obtain ⟨table, reading⟩ := extended.table
  have searched :
      searchAt fs dir name name.length = some (directorySearch table name name.length) := by
    unfold searchAt
    rw [reading, Option.map_some]
  cases outcome : directorySearch table name name.length with
  | ok found =>
    rw [outcome] at searched
    exact Or.inl ⟨found, searched, extended.searches _ _ _ _ searched⟩
  | error error =>
    have missing : error = .enoent := by
      unfold directorySearch at outcome
      dsimp only at outcome
      split at outcome
      · cases outcome
      · cases outcome
        rfl
    rw [outcome, missing] at searched
    exact Or.inr ⟨searched, extended.entry _ searched⟩

variable {dirino : Nat}

theorem Extends.lookup_path (bounded : fspath.length ≤ sizeMax)
    (looked :
      Ramfs.lookupInode fspath (asSize (pathDirnameLen fspath sizeMax)) fs = some (.ok dirino))
    (entered : enterDirectory fs dirino = some (.ok dir))
    (named : name = linkName fspath (pathDirnameLen fspath sizeMax)) :
    (∃ found,
      Ramfs.lookupInode fspath sizeMax fs = some (.ok found) ∧
        Ramfs.lookupInode fspath sizeMax changed = some (.ok found)) ∨
      (Ramfs.lookupInode fspath sizeMax fs = some (.error .enoent) ∧
        Ramfs.lookupInode fspath sizeMax changed = some (.ok ino)) := by
  have kept :
      (∃ found, Ramfs.lookupInode fspath sizeMax fs = some (.ok found)) →
        ∃ found,
          Ramfs.lookupInode fspath sizeMax fs = some (.ok found) ∧
            Ramfs.lookupInode fspath sizeMax changed = some (.ok found) := by
    rintro ⟨found, looked⟩
    exact ⟨found, looked, extended.lookupInode looked⟩
  cases shape fspath with
  | atTop top =>
    rw [pathDirnameLen_atTop top bounded] at looked
    exact Or.inl (kept ⟨dirino, looked⟩)
  | single isRun =>
    rw [pathDirnameLen_single isRun] at looked named
    rw [linkName_single isRun] at named
    subst named
    by_cases empty : name = []
    · exact Or.inl (kept ⟨fs.rootIno, lookupInode_root (Or.inl (by rw [empty]; rfl))⟩)
    · have notRoot : ¬ (name.isEmpty ∨ sizeMax = 0) := by simp [empty, sizeMax]
      have zero : asSize 0 = 0 := rfl
      rw [zero, lookupInode_root (Or.inr rfl)] at looked
      cases looked
      have start := rootDirectory_iff.mpr entered
      rw [lookupInode_started notRoot start, lookupLoop_single isRun bounded,
        lookupInode_started notRoot (extended.rootDirectory start), lookupLoop_single isRun bounded]
      exact extended.searchAt_new
  | @below front seps base under =>
    rw [pathDirnameLen_below under bounded] at looked named
    rw [linkName_below under] at named
    subst named
    have nonempty : fspath.isEmpty = false := by
      rw [under.split]
      simp [under.hasFront]
    have notRoot : ¬ (fspath.isEmpty ∨ sizeMax = 0) := by simp [nonempty, sizeMax]
    have notZero : ¬ (fspath.isEmpty ∨ front.length = 0) := by simp [nonempty, under.hasFront]
    obtain ⟨top, start, looked⟩ := start_of_lookupInode notZero looked
    rw [lookupInode_started notRoot start,
      lookupInode_started notRoot (extended.rootDirectory start),
      lookupLoop_below under bounded entered looked,
      lookupLoop_below under bounded (extended.enters _ _ entered) (extended.lookupLoop looked)]
    split_ifs
    · exact Or.inl ⟨dirino, rfl, rfl⟩
    · exact extended.searchAt_new

/-- What the path of a link led to before it goes on leading to. -/
theorem Extends.looked {path : Path} (mount : mountnodeByPath path.chars = .ok fspath)
    (parent :
      Ramfs.lookupInode fspath (asSize (pathDirnameLen fspath sizeMax)) fs = some (.ok dirino))
    (entered : enterDirectory fs dirino = some (.ok dir))
    (named : name = linkName fspath (pathDirnameLen fspath sizeMax)) :
    (∃ found, Looked fs path.chars found ∧ Looked changed path.chars found) ∨
      (LookFails fs path.chars .enoent ∧ Looked changed path.chars ino) := by
  have bounded : fspath.length ≤ sizeMax :=
    le_of_lt (lt_trans (mountnodeByPath_length mount) path.bounded)
  rcases extended.lookup_path bounded parent entered named with
    ⟨found, before, after⟩ | ⟨before, after⟩
  · exact Or.inl ⟨found, ⟨fspath, mount, before⟩, ⟨fspath, mount, after⟩⟩
  · exact Or.inr ⟨Or.inr ⟨fspath, mount, before⟩, ⟨fspath, mount, after⟩⟩

end Extended

theorem looked_inj {other : Nat} (looked : Looked fs path found)
    (otherLooked : Looked fs path other) : found = other := by
  obtain ⟨fspath, mount, looked⟩ := looked
  obtain ⟨otherFspath, otherMount, otherLooked⟩ := otherLooked
  cases mount.symm.trans otherMount
  cases looked.symm.trans otherLooked
  rfl

theorem not_lookFails (looked : Looked fs path found) (error : Errno) :
    ¬ LookFails fs path error := by
  obtain ⟨fspath, mount, looked⟩ := looked
  rintro (failed | ⟨other, otherMount, failed⟩)
  · cases mount.symm.trans failed
  · cases mount.symm.trans otherMount
    cases looked.symm.trans failed

/-! ## Links and nodes that were made -/

/-- The mount after a link: a table is exchanged and a link counted. -/
def linkedMount (fs : Mount) (dir idata : Nat) (grown : Directory) : Mount :=
  { fs with
    directories := fs.directories.change dir fun _ => grown
    inodes := fs.inodes.change idata addLink
    kmallocs := fs.kmallocs + 2 }

/-- What is read of an inode on the way stays when a link is counted. -/
theorem enterDirectory_linked (idata : Nat) (grown : Directory) (other : Nat) :
    enterDirectory (linkedMount fs dir idata grown) other = enterDirectory fs other := by
  unfold enterDirectory idataByInode linkedMount
  cases getIndex fs.tree other with
  | none => rfl
  | some slot =>
    cases slot with
    | null => rfl
    | node level used children => rfl
    | leaf id =>
      dsimp only
      rw [Store.read_change]
      split_ifs
      · cases fs.inodes.read id with
        | none => rfl
        | some inode => rfl
      · rfl

theorem searchAt_linked
    {table grown : Directory} {idata : Nat} (reading : fs.directories.read dir = some table)
    (other : Nat) (basename : CString) (len : Nat) :
    searchAt (linkedMount fs dir idata grown) other basename len =
      if other = dir then some (directorySearch grown basename len)
      else searchAt fs other basename len := by
  unfold searchAt linkedMount
  rw [Store.read_change]
  by_cases same : other = dir
  · subst same
    rw [if_pos rfl, if_pos rfl, reading]
    rfl
  · rw [if_neg same, if_neg same]

theorem extends_linked
    {table grown : Directory} {idata : Nat} (reading : fs.directories.read dir = some table)
    (inserted : directoryInsert table ⟨strhash name, name, ino⟩ = .ok grown) :
    Extends fs (linkedMount fs dir idata grown) dir name ino where
  root := rfl
  enters := by
    intro other next entered
    rw [enterDirectory_linked]
    exact entered
  searches := by
    intro other basename len found searched
    rw [searchAt_linked reading]
    split_ifs with same
    · subst same
      unfold searchAt at searched
      rw [reading, Option.map_some, Option.some.injEq] at searched
      rw [directorySearch_kept inserted searched]
    · exact searched
  table := ⟨table, reading⟩
  entry := by
    intro error missing
    unfold searchAt at missing
    rw [reading, Option.map_some, Option.some.injEq] at missing
    rw [searchAt_linked reading, if_pos rfl, directorySearch_new inserted missing]

theorem enterDirectory_of_found {dirino dirIdata : Nat} {dirInode : Inode}
    (dirFound : idataByInode fs dirino = some (some (dirIdata, dirInode)))
    (isDir : IsDir dirInode.mode) (dirData : dirInode.data = some dir) :
    enterDirectory fs dirino = some (.ok dir) := by
  unfold enterDirectory
  rw [dirFound]
  dsimp only
  rw [if_pos isDir, dirData]
  rfl

theorem exists_of_linked
    (numbered : Numbered fs) {dirino : Nat} (linked : Linked fs ino dirino name changed) :
    ∃ dir table grown,
      enterDirectory fs dirino = some (.ok dir) ∧ fs.directories.read dir = some table ∧
        directoryInsert table ⟨strhash name, name, ino⟩ = .ok grown ∧
        changed = linkedMount fs dir ino grown := by
  cases linked with
  | @intro dirIdata idata dir dirInode inode table grown dirFound isDir
      dirData found reading inserted =>
      obtain ⟨rfl, read⟩ := numbered.read_of_found found
      rw [numbered.self _ _ read] at inserted
      exact ⟨dir, table, grown, enterDirectory_of_found dirFound isDir dirData, reading, inserted,
        rfl⟩

/-- What was made before the entry does not change the lookups either. -/
theorem Extends.earlier {made : Mount} (numbered : Numbered fs) (agrees : Agrees fs made)
    (directories : made.directories = fs.directories)
    (extended : Extends made changed dir name ino) : Extends fs changed dir name ino where
  root := extended.root.trans agrees.root
  enters := by
    intro other next entered
    have present : other < fs.inodes.count := by
      unfold enterDirectory at entered
      split at entered
      · cases entered
      · cases entered
      · rename_i found
        exact Store.lt_count_of_read (numbered.read_of_found found).2
    refine extended.enters other next ?_
    rw [agrees.enterDirectory present]
    exact entered
  searches := by
    unfold searchAt
    rw [← directories]
    exact extended.searches
  table := directories ▸ extended.table
  entry := by
    unfold searchAt
    rw [← directories]
    exact extended.entry

/-- A node that was made and linked under a path. -/
structure NodeMade
    (fs changed : Mount) (fspath : CString) (node : Inode) (dirino dir : Nat) : Prop where
  parent : lookupInode fspath (asSize (pathDirnameLen fspath sizeMax)) fs = some (.ok dirino)
  entered : enterDirectory fs dirino = some (.ok dir)
  extended :
    Extends fs changed dir (linkName fspath (pathDirnameLen fspath sizeMax)) fs.inodes.count
  found : idataByInode changed fs.inodes.count = some (some (fs.inodes.count, addLink node))
  others : ∀ other < fs.inodes.count, idataByInode changed other = idataByInode fs other

theorem linkedMount_flat (flat : FlatMount fs) (idata : Nat) (grown : Directory) :
    FlatMount (linkedMount fs dir idata grown) where
  inhabited := by simpa [linkedMount] using flat.inhabited
  fits := by simpa [linkedMount] using flat.fits
  tree := by simpa [linkedMount] using flat.tree

theorem nodeMade_of_vfsMknod (numbered : Numbered fs) (room : fs.inodes.count < 64)
    (path : Path) {mode : UInt32} {dev : UInt64}
    (returned : Returns (vfsMknod machine path.chars mode dev) fs (.ok ⟨⟩) changed) :
    ∃ fspath dirino dir,
      mountnodeByPath path.chars = .ok fspath ∧
        NodeMade fs changed fspath (madeNode fs.inodes.count (nodeMode mode) (mknodInfo mode dev))
          dirino dir := by
  rcases vfsMknod_spec.returns _ _ returned.run with
    ⟨error, impossible, _⟩ |
      ⟨dirino, dirInode, name, ino, made, parent, fresh, grown, short, linked⟩
  · cases impossible
  · obtain ⟨fspath, dirIdata, mount, looked, dirFound, named⟩ := parent.parent
    obtain ⟨number, rfl⟩ := grown_flat numbered.flat room grown
    obtain rfl : ino = fs.inodes.count := fresh.ino.symm.trans number
    have agrees :=
      agrees_withInode numbered room (madeNode fs.inodes.count (nodeMode mode) (mknodInfo mode dev))
        (fs.kmallocs + 1)
    have numberedMade := numbered.inodeNew room fresh (fs.kmallocs + 1)
    obtain ⟨dir, table, after, entered, reading, inserted, rfl⟩ :=
      exists_of_linked numberedMade linked
    have present := numbered.lt_of_lookupInode looked
    rw [agrees.enterDirectory present] at entered
    rw [linkName_take path mount] at named
    subst named
    refine ⟨fspath, dirino, dir, mount, looked, entered,
      (extends_linked reading inserted).earlier numbered agrees rfl, ?_, ?_⟩
    · rw [idataByInode_flat (linkedMount_flat numberedMade.flat _ _)]
      simp [linkedMount, withInode]
    · intro other earlier
      rw [idataByInode_flat (linkedMount_flat numberedMade.flat _ _),
        idataByInode_flat numbered.flat]
      simp [linkedMount, withInode, Store.read_add, ne_of_lt earlier]

theorem NodeMade.looked {path : Path} {node : Inode} {dirino : Nat}
    (made : NodeMade fs changed fspath node dirino dir)
    (mount : mountnodeByPath path.chars = .ok fspath) :
    (∃ found, Looked fs path.chars found ∧ Looked changed path.chars found) ∨
      (LookFails fs path.chars .enoent ∧ Looked changed path.chars fs.inodes.count) :=
  made.extended.looked mount made.parent made.entered rfl

/-- Why a link is not made: no table, no memory, or the name is taken. -/
def LinkFault
    (machine : Machine) (fs : Mount) (calls : Nat) (dirInode : Inode) (name : CString) : Prop :=
  dirInode.data = none ∨ PairRefused machine calls ∨
    ∃ dir table,
      dirInode.data = some dir ∧ fs.directories.read dir = some table ∧ HasName table name

section Linking

variable {ino dirino dirIdata : Nat} {dirInode : Inode} {name : CString} (numbered : Numbered fs)
  (dirFound : idataByInode fs dirino = some (some (dirIdata, dirInode)))
  (isDir : IsDir dirInode.mode) (present : ino < fs.inodes.count) (short : name.length < 255)

include short in
theorem take_sizeMax : name.take sizeMax = name :=
  take_of_length_le (le_of_lt (lt_trans short (by decide)))

include numbered dirFound isDir present short

theorem fails_link (fault : LinkFault machine fs fs.kmallocs dirInode name) :
    Fails (linkInode machine ino dirino name sizeMax) fs := by
  obtain ⟨inode, _, found⟩ := numbered.found_of_lt present
  have whole := take_sizeMax short
  refine fails_linkInode (by rw [whole]; exact short) dirFound isDir found ?_
  rw [whole]
  rcases fault with noData | refused | ⟨dir, table, data, reading, taken⟩
  · exact Or.inl noData
  · exact Or.inr (fails_directoryNewEntry refused).fails
  · rw [data]
    exact Or.inr (fails_directoryNewEntry_taken reading taken)

theorem returns_link (possible : ¬ LinkFault machine fs fs.kmallocs dirInode name) :
    ∃ dir table grown,
      dirInode.data = some dir ∧ fs.directories.read dir = some table ∧
        directoryInsert table ⟨strhash name, name, ino⟩ = .ok grown ∧
        Returns (linkInode machine ino dirino name sizeMax) fs (.ok ⟨⟩)
          (linkedMount fs dir ino grown) := by
  obtain ⟨inode, inodeRead, found⟩ := numbered.found_of_lt present
  have number := numbered.self _ _ inodeRead
  have whole := take_sizeMax short
  have buffered : ¬ 255 ≤ (name.take sizeMax).length := by
    rw [whole]
    exact not_le.mpr short
  unfold LinkFault at possible
  push Not at possible
  obtain ⟨hasData, memory, free⟩ := possible
  obtain ⟨dir, data⟩ := Option.ne_none_iff_exists'.mp hasData
  have dirRead := (numbered.read_of_found dirFound).2
  obtain ⟨table, reading⟩ := Store.exists_read (numbered.data _ _ dir dirRead data)
  obtain ⟨grown, inserted⟩ : ∃ grown, directoryInsert table ⟨strhash name, name, ino⟩ = .ok grown :=
    ⟨_, directoryInsert_ok_iff.mpr ⟨free dir table data reading, rfl⟩⟩
  refine ⟨dir, table, grown, data, reading, inserted, ?_⟩
  have entered :
      Returns (directoryNewEntry machine dirInode.data (name.take sizeMax) inode.ino) fs (.ok ⟨⟩)
        { fs with
          directories := fs.directories.change dir fun _ => grown
          kmallocs := fs.kmallocs + 2 } := by
    rw [whole, number, data]
    exact returns_pair memory
      (.bind (.demand rfl) (.bind (.consult (by simp [reading, inserted])) .update))
  unfold linkInode
  simp only [if_neg buffered]
  exact .bind (returns_idataOr dirFound)
    (.bind (.failIf (not_not.mpr isDir)) (.bind (.failIf hasData)
      (.bind (returns_idataOr found) (.bind entered .update))))

end Linking

end Cosec.Fs.LinkedLookups
