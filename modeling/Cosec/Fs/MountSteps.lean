import Mathlib.Logic.Relation
import Cosec.Fs.Ramfs

/-!
# What the driver operations do to a mount

Every operation of ramfs is a sequence of a few elementary changes.  `Quiet`
lists the ones that free nothing and `Freeing` the two that free an object,
so that an invariant is checked once for each elementary change.

The specifications also say which lookups a link or an unlink goes through,
what the new entry is, and that an error comes before the first change.
-/

namespace Cosec.Fs.MountSteps

open Fs.FileBlocks Fs.InodeTree Fs.Ramfs Lib.Commands Lib.ObjectStore Lib.Word32 Libc.ErrorNumbers
open Libc.Strings List

/-! ## Elementary changes -/

/-- An edit of an inode that keeps its number, type, openings and directory. -/
structure KeepsIdentity (edit : Inode → Inode) : Prop where
  ino : ∀ inode, (edit inode).ino = inode.ino
  mode : ∀ inode, (edit inode).mode = inode.mode
  nfds : ∀ inode, (edit inode).nfds = inode.nfds
  data : ∀ inode, (edit inode).data = inode.data

theorem addLink_keepsIdentity : KeepsIdentity addLink :=
  ⟨fun _ => rfl, fun _ => rfl, fun _ => rfl, fun _ => rfl⟩

theorem dropLink_keepsIdentity : KeepsIdentity dropLink :=
  ⟨fun _ => rfl, fun _ => rfl, fun _ => rfl, fun _ => rfl⟩

/-- A node without links, openings or directory. -/
structure FreshNode (node : Inode) (ino : Nat) (mode : UInt32) : Prop where
  ino : node.ino = ino
  mode : node.mode = mode
  nlinks : node.nlinks = 0
  nfds : node.nfds = 0
  data : node.data = none

theorem newInode_freshNode (ino : Nat) (mode : UInt32) : FreshNode (newInode ino mode) ino mode :=
  ⟨rfl, rfl, rfl, rfl, rfl⟩

/-- The elementary changes that free nothing. -/
inductive Quiet : Mount → Mount → Prop
  | kmalloc {fs : Mount} (kmallocs : Nat) : Quiet fs { fs with kmallocs := kmallocs }
  | memory {fs : Mount} (memory : PageMemory) : Quiet fs { fs with memory := memory }
  | inodeNew {fs : Mount} {grants : Nat → Bool} {calls ino kmallocs : Nat}
      {tree : Slot Nat} {node : Inode} {mode : UInt32}
      (fresh : FreshNode node ino mode)
      (inserted : newLeaf grants calls fs.tree fs.inodes.count = some (ino, tree, kmallocs)) :
      Quiet fs
        { fs with
          tree := tree
          inodes := fs.inodes.add node
          kmallocs := kmallocs }
  | directoryNew {fs : Mount} :
      Quiet fs { fs with directories := fs.directories.add emptyDirectory }
  | insert {fs : Mount} {dir idata : Nat} {table grown : Directory}
      {de : Direntry} {inode : Inode}
      (reading : fs.directories.read dir = some table)
      (inserted : directoryInsert table de = .ok grown)
      (target : fs.inodes.read idata = some inode)
      (number : de.ino = inode.ino) :
      Quiet fs { fs with directories := fs.directories.change dir fun _ => grown }
  | delete {fs : Mount} {dir namelen : Nat} {table shrunk : Directory}
      {name : CString}
      (reading : fs.directories.read dir = some table)
      (deleted : directoryDelete table name namelen = .ok shrunk) :
      Quiet fs { fs with directories := fs.directories.change dir fun _ => shrunk }
  | edit {fs : Mount} {edit : Inode → Inode} (idata : Nat)
      (kept : KeepsIdentity edit) :
      Quiet fs { fs with inodes := fs.inodes.change idata edit }
  | attach {fs : Mount} {dir : Nat} (idata : Nat)
      (present : dir < fs.directories.count) :
      Quiet fs { fs with inodes := fs.inodes.change idata (setData dir) }

/-- The two changes that free an object. -/
inductive Freeing : Mount → Mount → Prop
  | inode {fs : Mount} (idata : Nat) : Freeing fs { fs with inodes := fs.inodes.free idata }
  | directory {fs : Mount} (dir : Nat) :
      Freeing fs { fs with directories := fs.directories.free dir }

def Elementary (fs changed : Mount) : Prop := Quiet fs changed ∨ Freeing fs changed

/-- Some changes that free nothing. -/
abbrev Quietly := Relation.ReflTransGen Quiet

/-- Some changes. -/
abbrev Eventually := Relation.ReflTransGen Elementary

theorem Quietly.eventually {fs changed : Mount} (quiet : Quietly fs changed) :
    Eventually fs changed :=
  Relation.ReflTransGen.mono (fun _ _ => Or.inl) _ _ quiet

/-- A count of allocations and nothing else. -/
def Untouched (fs changed : Mount) : Prop := changed = { fs with kmallocs := changed.kmallocs }

theorem Untouched.refl (fs : Mount) : Untouched fs fs := rfl

theorem Untouched.quietly {fs changed : Mount} (untouched : Untouched fs changed) :
    Quietly fs changed := by
  rw [untouched]
  exact .single (.kmalloc _)

variable {machine : Machine} {fs : Mount}

theorem returns_kmalloc {granted : Bool} (answer : machine.grants fs.kmallocs = granted) :
    Returns (kmalloc machine) fs (.ok granted) { fs with kmallocs := fs.kmallocs + 1 } := by
  subst answer
  exact ⟨rfl⟩

@[simp]
theorem ensures_kmalloc {post : Except Errno Bool → Mount → Prop} :
    Ensures (kmalloc machine) fs post ↔
      post (.ok (machine.grants fs.kmallocs)) { fs with kmallocs := fs.kmallocs + 1 } :=
  ensures_of_eq rfl

/-- A new directory is empty, and its number is the next one. -/
theorem directoryNew_spec : Ensures (directoryNew machine) fs fun outcome changed =>
      match outcome with
      | .ok dir =>
        dir = fs.directories.count ∧
          changed =
            { fs with
              directories := fs.directories.add emptyDirectory
              kmallocs := fs.kmallocs + 2 }
      | .error _ =>
        Untouched fs changed ∧
          (machine.grants fs.kmallocs = false ∨ machine.grants (fs.kmallocs + 1) = false) := by
  unfold directoryNew
  simp only [ensures_bind, ensures_kmalloc, continues_ok, ensures_failIf,
    continues_error, ensures_query, ensures_update, ensures_pure]
  refine ⟨fun refused => ⟨rfl, Or.inl refused⟩, fun _ =>
    ⟨fun refused => ⟨rfl, Or.inr refused⟩, fun _ => ?_⟩⟩
  exact ⟨trivial, trivial⟩

variable {mode : UInt32}

theorem inodeNew_spec : Ensures (inodeNew machine mode) fs fun outcome changed =>
      match outcome with
      | .ok idata =>
        idata = fs.inodes.count ∧ machine.grants fs.kmallocs = true ∧
          ∃ ino tree kmallocs,
            newLeaf machine.grants (fs.kmallocs + 1) fs.tree fs.inodes.count =
              some (ino, tree, kmallocs) ∧
            changed =
              { fs with
                tree := tree
                inodes := fs.inodes.add (newInode ino mode)
                kmallocs := kmallocs }
      | .error _ =>
        Untouched fs changed ∧ machine.grants fs.kmallocs = false := by
  unfold inodeNew
  simp only [ensures_bind, ensures_kmalloc, continues_ok, ensures_failIf,
    continues_error, ensures_query, ensures_demand, ensures_update, ensures_pure]
  refine ⟨fun refused => ⟨rfl, refused⟩, fun granted => ?_⟩
  rintro ⟨ino, tree, kmallocs⟩ inserted
  exact ⟨trivial, by simpa using granted, ino, tree, kmallocs, inserted, rfl⟩

/-! ## Inodes -/

variable {ino : Nat}

@[simp]
theorem ensures_idataOr {post : Except Errno (Nat × Inode) → Mount → Prop} {missing : Errno} :
    Ensures (idataOr missing ino) fs post ↔
      (idataByInode fs ino = some none → post (.error missing) fs) ∧
        ∀ idata inode, idataByInode fs ino = some (some (idata, inode)) →
          post (.ok (idata, inode)) fs := by
  unfold idataOr
  rw [ensures_consult]
  cases idataByInode fs ino with
  | none => simp
  | some found =>
    cases found with
    | none => simp
    | some pair =>
      obtain ⟨idata, inode⟩ := pair
      simp only [Option.map_some, Option.some.injEq, reduceCtorEq,
        false_implies, true_and, Prod.mk.injEq]
      constructor
      · rintro returned _ _ ⟨rfl, rfl⟩
        exact returned _ rfl
      · rintro returned _ rfl
        exact returned _ _ ⟨rfl, rfl⟩

variable {post : Except Errno PUnit → Mount → Prop} {idata : Nat}

@[simp]
theorem ensures_editInode {edit : Inode → Inode} :
    Ensures (editInode idata edit) fs post ↔
      post (.ok ⟨⟩) { fs with inodes := fs.inodes.change idata edit } :=
  ensures_of_eq rfl

variable {dir : Nat}

@[simp]
theorem ensures_directoryFree :
    Ensures (directoryFree dir) fs post ↔
      post (.ok ⟨⟩) { fs with directories := fs.directories.free dir } :=
  ensures_of_eq rfl

/-- A mount after an inode and the directory it holds were freed. -/
def freed (fs : Mount) (idata : Nat) (inode : Inode) : Mount :=
  { fs with
    inodes := fs.inodes.free idata
    directories := match inode.data with
      | some dir =>
        if IsDir inode.mode then fs.directories.free dir
        else fs.directories
      | none => fs.directories }

@[simp]
theorem ensures_inodeFree :
    Ensures (inodeFree idata) fs post ↔
      ∀ inode, fs.inodes.read idata = some inode → post (.ok ⟨⟩) (freed fs idata inode) := by
  unfold inodeFree
  simp only [ensures_bind, ensures_demand, continues_ok]
  apply forall_congr'
  intro inode
  apply imp_congr_right
  cases data : inode.data with
  | none => simp [freed, data]
  | some dir =>
    by_cases isDir : IsDir inode.mode
    · simp [freed, data, isDir]
    · simp [freed, data, isDir]

theorem freed_eventually (fs : Mount) (idata : Nat) (inode : Inode) :
    Eventually fs (freed fs idata inode) := by
  unfold freed
  cases inode.data with
  | none => exact .single (Or.inr (.inode idata))
  | some dir =>
    by_cases isDir : IsDir inode.mode
    · simp only [if_pos isDir]
      exact .tail (.single (Or.inr (.directory dir))) (Or.inr (.inode idata))
    · simp only [if_neg isDir]
      exact .single (Or.inr (.inode idata))

/-- An inode number that resolves names an object of the store. -/
theorem read_of_idataByInode {inode : Inode}
    (found : idataByInode fs ino = some (some (idata, inode))) :
    fs.inodes.read idata = some inode := by
  unfold idataByInode at found
  split at found
  · cases found
  · obtain ⟨content, reading, equal⟩ := Option.map_eq_some_iff.mp found
    cases equal
    exact reading
  · cases found

theorem freeInode_spec : Ensures (freeInode ino) fs fun outcome changed =>
      match outcome with
      | .ok _ =>
        ∃ idata inode,
          idataByInode fs ino = some (some (idata, inode)) ∧ changed = freed fs idata inode
      | .error _ =>
        idataByInode fs ino = some none ∧ changed = fs := by
  unfold freeInode
  simp only [ensures_bind, ensures_idataOr, continues_ok, continues_error, ensures_inodeFree]
  refine ⟨fun missing => ⟨missing, trivial⟩, ?_⟩
  intro idata inode found content reading
  rw [read_of_idataByInode found] at reading
  cases reading
  exact ⟨idata, inode, found, rfl⟩

/-- A directory holds an entry of this name. -/
def HasName (table : Directory) (name : CString) : Prop :=
  ∃ de ∈ table.ht (htIndex (strhash name)), sameName (strhash name) name de = true

variable {name : CString}

theorem directoryInsert_ok_iff {table grown : Directory} :
    directoryInsert table ⟨strhash name, name, ino⟩ = .ok grown ↔
      ¬ HasName table name ∧
        grown =
          { size := table.size + 1
            ht :=
              Function.update table.ht (htIndex (strhash name))
                (table.ht (htIndex (strhash name)) ++ [⟨strhash name, name, ino⟩]) } := by
  unfold directoryInsert HasName
  simp only [any_eq_true]
  split
  · rename_i exists_
    simp [exists_]
  · rename_i absent
    simp only [Except.ok.injEq, absent, not_false_eq_true, true_and]
    exact eq_comm

theorem directoryInsert_error_iff {table : Directory}  {error : Errno} :
    directoryInsert table ⟨strhash name, name, ino⟩ = .error error ↔
      HasName table name ∧ error = .eexist := by
  unfold directoryInsert HasName
  simp only [any_eq_true]
  split
  · rename_i exists_
    simp only [Except.error.injEq, exists_, true_and]
    exact eq_comm
  · rename_i absent
    simp [absent]

/-- Why a new entry is refused: no memory, or the name is taken. -/
def EntryRefused (machine : Machine) (fs : Mount) (dir : Option Nat) (name : CString) : Prop :=
  machine.grants fs.kmallocs = false ∨ machine.grants (fs.kmallocs + 1) = false ∨
    ∃ id table, dir = some id ∧ fs.directories.read id = some table ∧ HasName table name

/-- The `kmalloc` calls of a new entry, for its record and for its name. -/
def entryCalls (machine : Machine) (kmallocs : Nat) : Nat :=
  if machine.grants kmallocs then 2 else 1

/-- A new entry goes into one bucket of one directory. -/
theorem directoryNewEntry_spec {dir : Option Nat} :
    Ensures (directoryNewEntry machine dir name ino) fs fun outcome changed =>
        match outcome with
        | .ok _ =>
          entryCalls machine fs.kmallocs = 2 ∧
          ∃ id table grown, dir = some id ∧ fs.directories.read id = some table ∧
            directoryInsert table ⟨strhash name, name, ino⟩ = .ok grown ∧
            changed =
              { fs with
                directories := fs.directories.change id fun _ => grown
                kmallocs := fs.kmallocs + 2 }
        | .error _ =>
          EntryRefused machine fs dir name ∧
            changed =
              { fs with
                kmallocs := fs.kmallocs + entryCalls machine fs.kmallocs } := by
  unfold directoryNewEntry
  simp only [ensures_bind, ensures_kmalloc, continues_ok, ensures_failIf,
    continues_error, ensures_demand, ensures_consult]
  refine ⟨fun refused => ⟨Or.inl refused, by simp [entryCalls, refused]⟩, fun granted => ?_⟩
  have calls : entryCalls machine fs.kmallocs = 2 := by simp [entryCalls, granted]
  rw [calls]
  refine ⟨fun refused => ⟨Or.inr (Or.inl refused), rfl⟩, fun _ => ?_⟩
  intro id dirEq outcome returned
  obtain ⟨table, reading, inserted⟩ := Option.map_eq_some_iff.mp returned
  cases outcome with
  | ok grown =>
    rw [continues_ok, ensures_update]
    exact ⟨rfl, id, table, grown, dirEq, reading, inserted, rfl⟩
  | error error =>
    exact ⟨Or.inr (Or.inr ⟨id, table, dirEq, reading,
      (directoryInsert_error_iff.mp inserted).1⟩), rfl⟩

/-! ## Links -/

/-- A new link: its entry in the directory and one more on the counter. -/
inductive Linked (fs : Mount) (ino dirino : Nat) (name : CString) : Mount → Prop
  | intro {dirIdata idata dir : Nat} {dirInode inode : Inode}
      {table grown : Directory}
      (dirFound : idataByInode fs dirino = some (some (dirIdata, dirInode)))
      (isDir : IsDir dirInode.mode)
      (dirData : dirInode.data = some dir)
      (found : idataByInode fs ino = some (some (idata, inode)))
      (reading : fs.directories.read dir = some table)
      (inserted : directoryInsert table ⟨strhash name, name, inode.ino⟩ = .ok grown) :
      Linked fs ino dirino name
        { fs with
          directories := fs.directories.change dir fun _ => grown
          inodes := fs.inodes.change idata addLink
          kmallocs := fs.kmallocs + 2 }

/-- Why a link is refused. -/
def LinkRefused (machine : Machine) (fs : Mount) (ino dirino : Nat) (name : CString) : Prop :=
  ∀ dirIdata dirInode idata inode, idataByInode fs dirino = some (some (dirIdata, dirInode)) →
    IsDir dirInode.mode → idataByInode fs ino = some (some (idata, inode)) →
    dirInode.data = none ∨ EntryRefused machine fs dirInode.data name

variable {namelen : Nat}

theorem linkInode_spec {dirino : Nat} :
    Ensures (linkInode machine ino dirino name namelen) fs fun outcome changed =>
        (name.take namelen).length < 255 ∧
        match outcome with
        | .ok _ => Linked fs ino dirino (name.take namelen) changed
        | .error _ =>
          Untouched fs changed ∧ LinkRefused machine fs ino dirino (name.take namelen) := by
  unfold linkInode
  simp only [ensures_ite, ensures_undefined, implies_true, true_and]
  intro short
  have inBuffer : (name.take namelen).length < 255 := Nat.not_le.mp short
  simp only [ensures_bind, ensures_idataOr, continues_ok, continues_error, ensures_failIf]
  refine ⟨fun missing => ⟨inBuffer, rfl, ?_⟩, ?_⟩
  · intro dirIdata dirInode _ _ dirFound
    rw [missing] at dirFound
    cases dirFound
  intro dirIdata dirInode dirFound
  refine ⟨fun notDir => ⟨inBuffer, rfl, ?_⟩, fun isDir => ?_⟩
  · intro other otherInode _ _ otherFound otherIsDir
    rw [dirFound] at otherFound
    cases otherFound
    exact absurd otherIsDir notDir
  refine ⟨fun noData => ⟨inBuffer, rfl, ?_⟩, fun hasData => ⟨?_, ?_⟩⟩
  · intro other otherInode _ _ otherFound _ _
    rw [dirFound] at otherFound
    cases otherFound
    exact Or.inl noData
  · intro missing
    refine ⟨inBuffer, rfl, ?_⟩
    intro _ _ idata inode _ _ found
    rw [missing] at found
    cases found
  intro idata inode found
  refine directoryNewEntry_spec.cases ?_ ?_
  · rintro error _ ⟨refused, rfl⟩
    refine ⟨inBuffer, rfl, ?_⟩
    intro other otherInode _ _ otherFound _ _
    rw [dirFound] at otherFound
    cases otherFound
    exact Or.inr refused
  · rintro _ _ ⟨_, dir, table, grown, dirData, reading, inserted, rfl⟩
    rw [continues_ok, ensures_editInode]
    exact ⟨inBuffer, .intro dirFound (not_not.mp isDir) dirData found reading inserted⟩

/-- The inodes a number resolves to after one of them was edited. -/
theorem idataByInode_edit {inode : Inode} (found : idataByInode fs ino = some (some (idata, inode)))
    (edit : Inode → Inode) (directories : Store Directory) :
    idataByInode
        { fs with
          directories := directories
          inodes := fs.inodes.change idata edit } ino =
      some (some (idata, edit inode)) := by
  have reading := read_of_idataByInode found
  unfold idataByInode at found ⊢
  split at found
  · cases found
  · rename_i other slot
    simp only [slot]
    obtain ⟨content, _, equal⟩ := Option.map_eq_some_iff.mp found
    cases equal
    rw [Store.read_change, if_pos rfl, reading]
    rfl
  · cases found

/-- A mount without the entry and with one less on the counter. -/
def entryDropped (fs : Mount) (dir : Nat) (shrunk : Directory) (idata : Nat) : Mount :=
  { fs with
    directories := fs.directories.change dir fun _ => shrunk
    inodes := fs.inodes.change idata dropLink }

/--
A removed entry: it is gone, the counter is one lower, and the inode is freed
when neither links nor openings are left.
-/
inductive Removed (fs : Mount) (dir : Nat) (basename : CString) (namelen : Nat) : Mount → Prop
  | intro {ino idata : Nat} {inode : Inode} {table shrunk : Directory}
      (reading : fs.directories.read dir = some table)
      (searched : directorySearch table basename namelen = .ok ino)
      (found : idataByInode fs ino = some (some (idata, inode)))
      (notDir : ¬ IsDir inode.mode)
      (deleted : directoryDelete table basename namelen = .ok shrunk) :
      Removed fs dir basename namelen
        (if 0 < (dropLink inode).nlinks ∨ 0 < (dropLink inode).nfds then
          entryDropped fs dir shrunk idata
        else
          freed (entryDropped fs dir shrunk idata) idata (dropLink inode))

/-- The directory and the name a path is split into by an unlink. -/
structure UnlinkTarget
    (fs : Mount) (path : CString) (pathlen dir : Nat)
    (basename : CString) (namelen : Nat) : Prop where
  inside : 0 ≤ pathDirnameLen path pathlen
  parent :
    ∃ parino dirIdata dirInode,
      lookupInode path (pathDirnameLen path pathlen).toNat fs = some (.ok parino) ∧
        idataByInode fs parino = some (some (dirIdata, dirInode)) ∧ IsDir dirInode.mode ∧
        dirInode.data = some dir
  skipped :
    ∃ dirlen,
      skipToBasename (path.drop (pathDirnameLen path pathlen).toNat)
          (pathDirnameLen path pathlen).toNat pathlen = some (basename, dirlen) ∧
      namelen = sub32 pathlen dirlen

theorem unlinkEntry_spec {basename : CString} :
    Ensures (unlinkEntry dir basename namelen) fs fun outcome changed =>
      match outcome with
      | .ok _ => Removed fs dir basename namelen changed
      | .error _ => changed = fs := by
  refine Ensures.consult (fun _ _ => rfl) fun ino searching => ?_
  obtain ⟨table, reading, searched⟩ := Option.map_eq_some_iff.mp searching
  simp only [continues_ok, ensures_bind, ensures_idataOr,
    continues_error, implies_true, true_and, ensures_failIf]
  intro idata inode found notDir
  refine Ensures.consult (fun _ _ => rfl) fun shrunk deleted => ?_
  rw [reading, Option.map_some, Option.some.injEq] at deleted
  rw [ensures_update]
  have removed := Removed.intro reading searched found notDir deleted
  simp only [continues_ok, ensures_bind, ensures_editInode,
    ensures_demand, Store.read_change, if_true, read_of_idataByInode found, Option.map_some,
    Option.some.injEq, forall_eq', ensures_ite, ensures_pure]
  constructor
  · intro kept
    rw [if_pos kept] at removed
    exact removed
  · intro unused
    rw [if_neg unused] at removed
    have refound := idataByInode_edit found dropLink (fs.directories.change dir fun _ => shrunk)
    refine freeInode_spec.cases ?_ ?_
    · rintro _ _ ⟨missing, _⟩
      cases refound.symm.trans missing
    · rintro _ _ ⟨_, _, freedFound, rfl⟩
      cases refound.symm.trans freedFound
      exact removed

variable {path : CString}

theorem unlinkInode_spec {pathlen : Nat} :
    Ensures (unlinkInode path pathlen) fs fun outcome changed =>
      match outcome with
      | .ok _ =>
        ∃ dir basename namelen,
          UnlinkTarget fs path pathlen dir basename namelen ∧
            Removed fs dir basename namelen changed
      | .error _ => changed = fs := by
  unfold unlinkInode
  rw [ensures_bind, ensures_failIf]
  refine ⟨fun _ => rfl, fun inside => Ensures.consult (fun _ _ => rfl) fun parino looked => ?_⟩
  simp only [continues_ok, ensures_bind, ensures_idataOr,
    continues_error, implies_true, true_and, ensures_failIf]
  intro dirIdata dirInode dirFound isDir
  cases dirData : dirInode.data with
  | none => simp
  | some dir =>
    cases skipped :
        skipToBasename (path.drop (pathDirnameLen path pathlen).toNat)
          (pathDirnameLen path pathlen).toNat pathlen with
    | none => simp
    | some skip =>
      obtain ⟨basename, dirlen⟩ := skip
      have target : UnlinkTarget fs path pathlen dir basename (sub32 pathlen dirlen) :=
        { inside := Int.not_lt.mp inside
          parent := ⟨parino, dirIdata, dirInode, looked, dirFound, not_not.mp isDir, dirData⟩
          skipped := ⟨dirlen, skipped, rfl⟩ }
      exact unlinkEntry_spec.cases (fun _ _ unchanged => unchanged)
        fun _ _ removed => ⟨dir, basename, _, target, removed⟩

/-- A mount with one more inode in its table. -/
inductive Grown (machine : Machine) (fs : Mount) (node : Inode) : Mount → Prop
  | intro {tree : Slot Nat} {kmallocs : Nat}
      (granted : machine.grants fs.kmallocs = true)
      (inserted :
        newLeaf machine.grants (fs.kmallocs + 1) fs.tree fs.inodes.count =
          some (node.ino, tree, kmallocs)) :
      Grown machine fs node
        { fs with
          tree := tree
          inodes := fs.inodes.add node
          kmallocs := kmallocs }

theorem Grown.granted {node : Inode} (grown : Grown machine fs node changed) :
    machine.grants fs.kmallocs = true := by
  cases grown with
  | intro granted inserted => exact granted

theorem inodeNew_grown : Ensures (inodeNew machine mode) fs fun outcome changed =>
      match outcome with
      | .ok idata => idata = fs.inodes.count ∧ ∃ ino, Grown machine fs (newInode ino mode) changed
      | .error _ =>
        Untouched fs changed ∧ machine.grants fs.kmallocs = false := by
  refine inodeNew_spec.cases (fun _ _ refused => refused) ?_
  rintro idata _ ⟨idataEq, granted, ino, tree, kmallocs, inserted, rfl⟩
  exact ⟨idataEq, ino, .intro granted inserted⟩

/-- The inode of a new node. -/
def madeNode (ino : Nat) (mode info : UInt32) : Inode :=
  if IsDevice mode then setDevice info (newInode ino mode)
  else newInode ino mode

theorem madeNode_freshNode (ino : Nat) (mode info : UInt32) :
    FreshNode (madeNode ino mode info) ino mode := by
  unfold madeNode
  split
  · exact ⟨rfl, rfl, rfl, rfl, rfl⟩
  · exact newInode_freshNode ino mode

theorem makeNode_made {info : UInt32} :
    Ensures (makeNode machine mode info) fs fun outcome changed =>
      match outcome with
      | .ok ino => Grown machine fs (madeNode ino mode info) changed
      | .error _ =>
        Untouched fs changed ∧ machine.grants fs.kmallocs = false := by
  refine inodeNew_grown.bind (fun _ _ refused => refused) ?_
  rintro _ _ ⟨rfl, ino, ⟨granted, inserted⟩⟩
  simp only [continues_ok, ensures_bind, ensures_ite,
    ensures_editInode, ensures_pure, ensures_demand,
    Store.read_add_count, Option.some.injEq, forall_eq', Store.change_add_count]
  constructor
  · intro isDevice
    have made : madeNode ino mode info = setDevice info (newInode ino mode) := if_pos isDevice
    have number : (setDevice info (newInode ino mode)).ino = ino := rfl
    rw [number, made]
    exact .intro granted inserted
  · intro notDevice
    have made : madeNode ino mode info = newInode ino mode := if_neg notDevice
    have number : (newInode ino mode).ino = ino := rfl
    rw [number, made]
    exact .intro granted inserted

/-! ## New directories -/

/-- The outcome of an entry whose error is not looked at. -/
def EntryTried (machine : Machine) (fs : Mount) (dir : Option Nat)
    (name : CString) (ino : Nat) (changed : Mount) : Prop :=
  (entryCalls machine fs.kmallocs = 2 ∧
    ∃ id table grown, dir = some id ∧ fs.directories.read id = some table ∧
      directoryInsert table ⟨strhash name, name, ino⟩ = .ok grown ∧
      changed =
        { fs with
          directories := fs.directories.change id fun _ => grown
          kmallocs := fs.kmallocs + 2 }) ∨
  (EntryRefused machine fs dir name ∧
    changed =
      { fs with
        kmallocs := fs.kmallocs + entryCalls machine fs.kmallocs })

/-- The directory a path is to be made in. -/
def ParentOf (fs : Mount) (path : CString) (data : Option Nat) : Prop :=
  ∃ parino parIdata inode,
    lookupInode path (basenameStart path) fs = some (.ok parino) ∧
      idataByInode fs parino = some (some (parIdata, inode)) ∧ IsDir inode.mode ∧ inode.data = data

/-- The parent of a path does not resolve, or is not a directory. -/
def ParentFault (fs : Mount) (path : CString) : Prop :=
  (∃ error, lookupInode path (basenameStart path) fs = some (.error error)) ∨
  ∃ parino parIdata inode,
    lookupInode path (basenameStart path) fs = some (.ok parino) ∧
      idataByInode fs parino = some (some (parIdata, inode)) ∧ ¬ IsDir inode.mode

/-- The parent of a path resolves to a number without an inode. -/
def ParentMissing (fs : Mount) (path : CString) : Prop :=
  ∃ parino,
    lookupInode path (basenameStart path) fs = some (.ok parino) ∧
      idataByInode fs parino = some none

theorem enterParent_spec :
    Ensures (enterParent machine path idata ino) fs fun outcome changed =>
        match outcome with
        | .ok true =>
          ∃ data middle, ParentOf fs path data ∧
            EntryTried machine fs data (newName path) ino middle ∧
            changed =
              { middle with
                inodes := middle.inodes.change idata addLink }
        | .ok false => ParentMissing fs path ∧ changed = fs
        | .error _ => ParentFault fs path ∧ changed = fs := by
  refine Ensures.consult (fun error looked => ⟨Or.inl ⟨error, looked⟩, rfl⟩) fun parino looked => ?_
  simp only [continues_ok, ensures_bind, ensures_demand]
  intro parent parentEq
  cases parent with
  | none =>
    rw [ensures_pure]
    exact ⟨⟨parino, looked, parentEq⟩, rfl⟩
  | some pair =>
    obtain ⟨parIdata, inode⟩ := pair
    simp only [ensures_bind, ensures_failIf, continues_error,
      continues_ok, ensures_attempt, ensures_editInode, ensures_pure]
    refine ⟨fun notDir => ⟨Or.inr ⟨parino, parIdata, inode, looked,
      parentEq, notDir⟩, trivial⟩, fun isDir => ?_⟩
    have parentOf : ParentOf fs path inode.data :=
      ⟨parino, parIdata, inode, looked, parentEq, not_not.mp isDir, rfl⟩
    refine directoryNewEntry_spec.cases ?_ ?_
    · exact fun _ changed refused => ⟨_, changed, parentOf, Or.inr refused, rfl⟩
    · exact fun _ changed entered => ⟨_, changed, parentOf, Or.inl entered, rfl⟩

/-- A new directory has its entry above it, and the link for that entry. -/
inductive Entered
    (machine : Machine) (path : CString) (idata dir ino : Nat) (fs : Mount) : Mount → Prop
  | self {table grown : Directory}
      (root : path = [])
      (reading : fs.directories.read dir = some table)
      (inserted : directoryInsert table ⟨strhash dotdotName, dotdotName, ino⟩ = .ok grown) :
      Entered machine path idata dir ino fs
        { fs with
          directories := fs.directories.change dir fun _ => grown
          inodes := fs.inodes.change idata addLink
          kmallocs := fs.kmallocs + 2 }
  | parent {data : Option Nat} {middle : Mount}
      (below : path ≠ [])
      (parentOf : ParentOf fs path data)
      (tried : EntryTried machine fs data (newName path) ino middle) :
      Entered machine path idata dir ino fs
        { middle with inodes := middle.inodes.change idata addLink }

theorem enterAbove_spec :
    Ensures (enterAbove machine path idata dir ino) fs fun outcome changed =>
        match outcome with
        | .ok true => Entered machine path idata dir ino fs changed
        | .ok false => path ≠ [] ∧ ParentMissing fs path ∧ changed = fs
        | .error _ =>
          (path = [] ∧ Untouched fs changed ∧ EntryRefused machine fs (some dir) dotdotName) ∨
          (path ≠ [] ∧ ParentFault fs path ∧ changed = fs) := by
  unfold enterAbove
  rw [ensures_ite]
  constructor
  · intro isEmpty
    have root := List.isEmpty_iff.mp isEmpty
    refine directoryNewEntry_spec.bind ?_ ?_
    · rintro error _ ⟨refused, rfl⟩
      exact Or.inl ⟨root, rfl, refused⟩
    · rintro _ _ ⟨_, _, table, grown, ⟨⟩, reading, inserted, rfl⟩
      simp only [continues_ok, ensures_bind, ensures_editInode, ensures_pure]
      exact .self root reading inserted
  · intro notEmpty
    have below : path ≠ [] := fun root => notEmpty (List.isEmpty_iff.mpr root)
    refine enterParent_spec.cases (fun _ _ fault => Or.inr ⟨below, fault⟩) ?_
    rintro (_ | _) changed returned
    · exact ⟨below, returned⟩
    · obtain ⟨data, middle, parentOf, tried, rfl⟩ := returned
      exact .parent below parentOf tried

/-- Where the entries of a new directory stop short. -/
inductive EntriesStopped
    (machine : Machine) (path : CString) (idata dir ino : Nat) (fs : Mount) : Mount → Prop
  | self {changed : Mount}
      (root : path = [])
      (untouched : Untouched fs changed)
      (refused : EntryRefused machine fs (some dir) dotdotName) :
      EntriesStopped machine path idata dir ino fs changed
  | parent
      (below : path ≠ [])
      (fault : ParentFault fs path) :
      EntriesStopped machine path idata dir ino fs fs
  | dot {middle changed : Mount}
      (entered : Entered machine path idata dir ino fs middle)
      (untouched : Untouched middle changed)
      (refused : EntryRefused machine middle (some dir) dotName) :
      EntriesStopped machine path idata dir ino fs changed

/-- Both entries of a new directory. -/
inductive EntriesMade
    (machine : Machine) (path : CString) (idata dir ino : Nat) (fs : Mount) : Mount → Prop
  | intro {middle : Mount} {table grown : Directory}
      (entered : Entered machine path idata dir ino fs middle)
      (reading : middle.directories.read dir = some table)
      (inserted : directoryInsert table ⟨strhash dotName, dotName, ino⟩ = .ok grown) :
      EntriesMade machine path idata dir ino fs
        { middle with
          directories := middle.directories.change dir fun _ => grown
          kmallocs := middle.kmallocs + 2 }

theorem makeEntries_spec :
    Ensures (makeEntries machine path idata dir) fs fun outcome changed =>
        ∃ inode, fs.inodes.read idata = some inode ∧ match outcome with
          | .ok true => EntriesMade machine path idata dir inode.ino fs changed
          | .ok false => path ≠ [] ∧ ParentMissing fs path ∧ changed = fs
          | .error _ =>
            EntriesStopped machine path idata dir inode.ino fs changed := by
  unfold makeEntries
  simp only [ensures_bind, ensures_demand, continues_ok]
  intro inode target
  refine enterAbove_spec.mono ?_
  intro outcome middle returned
  rcases outcome with error | (_ | _)
  · rcases returned with
      ⟨root, untouched, refused⟩ | ⟨below, fault, unchanged⟩
    · exact ⟨inode, target, .self root untouched refused⟩
    · rw [unchanged]
      exact ⟨inode, target, .parent below fault⟩
  · simp only [continues_ok, Bool.false_eq_true, if_false, ensures_pure]
    exact ⟨inode, target, returned⟩
  · simp only [continues_ok, if_true, ensures_bind]
    refine directoryNewEntry_spec.cases ?_ ?_
    · rintro error _ ⟨refused, rfl⟩
      exact ⟨inode, target, .dot returned rfl refused⟩
    · rintro _ _ ⟨_, _, table, grown, ⟨⟩, reading, inserted, rfl⟩
      simp only [continues_ok, ensures_pure]
      exact ⟨inode, target, .intro returned reading inserted⟩

/-- A mount with one more, empty directory. -/
def withDirectory (fs : Mount) : Mount :=
  { fs with
    directories := fs.directories.add emptyDirectory
    kmallocs := fs.kmallocs + 2 }

/-- A mount after `error_exit` freed a new directory and its inode. -/
def abandoned (fs : Mount) (dir idata : Nat) (inode : Inode) : Mount :=
  freed { fs with directories := fs.directories.free dir } idata inode

/-- A mount after a new inode was given its directory and the last link. -/
def attached (fs : Mount) (idata dir : Nat) : Mount :=
  { fs with
    inodes := fs.inodes.change idata fun inode => addLink (setData dir inode) }

/-- How `ramfs_make_directory` goes on from a new inode. -/
inductive Populated
    (machine : Machine) (path : CString) (idata : Nat) (made : Mount) :
    Except Errno Nat → Mount → Prop
  | noMemory {changed : Mount} {inode : Inode} {error : Errno}
      (refused : machine.grants made.kmallocs = false ∨ machine.grants (made.kmallocs + 1) = false)
      (untouched : Untouched made changed)
      (reading : changed.inodes.read idata = some inode) :
      Populated machine path idata made (.error error) (freed changed idata inode)
  | stopped {middle : Mount} {inode : Inode} {error : Errno}
      (returned :
        makeEntries machine path idata made.directories.count (withDirectory made) =
          some (.error error, middle))
      (reading : middle.inodes.read idata = some inode) :
      Populated machine path idata made (.error error)
        (abandoned middle made.directories.count idata inode)
  | lost {middle : Mount} {inode : Inode}
      (returned :
        makeEntries machine path idata made.directories.count (withDirectory made) =
          some (.ok false, middle))
      (reading : middle.inodes.read idata = some inode) :
      Populated machine path idata made (.ok 0)
        (abandoned middle made.directories.count idata inode)
  | finished {middle : Mount} {inode : Inode}
      (returned :
        makeEntries machine path idata made.directories.count (withDirectory made) =
          some (.ok true, middle))
      (reading : middle.inodes.read idata = some inode) :
      Populated machine path idata made (.ok inode.ino)
        (attached middle idata made.directories.count)

@[simp]
theorem ensures_errorExit :
    Ensures (errorExit (some dir) idata) fs post ↔
      ∀ inode, fs.inodes.read idata = some inode →
        post (.ok ⟨⟩) (abandoned fs dir idata inode) := by
  unfold errorExit
  simp only [ensures_bind, ensures_directoryFree, continues_ok, ensures_inodeFree]
  rfl

@[simp]
theorem ensures_errorExit_none :
    Ensures (errorExit none idata) fs post ↔
      ∀ inode, fs.inodes.read idata = some inode → post (.ok ⟨⟩) (freed fs idata inode) := by
  exact ensures_inodeFree

theorem makeDirectory_spec : Ensures (makeDirectory machine path mode) fs fun outcome changed =>
      (∃ error, outcome = .error error ∧ Untouched fs changed ∧
        machine.grants fs.kmallocs = false) ∨
      ∃ ino made,
        Grown machine fs (newInode ino (sIfdir ||| mode)) made ∧
          Populated machine path fs.inodes.count made outcome changed := by
  refine inodeNew_grown.bind (fun error _ refused => Or.inl ⟨error, rfl, refused⟩) ?_
  rintro _ made ⟨rfl, ino, grown⟩
  simp only [ensures_bind, ensures_handle]
  refine directoryNew_spec.cases ?_ ?_
  · rintro error changed ⟨untouched, refused⟩
    simp only [recovers_error, ensures_bind, ensures_errorExit_none,
      continues_ok, ensures_fail, continues_error]
    intro inode reading
    exact Or.inr ⟨ino, made, grown, .noMemory refused untouched reading⟩
  · rintro _ _ ⟨rfl, rfl⟩
    simp only [recovers_ok, continues_ok, ensures_bind, ensures_handle]
    refine ⟨fun outcome middle entries => ?_⟩
    rcases outcome with error | (_ | _)
    · simp only [recovers_error, ensures_bind, ensures_errorExit,
        continues_ok, ensures_fail, continues_error]
      intro inode reading
      exact Or.inr ⟨ino, made, grown, .stopped entries reading⟩
    · simp only [recovers_ok, continues_ok, ensures_bind,
        ensures_errorExit, ensures_pure, Bool.false_eq_true, if_false]
      intro inode reading
      exact Or.inr ⟨ino, made, grown, .lost entries reading⟩
    · simp only [recovers_ok, continues_ok, ensures_bind,
        ensures_editInode, ensures_demand, ensures_pure, if_true, Store.read_change]
      intro inode reading
      obtain ⟨before, beforeReading, rfl⟩ := Option.map_eq_some_iff.mp reading
      have finished := Populated.finished entries beforeReading
      exact Or.inr ⟨ino, made, grown, finished⟩

end Cosec.Fs.MountSteps
