import Cosec.Fs.TreeRuns

/-!
# The names a path passes

A mount is a graph: an inode number stands for a directory object or for none,
and a name in a directory object leads to an inode number.  The walk along a
path passes some names, and its outcome depends on no others.  So an operation
that changes one name leaves every path that does not pass it.
-/

namespace Cosec.Fs.NameGraph

open Fs.ComponentWalk Fs.DirectoryMaps Fs.Dirnames Fs.PathLookup Fs.Ramfs Fs.TreeRuns Fs.Vfs
open Fs.VfsSteps Lib.Commands Lib.Commands.Command Lib.Components Lib.ObjectStore Libc.ErrorNumbers
open Libc.Strings List

/-! ## The graph -/

/-- The directory object behind an inode number. -/
def directoryObject (fs : Mount) (ino : Nat) : Option Nat := match idataByInode fs ino with
  | some (some (_, inode)) => if IsDir inode.mode then inode.data else none
  | _ => none

/-- The inode number behind a name in a directory object. -/
def nameAt (fs : Mount) (dir : Nat) (name : CString) : Option Nat :=
  (fs.directories.read dir).bind fun table => nameMap table name

variable {fs changed : Mount}

theorem directoryOf_eq (fs : Mount) (ino : Nat) :
    directoryOf fs ino = (directoryObject fs ino).bind fs.directories.read := by
  unfold directoryOf directoryObject
  rcases idataByInode fs ino with _ | _ | ⟨idata, inode⟩
  · rfl
  · rfl
  · dsimp only
    split
    · rfl
    · rfl

/-- The object of an inode of a numbered mount. -/
theorem directoryObject_eq (numbered : Numbered fs) (ino : Nat) :
    directoryObject fs ino = (fs.inodes.read ino).bind fun inode =>
        if IsDir inode.mode then inode.data else none := by
  unfold directoryObject
  rw [idataByInode_flat numbered.flat]
  cases fs.inodes.read ino with
  | none => rfl
  | some inode => rfl

theorem object_lt
    (numbered : Numbered fs) {ino dir : Nat} (object : directoryObject fs ino = some dir) :
    dir < fs.directories.count := by
  rw [directoryObject_eq numbered] at object
  obtain ⟨inode, reading, data⟩ := Option.bind_eq_some_iff.mp object
  split at data
  · exact numbered.data ino inode dir reading data
  · cases data

variable {child : Nat}

theorem child_lt (numbered : Numbered fs) {dir : Nat} {name : CString}
    (named : nameAt fs dir name = some child) : child < fs.inodes.count := by
  obtain ⟨table, reading, mapped⟩ := Option.bind_eq_some_iff.mp named
  obtain ⟨de, member, _, rfl⟩ := exists_entry_of_nameMap mapped
  exact numbered.entries dir table reading _ de member

theorem directoryOf_eq_none_iff (numbered : Numbered fs) (ino : Nat) :
    directoryOf fs ino = none ↔ directoryObject fs ino = none := by
  rw [directoryOf_eq]
  cases object : directoryObject fs ino with
  | none => simp
  | some dir =>
    obtain ⟨table, reading⟩ := Store.exists_read (object_lt numbered object)
    simp [reading]

theorem walk_blocked {ino : Nat} (object : directoryObject fs ino = none)
    (component : CString) (rest : List CString) :
    componentWalk fs false ino (component :: rest) = .error .enotdir := by
  rw [componentWalk, directoryOf_eq, object]
  rfl

variable {component : CString}

theorem walk_missing
    (numbered : Numbered fs) {ino dir : Nat} (object : directoryObject fs ino = some dir)
    (missing : nameAt fs dir component = none) (rest : List CString) :
    componentWalk fs false ino (component :: rest) = .error .enoent := by
  obtain ⟨table, reading⟩ := Store.exists_read (object_lt numbered object)
  rw [nameAt, reading, Option.bind_some] at missing
  refine componentWalk_missing ?_ missing false rest
  rw [directoryOf_eq, object, Option.bind_some, reading]

theorem walk_found {ino dir : Nat} (object : directoryObject fs ino = some dir)
    (named : nameAt fs dir component = some child) (rest : List CString) :
    componentWalk fs false ino (component :: rest) = componentWalk fs false child rest := by
  obtain ⟨table, reading, mapped⟩ := Option.bind_eq_some_iff.mp named
  refine componentWalk_found ?_ mapped false rest
  rw [directoryOf_eq, object, Option.bind_some, reading]

variable {ino last : Nat}

theorem step_of_walk (numbered : Numbered fs) {rest : List CString}
    (walked : componentWalk fs false ino (component :: rest) = .ok last) :
    ∃ dir child,
      directoryObject fs ino = some dir ∧ nameAt fs dir component = some child ∧
        componentWalk fs false child rest = .ok last := by
  cases object : directoryObject fs ino with
  | none =>
    rw [walk_blocked object] at walked
    cases walked
  | some dir =>
    cases named : nameAt fs dir component with
    | none =>
      rw [walk_missing numbered object named] at walked
      cases walked
    | some child =>
      rw [walk_found object named] at walked
      exact ⟨dir, child, rfl, named, walked⟩

variable {front : List CString}

theorem walk_append (numbered : Numbered fs) {middle : Nat}
    (walked : componentWalk fs false ino front = .ok middle) (back : List CString) :
    componentWalk fs false ino (front ++ back) = componentWalk fs false middle back := by
  induction front generalizing ino with
  | nil =>
    cases walked
    rfl
  | cons component rest ih =>
    obtain ⟨dir, child, object, named, later⟩ := step_of_walk numbered walked
    rw [cons_append, walk_found object named]
    exact ih later

/-- A walk that arrives has arrived at every point on the way. -/
theorem exists_walk_of_append (numbered : Numbered fs) {back : List CString}
    (walked : componentWalk fs false ino (front ++ back) = .ok last) :
    ∃ middle, componentWalk fs false ino front = .ok middle := by
  induction front generalizing ino with
  | nil => exact ⟨ino, componentWalk_nil fs ino⟩
  | cons component rest ih =>
    obtain ⟨dir, child, object, named, later⟩ := step_of_walk numbered walked
    rw [walk_found object named]
    exact ih later

variable {parts : List CString}

theorem walk_lt (numbered : Numbered fs) (present : ino < fs.inodes.count)
    (walked : componentWalk fs false ino parts = .ok last) : last < fs.inodes.count := by
  induction parts generalizing ino with
  | nil =>
    cases walked
    exact present
  | cons component rest ih =>
    obtain ⟨dir, child, _, named, later⟩ := step_of_walk numbered walked
    exact ih (child_lt numbered named) later

/-- The walk along some components looks for a name in an object. -/
inductive Passes (fs : Mount) (dir : Nat) (name : CString) : Nat → List CString → Prop
  | here {ino : Nat} {rest : List CString}
      (object : directoryObject fs ino = some dir) :
      Passes fs dir name ino (name :: rest)
  | later {ino above child : Nat} {component : CString}
      {rest : List CString}
      (object : directoryObject fs ino = some above)
      (named : nameAt fs above component = some child)
      (passes : Passes fs dir name child rest) :
      Passes fs dir name ino (component :: rest)

variable {dir : Nat} {name : CString}

/--
What is behind a name that a walk passes is the end of the walk, or a
directory.
-/
theorem child_of_passes
    (numbered : Numbered fs) (walked : componentWalk fs false ino parts = .ok last)
    (passes : Passes fs dir name ino parts) :
    ∃ child, nameAt fs dir name = some child ∧
      (child = last ∨ directoryObject fs child ≠ none) := by
  induction passes with
  | @here ino rest object =>
    obtain ⟨above, child, sameObject, named, later⟩ := step_of_walk numbered walked
    cases object.symm.trans sameObject
    refine ⟨child, named, ?_⟩
    cases rest with
    | nil =>
      cases later
      exact Or.inl rfl
    | cons next others =>
      obtain ⟨below, _, isObject, _⟩ := step_of_walk numbered later
      exact Or.inr (by rw [isObject]; exact Option.some_ne_none below)
  | later object named _ ih =>
    rw [walk_found object named] at walked
    exact ih walked

theorem not_passes_of_free (numbered : Numbered fs) (free : nameAt fs dir name = none)
    (walked : componentWalk fs false ino parts = .ok last) : ¬ Passes fs dir name ino parts := by
  intro passes
  obtain ⟨child, named, _⟩ := child_of_passes numbered walked passes
  cases free.symm.trans named

/-- A later mount differs in what is behind one name. -/
structure Differs (fs changed : Mount) (dir : Nat) (name : CString)
    (value : Option Nat) : Prop where
  root : changed.rootIno = fs.rootIno
  objects : ∀ ino, ino < fs.inodes.count → directoryObject changed ino = directoryObject fs ino
  self : nameAt changed dir name = value
  others :
    ∀ other, other < fs.directories.count →
      ∀ otherName, ¬ (other = dir ∧ otherName = name) →
        nameAt changed other otherName = nameAt fs other otherName

variable {value : Option Nat}

/-- A name looked for by a walk that does not pass the changed one. -/
theorem Differs.nameAt (differs : Differs fs changed dir name value) (numbered : Numbered fs)
    {above : Nat} {rest : List CString} (object : directoryObject fs ino = some above)
    (apart : ¬ Passes fs dir name ino (component :: rest)) :
    nameAt changed above component = NameGraph.nameAt fs above component := by
  refine differs.others above (object_lt numbered object) component ?_
  rintro ⟨rfl, rfl⟩
  exact apart (.here object)

section Frame

variable (differs : Differs fs changed dir name value) (numbered : Numbered fs)

include differs numbered

variable {parts : List CString}

theorem Differs.componentWalk (numberedLater : Numbered changed) (present : ino < fs.inodes.count)
    (apart : ¬ Passes fs dir name ino parts) :
    componentWalk changed false ino parts = ComponentWalk.componentWalk fs false ino parts := by
  induction parts generalizing ino with
  | nil => rw [componentWalk_nil, componentWalk_nil]
  | cons component rest ih =>
    have sameObject := differs.objects ino present
    cases object : directoryObject fs ino with
    | none =>
      rw [object] at sameObject
      rw [walk_blocked object, walk_blocked sameObject]
    | some above =>
      rw [object] at sameObject
      have sameName := differs.nameAt numbered object apart
      cases named : NameGraph.nameAt fs above component with
      | none =>
        rw [named] at sameName
        rw [walk_missing numbered object named, walk_missing numberedLater sameObject sameName]
      | some child =>
        rw [named] at sameName
        rw [walk_found object named, walk_found sameObject sameName]
        exact ih (child_lt numbered named) fun passes => apart (.later object named passes)

theorem Differs.walk_object (numberedLater : Numbered changed) {below : Nat}
    (apart : ¬ Passes fs dir name fs.rootIno parts)
    (walked : ComponentWalk.componentWalk fs false fs.rootIno parts = .ok last)
    (object : directoryObject fs last = some below) :
    ComponentWalk.componentWalk changed false changed.rootIno parts = .ok last ∧
      directoryObject changed last = some below := by
  constructor
  · rw [differs.root, differs.componentWalk numbered numberedLater numbered.root apart]
    exact walked
  · rw [differs.objects last (walk_lt numbered numbered.root walked)]
    exact object

theorem Differs.passes {other : Nat} {otherName : CString} (present : ino < fs.inodes.count)
    (apart : ¬ Passes fs dir name ino parts) (passes : Passes changed other otherName ino parts) :
    Passes fs other otherName ino parts := by
  induction passes with
  | here object =>
    rw [differs.objects _ present] at object
    exact .here object
  | @later ino above child component rest object named _ ih =>
    rw [differs.objects _ present] at object
    rw [differs.nameAt numbered object apart] at named
    exact .later object named
      (ih (child_lt numbered named) fun below => apart (.later object named below))

end Frame

/-! ## Paths -/

/-- What `vfs_lookup` returns. -/
def lookupOf (fs : Mount) (path : CString) : Option (Except Errno Nat) :=
  (vfsLookup path fs).map Prod.fst

/-- What a path of the mount tree resolves to. -/
def resolved (fs : Mount) (path : CString) : Except Errno Nat := match mountnodeByPath path with
  | .ok fspath => resolve fs fspath sizeMax
  | .error error => .error error

variable {path : CString}

theorem resolved_eq {fspath : CString} (mount : mountnodeByPath path = .ok fspath) :
    resolved fs path = resolve fs fspath sizeMax := by
  rw [resolved, mount]

theorem mounted_of_resolved (resolves : resolved fs path = .ok ino) :
    ∃ fspath, mountnodeByPath path = .ok fspath ∧ resolve fs fspath sizeMax = .ok ino := by
  cases mount : mountnodeByPath path with
  | error error =>
    rw [resolved, mount] at resolves
    cases resolves
  | ok fspath =>
    rw [resolved_eq mount] at resolves
    exact ⟨fspath, rfl, resolves⟩

theorem lookupOf_eq (sound : Sound fs) (path : CString) :
    lookupOf fs path = some (resolved fs path) := by
  unfold lookupOf resolved vfsLookup
  cases mount : mountnodeByPath path with
  | error error =>
    rw [(returns_fspathOf mount).bind_error.run]
    rfl
  | ok fspath =>
    have looked :
        Returns (consult (lookupInode fspath sizeMax)) fs (resolve fs fspath sizeMax) fs :=
      .consult (sound.looked_iff.mpr rfl)
    rw [((returns_fspathOf mount).bind looked).run]
    rfl

/-- The lookup of a path looks for a name in an object. -/
def PathPasses (fs : Mount) (dir : Nat) (name path : CString) : Prop :=
  ∃ fspath,
    mountnodeByPath path = .ok fspath ∧ startsInSep isSep fspath = false ∧
      Passes fs dir name fs.rootIno (components isSep fspath)

/-- A path is a name in a directory that it leads to. -/
def NamesEntry (fs : Mount) (path : CString) (dir : Nat) (name : CString) : Prop :=
  ∃ fspath front parino,
    mountnodeByPath path = .ok fspath ∧ components isSep fspath = front ++ [name] ∧
      componentWalk fs false fs.rootIno front = .ok parino ∧ directoryObject fs parino = some dir

/-- The lookup of a path looks for the name that another path is. -/
def PassesEntryOf (fs : Mount) (other path : CString) : Prop :=
  ∃ dir name, NamesEntry fs other dir name ∧ PathPasses fs dir name path

variable {fspath : CString}

theorem mountnodeByPath_take (path : Path) (mount : mountnodeByPath path.chars = .ok fspath) :
    fspath.take sizeMax = fspath :=
  take_of_length_le (le_of_lt (lt_trans (mountnodeByPath_length mount) path.bounded))

/-- A path that does not pass the changed name resolves as before. -/
theorem Differs.resolved (differs : Differs fs changed dir name value)
    (numbered : Numbered fs) (numberedLater : Numbered changed) (path : Path)
    (apart : ¬ PathPasses fs dir name path.chars) :
    resolved changed path.chars = NameGraph.resolved fs path.chars := by
  unfold NameGraph.resolved
  cases mount : mountnodeByPath path.chars with
  | error error => rfl
  | ok fspath =>
    dsimp only
    unfold resolve
    rw [mountnodeByPath_take path mount, differs.root]
    split
    · rfl
    · split
      · rfl
      · rename_i notEmpty proper
        have start : startsInSep isSep fspath = false := Bool.eq_false_iff.mpr proper
        have walk :=
          differs.componentWalk numbered numberedLater numbered.root
            fun passes => apart ⟨fspath, mount, start, passes⟩
        unfold lookupOutcome
        rw [mountnodeByPath_take path mount, walk]
        cases walked :
            ComponentWalk.componentWalk fs false fs.rootIno (components isSep fspath) with
        | error error => rfl
        | ok child =>
          have present := walk_lt numbered numbered.root walked
          have sameKind : directoryOf changed child = none ↔ directoryOf fs child = none := by
            rw [directoryOf_eq_none_iff numbered, directoryOf_eq_none_iff numberedLater,
              differs.objects child present]
          simp only [sameKind]

theorem Differs.resolved_twice
    {final : Mount} {next : Nat} {nextName : CString} {nextValue : Option Nat}
    (differs : Differs fs changed dir name value)
    (later : Differs changed final next nextName nextValue)
    (numbered : Numbered fs) (numberedLater : Numbered changed) (numberedFinal : Numbered final)
    (path : Path) (apart : ¬ PathPasses fs dir name path.chars)
    (apartNext : ¬ PathPasses fs next nextName path.chars) :
    NameGraph.resolved final path.chars = NameGraph.resolved fs path.chars := by
  have stillApart : ¬ PathPasses changed next nextName path.chars := by
    rintro ⟨fspath, mount, start, passes⟩
    rw [differs.root] at passes
    exact apartNext ⟨fspath, mount, start,
      differs.passes numbered numbered.root
        (fun before => apart ⟨fspath, mount, start, before⟩) passes⟩
  rw [later.resolved numberedLater numberedFinal path stillApart,
    differs.resolved numbered numberedLater path apart]

theorem resolve_proper
    (whole : fspath.take sizeMax = fspath) (start : startsInSep isSep fspath = false)
    (finish : endsInSep isSep fspath = false) :
    resolve fs fspath sizeMax = componentWalk fs false fs.rootIno (components isSep fspath) := by
  rw [resolve_plain (by rw [whole]; exact start)
    (by rw [whole]; exact finish), whole, walkPath, finish]

theorem walk_of_resolve (whole : fspath.take sizeMax = fspath)
    (resolves : resolve fs fspath sizeMax = .ok ino) :
    componentWalk fs false fs.rootIno (components isSep fspath) = .ok ino := by
  unfold resolve lookupOutcome at resolves
  rw [whole] at resolves
  split at resolves
  · rename_i empty
    rw [empty, components_nil, componentWalk_nil]
    exact resolves
  · split at resolves
    · cases resolves
    · split at resolves
      · cases resolves
      · rename_i child walked
        split at resolves
        · rw [walked, resolves]
        · split at resolves
          · cases resolves
          · cases resolves

theorem start_of_resolve (nonempty : fspath ≠ []) (resolves : resolve fs fspath sizeMax = .ok ino) :
    startsInSep isSep fspath = false := by
  by_contra leading
  have taken : fspath.take sizeMax ≠ [] := by
    rw [ne_eq, take_eq_nil_iff]
    rintro (zero | empty)
    · cases zero
    · exact nonempty empty
  rw [resolve_leading (by
    rw [startsInSep_take taken]
    exact (Bool.not_eq_false _).mp leading)] at resolves
  cases resolves

/-- The separator in front of a path counts when there is nothing else. -/
theorem endsInSep_mounted (mount : mountnodeByPath path = .ok fspath) :
    endsInSep isSep path = false ↔ fspath ≠ [] ∧ endsInSep isSep fspath = false := by
  cases path with
  | nil => cases mount
  | cons char rest =>
    rw [mountnodeByPath] at mount
    split at mount
    · rename_i isSeparator
      cases mount
      by_cases empty : fspath = []
      · rw [empty]
        simp [endsInSep, isSeparator]
      · rw [← singleton_append, endsInSep_append [char] empty]
        simp [empty]
    · cases mount

/-! ## The parent and the last component -/

/--
A path without separators at its ends, taken apart by the operations on
names: the components in front of the last one, and the last one.
-/
structure Parts (fspath : CString) (front : List CString) (base : CString) : Prop where
  start : startsInSep isSep fspath = false
  finish : endsInSep isSep fspath = false
  split : components isSep fspath = front ++ [base]
  named : base ≠ []
  inside : 0 ≤ pathDirnameLen fspath sizeMax
  link : linkName fspath (pathDirnameLen fspath sizeMax) = base
  skipped :
    ∃ dirlen,
      skipToBasename (fspath.drop (pathDirnameLen fspath sizeMax).toNat)
          (pathDirnameLen fspath sizeMax).toNat sizeMax = some (base, dirlen)
  parent :
    ∀ fs,
      resolve fs fspath (pathDirnameLen fspath sizeMax).toNat =
        componentWalk fs false fs.rootIno front

variable {base : CString}

theorem Parts.nonempty (parts : Parts fspath front base) : fspath ≠ [] := by
  rintro rfl
  have split := parts.split
  exact append_ne_nil_of_right_ne_nil front (cons_ne_nil base []) split.symm

/-- The walk of a path with parts that resolves. -/
theorem Parts.walk (parts : Parts fspath front base) (numbered : Numbered fs)
    (whole : fspath.take sizeMax = fspath) (resolves : resolve fs fspath sizeMax = .ok ino) :
    ∃ parino dir,
      componentWalk fs false fs.rootIno front = .ok parino ∧ directoryObject fs parino = some dir ∧
        nameAt fs dir base = some ino := by
  rw [resolve_proper whole parts.start parts.finish, parts.split] at resolves
  obtain ⟨parino, walked⟩ := exists_walk_of_append numbered resolves
  rw [walk_append numbered walked] at resolves
  obtain ⟨dir, child, object, named, arrived⟩ := step_of_walk numbered resolves
  cases arrived
  exact ⟨parino, dir, walked, object, named⟩

theorem Parts.resolve_eq {parino : Nat} (parts : Parts fspath front base) (numbered : Numbered fs)
    (whole : fspath.take sizeMax = fspath)
    (walked : componentWalk fs false fs.rootIno front = .ok parino)
    (object : directoryObject fs parino = some dir) :
    resolve fs fspath sizeMax = foundOr (nameAt fs dir base) := by
  rw [resolve_proper whole parts.start parts.finish, parts.split, walk_append numbered walked]
  cases named : nameAt fs dir base with
  | none => exact walk_missing numbered object named []
  | some child =>
    rw [walk_found object named, componentWalk_nil]
    rfl

/-- After a new name in its parent a path resolves to it. -/
theorem Parts.resolve_entered {parino : Nat} (parts : Parts fspath front base)
    (numbered : Numbered fs) (numberedLater : Numbered changed)
    (whole : fspath.take sizeMax = fspath)
    (walked : componentWalk fs false fs.rootIno front = .ok parino)
    (object : directoryObject fs parino = some dir) (free : nameAt fs dir base = none)
    (differs : Differs fs changed dir base (some ino)) :
    resolve changed fspath sizeMax = .ok ino := by
  obtain ⟨walkedLater, objectLater⟩ :=
    differs.walk_object numbered numberedLater
      (not_passes_of_free numbered free walked) walked object
  rw [parts.resolve_eq numberedLater whole walkedLater objectLater, differs.self]
  rfl

variable {seps : CString}

theorem components_below {front : CString} (under : Below fspath front seps base) :
    components isSep fspath = components isSep front ++ components isSep base := by
  obtain ⟨sep, others, sepsEq⟩ := exists_cons_of_ne_nil under.hasSeps
  have areSeps := under.areSeps
  rw [sepsEq] at areSeps
  rw [under.split, sepsEq, cons_append, components_append_sep _ _ (areSeps sep mem_cons_self),
    components_seps_append fun char member => areSeps char (mem_cons_of_mem sep member)]

theorem startsInSep_below {front : CString} (under : Below fspath front seps base) :
    startsInSep isSep front = startsInSep isSep fspath := by
  obtain ⟨char, rest, frontEq⟩ := exists_cons_of_ne_nil under.hasFront
  rw [under.split, frontEq]
  rfl

theorem parts_single (isRun : Run isSep fspath) (named : fspath ≠ []) : Parts fspath [] fspath := by
  have length := pathDirnameLen_single isRun sizeMax
  refine ⟨startsInSep_run isRun, endsInSep_run isRun,
    components_run named isRun, named, ?_, ?_, ?_, ?_⟩
  · rw [length]
  · rw [length]
    exact linkName_single isRun
  · rw [length]
    exact ⟨_, skipToBasename_seps seps_nil (startsInSep_run isRun) (Nat.zero_le _)⟩
  · intro fs
    rw [length, componentWalk_nil]
    exact if_pos take_zero

theorem parts_below {front : CString} (bounded : fspath.length < sizeMax)
    (under : Below fspath front seps base) (start : startsInSep isSep fspath = false)
    (named : base ≠ []) : Parts fspath (components isSep front) base := by
  have length := pathDirnameLen_below under (le_of_lt bounded)
  have taken : fspath.take front.length = front := by rw [under.split, take_left]
  have finish : endsInSep isSep fspath = false := by
    rw [under.split, ← append_assoc, endsInSep_append _ named]
    exact endsInSep_run under.isRun
  refine ⟨start, finish, ?_, named, ?_, ?_, ?_, ?_⟩
  · rw [components_below under, components_run named under.isRun]
  · rw [length]
    exact Int.natCast_nonneg _
  · rw [length]
    exact linkName_below under
  · rw [length, Int.toNat_natCast, under.split, drop_left]
    refine ⟨_, skipToBasename_seps under.areSeps (startsInSep_run under.isRun) ?_⟩
    rw [under.split, length_append, length_append] at bounded
    omega
  · intro fs
    rw [length, Int.toNat_natCast,
      resolve_plain (by rw [taken, startsInSep_below under]; exact start)
        (by rw [taken]; exact under.finish), taken, walkPath, under.finish]

theorem exists_parts (bounded : fspath.length < sizeMax) (nonempty : fspath ≠ [])
    (start : startsInSep isSep fspath = false) (finish : endsInSep isSep fspath = false) :
    ∃ front base, Parts fspath front base := by
  cases shape fspath with
  | single isRun => exact ⟨[], fspath, parts_single isRun nonempty⟩
  | atTop top => exact absurd top.startsInSep (Bool.eq_false_iff.mp start)
  | @below front seps base under =>
    refine ⟨_, base, parts_below bounded under start ?_⟩
    rintro rfl
    rw [under.split, append_nil, endsInSep_append _ under.hasSeps,
      endsInSep_seps under.hasSeps under.areSeps] at finish
    cases finish

theorem exists_parts_of_parent
    {dirino : Nat} (bounded : fspath.length < sizeMax) (inside : 0 ≤ pathDirnameLen fspath sizeMax)
    (parent : resolve fs fspath (pathDirnameLen fspath sizeMax).toNat = .ok dirino)
    (named : linkName fspath (pathDirnameLen fspath sizeMax) ≠ []) :
    ∃ front base, Parts fspath front base := by
  cases shape fspath with
  | single isRun =>
    rw [pathDirnameLen_single isRun, linkName_single isRun] at named
    exact ⟨[], fspath, parts_single isRun named⟩
  | atTop top =>
    rw [pathDirnameLen_atTop top (le_of_lt bounded)] at inside
    exact absurd inside (by decide)
  | @below front seps base under =>
    have length := pathDirnameLen_below under (le_of_lt bounded)
    rw [length, linkName_below under] at named
    refine ⟨_, base, parts_below bounded under ?_ named⟩
    by_contra leading
    rw [← startsInSep_below under, Bool.not_eq_false] at leading
    rw [length, Int.toNat_natCast, resolve_leading (by
      rw [under.split, take_left]
      exact leading)] at parent
    cases parent

theorem object_of_found {idata : Nat} {inode : Inode}
    (found : idataByInode fs ino = some (some (idata, inode))) (isDir : IsDir inode.mode)
    (hasData : inode.data = some dir) : directoryObject fs ino = some dir := by
  rw [directoryObject, found]
  dsimp only
  rw [if_pos isDir, hasData]

theorem found_of_object (object : directoryObject fs ino = some dir) :
    ∃ idata inode,
      idataByInode fs ino = some (some (idata, inode)) ∧
        IsDir inode.mode ∧ inode.data = some dir := by
  unfold directoryObject at object
  split at object
  · rename_i idata inode found
    split at object
    · rename_i isDir
      exact ⟨idata, inode, found, isDir, object⟩
    · cases object
  · cases object

theorem found_of_no_object (sound : Sound fs) (present : ino < fs.inodes.count)
    (whole : Whole fs ino) (object : directoryObject fs ino = none) :
    ∃ inode, idataByInode fs ino = some (some (ino, inode)) ∧ ¬ IsDir inode.mode := by
  obtain ⟨inode, reading, found⟩ := sound.numbered.found_of_lt present
  refine ⟨inode, found, fun isDir => whole inode reading isDir ?_⟩
  rw [directoryObject, found] at object
  dsimp only at object
  rwa [if_pos isDir] at object

theorem resolve_lt (sound : Sound fs) {pathlen : Nat} (resolves : resolve fs path pathlen = .ok ino)
    : ino < fs.inodes.count ∧ Whole fs ino := by
  have looked := sound.looked_iff.mpr resolves
  exact ⟨sound.numbered.lt_of_lookupInode looked, sound.whole_of_lookupInode looked⟩

end Cosec.Fs.NameGraph
