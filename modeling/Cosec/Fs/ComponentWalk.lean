import Cosec.Fs.DirectoryMaps
import Cosec.Lib.Components

/-!
# Path lookup and the walk along the components

The walk along the components of a path begins at the root; every component
is a name in the directory reached so far, and one with something behind it
has to be a directory.

For `ramfs_lookup_inode` a separator at the beginning is an empty first
component.  At a separator it looks one character ahead in the whole string,
not in the part it was given, and at the end of the string it is content with
any inode; otherwise it passes over all separators that follow and, when
nothing is left of its part, looks for an empty name.
-/

namespace Cosec.Fs.ComponentWalk

open Fs.DirectoryMaps Fs.InodeNumbers Fs.PathLookup Fs.Ramfs Lib.Components Lib.ObjectStore
open Libc.ErrorNumbers Libc.Strings List

/-! ## The walk -/

/-- The directory behind an inode number, if it is one. -/
def directoryOf (fs : Mount) (ino : Nat) : Option Directory := match idataByInode fs ino with
  | some (some (_, inode)) =>
    if IsDir inode.mode then inode.data.bind fs.directories.read
    else none
  | _ => none

/--
The walk along some components; `trailing` says that a separator follows the
last one.
-/
def componentWalk (fs : Mount) (trailing : Bool) : Nat → List CString → Except Errno Nat
  | ino, [] =>
    if trailing = true ∧ directoryOf fs ino = none then .error .enotdir
    else .ok ino
  | ino, component :: rest =>
    match directoryOf fs ino with
    | none => .error .enotdir
    | some table =>
      match nameMap table component with
      | none => .error .enoent
      | some child => componentWalk fs trailing child rest

/-- The walk along a path from the root. -/
def walkPath (fs : Mount) (path : CString) : Except Errno Nat :=
  componentWalk fs (endsInSep isSep path) fs.rootIno (components isSep path)

/--
Every directory is hashed, and every entry leads to an inode, which is a
directory only with a table.
-/
structure Tree (fs : Mount) : Prop where
  hashed : ∀ dir table, fs.directories.read dir = some table → Hashed table
  children :
    ∀ dir table bucket, fs.directories.read dir = some table →
      ∀ de ∈ table.ht bucket,
        ∃ idata inode,
          idataByInode fs de.ino = some (some (idata, inode)) ∧
            (IsDir inode.mode → ∃ below subdirectory,
              inode.data = some below ∧ fs.directories.read below = some subdirectory)
  root :
    ∃ idata inode dir table,
      idataByInode fs fs.rootIno = some (some (idata, inode)) ∧
        IsDir inode.mode ∧ inode.data = some dir ∧ fs.directories.read dir = some table

/--
No name is empty, and none is longer than the empty name or one of those given
and begins with it and has its hash.
-/
def Unambiguous (fs : Mount) (names : List CString) : Prop :=
  ∀ dir table, fs.directories.read dir = some table →
    nameMap table [] = none ∧
      ∀ wanted ∈ [] :: names, ¬ Shadowed (nameMap table) wanted

/-- A directory object and the number of its inode. -/
def IsDirectory (fs : Mount) (ino dir : Nat) (table : Directory) : Prop :=
  directoryOf fs ino = some table ∧ fs.directories.read dir = some table

variable {fs : Mount} {component : CString}

/-- A component of the path is read into the name. -/
theorem lookupLoop_run (isRun : Run isSep component)
    (rest : CString) (left dir : Nat) (basename : CString) :
    lookupLoop fs (component ++ rest) (component.length + left) dir basename false =
      lookupLoop fs rest left dir (basename ++ component) false := by
  induction component generalizing basename with
  | nil => rw [append_nil, nil_append, length_nil, zero_add]
  | cons char others ih =>
    obtain ⟨notSep, othersRun⟩ := forall_mem_cons.mp isRun
    have longer : (char :: others).length + left = (others.length + left) + 1 := by
      rw [length_cons]
      omega
    rw [cons_append, lookupLoop, longer]
    simp only [Bool.false_and, Bool.false_eq_true, if_false,
      Nat.add_eq_zero_iff, one_ne_zero, and_false, notSep,
      Bool.not_false, if_true, Nat.add_sub_cancel]
    rw [ih othersRun, append_assoc, singleton_append]

theorem lookupLoop_zero (path : CString) (dir : Nat) (basename : CString) :
    lookupLoop fs path 0 dir basename false = searchAt fs dir basename basename.length := by
  cases path with
  | nil => rfl
  | cons char rest => simp [lookupLoop]

variable {rest : CString} {pathlen : Nat}

/-- The path or its limit ends in the first component. -/
theorem lookupLoop_last (isRun : Run isSep component)
    (last : pathlen ≤ component.length ∨ rest = []) (dir : Nat) :
    lookupLoop fs (component ++ rest) pathlen dir [] false =
      searchAt fs dir (component.take pathlen) (component.take pathlen).length := by
  have takenRun : Run isSep (component.take pathlen) :=
    fun char member => isRun char (mem_of_mem_take member)
  by_cases inside : pathlen ≤ component.length
  · have length := length_take_of_le inside
    calc
      lookupLoop fs (component ++ rest) pathlen dir [] false =
          lookupLoop fs (component.take pathlen ++ (component.drop pathlen ++ rest))
            ((component.take pathlen).length + 0) dir [] false := by
        rw [length, ← append_assoc, take_append_drop, add_zero]
      _ = _ := by rw [lookupLoop_run takenRun, lookupLoop_zero, nil_append]
  · have isEnd : rest = [] := last.resolve_left inside
    have longer : component.length ≤ pathlen := by omega
    obtain ⟨left, rfl⟩ := Nat.exists_eq_add_of_le longer
    rw [isEnd, lookupLoop_run isRun, take_of_length_le longer]
    rfl

variable {seps : CString}

/-- Separators are passed over whatever is left of the limit. -/
theorem lookupLoop_seps (areSeps : Seps isSep seps) (rest : CString) (left dir : Nat)
    (basename : CString) :
    lookupLoop fs (seps ++ rest) left dir basename true =
      lookupLoop fs rest (left - seps.length) dir basename true := by
  induction seps generalizing left with
  | nil => rw [nil_append, length_nil, Nat.sub_zero]
  | cons sep others ih =>
    obtain ⟨isSeparator, othersSeps⟩ := forall_mem_cons.mp areSeps
    rw [cons_append, lookupLoop]
    simp only [isSeparator, Bool.and_true, if_true]
    rw [ih othersSeps, length_cons, Nat.sub_sub, add_comm 1]

theorem lookupLoop_skipped (proper : startsInSep isSep rest = false) (left dir : Nat)
    (basename : CString) :
    lookupLoop fs rest left dir basename true = lookupLoop fs rest left dir basename false := by
  cases rest with
  | nil => rfl
  | cons char others =>
    have notSep : isSep char = false := proper
    rw [lookupLoop, lookupLoop]
    simp [notSep]

/-! ## The outcome of a lookup -/

/-- What a lookup returns, from the walk along its components. -/
def lookupOutcome (fs : Mount) (ino : Nat) (path : CString) (pathlen : Nat) : Except Errno Nat :=
  match componentWalk fs false ino (components isSep (path.take pathlen)) with
  | .error error => .error error
  | .ok child =>
    if endsInSep isSep (path.take pathlen) = false ∨
        path.length = (body isSep (path.take pathlen)).length + 1 then
      .ok child
    else if directoryOf fs child = none then .error .enotdir
    else .error .enoent

theorem componentWalk_nil (fs : Mount) (ino : Nat) : componentWalk fs false ino [] = .ok ino := by
  simp [componentWalk]

variable {table : Directory}

theorem componentWalk_missing {ino : Nat}
    (isDirectory : directoryOf fs ino = some table) (missing : nameMap table component = none)
    (trailing : Bool) (rest : List CString) :
    componentWalk fs trailing ino (component :: rest) = .error .enoent := by
  rw [componentWalk, isDirectory]
  dsimp only
  rw [missing]

theorem componentWalk_found {ino child : Nat}
    (isDirectory : directoryOf fs ino = some table) (mapped : nameMap table component = some child)
    (trailing : Bool) (rest : List CString) :
    componentWalk fs trailing ino (component :: rest) = componentWalk fs trailing child rest := by
  rw [componentWalk, isDirectory]
  dsimp only
  rw [mapped]

/-- The path or its limit ends in the first component. -/
theorem components_last
    (nonempty : component ≠ [])
    (isRun : Run isSep component)
    (last : pathlen ≤ component.length ∨ rest = [])
    (positive : 0 < pathlen) :
    components isSep ((component ++ rest).take pathlen) =
        [component.take pathlen] ∧
      endsInSep isSep ((component ++ rest).take pathlen) = false := by
  have taken : (component ++ rest).take pathlen = component.take pathlen := by
    rcases last with inside | rfl
    · exact take_append_of_le_length inside
    · rw [append_nil]
  have takenRun : Run isSep (component.take pathlen) :=
    fun char member => isRun char (mem_of_mem_take member)
  have takenNonempty : component.take pathlen ≠ [] := fun empty =>
    (take_eq_nil_iff.mp empty).elim (ne_of_gt positive) nonempty
  rw [taken]
  exact ⟨components_run takenNonempty takenRun, endsInSep_run takenRun⟩

theorem lookupOutcome_last {ino : Nat}
    (isDirectory : directoryOf fs ino = some table) (nonempty : component ≠ [])
    (isRun : Run isSep component) (last : pathlen ≤ component.length ∨ rest = [])
    (positive : 0 < pathlen) :
    lookupOutcome fs ino (component ++ rest) pathlen =
      foundOr (nameMap table (component.take pathlen)) := by
  obtain ⟨parts, ends⟩ := components_last nonempty isRun last positive
  unfold lookupOutcome
  rw [parts, ends]
  cases found : nameMap table (component.take pathlen) with
  | none =>
    rw [componentWalk_missing isDirectory found]
    rfl
  | some child =>
    rw [componentWalk_found isDirectory found, componentWalk_nil]
    exact if_pos (Or.inl rfl)

variable {behind : CString} {left : Nat}

section BehindComponent

variable {component : CString} {sep : CChar} {ino : Nat} {table : Directory}

theorem take_component (behind : CString) (left : Nat) :
    (component ++ sep :: behind).take (component.length + (left + 1)) =
      component ++ sep :: behind.take left := by
  rw [take_length_add_append, take_succ_cons]

variable (nonempty : component ≠ []) (isRun : Run isSep component) (isSeparator : isSep sep = true)

include nonempty isRun isSeparator

theorem components_component (behind : CString) :
    components isSep (component ++ sep :: behind) = component :: components isSep behind := by
  rw [components_append_sep _ _ isSeparator, components_run nonempty isRun]
  rfl

variable (isDirectory : directoryOf fs ino = some table)

include isDirectory

variable {child : Nat}

section

variable (mapped : nameMap table component = some child)

include mapped

/-- Only separators follow, as far as the limit goes. -/
theorem lookupOutcome_trailing (areSeps : Seps isSep (behind.take left)) :
    lookupOutcome fs ino (component ++ sep :: behind) (component.length + (left + 1)) =
      if behind = [] then .ok child else if directoryOf fs child = none then .error .enotdir
      else .error .enoent := by
  have allSeps : Seps isSep (sep :: behind.take left) :=
    forall_mem_cons.mpr ⟨isSeparator, areSeps⟩
  have ends : endsInSep isSep (component ++ sep :: behind.take left) = true := by
    rw [endsInSep_append _ (cons_ne_nil _ _), endsInSep_seps (cons_ne_nil _ _) allSeps]
  have length : (component ++ sep :: behind).length = component.length + 1 ↔ behind = [] := by
    rw [length_append, length_cons, ← length_eq_zero_iff]
    omega
  unfold lookupOutcome
  rw [take_component, components_component nonempty isRun isSeparator,
    componentWalk_found isDirectory mapped, components_seps areSeps,
    componentWalk_nil, ends, body_append_seps _ allSeps, body_run isRun]
  simp only [Bool.true_eq_false, false_or, length]

theorem lookupOutcome_blocked
    (blocked : directoryOf fs child = none) (goesOn : behind ≠ []) (left : Nat) :
    lookupOutcome fs ino (component ++ sep :: behind) (component.length + (left + 1)) =
      .error .enotdir := by
  cases further : components isSep (behind.take left) with
  | nil =>
    rw [lookupOutcome_trailing nonempty isRun isSeparator isDirectory
      mapped (seps_of_components_eq_nil further), if_neg goesOn, if_pos blocked]
  | cons next others =>
    unfold lookupOutcome
    rw [take_component, components_component nonempty isRun isSeparator,
      componentWalk_found isDirectory mapped, further, componentWalk, blocked]

theorem lookupOutcome_deeper
    (areSeps : Seps isSep seps) (goesOn : rest ≠ []) (proper : startsInSep isSep rest = false)
    (positive : 0 < left) :
    lookupOutcome fs ino (component ++ sep :: (seps ++ rest))
        (component.length + (seps.length + left + 1)) = lookupOutcome fs child rest left := by
  have takenNonempty : rest.take left ≠ [] := fun empty =>
    (take_eq_nil_iff.mp empty).elim (ne_of_gt positive) goesOn
  have takenProper : startsInSep isSep (rest.take left) = false := by
    cases rest with
    | nil => exact absurd rfl goesOn
    | cons char others =>
      obtain ⟨more, rfl⟩ := Nat.exists_eq_add_of_lt positive
      exact proper
  have regrouped :
      component ++ sep :: (seps ++ rest.take left) =
        (component ++ sep :: seps) ++ rest.take left := by
    rw [append_assoc, cons_append]
  have ends :
      endsInSep isSep (component ++ sep :: (seps ++ rest.take left)) =
        endsInSep isSep (rest.take left) := by
    rw [regrouped, endsInSep_append _ takenNonempty]
  have bodies :
      body isSep (component ++ sep :: (seps ++ rest.take left)) =
        (component ++ sep :: seps) ++ body isSep (rest.take left) := by
    rw [regrouped, body_append _ (body_ne_nil takenNonempty takenProper)]
  have length :
      (component ++ sep :: (seps ++ rest)).length =
          ((component ++ sep :: seps) ++ body isSep (rest.take left)).length + 1 ↔
        rest.length = (body isSep (rest.take left)).length + 1 := by
    simp only [length_append, length_cons]
    omega
  unfold lookupOutcome
  rw [take_component, take_length_add_append, components_component nonempty isRun isSeparator,
    componentWalk_found isDirectory mapped, components_seps_append areSeps, ends, bodies]
  simp only [length]

end

end BehindComponent

/-! ## The loop of a lookup -/

section Loop

variable (tree : Tree fs) {ino dir : Nat} {table : Directory}
  (isDirectory : IsDirectory fs ino dir table)

include tree isDirectory

theorem enterDirectory_child
    {child : Nat} {name : CString} (mapped : nameMap table name = some child) :
    (∃ below subdirectory,
      enterDirectory fs child = some (.ok below) ∧ IsDirectory fs child below subdirectory) ∨
      (enterDirectory fs child = some (.error .enotdir) ∧ directoryOf fs child = none) := by
  obtain ⟨de, member, _, rfl⟩ := exists_entry_of_nameMap mapped
  obtain ⟨idata, inode, found, hasTable⟩ := tree.children dir table _ isDirectory.2 de member
  unfold enterDirectory IsDirectory directoryOf
  rw [found]
  dsimp only
  by_cases isDir : IsDir inode.mode
  · obtain ⟨below, subdirectory, data, reading⟩ := hasTable isDir
    rw [if_pos isDir, if_pos isDir, data, Option.bind_some]
    exact Or.inl ⟨below, subdirectory, rfl, reading, reading⟩
  · rw [if_neg isDir, if_neg isDir]
    exact Or.inr ⟨rfl, rfl⟩

variable {names : List CString} (unambiguous : Unambiguous fs names)

include unambiguous

theorem searchAt_eq {name : CString} (named : name ∈ [] :: names) :
    searchAt fs dir name name.length = some (foundOr (nameMap table name)) := by
  have reading := isDirectory.2
  have exactly : SearchExact (nameMap table) name name.length := by
    unfold SearchExact
    rw [take_length]
    exact Or.inr ((unambiguous dir table reading).2 name named)
  have searched := (tree.hashed dir table reading).search exactly
  rw [take_length] at searched
  unfold searchAt
  rw [reading, Option.map_some, searched]

/-- The empty name is never found. -/
theorem searchAt_nil : searchAt fs dir [] 0 = some (.error .enoent) := by
  have searched := searchAt_eq tree isDirectory unambiguous mem_cons_self
  rw [(unambiguous dir table isDirectory.2).1] at searched
  exact searched

variable {component : CString} (hasRun : component ≠ []) (isRun : Run isSep component)

include hasRun isRun

theorem lookupLoop_outcome_last
    (last : pathlen ≤ component.length ∨ rest = [])
    (positive : 0 < pathlen)
    (named : components isSep ((component ++ rest).take pathlen) ⊆ names) :
    lookupLoop fs (component ++ rest) pathlen dir [] false =
      some (lookupOutcome fs ino (component ++ rest) pathlen) := by
  rw [(components_last hasRun isRun last positive).1] at named
  have searched := mem_cons_of_mem [] (named mem_cons_self)
  rw [lookupLoop_last isRun last,
    searchAt_eq tree isDirectory unambiguous searched,
    lookupOutcome_last isDirectory.1 hasRun isRun last positive]

theorem lookupLoop_outcome_component
    {sep : CChar}
    (isSeparator : isSep sep = true)
    (named : component ∈ names)
    (goesOn :
      ∀ child below subdirectory, nameMap table component = some child →
        IsDirectory fs child below subdirectory → behind ≠ [] →
        lookupLoop fs behind left below [] true =
          some (lookupOutcome fs ino (component ++ sep :: behind)
            (component.length + (left + 1)))) :
    lookupLoop fs (component ++ sep :: behind) (component.length + (left + 1)) dir [] false =
      some (lookupOutcome fs ino (component ++ sep :: behind) (component.length + (left + 1))) := by
  have searched :=
    searchAt_eq tree isDirectory unambiguous (mem_cons_of_mem [] named)
  rw [lookupLoop_run isRun, nil_append, lookupLoop]
  cases mapped : nameMap table component with
  | none =>
    rw [mapped] at searched
    rw [lookupOutcome, take_component, components_component hasRun isRun isSeparator,
      componentWalk_missing isDirectory.1 mapped]
    simp [isSeparator, searched, foundOr]
  | some child =>
    rw [mapped] at searched
    by_cases isEnd : behind = []
    · subst isEnd
      have nothing : Seps isSep (([] : CString).take left) := by
        rw [take_nil]
        exact seps_nil
      rw [lookupOutcome_trailing hasRun isRun isSeparator isDirectory.1 mapped nothing, if_pos rfl]
      simp [isSeparator, searched, foundOr]
    · rcases enterDirectory_child tree isDirectory mapped with
        ⟨below, subdirectory, entered, isBelow⟩ | ⟨refused, blocked⟩
      · rw [← goesOn child below subdirectory mapped isBelow isEnd]
        simp [isSeparator, searched, foundOr, isEnd, entered]
      · rw [lookupOutcome_blocked hasRun isRun isSeparator isDirectory.1 mapped blocked isEnd]
        simp [isSeparator, searched, foundOr, isEnd, refused]

theorem lookupLoop_outcome_trailing
    {sep : CChar}
    (areSeps : Seps isSep (sep :: seps))
    (proper : startsInSep isSep rest = false)
    (ends : left ≤ seps.length ∨ rest = [])
    (named : component ∈ names) :
    lookupLoop fs (component ++ sep :: (seps ++ rest))
        (component.length + (left + 1)) dir [] false =
      some (lookupOutcome fs ino (component ++ sep :: (seps ++ rest))
        (component.length + (left + 1))) := by
  obtain ⟨isSeparator, othersSeps⟩ := forall_mem_cons.mp areSeps
  have takenSeps : Seps isSep ((seps ++ rest).take left) := by
    have taken : (seps ++ rest).take left = seps.take left := by
      rcases ends with inside | rfl
      · exact take_append_of_le_length inside
      · rw [append_nil]
    rw [taken]
    exact fun char member => othersSeps char (mem_of_mem_take member)
  refine lookupLoop_outcome_component tree isDirectory unambiguous hasRun isRun
    isSeparator named ?_
  intro child below subdirectory mapped isBelow goesOn
  have isDir : directoryOf fs child ≠ none := by
    rw [isBelow.1]
    exact Option.some_ne_none _
  rw [lookupOutcome_trailing hasRun isRun isSeparator isDirectory.1 mapped
      takenSeps, if_neg goesOn, if_neg isDir, lookupLoop_seps othersSeps, lookupLoop_skipped proper]
  have empty := searchAt_nil tree isBelow unambiguous
  rcases ends with inside | rfl
  · rw [Nat.sub_eq_zero_of_le inside, lookupLoop_zero]
    exact empty
  · exact empty

end Loop

theorem lookupLoop_outcome
    (tree : Tree fs)
    {names : List CString}
    (unambiguous : Unambiguous fs names)
    {path : CString}
    (nonempty : path ≠ [])
    (proper : startsInSep isSep path = false) :
    ∀ (ino dir : Nat) (table : Directory) (pathlen : Nat),
      IsDirectory fs ino dir table → 0 < pathlen →
      components isSep (path.take pathlen) ⊆ names →
      lookupLoop fs path pathlen dir [] false = some (lookupOutcome fs ino path pathlen) := by
  refine induction_on_components ?run ?trailing ?more path nonempty proper
  case run =>
    intro component hasRun isRun ino dir table pathlen isDirectory positive
      named
    rw [← append_nil component] at named ⊢
    exact lookupLoop_outcome_last tree isDirectory unambiguous hasRun isRun
      (Or.inr rfl) positive named
  case trailing =>
    intro component sep seps hasRun isRun areSeps ino dir table pathlen
      isDirectory positive named
    by_cases inside : pathlen ≤ component.length
    · exact lookupLoop_outcome_last tree isDirectory unambiguous hasRun isRun
        (Or.inl inside) positive named
    · obtain ⟨left, rfl⟩ := Nat.exists_eq_add_of_lt (Nat.lt_of_not_le inside)
      obtain ⟨isSeparator, -⟩ := forall_mem_cons.mp areSeps
      rw [add_assoc, take_component,
        components_component hasRun isRun isSeparator] at named
      rw [← append_nil seps]
      exact lookupLoop_outcome_trailing tree isDirectory unambiguous hasRun
        isRun areSeps rfl (Or.inr rfl) (named mem_cons_self)
  case more =>
    intro component sep seps rest hasRun isRun areSeps goesOn restProper
      ih ino dir table pathlen isDirectory positive named
    by_cases inside : pathlen ≤ component.length
    · exact lookupLoop_outcome_last tree isDirectory unambiguous hasRun isRun
        (Or.inl inside) positive named
    · obtain ⟨left, rfl⟩ := Nat.exists_eq_add_of_lt (Nat.lt_of_not_le inside)
      obtain ⟨isSeparator, othersSeps⟩ := forall_mem_cons.mp areSeps
      rw [add_assoc, take_component,
        components_component hasRun isRun isSeparator] at named
      by_cases short : left ≤ seps.length
      · exact lookupLoop_outcome_trailing tree isDirectory unambiguous hasRun
          isRun areSeps restProper (Or.inl short) (named mem_cons_self)
      · obtain ⟨further, rfl⟩ :=
          Nat.exists_eq_add_of_lt (Nat.lt_of_not_le short)
        refine lookupLoop_outcome_component tree isDirectory unambiguous hasRun
          isRun isSeparator (named mem_cons_self) ?_
        intro child below subdirectory mapped isBelow _
        have deeper :=
          lookupOutcome_deeper hasRun isRun isSeparator isDirectory.1
            mapped othersSeps goesOn restProper (Nat.succ_pos further)
        have others : components isSep (rest.take (further + 1)) ⊆ names := by
          rw [add_assoc, take_length_add_append,
            components_seps_append othersSeps] at named
          exact fun part member => named (mem_cons_of_mem _ member)
        rw [lookupLoop_seps othersSeps, lookupLoop_skipped restProper,
          add_assoc, Nat.add_sub_cancel_left,
          ih _ _ _ _ isBelow (Nat.succ_pos further) others]
        exact congrArg some deeper.symm

/-! ## Lookup -/

/-- What `ramfs_lookup_inode` returns on a directory tree. -/
def resolve (fs : Mount) (path : CString) (pathlen : Nat) : Except Errno Nat :=
  if path.take pathlen = [] then .ok fs.rootIno
  else if startsInSep isSep path = true then .error .enoent
  else lookupOutcome fs fs.rootIno path pathlen

theorem Tree.rootDirectory (tree : Tree fs) :
    ∃ dir table, Ramfs.rootDirectory fs = some (.ok dir) ∧ IsDirectory fs fs.rootIno dir table := by
  obtain ⟨idata, inode, dir, table, found, isDir, data, reading⟩ := tree.root
  refine ⟨dir, table, ?_, ?_, reading⟩
  · unfold Ramfs.rootDirectory
    rw [found]
    dsimp only
    rw [if_pos isDir, data]
    rfl
  · unfold directoryOf
    rw [found]
    dsimp only
    rw [if_pos isDir, data, Option.bind_some, reading]

theorem lookupInode_eq
    (tree : Tree fs)
    (path : CString)
    (pathlen : Nat)
    (unambiguous :
      Unambiguous fs (components isSep (path.take pathlen))) :
    lookupInode path pathlen fs = some (resolve fs path pathlen) := by
  obtain ⟨dir, table, root, isDirectory⟩ := tree.rootDirectory
  unfold lookupInode resolve
  simp only [List.isEmpty_iff]
  by_cases empty : path = [] ∨ pathlen = 0
  · have nothing : path.take pathlen = [] := take_eq_nil_iff.mpr empty.symm
    rw [if_pos empty, if_pos nothing]
  · have something : path.take pathlen ≠ [] := fun nothing =>
      empty (take_eq_nil_iff.mp nothing).symm
    obtain ⟨nonempty, limited⟩ := not_or.mp empty
    rw [if_neg empty, if_neg something, root]
    dsimp only
    cases starts : startsInSep isSep path with
    | false =>
      exact lookupLoop_outcome tree unambiguous nonempty starts _ _ _ _
        isDirectory (Nat.pos_of_ne_zero limited) (Subset.refl _)
    | true =>
      cases path with
      | nil => exact absurd rfl nonempty
      | cons sep rest =>
        have isSeparator : isSep sep = true := starts
        have missing := searchAt_nil tree isDirectory unambiguous
        rw [lookupLoop]
        simp [limited, isSeparator, missing]

/-- The walk to a last component that has to be a directory. -/
theorem componentWalk_trailing (fs : Mount) (ino : Nat) (parts : List CString) :
    componentWalk fs true ino parts = match componentWalk fs false ino parts with
      | .error error => .error error
      | .ok child =>
        if directoryOf fs child = none then .error .enotdir
        else .ok child := by
  induction parts generalizing ino with
  | nil => simp [componentWalk]
  | cons component rest ih =>
    rw [componentWalk, componentWalk]
    cases directoryOf fs ino with
    | none => rfl
    | some table =>
      dsimp only
      cases nameMap table component with
      | none => rfl
      | some child => exact ih child

/-- The lookup is the walk along the components of the bytes it is given. -/
def FollowsComponents (fs : Mount) (path : CString) (pathlen : Nat) : Prop :=
  lookupInode path pathlen fs = some (walkPath fs (path.take pathlen))

/--
When separators at the ends of a path do no harm: there are none, the walk
along a path that begins with one fails like the lookup, or what stands in
front of one at the end is missing, or is a directory exactly if the string
ends right behind it.
-/
inductive EndsHarmless (fs : Mount) (path : CString) (pathlen : Nat) : Prop
  | plain
      (start : startsInSep isSep (path.take pathlen) = false)
      (finish : endsInSep isSep (path.take pathlen) = false)
  | leading
      (start : startsInSep isSep (path.take pathlen) = true)
      (missing : walkPath fs (path.take pathlen) = .error .enoent)
  | trailing
      (start : startsInSep isSep (path.take pathlen) = false)
      (finish : endsInSep isSep (path.take pathlen) = true)
      (suits :
        ∀ child,
          componentWalk fs false fs.rootIno (components isSep (path.take pathlen)) = .ok child →
          (path.length = (body isSep (path.take pathlen)).length + 1 ↔ directoryOf fs child ≠ none))

theorem startsInSep_take {path : CString} (something : path.take pathlen ≠ []) :
    startsInSep isSep (path.take pathlen) = startsInSep isSep path := by
  cases path with
  | nil => rw [take_nil]
  | cons char rest =>
    cases pathlen with
    | zero => exact absurd rfl something
    | succ pathlen => rfl

section Ends

variable {path : CString} {pathlen : Nat}

theorem resolve_plain (start : startsInSep isSep (path.take pathlen) = false)
    (finish : endsInSep isSep (path.take pathlen) = false) :
    resolve fs path pathlen = walkPath fs (path.take pathlen) := by
  unfold resolve walkPath
  rw [finish]
  by_cases nothing : path.take pathlen = []
  · rw [if_pos nothing, nothing, components_nil, componentWalk_nil]
  · rw [startsInSep_take nothing] at start
    rw [if_neg nothing, start, if_neg Bool.false_ne_true]
    unfold lookupOutcome
    rw [finish]
    cases componentWalk fs false fs.rootIno (components isSep (path.take pathlen)) with
    | error error => rfl
    | ok child => exact if_pos (Or.inl rfl)

theorem resolve_leading (start : startsInSep isSep (path.take pathlen) = true) :
    resolve fs path pathlen = .error .enoent := by
  have something : path.take pathlen ≠ [] := by
    intro nothing
    rw [nothing] at start
    cases start
  rw [startsInSep_take something] at start
  unfold resolve
  rw [if_neg something, start, if_pos rfl]

theorem resolve_trailing_iff (start : startsInSep isSep (path.take pathlen) = false)
    (finish : endsInSep isSep (path.take pathlen) = true) :
    resolve fs path pathlen = walkPath fs (path.take pathlen) ↔
      ∀ child,
        componentWalk fs false fs.rootIno (components isSep (path.take pathlen)) = .ok child →
        (path.length = (body isSep (path.take pathlen)).length + 1 ↔
          directoryOf fs child ≠ none) := by
  have something : path.take pathlen ≠ [] := by
    intro nothing
    rw [nothing] at finish
    cases finish
  rw [startsInSep_take something] at start
  unfold resolve walkPath lookupOutcome
  rw [if_neg something, start, if_neg Bool.false_ne_true, finish, componentWalk_trailing]
  cases componentWalk fs false fs.rootIno (components isSep (path.take pathlen)) with
  | error error => simp
  | ok child =>
    by_cases isEnd : path.length = (body isSep (path.take pathlen)).length + 1 <;>
      by_cases isDir : directoryOf fs child = none <;> simp [isEnd, isDir]

end Ends

/-- A root directory that holds the regular file "a". -/
def fileTree : Mount :=
  { withInode
      (withInode (dataMount zeroMemory) (setData 0 (newInode 1 sIfdir)) 3)
      (newInode 2 sIfreg) 4 with
    rootIno := 1
    directories := Store.empty.add (withEntry emptyDirectory (ofBytes [97]) 2) }

theorem fileTree_flat : FlatMount fileTree := ⟨Nat.zero_lt_succ 2, (by decide : 3 ≤ 64), rfl⟩

/-- The only directory of the tree. -/
theorem fileTree_reading {dir : Nat} (reading : fileTree.directories.read dir = some table) :
    table = withEntry emptyDirectory (ofBytes [97]) 2 := by
  have onlyOne : dir = 0 := by
    have inside := Store.lt_count_of_read reading
    exact Nat.lt_one_iff.mp inside
  subst onlyOne
  exact (Option.some.inj reading).symm

theorem fileTree_names (name : CString) :
    nameMap (withEntry emptyDirectory (ofBytes [97]) 2) name =
      if name = ofBytes [97] then some 2 else none := by
  rw [nameMap_withEntry rfl]
  by_cases same : name = ofBytes [97]
  · subst same
    rw [Function.update_self, if_pos rfl]
  · rw [Function.update_of_ne same, if_neg same]
    rfl

theorem fileTree_tree : Tree fileTree where
  hashed := by
    intro dir table reading
    rw [fileTree_reading reading]
    exact emptyDirectory_hashed.withEntry rfl 2
  children := by
    intro dir table bucket reading de member
    rw [fileTree_reading reading] at member
    have mapped := (emptyDirectory_hashed.withEntry rfl 2).nameMap_of_mem member
    rw [fileTree_names] at mapped
    split at mapped
    · rw [← Option.some.inj mapped]
      refine ⟨2, newInode 2 sIfreg, ?_, ?_⟩
      · rw [idataByInode_flat fileTree_flat]
        rfl
      · intro isDir
        exact absurd isDir (by decide)
    · cases mapped
  root :=
    ⟨1, setData 0 (newInode 1 sIfdir), 0, _,
      by rw [idataByInode_flat fileTree_flat]; rfl, by decide, rfl, rfl⟩

theorem fileTree_unambiguous (names : List CString) :
    Unambiguous fileTree names := by
  intro dir table reading
  rw [fileTree_reading reading]
  constructor
  · rw [fileTree_names]
    rfl
  · rintro wanted - ⟨other, named, different, sameHash, begins⟩
    rw [fileTree_names] at named
    split at named
    · rename_i isFile
      subst isFile
      have empty : wanted = [] := by
        rcases prefix_cons_iff.mp begins with empty | ⟨rest, rfl, inner⟩
        · exact empty
        · rw [prefix_nil.mp inner] at different
          exact absurd rfl different
      subst empty
      revert sameHash
      decide +kernel
    · exact named rfl

end Cosec.Fs.ComponentWalk
