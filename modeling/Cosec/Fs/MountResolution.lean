import Cosec.Fs.Vfs
import Cosec.Lib.Components

/-!
# The tree of mounts

`vfs_mountnode_by_path` starts at the root mount and follows children whose
mount path the rest of the path begins with.  The other modules work inside
the root mount alone.

A mount is named by the position of each mount on the way to it among its
brothers.  `Resolved` says which mount a path belongs to, in terms of path
components.  The code compares characters, takes the first child that
matches, and does not enter a mount the path ends at.

`Clear` describes the trees and paths for which that makes no difference.  It
is a condition on a mount and the rest of a path, one child after the other,
and does not mention the mount that is found.

Mounting and unmounting, which build the tree, are not covered: the trees are
arbitrary.
-/

namespace Cosec.Fs.MountResolution

open Fs.Vfs Lib.Components Libc.ErrorNumbers Libc.Strings List

/-! ## The source -/

/-- The fields of `struct superblock` that link the tree. -/
inductive Mountnode where
  | mountnode (mntpath : CString) (children : List Mountnode)

/-- `sb_mntpath`, relative to the parent. -/
def Mountnode.mntpath : Mountnode → CString
  | .mountnode mntpath _ => mntpath

/-- `sb_children` and the brothers behind it. -/
def Mountnode.children : Mountnode → List Mountnode
  | .mountnode _ children => children

/-- The child `vfs_match_mountpath` finds and the path behind its mount path. -/
def vfsMatchMountpath : List Mountnode → CString → Option (Nat × CString)
  | [], _ => none
  | child :: brothers, path =>
    if strncmp path child.mntpath child.mntpath.length = 0 then
      let nextpath := path.drop child.mntpath.length
      if nextpath = [] then none else some (0, skipSeps nextpath)
    else
      match vfsMatchMountpath brothers path with
      | none => none
      | some (index, nextpath) => some (index + 1, nextpath)

variable {index : Nat} {mount child : Mountnode}

theorem sizeOf_child (found : mount.children[index]? = some child) :
    sizeOf child < sizeOf mount := by
  obtain ⟨mntpath, children⟩ := mount
  have smaller := sizeOf_lt_of_mem (mem_of_getElem? found)
  simp only [Mountnode.children] at smaller
  simp only [Mountnode.mountnode.sizeOf_spec]
  omega

/-- The loop of `vfs_mountnode_by_path`. -/
def descend (mount : Mountnode) (path : CString) : List Nat × CString :=
  match vfsMatchMountpath mount.children path with
  | none => ([], path)
  | some (index, nextpath) =>
    match _ : mount.children[index]? with
    | none => ([], path)
    | some child =>
      let deeper := descend child nextpath
      (index :: deeper.1, deeper.2)
termination_by sizeOf mount
decreasing_by exact sizeOf_child (by assumption)

def vfsMountnodeByPath (root : Mountnode) : CString → Except Errno (List Nat × CString)
  | [] => .error .einval
  | char :: path => if isSep char then .ok (descend root path) else .error .einval

/-! ## What a path belongs to -/

/-- The mounts of a tree with the components of their full mount paths. -/
inductive MountAt : Mountnode → List Nat → List CString → Prop
  | root (mount : Mountnode) : MountAt mount [] []
  | child {mount child : Mountnode} {index : Nat} {place : List Nat}
      {full : List CString}
      (found : mount.children[index]? = some child)
      (deeper : MountAt child place full) :
      MountAt mount (index :: place) (components isSep child.mntpath ++ full)

variable {place : List Nat} {full : List CString}

/-- No mount whose path the given one begins with has a longer path. -/
def Deepest (root : Mountnode) (path : CString) (full : List CString) : Prop :=
  ∀ place other,
    MountAt root place other → other <+: components isSep path → other.length ≤ full.length

/--
The mount at a place is the deepest one whose full mount path is a front of
the components of the path, and `relpath` is the rest of the path.
-/
structure Resolved
    (root : Mountnode) (path : CString) (place : List Nat) (relpath : CString) : Prop where
  mount :
    ∃ full,
      MountAt root place full ∧ full <+: components isSep path ∧ Deepest root path full ∧
        relpath = afterComponents isSep full.length path

/-- A mount path: nonempty, without separators at its ends. -/
structure Relative (mntpath : CString) : Prop where
  nonempty : mntpath ≠ []
  start : startsInSep isSep mntpath = false
  finish : endsInSep isSep mntpath = false

/-- The mount at a place of the tree. -/
inductive Node : Mountnode → List Nat → Mountnode → Prop
  | root (mount : Mountnode) : Node mount [] mount
  | child {mount child target : Mountnode} {index : Nat}
      {place : List Nat}
      (found : mount.children[index]? = some child)
      (deeper : Node child place target) :
      Node mount (index :: place) target

/-- Trees whose mount paths are relative and differ between brothers. -/
structure MountTree where
  root : Mountnode
  relative : ∀ place mount, Node root place mount → ∀ child ∈ mount.children, Relative child.mntpath
  distinct : ∀ place mount, Node root place mount → (mount.children.map Mountnode.mntpath).Nodup

/-- A tree seen from one of its children. -/
def MountTree.below (tree : MountTree) {child : Mountnode} {index : Nat}
    (found : tree.root.children[index]? = some child) : MountTree where
  root := child
  relative place mount reached := tree.relative (index :: place) mount (.child found reached)
  distinct place mount reached := tree.distinct (index :: place) mount (.child found reached)

theorem MountTree.relative_child (tree : MountTree)
    (found : tree.root.children[index]? = some child) : Relative child.mntpath :=
  tree.relative [] tree.root (.root _) child (mem_of_getElem? found)

/-- The child at a position is the first whose path the given one begins with. -/
structure FirstMatch
    (children : List Mountnode) (path : CString) (index : Nat) (child : Mountnode) : Prop where
  found : children[index]? = some child
  isMatch : child.mntpath <+: path
  isFirst :
    ∀ earlier < index, ∀ brother, children[earlier]? = some brother → ¬ brother.mntpath <+: path

variable {children : List Mountnode} {path : CString}

theorem FirstMatch.unique {left right : Nat} {other : Mountnode}
    (first : FirstMatch children path left child) (second : FirstMatch children path right other) :
    left = right ∧ child = other := by
  have same : left = right := by
    rcases lt_trichotomy left right with below | equal | above
    · exact absurd first.isMatch (second.isFirst left below child first.found)
    · exact equal
    · exact absurd second.isMatch (first.isFirst right above other second.found)
  subst same
  have found := first.found
  rw [second.found, Option.some.injEq] at found
  exact ⟨rfl, found.symm⟩

/--
A mount at or below one of two brothers is no deeper than some mount at or
below the other, among those whose paths are fronts of the components.
-/
def Covers
    (child brother : Mountnode)
    (parts : List CString) : Prop :=
  ∀ place full,
    MountAt brother place full →
      components isSep brother.mntpath ++ full <+: parts →
        ∃ place highest,
          MountAt child place highest ∧
            components isSep child.mntpath ++ highest <+: parts ∧
            (components isSep brother.mntpath ++ full).length ≤
              (components isSep child.mntpath ++ highest).length

/--
No child of the mount belongs to the rest of the path, neither by characters
nor by components; or the first child that does by characters is followed by
a separator, covers its brothers, and is clear itself for what comes behind.
-/
inductive Clear : Mountnode → CString → Prop
  | here
      {mount : Mountnode}
      {rest : CString}
      (noneMatches : ∀ child ∈ mount.children, ¬ child.mntpath <+: rest)
      (noneApplies :
        ∀ child ∈ mount.children,
          ¬ components isSep child.mntpath <+: components isSep rest) :
      Clear mount rest
  | child
      {mount child : Mountnode}
      {index : Nat}
      {behind : CString}
      (first :
        FirstMatch mount.children (child.mntpath ++ behind) index child)
      (boundary : startsInSep isSep behind = true)
      (covers :
        ∀ brother ∈ mount.children,
          Covers child brother (components isSep (child.mntpath ++ behind)))
      (deeper : Clear child (skipSeps behind)) :
      Clear mount (child.mntpath ++ behind)

theorem strncmp_mntpath_iff {mntpath : CString} :
    strncmp path mntpath mntpath.length = 0 ↔ mntpath <+: path := by
  rw [strncmp_eq_zero_iff, take_length, prefix_iff_eq_take, eq_comm]

/-- What `vfs_match_mountpath` finds. -/
inductive Matched (children : List Mountnode) (path : CString) : Option (Nat × CString) → Prop
  | absent (noneMatches : ∀ child ∈ children, ¬ child.mntpath <+: path) : Matched children path none
  | atEnd {child : Mountnode} {index : Nat}
      (first : FirstMatch children path index child)
      (whole : path = child.mntpath) :
      Matched children path none
  | within {child : Mountnode} {index : Nat} {behind : CString}
      (first : FirstMatch children path index child)
      (split : path = child.mntpath ++ behind)
      (hasMore : behind ≠ []) :
      Matched children path (some (index, skipSeps behind))

theorem FirstMatch.cons {first : Mountnode} (isMatch : FirstMatch children path index child)
    (differs : ¬ first.mntpath <+: path) :
    FirstMatch (first :: children) path (index + 1) child where
  found := isMatch.found
  isMatch := isMatch.isMatch
  isFirst := by
    intro earlier below brother isBrother
    cases earlier with
    | zero =>
      cases isBrother
      exact differs
    | succ earlier => exact isMatch.isFirst earlier (Nat.lt_of_succ_lt_succ below) brother isBrother

theorem vfsMatchMountpath_matched (children : List Mountnode) (path : CString) :
    Matched children path (vfsMatchMountpath children path) := by
  induction children with
  | nil =>
    apply Matched.absent
    intro child member
    cases member
  | cons first brothers ih =>
    by_cases same : first.mntpath <+: path
    · obtain ⟨behind, rfl⟩ := same
      have isMatch : FirstMatch (first :: brothers) (first.mntpath ++ behind) 0 first :=
        { found := rfl
          isMatch := prefix_append _ _
          isFirst := fun earlier below => absurd below (Nat.not_lt_zero _) }
      rw [vfsMatchMountpath, if_pos (strncmp_mntpath_iff.mpr (prefix_append _ _)), drop_left]
      by_cases atEnd : behind = []
      · simp only [atEnd, if_true] at isMatch ⊢
        exact .atEnd isMatch (append_nil _)
      · simp only [atEnd, if_false]
        exact .within isMatch rfl atEnd
    · rw [vfsMatchMountpath, if_neg (fun equal => same (strncmp_mntpath_iff.mp equal))]
      cases searched : vfsMatchMountpath brothers path with
      | none =>
        rw [searched] at ih
        cases ih with
        | absent noneMatches =>
          apply Matched.absent
          intro child member
          rcases mem_cons.mp member with rfl | later
          · exact same
          · exact noneMatches child later
        | atEnd isMatch whole => exact .atEnd (isMatch.cons same) whole
      | some result =>
        rw [searched] at ih
        cases ih with
        | within isMatch split hasMore => exact .within (isMatch.cons same) split hasMore

/-! ## The walk down the tree -/

theorem descend_of_none (searched : vfsMatchMountpath mount.children path = none) :
    descend mount path = ([], path) := by
  rw [descend, searched]

theorem descend_of_some {nextpath : CString}
    (searched : vfsMatchMountpath mount.children path = some (index, nextpath))
    (found : mount.children[index]? = some child) :
    descend mount path = (index :: (descend child nextpath).1, (descend child nextpath).2) := by
  rw [descend, searched]
  dsimp only
  split
  next missing =>
    rw [missing] at found
    cases found
  next other isOther =>
    rw [isOther, Option.some.injEq] at found
    rw [found]

/-- A search without a child whose path the given one begins with. -/
theorem vfsMatchMountpath_absent (noneMatches : ∀ child ∈ children, ¬ child.mntpath <+: path) :
    vfsMatchMountpath children path = none := by
  cases searched : vfsMatchMountpath children path with
  | none => rfl
  | some result =>
    have matched := vfsMatchMountpath_matched children path
    rw [searched] at matched
    cases matched with
    | within first =>
      exact absurd first.isMatch (noneMatches _ (mem_of_getElem? first.found))

/-- A search whose first match ends at a separator. -/
theorem vfsMatchMountpath_within {behind : CString}
    (first : FirstMatch children (child.mntpath ++ behind) index child) (hasMore : behind ≠ []) :
    vfsMatchMountpath children (child.mntpath ++ behind) = some (index, skipSeps behind) := by
  have matched := vfsMatchMountpath_matched children (child.mntpath ++ behind)
  cases searched : vfsMatchMountpath children (child.mntpath ++ behind) with
  | none =>
    rw [searched] at matched
    cases matched with
    | absent noneMatches =>
      exact absurd first.isMatch (noneMatches _ (mem_of_getElem? first.found))
    | atEnd second whole =>
      obtain ⟨rfl, rfl⟩ := first.unique second
      exact absurd (append_right_eq_self.mp whole) hasMore
  | some result =>
    rw [searched] at matched
    cases matched with
    | within second split =>
      obtain ⟨rfl, rfl⟩ := first.unique second
      rw [append_cancel_left split]

theorem components_at_boundary
    (front : CString) {behind : CString} (boundary : startsInSep isSep behind = true) :
    components isSep (front ++ behind) =
      components isSep front ++ components isSep (skipSeps behind) := by
  unfold skipSeps
  rw [components_dropWhile]
  cases behind with
  | nil => cases boundary
  | cons sep rest =>
    have isSeparator : isSep sep = true := boundary
    have single := components_append_sep [] rest isSeparator
    rw [components_nil, nil_append, nil_append] at single
    rw [components_append_sep _ _ isSeparator, single]

variable {rest : CString}

/-- On clear trees and paths the walk ends at the deepest mount. -/
theorem Clear.descends
    (clear : Clear mount rest)
    (proper : startsInSep isSep rest = false)
    (tree : MountTree)
    (isRoot : tree.root = mount) :
    ∃ place full,
      MountAt mount place full ∧ full <+: components isSep rest ∧
        Deepest mount rest full ∧
        descend mount rest = (place, afterComponents isSep full.length rest) := by
  induction clear generalizing tree with
  | @here mount rest noneMatches noneApplies =>
    refine ⟨[], [], .root mount, nil_prefix, ?_, ?_⟩
    · rintro _ _ (_ | ⟨found, _⟩) isFront
      · exact le_rfl
      · exact absurd ((prefix_append _ _).trans isFront)
          (noneApplies _ (mem_of_getElem? found))
    · rw [descend_of_none (vfsMatchMountpath_absent noneMatches),
        length_nil, afterComponents, dropWhile_of_proper proper]
  | @child mount child index behind first boundary covers deeper ih =>
    subst isRoot
    obtain ⟨nonempty, start, finish⟩ := tree.relative_child first.found
    obtain ⟨place, full, deeperAt, isFront, deepest, descended⟩ :=
      ih (startsInSep_dropWhile behind) (tree.below first.found) rfl
    have split := components_at_boundary child.mntpath boundary
    refine ⟨_, _, .child first.found deeperAt, ?_, ?_, ?_⟩
    · rw [split, prefix_append_right_inj]
      exact isFront
    · rintro _ _ (_ | ⟨found, otherAt⟩) otherFront
      · exact Nat.zero_le _
      · obtain ⟨_, highest, highestAt, highestFront, bounded⟩ :=
          covers _ (mem_of_getElem? found) _ _ otherAt otherFront
        rw [split, prefix_append_right_inj] at highestFront
        have below := deepest _ _ highestAt highestFront
        simp only [length_append] at bounded ⊢
        omega
    · rw [descend_of_some
        (vfsMatchMountpath_within first (by rintro rfl; cases boundary))
        first.found, descended, length_append,
        afterComponents_append nonempty start finish boundary]
      unfold skipSeps
      rw [afterComponents_dropWhile]

/-- Where the walk ends at the deepest mount, tree and path are clear. -/
theorem clear_of_deepest
    (tree : MountTree)
    {relpath : CString}
    (descended : descend tree.root rest = (place, relpath))
    (placed : MountAt tree.root place full)
    (isFront : full <+: components isSep rest)
    (deepest : Deepest tree.root rest full) :
    Clear tree.root rest := by
  induction place generalizing tree rest relpath full with
  | nil =>
    cases placed
    have noneApplies :
        ∀ child ∈ tree.root.children,
          ¬ components isSep child.mntpath <+: components isSep rest := by
      intro child member applies
      obtain ⟨index, found⟩ := mem_iff_getElem?.mp member
      obtain ⟨nonempty, start, _⟩ := tree.relative_child found
      have tooDeep :=
        deepest _ _ (.child found (.root child)) (by rwa [append_nil])
      rw [append_nil, length_nil, Nat.le_zero, length_eq_zero_iff] at tooDeep
      exact components_ne_nil nonempty start tooDeep
    have matched := vfsMatchMountpath_matched tree.root.children rest
    cases searched : vfsMatchMountpath tree.root.children rest with
    | none =>
      rw [searched] at matched
      cases matched with
      | absent noneMatches => exact .here noneMatches noneApplies
      | atEnd first whole =>
        cases whole
        exact absurd prefix_rfl (noneApplies _ (mem_of_getElem? first.found))
    | some result =>
      rw [searched] at matched
      cases matched with
      | within first =>
        rw [descend_of_some searched first.found] at descended
        cases descended
  | cons index place ih =>
    have matched := vfsMatchMountpath_matched tree.root.children rest
    cases searched : vfsMatchMountpath tree.root.children rest with
    | none =>
      rw [descend_of_none searched] at descended
      cases descended
    | some result =>
      rw [searched] at matched
      cases matched with
      | @within child _ behind first split hasMore =>
        rw [descend_of_some searched first.found, Prod.mk.injEq,
          List.cons.injEq] at descended
        obtain ⟨⟨rfl, samePlace⟩, sameRelpath⟩ := descended
        cases placed with
        | @child _ _ _ _ deeperFull found deeper =>
          rw [first.found, Option.some.injEq] at found
          subst found
          obtain ⟨nonempty, start, finish⟩ := tree.relative_child first.found
          subst split
          have boundary : startsInSep isSep behind = true := by
            by_contra inside
            exact not_components_prefix nonempty start finish hasMore
              (Bool.eq_false_iff.mpr inside) ((prefix_append _ _).trans isFront)
          have parts := components_at_boundary child.mntpath boundary
          refine .child first boundary ?_ ?_
          · intro brother isBrother otherPlace other otherAt otherFront
            obtain ⟨_, otherFound⟩ := mem_iff_getElem?.mp isBrother
            exact ⟨place, deeperFull, deeper, isFront,
              deepest _ _ (.child otherFound otherAt) otherFront⟩
          · rw [parts, prefix_append_right_inj] at isFront
            refine ih (tree.below first.found) (Prod.ext samePlace sameRelpath)
              deeper isFront ?_
            intro otherPlace other otherAt otherFront
            have bounded := deepest _ _ (.child first.found otherAt) (by
                rw [parts, prefix_append_right_inj]
                exact otherFront)
            rw [length_append, length_append] at bounded
            omega

/-! ## Every tree and every path -/

/-- Inside a tree without children the path loses its first separator. -/
theorem vfsMountnodeByPath_alone (mntpath path : CString) :
    vfsMountnodeByPath (.mountnode mntpath []) path =
      (mountnodeByPath path).map fun fspath => ([], fspath) := by
  cases path with
  | nil => rfl
  | cons char rest =>
    have stays : descend (.mountnode mntpath []) rest = ([], rest) := descend_of_none rfl
    rw [vfsMountnodeByPath, mountnodeByPath, stays]
    split <;> rfl

/-- A walk from a path that begins with a separator stays at the root. -/
theorem descend_of_startsInSep (tree : MountTree) (starts : startsInSep isSep rest = true) :
    descend tree.root rest = ([], rest) := by
  apply descend_of_none
  apply vfsMatchMountpath_absent
  rintro child member ⟨behind, rfl⟩
  obtain ⟨nonempty, start, _⟩ := tree.relative [] tree.root (.root _) child member
  rw [startsInSep_append nonempty, start] at starts
  cases starts

/--
For every tree of mounts and every absolute path, the path is resolved to the
deepest mount and its rest exactly when it begins with a single separator and
the tree is clear for what comes behind it.
-/
theorem mount_resolved_iff
    (tree : MountTree)
    (path fspath : CString)
    (accepted : mountnodeByPath path = .ok fspath) :
    (∃ place relpath,
        vfsMountnodeByPath tree.root path = .ok (place, relpath) ∧
          Resolved tree.root path place relpath) ↔
      startsInSep isSep fspath = false ∧ Clear tree.root fspath := by
  obtain ⟨sep, isSeparator, rfl⟩ :
      ∃ sep, isSep sep = true ∧ path = sep :: fspath := by
    cases path with
    | nil => cases accepted
    | cons char rest =>
      rw [mountnodeByPath] at accepted
      split at accepted
      next isSeparator =>
        cases accepted
        exact ⟨char, isSeparator, rfl⟩
      next => cases accepted
  have returned :
      vfsMountnodeByPath tree.root (sep :: fspath) =
        .ok (descend tree.root fspath) := by
    rw [vfsMountnodeByPath, if_pos isSeparator]
  have sameComponents :
      components isSep (sep :: fspath) = components isSep fspath := by
    rw [← components_dropWhile, dropWhile_cons_of_pos isSeparator,
      components_dropWhile]
  have sameRest (count : Nat) :
      afterComponents isSep count (sep :: fspath) =
        afterComponents isSep count fspath := by
    rw [← afterComponents_dropWhile, dropWhile_cons_of_pos isSeparator,
      afterComponents_dropWhile]
  have sameDeepest (full : List CString) :
      Deepest tree.root (sep :: fspath) full ↔
        Deepest tree.root fspath full := by
    unfold Deepest
    rw [sameComponents]
  constructor
  · rintro ⟨place, relpath, isReturned,
      ⟨full, placed, isFront, deepest, isRest⟩⟩
    rw [returned, Except.ok.injEq] at isReturned
    rw [sameComponents] at isFront
    rw [sameRest] at isRest
    refine ⟨?_, clear_of_deepest tree isReturned placed isFront
      ((sameDeepest full).mp deepest)⟩
    by_contra starts
    rw [descend_of_startsInSep tree (Bool.not_eq_false _ ▸ starts),
      Prod.mk.injEq] at isReturned
    obtain ⟨rfl, rfl⟩ := isReturned
    cases placed
    apply starts
    rw [isRest]
    exact startsInSep_dropWhile fspath
  · rintro ⟨proper, clear⟩
    obtain ⟨place, full, placed, isFront, deepest, descended⟩ :=
      clear.descends proper tree rfl
    refine ⟨place, _, by rw [returned, descended],
      ⟨full, placed, ?_, (sameDeepest full).mpr deepest, ?_⟩⟩
    · rw [sameComponents]
      exact isFront
    · rw [sameRest]

/-- The name `dev`. -/
def devName : CString := ofBytes [100, 101, 118]

/-- One separator. -/
def slash : CString := ofBytes [fsSep]

theorem devName_run : Run isSep devName := run_of_all (by decide)

theorem devName_relative : Relative devName where
  nonempty := by decide
  start := by decide
  finish := endsInSep_run devName_run

/-- A root mount with one child, at `dev`. -/
def devTree : MountTree where
  root := .mountnode [] [.mountnode devName []]
  relative := by
    intro place mount reached child member
    cases reached with
    | root =>
      rw [Mountnode.children, mem_singleton] at member
      subst member
      exact devName_relative
    | @child _ _ _ index _ found deeper =>
      have isChild := mem_of_getElem? found
      rw [Mountnode.children, mem_singleton] at isChild
      subst isChild
      cases deeper with
      | root => cases member
      | child foundBelow => cases foundBelow
  distinct := by
    intro place mount reached
    cases reached with
    | root => simp [Mountnode.children]
    | @child _ _ _ index _ found deeper =>
      have isChild := mem_of_getElem? found
      rw [Mountnode.children, mem_singleton] at isChild
      subst isChild
      cases deeper with
      | root => exact nodup_nil
      | child foundBelow => cases foundBelow

theorem devTree_mounted : MountAt devTree.root [0] [devName] := by
  have found : devTree.root.children[0]? = some (.mountnode devName []) := rfl
  have placed := MountAt.child found (.root (.mountnode devName []))
  exact placed

/-- The path `/dev/dev` belongs to the mount at `dev`. -/
theorem mount_resolved_iff_sample :
    ∃ place relpath,
      vfsMountnodeByPath devTree.root (slash ++ (devName ++ (slash ++ devName))) =
          .ok (place, relpath) ∧
        Resolved devTree.root (slash ++ (devName ++ (slash ++ devName))) place
          relpath := by
  have first :
      FirstMatch devTree.root.children
        (Mountnode.mntpath (.mountnode devName []) ++ (slash ++ devName)) 0
        (.mountnode devName []) :=
    { found := rfl
      isMatch := prefix_append _ _
      isFirst := fun earlier below => absurd below (Nat.not_lt_zero _) }
  have clear : Clear devTree.root (devName ++ (slash ++ devName)) := by
    refine .child first rfl ?_ (.here ?_ ?_)
    · intro brother isBrother place full placed isFront
      cases mem_singleton.mp isBrother
      exact ⟨place, full, placed, isFront, le_rfl⟩
    · exact fun _ member => absurd member not_mem_nil
    · exact fun _ member => absurd member not_mem_nil
  exact (mount_resolved_iff devTree _ _ rfl).mpr ⟨by decide, clear⟩

/-- With a mount at `dev`, the path `/dev` stays in the root mount. -/
theorem mount_at_path_not_entered :
    ¬ ∀ (tree : MountTree) (path fspath : CString),
      mountnodeByPath path = .ok fspath →
        ∃ place relpath,
          vfsMountnodeByPath tree.root path = .ok (place, relpath) ∧
            Resolved tree.root path place relpath := by
  intro always
  obtain ⟨place, relpath, returned, full, placed, _, deepest, _⟩ :=
    always devTree (slash ++ devName) devName rfl
  have stays : descend devTree.root devName = ([], devName) := descend_of_none (by decide)
  have isReturned :
      vfsMountnodeByPath devTree.root (slash ++ devName) = .ok (descend devTree.root devName) :=
    rfl
  rw [isReturned, stays, Except.ok.injEq, Prod.mk.injEq] at returned
  obtain ⟨rfl, rfl⟩ := returned
  cases placed
  have isFront : [devName] <+: components isSep (slash ++ devName) := by
    have areSeps : Seps isSep slash := seps_of_all (by decide)
    have single : components isSep (slash ++ devName) = [devName] := by
      rw [components_seps_append areSeps, components_run devName_relative.nonempty devName_run]
    simpa only [single] using prefix_rfl
  have tooDeep := deepest [0] [devName] devTree_mounted isFront
  exact absurd tooDeep (by decide)

end Cosec.Fs.MountResolution
