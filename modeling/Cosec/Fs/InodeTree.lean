import Mathlib.Algebra.Group.Nat.Defs
import Mathlib.Data.List.Basic
import Cosec.Lib.Word32

/-!
# The inode table of ramfs

This module embeds `struct btree_node` and its operations.  A `void *` of the
table is a `Slot`.  The fanout of a node is the length of its array of
children, and `none` stands for behaviour the language does not define:
reading a leaf as a node, or an array out of its bounds.

`btree_set_leaf` returns `0` for failure as well as for slot `0` of a node,
and what it stored stays stored.  `btree_new_leaf` grows the table when it is
given `0` and returns the number of a slot it never fills.
-/

namespace Cosec.Fs.InodeTree

open Lib.Word32 List

universe u

/-- A pointer of the table. -/
inductive Slot (Leaf : Type u) where
  | null
  | leaf (data : Leaf)
  | node (level used : Nat) (children : List (Slot Leaf))

variable {Leaf : Type u}

/-- A new node of level zero, all of its children null. -/
def btreeNew (fanout : Nat) : Slot Leaf := .node 0 0 (List.replicate fanout .null)

/-! ## Looking an index up -/

/-- The loop of `btree_get_index` that walks down `level` nodes. -/
def descend (fanout : Nat) : Nat → Nat → Nat → Slot Leaf → Option (Slot Leaf)
  | 0, _, index, .node _ _ children => children[index]?
  | level + 1, btsize, index, .node _ _ children =>
    let below := btsize / fanout
    match children[index / below]? with
    | none => none
    | some .null => some .null
    | some subnode => descend fanout level below (index % below) subnode
  | _, _, _, _ => none

def getIndex (bnode : Slot Leaf) (index : Nat) : Option (Slot Leaf) := match bnode with
  | .node level _ children =>
    let fanout := children.length
    let btsize := wrap32 (fanout ^ (level + 1))
    if btsize ≤ index then some .null
    else descend fanout level btsize index bnode
  | _ => none

/-- The first null child is replaced; the result is its position. -/
def fillFirst (data : Leaf) : List (Slot Leaf) → Option (Nat × List (Slot Leaf))
  | [] => none
  | .null :: rest => some (0, .leaf data :: rest)
  | child :: rest =>
    match fillFirst data rest with
    | none => none
    | some (index, filled) => some (index + 1, child :: filled)

mutual

def setLeaf (data : Leaf) : Slot Leaf → Option (Nat × Slot Leaf)
  | .null => none
  | .leaf _ => none
  | .node 0 used children =>
    if used < children.length then
      match fillFirst data children with
      | some (index, filled) => some (index, .node 0 (used + 1) filled)
      | none => some (0, .node 0 used children)
    else
      some (0, .node 0 used children)
  | .node (level + 1) used children =>
    match setLeafBelow data (wrap32 (children.length ^ (level + 1))) 0 children with
    | none => none
    | some (res, searched) => some (res, .node (level + 1) used searched)

/-- The loop over the subnodes from child number `i` on. -/
def setLeafBelow (data : Leaf) (indexOffset i : Nat) :
    List (Slot Leaf) → Option (Nat × List (Slot Leaf))
  | [] => some (0, [])
  | .null :: rest =>
    match setLeafBelow data indexOffset (i + 1) rest with
    | none => none
    | some (res, searched) => some (res, .null :: searched)
  | bchild :: rest =>
    match setLeaf data bchild with
    | none => none
    | some (res, changed) =>
      if 0 < asInt32 res then
        some (wrap32 (res + i * indexOffset), changed :: rest)
      else
        match setLeafBelow data indexOffset (i + 1) rest with
        | none => none
        | some (later, searched) => some (later, changed :: searched)

end

/--
The nodes hung from `new_root[1]`: `bt_used` of the root and of every node of
the path, innermost first, and whether `old_root` points to the innermost.
-/
structure Growth where
  rootUsed : Nat
  path : List Nat
  cursor : Bool

/-- One turn of the growth loop; `granted` tells whether `kmalloc` succeeded. -/
def growStep (growth : Growth) (granted : Bool) : Growth := match growth.cursor, growth.path with
  | true, used :: outer =>
    { growth with
      path := if granted then 0 :: (used + 1) :: outer else (used + 1) :: outer
      cursor := granted }
  | _, _ =>
    { rootUsed := growth.rootUsed + 1
      path := if granted then [0] else []
      cursor := granted }

/-- The subtree of a path of nodes, all of them with `bt_level` zero. -/
def pathNode (fanout : Nat) (path : List Nat) : Slot Leaf := path.foldl (fun below used =>
      .node 0 used (below :: List.replicate (fanout - 1) .null))
    .null

/--
The second half of `btree_new_leaf`, which adds a level above `root`.  The
outcome of the `kmalloc` call number `n` is `grants n`, and `calls` counts
the calls made so far.
-/
def growTable (grants : Nat → Bool) (calls : Nat) (root : Slot Leaf) :
    Option (Nat × Slot Leaf × Nat) :=
  match root with
  | .node level _ children =>
    if grants calls then
      let fanout := children.length
      let lvl := level + 1
      let growth := (List.range lvl).foldl (fun growth turn =>
            growStep growth (grants (calls + 1 + turn)))
          { rootUsed := 1, path := [], cursor := false }
      some
        (wrap32 (fanout ^ lvl),
          .node lvl growth.rootUsed
            (root :: pathNode fanout growth.path :: List.replicate (fanout - 2) .null),
          calls + 1 + lvl)
    else
      some (0, root, calls + 1)
  | _ => none

/-- The number of the leaf, the new root, and the `kmalloc` calls made. -/
def newLeaf (grants : Nat → Bool) (calls : Nat) (root : Slot Leaf)
    (data : Leaf) : Option (Nat × Slot Leaf × Nat) :=
  match setLeaf data root with
  | none => none
  | some (res, searched) =>
    if 0 < asInt32 res then some (res, searched, calls)
    else growTable grants calls searched

/-- A node of level zero whose children are leaves first and null behind. -/
def flatTable (fanout : Nat) (leaves : List Leaf) : Slot Leaf :=
  .node 0 leaves.length (leaves.map .leaf ++ List.replicate (fanout - leaves.length) .null)

/-- What a slot number of a flat table stands for. -/
def slotOf : Option Leaf → Slot Leaf
  | some data => .leaf data
  | none => .null

variable {leaves : List Leaf} {fanout : Nat}

theorem getIndex_flatTable
    (room : leaves.length ≤ fanout) (small : fanout < 4294967296) (index : Nat) :
    getIndex (flatTable fanout leaves) index = some (slotOf leaves[index]?) := by
  have length :
      (leaves.map Slot.leaf ++ List.replicate (fanout - leaves.length) Slot.null).length =
        fanout := by
    simp
    omega
  have size : wrap32 (fanout ^ (0 + 1)) = fanout := by
    rw [zero_add, Nat.pow_one, wrap32_of_lt small]
  unfold getIndex flatTable
  simp only [length, size]
  rcases Nat.lt_or_ge index fanout with within | beyond
  · rw [if_neg (Nat.not_le.mpr within)]
    simp only [descend]
    rcases Nat.lt_or_ge index leaves.length with inLeaves | behind
    · rw [getElem?_append_left (by simpa using inLeaves)]
      simp [slotOf, inLeaves]
    · rw [getElem?_append_right (by simpa using behind), getElem?_eq_none behind]
      simp only [length_map, slotOf]
      exact getElem?_replicate_of_lt (by omega)
  · rw [if_pos beyond, getElem?_eq_none (by omega)]
    rfl

theorem fillFirst_leaves (data : Leaf) (leaves : List Leaf) (rest : List (Slot Leaf)) :
    fillFirst data (leaves.map .leaf ++ .null :: rest) =
      some (leaves.length, leaves.map .leaf ++ .leaf data :: rest) := by
  induction leaves with
  | nil => rfl
  | cons leaf leaves ih =>
    simp only [map_cons, cons_append, fillFirst, ih, length_cons]

/-- A flat table with room takes the next leaf at the next number. -/
theorem newLeaf_flatTable
    (taken : leaves ≠ []) (room : leaves.length < fanout) (small : fanout < 2147483648)
    (grants : Nat → Bool) (calls : Nat) (data : Leaf) :
    newLeaf grants calls (flatTable fanout leaves) data =
      some (leaves.length, flatTable fanout (leaves ++ [data]), calls) := by
  obtain ⟨rest, restEq⟩ : ∃ rest, fanout - leaves.length = rest + 1 :=
    ⟨fanout - leaves.length - 1, by omega⟩
  have positive : 0 < leaves.length := length_pos_iff.mpr taken
  have stored :
      setLeaf data (flatTable fanout leaves) =
        some (leaves.length, flatTable fanout (leaves ++ [data])) := by
    have remaining : fanout - (leaves.length + 1) = rest := by omega
    unfold flatTable
    rw [setLeaf, if_pos (by simp; omega), restEq, replicate_succ, fillFirst_leaves]
    simp [remaining]
  unfold newLeaf
  rw [stored]
  simp only
  rw [if_pos (by rw [asInt32_of_lt (by omega)]; omega)]

/-! ## The leaves a table holds -/

/-- A leaf occurs below a pointer. -/
inductive Holds (data : Leaf) : Slot Leaf → Prop where
  | leaf : Holds data (.leaf data)
  | child {level used : Nat} {children : List (Slot Leaf)}
      {child : Slot Leaf}
      (member : child ∈ children)
      (held : Holds data child) :
      Holds data (.node level used children)

theorem not_holds_null (data : Leaf) : ¬ Holds data (.null : Slot Leaf) := by
  intro held
  cases held

/-- A leaf occurs below one of several pointers. -/
def HoldsIn (data : Leaf) (children : List (Slot Leaf)) : Prop :=
  ∃ child ∈ children, Holds data child

variable {data : Leaf}

theorem holds_node_iff {level used : Nat} {children : List (Slot Leaf)} :
    Holds data (.node level used children) ↔ HoldsIn data children := by
  constructor
  · intro held
    cases held with
    | child member below => exact ⟨_, member, below⟩
  · rintro ⟨child, member, below⟩
    exact .child member below

theorem holdsIn_cons {first : Slot Leaf} {rest : List (Slot Leaf)} :
    HoldsIn data (first :: rest) ↔ Holds data first ∨ HoldsIn data rest := by
  simp only [HoldsIn, mem_cons, exists_eq_or_imp]

theorem not_holdsIn_replicate_null (data : Leaf) (count : Nat) :
    ¬ HoldsIn data (List.replicate count .null) := by
  rintro ⟨child, member, held⟩
  rw [eq_of_mem_replicate member] at held
  exact not_holds_null data held

theorem holds_flatTable_iff : Holds data (flatTable fanout leaves) ↔ data ∈ leaves := by
  unfold flatTable
  rw [holds_node_iff]
  constructor
  · rintro ⟨child, member, held⟩
    rcases mem_append.mp member with inLeaves | isNull
    · obtain ⟨leaf, inside, rfl⟩ := mem_map.mp inLeaves
      cases held
      exact inside
    · exact absurd ⟨child, isNull, held⟩ (not_holdsIn_replicate_null data _)
  · intro member
    exact ⟨.leaf data, mem_append_left _ (mem_map_of_mem member), .leaf⟩

/--
A pointer that `btree_get_index` gives out as a leaf: a child, other than
null, of a node of level zero.
-/
inductive LeafOf (pointer : Slot Leaf) : Slot Leaf → Prop where
  | here {used : Nat} {children : List (Slot Leaf)}
      (member : pointer ∈ children)
      (present : pointer ≠ .null) :
      LeafOf pointer (.node 0 used children)
  | deeper {level used : Nat} {children : List (Slot Leaf)}
      {child : Slot Leaf}
      (member : child ∈ children)
      (leafOf : LeafOf pointer child) :
      LeafOf pointer (.node (level + 1) used children)

variable {stored : Leaf}

/-- Filling the first null child adds no other leaf. -/
theorem fillFirst_holds {children filled : List (Slot Leaf)} {index : Nat}
    (filling : fillFirst stored children = some (index, filled)) (held : HoldsIn data filled) :
    data = stored ∨ HoldsIn data children := by
  induction children generalizing index filled with
  | nil => cases filling
  | cons first rest ih =>
    cases first with
    | null =>
      cases filling
      rw [holdsIn_cons] at held ⊢
      rcases held with isStored | older
      · cases isStored
        exact Or.inl rfl
      · exact Or.inr (Or.inr older)
    | leaf _ | node _ _ _ =>
      rw [fillFirst] at filling
      · split at filling
        · cases filling
        · rename_i filledRest
          cases filling
          have later := ih filledRest
          rw [holdsIn_cons] at held ⊢
          tauto
      · simp

mutual

theorem setLeaf_holds :
    ∀ {slot changed : Slot Leaf} {res : Nat}, setLeaf stored slot = some (res, changed) →
      Holds data changed → data = stored ∨ Holds data slot
  | .null, _, _, setting, _ => by cases setting
  | .leaf _, _, _, setting, _ => by cases setting
  | .node 0 used children, changed, res, setting, held => by
      rw [setLeaf] at setting
      split at setting
      · split at setting
        · rename_i filling
          cases setting
          rw [holds_node_iff] at held ⊢
          exact fillFirst_holds filling held
        · cases setting
          exact Or.inr held
      · cases setting
        exact Or.inr held
  | .node (level + 1) used children, changed, res, setting, held => by
      rw [setLeaf] at setting
      split at setting
      · cases setting
      · rename_i below
        cases setting
        rw [holds_node_iff] at held ⊢
        exact setLeafBelow_holds below held

theorem setLeafBelow_holds {indexOffset : Nat} :
    ∀ {children searched : List (Slot Leaf)} {i res : Nat},
      setLeafBelow stored indexOffset i children = some (res, searched) → HoldsIn data searched →
      data = stored ∨ HoldsIn data children
  | [], _, _, _, searching, held => by
      cases searching
      exact Or.inr held
  | .null :: rest, searched, i, res, searching, held => by
      rw [setLeafBelow] at searching
      split at searching
      · cases searching
      · rename_i below
        cases searching
        rw [holdsIn_cons] at held ⊢
        rcases held with here | later
        · exact absurd here (not_holds_null data)
        · have older := setLeafBelow_holds below later
          tauto
  | .leaf _ :: rest, searched, i, res, searching, held => by
      rw [setLeafBelow, setLeaf] at searching
      · cases searching
      · simp
  | .node level used children :: rest, searched, i, res, searching, held => by
      rw [setLeafBelow] at searching
      · split at searching
        · cases searching
        · rename_i setting
          split at searching
          · cases searching
            rw [holdsIn_cons] at held ⊢
            rcases held with here | later
            · have older := setLeaf_holds setting here
              tauto
            · exact Or.inr (Or.inr later)
          · split at searching
            · cases searching
            · rename_i below
              cases searching
              rw [holdsIn_cons] at held ⊢
              rcases held with here | later
              · have older := setLeaf_holds setting here
                tauto
              · have older := setLeafBelow_holds below later
                tauto
      · simp

end

theorem not_holds_pathNode (data : Leaf) (fanout : Nat) (path : List Nat) :
    ¬ Holds data (pathNode fanout path : Slot Leaf) := by
  have extended :
      ∀ below : Slot Leaf, ¬ Holds data below → ¬ Holds data (path.foldl (fun below used =>
              .node 0 used (below :: List.replicate (fanout - 1) .null))
            below) := by
    induction path with
    | nil => exact fun below absent => absent
    | cons used path ih =>
      intro below absent
      apply ih
      rw [holds_node_iff, holdsIn_cons]
      rintro (here | null)
      · exact absent here
      · exact not_holdsIn_replicate_null data _ null
  exact extended .null (not_holds_null data)

variable {calls later index : Nat} {grants : Nat → Bool} {root grown : Slot Leaf}

theorem growTable_holds (grew : growTable grants calls root = some (index, grown, later))
    (held : Holds data grown) : Holds data root := by
  unfold growTable at grew
  split at grew
  · split at grew
    · cases grew
      rw [holds_node_iff, holdsIn_cons, holdsIn_cons] at held
      rcases held with older | path | null
      · exact older
      · exact absurd path (not_holds_pathNode data _ _)
      · exact absurd null (not_holdsIn_replicate_null data _)
    · cases grew
      exact held
  · cases grew

theorem descend_holds {level btsize : Nat} {bnode : Slot Leaf}
    (found : descend fanout level btsize index bnode = some (.leaf data)) : Holds data bnode := by
  induction level generalizing btsize index bnode with
  | zero =>
    cases bnode with
    | null | leaf _ => cases found
    | node level used children => exact .child (mem_of_getElem? found) .leaf
  | succ level ih =>
    cases bnode with
    | null | leaf _ => cases found
    | node level used children =>
      simp only [descend] at found
      split at found
      · cases found
      · cases found
      · rename_i subnode _ reached
        exact .child (mem_of_getElem? reached) (ih found)

theorem getIndex_holds (found : getIndex root index = some (.leaf data)) : Holds data root := by
  unfold getIndex at found
  split at found
  · simp only at found
    split at found
    · cases found
    · exact descend_holds found
  · cases found

end Cosec.Fs.InodeTree
