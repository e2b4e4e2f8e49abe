import Cosec.Fs.InodeTree
import Cosec.Lib.Transition

/-!
# The shape of the inode table

A tree is well-formed when each child is one level below its node and each
`bt_used` counts the children.  `btree_get_index` computes the capacity of a
tree in 32 bits.  `btree_new_leaf` looks at `new_root` where `new_node` may be
null, and leaves `bt_level` of the nodes it adds at zero.
-/

namespace Cosec.Fs.TreeShapes

open Fs.InodeTree Lib.Transition Lib.Word32 List

universe u

variable {Leaf : Type u}

/-! ## Well-formed trees -/

def isNull : Slot Leaf → Bool
  | .null => true
  | _ => false

/-- The number of children that are not null. -/
def occupied (children : List (Slot Leaf)) : Nat := children.countP fun child => !isNull child

/-- A node of a level with counted children, each of them null or good. -/
inductive NodeOf (fanout level : Nat) (good : Slot Leaf → Prop) : Slot Leaf → Prop
  | intro {children : List (Slot Leaf)} (length : children.length = fanout)
      (below : ∀ child ∈ children, child = .null ∨ good child) :
      NodeOf fanout level good (.node level (occupied children) children)

def WellFormed (fanout : Nat) : Nat → Slot Leaf → Prop
  | 0 => NodeOf fanout 0 fun child => ∃ data, child = .leaf data
  | level + 1 => NodeOf fanout (level + 1) (WellFormed fanout level)

structure Tree (Leaf : Type u) where
  fanout : Nat
  level : Nat
  root : Slot Leaf
  branches : 2 ≤ fanout
  shape : WellFormed fanout level root

/-! ## Looking an index up -/

/-- The positions at which the loop of `btree_get_index` reads children. -/
def positions (fanout : Nat) : Nat → Nat → Nat → Slot Leaf → List Nat
  | 0, _, index, _ => [index]
  | level + 1, btsize, index, .node _ _ children =>
    let below := btsize / fanout
    match children[index / below]? with
    | some (.node lvl used children) =>
      index / below :: positions fanout level below (index % below) (.node lvl used children)
    | _ => [index / below]
  | _, _, _, _ => []

def visited : Slot Leaf → Nat → List Nat
  | .node level used children, index =>
    let fanout := children.length
    let btsize := wrap32 (fanout ^ (level + 1))
    if btsize ≤ index then []
    else positions fanout level btsize index (.node level used children)
  | _, _ => []

/-- The digits of an index, beginning with that of the root. -/
def digits (fanout index : Nat) : Nat → List Nat
  | 0 => []
  | level + 1 => index / fanout ^ level % fanout :: digits fanout index level

/-- The part of a path of digits that leads through nodes, and its end. -/
def follow : List Nat → Slot Leaf → List Nat × Slot Leaf
  | digit :: digits, .node _ _ children =>
    let (path, found) := follow digits (children.getD digit .null)
    (digit :: path, found)
  | _, slot => ([], slot)

/-- A slot by its number, if its node exists. -/
def slotAt (fanout : Nat) : Nat → Slot Leaf → Nat → Option (Slot Leaf)
  | 0, .node _ _ children, index => children[index]?
  | level + 1, .node _ _ children, index =>
    children[index / fanout ^ (level + 1)]?.bind fun child =>
      slotAt fanout level child (index % fanout ^ (level + 1))
  | _, _, _ => none

/-- The walk follows the digits of an index below the capacity, and finds null for any other. -/
def WalkRight (tree : Tree Leaf) (index : Nat) : Prop :=
  (∀ position ∈ visited tree.root index, position < tree.fanout) ∧
    if index < tree.fanout ^ (tree.level + 1) then
      let (path, found) := follow (digits tree.fanout index (tree.level + 1)) tree.root
      visited tree.root index = path ∧ getIndex tree.root index = some found
    else getIndex tree.root index = some .null

variable {fanout level : Nat} {slot : Slot Leaf}

theorem WellFormed.node (shape : WellFormed fanout level slot) :
    ∃ children, slot = .node level (occupied children) children ∧ children.length = fanout := by
  cases level with
  | zero | succ =>
    cases shape with
    | intro length _ => exact ⟨_, rfl, length⟩

theorem slotAt_null (index : Nat) : slotAt fanout level (.null : Slot Leaf) index = none := by
  cases level with
  | zero | succ => rfl

/-- The loop goes where the digits lead, and ends at the slot with the number. -/
theorem walk_eq (shape : WellFormed fanout level slot) (positive : 0 < fanout) (index : Nat) :
    let walk := follow (digits fanout index (level + 1)) slot
    let size := fanout ^ (level + 1)
    positions fanout level size (index % size) slot = walk.1 ∧
      descend fanout level size (index % size) slot = some walk.2 ∧
      walk.2 = (slotAt fanout level slot (index % size)).getD .null ∧
      ∀ digit ∈ walk.1, digit < fanout := by
  have small := Nat.mod_lt (index / fanout ^ level) positive
  induction level generalizing slot with
  | zero =>
    cases shape with
    | intro length below =>
      rw [pow_zero, Nat.div_one, ← length] at small
      simp [positions, descend, digits, follow, slotAt, getD_eq_getElem?_getD, ← length, small]
  | succ level ih =>
    cases shape with
    | @intro children length below =>
      have inside : index / fanout ^ (level + 1) % fanout < children.length := length ▸ small
      rw [digits]
      simp only [positions, descend, follow, slotAt, pow_succ fanout (level + 1),
        Nat.mul_div_cancel _ positive, Nat.mod_mul_right_div_self, Nat.mod_mul_right_mod,
        getD_eq_getElem?_getD, getElem?_eq_getElem inside, Option.getD_some]
      rcases below _ (getElem_mem inside) with absent | isNode
      · simp [absent, follow, slotAt_null, small]
      · obtain ⟨path, found, isSlot, bounded⟩ := ih isNode (Nat.mod_lt _ positive)
        obtain ⟨grandchildren, isChild, _⟩ := isNode.node
        rw [isChild] at path found isSlot bounded ⊢
        simp only [path, found, forall_mem_cons, true_and]
        exact ⟨isSlot, small, bounded⟩

/-- Every walk is right exactly when the capacity of the tree is computed without overflow. -/
theorem walks_right_iff (tree : Tree Leaf) :
    (∀ index < 4294967296, WalkRight tree index) ↔
      tree.fanout ^ (tree.level + 1) < 4294967296 := by
  obtain ⟨fanout, level, root, branches, shape⟩ := tree
  obtain ⟨children, rfl, length⟩ := shape.node
  unfold WalkRight visited getIndex
  dsimp only
  rw [length]
  constructor
  · intro right
    by_contra large
    have below : wrap32 (fanout ^ (level + 1)) < 4294967296 := Nat.mod_lt _ (by decide)
    have walked := (right _ below).2
    rw [if_pos (by omega), if_pos (Nat.le_refl _)] at walked
    cases walked.1
  · intro small index _
    rw [wrap32_of_lt small]
    rcases Nat.lt_or_ge index (fanout ^ (level + 1)) with inside | beyond
    · obtain ⟨path, found, _, bounded⟩ := walk_eq shape (by omega) index
      rw [Nat.mod_eq_of_lt inside] at path found
      rw [if_pos inside, if_neg (Nat.not_le.mpr inside), if_neg (Nat.not_le.mpr inside), path]
      exact ⟨bounded, rfl, found⟩
    · simp [beyond, Nat.not_lt.mpr beyond]

/-- A path of nodes with two children, and a leaf at its end. -/
def spine : Nat → Slot Nat
  | 0 => .leaf 0
  | level + 1 => .node level 1 [spine level, .null]

theorem spine_wellFormed (level : Nat) : WellFormed 2 level (spine (level + 1)) := by
  induction level with
  | zero => exact @NodeOf.intro _ 2 0 _ [.leaf 0, .null] rfl (by simp)
  | succ level ih =>
    exact @NodeOf.intro _ 2 (level + 1) _ [spine (level + 1), .null] rfl (by simp [ih])

/-- With two children to a node, the leaf number zero of a tree of level 31 is not found. -/
theorem walk_loses_leaf :
    ¬ ∀ (tree : Tree Nat), ∀ index < 4294967296, WalkRight tree index := by
  intro right
  have walked := right ⟨2, 31, spine 32, Nat.le_refl 2, spine_wellFormed 31⟩ 0 (by decide)
  cases walked.2.2

/-! ## Growing the table -/

/-- The calls of `btree_new_leaf`, each with the outcomes of its allocations. -/
def tableSystem (invalid : Leaf) : System (Slot Leaf) (Leaf × (Nat → Bool)) where
  start root := setLeaf invalid (btreeNew 64) = some (0, root)
  step root call target := ∃ res calls, newLeaf call.2 0 root call.1 = some (res, target, calls)

/-- A call returns with a well-formed tree, and without a number it changes nothing. -/
def CallRight (root : Slot Leaf) (call : Leaf × (Nat → Bool)) : Prop :=
  ∃ res grown calls, newLeaf call.2 0 root call.1 = some (res, grown, calls) ∧
    (∃ level, WellFormed 64 level grown) ∧ (res = 0 → grown = root)

/-- The root is the only node, and a new root over a full one is not granted alone. -/
def Calm (root : Slot Leaf) (call : Leaf × (Nat → Bool)) : Prop :=
  ∃ used children, root = .node 0 used children ∧
    (used = 64 → call.2 0 = true → call.2 1 = true)

/-- A table of one node that holds a leaf, or one that has grown. -/
def Grown (root : Slot Leaf) : Prop :=
  (∃ leaves, root = flatTable 64 leaves ∧ leaves ≠ [] ∧ leaves.length ≤ 64) ∨
    WellFormed 64 1 root

variable {leaves : List Leaf} {root : Slot Leaf} {call : Leaf × (Nat → Bool)}

/-- A table that has not grown is one node. -/
theorem flatTable_wellFormed (room : leaves.length ≤ 64) :
    WellFormed 64 0 (flatTable 64 leaves) := by
  let children := leaves.map Slot.leaf ++ replicate (64 - leaves.length) .null
  have count : occupied children = leaves.length := by
    unfold occupied
    rw [countP_append, countP_map, countP_eq_length.mpr (by simp [isNull]),
      countP_eq_zero.mpr (by simp +contextual [isNull])]
    simp
  have length : children.length = 64 := by
    simp [children]
    omega
  have below : ∀ child ∈ children, child = .null ∨ ∃ data, child = .leaf data := by grind
  have shape := @NodeOf.intro _ _ 0 _ _ length below
  rwa [count] at shape

theorem Grown.wellFormed (grown : Grown root) : ∃ level, WellFormed 64 level root := by
  rcases grown with ⟨leaves, rfl, _, room⟩ | shape
  · exact ⟨0, flatTable_wellFormed room⟩
  · exact ⟨1, shape⟩

/-- A node grows a root above it if that is granted, and counts a sibling in any case. -/
theorem growTable_flat {used : Nat} {children : List (Slot Leaf)} (length : children.length = 64)
    (grants : Nat → Bool) :
    growTable grants 0 (.node 0 used children) =
      if grants 0 then
        some (64, .node 1 2 (.node 0 used children ::
          pathNode 64 (if grants 1 then [0] else []) :: replicate 62 .null), 2)
      else some (0, .node 0 used children, 1) := by
  unfold growTable
  simp only [length]
  rfl

/-- A calm call returns, keeps the shape, and fails without a change. -/
theorem Grown.kept (grown : Grown root) (calm : Calm root call) :
    ∃ res target calls, newLeaf call.2 0 root call.1 = some (res, target, calls) ∧
      Grown target ∧ (res = 0 → target = root) := by
  obtain ⟨used, children, isNode, granted⟩ := calm
  rcases grown with ⟨leaves, rfl, taken, room⟩ | shape
  · rcases Nat.lt_or_eq_of_le room with free | full
    · refine ⟨_, _, _, newLeaf_flatTable taken free (by decide) _ _ _, ?_,
        fun zero => absurd (length_eq_zero_iff.mp zero) taken⟩
      exact Or.inl ⟨_, rfl, by simp, by simp; omega⟩
    · have flat := flatTable_wellFormed room
      obtain ⟨_, equal, length⟩ := flat.node
      have refused : setLeaf call.1 (flatTable 64 leaves) = some (0, flatTable 64 leaves) := by
        unfold flatTable
        rw [setLeaf, if_neg (by simp; omega)]
      unfold newLeaf
      rw [refused]
      dsimp only
      rw [if_neg (by decide), isNode, growTable_flat (by grind)]
      cases first : call.2 0 with
      | false =>
        exact ⟨0, _, _, rfl, Or.inl ⟨leaves, isNode.symm, taken, room⟩, fun _ => rfl⟩
      | true =>
        cases isNode
        refine ⟨64, _, _, rfl, Or.inr ?_, by simp⟩
        rw [granted full first]
        refine @NodeOf.intro Leaf 64 1 (WellFormed 64 0)
          (flatTable 64 leaves :: btreeNew 64 :: replicate 62 .null) rfl ?_
        simp only [forall_mem_cons]
        exact ⟨Or.inr flat, Or.inr (@flatTable_wellFormed Leaf [] (by simp)),
          fun child member => Or.inl (eq_of_mem_replicate member)⟩
  · obtain ⟨_, rfl, _⟩ := shape.node
    cases isNode

/-- In runs whose calls are calm the tree stays well-formed, and no call goes wrong. -/
theorem calls_right (invalid : Leaf) (reached : (tableSystem invalid).Reached Calm root) :
    (∃ level, WellFormed 64 level root) ∧ ∀ call, Calm root call → CallRight root call := by
  have grown : Grown root := by
    refine reached.invariant ?_ ?_
    · intro root made
      cases made
      exact Or.inl ⟨[invalid], rfl, by simp, by simp⟩
    · rintro source call target grown calm ⟨res, calls, called⟩
      obtain ⟨_, _, _, returned, kept, _⟩ := grown.kept calm
      cases called.symm.trans returned
      exact kept
  refine ⟨grown.wellFormed, fun call calm => ?_⟩
  obtain ⟨res, target, calls, returned, kept, same⟩ := grown.kept calm
  exact ⟨res, target, calls, returned, kept.wellFormed, same⟩

theorem flatTable_reached
    {allowed : Slot Nat → Nat × (Nat → Bool) → Prop}
    {n : Nat}
    (small : n < 64)
    (permitted :
      ∀ count < n, allowed (flatTable 64 (range (count + 1))) (count + 1, fun _ => false)) :
    (tableSystem 0).Reached allowed (flatTable 64 (range (n + 1))) := by
  induction n with
  | zero => exact .start rfl
  | succ n ih =>
    have earlier := ih (by omega) fun count less => permitted count (by omega)
    refine @System.Reached.step _ _ _ _ _ _ (n + 1, fun _ => false) earlier
      (permitted n (by omega)) ⟨(range (n + 1)).length, 0, ?_⟩
    rw [@range_succ (n + 1)]
    exact newLeaf_flatTable (by simp) (by simp; omega) (by decide) _ _ _

/-- The call that fills the table. -/
theorem calls_right_last :
    (∃ level, WellFormed 64 level (flatTable 64 (range 63))) ∧
      CallRight (flatTable 64 (range 63)) (63, fun _ => false) := by
  have calm (count : Nat) :
      Calm (flatTable 64 (range (count + 1))) (count + 1, fun _ => false) :=
    ⟨_, _, rfl, fun _ granted => absurd granted Bool.false_ne_true⟩
  have right := calls_right 0 (@flatTable_reached _ 62 (by decide) fun count _ => calm count)
  exact ⟨right.1, right.2 _ (calm 62)⟩

/-- A full table whose new root alone is granted counts two children and has one. -/
theorem growth_miscounts :
    ¬ ∀ root, (tableSystem 0).Reached unrestricted root → ∀ call, CallRight root call := by
  intro right
  obtain ⟨_, _, _, grew, ⟨_, shape⟩, _⟩ := right _ (@flatTable_reached _ 63 (by decide) fun _ _ => trivial) (0, (· == 0))
  cases grew
  obtain ⟨children, equal, _⟩ := shape.node
  injection equal with _ count same
  rw [← same] at count
  cases count

end Cosec.Fs.TreeShapes
