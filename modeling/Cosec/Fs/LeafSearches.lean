import Mathlib.Logic.Function.Basic
import Cosec.Fs.TreeShapes

/-!
# Storing a leaf in the inode table

`btree_set_leaf` fills the free slot with the lowest number.  The number of
the first slot of a node is `0` there, which its parent takes for a failure:
the search goes on, and the leaf stays where it was stored.
-/

namespace Cosec.Fs.LeafSearches

open Fs.InodeTree Fs.TreeShapes Function Lib.Word32 List

universe u

variable {Leaf : Type u}

/-! ## Searches and how they compose -/

/-- What the numbers of slots stand for, if their nodes exist. -/
abbrev Slots (Leaf : Type u) := Nat → Option (Slot Leaf)

/-- The lowest number of a free slot. -/
structure First (size : Nat) (slots : Slots Leaf) (n : Nat) : Prop where
  inside : n < size
  free : slots n = some .null
  least : ∀ j < n, slots j ≠ some .null

/--
What a search that begins at slot `base` returns and does to the slots: it
finds none, or it fills the first one, and loses track of it where the number
is a multiple of the fanout.
-/
def Search (fanout size base : Nat) (data : Leaf) (slots : Slots Leaf) (res : Nat)
    (later : Slots Leaf) : Prop :=
  (res = 0 ∨ res % fanout ≠ 0 ∧ res < base + size) ∧
    ((∀ n < size, slots n ≠ some .null) ∧ res = 0 ∧ later = slots ∨
      ∃ n, First size slots n ∧ (n % fanout = 0 → later n = some (.leaf data)) ∧
        (n % fanout ≠ 0 → res = base + n ∧ later = update slots n (some (.leaf data))))

/-- Slots behind the slots of the first `size` numbers. -/
def join (size : Nat) (near far : Slots Leaf) : Slots Leaf :=
  fun n => if n < size then near n else far (n - size)

variable {fanout level base size more res n : Nat} {data : Leaf}
  {near far nearLater farLater : Slots Leaf}

theorem join_far : join size near far (size + n) = far n := by
  rw [join, if_neg (by omega), Nat.add_sub_cancel_left]

theorem First.join (first : First size near n) : First (size + more) (join size near far) n := by
  obtain ⟨inside, free, least⟩ := first
  exact ⟨by omega, by rwa [LeafSearches.join, if_pos inside], by grind [LeafSearches.join]⟩

/-- A search that goes on behind the first slots. -/
theorem Search.skip (whole : fanout ∣ size) (head : Search fanout size 0 data near 0 nearLater)
    (rest : Search fanout more (base + size) data far res farLater) :
    Search fanout (size + more) base data (join size near far) res
      (join size nearLater farLater) := by
  refine ⟨by grind [rest.1], ?_⟩
  rcases head.2 with ⟨full, -, rfl⟩ | ⟨n, first, lost, stored⟩
  · rcases rest.2 with ⟨restFull, rfl, rfl⟩ | ⟨n, ⟨inside, free, least⟩, lost, stored⟩
    · exact Or.inl ⟨by grind [join], rfl, rfl⟩
    · refine Or.inr ⟨size + n, ⟨by omega, join_far.trans free, by grind [join]⟩, ?_⟩
      obtain ⟨k, rfl⟩ := whole
      rw [Nat.mul_add_mod, join_far]
      refine ⟨lost, fun apart => ?_⟩
      obtain ⟨rfl, rfl⟩ := stored apart
      exact ⟨by omega, by grind [join, update_apply]⟩
  · refine Or.inr ⟨n, first.join, fun multiple => ?_, by grind [Nat.zero_mod]⟩
    rw [join, if_pos first.inside, lost multiple]

/-- A search that ends among the first slots. -/
theorem Search.take (whole : fanout ∣ base) (head : Search fanout size 0 data near res nearLater)
    (positive : 0 < res) :
    Search fanout (size + more) base data (join size near far) (base + res)
      (join size nearLater far) := by
  refine ⟨Or.inr ?_, ?_⟩
  · obtain ⟨k, rfl⟩ := whole
    rw [Nat.mul_add_mod]
    grind [head.1]
  · rcases head.2 with ⟨-, zero, -⟩ | ⟨n, first, lost, stored⟩
    · omega
    · refine Or.inr ⟨n, first.join, fun multiple => ?_, fun apart => ?_⟩
      · rw [join, if_pos first.inside, lost multiple]
      · obtain ⟨rfl, rfl⟩ := stored apart
        have := first.inside
        exact ⟨by omega, by grind [join, update_apply]⟩

/-! ## The search of a tree -/

variable {slot : Slot Leaf} {children : List (Slot Leaf)}

/-- The loop over the slots of a leaf node fills the first that is free. -/
theorem fillFirst_cases (data : Leaf) (children : List (Slot Leaf)) :
    (∀ child ∈ children, child ≠ .null) ∧ fillFirst data children = none ∨
      ∃ n, First children.length (children[·]?) n ∧
        fillFirst data children = some (n, children.set n (.leaf data)) := by
  induction children with
  | nil => exact Or.inl ⟨by simp, rfl⟩
  | cons first rest ih =>
    cases first with
    | null => exact Or.inr ⟨0, ⟨by simp, rfl, by simp⟩, rfl⟩
    | leaf | node =>
      rcases ih with ⟨noneFree, filled⟩ | ⟨n, ⟨inside, free, least⟩, filled⟩
      · exact Or.inl ⟨by simpa using noneFree, by simp [fillFirst, filled]⟩
      · refine Or.inr ⟨n + 1, ⟨by simpa using inside, free, ?_⟩, by simp [fillFirst, filled]⟩
        rintro (_ | j) below
        · simp
        · exact least j (by omega)

/-- `btree_set_leaf` returns, keeps a tree well-formed and searches it. -/
def Searched (fanout level : Nat) (data : Leaf) (slot : Slot Leaf) : Prop :=
  ∃ res changed, setLeaf data slot = some (res, changed) ∧ WellFormed fanout level changed ∧
    Search fanout (fanout ^ (level + 1)) 0 data (slotAt fanout level slot) res
      (slotAt fanout level changed)

theorem searched_flat (shape : WellFormed fanout 0 slot) : Searched fanout 0 data slot := by
  cases shape with
  | @intro children length below =>
    unfold Searched
    rw [setLeaf, zero_add, pow_one]
    rcases fillFirst_cases data children with ⟨noneFree, filled⟩ | ⟨n, first, filled⟩
    · refine ⟨0, _, by rw [filled, ite_self], .intro length below, Or.inl rfl, Or.inl ?_⟩
      exact ⟨fun n _ isFree => noneFree _ (mem_of_getElem? isFree) rfl, rfl, rfl⟩
    · have ⟨inside, free, _⟩ := first
      have room : occupied children < children.length := by
        refine Nat.lt_of_le_of_ne countP_le_length fun all => ?_
        cases countP_eq_length.mp all _ (mem_of_getElem? free)
      have count : occupied (children.set n (.leaf data)) = occupied children + 1 := by
        unfold occupied
        rw [countP_set inside, (List.getElem?_eq_some_iff.mp free).2]
        rfl
      have filledBelow :
          ∀ child ∈ children.set n (.leaf data), child = .null ∨ ∃ data, child = .leaf data := by
        intro child member
        rcases mem_or_eq_of_mem_set member with old | rfl
        · exact below child old
        · exact Or.inr ⟨data, rfl⟩
      have shape := @NodeOf.intro _ fanout 0 _ _ (length_set.trans length) filledBelow
      rw [count] at shape
      rw [length] at first
      have digit := Nat.mod_eq_of_lt first.inside
      refine ⟨n, _, by rw [if_pos room, filled], shape, by omega, Or.inr ⟨n, first, ?_⟩⟩
      have slots :
          slotAt fanout 0 (.node 0 (occupied children + 1) (children.set n (.leaf data))) =
            update (children[·]?) n (some (.leaf data)) := by
        funext j
        simp [slotAt, getElem?_set, update_apply, eq_comm, inside]
      rw [slots]
      exact ⟨fun _ => update_self .., fun _ => ⟨(zero_add n).symm, rfl⟩⟩

/-- The slots below a node are those of its first child and then those of the others. -/
theorem slotAt_cons {child : Slot Leaf} {rest : List (Slot Leaf)} {lvl used : Nat}
    (positive : 0 < fanout ^ (level + 1)) :
    slotAt fanout (level + 1) (.node lvl used (child :: rest)) =
      join (fanout ^ (level + 1)) (slotAt fanout level child)
        (slotAt fanout (level + 1) (.node lvl used rest)) := by
  funext index
  rcases Nat.lt_or_ge index (fanout ^ (level + 1)) with inside | beyond
  · simp [slotAt, join, inside, Nat.div_eq_of_lt, Nat.mod_eq_of_lt]
  · obtain ⟨more, rfl⟩ := Nat.exists_eq_add_of_le beyond
    simp [join_far, slotAt, Nat.add_div_left, positive]

/-- The loop over the children from number `i` on. -/
theorem searched_below {i : Nat} (isSize : size = fanout ^ (level + 1)) (positive : 0 < size)
    (whole : fanout ∣ size) (small : size < 2147483648)
    (capacity : (i + children.length) * size < 4294967296)
    (below : ∀ child ∈ children, child = .null ∨ WellFormed fanout level child)
    (search : ∀ child, WellFormed fanout level child → Searched fanout level data child) :
    ∃ res searched, setLeafBelow data size i children = some (res, searched) ∧
      searched.length = children.length ∧ occupied searched = occupied children ∧
      (∀ child ∈ searched, child = .null ∨ WellFormed fanout level child) ∧
      Search fanout (children.length * size) (i * size) data
        (slotAt fanout (level + 1) (.node 0 0 children)) res
        (slotAt fanout (level + 1) (.node 0 0 searched)) := by
  induction children generalizing i with
  | nil => exact ⟨0, [], rfl, rfl, rfl, below, Or.inl rfl, Or.inl ⟨by simp, rfl, rfl⟩⟩
  | cons child rest ih =>
    rw [length_cons, Nat.add_mul, Nat.succ_mul] at capacity
    obtain ⟨here, restBelow⟩ := forall_mem_cons.mp below
    obtain ⟨later, searched, loop, length, count, good, searching⟩ :=
      @ih (i + 1) (by rw [Nat.add_mul, Nat.succ_mul]; omega) restBelow
    rw [Nat.succ_mul] at searching
    subst isSize
    simp only [length_cons, Nat.succ_mul, Nat.add_comm _ (fanout ^ (level + 1)),
      slotAt_cons positive]
    rcases here with rfl | shape
    · refine ⟨later, .null :: searched, by simp only [setLeafBelow, loop], by simp [length], count,
        forall_mem_cons.mpr ⟨Or.inl rfl, good⟩, ?_⟩
      rw [slotAt_cons positive]
      exact .skip whole ⟨Or.inl rfl, Or.inl ⟨by simp [slotAt_null], rfl, rfl⟩⟩ searching
    · obtain ⟨res, changed, setting, kept, found⟩ := search child shape
      obtain ⟨_, rfl, _⟩ := shape.node
      obtain ⟨_, rfl, _⟩ := kept.node
      simp only [setLeafBelow, setting]
      rcases Nat.eq_zero_or_pos res with rfl | stored
      · rw [if_neg (by decide), loop]
        refine ⟨later, _, rfl, by simp [length], by simpa [occupied, isNull] using count,
          forall_mem_cons.mpr ⟨Or.inr kept, good⟩, ?_⟩
        rw [slotAt_cons positive]
        exact .skip whole found searching
      · have bound : res < fanout ^ (level + 1) := by grind [found.1]
        rw [if_pos (by rw [asInt32_of_lt (by omega)]; omega), wrap32_of_lt (by omega),
          Nat.add_comm res]
        refine ⟨_, _, rfl, rfl, by simp [occupied, isNull],
          forall_mem_cons.mpr ⟨Or.inr kept, restBelow⟩, ?_⟩
        rw [slotAt_cons positive]
        exact .take (Nat.dvd_mul_left_of_dvd whole i) found stored

/-- Every well-formed tree is searched, by induction on its level. -/
theorem searched_of_wellFormed (branches : 2 ≤ fanout) (shape : WellFormed fanout level slot)
    (capacity : fanout ^ (level + 1) < 4294967296) : Searched fanout level data slot := by
  induction level generalizing slot with
  | zero => exact searched_flat shape
  | succ level ih =>
    cases shape with
    | @intro children length below =>
      have positive : 0 < fanout ^ (level + 1) := Nat.pow_pos (by omega)
      rw [pow_succ] at capacity
      have twice := Nat.mul_le_mul_left (fanout ^ (level + 1)) branches
      obtain ⟨res, searched, loop, sameLength, count, good, searching⟩ :=
        @searched_below _ _ _ _ data children 0 rfl positive (Nat.dvd_mul_left ..) (by omega)
          (by rwa [zero_add, length, Nat.mul_comm]) below fun _ shape => ih shape (by omega)
      rw [length, Nat.zero_mul, ← pow_succ'] at searching
      exact ⟨res, .node (level + 1) (occupied children) searched,
        by rw [setLeaf, length, wrap32_of_lt (by omega), loop],
        count ▸ .intro (sameLength.trans length) good, searching⟩

/-! ## What `btree_get_index` finds afterwards -/

/-- An index stands for the slot with its number; where there is none, for null. -/
theorem getIndex_eq (shape : WellFormed fanout level slot) (branches : 2 ≤ fanout)
    (capacity : fanout ^ (level + 1) < 4294967296) (index : Nat) :
    getIndex slot index = some ((slotAt fanout level slot index).getD .null) := by
  obtain ⟨children, rfl, length⟩ := shape.node
  unfold getIndex
  dsimp only
  rw [length, wrap32_of_lt capacity]
  split
  · rename_i beyond
    cases level with
    | zero => rw [slotAt, getElem?_eq_none (by simpa [length] using beyond), Option.getD_none]
    | succ level =>
      have outside : children.length ≤ index / fanout ^ (level + 1) := by
        rwa [Nat.le_div_iff_mul_le (Nat.pow_pos (by omega)), length, ← pow_succ']
      rw [slotAt, getElem?_eq_none outside, Option.bind_none, Option.getD_none]
  · obtain ⟨_, found, isSlot, _⟩ := walk_eq shape (by omega) index
    rw [Nat.mod_eq_of_lt (by omega)] at found isSlot
    rw [found, isSlot]

/-- A tree whose capacity is a word and whose index zero is taken. -/
structure Table (Leaf : Type u) extends TreeShapes.Tree Leaf where
  capacity : fanout ^ (level + 1) < 4294967296
  taken : ∃ data, getIndex root 0 = some (.leaf data)

/-- The slot of a returned number was free and has the leaf; without one nothing changed. -/
def Stored (root : Slot Leaf) (data : Leaf) (res : Nat) (changed : Slot Leaf) : Prop :=
  (0 < res →
    getIndex root res = some .null ∧ getIndex changed res = some (.leaf data) ∧
      ∀ index ≠ res, getIndex changed index = getIndex root index) ∧
  (res = 0 → ∀ index, getIndex changed index = getIndex root index)

/-- A search is right exactly when the first free slot is not the first of its node. -/
theorem stored_iff (table : Table Leaf) (data : Leaf) :
    ∃ res changed, setLeaf data table.root = some (res, changed) ∧
      (Stored table.root data res changed ↔
        ∀ n, First (table.fanout ^ (table.level + 1))
            (slotAt table.fanout table.level table.root) n →
          n % table.fanout ≠ 0) := by
  obtain ⟨⟨fanout, level, root, branches, shape⟩, capacity, _⟩ := table
  obtain ⟨res, changed, setting, changedShape, returned, searching⟩ :=
    searched_of_wellFormed branches shape capacity
  refine ⟨res, changed, setting, ?_⟩
  unfold Stored
  simp only [getIndex_eq shape branches capacity, getIndex_eq changedShape branches capacity]
  rcases searching with ⟨full, rfl, same⟩ | ⟨n, first, lost, stored⟩
  · rw [same]
    simp only [Nat.lt_irrefl, false_implies, implies_true, true_and, true_iff]
    exact fun n first _ => full n first.inside first.free
  · have free := first.free
    by_cases multiple : n % fanout = 0
    · refine iff_of_false ?_ fun apart => apart n first multiple
      have := lost multiple
      grind
    · obtain ⟨rfl, same⟩ := stored multiple
      have positive : 0 + n ≠ 0 := by grind [Nat.zero_mod]
      refine iff_of_true ⟨fun _ => ?_, fun zero => absurd zero positive⟩ fun other otherFirst => ?_
      · simp +contextual [same, free]
      · rcases Nat.lt_trichotomy n other with before | rfl | behind
        · exact absurd free (otherFirst.least n before)
        · exact multiple
        · exact absurd otherFirst.free (first.least other behind)

/-- Behind a full child, the leaf goes to slot two of a tree of four, and zero is returned. -/
theorem search_reports_failure :
    ¬ ∀ (table : Table Nat) (data res : Nat) (changed : Slot Nat),
      setLeaf data table.root = some (res, changed) → Stored table.root data res changed := by
  intro stored
  have leaves : WellFormed 2 0 (.node 0 2 [.leaf 0, .leaf 1]) :=
    @NodeOf.intro Nat 2 0 _ [.leaf 0, .leaf 1] rfl (by simp)
  have empty : WellFormed 2 0 (.node 0 0 [.null, .null]) :=
    @NodeOf.intro Nat 2 0 _ [.null, .null] rfl (by simp)
  have shape := @NodeOf.intro Nat 2 1 (WellFormed 2 0) [_, _] rfl
    (forall_mem_cons.mpr ⟨Or.inr leaves, forall_mem_singleton.mpr (Or.inr empty)⟩)
  have small : 2 ^ 2 < 4294967296 := by decide
  have same := (stored ⟨⟨2, 1, _, Nat.le_refl 2, shape⟩, small, 0, rfl⟩ 5 0 _ rfl).2 rfl 2
  cases same

end Cosec.Fs.LeafSearches
