import Mathlib.Data.List.Chain
import Mathlib.Data.List.Nodup
import Mathlib.Data.List.Pairwise
import Mathlib.Order.Defs.LinearOrder

/-!
# Layouts of an allocation area

The area of an allocator is cut into blocks that follow each other without a
gap: a block ends where the next one starts, and the last block only closes
the area.  A `Layout` is the list of the blocks in address order, each with
its used mark.

`Tiling` is the invariant of a layout and `Accounts` relates it to the
allocations its clients hold.  Allocation marks a free block and may cut its
rest off; release clears a mark and joins the block with its free neighbours.
-/

namespace Cosec.Mem.BlockLayout

open List

/-- A block of the area: the address of its header and its used mark. -/
structure Block where
  addr : Nat
  used : Bool
deriving DecidableEq, Repr

abbrev Layout := List Block

/-- The addresses of a layout in order. -/
def Layout.addrs (layout : Layout) : List Nat := layout.map Block.addr

@[simp]
theorem Layout.addrs_append (before after : Layout) :
    Layout.addrs (before ++ after) = Layout.addrs before ++ Layout.addrs after :=
  map_append

@[simp]
theorem Layout.addrs_cons (block : Block) (after : Layout) :
    Layout.addrs (block :: after) = block.addr :: Layout.addrs after :=
  rfl

variable {block : Block}

theorem Layout.mem_addrs {layout : Layout} (member : block ∈ layout) :
    block.addr ∈ Layout.addrs layout :=
  mem_map_of_mem member

/-- Two blocks of which at least one is used. -/
def Separated (left right : Block) : Prop := left.used = true ∨ right.used = true

/--
The blocks ascend on the grid of chunk addresses from `first` to the used
block at `closing`.
-/
structure Ordered (first closing : Nat) (layout : Layout) : Prop where
  increasing : layout.Pairwise fun left right => left.addr < right.addr
  onGrid : ∀ block ∈ layout, block.addr % 16 = 4
  starts : (Layout.addrs layout).head? = some first
  closes : layout.getLast? = some ⟨closing, true⟩

/-- An ordered layout without free neighbours. -/
structure Tiling (first closing : Nat) (layout : Layout) : Prop
    extends Ordered first closing layout where
  separated : layout.IsChain Separated

variable {first closing addr : Nat} {layout before after edited : Layout} {left right : Block}

/-! ## Positions in a layout -/

section Ordered

variable (ordered : Ordered first closing layout)

include ordered

theorem Ordered.nodup : (Layout.addrs layout).Nodup :=
  (pairwise_map.mpr ordered.increasing).imp ne_of_lt

/-- Blocks at one address are the same block. -/
theorem Ordered.block_unique (leftMember : left ∈ layout) (rightMember : right ∈ layout)
    (sameAddr : left.addr = right.addr) : left = right :=
  inj_on_of_nodup_map ordered.nodup leftMember rightMember sameAddr

theorem Ordered.closing_mem : ⟨closing, true⟩ ∈ layout :=
  mem_of_getLast? ordered.closes

theorem Ordered.not_used_of_free (free : ⟨addr, false⟩ ∈ layout) : ⟨addr, true⟩ ∉ layout := by
  intro used
  have clash := ordered.block_unique free used rfl
  simp at clash

theorem Ordered.addr_le_closing (member : block ∈ layout) : block.addr ≤ closing := by
  obtain ⟨front, rfl⟩ := getLast?_eq_some_iff.mp ordered.closes
  rcases mem_append.mp member with inFront | isLast
  · exact le_of_lt
      ((pairwise_append.mp ordered.increasing).2.2 block inFront ⟨closing, true⟩ (by simp))
  · rw [mem_singleton.mp isLast]

theorem Ordered.first_le_addr (member : block ∈ layout) : first ≤ block.addr := by
  cases layout with
  | nil => cases member
  | cons head rest =>
    have headAddr : head.addr = first := by simpa using ordered.starts
    rcases mem_cons.mp member with rfl | later
    · exact le_of_eq headAddr.symm
    · rw [← headAddr]
      exact le_of_lt ((pairwise_cons.mp ordered.increasing).1 block later)

theorem Ordered.exists_successor (member : block ∈ layout) (notClosing : block.addr ≠ closing) :
    ∃ before following after, layout = before ++ block :: following :: after := by
  obtain ⟨before, rest, rfl⟩ := append_of_mem member
  cases rest with
  | nil =>
    have isClosing : block = ⟨closing, true⟩ := by simpa using ordered.closes
    exact absurd (congrArg Block.addr isClosing) notClosing
  | cons following after => exact ⟨before, following, after, rfl⟩

theorem Ordered.of_addrs (sublist : (Layout.addrs edited).Sublist (Layout.addrs layout))
    (starts : (Layout.addrs edited).head? = (Layout.addrs layout).head?)
    (closes : edited.getLast? = layout.getLast?) : Ordered first closing edited where
  increasing := pairwise_map.mp ((pairwise_map.mpr ordered.increasing).sublist sublist)
  onGrid := by
    intro block member
    have kept := sublist.subset (Layout.mem_addrs member)
    obtain ⟨original, originalMember, sameAddr⟩ := mem_map.mp kept
    rw [← sameAddr]
    exact ordered.onGrid original originalMember
  starts := starts.trans ordered.starts
  closes := closes.trans ordered.closes

end Ordered

/-- The other blocks of a layout have other addresses. -/
theorem Ordered.addr_ne
    {used : Bool} (ordered : Ordered first closing (before ++ ⟨addr, used⟩ :: after))
    (member : block ∈ before ++ after) : block.addr ≠ addr := by
  intro same
  have nodup := ordered.nodup
  simp only [Layout.addrs_append, Layout.addrs_cons] at nodup
  have apart := (nodup_cons.mp (nodup_middle.mp nodup)).1
  rw [← same, ← Layout.addrs_append] at apart
  exact apart (Layout.mem_addrs member)

theorem Tiling.free_successor
    (tiling : Tiling first closing layout) (member : ⟨addr, false⟩ ∈ layout) :
    ∃ before following after, layout = before ++ ⟨addr, false⟩ :: ⟨following, true⟩ :: after := by
  have notClosing : addr ≠ closing := by
    intro same
    subst same
    exact tiling.not_used_of_free member tiling.closing_mem
  obtain ⟨before, following, after, split⟩ := tiling.exists_successor member notClosing
  have separated := tiling.separated
  rw [split] at separated
  have neighbours := (isChain_append_cons_cons.mp separated).2.1
  rcases neighbours with impossible | followingUsed
  · simp at impossible
  · refine ⟨before, following.addr, after, ?_⟩
    rw [split, ← followingUsed]

theorem Ordered.around (ordered : Ordered first closing (before ++ left :: right :: after)) :
    (∀ block ∈ before, block.addr < left.addr) ∧ left.addr < right.addr ∧
      ∀ block ∈ after, right.addr < block.addr := by
  obtain ⟨_, fromLeft, across⟩ := pairwise_append.mp ordered.increasing
  obtain ⟨aboveLeft, fromRight⟩ := pairwise_cons.mp fromLeft
  refine ⟨?_, aboveLeft right (by simp), ?_⟩
  · intro block member
    exact across block member left (by simp)
  · exact (pairwise_cons.mp fromRight).1

theorem Ordered.neighbours_adjacent
    (ordered : Ordered first closing (before ++ left :: right :: after))
    (member : block ∈ before ++ left :: right :: after) :
    block.addr ≤ left.addr ∨ right.addr ≤ block.addr := by
  obtain ⟨belowLeft, _, aboveRight⟩ := ordered.around
  simp only [mem_append, mem_cons] at member
  rcases member with inBefore | rfl | rfl | inAfter
  · exact Or.inl (le_of_lt (belowLeft block inBefore))
  · exact Or.inl (le_refl _)
  · exact Or.inr (le_refl _)
  · exact Or.inr (le_of_lt (aboveRight block inAfter))

theorem Ordered.mark {old new : Bool} {following : Block}
    (ordered : Ordered first closing (before ++ ⟨addr, old⟩ :: following :: after)) :
    Ordered first closing (before ++ ⟨addr, new⟩ :: following :: after) := by
  apply ordered.of_addrs
  · simp
  · simp
  · simp [getLast?_append, getLast?_cons]

/-- Joining two neighbours, neither of them the last block. -/
theorem Ordered.join {middle : Block}
    (ordered : Ordered first closing (before ++ left :: middle :: right :: after)) :
    Ordered first closing (before ++ left :: right :: after) := by
  apply ordered.of_addrs
  · simp
  · simp [head?_append]
  · simp [getLast?_append, getLast?_cons]

/-- Cutting a block in two at a grid address. -/
theorem Ordered.cut
    {used : Bool} (ordered : Ordered first closing (before ++ left :: right :: after))
    (aboveLeft : left.addr < addr) (belowRight : addr < right.addr) (grid : addr % 16 = 4) :
    Ordered first closing (before ++ left :: ⟨addr, used⟩ :: right :: after) where
  increasing := by
    have adjacent :
        ∀ block ∈ before ++ left :: right :: after,
          block.addr ≤ left.addr ∨ right.addr ≤ block.addr :=
      fun block member => ordered.neighbours_adjacent member
    have increasing := ordered.increasing
    simp only [pairwise_append, pairwise_cons, mem_cons, mem_append] at increasing adjacent ⊢
    obtain ⟨beforeIncreasing, ⟨fromLeft, fromRight, afterIncreasing⟩, across⟩ := increasing
    refine ⟨beforeIncreasing, ⟨?_, ?_, fromRight, afterIncreasing⟩, ?_⟩
    · rintro block (rfl | later)
      · exact aboveLeft
      · exact fromLeft block later
    · rintro block (rfl | later)
      · exact belowRight
      · exact lt_trans belowRight (fromRight block later)
    · rintro earlier inBefore block (rfl | rfl | later)
      · exact across earlier inBefore block (Or.inl rfl)
      · exact lt_trans (across earlier inBefore left (Or.inl rfl)) aboveLeft
      · exact across earlier inBefore block (Or.inr later)
  onGrid := by
    intro block member
    simp only [mem_append, mem_cons] at member
    rcases member with inBefore | rfl | rfl | later
    · exact ordered.onGrid block (by simp [inBefore])
    · exact ordered.onGrid block (by simp)
    · exact grid
    · exact ordered.onGrid block (by simp [later])
  starts := by
    have starts := ordered.starts
    simpa [head?_append] using starts
  closes := by
    have closes := ordered.closes
    simpa [getLast?_append, getLast?_cons] using closes

variable {following : Nat}

section

variable (tiling : Tiling first closing (before ++ ⟨addr, false⟩ :: ⟨following, true⟩ :: after))

include tiling

/-- Allocation of a whole free block. -/
theorem Tiling.take :
    Tiling first closing (before ++ ⟨addr, true⟩ :: ⟨following, true⟩ :: after) where
  toOrdered := tiling.toOrdered.mark
  separated := by
    have separated := tiling.separated
    rw [isChain_append_cons_cons] at separated ⊢
    obtain ⟨toAddr, _, fromFollowing⟩ := separated
    refine ⟨?_, Or.inl rfl, fromFollowing⟩
    rw [isChain_append] at toAddr ⊢
    refine ⟨toAddr.1, List.IsChain.singleton _, ?_⟩
    intro last _ block isAddr
    simp only [head?_cons, Option.mem_def, Option.some.injEq] at isAddr
    subst isAddr
    exact Or.inr rfl

/-- Allocation of the front of a free block. -/
theorem Tiling.takeFront {rest : Nat}
    (aboveAddr : addr < rest) (belowFollowing : rest < following) (grid : rest % 16 = 4) :
    Tiling first closing
      (before ++ ⟨addr, true⟩ :: ⟨rest, false⟩ :: ⟨following, true⟩ :: after) where
  toOrdered := tiling.take.toOrdered.cut aboveAddr belowFollowing grid
  separated := by
    have separated := tiling.take.separated
    rw [isChain_append_cons_cons] at separated ⊢
    obtain ⟨toAddr, _, fromFollowing⟩ := separated
    exact ⟨toAddr, Or.inl rfl, isChain_cons_cons.mpr ⟨Or.inr rfl, fromFollowing⟩⟩

end

/-- Whether the last block of a layout is free. -/
def endsFree (layout : Layout) : Bool := match layout.getLast? with
  | some block => !block.used
  | none => false

/-- A layout without its first block when that block is free. -/
def dropFree : Layout → Layout
  | ⟨_, false⟩ :: rest => rest
  | layout => layout

/-- Release of the block at `addr` between `before` and `after`. -/
def release (before : Layout) (addr : Nat) (after : Layout) : Layout :=
  if endsFree before then before ++ dropFree after
  else before ++ ⟨addr, false⟩ :: dropFree after

section

variable (tiling : Tiling first closing (before ++ ⟨addr, true⟩ :: after))
  (notClosing : addr ≠ closing)

include tiling notClosing

/-- Clearing a mark and joining the block with a free successor. -/
theorem Tiling.releaseRight :
    ∃ following rest,
      dropFree after = ⟨following, true⟩ :: rest ∧
        Ordered first closing (before ++ ⟨addr, false⟩ :: ⟨following, true⟩ :: rest) ∧
        List.IsChain Separated (⟨following, true⟩ :: rest) := by
  have closes := tiling.closes
  have separated := (isChain_split.mp tiling.separated).2
  match after with
  | [] =>
    have isClosing : (⟨addr, true⟩ : Block) = ⟨closing, true⟩ := by simpa using closes
    exact absurd (congrArg Block.addr isClosing) notClosing
  | ⟨following, true⟩ :: rest =>
    exact ⟨following, rest, rfl, tiling.toOrdered.mark, (isChain_cons_cons.mp separated).2⟩
  | [⟨absorbed, false⟩] => simp [getLast?_append] at closes
  | ⟨absorbed, false⟩ :: ⟨following, mark⟩ :: rest =>
    have fromAbsorbed := (isChain_cons_cons.mp separated).2
    obtain ⟨neighbours, fromFollowing⟩ := isChain_cons_cons.mp fromAbsorbed
    have followingUsed : mark = true := by
      rcases neighbours with impossible | used
      · simp at impossible
      · exact used
    subst followingUsed
    exact ⟨following, rest, rfl, tiling.toOrdered.mark.join, fromFollowing⟩

theorem Tiling.release : Tiling first closing (release before addr after) := by
  obtain ⟨following, rest, dropped, ordered, fromFollowing⟩ := tiling.releaseRight notClosing
  have toAddr := (isChain_split.mp tiling.separated).1
  have beforeSeparated := toAddr.left_of_append
  unfold BlockLayout.release
  rw [dropped]
  rcases eq_nil_or_concat' before with rfl | ⟨front, last, rfl⟩
  · exact
      { toOrdered := ordered
        separated := isChain_cons_cons.mpr ⟨Or.inr rfl, fromFollowing⟩ }
  · obtain ⟨lastAddr, lastUsed⟩ := last
    cases lastUsed with
    | false =>
      have ends : endsFree (front ++ [⟨lastAddr, false⟩]) = true := by simp [endsFree]
      rw [if_pos ends]
      simp only [append_assoc, cons_append, nil_append] at ordered ⊢
      exact
        { toOrdered := ordered.join
          separated :=
            isChain_append_cons_cons.mpr ⟨beforeSeparated, Or.inr rfl, fromFollowing⟩ }
    | true =>
      have ends : ¬ endsFree (front ++ [⟨lastAddr, true⟩]) = true := by simp [endsFree]
      rw [if_neg ends]
      refine { toOrdered := ordered, separated := ?_ }
      simp only [append_assoc, cons_append, nil_append]
      refine isChain_append_cons_cons.mpr ⟨beforeSeparated, Or.inl rfl, ?_⟩
      exact isChain_cons_cons.mpr ⟨Or.inr rfl, fromFollowing⟩

end

/-- A pointer handed out and the number of bytes asked for. -/
structure Allocation where
  pointer : Nat
  size : Nat
deriving DecidableEq, Repr

/--
The allocations held are exactly the used blocks before the closing one: each
pointer is the data of its own block, twelve bytes behind the header, and the
bytes asked for end at or before the next block.
-/
structure Accounts (closing : Nat) (layout : Layout) (live : List Allocation) : Prop where
  distinct : (live.map Allocation.pointer).Nodup
  backed :
    ∀ allocation ∈ live,
      ∃ addr,
        allocation.pointer = addr + 12 ∧ addr ≠ closing ∧ ⟨addr, true⟩ ∈ layout ∧
          ∀ other ∈ layout, addr < other.addr → allocation.pointer + allocation.size ≤ other.addr
  covered : ∀ addr, addr ≠ closing → ⟨addr, true⟩ ∈ layout → addr + 12 ∈ live.map Allocation.pointer

variable {live : List Allocation} {size : Nat}

/--
A block becomes used.  A block that is new to the layout lies behind an old
one, so it does not cut into the bytes of an earlier allocation.
-/
theorem Accounts.allocate (accounts : Accounts closing layout live)
    (closes : ⟨closing, true⟩ ∈ layout) (wasFree : ⟨addr, true⟩ ∉ layout)
    (usedIff : ∀ block, ⟨block, true⟩ ∈ edited ↔ ⟨block, true⟩ ∈ layout ∨ block = addr)
    (room : ∀ other ∈ edited, other.addr ≤ addr ∨ addr + 12 + size ≤ other.addr)
    (behind :
      ∀ other ∈ edited, ∀ block,
        ⟨block, true⟩ ∈ layout → block < other.addr →
          ∃ old ∈ layout, block < old.addr ∧ old.addr ≤ other.addr) :
    Accounts closing edited (⟨addr + 12, size⟩ :: live) where
  distinct := by
    refine nodup_cons.mpr ⟨?_, accounts.distinct⟩
    intro repeated
    obtain ⟨allocation, held, samePointer⟩ := mem_map.mp repeated
    obtain ⟨block, pointerEq, _, used, _⟩ := accounts.backed allocation held
    have sameBlock : block = addr := by
      simp only at samePointer
      omega
    exact wasFree (sameBlock ▸ used)
  backed := by
    intro allocation held
    rcases mem_cons.mp held with rfl | older
    · refine ⟨addr, rfl, ?_, (usedIff addr).mpr (Or.inr rfl), fun other member above => ?_⟩
      · rintro rfl
        exact wasFree closes
      · exact (room other member).resolve_left (not_le.mpr above)
    · obtain ⟨block, pointerEq, blockNotClosing, used, ends⟩ := accounts.backed allocation older
      refine ⟨block, pointerEq, blockNotClosing, (usedIff block).mpr (Or.inl used), ?_⟩
      intro other member above
      obtain ⟨old, oldMember, oldAbove, oldBelow⟩ := behind other member block used above
      exact le_trans (ends old oldMember oldAbove) oldBelow
  covered := by
    intro block blockNotClosing used
    rcases (usedIff block).mp used with old | rfl
    · exact mem_cons_of_mem _ (accounts.covered block blockNotClosing old)
    · exact mem_cons_self

/-- The allocations left after one pointer was given back. -/
def forget (live : List Allocation) (pointer : Nat) : List Allocation :=
  live.filter fun allocation => allocation.pointer ≠ pointer

theorem mem_forget {pointer : Nat} {allocation : Allocation} :
    allocation ∈ forget live pointer ↔ allocation ∈ live ∧ allocation.pointer ≠ pointer := by
  simp [forget]

/-- A used block is cleared and no address is added. -/
theorem Accounts.deallocate (accounts : Accounts closing layout live)
    (usedIff : ∀ block, ⟨block, true⟩ ∈ edited ↔ ⟨block, true⟩ ∈ layout ∧ block ≠ addr)
    (noNewAddr : ∀ other ∈ edited, ∃ old ∈ layout, old.addr = other.addr) :
    Accounts closing edited (forget live (addr + 12)) where
  distinct := accounts.distinct.sublist (filter_sublist.map Allocation.pointer)
  backed := by
    intro allocation held
    obtain ⟨older, notFreed⟩ := mem_forget.mp held
    obtain ⟨block, pointerEq, notClosing, used, ends⟩ := accounts.backed allocation older
    have otherBlock : block ≠ addr := by omega
    refine ⟨block, pointerEq, notClosing, (usedIff block).mpr ⟨used, otherBlock⟩, ?_⟩
    intro other member above
    obtain ⟨old, oldMember, sameAddr⟩ := noNewAddr other member
    rw [← sameAddr] at above ⊢
    exact ends old oldMember above
  covered := by
    intro block notClosing used
    obtain ⟨oldUsed, otherBlock⟩ := (usedIff block).mp used
    obtain ⟨allocation, held, pointerEq⟩ :=
      mem_map.mp (accounts.covered block notClosing oldUsed)
    refine mem_map.mpr ⟨allocation, ?_, pointerEq⟩
    exact mem_forget.mpr ⟨held, by omega⟩

/-- An allocation is recorded with another size its block can hold. -/
theorem Accounts.resize {allocation : Allocation} (accounts : Accounts closing layout live)
    (held : allocation ∈ live)
    (room :
      ∀ other ∈ layout,
        allocation.pointer < other.addr + 12 → allocation.pointer + size ≤ other.addr) :
    Accounts closing layout (⟨allocation.pointer, size⟩ :: forget live allocation.pointer) where
  distinct := by
    refine nodup_cons.mpr ⟨?_, ?_⟩
    · intro repeated
      obtain ⟨other, kept, samePointer⟩ := mem_map.mp repeated
      exact (mem_forget.mp kept).2 samePointer
    · exact accounts.distinct.sublist (filter_sublist.map Allocation.pointer)
  backed := by
    intro other kept
    rcases mem_cons.mp kept with rfl | older
    · obtain ⟨addr, pointerEq, notClosing, used, _⟩ := accounts.backed allocation held
      refine ⟨addr, pointerEq, notClosing, used, ?_⟩
      intro block member above
      exact room block member (by omega)
    · exact accounts.backed other (mem_forget.mp older).1
  covered := by
    intro addr notClosing used
    have listed := accounts.covered addr notClosing used
    obtain ⟨other, otherHeld, pointerEq⟩ := mem_map.mp listed
    by_cases same : other.pointer = allocation.pointer
    · rw [← pointerEq, same]
      exact mem_cons_self
    · rw [← pointerEq]
      exact mem_cons_of_mem _ (mem_map_of_mem (mem_forget.mpr ⟨otherHeld, same⟩))

/-! ## The accounts after each operation -/

theorem mem_dropFree (member : block ∈ dropFree after) : block ∈ after := by
  match after with
  | [] => exact member
  | ⟨_, true⟩ :: _ => exact member
  | ⟨_, false⟩ :: _ => exact mem_cons_of_mem _ member

theorem used_mem_dropFree_iff : ⟨addr, true⟩ ∈ dropFree after ↔ ⟨addr, true⟩ ∈ after := by
  match after with
  | [] => rfl
  | ⟨_, true⟩ :: _ => rfl
  | ⟨_, false⟩ :: _ => simp [dropFree]

theorem used_mem_mark_iff {block : Nat} :
    ⟨block, true⟩ ∈ before ++ ⟨addr, true⟩ :: after ↔
      ⟨block, true⟩ ∈ before ++ ⟨addr, false⟩ :: after ∨ block = addr := by
  simp only [mem_append, mem_cons, Block.mk.injEq, and_true, and_false, false_or, reduceCtorEq]
  tauto

theorem mem_mark_addr
    {old new : Bool} {other : Block} (member : other ∈ before ++ ⟨addr, new⟩ :: after) :
    ∃ block ∈ before ++ ⟨addr, old⟩ :: after, block.addr = other.addr := by
  rcases mem_append.mp member with inBefore | inRest
  · exact ⟨other, mem_append_left _ inBefore, rfl⟩
  · rcases mem_cons.mp inRest with rfl | inAfter
    · exact ⟨⟨addr, old⟩, by simp, rfl⟩
    · exact ⟨other, by simp [inAfter], rfl⟩

section

variable (accounts : Accounts closing (before ++ ⟨addr, false⟩ :: ⟨following, true⟩ :: after) live)
  (tiling : Tiling first closing (before ++ ⟨addr, false⟩ :: ⟨following, true⟩ :: after))

include accounts tiling

/-- The accounts after a whole free block was taken. -/
theorem Accounts.take (enough : addr + 12 + size ≤ following) :
    Accounts closing (before ++ ⟨addr, true⟩ :: ⟨following, true⟩ :: after)
      (⟨addr + 12, size⟩ :: live) := by
  have wasFree : ⟨addr, true⟩ ∉ before ++ ⟨addr, false⟩ :: ⟨following, true⟩ :: after :=
    tiling.not_used_of_free (by simp)
  apply accounts.allocate tiling.closing_mem wasFree
  · exact fun block => used_mem_mark_iff
  · exact fun other member => (tiling.take.neighbours_adjacent member).imp_right (le_trans enough)
  · intro other member block used above
    obtain ⟨old, oldMember, sameAddr⟩ := mem_mark_addr member
    exact ⟨old, oldMember, by omega, by omega⟩

theorem Accounts.takeFront {rest : Nat}
    (enough : addr + 12 + size ≤ rest) (belowFollowing : rest < following) (grid : rest % 16 = 4) :
    Accounts closing (before ++ ⟨addr, true⟩ :: ⟨rest, false⟩ :: ⟨following, true⟩ :: after)
      (⟨addr + 12, size⟩ :: live) := by
  have tiled := tiling.takeFront (by omega) belowFollowing grid
  have wasFree : ⟨addr, true⟩ ∉ before ++ ⟨addr, false⟩ :: ⟨following, true⟩ :: after :=
    tiling.not_used_of_free (by simp)
  apply accounts.allocate tiling.closing_mem wasFree
  · intro block
    rw [← used_mem_mark_iff]
    simp
  · exact fun other member => (tiled.neighbours_adjacent member).imp_right (le_trans enough)
  · intro other member block used above
    by_cases fresh : other = ⟨rest, false⟩
    · subst fresh
      have notAddr : block ≠ addr := fun same => wasFree (same ▸ used)
      rcases tiling.neighbours_adjacent used with below | beyond
      · exact ⟨⟨addr, false⟩, by simp, lt_of_le_of_ne below notAddr, by simp only; omega⟩
      · simp only at above beyond
        omega
    · have kept : other ∈ before ++ ⟨addr, true⟩ :: ⟨following, true⟩ :: after := by
        simp only [mem_append, mem_cons, fresh, false_or] at member ⊢
        exact member
      obtain ⟨old, oldMember, sameAddr⟩ := mem_mark_addr kept
      exact ⟨old, oldMember, by omega, by omega⟩

end

theorem Accounts.release (accounts : Accounts closing (before ++ ⟨addr, true⟩ :: after) live)
    (tiling : Tiling first closing (before ++ ⟨addr, true⟩ :: after)) :
    Accounts closing (release before addr after) (forget live (addr + 12)) := by
  have unique (block : Nat) (member : ⟨block, true⟩ ∈ before ∨ ⟨block, true⟩ ∈ after) :
      block ≠ addr :=
    tiling.addr_ne (mem_append.mpr member)
  apply accounts.deallocate
  · intro block
    have released :
        ⟨block, true⟩ ∈ BlockLayout.release before addr after ↔
          ⟨block, true⟩ ∈ before ∨ ⟨block, true⟩ ∈ after := by
      unfold BlockLayout.release
      split <;> simp [used_mem_dropFree_iff]
    have apart := unique block
    simp only [mem_append, mem_cons, Block.mk.injEq, and_true]
    tauto
  · intro other member
    unfold BlockLayout.release at member
    split at member
    · rcases mem_append.mp member with inBefore | inAfter
      · exact ⟨other, mem_append_left _ inBefore, rfl⟩
      · exact ⟨other, by simp [mem_dropFree inAfter], rfl⟩
    · have marked : ∃ block ∈ before ++ ⟨addr, true⟩ :: dropFree after, block.addr = other.addr :=
        mem_mark_addr member
      obtain ⟨old, oldMember, sameAddr⟩ := marked
      rcases mem_append.mp oldMember with inBefore | inRest
      · exact ⟨old, mem_append_left _ inBefore, sameAddr⟩
      · rcases mem_cons.mp inRest with rfl | inAfter
        · exact ⟨_, by simp, sameAddr⟩
        · exact ⟨old, by simp [mem_dropFree inAfter], sameAddr⟩

/-- With nothing allocated the area is one free block. -/
theorem Accounts.idle (accounts : Accounts closing layout []) (tiling : Tiling first closing layout)
    (room : first < closing) : layout = [⟨first, false⟩, ⟨closing, true⟩] := by
  have onlyClosing : ∀ block ∈ layout, block.used = true → block.addr = closing := by
    intro block member used
    by_contra notClosing
    have held := accounts.covered block.addr notClosing (by rw [← used]; exact member)
    simp at held
  have starts := tiling.starts
  have closes := tiling.closes
  have separated := tiling.separated
  have increasing := tiling.increasing
  match layout with
  | [] => simp at closes
  | [single] =>
    simp at starts closes
    subst closes
    simp at starts
    omega
  | head :: second :: rest =>
    obtain ⟨headAddr, headUsed⟩ := head
    have headIsFirst : headAddr = first := by simpa using starts
    subst headIsFirst
    have headFree : headUsed = false := by
      by_contra used
      have atClosing := onlyClosing ⟨headAddr, headUsed⟩ (by simp) (by simpa using used)
      simp only at atClosing
      omega
    subst headFree
    have secondUsed : second.used = true := by
      rcases (isChain_cons_cons.mp separated).1 with wrong | used
      · simp at wrong
      · exact used
    have secondClosing := onlyClosing second (by simp) secondUsed
    have isSecond : second = ⟨closing, true⟩ := by rw [← secondClosing, ← secondUsed]
    have noRest : rest = [] := by
      rw [eq_nil_iff_forall_not_mem]
      intro block member
      have above := (pairwise_cons.mp (pairwise_cons.mp increasing).2).1 block member
      have below :=
        tiling.addr_le_closing (mem_cons_of_mem _ (mem_cons_of_mem _ member))
      omega
    rw [isSecond, noRest]

end Cosec.Mem.BlockLayout
