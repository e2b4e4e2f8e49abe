import Cosec.Lib.LinkedRing
import Cosec.Mem.BlockLayout
import Cosec.Mem.FirstFit

/-!
# Chunk headers in memory

Chunk headers lie on a grid of sixteen bytes, so different headers never
share a word.  Every operation on a header is described by the header it
leaves behind at each grid address.

`Represents` connects memory with a layout of the heap area: the links of the
chunks form the ring of the blocks, and every checksum carries the mark of
its block.  Marking a chunk, absorbing a free chunk and cutting one off are
followed here from memory to layout.
-/

namespace Cosec.Mem.ChunkHeaders

open Lib.LinkedRing Lib.Word32 Mem.BlockLayout Mem.FirstFit

/-! ## Headers -/

/-- The three words of a chunk header. -/
@[ext]
structure Header where
  next : Nat
  prev : Nat
  checksum : Nat

/-- The header in memory at a chunk address. -/
def header (memory : Memory) (chunk : Nat) : Header where
  next := next memory chunk
  prev := prev memory chunk
  checksum := checksum memory chunk

/-- The checksum word for a successor and a mark. -/
def markedSum (chunk following : Nat) (used : Bool) : Nat :=
  wrap32 (following + chunk) % usedBit + if used then usedBit else 0

theorem usedBit_le_markedSum_iff (chunk following : Nat) (used : Bool) :
    usedBit ≤ markedSum chunk following used ↔ used = true := by
  have below : wrap32 (following + chunk) % usedBit < usedBit := Nat.mod_lt _ (by decide)
  cases used with
  | false => simp [markedSum, below]
  | true => simp [markedSum]

variable {memory memory' : Memory} {chunk other : Nat}

section Writes

variable (onGrid : chunk % 16 = 4) (otherOnGrid : other % 16 = 4)

include onGrid otherOnGrid

/-- A store into one header changes no other. -/
theorem header_store {word value : Nat} {changed : Header} (inside : word < 16)
    (here : header (store memory (chunk + word) value) chunk = changed) :
    header (store memory (chunk + word) value) other =
      if other = chunk then changed else header memory other := by
  split
  · rename_i same
    rw [same, here]
  · have apart : other ≠ chunk + word ∧ other + 4 ≠ chunk + word ∧ other + 8 ≠ chunk + word := by
      omega
    simp [header, next, prev, checksum, store, apart]

theorem header_store_next (value : Nat) :
    header (store memory chunk value) other =
      if other = chunk then { header memory chunk with next := value } else header memory other :=
  header_store onGrid otherOnGrid (show 0 < 16 by decide)
    (by simp [header, next, prev, checksum, store])

theorem header_store_prev (value : Nat) :
    header (store memory (chunk + 4) value) other =
      if other = chunk then { header memory chunk with prev := value } else header memory other :=
  header_store onGrid otherOnGrid (by decide) (by simp [header, next, prev, checksum, store])

theorem header_store_checksum (value : Nat) :
    header (store memory (chunk + 8) value) other =
      if other = chunk then { header memory chunk with checksum := value }
      else header memory other :=
  header_store onGrid otherOnGrid (by decide) (by simp [header, next, prev, checksum, store])

theorem header_marked (used : Bool) :
    header (if used then setUsed memory chunk else setFree memory chunk) other =
      if other = chunk then
        { header memory chunk with
          checksum := markedSum chunk (next memory chunk) used }
      else header memory other := by
  cases used with
  | true => exact header_store_checksum onGrid otherOnGrid _
  | false => exact header_store_checksum onGrid otherOnGrid _

theorem header_setChunk (following previous : Nat) (used : Bool) :
    header (setChunk memory chunk following previous used) other = if other = chunk then
        ⟨following, previous, markedSum chunk following used⟩
      else header memory other := by
  have linked (grid : Nat) (gridOn : grid % 16 = 4) :
      header (store (store memory chunk following) (chunk + 4) previous) grid = if grid = chunk then
          ⟨following, previous, checksum memory chunk⟩
        else header memory grid := by
    rw [header_store_prev onGrid gridOn, header_store_next onGrid onGrid,
      header_store_next onGrid gridOn]
    split <;> simp [header]
  have nextLinked :
      next (store (store memory chunk following) (chunk + 4) previous) chunk = following := by
    have atChunk := congrArg Header.next (linked chunk onGrid)
    simpa [header] using atChunk
  rw [setChunk, header_marked onGrid otherOnGrid, nextLinked,
    linked chunk onGrid, linked other otherOnGrid]
  split <;> simp

theorem header_setNext (following : Nat) :
    header (setNext memory chunk following) other = if other = chunk then
        ⟨following, prev memory chunk, markedSum chunk following (isUsed memory chunk)⟩
      else header memory other := by
  have linked (grid : Nat) (gridOn : grid % 16 = 4) :
      header (store memory chunk following) grid =
        if grid = chunk then { header memory chunk with next := following }
        else header memory grid :=
    header_store_next onGrid gridOn following
  have atChunk :
      header (store memory chunk following) chunk =
        { header memory chunk with next := following } := by
    simpa using linked chunk onGrid
  have nextLinked : next (store memory chunk following) chunk = following :=
    congrArg Header.next atChunk
  have sumKept : checksum (store memory chunk following) chunk = checksum memory chunk :=
    congrArg Header.checksum atChunk
  have markKept : isUsed (store memory chunk following) chunk = isUsed memory chunk := by
    simp only [isUsed, sumKept]
  rw [setNext, markKept, header_marked onGrid otherOnGrid, nextLinked,
    linked chunk onGrid, linked other otherOnGrid]
  split <;> simp [header]

end Writes

/-! ## Memory and layout -/

/-- Memory holds the chunks of a layout. -/
structure Represents (memory : Memory) (layout : Layout) : Prop where
  ring : Circular (next memory) (prev memory) (Layout.addrs layout)
  sums :
    ∀ block ∈ layout,
      checksum memory block.addr = markedSum block.addr (next memory block.addr) block.used

variable {layout before after : Layout} {first closing : Nat}

theorem Represents.isUsed
    (represents : Represents memory layout) {block : Block} (member : block ∈ layout) :
    isUsed memory block.addr = block.used := by
  unfold FirstFit.isUsed
  rw [represents.sums block member]
  simp [usedBit_le_markedSum_iff]

theorem Represents.checkSum
    (represents : Represents memory layout) {block : Block} (member : block ∈ layout) :
    checkSum memory block.addr = true := by
  unfold FirstFit.checkSum
  rw [represents.sums block member, Nat.add_comm block.addr]
  cases block.used <;> simp [markedSum]

theorem Represents.neighbours {left right : Nat} {leftUsed rightUsed : Bool}
    (represents : Represents memory (before ++ ⟨left, leftUsed⟩ :: ⟨right, rightUsed⟩ :: after)) :
    next memory left = right ∧ prev memory right = left := by
  have ring := represents.ring
  simp only [Layout.addrs_append, Layout.addrs_cons] at ring
  exact ring.neighbours

theorem circular_congr (ring : Circular (next memory) (prev memory) (Layout.addrs layout))
    (kept : ∀ block ∈ layout, next memory' block.addr = next memory block.addr ∧
      prev memory' block.addr = prev memory block.addr) :
    Circular (next memory') (prev memory') (Layout.addrs layout) :=
  ring.congr (List.forall_mem_map.mpr fun block inside => (kept block inside).1)
    (List.forall_mem_map.mpr fun block inside => (kept block inside).2)

/-- A layout stays represented while its headers stay the same. -/
theorem Represents.congr (represents : Represents memory layout)
    (kept : ∀ block ∈ layout, header memory' block.addr = header memory block.addr) :
    Represents memory' layout where
  ring := circular_congr represents.ring fun block inside =>
    ⟨congrArg Header.next (kept block inside), congrArg Header.prev (kept block inside)⟩
  sums := by
    intro block member
    have sumKept := congrArg Header.checksum (kept block member)
    have nextKept := congrArg Header.next (kept block member)
    simp only [header] at sumKept nextKept
    rw [sumKept, nextKept]
    exact represents.sums block member

theorem Represents.mark
    {old new : Bool} (represents : Represents memory (before ++ ⟨chunk, old⟩ :: after))
    (ordered : Ordered first closing (before ++ ⟨chunk, old⟩ :: after))
    (marked : ∀ other, other % 16 = 4 → header memory' other = if other = chunk then
            { header memory chunk with
              checksum := markedSum chunk (next memory chunk) new }
          else header memory other) :
    Represents memory' (before ++ ⟨chunk, new⟩ :: after) := by
  have grid (block : Block) (member : block ∈ before ++ ⟨chunk, new⟩ :: after) :
      block.addr % 16 = 4 := by
    obtain ⟨original, inside, same⟩ :
        ∃ original ∈ before ++ ⟨chunk, old⟩ :: after, original.addr = block.addr :=
      mem_mark_addr member
    rw [← same]
    exact ordered.onGrid original inside
  have linksKept (block : Block) (member : block ∈ before ++ ⟨chunk, new⟩ :: after) :
      next memory' block.addr = next memory block.addr ∧
        prev memory' block.addr = prev memory block.addr := by
    have written := marked block.addr (grid block member)
    have nextWritten := congrArg Header.next written
    have prevWritten := congrArg Header.prev written
    simp only [header] at nextWritten prevWritten
    rw [nextWritten, prevWritten]
    split <;> simp_all
  constructor
  · have ring := represents.ring
    have sameAddrs :
        Layout.addrs (before ++ ⟨chunk, old⟩ :: after) =
          Layout.addrs (before ++ ⟨chunk, new⟩ :: after) := by
      simp
    rw [sameAddrs] at ring
    exact circular_congr ring linksKept
  · intro block member
    rw [(linksKept block member).1]
    have written := congrArg Header.checksum (marked block.addr (grid block member))
    have away (inside : block ∈ before ++ after) :
        checksum memory' block.addr = markedSum block.addr (next memory block.addr) block.used := by
      rw [if_neg (ordered.addr_ne inside)] at written
      simp only [header] at written
      rw [written]
      apply represents.sums
      simp only [List.mem_append, List.mem_cons] at inside ⊢
      tauto
    rcases List.mem_append.mp member with inBefore | inRest
    · exact away (List.mem_append_left _ inBefore)
    · rcases List.mem_cons.mp inRest with rfl | inAfter
      · simpa [header] using written
      · exact away (List.mem_append_right _ inAfter)

theorem Represents.markUsed {old : Bool} {behind : Block}
    (represents : Represents memory (before ++ ⟨chunk, old⟩ :: behind :: after))
    (ordered : Ordered first closing (before ++ ⟨chunk, old⟩ :: behind :: after)) :
    Represents (setUsed memory chunk) (before ++ ⟨chunk, true⟩ :: behind :: after) ∧
      next (setUsed memory chunk) chunk = behind.addr := by
  have chunkGrid : chunk % 16 = 4 := ordered.onGrid ⟨chunk, old⟩ (by simp)
  have marked := represents.mark ordered fun other grid => header_marked chunkGrid grid true
  exact ⟨marked, marked.neighbours.1⟩

theorem header_absorb
    {left middle right : Nat} (leftGrid : left % 16 = 4) (middleGrid : middle % 16 = 4)
    (rightGrid : right % 16 = 4) (otherGrid : other % 16 = 4) (leftRight : left ≠ right)
    (notMiddle : other ≠ middle) :
    header (absorb memory left middle right) other =
      if other = right then { header memory right with prev := left } else if other = left then
        ⟨right, prev memory left, markedSum left right (FirstFit.isUsed memory left)⟩
      else header memory other := by
  unfold absorb erase setPrev
  rw [header_store_checksum middleGrid otherGrid, if_neg notMiddle,
    header_store_prev rightGrid otherGrid, header_setNext leftGrid rightGrid,
    if_neg leftRight.symm, header_setNext leftGrid otherGrid]

theorem Represents.header_absorb {left middle right block : Block}
    (represents : Represents memory (before ++ left :: middle :: right :: after))
    (ordered : Ordered first closing (before ++ left :: middle :: right :: after))
    (member : block ∈ before ++ left :: right :: after) :
    let absorbed := FirstFit.absorb memory left.addr middle.addr right.addr
    next absorbed block.addr =
        (if block.addr = left.addr then right.addr else next memory block.addr) ∧
      prev absorbed block.addr =
        (if block.addr = right.addr then left.addr else prev memory block.addr) ∧
      checksum absorbed block.addr =
        if block.addr = left.addr then markedSum left.addr right.addr left.used
        else checksum memory block.addr := by
  obtain ⟨_, leftRight, _⟩ := ordered.join.around
  have aroundMiddle : Ordered first closing ((before ++ [left]) ++ middle :: right :: after) := by
    simpa using ordered
  have written :=
    @ChunkHeaders.header_absorb memory block.addr _ _ _ (ordered.onGrid left (by simp))
      (ordered.onGrid middle (by simp)) (ordered.onGrid right (by simp))
      (ordered.join.onGrid block member) (by omega) (aroundMiddle.addr_ne (by simpa using member))
  rw [represents.isUsed (by simp)] at written
  refine ⟨(congrArg Header.next written).trans ?_, (congrArg Header.prev written).trans ?_,
    (congrArg Header.checksum written).trans ?_⟩ <;> split_ifs <;> simp_all [header]

/-- A chunk takes over its successor. -/
theorem Represents.absorb {left middle right : Block}
    (represents : Represents memory (before ++ left :: middle :: right :: after))
    (ordered : Ordered first closing (before ++ left :: middle :: right :: after)) :
    Represents (absorb memory left.addr middle.addr right.addr)
      (before ++ left :: right :: after) := by
  have written (block : Block) (member : block ∈ before ++ left :: right :: after) :=
    represents.header_absorb ordered member
  constructor
  · have ring :
        Circular (next memory) (prev memory)
          (Layout.addrs before ++
            left.addr :: middle.addr :: right.addr :: Layout.addrs after) := by
      simpa using represents.ring
    rw [Layout.addrs_append, Layout.addrs_cons, Layout.addrs_cons]
    apply ring.remove
    · rw [(written left (by simp)).1, if_pos rfl]
    · rw [(written right (by simp)).2.1, if_pos rfl]
    · intro addr member
      rw [← Layout.addrs_cons, ← Layout.addrs_append] at member
      obtain ⟨block, inside, rfl⟩ := List.mem_map.mp member
      rw [(written block (by grind)).1, if_neg (ordered.join.addr_ne inside)]
    · intro addr member
      rw [← Layout.addrs_cons, ← Layout.addrs_append] at member
      obtain ⟨block, inside, rfl⟩ := List.mem_map.mp member
      have aroundRight : Ordered first closing ((before ++ [left]) ++ right :: after) := by
        simpa using ordered.join
      rw [(written block (by grind)).2.1, if_neg (aroundRight.addr_ne (by simpa using inside))]
  · intro block member
    rw [(written block member).2.2, (written block member).1]
    split_ifs with isLeft
    · have same : block = left := ordered.join.block_unique member (by simp) isLeft
      rw [same]
    · exact represents.sums block (by grind)

theorem mem_around {addr middle : Nat} :
    addr ∈ Layout.addrs before ++ middle :: Layout.addrs after ↔
      addr = middle ∨ ∃ block ∈ before ++ after, block.addr = addr := by
  simp only [Layout.addrs, List.mem_append, List.mem_cons, List.mem_map, or_and_right, exists_or]
  exact or_left_comm

section SplitChunk

variable {newChunk nextChunk : Nat} (chunkGrid : chunk % 16 = 4) (newGrid : newChunk % 16 = 4)
  (nextGrid : nextChunk % 16 = 4) (otherGrid : other % 16 = 4) (chunkNew : chunk ≠ newChunk)
  (newNext : newChunk ≠ nextChunk) (chunkNext : chunk ≠ nextChunk)

include chunkGrid newGrid nextGrid otherGrid chunkNew newNext chunkNext

theorem header_splitChunk :
    header (splitChunk memory chunk newChunk nextChunk) other = if other = chunk then
        ⟨newChunk, prev memory chunk, markedSum chunk newChunk true⟩
      else if other = nextChunk then
        ⟨next memory nextChunk, newChunk, markedSum nextChunk (next memory nextChunk) true⟩
      else if other = newChunk then
        ⟨nextChunk, chunk, markedSum newChunk nextChunk false⟩
      else header memory other := by
  have nextKept :
      next (setChunk memory newChunk nextChunk chunk false) nextChunk = next memory nextChunk := by
    refine (congrArg Header.next (header_setChunk newGrid nextGrid nextChunk chunk false)).trans ?_
    rw [if_neg newNext.symm]
    rfl
  have prevKept (following : Nat) :
      prev
          (setChunk (setChunk memory newChunk nextChunk chunk false)
            nextChunk following newChunk true) chunk = prev memory chunk := by
    refine (congrArg Header.prev
      (header_setChunk nextGrid chunkGrid following newChunk true)).trans ?_
    rw [if_neg chunkNext, header_setChunk newGrid chunkGrid, if_neg chunkNew]
    rfl
  simp only [splitChunk]
  rw [header_setChunk chunkGrid otherGrid, prevKept, header_setChunk nextGrid otherGrid, nextKept,
    header_setChunk newGrid otherGrid]

theorem links_splitChunk :
    next (splitChunk memory chunk newChunk nextChunk) other = (if other = chunk then newChunk
        else if other = newChunk then nextChunk else next memory other) ∧
      prev (splitChunk memory chunk newChunk nextChunk) other = if other = nextChunk then newChunk
        else if other = newChunk then chunk else prev memory other := by
  have written :=
    @header_splitChunk memory chunk other newChunk nextChunk chunkGrid
      newGrid nextGrid otherGrid chunkNew newNext chunkNext
  constructor
  · refine (congrArg Header.next written).trans ?_
    split_ifs <;> simp_all [header]
  · refine (congrArg Header.prev written).trans ?_
    split_ifs <;> simp_all [header]

end SplitChunk

section Split

variable {following fresh : Nat}
  (represents : Represents memory (before ++ ⟨chunk, false⟩ :: ⟨following, true⟩ :: after))
  (ordered : Ordered first closing (before ++ ⟨chunk, false⟩ :: ⟨following, true⟩ :: after))
  (aboveChunk : chunk < fresh) (belowFollowing : fresh < following) (freshGrid : fresh % 16 = 4)

include ordered aboveChunk belowFollowing

/-- The other chunks are none of the three that are written. -/
theorem addr_clear_of_split {block : Block} (member : block ∈ before ++ after) :
    block.addr % 16 = 4 ∧ block.addr ≠ chunk ∧ block.addr ≠ fresh ∧ block.addr ≠ following := by
  obtain ⟨belowChunk, chunkFollowing, aboveFollowing⟩ := ordered.around
  simp only at belowChunk chunkFollowing aboveFollowing
  refine ⟨ordered.onGrid block (by grind), ?_⟩
  rcases List.mem_append.mp member with inBefore | inAfter
  · have below := belowChunk block inBefore
    omega
  · have above := aboveFollowing block inAfter
    omega

include represents freshGrid

theorem Represents.split_ring :
    Circular (next (splitChunk memory chunk fresh following))
      (prev (splitChunk memory chunk fresh following))
      (Layout.addrs before ++ chunk :: fresh :: following :: Layout.addrs after) := by
  have chunkGrid : chunk % 16 = 4 := ordered.onGrid ⟨chunk, false⟩ (by simp)
  have followingGrid : following % 16 = 4 := ordered.onGrid ⟨following, true⟩ (by simp)
  have written (addr : Nat) (grid : addr % 16 = 4) :=
    @links_splitChunk memory _ _ _ _ chunkGrid freshGrid followingGrid grid (by omega)
      (ne_of_lt belowFollowing) (by omega)
  have ring :
      Circular (next memory) (prev memory)
        (Layout.addrs before ++ chunk :: following :: Layout.addrs after) := by
    simpa using represents.ring
  apply ring.insert
  · rw [(written chunk chunkGrid).1, if_pos rfl]
  · rw [(written fresh freshGrid).2, if_neg (by omega), if_pos rfl]
  · rw [(written fresh freshGrid).1, if_neg (by omega), if_pos rfl]
  · rw [(written following followingGrid).2, if_pos rfl]
  · intro addr member
    have clear : addr % 16 = 4 ∧ addr ≠ chunk ∧ addr ≠ fresh := by
      rcases mem_around.mp member with rfl | ⟨block, inside, rfl⟩
      · exact ⟨followingGrid, by omega, by omega⟩
      · obtain ⟨grid, notChunk, notFresh, _⟩ :=
          addr_clear_of_split ordered aboveChunk belowFollowing inside
        exact ⟨grid, notChunk, notFresh⟩
    rw [(written addr clear.1).1, if_neg clear.2.1, if_neg clear.2.2]
  · intro addr member
    have clear : addr % 16 = 4 ∧ addr ≠ following ∧ addr ≠ fresh := by
      rcases mem_around.mp member with rfl | ⟨block, inside, rfl⟩
      · exact ⟨chunkGrid, by omega, by omega⟩
      · obtain ⟨grid, _, notFresh, notFollowing⟩ :=
          addr_clear_of_split ordered aboveChunk belowFollowing inside
        exact ⟨grid, notFollowing, notFresh⟩
    rw [(written addr clear.1).2, if_neg clear.2.1, if_neg clear.2.2]

/-- A chunk is cut in two in front of a used chunk. -/
theorem Represents.split :
    Represents (splitChunk memory chunk fresh following)
      (before ++ ⟨chunk, true⟩ :: ⟨fresh, false⟩ :: ⟨following, true⟩ :: after) := by
  have cut :
      Ordered first closing
        (before ++ ⟨chunk, true⟩ :: ⟨fresh, false⟩ :: ⟨following, true⟩ :: after) :=
    ordered.mark.cut aboveChunk belowFollowing freshGrid
  have chunkGrid : chunk % 16 = 4 := ordered.onGrid ⟨chunk, false⟩ (by simp)
  have followingGrid : following % 16 = 4 := ordered.onGrid ⟨following, true⟩ (by simp)
  constructor
  · simp only [Layout.addrs_append, Layout.addrs_cons]
    exact represents.split_ring ordered aboveChunk belowFollowing freshGrid
  · intro block member
    have grid := cut.onGrid block member
    have written :=
      congrArg Header.checksum
        (@header_splitChunk memory chunk block.addr fresh following
          chunkGrid freshGrid followingGrid grid (by omega) (by omega) (by omega))
    rw [(links_splitChunk chunkGrid freshGrid followingGrid grid
      (by omega) (by omega) (by omega)).1]
    by_cases inside : block ∈ before ++ after
    · obtain ⟨_, notChunk, notFresh, notFollowing⟩ :=
        addr_clear_of_split ordered aboveChunk belowFollowing inside
      rw [if_neg notChunk, if_neg notFollowing, if_neg notFresh] at written
      rw [if_neg notChunk, if_neg notFresh]
      exact written.trans (represents.sums block (by grind))
    · have listed : block = ⟨chunk, true⟩ ∨ block = ⟨fresh, false⟩ ∨ block = ⟨following, true⟩ := by
        simp only [List.mem_append, List.mem_cons] at member inside
        tauto
      rcases listed with rfl | rfl | rfl
      · simpa [header] using written
      · simpa [header, ne_of_gt aboveChunk, ne_of_lt belowFollowing] using written
      · simpa [header, ne_of_gt (aboveChunk.trans belowFollowing),
          ne_of_gt belowFollowing] using written

end Split

end Cosec.Mem.ChunkHeaders
