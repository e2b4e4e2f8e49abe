import Mathlib.Logic.Equiv.Basic
import Cosec.Fs.BlockOwnership

/-!
# Blocks on pages of their own

The blocks of a file, its table and the pages that `kmem_alloc` will return
are the slots of this module.  A file is placed when its slots are on pages
of their own.  Getting a block moves a page from a request to the block or to
the table, and writing a block changes one page, so both keep a file placed
and leave the other blocks alone.
-/

namespace Cosec.Fs.PlacedBlocks

open Fs.BlockOwnership Fs.FileBlocks Lib.ByteArrays Lib.Word32

/-! ## Blocks as a write finds them -/

/-- A block of a file as a write finds it, `0` for a missing one. -/
def blockOf (memory : PageMemory) (file : RegFile) (index : Nat) : Nat :=
  if index < nDirectBlocks then file.directblock index
  else if file.indir1stBlock = 0 then 0
  else
    readWord memory.bytes (file.indir1stBlock + 4 * (index - nDirectBlocks))

/-- The byte of a file at an offset, if there is a block for it. -/
def fileByte (memory : PageMemory) (file : RegFile) (offset : Nat) : Option UInt8 :=
  let page := blockOf memory file (offset / 4096)
  if page = 0 then none else some (memory.bytes (page + offset % 4096))

/-- What may stand on a page: the table, a block, or a later request. -/
inductive Slot where
  | table
  | block (index : Nat)
  | request (number : Nat)
deriving DecidableEq

/-- The page of a slot, `0` for none. -/
def Slot.page (source : Nat → Nat) (memory : PageMemory) (file : RegFile) : Slot → Nat
  | .table => file.indir1stBlock
  | .block index => blockOf memory file index
  | .request number => source number

/-- The slots that matter up to a number of requests. -/
def Slot.Within (memory : PageMemory) (limit : Nat) : Slot → Prop
  | .table => True
  | .block index => index < 1036
  | .request number => memory.granted ≤ number ∧ number < limit

/--
The table, the blocks and the pages that `kmem_alloc` returns up to the
request `limit` are pages, and no two of them are the same.
-/
structure Placed
    (source : Nat → Nat) (limit : Nat) (memory : PageMemory) (file : RegFile) : Prop where
  pages :
    ∀ slot : Slot, slot.Within memory limit → slot.page source memory file ≠ 0 →
      slot.page source memory file % 4096 = 0 ∧ slot.page source memory file < 4294967296
  apart :
    ∀ left right : Slot, left.Within memory limit → right.Within memory limit →
      left.page source memory file ≠ 0 →
      left.page source memory file = right.page source memory file → left = right

section Placed

variable {source : Nat → Nat} {limit : Nat} {memory after : PageMemory} {file stored : RegFile}

/-- Slots that take over the pages of others. -/
theorem Placed.relabel (placed : Placed source limit memory file) (origin : Slot → Slot)
    (injective : Function.Injective origin)
    (within : ∀ slot : Slot, slot.Within after limit → (origin slot).Within memory limit)
    (same :
      ∀ slot : Slot, slot.Within after limit →
        slot.page source after stored = (origin slot).page source memory file) :
    Placed source limit after stored := by
  constructor
  · intro slot inside present
    rw [same slot inside] at present ⊢
    exact placed.pages _ (within slot inside) present
  · intro left right leftInside rightInside present equal
    rw [same left leftInside] at present
    rw [same left leftInside, same right rightInside] at equal
    apply injective
    exact placed.apart _ _ (within left leftInside) (within right rightInside) present equal

theorem Placed.take (placed : Placed source limit memory file) (place : Slot)
    (granted : after.granted = memory.granted + 1) (left : memory.granted < limit)
    (taken : place.page source after stored = source memory.granted)
    (others :
      ∀ slot : Slot, slot.Within after limit → slot ≠ place →
        slot.page source after stored = slot.page source memory file) :
    Placed source limit after stored := by
  have notNext : ∀ slot : Slot, slot.Within after limit → slot ≠ .request memory.granted := by
    rintro slot within rfl
    have lower := within.1
    omega
  apply placed.relabel (Equiv.swap place (.request memory.granted))
  · exact (Equiv.swap _ _).injective
  · intro slot within
    by_cases here : slot = place
    · rw [here, Equiv.swap_apply_left]
      exact ⟨le_rfl, left⟩
    · rw [Equiv.swap_apply_of_ne_of_ne here (notNext slot within)]
      cases slot with
      | table => trivial
      | block index => exact within
      | request number =>
        have lower := within.1
        exact ⟨by omega, within.2⟩
  · intro slot within
    by_cases here : slot = place
    · rw [here, Equiv.swap_apply_left]
      exact taken
    · rw [Equiv.swap_apply_of_ne_of_ne here (notNext slot within)]
      exact others slot within here

end Placed

/-! ## Getting a block -/

/-- The pages that are asked for to get a block. -/
def blockCost (memory : PageMemory) (file : RegFile) (index : Nat) : Nat :=
  (if 12 ≤ index ∧ file.indir1stBlock = 0 then 1 else 0) +
    if blockOf memory file index = 0 then 1 else 0

/-- What the search for a block leaves. -/
structure Obtained
    (source : Nat → Nat) (limit : Nat) (memory : PageMemory) (file : RegFile) (index : Nat)
    (found : Nat × RegFile × PageMemory) : Prop where
  placed : Placed source limit found.2.2 found.2.1
  granted : found.2.2.granted = memory.granted + blockCost memory file index
  here : blockOf found.2.2 found.2.1 index = found.1
  others :
    ∀ other < 1036, other ≠ index → blockOf found.2.2 found.2.1 other = blockOf memory file other
  answered :
    found.1 ≠ 0 ↔
      ∀ request, memory.granted ≤ request → request < found.2.2.granted → source request ≠ 0
  size : found.2.1.size = file.size
  rooted : found.2.1.indir1stBlock = 0 ↔ file.indir1stBlock = 0 ∧ index < 12
  kept :
    ∀ slot : Slot, slot.Within found.2.2 limit → slot ≠ .table →
      slot.page source found.2.2 found.2.1 ≠ 0 →
      ∀ offset < 4096,
        found.2.2.bytes (slot.page source found.2.2 found.2.1 + offset) =
          memory.bytes (slot.page source found.2.2 found.2.1 + offset)

section Obtained

variable {source : Nat → Nat} {limit : Nat} {memory : PageMemory} {file : RegFile} {index : Nat}

theorem blockOf_direct (direct : index < 12) : blockOf memory file index = file.directblock index :=
  if_pos direct

theorem blockOf_indirect (indirect : 12 ≤ index) (rooted : file.indir1stBlock ≠ 0) :
    blockOf memory file index = readWord memory.bytes (file.indir1stBlock + 4 * (index - 12)) := by
  rw [blockOf, if_neg (show ¬ index < nDirectBlocks from
    not_lt.mpr indirect), if_neg rooted]
  rfl

theorem blockOf_rootless (indirect : 12 ≤ index) (rootless : file.indir1stBlock = 0) :
    blockOf memory file index = 0 := by
  rw [blockOf, if_neg (show ¬ index < nDirectBlocks from
    not_lt.mpr indirect), if_pos rootless]

theorem rooted_of_present (present : blockOf memory file index ≠ 0) (indirect : 12 ≤ index) :
    file.indir1stBlock ≠ 0 :=
  fun rootless => present (blockOf_rootless indirect rootless)

/-- A block that is there is found, and nothing changes. -/
theorem blockByIndexOrNew_present
    (bounded : index < 1036) (present : blockOf memory file index ≠ 0) :
    blockByIndexOrNew source memory file index = (blockOf memory file index, file, memory) := by
  have rooted := rooted_of_present present
  unfold blockByIndexOrNew
  by_cases direct : index < 12
  · rw [if_pos (show index < nDirectBlocks from direct)]
    rw [blockOf_direct direct] at present ⊢
    rw [if_neg present]
  · have indirect : 12 ≤ index := not_lt.mp direct
    rw [if_neg (show ¬ index < nDirectBlocks from direct),
      if_pos (show index - nDirectBlocks < nIndblocks by unfold nDirectBlocks nIndblocks; omega),
      if_neg (rooted indirect)]
    rw [blockOf_indirect indirect (rooted indirect)] at present ⊢
    simp only
    rw [if_neg (show readWord _ (_ + 4 * (_ - nDirectBlocks)) ≠ 0 from present)]
    rfl

theorem Placed.obtained_present (placed : Placed source limit memory file) (bounded : index < 1036)
    (present : blockOf memory file index ≠ 0) :
    Obtained source limit memory file index (blockByIndexOrNew source memory file index) := by
  have rooted := rooted_of_present present
  have free : blockCost memory file index = 0 := by
    rw [blockCost, if_neg (fun needs => rooted needs.1 needs.2), if_neg present]
  rw [blockByIndexOrNew_present bounded present]
  constructor
  · exact placed
  · rw [free]
    rfl
  · rfl
  · intro other _ _
    rfl
  · simp only [ne_eq, present, not_false_iff, true_iff]
    omega
  · rfl
  · constructor
    · intro rootless
      refine ⟨rootless, ?_⟩
      by_contra direct
      exact rooted (not_lt.mp direct) rootless
    · exact And.left
  · intro slot _ _ _ offset _
    rfl

theorem Placed.obtained_take
    (placed : Placed source limit memory file) (missing : blockOf memory file index = 0)
    (reachable : 12 ≤ index → file.indir1stBlock ≠ 0) (left : memory.granted < limit)
    {after : PageMemory} {stored : RegFile} (granted : after.granted = memory.granted + 1)
    (here : blockOf after stored index = source memory.granted)
    (others :
      ∀ other < 1036, other ≠ index → blockOf after stored other = blockOf memory file other)
    (size : stored.size = file.size) (table : stored.indir1stBlock = file.indir1stBlock)
    (kept :
      Placed source limit after stored →
      ∀ slot : Slot, slot.Within after limit → slot ≠ .table → slot.page source after stored ≠ 0 →
        ∀ offset < 4096,
          after.bytes (slot.page source after stored + offset) =
            memory.bytes (slot.page source after stored + offset)) :
    Obtained source limit memory file index (source memory.granted, stored, after) := by
  have cost : blockCost memory file index = 1 := by
    rw [blockCost, if_neg (fun needs => reachable needs.1 needs.2), if_pos missing]
  have taken : Placed source limit after stored := by
    refine placed.take (.block index) granted left here ?_
    intro slot within different
    cases slot with
    | table => exact table
    | block other =>
      apply others other within
      rintro rfl
      exact different rfl
    | request number => rfl
  constructor
  · exact taken
  · rw [cost]
    exact granted
  · exact here
  · exact others
  · simp only [granted]
    refine ⟨?_, fun all => all _ le_rfl (Nat.lt_succ_self _)⟩
    intro given request lower upper
    rwa [show request = memory.granted by omega]
  · exact size
  · simp only [table]
    refine ⟨fun rootless => ⟨rootless, ?_⟩, And.left⟩
    by_contra direct
    exact reachable (not_lt.mp direct) rootless
  · exact kept taken

/-- Memory after a page was entered in the table. -/
def enterEntry (memory : PageMemory) (table index page : Nat) : PageMemory where
  bytes := copyIn memory.bytes (wrap32 (table + 4 * (index - 12))) (wordBytes page)
  granted := memory.granted + 1

theorem blockByIndexOrNew_entry
    (indirect : 12 ≤ index) (bounded : index < 1036) (rooted : file.indir1stBlock ≠ 0)
    (missing : blockOf memory file index = 0) :
    blockByIndexOrNew source memory file index =
      (source memory.granted, { file with blockCount := file.blockCount + 1 },
        enterEntry memory file.indir1stBlock index (source memory.granted)) := by
  unfold blockByIndexOrNew
  rw [blockOf_indirect indirect rooted] at missing
  rw [if_neg (show ¬ index < nDirectBlocks from
      not_lt.mpr indirect),
    if_pos (show index - nDirectBlocks < nIndblocks by unfold nDirectBlocks nIndblocks; omega),
    if_neg rooted]
  simp only [newBlock]
  rw [if_pos (show readWord _ (_ + 4 * (_ - nDirectBlocks)) = 0 from missing)]
  rfl

theorem Placed.obtained_entry
    (placed : Placed source limit memory file) (indirect : 12 ≤ index) (bounded : index < 1036)
    (rooted : file.indir1stBlock ≠ 0) (missing : blockOf memory file index = 0)
    (left : memory.granted < limit) :
    Obtained source limit memory file index (blockByIndexOrNew source memory file index) := by
  have grid := placed.pages .table trivial rooted
  have small : source memory.granted < 4294967296 := by
    by_cases null : source memory.granted = 0
    · omega
    · exact (placed.pages (.request memory.granted) ⟨le_rfl, left⟩ null).2
  rw [blockByIndexOrNew_entry indirect bounded rooted missing]
  refine placed.obtained_take missing (fun _ => rooted) left rfl ?_ ?_ rfl rfl ?_
  · refine (blockOf_indirect indirect rooted).trans ?_
    simp only [Slot.page] at grid
    rw [enterEntry, wrap32_of_lt (by omega)]
    exact readWord_copyIn (by omega) small
  · intro other otherBounded different
    by_cases direct : other < 12
    · rw [blockOf_direct direct, blockOf_direct direct]
    · have otherIndirect : 12 ≤ other := not_lt.mp direct
      refine (blockOf_indirect otherIndirect rooted).trans ?_
      rw [blockOf_indirect otherIndirect rooted]
      exact readWord_entered grid (by omega) (by omega) (by omega)
  · intro after slot within noTable present offset inside
    apply copyIn_otherPage grid (after.pages slot within present)
    · intro samePage
      apply noTable
      exact after.apart slot .table within trivial present samePage.symm
    · show _ + 4 ≤ _
      omega
    · exact inside

/-- The state after the page of the next request became the table. -/
def withTable (source : Nat → Nat) (memory : PageMemory) (file : RegFile) : RegFile :=
  { file with indir1stBlock := source memory.granted }

theorem blockByIndexOrNew_rootless
    (indirect : 12 ≤ index) (bounded : index < 1036) (rootless : file.indir1stBlock = 0)
    (given : source memory.granted ≠ 0) :
    blockByIndexOrNew source memory file index =
      blockByIndexOrNew source { memory with granted := memory.granted + 1 }
        (withTable source memory file) index := by
  have second : ¬ index < nDirectBlocks := not_lt.mpr indirect
  have third : index - nDirectBlocks < nIndblocks := by
    unfold nDirectBlocks nIndblocks
    omega
  have rooted : (withTable source memory file).indir1stBlock ≠ 0 := given
  unfold blockByIndexOrNew
  rw [if_neg second, if_neg second, if_pos third, if_pos third, if_pos rootless, if_neg rooted]
  rfl

theorem Placed.obtained_rootless
    (placed : Placed source limit memory file) (indirect : 12 ≤ index) (bounded : index < 1036)
    (rootless : file.indir1stBlock = 0) (given : source memory.granted ≠ 0)
    (zeros : ZeroPage memory.bytes (source memory.granted)) (left : memory.granted + 1 < limit) :
    Obtained source limit memory file index (blockByIndexOrNew source memory file index) := by
  have grid := placed.pages (.request memory.granted) ⟨le_rfl, by omega⟩ given
  have sameBlocks :
      ∀ other < 1036,
        blockOf { memory with granted := memory.granted + 1 } (withTable source memory file) other =
          blockOf memory file other :=
    by
      intro index small
      by_cases direct : index < 12
      · rw [blockOf_direct direct, blockOf_direct direct]
        rfl
      · have indirect : 12 ≤ index := not_lt.mp direct
        rw [blockOf_rootless indirect rootless, blockOf_indirect indirect given]
        exact readWord_zeroPage grid zeros (by omega)
  have tabled :
      Placed source limit { memory with granted := memory.granted + 1 }
        (withTable source memory file) := by
    refine placed.take .table rfl (by omega) rfl ?_
    intro slot within different
    cases slot with
    | table => exact absurd rfl different
    | block other => exact sameBlocks other within
    | request number => rfl
  have missing : blockOf memory file index = 0 := blockOf_rootless indirect rootless
  have cost : blockCost memory file index = 2 := by
    rw [blockCost, if_pos ⟨indirect, rootless⟩, if_pos missing]
  have entryMissing := (sameBlocks index bounded).trans missing
  have entryCost :
      blockCost { memory with granted := memory.granted + 1 }
        (withTable source memory file) index = 1 := by
    rw [blockCost, if_neg (fun needs => given needs.2), if_pos entryMissing]
  have entered := tabled.obtained_entry indirect bounded given entryMissing left
  rw [← blockByIndexOrNew_rootless indirect bounded rootless given] at entered
  have granted := entered.granted
  rw [entryCost] at granted
  constructor
  · exact entered.placed
  · rw [cost, granted]
  · exact entered.here
  · intro other otherBounded different
    rw [entered.others other otherBounded different]
    exact sameBlocks other otherBounded
  · rw [entered.answered]
    constructor
    · intro later request lower upper
      by_cases first : request = memory.granted
      · rw [first]
        exact given
      · exact later request (by show memory.granted + 1 ≤ _; omega) upper
    · intro all request lower upper
      exact all request (Nat.le_of_succ_le lower) upper
  · exact entered.size
  · rw [entered.rooted]
    constructor
    · rintro ⟨tableless, _⟩
      exact absurd tableless given
    · rintro ⟨_, direct⟩
      omega
  · exact entered.kept

/-- The page that becomes the table is there and holds zeros. -/
def TableReady (source : Nat → Nat) (memory : PageMemory) (request : Nat) : Prop :=
  source request ≠ 0 ∧ ZeroPage memory.bytes (source request)

theorem Placed.obtained (placed : Placed source limit memory file) (bounded : index < 1036)
    (budget : memory.granted + blockCost memory file index ≤ limit)
    (ready : 12 ≤ index → file.indir1stBlock = 0 → TableReady source memory memory.granted) :
    Obtained source limit memory file index (blockByIndexOrNew source memory file index) := by
  by_cases missing : blockOf memory file index = 0
  · unfold blockCost at budget
    rw [if_pos missing] at budget
    by_cases direct : index < 12
    · have here : file.directblock index = 0 := by
        rw [← blockOf_direct direct]
        exact missing
      unfold blockByIndexOrNew
      rw [if_pos (show index < nDirectBlocks from direct), if_pos here]
      refine placed.obtained_take missing (by omega) (by omega) rfl ?_ ?_ rfl rfl ?_
      · rw [blockOf_direct direct]
        exact if_pos rfl
      · intro other _ different
        simp only [blockOf, if_neg different]
      · intro _ slot _ _ _ offset _
        rfl
    · have indirect : 12 ≤ index := not_lt.mp direct
      by_cases rootless : file.indir1stBlock = 0
      · obtain ⟨given, zeros⟩ := ready indirect rootless
        rw [if_pos ⟨indirect, rootless⟩] at budget
        exact placed.obtained_rootless indirect bounded rootless given zeros (by omega)
      · exact placed.obtained_entry indirect bounded rootless missing (by omega)
  · exact placed.obtained_present bounded missing

end Obtained

/-! ## Writing a block -/

/-- Memory after bytes went to a page. -/
def storeAt (memory : PageMemory) (page offset : Nat) (bytes : List UInt8) : PageMemory :=
  { memory with
    bytes := copyIn memory.bytes (wrap32 (page + offset)) bytes }

section Stored

variable {source : Nat → Nat} {limit : Nat} {memory : PageMemory} {file : RegFile}
  {index offset : Nat} {bytes : List UInt8}

section

variable (placed : Placed source limit memory file) (bounded : index < 1036)
  (present : blockOf memory file index ≠ 0) (inPage : offset + bytes.length ≤ 4096)

include placed bounded present inPage

theorem Placed.blockOf_storeAt {other : Nat} (otherBounded : other < 1036) :
    blockOf (storeAt memory (blockOf memory file index) offset bytes) file other =
      blockOf memory file other := by
  by_cases direct : other < 12
  · rw [blockOf_direct direct, blockOf_direct direct]
  · have indirect : 12 ≤ other := not_lt.mp direct
    by_cases rootless : file.indir1stBlock = 0
    · rw [blockOf_rootless indirect rootless, blockOf_rootless indirect rootless]
    · have grid := placed.pages .table trivial rootless
      have pageGrid := placed.pages (.block index) bounded present
      rw [blockOf_indirect indirect rootless, blockOf_indirect indirect rootless]
      simp only [Slot.page] at grid
      apply readWord_congr
      · omega
      · intro position inside
        rw [Nat.add_assoc]
        apply copyIn_otherPage pageGrid grid _ inPage
        · omega
        · intro samePage
          have sameSlot := placed.apart (.block index) .table bounded trivial present samePage
          cases sameSlot

theorem Placed.stored :
    Placed source limit (storeAt memory (blockOf memory file index) offset bytes) file := by
  apply placed.relabel id Function.injective_id
  · intro slot within
    exact within
  · intro slot within
    cases slot with
    | table => rfl
    | block other => exact placed.blockOf_storeAt bounded present inPage within
    | request number => rfl

end

end Stored

/-- A block write that found its page. -/
structure Stepped
    (source : Nat → Nat) (limit : Nat) (transfer : Transfer)
    (offset : Nat) (bytes : List UInt8) (written : Transfer) : Prop where
  placed : Placed source limit written.memory written.file
  granted :
    written.memory.granted =
      transfer.memory.granted + blockCost transfer.memory transfer.file transfer.blkindex
  others :
    ∀ other < 1036, other ≠ transfer.blkindex →
      blockOf written.memory written.file other = blockOf transfer.memory transfer.file other
  size : written.file.size = transfer.file.size
  rooted : written.file.indir1stBlock = 0 ↔ transfer.file.indir1stBlock = 0 ∧ transfer.blkindex < 12
  kept :
    ∀ slot : Slot, slot.Within written.memory limit → slot ≠ .table →
      slot ≠ .block transfer.blkindex → slot.page source written.memory written.file ≠ 0 →
      ∀ position < 4096,
        written.memory.bytes (slot.page source written.memory written.file + position) =
          transfer.memory.bytes (slot.page source written.memory written.file + position)
  data :
    ∀ position, position < bytes.length →
      fileByte written.memory written.file (4096 * transfer.blkindex + offset + position) =
        bytes[position]?

theorem Obtained.stepped {source : Nat → Nat} {limit : Nat} {transfer : Transfer}
    {page : Nat} {file : RegFile} {memory : PageMemory}
    (obtained :
      Obtained source limit transfer.memory transfer.file transfer.blkindex (page, file, memory))
    (bounded : transfer.blkindex < 1036) (present : page ≠ 0) {offset : Nat} {bytes : List UInt8}
    (inPage : offset + bytes.length ≤ 4096) (nwrite blkindex : Nat) :
    Stepped source limit transfer offset bytes
      ⟨file, storeAt memory page offset bytes, nwrite, blkindex⟩ := by
  obtain rfl : blockOf memory file transfer.blkindex = page := obtained.here
  have placed : Placed source limit memory file := obtained.placed
  have after := placed.stored bounded present inPage
  have grid := placed.pages (.block transfer.blkindex) bounded present
  simp only [Slot.page] at grid
  have same :
      ∀ other < 1036,
        blockOf (storeAt memory (blockOf memory file transfer.blkindex) offset bytes) file other =
          blockOf memory file other :=
    fun _ small => placed.blockOf_storeAt bounded present inPage small
  constructor
  · exact after
  · exact obtained.granted
  · intro other otherBounded different
    rw [same other otherBounded]
    exact obtained.others other otherBounded different
  · exact obtained.size
  · exact obtained.rooted
  · intro slot within noTable different occupied position inside
    have samePage :
        slot.page source (storeAt memory (blockOf memory file transfer.blkindex) offset bytes)
            file = slot.page source memory file := by
      cases slot with
      | table => rfl
      | block other => exact same other within
      | request number => rfl
    have earlier : slot.Within memory limit := within
    rw [samePage] at occupied ⊢
    refine Eq.trans ?_ (obtained.kept slot earlier noTable occupied position inside)
    refine copyIn_otherPage grid (placed.pages slot within occupied) ?_ inPage inside
    intro shared
    apply different
    exact (placed.apart (.block transfer.blkindex) slot bounded within present shared).symm
  · intro position inside
    have block : (4096 * transfer.blkindex + offset + position) / 4096 = transfer.blkindex := by
      omega
    have within : (4096 * transfer.blkindex + offset + position) % 4096 = offset + position := by
      omega
    rw [fileByte, block, within, same _ bounded]
    rw [if_neg present, storeAt, wrap32_of_lt (by omega), ← Nat.add_assoc]
    simp only
    rw [copyIn_inside (by omega) inside, List.getElem?_eq_getElem inside]

theorem fileByte_congr {memory after : PageMemory} {file stored : RegFile} {offset : Nat}
    (same : blockOf after stored (offset / 4096) = blockOf memory file (offset / 4096))
    (kept :
      blockOf after stored (offset / 4096) ≠ 0 →
      after.bytes (blockOf after stored (offset / 4096) + offset % 4096) =
        memory.bytes (blockOf after stored (offset / 4096) + offset % 4096)) :
    fileByte after stored offset = fileByte memory file offset := by
  unfold fileByte
  simp only [← same]
  split
  · rfl
  · rename_i present
    rw [kept present]

/-- The bytes of the other blocks stay. -/
theorem Stepped.fileByte_kept {source : Nat → Nat} {limit : Nat} {transfer written : Transfer}
    {offset : Nat} {bytes : List UInt8}
    (stepped : Stepped source limit transfer offset bytes written) {position : Nat}
    (bounded : position / 4096 < 1036) (different : position / 4096 ≠ transfer.blkindex) :
    fileByte written.memory written.file position =
      fileByte transfer.memory transfer.file position := by
  apply fileByte_congr (stepped.others _ bounded different)
  intro present
  apply
    stepped.kept (.block (position / 4096)) bounded Slot.noConfusion _
      present _ (Nat.mod_lt _ (by omega))
  intro same
  exact different (Slot.block.inj same)

theorem writeBlock_outcome {source : Nat → Nat} {limit : Nat} {transfer written : Transfer}
    {offset : Nat} {bytes : List UInt8} {done : Bool}
    (obtained :
      Obtained source limit transfer.memory transfer.file transfer.blkindex
        (blockByIndexOrNew source transfer.memory transfer.file transfer.blkindex))
    (bounded : transfer.blkindex < 1036) (inPage : offset + bytes.length ≤ 4096)
    (stored : writeBlock source transfer offset bytes = (done, written)) :
    (done = true →
      Stepped source limit transfer offset bytes written ∧
        ∀ request, transfer.memory.granted ≤ request →
          request < written.memory.granted → source request ≠ 0) ∧
    (done = false →
      Obtained source limit transfer.memory transfer.file transfer.blkindex
          (0, written.file, written.memory) ∧ written.nwrite = transfer.nwrite) := by
  unfold writeBlock at stored
  cases found : blockByIndexOrNew source transfer.memory transfer.file transfer.blkindex with
  | mk page rest =>
    rw [found] at stored obtained
    simp only at stored
    by_cases null : page = 0
    · rw [if_pos null] at stored
      cases stored
      rw [null] at obtained
      exact ⟨nofun, fun _ => ⟨obtained, rfl⟩⟩
    · rw [if_neg null] at stored
      cases stored
      exact ⟨fun _ => ⟨obtained.stepped bounded null inPage _ _, obtained.answered.mp null⟩, nofun⟩

end Cosec.Fs.PlacedBlocks
