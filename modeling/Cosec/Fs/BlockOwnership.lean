import Mathlib.Data.Fintype.Basic
import Cosec.Fs.BlockWrites
import Cosec.Lib.Holdings
import Cosec.Lib.Transition

/-!
# Ownership of file blocks

Every page that a ramfs inode refers to should come from `pmem_alloc` and be
referred to from one place only: a direct block, the indirect block or an
entry of its table.

`kmem_alloc` translates the null answer of `pmem_alloc` to the address
`KERN_OFF`, and the page taken for an indirect table keeps its old contents,
which are then read as references.  Writes that find enough pages, and that
make a table only out of zeros, keep the references exclusive.
-/

namespace Cosec.Fs.BlockOwnership

open Fs.BlockWrites Fs.FileBlocks Function Lib.ByteArrays Lib.Holdings Lib.Transition Lib.Word32
open Libc.ErrorNumbers List

/-! ## Pages and their kernel addresses -/

export Mem.Layout (kernOff)

/-- `__va`. -/
def va (paddr : Nat) : Nat := wrap32 (paddr + kernOff)

/-- The physical pages that `pmem_alloc(1)` returns; no answer is null. -/
structure PageSupply extends Supply Nat where
  aligned : ∀ {request page : Nat}, answer request = some page → page % 4096 = 0
  nonzero : ∀ {request page : Nat}, answer request = some page → page ≠ 0
  inMemory : ∀ {request page : Nat}, answer request = some page → page < 4294967296

/-- `kmem_alloc(1)`, which does not look at the answer. -/
def kmemAlloc (supply : Supply Nat) (request : Nat) : Nat := va ((supply.answer request).getD 0)

theorem va_lt (page : Nat) : va page < 4294967296 := by
  unfold va wrap32
  omega

theorem va_injective
    {first second : Nat} (firstBound : first < 4294967296) (secondBound : second < 4294967296)
    (equal : va first = va second) : first = second := by
  unfold va wrap32 kernOff at equal
  omega

/-- The supply by kernel addresses. -/
def PageSupply.mapped (supply : PageSupply) : Supply Nat where
  answer request := (supply.answer request).map va
  distinct := by
    intro first second addr firstAnswer secondAnswer
    obtain ⟨firstPage, firstGiven, rfl⟩ := Option.map_eq_some_iff.mp firstAnswer
    obtain ⟨secondPage, secondGiven, same⟩ := Option.map_eq_some_iff.mp secondAnswer
    have samePage := va_injective (supply.inMemory secondGiven) (supply.inMemory firstGiven) same
    subst samePage
    exact supply.distinct firstGiven secondGiven

variable {supply : PageSupply}

theorem PageSupply.page_of_given {given addr : Nat} (granted : supply.mapped.Given given addr) :
    addr % 4096 = 0 ∧ addr < 4294967296 := by
  obtain ⟨request, _, answered⟩ := granted
  obtain ⟨page, pageGiven, rfl⟩ := Option.map_eq_some_iff.mp answered
  have aligned := supply.aligned pageGiven
  refine ⟨?_, va_lt page⟩
  unfold va wrap32 kernOff
  omega

/-! ## References -/

/-- The regular files by inode number, and kernel memory. -/
structure Disk where
  files : Nat → RegFile
  memory : PageMemory

/-- Where an inode refers to a page. -/
inductive Place where
  | direct (ino : Nat) (index : Fin 12)
  | indirect (ino : Nat)
  | entry (ino : Nat) (index : Fin 1024)
deriving DecidableEq

/-- The word at a place; a missing table has no references. -/
def word (disk : Disk) : Place → Nat
  | .direct ino index => (disk.files ino).directblock index
  | .indirect ino => (disk.files ino).indir1stBlock
  | .entry ino index =>
    if (disk.files ino).indir1stBlock = 0 then 0
    else
      readWord disk.memory.bytes ((disk.files ino).indir1stBlock + 4 * index)

/-- The page that a place refers to. -/
def references (disk : Disk) (place : Place) : Option Nat :=
  if word disk place = 0 then none else some (word disk place)

/-- The places of an inode that refer to data. -/
def dataPlaces (ino : Nat) : Finset Place :=
  Finset.univ.image (Place.direct ino) ∪ Finset.univ.image (Place.entry ino)

/-- References are exclusive, and `block_count` counts the data blocks. -/
structure Owned (supply : PageSupply) (disk : Disk) : Prop where
  exclusive : Exclusive supply.mapped disk.memory.granted (references disk)
  counted : ∀ ino, (disk.files ino).blockCount = heldCount (references disk) (dataPlaces ino)

variable {disk : Disk} {place : Place}

theorem references_eq_some {page : Nat} :
    references disk place = some page ↔ word disk place = page ∧ page ≠ 0 := by
  rw [references, Option.ite_none_left_eq_some, Option.some.injEq, and_comm]
  exact and_congr_right fun same => by rw [same]

theorem references_eq_none : references disk place = none ↔ word disk place = 0 := by
  rw [references]
  split
  · simpa
  · simpa

theorem references_of_word {other : Disk} {there : Place}
    (same : word disk place = word other there) :
    references disk place = references other there := by
  unfold references
  rw [same]

theorem Owned.page
    (owned : Owned supply disk) {page : Nat} (held : references disk place = some page) :
    page % 4096 = 0 ∧ page < 4294967296 :=
  PageSupply.page_of_given (owned.exclusive.given held)

variable {addr : Nat}

theorem readWord_congr {bytes others : Nat → UInt8} (bound : addr + 4 ≤ 4294967296)
    (agree : ∀ index < 4, bytes (addr + index) = others (addr + index)) :
    readWord bytes addr = readWord others addr := by
  unfold readWord
  rw [wrap32_of_lt (by omega), wrap32_of_lt (by omega),
    wrap32_of_lt (by omega), wrap32_of_lt (by omega),
    ← agree 1 (by omega), ← agree 2 (by omega), ← agree 3 (by omega)]
  have first := agree 0 (by omega)
  rw [Nat.add_zero] at first
  rw [first]

variable {bytes : Nat → UInt8}

/-- A word is read back as it was written. -/
theorem readWord_copyIn {value : Nat} (bound : addr + 4 ≤ 4294967296) (small : value < 4294967296) :
    readWord (copyIn bytes addr (wordBytes value)) addr = value := by
  have stored (index : Nat) (inside : index < 4) :
      copyIn bytes addr (wordBytes value) (addr + index) = (wordBytes value)[index] :=
    copyIn_inside bound inside
  have first := stored 0 (by omega)
  rw [Nat.add_zero] at first
  unfold readWord
  rw [wrap32_of_lt (by omega), wrap32_of_lt (by omega),
    wrap32_of_lt (by omega), wrap32_of_lt (by omega), first,
    stored 1 (by omega), stored 2 (by omega), stored 3 (by omega)]
  simp only [wordBytes, getElem_cons_zero, getElem_cons_succ, UInt8.toNat_ofNat']
  omega

variable {values : List UInt8} {other : Nat}

/-- A store into one page does not show in another. -/
theorem copyIn_otherPage {page offset index : Nat} (pageGrid : page % 4096 = 0 ∧ page < 4294967296)
    (otherGrid : other % 4096 = 0 ∧ other < 4294967296) (different : page ≠ other)
    (inPage : offset + values.length ≤ 4096) (inside : index < 4096) :
    copyIn bytes (wrap32 (page + offset)) values (other + index) = bytes (other + index) := by
  by_cases empty : values = []
  · subst empty
    simp [copyIn]
  · have positive : 0 < values.length := length_pos_iff.mpr empty
    rw [wrap32_of_lt (by omega)]
    apply copyIn_outside
    · omega
    · omega
    · omega

/-! ## Taking a page -/

/-- The disk after one inode and the memory were replaced. -/
def Disk.put (disk : Disk) (ino : Nat) (file : RegFile) (memory : PageMemory) : Disk where
  files := update disk.files ino file
  memory := memory

@[simp]
theorem Disk.put_files_self (disk : Disk) (ino : Nat) (file : RegFile) (memory : PageMemory) :
    (disk.put ino file memory).files ino = file := by
  simp [Disk.put]

variable {ino : Nat}

theorem Disk.put_files_of_ne (disk : Disk) (file : RegFile) (memory : PageMemory)
    (different : other ≠ ino) : (disk.put ino file memory).files other = disk.files other := by
  simp [Disk.put, different]

@[simp]
theorem Disk.put_memory (disk : Disk) (ino : Nat) (file : RegFile) (memory : PageMemory) :
    (disk.put ino file memory).memory = memory :=
  rfl

/-- The inode a place belongs to. -/
def Place.owner : Place → Nat
  | .direct ino _ => ino
  | .indirect ino => ino
  | .entry ino _ => ino

variable {file : RegFile} {memory : PageMemory}

/-- The places of the other inodes, as long as no byte changes. -/
theorem word_put_of_ne (different : place.owner ≠ ino)
    (sameBytes : memory.bytes = disk.memory.bytes) :
    word (disk.put ino file memory) place = word disk place := by
  have sameFile := Disk.put_files_of_ne disk file memory different
  cases place with
  | direct other index => exact congrArg (fun found => found.directblock index) sameFile
  | indirect other => exact congrArg RegFile.indir1stBlock sameFile
  | entry other index =>
    simp only [Place.owner] at sameFile
    simp only [word, sameFile, Disk.put_memory, sameBytes]

/-- A page becomes a direct block. -/
def Disk.takeDirect (disk : Disk) (ino index addr : Nat) : Disk :=
  disk.put ino
    { disk.files ino with
      directblock := fun other => if other = index then addr else (disk.files ino).directblock other
      blockCount := (disk.files ino).blockCount + 1 }
    { disk.memory with granted := disk.memory.granted + 1 }

/-- A page becomes the indirect table. -/
def Disk.takeTable (disk : Disk) (ino addr : Nat) : Disk :=
  disk.put ino { disk.files ino with indir1stBlock := addr }
    { disk.memory with granted := disk.memory.granted + 1 }

/-- A page is stored in the indirect table. -/
def Disk.takeEntry (disk : Disk) (ino index addr : Nat) : Disk :=
  disk.put ino
    { disk.files ino with
      blockCount := (disk.files ino).blockCount + 1 }
    { bytes :=
        copyIn disk.memory.bytes (wrap32 ((disk.files ino).indir1stBlock + 4 * index))
          (wordBytes addr)
      granted := disk.memory.granted + 1 }

/-- The next page that `kmem_alloc` gives is a page of the supply. -/
def Ready (supply : PageSupply) (request addr : Nat) : Prop :=
  supply.mapped.answer request = some addr ∧ addr ≠ 0

/-- A page of zeros. -/
def ZeroPage (bytes : Nat → UInt8) (page : Nat) : Prop := ∀ index < 4096, bytes (page + index) = 0

theorem mem_dataPlaces_direct {index : Fin 12} : Place.direct ino index ∈ dataPlaces ino := by
  simp [dataPlaces]

variable {index : Fin 1024}

theorem mem_dataPlaces_entry : Place.entry ino index ∈ dataPlaces ino := by
  simp [dataPlaces]

theorem indirect_notMem_dataPlaces : Place.indirect ino ∉ dataPlaces other := by
  simp [dataPlaces]

theorem owner_of_mem_dataPlaces (member : place ∈ dataPlaces ino) : place.owner = ino := by
  rcases Finset.mem_union.mp member with direct | entry
  · obtain ⟨_, _, rfl⟩ := Finset.mem_image.mp direct
    rfl
  · obtain ⟨_, _, rfl⟩ := Finset.mem_image.mp entry
    rfl

variable {later : Disk}

/-- A place of an inode that was empty takes the next page of the supply. -/
theorem Owned.put (owned : Owned supply disk) (empty : references disk place = none)
    (answered : supply.mapped.answer disk.memory.granted = some addr)
    (granted : memory.granted = disk.memory.granted + 1)
    (taken :
      references (disk.put place.owner file memory) = update (references disk) place (some addr))
    (counted :
      file.blockCount =
        (disk.files place.owner).blockCount + if place ∈ dataPlaces place.owner then 1 else 0) :
    Owned supply (disk.put place.owner file memory) := by
  constructor
  · rw [taken, Disk.put_memory, granted]
    exact owned.exclusive.take answered place
  · intro ino
    rw [taken]
    by_cases mine : ino = place.owner
    · rw [mine, Disk.put_files_self, counted, owned.counted]
      split
      · rename_i member
        rw [heldCount_take member empty]
      · rename_i outside
        rw [heldCount_take_of_notMem outside, Nat.add_zero]
    · have outside : place ∉ dataPlaces ino := fun member =>
        mine (owner_of_mem_dataPlaces member).symm
      rw [Disk.put_files_of_ne _ _ _ mine, heldCount_take_of_notMem outside, owned.counted]

/-- One place takes a page and the others keep theirs. -/
theorem references_take (nonzero : addr ≠ 0) (here : word later place = addr)
    (elsewhere : ∀ other, other ≠ place → word later other = word disk other) :
    references later = update (references disk) place (some addr) := by
  funext other
  by_cases same : other = place
  · rw [same, update_self, references_eq_some]
    exact ⟨here, nonzero⟩
  · rw [update_of_ne same]
    exact references_of_word (elsewhere other same)

theorem readWord_zeroPage
    (grid : addr % 4096 = 0 ∧ addr < 4294967296) (zeros : ZeroPage bytes addr) {slot : Nat}
    (inside : slot < 1024) : readWord bytes (addr + 4 * slot) = 0 := by
  have unset : readWord bytes (addr + 4 * slot) = readWord (fun _ => 0) (addr + 4 * slot) := by
    apply readWord_congr
    · omega
    · intro position small
      rw [Nat.add_assoc]
      apply zeros
      omega
  rw [unset]
  rfl

variable {table : Nat}

/-- The entries beside the one that was entered. -/
theorem readWord_entered {page entry slot : Nat} (grid : table % 4096 = 0 ∧ table < 4294967296)
    (entryInside : entry < 1024) (inside : slot < 1024) (different : slot ≠ entry) :
    readWord (copyIn bytes (wrap32 (table + 4 * entry)) (wordBytes page)) (table + 4 * slot) =
      readWord bytes (table + 4 * slot) := by
  rw [wrap32_of_lt (by omega)]
  apply readWord_congr
  · omega
  · intro position small
    apply copyIn_outside
    · show _ + 4 ≤ _
      omega
    · omega
    · show _ ∨ _ + 4 ≤ _
      omega

theorem references_takeDirect {index : Fin 12} (nonzero : addr ≠ 0) :
    references (disk.takeDirect ino index addr) =
      update (references disk) (.direct ino index) (some addr) := by
  refine references_take nonzero (by simp [word, Disk.takeDirect]) fun place here => ?_
  by_cases same : place.owner = ino
  · subst same
    cases place with
    | direct other slot =>
      have different : slot ≠ index := by
        rintro rfl
        exact here rfl
      simp [word, Disk.takeDirect, Place.owner, Fin.val_inj, different]
    | indirect other => simp [word, Disk.takeDirect, Place.owner]
    | entry other slot => simp [word, Disk.takeDirect, Place.owner]
  · exact word_put_of_ne same rfl

/-- References stay when no table of theirs changes. -/
theorem references_of_sameTables
    (directs : ∀ ino, (later.files ino).directblock = (disk.files ino).directblock)
    (indirects : ∀ ino, (later.files ino).indir1stBlock = (disk.files ino).indir1stBlock)
    (tables :
      ∀ ino (index : Fin 1024), (disk.files ino).indir1stBlock ≠ 0 →
        readWord later.memory.bytes ((disk.files ino).indir1stBlock + 4 * index) =
          readWord disk.memory.bytes ((disk.files ino).indir1stBlock + 4 * index)) :
    references later = references disk := by
  funext place
  apply references_of_word
  cases place with
  | direct ino index => exact congrFun (directs ino) index
  | indirect ino => exact indirects ino
  | entry ino index =>
    simp only [word, indirects ino]
    split
    · rfl
    · rename_i present
      exact tables ino index present

/-- Entries of a page that a store left alone. -/
theorem readWord_copyIn_otherPage {page offset : Nat}
    (pageGrid : page % 4096 = 0 ∧ page < 4294967296)
    (tableGrid : table % 4096 = 0 ∧ table < 4294967296) (different : page ≠ table)
    (inPage : offset + values.length ≤ 4096) :
    readWord (copyIn bytes (wrap32 (page + offset)) values) (table + 4 * index) =
      readWord bytes (table + 4 * index) := by
  apply readWord_congr
  · omega
  · intro position small
    rw [Nat.add_assoc]
    apply copyIn_otherPage pageGrid tableGrid different inPage
    omega

theorem references_takeEntry (owned : Owned supply disk)
    (root : references disk (.indirect ino) = some table)
    (ready : Ready supply disk.memory.granted addr) :
    references (disk.takeEntry ino index addr) =
      update (references disk) (.entry ino index) (some addr) := by
  obtain ⟨tableEq, tableNonzero⟩ := references_eq_some.mp root
  have rootWord : (disk.files ino).indir1stBlock = table := tableEq
  have grid := owned.page root
  have addrGrid := PageSupply.page_of_given ⟨disk.memory.granted, Nat.lt_succ_self _, ready.1⟩
  apply references_take ready.2
  · simp only [word, Disk.takeEntry, Disk.put_files_self, Disk.put_memory,
      rootWord, if_neg tableNonzero]
    rw [wrap32_of_lt (by omega)]
    exact readWord_copyIn (by omega) addrGrid.2
  · intro place here
    cases place with
    | direct other slot => by_cases same : other = ino <;> simp [word, Disk.takeEntry, Disk.put, same]
    | indirect other => by_cases same : other = ino <;> simp [word, Disk.takeEntry, Disk.put, same]
    | entry other slot =>
      by_cases same : other = ino
      · subst same
        have different : (slot : Nat) ≠ index := by
          intro equal
          exact here (by rw [Fin.ext equal])
        simp only [word, Disk.takeEntry, Disk.put_files_self,
          Disk.put_memory, rootWord, if_neg tableNonzero]
        exact readWord_entered grid index.isLt slot.isLt different
      · simp only [word, Disk.takeEntry, Disk.put_files_of_ne _ _ _ same, Disk.put_memory, rootWord]
        split
        · rfl
        · rename_i present
          have otherRoot :
              references disk (.indirect other) = some (disk.files other).indir1stBlock :=
            references_eq_some.mpr ⟨rfl, present⟩
          apply readWord_copyIn_otherPage grid (owned.page otherRoot)
          · rintro rfl
            have samePlace := owned.exclusive.single root otherRoot
            exact same (Place.indirect.inj samePlace).symm
          · show _ + 4 ≤ _
            omega

/-- Data goes to the page of a data block. -/
def Disk.store (disk : Disk) (page offset : Nat) (values : List UInt8) : Disk :=
  { disk with
    memory :=
      { disk.memory with
        bytes := copyIn disk.memory.bytes (wrap32 (page + offset)) values } }

variable {ino page offset : Nat}

theorem references_store (owned : Owned supply disk) (data : place ∈ dataPlaces ino)
    (held : references disk place = some page) (inPage : offset + values.length ≤ 4096) :
    references (disk.store page offset values) = references disk := by
  apply references_of_sameTables
  · intro _
    rfl
  · intro _
    rfl
  · intro other index present
    have root : references disk (.indirect other) = some (disk.files other).indir1stBlock :=
      references_eq_some.mpr ⟨rfl, present⟩
    apply readWord_copyIn_otherPage (owned.page held) (owned.page root) _ inPage
    intro samePage
    rw [samePage] at held
    rw [owned.exclusive.single held root] at data
    exact indirect_notMem_dataPlaces data

/-! ## Finding or making a block -/

/--
One disk follows from another by taking pages for an inode.  Pages that are
not given out yet keep their contents.
-/
structure Extends (supply : PageSupply) (ino : Nat) (disk later : Disk) : Prop where
  owned : Owned supply later
  granted : disk.memory.granted ≤ later.memory.granted
  rooted : (disk.files ino).indir1stBlock ≠ 0 → (later.files ino).indir1stBlock ≠ 0
  untouched :
    ∀ page, page % 4096 = 0 ∧ page < 4294967296 → ¬ supply.mapped.Given later.memory.granted page →
      ∀ index < 4096, later.memory.bytes (page + index) = disk.memory.bytes (page + index)

theorem Owned.extends_refl (owned : Owned supply disk) (ino : Nat) :
    Extends supply ino disk disk where
  owned := owned
  granted := le_refl _
  rooted := id
  untouched := fun _ _ _ _ _ => rfl

theorem given_of_le {earlier later : Nat} (given : supply.mapped.Given earlier page)
    (ordered : earlier ≤ later) : supply.mapped.Given later page := by
  obtain ⟨request, before, answered⟩ := given
  exact ⟨request, lt_of_lt_of_le before ordered, answered⟩

theorem Extends.trans
    {middle last : Disk}
    (first : Extends supply ino disk middle)
    (second : Extends supply ino middle last) :
    Extends supply ino disk last where
  owned := second.owned
  granted := le_trans first.granted second.granted
  rooted := fun present => second.rooted (first.rooted present)
  untouched := by
    intro page grid fresh index inside
    rw [second.untouched page grid fresh index inside]
    apply first.untouched page grid _ index inside
    intro given
    exact fresh (given_of_le given second.granted)

theorem Owned.extends_takeDirect (owned : Owned supply disk) {index : Fin 12}
    (empty : references disk (.direct ino index) = none)
    (ready : Ready supply disk.memory.granted addr) :
    Extends supply ino disk (disk.takeDirect ino index addr) where
  owned := by
    apply owned.put empty ready.1 rfl (references_takeDirect ready.2)
    simp [mem_dataPlaces_direct, Place.owner]
  granted := Nat.le_succ _
  rooted := by
    intro present
    simpa [Disk.takeDirect] using present
  untouched := fun _ _ _ _ _ => rfl

theorem Owned.extends_takeTable (owned : Owned supply disk)
    (empty : references disk (.indirect ino) = none) (ready : Ready supply disk.memory.granted addr)
    (zeros : ZeroPage disk.memory.bytes addr) :
    Extends supply ino disk (disk.takeTable ino addr) where
  owned := by
    have noTable : (disk.files ino).indir1stBlock = 0 := references_eq_none.mp empty
    have grid := PageSupply.page_of_given ⟨disk.memory.granted, Nat.lt_succ_self _, ready.1⟩
    have taken : references (disk.takeTable ino addr) =
        update (references disk) (.indirect ino) (some addr) := by
      refine references_take ready.2 (by simp [word, Disk.takeTable]) fun place here => ?_
      by_cases same : place.owner = ino
      · subst same
        cases place with
        | direct other slot => simp [word, Disk.takeTable, Place.owner]
        | indirect other => exact absurd rfl here
        | entry other slot =>
          have nothing := readWord_zeroPage grid zeros slot.isLt
          simp only [Place.owner] at noTable
          simp [word, Disk.takeTable, Place.owner, noTable, nothing]
      · exact word_put_of_ne same rfl
    apply owned.put empty ready.1 rfl taken
    simp [indirect_notMem_dataPlaces, Place.owner]
  granted := Nat.le_succ _
  rooted := by
    intro _
    simpa [Disk.takeTable] using ready.2
  untouched := fun _ _ _ _ _ => rfl

theorem Owned.extends_takeEntry (owned : Owned supply disk)
    (root : references disk (.indirect ino) = some table)
    (empty : references disk (.entry ino index) = none)
    (ready : Ready supply disk.memory.granted addr) :
    Extends supply ino disk (disk.takeEntry ino index addr) where
  owned := by
    apply owned.put empty ready.1 rfl (references_takeEntry owned root ready)
    simp [mem_dataPlaces_entry, Place.owner]
  granted := Nat.le_succ _
  rooted := by
    intro present
    simpa [Disk.takeEntry] using present
  untouched := by
    intro page grid fresh offset inside
    have rootWord : (disk.files ino).indir1stBlock = table := (references_eq_some.mp root).1
    simp only [Disk.takeEntry, Disk.put_memory, rootWord]
    apply copyIn_otherPage (owned.page root) grid _ _ inside
    · rintro rfl
      apply fresh
      exact given_of_le (owned.exclusive.given root) (Nat.le_succ _)
    · show _ + 4 ≤ _
      omega

theorem Owned.extends_store (owned : Owned supply disk) (data : place ∈ dataPlaces ino)
    (held : references disk place = some page) (inPage : offset + values.length ≤ 4096) :
    Extends supply ino disk (disk.store page offset values) where
  owned := by
    constructor
    · rw [references_store owned data held inPage]
      exact owned.exclusive
    · rw [references_store owned data held inPage]
      exact owned.counted
  granted := le_refl _
  rooted := id
  untouched := by
    intro other grid fresh index inside
    apply copyIn_otherPage (owned.page held) grid _ inPage inside
    rintro rfl
    exact fresh (owned.exclusive.given held)

variable {request : Nat}

theorem Ready.kmemAlloc_eq (ready : Ready supply request addr) :
    kmemAlloc supply.toSupply request = addr := by
  obtain ⟨page, answered, rfl⟩ := Option.map_eq_some_iff.mp ready.1
  rw [kmemAlloc, answered]
  rfl

theorem Disk.put_self (disk : Disk) (ino : Nat) :
    disk.put ino (disk.files ino) disk.memory = disk := by
  simp [Disk.put]

theorem Disk.put_put (disk : Disk) (ino : Nat) (file next : RegFile) (memory after : PageMemory) :
    (disk.put ino file memory).put ino next after = disk.put ino next after := by
  simp [Disk.put]

/-- The requests up to some number are answered by pages with an address. -/
def Answered (supply : PageSupply) (first last : Nat) : Prop :=
  ∀ request, first ≤ request → request < last → ∃ addr, Ready supply request addr

/-- What a search for a block leaves: a data block that the inode refers to. -/
structure Found
    (supply : PageSupply) (ino : Nat) (disk : Disk)
    (found : Nat × RegFile × PageMemory) : Prop where
  larger : Extends supply ino disk (disk.put ino found.2.1 found.2.2)
  held :
    ∃ place ∈ dataPlaces ino, references (disk.put ino found.2.1 found.2.2) place = some found.1

/-- A data block that is already there. -/
theorem Owned.found_present (owned : Owned supply disk) (place : Place)
    (data : place ∈ dataPlaces ino) (present : word disk place ≠ 0) :
    Found supply ino disk (word disk place, disk.files ino, disk.memory) := by
  have same := Disk.put_self disk ino
  constructor
  · rw [same]
    exact owned.extends_refl ino
  · rw [same]
    exact ⟨place, data, references_eq_some.mpr ⟨rfl, present⟩⟩

theorem Owned.found_direct
    (owned : Owned supply disk)
    {index : Nat}
    (small : index < 12)
    (answered :
      Answered supply disk.memory.granted
        (blockByIndexOrNew (kmemAlloc supply.toSupply) disk.memory
          (disk.files ino) index).2.2.granted) :
    Found supply ino disk
      (blockByIndexOrNew (kmemAlloc supply.toSupply) disk.memory (disk.files ino) index) := by
  unfold blockByIndexOrNew at answered ⊢
  rw [if_pos (show index < nDirectBlocks from small)] at answered ⊢
  by_cases missing : (disk.files ino).directblock index = 0
  · rw [if_pos missing] at answered ⊢
    obtain ⟨addr, next⟩ := answered _ le_rfl (Nat.lt_succ_self _)
    simp only [newBlock, next.kmemAlloc_eq]
    have empty : references disk (.direct ino ⟨index, small⟩) = none :=
      references_eq_none.mpr missing
    have taken :
        references (disk.takeDirect ino (Fin.mk index small) addr) =
          update (references disk) (.direct ino ⟨index, small⟩) (some addr) :=
      references_takeDirect next.2
    constructor
    · exact owned.extends_takeDirect empty next
    · refine ⟨.direct ino ⟨index, small⟩, mem_dataPlaces_direct, ?_⟩
      exact (congrFun taken _).trans (update_self _ _ _)
  · rw [if_neg missing]
    exact owned.found_present (.direct ino ⟨index, small⟩) (mem_dataPlaces_direct) missing

theorem Owned.found_entry (owned : Owned supply disk) (ino : Nat) (index : Fin 1024)
    (root : (disk.files ino).indir1stBlock ≠ 0)
    (ready :
      readWord disk.memory.bytes ((disk.files ino).indir1stBlock + 4 * index) = 0 →
        ∃ addr, Ready supply disk.memory.granted addr) :
    Found supply ino disk
      (if readWord disk.memory.bytes ((disk.files ino).indir1stBlock + 4 * index) = 0 then
        (kmemAlloc supply.toSupply disk.memory.granted,
          { disk.files ino with
            blockCount := (disk.files ino).blockCount + 1 },
          { bytes :=
              copyIn disk.memory.bytes (wrap32 ((disk.files ino).indir1stBlock + 4 * index))
                (wordBytes (kmemAlloc supply.toSupply disk.memory.granted))
            granted := disk.memory.granted + 1 })
      else
        (readWord disk.memory.bytes ((disk.files ino).indir1stBlock + 4 * index),
          disk.files ino, disk.memory)) := by
  have entryWord :
      word disk (.entry ino index) =
        readWord disk.memory.bytes ((disk.files ino).indir1stBlock + 4 * index) :=
    if_neg root
  have table : references disk (.indirect ino) = some (disk.files ino).indir1stBlock :=
    references_eq_some.mpr ⟨rfl, root⟩
  rw [← entryWord] at ready ⊢
  by_cases missing : word disk (.entry ino index) = 0
  · obtain ⟨addr, next⟩ := ready missing
    rw [if_pos missing, next.kmemAlloc_eq]
    have empty := references_eq_none.mpr missing
    constructor
    · exact owned.extends_takeEntry table empty next
    · refine ⟨.entry ino index, mem_dataPlaces_entry, ?_⟩
      exact (congrFun (references_takeEntry owned table next) _).trans (update_self _ _ _)
  · rw [if_neg missing]
    exact owned.found_present _ (mem_dataPlaces_entry) missing

/-- The search for a block makes requests one after the other. -/
theorem granted_le_blockByIndexOrNew
    (source : Nat → Nat)
    (memory : PageMemory)
    (file : RegFile)
    (index : Nat) :
    memory.granted ≤ (blockByIndexOrNew source memory file index).2.2.granted := by
  unfold blockByIndexOrNew newBlock
  dsimp only
  split_ifs <;> dsimp only <;> omega

/-- A missing table is asked for. -/
theorem granted_lt_blockByIndexOrNew
    (source : Nat → Nat)
    (memory : PageMemory)
    {file : RegFile}
    {index : Nat}
    (large : ¬ index < 12)
    (bounded : index - 12 < 1024)
    (missing : file.indir1stBlock = 0) :
    memory.granted < (blockByIndexOrNew source memory file index).2.2.granted := by
  unfold blockByIndexOrNew newBlock
  rw [if_neg (show ¬ index < nDirectBlocks from large),
    if_pos (show index - nDirectBlocks < nIndblocks from bounded), if_pos missing]
  dsimp only
  split_ifs <;> dsimp only <;> omega

theorem Owned.found_indirect
    (owned : Owned supply disk)
    {index : Nat}
    (large : ¬ index < 12)
    (bounded : index - 12 < 1024)
    (answered :
      Answered supply disk.memory.granted
        (blockByIndexOrNew (kmemAlloc supply.toSupply) disk.memory
          (disk.files ino) index).2.2.granted)
    (zeros :
      (disk.files ino).indir1stBlock = 0 →
      ∀ addr, Ready supply disk.memory.granted addr → ZeroPage disk.memory.bytes addr) :
    Found supply ino disk
      (blockByIndexOrNew (kmemAlloc supply.toSupply) disk.memory (disk.files ino) index) := by
  have table := @granted_lt_blockByIndexOrNew (kmemAlloc supply.toSupply)
    disk.memory (disk.files ino) index large bounded
  unfold blockByIndexOrNew at answered table ⊢
  rw [if_neg (show ¬ index < nDirectBlocks from large),
    if_pos (show index - nDirectBlocks < nIndblocks from bounded)]
    at answered table ⊢
  by_cases missing : (disk.files ino).indir1stBlock = 0
  · obtain ⟨addr, next⟩ := answered _ le_rfl (table missing)
    rw [if_pos missing] at answered ⊢
    simp only [newBlock, next.kmemAlloc_eq] at answered ⊢
    have first :=
      owned.extends_takeTable (references_eq_none.mpr missing) next (zeros missing addr next)
    have second :=
      first.owned.found_entry ino ⟨index - 12, bounded⟩ (by simpa [Disk.takeTable] using next.2)
        fun empty => answered _ (Nat.le_succ _) (by
          simp only [Disk.takeTable, Disk.put_files_self, Disk.put_memory] at empty
          simp [nDirectBlocks, empty, Disk.takeTable])
    have joined := first.trans second.larger
    have held := second.held
    simp only [Disk.takeTable, Disk.put_files_self, Disk.put_memory,
      Disk.put_put] at joined held
    exact ⟨joined, held⟩
  · rw [if_neg missing] at answered ⊢
    refine owned.found_entry ino ⟨index - 12, bounded⟩ missing fun empty => ?_
    apply answered _ le_rfl
    simp [nDirectBlocks, empty, newBlock]

/-- The blocks a write may reach. -/
def Touched (pos : Nat) (buf : List UInt8) (index : Nat) : Prop :=
  index = pos / 4096 ∨ 4096 * index < pos + buf.length

section WriteRule

variable {source : Nat → Nat} {pos : Nat} {buf : List UInt8} {invariant : Transfer → Prop}

/-- A block write keeps a property. -/
def KeptByBlocks
    (source : Nat → Nat) (pos : Nat) (buf : List UInt8) (invariant : Transfer → Prop) : Prop :=
  ∀ transfer offset bytes, invariant transfer → offset + bytes.length ≤ 4096 →
    Touched pos buf transfer.blkindex → invariant (writeBlock source transfer offset bytes).2

/-- A property that every block write keeps holds after the whole write. -/
theorem writeInode_rule (kept : KeptByBlocks source pos buf invariant) {after : PageMemory}
    {stored : RegFile} {outcome : Except Errno Unit} {nwrite : Nat}
    (initially : invariant ⟨file, memory, 0, pos / pageBytes⟩)
    (wrote : writeInode source memory file pos buf = some (outcome, nwrite, stored, after)) :
    ∃ transfer size,
      invariant transfer ∧ stored = { transfer.file with size := size } ∧
        after = transfer.memory := by
  rw [writeInode_eq, neededBlocks, length_range'] at wrote
  cases ended :
      writeBlocks source pos buf ((pos % 4096 + buf.length + 4095) / 4096)
        ⟨file, memory, 0, pos / 4096⟩ with
  | mk done transfer =>
    have holds : invariant transfer := by
      refine (@writeBlocks_rule _ _ _ _ _ _ (fun _ => invariant) ?_ _ initially
        (atBlock_start pos buf memory file) ended).1
      intro count transfer done written holds position stored
      have within := position.within
      have later := kept transfer _ _ holds position.inPage (Or.inr (by omega))
      rw [stored] at later
      exact later
    rw [ended] at wrote
    obtain ⟨_, rest⟩ := Prod.mk.inj (Option.some.inj wrote)
    obtain ⟨_, rest⟩ := Prod.mk.inj rest
    obtain ⟨storedEq, rfl⟩ := Prod.mk.inj rest
    split at storedEq
    · exact ⟨transfer, _, holds, storedEq.symm, rfl⟩
    · exact ⟨transfer, transfer.file.size, holds, storedEq.symm, rfl⟩

end WriteRule

/-! ## Writes that keep ownership -/

/-- The arguments of `ramfs_write_inode`. -/
structure WriteCall where
  ino : Nat
  pos : Nat
  buf : List UInt8

/-- `ramfs_write_inode` on an inode of the disk. -/
def Disk.write (supply : Supply Nat) (disk : Disk) (call : WriteCall) :
    Option (Except Errno Unit × Disk) :=
  match writeInode (kmemAlloc supply) disk.memory (disk.files call.ino) call.pos call.buf with
  | none => none
  | some (outcome, _, file, memory) => some (outcome, disk.put call.ino file memory)

/-- A write that stays in the direct blocks. -/
def WriteCall.Direct (call : WriteCall) : Prop :=
  call.pos < 49152 ∧ call.pos + call.buf.length ≤ 49152

/-- The pages that answer the next requests hold zeros. -/
def ZeroAhead (supply : PageSupply) (disk : Disk) (last : Nat) : Prop :=
  ∀ request addr, disk.memory.granted ≤ request → request < last →
    Ready supply request addr → ZeroPage disk.memory.bytes addr

/--
The next requests are answered, and a table that the write may have to make
starts with zeros.
-/
def SuppliedUpto
    (supply : PageSupply)
    (disk : Disk)
    (call : WriteCall)
    (last : Nat) : Prop :=
  Answered supply disk.memory.granted last ∧
    (call.Direct ∨ (disk.files call.ino).indir1stBlock ≠ 0 ∨
      ZeroAhead supply disk last)

/-- The write is supplied with the pages that it asks for. -/
def Supplied (supply : PageSupply) (disk : Disk) (call : WriteCall) : Prop :=
  ∀ outcome later, disk.write supply.toSupply call = some (outcome, later) →
    SuppliedUpto supply disk call later.memory.granted

/-- The disk in the middle of a write. -/
def Disk.during (disk : Disk) (ino : Nat) (transfer : Transfer) : Disk :=
  disk.put ino transfer.file transfer.memory

/-- Ownership is kept as long as the requests so far were answered. -/
def Progress
    (supply : PageSupply)
    (disk : Disk)
    (call : WriteCall)
    (transfer : Transfer) : Prop :=
  SuppliedUpto supply disk call transfer.memory.granted →
    Extends supply call.ino disk (disk.during call.ino transfer)

variable {call : WriteCall}

theorem SuppliedUpto.earlier
    {first last : Nat}
    (supplied : SuppliedUpto supply disk call last)
    (earlier : first ≤ last) :
    SuppliedUpto supply disk call first := by
  obtain ⟨answered, tables⟩ := supplied
  refine ⟨fun request lower upper => answered request lower (by omega), ?_⟩
  refine tables.imp_right (Or.imp_right fun zeros => ?_)
  exact fun request addr lower upper => zeros request addr lower (by omega)

/-- Pages that are still to be given keep their zeros. -/
theorem Extends.zeroPage (larger : Extends supply ino disk later)
    (ahead : later.memory.granted ≤ request) (ready : Ready supply request addr)
    (zeros : ZeroPage disk.memory.bytes addr) : ZeroPage later.memory.bytes addr := by
  intro index inside
  have given : supply.mapped.Given (request + 1) addr := ⟨request, Nat.lt_succ_self _, ready.1⟩
  have grid := PageSupply.page_of_given given
  rw [larger.untouched addr grid _ index inside]
  · exact zeros index inside
  · rintro ⟨earlier, before, answered⟩
    have same := supply.mapped.distinct answered ready.1
    omega

/-- The block that a write looks for is found if its requests are answered. -/
theorem Extends.found
    {transfer : Transfer}
    (larger : Extends supply call.ino disk (disk.during call.ino transfer))
    (touched : Touched call.pos call.buf transfer.blkindex)
    (bounded : transfer.blkindex < 1036)
    (supplied :
      SuppliedUpto supply disk call
        (blockByIndexOrNew (kmemAlloc supply.toSupply) transfer.memory
          transfer.file transfer.blkindex).2.2.granted) :
    Found supply call.ino (disk.during call.ino transfer)
      (blockByIndexOrNew (kmemAlloc supply.toSupply) transfer.memory
        transfer.file transfer.blkindex) := by
  obtain ⟨answered, tables⟩ := supplied
  have grown := larger.granted
  have sameFile : (disk.during call.ino transfer).files call.ino = transfer.file :=
    Disk.put_files_self _ _ _ _
  have left :
      Answered supply (disk.during call.ino transfer).memory.granted
        (blockByIndexOrNew (kmemAlloc supply.toSupply) (disk.during call.ino transfer).memory
          ((disk.during call.ino transfer).files call.ino)
          transfer.blkindex).2.2.granted := by
    rw [sameFile]
    exact fun request lower => answered request (grown.trans lower)
  have found :
      Found supply call.ino (disk.during call.ino transfer)
        (blockByIndexOrNew (kmemAlloc supply.toSupply) (disk.during call.ino transfer).memory
          ((disk.during call.ino transfer).files call.ino) transfer.blkindex) := by
    by_cases direct : transfer.blkindex < 12
    · exact larger.owned.found_direct direct left
    · apply larger.owned.found_indirect direct (by omega) left
      intro noTable addr next
      rcases tables with inDirect | hasTable | zeros
      · unfold WriteCall.Direct at inDirect
        unfold Touched at touched
        omega
      · exact absurd noTable (larger.rooted hasTable)
      · apply larger.zeroPage le_rfl next
        rw [sameFile] at noTable
        exact zeros _ addr grown (granted_lt_blockByIndexOrNew _ _ direct (by omega) noTable)
          next
  rw [sameFile] at found
  exact found

theorem progress_keptByBlocks :
    KeptByBlocks (kmemAlloc supply.toSupply) call.pos call.buf (Progress supply disk call) := by
  intro transfer offset bytes progress inPage touched
  by_cases bounded : transfer.blkindex < 1036
  · have asked := granted_le_blockByIndexOrNew (kmemAlloc supply.toSupply)
      transfer.memory transfer.file transfer.blkindex
    unfold writeBlock
    dsimp only
    intro supplied
    have upto :
        SuppliedUpto supply disk call
          (blockByIndexOrNew (kmemAlloc supply.toSupply) transfer.memory
            transfer.file transfer.blkindex).2.2.granted := by
      split at supplied <;> exact supplied
    have earlier := progress (upto.earlier asked)
    obtain ⟨larger, place, data, held⟩ := earlier.found touched bounded upto
    have present := (references_eq_some.mp held).2
    rw [if_neg present]
    have stored := (earlier.trans larger).trans (larger.owned.extends_store data held inPage)
    simp only [Disk.during, Disk.put_put] at stored
    exact stored
  · rw [writeBlock_beyond bounded]
    exact progress

theorem Owned.resize (owned : Owned supply (disk.put ino file memory)) (size : Int) :
    Owned supply (disk.put ino { file with size := size } memory) := by
  have files (other : Nat) :
      (disk.put ino { file with size := size } memory).files other =
        { (disk.put ino file memory).files other with
          size := if other = ino then size else (disk.files other).size } := by
    by_cases here : other = ino
    · subst here
      simp
    · rw [Disk.put_files_of_ne _ _ _ here, Disk.put_files_of_ne _ _ _ here, if_neg here]
  have same :
      references (disk.put ino { file with size := size } memory) =
        references (disk.put ino file memory) := by
    apply references_of_sameTables
    · intro other
      rw [files]
    · intro other
      rw [files]
    · intro other index present
      rfl
  constructor
  · rw [same]
    exact owned.exclusive
  · intro other
    rw [same, files]
    exact owned.counted other

variable {outcome : Except Errno Unit}

theorem Owned.write
    (owned : Owned supply disk)
    (supplied : Supplied supply disk call)
    (wrote : disk.write supply.toSupply call = some (outcome, later)) :
    Owned supply later := by
  have upto := supplied outcome later wrote
  unfold Disk.write at wrote
  split at wrote
  · cases wrote
  · rename_i result nwrite file memory inner
    obtain ⟨rfl, rfl⟩ := Prod.mk.inj (Option.some.inj wrote)
    have initially :
        Progress supply disk call ⟨disk.files call.ino, disk.memory, 0, call.pos / pageBytes⟩ := by
      intro _
      unfold Disk.during
      rw [Disk.put_self]
      exact owned.extends_refl call.ino
    obtain ⟨transfer, size, progress, rfl, rfl⟩ :=
      writeInode_rule progress_keptByBlocks initially inner
    exact (progress upto).owned.resize size

/-- The state of the files, as far as their pages go, after some writes. -/
def ownershipSystem (supply : PageSupply) : System Disk WriteCall where
  start disk := ∀ ino, disk.files ino = emptyFile
  step disk call later := ∃ outcome, disk.write supply.toSupply call = some (outcome, later)

theorem owned_start (started : (ownershipSystem supply).start disk) : Owned supply disk := by
  have unused : references disk = fun _ => none := by
    funext place
    apply references_eq_none.mpr
    cases place with
    | direct ino index => simp [word, started ino, emptyFile]
    | indirect ino => simp [word, started ino, emptyFile]
    | entry ino index => simp [word, started ino, emptyFile]
  constructor
  · rw [unused]
    exact exclusive_empty
  · intro ino
    rw [unused, started ino]
    simp [heldCount, emptyFile]

theorem owned_of_reached (reached : (ownershipSystem supply).Reached (Supplied supply) disk) :
    Owned supply disk := by
  refine System.Reached.invariant ?_ ?_ reached
  · intro state started
    exact owned_start started
  · rintro source call target owned supplied ⟨outcome, wrote⟩
    exact owned.write supplied wrote

/-- A write that asked for a page in vain returns `EIO`. -/
def ReportsMissing
    (supply : Supply Nat) (disk : Disk) (outcome : Except Errno Unit) (later : Disk) : Prop :=
  (∃ request,
    disk.memory.granted ≤ request ∧ request < later.memory.granted ∧ supply.answer request = none) →
  outcome = .error .eio

theorem page_of_answered {request page : Nat}
    (answered : (if request < 8 then some (4096 * (request + 1)) else none) = some page) :
    request < 8 ∧ page = 4096 * (request + 1) := by
  simpa [eq_comm] using answered

/-- The eight pages from address `0x1000` on. -/
def eightPages : PageSupply where
  answer request := if request < 8 then some (4096 * (request + 1)) else none
  distinct firstAnswer secondAnswer := by
    have first := page_of_answered firstAnswer
    have second := page_of_answered secondAnswer
    omega
  aligned answered := by
    have found := page_of_answered answered
    omega
  nonzero answered := by
    have found := page_of_answered answered
    omega
  inMemory answered := by
    have found := page_of_answered answered
    omega

theorem eightPages_ready (few : request < 8) :
    Ready eightPages request (va (4096 * (request + 1))) := by
  constructor
  · show Option.map va (if request < 8 then _ else none) = _
    rw [if_pos few, Option.map_some]
  · unfold va wrap32 kernOff
    omega

/-- A `pmem_alloc` that has run out of pages. -/
def noPages : PageSupply where
  answer := fun _ => none
  distinct := nofun
  aligned := nofun
  nonzero := nofun
  inMemory := nofun

/-- Empty files and zeroed memory. -/
def emptyDisk : Disk where
  files := fun _ => emptyFile
  memory := ⟨fun _ => 0, 0⟩

/-- One byte for the file with inode number `ino`. -/
def oneByte (ino : Nat) : WriteCall where
  ino := ino
  pos := 0
  buf := [7]

theorem reached_oneByte
    {allowed : Disk → WriteCall → Prop} (permitted : allowed emptyDisk (oneByte 5))
    (wrote : emptyDisk.write supply.toSupply (oneByte 5) = some (outcome, later)) :
    (ownershipSystem supply).Reached allowed later := by
  have started : (ownershipSystem supply).start emptyDisk := by
    intro ino
    rfl
  have stepped : (ownershipSystem supply).step emptyDisk (oneByte 5) later := ⟨outcome, wrote⟩
  exact System.Reached.step (System.Reached.start started) permitted stepped

end Cosec.Fs.BlockOwnership
