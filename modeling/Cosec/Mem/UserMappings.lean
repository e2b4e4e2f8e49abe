import Cosec.Lib.Transition
import Cosec.Mem.PageTables

/-!
# User mappings of a page directory

The layout of an address space says which frame each user entry of the
directory uses as a page table, and which frame each entry of such a table
maps.  `Represents` relates it to physical memory, and every call of
`pagedir_get_or_new` takes a represented layout to a larger one.

The directory entry of the first four megabytes is not a user entry:
`pagedir_alloc` copies it from `thePageDirectory`, where it maps one large
page that `pagedir_get_or_new` would take for a page table.
-/

namespace Cosec.Mem.UserMappings

open Function Lib.Holdings Lib.Transition Mem.PageTables

/-! ## Layouts -/

/-- What holds a frame: a directory entry, or an entry of its page table. -/
inductive Place where
  | table (slot : Slot)
  | page (slot entry : Slot)
deriving DecidableEq

/-- The frame that each place holds. -/
abbrev Layout := Place → Option Frame

/--
A supply of fresh frames: none of them is the null page, and none is a page
table that the kernel's own entries refer to.
-/
structure FrameSupply (kernel : Slot → Word) extends Supply Frame where
  nonzero : ∀ request, answer request ≠ some 0
  unused :
    ∀ request slot, present (kernel slot) = true → hugepage (kernel slot) = false →
      answer request ≠ some (index (kernel slot))

variable {kernel : Slot → Word} {supply : FrameSupply kernel} {pagedir : Frame}
  {before : Frame → Slot → Word} {layout : Layout} {memory : PhysMemory}

/-- The directory entries that `pagedir_alloc` leaves empty. -/
def UserSlot (kernel : Slot → Word) (slot : Slot) : Prop :=
  slot.toNat < kpdeOffset ∧ (slot = 0 → kernel 0 = 0)

/-- The word of a table entry that maps a frame, or none. -/
def Maps (word : Word) : Option Frame → Prop
  | none => word = 0
  | some page => ∃ pteMask, word = newPte pteMask page

/-- Physical memory holds the directory and the tables of a layout. -/
structure Represents
    (supply : FrameSupply kernel) (pagedir : Frame) (before : Frame → Slot → Word) (layout : Layout)
    (memory : PhysMemory) : Prop where
  exclusive : Exclusive supply.toSupply memory.granted layout
  directoryGiven : supply.Given memory.granted pagedir
  apart : ∀ place, layout place ≠ some pagedir
  userSlots :
    ∀ slot, UserSlot kernel slot →
      memory.words pagedir slot = (layout (.table slot)).elim 0 (newPde 0)
  kernelSlots :
    ∀ slot, ¬ UserSlot kernel slot →
      memory.words pagedir slot = kernel slot ∧ layout (.table slot) = none
  entries :
    ∀ slot table entry, layout (.table slot) = some table →
      Maps (memory.words table entry) (layout (.page slot entry))
  rooted : ∀ slot entry, layout (.table slot) = none → layout (.page slot entry) = none
  others :
    ∀ frame, frame ≠ pagedir → (∀ slot, layout (.table slot) ≠ some frame) →
      memory.words frame = before frame

variable {frame : Frame}

theorem FrameSupply.given_ne_zero {given : Nat} (granted : supply.Given given frame) :
    frame ≠ 0 := by
  rintro rfl
  obtain ⟨request, _, answered⟩ := granted
  exact supply.nonzero request answered

/-- A frame that was given out is no page table of the kernel. -/
theorem FrameSupply.given_ne_kernelTable
    {given : Nat} {slot : Slot} (granted : supply.Given given frame)
    (marked : present (kernel slot) = true) (small : hugepage (kernel slot) = false) :
    index (kernel slot) ≠ frame := by
  rintro rfl
  obtain ⟨request, _, answered⟩ := granted
  exact supply.unused request slot marked small answered

/-- A page that is mapped stays mapped to the same frame. -/
def Grows (layout later : Layout) : Prop :=
  ∀ slot entry page, layout (.page slot entry) = some page → later (.page slot entry) = some page

/-- The result and the new memory of a call, over a layout. -/
structure Serves
    (supply : FrameSupply kernel) (pagedir : Frame) (before : Frame → Slot → Word) (layout : Layout)
    (vaddr : Word) (outcome : Frame × PhysMemory) (later : Layout) : Prop where
  represents : Represents supply pagedir before later outcome.2
  grows : Grows layout later
  found : outcome.1 ≠ 0 →
    UserSlot kernel (pdeIndex vaddr) ∧
      later (.page (pdeIndex vaddr) (pteIndex vaddr)) = some outcome.1
  unchanged : outcome.1 = 0 → ∀ slot entry, later (.page slot entry) = layout (.page slot entry)
  answers : UserSlot kernel (pdeIndex vaddr) →
    layout (.page (pdeIndex vaddr) (pteIndex vaddr)) ≠ none → outcome.1 ≠ 0

/-- Addresses whose directory entry is the kernel's are left alone. -/
def AboveLow (kernel : Slot → Word) (vaddr : Word) : Prop := 0x400000#32 ≤ vaddr ∨ kernel 0 = 0

/-- `pmem_alloc` returns null, or the next frame of the supply. -/
theorem pmemAlloc_cases
    (supply : FrameSupply kernel) (memory : PhysMemory) : (pmemAlloc supply.toSupply memory).1 = 0 ∨
      (pmemAlloc supply.toSupply memory).1 ≠ 0 ∧
        supply.answer memory.granted = some (pmemAlloc supply.toSupply memory).1 := by
  unfold pmemAlloc
  cases answered : supply.answer memory.granted with
  | none => exact Or.inl rfl
  | some frame =>
    refine Or.inr ⟨?_, rfl⟩
    rintro rfl
    exact supply.nonzero _ answered

theorem userSlot_iff :
    UserSlot kernel (pdeIndex vaddr) ↔ vaddr < kernOff ∧ AboveLow kernel vaddr := by
  have position : (pdeIndex vaddr).toNat = vaddr.toNat / 4194304 % 1024 := by
    simp [pdeIndex, Nat.shiftRight_eq_div_pow]
  have first : pdeIndex vaddr = 0 ↔ vaddr.toNat < 4194304 := by
    rw [← BitVec.toNat_inj, position]
    show _ = 0 ↔ _
    omega
  have upper : vaddr < kernOff ↔ vaddr.toNat < 3221225472 := Iff.rfl
  have lower : 0x400000#32 ≤ vaddr ↔ 4194304 ≤ vaddr.toNat := Iff.rfl
  unfold UserSlot AboveLow kpdeOffset
  rw [upper, lower, first, position]
  constructor
  · rintro ⟨below, empty⟩
    refine ⟨by omega, ?_⟩
    rcases lt_or_ge vaddr.toNat 4194304 with low | high
    · exact Or.inr (empty low)
    · exact Or.inl high
  · rintro ⟨below, above⟩
    refine ⟨by omega, ?_⟩
    intro low
    exact above.resolve_left (not_le.mpr low)

variable {vaddr : Word}

section Represented

variable (represents : Represents supply pagedir before layout memory)

include represents

theorem Represents.walk_user (user : UserSlot kernel (pdeIndex vaddr)) :
    walk memory.words pagedir vaddr = layout (.page (pdeIndex vaddr) (pteIndex vaddr)) := by
  unfold walk
  rw [represents.userSlots _ user]
  cases held : layout (.table (pdeIndex vaddr)) with
  | none =>
    rw [represents.rooted _ _ held]
    rfl
  | some table =>
    show walkEntry memory.words (newPde 0 table) vaddr = _
    have entry := represents.entries _ table (pteIndex vaddr) held
    simp only [walkEntry, present_newPde, hugepage_newPde, index_newPde,
      if_true, Bool.false_eq_true, if_false]
    cases mapped : layout (.page (pdeIndex vaddr) (pteIndex vaddr)) with
    | none =>
      rw [mapped] at entry
      rw [show memory.words table (pteIndex vaddr) = 0 from entry]
      rfl
    | some page =>
      rw [mapped] at entry
      obtain ⟨pteMask, word⟩ := entry
      rw [word, if_pos (present_newPte pteMask page), index_newPte]

/-- The kernel's part of the address space never changes. -/
theorem Represents.walk_kernel (apart : ¬ UserSlot kernel (pdeIndex vaddr)) :
    walk memory.words pagedir vaddr = walkEntry before (kernel (pdeIndex vaddr)) vaddr := by
  unfold walk
  rw [(represents.kernelSlots _ apart).1]
  unfold walkEntry
  split
  · rename_i marked
    split
    · rfl
    · rename_i small
      have untouched :
          memory.words (index (kernel (pdeIndex vaddr))) =
            before (index (kernel (pdeIndex vaddr))) := by
        rw [Bool.not_eq_true] at small
        apply represents.others
        · exact FrameSupply.given_ne_kernelTable represents.directoryGiven marked small
        · intro slot held
          exact FrameSupply.given_ne_kernelTable (represents.exclusive.given held) marked small rfl
      rw [untouched]
  · rfl

/-- A request whose answer is not used. -/
theorem Represents.refused :
    Represents supply pagedir before layout { memory with granted := memory.granted + 1 } where
  exclusive :=
    ⟨fun held => (represents.exclusive.given held).later, represents.exclusive.single⟩
  directoryGiven := represents.directoryGiven.later
  apart := represents.apart
  userSlots := represents.userSlots
  kernelSlots := represents.kernelSlots
  entries := represents.entries
  rooted := represents.rooted
  others := represents.others

/-- A frame that is given out is not that of the directory. -/
theorem Represents.apart_take {place : Place} (answered : supply.answer memory.granted = some frame)
    (other : Place) : update layout place (some frame) other ≠ some pagedir := by
  intro held
  by_cases here : other = place
  · rw [here, update_self, Option.some.injEq] at held
    exact represents.directoryGiven.ne_next answered held.symm
  · rw [update_of_ne here] at held
    exact represents.apart other held

theorem Represents.addTable {slot : Slot} {table : Frame} (user : UserSlot kernel slot)
    (empty : layout (.table slot) = none) (answered : supply.answer memory.granted = some table) :
    Represents supply pagedir before (update layout (.table slot) (some table))
      ((PhysMemory.clear { memory with granted := memory.granted + 1 } table).write
        pagedir slot (newPde 0 table)) := by
  have distinct : pagedir ≠ table := represents.directoryGiven.ne_next answered
  have pages :
      ∀ other entry,
        update layout (.table slot) (some table) (.page other entry) =
          layout (.page other entry) := by
    intro other entry
    exact update_of_ne (by simp) _ _
  have tables :
      ∀ other, other ≠ slot →
        update layout (.table slot) (some table) (.table other) = layout (.table other) := by
    intro other different
    exact update_of_ne (by simpa using different) _ _
  have directory :
      ((PhysMemory.clear { memory with granted := memory.granted + 1 } table).write
        pagedir slot (newPde 0 table)).words pagedir =
      update (memory.words pagedir) slot (newPde 0 table) := by
    rw [PhysMemory.words_write_self, PhysMemory.words_clear_of_ne distinct]
  have elsewhere :
      ∀ frame, frame ≠ pagedir → frame ≠ table →
        ((PhysMemory.clear { memory with granted := memory.granted + 1 } table).write
          pagedir slot (newPde 0 table)).words frame = memory.words frame := by
    intro frame notDirectory notTable
    rw [PhysMemory.words_write_of_ne notDirectory, PhysMemory.words_clear_of_ne notTable]
  constructor
  · exact represents.exclusive.take answered _
  · exact represents.directoryGiven.later
  · exact represents.apart_take answered
  · intro other otherUser
    rw [directory]
    by_cases here : other = slot
    · subst here
      rw [update_self, update_self]
      rfl
    · rw [update_of_ne here, tables other here]
      exact represents.userSlots other otherUser
  · intro other kernelSlot
    have here : other ≠ slot := by
      rintro rfl
      exact kernelSlot user
    rw [directory, update_of_ne here, tables other here]
    exact represents.kernelSlots other kernelSlot
  · intro other held entry otherHeld
    rw [pages]
    by_cases here : other = slot
    · subst here
      rw [update_self, Option.some.injEq] at otherHeld
      subst otherHeld
      rw [represents.rooted _ _ empty]
      rw [PhysMemory.words_write_of_ne (Ne.symm distinct), PhysMemory.words_clear_self]
      rfl
    · rw [tables other here] at otherHeld
      rw [elsewhere]
      · exact represents.entries other held entry otherHeld
      · rintro rfl
        exact represents.apart _ otherHeld
      · rintro rfl
        exact represents.exclusive.ne_next answered otherHeld
  · intro other entry otherEmpty
    apply represents.rooted
    by_cases here : other = slot
    · rw [here, update_self] at otherEmpty
      cases otherEmpty
    · rwa [tables other here] at otherEmpty
  · intro frame notDirectory unheld
    have notTable : frame ≠ table := by
      rintro rfl
      exact unheld slot (update_self _ _ _)
    rw [elsewhere frame notDirectory notTable]
    apply represents.others frame notDirectory
    intro other held
    by_cases here : other = slot
    · rw [here, empty] at held
      cases held
    · exact unheld other ((tables other here).trans held)

theorem Represents.addPage {slot entry : Slot} {table page : Frame} {pteMask : Word}
    (root : layout (.table slot) = some table) (answered : supply.answer memory.granted = some page)
    : Represents supply pagedir before (update layout (.page slot entry) (some page))
      (PhysMemory.write { memory with granted := memory.granted + 1 } table entry
        (newPte pteMask page)) := by
  have notDirectory : table ≠ pagedir := by
    rintro rfl
    exact represents.apart _ root
  have tables :
      ∀ other,
        update layout (.page slot entry) (some page) (.table other) = layout (.table other) := by
    intro other
    exact update_of_ne (by simp) _ _
  have elsewhere :
      ∀ frame, frame ≠ table →
        (PhysMemory.write { memory with granted := memory.granted + 1 } table entry
          (newPte pteMask page)).words frame = memory.words frame := by
    intro frame different
    exact PhysMemory.words_write_of_ne different _ _
  constructor
  · exact represents.exclusive.take answered _
  · exact represents.directoryGiven.later
  · exact represents.apart_take answered
  · intro other user
    rw [elsewhere pagedir (Ne.symm notDirectory), tables]
    exact represents.userSlots other user
  · intro other kernelSlot
    rw [elsewhere pagedir (Ne.symm notDirectory), tables]
    exact represents.kernelSlots other kernelSlot
  · intro other held otherEntry otherHeld
    by_cases sameTable : held = table
    · subst sameTable
      have sameSlot : other = slot := Place.table.inj (represents.exclusive.single otherHeld root)
      subst sameSlot
      by_cases sameEntry : otherEntry = entry
      · subst sameEntry
        rw [update_self]
        refine ⟨pteMask, ?_⟩
        rw [PhysMemory.words_write_self, update_self]
      · rw [update_of_ne (by simpa using sameEntry)]
        rw [PhysMemory.words_write_self, update_of_ne sameEntry]
        exact represents.entries other held otherEntry otherHeld
    · rw [elsewhere held sameTable]
      have sameSlot : other ≠ slot := by
        rintro rfl
        exact sameTable (Option.some.inj (otherHeld.symm.trans root))
      rw [update_of_ne (by simp [sameSlot])]
      exact represents.entries other held otherEntry otherHeld
  · intro other otherEntry empty
    rw [tables] at empty
    have sameSlot : other ≠ slot := by
      rintro rfl
      rw [root] at empty
      cases empty
    rw [update_of_ne (by simp [sameSlot])]
    exact represents.rooted other otherEntry empty
  · intro frame apart unheld
    have notTable : frame ≠ table := by
      rintro rfl
      exact unheld slot ((tables slot).trans root)
    rw [elsewhere frame notTable]
    apply represents.others frame apart
    intro other held
    exact unheld other ((tables other).trans held)

theorem Represents.pageTable_spec (user : UserSlot kernel (pdeIndex vaddr)) :
    ∃ later,
      Represents supply pagedir before later (pageTable supply.toSupply pagedir vaddr memory).2 ∧
        (∀ slot entry, later (.page slot entry) = layout (.page slot entry)) ∧
        (∀ table, (pageTable supply.toSupply pagedir vaddr memory).1 = some table →
          later (.table (pdeIndex vaddr)) = some table) ∧
        ((pageTable supply.toSupply pagedir vaddr memory).1 = none →
          layout (.table (pdeIndex vaddr)) = none) := by
  unfold pageTable
  rw [represents.userSlots _ user]
  cases held : layout (.table (pdeIndex vaddr)) with
  | some table =>
    have marked : newPde 0 table ≠ 0 := ne_zero_of_present (present_newPde table)
    simp only [Option.elim_some, if_neg marked, index_newPde]
    exact ⟨layout, represents, fun _ _ => rfl, fun _ => held.trans, nofun⟩
  | none =>
    rcases pmemAlloc_cases supply memory with refused | ⟨nonzero, answered⟩
    · simp only [if_pos refused]
      exact ⟨layout, represents.refused, fun _ _ => rfl, fun _ => nofun, fun _ => trivial⟩
    · simp only [if_neg nonzero]
      refine ⟨_, represents.addTable user held answered, ?_, ?_, ?_⟩
      · intro slot entry
        exact update_of_ne (by simp) _ _
      · intro table equal
        rw [update_self]
        exact equal
      · intro _
        trivial

theorem Represents.tablePage_serves (pteMask : Word) {table : Frame}
    (user : UserSlot kernel (pdeIndex vaddr)) (root : layout (.table (pdeIndex vaddr)) = some table)
    : ∃ later,
      Serves supply pagedir before layout vaddr
        (tablePage supply.toSupply table (pteIndex vaddr) pteMask memory) later := by
  have entry := represents.entries _ table (pteIndex vaddr) root
  unfold tablePage
  cases mapped : layout (.page (pdeIndex vaddr) (pteIndex vaddr)) with
  | some page =>
    rw [mapped] at entry
    obtain ⟨oldMask, word⟩ := entry
    have marked : newPte oldMask page ≠ 0 := ne_zero_of_present (present_newPte oldMask page)
    simp only [word, marked, if_false, index_newPte]
    refine ⟨layout, represents, fun _ _ _ => id, ?_, ?_, ?_⟩
    · intro _
      exact ⟨user, mapped⟩
    · intro _ _ _
      rfl
    · intro _ _
      exact FrameSupply.given_ne_zero (represents.exclusive.given mapped)
  | none =>
    rw [mapped] at entry
    simp only [show memory.words table (pteIndex vaddr) = 0 from entry, if_true, index_newPte]
    rcases pmemAlloc_cases supply memory with refused | ⟨nonzero, answered⟩
    · simp only [refused, if_true]
      refine ⟨layout, represents.refused, fun _ _ _ => id, ?_, ?_, ?_⟩
      · intro nonzero
        exact absurd rfl nonzero
      · intro _ _ _
        rfl
      · intro _ held
        exact absurd mapped held
    · simp only [if_neg nonzero]
      refine ⟨_, represents.addPage root answered, ?_, ?_, ?_, ?_⟩
      · intro slot other page held
        rw [update_of_ne]
        · exact held
        · rintro same
          cases same
          rw [mapped] at held
          cases held
      · intro _
        exact ⟨user, update_self _ _ _⟩
      · intro null
        exact absurd null nonzero
      · intro _ held
        exact absurd mapped held

theorem Represents.pagedirGetOrNew_serves (pteMask : Word) (above : AboveLow kernel vaddr) :
    ∃ later,
      Serves supply pagedir before layout vaddr
        (pagedirGetOrNew supply.toSupply pagedir vaddr pteMask memory) later := by
  have keeps :
      ∀ {next : PhysMemory} {later : Layout}, Represents supply pagedir before later next →
        (∀ slot entry, later (.page slot entry) = layout (.page slot entry)) →
        (UserSlot kernel (pdeIndex vaddr) →
          layout (.page (pdeIndex vaddr) (pteIndex vaddr)) = none) →
        Serves supply pagedir before layout vaddr (0, next) later := by
    intro next later represented same unmapped
    constructor
    · exact represented
    · intro slot entry page held
      exact (same slot entry).trans held
    · intro nonzero
      exact absurd rfl nonzero
    · intro _
      exact same
    · intro user held
      exact absurd (unmapped user) held
  unfold pagedirGetOrNew
  by_cases below : vaddr < kernOff
  · rw [if_pos below]
    have user := userSlot_iff.mpr ⟨below, above⟩
    obtain ⟨later, represented, same, found, missing⟩ := represents.pageTable_spec user
    cases outcome : pageTable supply.toSupply pagedir vaddr memory with
    | mk result next =>
      rw [outcome] at represented found missing
      cases result with
      | none =>
        refine ⟨later, keeps represented same ?_⟩
        intro _
        exact represents.rooted _ _ (missing rfl)
      | some table =>
        obtain ⟨last, serves⟩ := represented.tablePage_serves pteMask user (found table rfl)
        refine ⟨last, serves.represents, ?_, serves.found, ?_, ?_⟩
        · intro slot entry page held
          apply serves.grows
          exact (same slot entry).trans held
        · intro null slot entry
          exact (serves.unchanged null slot entry).trans (same slot entry)
        · intro _ held
          apply serves.answers user
          rwa [same]
  · rw [if_neg below]
    refine ⟨layout, keeps represents (fun _ _ => rfl) ?_⟩
    intro user
    exact absurd (userSlot_iff.mp user).1 below

end Represented

/-! ## Sequences of calls -/

/-- A call and its result. -/
structure Call where
  vaddr : Word
  result : Frame

/-- Physical memory and the calls made so far. -/
structure Space where
  memory : PhysMemory
  calls : List Call

/-- The arguments of a call. -/
structure Request where
  vaddr : Word
  pteMask : Word

/-- The space after a call. -/
def Space.serve
    (supply : Supply Frame) (pagedir : Frame) (request : Request) (space : Space) : Space :=
  let (result, memory) := pagedirGetOrNew supply pagedir request.vaddr request.pteMask space.memory
  { memory := memory
    calls := ⟨request.vaddr, result⟩ :: space.calls }

/--
The calls for one directory.  `initial` is physical memory before
`pagedir_alloc`.
-/
def mappingSystem (supply : FrameSupply kernel) (initial : PhysMemory)
    (pagedir : Frame) : System Space Request where
  start space :=
    pagedir ≠ 0 ∧ pagedirAlloc supply.toSupply kernel initial = (pagedir, space.memory) ∧
      space.calls = []
  step space request target := target = space.serve supply.toSupply pagedir request

/--
A page table allocated for the directory: it came from `pmem_alloc`, and an
entry of the directory leads to it.
-/
def OwnTable
    (supply : Supply Frame) (pagedir : Frame) (memory : PhysMemory) (frame : Frame) : Prop :=
  supply.Given memory.granted frame ∧
    ∃ slot,
      present (memory.words pagedir slot) = true ∧ hugepage (memory.words pagedir slot) = false ∧
        index (memory.words pagedir slot) = frame

/-- What a user may rely on after some calls for one directory. -/
structure Coherent
    (supply : FrameSupply kernel) (initial : PhysMemory)
    (pagedir : Frame) (allowed : Word → Prop) (space : Space) :
    Prop where
  walked :
    ∀ call ∈ space.calls, call.result ≠ 0 →
      walk space.memory.words pagedir call.vaddr = some call.result
  oneToOne :
    ∀ first ∈ space.calls, ∀ second ∈ space.calls, first.result ≠ 0 → second.result ≠ 0 →
      (pageNumber first.vaddr = pageNumber second.vaddr ↔ first.result = second.result)
  repeated :
    ∀ call ∈ space.calls, call.result ≠ 0 →
      ∀ request : Request, pageNumber request.vaddr = pageNumber call.vaddr →
        (pagedirGetOrNew supply.toSupply pagedir request.vaddr
          request.pteMask space.memory).1 = call.result
  failed :
    ∀ request : Request, allowed request.vaddr →
      (pagedirGetOrNew supply.toSupply pagedir request.vaddr request.pteMask space.memory).1 = 0 →
      ∀ vaddr,
        walk
            (pagedirGetOrNew supply.toSupply pagedir request.vaddr
              request.pteMask space.memory).2.words pagedir vaddr =
          walk space.memory.words pagedir vaddr
  confined :
    ∀ frame slot, space.memory.words frame slot ≠ initial.words frame slot →
      frame = pagedir ∨ OwnTable supply.toSupply pagedir space.memory frame

/-- A layout stands behind the space, and every result is part of it. -/
def Mapped
    (supply : FrameSupply kernel) (initial : PhysMemory) (pagedir : Frame) (space : Space) : Prop :=
  ∃ layout,
    Represents supply pagedir initial.words layout space.memory ∧
      ∀ call ∈ space.calls, call.result ≠ 0 →
        UserSlot kernel (pdeIndex call.vaddr) ∧
          layout (.page (pdeIndex call.vaddr) (pteIndex call.vaddr)) = some call.result

/-- `pagedir_alloc` makes a directory without user mappings. -/
theorem pagedirAlloc_represents {initial memory : PhysMemory} (nonzero : pagedir ≠ 0)
    (made : pagedirAlloc supply.toSupply kernel initial = (pagedir, memory)) :
    Represents supply pagedir initial.words (fun _ => none) memory := by
  obtain ⟨frame, written⟩ := Prod.mk.inj made
  subst frame
  subst written
  have answered := ((pmemAlloc_cases supply initial).resolve_left nonzero).2
  constructor
  · exact exclusive_empty
  · exact ⟨initial.granted, Nat.lt_succ_self _, answered⟩
  · intro place held
    cases held
  · intro slot user
    simp only [PhysMemory.write, PhysMemory.clear, update_self]
    by_cases first : slot = 0
    · rw [first, update_self]
      exact user.2 first
    · rw [update_of_ne first, if_neg (not_le.mpr user.1)]
      rfl
  · intro slot kernelSlot
    refine ⟨?_, rfl⟩
    simp only [PhysMemory.write, PhysMemory.clear, update_self]
    by_cases first : slot = 0
    · rw [first, update_self]
    · rw [update_of_ne first, if_pos]
      by_contra small
      exact kernelSlot ⟨not_le.mp small, fun zero => absurd zero first⟩
  · intro slot table entry held
    cases held
  · intro slot entry _
    rfl
  · intro frame different _
    simp only [PhysMemory.write, PhysMemory.clear, update_of_ne different]

variable {initial : PhysMemory} {space : Space}

theorem mapped_serve {request : Request} (mapped : Mapped supply initial pagedir space)
    (above : AboveLow kernel request.vaddr) :
    Mapped supply initial pagedir (space.serve supply.toSupply pagedir request) := by
  obtain ⟨layout, represents, results⟩ := mapped
  obtain ⟨later, serves⟩ := represents.pagedirGetOrNew_serves request.pteMask above
  refine ⟨later, serves.represents, ?_⟩
  intro call member nonzero
  rcases List.mem_cons.mp member with rfl | earlier
  · exact serves.found nonzero
  · obtain ⟨user, held⟩ := results call earlier nonzero
    exact ⟨user, serves.grows _ _ _ held⟩

theorem coherent_of_mapped (mapped : Mapped supply initial pagedir space) :
    Coherent supply initial pagedir (AboveLow kernel) space := by
  obtain ⟨layout, represents, results⟩ := mapped
  constructor
  · intro call member nonzero
    obtain ⟨user, held⟩ := results call member nonzero
    exact (represents.walk_user user).trans held
  · intro first firstMember second secondMember firstNonzero secondNonzero
    obtain ⟨_, firstHeld⟩ := results first firstMember firstNonzero
    obtain ⟨_, secondHeld⟩ := results second secondMember secondNonzero
    rw [pageNumber_eq_iff]
    constructor
    · rintro ⟨sameTable, sameEntry⟩
      rw [sameTable, sameEntry, secondHeld] at firstHeld
      exact (Option.some.inj firstHeld).symm
    · intro sameFrame
      rw [sameFrame] at firstHeld
      exact Place.page.inj (represents.exclusive.single firstHeld secondHeld)
  · intro call member nonzero request samePage
    obtain ⟨user, held⟩ := results call member nonzero
    obtain ⟨sameTable, sameEntry⟩ := (pageNumber_eq_iff _ _).mp samePage
    rw [← sameTable] at user
    rw [← sameTable, ← sameEntry] at held
    obtain ⟨later, serves⟩ :=
      represents.pagedirGetOrNew_serves request.pteMask (userSlot_iff.mp user).2
    have answered := serves.answers user (by simp [held])
    have found := (serves.found answered).2
    rw [serves.grows _ _ _ held] at found
    exact (Option.some.inj found).symm
  · intro request above null vaddr
    obtain ⟨later, serves⟩ := represents.pagedirGetOrNew_serves request.pteMask above
    by_cases user : UserSlot kernel (pdeIndex vaddr)
    · rw [serves.represents.walk_user user, represents.walk_user user]
      exact serves.unchanged null _ _
    · rw [serves.represents.walk_kernel user, represents.walk_kernel user]
  · intro frame slot changed
    by_cases directory : frame = pagedir
    · exact Or.inl directory
    · apply Or.inr
      by_contra notOwn
      apply changed
      rw [represents.others frame directory]
      intro other held
      apply notOwn
      refine ⟨represents.exclusive.given held, other, ?_⟩
      have user : UserSlot kernel other := by
        by_contra kernelSlot
        rw [(represents.kernelSlots other kernelSlot).2] at held
        cases held
      rw [represents.userSlots other user, held]
      exact ⟨present_newPde _, hugepage_newPde _, index_newPde _⟩

/-- A kernel whose only mapping is the large page at address zero. -/
def lowKernel (slot : Slot) : Word := if slot = 0 then 0x83#32 else 0

theorem toNat_of_answered {request : Nat} {frame : Frame}
    (answered : (if request < 8 then some (BitVec.ofNat 20 (request + 1)) else none) = some frame) :
    frame.toNat = request + 1 := by
  simp only [Option.ite_none_right_eq_some, Option.some.injEq, ← BitVec.toNat_inj,
    BitVec.toNat_ofNat] at answered
  omega

/-- The eight frames from frame `1` on. -/
def eightFrames : FrameSupply lowKernel where
  answer request := if request < 8 then some (BitVec.ofNat 20 (request + 1)) else none
  distinct first second :=
    Nat.succ.inj ((toNat_of_answered first).symm.trans (toNat_of_answered second))
  nonzero request answered := Nat.succ_ne_zero request (toNat_of_answered answered).symm
  unused := by
    intro request slot marked small
    unfold lowKernel at marked small
    split at marked
    · rename_i zero
      rw [if_pos zero] at small
      exact absurd small (by decide)
    · exact absurd marked (by decide)

/-- Physical memory full of zeros. -/
def zeroMemory : PhysMemory where
  words := fun _ _ => 0
  granted := 0

/-- The space that `pagedir_alloc` makes in zeroed memory. -/
def freshSpace : Space where
  memory := (pagedirAlloc eightFrames.toSupply lowKernel zeroMemory).2
  calls := []

theorem freshSpace_start : (mappingSystem eightFrames zeroMemory 1).start freshSpace :=
  ⟨by decide, rfl, rfl⟩

end Cosec.Mem.UserMappings
