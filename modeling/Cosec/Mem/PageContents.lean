import Cosec.Lib.WordBytes
import Cosec.Mem.UserMappings

/-!
# The contents of user pages

What a process reads at an address is the byte of the page that its directory
maps there.  `pagedir_get_or_new` changes directories and tables only, so it
keeps the contents of the pages that are mapped; a store into one of those
pages keeps the mappings and the contents of the others.
-/

namespace Cosec.Mem.PageContents

open Function Lib.Holdings Lib.WordBytes Mem.PageTables Mem.UserMappings

/-! ## Reads in user mode -/

/-- The bit `user`. -/
def user (entry : Word) : Bool := entry.getLsbD 2

/-- The frame to which the processor translates an address in user mode. -/
def userWalk (words : Frame → Slot → Word) (pagedir : Frame) (vaddr : Word) : Option Frame :=
  let pde := words pagedir (pdeIndex vaddr)
  if user pde && (hugepage pde || user (words (index pde) (pteIndex vaddr)))
  then walk words pagedir vaddr
  else none

/-- The byte that a process reads at an address. -/
def userByte (words : Frame → Slot → Word) (pagedir : Frame) (vaddr : Word) : Option (BitVec 8) :=
  (userWalk words pagedir vaddr).map fun frame => byteAt (words frame) (vaddr.toNat % 4096)

theorem user_newPde (pagetbl : Frame) : user (newPde 0 pagetbl) = true :=
  getLsbD_setIndex _ pagetbl (by decide)

theorem user_newPte (pteMask : Word) (page : Frame) : user (newPte pteMask page) = true := by
  unfold user newPte
  rw [getLsbD_setIndex _ page (by decide), BitVec.getLsbD_or]
  simp

/-- A frame that is neither the directory nor a table. -/
def Plain (pagedir : Frame) (layout : Layout) (frame : Frame) : Prop :=
  frame ≠ pagedir ∧ ∀ slot, layout (.table slot) ≠ some frame

/-- Frames that `pmem_alloc` does not hand out. -/
def Foreign (supply : Supply Frame) (frame : Frame) : Prop :=
  ∀ request, supply.answer request ≠ some frame

/-- Memory after a page got new contents. -/
def fill (memory : PhysMemory) (page : Frame) (contents : Slot → Word) : PhysMemory :=
  { memory with words := update memory.words page contents }

theorem words_fill_self (page : Frame) (contents : Slot → Word) :
    (fill memory page contents).words page = contents :=
  update_self ..

theorem words_fill_of_ne {page frame : Frame} (different : frame ≠ page) (contents : Slot → Word) :
    (fill memory page contents).words frame = memory.words frame :=
  update_of_ne different ..

section Represented

variable {kernel : Slot → Word} {supply : FrameSupply kernel} {pagedir : Frame}
  {before : Frame → Slot → Word} {layout later : Layout} {memory : PhysMemory} {frame : Frame}
  (represents : Represents supply pagedir before layout memory)

include represents

theorem userWalk_eq {vaddr : Word} (userSlot : UserSlot kernel (pdeIndex vaddr)) :
    userWalk memory.words pagedir vaddr = layout (.page (pdeIndex vaddr) (pteIndex vaddr)) := by
  have walked := represents.walk_user userSlot
  unfold userWalk
  rw [walked, represents.userSlots _ userSlot]
  cases held : layout (.table (pdeIndex vaddr)) with
  | none =>
    rw [represents.rooted _ _ held]
    exact ite_self _
  | some table =>
    have entry := represents.entries _ table (pteIndex vaddr) held
    simp only [Option.elim_some, user_newPde, hugepage_newPde,
      index_newPde, Bool.true_and, Bool.false_or]
    cases mapped : layout (.page (pdeIndex vaddr) (pteIndex vaddr)) with
    | none => exact ite_self _
    | some page =>
      rw [mapped] at entry
      obtain ⟨pteMask, word⟩ := entry
      rw [word, user_newPte, if_pos rfl]

theorem plain_of_page {slot entry : Slot} (mapped : layout (.page slot entry) = some frame) :
    Plain pagedir layout frame := by
  constructor
  · rintro rfl
    exact represents.apart _ mapped
  · intro other held
    have same := represents.exclusive.single mapped held
    cases same

theorem plain_of_foreign (foreign : Foreign supply.toSupply frame) :
    Plain pagedir layout frame := by
  constructor
  · rintro rfl
    obtain ⟨request, _, answered⟩ := represents.directoryGiven
    exact foreign request answered
  · intro slot held
    obtain ⟨request, _, answered⟩ := represents.exclusive.given held
    exact foreign request answered

theorem fill_represents {slot entry : Slot} {page : Frame}
    (mapped : layout (.page slot entry) = some page) (contents : Slot → Word) :
    Represents supply pagedir (update before page contents) layout (fill memory page contents) := by
  obtain ⟨notDirectory, notTable⟩ := plain_of_page represents mapped
  constructor
  · exact represents.exclusive
  · exact represents.directoryGiven
  · exact represents.apart
  · intro other userSlot
    rw [words_fill_of_ne (Ne.symm notDirectory)]
    exact represents.userSlots other userSlot
  · intro other kernelSlot
    rw [words_fill_of_ne (Ne.symm notDirectory)]
    exact represents.kernelSlots other kernelSlot
  · intro other table otherEntry held
    have different : table ≠ page := by
      rintro rfl
      exact notTable other held
    rw [words_fill_of_ne different]
    exact represents.entries other table otherEntry held
  · exact represents.rooted
  · intro frame apart unheld
    by_cases here : frame = page
    · rw [here, words_fill_self, update_self]
    · rw [words_fill_of_ne here, update_of_ne here]
      exact represents.others frame apart unheld

end Represented

/-! ## Calls whose requests are answered -/

/-- None of the requests in a range is refused. -/
def Answered (supply : Supply Frame) (first last : Nat) : Prop :=
  ∀ request, first ≤ request → request < last → supply.answer request ≠ none

theorem Answered.mono
    {supply : Supply Frame} {first last lower upper : Nat} (answered : Answered supply first last)
    (below : first ≤ lower) (above : upper ≤ last) : Answered supply lower upper :=
  fun request inside outside =>
    answered request (le_trans below inside) (lt_of_lt_of_le outside above)

section Requests

variable {kernel : Slot → Word} {supply : FrameSupply kernel} {pagedir : Frame}
  {before : Frame → Slot → Word} {layout : Layout} {memory : PhysMemory}

theorem pageTable_granted
    (supply : Supply Frame) (pagedir : Frame) (vaddr : Word) (memory : PhysMemory) :
    memory.granted ≤ (pageTable supply pagedir vaddr memory).2.granted := by
  unfold pageTable pmemAlloc
  simp only
  split
  · split
    · exact Nat.le_succ _
    · exact Nat.le_succ _
  · exact le_rfl

theorem pagedirGetOrNew_granted
    (supply : Supply Frame) (pagedir : Frame) (vaddr pteMask : Word) (memory : PhysMemory) :
    memory.granted ≤ (pagedirGetOrNew supply pagedir vaddr pteMask memory).2.granted := by
  have first := pageTable_granted supply pagedir vaddr memory
  unfold pagedirGetOrNew
  split
  · split
    · rename_i missing
      rw [missing] at first
      exact first
    · rename_i pagetbl after found
      rw [found] at first
      refine le_trans first ?_
      unfold tablePage pmemAlloc
      simp only
      split
      · split
        · exact Nat.le_succ _
        · exact Nat.le_succ _
      · exact le_rfl
  · exact le_rfl

/-- A request that is answered gives a page. -/
theorem pmemAlloc_ne_zero
    (supply : FrameSupply kernel) (answered : supply.answer memory.granted ≠ none) :
    (pmemAlloc supply.toSupply memory).1 ≠ 0 := by
  obtain ⟨frame, given⟩ := Option.ne_none_iff_exists'.mp answered
  rw [pmemAlloc, given]
  rintro zero
  apply supply.nonzero memory.granted
  rw [given, ← zero]
  rfl

/-- The table is there when no request for it is refused. -/
theorem pageTable_answered (pagedir : Frame) (vaddr : Word) (memory : PhysMemory)
    (answered :
      Answered supply.toSupply memory.granted
        (pageTable supply.toSupply pagedir vaddr memory).2.granted) :
    (pageTable supply.toSupply pagedir vaddr memory).1 ≠ none := by
  unfold pageTable at answered ⊢
  simp only at answered ⊢
  split
  · rename_i empty
    rw [if_pos empty] at answered
    have given : (pmemAlloc supply.toSupply memory).1 ≠ 0 := by
      apply pmemAlloc_ne_zero
      apply answered _ le_rfl
      split
      · exact Nat.lt_succ_self _
      · exact Nat.lt_succ_self _
    rw [if_neg given]
    exact Option.some_ne_none _
  · exact Option.some_ne_none _

variable (represents : Represents supply pagedir before layout memory)

include represents

/-- A page is found when no request for it is refused. -/
theorem tablePage_answered {vaddr pteMask : Word} {table : Frame}
    (root : layout (.table (pdeIndex vaddr)) = some table)
    (answered :
      Answered supply.toSupply memory.granted
        (tablePage supply.toSupply table (pteIndex vaddr) pteMask memory).2.granted) :
    (tablePage supply.toSupply table (pteIndex vaddr) pteMask memory).1 ≠ 0 := by
  have entry := represents.entries _ table (pteIndex vaddr) root
  unfold tablePage at answered ⊢
  simp only at answered ⊢
  split
  · rename_i empty
    rw [if_pos empty] at answered
    have given : (pmemAlloc supply.toSupply memory).1 ≠ 0 := by
      apply pmemAlloc_ne_zero
      apply answered _ le_rfl
      split
      · exact Nat.lt_succ_self _
      · exact Nat.lt_succ_self _
    rw [if_neg given]
    simp only [index_newPte]
    exact given
  · rename_i present
    cases mapped : layout (.page (pdeIndex vaddr) (pteIndex vaddr)) with
    | none =>
      rw [mapped] at entry
      exact absurd entry present
    | some page =>
      rw [mapped] at entry
      obtain ⟨oldMask, word⟩ := entry
      simp only [word, index_newPte]
      exact FrameSupply.given_ne_zero (represents.exclusive.given mapped)

theorem pagedirGetOrNew_answered {vaddr pteMask : Word}
    (userSlot : UserSlot kernel (pdeIndex vaddr))
    (answered :
      Answered supply.toSupply memory.granted
        (pagedirGetOrNew supply.toSupply pagedir vaddr pteMask memory).2.granted) :
    (pagedirGetOrNew supply.toSupply pagedir vaddr pteMask memory).1 ≠ 0 := by
  obtain ⟨later, represented, _, found, _⟩ := represents.pageTable_spec userSlot
  have first := pageTable_granted supply.toSupply pagedir vaddr memory
  have table := @pageTable_answered kernel supply pagedir vaddr memory
  unfold pagedirGetOrNew at answered ⊢
  rw [if_pos (userSlot_iff.mp userSlot).1] at answered ⊢
  cases outcome : pageTable supply.toSupply pagedir vaddr memory with
  | mk result after =>
    rw [outcome] at answered represented found first table
    cases result with
    | none => exact absurd rfl (table answered)
    | some pagetbl =>
      apply tablePage_answered represented (found pagetbl rfl)
      exact answered.mono first le_rfl

end Requests

end Cosec.Mem.PageContents
