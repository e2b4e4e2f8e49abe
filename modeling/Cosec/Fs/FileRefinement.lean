import Cosec.Fs.BlockWrites

/-!
# Regular files as sparse byte arrays

A file is meant to be a sparse array of bytes: a read gives the byte last
written at each offset, zero where nothing was written, and ends at the
largest end of a write.

This holds for files inside the twelve direct blocks, for reads whose partial
first block does not run past the end of the file, and for unwritten bytes in
pages that no write touched.  Pages are not cleared, the first block of a
read is cut at the size of the file and not at its end, and the indirect
block is written as words and read as characters.
-/

namespace Cosec.Fs.FileRefinement

open Fs.BlockWrites Fs.FileBlocks Lib.ByteArrays Lib.Word32 List

/-! ## The abstract file -/

/-- The bytes the direct blocks hold. -/
def directBytes : Nat := 49152

/-- The pages `kmem_alloc` hands out are pages, and no page comes twice. -/
structure FreshPages (source : Nat → Nat) : Prop where
  aligned : ∀ call, source call % 4096 = 0
  inMemory : ∀ call, source call < 4294967296
  distinct : ∀ left right, source left ≠ 0 → source left = source right → left = right

/--
The direct blocks are distinct granted pages, a page is present exactly when
something in it was written, and written bytes are in their pages.
-/
structure Refines
    (source : Nat → Nat) (memory : PageMemory) (file : RegFile)
    (array : SparseArray UInt8) : Prop where
  noIndirect : file.indir1stBlock = 0
  granted :
    ∀ index, file.directblock index ≠ 0 →
      ∃ call < memory.granted, file.directblock index = source call
  separate :
    ∀ left right, file.directblock left ≠ 0 → file.directblock left = file.directblock right →
      left = right
  touched :
    ∀ index, file.directblock index ≠ 0 ↔ ∃ offset, offset / 4096 = index ∧ array offset ≠ none
  held :
    ∀ offset byte, array offset = some byte →
      offset < directBytes ∧ memory.bytes (file.directblock (offset / 4096) + offset % 4096) = byte

theorem refines_empty (source : Nat → Nat) (memory : PageMemory) :
    Refines source memory emptyFile SparseArray.empty where
  noIndirect := rfl
  granted := fun _ present => absurd rfl present
  separate := fun _ _ present _ => absurd rfl present
  touched := by
    simp [emptyFile, SparseArray.empty]
  held := by
    intro offset byte written
    cases written

variable {source : Nat → Nat} {memory : PageMemory} {file : RegFile} {array : SparseArray UInt8}

theorem Refines.page
    (refines : Refines source memory file array) (pages : FreshPages source) {index : Nat}
    (present : file.directblock index ≠ 0) :
    file.directblock index % 4096 = 0 ∧ file.directblock index < 4294967296 := by
  obtain ⟨call, _, pageEq⟩ := refines.granted index present
  rw [pageEq]
  exact ⟨pages.aligned call, pages.inMemory call⟩

/-! ## Writes -/

/-- The page a block is written to: the one present, or a new one. -/
def PageFor
    (source : Nat → Nat) (memory : PageMemory) (file : RegFile) (index page granted : Nat) : Prop :=
  (file.directblock index = page ∧ granted = memory.granted) ∨
    (file.directblock index = 0 ∧ page = source memory.granted ∧ granted = memory.granted + 1)

/-- A direct block is found or allocated. -/
theorem blockByIndexOrNew_direct
    (source : Nat → Nat) (memory : PageMemory) (file : RegFile) {index : Nat}
    (direct : index < 12) :
    ∃ page stored granted,
      blockByIndexOrNew source memory file index =
          (page, stored, { memory with granted := granted }) ∧
        PageFor source memory file index page granted ∧ stored.size = file.size ∧
        stored.indir1stBlock = file.indir1stBlock ∧
        ∀ other,
          stored.directblock other = if other = index then page else file.directblock other := by
  unfold blockByIndexOrNew
  rw [if_pos (by unfold nDirectBlocks; exact direct)]
  by_cases missing : file.directblock index = 0
  · rw [if_pos missing]
    exact ⟨_, _, _, rfl, Or.inr ⟨missing, rfl, rfl⟩, rfl, rfl, fun _ => rfl⟩
  · rw [if_neg missing]
    refine ⟨_, _, _, rfl, Or.inl ⟨rfl, rfl⟩, rfl, rfl, ?_⟩
    intro other
    split
    · rename_i same
      rw [same]
    · rfl

/-- The pages of a file after a block was found or allocated. -/
theorem Refines.pageFor (refines : Refines source memory file array) (pages : FreshPages source)
    {index page granted : Nat} (origin : PageFor source memory file index page granted)
    (nonNull : page ≠ 0) : (page % 4096 = 0 ∧ page < 4294967296) ∧
      (∃ call < granted, page = source call) ∧ memory.granted ≤ granted ∧
      ∀ other, other ≠ index → file.directblock other ≠ page := by
  rcases origin with ⟨present, grantedEq⟩ | ⟨missing, pageEq, grantedEq⟩
  · subst present
    obtain ⟨call, earlier, pageEq⟩ := refines.granted index nonNull
    refine ⟨refines.page pages nonNull, ⟨call, by omega, pageEq⟩, by omega, ?_⟩
    intro other different same
    exact different (refines.separate index other nonNull same.symm).symm
  · subst pageEq
    refine ⟨⟨pages.aligned _, pages.inMemory _⟩, ⟨memory.granted, by omega, rfl⟩, by omega, ?_⟩
    intro other different same
    obtain ⟨call, earlier, callEq⟩ := refines.granted other (same ▸ nonNull)
    have sameCall : call = memory.granted :=
      pages.distinct call memory.granted (callEq ▸ same ▸ nonNull) (callEq ▸ same)
    omega

variable {bytes : List UInt8}

theorem copyIn_newByte {old : Nat → UInt8} {byte : UInt8} {page index offset position : Nat}
    (inPage : offset + bytes.length ≤ 4096) (fits : page + offset + bytes.length ≤ 4294967296)
    (after : 4096 * index + offset ≤ position)
    (before : position < 4096 * index + offset + bytes.length)
    (written : bytes[position - (4096 * index + offset)]? = some byte) :
    copyIn old (page + offset) bytes (page + position % 4096) = byte := by
  obtain ⟨relative, relativeEq⟩ : ∃ relative, position = 4096 * index + offset + relative :=
    ⟨position - (4096 * index + offset), by omega⟩
  have relativeBound : relative < bytes.length := by omega
  have byteEq : bytes[relative]? = some byte := by
    rw [← written]
    congr 1
    omega
  have placeOf : position % 4096 = offset + relative := by omega
  have stores : copyIn old (page + offset) bytes (page + offset + relative) = bytes[relative] :=
    copyIn_inside fits relativeBound
  rw [placeOf, ← Nat.add_assoc]
  refine stores.trans ?_
  simpa [relativeBound] using byteEq

variable {stored : RegFile}

section Store

variable {index page offset : Nat} (refines : Refines source memory file array)
variable
  (blocks :
    ∀ other, stored.directblock other = if other = index then page else file.directblock other)

include refines blocks

theorem Refines.copyIn_oldByte (pages : FreshPages source) {granted position : Nat} {byte : UInt8}
    (origin : PageFor source memory file index page granted) (pageGrid : page % 4096 = 0)
    (pageBound : page < 4294967296) (inPage : offset + bytes.length ≤ 4096)
    (apart : ∀ other, other ≠ index → file.directblock other ≠ page)
    (outside :
      ¬ (4096 * index + offset ≤ position ∧ position < 4096 * index + offset + bytes.length))
    (written : array position = some byte) :
    position < directBytes ∧
      copyIn memory.bytes (page + offset) bytes
        (stored.directblock (position / 4096) + position % 4096) = byte := by
  obtain ⟨bound, stillThere⟩ := refines.held position byte written
  have present := (refines.touched _).mpr ⟨position, rfl, by simp [written]⟩
  have pageFacts := refines.page pages present
  have blockEq : stored.directblock (position / 4096) = file.directblock (position / 4096) := by
    rw [blocks]
    split
    · rename_i same
      rcases origin with ⟨samePage, _⟩ | ⟨missing, _⟩
      · rw [same, samePage]
      · rw [same] at present
        exact absurd missing present
    · rfl
  have missed :
      copyIn memory.bytes (page + offset) bytes
          (file.directblock (position / 4096) + position % 4096) =
        memory.bytes (file.directblock (position / 4096) + position % 4096) := by
    apply copyIn_outside (by omega) (by omega)
    by_cases samePage : position / 4096 = index
    · rw [← blockEq, blocks, if_pos samePage]
      omega
    · have different := apart _ samePage
      omega
  rw [blockEq]
  exact ⟨bound, missed.trans stillThere⟩

/-- The blocks are still different pages when one of them is set. -/
theorem Refines.separate_store
    {left right : Nat} (apart : ∀ other, other ≠ index → file.directblock other ≠ page)
    (present : stored.directblock left ≠ 0)
    (same : stored.directblock left = stored.directblock right) : left = right := by
  rw [blocks left] at present same
  rw [blocks right] at same
  by_cases leftHere : left = index
  · by_cases rightHere : right = index
    · exact leftHere.trans rightHere.symm
    · rw [if_pos leftHere, if_neg rightHere] at same
      exact absurd same.symm (apart right rightHere)
  · rw [if_neg leftHere] at present same
    by_cases rightHere : right = index
    · rw [if_pos rightHere] at same
      exact absurd same (apart left leftHere)
    · rw [if_neg rightHere] at same
      exact refines.separate left right present same

/-- The blocks present are still those with something written in them. -/
theorem Refines.touched_store (nonNull : page ≠ 0) (nonempty : bytes ≠ [])
    (inPage : offset + bytes.length ≤ 4096) (other : Nat) :
    stored.directblock other ≠ 0 ↔
      ∃ position, position / 4096 = other ∧
        array.write (4096 * index + offset) bytes position ≠ none := by
  have positive : 0 < bytes.length := length_pos_iff.mpr nonempty
  rw [blocks]
  split
  · rename_i same
    refine ⟨fun _ => ⟨4096 * index + offset, by omega, ?_⟩, fun _ => nonNull⟩
    rw [SparseArray.write_inside (by omega) (by omega)]
    simp [nonempty]
  · rename_i different
    rw [refines.touched other]
    have unchanged (position : Nat) (inOther : position / 4096 = other) :
        array.write (4096 * index + offset) bytes position = array position :=
      SparseArray.write_outside (by omega)
    constructor
    · rintro ⟨position, inOther, written⟩
      exact ⟨position, inOther, by rwa [unchanged position inOther]⟩
    · rintro ⟨position, inOther, written⟩
      rw [unchanged position inOther] at written
      exact ⟨position, inOther, written⟩

theorem Refines.store (pages : FreshPages source) {granted : Nat} (direct : index < 12)
    (origin : PageFor source memory file index page granted) (nonNull : page ≠ 0)
    (nonempty : bytes ≠ []) (inPage : offset + bytes.length ≤ 4096)
    (indirectKept : stored.indir1stBlock = file.indir1stBlock) :
    Refines source ⟨copyIn memory.bytes (wrap32 (page + offset)) bytes, granted⟩ stored
      (array.write (4096 * index + offset) bytes) := by
  obtain ⟨⟨pageGrid, pageBound⟩, pageCall, moreGranted, apart⟩ :=
    refines.pageFor pages origin nonNull
  have positive : 0 < bytes.length := length_pos_iff.mpr nonempty
  have destEq : wrap32 (page + offset) = page + offset := wrap32_of_lt (by omega)
  rw [destEq]
  refine ⟨indirectKept.trans refines.noIndirect, ?_, ?_, ?_, ?_⟩
  · intro other present
    rw [blocks] at present ⊢
    split at present
    · rename_i same
      rw [if_pos same]
      exact pageCall
    · rename_i different
      rw [if_neg different]
      obtain ⟨call, earlier, callEq⟩ := refines.granted other present
      exact ⟨call, lt_of_lt_of_le earlier moreGranted, callEq⟩
  · intro left right present same
    exact refines.separate_store blocks apart present same
  · intro other
    exact refines.touched_store blocks nonNull nonempty inPage other
  · intro position byte written
    by_cases inside :
        4096 * index + offset ≤ position ∧ position < 4096 * index + offset + bytes.length
    · rw [SparseArray.write_inside inside.1 inside.2] at written
      have here : position / 4096 = index := by omega
      rw [here, blocks, if_pos rfl]
      refine ⟨by unfold directBytes; omega, ?_⟩
      exact copyIn_newByte inPage (by omega) inside.1 inside.2 written
    · rw [SparseArray.write_outside (by omega)] at written
      exact
        refines.copyIn_oldByte blocks pages origin pageGrid pageBound inPage apart inside written

end Store

theorem writeBlock_refines (pages : FreshPages source) {transfer written : Transfer} {offset : Nat}
    (refines : Refines source transfer.memory transfer.file array) (direct : transfer.blkindex < 12)
    (nonempty : bytes ≠ []) (inPage : offset + bytes.length ≤ 4096)
    (stored : writeBlock source transfer offset bytes = (true, written)) :
    Refines source written.memory written.file
        (array.write (4096 * transfer.blkindex + offset) bytes) ∧
      written.nwrite = transfer.nwrite + bytes.length ∧ written.blkindex = transfer.blkindex + 1 ∧
      written.file.size = transfer.file.size := by
  obtain ⟨page, file, granted, found, origin, sizeKept, indirectKept, blocks⟩ :=
    blockByIndexOrNew_direct source transfer.memory transfer.file direct
  unfold writeBlock at stored
  rw [found] at stored
  simp only at stored
  by_cases missing : page = 0
  · rw [if_pos missing] at stored
    cases stored
  · rw [if_neg missing] at stored
    cases stored
    exact ⟨refines.store blocks pages direct origin missing nonempty inPage indirectKept,
      rfl, rfl, sizeKept⟩

theorem writeBlock_refines_next
    (pages : FreshPages source) {buf : List UInt8} {pos count : Nat} {transfer written : Transfer}
    (nonempty : buf ≠ []) (limit : pos + buf.length ≤ directBytes)
    (refines :
      Refines source transfer.memory transfer.file (array.write pos (buf.take transfer.nwrite)))
    (position : AtBlock pos buf (count + 1) transfer)
    (stored :
      writeBlock source transfer (blockOffset pos transfer.blkindex)
        (blockPiece pos buf transfer.blkindex) = (true, written)) :
    Refines source written.memory written.file (array.write pos (buf.take written.nwrite)) ∧
      written.file.size = transfer.file.size := by
  have positive : 0 < buf.length := length_pos_iff.mpr nonempty
  have ⟨started, _, within, nwrite⟩ := position
  have length := length_blockPiece pos buf transfer.blkindex
  unfold directBytes at limit
  have place :
      4096 * transfer.blkindex + blockOffset pos transfer.blkindex = pos + transfer.nwrite := by
    unfold blockOffset
    omega
  have piece :
      blockPiece pos buf transfer.blkindex =
        (buf.drop transfer.nwrite).take (4096 - blockOffset pos transfer.blkindex) := by
    rw [blockPiece, show 4096 * transfer.blkindex - pos = transfer.nwrite by omega]
  obtain ⟨refined, nwriteEq, _, sizeEq⟩ :=
    writeBlock_refines pages refines (by omega)
      (ne_nil_of_length_pos (by unfold blockOffset at length; omega)) position.inPage stored
  have joined := array.write_append pos (buf.take transfer.nwrite)
    ((buf.drop transfer.nwrite).take (4096 - blockOffset pos transfer.blkindex))
  rw [length_take_of_le (by omega)] at joined
  rw [place, piece, joined, ← take_add] at refined
  have taken :
      buf.take (transfer.nwrite + (4096 - blockOffset pos transfer.blkindex)) =
        buf.take written.nwrite := by
    rw [take_eq_take_iff]
    omega
  rw [taken] at refined
  exact ⟨refined, sizeEq⟩

theorem writeInode_refines (pages : FreshPages source) (refines : Refines source memory file array)
    {buf : List UInt8} {pos count : Nat} {written : RegFile} {changed : PageMemory}
    (nonempty : buf ≠ []) (limit : pos + buf.length ≤ directBytes)
    (returned : writeInode source memory file pos buf = some (.ok (), count, written, changed)) :
    Refines source changed written (array.write pos buf) ∧ count = buf.length ∧
      written.size = max file.size (pos + buf.length : Int) := by
  obtain ⟨transfer, ended, exited⟩ := writeBlocks_of_writeInode returned
  obtain ⟨kept, position⟩ :=
    @writeBlocks_rule _ _ _ _ _ _
      (fun done transfer => done = true →
        Refines source transfer.memory transfer.file (array.write pos (buf.take transfer.nwrite)) ∧
          transfer.file.size = file.size) (by
        intro count transfer done written holds position stored succeeded
        subst succeeded
        obtain ⟨earlier, size⟩ := holds rfl
        obtain ⟨refined, same⟩ :=
          writeBlock_refines_next pages nonempty limit earlier position stored
        exact ⟨refined, same.trans size⟩)
      _ (fun _ => ⟨by simpa using refines, rfl⟩) (atBlock_start pos buf memory file) ended
  obtain ⟨refined, size⟩ := kept rfl
  have whole : transfer.nwrite = buf.length := by
    have ⟨_, reaches, _, nwrite⟩ := position rfl
    omega
  rw [whole, take_length] at refined
  have endEq : asInt32 (wrap32 (pos + buf.length)) = (pos + buf.length : Int) :=
    asInt32_wrap32_of_lt (by unfold directBytes at limit; omega)
  obtain ⟨rfl, rfl, rfl⟩ := exited
  split
  · exact ⟨⟨refined.noIndirect, refined.granted, refined.separate, refined.touched, refined.held⟩,
      whole, by simp only; omega⟩
  · exact ⟨refined, whole, by omega⟩

/-! ## Reads -/

/-- The byte a file shows at an offset. -/
def shownByte (memory : PageMemory) (file : RegFile) (offset : Nat) : UInt8 :=
  let blkdata := blockByIndex memory file (offset / 4096)
  if blkdata = 0 then 0
  else memory.bytes (wrap32 (blkdata + offset % 4096))

/-- The first `nread` bytes of a buffer were read, the others are kept. -/
structure Filled
    (memory : PageMemory) (file : RegFile) (pos : Nat)
    (original : Nat → UInt8) (nread : Nat) (buf : Nat → UInt8) :
    Prop where
  stored : ∀ index < nread, buf index = shownByte memory file (pos + index)
  kept : ∀ index, nread ≤ index → buf index = original index

variable {original buf : Nat → UInt8} {pos buflen : Nat}

/-- One block of a read fills the buffer further. -/
theorem readBlock_filled
    {nread blkindex offset count : Nat} (filled : Filled memory file pos original nread buf)
    (placed : pos + nread = 4096 * blkindex + offset) (inPage : offset + count ≤ 4096) :
    Filled memory file pos original (nread + count)
      (readBlock memory file blkindex offset buf nread count) := by
  have value (index : Nat) (inside : index < count) :
      shownByte memory file (pos + (nread + index)) =
        if blockByIndex memory file blkindex = 0 then 0 else
          memory.bytes (wrap32 (blockByIndex memory file blkindex + offset + index)) := by
    have pageOf : (pos + (nread + index)) / 4096 = blkindex := by omega
    have placeOf : (pos + (nread + index)) % 4096 = offset + index := by omega
    simp only [shownByte, pageOf, placeOf, Nat.add_assoc]
  have inBlock (index : Nat) (inside : index < count) :
      readBlock memory file blkindex offset buf nread count (nread + index) =
        shownByte memory file (pos + (nread + index)) := by
    rw [value index inside]
    unfold readBlock storeBuffer
    by_cases hole : blockByIndex memory file blkindex = 0
    · simp [hole, inside]
    · simp [hole, inside]
  have outBlock (index : Nat) (outside : ¬ (nread ≤ index ∧ index < nread + count)) :
      readBlock memory file blkindex offset buf nread count index = buf index := by
    unfold readBlock storeBuffer
    by_cases hole : blockByIndex memory file blkindex = 0
    · simp only [hole, ne_eq, not_true_eq_false, if_false, if_neg outside]
    · simp only [hole, ne_eq, not_false_eq_true, if_true, if_neg outside]
  constructor
  · intro index inside
    rcases lt_or_ge index nread with earlier | later
    · rw [outBlock index (by omega)]
      exact filled.stored index earlier
    · have := inBlock (index - nread) (by omega)
      rwa [Nat.add_sub_cancel' later] at this
  · intro index outside
    rw [outBlock index (by omega)]
    exact filled.kept index (by omega)

variable {size : Nat}

/-- The loop over whole pages reads up to the last whole page. -/
theorem readPages_filled
    {fuel nread blkindex : Nat} (sizeEq : file.size = size) (bounded : pos + buflen < 2147483648)
    (enough : buflen < nread + 4096 * fuel) (filled : Filled memory file pos original nread buf)
    (started : nread ≤ min buflen (size - pos))
    (placed : nread = min buflen (size - pos) ∨ pos + nread = 4096 * blkindex) :
    ∃ done block result,
      readPages memory file pos buflen fuel nread blkindex buf = some (done, block, result) ∧
        Filled memory file pos original done result ∧ done ≤ min buflen (size - pos) ∧
        min buflen (size - pos) < done + 4096 ∧
        (done = min buflen (size - pos) ∨ pos + done = 4096 * block) := by
  induction fuel generalizing nread blkindex buf with
  | zero => omega
  | succ fuel ih =>
    have nextEq : wrap32 (nread + pageBytes) = nread + 4096 :=
      wrap32_of_lt (by unfold pageBytes; omega)
    have signed (fits : nread + 4096 ≤ buflen) :
        asInt32 (wrap32 (pos + nread + pageBytes)) = (pos + nread + pageBytes : Nat) :=
      asInt32_wrap32_of_lt (by unfold pageBytes; omega)
    rw [readPages, nextEq]
    by_cases wholePage :
        nread + 4096 ≤ buflen ∧ asInt32 (wrap32 (pos + nread + pageBytes)) ≤ file.size
    · rw [if_pos wholePage]
      have inFile : pos + nread + 4096 ≤ size := by
        have inside := wholePage.2
        rw [signed wholePage.1, pageBytes] at inside
        omega
      exact ih (by unfold pageBytes; omega)
        (readBlock_filled filled (by omega) (by unfold pageBytes; omega))
        (by unfold pageBytes; omega) (by unfold pageBytes; omega)
    · rw [if_neg wholePage]
      refine ⟨nread, blkindex, buf, rfl, filled, started, ?_, placed⟩
      by_contra tooFar
      refine wholePage ⟨by omega, ?_⟩
      rw [signed (by omega), pageBytes]
      omega

/--
The partial block at the start of a read, when it does not run past the end
of the file.
-/
theorem readHead_filled (memory : PageMemory) (buf : Nat → UInt8) (sizeEq : file.size = size)
    (bounded : pos + buflen < 2147483648)
    (inFile : pos % 4096 = 0 ∨ min (4096 - pos % 4096) buflen ≤ size - pos) :
    ∃ done block result,
      readHead memory file pos buf buflen = (done, block, result) ∧
        Filled memory file pos buf done result ∧ done ≤ min buflen (size - pos) ∧
        (done = min buflen (size - pos) ∨ pos + done = 4096 * block) := by
  have unread : Filled memory file pos buf 0 buf :=
    ⟨fun _ inside => absurd inside (Nat.not_lt_zero _), fun _ _ => rfl⟩
  unfold readHead
  by_cases aligned : pos % pageBytes = 0
  · simp only [if_pos aligned]
    refine ⟨_, _, _, rfl, unread, Nat.zero_le _, Or.inr ?_⟩
    unfold pageBytes at aligned ⊢
    omega
  · simp only [if_neg aligned]
    unfold pageBytes at aligned ⊢
    have cut : headCount file pos buflen = min (4096 - pos % 4096) buflen := by
      unfold headCount pageBytes
      have small : min (4096 - pos % 4096) buflen < 2147483648 := by omega
      simp only [asInt32_of_lt small]
      exact if_neg (by omega)
    have inPage : pos % 4096 + min (4096 - pos % 4096) buflen ≤ 4096 := by omega
    have headFilled :=
      readBlock_filled unread (show pos + 0 = 4096 * (pos / 4096) + pos % 4096 by omega) inPage
    rw [Nat.zero_add] at headFilled
    rw [cut]
    exact ⟨_, _, _, rfl, headFilled, by omega, by omega⟩

/-- The partial block at the end of a read. -/
theorem readTail_filled
    {nread blkindex size : Nat} (sizeEq : file.size = size) (bounded : pos + buflen < 2147483648)
    (filled : Filled memory file pos original nread buf) (started : nread ≤ min buflen (size - pos))
    (less : min buflen (size - pos) < nread + 4096)
    (placed : nread = min buflen (size - pos) ∨ pos + nread = 4096 * blkindex) :
    ∃ result,
      readTail memory file pos buflen nread blkindex buf = (min buflen (size - pos), result) ∧
        Filled memory file pos original (min buflen (size - pos)) result := by
  have signed : asInt32 (wrap32 (pos + nread)) = (pos + nread : Nat) :=
    asInt32_wrap32_of_lt (by omega)
  unfold readTail
  by_cases remaining : nread < buflen ∧ asInt32 (wrap32 (pos + nread)) < file.size
  · rw [if_pos remaining]
    have count : nread + tailCount file pos buflen nread = min buflen (size - pos) := by
      have lengthEq : pos + nread + (buflen - nread) = pos + buflen := by omega
      unfold tailCount
      simp only [lengthEq, asInt32_wrap32_of_lt bounded, sizeEq, Int.toNat_natCast, Int.ofNat_lt]
      rw [wrap32_of_lt (by omega)]
      split
      · rw [sub32_of_le (by omega) (by omega)]
        omega
      · omega
    refine ⟨_, Prod.ext count rfl, ?_⟩
    rw [← count]
    exact readBlock_filled filled (by omega) (by omega)
  · rw [if_neg remaining]
    have whole : nread = min buflen (size - pos) := by omega
    rw [← whole]
    exact ⟨_, rfl, filled⟩

/-- A read stores the bytes the file shows, up to its end. -/
theorem readInode_filled (memory : PageMemory) (buf : Nat → UInt8) (sizeEq : file.size = size)
    (bounded : pos + buflen < 2147483648)
    (inFile : pos % 4096 = 0 ∨ size ≤ pos ∨ min (4096 - pos % 4096) buflen ≤ size - pos) :
    ∃ result,
      readInode memory file pos buf buflen = some (min buflen (size - pos), result) ∧
        Filled memory file pos buf (min buflen (size - pos)) result := by
  unfold readInode
  by_cases ended : file.size ≤ pos
  · rw [if_pos ended]
    have none : min buflen (size - pos) = 0 := by omega
    rw [none]
    exact ⟨buf, rfl, fun _ inside => absurd inside (Nat.not_lt_zero _), fun _ _ => rfl⟩
  · rw [if_neg ended]
    obtain ⟨head, headBlock, headBuf, headEq, headFilled, headStarted, headPlaced⟩ :=
      readHead_filled memory buf sizeEq bounded (by omega)
    obtain ⟨whole, block, wholeBuf, pagesEq, filled, started, less, placed⟩ :=
      readPages_filled sizeEq bounded (show buflen < head + 4096 * (buflen / pageBytes + 2) by
          unfold pageBytes
          omega)
        headFilled headStarted headPlaced
    obtain ⟨result, tailEq, tailFilled⟩ := readTail_filled sizeEq bounded filled started less placed
    simp only [headEq, pagesEq, tailEq]
    exact ⟨result, rfl, tailFilled⟩

theorem Refines.shown
    (refines : Refines source memory file array) (pages : FreshPages source) {offset : Nat}
    (known : array offset = none → ∀ other, other / 4096 = offset / 4096 → array other = none) :
    shownByte memory file offset = (array offset).getD 0 := by
  unfold shownByte blockByIndex nDirectBlocks
  cases written : array offset with
  | none =>
    have hole : file.directblock (offset / 4096) = 0 := by
      by_contra present
      obtain ⟨other, inPage, held⟩ := (refines.touched _).mp present
      exact held (known written other inPage)
    simp [hole, refines.noIndirect]
  | some byte =>
    obtain ⟨bound, held⟩ := refines.held offset byte written
    have present := (refines.touched _).mpr ⟨offset, rfl, by simp [written]⟩
    have pageFacts := refines.page pages present
    have direct : offset / 4096 < 12 := by
      unfold directBytes at bound
      omega
    simp only [if_pos direct, if_neg present]
    rw [wrap32_of_lt (by omega)]
    exact held

/-! ## Runs -/

/-- A call of `ramfs_write_inode`. -/
structure FileWrite where
  pos : Nat
  bytes : List UInt8

/-- The file and the memory after writes that all return zero. -/
def writeAll (source : Nat → Nat) :
    PageMemory → RegFile → List FileWrite → Option (RegFile × PageMemory)
  | memory, file, [] => some (file, memory)
  | memory, file, write :: rest =>
    match writeInode source memory file write.pos write.bytes with
    | some (.ok (), _, written, changed) => writeAll source changed written rest
    | _ => none

/-- What the writes put at each offset. -/
def contents (writes : List FileWrite) : SparseArray UInt8 :=
  writes.foldl (fun array write => array.write write.pos write.bytes) SparseArray.empty

/-- The largest end of a write. -/
def writtenEnd (writes : List FileWrite) : Nat :=
  writes.foldl (fun size write => max size (write.pos + write.bytes.length)) 0

/-- A write of at least a byte inside the direct blocks. -/
def StaysDirect (write : FileWrite) : Prop :=
  write.bytes ≠ [] ∧ write.pos + write.bytes.length ≤ directBytes

/-- The writes of a run refine the writes of the array. -/
theorem writeAll_refines (pages : FreshPages source) {writes : List FileWrite}
    (refines : Refines source memory file array) (sizeEq : file.size = size)
    (direct : ∀ write ∈ writes, StaysDirect write) {written : RegFile} {changed : PageMemory}
    (run : writeAll source memory file writes = some (written, changed)) :
    Refines source changed written
        (writes.foldl (fun array write => array.write write.pos write.bytes) array) ∧
      written.size =
        (writes.foldl (fun size write => max size (write.pos + write.bytes.length))
          size : Nat) := by
  induction writes generalizing memory file array size with
  | nil =>
    cases run
    exact ⟨refines, sizeEq⟩
  | cons write rest ih =>
    rw [writeAll] at run
    split at run
    · rename_i returned
      obtain ⟨nonempty, limit⟩ := direct write mem_cons_self
      obtain ⟨refined, _, grown⟩ := writeInode_refines pages refines nonempty limit returned
      exact ih refined (by rw [grown, sizeEq]; simp only; omega)
        (fun later member => direct later (mem_cons_of_mem _ member)) run
    · cases run

/--
The size of the file is the largest end of a write, and a read ends there,
stores the last written bytes with zeros in the holes, and nothing else.
-/
def ShowsWrites (writes : List FileWrite) (memory : PageMemory) (file : RegFile)
    (pos : Nat) (buf : Nat → UInt8) (buflen : Nat) : Prop :=
  file.size = (writtenEnd writes : Int) ∧
    ∃ result,
      readInode memory file pos buf buflen = some (min buflen (writtenEnd writes - pos), result) ∧
        (∀ index < min buflen (writtenEnd writes - pos),
          result index = (contents writes (pos + index)).getD 0) ∧
        ∀ index, min buflen (writtenEnd writes - pos) ≤ index → result index = buf index

/--
The partial first block of a read ends inside the file, and the unwritten
bytes a read covers lie in pages that no write touched.
-/
structure ReadsCleanly (writes : List FileWrite) (pos buflen : Nat) : Prop where
  headInFile :
    pos % 4096 = 0 ∨ writtenEnd writes ≤ pos ∨
      min (4096 - pos % 4096) buflen ≤ writtenEnd writes - pos
  holesUntouched :
    ∀ index < min buflen (writtenEnd writes - pos),
      contents writes (pos + index) = none →
        ∀ other, other / 4096 = (pos + index) / 4096 → contents writes other = none

/-- Writes inside the direct blocks are read back by clean reads. -/
theorem file_shows_writes {source : Nat → Nat} {memory changed : PageMemory} {file : RegFile}
    {writes : List FileWrite} {pos buflen : Nat} (buf : Nat → UInt8) (pages : FreshPages source)
    (direct : ∀ write ∈ writes, StaysDirect write)
    (run : writeAll source memory emptyFile writes = some (file, changed))
    (bounded : pos + buflen < 2147483648) (clean : ReadsCleanly writes pos buflen) :
    ShowsWrites writes changed file pos buf buflen := by
  obtain ⟨refines, sizeEq⟩ :=
    writeAll_refines pages (refines_empty source memory)
      (show emptyFile.size = ((0 : Nat) : Int) from rfl) direct run
  obtain ⟨result, readEq, filled⟩ := readInode_filled changed buf sizeEq bounded clean.headInFile
  refine ⟨sizeEq, result, readEq, ?_, filled.kept⟩
  intro index inside
  rw [filled.stored index inside]
  exact refines.shown pages (clean.holesUntouched index inside)

/-- Four pages, and no memory behind them. -/
def fourPages (call : Nat) : Nat := if call < 4 then 4096 * (call + 1) else 0

theorem fourPages_fresh : FreshPages fourPages where
  aligned := by
    intro call
    unfold fourPages
    split <;> omega
  inMemory := by
    intro call
    unfold fourPages
    split <;> omega
  distinct := by
    intro left right
    unfold fourPages
    split <;> split <;> omega

/-- Memory full of ones, as no allocation left it. -/
def oldMemory : PageMemory where
  bytes := fun _ => 1
  granted := 0

theorem file_shows_writes_sample :
    ∃ file changed,
      writeAll fourPages oldMemory emptyFile [⟨4094, [7, 8, 9]⟩] = some (file, changed) ∧
        ShowsWrites [⟨4094, [7, 8, 9]⟩] changed file 4095 (fun _ => 5) 2 := by
  obtain ⟨file, changed, run⟩ :
      ∃ file changed,
        writeAll fourPages oldMemory emptyFile [⟨4094, [7, 8, 9]⟩] = some (file, changed) :=
    ⟨_, _, rfl⟩
  refine ⟨file, changed, run, file_shows_writes (fun _ => 5) fourPages_fresh ?_ run (by decide) ?_⟩
  · simp [StaysDirect, directBytes]
  · refine ⟨by decide, ?_⟩
    intro index inside unwritten
    have either : index = 0 ∨ index = 1 := by omega
    rcases either with rfl | rfl <;> cases unwritten

/--
A read that starts inside the first block counts the bytes in front of it
too: ten bytes from offset five on, in a file of ten bytes.
-/
theorem read_past_end :
    ∃ (source : Nat → Nat) (memory changed : PageMemory)
      (file : RegFile) (writes : List FileWrite) (pos buflen : Nat) (buf : Nat → UInt8),
      FreshPages source ∧
        (∀ write ∈ writes, write.bytes ≠ [] ∧ write.pos + write.bytes.length < 2147483648) ∧
        writeAll source memory emptyFile writes = some (file, changed) ∧ 0 < buflen ∧
        pos + buflen < 2147483648 ∧ ¬ ShowsWrites writes changed file pos buf buflen := by
  refine ⟨fourPages, oldMemory, _, _, [⟨0, List.replicate 10 7⟩], 5, 100,
    fun _ => 5, fourPages_fresh, by simp, rfl, by decide, by decide, ?_⟩
  rintro ⟨_, result, readEq, _⟩
  have count : some 10 = some 5 := congrArg (Option.map Prod.fst) readEq
  revert count
  decide

end Cosec.Fs.FileRefinement
