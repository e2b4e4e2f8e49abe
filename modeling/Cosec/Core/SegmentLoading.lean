import Mathlib.Data.List.Range
import Cosec.Core.ElfSegments
import Cosec.Lib.ByteArrays
import Cosec.Mem.PageContents

/-!
# What a loaded process finds in memory

To a process, loading is a sequence of writes to a sparse array of bytes, its
address space: each segment is written from its first address to the end of
its last page, the bytes of the image first and zeros behind them.  Segments
come in ascending order, so a later one does not reach what an earlier one
wrote, also when they meet in one page.
-/

namespace Cosec.Core.SegmentLoading

open Core.ElfSegments Function Lib.ByteArrays Lib.Holdings Lib.Word32 Lib.WordBytes
open Libc.ErrorNumbers List Mem.PageContents Mem.PageTables Mem.UserMappings

/-! ## Pages of addresses -/

variable {addr : Nat}

theorem toNat_pageNumber (small : addr < 4294967296) :
    (pageNumber (BitVec.ofNat 32 addr)).toNat = addr / 4096 := by
  simp only [pageNumber, BitVec.extractLsb'_toNat, BitVec.toNat_ofNat, Nat.shiftRight_eq_div_pow]
  omega

/-- The place of the page of an address. -/
def pagePlace (addr : Nat) : Place :=
  .page (pdeIndex (BitVec.ofNat 32 addr)) (pteIndex (BitVec.ofNat 32 addr))

/-- Addresses in one page have the same entries. -/
theorem pagePlace_eq_iff
    {first second : Nat} (firstSmall : first < 4294967296) (secondSmall : second < 4294967296) :
    pagePlace first = pagePlace second ↔ first / 4096 = second / 4096 := by
  rw [pagePlace, pagePlace, Place.page.injEq, ← pageNumber_eq_iff, ← BitVec.toNat_inj,
    toNat_pageNumber firstSmall, toNat_pageNumber secondSmall]

/-- The addresses of a process outside the kernel's mappings. -/
def UserAddress (addr : Nat) : Prop := 0x400000 ≤ addr ∧ addr < 0xc0000000

theorem UserAddress.value (inside : UserAddress addr) : (BitVec.ofNat 32 addr).toNat = addr := by
  have high := inside.2
  rw [BitVec.toNat_ofNat]
  omega

theorem UserAddress.userSlot {kernel : Slot → Word} (inside : UserAddress addr) :
    UserSlot kernel (pdeIndex (BitVec.ofNat 32 addr)) := by
  have value := inside.value
  obtain ⟨low, high⟩ := inside
  apply userSlot_iff.mpr
  constructor
  · show (BitVec.ofNat 32 addr).toNat < 3221225472
    omega
  · refine Or.inl ?_
    show 4194304 ≤ (BitVec.ofNat 32 addr).toNat
    omega

variable {kernel : Slot → Word} {supply : FrameSupply kernel} {initial memory : PhysMemory}
  {pagedir : Frame} {content : SparseArray (BitVec 8)}

/--
Physical memory holds an address space: the process reads every byte of
`content`, and frames that are not handed out are as they were.
-/
structure Loaded
    (supply : FrameSupply kernel) (initial : PhysMemory) (pagedir : Frame) (memory : PhysMemory)
    (content : SparseArray (BitVec 8)) : Prop where
  mapped :
    ∃ before layout,
      Represents supply pagedir before layout memory ∧
        ∀ frame, Foreign supply.toSupply frame → before frame = initial.words frame
  held :
    ∀ addr byte, content addr = some byte →
      UserAddress addr ∧ userByte memory.words pagedir (BitVec.ofNat 32 addr) = some byte

/-- The contents of a page after a copy and zeros behind it. -/
def pageContents
    (words : Slot → Word) (voff size count : Nat) (value : Nat → BitVec 8) : Slot → Word :=
  storeBytes (storeBytes words voff count value) (voff + count) (size - count) fun _ => 0

theorem slot_toNat {offset : Nat} (inside : offset < 4096) :
    (BitVec.ofNat 10 (offset / 4)).toNat = offset / 4 := by
  rw [BitVec.toNat_ofNat]
  omega

/-! ## Parts of the loading -/

/--
A part of the loading ends with an error only when a request was refused, and
memory is as it should be when it ends without one.
-/
structure Advances
    {Value : Type} (supply : Supply Frame) (memory : PhysMemory)
    (outcome : Except Errno Value × PhysMemory) (goal : PhysMemory → Prop) : Prop where
  granted : memory.granted ≤ outcome.2.granted
  succeeds : Answered supply memory.granted outcome.2.granted → ∃ value, outcome.1 = .ok value
  reaches : (∃ value, outcome.1 = .ok value) → goal outcome.2

section Advances

variable {First Second : Type} {supply : Supply Frame} {goal other : PhysMemory → Prop}

/-- Nothing was left to do. -/
theorem Advances.here (value : First) (reached : goal memory) :
    Advances supply memory (.ok value, memory) goal :=
  ⟨le_rfl, fun _ => ⟨value, rfl⟩, fun _ => reached⟩

/-- An error of a part is one of the whole. -/
theorem Advances.of_error {error : Errno} {stopped : PhysMemory}
    (advances : @Advances First supply memory (.error error, stopped) goal) :
    @Advances Second supply memory (.error error, stopped) other := by
  refine ⟨advances.granted, ?_, ?_⟩
  · intro answered
    obtain ⟨_, succeeded⟩ := advances.succeeds answered
    cases succeeded
  · rintro ⟨_, succeeded⟩
    cases succeeded

/-- A part goes on behind another. -/
theorem Advances.andThen
    {value : First} {middle : PhysMemory} {outcome : Except Errno Second × PhysMemory}
    (first : Advances supply memory (.ok value, middle) goal)
    (rest : goal middle → Advances supply middle outcome other) :
    Advances supply memory outcome other := by
  have next := rest (first.reaches ⟨value, rfl⟩)
  refine ⟨le_trans first.granted next.granted, ?_, next.reaches⟩
  intro answered
  exact next.succeeds (answered.mono first.granted le_rfl)

end Advances

section Filled

variable {after : PhysMemory} {page : Frame} {before : Frame → Slot → Word} {layout later : Layout}
  {base voff size count : Nat} {value : Nat → BitVec 8}

theorem userByte_eq_some
    (represents : Represents supply pagedir before layout memory) {byte : BitVec 8}
    (inside : UserAddress addr) :
    userByte memory.words pagedir (BitVec.ofNat 32 addr) = some byte ↔
      ∃ frame,
        layout (pagePlace addr) = some frame ∧
          byteAt (memory.words frame) (addr % 4096) = byte := by
  rw [userByte, userWalk_eq represents inside.userSlot, Option.map_eq_some_iff, inside.value]
  rfl

variable (represented : Represents supply pagedir before later after)
  (baseInside : UserAddress base) (found : later (pagePlace base) = some page)

include represented baseInside found

/-- Bytes in front of the new ones, or in other pages, stay. -/
theorem userByte_filled_elsewhere
    (represents : Represents supply pagedir before layout memory) (grows : Grows layout later)
    {byte : BitVec 8} (inside : UserAddress addr)
    (elsewhere : addr / 4096 ≠ base / 4096 ∨ addr % 4096 < voff)
    (read : userByte memory.words pagedir (BitVec.ofNat 32 addr) = some byte) :
    userByte (fill after page (pageContents (after.words page) voff size count value)).words
        pagedir (BitVec.ofNat 32 addr) = some byte := by
  obtain ⟨frame, mapped, byteEq⟩ := (userByte_eq_some represents inside).mp read
  have still := grows _ _ _ mapped
  have plain := plain_of_page represents mapped
  have plainLater := plain_of_page represented still
  have kept := (represented.others frame plainLater.1 plainLater.2).trans
    (represents.others frame plain.1 plain.2).symm
  apply (userByte_eq_some (fill_represents represented found _) inside).mpr
  refine ⟨frame, still, ?_⟩
  by_cases here : frame = page
  · subst here
    have addrHigh := inside.2
    have baseHigh := baseInside.2
    have samePage : addr / 4096 = base / 4096 :=
      (pagePlace_eq_iff (by omega) (by omega)).mp (represented.exclusive.single still found)
    have within : addr % 4096 < 4096 := Nat.mod_lt _ (by decide)
    rw [words_fill_self, pageContents, byteAt_storeBytes (slot_toNat within), if_neg (by omega),
      byteAt_storeBytes (slot_toNat within), if_neg (by omega), kept]
    exact byteEq
  · rw [words_fill_of_ne here, kept]
    exact byteEq

/-- The new bytes are read in their place. -/
theorem userByte_filled_here (aligned : base % 4096 = 0) (fits : voff + size = 4096) {index : Nat}
    (inside : index < size) :
    UserAddress (base + voff + index) ∧
      userByte (fill after page (pageContents (after.words page) voff size count value)).words
          pagedir (BitVec.ofNat 32 (base + voff + index)) =
        some (if index < count then value index else 0) := by
  obtain ⟨low, high⟩ := baseInside
  have address : UserAddress (base + voff + index) := ⟨by omega, by omega⟩
  refine ⟨address, ?_⟩
  apply (userByte_eq_some (fill_represents represented found _) address).mpr
  have samePlace : pagePlace (base + voff + index) = pagePlace base :=
    (pagePlace_eq_iff (by omega) (by omega)).mpr (by omega)
  refine ⟨page, samePlace ▸ found, ?_⟩
  · have offset : (base + voff + index) % 4096 = voff + index := by omega
    have small : voff + index < 4096 := by omega
    rw [words_fill_self, offset, pageContents, byteAt_storeBytes (slot_toNat small),
      byteAt_storeBytes (slot_toNat small)]
    by_cases copied : index < count
    · rw [if_neg (by omega), if_pos (by omega), if_pos copied, Nat.add_sub_cancel_left]
    · rw [if_pos (by omega), if_neg copied]

theorem Loaded.filled (loaded : Loaded supply initial pagedir memory content)
    (represents : Represents supply pagedir before layout memory)
    (foreign : ∀ frame, Foreign supply.toSupply frame → before frame = initial.words frame)
    (grows : Grows layout later) (aligned : base % 4096 = 0) (fits : voff + size = 4096)
    {bytes : Nat → BitVec 8}
    (same : ∀ index < size, (if index < count then value index else 0) = bytes index) :
    Loaded supply initial pagedir
      (fill after page (pageContents (after.words page) voff size count value))
      (content.write (base + voff) ((List.range size).map bytes)) := by
  constructor
  · refine ⟨_, later, fill_represents represented found _, ?_⟩
    intro frame unhanded
    have different : frame ≠ page := by
      rintro rfl
      obtain ⟨request, _, answered⟩ := represented.exclusive.given found
      exact unhanded request answered
    rw [update_of_ne different]
    exact foreign frame unhanded
  · intro addr byte written
    by_cases inside : base + voff ≤ addr ∧ addr < base + voff + size
    · obtain ⟨index, rfl⟩ : ∃ index, addr = base + voff + index := ⟨addr - (base + voff), by omega⟩
      have within : index < size := by omega
      rw [SparseArray.write_inside inside.1 (by simp; omega),
        Nat.add_sub_cancel_left, getElem?_map, getElem?_range within] at written
      obtain ⟨address, read⟩ :=
        userByte_filled_here represented baseInside found aligned fits within
      rw [same index within] at read
      exact ⟨address, read.trans written⟩
    · rw [SparseArray.write_outside (by simp; omega)] at written
      obtain ⟨address, read⟩ := loaded.held addr byte written
      refine ⟨address, ?_⟩
      apply userByte_filled_elsewhere represented baseInside found represents grows address _ read
      omega

omit represented found

/-- A page is got unless a request for it is refused, and then holds the bytes of the image. -/
theorem Loaded.gotPage (loaded : Loaded supply initial pagedir memory content) {source : Nat}
    (aligned : base % 4096 = 0) (fits : voff + size = 4096)
    (apart : ∀ index < count, Foreign supply.toSupply (frameOf (source + index)))
    {bytes : Nat → BitVec 8}
    (same :
      ∀ index < size,
        (if index < count then physByte initial.words (source + index) else 0) = bytes index) :
    Advances supply.toSupply memory
      (loadPage supply.toSupply pagedir (BitVec.ofNat 32 base) voff size source count memory)
      fun after =>
        Loaded supply initial pagedir after
          (content.write (base + voff) ((List.range size).map bytes)) := by
  obtain ⟨before, layout, represents, foreign⟩ := loaded.mapped
  obtain ⟨later, serves⟩ :=
    represents.pagedirGetOrNew_serves pteMask (userSlot_iff.mp baseInside.userSlot).2
  have got := @pagedirGetOrNew_answered _ _ _ _ _ _ represents _ pteMask baseInside.userSlot
  have granted :=
    pagedirGetOrNew_granted supply.toSupply pagedir (BitVec.ofNat 32 base) pteMask memory
  unfold loadPage
  dsimp only
  split
  · rename_i missing
    refine ⟨granted, fun answered => absurd missing (got answered), ?_⟩
    rintro ⟨_, succeeded⟩
    cases succeeded
  · rename_i present
    refine ⟨granted, fun _ => ⟨_, rfl⟩, fun _ => ?_⟩
    simp only [storeFrame, update_self, update_idem]
    apply Loaded.filled serves.represents baseInside (serves.found present).2 loaded represents
      foreign serves.grows aligned fits
    intro index inside
    rw [← same index inside]
    split
    · rename_i copied
      have plain := plain_of_foreign serves.represents (apart index copied)
      rw [physByte, physByte, serves.represents.others _ plain.1 plain.2,
        foreign _ (apart index copied)]
    · rfl

end Filled

/-! ## Segments -/

/-- The byte of a segment: from the image, or zero behind its file part. -/
def segmentByte (image : Nat → BitVec 8) (hdr : Phdr) (index : Nat) : BitVec 8 :=
  if index < hdr.pFilesz then image (hdr.pOffset + index) else 0

/-- The bytes of a segment up to a length, zeros behind its end. -/
def segmentBytes (image : Nat → BitVec 8) (hdr : Phdr) (length : Nat) : List (BitVec 8) :=
  (List.range length).map (segmentByte image hdr)

/-- The bytes of an image in physical memory. -/
def imageBytes (initial : PhysMemory) (elfmem : Nat) (index : Nat) : BitVec 8 :=
  physByte initial.words (elfmem + index)

/-- What a segment has to be like. -/
structure Loadable (elfSize : Nat) (hdr : Phdr) : Prop where
  aligned : hdr.pAlign = pageBytes
  filesz : hdr.pFilesz ≤ hdr.pMemsz
  inFile : hdr.pOffset + hdr.pFilesz ≤ elfSize
  low : 0x400000 ≤ hdr.pVaddr
  high : hdr.pVaddr + hdr.pMemsz ≤ 0xc0000000

/-- No frame of the image is handed out. -/
def ImageApart (supply : Supply Frame) (elfmem elfSize : Nat) : Prop :=
  ∀ index < elfSize, Foreign supply (frameOf (elfmem + index))

section Segments

variable {elfmem elfSize : Nat} {hdr : Phdr}

theorem length_segmentBytes (image : Nat → BitVec 8) (hdr : Phdr) (length : Nat) :
    (segmentBytes image hdr length).length = length := by
  rw [segmentBytes, length_map, length_range]

/-- The next page of a segment joins those before it. -/
theorem Loaded.segmentPage
    (apart : ImageApart supply.toSupply elfmem elfSize) (loadable : Loadable elfSize hdr)
    {off base voff size count : Nat}
    (loaded :
      Loaded supply initial pagedir memory
        (content.write hdr.pVaddr (segmentBytes (imageBytes initial elfmem) hdr off)))
    (aligned : base % 4096 = 0) (baseInside : UserAddress base) (fits : voff + size = 4096)
    (place : base + voff = hdr.pVaddr + off) (countEq : count = min size (hdr.pFilesz - off)) :
    Advances supply.toSupply memory
      (loadPage supply.toSupply pagedir (BitVec.ofNat 32 base) voff size
        (elfmem + hdr.pOffset + off) count memory) fun after =>
        Loaded supply initial pagedir after
          (content.write hdr.pVaddr
            (segmentBytes (imageBytes initial elfmem) hdr (off + size))) := by
  have joined :=
    content.write_append hdr.pVaddr (segmentBytes (imageBytes initial elfmem) hdr off)
      ((List.range size).map fun index => segmentByte (imageBytes initial elfmem) hdr (off + index))
  rw [length_segmentBytes] at joined
  rw [segmentBytes, range_add, map_append, map_map]
  refine joined ▸ ?_
  rw [← place]
  apply Loaded.gotPage baseInside loaded aligned fits
  · intro index copied
    have inFile := loadable.inFile
    have inside := apart (hdr.pOffset + off + index) (by omega)
    rw [show elfmem + hdr.pOffset + off + index = elfmem + (hdr.pOffset + off + index) by omega]
    exact inside
  · intro index inside
    unfold segmentByte imageBytes
    by_cases copied : index < count
    · rw [if_pos (show off + index < hdr.pFilesz by omega), if_pos copied]
      congr 1
      omega
    · rw [if_neg (show ¬off + index < hdr.pFilesz by omega), if_neg copied]

/-- Memory in which all of a segment is loaded, to the end of a page. -/
def SegmentLoaded
    (supply : FrameSupply kernel) (initial : PhysMemory) (pagedir : Frame) (elfmem : Nat)
    (content : SparseArray (BitVec 8)) (hdr : Phdr) (memory : PhysMemory) : Prop :=
  ∃ length,
    hdr.pMemsz ≤ length ∧
      Loaded supply initial pagedir memory
        (content.write hdr.pVaddr (segmentBytes (imageBytes initial elfmem) hdr length))

/-- The loop over whole pages ends, and loads the rest of a segment. -/
theorem Loaded.wholePages
    (apart : ImageApart supply.toSupply elfmem elfSize) (loadable : Loadable elfSize hdr)
    {fuel off : Nat}
    (loaded :
      Loaded supply initial pagedir memory
        (content.write hdr.pVaddr (segmentBytes (imageBytes initial elfmem) hdr off)))
    (aligned : (hdr.pVaddr + off) % 4096 = 0) (enough : hdr.pMemsz - off + 4095 < 4096 * fuel) :
    ∃ outcome,
      segmentPages supply.toSupply hdr elfmem pagedir fuel off memory = some outcome ∧
        Advances supply.toSupply memory outcome
          (SegmentLoaded supply initial pagedir elfmem content hdr) := by
  induction fuel generalizing off memory with
  | zero => omega
  | succ fuel ih =>
    have low := loadable.low
    have high := loadable.high
    rw [segmentPages]
    split
    · rename_i inside
      have next : wrap32 (off + pageBytes) = off + 4096 :=
        wrap32_of_lt (by unfold pageBytes; omega)
      have count : bytesToCopy hdr off = min pageBytes (hdr.pFilesz - off) := by
        unfold bytesToCopy pageBytes
        split
        · omega
        · omega
      have fits : 0 + pageBytes = 4096 := rfl
      have page :=
        loaded.segmentPage apart loadable aligned ⟨by omega, by omega⟩ fits rfl count
      split
      · rename_i stopped
        rw [stopped] at page
        exact ⟨_, rfl, page.of_error⟩
      · rename_i after ended
        rw [ended] at page
        rw [next]
        obtain ⟨outcome, ran, rest⟩ :=
          ih (page.reaches ⟨_, rfl⟩) (by unfold pageBytes; omega) (by omega)
        exact ⟨outcome, ran, page.andThen fun _ => rest⟩
    · exact ⟨_, rfl, .here () ⟨off, by omega, loaded⟩⟩

theorem Loaded.segment
    (apart : ImageApart supply.toSupply elfmem elfSize) (loadable : Loadable elfSize hdr)
    (loaded : Loaded supply initial pagedir memory content) :
    ∃ outcome,
      processSegmentFromMemory supply.toSupply hdr elfmem pagedir memory = some outcome ∧
        Advances supply.toSupply memory outcome
          (SegmentLoaded supply initial pagedir elfmem content hdr) := by
  have start :
      Loaded supply initial pagedir memory
        (content.write hdr.pVaddr (segmentBytes (imageBytes initial elfmem) hdr 0)) := by
    rw [show segmentBytes _ hdr 0 = [] from rfl, SparseArray.write_nil]
    exact loaded
  have low := loadable.low
  have high := loadable.high
  unfold processSegmentFromMemory
  rw [if_neg (not_not_intro loadable.aligned)]
  unfold pageBytes
  dsimp only
  split
  · rename_i aligned
    exact start.wholePages apart loadable aligned (by omega)
  · rename_i unaligned
    have base : UserAddress (hdr.pVaddr - hdr.pVaddr % 4096) := ⟨by omega, by omega⟩
    have fits : hdr.pVaddr % 4096 + (4096 - hdr.pVaddr % 4096) = 4096 := by omega
    have page := start.segmentPage apart loadable (by omega) base fits (by omega) rfl
    rw [Nat.add_zero, Nat.sub_zero, Nat.zero_add] at page
    split
    · rename_i stopped
      rw [stopped] at page
      exact ⟨_, rfl, page.of_error⟩
    · rename_i after ended
      rw [ended] at page
      have enough :
          hdr.pMemsz - (4096 - hdr.pVaddr % 4096) + 4095 < 4096 * (hdr.pMemsz / 4096 + 2) := by
        omega
      obtain ⟨outcome, ran, rest⟩ :=
        (page.reaches ⟨_, rfl⟩).wholePages apart loadable (by omega) enough
      exact ⟨outcome, ran, page.andThen fun _ => rest⟩

end Segments

/-! ## Images -/

/-- The program header with a number. -/
def imageHeader (initial : PhysMemory) (elfmem i : Nat) : Phdr :=
  programHeader initial.words (elfmem + ePhoff initial.words elfmem) i

/-- The segments to be loaded among `count` headers from `first` on. -/
def segmentsFrom (initial : PhysMemory) (elfmem first count : Nat) : List Phdr :=
  ((List.range' first count).map (imageHeader initial elfmem)).filter
    fun hdr => decide (hdr.pType = ptLoad)

/-- The segments of an image. -/
def imageSegments (initial : PhysMemory) (elfmem : Nat) : List Phdr :=
  segmentsFrom initial elfmem 0 (ePhnum initial.words elfmem)

/--
An image whose headers are inside it and whose segments can be loaded, in
ascending order and without overlap.
-/
structure ElfImage
    (supply : Supply Frame) (initial : PhysMemory) (elfmem elfSize : Nat) : Prop where
  header : 52 ≤ elfSize
  phoff : ePhoff initial.words elfmem < elfSize
  headers : ePhoff initial.words elfmem + 32 * ePhnum initial.words elfmem ≤ elfSize
  apart : ImageApart supply elfmem elfSize
  loadable : ∀ hdr ∈ imageSegments initial elfmem, Loadable elfSize hdr
  ascending : (imageSegments initial elfmem).Pairwise fun first second =>
      first.pVaddr + first.pMemsz ≤ second.pVaddr

section Images

variable {elfmem elfSize addr : Nat} (loaded : Loaded supply initial pagedir memory content)
  (image : ElfImage supply.toSupply initial elfmem elfSize)

include loaded image

/-- The image stays as it is while segments are loaded. -/
theorem Loaded.physByte_image (lower : elfmem ≤ addr) (upper : addr < elfmem + elfSize) :
    physByte memory.words addr = physByte initial.words addr := by
  obtain ⟨index, rfl⟩ : ∃ index, addr = elfmem + index := ⟨addr - elfmem, by omega⟩
  obtain ⟨before, layout, represents, kept⟩ := loaded.mapped
  have foreign := image.apart index (by omega)
  have plain := plain_of_foreign represents foreign
  rw [physByte, physByte, represents.others _ plain.1 plain.2, kept _ foreign]

theorem Loaded.physHalf_image (lower : elfmem ≤ addr) (upper : addr + 2 ≤ elfmem + elfSize) :
    physHalf memory.words addr = physHalf initial.words addr := by
  rw [physHalf, physHalf, loaded.physByte_image image lower (by omega),
    loaded.physByte_image image (by omega) (by omega)]

theorem Loaded.physWord_image (lower : elfmem ≤ addr) (upper : addr + 4 ≤ elfmem + elfSize) :
    physWord memory.words addr = physWord initial.words addr := by
  rw [physWord, physWord, loaded.physHalf_image image lower (by omega),
    loaded.physHalf_image image (by omega) (by omega)]

theorem Loaded.ePhnum_image : ePhnum memory.words elfmem = ePhnum initial.words elfmem := by
  have header := image.header
  exact loaded.physHalf_image image (by omega) (by omega)

theorem Loaded.ePhoff_image : ePhoff memory.words elfmem = ePhoff initial.words elfmem := by
  have header := image.header
  exact loaded.physWord_image image (by omega) (by omega)

theorem Loaded.programHeader_image {i : Nat} (inside : i < ePhnum initial.words elfmem) :
    programHeader memory.words (elfmem + ePhoff initial.words elfmem) i =
      imageHeader initial elfmem i := by
  have headers := image.headers
  have field :
      ∀ offset, offset + 4 ≤ 32 →
        physWord memory.words (elfmem + ePhoff initial.words elfmem + 32 * i + offset) =
          physWord initial.words (elfmem + ePhoff initial.words elfmem + 32 * i + offset) := by
    intro offset small
    exact loaded.physWord_image image (by omega) (by omega)
  have first := field 0 (by omega)
  rw [Nat.add_zero] at first
  unfold imageHeader programHeader
  simp only
  rw [first, field 4 (by omega), field 8 (by omega),
    field 16 (by omega), field 20 (by omega), field 28 (by omega)]

omit loaded image

/-- An address space has the bytes of a segment. -/
def Contains (image : Nat → BitVec 8) (content : SparseArray (BitVec 8)) (hdr : Phdr) : Prop :=
  ∀ index < hdr.pMemsz, content (hdr.pVaddr + index) = some (segmentByte image hdr index)

/-- Memory in which some segments are loaded, and what was below all of them is kept. -/
def SegmentsLoaded (supply : FrameSupply kernel) (initial : PhysMemory) (pagedir : Frame)
    (elfmem : Nat) (content : SparseArray (BitVec 8))
    (segments : List Phdr) (memory : PhysMemory) : Prop :=
  ∃ later,
    Loaded supply initial pagedir memory later ∧
      (∀ hdr ∈ segments, Contains (imageBytes initial elfmem) later hdr) ∧
      ∀ hdr, (∀ next ∈ segments, hdr.pVaddr + hdr.pMemsz ≤ next.pVaddr) →
        Contains (imageBytes initial elfmem) content hdr →
        Contains (imageBytes initial elfmem) later hdr

/-- One more segment, below the others. -/
theorem SegmentsLoaded.cons {hdr : Phdr} {length : Nat} {segments : List Phdr}
    (done :
      SegmentsLoaded supply initial pagedir elfmem
        (content.write hdr.pVaddr (segmentBytes (imageBytes initial elfmem) hdr length))
        segments memory) (reaches : hdr.pMemsz ≤ length)
    (below : ∀ next ∈ segments, hdr.pVaddr + hdr.pMemsz ≤ next.pVaddr) :
    SegmentsLoaded supply initial pagedir elfmem content (hdr :: segments) memory := by
  obtain ⟨later, final, contained, kept⟩ := done
  refine ⟨later, final, ?_, ?_⟩
  · refine forall_mem_cons.mpr ⟨?_, contained⟩
    refine kept hdr below fun index inside => ?_
    have lengthEq := length_segmentBytes (imageBytes initial elfmem) hdr length
    rw [SparseArray.write_inside (by omega) (by omega),
      Nat.add_sub_cancel_left, segmentBytes, getElem?_map, getElem?_range (by omega)]
    rfl
  · intro other belowAll contains
    obtain ⟨belowHere, belowRest⟩ := forall_mem_cons.mp belowAll
    refine kept other belowRest fun index inside => ?_
    rw [SparseArray.write_outside (Or.inl (by omega))]
    exact contains index inside

/--
The loop over the headers ends.  It goes through when no request is refused,
and every segment is loaded when it goes through.
-/
theorem Loaded.headers
    (image : ElfImage supply.toSupply initial elfmem elfSize) {fuel i count heapEnd : Nat}
    (position : i + count = ePhnum initial.words elfmem) (enough : count < fuel)
    (loadable : ∀ hdr ∈ segmentsFrom initial elfmem i count, Loadable elfSize hdr)
    (ascending : (segmentsFrom initial elfmem i count).Pairwise fun first second =>
        first.pVaddr + first.pMemsz ≤ second.pVaddr)
    (loaded : Loaded supply initial pagedir memory content) :
    ∃ outcome,
      loadSegments supply.toSupply elfmem
          (elfmem + ePhoff initial.words elfmem) pagedir fuel i heapEnd memory = some outcome ∧
      Advances supply.toSupply memory outcome
        (SegmentsLoaded supply initial pagedir elfmem content
          (segmentsFrom initial elfmem i count)) := by
  induction fuel generalizing i count heapEnd memory content with
  | zero => omega
  | succ fuel ih =>
    rw [loadSegments, loaded.ePhnum_image image]
    cases count with
    | zero =>
      rw [if_neg (by omega)]
      exact ⟨_, rfl, .here heapEnd ⟨content, loaded, nofun, fun _ _ => id⟩⟩
    | succ count =>
      have inside : i < ePhnum initial.words elfmem := by omega
      rw [if_pos inside, loaded.programHeader_image image inside]
      simp only [segmentsFrom, List.range'_succ, map_cons, filter_cons, decide_eq_true_eq]
        at loadable ascending ⊢
      by_cases load : (imageHeader initial elfmem i).pType = ptLoad
      · rw [if_pos load] at loadable ascending ⊢
        obtain ⟨here, rest⟩ := forall_mem_cons.mp loadable
        obtain ⟨below, restAscending⟩ := pairwise_cons.mp ascending
        obtain ⟨⟨result, after⟩, ran, done⟩ := loaded.segment image.apart here
        rw [if_neg (not_not_intro load), ran]
        cases result with
        | error error => exact ⟨_, rfl, done.of_error⟩
        | ok value =>
          obtain ⟨length, reaches, written⟩ := done.reaches ⟨value, rfl⟩
          obtain ⟨outcome, ended, final⟩ :=
            ih (by omega) (by omega) rest restAscending written
          refine ⟨outcome, ended, done.andThen fun _ => ?_⟩
          exact ⟨final.granted, final.succeeds, fun finished =>
            (final.reaches finished).cons reaches below⟩
      · rw [if_neg load] at loadable ascending ⊢
        rw [if_pos load]
        exact ih (by omega) (by omega) loadable ascending loaded

/-- A new directory is an address space without contents. -/
theorem loaded_pagedirAlloc (nonzero : pagedir ≠ 0)
    (made : pagedirAlloc supply.toSupply kernel initial = (pagedir, memory)) :
    Loaded supply initial pagedir memory SparseArray.empty where
  mapped := ⟨initial.words, _, pagedirAlloc_represents nonzero made, fun _ _ => rfl⟩
  held := nofun

/-- `run_init` in front of the loop, once it has a directory. -/
theorem runInit_eq (image : ElfImage supply.toSupply initial elfmem elfSize) (nonzero : pagedir ≠ 0)
    (made : pagedirAlloc supply.toSupply kernel initial = (pagedir, memory))
    {outcome : Except Errno Nat × PhysMemory}
    (ran :
      loadSegments supply.toSupply elfmem (elfmem + ePhoff initial.words elfmem) pagedir
          (ePhnum initial.words elfmem + 1) 0 0 memory = some outcome) :
    runInit supply.toSupply kernel elfmem elfSize initial = some (match outcome.1 with
          | .error error => .error (.segmentFailed error)
          | .ok heapEnd => .ok (pagedir, heapEnd),
        outcome.2) := by
  have loaded := loaded_pagedirAlloc nonzero made
  unfold runInit
  rw [made]
  simp only
  rw [if_neg nonzero, loaded.ePhoff_image image, loaded.ePhnum_image image, if_pos image.phoff, ran]
  obtain ⟨result, final⟩ := outcome
  cases result with
  | error error => rfl
  | ok heapEnd => rfl

/-- The directory is there unless the request for it is refused. -/
theorem pagedir_ne_zero (made : pagedirAlloc supply.toSupply kernel initial = (pagedir, memory))
    (answered :
      ∀ result final, runInit supply.toSupply kernel elfmem elfSize initial = some (result, final) →
        Answered supply.toSupply initial.granted final.granted) : pagedir ≠ 0 := by
  intro null
  have stopped :
      runInit supply.toSupply kernel elfmem elfSize initial = some (.error .noPagedir, memory) := by
    rw [runInit, made]
    exact if_pos null
  obtain ⟨pagedirEq, memoryEq⟩ := Prod.mk.inj made
  have granted : initial.granted < memory.granted := by
    rw [← memoryEq]
    exact Nat.lt_succ_self _
  apply pmemAlloc_ne_zero supply (answered _ _ stopped initial.granted le_rfl granted)
  exact pagedirEq.trans null

end Images

/-- An image with two segments, which share the page at `0x400000`. -/
def twoSegments : List Word :=
  [0, 0, 0, 0, 0, 0, 0, 52, 0, 0, 0, 2, 0, 1, 116, 0x400010, 0, 4, 8, 0, 4096,
    1, 120, 0x400100, 0, 4, 4, 0, 4096, 0x44434241, 0x48474645]

/-- The image at `0x10000`, in memory that has been used before. -/
def bootMemory : PhysMemory where
  words := fun frame slot => if frame = 16 then twoSegments.getD slot.toNat 0 else 0xdddddddd
  granted := 0

theorem bootMemory_segments :
    imageSegments bootMemory 0x10000 =
      [⟨1, 116, 0x400010, 4, 8, 4096⟩, ⟨1, 120, 0x400100, 4, 4, 4096⟩] := by
  decide +kernel

theorem bootMemory_image : ElfImage eightFrames.toSupply bootMemory 0x10000 124 := by
  constructor
  · decide
  · decide +kernel
  · decide +kernel
  · intro index inside request answered
    have frame : frameOf (0x10000 + index) = 16 := by
      have page : (0x10000 + index) / 4096 = 16 := by omega
      rw [frameOf, pageBytes, page]
      rfl
    rw [frame] at answered
    simp only [eightFrames, Option.ite_none_right_eq_some, Option.some.injEq] at answered
    have sixteen := congrArg BitVec.toNat answered.2
    rw [BitVec.toNat_ofNat, show (16 : Frame).toNat = 16 from rfl] at sixteen
    omega
  · rw [bootMemory_segments]
    refine forall_mem_cons.mpr ⟨?_, forall_mem_singleton.mpr ?_⟩
    · exact ⟨rfl, by decide, by decide, by decide, by decide⟩
    · exact ⟨rfl, by decide, by decide, by decide, by decide⟩
  · rw [bootMemory_segments]
    simp

theorem bootMemory_answered :
    ∀ result final,
      runInit eightFrames.toSupply lowKernel 0x10000 124 bootMemory = some (result, final) →
      Answered eightFrames.toSupply bootMemory.granted final.granted := by
  intro result final ran
  have evaluated :
      (runInit eightFrames.toSupply lowKernel 0x10000 124 bootMemory).map
          (fun outcome => outcome.2.granted) = some 3 := by
    decide +kernel
  rw [ran] at evaluated
  have granted : final.granted = 3 := Option.some.inj evaluated
  intro request _ upper
  show (if request < 8 then some _ else none) ≠ none
  rw [if_pos (by omega)]
  exact Option.some_ne_none _

end Cosec.Core.SegmentLoading
