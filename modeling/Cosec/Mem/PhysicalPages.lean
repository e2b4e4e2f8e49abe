import Mathlib.Data.List.Pairwise
import Mathlib.Data.List.Perm.Lattice
import Mathlib.Tactic.Linarith
import Cosec.Lib.Transition
import Cosec.Lib.Word32
import Cosec.Libc.ErrorNumbers
import Cosec.Mem.PageTables

/-!
# The physical page allocator

`pmem_setup` computes the first free page after the kernel and its modules
and the end of upper memory; `pmem_alloc` moves the edge of allocated memory
up and `pmem_free` moves it back when the freed region ends at the edge.

The setup clamps the number of upper pages before it adds the first MiB, and
`pmem_alloc` compares a page index that may have wrapped.  The regions in use
are well placed in every run of `Admissible` allocations.
-/

namespace Cosec.Mem.PhysicalPages

open Lib.Transition Lib.Word32 Libc.ErrorNumbers List

/-! ## The allocator -/

export Mem.Layout (pageBytes)

/-- `UPPER_MEMORY_OFFSET`. -/
def upperMemoryOffset : Nat := 0x100000

/-- What the boot loader and the linker report to `pmem_setup`. -/
structure Boot where
  uppermemKb : UInt32
  kernelEnd : UInt32
  modEnds : List UInt32

/-- The two globals of the allocator, both page indices. -/
structure Pmem where
  theEdgeOfAllocatedMemory : Nat
  theEndOfUpperMemory : Nat
deriving DecidableEq, Repr

/-- The index of the first page that starts at or after an address. -/
def pageAligned (addr : Nat) : Nat :=
  if addr % pageBytes = 0 then addr / pageBytes
  else 1 + addr / pageBytes

/-- The number of upper pages `pmem_setup` uses. -/
def upperMemoryPages (boot : Boot) : Nat :=
  let pages := boot.uppermemKb.toNat / (pageBytes / 1024)
  if 1024 * 1024 ≤ pages then 1024 * 1024 - 1 else pages

/-- The end of the kernel and of every module. -/
def freePmemEdge (boot : Boot) : Nat :=
  boot.modEnds.foldl (fun edge modEnd => if edge < modEnd.toNat then modEnd.toNat else edge)
    boot.kernelEnd.toNat

def pmemSetup (boot : Boot) : Pmem where
  theEndOfUpperMemory := upperMemoryOffset / pageBytes + upperMemoryPages boot
  theEdgeOfAllocatedMemory := pageAligned (freePmemEdge boot)

/-- The returned address is `0` for a null pointer. -/
def pmemAlloc (pmem : Pmem) (pagesCount : Nat) : Nat × Pmem :=
  let oldEdge := pmem.theEdgeOfAllocatedMemory
  let newEdge := wrap32 (oldEdge + pagesCount)
  if pmem.theEndOfUpperMemory < newEdge then
    (0, pmem)
  else
    (wrap32 (pageBytes * oldEdge), { pmem with theEdgeOfAllocatedMemory := newEdge })

def pmemFree (pmem : Pmem) (startPage pagesCount : Nat) : Except Errno Unit × Pmem :=
  if wrap32 (startPage + pagesCount) = pmem.theEdgeOfAllocatedMemory then
    (.ok (), { pmem with theEdgeOfAllocatedMemory := startPage })
  else
    (.error .etodo, pmem)

/-! ## Single pages -/

/-- The frames that `pmem_alloc(1)` returns one after the other. -/
def Pmem.frames
    (pmem : Pmem)
    (inMemory : pmem.theEndOfUpperMemory ≤ 1048576) :
    Lib.Holdings.Supply PageTables.Frame where
  answer request :=
    if pmem.theEdgeOfAllocatedMemory + request < pmem.theEndOfUpperMemory then
      some (BitVec.ofNat 20 (pmem.theEdgeOfAllocatedMemory + request))
    else none
  distinct := by
    intro first second frame isFirst isSecond
    obtain ⟨firstBelow, firstFrame⟩ := Option.ite_none_right_eq_some.mp isFirst
    obtain ⟨secondBelow, secondFrame⟩ := Option.ite_none_right_eq_some.mp isSecond
    have numbers :=
      congrArg BitVec.toNat (Option.some.inj (firstFrame.trans secondFrame.symm))
    rw [BitVec.toNat_ofNat, BitVec.toNat_ofNat] at numbers
    omega

/-- The page tables are supplied by the allocator. -/
theorem pmemAlloc_frames
    {pmem : Pmem}
    (inMemory : pmem.theEndOfUpperMemory ≤ 1048576)
    (below : pmem.theEdgeOfAllocatedMemory ≤ pmem.theEndOfUpperMemory)
    (memory : PageTables.PhysMemory) :
    let before := (fun pmem => (pmemAlloc pmem 1).2)^[memory.granted] pmem
    (pmemAlloc before 1).1 =
      pageBytes *
        (PageTables.pmemAlloc (pmem.frames inMemory) memory).1.toNat := by
  have edges (count : Nat) :
      (fun pmem => (pmemAlloc pmem 1).2)^[count] pmem =
        { pmem with
          theEdgeOfAllocatedMemory :=
            min (pmem.theEdgeOfAllocatedMemory + count) pmem.theEndOfUpperMemory } := by
    induction count with
    | zero => simp [below]
    | succ count ih =>
      rw [Function.iterate_succ_apply', ih]
      simp only [pmemAlloc]
      rw [wrap32_of_lt (by omega)]
      split <;> simp <;> omega
  simp only [edges]
  simp only [pmemAlloc, PageTables.pmemAlloc, Pmem.frames]
  rw [wrap32_of_lt (by omega)]
  split
  · rw [if_neg (by omega)]
    rfl
  · rw [if_pos (by omega), Option.getD_some, BitVec.toNat_ofNat]
    unfold wrap32 pageBytes
    omega

/-! ## Runs of the allocator -/

/-- A live allocation: the address returned and the pages asked for. -/
structure Region where
  addr : Nat
  pages : Nat
deriving DecidableEq, Repr

/-- The exact end of a region, which may lie beyond the address space. -/
def Region.limit (region : Region) : Nat := region.addr + pageBytes * region.pages

/-- The bytes of a region. -/
def Region.Contains (region : Region) (byte : Nat) : Prop :=
  region.addr ≤ byte ∧ byte < region.limit

/-- No byte belongs to both regions. -/
def Region.Apart (left right : Region) : Prop :=
  ∀ byte, ¬ (left.Contains byte ∧ right.Contains byte)

/-- The allocator together with the regions its callers hold. -/
structure PmemRun where
  pmem : Pmem
  live : List Region
deriving DecidableEq, Repr

inductive PmemCall where
  | alloc (pages : UInt32)
  | free (region : Region)

/-- A call and its effect on the allocator and on the regions held. -/
inductive PmemStep : PmemRun → PmemCall → PmemRun → Prop where
  | refused
      (null : (pmemAlloc run.pmem pages.toNat).1 = 0) :
      PmemStep run (.alloc pages) { run with pmem := (pmemAlloc run.pmem pages.toNat).2 }
  | granted
      (nonNull : (pmemAlloc run.pmem pages.toNat).1 ≠ 0) :
      PmemStep run (.alloc pages)
        { pmem := (pmemAlloc run.pmem pages.toNat).2
          live := ⟨(pmemAlloc run.pmem pages.toNat).1, pages.toNat⟩ :: run.live }
  | freed
      (held : region ∈ run.live) :
      PmemStep run (.free region)
        { pmem :=
            (pmemFree run.pmem (region.addr / pageBytes) region.pages).2
          live := run.live.erase region }

/-- The runs that start right after `pmem_setup`. -/
def pmemSystem (boot : Boot) : System PmemRun PmemCall where
  start run := run = ⟨pmemSetup boot, []⟩
  step := PmemStep

/--
The live regions are pairwise disjoint, do not wrap, and lie between the
page-aligned end of the kernel and modules and the end of upper memory.
-/
structure WellPlaced (boot : Boot) (live : List Region) : Prop where
  apart : live.Pairwise Region.Apart
  noWrap : ∀ region ∈ live, region.limit ≤ 2 ^ 32
  aboveKernel : ∀ region ∈ live, pageBytes * pageAligned (freePmemEdge boot) ≤ region.addr
  belowEnd : ∀ region ∈ live, region.limit ≤ upperMemoryOffset + 1024 * boot.uppermemKb.toNat

/--
An allocation which `pmem_alloc` would grant leaves the edge at or below
page `2 ^ 20`, the last page boundary of the address space.
-/
def Admissible (run : PmemRun) : PmemCall → Prop
  | .alloc pages =>
    wrap32 (run.pmem.theEdgeOfAllocatedMemory + pages.toNat) ≤ run.pmem.theEndOfUpperMemory →
      run.pmem.theEdgeOfAllocatedMemory + pages.toNat ≤ 2 ^ 20
  | .free _ => True

/-! ## What the edge says about the regions in use -/

/--
Every region starts on a page at or above `base` and ends at or below
`bound`; a region with a page in it also ends at or below the edge.
-/
structure EdgeInvariant (base bound : Nat) (run : PmemRun) : Prop where
  endKept : run.pmem.theEndOfUpperMemory = bound
  baseLe : base ≤ run.pmem.theEdgeOfAllocatedMemory
  edgeLe : run.pmem.theEdgeOfAllocatedMemory ≤ 2 ^ 20
  apart : run.live.Pairwise Region.Apart
  placed :
    ∀ region ∈ run.live,
      ∃ page,
        region.addr = pageBytes * page ∧ base ≤ page ∧ page + region.pages ≤ bound ∧
          page + region.pages ≤ 2 ^ 20 ∧
          (0 < region.pages → page + region.pages ≤ run.pmem.theEdgeOfAllocatedMemory)

variable {left right : Region}

theorem Region.Apart.symm (apart : left.Apart right) : right.Apart left := by
  intro byte shared
  exact apart byte ⟨shared.2, shared.1⟩

/-- A region with no page has no byte. -/
theorem Region.apart_of_empty (empty : left.pages = 0) : left.Apart right := by
  rintro byte ⟨inLeft, _⟩
  unfold Region.Contains Region.limit at inLeft
  rw [empty] at inLeft
  omega

theorem freePmemEdge_lt (boot : Boot) : freePmemEdge boot < 2 ^ 32 := by
  have folded :
      ∀ (modEnds : List UInt32) (edge : Nat), edge < 2 ^ 32 → modEnds.foldl (fun edge modEnd =>
              if edge < modEnd.toNat then modEnd.toNat else edge)
            edge < 2 ^ 32 := by
    intro modEnds
    induction modEnds with
    | nil =>
      intro edge small
      exact small
    | cons modEnd rest ih =>
      intro edge small
      apply ih
      change (if edge < modEnd.toNat then modEnd.toNat else edge) < 2 ^ 32
      split
      · exact modEnd.toNat_lt
      · exact small
  exact folded boot.modEnds _ boot.kernelEnd.toNat_lt

theorem pageAligned_le {addr : Nat} (small : addr < 2 ^ 32) : pageAligned addr ≤ 2 ^ 20 := by
  unfold pageAligned pageBytes
  split <;> omega

variable {run : PmemRun}

/-- Moving the edge up leaves the regions in use where they are. -/
theorem EdgeInvariant.raise {base bound edge : Nat} (invariant : EdgeInvariant base bound run)
    (raised : run.pmem.theEdgeOfAllocatedMemory ≤ edge) (small : edge ≤ 2 ^ 20) :
    EdgeInvariant base bound
      { run with
        pmem := { run.pmem with theEdgeOfAllocatedMemory := edge } } where
  endKept := invariant.endKept
  baseLe := le_trans invariant.baseLe raised
  edgeLe := small
  apart := invariant.apart
  placed := by
    intro region member
    obtain ⟨page, addrEq, aboveBase, belowBound, belowTop, belowEdge⟩ :=
      invariant.placed region member
    exact ⟨page, addrEq, aboveBase, belowBound, belowTop,
      fun nonempty => le_trans (belowEdge nonempty) raised⟩

/-- A granted region starts at the old edge and ends at the new one. -/
theorem EdgeInvariant.grant {base bound pages : Nat} (invariant : EdgeInvariant base bound run)
    (fits : run.pmem.theEdgeOfAllocatedMemory + pages ≤ bound)
    (small : run.pmem.theEdgeOfAllocatedMemory + pages ≤ 2 ^ 20) :
    EdgeInvariant base bound
      { pmem :=
          { run.pmem with
            theEdgeOfAllocatedMemory := run.pmem.theEdgeOfAllocatedMemory + pages }
        live := ⟨pageBytes * run.pmem.theEdgeOfAllocatedMemory, pages⟩ :: run.live } where
  endKept := invariant.endKept
  baseLe := Nat.le_add_right_of_le invariant.baseLe
  edgeLe := small
  apart := by
    refine pairwise_cons.mpr ⟨?_, invariant.apart⟩
    intro region member
    obtain ⟨page, addrEq, _, _, _, belowEdge⟩ := invariant.placed region member
    rcases Nat.eq_zero_or_pos region.pages with empty | nonempty
    · exact (Region.apart_of_empty empty).symm
    · apply Region.Apart.symm
      rintro byte ⟨inLeft, inRight⟩
      have below := inLeft.2
      have above := inRight.1
      unfold Region.limit pageBytes at *
      simp only at above
      omega
  placed := by
    intro region member
    rcases mem_cons.mp member with rfl | older
    · exact ⟨run.pmem.theEdgeOfAllocatedMemory, rfl,
        invariant.baseLe, fits, small, fun _ => le_refl _⟩
    · exact (invariant.raise (Nat.le_add_right _ pages) small).placed region older

/-- Giving back a region keeps the others below the edge. -/
theorem EdgeInvariant.release
    {base bound : Nat} {region : Region} (invariant : EdgeInvariant base bound run)
    (held : region ∈ run.live) :
    EdgeInvariant base bound
      { pmem :=
          (pmemFree run.pmem (region.addr / pageBytes) region.pages).2
        live := run.live.erase region } := by
  obtain ⟨page, addrEq, aboveBase, belowBound, belowTop, belowEdge⟩ := invariant.placed region held
  have pageEq : region.addr / pageBytes = page := by
    rw [addrEq]
    exact Nat.mul_div_cancel_left page (by decide)
  have permuted := ((perm_cons_erase held).pairwise_iff Region.Apart.symm).mp invariant.apart
  obtain ⟨fromRegion, others⟩ := pairwise_cons.mp permuted
  rw [pageEq]
  unfold pmemFree
  rw [wrap32_of_lt (by omega)]
  split
  · rename_i atEdge
    refine ⟨invariant.endKept, aboveBase, by simp only; omega, others, ?_⟩
    intro other member
    obtain ⟨otherPage, otherAddr, otherBase, otherBound, otherTop, otherEdge⟩ :=
      invariant.placed other (mem_of_mem_erase member)
    refine ⟨otherPage, otherAddr, otherBase, otherBound, otherTop, ?_⟩
    intro otherNonempty
    by_contra overlapping
    refine fromRegion other member (pageBytes * max page otherPage) ?_
    unfold Region.Contains Region.limit pageBytes at *
    dsimp only at overlapping
    omega
  · refine ⟨invariant.endKept, invariant.baseLe, invariant.edgeLe, others, ?_⟩
    intro other member
    exact invariant.placed other (mem_of_mem_erase member)

theorem edgeInvariant_step {base bound : Nat} {run next : PmemRun} {call : PmemCall}
    (invariant : EdgeInvariant base bound run) (admissible : Admissible run call)
    (taken : PmemStep run call next) : EdgeInvariant base bound next := by
  cases taken with
  | @refused run pages null =>
    rcases lt_or_ge run.pmem.theEndOfUpperMemory
        (wrap32 (run.pmem.theEdgeOfAllocatedMemory + pages.toNat)) with
      full | fits
    · rw [pmemAlloc, if_pos full]
      exact invariant
    · have small := admissible fits
      have unwrapped : wrap32
          (run.pmem.theEdgeOfAllocatedMemory + pages.toNat) =
            run.pmem.theEdgeOfAllocatedMemory + pages.toNat :=
        wrap32_of_lt (by omega)
      rw [pmemAlloc, if_neg (not_lt.mpr fits), unwrapped]
      exact invariant.raise (Nat.le_add_right _ _) small
  | @granted run pages nonNull =>
    rcases lt_or_ge run.pmem.theEndOfUpperMemory
        (wrap32 (run.pmem.theEdgeOfAllocatedMemory + pages.toNat)) with
      full | fits
    · rw [pmemAlloc, if_pos full] at nonNull
      exact absurd rfl nonNull
    · have small := admissible fits
      have wrapped : wrap32 (pageBytes * run.pmem.theEdgeOfAllocatedMemory) ≠ 0 := by
        rw [pmemAlloc, if_neg (not_lt.mpr fits)] at nonNull
        exact nonNull
      have belowTop : pageBytes * run.pmem.theEdgeOfAllocatedMemory < 4294967296 := by
        unfold wrap32 pageBytes at *
        omega
      rw [pmemAlloc, if_neg (not_lt.mpr fits), wrap32_of_lt belowTop, wrap32_of_lt (by omega)]
      rw [wrap32_of_lt (by omega), invariant.endKept] at fits
      exact invariant.grant fits small
  | freed held => exact invariant.release held

theorem EdgeInvariant.wellPlaced {boot : Boot}
    (invariant :
      EdgeInvariant (pageAligned (freePmemEdge boot)) (pmemSetup boot).theEndOfUpperMemory run) :
    WellPlaced boot run.live where
  apart := invariant.apart
  noWrap := by
    intro region member
    obtain ⟨page, addrEq, _, _, belowTop, _⟩ := invariant.placed region member
    unfold Region.limit pageBytes at *
    omega
  aboveKernel := by
    intro region member
    obtain ⟨page, addrEq, aboveBase, _⟩ := invariant.placed region member
    rw [addrEq]
    exact Nat.mul_le_mul_left pageBytes aboveBase
  belowEnd := by
    intro region member
    obtain ⟨page, addrEq, _, belowBound, _⟩ := invariant.placed region member
    simp only [pmemSetup, upperMemoryPages, upperMemoryOffset] at belowBound
    unfold Region.limit pageBytes upperMemoryOffset at *
    split at belowBound <;> omega

/--
In every run whose allocations are admissible, the live regions are disjoint,
do not wrap, and lie inside the free part of upper memory.
-/
theorem pmem_regions_wellPlaced
    (boot : Boot) (run : PmemRun) (reached : (pmemSystem boot).Reached Admissible run) :
    WellPlaced boot run.live := by
  apply EdgeInvariant.wellPlaced
  refine reached.invariant ?_ ?_
  · intro state started
    rw [started]
    exact
      { endKept := rfl
        baseLe := le_refl _
        edgeLe := pageAligned_le (freePmemEdge_lt boot)
        apart := List.Pairwise.nil
        placed := by simp }
  · intro source call target invariant admissible taken
    exact edgeInvariant_step invariant admissible taken

/-- A machine with 128 MiB of upper memory and one module after the kernel. -/
def sampleBoot : Boot := ⟨131072, 0x180000, [0x1f8123]⟩

theorem pmem_regions_wellPlaced_sample : WellPlaced sampleBoot [⟨0x1f9000, 3⟩] := by
  have started : (pmemSystem sampleBoot).Reached Admissible ⟨pmemSetup sampleBoot, []⟩ := .start rfl
  have granted : PmemStep ⟨pmemSetup sampleBoot, []⟩ (.alloc 3) ⟨⟨0x1fc, 33024⟩, [⟨0x1f9000, 3⟩]⟩ :=
    PmemStep.granted (by decide)
  have admissible : Admissible ⟨pmemSetup sampleBoot, []⟩ (.alloc 3) := by
    intro _
    decide
  exact pmem_regions_wellPlaced sampleBoot _ (started.step admissible granted)

/--
Asking for `2 ^ 32 - 1` pages makes the new edge wrap to one page below the
old one, so the request is granted although its range leaves the address
space.
-/
theorem pmem_regions_misplaced :
    ¬ ∀ (boot : Boot) (run : PmemRun),
        (pmemSystem boot).Reached unrestricted run → WellPlaced boot run.live := by
  intro everyRun
  have started : (pmemSystem sampleBoot).Reached unrestricted ⟨pmemSetup sampleBoot, []⟩ :=
    .start rfl
  have granted :
      PmemStep ⟨pmemSetup sampleBoot, []⟩ (.alloc 4294967295)
        ⟨⟨0x1f8, 33024⟩, [⟨0x1f9000, 4294967295⟩]⟩ :=
    PmemStep.granted (by decide)
  have placed := everyRun sampleBoot _ (started.step trivial granted)
  have noWrap := placed.noWrap ⟨0x1f9000, 4294967295⟩ (by simp)
  exact absurd noWrap (by decide)

end Cosec.Mem.PhysicalPages
