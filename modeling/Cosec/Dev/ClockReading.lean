import Mathlib.Data.List.OfFn
import Mathlib.Data.Nat.Find
import Cosec.Libc.Comparisons

/-!
# Reading the clock

`time_ymd_from_rtc` reads the six registers of the clock into one structure
and then into another, and is meant to try again until the two agree.  Its
loop goes on while `memcmp` finds them equal, and `memcmp` also compares the
fields that neither pass sets.
-/

namespace Cosec.Dev.ClockReading

open Libc.Comparisons List

/-! ## The registers -/

/--
What successive calls of `read_cmos` return.  From every call on, the flag
that `cmos_is_in_update` reads is clear at some later one.
-/
structure CmosReads where
  value : Nat → UInt8
  settles : ∀ position, ∃ skipped, value (position + skipped) &&& 0x80 = 0

/-- `while (cmos_is_in_update());`: the position behind the last call. -/
def CmosReads.awaitUpdate (reads : CmosReads) (position : Nat) : Nat :=
  position + Nat.find (reads.settles position) + 1

/-- The fields of `ymd_hms` that are read from registers. -/
structure Registers where
  sec : UInt8
  min : UInt8
  hour : UInt8
  mday : UInt8
  mon : UInt8
  year : UInt8
deriving DecidableEq

/-- One pass over the registers, and the position behind it. -/
def CmosReads.pass (reads : CmosReads) (position : Nat) : Registers × Nat :=
  let first := reads.awaitUpdate position
  (⟨reads.value first, reads.value (first + 1), reads.value (first + 2), reads.value (first + 3),
      reads.value (first + 4), reads.value (first + 5)⟩, first + 6)

/-- An `int` field set from a register. -/
def intBytes (value : UInt8) : List UInt8 := [value, 0, 0, 0]

/-- The bytes of a `ymd_hms`; the last three fields are not set. -/
def ymdBytes (registers : Registers) (unset : Fin 12 → UInt8) : List UInt8 :=
  intBytes registers.sec ++ intBytes registers.min ++ intBytes registers.hour ++
    intBytes registers.mday ++ intBytes registers.mon ++ intBytes registers.year ++ List.ofFn unset

theorem memcmp_ymd (first second : Registers) (unset1 unset2 : Fin 12 → UInt8) :
    memcmp 36 (ymdBytes first unset1) (ymdBytes second unset2) = 0 ↔
      first = second ∧ unset1 = unset2 := by
  rw [memcmp_eq_zero_iff (by simp [ymdBytes, intBytes]) (by simp [ymdBytes, intBytes])]
  cases first
  cases second
  simp only [ymdBytes, intBytes, cons_append, nil_append, List.cons.injEq,
    ofFn_inj, Registers.mk.injEq, true_and, and_assoc]

/-! ## The loop -/

section Loop

variable (reads : CmosReads) (time ymd : Fin 12 → UInt8)

/-- Where a turn of the loop begins. -/
def turnStart : Nat → Nat
  | 0 => 0
  | turn + 1 => (reads.pass (reads.pass (turnStart turn)).2).2

/-- What a turn reads into `time`. -/
def timeRead (turn : Nat) : Registers := (reads.pass (turnStart reads turn)).1

/-- What a turn reads into `*ymd`. -/
def ymdRead (turn : Nat) : Registers := (reads.pass (reads.pass (turnStart reads turn)).2).1

/--
The loop from a turn on, for at most `fuel` turns.  It ends behind a turn,
and the fields that no pass sets stay what they are.
-/
def readLoop : Nat → Nat → Option Nat
  | 0, _ => none
  | fuel + 1, turn =>
    if memcmp 36 (ymdBytes (timeRead reads turn) time) (ymdBytes (ymdRead reads turn) ymd) = 0 then
      readLoop fuel (turn + 1)
    else some turn

/-- `from_bcd`. -/
def fromBcd (bcd : Nat) : Nat := 10 * (bcd / 0x10) + bcd % 0x10

/-- A date and time. -/
structure Ymd where
  sec : Nat
  min : Nat
  hour : Nat
  mday : Nat
  mon : Nat
  year : Nat
deriving DecidableEq

/-- `convert_from_cmos_fmt`, with what it reads from the status register. -/
def convertFromCmosFmt (cmosB : UInt8) (raw : Registers) : Ymd :=
  let decode (value : UInt8) : Nat :=
    if cmosB &&& 0x04 = 0 then fromBcd value.toNat else value.toNat
  { sec := decode raw.sec
    min := decode raw.min
    hour := decode raw.hour
    mday := decode raw.mday
    mon := decode raw.mon
    year := decode raw.year + if decode raw.year ≥ 70 then 1900 else 2000 }

/-- `time_ymd_from_rtc`: the turn whose registers are converted, and the result. -/
def timeYmdFromRtc (fuel : Nat) : Option (Nat × Ymd) :=
  (readLoop reads time ymd fuel 0).map fun turn =>
    (turn, convertFromCmosFmt (reads.value (turnStart reads (turn + 1))) (ymdRead reads turn))

/-- The two passes of a turn agree. -/
def Agrees (turn : Nat) : Prop := timeRead reads turn = ymdRead reads turn

/--
The clock is read consistently: what is converted was read in a turn whose
passes agree, and the first such turn is the last.
-/
structure Consistent : Prop where
  identical :
    ∀ fuel result, timeYmdFromRtc reads time ymd fuel = some result → Agrees reads result.1
  prompt :
    ∀ turn, Agrees reads turn → (∀ earlier < turn, ¬Agrees reads earlier) →
      ∃ fuel result, timeYmdFromRtc reads time ymd fuel = some result ∧ result.1 = turn

variable {reads time ymd}

theorem readLoop_of_returned
    {fuel : Nat} {result : Nat × Ymd} (returned : timeYmdFromRtc reads time ymd fuel = some result) :
    readLoop reads time ymd fuel 0 = some result.1 := by
  obtain ⟨turn, ended, converted⟩ := Option.map_eq_some_iff.mp returned
  rw [ended, ← converted]

/-- A turn whose structures differ is the last. -/
theorem returned_first (differs : ¬(Agrees reads 0 ∧ time = ymd)) :
    ∃ date, timeYmdFromRtc reads time ymd 1 = some (0, date) := by
  refine ⟨_, Option.map_eq_some_iff.mpr ⟨0, ?_, rfl⟩⟩
  rw [readLoop, if_neg]
  rw [memcmp_ymd]
  exact differs

/-- A loop over structures that differ in the fields not set ends at once. -/
theorem turn_of_unset (different : time ≠ ymd) {fuel : Nat} {result : Nat × Ymd}
    (returned : timeYmdFromRtc reads time ymd fuel = some result) : result.1 = 0 := by
  have ended := readLoop_of_returned returned
  cases fuel with
  | zero => cases ended
  | succ fuel =>
    rw [readLoop, if_neg] at ended
    · exact (Option.some.inj ended).symm
    · rw [memcmp_ymd]
      exact fun same => different same.2

theorem not_agrees_of_readLoop
    {fuel turn last : Nat} (returned : readLoop reads time time fuel turn = some last) :
    ¬Agrees reads last := by
  induction fuel generalizing turn with
  | zero => cases returned
  | succ fuel ih =>
    rw [readLoop] at returned
    split at returned
    · exact ih returned
    · rename_i differs
      cases returned
      rw [memcmp_ymd] at differs
      exact fun agrees => differs ⟨agrees, rfl⟩

/-- Structures that are alike are not enough. -/
theorem not_consistent_of_agrees (agrees : Agrees reads 0) : ¬Consistent reads time time := by
  intro consistent
  obtain ⟨fuel, result, returned, first⟩ := consistent.prompt 0 agrees (by simp)
  have differs := not_agrees_of_readLoop (readLoop_of_returned returned)
  exact differs (first ▸ agrees)

/--
The clock is read consistently exactly if the fields that are not set differ
and the first two passes agree.
-/
theorem clock_consistent_iff :
    Consistent reads time ymd ↔ time ≠ ymd ∧ timeRead reads 0 = ymdRead reads 0 := by
  constructor
  · intro consistent
    by_cases both : Agrees reads 0 ∧ time = ymd
    · obtain ⟨agrees, rfl⟩ := both
      exact absurd consistent (not_consistent_of_agrees agrees)
    · obtain ⟨date, returned⟩ := returned_first both
      have agrees : Agrees reads 0 := consistent.identical 1 _ returned
      exact ⟨fun same => both ⟨agrees, same⟩, agrees⟩
  · rintro ⟨different, agrees⟩
    constructor
    · intro fuel result returned
      rw [turn_of_unset different returned]
      exact agrees
    · intro turn _ first
      cases turn with
      | zero =>
        obtain ⟨date, returned⟩ := returned_first (fun both => different both.2)
        exact ⟨1, _, returned, rfl⟩
      | succ turn => exact absurd agrees (first 0 (Nat.zero_lt_succ turn))

end Loop

/-- A clock that stands still at midnight. -/
def stillClock : CmosReads where
  value := fun _ => 0
  settles := fun _ => ⟨0, rfl⟩

/-- Two passes that agree are never enough. -/
theorem still_clock_inconsistent : ¬Consistent stillClock (fun _ => 0) (fun _ => 0) :=
  not_consistent_of_agrees rfl

end Cosec.Dev.ClockReading
