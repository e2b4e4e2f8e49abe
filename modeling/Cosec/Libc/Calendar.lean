import Mathlib.Order.Monotone.Basic

/-!
# Calendar time

`mktime` takes the start of a year and of a month from tables and adds the
rest.  The Gregorian calendar counts the days of years and of months one by
one.  From 1970 to 2069 the tables are what the calendar counts, and the
seconds fit in the thirty-two bits of `time_t`.
-/

namespace Cosec.Libc.Calendar

/-! ## The conversion -/

/-- The fields of `struct tm` that `mktime` reads. -/
structure Tm where
  sec : Int
  min : Int
  hour : Int
  mday : Int
  mon : Int
  year : Int

def epochByYear : List Nat :=
  [0, 31536000, 63072000, 94694400, 126230400, 157766400, 189302400, 220924800, 252460800,
    283996800, 315532800, 347155200, 378691200, 410227200, 441763200, 473385600, 504921600,
    536457600, 567993600, 599616000, 631152000, 662688000, 694224000, 725846400, 757382400,
    788918400, 820454400, 852076800, 883612800, 915148800, 946684800, 978307200, 1009843200,
    1041379200, 1072915200, 1104537600, 1136073600, 1167609600, 1199145600, 1230768000, 1262304000,
    1293840000, 1325376000, 1356998400, 1388534400, 1420070400, 1451606400, 1483228800, 1514764800,
    1546300800, 1577836800, 1609459200, 1640995200, 1672531200, 1704067200, 1735689600, 1767225600,
    1798761600, 1830297600, 1861920000, 1893456000, 1924992000, 1956528000, 1988150400, 2019686400,
    2051222400, 2082758400, 2114380800, 2145916800, 2177452800, 2208988800, 2240611200, 2272147200,
    2303683200, 2335219200, 2366841600, 2398377600, 2429913600, 2461449600, 2493072000, 2524608000,
    2556144000, 2587680000, 2619302400, 2650838400, 2682374400, 2713910400, 2745532800, 2777068800,
    2808604800, 2840140800, 2871763200, 2903299200, 2934835200, 2966371200, 2997993600, 3029529600,
    3061065600, 3092601600, 3124224000]

def cumulMonthDays : List Nat := [365, 0, 31, 59, 90, 120, 151, 181, 212, 243, 273, 304, 334]

def cumulMonthDaysWithLeap : List Nat :=
  [366, 0, 31, 60, 91, 121, 152, 182, 213, 244, 274, 305, 335]

def isLeapYear (year : Int) : Bool :=
  if year.tmod 4 ≠ 0 then false
  else if year.tmod 400 = 0 then true
  else year.tmod 100 ≠ 0

/-- An entry of a table; `none` is an access outside of it. -/
def entry (table : List Nat) (index : Int) : Option Nat :=
  if index < 0 then none else table[index.toNat]?

/-- A sum as a `time_t`, which is unsigned. -/
def asTime (value : Int) : Nat := (value % 4294967296).toNat

def mktime (tm : Tm) : Option Nat := do
  let hasLeap := isLeapYear tm.year
  let epoch ← entry epochByYear (tm.year - 1970)
  let days ← entry (if hasLeap then cumulMonthDaysWithLeap else cumulMonthDays) tm.mon
  let epoch := asTime (epoch + (days + (tm.mday - 1)) * 86400)
  return asTime (epoch + (tm.hour * 3600 + tm.min * 60 + tm.sec))

/-! ## The calendar -/

/-- The leap years of the Gregorian calendar. -/
def leap (year : Nat) : Bool := 4 ∣ year ∧ (100 ∣ year → 400 ∣ year)

def daysInMonth (leap : Bool) : Nat → Nat
  | 2 => if leap then 29 else 28
  | 4 | 6 | 9 | 11 => 30
  | _ => 31

/-- The days of the first months of a year. -/
def daysOfMonths (leap : Bool) : Nat → Nat
  | 0 => 0
  | months + 1 => daysOfMonths leap months + daysInMonth leap (months + 1)

/-- The days of the first years from 1970 on. -/
def daysOfYears : Nat → Nat
  | 0 => 0
  | years + 1 => daysOfYears years + daysOfMonths (leap (1970 + years)) 12

/-- A second of the hundred years from 1970 on. -/
structure Moment where
  year : Nat
  month : Nat
  day : Nat
  hour : Nat
  minute : Nat
  second : Nat
  inYears : 1970 ≤ year ∧ year ≤ 2069
  inMonths : 1 ≤ month ∧ month ≤ 12
  inDays : 1 ≤ day ∧ day ≤ daysInMonth (leap year) month
  inClock : hour ≤ 23 ∧ minute ≤ 59 ∧ second ≤ 59

namespace Moment

/-- A moment as the caller of `mktime` describes it. -/
def tm (moment : Moment) : Tm where
  sec := moment.second
  min := moment.minute
  hour := moment.hour
  mday := moment.day
  mon := moment.month
  year := moment.year

/-- The day of the year, from zero on. -/
def dayOfYear (moment : Moment) : Nat :=
  daysOfMonths (leap moment.year) (moment.month - 1) + (moment.day - 1)

/-- The number of days since 1970-01-01. -/
def dayNumber (moment : Moment) : Nat := daysOfYears (moment.year - 1970) + moment.dayOfYear

def secondOfDay (moment : Moment) : Nat :=
  3600 * moment.hour + 60 * moment.minute + moment.second

/-- The number of seconds since 1970-01-01 00:00:00. -/
def seconds (moment : Moment) : Nat := 86400 * moment.dayNumber + moment.secondOfDay

/-- Calendar order: the larger units decide. -/
def Before (earlier later : Moment) : Prop :=
  [earlier.year, earlier.month, earlier.day, earlier.hour, earlier.minute, earlier.second] <
    [later.year, later.month, later.day, later.hour, later.minute, later.second]

end Moment

theorem epochByYear_eq : ∀ years < 100, epochByYear[years]? = some (86400 * daysOfYears years) := by
  decide +kernel

theorem cumulMonthDays_eq :
    ∀ leap : Bool, ∀ months < 12,
      (if leap then cumulMonthDaysWithLeap else cumulMonthDays)[months + 1]? =
        some (daysOfMonths leap months) := by
  decide +kernel

theorem isLeapYear_eq (year : Nat) : isLeapYear year = leap year := by
  unfold isLeapYear leap
  rw [Bool.eq_iff_iff]
  simp only [Int.tmod_eq_emod_of_nonneg (Int.natCast_nonneg year)]
  split_ifs <;> simp <;> omega

theorem asTime_of_lt {value : Nat} (small : value < 4294967296) : asTime value = value := by
  unfold asTime
  omega

/-! ## Days in order -/

theorem daysOfMonths_monotone (leap : Bool) : Monotone (daysOfMonths leap) :=
  monotone_nat_of_le_succ fun _ => Nat.le_add_right _ _

theorem daysOfYears_monotone : Monotone daysOfYears :=
  monotone_nat_of_le_succ fun _ => Nat.le_add_right _ _

namespace Moment

variable (moment : Moment)

/-- A day lies in front of the next month. -/
theorem dayOfYear_lt : moment.dayOfYear < daysOfMonths (leap moment.year) moment.month := by
  obtain ⟨months, same⟩ := Nat.exists_eq_add_of_le' moment.inMonths.1
  have day := moment.inDays
  unfold dayOfYear
  rw [same] at day ⊢
  rw [daysOfMonths, Nat.add_sub_cancel]
  omega

theorem dayNumber_lt : moment.dayNumber < daysOfYears (moment.year - 1970 + 1) := by
  have inYear := daysOfMonths_monotone (leap moment.year) moment.inMonths.2
  have before := moment.dayOfYear_lt
  have same : 1970 + (moment.year - 1970) = moment.year := by
    have first := moment.inYears.1
    omega
  unfold dayNumber
  rw [daysOfYears, same]
  omega

theorem secondOfDay_lt : moment.secondOfDay < 86400 := by
  have clock := moment.inClock
  unfold secondOfDay
  omega

theorem seconds_lt : moment.seconds < 4294967296 := by
  have years := moment.inYears
  have days := moment.dayNumber_lt
  have last : daysOfYears (moment.year - 1970 + 1) ≤ daysOfYears 100 :=
    daysOfYears_monotone (by omega)
  have all : daysOfYears 100 = 36525 := by decide +kernel
  have clock := moment.secondOfDay_lt
  unfold seconds
  omega

theorem mktime_tm : mktime moment.tm = some moment.seconds := by
  have years := moment.inYears
  have months := moment.inMonths
  have index : ((moment.year : Int) - 1970).toNat = moment.year - 1970 := by omega
  have year :
      entry epochByYear (moment.year - 1970) = some (86400 * daysOfYears (moment.year - 1970)) := by
    rw [entry, if_neg (by omega), index, epochByYear_eq _ (by omega)]
  have month :
      entry (if leap moment.year then cumulMonthDaysWithLeap else cumulMonthDays) moment.month =
        some (daysOfMonths (leap moment.year) (moment.month - 1)) := by
    rw [entry, if_neg (by omega), ← cumulMonthDays_eq _ _ (by omega), Int.toNat_natCast,
      Nat.sub_add_cancel months.1]
  have days :
      ((86400 * daysOfYears (moment.year - 1970) : Nat) : Int) +
          (daysOfMonths (leap moment.year) (moment.month - 1) + ((moment.day : Int) - 1)) * 86400 =
        (86400 * moment.dayNumber : Nat) := by
    have first := moment.inDays.1
    unfold dayNumber dayOfYear
    omega
  have clock :
      ((86400 * moment.dayNumber : Nat) : Int) +
          (moment.hour * 3600 + moment.minute * 60 + moment.second) = moment.seconds := by
    unfold seconds secondOfDay
    omega
  have fits := moment.seconds_lt
  simp only [mktime, tm, isLeapYear_eq, year, month, Option.bind_eq_bind, Option.bind_some,
    Option.pure_def, days]
  rw [asTime_of_lt (lt_of_le_of_lt (Nat.le_add_right _ _) fits), clock, asTime_of_lt fits]

theorem seconds_lt_of_before {earlier later : Moment} (before : earlier.Before later) :
    earlier.seconds < later.seconds := by
  have clock := earlier.secondOfDay_lt
  have years := earlier.inYears
  unfold seconds
  have sooner (days : earlier.dayNumber < later.dayNumber) :
      86400 * earlier.dayNumber + earlier.secondOfDay <
        86400 * later.dayNumber + later.secondOfDay := by
    omega
  simp only [Before, List.cons_lt_cons_iff, List.not_lt_nil, and_false, or_false] at before
  rcases before with year | ⟨year, month | ⟨month, day | ⟨day, time⟩⟩⟩
  · apply sooner
    have next : daysOfYears (earlier.year - 1970 + 1) ≤ daysOfYears (later.year - 1970) :=
      daysOfYears_monotone (by omega)
    exact lt_of_lt_of_le earlier.dayNumber_lt (le_trans next (Nat.le_add_right _ _))
  · apply sooner
    have inYear := earlier.dayOfYear_lt
    have next :
        daysOfMonths (leap later.year) earlier.month ≤
          daysOfMonths (leap later.year) (later.month - 1) :=
      daysOfMonths_monotone _ (by omega)
    unfold dayNumber dayOfYear at *
    rw [year] at inYear ⊢
    omega
  · apply sooner
    have first := earlier.inDays.1
    unfold dayNumber dayOfYear
    rw [year, month]
    omega
  · unfold dayNumber dayOfYear secondOfDay
    have minutes := earlier.inClock
    rw [year, month, day]
    omega

end Moment

/--
From 1970 to 2069 `mktime` returns the seconds that the Gregorian calendar
counts, and a later moment has a larger result.
-/
theorem mktime_counts_seconds :
    (∀ moment : Moment, mktime moment.tm = some moment.seconds) ∧
      ∀ earlier later : Moment, earlier.Before later →
        ∃ first second, mktime earlier.tm = some first ∧ mktime later.tm = some second ∧
          first < second := by
  refine ⟨Moment.mktime_tm, ?_⟩
  intro earlier later before
  exact ⟨_, _, earlier.mktime_tm, later.mktime_tm, Moment.seconds_lt_of_before before⟩

/-- The last second of February 2000 and the one after it. -/
theorem mktime_counts_seconds_leap_day :
    ∃ first second, mktime ⟨59, 59, 23, 29, 2, 2000⟩ = some first ∧
      mktime ⟨0, 0, 0, 1, 3, 2000⟩ = some second ∧ first < second := by
  have before : Moment.Before ⟨2000, 2, 29, 23, 59, 59, by decide, by decide, by decide, by decide⟩
      ⟨2000, 3, 1, 0, 0, 0, by decide, by decide, by decide, by decide⟩ := by
    unfold Moment.Before
    decide
  exact mktime_counts_seconds.2 _ _ before

end Cosec.Libc.Calendar
