import Muduo.Buffer
import Muduo.Date

/-! `TimeZone::toUtcTime` and `TimeZone::fromUtcTime`, the counterparts of `gmtime` and `timegm`. Times
before 1970 are negative, and the truncating division has to be corrected by a day. -/

namespace Muduo

open CheckedInt

/-- `struct tm`. -/
structure Tm where
  sec : Int := 0
  min : Int := 0
  hour : Int := 0
  mday : Int := 0
  mon : Int := 0
  year : Int := 0
  wday : Int := 0
  yday : Int := 0
  isdst : Bool := false
  gmtoff : Int := 0
  zone : Bytes := []
  deriving DecidableEq, Repr

namespace Date

def kJulianDayOf1970_01_01 : Int := (getJulianDayNumber 1970 1 1).getD 0

theorem kJulianDayOf1970_01_01_eq : kJulianDayOf1970_01_01 = 2440588 := by decide +kernel

end Date

namespace TimeZone

def kSecondsPerDay : Int := 24 * 60 * 60

/-- `fillHMS`; the argument is converted to `unsigned`. -/
def fillHMS (seconds : Int) (utc : Tm) : Tm :=
  let seconds := seconds % 2 ^ 32
  let minutes := seconds / 60
  { utc with sec := seconds % 60, min := minutes % 60, hour := minutes / 60 }

/-- The seconds of the day and the days, which are corrected when the seconds are negative. -/
def splitDays (secondsSinceEpoch : Int) : Option (Int × Int) := do
  let seconds := cast 32 (← mod 64 secondsSinceEpoch kSecondsPerDay)
  let days := cast 32 (← div 64 secondsSinceEpoch kSecondsPerDay)
  if seconds < 0 then return (← add 32 seconds kSecondsPerDay, ← sub 32 days 1)
  else return (seconds, days)

def toUtcTime (secondsSinceEpoch : Int) (yday : Bool) : Option Tm := do
  let (seconds, days) ← splitDays secondsSinceEpoch
  let utc := fillHMS seconds { zone := ascii "GMT" }
  let date := Date.mk (← add 32 days Date.kJulianDayOf1970_01_01)
  let ymd ← date.yearMonthDay
  let utc := { utc with
    year := ← sub 32 ymd.year 1900
    mon := ← sub 32 ymd.month 1
    mday := ymd.day
    wday := ← date.weekDay }
  if yday then
    let startOfYear ← Date.ofYearMonthDay ymd.year 1 1
    return { utc with yday := ← sub 32 date.julianDayNumber startOfYear.julianDayNumber }
  else return utc

/-- `fromUtcTime` of a date and a time of day. -/
def fromUtcFields (year month day hour minute seconds : Int) : Option Int := do
  let date ← Date.ofYearMonthDay year month day
  let secondsInDay ← add 32 (← add 32 (← mul 32 hour 3600) (← mul 32 minute 60)) seconds
  let days ← sub 32 date.julianDayNumber Date.kJulianDayOf1970_01_01
  add 64 (← mul 64 days kSecondsPerDay) secondsInDay

def fromUtcTime (utc : Tm) : Option Int := do
  fromUtcFields (← add 32 utc.year 1900) (← add 32 utc.mon 1) utc.mday utc.hour utc.min utc.sec

/-! ## Days and seconds -/

/-- The day that a time belongs to. -/
def dayOf (t : Int) : Int := t / 86400 + 2440588

/-- The day is one for which `Date` is correct, and not before the day 0. -/
def InRange (j : Int) : Prop := 0 ≤ j ∧ j ≤ 536838867

instance (j : Int) : Decidable (InRange j) := instDecidableAnd

theorem splitDays_eq {t : Int} (hday : InRange (dayOf t)) : splitDays t = some (t % 86400, t / 86400) := by
  obtain ⟨hlow, hhigh⟩ := hday
  rw [dayOf] at hlow hhigh
  have htruncates := truncates (a := t) (b := 86400) (by decide)
  have hmod : mod 64 t kSecondsPerDay = some (t.tmod 86400) :=
    mod_eq_tmod (by decide) (fits_long.mpr (by rw [show kSecondsPerDay = 86400 from rfl]; omega))
  have hdiv : div 64 t kSecondsPerDay = some (t.tdiv 86400) :=
    div_eq_tdiv (by decide) (fits_long.mpr (by rw [show kSecondsPerDay = 86400 from rfl]; omega))
  have hseconds : cast 32 (t.tmod 86400) = t.tmod 86400 := cast_int (by omega) (by omega)
  have hdays : cast 32 (t.tdiv 86400) = t.tdiv 86400 := cast_int (by omega) (by omega)
  rw [splitDays, bind_of_eq hmod, bind_of_eq hdiv, hseconds, hdays]
  rcases htruncates with ⟨hpos, hfloor, hrest⟩ | ⟨hneg, hfloor, hrest⟩
  · rw [if_neg (not_lt.mpr hpos), hfloor, hrest]
    rfl
  · -- a day is borrowed
    have hborrow : add 32 (t.tmod 86400) kSecondsPerDay = some (t % 86400) := by
      rw [show kSecondsPerDay = 86400 from rfl, add_eq (fits_int.mpr (by omega)), hrest,
        Int.sub_add_cancel]
    have hbefore : sub 32 (t.tdiv 86400) 1 = some (t / 86400) := by
      rw [sub_eq (fits_int.mpr (by omega)), hfloor, Int.add_sub_cancel]
    rw [if_pos hneg, bind_of_eq hborrow, bind_of_eq hbefore]
    rfl

/-- The time of day within its limits. -/
structure Clock (utc : Tm) (seconds : Int) : Prop where
  sec : 0 ≤ utc.sec ∧ utc.sec ≤ 59
  min : 0 ≤ utc.min ∧ utc.min ≤ 59
  hour : 0 ≤ utc.hour ∧ utc.hour ≤ 23
  total : utc.hour * 3600 + utc.min * 60 + utc.sec = seconds

theorem clock_fillHMS {seconds : Int} (hlow : 0 ≤ seconds) (hhigh : seconds < 86400) (utc : Tm) :
    Clock (fillHMS seconds utc) seconds := by
  refine ⟨?_, ?_, ?_, ?_⟩ <;> simp only [fillHMS] <;> omega

/-- The time of day determines its parts. -/
theorem Clock.unique {utc other : Tm} {seconds : Int} (hutc : Clock utc seconds)
    (hother : Clock other seconds) :
    utc.hour = other.hour ∧ utc.min = other.min ∧ utc.sec = other.sec := by
  obtain ⟨hsec, hmin, hhour, htotal⟩ := hutc
  obtain ⟨hsec', hmin', hhour', htotal'⟩ := hother
  omega

variable {t : Int}

/-- What `toUtcTime` finds out about a time. -/
structure Describes (utc : Tm) (t : Int) (yday : Bool) (date : Date.YearMonthDay) : Prop where
  clock : Clock utc (t % 86400)
  year : utc.year + 1900 = date.year
  month : utc.mon + 1 = date.month
  day : utc.mday = date.day
  wday : utc.wday = (dayOf t + 1) % 7
  yday : yday = true → utc.yday = date.dayOfYear

/-- The year of a date in the range is an `int`, and so is what is computed from it. -/
theorem year_bounds {date : Date.YearMonthDay} (hvalid : date.Valid) (hday : InRange date.julianDay) :
    -4800 ≤ date.year ∧ date.year ≤ 1500000 := by
  have hnonneg := Gregorian.Date.dayOfYear_nonneg hvalid
  have hlt := Gregorian.Date.dayOfYear_lt hvalid
  obtain ⟨hlow, hhigh⟩ := hday
  simp only [Gregorian.Date.julianDay, Gregorian.Date.dayNumber, Gregorian.yearStart] at hlow hhigh
  omega

theorem startOfYear_eq {date : Date.YearMonthDay} (hvalid : date.Valid) (hday : InRange date.julianDay) :
    Date.ofYearMonthDay date.year 1 1 = some ⟨date.julianDay - date.dayOfYear⟩ := by
  have hnonneg := Gregorian.Date.dayOfYear_nonneg hvalid
  have hlt := Gregorian.Date.dayOfYear_lt hvalid
  have hcount := date.julianDay_sub_startOfYear
  have hstart : date.startOfYear.julianDay = date.julianDay - date.dayOfYear := by omega
  have hfrom : ¬ date.startOfYear.Before Date.firstDay :=
    Date.not_before_of_julianDay date.startOfYear_valid (by have := hday.1; omega)
  obtain ⟨hnumber, -⟩ := Date.codes_of_date date.startOfYear_valid hfrom (by have := hday.2; omega)
  rw [Date.ofYearMonthDay, ← hstart]
  exact congrArg (Option.map Date.mk) hnumber

theorem toUtcTime_spec (hday : InRange (dayOf t)) (yday : Bool) {date : Date.YearMonthDay}
    (hvalid : date.Valid) (hnumber : date.julianDay = dayOf t) :
    ∃ utc, toUtcTime t yday = some utc ∧ Describes utc t yday date := by
  have hrange : InRange date.julianDay := hnumber ▸ hday
  have hfrom : ¬ date.Before Date.firstDay :=
    Date.not_before_of_julianDay hvalid (by have := hrange.1; omega)
  obtain ⟨-, hymd⟩ := Date.codes_of_date hvalid hfrom hrange.2
  have hyears := year_bounds hvalid hrange
  have hmonth := hvalid.month_pos
  have htwelve := hvalid.month_le
  have hstart := startOfYear_eq hvalid hrange
  have hclock := clock_fillHMS (Int.emod_nonneg t (by decide)) (Int.emod_lt_of_pos t (by decide))
    { zone := ascii "GMT" }
  have hsplit := splitDays_eq hday
  have hdate : add 32 (t / 86400) Date.kJulianDayOf1970_01_01 = some (dayOf t) := by
    rw [Date.kJulianDayOf1970_01_01_eq]
    obtain ⟨hlow, hhigh⟩ := hday
    rw [dayOf] at hlow hhigh
    exact add_eq (fits_int.mpr (by omega))
  have hymd' : (Date.mk (dayOf t)).yearMonthDay = some date := by rw [Date.yearMonthDay, ← hnumber, hymd]
  have hyear : sub 32 date.year 1900 = some (date.year - 1900) := sub_eq (fits_int.mpr (by omega))
  have hmon : sub 32 date.month 1 = some (date.month - 1) := sub_eq (fits_int.mpr (by omega))
  have hwday : (Date.mk (dayOf t)).weekDay = some ((dayOf t + 1) % 7) :=
    Date.weekDay_eq hday.1 (by have := hday.2; omega)
  have hyday : sub 32 (dayOf t) (date.julianDay - date.dayOfYear) = some date.dayOfYear := by
    have hnonneg := Gregorian.Date.dayOfYear_nonneg hvalid
    have hlt := Gregorian.Date.dayOfYear_lt hvalid
    rw [← hnumber, sub_eq (fits_int.mpr (by omega))]
    congr 1
    omega
  rw [toUtcTime, bind_of_eq hsplit]
  simp only []
  rw [bind_of_eq hdate, bind_of_eq hymd', bind_of_eq hyear, bind_of_eq hmon, bind_of_eq hwday]
  cases yday with
  | true =>
      simp only [if_true]
      rw [bind_of_eq hstart, bind_of_eq hyday]
      refine ⟨_, rfl, ⟨hclock.sec, hclock.min, hclock.hour, hclock.total⟩, ?_, ?_, rfl, rfl, fun _ => rfl⟩
      · exact Int.sub_add_cancel date.year 1900
      · exact Int.sub_add_cancel date.month 1
  | false =>
      simp only [Bool.false_eq_true, if_false]
      refine ⟨_, rfl, ⟨hclock.sec, hclock.min, hclock.hour, hclock.total⟩, ?_, ?_, rfl, rfl, ?_⟩
      · exact Int.sub_add_cancel date.year 1900
      · exact Int.sub_add_cancel date.month 1
      · intro hnever
        cases hnever

theorem fromUtcFields_eq {date : Date.YearMonthDay} (hvalid : date.Valid) (hday : InRange date.julianDay)
    {utc : Tm} {seconds : Int} (hclock : Clock utc seconds) :
    fromUtcFields date.year date.month date.day utc.hour utc.min utc.sec =
      some ((date.julianDay - 2440588) * 86400 + seconds) := by
  obtain ⟨hsec, hmin, hhour, htotal⟩ := hclock
  have hfrom : ¬ date.Before Date.firstDay :=
    Date.not_before_of_julianDay hvalid (by have := hday.1; omega)
  obtain ⟨hnumber, -⟩ := Date.codes_of_date hvalid hfrom hday.2
  obtain ⟨hlow, hhigh⟩ := hday
  have hdate : Date.ofYearMonthDay date.year date.month date.day = some ⟨date.julianDay⟩ := by
    rw [Date.ofYearMonthDay, hnumber]
    rfl
  have hhours : mul 32 utc.hour 3600 = some (utc.hour * 3600) := mul_eq (fits_int.mpr (by omega))
  have hmins : mul 32 utc.min 60 = some (utc.min * 60) := mul_eq (fits_int.mpr (by omega))
  have hboth : add 32 (utc.hour * 3600) (utc.min * 60) = some (utc.hour * 3600 + utc.min * 60) :=
    add_eq (fits_int.mpr (by omega))
  have hsecs : add 32 (utc.hour * 3600 + utc.min * 60) utc.sec = some seconds := by
    rw [add_eq (fits_int.mpr (by omega)), htotal]
  have hdays : sub 32 date.julianDay Date.kJulianDayOf1970_01_01 = some (date.julianDay - 2440588) := by
    rw [Date.kJulianDayOf1970_01_01_eq]
    exact sub_eq (fits_int.mpr (by omega))
  have hproduct : mul 64 (date.julianDay - 2440588) kSecondsPerDay =
      some ((date.julianDay - 2440588) * 86400) :=
    mul_eq (fits_long.mpr (by rw [show kSecondsPerDay = 86400 from rfl]; omega))
  rw [fromUtcFields, bind_of_eq hdate, bind_of_eq hhours, bind_of_eq hmins, bind_of_eq hboth,
    bind_of_eq hsecs, bind_of_eq hdays, bind_of_eq hproduct]
  exact add_eq (fits_long.mpr (by omega))

/-- What was found out about a time leads back to it. -/
theorem fromUtcTime_eq {date : Date.YearMonthDay} (hvalid : date.Valid) (hday : InRange (dayOf t))
    (hnumber : date.julianDay = dayOf t) {utc : Tm} {yday : Bool} (hutc : Describes utc t yday date) :
    fromUtcTime utc = some t := by
  have hrange : InRange date.julianDay := hnumber ▸ hday
  have hyears := year_bounds hvalid hrange
  have hmonth := hvalid.month_pos
  have htwelve := hvalid.month_le
  have hyear : add 32 utc.year 1900 = some date.year := by
    rw [add_eq (fits_int.mpr (by rw [hutc.year]; omega)), hutc.year]
  have hmon : add 32 utc.mon 1 = some date.month := by
    rw [add_eq (fits_int.mpr (by rw [hutc.month]; omega)), hutc.month]
  have htime : (date.julianDay - 2440588) * 86400 + t % 86400 = t := by
    rw [hnumber, dayOf]
    omega
  rw [fromUtcTime, bind_of_eq hyear, bind_of_eq hmon, hutc.day, fromUtcFields_eq hvalid hrange hutc.clock,
    htime]

/-- **Conversion to UTC and back.** For every time whose day is in the range the fields are within their
limits, the date is that of the day, the day of the week is the one `Date` gives it, the day of the year
counts from 1 January, and the fields lead back to the time. Every valid date in the range and time of day
is found again. -/
theorem utc_round_trip :
    (∀ t, InRange (dayOf t) → ∃ utc date, toUtcTime t true = some utc ∧
      Date.getYearMonthDay (dayOf t) = some date ∧ date.Valid ∧ date.julianDay = dayOf t ∧
      (0 ≤ utc.sec ∧ utc.sec ≤ 59) ∧ (0 ≤ utc.min ∧ utc.min ≤ 59) ∧ (0 ≤ utc.hour ∧ utc.hour ≤ 23) ∧
      utc.year + 1900 = date.year ∧ utc.mon + 1 = date.month ∧ utc.mday = date.day ∧
      (0 ≤ utc.wday ∧ utc.wday ≤ 6) ∧ Date.weekDay ⟨dayOf t⟩ = some utc.wday ∧
      utc.yday = date.dayOfYear ∧ fromUtcTime utc = some t) ∧
    ∀ (date : Date.YearMonthDay) (hour minute seconds : Int) (yday : Bool), date.Valid →
      InRange date.julianDay → 0 ≤ hour ∧ hour ≤ 23 → 0 ≤ minute ∧ minute ≤ 59 →
      0 ≤ seconds ∧ seconds ≤ 59 → ∃ t utc,
        fromUtcFields date.year date.month date.day hour minute seconds = some t ∧
        toUtcTime t yday = some utc ∧ utc.year + 1900 = date.year ∧ utc.mon + 1 = date.month ∧
        utc.mday = date.day ∧ utc.hour = hour ∧ utc.min = minute ∧ utc.sec = seconds := by
  constructor
  · intro t hday
    have hdates : Date.InRange (dayOf t) := ⟨by have := hday.1; omega, hday.2⟩
    obtain ⟨date, hdate, hvalid, -, hnumber, -⟩ := Date.getYearMonthDay_spec hdates
    obtain ⟨utc, hutc, hfields⟩ := toUtcTime_spec hday true hvalid hnumber
    have hweek := Date.weekDay_eq hday.1 (by have := hday.2; omega)
    refine ⟨utc, date, hutc, hdate, hvalid, hnumber, hfields.clock.sec, hfields.clock.min,
      hfields.clock.hour, hfields.year, hfields.month, hfields.day, ?_, ?_, hfields.yday rfl,
      fromUtcTime_eq hvalid hday hnumber hfields⟩
    · rw [hfields.wday]
      omega
    · rw [hweek, hfields.wday]
  · intro date hour minute seconds yday hvalid hday hhour hminute hseconds
    have hclock : Clock { hour := hour, min := minute, sec := seconds }
      (hour * 3600 + minute * 60 + seconds) := ⟨hseconds, hminute, hhour, rfl⟩
    obtain ⟨t, ht⟩ : ∃ t, t = (date.julianDay - 2440588) * 86400 + (hour * 3600 + minute * 60 + seconds) :=
      ⟨_, rfl⟩
    have hdayOf : dayOf t = date.julianDay := by
      rw [dayOf]
      omega
    have hrest : t % 86400 = hour * 3600 + minute * 60 + seconds := by omega
    obtain ⟨utc, hutc, hfields⟩ := toUtcTime_spec (hdayOf ▸ hday) yday hvalid hdayOf.symm
    obtain ⟨hsame, hsame', hsame''⟩ := (hrest ▸ hfields.clock).unique hclock
    refine ⟨t, utc, ?_, hutc, hfields.year, hfields.month, hfields.day, hsame, hsame', hsame''⟩
    rw [ht]
    exact fromUtcFields_eq hvalid hday hclock

/-- The last second before 1970. -/
theorem utc_round_trip_before_epoch :
    ∃ utc, toUtcTime (-1) true = some utc ∧ (utc.year, utc.mon, utc.mday) = (69, 11, 31) ∧
      (utc.hour, utc.min, utc.sec) = (23, 59, 59) ∧ utc.yday = 364 ∧ fromUtcTime utc = some (-1) := by
  obtain ⟨utc, date, hutc, hrest⟩ := utc_round_trip.1 (-1) (by decide)
  have heval : (toUtcTime (-1) true).map (fun utc => ((utc.year, utc.mon, utc.mday),
      (utc.hour, utc.min, utc.sec), utc.yday)) = some ((69, 11, 31), (23, 59, 59), 364) := by
    decide +kernel
  rw [hutc, Option.map_some, Option.some.injEq] at heval
  obtain ⟨-, -, -, -, -, -, -, -, -, -, -, -, hback⟩ := hrest
  exact ⟨utc, hutc, congrArg Prod.fst heval, congrArg (fun fields => fields.2.1) heval,
    congrArg (fun fields => fields.2.2) heval, hback⟩

end TimeZone
end Muduo
