import Muduo.CheckedInt
import Muduo.Gregorian

/-! `muduo::Date`. The two functions between day numbers and dates count years from March, so that the
leap day is the last day of a year. Here a day count is taken apart into centuries, years and days, which
is what the divisions of the code do, and put together again. -/

namespace Muduo

open CheckedInt

structure Date where
  julianDayNumber : Int
  deriving DecidableEq, Repr

namespace Date

abbrev YearMonthDay := Gregorian.Date

def kDaysPerWeek : Int := 7

/-- `(k * x + r) / n`. -/
def quotient (k x r n : Int) : Option Int := do
  div 32 (← add 32 (← mul 32 k x) r) n

def getJulianDayNumber (year month day : Int) : Option Int := do
  let a ← div 32 (← sub 32 14 month) 12
  let y ← sub 32 (← add 32 year 4800) a
  let m ← sub 32 (← add 32 month (← mul 32 12 a)) 3
  -- day + (153*m + 2) / 5 + y*365 + y/4 - y/100 + y/400 - 32045
  let days ← add 32 day (← quotient 153 m 2 5)
  let days ← add 32 days (← mul 32 y 365)
  let days ← add 32 days (← div 32 y 4)
  let days ← sub 32 days (← div 32 y 100)
  let days ← add 32 days (← div 32 y 400)
  sub 32 days 32045

def getYearMonthDay (julianDayNumber : Int) : Option YearMonthDay := do
  let a ← add 32 julianDayNumber 32044
  let b ← quotient 4 a 3 146097
  let c ← sub 32 a (← div 32 (← mul 32 b 146097) 4)
  let d ← quotient 4 c 3 1461
  let e ← sub 32 c (← div 32 (← mul 32 1461 d) 4)
  let m ← quotient 5 e 2 153
  let day ← add 32 (← sub 32 e (← quotient 153 m 2 5)) 1
  let month ← sub 32 (← add 32 m 3) (← mul 32 12 (← div 32 m 10))
  let year ← add 32 (← sub 32 (← add 32 (← mul 32 b 100) d) 4800) (← div 32 m 10)
  return ⟨year, month, day⟩

/-- The constructor from a year, a month and a day. -/
def ofYearMonthDay (year month day : Int) : Option Date :=
  (getJulianDayNumber year month day).map Date.mk

def yearMonthDay (date : Date) : Option YearMonthDay := getYearMonthDay date.julianDayNumber

/-- `[0, 1, ..., 6]` stand for `[Sunday, Monday, ..., Saturday]`. -/
def weekDay (date : Date) : Option Int := do
  mod 32 (← add 32 date.julianDayNumber 1) kDaysPerWeek

/-! ## A count of days in parts -/

/-- So many days are `b` centuries, `d` years and `e` days, counted from 1 March. A year has a day more
when the number of the next is divisible by four, and a century when that of the next is. -/
structure Parts (a b d e : Int) : Prop where
  count : a = 36524 * b + b / 4 + (365 * d + d / 4) + e
  century_nonneg : 0 ≤ b
  year_nonneg : 0 ≤ d
  year_le : d ≤ 99
  day_nonneg : 0 ≤ e
  day_le : e ≤ 365
  leapDay : e = 365 → d % 4 = 3 ∧ (d = 99 → b % 4 = 3)

/-- The date that the parts stand for. -/
def ofParts (b d e : Int) : YearMonthDay :=
  let m := (5 * e + 2) / 153
  ⟨b * 100 + d - 4800 + m / 10, m + 3 - 12 * (m / 10), e - (153 * m + 2) / 5 + 1⟩

/-- Every count has parts. -/
theorem parts_of_count {a : Int} (ha : 0 ≤ a) : ∃ b d e, Parts a b d e := by
  obtain ⟨b, hb⟩ : ∃ b, b = (4 * a + 3) / 146097 := ⟨_, rfl⟩
  obtain ⟨c, hc⟩ : ∃ c, c = a - (36524 * b + b / 4) := ⟨_, rfl⟩
  obtain ⟨d, hd⟩ : ∃ d, d = (4 * c + 3) / 1461 := ⟨_, rfl⟩
  have hcentury : 0 ≤ c ∧ c ≤ 36524 ∧ (c = 36524 → b % 4 = 3) := by omega
  refine ⟨b, d, c - (365 * d + d / 4), ?_, ?_, ?_, ?_, ?_, ?_, ?_⟩ <;> omega

variable {a b d e : Int}

/-- The divisions of the code find the parts. -/
theorem Parts.century_eq (h : Parts a b d e) : (4 * a + 3) / 146097 = b := by
  obtain ⟨hcount, hb, hd, hyear, he, hday, hleap⟩ := h
  omega

theorem Parts.rest_eq (h : Parts a b d e) : a - b * 146097 / 4 = 365 * d + d / 4 + e := by
  obtain ⟨hcount, hb, hd, hyear, he, hday, hleap⟩ := h
  omega

theorem Parts.year_eq (h : Parts a b d e) : (4 * (365 * d + d / 4 + e) + 3) / 1461 = d := by
  obtain ⟨hcount, hb, hd, hyear, he, hday, hleap⟩ := h
  omega

theorem Parts.day_eq : 365 * d + d / 4 + e - 1461 * d / 4 = e := by
  omega

/-- How many days are from 1 March of the year -4800 to the date. -/
def marchCount (date : YearMonthDay) : Int := date.julianDay + 32044

/-- The month counted from March, and whether it is in the next year. -/
theorem month_cases (he : 0 ≤ e) (hday : e ≤ 365) :
    ∃ m, (5 * e + 2) / 153 = m ∧ 0 ≤ m ∧ (m ≤ 9 ∧ m / 10 = 0 ∨ 10 ≤ m ∧ m ≤ 11 ∧ m / 10 = 1) := by
  refine ⟨(5 * e + 2) / 153, rfl, ?_⟩
  omega

/-- Before February the months counted from March have regular lengths. -/
theorem daysInMonth_fromMarch {m : Int} (year : Int) (hfirst : 0 ≤ m) (hten : m ≤ 10) :
    Gregorian.daysInMonth year (m + 3 - 12 * (m / 10)) =
      (153 * (m + 1) + 2) / 5 - (153 * m + 2) / 5 := by
  interval_cases m <;> rfl

/-- The years whose February ends a year of 366 days from March. -/
theorem isLeap_next (hd : 0 ≤ d) (hyear : d ≤ 99) :
    Gregorian.IsLeap (b * 100 + d - 4800 + 1) ↔ d % 4 = 3 ∧ (d = 99 → b % 4 = 3) := by
  rw [Gregorian.IsLeap]
  omega

theorem ofParts_valid (h : Parts a b d e) : (ofParts b d e).Valid := by
  obtain ⟨-, hb, hd, hyear, he, hday, hleap⟩ := h
  obtain ⟨m, hm, hfirst, hmonths⟩ := month_cases he hday
  have hlast : e - (153 * m + 2) / 5 + 1 ≤
      Gregorian.daysInMonth (b * 100 + d - 4800 + m / 10) (m + 3 - 12 * (m / 10)) := by
    by_cases hten : m ≤ 10
    · rw [daysInMonth_fromMarch _ hfirst hten]
      omega
    · obtain rfl : m = 11 := by omega
      change e - 337 + 1 ≤ if Gregorian.IsLeap (b * 100 + d - 4800 + 1) then 29 else 28
      split_ifs with hnext
      · omega
      · have hshort : e ≠ 365 := fun hlong => hnext ((isLeap_next hd hyear).mpr (hleap hlong))
        omega
  refine ⟨?_, ?_, ?_, ?_⟩ <;> simp only [ofParts, hm]
  · omega
  · omega
  · omega
  · exact hlast

/-- The parts are the count of the date. -/
theorem marchCount_ofParts (h : Parts a b d e) : marchCount (ofParts b d e) = a := by
  obtain ⟨hcount, hb, hd, hyear, he, hday, hleap⟩ := h
  obtain ⟨m, hm, hfirst, hmonths⟩ := month_cases he hday
  rcases hmonths with ⟨hnine, hsame⟩ | ⟨hten, heleven, hnext⟩
  · have hstart := Gregorian.monthStart_eq (b * 100 + d - 4800 + 0) (m + 3 - 12 * 0)
      (by omega) (by omega)
    rw [if_neg (by omega)] at hstart
    simp only [marchCount, Gregorian.Date.julianDay, Gregorian.Date.dayNumber, Gregorian.Date.dayOfYear, Gregorian.yearStart,
      ofParts, hm, hsame, hstart, Gregorian.IsLeap]
    split_ifs <;> omega
  · have hstart := Gregorian.monthStart_eq (b * 100 + d - 4800 + 1) (m + 3 - 12 * 1)
      (by omega) (by omega)
    rw [if_pos (by omega)] at hstart
    simp only [marchCount, Gregorian.Date.julianDay, Gregorian.Date.dayNumber, Gregorian.Date.dayOfYear, Gregorian.yearStart,
      ofParts, hm, hnext, hstart]
    omega

/-- 1 March of the year -4800, from which the counts are taken. -/
def firstDay : YearMonthDay := ⟨-4800, 3, 1⟩

/-- The day of a year from March on, by the month from March on. -/
theorem dayOfMarchYear {y m day : Int} (hm : 0 ≤ m) (heleven : m ≤ 11) (hday : 1 ≤ day)
    (hlast : day ≤ Gregorian.daysInMonth (y - 4800 + m / 10) (m + 3 - 12 * (m / 10))) :
    (5 * ((153 * m + 2) / 5 + day - 1) + 2) / 153 = m ∧ (153 * m + 2) / 5 + day - 1 ≤ 365 ∧
      ((153 * m + 2) / 5 + day - 1 = 365 → y % 100 % 4 = 3 ∧ (y % 100 = 99 → y / 100 % 4 = 3)) := by
  by_cases hten : m ≤ 10
  · rw [daysInMonth_fromMarch _ hm hten] at hlast
    omega
  · obtain rfl : m = 11 := by omega
    have hparts : y / 100 * 100 + y % 100 = y := by omega
    have hnext := isLeap_next (b := y / 100) (d := y % 100) (by omega) (by omega)
    rw [hparts] at hnext
    change day ≤ if Gregorian.IsLeap (y - 4800 + 1) then 29 else 28 at hlast
    split_ifs at hlast with hleap
    · exact ⟨by omega, by omega, fun _ => hnext.mp hleap⟩
    · exact ⟨by omega, by omega, fun _ => by omega⟩

/-- Every date from the first day on has parts. -/
theorem parts_of_date {date : YearMonthDay} (hvalid : date.Valid) (hfrom : ¬ date.Before firstDay) :
    ∃ b d e, Parts (marchCount date) b d e ∧ ofParts b d e = date := by
  obtain ⟨year, month, day⟩ := date
  obtain ⟨hone, htwelve, hday, hlast⟩ := hvalid
  simp only [Gregorian.Date.Before, firstDay] at hfrom hone htwelve hday hlast
  obtain ⟨y, m, hy, hm, heleven, hyear, hmonth⟩ : ∃ y m, 0 ≤ y ∧ 0 ≤ m ∧ m ≤ 11 ∧
      year = y - 4800 + m / 10 ∧ month = m + 3 - 12 * (m / 10) := by
    by_cases hearly : month ≤ 2
    · exact ⟨year + 4799, month + 9, by omega, by omega, by omega, by omega, by omega⟩
    · exact ⟨year + 4800, month - 3, by omega, by omega, by omega, by omega, by omega⟩
  rw [hyear, hmonth] at hlast
  obtain ⟨hdivided, hle, hleap⟩ := dayOfMarchYear hm heleven hday hlast
  have hparts : Parts (36524 * (y / 100) + y / 100 / 4 + (365 * (y % 100) + y % 100 / 4) +
      ((153 * m + 2) / 5 + day - 1)) (y / 100) (y % 100) ((153 * m + 2) / 5 + day - 1) :=
    ⟨rfl, by omega, by omega, by omega, by omega, hle, hleap⟩
  have hdate : ofParts (y / 100) (y % 100) ((153 * m + 2) / 5 + day - 1) = ⟨year, month, day⟩ := by
    simp only [ofParts, hdivided, Gregorian.Date.mk.injEq]
    omega
  have hcount := marchCount_ofParts hparts
  rw [hdate] at hcount
  rw [hcount]
  exact ⟨_, _, _, hparts, hdate⟩

/-! ## The functions -/

theorem quotient_eq {k x r n : Int} (hk : 0 ≤ k) (hx : 0 ≤ x) (hr : 0 ≤ r) (hn : 0 < n)
    (hfits : k * x + r ≤ 2147483647) : quotient k x r n = some ((k * x + r) / n) := by
  have hproduct := Int.mul_nonneg hk hx
  have hnonneg : 0 ≤ k * x + r := Int.add_nonneg hproduct hr
  have hquotient := Int.ediv_nonneg hnonneg (le_of_lt hn)
  have hle := Int.ediv_le_self n hnonneg
  have hmul : mul 32 k x = some (k * x) := mul_eq (fits_int.mpr (by omega))
  have hadd : add 32 (k * x) r = some (k * x + r) := add_eq (fits_int.mpr (by omega))
  rw [quotient, bind_of_eq hmul, bind_of_eq hadd]
  exact div_eq hnonneg hn (fits_int.mpr (by omega))

/-- The last count whose quadruple and three more are an `int`. -/
def lastCount : Int := 536870911

theorem Parts.century_le (h : Parts a b d e) (hlast : a ≤ lastCount) : b ≤ 14699 := by
  obtain ⟨hcount, hb, hd, hyear, he, hday, hleap⟩ := h
  rw [lastCount] at hlast
  omega

/-- The code takes a count apart, and no result overflows. -/
theorem getYearMonthDay_eq (h : Parts a b d e) (hlast : a ≤ lastCount) :
    getYearMonthDay (a - 32044) = some (ofParts b d e) := by
  have hcentury := h.century_eq
  have hrest := h.rest_eq
  have hyear := h.year_eq
  have hday := Parts.day_eq (d := d) (e := e)
  have hb := h.century_le hlast
  obtain ⟨hcount, hb0, hd0, hd, he0, he, -⟩ := h
  obtain ⟨m, hm, hm0, hmonths⟩ := month_cases he0 he
  rw [lastCount] at hlast
  have ha : add 32 (a - 32044) 32044 = some a := by
    rw [add_eq (fits_int.mpr (by omega)), Int.sub_add_cancel]
  have hb' : quotient 4 a 3 146097 = some b := by
    rw [quotient_eq (by omega) (by omega) (by omega) (by omega) (by omega), hcentury]
  have hc : 0 ≤ 365 * d + d / 4 + e ∧ 365 * d + d / 4 + e ≤ 36524 := by omega
  have hcenturies : mul 32 b 146097 = some (b * 146097) := mul_eq (fits_int.mpr (by omega))
  have hquarter : div 32 (b * 146097) 4 = some (b * 146097 / 4) :=
    div_eq (by omega) (by omega) (fits_int.mpr (by omega))
  have hc' : sub 32 a (b * 146097 / 4) = some (365 * d + d / 4 + e) := by
    rw [sub_eq (fits_int.mpr (by omega)), hrest]
  generalize 365 * d + d / 4 + e = c at *
  have hd' : quotient 4 c 3 1461 = some d := by
    rw [quotient_eq (by omega) (by omega) (by omega) (by omega) (by omega), hyear]
  have hyears : mul 32 1461 d = some (1461 * d) := mul_eq (fits_int.mpr (by omega))
  have hquarters : div 32 (1461 * d) 4 = some (1461 * d / 4) :=
    div_eq (by omega) (by omega) (fits_int.mpr (by omega))
  have he' : sub 32 c (1461 * d / 4) = some e := by
    rw [sub_eq (fits_int.mpr (by omega)), hday]
  have hm' : quotient 5 e 2 153 = some m := by
    rw [quotient_eq (by omega) (by omega) (by omega) (by omega) (by omega), hm]
  have hdays : (153 * m + 2) / 5 ≤ e := by omega
  have hstart : quotient 153 m 2 5 = some ((153 * m + 2) / 5) :=
    quotient_eq (by omega) hm0 (by omega) (by omega) (by omega)
  have hday' : sub 32 e ((153 * m + 2) / 5) = some (e - (153 * m + 2) / 5) :=
    sub_eq (fits_int.mpr (by omega))
  have hone : add 32 (e - (153 * m + 2) / 5) 1 = some (e - (153 * m + 2) / 5 + 1) :=
    add_eq (fits_int.mpr (by omega))
  have hthree : add 32 m 3 = some (m + 3) := add_eq (fits_int.mpr (by omega))
  have hten : div 32 m 10 = some (m / 10) := div_eq hm0 (by omega) (fits_int.mpr (by omega))
  have htwelve : mul 32 12 (m / 10) = some (12 * (m / 10)) := mul_eq (fits_int.mpr (by omega))
  have hmonth : sub 32 (m + 3) (12 * (m / 10)) = some (m + 3 - 12 * (m / 10)) :=
    sub_eq (fits_int.mpr (by omega))
  have hhundred : mul 32 b 100 = some (b * 100) := mul_eq (fits_int.mpr (by omega))
  have hsum : add 32 (b * 100) d = some (b * 100 + d) := add_eq (fits_int.mpr (by omega))
  have hback : sub 32 (b * 100 + d) 4800 = some (b * 100 + d - 4800) := sub_eq (fits_int.mpr (by omega))
  have hyear' : add 32 (b * 100 + d - 4800) (m / 10) = some (b * 100 + d - 4800 + m / 10) :=
    add_eq (fits_int.mpr (by omega))
  rw [getYearMonthDay, bind_of_eq ha, bind_of_eq hb', bind_of_eq hcenturies, bind_of_eq hquarter,
    bind_of_eq hc', bind_of_eq hd', bind_of_eq hyears, bind_of_eq hquarters, bind_of_eq he',
    bind_of_eq hm', bind_of_eq hstart, bind_of_eq hday', bind_of_eq hone, bind_of_eq hthree,
    bind_of_eq hten, bind_of_eq htwelve, bind_of_eq hmonth, bind_of_eq hhundred, bind_of_eq hsum,
    bind_of_eq hback, bind_of_eq hten, bind_of_eq hyear', ofParts, hm]
  rfl

/-- The code puts a count together, and no result overflows. -/
theorem getJulianDayNumber_eq (h : Parts a b d e) (hlast : a ≤ lastCount) :
    getJulianDayNumber (ofParts b d e).year (ofParts b d e).month (ofParts b d e).day =
      some (a - 32044) := by
  have hb := h.century_le hlast
  obtain ⟨hcount, hb0, hd0, hd, he0, he, -⟩ := h
  obtain ⟨m, hm, hm0, hmonths⟩ := month_cases he0 he
  rw [lastCount] at hlast
  simp only [ofParts, hm]
  obtain ⟨k, hk⟩ : ∃ k, k = m / 10 := ⟨_, rfl⟩
  obtain ⟨y, hy⟩ : ∃ y, y = b * 100 + d := ⟨_, rfl⟩
  obtain ⟨n, hn⟩ : ∃ n, n = (153 * m + 2) / 5 := ⟨_, rfl⟩
  have hnbound : 0 ≤ n ∧ n ≤ 337 := by omega
  have hsum : e + 1 + y * 365 + y / 4 - y / 100 + y / 400 = a + 1 := by omega
  have hybound : 0 ≤ y ∧ y ≤ 1469999 := by omega
  rw [← hk] at hmonths
  rw [← hk, ← hy, ← hn]
  clear hcount hm hy hb hb0 hd hd0
  have hmonth : sub 32 14 (m + 3 - 12 * k) = some (11 - m + 12 * k) := by
    rw [sub_eq (fits_int.mpr (by omega))]
    congr 1
    omega
  have hshift : div 32 (11 - m + 12 * k) 12 = some k := by
    rw [div_eq (by omega) (by omega) (fits_int.mpr (by omega))]
    congr 1
    omega
  have hyear : add 32 (y - 4800 + k) 4800 = some (y + k) := by
    rw [add_eq (fits_int.mpr (by omega))]
    congr 1
    omega
  have hy' : sub 32 (y + k) k = some y := by
    rw [sub_eq (fits_int.mpr (by omega)), Int.add_sub_cancel]
  have htwelve : mul 32 12 k = some (12 * k) := mul_eq (fits_int.mpr (by omega))
  have hthree : add 32 (m + 3 - 12 * k) (12 * k) = some (m + 3) := by
    rw [add_eq (fits_int.mpr (by omega)), Int.sub_add_cancel]
  have hm' : sub 32 (m + 3) 3 = some m := by
    rw [sub_eq (fits_int.mpr (by omega)), Int.add_sub_cancel]
  have hstart : quotient 153 m 2 5 = some n := by
    rw [quotient_eq (by omega) hm0 (by omega) (by omega) (by omega), hn]
  have hday : add 32 (e - n + 1) n = some (e + 1) := by
    rw [add_eq (fits_int.mpr (by omega))]
    congr 1
    omega
  have hyears : mul 32 y 365 = some (y * 365) := mul_eq (fits_int.mpr (by omega))
  have hdays : add 32 (e + 1) (y * 365) = some (e + 1 + y * 365) := add_eq (fits_int.mpr (by omega))
  have hfour : div 32 y 4 = some (y / 4) := div_eq hybound.1 (by omega) (fits_int.mpr (by omega))
  have hfours : add 32 (e + 1 + y * 365) (y / 4) = some (e + 1 + y * 365 + y / 4) :=
    add_eq (fits_int.mpr (by omega))
  have hcentury : div 32 y 100 = some (y / 100) := div_eq hybound.1 (by omega) (fits_int.mpr (by omega))
  have hcenturies : sub 32 (e + 1 + y * 365 + y / 4) (y / 100) =
      some (e + 1 + y * 365 + y / 4 - y / 100) := sub_eq (fits_int.mpr (by omega))
  have hcycle : div 32 y 400 = some (y / 400) := div_eq hybound.1 (by omega) (fits_int.mpr (by omega))
  have hcycles : add 32 (e + 1 + y * 365 + y / 4 - y / 100) (y / 400) = some (a + 1) := by
    rw [add_eq (fits_int.mpr (by omega)), hsum]
  rw [getJulianDayNumber, bind_of_eq hmonth, bind_of_eq hshift, bind_of_eq hyear, bind_of_eq hy',
    bind_of_eq htwelve, bind_of_eq hthree, bind_of_eq hm', bind_of_eq hstart, bind_of_eq hday,
    bind_of_eq hyears, bind_of_eq hdays, bind_of_eq hfour, bind_of_eq hfours, bind_of_eq hcentury,
    bind_of_eq hcenturies, bind_of_eq hcycle, bind_of_eq hcycles,
    sub_eq (fits_int.mpr (by omega))]
  congr 1
  omega

/-! ## Days and dates -/

/-- The days for which the code is correct: from 1 March of the year -4800 to the last one whose count can be
multiplied. -/
def InRange (j : Int) : Prop := -32044 ≤ j ∧ j ≤ 536838867

instance (j : Int) : Decidable (InRange j) := instDecidableAnd

variable {j : Int} {date : YearMonthDay}

theorem not_before_firstDay (h : Parts a b d e) : ¬ (ofParts b d e).Before firstDay := by
  obtain ⟨-, hb, hd, hyear, he, hday, -⟩ := h
  obtain ⟨m, hm, hm0, hmonths⟩ := month_cases he hday
  simp only [Gregorian.Date.Before, ofParts, firstDay, hm]
  omega

/-- The first day has the first number. -/
theorem not_before_of_julianDay (hvalid : date.Valid) (hfirst : -32044 ≤ date.julianDay) :
    ¬ date.Before firstDay := by
  have hlt := Gregorian.Date.dayOfYear_lt hvalid
  have hstart := Gregorian.monthStart_eq date.year date.month hvalid.month_pos hvalid.month_le
  have hday := hvalid.day_pos
  have hlast := hvalid.day_le
  rintro (hyear | ⟨hyear, hmonth | ⟨-, hzero⟩⟩)
  · simp only [Gregorian.Date.julianDay, Gregorian.Date.dayNumber, Gregorian.yearStart, firstDay]
      at hfirst hyear
    omega
  · have htwo : date.month ≤ 2 := by
      simp only [firstDay] at hmonth
      omega
    rw [if_pos htwo] at hstart
    simp only [Gregorian.Date.julianDay, Gregorian.Date.dayNumber, Gregorian.Date.dayOfYear,
      Gregorian.yearStart, Gregorian.daysInMonth, hstart, firstDay] at hfirst hyear hlast
    split_ifs at hlast <;> omega
  · simp only [firstDay] at hzero
    omega

/-- Both functions on a date. -/
theorem codes_of_date (hvalid : date.Valid) (hfrom : ¬ date.Before firstDay)
    (hlast : date.julianDay ≤ 536838867) :
    getJulianDayNumber date.year date.month date.day = some date.julianDay ∧
      getYearMonthDay date.julianDay = some date := by
  obtain ⟨b, d, e, hparts, hdate⟩ := parts_of_date hvalid hfrom
  have hcount : marchCount date ≤ lastCount := by
    rw [marchCount, lastCount]
    omega
  have hnumber := getJulianDayNumber_eq hparts hcount
  have hback := getYearMonthDay_eq hparts hcount
  rw [marchCount, Int.add_sub_cancel] at hnumber hback
  rw [hdate] at hnumber hback
  exact ⟨hnumber, hback⟩

/-- Every day has a date. -/
theorem exists_date (hj : InRange j) :
    ∃ date : YearMonthDay, date.Valid ∧ ¬ date.Before firstDay ∧ date.julianDay = j := by
  obtain ⟨b, d, e, hparts⟩ := parts_of_count (a := j + 32044) (by have := hj.1; omega)
  refine ⟨ofParts b d e, ofParts_valid hparts, not_before_firstDay hparts, ?_⟩
  have hcount := marchCount_ofParts hparts
  rw [marchCount] at hcount
  omega

theorem not_before_succ (hfrom : ¬ date.Before firstDay) : ¬ date.succ.Before firstDay :=
  fun hbefore => hfrom (date.before_succ.trans hbefore)

theorem julianDay_succ (hvalid : date.Valid) : date.succ.julianDay = date.julianDay + 1 := by
  rw [Gregorian.Date.julianDay, Gregorian.Date.dayNumber_succ hvalid, Gregorian.Date.julianDay]
  omega

/-- A later day has a later date. -/
theorem before_of_lt (count : Nat) {later : YearMonthDay} (hvalid : date.Valid)
    (hfrom : ¬ date.Before firstDay) (hvalid' : later.Valid) (hfrom' : ¬ later.Before firstDay)
    (hlast : later.julianDay ≤ 536838867) (hcount : later.julianDay = date.julianDay + (count + 1)) :
    date.Before later := by
  induction count generalizing date with
  | zero =>
      -- the day before the later one
      have hnext := (codes_of_date hvalid.succ (not_before_succ hfrom)
        (by rw [julianDay_succ hvalid]; omega)).2
      have hsame := (codes_of_date hvalid' hfrom' hlast).2
      rw [julianDay_succ hvalid] at hnext
      rw [hcount] at hsame
      obtain rfl := Option.some.inj (hnext.symm.trans hsame)
      exact date.before_succ
  | succ count ih =>
      refine date.before_succ.trans (ih hvalid.succ (not_before_succ hfrom) ?_)
      rw [julianDay_succ hvalid]
      omega

/-- The date of a day in the range, and the one behind it. -/
theorem getYearMonthDay_spec (hj : InRange j) :
    ∃ date : YearMonthDay, getYearMonthDay j = some date ∧ date.Valid ∧ ¬ date.Before firstDay ∧
      date.julianDay = j ∧ getJulianDayNumber date.year date.month date.day = some j ∧
      (InRange (j + 1) → getYearMonthDay (j + 1) = some date.succ) := by
  obtain ⟨date, hvalid, hfrom, rfl⟩ := exists_date hj
  obtain ⟨hnumber, hback⟩ := codes_of_date hvalid hfrom hj.2
  refine ⟨date, hback, hvalid, hfrom, rfl, hnumber, fun hnext => ?_⟩
  rw [← julianDay_succ hvalid] at hnext ⊢
  exact (codes_of_date hvalid.succ (not_before_succ hfrom) hnext.2).2

/-- Days are in the order of their dates. -/
theorem lt_iff_before {k : Int} {later : YearMonthDay} (hj : InRange j) (hk : InRange k)
    (hdate : getYearMonthDay j = some date) (hlater : getYearMonthDay k = some later) :
    j < k ↔ date.Before later := by
  obtain ⟨date', hdate', hvalid, hfrom, hnumber, -⟩ := getYearMonthDay_spec hj
  obtain ⟨later', hlater', hvalid', hfrom', hnumber', -⟩ := getYearMonthDay_spec hk
  obtain rfl := Option.some.inj (hdate.symm.trans hdate')
  obtain rfl := Option.some.inj (hlater.symm.trans hlater')
  have hforward (hlt : j < k) : date.Before later :=
    before_of_lt (k - j - 1).toNat hvalid hfrom hvalid' hfrom' (by rw [hnumber']; exact hk.2) (by omega)
  have hbackward (hlt : k < j) : later.Before date :=
    before_of_lt (j - k - 1).toNat hvalid' hfrom' hvalid hfrom (by rw [hnumber]; exact hj.2) (by omega)
  refine ⟨hforward, fun hbefore => ?_⟩
  rcases lt_trichotomy j k with hlt | rfl | hgt
  · exact hlt
  · obtain rfl := Option.some.inj (hdate.symm.trans hlater)
    exact absurd hbefore (Gregorian.Date.Before.irrefl date)
  · exact absurd (hbefore.trans (hbackward hgt)) (Gregorian.Date.Before.irrefl date)

theorem weekDay_eq (hj : 0 ≤ j) (hlast : j < 2147483647) : weekDay ⟨j⟩ = some ((j + 1) % 7) := by
  have hadd : add 32 j 1 = some (j + 1) := add_eq (fits_int.mpr (by omega))
  rw [weekDay, bind_of_eq hadd]
  exact mod_eq (by omega) (by decide) (fits_int.mpr (by rw [kDaysPerWeek]; omega))

/-- **Days and dates.** For every day in the range the code finds a valid date, which it maps to the day
again. The day after that date has the next number, and is found for it if that is in the range. Every valid
date from the first day on whose number is in the range is found again. Days are in the order of their dates.
The day of the week advances by one, and 1 January 1900 was a Monday. No result overflows on the way. -/
theorem date_correspondence :
    (∀ j, InRange j → ∃ date : YearMonthDay, getYearMonthDay j = some date ∧ date.Valid ∧
      getJulianDayNumber date.year date.month date.day = some j ∧ date.succ.julianDay = j + 1 ∧
      (InRange (j + 1) → getYearMonthDay (j + 1) = some date.succ)) ∧
    (∀ date : YearMonthDay, date.Valid → ¬ date.Before firstDay → InRange date.julianDay →
      getJulianDayNumber date.year date.month date.day = some date.julianDay ∧
        getYearMonthDay date.julianDay = some date) ∧
    (∀ j k date later, InRange j → InRange k → getYearMonthDay j = some date →
      getYearMonthDay k = some later → (j < k ↔ date.Before later)) ∧
    (∀ j, 0 ≤ j → j + 1 < 2147483647 → ∃ w, weekDay ⟨j⟩ = some w ∧ 0 ≤ w ∧ w ≤ 6 ∧
      weekDay ⟨j + 1⟩ = some ((w + 1) % 7)) ∧
    getYearMonthDay 2415021 = some ⟨1900, 1, 1⟩ ∧ weekDay ⟨2415021⟩ = some 1 := by
  refine ⟨fun j hj => ?_, fun date hvalid hfrom hrange => codes_of_date hvalid hfrom hrange.2,
    fun j k date later hj hk hdate hlater => lt_iff_before hj hk hdate hlater,
    fun j hj hlast => ?_, by decide +kernel, by decide +kernel⟩
  · obtain ⟨date, hdate, hvalid, -, rfl, hnumber, hnext⟩ := getYearMonthDay_spec hj
    exact ⟨date, hdate, hvalid, hnumber, julianDay_succ hvalid, hnext⟩
  · refine ⟨_, weekDay_eq hj (by omega), by omega, by omega, ?_⟩
    rw [weekDay_eq (by omega) hlast, Int.emod_add_emod]

/-- The leap day of a century that is divisible by 400. -/
theorem date_correspondence_leap :
    getYearMonthDay 2451604 = some ⟨2000, 2, 29⟩ ∧
      getYearMonthDay 2451605 = some ⟨2000, 3, 1⟩ := by
  obtain ⟨date, hdate, -, -, -, hnext⟩ := date_correspondence.1 2451604 (by decide)
  have hday : getYearMonthDay 2451604 = some ⟨2000, 2, 29⟩ := by decide +kernel
  obtain rfl := Option.some.inj (hday.symm.trans hdate)
  exact ⟨hday, hnext (by decide)⟩

end Date
end Muduo
