import Muduo.Decimal
import Muduo.TimeZoneUtc

/-! `gmtime_r`, `timegm` and `strftime` of the C library, as far as they are used. -/

namespace Muduo

open TimeZone

/-- The date of a day, by its number counted from 1 March of the year -4800. -/
def dateOfCount (a : Int) : Date.YearMonthDay :=
  let b := (4 * a + 3) / 146097
  let c := a - b * 146097 / 4
  let d := (4 * c + 3) / 1461
  Date.ofParts b d (c - 1461 * d / 4)

theorem dateOfCount_eq {a : Int} (ha : 0 ≤ a) :
    (dateOfCount a).Valid ∧ (dateOfCount a).julianDay = a - 32044 := by
  obtain ⟨b, d, e, hparts⟩ := Date.parts_of_count ha
  have hdate : dateOfCount a = Date.ofParts b d e := by
    simp only [dateOfCount, hparts.century_eq, hparts.rest_eq, hparts.year_eq, Date.Parts.day_eq]
  have hcount := Date.marchCount_ofParts hparts
  rw [Date.marchCount] at hcount
  rw [hdate]
  exact ⟨Date.ofParts_valid hparts, by omega⟩

theorem dateOfCount_add (a n : Int) :
    dateOfCount (a + 146097 * n) = { dateOfCount a with year := (dateOfCount a).year + 400 * n } := by
  have hcentury : (4 * (a + 146097 * n) + 3) / 146097 = (4 * a + 3) / 146097 + 4 * n := by omega
  have hrest : a + 146097 * n - ((4 * a + 3) / 146097 + 4 * n) * 146097 / 4 =
      a - (4 * a + 3) / 146097 * 146097 / 4 := by omega
  simp only [dateOfCount, hcentury, hrest, Date.ofParts, Gregorian.Date.mk.injEq, and_self, and_true]
  omega

/-- Dates before the first one are those of a later time, some 400 years earlier. -/
theorem julianDay_dateOfCount (a : Int) : (dateOfCount a).julianDay = a - 32044 := by
  have hlater := (dateOfCount_eq (show 0 ≤ a + 146097 * max 0 (-a) by omega)).2
  rw [dateOfCount_add, Gregorian.Date.julianDay_add] at hlater
  omega

/-- `gmtime_r`, for a time whose `tm_year` fits an `int`: for another one it fails. -/
def gmtime (t : Int) : Tm :=
  let date := dateOfCount (dayOf t + 32044)
  { sec := t % 60
    min := t / 60 % 60
    hour := t / 3600 % 24
    mday := date.day
    mon := date.month - 1
    year := date.year - 1900
    wday := (t / 86400 + 4) % 7
    yday := date.dayOfYear
    zone := ascii "GMT" }

/-- `timegm`, for fields in their ranges. -/
def timegm (tm : Tm) : Int :=
  (Gregorian.Date.julianDay ⟨tm.year + 1900, tm.mon + 1, tm.mday⟩ - 2440588) * 86400 +
    tm.hour * 3600 + tm.min * 60 + tm.sec

theorem timegm_gmtime (t : Int) : timegm (gmtime t) = t := by
  have hday : Gregorian.Date.julianDay ⟨(gmtime t).year + 1900, (gmtime t).mon + 1, (gmtime t).mday⟩ =
      dayOf t := by
    simp only [gmtime, Int.sub_add_cancel]
    exact (julianDay_dateOfCount _).trans (Int.add_sub_cancel _ _)
  rw [timegm, hday, dayOf]
  simp only [gmtime]
  omega

/-- The fields are those of a date with the number of the day, and of the time of day. -/
theorem gmtime_spec {t : Int} (ht : 0 ≤ t) :
    ∃ date : Date.YearMonthDay, date.Valid ∧ date.julianDay = dayOf t ∧
      (gmtime t).year = date.year - 1900 ∧ (gmtime t).mon = date.month - 1 ∧ (gmtime t).mday = date.day ∧
      Clock (gmtime t) (t % 86400) := by
  have ha : 0 ≤ dayOf t + 32044 := by
    rw [dayOf]
    omega
  obtain ⟨hvalid, hnumber⟩ := dateOfCount_eq ha
  refine ⟨_, hvalid, by omega, rfl, rfl, rfl, ?_⟩
  refine ⟨?_, ?_, ?_, ?_⟩ <;> simp only [gmtime] <;> omega

/-- Date and time of day determine the time. -/
theorem gmtime_injective {t u : Int} (ht : 0 ≤ t) (hu : 0 ≤ u) (hyear : (gmtime t).year = (gmtime u).year)
    (hmon : (gmtime t).mon = (gmtime u).mon) (hmday : (gmtime t).mday = (gmtime u).mday)
    (hhour : (gmtime t).hour = (gmtime u).hour) (hmin : (gmtime t).min = (gmtime u).min)
    (hsec : (gmtime t).sec = (gmtime u).sec) : t = u := by
  obtain ⟨date, -, hnumber, htyear, htmon, htmday, htclock⟩ := gmtime_spec ht
  obtain ⟨other, -, hother, huyear, humon, humday, huclock⟩ := gmtime_spec hu
  have hsame : date = other := by
    obtain ⟨year, month, day⟩ := date
    obtain ⟨year', month', day'⟩ := other
    simp only at htyear htmon htmday huyear humon humday
    simp only [Gregorian.Date.mk.injEq]
    omega
  have htotal := htclock.total
  have htotal' := huclock.total
  rw [hsame, hother, dayOf, dayOf] at hnumber
  omega

/-! ## The time in a file name -/

/-- `%Y%m%d`. -/
def dateText (tm : Tm) : Bytes :=
  Decimal.printInt (tm.year + 1900) ++ (Decimal.printPadded 2 (tm.mon + 1) ++ Decimal.printPadded 2 tm.mday)

/-- `%H%M%S`. -/
def clockText (tm : Tm) : Bytes :=
  Decimal.printPadded 2 tm.hour ++ (Decimal.printPadded 2 tm.min ++ Decimal.printPadded 2 tm.sec)

/-- `".%Y%m%d-%H%M%S."`. -/
def timeText (tm : Tm) : Bytes := ascii "." ++ dateText tm ++ ascii "-" ++ clockText tm ++ ascii "."

/-- `strftime` into an array of the size. A text that does not fit leaves the array undefined. -/
def strftime (max : Nat) (tm : Tm) : Option Bytes :=
  if (timeText tm).length < max then some (timeText tm) else none

/-- What is printed of a time that is not before the epoch. -/
structure Printable (tm : Tm) : Prop where
  year : 0 ≤ tm.year + 1900
  mon : (Decimal.printPadded 2 (tm.mon + 1)).length = 2
  mday : (Decimal.printPadded 2 tm.mday).length = 2
  hour : (Decimal.printPadded 2 tm.hour).length = 2
  min : (Decimal.printPadded 2 tm.min).length = 2
  sec : (Decimal.printPadded 2 tm.sec).length = 2
  digits : (45 : UInt8) ∉ dateText tm

theorem gmtime_printable {t : Int} (ht : 0 ≤ t) : Printable (gmtime t) := by
  obtain ⟨date, hvalid, hnumber, hyear, hmon, hmday, hclock⟩ := gmtime_spec ht
  have hlast : date.day ≤ 31 := hvalid.day_le.trans (Gregorian.Date.daysInMonth_le _ _)
  have hpos : 0 ≤ date.year := by
    have hrest := Gregorian.Date.dayOfYear_lt hvalid
    rw [Gregorian.Date.julianDay, Gregorian.Date.dayNumber, Gregorian.yearStart, dayOf] at hnumber
    omega
  obtain ⟨hsec, hmin, hhour, -⟩ := hclock
  obtain ⟨hmonth, htwelve, hday, -⟩ := hvalid
  have htwo {n : Int} (hlow : 0 ≤ n) (hhigh : n < 100) : (Decimal.printPadded 2 n).length = 2 :=
    Decimal.length_printPadded (by decide) hlow hhigh
  refine ⟨by omega, htwo (by omega) (by omega), htwo (by omega) (by omega), htwo (by omega) (by omega),
    htwo (by omega) (by omega), htwo (by omega) (by omega), fun hdash => ?_⟩
  rw [dateText, ← Decimal.printPadded_zero, List.mem_append, List.mem_append] at hdash
  rcases hdash with hdash | hdash | hdash
  · exact Decimal.ne_sign_of_mem_printPadded (by omega) hdash rfl
  · exact Decimal.ne_sign_of_mem_printPadded (by omega) hdash rfl
  · exact Decimal.ne_sign_of_mem_printPadded (by omega) hdash rfl

/-- The text, whatever follows it, determines the date and the time of day: the date ends at the dash, and
all fields but the year have two digits. -/
theorem timeText_injective {tm other : Tm} (htm : Printable tm) (hother : Printable other)
    {rest rest' : Bytes} (heq : timeText tm ++ rest = timeText other ++ rest') :
    tm.year = other.year ∧ tm.mon = other.mon ∧ tm.mday = other.mday ∧
      tm.hour = other.hour ∧ tm.min = other.min ∧ tm.sec = other.sec := by
  have hascii : ascii "-" = [45] := rfl
  simp only [timeText, hascii, List.append_assoc, List.cons_append, List.nil_append] at heq
  have hdash := congrArg (List.idxOf 45) (List.append_cancel_left heq)
  rw [List.idxOf_append_of_notMem htm.digits, List.idxOf_append_of_notMem hother.digits,
    List.idxOf_cons_self, List.idxOf_cons_self] at hdash
  obtain ⟨hdate, hrest⟩ := List.append_inj (List.append_cancel_left heq) hdash
  obtain ⟨hyear, hmonth⟩ := List.append_inj' hdate (by
    rw [List.length_append, List.length_append, htm.mon, htm.mday, hother.mon, hother.mday])
  obtain ⟨hmon, hmday⟩ := List.append_inj hmonth (by rw [htm.mon, hother.mon])
  obtain ⟨hclock, -⟩ := List.append_inj (List.cons.inj hrest).2 (by
    simp only [clockText, List.length_append, htm.hour, htm.min, htm.sec, hother.hour, hother.min, hother.sec])
  obtain ⟨hhour, hminutes⟩ := List.append_inj hclock (by rw [htm.hour, hother.hour])
  obtain ⟨hmin, hsec⟩ := List.append_inj hminutes (by rw [htm.min, hother.min])
  have hyear := Decimal.printInt_injective hyear
  have hmon := Decimal.printPadded_injective 2 hmon
  exact ⟨by omega, by omega, Decimal.printPadded_injective 2 hmday, Decimal.printPadded_injective 2 hhour,
    Decimal.printPadded_injective 2 hmin, Decimal.printPadded_injective 2 hsec⟩

theorem strftime_gmtime {t : Int} (ht : 0 ≤ t) (hfits : CheckedInt.Fits 32 (gmtime t).year) :
    strftime 32 (gmtime t) = some (timeText (gmtime t)) := by
  obtain ⟨hlow, hmon, hmday, hhour, hmin, hsec, -⟩ := gmtime_printable ht
  have hyear : (Decimal.printInt ((gmtime t).year + 1900)).length ≤ 10 := by
    have hlast := CheckedInt.fits_int.mp hfits
    rw [← Decimal.printPadded_zero]
    exact Decimal.length_printPadded_le (by decide) (by decide) hlow (by omega)
  refine if_pos ?_
  simp only [timeText, dateText, clockText, List.length_append, hmon, hmday, hhour, hmin, hsec]
  have hdot : (ascii ".").length = 1 := by decide
  have hdash : (ascii "-").length = 1 := by decide
  omega

end Muduo
