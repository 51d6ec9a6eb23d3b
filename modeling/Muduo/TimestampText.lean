import Muduo.LogTime
import Muduo.TextOrder
import Muduo.Timestamp

/-! The texts of a `muduo::Timestamp`. Up to the end of the year 9999 the numbers of a date and a time of
day have fixed widths and stand in the order of their weight, so the texts are in the order of the times. -/

namespace Muduo

open TextOrder TimeZone

namespace Timestamp

/-- `toFormattedString()`, into an array of 64 bytes. -/
def toFormattedString (t : Timestamp) (showMicroseconds : Bool) : Bytes :=
  let fields := Logging.TimeFields.ofTm (gmtime (t.tdiv kMicroSecondsPerSecond))
  if showMicroseconds then
    (fields.text ++ ascii "." ++ Decimal.printPadded 6 (t.tmod kMicroSecondsPerSecond)).take 63
  else fields.text.take 63

end Timestamp

/-! ## Dates and times of day in their order -/

/-- The first second of the year 10000. -/
def endOf9999 : Int := 253402300800

/-- Year, month, day, hour, minute and second. -/
def gmtimeValues (t : Int) : List Int :=
  let tm := gmtime t
  [tm.year + 1900, tm.mon + 1, tm.mday, tm.hour, tm.min, tm.sec]

theorem gmtime_year_bounds {t : Int} (ht : 0 ≤ t) (hend : t < endOf9999) :
    1000 ≤ (gmtime t).year + 1900 ∧ (gmtime t).year + 1900 < 10 ^ 4 := by
  obtain ⟨date, hvalid, hnumber, hyear, -⟩ := gmtime_spec ht
  have hlow := Gregorian.Date.dayOfYear_nonneg hvalid
  have hhigh := Gregorian.Date.dayOfYear_lt hvalid
  rw [Gregorian.Date.julianDay, Gregorian.Date.dayNumber, Gregorian.yearStart, dayOf] at hnumber
  rw [endOf9999] at hend
  rw [hyear]
  omega

/-- A later time has later fields. -/
theorem gmtimeValues_lt {t u : Int} (ht : 0 ≤ t) (hlt : t < u) (hend : u < endOf9999) :
    gmtimeValues t < gmtimeValues u := by
  rw [endOf9999] at hend
  obtain ⟨date, hvalid, hnumber, htyear, htmon, htmday, htclock⟩ := gmtime_spec ht
  obtain ⟨later, hvalid', hnumber', huyear, humon, humday, huclock⟩ :=
    gmtime_spec (Int.le_trans ht (Int.le_of_lt hlt))
  by_cases hday : t / 86400 < u / 86400
  · -- the date is later
    have hbefore : date.Before later := by
      have hfrom : -32044 ≤ date.julianDay := by rw [hnumber, dayOf]; omega
      have hfrom' : -32044 ≤ later.julianDay := by rw [hnumber', dayOf]; omega
      refine Date.before_of_lt (u / 86400 - t / 86400 - 1).toNat hvalid (Date.not_before_of_julianDay hvalid hfrom)
        hvalid' (Date.not_before_of_julianDay hvalid' hfrom') ?_ ?_
      · rw [hnumber', dayOf]
        omega
      · rw [hnumber', hnumber, dayOf, dayOf]
        omega
    rw [Gregorian.Date.Before] at hbefore
    simp only [gmtimeValues, htyear, htmon, htmday, huyear, humon, humday, List.cons_lt_cons_iff]
    omega
  · -- the day is the same one, and the time of day is later
    have hsame : dayOf t = dayOf u := by
      rw [dayOf, dayOf]
      omega
    have hyear : (gmtime t).year = (gmtime u).year := by simp only [gmtime, hsame]
    have hmon : (gmtime t).mon = (gmtime u).mon := by simp only [gmtime, hsame]
    have hmday : (gmtime t).mday = (gmtime u).mday := by simp only [gmtime, hsame]
    obtain ⟨hsec, hmin, hhour, htotal⟩ := htclock
    obtain ⟨hsec', hmin', hhour', htotal'⟩ := huclock
    have hclock : (gmtime t).hour < (gmtime u).hour ∨ (gmtime t).hour = (gmtime u).hour ∧
        ((gmtime t).min < (gmtime u).min ∨ (gmtime t).min = (gmtime u).min ∧ (gmtime t).sec < (gmtime u).sec) := by
      omega
    simpa [gmtimeValues, hyear, hmon, hmday, List.cons_lt_cons_iff] using hclock

/-- A template with six places, the first of them of four digits and the others of two. -/
theorem fills_gmtimeValues {t : Int} (ht : 0 ≤ t) (hend : t < endOf9999) {pieces : List Token}
    (hpieces : ∀ year mon mday hour min sec : Int, Below 4 year → Below 2 mon → Below 2 mday → Below 2 hour →
      Below 2 min → Below 2 sec → Fills pieces [year, mon, mday, hour, min, sec]) :
    Fills pieces (gmtimeValues t) := by
  obtain ⟨date, hvalid, hnumber, hyear, hmon, hmday, hsec, hmin, hhour, -⟩ := gmtime_spec ht
  have hlast : date.day ≤ 31 := hvalid.day_le.trans (Gregorian.Date.daysInMonth_le _ _)
  obtain ⟨hmonth, htwelve, hday, -⟩ := hvalid
  have hbounds := gmtime_year_bounds ht hend
  apply hpieces <;> rw [Below] <;> omega

/-- A year of four digits is printed without padding. -/
theorem printPadded_year {year : Int} (hlow : 1000 ≤ year) (hhigh : year < 10 ^ 4) :
    Decimal.printPadded 4 year = Decimal.printInt year ∧ Decimal.printSpaced 4 year = Decimal.printInt year := by
  obtain ⟨n, rfl⟩ := Int.eq_ofNat_of_zero_le (show 0 ≤ year by omega)
  have hlength : (Decimal.print n).length = 4 := Decimal.length_print (k := 3) (by omega) (by omega)
  constructor
  · change List.replicate (4 - (Decimal.print n).length) 48 ++ Decimal.print n = Decimal.print n
    rw [hlength]
    rfl
  · change List.replicate (4 - (Decimal.print n).length) 32 ++ Decimal.print n = Decimal.print n
    rw [hlength]
    rfl

/-! ## The texts -/

/-- `"%4d%02d%02d %02d:%02d:%02d"`. -/
def secondsTemplate : List Token :=
  [.number 4, .number 2, .number 2, .literal (ascii " "), .number 2, .literal (ascii ":"), .number 2,
    .literal (ascii ":"), .number 2]

theorem text_eq_render {t : Int} (ht : 0 ≤ t) (hend : t < endOf9999) :
    (Logging.TimeFields.ofTm (gmtime t)).text = render secondsTemplate (gmtimeValues t) := by
  obtain ⟨hlow, hhigh⟩ := gmtime_year_bounds ht hend
  obtain ⟨hpadded, hspaced⟩ := printPadded_year hlow hhigh
  simp only [Logging.TimeFields.text, Logging.TimeFields.ofTm, secondsTemplate, gmtimeValues, render, hpadded,
    hspaced, List.append_nil]

theorem fills_secondsTemplate {t : Int} (ht : 0 ≤ t) (hend : t < endOf9999) :
    Fills secondsTemplate (gmtimeValues t) := by
  apply fills_gmtimeValues ht hend
  intro year mon mday hour min sec hyear hmon hmday hhour hmin hsec
  exact ⟨hyear, hmon, hmday, hhour, hmin, hsec, rfl⟩

namespace Timestamp

variable {t u : Int}

/-- A time before the end of the year 9999, in its parts. -/
structure InRange (t : Int) : Prop where
  nonneg : 0 ≤ t
  lt_end : t < endOf9999 * kMicroSecondsPerSecond

/-- The whole seconds. -/
def seconds (t : Int) : Int := t.tdiv kMicroSecondsPerSecond

/-- The microseconds beyond them. -/
def microseconds (t : Int) : Int := t.tmod kMicroSecondsPerSecond

theorem InRange.parts (ht : InRange t) :
    seconds t = t / 1000000 ∧ microseconds t = t % 1000000 ∧ 0 ≤ seconds t ∧ seconds t < endOf9999 := by
  obtain ⟨hlow, hhigh⟩ := ht
  have hdiv : seconds t = t / 1000000 := Int.tdiv_eq_ediv_of_nonneg hlow
  have hmod : microseconds t = t % 1000000 := Int.tmod_eq_emod_of_nonneg hlow
  rw [endOf9999, kMicroSecondsPerSecond] at hhigh
  rw [endOf9999]
  exact ⟨hdiv, hmod, by omega, by omega⟩

/-- The arrays are large enough. -/
theorem toFormattedString_eq (ht : InRange t) :
    toFormattedString t false = render secondsTemplate (gmtimeValues (seconds t)) ∧
    toFormattedString t true = render secondsTemplate (gmtimeValues (seconds t)) ++
      (ascii "." ++ Decimal.printPadded 6 (microseconds t)) := by
  obtain ⟨-, hmicros, hlow, hhigh⟩ := ht.parts
  have htext := text_eq_render hlow hhigh
  have hlength := length_render (fills_secondsTemplate hlow hhigh)
  have hseconds : (secondsTemplate.map Token.width).sum = 17 := by decide
  have hmicro : (Decimal.printPadded 6 (microseconds t)).length = 6 :=
    Decimal.length_printPadded (by decide) (by omega) (by omega)
  have hdot : (ascii ".").length = 1 := by decide
  constructor
  · change (Logging.TimeFields.ofTm (gmtime (seconds t))).text.take 63 = _
    rw [htext]
    exact List.take_of_length_le (by omega)
  · change ((Logging.TimeFields.ofTm (gmtime (seconds t))).text ++ _ ++
      Decimal.printPadded 6 (microseconds t)).take 63 = _
    rw [htext, List.append_assoc]
    refine List.take_of_length_le ?_
    rw [List.length_append, List.length_append, hmicro, hdot]
    omega

theorem render_seconds_lt (ht : InRange t) (hu : InRange u) (hlt : seconds t < seconds u) (x y : Bytes) :
    render secondsTemplate (gmtimeValues (seconds t)) ++ x < render secondsTemplate (gmtimeValues (seconds u)) ++ y := by
  obtain ⟨-, -, htlow, hthigh⟩ := ht.parts
  obtain ⟨-, -, hulow, huhigh⟩ := hu.parts
  apply render_lt
  · exact fills_secondsTemplate htlow hthigh
  · exact fills_secondsTemplate hulow huhigh
  · exact gmtimeValues_lt htlow hlt huhigh

/-- A later second has a later text. -/
theorem toFormattedString_lt_of_seconds (ht : InRange t) (hu : InRange u) (hlt : seconds t < seconds u) :
    toFormattedString t false < toFormattedString u false := by
  have hearlier := render_seconds_lt ht hu hlt [] []
  rwa [List.append_nil, List.append_nil, ← (toFormattedString_eq ht).1, ← (toFormattedString_eq hu).1] at hearlier

/-- A later time has a later text. Within one second the microseconds decide. -/
theorem toFormattedString_lt (ht : InRange t) (hu : InRange u) (hlt : t < u) :
    toFormattedString t true < toFormattedString u true := by
  obtain ⟨htseconds, htmicros, -⟩ := ht.parts
  obtain ⟨huseconds, humicros, -⟩ := hu.parts
  rw [(toFormattedString_eq ht).2, (toFormattedString_eq hu).2]
  rcases Int.lt_or_le (seconds t) (seconds u) with h | h
  · exact render_seconds_lt ht hu h _ _
  · rw [show seconds t = seconds u by omega]
    apply List.append_left_lt
    apply List.append_left_lt
    apply printPadded_lt <;> omega

/-- **The texts of timestamps.** From the epoch to the end of the year 9999 the texts of
`toFormattedString()` are in the order of the times, and without the microseconds in the order of the
seconds. -/
theorem texts_in_order (ht : InRange t) (hu : InRange u) :
    (toFormattedString t true < toFormattedString u true ↔ t < u) ∧
    (toFormattedString t false < toFormattedString u false ↔ seconds t < seconds u) := by
  refine ⟨lt_iff_of_trichotomy (toFormattedString_lt ht hu) (fun h => by rw [h]) (toFormattedString_lt hu ht),
    lt_iff_of_trichotomy (toFormattedString_lt_of_seconds ht hu) (fun h => ?_) (toFormattedString_lt_of_seconds hu ht)⟩
  rw [(toFormattedString_eq ht).1, (toFormattedString_eq hu).1, h]

/-- The last microsecond of a day and the first one of the next. -/
theorem texts_in_order_midnight :
    toFormattedString 951782399999999 true < toFormattedString 951782400000000 true := by
  have ht : InRange 951782399999999 := ⟨by decide, by decide⟩
  have hu : InRange 951782400000000 := ⟨by decide, by decide⟩
  exact (texts_in_order ht hu).1.mpr (by decide)

end Timestamp
end Muduo
