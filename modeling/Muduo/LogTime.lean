import Muduo.Gmtime
import Muduo.TimeZoneFile

/-! The date and time of a log record: `"%4d%02d%02d %02d:%02d:%02d"` of a second in a time zone, of which
the logger asserts that it has 17 characters. -/

namespace Muduo.Logging

open TimeZone

/-- What is printed of a `struct tm`. -/
structure TimeFields where
  year : Int
  month : Int
  day : Int
  hour : Int
  minute : Int
  second : Int
  deriving DecidableEq

namespace TimeFields

def ofTm (tm : Tm) : TimeFields := ⟨tm.year + 1900, tm.mon + 1, tm.mday, tm.hour, tm.min, tm.sec⟩

def text (f : TimeFields) : Bytes :=
  Decimal.printSpaced 4 f.year ++ (Decimal.printPadded 2 f.month ++ (Decimal.printPadded 2 f.day ++ (ascii " " ++
    (Decimal.printPadded 2 f.hour ++ (ascii ":" ++ (Decimal.printPadded 2 f.minute ++ (ascii ":" ++
      Decimal.printPadded 2 f.second)))))))

/-- A text of 17 characters has no field that is wider than its minimum. -/
structure Narrow (f : TimeFields) : Prop where
  year : (Decimal.printSpaced 4 f.year).length = 4
  month : (Decimal.printPadded 2 f.month).length = 2
  day : (Decimal.printPadded 2 f.day).length = 2
  hour : (Decimal.printPadded 2 f.hour).length = 2
  minute : (Decimal.printPadded 2 f.minute).length = 2

theorem narrow_of_length {f : TimeFields} (hlength : f.text.length = 17) : f.Narrow := by
  have hblank : (ascii " ").length = 1 := by decide
  have hcolon : (ascii ":").length = 1 := by decide
  simp only [text, List.length_append, hblank, hcolon] at hlength
  have hyear := Decimal.le_length_printSpaced 4 f.year
  have hmonth := Decimal.le_length_printPadded 2 f.month
  have hday := Decimal.le_length_printPadded 2 f.day
  have hhour := Decimal.le_length_printPadded 2 f.hour
  have hminute := Decimal.le_length_printPadded 2 f.minute
  have hsecond := Decimal.le_length_printPadded 2 f.second
  exact ⟨by omega, by omega, by omega, by omega, by omega⟩

/-- The text determines the fields. -/
theorem text_injective {f g : TimeFields} (hlength : f.text.length = 17) (htext : f.text = g.text) : f = g := by
  have hf := narrow_of_length hlength
  have hg := narrow_of_length (htext ▸ hlength)
  obtain ⟨hyear, hrest⟩ := List.append_inj htext (hf.year.trans hg.year.symm)
  obtain ⟨hmonth, hrest⟩ := List.append_inj hrest (hf.month.trans hg.month.symm)
  obtain ⟨hday, hrest⟩ := List.append_inj hrest (hf.day.trans hg.day.symm)
  obtain ⟨hhour, hrest⟩ := List.append_inj (List.append_cancel_left hrest) (hf.hour.trans hg.hour.symm)
  obtain ⟨hminute, hrest⟩ := List.append_inj (List.append_cancel_left hrest) (hf.minute.trans hg.minute.symm)
  have hsecond := List.append_cancel_left hrest
  cases f
  cases g
  rw [mk.injEq]
  exact ⟨Decimal.printSpaced_injective 4 hyear, Decimal.printPadded_injective 2 hmonth,
    Decimal.printPadded_injective 2 hday, Decimal.printPadded_injective 2 hhour,
    Decimal.printPadded_injective 2 hminute, Decimal.printPadded_injective 2 hsecond⟩

/-- Digits, signs, blanks and colons. -/
theorem newline_notMem_text (f : TimeFields) : (10 : UInt8) ∉ f.text := by
  have hblank : (10 : UInt8) ∉ ascii " " := by decide
  have hcolon : (10 : UInt8) ∉ ascii ":" := by decide
  simp only [text, List.mem_append, hblank, hcolon, Decimal.newline_notMem_printPadded,
    Decimal.newline_notMem_printSpaced, or_false, not_false_eq_true]

end TimeFields

/-- The local time in a zone, or in UTC when the zone is not valid. -/
def localTime (zone : Zone) (seconds : Int) : Option Tm :=
  match zone.data with
  | some data => toLocalTime gmtime data seconds
  | none => some (gmtime seconds)

/-- What is printed of a second in a zone. -/
def directFields (zone : Zone) (seconds : Int) : Option TimeFields := (localTime zone seconds).map .ofTm

/-- The text of a second in a zone, of which the length is asserted. -/
def directText (zone : Zone) (seconds : Int) : Option Bytes := do
  let fields ← directFields zone seconds
  if fields.text.length = 17 then return fields.text else none

theorem directText_eq_some {zone : Zone} {seconds : Int} {text : Bytes} :
    directText zone seconds = some text ↔
      ∃ fields, directFields zone seconds = some fields ∧ fields.text.length = 17 ∧ fields.text = text := by
  rw [directText, Option.bind_eq_bind, Option.bind_eq_some_iff]
  constructor
  · rintro ⟨fields, hfields, htext⟩
    split_ifs at htext with hlength
    exact ⟨fields, hfields, hlength, Option.some.inj htext⟩
  · rintro ⟨fields, hfields, hlength, rfl⟩
    exact ⟨fields, hfields, if_pos hlength⟩

theorem length_of_directText {zone : Zone} {seconds : Int} {text : Bytes}
    (htext : directText zone seconds = some text) : text.length = 17 := by
  obtain ⟨fields, -, hlength, rfl⟩ := directText_eq_some.mp htext
  exact hlength

end Muduo.Logging
