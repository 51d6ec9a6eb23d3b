import Mathlib.Algebra.BigOperators.Group.List.Basic
import Mathlib.Algebra.Order.Ring.Int
import Mathlib.Tactic.Common
import Mathlib.Tactic.IntervalCases

/-! The proleptic Gregorian calendar: leap years, the lengths of months, the order of dates, the day after
a date, and the number of a day. -/

namespace Gregorian

def IsLeap (year : Int) : Prop := year % 4 = 0 ∧ (year % 100 ≠ 0 ∨ year % 400 = 0)

instance (year : Int) : Decidable (IsLeap year) := instDecidableAnd

def daysInMonth (year month : Int) : Int :=
  if month = 2 then if IsLeap year then 29 else 28
  else if month = 4 ∨ month = 6 ∨ month = 9 ∨ month = 11 then 30
  else 31

structure Date where
  year : Int
  month : Int
  day : Int
  deriving DecidableEq, Repr

namespace Date

structure Valid (d : Date) : Prop where
  month_pos : 1 ≤ d.month
  month_le : d.month ≤ 12
  day_pos : 1 ≤ d.day
  day_le : d.day ≤ daysInMonth d.year d.month

/-- The day after. -/
def succ (d : Date) : Date :=
  if d.day < daysInMonth d.year d.month then { d with day := d.day + 1 }
  else if d.month < 12 then ⟨d.year, d.month + 1, 1⟩
  else ⟨d.year + 1, 1, 1⟩

def Before (d e : Date) : Prop :=
  d.year < e.year ∨ d.year = e.year ∧ (d.month < e.month ∨ d.month = e.month ∧ d.day < e.day)

instance (d e : Date) : Decidable (d.Before e) := instDecidableOr

theorem Before.irrefl (d : Date) : ¬ d.Before d := by
  simp only [Before]
  omega

theorem Before.trans {d e f : Date} (hde : d.Before e) (hef : e.Before f) : d.Before f := by
  simp only [Before] at *
  omega

variable {d : Date}

theorem daysInMonth_pos (year month : Int) : 28 ≤ daysInMonth year month := by
  rw [daysInMonth]
  split_ifs <;> omega

theorem daysInMonth_le (year month : Int) : daysInMonth year month ≤ 31 := by
  rw [daysInMonth]
  split_ifs <;> omega

theorem Valid.succ (hd : d.Valid) : d.succ.Valid := by
  obtain ⟨hmonth, htwelve, hday, hlast⟩ := hd
  rw [Date.succ]
  split_ifs with hmore hsame
  · exact ⟨hmonth, htwelve, by simp only; omega, by simp only; omega⟩
  · have hnext := daysInMonth_pos d.year (d.month + 1)
    exact ⟨by simp only; omega, by simp only; omega, le_refl 1, by simp only; omega⟩
  · have hnext := daysInMonth_pos (d.year + 1) 1
    exact ⟨le_refl 1, by simp only; omega, le_refl 1, by simp only; omega⟩

theorem before_succ (d : Date) : d.Before d.succ := by
  rw [Date.succ, Before]
  split_ifs <;> simp

end Date

/-! ## Counting days -/

/-- How many days of the year are before the month. -/
def monthStart (year month : Int) : Int :=
  ((List.range (month - 1).toNat).map fun i : Nat => daysInMonth year (i + 1)).sum

theorem monthStart_succ (year : Int) {month : Int} (hmonth : 1 ≤ month) :
    monthStart year (month + 1) = monthStart year month + daysInMonth year month := by
  have hcount : (month + 1 - 1).toNat = (month - 1).toNat + 1 := by omega
  have hlast : (((month - 1).toNat : Nat) : Int) + 1 = month := by omega
  rw [monthStart, monthStart, hcount, List.range_succ, List.map_append, List.sum_append,
    List.map_singleton, List.sum_singleton, hlast]

/-- How many days are in the years from 1 to the year before. -/
def yearStart (year : Int) : Int :=
  365 * (year - 1) + (year - 1) / 4 - (year - 1) / 100 + (year - 1) / 400

def daysInYear (year : Int) : Int := if IsLeap year then 366 else 365

theorem yearStart_succ (year : Int) : yearStart (year + 1) = yearStart year + daysInYear year := by
  simp only [yearStart, daysInYear, IsLeap]
  split_ifs <;> omega

/-- The months make up the year. -/
theorem monthStart_thirteen (year : Int) : monthStart year 13 = daysInYear year := by
  rw [daysInYear]
  by_cases hleap : IsLeap year
  · simp [monthStart, List.range_succ, daysInMonth, hleap]
  · simp [monthStart, List.range_succ, daysInMonth, hleap]

/-- Counted from March, the months begin at regular places. -/
theorem monthStart_eq (year month : Int) (hmonth : 1 ≤ month) (htwelve : month ≤ 12) :
    monthStart year month =
      if month ≤ 2 then 31 * (month - 1)
      else (153 * (month - 3) + 2) / 5 + 59 + if IsLeap year then 1 else 0 := by
  by_cases hleap : IsLeap year
  · interval_cases month <;> simp [monthStart, List.range_succ, daysInMonth, hleap]
  · interval_cases month <;> simp [monthStart, List.range_succ, daysInMonth, hleap]

namespace Date

/-- How many days of the year are before the date. -/
def dayOfYear (d : Date) : Int := monthStart d.year d.month + d.day - 1

/-- The number of a day, the first day of the year 1 being the first one. -/
def dayNumber (d : Date) : Int := yearStart d.year + d.dayOfYear + 1

/-- The number that astronomers give to the day. -/
def julianDay (d : Date) : Int := d.dayNumber + 1721425

/-- The calendar repeats itself every 400 years. -/
theorem julianDay_add (d : Date) (n : Int) :
    julianDay { d with year := d.year + 400 * n } = d.julianDay + 146097 * n := by
  have hleap : IsLeap (d.year + 400 * n) ↔ IsLeap d.year := by
    simp only [IsLeap]
    omega
  simp only [julianDay, dayNumber, dayOfYear, monthStart, daysInMonth, hleap, yearStart]
  omega

/-- Numbers are counted on from day to day. -/
theorem dayNumber_succ {d : Date} (hd : d.Valid) : d.succ.dayNumber = d.dayNumber + 1 := by
  obtain ⟨hmonth, htwelve, hday, hlast⟩ := hd
  rw [succ]
  split_ifs with hmore hsame
  · simp only [dayNumber, dayOfYear]
    omega
  · have hstart := monthStart_succ d.year hmonth
    simp only [dayNumber, dayOfYear]
    omega
  · -- the last day of the year
    have hdecember : d.month = 12 := by omega
    have hstart := monthStart_succ d.year hmonth
    have hlength := monthStart_thirteen d.year
    have hyear := yearStart_succ d.year
    have hfirst : monthStart (d.year + 1) 1 = 0 := rfl
    rw [hdecember] at hstart hlast hmore
    rw [show (12 : Int) + 1 = 13 from rfl] at hstart
    simp only [dayNumber, dayOfYear, hdecember]
    omega

theorem dayOfYear_nonneg {d : Date} (hd : d.Valid) : 0 ≤ d.dayOfYear := by
  have hstart := monthStart_eq d.year d.month hd.month_pos hd.month_le
  have hmonth := hd.month_pos
  have hday := hd.day_pos
  rw [dayOfYear, hstart]
  split_ifs <;> omega

theorem dayOfYear_lt {d : Date} (hd : d.Valid) : d.dayOfYear < 366 := by
  have hstart := monthStart_eq d.year d.month hd.month_pos hd.month_le
  have hmonth := hd.month_pos
  have htwelve := hd.month_le
  have hlast := hd.day_le
  simp only [dayOfYear, hstart, daysInMonth] at hlast ⊢
  split_ifs at hlast ⊢ <;> omega

/-- The first day of the year of a date. -/
def startOfYear (d : Date) : Date := ⟨d.year, 1, 1⟩

theorem startOfYear_valid (d : Date) : d.startOfYear.Valid :=
  ⟨le_refl 1, show (1 : Int) ≤ 12 by decide, le_refl 1, by
    have hjanuary := daysInMonth_pos d.year 1
    simp only [startOfYear]
    omega⟩

/-- Within a year the numbers count the days. -/
theorem julianDay_sub_startOfYear (d : Date) : d.julianDay - d.startOfYear.julianDay = d.dayOfYear := by
  have hfirst : monthStart d.year 1 = 0 := rfl
  simp only [julianDay, dayNumber, startOfYear, dayOfYear, hfirst]
  omega

end Date
end Gregorian
