import Muduo.Buffer
import Muduo.CheckedInt
import Muduo.FixedPoint

/-! `formatSI`: a count as a text of at most five characters with a unit. A `double` is the rational number
it stands for; none of those here is too large or too small for the format. -/

namespace Muduo.FormatSI

open Rounding

/-- `static_cast<double>`. -/
def toDouble (s : Int) : ℚ := if s < 0 then -round 53 (-s) else round 53 s

/-- The quotient of two doubles that are not negative. -/
def divide (n d : ℚ) : ℚ := round 53 (n / d)

/-- `snprintf` into `buf`: the text is cut off to leave room for the final zero. -/
def snprintf (text : Bytes) : Bytes := text.take (64 - 1)

/-- The calls with a format `%.kf` and a unit behind it. -/
def snprintfUnit (decimals : Nat) (unit : String) (x : ℚ) : Bytes :=
  snprintf (FixedPoint.printRounded decimals x ++ ascii unit)

def formatSI (s : Int) : Bytes :=
  let n := toDouble s
  if s < 1000 then snprintf (Decimal.printInt s)
  else if s < 9995 then snprintfUnit 2 "k" (divide n (10 ^ 3))
  else if s < 99950 then snprintfUnit 1 "k" (divide n (10 ^ 3))
  else if s < 999500 then snprintfUnit 0 "k" (divide n (10 ^ 3))
  else if s < 9995000 then snprintfUnit 2 "M" (divide n (10 ^ 6))
  else if s < 99950000 then snprintfUnit 1 "M" (divide n (10 ^ 6))
  else if s < 999500000 then snprintfUnit 0 "M" (divide n (10 ^ 6))
  else if s < 9995000000 then snprintfUnit 2 "G" (divide n (10 ^ 9))
  else if s < 99950000000 then snprintfUnit 1 "G" (divide n (10 ^ 9))
  else if s < 999500000000 then snprintfUnit 0 "G" (divide n (10 ^ 9))
  else if s < 9995000000000 then snprintfUnit 2 "T" (divide n (10 ^ 12))
  else if s < 99950000000000 then snprintfUnit 1 "T" (divide n (10 ^ 12))
  else if s < 999500000000000 then snprintfUnit 0 "T" (divide n (10 ^ 12))
  else if s < 9995000000000000 then snprintfUnit 2 "P" (divide n (10 ^ 15))
  else if s < 99950000000000000 then snprintfUnit 1 "P" (divide n (10 ^ 15))
  else if s < 999500000000000000 then snprintfUnit 0 "P" (divide n (10 ^ 15))
  else snprintfUnit 2 "E" (divide n (10 ^ 18))

/-! ## The width -/

/-- A number with three significant digits, between one and a thousand. -/
structure ThreeDigits (text : Bytes) : Prop where
  wellFormed : FixedPoint.WellFormed text
  digits : (FixedPoint.significant text).length = 3
  low : 1 ≤ FixedPoint.value text
  high : FixedPoint.value text < 1000

structure KeepsWidth (s : Int) (text : Bytes) : Prop where
  width : text.length ≤ 5
  mantissa : 1000 ≤ s → ∃ mantissa, ∃ unit ∈ ascii "kMGTPE", text = mantissa ++ [unit] ∧ ThreeDigits mantissa

theorem threeDigits_print {k n : Nat} (hk : k ≤ 2) (hlow : 100 ≤ n) (hhigh : n < 1000) :
    ThreeDigits (FixedPoint.print k n) where
  wellFormed := FixedPoint.wellFormed_print k n
  digits := by
    obtain ⟨j, hj⟩ := Nat.exists_eq_add_of_le' hk
    have hlength := FixedPoint.length_significant_print (j := j) (k := k) (n := n)
    rw [← hj] at hlength
    exact hlength hlow hhigh
  low := by
    have hpower : (10 : ℚ) ^ k ≤ 10 ^ 2 := pow_le_pow_right₀ (by norm_num) hk
    have hn : (100 : ℚ) ≤ n := by exact_mod_cast hlow
    rw [FixedPoint.value_print, one_le_div (by positivity)]
    linarith
  high := by
    have hpower : (1 : ℚ) ≤ 10 ^ k := one_le_pow₀ (by norm_num)
    have hn : (n : ℚ) < 1000 := by exact_mod_cast hhigh
    rw [FixedPoint.value_print, div_lt_iff₀ (by positivity)]
    linarith

/-- Three digits, a point and a unit. -/
theorem keepsWidth_print {k n : Nat} {unit : UInt8} (s : Int) (hk : k ≤ 2) (hlow : 100 ≤ n) (hhigh : n < 1000)
    (hunit : unit ∈ ascii "kMGTPE") : KeepsWidth s (FixedPoint.print k n ++ [unit]) where
  width := by
    have hone : 10 ^ k ≤ n := Nat.le_trans (Nat.pow_le_pow_right (by decide) hk) hlow
    have hlength := FixedPoint.length_print_le hone
    rw [(threeDigits_print hk hlow hhigh).digits] at hlength
    rw [List.length_append, List.length_singleton]
    omega
  mantissa := fun _ => ⟨_, unit, hunit, rfl, threeDigits_print hk hlow hhigh⟩

/-- The digits that are printed with a number of decimals after a division by a power of ten. -/
def digits (decimals exponent : Nat) (s : Int) : Nat :=
  FixedPoint.units decimals (divide (toDouble s) (10 ^ exponent))

theorem toDouble_of_pos {s : Int} (hs : 0 < s) : toDouble s = round 53 s := if_neg (by omega)

/-- The conversion, the division and the choice of the decimals are all monotone. -/
theorem digits_mono {decimals exponent : Nat} {s t : Int} (hs : 0 < s) (hst : s ≤ t) :
    digits decimals exponent s ≤ digits decimals exponent t := by
  have hcast : (0 : ℚ) < s := by exact_mod_cast hs
  have hdouble : toDouble s ≤ toDouble t := by
    rw [toDouble_of_pos hs, toDouble_of_pos (by omega)]
    exact round_mono (by decide) hcast (by exact_mod_cast hst)
  have hpos : 0 < toDouble s := by
    rw [toDouble_of_pos hs]
    exact round_pos (by decide) hcast
  apply FixedPoint.units_mono
  apply round_mono (by decide) (by positivity)
  exact div_le_div_of_nonneg_right hdouble (by positivity)

/-- From a first to a last count a format prints three digits: it does so at both ends. -/
def Suits (decimals exponent : Nat) (unit : String) (first last : Int) : Prop :=
  decimals ≤ 2 ∧ (∃ c ∈ ascii "kMGTPE", ascii unit = [c]) ∧ 0 < first ∧
    100 ≤ digits decimals exponent first ∧ digits decimals exponent last < 1000

instance (decimals exponent : Nat) (unit : String) (first last : Int) :
    Decidable (Suits decimals exponent unit first last) := instDecidableAnd

theorem Suits.keepsWidth {decimals exponent : Nat} {unit : String} {s : Int} (first last : Int)
    (h : Suits decimals exponent unit first last) (hfirst : first ≤ s) (hlast : s ≤ last) :
    KeepsWidth s (snprintfUnit decimals unit (divide (toDouble s) (10 ^ exponent))) := by
  obtain ⟨hdecimals, ⟨c, hc, hunit⟩, hpos, hlow, hhigh⟩ := h
  have hlow := Nat.le_trans hlow (digits_mono hpos hfirst)
  have hhigh := Nat.lt_of_le_of_lt (digits_mono (Int.lt_of_lt_of_le hpos hfirst) hlast) hhigh
  have hkeeps := keepsWidth_print s hdecimals hlow hhigh hc
  have hwidth := hkeeps.width
  rw [snprintfUnit, hunit, snprintf, List.take_of_length_le]
  · exact hkeeps
  · exact Nat.le_trans hwidth (by decide)

/-- A branch that suits all counts from the limit before it to its own. -/
theorem Suits.keepsWidth_ite {decimals exponent : Nat} {unit : String} {first limit s : Int} {rest : Bytes}
    (h : Suits decimals exponent unit first (limit - 1)) (hfirst : first ≤ s)
    (hrest : limit ≤ s → KeepsWidth s rest) :
    KeepsWidth s
      (if s < limit then snprintfUnit decimals unit (divide (toDouble s) (10 ^ exponent)) else rest) := by
  split
  · exact h.keepsWidth first (limit - 1) hfirst (by omega)
  · exact hrest (by omega)

/-- Between two counts that are printed alike all are. -/
theorem digits_eq {decimals exponent n : Nat} {first last s : Int} (hpos : 0 < first) (hfirst : first ≤ s)
    (hlast : s ≤ last) (hlow : digits decimals exponent first = n) (hhigh : digits decimals exponent last = n) :
    digits decimals exponent s = n := by
  apply Nat.le_antisymm
  · calc digits decimals exponent s ≤ digits decimals exponent last := digits_mono (by omega) hlast
      _ = n := hhigh
  · calc n = digits decimals exponent first := hlow.symm
      _ ≤ digits decimals exponent s := digits_mono hpos hfirst

/-- The conversion moves these to 99.95P, and 99.95 is rounded up to a double. -/
theorem formatSI_tens {s : Int} (hlow : 99949999999999992 ≤ s) (hhigh : s ≤ 99949999999999999) :
    formatSI s = ascii "100.0P" := by
  have hdigits : digits 1 15 s = 1000 :=
    digits_eq (by decide) hlow hhigh (by decide +kernel) (by decide +kernel)
  have htext : formatSI s = snprintf (FixedPoint.print 1 (digits 1 15 s) ++ ascii "P") := by
    dsimp only [formatSI]
    iterate 14 rw [if_neg (by omega)]
    rw [if_pos (by omega)]
    rfl
  rw [htext, hdigits]
  decide +kernel

/-- The conversion moves these to 999.5P, and the tie goes to the even number. -/
theorem formatSI_hundreds {s : Int} (hlow : 999499999999999936 ≤ s) (hhigh : s ≤ 999499999999999999) :
    formatSI s = ascii "1000P" := by
  have hdigits : digits 0 15 s = 1000 :=
    digits_eq (by decide) hlow hhigh (by decide +kernel) (by decide +kernel)
  have htext : formatSI s = snprintf (FixedPoint.print 0 (digits 0 15 s) ++ ascii "P") := by
    dsimp only [formatSI]
    iterate 15 rw [if_neg (by omega)]
    rw [if_pos (by omega)]
    rfl
  rw [htext, hdigits]
  decide +kernel

theorem not_keepsWidth_tens (s : Int) : ¬KeepsWidth s (ascii "100.0P") := fun h => absurd h.width (by decide)

theorem not_keepsWidth_hundreds {s : Int} (hs : 1000 ≤ s) : ¬KeepsWidth s (ascii "1000P") := by
  intro h
  obtain ⟨mantissa, unit, -, htext, hdigits⟩ := h.mantissa hs
  have hmantissa : mantissa = ascii "1000" := by
    calc mantissa = (mantissa ++ [unit]).dropLast := List.dropLast_concat.symm
      _ = (ascii "1000P").dropLast := by rw [htext]
      _ = ascii "1000" := by decide
  have hlength := hdigits.digits
  rw [hmantissa] at hlength
  exact absurd hlength (by decide)

/-- Below a thousand the count is printed as it is. -/
theorem keepsWidth_small {s : Int} (hpos : 0 ≤ s) (hs : s < 1000) : KeepsWidth s (snprintf (Decimal.printInt s)) where
  width := by
    have hlength := Decimal.length_printPadded_le (k := 3) (by decide) (Nat.zero_le 3) hpos hs
    rw [Decimal.printPadded_zero] at hlength
    rw [snprintf, List.length_take]
    omega
  mantissa := fun hlarge => absurd hs (by omega)

/-- The text keeps its width, but for the counts just below two thresholds that the conversion to `double`
moves to the threshold. -/
theorem keepsWidth_iff {s : Int} (hs : CheckedInt.Fits 64 s) (hpos : 0 ≤ s) :
    KeepsWidth s (formatSI s) ↔
      ¬(99949999999999992 ≤ s ∧ s ≤ 99949999999999999) ∧ ¬(999499999999999936 ≤ s ∧ s ≤ 999499999999999999) := by
  have hmax := (CheckedInt.fits_long.mp hs).2
  constructor
  · refine fun h => ⟨fun hin => ?_, fun hin => ?_⟩
    · rw [formatSI_tens hin.1 hin.2] at h
      exact not_keepsWidth_tens s h
    · rw [formatSI_hundreds hin.1 hin.2] at h
      exact not_keepsWidth_hundreds (by omega) h
  · rintro ⟨htens, hhundreds⟩
    dsimp only [formatSI]
    refine iteInduction (fun hs => keepsWidth_small hpos hs) fun hs => ?_
    have hs : 1000 ≤ s := Int.not_lt.mp hs
    -- Up to 9.99P a branch suits all counts from the limit before it to its own.
    iterate 13 refine Suits.keepsWidth_ite (by decide +kernel) hs fun hs => ?_
    refine iteInduction (fun _ => ?_) fun _ => iteInduction (fun _ => ?_) fun _ => ?_
    · exact Suits.keepsWidth 9995000000000000 99949999999999991 (by decide +kernel) hs (by omega)
    · exact Suits.keepsWidth 99950000000000000 999499999999999935 (by decide +kernel) (by omega) (by omega)
    · exact Suits.keepsWidth 999500000000000000 9223372036854775807 (by decide +kernel) (by omega) hmax

theorem keepsWidth_below_tens : KeepsWidth 99949999999999991 (formatSI 99949999999999991) :=
  (keepsWidth_iff (by decide) (by decide)).mpr (by decide)

theorem hundred_peta : formatSI 99949999999999999 = ascii "100.0P" ∧
    ¬KeepsWidth 99949999999999999 (formatSI 99949999999999999) := by
  have htext : formatSI 99949999999999999 = ascii "100.0P" := by decide +kernel
  rw [htext]
  exact ⟨rfl, fun h => absurd h.width (by decide)⟩

end Muduo.FormatSI
