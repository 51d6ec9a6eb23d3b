import Muduo.Decimal
import Muduo.Rounding

/-! Numbers with a fixed number of decimals, as bytes, and what a reader makes of them. -/

namespace FixedPoint

open Rounding

/-- A number of units of the last of `k` decimals. -/
def print (k n : Nat) : List UInt8 :=
  Decimal.print (n / 10 ^ k) ++ if k = 0 then [] else 46 :: Decimal.printPadded k (n % 10 ^ k : Nat)

/-- How many units of the last decimal are printed. -/
def units (k : Nat) (x : ℚ) : Nat := (roundEven (x * 10 ^ k)).toNat

/-- `%.kf`, for a number that is not negative. -/
def printRounded (k : Nat) (x : ℚ) : List UInt8 := print k (units k x)

theorem units_mono {k : Nat} {x y : ℚ} (hxy : x ≤ y) : units k x ≤ units k y :=
  Int.toNat_le_toNat (roundEven_mono (mul_le_mul_of_nonneg_right hxy (by positivity)))

/-! ## Reading -/

/-- The digits before the point. -/
def whole (text : List UInt8) : List UInt8 := text.takeWhile (· != 46)

/-- The digits behind the point. -/
def fraction (text : List UInt8) : List UInt8 := (text.dropWhile (· != 46)).tail

def value (text : List UInt8) : ℚ :=
  Decimal.value (whole text) + Decimal.value (fraction text) / 10 ^ (fraction text).length

/-- The digits behind zeros in front. -/
def significant (text : List UInt8) : List UInt8 := (whole text ++ fraction text).dropWhile (· == 48)

def IsDigit (c : UInt8) : Prop := 48 ≤ c.toNat ∧ c.toNat < 58

instance (c : UInt8) : Decidable (IsDigit c) := instDecidableAnd

/-- Digits, and a point among them or not. -/
def WellFormed (text : List UInt8) : Prop := ∀ c ∈ whole text ++ fraction text, IsDigit c

instance (text : List UInt8) : Decidable (WellFormed text) := List.decidableBAll _ _

variable {k n : Nat}

theorem isDigit_ne_point {c : UInt8} (hc : IsDigit c) : c != 46 := by
  rw [bne_iff_ne]
  rintro rfl
  exact absurd hc (by decide)

theorem isDigit_of_mem_printPadded {c : UInt8} (hc : c ∈ Decimal.printPadded k n) : IsDigit c := by
  rcases List.mem_append.mp hc with hzero | hdigit
  · rw [List.eq_of_mem_replicate hzero]
    decide
  · exact Decimal.mem_print hdigit

theorem takeWhile_digits {text : List UInt8} (htext : ∀ c ∈ text, IsDigit c) (rest : List UInt8) :
    (text ++ rest).takeWhile (· != 46) = text ++ rest.takeWhile (· != 46) :=
  List.takeWhile_append_of_pos fun c hc => isDigit_ne_point (htext c hc)

theorem dropWhile_digits {text : List UInt8} (htext : ∀ c ∈ text, IsDigit c) (rest : List UInt8) :
    (text ++ rest).dropWhile (· != 46) = rest.dropWhile (· != 46) :=
  List.dropWhile_append_of_pos fun c hc => isDigit_ne_point (htext c hc)

/-- Beside the digits there is at most the point. -/
theorem length_le (text : List UInt8) : text.length ≤ (whole text).length + (fraction text).length + 1 := by
  have hsplit := congrArg List.length (List.takeWhile_append_dropWhile (p := (· != 46)) (l := text))
  rw [List.length_append] at hsplit
  rw [whole, fraction, List.length_tail]
  omega

theorem whole_print (k n : Nat) : whole (print k n) = Decimal.print (n / 10 ^ k) := by
  rw [whole, print, takeWhile_digits fun c => Decimal.mem_print]
  split
  · exact List.append_nil _
  · exact List.append_nil _

theorem fraction_print (k n : Nat) :
    fraction (print k n) = if k = 0 then [] else Decimal.printPadded k (n % 10 ^ k : Nat) := by
  rw [fraction, print, dropWhile_digits fun c => Decimal.mem_print]
  split <;> rfl

theorem length_fraction_print (k n : Nat) : (fraction (print k n)).length = k := by
  rw [fraction_print]
  split
  · rename_i hzero
    rw [hzero]
    rfl
  · rename_i hpos
    have hlt : n % 10 ^ k < 10 ^ k := Nat.mod_lt _ (by positivity)
    exact Decimal.length_printPadded (Nat.pos_of_ne_zero hpos) (by omega) (by exact_mod_cast hlt)

theorem value_fraction_print (k n : Nat) : Decimal.value (fraction (print k n)) = n % 10 ^ k := by
  rw [fraction_print]
  split
  · rename_i hzero
    rw [hzero, Nat.pow_zero, Nat.mod_one]
    rfl
  · show Decimal.value (List.replicate _ 48 ++ Decimal.print (n % 10 ^ k)) = n % 10 ^ k
    rw [Decimal.value_zeros, Decimal.value_print]

theorem wellFormed_print (k n : Nat) : WellFormed (print k n) := by
  intro c hc
  rw [whole_print, fraction_print] at hc
  rcases List.mem_append.mp hc with hwhole | hfraction
  · exact Decimal.mem_print hwhole
  · split at hfraction
    · exact absurd hfraction List.not_mem_nil
    · exact isDigit_of_mem_printPadded hfraction

/-- Reading what was printed. -/
theorem value_print (k n : Nat) : value (print k n) = n / 10 ^ k := by
  have hsplit : (n : ℚ) = 10 ^ k * (n / 10 ^ k : Nat) + (n % 10 ^ k : Nat) := by
    exact_mod_cast (Nat.div_add_mod n (10 ^ k)).symm
  have hpos : (10 : ℚ) ^ k ≠ 0 := by positivity
  rw [value, length_fraction_print, value_fraction_print, whole_print, Decimal.value_print]
  rw [eq_div_iff hpos, add_mul, div_mul_cancel₀ _ hpos, mul_comm, ← hsplit]

/-- The digit in front of a number that is not smaller than one is significant. -/
theorem significant_print (hn : 10 ^ k ≤ n) : significant (print k n) = whole (print k n) ++ fraction (print k n) := by
  have hpos : 0 < n / 10 ^ k := Nat.div_pos hn (by positivity)
  rw [significant, whole_print]
  cases hprint : Decimal.print (n / 10 ^ k) with
  | nil => exact absurd (List.map_eq_nil_iff.mp hprint) (Numeral.digits_ne_nil 10 _)
  | cons c rest =>
      have hc : c ≠ 48 := by
        rintro rfl
        exact absurd (Decimal.head_print hprint) hpos.ne'
      rw [List.cons_append, List.dropWhile_cons_of_neg (by simpa using hc)]

theorem length_print_le (hn : 10 ^ k ≤ n) : (print k n).length ≤ (significant (print k n)).length + 1 := by
  rw [significant_print hn, List.length_append]
  exact length_le (print k n)

/-- The number of significant digits is that of the units. -/
theorem length_significant_print {j : Nat} (hlow : 10 ^ (j + k) ≤ n) (hhigh : n < 10 ^ (j + k + 1)) :
    (significant (print k n)).length = j + k + 1 := by
  have hpower : 0 < 10 ^ k := by positivity
  have hone : 10 ^ k ≤ n := Nat.le_trans (Nat.pow_le_pow_right (by decide) (Nat.le_add_left k j)) hlow
  have hlow : 10 ^ j ≤ n / 10 ^ k := by
    rw [Nat.le_div_iff_mul_le hpower, ← Nat.pow_add]
    exact hlow
  have hhigh : n / 10 ^ k < 10 ^ (j + 1) := by
    rw [Nat.div_lt_iff_lt_mul hpower, ← Nat.pow_add, Nat.add_right_comm]
    exact hhigh
  rw [significant_print hone, List.length_append, length_fraction_print, whole_print,
    Decimal.length_print hlow hhigh]
  omega

end FixedPoint
