import Mathlib.Algebra.Order.Floor.Ring
import Mathlib.Data.Int.Log
import Mathlib.Data.Rat.Floor
import Mathlib.Tactic.Linarith
import Mathlib.Tactic.NormNum
import Mathlib.Tactic.Positivity
import Mathlib.Tactic.Ring

/-! Rounding of rational numbers to the nearest integer, and to the nearest number with a significand of so
many bits, with ties to even. The exponent is not bounded. -/

namespace Rounding

/-- The nearest integer, and the even one of two. -/
def roundEven (q : ℚ) : ℤ :=
  if q - ⌊q⌋ < 1 / 2 then ⌊q⌋
  else if 1 / 2 < q - ⌊q⌋ then ⌊q⌋ + 1
  else if ⌊q⌋ % 2 = 0 then ⌊q⌋ else ⌊q⌋ + 1

section Integers

variable {q r : ℚ} {m : ℤ}

theorem floor_le_roundEven (q : ℚ) : ⌊q⌋ ≤ roundEven q := by
  rw [roundEven]
  split_ifs <;> omega

theorem roundEven_le_floor_add_one (q : ℚ) : roundEven q ≤ ⌊q⌋ + 1 := by
  rw [roundEven]
  split_ifs <;> omega

theorem abs_roundEven_sub_le (q : ℚ) : |(roundEven q : ℚ) - q| ≤ 1 / 2 := by
  have hlow := Int.floor_le q
  have hhigh := Int.lt_floor_add_one q
  rw [roundEven, abs_le]
  split_ifs <;> push_cast <;> constructor <;> linarith

/-- A number that is nearest. -/
theorem roundEven_eq (hlow : (m : ℚ) - 1 / 2 < q) (hhigh : q < m + 1 / 2) : roundEven q = m := by
  have herror := abs_le.mp (abs_roundEven_sub_le q)
  have hbelow : ((m - 1 : ℤ) : ℚ) < roundEven q := by
    push_cast
    linarith [herror.1]
  have habove : (roundEven q : ℚ) < ((m + 1 : ℤ) : ℚ) := by
    push_cast
    linarith [herror.2]
  have hbelow := Int.cast_lt.mp hbelow
  have habove := Int.cast_lt.mp habove
  omega

theorem roundEven_intCast (m : ℤ) : roundEven m = m := roundEven_eq (by linarith) (by linarith)

theorem roundEven_mono (hqr : q ≤ r) : roundEven q ≤ roundEven r := by
  have hfloor := Int.floor_mono hqr
  rcases Int.lt_or_eq_of_le hfloor with hless | hsame
  · calc roundEven q ≤ ⌊q⌋ + 1 := roundEven_le_floor_add_one q
      _ ≤ ⌊r⌋ := hless
      _ ≤ roundEven r := floor_le_roundEven r
  · rw [roundEven, roundEven, hsame]
    split_ifs <;> first | omega | (exfalso; linarith)

end Integers

/-! ## Significands -/

variable {p : ℕ} {q r : ℚ} {e : ℤ}

/-- The exponent of the last bit of a significand of `p` bits. -/
def exponent (p : ℕ) (q : ℚ) : ℤ := Int.log 2 q + 1 - p

/-- The nearest number with a significand of `p` bits, for a positive number. -/
def round (p : ℕ) (q : ℚ) : ℚ := roundEven (q / 2 ^ exponent p q) * 2 ^ exponent p q

theorem two_zpow_pos (e : ℤ) : (0 : ℚ) < 2 ^ e := zpow_pos (by norm_num) e

theorem first_power (hp : 0 < p) (q : ℚ) : (2 : ℚ) ^ (p - 1) * 2 ^ exponent p q = 2 ^ Int.log 2 q := by
  rw [← zpow_natCast, ← zpow_add₀ (by norm_num), exponent]
  congr 1
  omega

theorem last_power (p : ℕ) (q : ℚ) : (2 : ℚ) ^ p * 2 ^ exponent p q = 2 ^ (Int.log 2 q + 1) := by
  rw [← zpow_natCast, ← zpow_add₀ (by norm_num), exponent]
  congr 1
  omega

/-- The significand has `p` bits. -/
theorem significand_bounds (hp : 0 < p) (hq : 0 < q) :
    2 ^ (p - 1) ≤ q / 2 ^ exponent p q ∧ q / 2 ^ exponent p q < 2 ^ p := by
  have hlow := Int.zpow_log_le_self (b := 2) (by norm_num) hq
  have hhigh := Int.lt_zpow_succ_log_self (b := 2) (by norm_num) q
  push_cast at hlow hhigh
  rw [le_div_iff₀ (two_zpow_pos _), div_lt_iff₀ (two_zpow_pos _), first_power hp, last_power]
  exact ⟨hlow, hhigh⟩

/-- Rounding stays between the powers of two next to the number. -/
theorem round_bounds (hp : 0 < p) (hq : 0 < q) :
    2 ^ Int.log 2 q ≤ round p q ∧ round p q ≤ 2 ^ (Int.log 2 q + 1) := by
  obtain ⟨hlow, hhigh⟩ := significand_bounds hp hq
  have hlow := roundEven_mono (q := ((2 ^ (p - 1) : ℤ) : ℚ)) (by exact_mod_cast hlow)
  have hhigh := roundEven_mono (r := ((2 ^ p : ℤ) : ℚ)) (by exact_mod_cast hhigh.le)
  rw [roundEven_intCast] at hlow hhigh
  rw [← first_power hp, ← last_power, round]
  constructor
  · apply mul_le_mul_of_nonneg_right _ (two_zpow_pos _).le
    exact_mod_cast hlow
  · apply mul_le_mul_of_nonneg_right _ (two_zpow_pos _).le
    exact_mod_cast hhigh

theorem round_pos (hp : 0 < p) (hq : 0 < q) : 0 < round p q :=
  lt_of_lt_of_le (two_zpow_pos _) (round_bounds hp hq).1

/-- Between two numbers with one exponent the significands are rounded; between numbers with different ones
lies a power of two. -/
theorem round_mono (hp : 0 < p) (hq : 0 < q) (hqr : q ≤ r) : round p q ≤ round p r := by
  have hlog : Int.log 2 q ≤ Int.log 2 r := Int.log_mono_right hq hqr
  rcases Int.lt_or_eq_of_le hlog with hless | hsame
  · calc round p q ≤ 2 ^ (Int.log 2 q + 1) := (round_bounds hp hq).2
      _ ≤ 2 ^ Int.log 2 r := zpow_le_zpow_right₀ (by norm_num) hless
      _ ≤ round p r := (round_bounds hp (lt_of_lt_of_le hq hqr)).1
  · have hexponent : exponent p q = exponent p r := by rw [exponent, exponent, hsame]
    have hpos := two_zpow_pos (exponent p r)
    rw [round, round, hexponent]
    gcongr
    apply roundEven_mono
    gcongr

end Rounding
