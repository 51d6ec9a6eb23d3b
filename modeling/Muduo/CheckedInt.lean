import Mathlib.Algebra.Order.Ring.Int
import Mathlib.Tactic.Common

/-! Signed machine integers of a number of bits. An operation whose result does not fit has no result.
Division and remainder truncate. -/

namespace CheckedInt

/-- The values of a signed type of so many bits. -/
def Fits (bits : Nat) (n : Int) : Prop := -2 ^ (bits - 1) ≤ n ∧ n < 2 ^ (bits - 1)

instance (bits : Nat) (n : Int) : Decidable (Fits bits n) := instDecidableAnd

def narrow (bits : Nat) (n : Int) : Option Int := if Fits bits n then some n else none

def add (bits : Nat) (a b : Int) : Option Int := narrow bits (a + b)

def sub (bits : Nat) (a b : Int) : Option Int := narrow bits (a - b)

def mul (bits : Nat) (a b : Int) : Option Int := narrow bits (a * b)

def div (bits : Nat) (a b : Int) : Option Int := if b = 0 then none else narrow bits (a.tdiv b)

def mod (bits : Nat) (a b : Int) : Option Int := if b = 0 then none else narrow bits (a.tmod b)

/-- The conversion to a narrower type wraps around. -/
def cast (bits : Nat) (n : Int) : Int := (n + 2 ^ (bits - 1)) % 2 ^ bits - 2 ^ (bits - 1)

variable {bits : Nat} {a b : Int}

theorem fits_int {n : Int} : Fits 32 n ↔ -2147483648 ≤ n ∧ n ≤ 2147483647 := by
  rw [Fits]
  omega

theorem fits_long {n : Int} : Fits 64 n ↔ -9223372036854775808 ≤ n ∧ n ≤ 9223372036854775807 := by
  rw [Fits]
  omega

theorem cast_int {n : Int} (hlow : -2147483648 ≤ n) (hhigh : n ≤ 2147483647) : cast 32 n = n := by
  rw [cast]
  omega

theorem narrow_eq {n : Int} (hfits : Fits bits n) : narrow bits n = some n := if_pos hfits

theorem add_eq (hfits : Fits bits (a + b)) : add bits a b = some (a + b) := narrow_eq hfits

theorem sub_eq (hfits : Fits bits (a - b)) : sub bits a b = some (a - b) := narrow_eq hfits

theorem mul_eq (hfits : Fits bits (a * b)) : mul bits a b = some (a * b) := narrow_eq hfits

theorem div_eq_tdiv (hb : 0 < b) (hfits : Fits bits (a.tdiv b)) : div bits a b = some (a.tdiv b) := by
  rw [div, if_neg (ne_of_gt hb)]
  exact narrow_eq hfits

theorem mod_eq_tmod (hb : 0 < b) (hfits : Fits bits (a.tmod b)) : mod bits a b = some (a.tmod b) := by
  rw [mod, if_neg (ne_of_gt hb)]
  exact narrow_eq hfits

/-- Where nothing is negative, division is that of the integers. -/
theorem div_eq (ha : 0 ≤ a) (hb : 0 < b) (hfits : Fits bits (a / b)) : div bits a b = some (a / b) := by
  rw [← Int.tdiv_eq_ediv_of_nonneg ha] at hfits ⊢
  exact div_eq_tdiv hb hfits

theorem mod_eq (ha : 0 ≤ a) (hb : 0 < b) (hfits : Fits bits (a % b)) : mod bits a b = some (a % b) := by
  rw [← Int.tmod_eq_emod_of_nonneg ha] at hfits ⊢
  exact mod_eq_tmod hb hfits

/-- Truncation rounds down, or up by one with a remainder that is negative. -/
theorem truncates (hb : 0 < b) :
    0 ≤ a.tmod b ∧ a.tdiv b = a / b ∧ a.tmod b = a % b ∨
      a.tmod b < 0 ∧ a.tdiv b = a / b + 1 ∧ a.tmod b = a % b - b := by
  have hnonneg := Int.emod_nonneg a (ne_of_gt hb)
  have hlt := Int.emod_lt_of_pos a hb
  rw [Int.tdiv_eq_ediv, Int.tmod_eq_emod]
  split_ifs with hexact
  · left
    exact ⟨by simpa using hnonneg, Int.add_zero _, by simp⟩
  · right
    rw [Int.sign_eq_one_of_pos hb, Int.natAbs_of_nonneg (le_of_lt hb)]
    exact ⟨by omega, rfl, rfl⟩

/-- A computation goes on with a result that is known. -/
theorem bind_of_eq {α β : Type} {x : Option α} {value : α} (hx : x = some value) (f : α → Option β) :
    (x >>= f) = f value := by
  rw [hx]
  rfl

end CheckedInt
