import Mathlib.Data.List.TakeWhile
import Muduo.Numeral

/-! Numbers in decimal, as bytes. -/

namespace Decimal

def print (n : Nat) : List UInt8 := Numeral.print (fun d => UInt8.ofNat (48 + d)) 10 n

/-- `%d`. -/
def printInt : Int → List UInt8
  | .ofNat n => print n
  | .negSucc n => 45 :: print (n + 1)

/-- `%0wd`: zeros behind the sign fill the width. -/
def printPadded (width : Nat) : Int → List UInt8
  | .ofNat n => List.replicate (width - (print n).length) 48 ++ print n
  | .negSucc n => 45 :: (List.replicate (width - 1 - (print (n + 1)).length) 48 ++ print (n + 1))

/-- `%wd`: blanks before the sign fill the width. -/
def printSpaced (width : Nat) (n : Int) : List UInt8 :=
  List.replicate (width - (printInt n).length) 32 ++ printInt n

/-- The number that some digits denote. -/
def value (text : List UInt8) : Nat := Numeral.value (fun c => c.toNat - 48) 10 text

/-- A digit, from its character. -/
theorem char_toNat {d : Nat} (hd : d < 10) : (UInt8.ofNat (48 + d)).toNat - 48 = d := by
  have hbyte : 48 + d < UInt8.size := Nat.lt_of_lt_of_le (Nat.add_lt_add_left hd 48) (by decide)
  rw [UInt8.toNat_ofNat_of_lt' hbyte, Nat.add_sub_cancel_left]

/-- Reading what was printed. -/
theorem value_print (n : Nat) : value (print n) = n :=
  Numeral.value_print (by decide) (fun _ hd => char_toNat hd) n

theorem print_injective : Function.Injective print :=
  Function.LeftInverse.injective value_print

/-- Only digits are printed. -/
theorem mem_print {n : Nat} {c : UInt8} (hc : c ∈ print n) : 48 ≤ c.toNat ∧ c.toNat < 58 := by
  obtain ⟨d, hd, rfl⟩ := List.mem_map.mp hc
  have hlt := Numeral.digit_lt (by decide) hd
  have hbyte : 48 + d < UInt8.size := Nat.lt_of_lt_of_le (Nat.add_lt_add_left hlt 48) (by decide)
  rw [UInt8.toNat_ofNat_of_lt' hbyte]
  omega

/-- A number has as many digits as it takes to exceed it. -/
theorem length_print_le {n k : Nat} (hk : 0 < k) (hn : n < 10 ^ k) : (print n).length ≤ k := by
  rw [print, Numeral.print, List.length_map]
  exact Numeral.length_digits_le (by decide) hk hn

theorem length_print {n k : Nat} (hlow : 10 ^ k ≤ n) (hhigh : n < 10 ^ (k + 1)) : (print n).length = k + 1 := by
  rw [print, Numeral.print, List.length_map]
  exact Numeral.length_digits (by decide) hlow hhigh

/-- Only zero has a leading zero. -/
theorem head_print {n : Nat} {rest : List UInt8} (hprint : print n = 48 :: rest) : n = 0 := by
  obtain ⟨d, digits, hdigits, hd, -⟩ := List.map_eq_cons_iff.mp hprint
  have hlt : d < 10 := Numeral.digit_lt (by decide) (by rw [hdigits]; exact List.mem_cons_self)
  have hzero : d = 0 := by
    rw [← char_toNat hlt, hd]
    rfl
  rw [hzero] at hdigits
  exact (Numeral.head_digits hdigits).1

/-! ## Signs and widths -/

/-- Zeros in front do not count. -/
theorem value_zeros (count : Nat) (text : List UInt8) :
    value (List.replicate count 48 ++ text) = value text := by
  have hzero : (48 : UInt8).toNat - 48 = 0 := rfl
  rw [value, Numeral.value, List.map_append, List.map_replicate, List.reverse_append, List.reverse_replicate,
    hzero, Nat.ofDigits_append_replicate_zero, value, Numeral.value]

/-- The number that digits behind an optional sign denote. -/
def valueInt : List UInt8 → Int
  | [] => 0
  | c :: text => if c = 45 then -(value text : Int) else (value (c :: text) : Int)

theorem valueInt_of_digits {text : List UInt8} (htext : ∀ c ∈ text, c ≠ 45) :
    valueInt text = value text := by
  cases text with
  | nil => rfl
  | cons c text => rw [valueInt, if_neg (htext c List.mem_cons_self)]

theorem ne_sign_of_mem {count n : Nat} {c : UInt8} (hc : c ∈ List.replicate count 48 ++ print n) :
    c ≠ 45 := by
  rintro rfl
  rcases List.mem_append.mp hc with hzero | hdigit
  · exact absurd (List.eq_of_mem_replicate hzero) (by decide)
  · exact absurd (mem_print hdigit).1 (by decide)

theorem valueInt_printPadded (width : Nat) (n : Int) : valueInt (printPadded width n) = n := by
  cases n with
  | ofNat n =>
      rw [printPadded, valueInt_of_digits fun c => ne_sign_of_mem, value_zeros, value_print]
      rfl
  | negSucc n =>
      rw [printPadded, valueInt, if_pos rfl, value_zeros, value_print]
      rfl

theorem printPadded_zero (n : Int) : printPadded 0 n = printInt n := by
  cases n with
  | ofNat n | negSucc n => rw [printPadded, Nat.zero_sub]; rfl

theorem valueInt_printInt (n : Int) : valueInt (printInt n) = n := by
  rw [← printPadded_zero, valueInt_printPadded]

theorem printPadded_injective (width : Nat) : Function.Injective (printPadded width) :=
  Function.LeftInverse.injective (valueInt_printPadded width)

theorem printInt_injective : Function.Injective printInt := Function.LeftInverse.injective valueInt_printInt

theorem ne_blank_of_mem {n : Int} {c : UInt8} (hc : c ∈ printInt n) : c ≠ 32 := by
  rintro rfl
  cases n with
  | ofNat n => exact absurd (mem_print hc).1 (by decide)
  | negSucc n =>
      rcases List.mem_cons.mp hc with hsign | hdigit
      · exact absurd hsign (by decide)
      · exact absurd (mem_print hdigit).1 (by decide)

theorem dropWhile_printSpaced (width : Nat) (n : Int) :
    (printSpaced width n).dropWhile (· == 32) = printInt n := by
  rw [printSpaced, List.dropWhile_append_of_pos]
  · rw [List.dropWhile_eq_self_iff]
    intro hpos hblank
    exact ne_blank_of_mem (List.getElem_mem hpos) (beq_iff_eq.mp hblank)
  · intro c hc
    rw [List.eq_of_mem_replicate hc]
    rfl

theorem printSpaced_injective (width : Nat) : Function.Injective (printSpaced width) := fun a b hab =>
  printInt_injective (by rw [← dropWhile_printSpaced width a, hab, dropWhile_printSpaced])

theorem le_length_printPadded (width : Nat) (n : Int) : width ≤ (printPadded width n).length := by
  cases n with
  | ofNat n =>
      rw [printPadded, List.length_append, List.length_replicate]
      omega
  | negSucc n =>
      rw [printPadded, List.length_cons, List.length_append, List.length_replicate]
      omega

/-- A number of at most so many digits, padded or not. -/
theorem length_printPadded_le {width k : Nat} {n : Int} (hk : 0 < k) (hwidth : width ≤ k) (hlow : 0 ≤ n)
    (hhigh : n < 10 ^ k) : (printPadded width n).length ≤ k := by
  obtain ⟨n, rfl⟩ := Int.eq_ofNat_of_zero_le hlow
  have hle := length_print_le hk (show n < 10 ^ k by exact_mod_cast hhigh)
  show (List.replicate (width - (print n).length) 48 ++ print n).length ≤ k
  rw [List.length_append, List.length_replicate]
  omega

/-- A number of at most so many digits is padded to the width. -/
theorem length_printPadded {width : Nat} {n : Int} (hwidth : 0 < width) (hlow : 0 ≤ n) (hhigh : n < 10 ^ width) :
    (printPadded width n).length = width :=
  Nat.le_antisymm (length_printPadded_le hwidth (Nat.le_refl _) hlow hhigh) (le_length_printPadded width n)

/-- A number that is not negative is printed without a sign, also when it is padded. -/
theorem ne_sign_of_mem_printPadded {width : Nat} {n : Int} (hn : 0 ≤ n) {c : UInt8}
    (hc : c ∈ printPadded width n) : c ≠ 45 := by
  obtain ⟨n, rfl⟩ := Int.eq_ofNat_of_zero_le hn
  exact ne_sign_of_mem hc

theorem le_length_printSpaced (width : Nat) (n : Int) : width ≤ (printSpaced width n).length := by
  rw [printSpaced, List.length_append, List.length_replicate]
  omega

theorem newline_notMem_print (n : Nat) : (10 : UInt8) ∉ print n := fun h => absurd (mem_print h).1 (by decide)

theorem newline_notMem_printPadded (width : Nat) (n : Int) : (10 : UInt8) ∉ printPadded width n := by
  have hzeros (count : Nat) : (10 : UInt8) ∉ List.replicate count (48 : UInt8) := fun h =>
    absurd (List.eq_of_mem_replicate h) (by decide)
  cases n with
  | ofNat n =>
      rw [printPadded, List.mem_append]
      exact not_or_intro (hzeros _) (newline_notMem_print n)
  | negSucc n =>
      rw [printPadded, List.mem_cons, List.mem_append]
      exact not_or_intro (by decide) (not_or_intro (hzeros _) (newline_notMem_print (n + 1)))

theorem newline_notMem_printInt (n : Int) : (10 : UInt8) ∉ printInt n := by
  rw [← printPadded_zero]
  exact newline_notMem_printPadded 0 n

theorem newline_notMem_printSpaced (width : Nat) (n : Int) : (10 : UInt8) ∉ printSpaced width n := by
  rw [printSpaced, List.mem_append]
  exact not_or_intro (fun h => absurd (List.eq_of_mem_replicate h) (by decide)) (newline_notMem_printInt n)

end Decimal
