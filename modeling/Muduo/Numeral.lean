import Mathlib.Data.Nat.Digits.Lemmas

/-! Positional numerals over an alphabet: the most significant digit comes first, and only the numeral of
zero begins with the digit zero. -/

namespace Numeral

variable {α : Type*} {base n : Nat}

/-- The digits of a number, the most significant one first. -/
def digits (base n : Nat) : List Nat := if n = 0 then [0] else (Nat.digits base n).reverse

def print (char : Nat → α) (base n : Nat) : List α := (digits base n).map char

/-- The number that some digits denote. -/
def value (digit : α → Nat) (base : Nat) (text : List α) : Nat := Nat.ofDigits base (text.map digit).reverse

theorem digits_of_lt (hn : n < base) : digits base n = [n] := by
  rw [digits]
  split
  · rename_i hzero
    rw [hzero]
  · rename_i hpos
    rw [Nat.digits_of_lt base n hpos hn, List.reverse_singleton]

theorem digits_of_le (hbase : 1 < base) (hn : base ≤ n) :
    digits base n = digits base (n / base) ++ [n % base] := by
  have hpos : 0 < n := by omega
  have hquotient : n / base ≠ 0 := (Nat.div_pos hn (by omega)).ne'
  rw [digits, if_neg hpos.ne', digits, if_neg hquotient, Nat.digits_def' hbase hpos, List.reverse_cons]

theorem digit_lt (hbase : 1 < base) {d : Nat} (hd : d ∈ digits base n) : d < base := by
  rw [digits] at hd
  split at hd
  · rw [List.mem_singleton.mp hd]
    exact Nat.zero_lt_of_lt hbase
  · exact Nat.digits_lt_base hbase (List.mem_reverse.mp hd)

theorem ofDigits_digits (base n : Nat) : Nat.ofDigits base (digits base n).reverse = n := by
  rw [digits]
  split
  · rename_i hzero
    rw [hzero]
    rfl
  · rw [List.reverse_reverse, Nat.ofDigits_digits]

theorem digits_ne_nil (base n : Nat) : digits base n ≠ [] := by
  rw [digits]
  split
  · exact List.cons_ne_nil _ _
  · rename_i hpos
    rw [Ne, List.reverse_eq_nil_iff, Nat.digits_eq_nil_iff_eq_zero]
    exact hpos

/-- A number has as many digits as it takes to exceed it. -/
theorem length_digits_le (hbase : 1 < base) {k : Nat} (hk : 0 < k) (hn : n < base ^ k) :
    (digits base n).length ≤ k := by
  rw [digits]
  split
  · exact hk
  · rw [List.length_reverse]
    exact (Nat.digits_length_le_iff hbase n).mpr hn

/-- A number has as many digits as the power of the base below it says. -/
theorem length_digits (hbase : 1 < base) {k : Nat} (hlow : base ^ k ≤ n) (hhigh : n < base ^ (k + 1)) :
    (digits base n).length = k + 1 := by
  have hpos : n ≠ 0 := (Nat.lt_of_lt_of_le (Nat.pow_pos (by omega)) hlow).ne'
  have hmore := (Nat.lt_digits_length_iff hbase n).mpr hlow
  have hless := (Nat.digits_length_le_iff hbase n).mpr hhigh
  rw [digits, if_neg hpos, List.length_reverse]
  omega

/-- Only zero has a leading zero. -/
theorem head_digits {rest : List Nat} (hdigits : digits base n = 0 :: rest) : n = 0 ∧ rest = [] := by
  rw [digits] at hdigits
  split at hdigits
  · rename_i hzero
    exact ⟨hzero, (List.cons.inj hdigits).2.symm⟩
  · rename_i hpos
    have hlast := Nat.getLast_digit_ne_zero base hpos
    rw [← List.head_reverse (by rw [hdigits]; exact List.cons_ne_nil _ _)] at hlast
    simp only [hdigits, List.head_cons, ne_eq, not_true_eq_false] at hlast

/-- A text is a numeral of the number: digits without a leading zero that denote it. -/
structure Canonical (char : Nat → α) (digit : α → Nat) (base : Nat) (text : List α) (n : Nat) : Prop where
  digits : ∀ c ∈ text, ∃ d < base, c = char d
  nonempty : text ≠ []
  leading : ∀ rest, text = char 0 :: rest → rest = []
  value : value digit base text = n

/-- Reading what was printed. -/
theorem value_print {char : Nat → α} {digit : α → Nat} (hbase : 1 < base)
    (hread : ∀ d < base, digit (char d) = d) (n : Nat) : value digit base (print char base n) = n := by
  have hdigits : (digits base n).map (digit ∘ char) = digits base n := by
    conv_rhs => rw [← List.map_id (digits base n)]
    exact List.map_congr_left fun d hd => hread d (digit_lt hbase hd)
  rw [value, print, List.map_map, hdigits, ofDigits_digits]

theorem print_canonical {char : Nat → α} {digit : α → Nat} (hbase : 1 < base)
    (hread : ∀ d < base, digit (char d) = d) (n : Nat) :
    Canonical char digit base (print char base n) n := by
  refine ⟨fun c hc => ?_, ?_, fun rest hrest => ?_, value_print hbase hread n⟩
  · obtain ⟨d, hd, rfl⟩ := List.mem_map.mp hc
    exact ⟨d, digit_lt hbase hd, rfl⟩
  · rw [print, Ne, List.map_eq_nil_iff]
    exact digits_ne_nil base n
  · obtain ⟨d, rest, hdigits, hd, rfl⟩ := List.map_eq_cons_iff.mp hrest
    have hzero : d = 0 := by
      rw [← hread d (digit_lt hbase (by rw [hdigits]; exact List.mem_cons_self)), hd, hread 0 (by omega)]
    rw [hzero] at hdigits
    rw [(head_digits hdigits).2]
    rfl

end Numeral
