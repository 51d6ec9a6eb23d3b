import Muduo.Buffer
import Muduo.CheckedInt
import Muduo.Decimal
import Muduo.Memory

/-! `detail::convert` and `detail::convertHex`: the digits are stored in place from the least significant
one on, and the stored text is reversed. The remainder of a negative number is negative, and the table of
digits is mirrored around zero. -/

namespace Muduo.LogConvert

open CheckedInt Memory

def digits : Bytes := ascii "9876543210123456789"

/-- The index of the digit zero. -/
def zero : Int := 9

def digitsHex : Bytes := ascii "0123456789ABCDEF"

/-- The character at an index of a table. There is none outside of it. -/
def charAt (table : Bytes) (index : Int) : Option UInt8 :=
  if 0 ≤ index then table[index.toNat]? else none

/-- The loop, if a number of turns suffices: the array and the end of the text, from the array, the position
and what remains of the value. -/
def convertLoop (table : Bytes) (zero radix : Int) : Nat → Bytes → Nat → Int → Option (Bytes × Nat)
  | 0, _, _, _ => none
  | turns + 1, m, p, i => do
      let lsd := i.tmod radix
      let i := i.tdiv radix
      let m ← store m p (← charAt table (zero + lsd))
      if i ≠ 0 then convertLoop table zero radix turns m (p + 1) i else return (m, p + 1)

/-- The sign of a negative value. -/
def convertSign (m : Bytes) (p : Nat) (value : Int) : Option (Bytes × Nat) := do
  if value < 0 then
    let m ← store m p 45
    return (m, p + 1)
  else return (m, p)

/-- The end of both functions: the text is terminated and reversed. -/
def convertEnd (m : Bytes) (buf p : Nat) : Option (Nat × Bytes) := do
  let m ← store m p 0
  let m ← reverse m buf (p - buf)
  return (p - buf, m)

/-- `convert`: the length of the text and the array. -/
def convert (turns : Nat) (m : Bytes) (buf : Nat) (value : Int) : Option (Nat × Bytes) := do
  let (m, p) ← convertLoop digits zero 10 turns m buf value
  let (m, p) ← convertSign m p value
  convertEnd m buf p

/-- `convertHex`. -/
def convertHex (turns : Nat) (m : Bytes) (buf value : Nat) : Option (Nat × Bytes) := do
  let (m, p) ← convertLoop digitsHex 0 16 turns m buf value
  convertEnd m buf p

/-! ## The loop -/

section Loop

variable {table : Bytes} {zero sign : Int} {radix : Nat} {char : Nat → UInt8}

theorem sign_tmod (hsign : sign = 1 ∨ sign = -1) (n radix : Nat) :
    (sign * n).tmod radix = sign * (n % radix : Nat) := by
  rcases hsign with rfl | rfl
  · rw [Int.one_mul, Int.one_mul]
    rfl
  · rw [Int.neg_one_mul, Int.neg_one_mul, Int.neg_tmod]
    rfl

theorem sign_tdiv (hsign : sign = 1 ∨ sign = -1) (n radix : Nat) :
    (sign * n).tdiv radix = sign * (n / radix : Nat) := by
  rcases hsign with rfl | rfl
  · rw [Int.one_mul, Int.one_mul]
    rfl
  · rw [Int.neg_one_mul, Int.neg_one_mul, Int.neg_tdiv]
    rfl

/-- One turn stores one digit. -/
theorem convertLoop_turn (hradix : 1 < radix) (hsign : sign = 1 ∨ sign = -1)
    (hchar : ∀ d < radix, charAt table (zero + sign * d) = some (char d)) {m xs : Bytes} {buf : Nat}
    (turns n : Nat) (hroom : buf + xs.length < m.length) :
    convertLoop table zero radix (turns + 1) (written m buf xs) (buf + xs.length) (sign * n) =
      if n / radix ≠ 0 then
        convertLoop table zero radix turns (written m buf (xs ++ [char (n % radix)]))
          (buf + (xs ++ [char (n % radix)]).length) (sign * (n / radix : Nat))
      else some (written m buf (xs ++ [char (n % radix)]), buf + (xs ++ [char (n % radix)]).length) := by
  have hzero : sign * (n / radix : Nat) ≠ 0 ↔ n / radix ≠ 0 := by
    rcases hsign with rfl | rfl <;> omega
  rw [convertLoop, sign_tmod hsign, sign_tdiv hsign, hchar _ (Nat.mod_lt n (by omega)), List.length_append,
    List.length_singleton, ← Nat.add_assoc]
  simp only [Option.bind_eq_bind, Option.bind_some, store_written xs hroom, hzero]
  rfl

/-- **The loop** stores the digits of the absolute value behind what is stored already, the least significant
one first. The turns are as many as there can be digits. -/
theorem convertLoop_spec (hradix : 1 < radix) (hsign : sign = 1 ∨ sign = -1)
    (hchar : ∀ d < radix, charAt table (zero + sign * d) = some (char d)) {m : Bytes} {buf : Nat}
    {turns : Nat} (xs : Bytes) {n : Nat} (hpos : 0 < turns) (hturns : n < radix ^ turns)
    (hroom : buf + xs.length + (Numeral.print char radix n).length ≤ m.length) :
    convertLoop table zero radix turns (written m buf xs) (buf + xs.length) (sign * n) =
      some (written m buf (xs ++ (Numeral.print char radix n).reverse),
        buf + (xs ++ (Numeral.print char radix n).reverse).length) := by
  induction turns generalizing xs n with
  | zero => exact absurd hpos (Nat.lt_irrefl 0)
  | succ turns ih =>
      by_cases hn : n < radix
      · -- the last turn
        have hprint : Numeral.print char radix n = [char n] := by
          rw [Numeral.print, Numeral.digits_of_lt hn]
          rfl
        rw [hprint, List.length_singleton] at hroom
        rw [convertLoop_turn hradix hsign hchar turns n (by omega), Nat.div_eq_of_lt hn,
          if_neg (fun h => h rfl), Nat.mod_eq_of_lt hn, hprint, List.reverse_singleton]
      · have hle : radix ≤ n := Nat.not_lt.mp hn
        have hprint : Numeral.print char radix n = Numeral.print char radix (n / radix) ++ [char (n % radix)] := by
          rw [Numeral.print, Numeral.digits_of_le hradix hle, List.map_append]
          rfl
        rw [hprint, List.length_append, List.length_singleton] at hroom
        have hquotient : n / radix ≠ 0 := (Nat.div_pos hle (by omega)).ne'
        have hless : n / radix < radix ^ turns := Nat.div_lt_of_lt_mul (by rwa [← Nat.pow_succ'])
        have hturns : 0 < turns := by
          cases turns with
          | zero => exact absurd (Nat.lt_one_iff.mp hless) hquotient
          | succ turns => exact Nat.succ_pos turns
        rw [convertLoop_turn hradix hsign hchar turns n (by omega), if_pos hquotient,
          ih (xs ++ [char (n % radix)]) hturns hless (by
            rw [List.length_append, List.length_singleton]
            omega),
          hprint, List.reverse_append, List.reverse_singleton, List.append_assoc]

/-- Both functions end with the text in its order, terminated. -/
theorem convertEnd_spec {m xs : Bytes} {buf : Nat} (hroom : buf + xs.length < m.length) :
    convertEnd (written m buf xs) buf (buf + xs.length) = some (xs.length, written m buf (xs.reverse ++ [0])) := by
  rw [convertEnd, store_written xs hroom, Nat.add_sub_cancel_left]
  simp only [Option.bind_eq_bind, Option.bind_some, reverse_written (Nat.le_of_lt hroom)]
  rfl

theorem convertSign_spec {m : Bytes} {buf : Nat} (xs : Bytes) (value : Int) (hroom : buf + xs.length < m.length) :
    convertSign (written m buf xs) (buf + xs.length) value =
      some (written m buf (xs ++ if value < 0 then [45] else []),
        buf + (xs ++ if value < 0 then [45] else []).length) := by
  rw [convertSign]
  split
  · rw [store_written xs hroom, List.length_append, List.length_singleton, ← Nat.add_assoc]
    rfl
  · rw [List.append_nil]
    rfl

end Loop

/-! ## Decimal and hexadecimal -/

/-- The sign as a factor. -/
def signOf (value : Int) : Int := if value < 0 then -1 else 1

theorem signOf_eq (value : Int) : signOf value = 1 ∨ signOf value = -1 := by
  rw [signOf]
  split
  · exact .inr rfl
  · exact .inl rfl

theorem signOf_mul (value : Int) : signOf value * value.natAbs = value := by
  rw [signOf]
  split <;> omega

/-- The mirrored table, within its 19 characters. -/
theorem charAt_digits {sign : Int} (hsign : sign = 1 ∨ sign = -1) :
    ∀ d < 10, charAt digits (zero + sign * (d : Nat)) = some (UInt8.ofNat (48 + d)) := by
  rcases hsign with rfl | rfl <;> decide +kernel

/-- The character of a hexadecimal digit. -/
def hexChar (d : Nat) : UInt8 := if d < 10 then UInt8.ofNat (48 + d) else UInt8.ofNat (55 + d)

/-- The digit of a hexadecimal character. -/
def hexDigit (c : UInt8) : Nat := if c < 58 then c.toNat - 48 else c.toNat - 55

theorem hexDigit_hexChar : ∀ d < 16, hexDigit (hexChar d) = d := by decide +kernel

theorem hexChar_ne_newline : ∀ d < 16, hexChar d ≠ 10 := by decide +kernel

theorem charAt_digitsHex : ∀ d < 16, charAt digitsHex (0 + 1 * (d : Nat)) = some (hexChar d) := by
  decide +kernel

/-- The text of an integer is that of its absolute value behind the sign. -/
theorem printInt_eq (value : Int) :
    Decimal.printInt value = (if value < 0 then [45] else []) ++ Decimal.print value.natAbs := by
  cases value with
  | ofNat n =>
      rw [Int.ofNat_eq_natCast, if_neg (Int.not_lt.mpr (Int.natCast_nonneg n))]
      rfl
  | negSucc n =>
      rw [if_pos (Int.negSucc_lt_zero n)]
      rfl

theorem length_printInt_le {value : Int} (hlow : -2 ^ 63 ≤ value) (hhigh : value < 2 ^ 64) :
    (Decimal.printInt value).length ≤ 20 := by
  rw [printInt_eq, List.length_append]
  split
  · have := Decimal.length_print_le (n := value.natAbs) (k := 19) (by decide) (by omega)
    rw [List.length_singleton]
    omega
  · have := Decimal.length_print_le (n := value.natAbs) (k := 20) (by decide) (by omega)
    rw [List.length_nil]
    omega

theorem length_hex_le {value : Nat} (hvalue : value < 2 ^ 64) :
    (Numeral.print hexChar 16 value).length ≤ 16 := by
  rw [Numeral.print, List.length_map]
  exact Numeral.length_digits_le (by decide) (by decide) hvalue

/-- **`convert`** writes the text and a terminator, and nothing else. -/
theorem convert_spec {value : Int} {turns : Nat} (hpos : 0 < turns) (hturns : value.natAbs < 10 ^ turns)
    {m : Bytes} {buf : Nat} (hroom : buf + (Decimal.printInt value).length < m.length) :
    convert turns m buf value =
      some ((Decimal.printInt value).length, written m buf (Decimal.printInt value ++ [0])) := by
  have hdigits : buf + (Decimal.print value.natAbs).length < m.length := by
    rw [printInt_eq, List.length_append] at hroom
    omega
  have hloop : convertLoop digits zero 10 turns m buf value =
      some (written m buf (Decimal.print value.natAbs).reverse,
        buf + (Decimal.print value.natAbs).reverse.length) := by
    have hspec := convertLoop_spec (show 1 < 10 by decide) (signOf_eq value)
      (charAt_digits (signOf_eq value)) [] hpos hturns (Nat.le_of_lt hdigits)
    rwa [written_nil, List.length_nil, Nat.add_zero, signOf_mul, List.nil_append, ← Decimal.print] at hspec
  have hreverse : (Decimal.print value.natAbs).reverse ++ (if value < 0 then [45] else []) =
      (Decimal.printInt value).reverse := by
    rw [printInt_eq, List.reverse_append]
    split
    · rfl
    · rfl
  have hsign := convertSign_spec (Decimal.print value.natAbs).reverse value
    (show buf + (Decimal.print value.natAbs).reverse.length < m.length by rwa [List.length_reverse])
  rw [hreverse] at hsign
  rw [convert, bind_of_eq hloop]
  simp only [bind_of_eq hsign]
  rw [convertEnd_spec (by rwa [List.length_reverse]), List.length_reverse, List.reverse_reverse]

/-- **`convertHex`** writes the text and a terminator, and nothing else. -/
theorem convertHex_spec {value turns : Nat} (hpos : 0 < turns) (hturns : value < 16 ^ turns)
    {m : Bytes} {buf : Nat} (hroom : buf + (Numeral.print hexChar 16 value).length < m.length) :
    convertHex turns m buf value =
      some ((Numeral.print hexChar 16 value).length, written m buf (Numeral.print hexChar 16 value ++ [0])) := by
  have hloop : convertLoop digitsHex 0 16 turns m buf value =
      some (written m buf (Numeral.print hexChar 16 value).reverse,
        buf + (Numeral.print hexChar 16 value).reverse.length) := by
    have hspec := convertLoop_spec (show 1 < 16 by decide) (.inl rfl) charAt_digitsHex [] hpos hturns
      (Nat.le_of_lt hroom)
    rwa [written_nil, List.length_nil, Nat.add_zero, Int.one_mul, List.nil_append] at hspec
  rw [convertHex, bind_of_eq hloop]
  simp only []
  rw [convertEnd_spec (by rwa [List.length_reverse]), List.length_reverse, List.reverse_reverse]

/-- The index of a digit, for every remainder. -/
theorem index_lt (i : Int) : 0 ≤ zero + i.tmod 10 ∧ zero + i.tmod 10 < digits.length := by
  have hlength : digits.length = 19 := rfl
  have hlow := Int.lt_tmod_of_pos i (b := 10) (by decide)
  have hhigh := Int.tmod_lt_of_pos i (b := 10) (by decide)
  rw [hlength, zero]
  omega

/-- **Integer formatting.** A value of any integer type of at most 64 bits, the most negative one included, is
written as its digits without leading zeros, behind a minus sign when it is negative, and a terminator. Reading
the text gives the value back, its length is what is returned, and the table of 19 characters is never left. A
pointer is written in hexadecimal in the same way. -/
theorem integer_formatting :
    (∀ value : Int, -2 ^ 63 ≤ value → value < 2 ^ 64 → ∀ (m : Bytes) (buf : Nat), buf + 20 < m.length →
      ∃ text body, convert 20 m buf value = some (text.length, written m buf (text ++ [0])) ∧
        text.length ≤ 20 ∧ text = (if value < 0 then [45] else []) ++ body ∧
        Numeral.Canonical (fun d => UInt8.ofNat (48 + d)) (fun c => c.toNat - 48) 10 body value.natAbs ∧
        Decimal.valueInt text = value) ∧
    (∀ i : Int, 0 ≤ zero + i.tmod 10 ∧ zero + i.tmod 10 < digits.length) ∧
    ∀ value < 2 ^ 64, ∀ (m : Bytes) (buf : Nat), buf + 16 < m.length →
      ∃ text, convertHex 16 m buf value = some (text.length, written m buf (text ++ [0])) ∧
        Numeral.Canonical hexChar hexDigit 16 text value := by
  refine ⟨fun value hlow hhigh m buf hroom => ?_, index_lt, fun value hvalue m buf hroom => ?_⟩
  · have hlength := length_printInt_le hlow hhigh
    refine ⟨Decimal.printInt value, Decimal.print value.natAbs, convert_spec (by decide) (by omega) (by omega),
      hlength, printInt_eq value, ?_, Decimal.valueInt_printInt value⟩
    exact Numeral.print_canonical (by decide) (fun d hd => Decimal.char_toNat hd) _
  · have hlength := length_hex_le hvalue
    exact ⟨_, convertHex_spec (by decide) hvalue (by omega),
      Numeral.print_canonical (by decide) hexDigit_hexChar value⟩

/-- The most negative value of 64 bits, and the largest address. -/
theorem integer_formatting_limits :
    (∃ text body, convert 20 (List.replicate 32 0) 0 (-2 ^ 63) =
        some (text.length, written (List.replicate 32 0) 0 (text ++ [0])) ∧ text.length ≤ 20 ∧
      text = 45 :: body ∧ Decimal.valueInt text = -2 ^ 63) ∧
    ∃ text, convertHex 16 (List.replicate 32 0) 2 (2 ^ 64 - 1) =
        some (text.length, written (List.replicate 32 0) 2 (text ++ [0])) ∧
      Numeral.Canonical hexChar hexDigit 16 text (2 ^ 64 - 1) := by
  obtain ⟨hdecimal, -, hhex⟩ := integer_formatting
  obtain ⟨text, body, hconvert, hlength, htext, -, hvalue⟩ :=
    hdecimal (-2 ^ 63) (by decide) (by decide) (List.replicate 32 0) 0 (by decide)
  exact ⟨⟨text, body, hconvert, hlength, htext, hvalue⟩,
    hhex (2 ^ 64 - 1) (by decide) (List.replicate 32 0) 2 (by decide)⟩

end Muduo.LogConvert
