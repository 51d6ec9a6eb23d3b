import Mathlib.Data.List.Lex
import Mathlib.Data.UInt
import Muduo.Decimal

/-! Texts made of numbers in fixed widths and of fixed characters between them. Two such texts compare,
byte by byte, as the lists of their numbers do. -/

namespace TextOrder

section Lists

variable {α : Type*} [LT α] {a b x y : List α}

/-- Texts of one length differ at a place that both have. -/
theorem append_lt_append (hlength : a.length = b.length) (hlt : a < b) : a ++ x < b ++ y := by
  induction hlt with
  | nil => cases hlength
  | cons _ ih => exact .cons (ih (Nat.succ.inj hlength))
  | rel hrel => exact .rel hrel

end Lists

/-- Texts that are in the order of two numbers, whichever is the larger. -/
theorem lt_iff_of_trichotomy {a b : List UInt8} {m n : Int} (hlt : m < n → a < b) (hsame : m = n → a = b)
    (hgt : n < m → b < a) : a < b ↔ m < n := by
  refine ⟨fun h => ?_, hlt⟩
  rcases lt_trichotomy m n with hless | heq | hmore
  · exact hless
  · rw [hsame heq] at h
    exact absurd h (List.lt_irrefl _)
  · exact absurd h (List.lt_asymm (hgt hmore))

/-! ## Numbers -/

theorem value_cons (c : UInt8) (text : List UInt8) :
    Decimal.value (c :: text) = (c.toNat - 48) * 10 ^ text.length + Decimal.value text := by
  simp only [Decimal.value, Numeral.value, List.map_cons, List.reverse_cons]
  rw [Nat.ofDigits_append, List.length_reverse, List.length_map, Nat.ofDigits_singleton, Nat.mul_comm, Nat.add_comm]

theorem value_lt {text : List UInt8} (hdigits : ∀ c ∈ text, c.toNat < 58) :
    Decimal.value text < 10 ^ text.length := by
  have hlength : text.length = (text.map fun c => c.toNat - 48).reverse.length := by
    rw [List.length_reverse, List.length_map]
  rw [Decimal.value, Numeral.value, hlength]
  refine Nat.ofDigits_lt_base_pow_length (by decide) fun d hd => ?_
  obtain ⟨c, hc, rfl⟩ := List.mem_map.mp (List.mem_reverse.mp hd)
  have hlt := hdigits c hc
  omega

/-- Digits of one length are in the order of their values. -/
theorem lt_of_value_lt {a b : List UInt8} (hlength : a.length = b.length)
    (ha : ∀ c ∈ a, 48 ≤ c.toNat ∧ c.toNat < 58) (hb : ∀ c ∈ b, 48 ≤ c.toNat ∧ c.toNat < 58)
    (hlt : Decimal.value a < Decimal.value b) : a < b := by
  induction a generalizing b with
  | nil =>
      obtain rfl := List.length_eq_zero_iff.mp hlength.symm
      exact absurd hlt (Nat.lt_irrefl _)
  | cons c a ih =>
      cases b with
      | nil => cases hlength
      | cons d b =>
          have hlength := Nat.succ.inj hlength
          have hc := ha c List.mem_cons_self
          have hd := hb d List.mem_cons_self
          have hrest := value_lt fun e he => (hb e (List.mem_cons_of_mem d he)).2
          rw [value_cons, value_cons, hlength] at hlt
          by_cases hfirst : c.toNat < d.toNat
          · exact .rel (UInt8.lt_iff_toNat_lt.mpr hfirst)
          · -- the first digits are equal, since the values of the others do not reach the next power
            have hle : c.toNat ≤ d.toNat := by
              by_contra hnot
              have hpower : (d.toNat - 48 + 1) * 10 ^ b.length ≤ (c.toNat - 48) * 10 ^ b.length :=
                Nat.mul_le_mul_right _ (by omega)
              rw [Nat.add_mul, Nat.one_mul] at hpower
              omega
            have hsame : c.toNat = d.toNat := by omega
            rw [hsame] at hlt
            rw [UInt8.toNat_inj.mp hsame]
            refine .cons (ih hlength (fun e he => ha e (List.mem_cons_of_mem c he))
              (fun e he => hb e (List.mem_cons_of_mem d he)) ?_)
            omega

theorem mem_printPadded {width : Nat} {n : Int} (hn : 0 ≤ n) {c : UInt8} (hc : c ∈ Decimal.printPadded width n) :
    48 ≤ c.toNat ∧ c.toNat < 58 := by
  obtain ⟨n, rfl⟩ := Int.eq_ofNat_of_zero_le hn
  rcases List.mem_append.mp hc with hzero | hdigit
  · rw [List.eq_of_mem_replicate hzero]
    decide
  · exact Decimal.mem_print hdigit

theorem value_printPadded (width : Nat) {n : Int} (hn : 0 ≤ n) :
    (Decimal.value (Decimal.printPadded width n) : Int) = n := by
  obtain ⟨n, rfl⟩ := Int.eq_ofNat_of_zero_le hn
  change (Decimal.value (List.replicate _ 48 ++ Decimal.print n) : Int) = n
  rw [Decimal.value_zeros, Decimal.value_print]

/-- Numbers that fit in a width are printed in their order. -/
theorem printPadded_lt {width : Nat} {m n : Int} (hm : 0 ≤ m) (hlt : m < n) (hn : n < 10 ^ width) :
    Decimal.printPadded width m < Decimal.printPadded width n := by
  have hwidth : 0 < width := by
    by_contra hzero
    obtain rfl : width = 0 := by omega
    omega
  refine lt_of_value_lt ?_ (fun c hc => mem_printPadded hm hc) (fun c hc => mem_printPadded (by omega) hc) ?_
  · rw [Decimal.length_printPadded hwidth hm (by omega), Decimal.length_printPadded hwidth (by omega) hn]
  · have hvalue := value_printPadded width hm
    have hvalue' := value_printPadded width (Int.le_trans hm (Int.le_of_lt hlt))
    omega

/-! ## Templates -/

/-- A part of a template: characters, or the place of a number. -/
inductive Token where
  | literal (text : List UInt8)
  | number (width : Nat)
  deriving DecidableEq, Repr

/-- The template filled in with numbers. -/
def render : List Token → List Int → List UInt8
  | [], _ => []
  | .literal text :: pieces, values => text ++ render pieces values
  | .number width :: pieces, value :: values => Decimal.printPadded width value ++ render pieces values
  | .number _ :: _, [] => []

/-- The number has at most so many digits and no sign. -/
def Below (width : Nat) (n : Int) : Prop := 0 < width ∧ 0 ≤ n ∧ n < 10 ^ width

/-- The numbers fill the template and are no wider than their places. -/
def Fills : List Token → List Int → Prop
  | [], values => values = []
  | .literal _ :: pieces, values => Fills pieces values
  | .number width :: pieces, value :: values => Below width value ∧ Fills pieces values
  | .number _ :: _, [] => False

/-- How many characters a part has. -/
def Token.width : Token → Nat
  | .literal text => text.length
  | .number width => width

theorem length_render {pieces : List Token} {values : List Int} (hvalues : Fills pieces values) :
    (render pieces values).length = (pieces.map Token.width).sum := by
  induction pieces generalizing values with
  | nil => rfl
  | cons piece pieces ih =>
      rw [List.map_cons, List.sum_cons]
      cases piece with
      | literal text => rw [render, List.length_append, ih hvalues, Token.width]
      | number width =>
          cases values with
          | nil => exact hvalues.elim
          | cons value values =>
              obtain ⟨⟨hwidth, hlow, hhigh⟩, hvalues⟩ := hvalues
              rw [render, List.length_append, ih hvalues, Token.width, Decimal.length_printPadded hwidth hlow hhigh]

/-- **The order of texts.** -/
theorem render_lt {pieces : List Token} {values others : List Int} (hvalues : Fills pieces values)
    (hothers : Fills pieces others) (hlt : values < others) (x y : List UInt8) :
    render pieces values ++ x < render pieces others ++ y := by
  induction pieces generalizing values others with
  | nil =>
      rw [hvalues, hothers] at hlt
      cases hlt
  | cons piece pieces ih =>
      cases piece with
      | literal text =>
          rw [render, render, List.append_assoc, List.append_assoc]
          exact List.append_left_lt (ih hvalues hothers hlt)
      | number width =>
          cases values with
          | nil => exact hvalues.elim
          | cons value values =>
              cases others with
              | nil => exact hothers.elim
              | cons other others =>
                  obtain ⟨⟨hwidth, hlow, hhigh⟩, hvalues⟩ := hvalues
                  obtain ⟨⟨-, hlow', hhigh'⟩, hothers⟩ := hothers
                  rw [render, render, List.append_assoc, List.append_assoc]
                  cases hlt with
                  | rel hrel =>
                      refine append_lt_append ?_ (printPadded_lt hlow hrel hhigh')
                      rw [Decimal.length_printPadded hwidth hlow hhigh, Decimal.length_printPadded hwidth hlow' hhigh']
                  | cons hrest => exact List.append_left_lt (ih hvalues hothers hrest)

end TextOrder
