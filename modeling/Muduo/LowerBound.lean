import Mathlib.Data.Int.Basic
import Mathlib.Data.List.Basic
import Mathlib.Tactic.Common

/-! `std::lower_bound`: binary search for the place where a property of the elements ends to hold. -/

namespace LowerBound

variable {α : Type*}

/-- The property holds just before the place. -/
def Splits (holds : α → Prop) (list : List α) (place : Nat) : Prop :=
  place ≤ list.length ∧ ∀ i x, list[i]? = some x → (holds x ↔ i < place)

/-- The loop, for a number of turns, on what is between the first element and `length` elements more. -/
def search (holds : α → Bool) (list : List α) : Nat → Nat → Nat → Nat
  | 0, first, _ => first
  | turns + 1, first, length =>
      if length = 0 then first
      else
        match list[first + length / 2]? with
        | some middle =>
            if holds middle then search holds list turns (first + length / 2 + 1) (length - length / 2 - 1)
            else search holds list turns first (length / 2)
        | none => first

/-- `lower_bound(begin, end, value, comp)`: the property of an element is to compare less. -/
def lowerBound (holds : α → Bool) (list : List α) : Nat := search holds list list.length 0 list.length

variable {holds : α → Bool} {list : List α} {place : Nat}

/-- The place stays between the two ends. -/
theorem search_eq (hsplits : Splits (fun x => holds x = true) list place) {turns first length : Nat}
    (hturns : length ≤ turns) (hfirst : first ≤ place) (hlast : place ≤ first + length)
    (hend : first + length ≤ list.length) : search holds list turns first length = place := by
  induction turns generalizing first length with
  | zero =>
      rw [search]
      omega
  | succ turns ih =>
      rw [search]
      by_cases hlength : length = 0
      · rw [if_pos hlength]
        omega
      · rw [if_neg hlength]
        have hmiddle : first + length / 2 < list.length := by omega
        have hside := hsplits.2 _ _ (List.getElem?_eq_getElem hmiddle)
        rw [List.getElem?_eq_getElem hmiddle]
        cases hholds : holds list[first + length / 2] with
        | true =>
            have hbefore := hside.mp hholds
            simp only [hholds, if_true]
            exact ih (by omega) (by omega) (by omega) (by omega)
        | false =>
            have hbehind : ¬ first + length / 2 < place := fun h => by
              have hnever : holds list[first + length / 2] = true := hside.mpr h
              rw [hholds] at hnever
              cases hnever
            simp only [hholds, Bool.false_eq_true, if_false]
            exact ih (by omega) (by omega) (by omega) (by omega)

/-- **Binary search.** The place is found. -/
theorem lowerBound_eq (hsplits : Splits (fun x => holds x = true) list place) :
    lowerBound holds list = place :=
  search_eq hsplits (Nat.le_refl _) (Nat.zero_le _) (by rw [Nat.zero_add]; exact hsplits.1)
    (Nat.le_of_eq (Nat.zero_add _))

/-- On any list the place is within the bounds, and it is the first one only if the property does not hold
there. -/
theorem search_bounds (turns first length : Nat) (hturns : length ≤ turns)
    (hend : first + length ≤ list.length) :
    first ≤ search holds list turns first length ∧
      search holds list turns first length ≤ first + length ∧
      ∀ x, list[first]? = some x → holds x = true → 0 < length →
        first < search holds list turns first length := by
  induction turns generalizing first length with
  | zero =>
      rw [search]
      exact ⟨Nat.le_refl _, Nat.le_add_right _ _, fun _ _ _ hpos => by omega⟩
  | succ turns ih =>
      rw [search]
      by_cases hlength : length = 0
      · rw [if_pos hlength]
        exact ⟨Nat.le_refl _, Nat.le_add_right _ _, fun _ _ _ hpos => by omega⟩
      · rw [if_neg hlength]
        obtain ⟨middle, hmiddle⟩ : ∃ middle, list[first + length / 2]? = some middle :=
          ⟨_, List.getElem?_eq_getElem (by omega)⟩
        rw [hmiddle]
        cases hholds : holds middle with
        | true =>
            obtain ⟨hle, hlast, -⟩ := ih (first + length / 2 + 1) (length - length / 2 - 1) (by omega)
              (by omega)
            simp only [hholds, if_true]
            exact ⟨by omega, by omega, fun _ _ _ _ => by omega⟩
        | false =>
            obtain ⟨hle, hlast, hfirst⟩ := ih first (length / 2) (by omega) (by omega)
            simp only [hholds, Bool.false_eq_true, if_false]
            refine ⟨hle, by omega, fun x hx hyes _ => hfirst x hx hyes ?_⟩
            -- the middle is not the first element
            by_contra hzero
            rw [show first + length / 2 = first by omega, hx] at hmiddle
            obtain rfl := Option.some.inj hmiddle
            rw [hyes] at hholds
            cases hholds

/-- The property does not hold of the first element if that is the place. -/
theorem lowerBound_pos {front : α} {rest : List α} (hfront : holds front = true) :
    0 < lowerBound holds (front :: rest) :=
  (search_bounds _ 0 _ (Nat.le_refl _) (Nat.le_of_eq (Nat.zero_add _))).2.2 front rfl hfront
    (Nat.succ_pos _)

/-- In a list in which the property holds of earlier elements when it holds of later ones, there is a
place. -/
theorem exists_splits {holds : α → Prop} {list : List α}
    (hordered : list.Pairwise fun x y => holds y → holds x) : ∃ place, Splits holds list place := by
  induction list with
  | nil => exact ⟨0, Nat.le_refl 0, fun i x hx => by cases hx⟩
  | cons first rest ih =>
      obtain ⟨hfirst, hrest⟩ := List.pairwise_cons.mp hordered
      by_cases hholds : holds first
      · obtain ⟨place, hplace, hiff⟩ := ih hrest
        refine ⟨place + 1, Nat.succ_le_succ hplace, fun i x hx => ?_⟩
        cases i with
        | zero =>
            obtain rfl := Option.some.inj hx
            exact iff_of_true hholds (Nat.succ_pos _)
        | succ i => exact (hiff i x hx).trans (Nat.succ_lt_succ_iff).symm
      · refine ⟨0, Nat.zero_le _, fun i x hx => iff_of_false (fun hx' => hholds ?_) (Nat.not_lt_zero i)⟩
        rcases List.mem_cons.mp (List.mem_of_getElem? hx) with rfl | hlater
        · exact hx'
        · exact hfirst x hlater hx'

/-- An increasing list, by positions. -/
theorem getElem?_lt {f : α → Int} {list : List α} (hincreasing : list.Pairwise fun x y => f x < f y)
    {i j : Nat} {x y : α} (hij : i < j) (hx : list[i]? = some x) (hy : list[j]? = some y) : f x < f y := by
  obtain ⟨hi, rfl⟩ := List.getElem?_eq_some_iff.mp hx
  obtain ⟨hj, rfl⟩ := List.getElem?_eq_some_iff.mp hy
  exact List.pairwise_iff_getElem.mp hincreasing i j hi hj hij

/-- In an increasing list the elements on both sides of a place decide whether it is the one. -/
theorem splits_of_neighbours {f : α → Int} {list : List α} {place : Nat} {bound : Int}
    (hincreasing : list.Pairwise fun x y => f x < f y) (hplace : place ≤ list.length)
    (hbefore : ∀ i x, i + 1 = place → list[i]? = some x → f x ≤ bound)
    (hbehind : ∀ x, list[place]? = some x → bound < f x) :
    Splits (fun x => f x ≤ bound) list place := by
  refine ⟨hplace, fun i x hx => ⟨fun hle => ?_, fun hlt => ?_⟩⟩
  · by_contra hnot
    have hinside : place < list.length := by
      have hi := (List.getElem?_eq_some_iff.mp hx).1
      omega
    have hnext := hbehind _ (List.getElem?_eq_getElem hinside)
    rcases Nat.eq_or_lt_of_le (Nat.le_of_not_lt hnot) with rfl | hlater
    · obtain rfl := Option.some.inj (hx.symm.trans (List.getElem?_eq_getElem hinside))
      omega
    · have hmore := getElem?_lt hincreasing hlater (List.getElem?_eq_getElem hinside) hx
      omega
  · obtain ⟨last, rfl⟩ : ∃ last, place = last + 1 := ⟨place - 1, by omega⟩
    have hinside : last < list.length := by omega
    have hlast := hbefore last _ rfl (List.getElem?_eq_getElem hinside)
    rcases Nat.eq_or_lt_of_le (Nat.le_of_lt_succ hlt) with rfl | hearlier
    · obtain rfl := Option.some.inj (hx.symm.trans (List.getElem?_eq_getElem hinside))
      exact hlast
    · have hless := getElem?_lt hincreasing hearlier hx (List.getElem?_eq_getElem hinside)
      omega

end LowerBound
