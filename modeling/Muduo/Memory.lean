import Mathlib.Data.List.Induction
import Mathlib.Tactic.Common

/-! Arrays that are written in place. A store outside of the array has no result, so that a computation
that has one stayed within it. What a computation wrote is a run of elements at a position, and runs that
are written one behind the other are one run. -/

namespace Memory

variable {α : Type*}

/-- The array with the elements at the position. -/
def written (m : List α) (i : Nat) (xs : List α) : List α := m.take i ++ xs ++ m.drop (i + xs.length)

/-- Assignment to one element. -/
def store (m : List α) (i : Nat) (x : α) : Option (List α) :=
  if i < m.length then some (m.set i x) else none

/-- `memcpy`. -/
def copy (m : List α) (i : Nat) (xs : List α) : Option (List α) :=
  if i + xs.length ≤ m.length then some (written m i xs) else none

/-- `std::reverse` of a number of elements from the position on: the outermost two are exchanged, then the
ones between them. -/
def reverse (m : List α) (i : Nat) : Nat → Option (List α)
  | 0 => some m
  | 1 => some m
  | count + 2 => do
      let first ← m[i]?
      let last ← m[i + count + 1]?
      reverse ((m.set i last).set (i + count + 1) first) (i + 1) count

variable {m xs ys : List α} {i : Nat}

theorem length_written (hroom : i + xs.length ≤ m.length) : (written m i xs).length = m.length := by
  rw [written, List.length_append, List.length_append, List.length_take, List.length_drop]
  omega

theorem written_nil (m : List α) (i : Nat) : written m i [] = m := by
  rw [written, List.append_nil, List.length_nil, Nat.add_zero, List.take_append_drop]

/-- What was written, up to some of its elements. -/
theorem take_written (hroom : i + xs.length ≤ m.length) (ys : List α) :
    (written m i (xs ++ ys)).take (i + xs.length) = m.take i ++ xs := by
  have hlength : (m.take i ++ xs).length = i + xs.length := by
    rw [List.length_append, List.length_take]
    omega
  rw [written, ← List.append_assoc, List.append_assoc _ ys, ← hlength, List.take_left]

/-- Writing on behind a run. -/
theorem written_written (xs : List α) (hroom : i + xs.length ≤ m.length) :
    written (written m i xs) (i + xs.length) ys = written m i (xs ++ ys) := by
  have htake := take_written hroom []
  rw [List.append_nil] at htake
  rw [written, htake, written, written, List.length_append, ← List.append_assoc, ← Nat.add_assoc]
  congr 1
  have hlength : (m.take i ++ xs).length = i + xs.length := by
    rw [List.length_append, List.length_take]
    omega
  rw [← hlength, List.drop_length_add_append, List.drop_drop]

theorem store_eq {x : α} (hroom : i < m.length) : store m i x = some (written m i [x]) := by
  rw [store, if_pos hroom, written, List.set_eq_take_append_cons_drop, if_pos hroom]
  simp only [List.append_assoc, List.singleton_append, List.length_singleton]

/-- Storing on behind a run. -/
theorem store_written {x : α} (xs : List α) (hroom : i + xs.length < m.length) :
    store (written m i xs) (i + xs.length) x = some (written m i (xs ++ [x])) := by
  rw [store_eq (by rwa [length_written (Nat.le_of_lt hroom)]), written_written xs (Nat.le_of_lt hroom)]

theorem getElem?_length (front : List α) (x : α) (rest : List α) :
    (front ++ x :: rest)[front.length]? = some x := by
  rw [List.getElem?_append_right (Nat.le_refl _), Nat.sub_self, List.getElem?_cons_zero]

theorem set_length (front : List α) (x y : α) (rest : List α) :
    (front ++ x :: rest).set front.length y = front ++ y :: rest := by
  rw [List.set_append_right _ _ (Nat.le_refl _), Nat.sub_self, List.set_cons_zero]

/-- The elements between the ones that are exchanged, with those around them as the rest of the array. -/
theorem reverse_append (front xs rest : List α) (hfront : front.length = i) :
    reverse (front ++ xs ++ rest) i xs.length = some (front ++ xs.reverse ++ rest) := by
  induction xs using List.bidirectionalRec generalizing front rest i with
  | nil => rfl
  | singleton x => rfl
  | cons_append first middle last ih =>
      have hcount : (first :: (middle ++ [last])).length = middle.length + 2 := by
        rw [List.length_cons, List.length_append, List.length_singleton]
      have hsplit (x y : α) : front ++ x :: (middle ++ [y]) ++ rest = (front ++ x :: middle) ++ y :: rest := by
        simp only [List.append_assoc, List.cons_append, List.nil_append]
      have hindex (x : α) : i + middle.length + 1 = (front ++ x :: middle).length := by
        rw [List.length_append, List.length_cons, hfront, Nat.add_assoc]
      have hfirst : (front ++ first :: (middle ++ [last]) ++ rest)[i]? = some first := by
        rw [List.append_assoc, ← hfront]
        exact getElem?_length front first _
      have hlast : (front ++ first :: (middle ++ [last]) ++ rest)[i + middle.length + 1]? = some last := by
        rw [hsplit, hindex first]
        exact getElem?_length _ last rest
      have hexchanged : ((front ++ first :: (middle ++ [last]) ++ rest).set i last).set
          (i + middle.length + 1) first = (front ++ [last]) ++ middle ++ first :: rest :=
        calc ((front ++ first :: (middle ++ [last]) ++ rest).set i last).set (i + middle.length + 1) first
            = (front ++ last :: (middle ++ [last]) ++ rest).set (i + middle.length + 1) first := by
              rw [List.append_assoc, ← hfront, List.cons_append, set_length, List.append_assoc front,
                List.cons_append]
          _ = (front ++ last :: middle) ++ first :: rest := by
              rw [hsplit, hindex last, set_length]
          _ = (front ++ [last]) ++ middle ++ first :: rest := by
              rw [List.append_assoc front [last], List.singleton_append]
      rw [hcount, reverse, hfirst, Option.bind_eq_bind, Option.bind_some, hlast, Option.bind_some, hexchanged,
        ih (front ++ [last]) (first :: rest) (by rw [List.length_append, hfront, List.length_singleton])]
      simp only [List.reverse_cons, List.reverse_append, List.reverse_nil, List.nil_append, List.append_assoc,
        List.cons_append]

/-- **Reversing in place** the front part of a run. -/
theorem reverse_written (hroom : i + xs.length ≤ m.length) :
    reverse (written m i (xs ++ ys)) i xs.length = some (written m i (xs.reverse ++ ys)) := by
  have hfront : (m.take i).length = i := by
    rw [List.length_take]
    omega
  rw [written, ← List.append_assoc, List.append_assoc _ ys, reverse_append _ _ _ hfront, written,
    List.length_append, List.length_append, List.length_reverse, ← List.append_assoc (m.take i) xs.reverse ys,
    List.append_assoc _ ys]

end Memory
