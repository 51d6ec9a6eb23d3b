import Mathlib.Data.List.Sort
import Mathlib.Data.Prod.Lex
import Mathlib.Tactic.Common

/-! The ordered container `std::set` over an arbitrary linear order: a strictly increasing list, with
the operations that report whether they have changed it, the first element, and the cut at a bound.
The rules below say what is in the result of an operation, how large it is, and what it reports. -/

/-- A finite set that is iterated in increasing order. -/
structure OrderedSet (α : Type*) [LinearOrder α] where
  elements : List α
  increasing : elements.Pairwise (· < ·)
  deriving DecidableEq

namespace OrderedSet

variable {α : Type*} [LinearOrder α]

instance : Membership α (OrderedSet α) := ⟨fun s a => a ∈ s.elements⟩

instance (a : α) (s : OrderedSet α) : Decidable (a ∈ s) :=
  inferInstanceAs (Decidable (a ∈ s.elements))

def empty : OrderedSet α := ⟨[], List.Pairwise.nil⟩

instance : Inhabited (OrderedSet α) := ⟨empty⟩

def size (s : OrderedSet α) : Nat := s.elements.length

/-- `*begin()`, if there is one. -/
def first (s : OrderedSet α) : Option α := s.elements.head?

theorem nodup (s : OrderedSet α) : s.elements.Nodup := s.increasing.imp ne_of_lt

theorem increasing_orderedInsert {a : α} {l : List α} (hfresh : a ∉ l) (hl : l.Pairwise (· < ·)) :
    (l.orderedInsert (· ≤ ·) a).Pairwise (· < ·) := by
  have hnodup : (l.orderedInsert (· ≤ ·) a).Nodup := by
    rw [(List.perm_orderedInsert (· ≤ ·) a l).nodup_iff, List.nodup_cons]
    exact ⟨hfresh, hl.imp ne_of_lt⟩
  have hle : (l.orderedInsert (· ≤ ·) a).Pairwise (· ≤ ·) := (hl.imp le_of_lt).orderedInsert a l
  exact hle.imp₂ (fun _ _ hle hne => lt_of_le_of_ne hle hne) hnodup

/-- `insert`: the set afterwards, and whether the element was new. -/
def insert (s : OrderedSet α) (a : α) : OrderedSet α × Bool :=
  if hmem : a ∈ s.elements then (s, false)
  else (⟨s.elements.orderedInsert (· ≤ ·) a, increasing_orderedInsert hmem s.increasing⟩, true)

/-- `erase` by key: the set afterwards, and how many elements were removed. -/
def erase (s : OrderedSet α) (a : α) : OrderedSet α × Nat :=
  (⟨s.elements.erase a, s.increasing.sublist List.erase_sublist⟩, if a ∈ s.elements then 1 else 0)

/-- Cut at `lower_bound(bound)`: what comes before, in order, and the set of what is left. -/
def cut (s : OrderedSet α) (bound : α) : List α × OrderedSet α :=
  (s.elements.takeWhile (· < bound),
    ⟨s.elements.dropWhile (· < bound), s.increasing.sublist (List.dropWhile_sublist _)⟩)

section Rules

variable {s : OrderedSet α} {a b : α}

theorem not_mem_empty (a : α) : a ∉ (empty : OrderedSet α) := List.not_mem_nil

theorem mem_insert : b ∈ (s.insert a).1 ↔ b = a ∨ b ∈ s := by
  unfold insert
  split
  · rename_i hmem
    constructor
    · exact .inr
    · rintro (rfl | h)
      · exact hmem
      · exact h
  · exact List.mem_orderedInsert _

theorem insert_fresh (hfresh : a ∉ s) :
    (s.insert a).2 = true ∧ (s.insert a).1.size = s.size + 1 := by
  rw [insert, dif_neg (show a ∉ s.elements from hfresh)]
  exact ⟨rfl, List.orderedInsert_length _ _ _⟩

theorem mem_erase : b ∈ (s.erase a).1 ↔ b ≠ a ∧ b ∈ s :=
  s.nodup.mem_erase_iff

theorem erase_mem (hmem : a ∈ s) : (s.erase a).2 = 1 ∧ (s.erase a).1.size + 1 = s.size := by
  refine ⟨if_pos hmem, ?_⟩
  have hpos : 0 < s.elements.length := List.length_pos_of_mem hmem
  show (s.elements.erase a).length + 1 = s.elements.length
  rw [List.length_erase_of_mem hmem]
  omega

theorem first_eq_none : s.first = none ↔ ∀ a, a ∉ s := by
  rw [first, List.head?_eq_none_iff, List.eq_nil_iff_forall_not_mem]
  rfl

theorem first_mem (hfirst : s.first = some a) : a ∈ s := List.mem_of_mem_head? hfirst

/-- The first element is the least one. -/
theorem first_le (hfirst : s.first = some a) (hmem : b ∈ s) : a ≤ b := by
  obtain ⟨elements, hincreasing⟩ := s
  cases elements with
  | nil => cases hfirst
  | cons c rest =>
      obtain rfl : c = a := Option.some.inj hfirst
      rcases List.mem_cons.mp hmem with rfl | hrest
      · exact le_rfl
      · exact le_of_lt ((List.pairwise_cons.mp hincreasing).1 b hrest)

theorem mem_takeWhile_lt {l : List α} (hl : l.Pairwise (· < ·)) {bound : α} :
    b ∈ l.takeWhile (· < bound) ↔ b ∈ l ∧ b < bound := by
  induction l with
  | nil => simp
  | cons c rest ih =>
      obtain ⟨hhead, htail⟩ := List.pairwise_cons.mp hl
      by_cases hc : c < bound
      · rw [List.takeWhile_cons_of_pos (by simpa using hc), List.mem_cons, List.mem_cons, ih htail]
        constructor
        · rintro (rfl | ⟨hmem, hlt⟩)
          · exact ⟨.inl rfl, hc⟩
          · exact ⟨.inr hmem, hlt⟩
        · rintro ⟨rfl | hmem, hlt⟩
          · exact .inl rfl
          · exact .inr ⟨hmem, hlt⟩
      · rw [List.takeWhile_cons_of_neg (by simpa using hc)]
        constructor
        · exact nofun
        · -- everything behind an element that is not below the bound is not below it either
          rintro ⟨hmem, hlt⟩
          rcases List.mem_cons.mp hmem with rfl | hrest
          · exact absurd hlt hc
          · exact absurd ((hhead b hrest).trans hlt) hc

theorem mem_cut_left {bound : α} : b ∈ (s.cut bound).1 ↔ b ∈ s ∧ b < bound :=
  mem_takeWhile_lt s.increasing

theorem cut_append (s : OrderedSet α) (bound : α) :
    (s.cut bound).1 ++ (s.cut bound).2.elements = s.elements :=
  List.takeWhile_append_dropWhile

theorem mem_cut_right {bound : α} : b ∈ (s.cut bound).2 ↔ b ∈ s ∧ bound ≤ b := by
  have hsplit : b ∈ s ↔ b ∈ (s.cut bound).1 ∨ b ∈ (s.cut bound).2 := by
    show b ∈ s.elements ↔ _
    rw [← s.cut_append bound, List.mem_append]
    rfl
  have hdisjoint : b ∈ (s.cut bound).1 → b ∉ (s.cut bound).2 := by
    have hnodup := s.nodup
    rw [← s.cut_append bound] at hnodup
    exact fun hleft hright => List.disjoint_of_nodup_append hnodup hleft hright
  constructor
  · intro hright
    refine ⟨hsplit.mpr (.inr hright), not_lt.mp fun hlt => ?_⟩
    exact hdisjoint (mem_cut_left.mpr ⟨hsplit.mpr (.inr hright), hlt⟩) hright
  · rintro ⟨hmem, hle⟩
    rcases hsplit.mp hmem with hleft | hright
    · exact absurd (mem_cut_left.mp hleft).2 (not_lt.mpr hle)
    · exact hright

theorem cut_size (s : OrderedSet α) (bound : α) :
    (s.cut bound).1.length + (s.cut bound).2.size = s.size := by
  rw [size, size, ← List.length_append, s.cut_append bound]

theorem cut_increasing (s : OrderedSet α) (bound : α) : (s.cut bound).1.Pairwise (· < ·) :=
  s.increasing.sublist (List.takeWhile_sublist _)

end Rules

end OrderedSet
