import Mathlib.Data.List.Basic
import Mathlib.Data.List.Flatten
import Mathlib.Tactic.Common

/-! Items that are packed into containers one after another: each item lies in one container as a whole,
and the containers hold nothing else. -/

namespace Packing

variable {α : Type*}

/-- The containers hold the items: a group of consecutive items lies in each container. -/
def Packed (containers items : List (List α)) : Prop :=
  ∃ groups : List (List (List α)), groups.map List.flatten = containers ∧ groups.flatten = items

variable {containers items : List (List α)}

theorem packed_one : Packed [[]] ([] : List (List α)) := ⟨[[]], rfl, rfl⟩

theorem Packed.flatten_eq (hpacked : Packed containers items) :
    containers.flatten = items.flatten := by
  obtain ⟨groups, rfl, rfl⟩ := hpacked
  exact List.flatten_flatten.symm

/-- One more container, which is empty. -/
theorem Packed.provide (hpacked : Packed containers items) : Packed (containers ++ [[]]) items := by
  obtain ⟨groups, rfl, rfl⟩ := hpacked
  exact ⟨groups ++ [[]], by simp, by simp⟩

/-- One more item, in the last container. -/
theorem Packed.put {content : List α} (hpacked : Packed (containers ++ [content]) items)
    (item : List α) : Packed (containers ++ [content ++ item]) (items ++ [item]) := by
  obtain ⟨groups, hgroups, rfl⟩ := hpacked
  obtain ⟨front, back, rfl, rfl, hback⟩ := List.map_eq_append_iff.mp hgroups
  obtain ⟨last, rfl, rfl⟩ := List.map_eq_singleton_iff.mp hback
  exact ⟨front ++ [last ++ [item]], by simp, by simp⟩

/-- Containers that are packed into larger ones. -/
theorem Packed.trans {outer : List (List α)} (houter : Packed outer containers)
    (hinner : Packed containers items) : Packed outer items := by
  obtain ⟨batches, rfl, rfl⟩ := houter
  obtain ⟨groups, hgroups, rfl⟩ := hinner
  induction batches generalizing groups with
  | nil =>
      obtain rfl := List.map_eq_nil_iff.mp hgroups
      exact ⟨[], rfl, rfl⟩
  | cons batch batches ih =>
      rw [List.flatten_cons] at hgroups
      obtain ⟨front, back, rfl, hfront, hback⟩ := List.map_eq_append_iff.mp hgroups
      obtain ⟨rest, hrest, hitems⟩ := ih back hback
      refine ⟨front.flatten :: rest, ?_, ?_⟩
      · rw [List.map_cons, List.map_cons, hrest, ← hfront, List.flatten_flatten]
      · rw [List.flatten_cons, hitems, List.flatten_append]

theorem Packed.append {others rest : List (List α)} (hfront : Packed containers items)
    (hback : Packed others rest) : Packed (containers ++ others) (items ++ rest) := by
  obtain ⟨front, rfl, rfl⟩ := hfront
  obtain ⟨back, rfl, rfl⟩ := hback
  exact ⟨front ++ back, List.map_append, List.flatten_append⟩

/-- Items of which each has a container for itself. -/
theorem packed_self (items : List (List α)) : Packed items items := by
  refine ⟨items.map fun item => [item], ?_, ?_⟩
  · rw [List.map_map]
    simp [Function.comp_def]
  · induction items with
    | nil => rfl
    | cons item items ih => rw [List.map_cons, List.flatten_cons, ih, List.singleton_append]

/-- Some of the containers hold some of the items, in the same order. -/
theorem Packed.sublist {fewer : List (List α)} (hpacked : Packed containers items)
    (hfewer : fewer.Sublist containers) : ∃ remaining, remaining.Sublist items ∧ Packed fewer remaining := by
  obtain ⟨groups, rfl, rfl⟩ := hpacked
  obtain ⟨kept, hkept, rfl⟩ := List.sublist_map_iff.mp hfewer
  exact ⟨kept.flatten, hkept.flatten, kept, rfl, rfl⟩

end Packing
