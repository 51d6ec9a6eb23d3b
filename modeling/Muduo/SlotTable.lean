import Mathlib.Data.List.Basic
import Mathlib.Logic.Function.Basic
import Mathlib.Tactic.Common

/-! A table of entries in a list, one for each of a set of keys, where every key knows the position of
its entry. An entry is removed by putting the last one into its place, after which the key of the last
entry has to be told. What an entry says about its key is left open; it must only tell the keys
apart. -/

namespace SlotTable

variable {κ α : Type*}

/-- The entry of every key stands at the key's position, and every position belongs to a key. -/
structure Represents (owns : κ → α → Prop) (member : κ → Prop) (index : κ → Nat) (slots : List α) :
    Prop where
  slot : ∀ key, member key → ∃ entry, slots[index key]? = some entry ∧ owns key entry
  onto : ∀ i, i < slots.length → ∃ key, member key ∧ index key = i

/-- The last entry is put in place of the removed one. -/
def swapRemove (slots : List α) (i : Nat) : List α :=
  match slots.getLast? with
  | some last => (slots.set i last).dropLast
  | none => slots

theorem getElem?_swapRemove {slots : List α} {i : Nat} (hi : i < slots.length) (j : Nat) :
    (swapRemove slots i)[j]? =
      if j + 1 < slots.length then if j = i then slots.getLast? else slots[j]? else none := by
  obtain ⟨last, hlast⟩ : ∃ last, slots.getLast? = some last := by
    cases hlast : slots.getLast? with
    | none => simp [List.getLast?_eq_none_iff.mp hlast] at hi
    | some last => exact ⟨last, rfl⟩
  simp only [swapRemove, hlast]
  by_cases hj : j + 1 < slots.length
  · have hlt : j < (slots.set i last).length - 1 := by
      rw [List.length_set]
      omega
    rw [if_pos hj, List.getElem?_dropLast, if_pos hlt, List.getElem?_set]
    by_cases heq : i = j
    · rw [if_pos heq, if_pos hi, if_pos heq.symm]
    · rw [if_neg heq, if_neg (Ne.symm heq)]
  · have hnot : ¬ j < (slots.set i last).length - 1 := by
      rw [List.length_set]
      omega
    rw [if_neg hj, List.getElem?_dropLast, if_neg hnot]

theorem length_swapRemove {slots : List α} {i : Nat} (hi : i < slots.length) :
    (swapRemove slots i).length = slots.length - 1 := by
  unfold swapRemove
  split
  · rw [List.length_dropLast, List.length_set]
  · rename_i hnone
    simp [List.getLast?_eq_none_iff.mp hnone] at hi

/-- Nothing has to move when the last entry is removed. -/
theorem swapRemove_last {slots : List α} {i : Nat} (hi : i + 1 = slots.length) :
    swapRemove slots i = slots.dropLast := by
  apply List.ext_getElem?
  intro j
  rw [getElem?_swapRemove (by omega), List.getElem?_dropLast]
  by_cases hj : j + 1 < slots.length
  · rw [if_pos hj, if_neg (by omega), if_pos (by omega)]
  · rw [if_neg hj, if_neg (by omega)]

/-- The last two entries of a swap fall away. -/
theorem dropLast_swap {slots : List α} {i : Nat} {last : α} (hi : i + 1 < slots.length)
    (hlast : slots.getLast? = some last) (removed : α) :
    ((slots.set i last).set (slots.length - 1) removed).dropLast = swapRemove slots i := by
  apply List.ext_getElem?
  intro j
  rw [getElem?_swapRemove (by omega), List.getElem?_dropLast, List.length_set, List.length_set]
  by_cases hj : j + 1 < slots.length
  · rw [if_pos (by omega), if_pos hj, List.getElem?_set_ne (by omega), List.getElem?_set]
    by_cases heq : i = j
    · rw [if_pos heq, if_pos (by omega), if_pos heq.symm, hlast]
    · rw [if_neg heq, if_neg (Ne.symm heq)]
  · rw [if_neg hj, if_neg (by omega)]

namespace Represents

variable {owns : κ → α → Prop} {member : κ → Prop} {index : κ → Nat} {slots : List α}

theorem index_lt (h : Represents owns member index slots) {key : κ} (hmember : member key) :
    index key < slots.length := by
  obtain ⟨entry, hentry, -⟩ := h.slot key hmember
  exact (List.getElem?_eq_some_iff.mp hentry).1

theorem congr (h : Represents owns member index slots) {member' : κ → Prop} {index' : κ → Nat}
    (hmember : ∀ key, member' key ↔ member key)
    (hindex : ∀ key, member key → index' key = index key) : Represents owns member' index' slots where
  slot key hkey := by
    rw [hindex key ((hmember key).mp hkey)]
    exact h.slot key ((hmember key).mp hkey)
  onto i hi := by
    obtain ⟨key, hkey, hkeyIndex⟩ := h.onto i hi
    exact ⟨key, (hmember key).mpr hkey, (hindex key hkey).trans hkeyIndex⟩

section Unique

variable (hunique : ∀ key other entry, owns key entry → owns other entry → key = other)

include hunique

/-- No two keys share a position. -/
theorem index_inj (h : Represents owns member index slots) {key other : κ} (hkey : member key)
    (hother : member other) (hindex : index key = index other) : key = other := by
  obtain ⟨entry, hentry, howns⟩ := h.slot key hkey
  obtain ⟨entry', hentry', howns'⟩ := h.slot other hother
  rw [hindex] at hentry
  obtain rfl := Option.some.inj (hentry.symm.trans hentry')
  exact hunique key other entry howns howns'

end Unique

variable [DecidableEq κ]

/-- A new key takes the position at the end. -/
theorem push (h : Represents owns member index slots) {key : κ} (hnew : ¬ member key) {entry : α}
    (howns : owns key entry) :
    Represents owns (fun other => other = key ∨ member other)
      (Function.update index key slots.length) (slots ++ [entry]) where
  slot other hother := by
    by_cases heq : other = key
    · subst heq
      exact ⟨entry, by simp, howns⟩
    · have hmember := hother.resolve_left heq
      obtain ⟨found, hfound, hfoundOwns⟩ := h.slot other hmember
      refine ⟨found, ?_, hfoundOwns⟩
      rw [Function.update_of_ne heq, List.getElem?_append_left (h.index_lt hmember), hfound]
  onto i hi := by
    rw [List.length_append, List.length_singleton] at hi
    by_cases hlast : i = slots.length
    · exact ⟨key, .inl rfl, by simp [hlast]⟩
    · obtain ⟨other, hother, hindex⟩ := h.onto i (by omega)
      have hne : other ≠ key := fun heq => hnew (heq ▸ hother)
      exact ⟨other, .inr hother, by rw [Function.update_of_ne hne, hindex]⟩

/-- An entry is replaced by another one of the same key. -/
theorem set (h : Represents owns member index slots)
    (hunique : ∀ key other entry, owns key entry → owns other entry → key = other) {key : κ}
    (hkey : member key) {entry : α} (howns : owns key entry) :
    Represents owns member index (slots.set (index key) entry) where
  slot other hother := by
    by_cases heq : other = key
    · subst heq
      refine ⟨entry, ?_, howns⟩
      rw [List.getElem?_set_self (h.index_lt hkey)]
    · have hne : index key ≠ index other := fun hindex => heq (h.index_inj hunique hkey hother hindex).symm
      rw [List.getElem?_set_ne hne]
      exact h.slot other hother
  onto i hi := h.onto i (by simpa using hi)

/-- The last entry moves, and its key is told. No entry changes. -/
theorem getElem?_move (h : Represents owns member index slots)
    (hunique : ∀ key other entry, owns key entry → owns other entry → key = other) {key last : κ}
    (hkey : member key) (hlast : member last) (hend : index last + 1 = slots.length) {other : κ}
    (hother : member other) (hne : other ≠ key) :
    (swapRemove slots (index key))[Function.update index last (index key) other]? =
      slots[index other]? := by
  rw [getElem?_swapRemove (h.index_lt hkey)]
  have hlt := h.index_lt hkey
  by_cases heq : other = last
  · subst heq
    have hpos : index key ≠ index other := fun hindex => hne (h.index_inj hunique hkey hother hindex).symm
    rw [Function.update_self, if_pos (by omega), if_pos rfl, List.getLast?_eq_getElem?]
    congr 1
    omega
  · have hkeyPos : index other ≠ index key := fun hindex => hne (h.index_inj hunique hother hkey hindex)
    have hlastPos : index other ≠ index last := fun hindex => heq (h.index_inj hunique hother hlast hindex)
    have hotherLt := h.index_lt hother
    rw [Function.update_of_ne heq, if_pos (by omega), if_neg hkeyPos]

theorem swapRemove (h : Represents owns member index slots)
    (hunique : ∀ key other entry, owns key entry → owns other entry → key = other) {key last : κ}
    (hkey : member key) (hlast : member last) (hend : index last + 1 = slots.length) :
    Represents owns (fun other => other ≠ key ∧ member other)
      (Function.update index last (index key)) (swapRemove slots (index key)) where
  slot other hother := by
    rw [h.getElem?_move hunique hkey hlast hend hother.2 hother.1]
    exact h.slot other hother.2
  onto i hi := by
    rw [length_swapRemove (h.index_lt hkey)] at hi
    by_cases hplace : i = index key
    · -- The position of the removed key belongs to the last one now.
      refine ⟨last, ⟨?_, hlast⟩, by rw [Function.update_self, hplace]⟩
      rintro rfl
      omega
    · obtain ⟨other, hother, hindex⟩ := h.onto i (by omega)
      have hne : other ≠ key := by
        rintro rfl
        exact hplace hindex.symm
      have hneLast : other ≠ last := by
        rintro rfl
        omega
      exact ⟨other, ⟨hne, hother⟩, by rw [Function.update_of_ne hneLast, hindex]⟩

end Represents
end SlotTable
