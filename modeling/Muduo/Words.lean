import Mathlib.Data.List.Basic
import Mathlib.Tactic.Common

/-! The words of a list: its longest nonempty parts without a separator, in the order in which they
occur. -/

namespace Words

variable {α : Type*} {sep : α}

/-- Induction from one separator to the next. -/
theorem induction_on (sep : α) {motive : List α → Prop} (hlast : ∀ l, sep ∉ l → motive l)
    (hstep : ∀ front rest, sep ∉ front → motive rest → motive (front ++ sep :: rest)) (l : List α) :
    motive l := by
  induction hlength : l.length using Nat.strongRecOn generalizing l with
  | _ length ih =>
      by_cases hsep : sep ∈ l
      · obtain ⟨front, rest, rfl, hfront⟩ := List.eq_append_cons_of_mem hsep
        rw [List.length_append, List.length_cons] at hlength
        exact hstep front rest hfront (ih rest.length (by omega) rest rfl)
      · exact hlast l hsep

section Words

variable [DecidableEq α]

variable (sep) in
/-- What is between the separators, where that is not empty. -/
def words (l : List α) : List (List α) := (l.splitOn sep).filter fun word => !word.isEmpty

theorem words_nil : words sep [] = [] := rfl

/-- A part without a separator, up to the first one. -/
theorem words_append {front : List α} (hfront : sep ∉ front) (rest : List α) :
    words sep (front ++ sep :: rest) = words sep front ++ words sep rest := by
  rw [words, List.splitOn_append_cons_self_of_not_mem hfront, words, words,
    List.splitOn_eq_singleton hfront, ← List.filter_append]
  rfl

theorem words_of_notMem {word : List α} (hword : sep ∉ word) (hne : word ≠ []) :
    words sep word = [word] := by
  rw [words, List.splitOn_eq_singleton hword]
  cases word with
  | nil => exact absurd rfl hne
  | cons a word => rfl

/-- A list without a separator is a word, if it is not empty. -/
theorem mem_words_of_notMem {l word : List α} (hsep : sep ∉ l) :
    word ∈ words sep l ↔ word = l ∧ l ≠ [] := by
  by_cases hnil : l = []
  · rw [hnil]
    exact iff_of_false List.not_mem_nil fun h => h.2 rfl
  · rw [words_of_notMem hsep hnil, List.mem_singleton]
    exact (and_iff_left hnil).symm

theorem mem_words {l word : List α} (hword : word ∈ words sep l) : word ≠ [] ∧ sep ∉ word := by
  induction l using induction_on sep with
  | hlast l hsep =>
      obtain ⟨rfl, hne⟩ := (mem_words_of_notMem hsep).mp hword
      exact ⟨hne, hsep⟩
  | hstep front rest hfront ih =>
      rw [words_append hfront, List.mem_append] at hword
      rcases hword with hword | hword
      · obtain ⟨rfl, hne⟩ := (mem_words_of_notMem hfront).mp hword
        exact ⟨hne, hfront⟩
      · exact ih hword

/-- Words that are joined by single separators are found again. -/
theorem words_intercalate {ws : List (List α)} (hws : ∀ word ∈ ws, word ≠ [] ∧ sep ∉ word) :
    words sep ([sep].intercalate ws) = ws := by
  by_cases hnil : ws = []
  · rw [hnil]
    rfl
  · rw [words, List.splitOn_intercalate sep (fun word hword => (hws word hword).2) hnil,
      List.filter_eq_self]
    intro word hword
    cases hcase : word with
    | nil => exact absurd hcase (hws word hword).1
    | cons a word => rfl

end Words

/-! ## Where the words are -/

variable (sep) in
/-- The places from `i` to before `j` are a longest part without a separator, and not an empty one. -/
structure IsWord (l : List α) (i j : Nat) : Prop where
  lt : i < j
  le : j ≤ l.length
  free : ∀ k, i ≤ k → k < j → l[k]? ≠ some sep
  left : i = 0 ∨ l[i - 1]? = some sep
  right : j = l.length ∨ l[j]? = some sep

/-- What stands there. -/
def part (l : List α) (place : Nat × Nat) : List α := (l.take place.2).drop place.1

theorem not_isWord_nil {i j : Nat} : ¬ IsWord sep [] i j := fun h => by
  have hlt := h.lt
  have hle := h.le
  rw [List.length_nil] at hle
  omega

/-- Without a separator there is one word at most. -/
theorem isWord_of_notMem {l : List α} (hsep : sep ∉ l) {i j : Nat} :
    IsWord sep l i j ↔ i = 0 ∧ j = l.length ∧ l ≠ [] := by
  have hfree : ∀ k, l[k]? ≠ some sep := fun k hk => hsep (List.mem_of_getElem? hk)
  constructor
  · intro h
    refine ⟨h.left.resolve_right (hfree _), h.right.resolve_right (hfree _), ?_⟩
    rintro rfl
    exact not_isWord_nil h
  · rintro ⟨rfl, rfl, hne⟩
    exact ⟨List.length_pos_iff.mpr hne, Nat.le_refl _, fun k _ _ => hfree k, .inl rfl, .inl rfl⟩

/-- The separators of a list whose first one is known. -/
theorem getElem?_first {front rest : List α} (hfront : sep ∉ front) {k : Nat} :
    (front ++ sep :: rest)[k]? = some sep ↔
      k = front.length ∨ front.length < k ∧ rest[k - (front.length + 1)]? = some sep := by
  rcases Nat.lt_trichotomy k front.length with hlt | rfl | hgt
  · rw [List.getElem?_append_left hlt]
    refine iff_of_false (fun hk => hfront (List.mem_of_getElem? hk)) ?_
    omega
  · rw [List.getElem?_append_right (Nat.le_refl _), Nat.sub_self]
    exact iff_of_true rfl (.inl rfl)
  · obtain ⟨d, rfl⟩ := Nat.exists_eq_add_of_lt hgt
    have hplace : front.length + d + 1 - front.length = d + 1 := by omega
    have hrest : front.length + d + 1 - (front.length + 1) = d := by omega
    rw [List.getElem?_append_right (by omega), hplace, hrest, List.getElem?_cons_succ]
    constructor
    · exact fun hk => .inr ⟨by omega, hk⟩
    · rintro (heq | ⟨-, hk⟩)
      · omega
      · exact hk

/-- Behind the first separator the words are those of the rest. -/
theorem isWord_append {front rest : List α} (hfront : sep ∉ front) {i j : Nat} :
    IsWord sep (front ++ sep :: rest) i j ↔
      IsWord sep front i j ∨
        ∃ i' j', i = i' + (front.length + 1) ∧ j = j' + (front.length + 1) ∧ IsWord sep rest i' j' := by
  rw [isWord_of_notMem hfront]
  have hlength : (front ++ sep :: rest).length = front.length + 1 + rest.length := by
    rw [List.length_append, List.length_cons]
    omega
  constructor
  · rintro ⟨hlt, hle, hfree, hleft, hright⟩
    rw [getElem?_first hfront] at hleft hright
    by_cases hearly : j ≤ front.length
    · left
      refine ⟨by omega, by omega, ?_⟩
      rintro rfl
      rw [List.length_nil] at hearly
      omega
    · right
      have hbehind : front.length < i := by
        by_contra hnot
        exact hfree front.length (by omega) (by omega) ((getElem?_first hfront).mpr (.inl rfl))
      obtain ⟨i', rfl⟩ := Nat.exists_eq_add_of_le' hbehind
      obtain ⟨j', rfl⟩ := Nat.exists_eq_add_of_le' (show front.length + 1 ≤ j by omega)
      refine ⟨i', j', rfl, rfl, by omega, by omega, fun k hik hkj hk => ?_, ?_, ?_⟩
      · refine hfree (k + (front.length + 1)) (by omega) (by omega) ((getElem?_first hfront).mpr (.inr ?_))
        rw [Nat.add_sub_cancel]
        exact ⟨by omega, hk⟩
      · rcases hleft with hzero | hfirst | ⟨-, hbefore⟩
        · omega
        · left
          omega
        · right
          rwa [show i' + (front.length + 1) - 1 - (front.length + 1) = i' - 1 by omega] at hbefore
      · rcases hright with hend | hfirst | ⟨-, hbehind⟩
        · left
          omega
        · omega
        · right
          rwa [Nat.add_sub_cancel] at hbehind
  · rintro (⟨rfl, rfl, hne⟩ | ⟨i', j', rfl, rfl, hlt, hle, hfree, hleft, hright⟩)
    · refine ⟨List.length_pos_iff.mpr hne, by omega, fun k _ hk => ?_, .inl rfl,
        .inr ((getElem?_first hfront).mpr (.inl rfl))⟩
      rw [Ne, getElem?_first hfront]
      omega
    · refine ⟨by omega, by omega, fun k hik hkj hk => ?_, .inr ((getElem?_first hfront).mpr ?_), ?_⟩
      · rcases (getElem?_first hfront).mp hk with rfl | ⟨-, hrest⟩
        · omega
        · exact hfree _ (by omega) (by omega) hrest
      · rcases hleft with rfl | hbefore
        · left
          omega
        · by_cases hzero : i' = 0
          · left
            omega
          · right
            rw [show i' + (front.length + 1) - 1 - (front.length + 1) = i' - 1 by omega]
            exact ⟨by omega, hbefore⟩
      · rcases hright with rfl | hbehind
        · left
          omega
        · right
          rw [getElem?_first hfront, Nat.add_sub_cancel]
          exact .inr ⟨by omega, hbehind⟩

theorem part_append_right (front rest : List α) (place : Nat × Nat) :
    part (front ++ sep :: rest) (place.1 + (front.length + 1), place.2 + (front.length + 1)) =
      part rest place := by
  rw [part, part, List.append_cons, List.take_append, List.drop_append]
  simp only [List.length_append, List.length_singleton, List.length_take, Nat.add_sub_cancel]
  rw [List.drop_eq_nil_of_le, List.nil_append]
  · congr 1
    omega
  · rw [List.length_take, List.length_append, List.length_singleton]
    omega

theorem part_append_left {front : List α} (back : List α) {place : Nat × Nat}
    (hplace : place.2 ≤ front.length) : part (front ++ back) place = part front place := by
  rw [part, part, List.take_append_of_le_length hplace]

variable [DecidableEq α]

variable (sep) in
/-- The places are those of the words, from left to right. -/
structure Places (l : List α) (places : List (Nat × Nat)) : Prop where
  ordered : places.Pairwise fun a b => a.2 < b.1
  isWord : ∀ i j, (i, j) ∈ places ↔ IsWord sep l i j
  words_eq : words sep l = places.map (part l)

theorem places_of_notMem {l : List α} (hsep : sep ∉ l) :
    Places sep l (if l = [] then [] else [(0, l.length)]) := by
  split_ifs with hnil
  · refine ⟨List.Pairwise.nil, fun i j => ?_, by rw [hnil]; rfl⟩
    rw [hnil]
    exact iff_of_false List.not_mem_nil not_isWord_nil
  · refine ⟨List.pairwise_singleton _ _, fun i j => ?_, ?_⟩
    · rw [isWord_of_notMem hsep, List.mem_singleton, Prod.mk.injEq]
      exact ⟨fun h => ⟨h.1, h.2, hnil⟩, fun h => ⟨h.1, h.2.1⟩⟩
    · rw [words_of_notMem hsep hnil, List.map_singleton, part, List.take_length, List.drop_zero]

theorem Places.append {front rest : List α} {places others : List (Nat × Nat)} (hsep : sep ∉ front)
    (hfront : Places sep front places) (hrest : Places sep rest others) :
    Places sep (front ++ sep :: rest)
      (places ++ others.map fun p => (p.1 + (front.length + 1), p.2 + (front.length + 1))) := by
  refine ⟨List.pairwise_append.mpr ⟨hfront.ordered, ?_, fun p hp q hq => ?_⟩, fun i j => ?_, ?_⟩
  · rw [List.pairwise_map]
    exact hrest.ordered.imp fun hlt => Nat.add_lt_add_right hlt _
  · -- a word of the front ends before the separator
    obtain ⟨q, -, rfl⟩ := List.mem_map.mp hq
    have hle := ((hfront.isWord p.1 p.2).mp hp).le
    show p.2 < q.1 + (front.length + 1)
    omega
  · rw [isWord_append hsep, List.mem_append, hfront.isWord, List.mem_map]
    refine or_congr_right ⟨?_, ?_⟩
    · rintro ⟨p, hp, heq⟩
      obtain ⟨rfl, rfl⟩ := Prod.mk.inj heq
      exact ⟨p.1, p.2, rfl, rfl, (hrest.isWord p.1 p.2).mp hp⟩
    · rintro ⟨i', j', rfl, rfl, hword⟩
      exact ⟨(i', j'), (hrest.isWord i' j').mpr hword, rfl⟩
  · rw [words_append hsep, hfront.words_eq, hrest.words_eq, List.map_append, List.map_map]
    congr 1
    · refine List.map_congr_left fun p hp => (part_append_left _ ?_).symm
      exact ((hfront.isWord p.1 p.2).mp hp).le
    · exact List.map_congr_left fun p _ => (part_append_right front rest p).symm

/-- **The words of a list** are its longest nonempty parts without a separator, from left to right. -/
theorem exists_places (sep : α) (l : List α) : ∃ places, Places sep l places := by
  induction l using induction_on sep with
  | hlast l hsep => exact ⟨_, places_of_notMem hsep⟩
  | hstep front rest hfront ih =>
      obtain ⟨others, hothers⟩ := ih
      exact ⟨_, (places_of_notMem hfront).append hfront hothers⟩

end Words
