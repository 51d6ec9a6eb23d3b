import Mathlib.Data.List.Basic
import Mathlib.Tactic.Common
import Muduo.Framing

/-! Searching a list for a symbol, and for a pair of symbols that ends a line. What has been found stays
where it is when the list gets longer, so that lines are frames. -/

namespace Lines

variable {α : Type*} {a b : α}

theorem pair_infix_cons {x y : α} {rest : List α} :
    [a, b] <:+: x :: y :: rest ↔ (x = a ∧ y = b) ∨ [a, b] <:+: y :: rest := by
  rw [List.infix_cons_iff, List.cons_prefix_cons, List.cons_prefix_cons]
  simp only [List.nil_prefix, and_true]
  exact or_congr_left ⟨fun h => ⟨h.1.symm, h.2.symm⟩, fun h => ⟨h.1.symm, h.2.symm⟩⟩

theorem drop_line (line rest : List α) : (line ++ a :: b :: rest).drop (line.length + 2) = rest := by
  rw [List.drop_append, List.drop_of_length_le (by omega), Nat.add_sub_cancel_left]
  rfl

variable [DecidableEq α]

/-! ## One symbol -/

/-- What stands before the first occurrence of the symbol, and what stands behind it. -/
def cut (c : α) : List α → Option (List α × List α)
  | [] => none
  | x :: rest => if x = c then some ([], rest) else (cut c rest).map fun parts => (x :: parts.1, parts.2)

theorem cut_eq_some {c : α} {list front back : List α} :
    cut c list = some (front, back) ↔ list = front ++ c :: back ∧ c ∉ front := by
  induction list generalizing front with
  | nil => simp [cut]
  | cons x rest ih =>
      rw [cut]
      by_cases hx : x = c
      · subst hx
        rw [if_pos rfl, Option.some.injEq, Prod.mk.injEq]
        constructor
        · rintro ⟨rfl, rfl⟩
          exact ⟨rfl, List.not_mem_nil⟩
        · rintro ⟨hlist, hfront⟩
          cases front with
          | nil => exact ⟨rfl, (List.cons.inj hlist).2⟩
          | cons y front =>
              rw [List.cons_append, List.cons.injEq] at hlist
              exact absurd (hlist.1 ▸ List.mem_cons_self) hfront
      · rw [if_neg hx, Option.map_eq_some_iff]
        constructor
        · rintro ⟨⟨front', back'⟩, hcut, hparts⟩
          rw [Prod.mk.injEq] at hparts
          obtain ⟨rfl, rfl⟩ := hparts
          obtain ⟨rfl, hfront⟩ := ih.mp hcut
          refine ⟨rfl, ?_⟩
          rw [List.mem_cons, not_or]
          exact ⟨Ne.symm hx, hfront⟩
        · rintro ⟨hlist, hfront⟩
          cases front with
          | nil => exact absurd (List.cons.inj hlist).1 hx
          | cons y front =>
              rw [List.cons_append, List.cons.injEq] at hlist
              rw [List.mem_cons, not_or] at hfront
              exact ⟨(front, back), ih.mpr ⟨hlist.2, hfront.2⟩, by rw [hlist.1]⟩

theorem cut_eq_none {c : α} {list : List α} : cut c list = none ↔ c ∉ list := by
  induction list with
  | nil => simp [cut]
  | cons x rest ih =>
      rw [cut, List.mem_cons, not_or]
      by_cases hx : x = c
      · simp [hx]
      · rw [if_neg hx, Option.map_eq_none_iff, ih]
        exact ⟨fun hrest => ⟨Ne.symm hx, hrest⟩, fun hboth => hboth.2⟩

theorem cut_append {c : α} {front : List α} (hfront : c ∉ front) (back : List α) :
    cut c (front ++ c :: back) = some (front, back) := cut_eq_some.mpr ⟨rfl, hfront⟩

/-- Cutting splits the list in front of the symbol. -/
theorem cut_split (c : α) (list : List α) :
    list.takeWhile (· ≠ c) = ((cut c list).map Prod.fst).getD list ∧
      list.dropWhile (· ≠ c) = ((cut c list).map fun parts => c :: parts.2).getD [] := by
  induction list with
  | nil => exact ⟨rfl, rfl⟩
  | cons x rest ih =>
      rw [cut]
      by_cases hx : x = c
      · simp [hx]
      · rw [if_neg hx, List.takeWhile_cons_of_pos (by simpa using hx),
          List.dropWhile_cons_of_pos (by simpa using hx), ih.1, ih.2]
        cases cut c rest <;> exact ⟨rfl, rfl⟩

/-! ## A pair of symbols -/

/-- The position of the first occurrence of the pair. -/
def find (a b : α) : List α → Option Nat
  | x :: y :: rest => if x = a ∧ y = b then some 0 else (find a b (y :: rest)).map (· + 1)
  | _ => none

/-- The end of a line is found behind a line that does not contain it. -/
theorem find_line (hne : a ≠ b) {line : List α} (hline : ¬ [a, b] <:+: line) (rest : List α) :
    find a b (line ++ a :: b :: rest) = some line.length := by
  induction line with
  | nil => simp [find]
  | cons x line ih =>
      cases line with
      | nil =>
          rw [List.cons_append, List.nil_append, find, if_neg (fun h => hne h.2)]
          simp [find]
      | cons y line =>
          rw [pair_infix_cons, not_or] at hline
          rw [List.cons_append, List.cons_append, find, if_neg hline.1, ← List.cons_append,
            ih hline.2]
          rfl

/-- What is found is the end of a line that does not contain it. -/
theorem find_eq_some {list : List α} {n : Nat} (hfind : find a b list = some n) :
    ∃ line rest, list = line ++ a :: b :: rest ∧ line.length = n ∧ ¬ [a, b] <:+: line := by
  induction list generalizing n with
  | nil => cases hfind
  | cons x list ih =>
      cases list with
      | nil => cases hfind
      | cons y rest =>
          rw [find] at hfind
          by_cases hpair : x = a ∧ y = b
          · rw [if_pos hpair, Option.some.injEq] at hfind
            obtain ⟨rfl, rfl⟩ := hpair
            exact ⟨[], rest, rfl, hfind, by simp⟩
          · rw [if_neg hpair, Option.map_eq_some_iff] at hfind
            obtain ⟨m, hm, rfl⟩ := hfind
            obtain ⟨line, later, hlist, rfl, hline⟩ := ih hm
            refine ⟨x :: line, later, by rw [List.cons_append, hlist], rfl, ?_⟩
            cases line with
            | nil => simp [List.infix_cons_iff]
            | cons z line =>
                rw [List.cons_append, List.cons.injEq] at hlist
                rw [pair_infix_cons, not_or, ← hlist.1]
                exact ⟨hpair, hlist.1 ▸ hline⟩

theorem find_eq_none {list : List α} : find a b list = none ↔ ¬ [a, b] <:+: list := by
  induction list with
  | nil => simp [find]
  | cons x list ih =>
      cases list with
      | nil => simp [find, List.infix_cons_iff]
      | cons y rest =>
          rw [find, pair_infix_cons, not_or]
          by_cases hpair : x = a ∧ y = b
          · simp [hpair]
          · rw [if_neg hpair, Option.map_eq_none_iff, ih]
            exact ⟨fun h => ⟨hpair, h⟩, fun h => h.2⟩

/-- The first line of a list, without its end. -/
def look (a b : α) (list : List α) : Framing.Outcome (List α) Empty :=
  match find a b list with
  | some n => .frame (list.take n) (n + 2)
  | none => .more

theorem look_line (hne : a ≠ b) {line : List α} (hline : ¬ [a, b] <:+: line) (rest : List α) :
    look a b (line ++ a :: b :: rest) = .frame line (line.length + 2) := by
  rw [look, find_line hne hline]
  simp only [List.take_left]

theorem look_eq_frame {list line : List α} {length : Nat}
    (hlook : look a b list = .frame line length) :
    ∃ rest, list = line ++ a :: b :: rest ∧ length = line.length + 2 ∧ ¬ [a, b] <:+: line := by
  rw [look] at hlook
  cases hfind : find a b list with
  | none => rw [hfind] at hlook; cases hlook
  | some n =>
      obtain ⟨line', rest, rfl, rfl, hline⟩ := find_eq_some hfind
      rw [hfind] at hlook
      simp only [List.take_left, Framing.Outcome.frame.injEq] at hlook
      obtain ⟨rfl, rfl⟩ := hlook
      exact ⟨rest, rfl, rfl, hline⟩

theorem look_eq_more {list : List α} : look a b list = .more ↔ ¬ [a, b] <:+: list := by
  rw [look, ← find_eq_none]
  cases find a b list with
  | none => simp
  | some n => simp

/-- Lines are frames: their end is not part of them. -/
def decoder (hne : a ≠ b) : Framing.Decoder α (List α) Empty where
  look := look a b
  look_nil := rfl
  frame_length hlook := by
    obtain ⟨rest, rfl, rfl, -⟩ := look_eq_frame hlook
    simp
  frame_take hlook := by
    obtain ⟨rest, rfl, rfl, hline⟩ := look_eq_frame hlook
    rw [List.take_append, List.take_of_length_le (by omega), Nat.add_sub_cancel_left]
    exact look_line hne hline []
  frame_append later hlook := by
    obtain ⟨rest, rfl, rfl, hline⟩ := look_eq_frame hlook
    rw [List.append_assoc]
    exact look_line hne hline (rest ++ later)
  reject_append _ hlook := Empty.elim ‹Empty›

theorem isFrame_line (hne : a ≠ b) {line : List α} (hline : ¬ [a, b] <:+: line) :
    (decoder hne).IsFrame (line ++ [a, b]) line := by
  have hlook := look_line hne hline []
  rw [Framing.Decoder.IsFrame, List.length_append]
  exact hlook

end Lines
