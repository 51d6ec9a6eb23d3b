import Muduo.Buffer
import Muduo.Words

/-! `split` of `muduo::net::Inspector`, which takes the path of a request apart. The scan keeps two
positions: where the current component starts, and where the next slash is. -/

namespace Muduo
namespace Inspector

open Words

/-- The byte `/`. -/
def slash : UInt8 := 47

/-- `str.find('/', pos)`, without a result for `npos`. -/
def find (str : Bytes) (pos : Nat) : Option Nat := ((str.drop pos).findIdx? (· == slash)).map (pos + ·)

/-- `str.substr(pos, n)`. -/
def substr (str : Bytes) (pos n : Nat) : Bytes := (str.drop pos).take n

/-- The loop of `split` for a number of turns at most, and the tail behind the loop. -/
def splitLoop (str : Bytes) : Nat → Nat → Option Nat → List Bytes → Option (List Bytes)
  | _, start, none, result =>
      some (if start < str.length then result ++ [str.drop start] else result)
  | 0, _, some _, _ => none
  | turns + 1, start, some pos, result =>
      splitLoop str turns (pos + 1) (find str (pos + 1))
        (if start < pos then result ++ [substr str start (pos - start)] else result)

/-- `split`, if a number of turns suffices. -/
def split (turns : Nat) (str : Bytes) : Option (List Bytes) := splitLoop str turns 0 (find str 0) []

theorem find_none {front rest : Bytes} (hrest : slash ∉ rest) :
    find (front ++ rest) front.length = none := by
  rw [find, List.drop_left, Option.map_eq_none_iff, List.findIdx?_eq_none_iff]
  intro c hc
  exact beq_eq_false_iff_ne.mpr fun heq => hrest (heq ▸ hc)

theorem find_some {front word rest : Bytes} (hword : slash ∉ word) :
    find (front ++ (word ++ slash :: rest)) front.length = some (front.length + word.length) := by
  have hfirst : (word ++ slash :: rest).findIdx? (· == slash) = some word.length := by
    rw [List.findIdx?_append, List.findIdx?_eq_none_iff.mpr, List.findIdx?_cons]
    · simp
    · intro c hc
      exact beq_eq_false_iff_ne.mpr fun heq => hword (heq ▸ hc)
  rw [find, List.drop_left, hfirst]
  rfl

/-- From a start on, the loop adds the words of the rest. It takes a turn for each slash. -/
theorem splitLoop_eq (rest front : Bytes) (result : List Bytes) {turns : Nat}
    (hturns : rest.count slash ≤ turns) :
    splitLoop (front ++ rest) turns front.length (find (front ++ rest) front.length) result =
      some (result ++ words slash rest) := by
  induction rest using induction_on slash generalizing front result turns with
  | hlast rest hrest =>
      rw [find_none hrest, splitLoop, List.drop_left, List.length_append]
      by_cases hnil : rest = []
      · rw [hnil, List.length_nil, Nat.add_zero, if_neg (Nat.lt_irrefl _), words_nil, List.append_nil]
      · rw [if_pos (Nat.lt_add_of_pos_right (List.length_pos_iff.mpr hnil)), words_of_notMem hrest hnil]
  | hstep word rest hword ih =>
      rw [List.count_append, List.count_cons_self] at hturns
      obtain ⟨turns, rfl⟩ := Nat.exists_eq_add_of_le' (show 1 ≤ turns by omega)
      -- the rest begins behind the slash
      have hsplit : front ++ (word ++ slash :: rest) = (front ++ word ++ [slash]) ++ rest := by
        simp only [List.append_assoc, List.singleton_append]
      have hstart : front.length + word.length + 1 = (front ++ word ++ [slash]).length := by
        simp only [List.length_append, List.length_singleton]
      have hsubstr : substr (front ++ (word ++ slash :: rest)) front.length
          (front.length + word.length - front.length) = word := by
        rw [substr, List.drop_left, Nat.add_sub_cancel_left, List.take_left]
      rw [find_some hword, splitLoop, hsubstr, hstart, hsplit, ih _ _ (by omega), words_append hword]
      by_cases hnil : word = []
      · rw [hnil, if_neg (by simp), words_nil, List.nil_append]
      · rw [if_pos (Nat.lt_add_of_pos_right (List.length_pos_iff.mpr hnil)), words_of_notMem hword hnil,
          List.append_assoc]

theorem split_eq (str : Bytes) {turns : Nat} (hturns : str.count slash ≤ turns) :
    split turns str = some (words slash str) := splitLoop_eq str [] [] hturns

/-- **Components of a path.** For every string the loop ends after a turn for each slash. The result is what
stands at the places of the longest nonempty parts without a slash, from left to right. Joined by single
slashes the components are split into the same list again. -/
theorem split_components (str : Bytes) :
    ∃ parts, (∀ turns, str.count slash ≤ turns → split turns str = some parts) ∧
      (∃ places : List (Nat × Nat), places.Pairwise (fun a b => a.2 < b.1) ∧
        (∀ i j, (i, j) ∈ places ↔ IsWord slash str i j) ∧ parts = places.map (part str)) ∧
      ∀ turns, ([slash].intercalate parts).count slash ≤ turns →
        split turns ([slash].intercalate parts) = some parts := by
  refine ⟨words slash str, fun turns => split_eq str, ?_, fun turns hturns => ?_⟩
  · obtain ⟨places, hordered, hwords, hparts⟩ := exists_places slash str
    exact ⟨places, hordered, hwords, hparts⟩
  · rw [split_eq _ hturns, words_intercalate fun word => mem_words]

example : split 6 (ascii "//proc/status//x/") = some [ascii "proc", ascii "status", ascii "x"] := by
  decide +kernel

end Inspector
end Muduo
