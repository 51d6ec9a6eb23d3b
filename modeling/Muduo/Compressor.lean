import Mathlib.Data.List.Basic
import Mathlib.Tactic.Common

/-! A compressor that is called again and again, each time with some input and limited space for output. It
takes a front part of the input, fills a part of the space, and reports whether it can go on. What it
promises is a structure of laws, so that a program that uses it is verified for every compressor that keeps
them. -/

namespace Compressor

inductive Code
  | ok | streamEnd | failure
  deriving DecidableEq

inductive Flush
  | noFlush | finish
  deriving DecidableEq

/-- What one call does: how much input it takes, the output, the code and the state. -/
structure Deflation (σ : Type) where
  consumed : Nat
  output : List UInt8
  code : Code
  next : σ

/-- A compressor. `produced` relates a state to all the input that was taken and all the output so far, and
`work` bounds how often it can be called before it has nothing to do. -/
structure Deflate where
  State : Type
  init : State
  deflate : State → List UInt8 → Nat → Flush → Deflation State
  inflate : List UInt8 → Option (List UInt8)
  produced : State → List UInt8 → List UInt8 → Prop
  work : State → List UInt8 → Nat
  /-- It takes a front part of the input. -/
  consumed_le : ∀ s input room flush, (deflate s input room flush).consumed ≤ input.length
  /-- It keeps to the space. -/
  output_le : ∀ s input room flush, (deflate s input room flush).output.length ≤ room
  produced_init : produced init [] []
  produced_next : ∀ s input room flush plain out, produced s plain out →
    produced (deflate s input room flush).next (plain ++ input.take (deflate s input room flush).consumed)
      (out ++ (deflate s input room flush).output)
  /-- At the end the output represents the input that was taken. -/
  produced_end : ∀ s input room flush plain out, produced s plain out →
    (deflate s input room flush).code = .streamEnd →
      inflate (out ++ (deflate s input room flush).output) =
        some (plain ++ input.take (deflate s input room flush).consumed)
  /-- With input and space it goes on. -/
  code_noFlush : ∀ s input room, 0 < room → input ≠ [] → (deflate s input room .noFlush).code = .ok
  /-- When it is to finish, it goes on as long as the space limits it, and ends when all input is taken. -/
  code_finish : ∀ s input room, 0 < room → (deflate s input room .finish).code = .ok ∨
    (deflate s input room .finish).code = .streamEnd ∧ (deflate s input room .finish).consumed = input.length
  /-- It does not go on forever. -/
  work_lt : ∀ s input room flush, 0 < room → (deflate s input room flush).code = .ok →
    work (deflate s input room flush).next (input.drop (deflate s input room flush).consumed) < work s input

/-! ## A compressor that holds its input until it is to finish -/

/-- All input is taken. What is held is given out, uncompressed, by the calls that are to finish. -/
def heldCall (held input : List UInt8) (room : Nat) : Flush → Deflation (List UInt8)
  | .noFlush => ⟨input.length, [], if input = [] then .failure else .ok, held ++ input⟩
  | .finish => ⟨input.length, (held ++ input).take room,
      if (held ++ input).length ≤ room then .streamEnd else .ok, (held ++ input).drop room⟩

section Held

variable (held input : List UInt8) (room : Nat) (flush : Flush)

theorem held_consumed : (heldCall held input room flush).consumed = input.length := by
  cases flush <;> rfl

theorem held_output_le : (heldCall held input room flush).output.length ≤ room := by
  cases flush with
  | noFlush => exact Nat.zero_le room
  | finish => exact List.length_take_le _ _

theorem held_next (plain out : List UInt8) (hplain : out ++ held = plain) :
    out ++ (heldCall held input room flush).output ++ (heldCall held input room flush).next =
      plain ++ input.take (heldCall held input room flush).consumed := by
  rw [held_consumed, List.take_length, ← hplain, List.append_assoc, List.append_assoc]
  cases flush with
  | noFlush => rfl
  | finish => exact congrArg (out ++ ·) (List.take_append_drop room (held ++ input))

theorem held_end (plain out : List UInt8) (hplain : out ++ held = plain)
    (hcode : (heldCall held input room flush).code = .streamEnd) :
    some (out ++ (heldCall held input room flush).output) =
      some (plain ++ input.take (heldCall held input room flush).consumed) := by
  have hnone : (heldCall held input room flush).next = [] := by
    cases flush with
    | noFlush =>
        simp only [heldCall] at hcode
        split at hcode <;> cases hcode
    | finish =>
        apply List.drop_eq_nil_of_le
        by_contra hmore
        rw [heldCall, if_neg hmore] at hcode
        cases hcode
  rw [← held_next held input room flush plain out hplain, hnone, List.append_nil]

theorem held_noFlush (_ : 0 < room) (hinput : input ≠ []) : (heldCall held input room .noFlush).code = .ok :=
  if_neg hinput

theorem held_finish (_ : 0 < room) :
    (heldCall held input room .finish).code = .ok ∨
      (heldCall held input room .finish).code = .streamEnd ∧
        (heldCall held input room .finish).consumed = input.length := by
  by_cases hfits : (held ++ input).length ≤ room
  · exact .inr ⟨if_pos hfits, rfl⟩
  · exact .inl (if_neg hfits)

theorem held_work_lt (hroom : 0 < room) (hcode : (heldCall held input room flush).code = .ok) :
    2 * (input.drop (heldCall held input room flush).consumed).length +
        (heldCall held input room flush).next.length <
      2 * input.length + held.length := by
  rw [held_consumed, List.drop_length]
  cases flush with
  | noFlush =>
      have hinput : input ≠ [] := by
        rintro rfl
        cases hcode
      have hpos := List.length_pos_of_ne_nil hinput
      simp only [heldCall, List.length_nil, List.length_append]
      omega
  | finish =>
      have hmore : ¬(held ++ input).length ≤ room := by
        intro hfits
        rw [heldCall, if_pos hfits] at hcode
        cases hcode
      simp only [heldCall, List.length_nil, List.length_drop, List.length_append] at hmore ⊢
      omega

end Held

def held : Deflate where
  State := List UInt8
  init := []
  deflate := heldCall
  inflate := some
  produced held plain out := out ++ held = plain
  work held input := 2 * input.length + held.length
  consumed_le s input room flush := Nat.le_of_eq (held_consumed s input room flush)
  output_le := held_output_le
  produced_init := rfl
  produced_next := held_next
  produced_end := held_end
  code_noFlush := held_noFlush
  code_finish := held_finish
  work_lt := held_work_lt

end Compressor
