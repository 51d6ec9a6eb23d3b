import Mathlib.Data.List.Basic
import Mathlib.Data.List.Forall2
import Mathlib.Tactic.Common

/-! Streams cut into frames. A decoder looks at what has arrived so far and either wants more of it,
rejects it, or finds a frame of some length at its front. What it has decided, it decides again
however much more arrives. A stream can then be consumed in pieces of any size. -/

namespace Framing

/-- What a decoder finds at the front of a stream. -/
inductive Outcome (β ε : Type*) where
  | more
  | reject (error : ε)
  | frame (value : β) (length : Nat)

/-- A decision is final. A frame lies within the stream, is not empty, and is recognised by itself. -/
structure Decoder (α β ε : Type*) where
  look : List α → Outcome β ε
  look_nil : look [] = .more
  frame_length : ∀ {stream value length}, look stream = .frame value length →
    0 < length ∧ length ≤ stream.length
  frame_take : ∀ {stream value length}, look stream = .frame value length →
    look (stream.take length) = .frame value length
  frame_append : ∀ {stream value length} (later : List α), look stream = .frame value length →
    look (stream ++ later) = .frame value length
  reject_append : ∀ {stream error} (later : List α), look stream = .reject error →
    look (stream ++ later) = .reject error

/-- What has been made of a stream: the values of its frames, the part that was left, and the error
the decoder stopped with, if it did. -/
@[ext] structure Parsed (α β ε : Type*) where
  values : List β
  rest : List α
  stop : Option ε

/-- The same, behind frames that were consumed earlier. -/
@[simps] def Parsed.behind {α β ε : Type*} (p : Parsed α β ε) (earlier : List β) : Parsed α β ε where
  values := earlier ++ p.values
  rest := p.rest
  stop := p.stop

theorem Parsed.behind_append {α β ε : Type*} (p : Parsed α β ε) (front back : List β) :
    (p.behind back).behind front = p.behind (front ++ back) := by
  simp only [behind, List.append_assoc]

namespace Decoder

variable {α β ε : Type*} (d : Decoder α β ε)

/-- Take frames from the front until the decoder wants more or rejects. -/
def consume (stream : List α) : Parsed α β ε :=
  match _hlook : d.look stream with
  | .more => ⟨[], stream, none⟩
  | .reject error => ⟨[], stream, some error⟩
  | .frame value length => (consume (stream.drop length)).behind [value]
termination_by stream.length
decreasing_by
  have := d.frame_length _hlook
  rw [List.length_drop]
  omega

variable {d} {stream : List α}

theorem consume_more (hlook : d.look stream = .more) : d.consume stream = ⟨[], stream, none⟩ := by
  rw [consume]
  split <;> simp_all

theorem consume_reject {error : ε} (hlook : d.look stream = .reject error) :
    d.consume stream = ⟨[], stream, some error⟩ := by
  rw [consume]
  split <;> simp_all

theorem consume_frame {value : β} {length : Nat} (hlook : d.look stream = .frame value length) :
    d.consume stream = (d.consume (stream.drop length)).behind [value] := by
  rw [consume]
  split <;> simp_all

/-- Induction over the frames at the front of a stream. -/
theorem consume_induction {motive : List α → Prop}
    (hmore : ∀ stream, d.look stream = .more → motive stream)
    (hreject : ∀ stream error, d.look stream = .reject error → motive stream)
    (hframe : ∀ stream value length, d.look stream = .frame value length →
      motive (stream.drop length) → motive stream)
    (stream : List α) : motive stream := by
  induction hlength : stream.length using Nat.strongRecOn generalizing stream with
  | ind count ih =>
      cases hlook : d.look stream with
      | more => exact hmore stream hlook
      | reject error => exact hreject stream error hlook
      | frame value length =>
          have hfits := d.frame_length hlook
          refine hframe stream value length hlook (ih (stream.drop length).length ?_ _ rfl)
          rw [List.length_drop]
          omega

/-- Consuming what was left over again finds nothing new and stops for the same reason. -/
theorem consume_rest (stream : List α) :
    d.consume (d.consume stream).rest =
      ⟨[], (d.consume stream).rest, (d.consume stream).stop⟩ := by
  induction stream using d.consume_induction with
  | hmore stream hlook => rw [consume_more hlook, consume_more hlook]
  | hreject stream error hlook => rw [consume_reject hlook, consume_reject hlook]
  | hframe stream value length hlook ih =>
      rw [consume_frame hlook]
      exact ih

/-- **Consuming in two pieces.** What was left of the first piece goes in front of the second. -/
theorem consume_append (stream later : List α) :
    d.consume (stream ++ later) =
      (d.consume ((d.consume stream).rest ++ later)).behind (d.consume stream).values := by
  induction stream using d.consume_induction with
  | hmore stream hlook => rw [consume_more hlook]; rfl
  | hreject stream error hlook => rw [consume_reject hlook]; rfl
  | hframe stream value length hlook ih =>
      have hfits := (d.frame_length hlook).2
      rw [consume_frame (d.frame_append later hlook), consume_frame hlook,
        List.drop_append_of_le_length hfits, ih, Parsed.behind_append]
      rfl

/-- After a rejection everything that arrives is left where it is. -/
theorem consume_append_of_stop {error : ε} (hstop : (d.consume stream).stop = some error)
    (later : List α) :
    d.consume ((d.consume stream).rest ++ later) =
      ⟨[], (d.consume stream).rest ++ later, some error⟩ := by
  have hrest := d.consume_rest stream
  rw [hstop] at hrest
  apply consume_reject
  apply d.reject_append
  cases hlook : d.look (d.consume stream).rest with
  | more => rw [consume_more hlook] at hrest; simp at hrest
  | reject other =>
      rw [consume_reject hlook] at hrest
      simpa using hrest
  | frame value length =>
      rw [consume_frame hlook] at hrest
      exact absurd (congrArg Parsed.values hrest) (by simp)

/-- A rejection is never taken back. -/
theorem stop_of_append {later : List α} (hstop : (d.consume (stream ++ later)).stop = none) :
    (d.consume stream).stop = none := by
  cases hearlier : (d.consume stream).stop with
  | none => rfl
  | some error =>
      rw [consume_append, consume_append_of_stop hearlier] at hstop
      exact hstop

/-- The list is one whole frame. -/
def IsFrame (d : Decoder α β ε) (frame : List α) (value : β) : Prop :=
  d.look frame = .frame value frame.length

theorem look_frame_append {frame : List α} {value : β} (hframe : d.IsFrame frame value)
    (later : List α) : d.look (frame ++ later) = .frame value frame.length :=
  d.frame_append later hframe

/-- A concatenation of frames is consumed frame by frame. -/
theorem consume_frames {frames : List (List α)} {values : List β}
    (hframes : List.Forall₂ d.IsFrame frames values) (later : List α) :
    d.consume (frames.flatten ++ later) = (d.consume later).behind values := by
  induction hframes with
  | nil => rfl
  | cons hframe _ ih =>
      rw [List.flatten_cons, List.append_assoc, consume_frame (look_frame_append hframe _),
        List.drop_left, ih, Parsed.behind_append]
      rfl

/-- What is consumed is a concatenation of frames. -/
theorem consume_eq_frames (stream : List α) :
    ∃ frames, List.Forall₂ d.IsFrame frames (d.consume stream).values ∧
      stream = frames.flatten ++ (d.consume stream).rest := by
  induction stream using d.consume_induction with
  | hmore stream hlook => exact ⟨[], by rw [consume_more hlook]; exact ⟨.nil, rfl⟩⟩
  | hreject stream error hlook => exact ⟨[], by rw [consume_reject hlook]; exact ⟨.nil, rfl⟩⟩
  | hframe stream value length hlook ih =>
      obtain ⟨frames, hframes, hstream⟩ := ih
      have hwhole : (stream.take length).length = length := by
        rw [List.length_take, Nat.min_eq_left (d.frame_length hlook).2]
      have hfirst : d.IsFrame (stream.take length) value := by
        rw [IsFrame, hwhole]
        exact d.frame_take hlook
      rw [consume_frame hlook]
      refine ⟨stream.take length :: frames, .cons hfirst hframes, ?_⟩
      rw [List.flatten_cons, List.append_assoc, Parsed.behind_rest, ← hstream, List.take_append_drop]

/-- No frame is left at the front of what was not consumed. -/
theorem consume_rest_ne_frame (stream : List α) {frame : List α} {value : β}
    (hframe : d.IsFrame frame value) (later : List α) :
    (d.consume stream).rest ≠ frame ++ later := by
  intro hrest
  have hagain := d.consume_rest stream
  rw [hrest, consume_frame (look_frame_append hframe later)] at hagain
  exact absurd (congrArg Parsed.values hagain) (by simp)

end Decoder
end Framing
