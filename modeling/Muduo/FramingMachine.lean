import Muduo.Framing

/-! A machine that reads the frames of a stream. It may go on behind a frame, stop behind it, or refuse it
and stay in front of it. What it makes of a stream does not depend on how the stream arrives, as long as
it is not started again. -/

namespace Framing

variable {α β σ τ : Type*}

/-- What a machine does with a frame. -/
inductive Move (σ : Type*) where
  | go (state : σ)
  | halt (state : σ)
  | refuse (state : σ)

def Move.map (view : σ → τ) : Move σ → Move τ
  | .go state => .go (view state)
  | .halt state => .halt (view state)
  | .refuse state => .refuse (view state)

/-- Why a machine has stopped. -/
inductive Verdict where
  | hungry
  | halted
  | refused
  deriving DecidableEq, Repr

/-- Where a machine has stopped: its state and what it has not consumed. -/
@[ext] structure Driven (σ α : Type*) where
  state : σ
  rest : List α
  verdict : Verdict

@[simps] def Driven.map (view : σ → τ) (p : Driven σ α) : Driven τ α where
  state := view p.state
  rest := p.rest
  verdict := p.verdict

section Drive

variable (d : Decoder α β Empty) (move : σ → β → Move σ)

/-- Read frames until there is none, or the machine stops. -/
def drive (state : σ) (stream : List α) : Driven σ α :=
  match _hlook : d.look stream with
  | .more => ⟨state, stream, .hungry⟩
  | .reject error => error.elim
  | .frame value length =>
      match move state value with
      | .go next => drive next (stream.drop length)
      | .halt next => ⟨next, stream.drop length, .halted⟩
      | .refuse next => ⟨next, stream, .refused⟩
termination_by stream.length
decreasing_by
  have := d.frame_length _hlook
  rw [List.length_drop]
  omega

/-- More of the stream arrives. A machine that has stopped does not look at it. -/
def resume (p : Driven σ α) (later : List α) : Driven σ α :=
  match p.verdict with
  | .hungry => drive d move p.state (p.rest ++ later)
  | verdict => ⟨p.state, p.rest ++ later, verdict⟩

variable {d move} {state : σ} {stream : List α}

theorem drive_more (hlook : d.look stream = .more) :
    drive d move state stream = ⟨state, stream, .hungry⟩ := by
  rw [drive]
  split <;> simp_all

theorem drive_frame {value : β} {length : Nat} (hlook : d.look stream = .frame value length) :
    drive d move state stream =
      match move state value with
      | .go next => drive d move next (stream.drop length)
      | .halt next => ⟨next, stream.drop length, .halted⟩
      | .refuse next => ⟨next, stream, .refused⟩ := by
  rw [drive]
  split
  · simp_all
  · exact Empty.elim ‹Empty›
  · rename_i value' length' hlook'
    rw [hlook, Outcome.frame.injEq] at hlook'
    obtain ⟨rfl, rfl⟩ := hlook'
    rfl

/-- A decoder that does not reject wants more or finds a frame. -/
theorem look_cases (d : Decoder α β Empty) (stream : List α) :
    d.look stream = .more ∨ ∃ value length, d.look stream = .frame value length := by
  cases hlook : d.look stream with
  | more => exact .inl rfl
  | reject error => exact error.elim
  | frame value length => exact .inr ⟨value, length, rfl⟩

/-- Induction over the frames a machine reads. -/
theorem drive_induction (d : Decoder α β Empty) (move : σ → β → Move σ) {motive : σ → List α → Prop}
    (hmore : ∀ state stream, d.look stream = .more → motive state stream)
    (hframe : ∀ state stream value length, d.look stream = .frame value length →
      (∀ next, move state value = .go next → motive next (stream.drop length)) →
      motive state stream)
    (state : σ) (stream : List α) : motive state stream := by
  induction hlength : stream.length using Nat.strongRecOn generalizing state stream with
  | ind count ih =>
      rcases look_cases d stream with hlook | ⟨value, length, hlook⟩
      · exact hmore state stream hlook
      · have hfits := d.frame_length hlook
        refine hframe state stream value length hlook fun next _ =>
          ih (stream.drop length).length ?_ next _ rfl
        rw [List.length_drop]
        omega

/-- **Driving in two pieces.** -/
theorem drive_append (state : σ) (stream later : List α) :
    drive d move state (stream ++ later) = resume d move (drive d move state stream) later := by
  induction state, stream using drive_induction d move with
  | hmore state stream hlook =>
      rw [drive_more hlook]
      rfl
  | hframe state stream value length hlook ih =>
      rw [drive_frame hlook, drive_frame (d.frame_append later hlook),
        List.drop_append_of_le_length (d.frame_length hlook).2]
      cases hmove : move state value with
      | go next => exact ih next hmove
      | halt next => rfl
      | refuse next => rfl

/-- A machine that is hungry has read all the frames. -/
theorem look_rest (hhungry : (drive d move state stream).verdict = .hungry) :
    d.look (drive d move state stream).rest = .more := by
  induction state, stream using drive_induction d move with
  | hmore state stream hlook =>
      rw [drive_more hlook]
      exact hlook
  | hframe state stream value length hlook ih =>
      rw [drive_frame hlook] at hhungry ⊢
      cases hmove : move state value with
      | go next =>
          rw [hmove] at hhungry
          exact ih next hmove hhungry
      | halt next | refuse next =>
          rw [hmove] at hhungry
          cases hhungry

theorem resume_hungry {p : Driven σ α} (hhungry : p.verdict = .hungry) (later : List α) :
    resume d move p later = drive d move p.state (p.rest ++ later) := by
  rw [resume, hhungry]

theorem resume_stopped {p : Driven σ α} (hstopped : p.verdict ≠ .hungry) (later : List α) :
    resume d move p later = ⟨p.state, p.rest ++ later, p.verdict⟩ := by
  rw [resume]
  split
  · contradiction
  · rfl

/-- The frame at the front is read first. -/
theorem drive_isFrame {frame : List α} {value : β} (hframe : d.IsFrame frame value)
    (state : σ) (later : List α) :
    drive d move state (frame ++ later) =
      match move state value with
      | .go next => drive d move next later
      | .halt next => ⟨next, later, .halted⟩
      | .refuse next => ⟨next, frame ++ later, .refused⟩ := by
  rw [drive_frame (Decoder.look_frame_append hframe later), List.drop_left]

/-- A view of the states that the moves respect. -/
theorem drive_map {move' : τ → β → Move τ} (view : σ → τ)
    (hmove : ∀ state value, move' (view state) value = (move state value).map view)
    (state : σ) (stream : List α) :
    drive d move' (view state) stream = (drive d move state stream).map view := by
  induction state, stream using drive_induction d move with
  | hmore state stream hlook =>
      rw [drive_more hlook, drive_more hlook]
      rfl
  | hframe state stream value length hlook ih =>
      rw [drive_frame hlook, drive_frame hlook, hmove]
      cases hnext : move state value with
      | go next => exact ih next hnext
      | halt next => rfl
      | refuse next => rfl

end Drive

end Framing
