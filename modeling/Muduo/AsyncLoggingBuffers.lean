import Muduo.AsyncLogging

/-! The buffers of `AsyncLogging` go round between the front end and the logging thread. The thread gives
two away at most in the critical section and gets as many back with the batch: `nextBuffer_` is null only
after a buffer was filled, and then the batch has a second one. -/

namespace Muduo.AsyncLogging

open Execution

variable {SIZE : Nat} {s next : AsyncLogging SIZE} {label : Label}

/-- The thread has its two buffers in reserve, and no batch. -/
structure Ready (newBuffer1 newBuffer2 : Option (FixedBuffer SIZE))
    (buffersToWrite : List (FixedBuffer SIZE)) : Prop where
  new1 : isSpare newBuffer1 = true
  new2 : isSpare newBuffer2 = true
  batch : buffersToWrite = []

/-- The batch is large enough for what the thread has to take from it. -/
structure Refillable (newBuffer1 newBuffer2 : Option (FixedBuffer SIZE))
    (buffersToWrite : List (FixedBuffer SIZE)) : Prop where
  batch : buffersToWrite ≠ []
  second : newBuffer2 = none → 2 ≤ buffersToWrite.length
  new1 : ∀ b, newBuffer1 = some b → b.data = []
  new2 : ∀ b, newBuffer2 = some b → b.data = []

/-- What the thread can count on, by where it is. -/
def Supplied (s : AsyncLogging SIZE) : Prop :=
  match s.phase with
  | .idle => s.buffersToWrite = []
  | .testing | .entering | .waiting => Ready s.newBuffer1 s.newBuffer2 s.buffersToWrite
  | .taken | .writing _ | .recycling => Refillable s.newBuffer1 s.newBuffer2 s.buffersToWrite
  | .finished => True

structure Stocked (s : AsyncLogging SIZE) : Prop where
  current : ∃ b, s.currentBuffer = some b
  next_empty : ∀ b, s.nextBuffer = some b → b.data = []
  next : s.nextBuffer = none → s.buffers ≠ []
  supplied : Supplied s

theorem isSpare_iff {slot : Option (FixedBuffer SIZE)} :
    isSpare slot = true ↔ ∃ b, slot = some b ∧ b.data = [] := by
  cases slot with
  | none => simp [isSpare]
  | some b => simp [isSpare]

theorem stocked_new : Stocked ({} : AsyncLogging SIZE) where
  current := ⟨_, rfl⟩
  next_empty b hb := by
    cases hb
    rfl
  next := by simp
  supplied := rfl

theorem ready_of_phase (hsupplied : Supplied s)
    (hphase : s.phase = .testing ∨ s.phase = .entering ∨ s.phase = .waiting) :
    Ready s.newBuffer1 s.newBuffer2 s.buffersToWrite := by
  rcases hphase with hphase | hphase | hphase <;> simpa only [Supplied, hphase] using hsupplied

/-- What the thread takes is worth what it gives. -/
theorem refillable_swapped (current : FixedBuffer SIZE) (hstocked : Stocked s)
    (hready : Ready s.newBuffer1 s.newBuffer2 s.buffersToWrite) :
    Refillable (s.swapped current).newBuffer1 (s.swapped current).newBuffer2
      (s.swapped current).buffersToWrite where
  batch := by simp [swapped]
  second := by
    intro hnone
    cases hnext : s.nextBuffer with
    | none =>
        have hfull := List.length_pos_iff.mpr (hstocked.next hnext)
        simp only [swapped, List.length_append, List.length_singleton]
        omega
    | some b =>
        obtain ⟨spare, hspare, -⟩ := isSpare_iff.mp hready.new2
        simp [swapped, hnext, hspare] at hnone
  new1 := by simp [swapped]
  new2 := by
    obtain ⟨spare, hspare, hempty⟩ := isSpare_iff.mp hready.new2
    intro b hb
    cases hnext : s.nextBuffer with
    | none => simp [swapped, hnext] at hb
    | some _ =>
        simp only [swapped, hnext, Option.isSome_some, if_true, hspare, Option.some.injEq] at hb
        exact hb ▸ hempty

theorem stocked_swapped (current : FixedBuffer SIZE) (hstocked : Stocked s)
    (hready : Ready s.newBuffer1 s.newBuffer2 s.buffersToWrite) : Stocked (s.swapped current) := by
  obtain ⟨first, hfirst, -⟩ := isSpare_iff.mp hready.new1
  obtain ⟨second, hsecond, hempty⟩ := isSpare_iff.mp hready.new2
  refine ⟨⟨first, hfirst⟩, ?_, ?_, refillable_swapped current hstocked hready⟩
  · intro b hb
    cases hnext : s.nextBuffer with
    | none =>
        simp only [swapped, hnext, Option.isSome_none, Bool.false_eq_true, if_false, hsecond,
          Option.some.injEq] at hb
        exact hb ▸ hempty
    | some old =>
        simp only [swapped, hnext, Option.isSome_some, if_true, Option.some.injEq] at hb
        exact hb ▸ hstocked.next_empty old hnext
  · intro hnone
    cases hnext : s.nextBuffer with
    | none => simp [swapped, hnext, hsecond] at hnone
    | some old => simp [swapped, hnext] at hnone

/-- A buffer that is taken from the batch is emptied. -/
theorem refill_spare {slot : Option (FixedBuffer SIZE)} {pool : List (FixedBuffer SIZE)}
    (hslot : ∀ b, slot = some b → b.data = []) (hpool : slot = none → 0 < pool.length) :
    ∃ filled rest, refill slot pool = .ok (filled, rest) ∧ isSpare filled = true ∧
      pool.length ≤ rest.length + 1 := by
  cases slot with
  | some b => exact ⟨some b, pool, rfl, isSpare_iff.mpr ⟨b, rfl, hslot b rfl⟩, by omega⟩
  | none =>
      have hne := List.length_pos_iff.mp (hpool rfl)
      refine ⟨some (pool.getLast hne).reset, pool.dropLast, ?_, rfl, ?_⟩
      · rw [refill, List.getLast?_eq_some_getLast hne]
      · rw [List.length_dropLast]
        omega

/-- Both slots are filled from the first two buffers of the batch. -/
theorem refill_both (hrefillable : Refillable s.newBuffer1 s.newBuffer2 s.buffersToWrite) :
    ∃ newBuffer1 newBuffer2 pool rest,
      refill s.newBuffer1 (s.buffersToWrite.take 2) = .ok (newBuffer1, pool) ∧
      refill s.newBuffer2 pool = .ok (newBuffer2, rest) ∧
      isSpare newBuffer1 = true ∧ isSpare newBuffer2 = true := by
  have hpos := List.length_pos_iff.mpr hrefillable.batch
  have hlength := List.length_take (i := 2) (l := s.buffersToWrite)
  have hone : 0 < (s.buffersToWrite.take 2).length := by omega
  obtain ⟨newBuffer1, pool, hfirst, hspare1, hcount⟩ := refill_spare hrefillable.new1 fun _ => hone
  have htwo : s.newBuffer2 = none → 0 < pool.length := by
    intro hnone
    have hlarge := hrefillable.second hnone
    omega
  obtain ⟨newBuffer2, rest, hsecond, hspare2, -⟩ := refill_spare hrefillable.new2 htwo
  exact ⟨newBuffer1, newBuffer2, pool, rest, hfirst, hsecond, hspare1, hspare2⟩

theorem stocked_turn (hstocked : Stocked s) (hturn : Turn s label next) : Stocked next := by
  obtain ⟨hcurrent, hempty, hnext, hsupplied⟩ := hstocked
  cases hturn with
  | start hphase =>
      refine ⟨hcurrent, hempty, hnext, ?_⟩
      simp only [Supplied, hphase] at hsupplied
      exact ⟨rfl, rfl, hsupplied⟩
  | extend _ _ => exact ⟨⟨_, rfl⟩, hempty, hnext, hsupplied⟩
  | rotate _ _ => exact ⟨⟨_, rfl⟩, by simp, by simp, hsupplied⟩
  | enter hphase _ _ _ =>
      have hready := ready_of_phase hsupplied (.inl hphase)
      exact ⟨hcurrent, hempty, hnext, hready⟩
  | exit _ _ => exact ⟨hcurrent, hempty, hnext, trivial⟩
  | wait hphase =>
      have hready := ready_of_phase hsupplied (.inr (.inl hphase))
      exact ⟨hcurrent, hempty, hnext, hready⟩
  | swap _ hphase _ =>
      exact stocked_swapped _ ⟨hcurrent, hempty, hnext, hsupplied⟩
        (ready_of_phase hsupplied (.inr hphase))
  | drop hphase hlarge =>
      simp only [Supplied, hphase] at hsupplied
      refine ⟨hcurrent, hempty, hnext, ?_, fun _ => ?_, hsupplied.new1, hsupplied.new2⟩
      · rw [ne_eq, List.take_eq_nil_iff]
        exact fun h => h.elim (by decide) hsupplied.batch
      · rw [List.length_take]
        omega
  | keep hphase _ | write hphase _ | written hphase _ =>
      simp only [Supplied, hphase] at hsupplied
      exact ⟨hcurrent, hempty, hnext, hsupplied⟩
  | recycle hphase hfirst hsecond =>
      simp only [Supplied, hphase] at hsupplied
      obtain ⟨_, _, _, _, hfirst', hsecond', hspare1, hspare2⟩ := refill_both hsupplied
      rw [hfirst, Except.ok.injEq, Prod.mk.injEq] at hfirst'
      obtain ⟨rfl, rfl⟩ := hfirst'
      rw [hsecond, Except.ok.injEq, Prod.mk.injEq] at hsecond'
      obtain ⟨rfl, rfl⟩ := hsecond'
      exact ⟨hcurrent, hempty, hnext, hspare1, hspare2, rfl⟩
  | stop _ => exact ⟨hcurrent, hempty, hnext, hsupplied⟩

/-- The critical section does not push a null pointer. -/
theorem swap_ne_error (hstocked : Stocked s) (reason : LoggingStop) : s.swap ≠ .error reason := by
  obtain ⟨b, hb⟩ := hstocked.current
  simp [AsyncLogging.swap, hb]

/-- A step fails only when it is not the thread's turn. -/
theorem disabled_of_error (hstocked : Stocked s) {reason : LoggingStop}
    (hstep : s.step label = .error reason) : reason = .disabled := by
  have hsupplied := hstocked.supplied
  cases label with
  | start =>
      simp only [step, AsyncLogging.start] at hstep
      split at hstep <;> cases hstep
      rfl
  | append logline =>
      obtain ⟨b, hb⟩ := hstocked.current
      simp only [step, AsyncLogging.append, hb] at hstep
      split at hstep <;> cases hstep
  | test =>
      simp only [step, test] at hstep
      split at hstep
      · rename_i hphase
        have hready := ready_of_phase hsupplied (.inl hphase)
        simp only [hready.new1, hready.new2, hready.batch, List.isEmpty_nil, Bool.and_self, if_true] at hstep
        split at hstep <;> cases hstep
      · cases hstep
        rfl
  | lock =>
      simp only [step, lock] at hstep
      split at hstep
      · split at hstep
        · cases hstep
        · exact absurd hstep (swap_ne_error hstocked reason)
      · cases hstep
        rfl
  | wake =>
      simp only [step, wake] at hstep
      split at hstep
      · exact absurd hstep (swap_ne_error hstocked reason)
      · cases hstep
        rfl
  | trim now =>
      simp only [step, trim] at hstep
      split at hstep
      · rename_i hphase
        simp only [Supplied, hphase] at hsupplied
        rw [if_neg (by simpa using hsupplied.batch)] at hstep
        split at hstep <;> cases hstep
      · cases hstep
        rfl
  | write =>
      simp only [step, write] at hstep
      split at hstep
      · split at hstep <;> cases hstep
      · cases hstep
        rfl
  | recycle =>
      simp only [step, recycle] at hstep
      split at hstep
      · rename_i hphase
        simp only [Supplied, hphase] at hsupplied
        obtain ⟨_, _, _, _, hfirst, hsecond, -, -⟩ := refill_both hsupplied
        simp only [hfirst, hsecond] at hstep
        cases hstep
      · cases hstep
        rfl
  | stop =>
      simp only [step, AsyncLogging.stop] at hstep
      split at hstep <;> cases hstep
      rfl

theorem run_stocked (labels : List Label) :
    (∀ reason, run step ({} : AsyncLogging SIZE) labels = .error reason → reason = .disabled) ∧
      ∀ s, run step ({} : AsyncLogging SIZE) labels = .ok s → Stocked s := by
  refine run_safe Stocked ?_ stocked_new labels
  intro s label hstocked
  cases hstep : s.step label with
  | ok next => exact .inr ⟨next, rfl, stocked_turn hstocked (turn_of_step hstep)⟩
  | error reason => exact .inl (by rw [disabled_of_error hstocked hstep])

/-- **The buffers never run out.** However the calls of `append` and the steps of the logging thread
follow each other, no assertion of `threadFunc` fails and no null pointer is used. At every moment there
is a current buffer, `nextBuffer_` is null only if a full buffer is in `buffers_`, and whenever the thread
is back at the condition of its loop, it has two empty buffers and no batch. -/
theorem buffers_recycled (labels : List Label) :
    (∀ reason, run step ({} : AsyncLogging SIZE) labels = .error reason → reason = .disabled) ∧
      ∀ s, run step ({} : AsyncLogging SIZE) labels = .ok s →
        (s.nextBuffer = none → s.buffers ≠ []) ∧ s.currentBuffer ≠ none ∧
        (s.phase = .testing → isSpare s.newBuffer1 = true ∧ isSpare s.newBuffer2 = true ∧
          s.buffersToWrite = []) := by
  obtain ⟨hsafe, hstocked⟩ := run_stocked labels
  refine ⟨hsafe, fun s hrun => ?_⟩
  obtain ⟨⟨current, hcurrent⟩, -, hnext, hsupplied⟩ := hstocked s hrun
  refine ⟨hnext, by simp [hcurrent], fun hphase => ?_⟩
  have hready := ready_of_phase hsupplied (.inl hphase)
  exact ⟨hready.new1, hready.new2, hready.batch⟩

-- a batch of 27 buffers is cut down to two, which is what the thread needs
example : outcome step ({} : AsyncLogging 2)
    (.start :: List.replicate 27 (.append [1]) ++
      [.test, .lock, .trim 0, .write, .write, .write, .recycle])
    (fun s => s.phase = .testing && s.nextBuffer.isSome && s.batches.map List.length = [27]) = true := by
  decide +kernel

end Muduo.AsyncLogging
