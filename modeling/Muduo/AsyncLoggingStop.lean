import Muduo.AsyncLogging

/-! What `AsyncLogging::stop()` leaves unwritten. The logging thread tests `running_` at the top of its loop
only: it takes what the front end has once more if it is behind the test and has not taken it yet, and
never again otherwise. -/

namespace Muduo.AsyncLogging

open Execution Packing

variable {SIZE : Nat} {s next : AsyncLogging SIZE} {label : Label}

/-- The thread is going to take what the front end has. -/
def Taking (s : AsyncLogging SIZE) : Prop := s.phase = .entering ∨ s.phase = .waiting

instance (s : AsyncLogging SIZE) : Decidable (Taking s) := instDecidableOr

/-- The thread was started, and `stop()` was called. -/
def Stopped (s : AsyncLogging SIZE) : Prop := s.running = false ∧ s.phase ≠ .idle

theorem lines_turn (hturn : Turn s label next) : s.lines <+: next.lines := by
  cases hturn with
  | extend _ _ | rotate _ _ => exact List.prefix_append _ _
  | _ => exact List.prefix_rfl

/-- The thread is given something in the critical section, and nowhere else. -/
theorem handed_turn (hturn : Turn s label next) :
    next.handed = s.handed ∧ (Taking s → Taking next) ∨
      Taking s ∧ next.handed = s.handed ++ s.pending := by
  cases hturn with
  | start hphase | exit hphase _ | drop hphase _ | keep hphase _ | write hphase _ | written hphase _
  | recycle hphase _ _ => exact .inl ⟨by simp [handed, fetched, hphase], by simp [Taking, hphase]⟩
  | extend _ _ => exact .inl ⟨rfl, fun h => h⟩
  | rotate _ _ => exact .inl ⟨rfl, fun h => h⟩
  | enter hphase _ _ _ => exact .inl ⟨by simp [handed, fetched, hphase], by simp [Taking]⟩
  | wait hphase => exact .inl ⟨by simp [handed, fetched, hphase], by simp [Taking]⟩
  | swap _ hphase hcurrent => exact .inr ⟨hphase, handed_swapped hphase hcurrent⟩
  | stop _ => exact .inl ⟨rfl, fun h => h⟩

/-- The thread does not pass the test again. -/
theorem stopped_turn (hstopped : Stopped s) (hturn : Turn s label next) :
    Stopped next ∧ (Taking next → Taking s) := by
  obtain ⟨hrunning, hidle⟩ := hstopped
  cases hturn with
  | start hphase => exact absurd hphase hidle
  | extend _ _ | rotate _ _ => exact ⟨⟨hrunning, hidle⟩, fun h => h⟩
  | enter _ htrue _ _ => rw [hrunning] at htrue; cases htrue
  | exit _ _ => exact ⟨⟨hrunning, by simp⟩, by simp [Taking]⟩
  | wait hphase => exact ⟨⟨hrunning, by simp⟩, fun _ => .inl hphase⟩
  | swap _ _ _ => exact ⟨⟨hrunning, by simp [swapped]⟩, by simp [Taking, swapped]⟩
  | drop _ _ => exact ⟨⟨hrunning, by simp⟩, by simp [Taking]⟩
  | keep _ _ => exact ⟨⟨hrunning, by simp⟩, by simp [Taking]⟩
  | write _ _ => exact ⟨⟨hrunning, by simp⟩, by simp [Taking]⟩
  | written _ _ => exact ⟨⟨hrunning, by simp⟩, by simp [Taking]⟩
  | recycle _ _ _ => exact ⟨⟨hrunning, by simp⟩, by simp [Taking]⟩
  | stop htrue => rw [hrunning] at htrue; cases htrue

/-- What holds after `stop()` was called in a state. -/
structure Since (origin s : AsyncLogging SIZE) : Prop where
  sound : Sound s
  conserved : Conserved s
  stopped : Stopped s
  lines : origin.lines <+: s.lines
  /-- A thread that was going to take what there was has taken it, or will. -/
  caught : Taking origin → Taking s ∨ origin.short.flatten <+: s.handed.flatten
  /-- Another thread is given nothing. -/
  missed : ¬ Taking origin → ¬ Taking s ∧ s.handed = origin.handed

theorem short_prefix {origin s : AsyncLogging SIZE} (hlines : origin.lines <+: s.lines) :
    origin.short.flatten <+: s.short.flatten := by
  obtain ⟨later, hlater⟩ := hlines
  rw [short, short, ← hlater, List.filter_append, List.flatten_append]
  exact List.prefix_append _ _

theorem since_turn {origin : AsyncLogging SIZE} (hsince : Since origin s)
    (hturn : Turn s label next) : Since origin next := by
  obtain ⟨hstopped, htaking⟩ := stopped_turn hsince.stopped hturn
  refine ⟨sound_turn hsince.sound hturn, conserved_turn hsince.sound hsince.conserved hturn, hstopped,
    hsince.lines.trans (lines_turn hturn), fun horigin => ?_, fun horigin => ?_⟩
  · rcases handed_turn hturn with ⟨hsame, hstill⟩ | ⟨-, hall⟩
    · rw [hsame]
      exact (hsince.caught horigin).imp_left hstill
    · -- what was appended before lies in the buffers that are taken now
      right
      rw [hall, hsince.conserved.packed.flatten_eq]
      exact short_prefix hsince.lines
  · obtain ⟨hnot, hhanded⟩ := hsince.missed horigin
    rcases handed_turn hturn with ⟨hsame, -⟩ | ⟨htake, -⟩
    · exact ⟨fun hnext => hnot (htaking hnext), hsame.trans hhanded⟩
    · exact absurd htake hnot

theorem running_turn (hidle : s.running = true → s.phase ≠ .idle) (hturn : Turn s label next) :
    next.running = true → next.phase ≠ .idle := by
  cases hturn with
  | extend _ _ => exact hidle
  | rotate _ _ => exact hidle
  | stop _ => exact nofun
  | _ => exact fun _ => nofun

/-- A state in which `stop()` can be called. -/
theorem since_stop {labels : List Label} (hrun : run step {} labels = .ok s)
    (hrunning : s.running = true) : Since s { s with running := false } := by
  obtain ⟨hsound, hconserved⟩ := run_conserved hrun
  have hidle : s.running = true → s.phase ≠ .idle :=
    run_preserves (fun s => s.running = true → s.phase ≠ .idle)
      (fun _ _ _ hidle hstep => running_turn hidle (turn_of_step hstep))
      (fun h => Bool.noConfusion h) hrun
  exact {
    sound := sound_turn hsound (.stop hrunning)
    conserved := conserved_turn hsound hconserved (.stop hrunning)
    stopped := ⟨rfl, hidle hrunning⟩
    lines := List.prefix_rfl
    caught := fun htaking => .inl htaking
    missed := fun hnot => ⟨hnot, rfl⟩ }

/-- **What `stop()` guarantees.** When it returns, the thread has written what is kept of its batches. The
lines appended before `stop()` was called are in these batches just when the thread was between the test
of `running_` and the end of its critical section, or the front end had nothing. -/
theorem stop_drains_iff {s t : AsyncLogging SIZE} {before after : List Label}
    (hbefore : run step {} before = .ok s) (hafter : run step s (.stop :: after) = .ok t)
    (hreturned : t.phase = .finished) :
    t.logged = t.batches.flatMap kept ∧
      ((s.lines.filter fun line => line.length < SIZE).flatten <+: t.batches.flatten.flatten ↔
        s.phase = .entering ∨ s.phase = .waiting ∨ s.pending.flatten = []) := by
  obtain ⟨stopped, hstop, hlater⟩ := run_cons_ok.mp hafter
  have hturn := turn_of_step hstop
  have hsince : Since s t := by
    cases hturn with
    | stop hrunning =>
        exact run_preserves (Since s) (fun _ _ _ hsince hstep => since_turn hsince (turn_of_step hstep))
          (since_stop hbefore hrunning) hlater
    | swap hlabel _ _ => rcases hlabel with hlabel | hlabel <;> cases hlabel
  have hhanded : t.handed = t.batches.flatten := by
    simp [handed, fetched, hreturned]
  constructor
  · have hkept := hsince.conserved.kept
    simpa [unwritten, hreturned] using hkept
  · rw [← or_assoc, ← hhanded]
    change s.short.flatten <+: _ ↔ Taking s ∨ _
    have hpacked := (run_conserved hbefore).2.packed.flatten_eq
    rw [List.flatten_append] at hpacked
    by_cases htaking : Taking s
    · refine iff_of_true ?_ (.inl htaking)
      rcases hsince.caught htaking with hstill | hcaught
      · simp [Taking, hreturned] at hstill
      · exact hcaught
    · rw [(hsince.missed htaking).2, ← hpacked, or_iff_right htaking]
      constructor
      · intro hprefix
        have hlength := hprefix.length_le
        rw [List.length_append] at hlength
        exact List.eq_nil_of_length_eq_zero (by omega)
      · intro hnone
        exact ⟨[], by simp [hnone]⟩

/-- A line appended while the thread waits. -/
theorem stop_drains_waiting :
    ∃ s t : AsyncLogging 4, run step {} [.start, .test, .lock, .append [1, 2]] = .ok s ∧
      run step s [.stop, .wake, .trim 0, .write, .write, .recycle, .test] = .ok t ∧
      t.logged = t.batches.flatMap kept ∧
      (s.lines.filter fun line => line.length < 4).flatten <+: t.batches.flatten.flatten := by
  obtain ⟨s, hbefore, hwaiting⟩ := exists_of_outcome step ({} : AsyncLogging 4)
    [.start, .test, .lock, .append [1, 2]] (fun s => s.phase = .waiting) (by decide +kernel)
  obtain ⟨t, hall, hreturned⟩ := exists_of_outcome step ({} : AsyncLogging 4)
    ([.start, .test, .lock, .append [1, 2]] ++
      [.stop, .wake, .trim 0, .write, .write, .recycle, .test])
    (fun t => t.phase = .finished) (by decide +kernel)
  obtain ⟨middle, hmiddle, hafter⟩ := run_append_ok.mp hall
  obtain rfl := Except.ok.inj (hbefore.symm.trans hmiddle)
  obtain ⟨hlogged, hiff⟩ := stop_drains_iff hbefore hafter (of_decide_eq_true hreturned)
  exact ⟨s, t, hbefore, hafter, hlogged, hiff.mpr (.inr (.inl (of_decide_eq_true hwaiting)))⟩

/-- A line appended while the thread is at the top of its loop is not written. -/
theorem stop_loses_line :
    ∃ s t : AsyncLogging 4, run step {} [.start, .append [1, 2]] = .ok s ∧
      run step s [.stop, .test] = .ok t ∧ t.phase = .finished ∧
      (s.lines.filter fun line => line.length < 4) = [[1, 2]] ∧ t.output = [] := by
  obtain ⟨s, hbefore, hlines⟩ := exists_of_outcome step ({} : AsyncLogging 4)
    [.start, .append [1, 2]] (fun s => s.lines = [[1, 2]]) (by decide +kernel)
  obtain ⟨t, hall, hreturned⟩ := exists_of_outcome step ({} : AsyncLogging 4)
    ([.start, .append [1, 2]] ++ [.stop, .test])
    (fun t => t.phase = .finished ∧ t.output = []) (by decide +kernel)
  obtain ⟨middle, hmiddle, hafter⟩ := run_append_ok.mp hall
  obtain rfl := Except.ok.inj (hbefore.symm.trans hmiddle)
  obtain ⟨hfinished, hnothing⟩ := of_decide_eq_true hreturned
  refine ⟨s, t, hbefore, hafter, hfinished, ?_, hnothing⟩
  rw [of_decide_eq_true hlines]
  rfl

end Muduo.AsyncLogging
