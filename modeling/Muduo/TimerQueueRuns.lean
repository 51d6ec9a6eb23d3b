import Muduo.TimerQueueSteps

/-! Whole runs of the timer queue. One step of the queue is one move of the objects, as a single case
analysis says; the two sets agree, every assertion holds and no pointer dangles in every run. -/

namespace Muduo.TimerSystem

open Execution

variable {q next : TimerSystem} {objects objects' : Objects}

/-- The batch of the running `handleRead`. -/
def batch (q : TimerSystem) : List Entry :=
  match q.round with
  | some r => r.expired
  | none => []

theorem batch_of_round {r : Round} (hround : q.round = some r) : q.batch = r.expired := by
  rw [batch, hround]

/-- The state between two steps, seen as the objects it owns. -/
structure Inv (q : TimerSystem) (objects : Objects) : Prop where
  represents : Represents q q.batch objects
  recorded : Recorded q.log q.numCreated objects
  calling : q.callingExpiredTimers = q.round.isSome
  rest : ∀ r, q.round = some r → r.rest <:+ r.expired
  number : ∀ r, q.round = some r → r.number = q.rounds
  ran : ∀ round id, .ran round id ∈ q.log → round ≤ q.rounds

theorem inv_initial : Inv {} fun _ => none where
  represents := represents_initial
  recorded := .initial
  calling := rfl
  rest := nofun
  number := nofun
  ran := nofun

/-- What `handleRead` makes of the queue before it runs the callbacks. -/
def opened (q : TimerSystem) (now : Timestamp) (expired : List Entry) (timers : OrderedSet Entry)
    (activeTimers : OrderedSet ActiveTimer) : TimerSystem :=
  { q.readTimerfd with
    timers := timers
    activeTimers := activeTimers
    callingExpiredTimers := true
    cancelingTimers := .empty
    rounds := q.rounds + 1
    round := some ⟨q.rounds + 1, now, expired, expired⟩ }

/-- What `handleRead` makes of the queue after it has run them. -/
def closed (q : TimerSystem) (clock : Timestamp) (heap : Nat → Option Timer)
    (timers : OrderedSet Entry) (activeTimers : OrderedSet ActiveTimer) (log : List TimerEvent) :
    TimerSystem :=
  { ({ q with callingExpiredTimers := false }.settled heap timers activeTimers log).rearmed clock with
    round := none }

/-- Of the timerfd a round leaves open how it is set. -/
theorem closed_eq (q : TimerSystem) (clock : Timestamp) (heap : Nat → Option Timer) (timers : OrderedSet Entry)
    (activeTimers : OrderedSet ActiveTimer) (log : List TimerEvent) :
    ∃ timerfd settings, q.closed clock heap timers activeTimers log =
      { { q with callingExpiredTimers := false }.settled heap timers activeTimers log with
        timerfd := timerfd, settings := settings, round := none } := by
  obtain ⟨timerfd, settings, hrearmed⟩ := rearmed_eq
    ({ q with callingExpiredTimers := false }.settled heap timers activeTimers log) clock
  exact ⟨timerfd, settings, by rw [closed, hrearmed]⟩

theorem closed_timers (q : TimerSystem) (clock : Timestamp) (heap : Nat → Option Timer) (timers : OrderedSet Entry)
    (activeTimers : OrderedSet ActiveTimer) (log : List TimerEvent) :
    (q.closed clock heap timers activeTimers log).timers = timers := by
  obtain ⟨timerfd, settings, hclosed⟩ := closed_eq q clock heap timers activeTimers log
  rw [hclosed]
  rfl

/-- One step of the queue, as a move of the objects. -/
inductive Turn (q : TimerSystem) (objects : Objects) : TimerLabel → TimerSystem → Objects → Prop
  | newTimer {timer : Nat} {when : Timestamp} {interval : Interval} (hfree : objects timer = none) :
      Turn q objects (.newTimer timer when interval) (q.newTimer timer when interval)
        (Function.update objects timer (some ⟨.functor, ⟨when, interval, q.numCreated + 1⟩⟩))
  | addTimerInLoop {id : TimerId} {clock : Timestamp} {t : Timer} {timers : OrderedSet Entry}
      {activeTimers : OrderedSet ActiveTimer} (hobject : objects id.timer = some ⟨.functor, t⟩)
      (hsequence : t.sequence = id.sequence) :
      Turn q objects (.addTimerInLoop id clock)
        (if q.isEarliest t.expiration then
          (q.entered id timers activeTimers).resetTimerfd clock t.expiration
        else q.entered id timers activeTimers)
        (Function.update objects id.timer (some ⟨.queue, t⟩))
  | cancelQueued {id : TimerId} {t : Timer} {timers : OrderedSet Entry}
      {activeTimers : OrderedSet ActiveTimer} (hobject : objects id.timer = some ⟨.queue, t⟩)
      (hsequence : t.sequence = id.sequence) :
      Turn q objects (.cancelInLoop id) (q.withdrawn id timers activeTimers)
        (Function.update objects id.timer none)
  | cancelElsewhere {id : TimerId} (hactive : id ∉ q.activeTimers) :
      Turn q objects (.cancelInLoop id)
        (if q.callingExpiredTimers then
          { q with cancelingTimers := (q.cancelingTimers.insert id).1 } else q)
        objects
  | handleRead {now : Timestamp} {expired : List Entry} {timers : OrderedSet Entry}
      {activeTimers : OrderedSet ActiveTimer} (hround : q.round = none)
      (htimers : ∀ it, it ∈ timers ↔ it ∈ q.timers ∧ now < it.expiration) :
      Turn q objects (.handleRead now) (q.opened now expired timers activeTimers) (objects.expire now)
  | run {r : Round} {it : Entry} {rest : List Entry} {t : Timer} (hround : q.round = some r)
      (hrest : r.rest = it :: rest) (hobject : objects it.timer = some ⟨.batch, t⟩) :
      Turn q objects .run
        { q with
          log := q.log ++ [.ran r.number ⟨it.timer, t.sequence⟩]
          round := some { r with rest := rest } }
        objects
  | finish {r : Round} {clock : Timestamp} {heap : Nat → Option Timer} {timers : OrderedSet Entry}
      {activeTimers : OrderedSet ActiveTimer} {log : List TimerEvent} (hround : q.round = some r)
      (hrest : r.rest = []) (hquiet : Quiet q.log log) :
      Turn q objects (.finish clock) (q.closed clock heap timers activeTimers log)
        (objects.settle q.cancelingTimers r.now)
  | fire {expiration : Timestamp} (harmed : q.timerfd = .armed expiration) :
      Turn q objects .fire { q with timerfd := .fired } objects

/-- The record of a step that starts no callback. -/
theorem Inv.ran_of_quiet (hinv : Inv q objects) {log : List TimerEvent} (hquiet : Quiet q.log log)
    (round : Nat) (id : TimerId) (hran : .ran round id ∈ log) : round ≤ q.rounds := by
  obtain ⟨extra, rfl, hextra⟩ := hquiet
  rcases List.mem_append.mp hran with hold | hnew
  · exact hinv.ran round id hold
  · exact absurd hnew (hextra round id)

/-- What a step leads to: it is a move of the objects, or it is not possible in this state. -/
def Moves (q : TimerSystem) (objects : Objects) (label : TimerLabel) : Prop :=
  q.step label = .error .disabled ∨
    ∃ next objects', q.step label = .ok next ∧ Turn q objects label next objects' ∧ Inv next objects'

theorem moves_newTimer (hinv : Inv q objects) (timer : Nat) (when : Timestamp) (interval : Interval) :
    Moves q objects (.newTimer timer when interval) := by
  by_cases henabled : timer < UINTPTR_MAX ∧ (q.heap timer).isNone
  · have hfree : objects timer = none := by
      have hnone := henabled.2
      rw [hinv.represents.heap, Option.isNone_iff_eq_none] at hnone
      exact Option.map_eq_none_iff.mp hnone
    refine .inr ⟨_, _, if_pos henabled, .newTimer hfree, ?_⟩
    exact {
      represents := hinv.represents.create hfree henabled.1 rfl rfl rfl
      recorded := hinv.recorded.create (t := ⟨when, interval, _⟩) hfree rfl
      calling := hinv.calling
      rest := hinv.rest
      number := hinv.number
      ran := hinv.ran_of_quiet (.of_append nofun) }
  · exact .inl (if_neg henabled)

theorem moves_addTimerInLoop (hinv : Inv q objects) (id : TimerId) (clock : Timestamp) :
    Moves q objects (.addTimerInLoop id clock) := by
  by_cases hpending : id ∈ q.pending
  · obtain ⟨t, hobject, hsequence⟩ := (hinv.represents.pending id).mp hpending
    obtain ⟨timers, activeTimers, heq, hrep, hrecorded⟩ :=
      addTimerInLoop_spec hinv.represents hinv.recorded hobject hsequence clock
    refine .inr ⟨_, _, (if_pos hpending).trans heq, .addTimerInLoop hobject hsequence, ?_⟩
    have hentered : Inv (q.entered id timers activeTimers)
        (Function.update objects id.timer (some ⟨.queue, t⟩)) := {
      represents := hrep
      recorded := hrecorded
      calling := hinv.calling
      rest := hinv.rest
      number := hinv.number
      ran := hinv.ran_of_quiet (.of_append nofun) }
    split
    · exact { hentered with represents := { hrep with } }
    · exact hentered
  · exact .inl (if_neg hpending)

theorem moves_cancelInLoop (hinv : Inv q objects) (id : TimerId) :
    Moves q objects (.cancelInLoop id) := by
  by_cases hactive : id ∈ q.activeTimers
  · obtain ⟨t, hobject, hsequence⟩ := (hinv.represents.activeTimers id).mp hactive
    obtain ⟨timers, activeTimers, heq, hrep, hrecorded⟩ :=
      cancelInLoop_queued hinv.represents hinv.recorded hobject hsequence
    refine .inr ⟨_, _, heq, .cancelQueued hobject hsequence, ?_⟩
    exact {
      represents := hrep
      recorded := hrecorded
      calling := hinv.calling
      rest := hinv.rest
      number := hinv.number
      ran := hinv.ran_of_quiet (.of_append nofun) }
  · refine .inr ⟨_, _, cancelInLoop_not_queued hinv.represents hactive, .cancelElsewhere hactive, ?_⟩
    split
    · exact { hinv with represents := { hinv.represents with } }
    · exact hinv

theorem moves_handleRead (hinv : Inv q objects) (now : Timestamp) :
    Moves q objects (.handleRead now) := by
  cases hround : q.round with
  | some r => exact .inl (by simp only [step, hround])
  | none =>
      have hrep : Represents q [] objects := by
        have hrep := hinv.represents
        rwa [batch, hround] at hrep
      obtain ⟨expired, timers, activeTimers, heq, -, htimers, hrep'⟩ :=
        getExpired_spec (q := q.readTimerfd) { hrep with } now
      refine .inr ⟨q.opened now expired timers activeTimers, objects.expire now, ?_,
        .handleRead hround htimers, ?_⟩
      · simp only [step, hround, handleRead, heq, bind, Except.bind]
        rfl
      · have hlive : ∀ id, Objects.Live (objects.expire now) id ↔ objects.Live id := by
          intro id
          have hsame := objects.expire_timer now id.timer
          unfold Objects.Live
          cases hbefore : objects id.timer <;> cases hafter : objects.expire now id.timer <;>
            simp_all
        exact {
          represents := { hrep' with }
          recorded := hinv.recorded.moved hlive fun _ _ => Objects.in_expire_functor
          calling := rfl
          rest := by
            rintro r ⟨rfl⟩
            exact List.suffix_rfl
          number := by
            rintro r ⟨rfl⟩
            rfl
          ran := fun round id h => Nat.le_succ_of_le (hinv.ran round id h) }

theorem moves_run (hinv : Inv q objects) : Moves q objects .run := by
  cases hround : q.round with
  | none => exact .inl (by simp only [step, hround])
  | some r =>
      cases hrest : r.rest with
      | nil => exact .inl (by simp only [step, hround, hrest])
      | cons it rest =>
          have hrep := hinv.represents
          rw [batch_of_round hround] at hrep
          have hsuffix := hinv.rest r hround
          rw [hrest] at hsuffix
          obtain ⟨t, hobject, -⟩ := (hrep.batch it).mp (hsuffix.subset List.mem_cons_self)
          refine .inr ⟨_, _, ?_, .run hround hrest hobject, ?_⟩
          · simp only [step, hround, hrest, run, hrep.deref hobject, bind, Except.bind]
            rfl
          · exact {
              represents := { hrep with }
              recorded := hinv.recorded.append ⟨_, hobject, rfl⟩ nofun nofun nofun
              calling := hinv.calling.trans (by rw [hround]; rfl)
              rest := by
                rintro _ ⟨rfl⟩
                exact (List.suffix_cons it rest).trans hsuffix
              number := by
                rintro _ ⟨rfl⟩
                exact hinv.number r hround
              ran := by
                intro round id h
                rcases List.mem_append.mp h with hold | hnew
                · exact hinv.ran round id hold
                · obtain ⟨rfl, -⟩ := TimerEvent.ran.inj (List.mem_singleton.mp hnew)
                  exact Nat.le_of_eq (hinv.number r hround) }

theorem moves_finish (hinv : Inv q objects) (clock : Timestamp) :
    Moves q objects (.finish clock) := by
  cases hround : q.round with
  | none => exact .inl (by simp only [step, hround])
  | some r =>
      by_cases hrest : r.rest = []
      · have hrep := hinv.represents
        rw [batch_of_round hround] at hrep
        obtain ⟨heap, timers, activeTimers, log, heq, hrep', hrecorded, hquiet⟩ := resetExpired_spec
          (q := { q with callingExpiredTimers := false }) { hrep with } hinv.recorded r.now
        refine .inr ⟨q.closed clock heap timers activeTimers log, _, ?_, .finish hround hrest hquiet, ?_⟩
        · have hfinish : q.finish r clock = .ok (q.closed clock heap timers activeTimers log) := by
            simp only [finish, reset, heq, rearm_spec hrep' clock, bind, Except.bind]
            rfl
          simp only [step, hround, hrest, if_true, hfinish]
        · obtain ⟨timerfd, settings, hclosed⟩ := closed_eq q clock heap timers activeTimers log
          rw [hclosed]
          exact {
            represents := { hrep' with }
            recorded := hrecorded
            calling := rfl
            rest := nofun
            number := nofun
            ran := hinv.ran_of_quiet hquiet }
      · exact .inl (by simp only [step, hround, hrest, if_false])

theorem moves_fire (hinv : Inv q objects) : Moves q objects .fire := by
  cases htimerfd : q.timerfd with
  | disarmed | fired => exact .inl (by simp only [step, htimerfd])
  | armed expiration =>
      refine .inr ⟨_, _, by simp only [step, htimerfd], .fire htimerfd, ?_⟩
      exact { hinv with represents := { hinv.represents with } }

/-- Every step that is possible goes through, as a move of the objects. -/
theorem step_moves (hinv : Inv q objects) (label : TimerLabel) : Moves q objects label := by
  cases label with
  | newTimer timer when interval => exact moves_newTimer hinv timer when interval
  | addTimerInLoop id clock => exact moves_addTimerInLoop hinv id clock
  | cancelInLoop id => exact moves_cancelInLoop hinv id
  | handleRead now => exact moves_handleRead hinv now
  | run => exact moves_run hinv
  | finish clock => exact moves_finish hinv clock
  | fire => exact moves_fire hinv

theorem step_turn (hinv : Inv q objects) {label : TimerLabel} (hstep : q.step label = .ok next) :
    ∃ objects', Turn q objects label next objects' ∧ Inv next objects' := by
  rcases step_moves hinv label with hdisabled | ⟨next', objects', heq, hturn, hnext⟩
  · rw [hdisabled] at hstep
    cases hstep
  · rw [heq, Except.ok.injEq] at hstep
    exact hstep ▸ ⟨objects', hturn, hnext⟩

/-- Runs, one move of the objects after the other. -/
theorem run_turns (condition : TimerLabel → Prop) (invariant : TimerSystem → Objects → Prop)
    (hstep : ∀ q objects label next objects', Inv q objects → invariant q objects → condition label →
      Turn q objects label next objects' → Inv next objects' → invariant next objects')
    {labels : List TimerLabel} (hinv : Inv q objects) (hinit : invariant q objects)
    (hlabels : ∀ label ∈ labels, condition label) (hrun : Execution.run step q labels = .ok next) :
    ∃ objects', Inv next objects' ∧ invariant next objects' := by
  refine run_preserves_of_meets (fun state => ∃ objects', Inv state objects' ∧ invariant state objects')
    ?_ ⟨objects, hinv, hinit⟩ (meets_of_forall hlabels q) hrun
  rintro state label after ⟨current, hcurrent, hholds⟩ hcondition hmove
  obtain ⟨objects', hturn, hafter⟩ := step_turn hcurrent hmove
  exact ⟨objects', hafter, hstep _ _ _ _ _ hcurrent hholds hcondition hturn hafter⟩

theorem inv_of_run {labels : List TimerLabel} (hrun : Execution.run step {} labels = .ok q) :
    ∃ objects, Inv q objects := by
  obtain ⟨objects, hinv, -⟩ := run_turns (fun _ => True) (fun _ _ => True)
    (fun _ _ _ _ _ _ _ _ _ _ => trivial) inv_initial trivial (fun _ _ => trivial) hrun
  exact ⟨objects, hinv⟩

/-! ## Ownership -/

/-- Where a timer object is held, as the members of the queue tell it: by a functor that has still to
put it into the queue, by the queue, by the batch that is being run, or nowhere after `delete`. -/
def Holds (q : TimerSystem) (id : TimerId) : Option Place → Prop
  | some .functor => id ∈ q.pending
  | some .queue => id ∈ q.activeTimers
  | some .batch => ∃ it ∈ q.batch, it.timer = id.timer ∧
      ∃ t, q.heap id.timer = some t ∧ t.sequence = id.sequence
  | none => .deleted id ∈ q.log

theorem holds_some (hinv : Inv q objects) (id : TimerId) (place : Place) :
    q.Holds id (some place) ↔ objects.In place id.timer (·.sequence = id.sequence) := by
  cases place with
  | functor => exact hinv.represents.pending id
  | queue => exact hinv.represents.activeTimers id
  | batch =>
      constructor
      · rintro ⟨it, hit, hsame, t, hheap, hsequence⟩
        obtain ⟨u, hobject, -⟩ := (hinv.represents.batch it).mp hit
        rw [hsame] at hobject
        rw [hinv.represents.read hobject, Option.some.injEq] at hheap
        exact ⟨u, hobject, hheap ▸ hsequence⟩
      · rintro ⟨t, hobject, hsequence⟩
        exact ⟨⟨t.expiration, id.timer⟩, (hinv.represents.batch _).mpr ⟨t, hobject, rfl⟩, rfl, t,
          hinv.represents.read hobject, hsequence⟩

theorem holds_unique (hinv : Inv q objects) {id : TimerId} (hcreated : .created id ∈ q.log) :
    ∃! place, q.Holds id place := by
  rcases hinv.recorded.created id hcreated with ⟨⟨place, t⟩, hobject, hsequence⟩ | hdeleted
  · refine ⟨some place, (holds_some hinv id place).mpr ⟨t, hobject, hsequence⟩, ?_⟩
    intro other hother
    cases other with
    | none => exact absurd ⟨_, hobject, hsequence⟩ (hinv.recorded.deleted id hother)
    | some other =>
        obtain ⟨u, hu, -⟩ := (holds_some hinv id other).mp hother
        rw [hobject, Option.some.injEq, Owned.mk.injEq] at hu
        rw [hu.1]
  · refine ⟨none, hdeleted, ?_⟩
    intro other hother
    cases other with
    | none => rfl
    | some other =>
        obtain ⟨t, hobject, hsequence⟩ := (holds_some hinv id other).mp hother
        exact absurd ⟨_, hobject, hsequence⟩ (hinv.recorded.deleted id hdeleted)

/-- The entry and the key of a queued timer are made of the same object. -/
theorem mem_timers_iff (hinv : Inv q objects) (it : Entry) :
    it ∈ q.timers ↔ ∃ t, q.heap it.timer = some t ∧ t.expiration = it.expiration ∧
      ⟨it.timer, t.sequence⟩ ∈ q.activeTimers := by
  constructor
  · intro hit
    obtain ⟨t, hobject, hexpiration⟩ := (hinv.represents.timers it).mp hit
    exact ⟨t, hinv.represents.read hobject, hexpiration,
      (hinv.represents.activeTimers _).mpr ⟨t, hobject, rfl⟩⟩
  · rintro ⟨t, hheap, hexpiration, hactive⟩
    obtain ⟨u, hobject, -⟩ := (hinv.represents.activeTimers _).mp hactive
    rw [hinv.represents.read hobject, Option.some.injEq] at hheap
    exact (hinv.represents.timers it).mpr ⟨u, hobject, hheap ▸ hexpiration⟩

theorem mem_activeTimers_iff (hinv : Inv q objects) (id : TimerId) :
    id ∈ q.activeTimers ↔ ∃ t, q.heap id.timer = some t ∧ t.sequence = id.sequence ∧
      ⟨t.expiration, id.timer⟩ ∈ q.timers := by
  constructor
  · intro hactive
    obtain ⟨t, hobject, hsequence⟩ := (hinv.represents.activeTimers id).mp hactive
    exact ⟨t, hinv.represents.read hobject, hsequence,
      (hinv.represents.timers _).mpr ⟨t, hobject, rfl⟩⟩
  · rintro ⟨t, hheap, hsequence, htimer⟩
    obtain ⟨u, hobject, -⟩ := (hinv.represents.timers _).mp htimer
    rw [hinv.represents.read hobject, Option.some.injEq] at hheap
    exact (hinv.represents.activeTimers id).mpr ⟨u, hobject, hheap ▸ hsequence⟩

/-- **Ownership.** After any run, `timers_` and `activeTimers_` hold the same objects, each under its
current expiration and its own sequence number; no assertion fails and no pointer dangles in whatever
is done next, so a step only fails to go through because it cannot be made; every timer object is held
in exactly one place, by a functor only before it is inserted for the first time; and nothing happens
to an object after its deletion. -/
theorem timers_owned (labels : List TimerLabel) (q : TimerSystem)
    (hrun : Execution.run step {} labels = .ok q) :
    (∀ it, it ∈ q.timers ↔ ∃ t, q.heap it.timer = some t ∧ t.expiration = it.expiration ∧
      ⟨it.timer, t.sequence⟩ ∈ q.activeTimers) ∧
    (∀ id, id ∈ q.activeTimers ↔ ∃ t, q.heap id.timer = some t ∧ t.sequence = id.sequence ∧
      ⟨t.expiration, id.timer⟩ ∈ q.timers) ∧
    (∀ label stop, q.step label = .error stop → stop = .disabled) ∧
    (∀ event ∈ q.log, ∃! place, q.Holds event.id place) ∧
    (∀ id, .inserted id ∈ q.log → ¬q.Holds id (some .functor)) ∧
    q.log.Pairwise fun earlier later => ∀ id, earlier = .deleted id → later.id ≠ id := by
  obtain ⟨objects, hinv⟩ := inv_of_run hrun
  refine ⟨mem_timers_iff hinv, mem_activeTimers_iff hinv, ?_, ?_, ?_, hinv.recorded.final⟩
  · intro label stop hstop
    rcases step_moves hinv label with hdisabled | ⟨next, -, hok, -⟩
    · rw [hdisabled, Except.error.injEq] at hstop
      exact hstop.symm
    · rw [hok] at hstop
      cases hstop
  · exact fun event hevent => holds_unique hinv (hinv.recorded.known event hevent)
  · intro id hinserted
    rw [holds_some hinv]
    exact hinv.recorded.inserted id hinserted

/-- Two timers expire together. The first cancels the second, which cannot be stopped any more, and
itself; a third, added and cancelled by the second, leaves its address to a fourth. -/
def crossCancel : List TimerLabel :=
  let once := Interval.never
  let second := Interval.every 1000000
  [.newTimer 1 10 second, .addTimerInLoop ⟨1, 1⟩ 1, .newTimer 2 10 second, .addTimerInLoop ⟨2, 2⟩ 1,
    .fire, .handleRead 20, .run, .cancelInLoop ⟨2, 2⟩, .cancelInLoop ⟨1, 1⟩, .run,
    .newTimer 3 15 once, .addTimerInLoop ⟨3, 3⟩ 21, .cancelInLoop ⟨3, 3⟩, .newTimer 3 30 once,
    .addTimerInLoop ⟨3, 4⟩ 22, .cancelInLoop ⟨3, 3⟩, .finish 23]

theorem timers_owned_crossCancel :
    ∃ q, Execution.run step {} crossCancel = .ok q ∧ ⟨3, 4⟩ ∈ q.activeTimers ∧
      .deleted ⟨2, 2⟩ ∈ q.log ∧ (∃! place, q.Holds ⟨2, 2⟩ place) ∧
      ∀ label stop, q.step label = .error stop → stop = .disabled := by
  obtain ⟨q, hrun, hcheck⟩ := exists_of_outcome step {} crossCancel
    (fun q => decide (⟨3, 4⟩ ∈ q.activeTimers) && decide (.deleted ⟨2, 2⟩ ∈ q.log))
    (by decide +kernel)
  simp only [Bool.and_eq_true, decide_eq_true_eq] at hcheck
  obtain ⟨hactive, hdeleted⟩ := hcheck
  obtain ⟨-, -, hstops, hheld, -⟩ := timers_owned crossCancel q hrun
  exact ⟨q, hrun, hactive, hdeleted, hheld _ hdeleted, hstops⟩

end Muduo.TimerSystem
