import Muduo.TimerQueueRuns

/-! Cancelling timers. A timer that has been cancelled is in the queue no more, then or later; it is
only called if the round that is being run had it in its batch and had not reached it. What is done
with any other timer is decided by that timer alone. -/

namespace Muduo.TimerSystem

open Execution

variable {q next : TimerSystem} {objects objects' : Objects} {label : TimerLabel} {id : TimerId}

/-! ## What a step does to one timer -/

/-- What becomes of a timer object in one step. -/
inductive Fate (q : TimerSystem) (id : TimerId) (t : Timer) :
    Place → TimerLabel → Option Owned → Prop
  | stays {place : Place} {label : TimerLabel}
      (hcancel : place = .queue → label ≠ .cancelInLoop id)
      (hearly : ∀ now, place = .queue → label = .handleRead now → now < t.expiration)
      (hround : ∀ clock, place = .batch → label ≠ .finish clock) :
      Fate q id t place label (some ⟨place, t⟩)
  | enters {clock : Timestamp} : Fate q id t .functor (.addTimerInLoop id clock) (some ⟨.queue, t⟩)
  | withdrawn : Fate q id t .queue (.cancelInLoop id) none
  | expires {now : Timestamp} (hdue : t.expiration ≤ now) :
      Fate q id t .queue (.handleRead now) (some ⟨.batch, t⟩)
  | settles {r : Round} {clock : Timestamp} (hround : q.round = some r) :
      Fate q id t .batch (.finish clock)
        (if t.repeats && !decide (id ∈ q.cancelingTimers) then some ⟨.queue, t.restart r.now⟩
        else none)

/-- At an address there is one object, with one id. -/
theorem same_object {other : TimerId} {place place' : Place} {t u : Timer}
    (hobject : objects id.timer = some ⟨place, t⟩) (hsequence : t.sequence = id.sequence)
    (hother : objects other.timer = some ⟨place', u⟩) (hotherSequence : u.sequence = other.sequence)
    (hsame : id.timer = other.timer) : id = other ∧ place' = place ∧ u = t := by
  obtain rfl : id = other := Objects.In.id_eq ⟨t, hobject, hsequence⟩ ⟨u, hother, hotherSequence⟩ hsame
  rw [hother, Option.some.injEq, Owned.mk.injEq] at hobject
  exact ⟨rfl, hobject⟩

theorem Turn.fate (hinv : Inv q objects) (hturn : Turn q objects label next objects') {place : Place}
    {t : Timer} (hobject : objects id.timer = some ⟨place, t⟩) (hsequence : t.sequence = id.sequence) :
    Fate q id t place label (objects' id.timer) := by
  cases hturn with
  | newTimer hfree =>
      have hne : id.timer ≠ _ := fun hsame => by
        rw [hsame, hfree] at hobject
        cases hobject
      rw [Function.update_of_ne hne, hobject]
      exact .stays nofun nofun nofun
  | @addTimerInLoop other clock u _ _ hother hotherSequence =>
      by_cases hsame : id.timer = other.timer
      · obtain ⟨rfl, rfl, rfl⟩ := same_object hobject hsequence hother hotherSequence hsame
        rw [Function.update_self]
        exact .enters
      · rw [Function.update_of_ne hsame, hobject]
        exact .stays nofun nofun nofun
  | @cancelQueued other u _ _ hother hotherSequence =>
      by_cases hsame : id.timer = other.timer
      · obtain ⟨rfl, rfl, rfl⟩ := same_object hobject hsequence hother hotherSequence hsame
        rw [Function.update_self]
        exact .withdrawn
      · rw [Function.update_of_ne hsame, hobject]
        refine .stays (fun _ heq => hsame ?_) nofun nofun
        rw [TimerLabel.cancelInLoop.inj heq]
  | cancelElsewhere hactive =>
      rw [hobject]
      refine .stays ?_ nofun nofun
      rintro rfl ⟨rfl⟩
      exact hactive ((hinv.represents.activeTimers _).mpr ⟨t, hobject, hsequence⟩)
  | @handleRead now _ _ _ hround htimers =>
      unfold Objects.expire
      rw [hobject]
      cases place with
      | functor | batch => exact .stays nofun nofun nofun
      | queue =>
          by_cases hdue : t.expiration ≤ now
          · simp only [hdue, if_true]
            exact .expires hdue
          · simp only [hdue, if_false]
            refine .stays nofun ?_ nofun
            rintro _ - ⟨rfl⟩
            exact not_le.mp hdue
  | run hround hrest hhead | fire harmed =>
      rw [hobject]
      exact .stays nofun nofun nofun
  | finish hround hrest hquiet =>
      unfold Objects.settle
      rw [hobject]
      cases place with
      | functor | queue => exact .stays nofun nofun nofun
      | batch =>
          simp only [hsequence]
          exact .settles hround

/-- What a step does to the round that is being run. -/
inductive Pace (q : TimerSystem) (objects : Objects) (r : Round) (next : TimerSystem) :
    TimerLabel → Prop
  | waits {label : TimerLabel} (hlabel : ∀ clock, label ≠ .finish clock)
      (hround : next.round = some r) (hquiet : Quiet q.log next.log)
      (hrounds : next.rounds = q.rounds)
      (hcanceling : ∀ id ∈ q.cancelingTimers, id ∈ next.cancelingTimers) : Pace q objects r next label
  | calls {it : Entry} {rest : List Entry} {t : Timer} (hrest : r.rest = it :: rest)
      (hobject : objects it.timer = some ⟨.batch, t⟩)
      (hround : next.round = some { r with rest := rest })
      (hlog : next.log = q.log ++ [.ran r.number ⟨it.timer, t.sequence⟩])
      (hrounds : next.rounds = q.rounds)
      (hcanceling : next.cancelingTimers = q.cancelingTimers) : Pace q objects r next .run
  | ends {clock : Timestamp} (hrest : r.rest = []) (hquiet : Quiet q.log next.log) :
      Pace q objects r next (.finish clock)

theorem quiet_closed {clock : Timestamp} {heap : Nat → Option Timer} {timers : OrderedSet Entry}
    {activeTimers : OrderedSet ActiveTimer} {log : List TimerEvent} (hquiet : Quiet q.log log) :
    Quiet q.log (q.closed clock heap timers activeTimers log).log := by
  obtain ⟨timerfd, settings, hclosed⟩ := closed_eq q clock heap timers activeTimers log
  rw [hclosed]
  exact hquiet

theorem Turn.pace (hturn : Turn q objects label next objects') {r : Round}
    (hround : q.round = some r) : Pace q objects r next label := by
  cases hturn with
  | newTimer hfree | cancelQueued hobject hsequence =>
      exact .waits nofun hround (.of_append nofun) rfl fun _ h => h
  | addTimerInLoop hobject hsequence =>
      split
      · exact .waits nofun hround (.of_append nofun) rfl fun _ h => h
      · exact .waits nofun hround (.of_append nofun) rfl fun _ h => h
  | cancelElsewhere hactive =>
      split
      · exact .waits nofun hround (.refl _) rfl fun _ h => OrderedSet.mem_insert.mpr (.inr h)
      · exact .waits nofun hround (.refl _) rfl fun _ h => h
  | handleRead hnone htimers =>
      rw [hround] at hnone
      cases hnone
  | run hsome hrest hobject =>
      obtain rfl : r = _ := Option.some.inj (hround.symm.trans hsome)
      exact .calls hrest hobject rfl rfl rfl rfl
  | finish hsome hrest hquiet =>
      obtain rfl : r = _ := Option.some.inj (hround.symm.trans hsome)
      exact .ends hrest (quiet_closed hquiet)
  | fire harmed => exact .waits nofun hround (.refl _) rfl fun _ h => h

theorem Turn.quiet (hturn : Turn q objects label next objects') (hround : q.round = none) :
    Quiet q.log next.log := by
  cases hturn with
  | newTimer hfree | cancelQueued hobject hsequence => exact .of_append nofun
  | addTimerInLoop hobject hsequence =>
      split
      · exact .of_append nofun
      · exact .of_append nofun
  | cancelElsewhere hactive =>
      split
      · exact .refl _
      · exact .refl _
  | handleRead hnone htimers => exact .refl _
  | run hsome hrest hobject => simp [hround] at hsome
  | finish hsome hrest hquiet => simp [hround] at hsome
  | fire harmed => exact .refl _

/-- The record is only added to, and a new callback is that of the next timer of the batch. -/
theorem Turn.log (hturn : Turn q objects label next objects') :
    ∃ extra, next.log = q.log ++ extra ∧ ∀ round id, .ran round id ∈ extra →
      ∃ r it rest t, q.round = some r ∧ r.rest = it :: rest ∧ objects it.timer = some ⟨.batch, t⟩ ∧
        id = ⟨it.timer, t.sequence⟩ ∧ round = r.number := by
  have hquietly : Quiet q.log next.log → ∃ extra, next.log = q.log ++ extra ∧
      ∀ round id, .ran round id ∈ extra → ∃ r it rest t, q.round = some r ∧ r.rest = it :: rest ∧
        objects it.timer = some ⟨.batch, t⟩ ∧ id = ⟨it.timer, t.sequence⟩ ∧ round = r.number := by
    rintro ⟨extra, heq, hnone⟩
    exact ⟨extra, heq, fun round id h => absurd h (hnone round id)⟩
  cases hround : q.round with
  | none => simpa only [hround] using hquietly (hturn.quiet hround)
  | some r =>
      simp only [hround] at hquietly
      cases hturn.pace hround with
      | waits _ _ hquiet _ _ | ends _ hquiet => exact hquietly hquiet
      | @calls it rest t hrest hobject _ hlog _ _ =>
          refine ⟨_, hlog, fun round id h => ?_⟩
          obtain ⟨rfl, rfl⟩ := TimerEvent.ran.inj (List.mem_singleton.mp h)
          exact ⟨r, it, rest, t, rfl, hrest, hobject, rfl, rfl⟩

theorem Turn.log_mono (hturn : Turn q objects label next objects') {event : TimerEvent}
    (hevent : event ∈ q.log) : event ∈ next.log := by
  obtain ⟨extra, heq, -⟩ := hturn.log
  rw [heq]
  exact List.mem_append_left _ hevent

/-- Only a round that is being run has a batch. -/
theorem Inv.round_of_batch (hinv : Inv q objects) {address : Nat} {t : Timer}
    (hobject : objects address = some ⟨.batch, t⟩) : ∃ r, q.round = some r := by
  have hbatch := (hinv.represents.batch ⟨t.expiration, address⟩).mpr ⟨t, hobject, rfl⟩
  cases hround : q.round with
  | none => simp [batch, hround] at hbatch
  | some r => exact ⟨r, rfl⟩

/-- The timer is in the batch that is being run and has not been reached. -/
def Due (q : TimerSystem) (id : TimerId) : Prop :=
  ∃ r it, q.round = some r ∧ it ∈ r.rest ∧ it.timer = id.timer ∧
    ∃ t, q.heap id.timer = some t ∧ t.sequence = id.sequence

theorem Inv.due_iff (hinv : Inv q objects) : q.Due id ↔
    ∃ r t, q.round = some r ∧ objects id.timer = some ⟨.batch, t⟩ ∧ t.sequence = id.sequence ∧
      ⟨t.expiration, id.timer⟩ ∈ r.rest := by
  have hobject : ∀ r it, q.round = some r → it ∈ r.rest →
      objects.In .batch it.timer (·.expiration = it.expiration) := by
    intro r it hround hit
    have hbatch := hinv.represents.batch it
    rw [batch_of_round hround] at hbatch
    exact hbatch.mp ((hinv.rest r hround).subset hit)
  constructor
  · rintro ⟨r, it, hround, hit, hsame, u, hheap, hsequence⟩
    obtain ⟨t, ht, hexpiration⟩ := hobject r it hround hit
    rw [hsame] at ht
    obtain rfl : t = u := Option.some.inj ((hinv.represents.read ht).symm.trans hheap)
    refine ⟨r, t, hround, ht, hsequence, ?_⟩
    rwa [hexpiration, ← hsame]
  · rintro ⟨r, t, hround, ht, hsequence, hit⟩
    exact ⟨r, _, hround, hit, rfl, t, hinv.represents.read ht, hsequence⟩

/-! ## The timer that is cancelled -/

/-- Where a timer can be after `cancelInLoop` has been called in the state `start`: it is deleted, or
the round that was being run then has it in its batch, marked as cancelled. -/
structure Stopped (start : TimerSystem) (id : TimerId) (q : TimerSystem) (objects : Objects) :
    Prop where
  inv : Inv q objects
  created : .created id ∈ q.log
  log : ∃ extra, q.log = start.log ++ extra ∧
    ∀ round, .ran round id ∈ extra → round = start.rounds ∧ start.Due id
  place : .deleted id ∈ q.log ∨
    objects.In .batch id.timer (·.sequence = id.sequence) ∧ id ∈ q.cancelingTimers ∧
      q.rounds = start.rounds ∧
      ∃ r, q.round = some r ∧ ∀ it ∈ r.rest, it.timer = id.timer → start.Due id

theorem stopped_of_cancel (hinv : Inv q objects) (hinserted : .inserted id ∈ q.log)
    (hturn : Turn q objects (.cancelInLoop id) next objects') (hnext : Inv next objects') :
    Stopped q id next objects' := by
  have hcreated : .created id ∈ q.log := hinv.recorded.known _ hinserted
  refine ⟨hnext, hturn.log_mono hcreated, ?_, ?_⟩
  · cases hturn with
    | cancelQueued hobject hsequence => exact ⟨[.deleted id], rfl, by simp⟩
    | cancelElsewhere hactive =>
        refine ⟨[], ?_, nofun⟩
        split
        · exact (List.append_nil _).symm
        · exact (List.append_nil _).symm
  · cases hturn with
    | cancelQueued hobject hsequence =>
        exact .inl (List.mem_append_right _ (List.mem_singleton.mpr rfl))
    | cancelElsewhere hactive =>
        rcases hinv.recorded.created id hcreated with ⟨⟨place, t⟩, hobject, hsequence⟩ | hdeleted
        · cases place with
          | functor =>
              exact absurd ⟨t, hobject, hsequence⟩ (hinv.recorded.inserted id hinserted)
          | queue =>
              exact absurd ((hinv.represents.activeTimers id).mpr ⟨t, hobject, hsequence⟩) hactive
          | batch =>
              obtain ⟨r, hround⟩ := hinv.round_of_batch hobject
              have hcalling : q.callingExpiredTimers = true := by
                rw [hinv.calling, hround]
                rfl
              rw [if_pos hcalling] at hnext ⊢
              refine .inr ⟨⟨t, hobject, hsequence⟩, OrderedSet.mem_insert.mpr (.inl rfl), rfl, r,
                hround, fun it hit hsame => ?_⟩
              exact ⟨r, it, hround, hit, hsame, t, hinv.represents.read hobject, hsequence⟩
        · split
          · exact .inl hdeleted
          · exact .inl hdeleted

theorem Stopped.step {start : TimerSystem} (hstopped : Stopped start id q objects)
    (hturn : Turn q objects label next objects') (hnext : Inv next objects') :
    Stopped start id next objects' := by
  obtain ⟨hinv, hcreated, ⟨extra, heq, hran⟩, hplace⟩ := hstopped
  obtain ⟨more, hmore, hmoreRan⟩ := hturn.log
  have hcreated' : .created id ∈ next.log := hturn.log_mono hcreated
  refine ⟨hnext, hcreated', ⟨extra ++ more, ?_, ?_⟩, ?_⟩
  · rw [hmore, heq, List.append_assoc]
  · intro round h
    rcases List.mem_append.mp h with hold | hnew
    · exact hran round hold
    · obtain ⟨r, it, rest, t, hround, hrest, hobject, rfl, rfl⟩ := hmoreRan round id hnew
      rcases hplace with hdeleted | ⟨-, -, hrounds, r', hround', hdue⟩
      · exact absurd ⟨_, hobject, rfl⟩ (hinv.recorded.deleted _ hdeleted)
      · obtain rfl : r = r' := Option.some.inj (hround.symm.trans hround')
        refine ⟨(hinv.number r hround).trans hrounds, hdue it ?_ rfl⟩
        rw [hrest]
        exact List.mem_cons_self
  · rcases hplace with hdeleted | ⟨⟨t, hobject, hsequence⟩, hcanceling, hrounds, r, hround, hdue⟩
    · exact .inl (hturn.log_mono hdeleted)
    · have hfate := hturn.fate hinv hobject hsequence
      cases hturn.pace hround with
      | waits hlabel hround' hquiet hrounds' hcanceling' =>
          refine .inr ⟨?_, hcanceling' id hcanceling, hrounds'.trans hrounds, r, hround', hdue⟩
          generalize hafter : objects' id.timer = after at hfate
          cases hfate with
          | stays => exact ⟨t, hafter, hsequence⟩
          | settles => exact absurd rfl (hlabel _)
      | @calls it rest u hrest hhead hround' hlog hrounds' hcanceling' =>
          refine .inr ⟨?_, hcanceling' ▸ hcanceling, hrounds'.trans hrounds, _, hround', ?_⟩
          · generalize hafter : objects' id.timer = after at hfate
            cases hfate
            exact ⟨t, hafter, hsequence⟩
          · intro other hother hsame
            refine hdue other ?_ hsame
            rw [hrest]
            exact List.mem_cons_of_mem _ hother
      | ends hrest hquiet =>
          left
          generalize hafter : objects' id.timer = after at hfate
          cases hfate with
          | stays _ _ hlabel => exact absurd rfl (hlabel _ rfl)
          | settles =>
              rw [if_neg (by simp [hcanceling])] at hafter
              refine (hnext.recorded.created id hcreated').resolve_left ?_
              rintro ⟨owned, howned, -⟩
              rw [hafter] at howned
              cases howned

theorem Stopped.not_active {start : TimerSystem} (hstopped : Stopped start id q objects) :
    id ∉ q.activeTimers := by
  intro hactive
  obtain ⟨t, hobject, hsequence⟩ := (hstopped.inv.represents.activeTimers id).mp hactive
  rcases hstopped.place with hdeleted | ⟨⟨u, hbatch, -⟩, -⟩
  · exact hstopped.inv.recorded.deleted id hdeleted ⟨_, hobject, hsequence⟩
  · rw [hobject] at hbatch
    cases hbatch

/-! ## The other timers -/

/-- Nothing that is kept about a timer differs between two states. -/
structure Unaffected (q next : TimerSystem) (other : TimerId) : Prop where
  object : ∀ t, t.sequence = other.sequence →
    (next.heap other.timer = some t ↔ q.heap other.timer = some t)
  timers : ∀ t, q.heap other.timer = some t → t.sequence = other.sequence →
    ∀ expiration, (⟨expiration, other.timer⟩ ∈ next.timers ↔ ⟨expiration, other.timer⟩ ∈ q.timers)
  activeTimers : other ∈ next.activeTimers ↔ other ∈ q.activeTimers
  cancelingTimers : other ∈ next.cancelingTimers ↔ other ∈ q.cancelingTimers
  pending : next.pending = q.pending
  round : next.round = q.round
  timerfd : next.timerfd = q.timerfd

theorem unaffected_of_cancel (hinv : Inv q objects)
    (hturn : Turn q objects (.cancelInLoop id) next objects') (hnext : Inv next objects')
    {other : TimerId} (hother : other ≠ id) : q.Unaffected next other := by
  cases hturn with
  | @cancelQueued _ t timers activeTimers hobject hsequence =>
      have hread : q.heap id.timer = some t := hinv.represents.read hobject
      refine ⟨?_, ?_, ?_, Iff.rfl, rfl, rfl, rfl⟩
      · intro u hu
        show Function.update q.heap id.timer none other.timer = some u ↔ _
        by_cases hsame : other.timer = id.timer
        · rw [hsame, Function.update_self, hread]
          constructor
          · exact nofun
          · rintro ⟨rfl⟩
            refine absurd ?_ hother
            cases other
            cases id
            simp_all
        · rw [Function.update_of_ne hsame]
      · intro u hu huSequence expiration
        have hne : other.timer ≠ id.timer := by
          intro hsame
          rw [hsame, hread, Option.some.injEq] at hu
          refine hother ?_
          cases other
          cases id
          simp_all
        have hafter := hnext.represents.timers ⟨expiration, other.timer⟩
        rw [Objects.in_update] at hafter
        rw [hafter, hinv.represents.timers]
        simp [hne]
      · have hafter := hnext.represents.activeTimers other
        rw [Objects.in_update] at hafter
        rw [hafter, hinv.represents.activeTimers]
        constructor
        · rintro (⟨-, u, hu, -⟩ | ⟨-, hin⟩)
          · cases hu
          · exact hin
        · intro hin
          exact .inr ⟨fun hsame => hother (hin.id_eq ⟨t, hobject, hsequence⟩ hsame), hin⟩
  | cancelElsewhere hactive =>
      split
      · refine ⟨fun _ _ => Iff.rfl, fun _ _ _ _ => Iff.rfl, Iff.rfl, ?_, rfl, rfl, rfl⟩
        show other ∈ (q.cancelingTimers.insert id).1 ↔ _
        rw [OrderedSet.mem_insert]
        exact or_iff_right hother
      · exact ⟨fun _ _ => Iff.rfl, fun _ _ _ _ => Iff.rfl, Iff.rfl, Iff.rfl, rfl, rfl, rfl⟩

/-- A timer of the batch stays due until its callback is run. -/
theorem due_step (hinv : Inv q objects) (hturn : Turn q objects label next objects')
    (hnext : Inv next objects') (hdue : q.Due id) :
    next.Due id ∨ ∃ round, next.log = q.log ++ [.ran round id] := by
  obtain ⟨r, t, hround, hobject, hsequence, hit⟩ := hinv.due_iff.mp hdue
  have hfate := hturn.fate hinv hobject hsequence
  generalize hafter : objects' id.timer = after at hfate
  cases hturn.pace hround with
  | waits hlabel hround' _ _ _ =>
      left
      cases hfate with
      | stays => exact hnext.due_iff.mpr ⟨r, t, hround', hafter, hsequence, hit⟩
      | settles => exact absurd rfl (hlabel _)
  | @calls it rest u hrest hhead hround' hlog _ _ =>
      rw [hrest] at hit
      rcases List.mem_cons.mp hit with rfl | hlater
      · right
        rw [hobject, Option.some.injEq, Owned.mk.injEq] at hhead
        obtain ⟨-, rfl⟩ := hhead
        rw [hsequence] at hlog
        exact ⟨r.number, hlog⟩
      · left
        cases hfate with
        | stays => exact hnext.due_iff.mpr ⟨_, t, hround', hafter, hsequence, hlater⟩
  | ends hrest _ =>
      rw [hrest] at hit
      cases hit

theorem due_run {labels : List TimerLabel} (hinv : Inv q objects) (hdue : q.Due id)
    (hrun : Execution.run step q labels = .ok next) :
    ∃ extra, next.log = q.log ++ extra ∧ (next.Due id ∨ ∃ round, .ran round id ∈ extra) := by
  obtain ⟨-, -, hfinal⟩ := run_turns (fun _ => True)
    (fun state _ => ∃ extra, state.log = q.log ++ extra ∧
      (state.Due id ∨ ∃ round, .ran round id ∈ extra)) (by
    rintro state objects label after objects' hstate ⟨extra, heq, hholds⟩ - hturn hafter
    obtain ⟨more, hmore, -⟩ := hturn.log
    refine ⟨extra ++ more, by rw [hmore, heq, List.append_assoc], ?_⟩
    rcases hholds with hwaiting | ⟨round, hran⟩
    · rcases due_step hstate hturn hafter hwaiting with hstill | ⟨round, hcalled⟩
      · exact .inl hstill
      · refine .inr ⟨round, List.mem_append_right _ ?_⟩
        rw [hmore, List.append_cancel_left_eq] at hcalled
        rw [hcalled]
        exact List.mem_singleton.mpr rfl
    · exact .inr ⟨round, List.mem_append_left _ hran⟩)
    hinv ⟨[], (List.append_nil _).symm, .inl hdue⟩ (fun _ _ => trivial) hrun
  exact hfinal

/-- A timer that expires is due in the round that takes it out of the queue. -/
theorem Turn.due {now : Timestamp} (hturn : Turn q objects (.handleRead now) next objects')
    (hnext : Inv next objects') {t : Timer} (hobject : objects' id.timer = some ⟨.batch, t⟩)
    (hsequence : t.sequence = id.sequence) : next.Due id := by
  have hbatch := (hnext.represents.batch ⟨t.expiration, id.timer⟩).mpr ⟨t, hobject, rfl⟩
  cases hturn with
  | handleRead hround htimers =>
      exact hnext.due_iff.mpr ⟨_, t, rfl, hobject, hsequence, hbatch⟩

/-- A queued timer that is not cancelled stays as it is while its time has not come, is taken by the
first `handleRead` for which it has, and is then called. -/
theorem queued_run {labels : List TimerLabel} {t : Timer} (hinv : Inv q objects)
    (hobject : objects id.timer = some ⟨.queue, t⟩) (hsequence : t.sequence = id.sequence)
    (hlabels : ∀ label ∈ labels, label ≠ .cancelInLoop id)
    (hrun : Execution.run step q labels = .ok next) :
    ∃ extra, next.log = q.log ++ extra ∧
      ((id ∈ next.activeTimers ∧ next.heap id.timer = some t ∧
        ∀ now, .handleRead now ∈ labels → now < t.expiration) ∨
      next.Due id ∨ ∃ round, .ran round id ∈ extra) := by
  induction labels generalizing q objects with
  | nil =>
      rw [run_nil, Except.ok.injEq] at hrun
      subst hrun
      exact ⟨[], (List.append_nil _).symm, .inl ⟨(hinv.represents.activeTimers id).mpr
        ⟨t, hobject, hsequence⟩, hinv.represents.read hobject, nofun⟩⟩
  | cons label labels ih =>
      obtain ⟨middle, hstep, hrest⟩ := run_cons_ok.mp hrun
      obtain ⟨objects', hturn, hmiddle⟩ := step_turn hinv hstep
      obtain ⟨more, hmore, -⟩ := hturn.log
      have hfate := hturn.fate hinv hobject hsequence
      generalize hafter : objects' id.timer = after at hfate
      cases hfate with
      | stays hcancel hearly hround =>
          obtain ⟨extra, heq, hfinal⟩ := ih hmiddle hafter
            (fun later hlater => hlabels later (List.mem_cons_of_mem _ hlater)) hrest
          refine ⟨more ++ extra, by rw [heq, hmore, List.append_assoc], ?_⟩
          rcases hfinal with ⟨hactive, hheap, hlater⟩ | hdue | ⟨round, hran⟩
          · refine .inl ⟨hactive, hheap, fun now hnow => ?_⟩
            rcases List.mem_cons.mp hnow with hhead | htail
            · exact hearly now rfl hhead.symm
            · exact hlater now htail
          · exact .inr (.inl hdue)
          · exact .inr (.inr ⟨round, List.mem_append_right _ hran⟩)
      | withdrawn => exact absurd rfl (hlabels _ List.mem_cons_self)
      | expires hnow =>
          obtain ⟨extra, heq, hfinal⟩ := due_run hmiddle (hturn.due hmiddle hafter hsequence) hrest
          refine ⟨more ++ extra, by rw [heq, hmore, List.append_assoc], .inr ?_⟩
          rcases hfinal with hdue | ⟨round, hran⟩
          · exact .inl hdue
          · exact .inr ⟨round, List.mem_append_right _ hran⟩

/-- The timer exists and is not marked as cancelled. -/
def Kept (q : TimerSystem) (id : TimerId) : Prop :=
  q.Holds id (some .functor) ∨ q.Holds id (some .queue) ∨
    q.Holds id (some .batch) ∧ id ∉ q.cancelingTimers

theorem Inv.kept_iff (hinv : Inv q objects) : q.Kept id ↔
    ∃ place t, objects id.timer = some ⟨place, t⟩ ∧ t.sequence = id.sequence ∧
      (place = .batch → id ∉ q.cancelingTimers) := by
  unfold Kept
  rw [holds_some hinv, holds_some hinv, holds_some hinv]
  constructor
  · rintro (⟨t, hobject, hsequence⟩ | ⟨t, hobject, hsequence⟩ | ⟨⟨t, hobject, hsequence⟩, hfree⟩)
    · exact ⟨.functor, t, hobject, hsequence, nofun⟩
    · exact ⟨.queue, t, hobject, hsequence, nofun⟩
    · exact ⟨.batch, t, hobject, hsequence, fun _ => hfree⟩
  · rintro ⟨place, t, hobject, hsequence, hfree⟩
    cases place with
    | functor => exact .inl ⟨t, hobject, hsequence⟩
    | queue => exact .inr (.inl ⟨t, hobject, hsequence⟩)
    | batch => exact .inr (.inr ⟨⟨t, hobject, hsequence⟩, hfree rfl⟩)

/-- Timers are marked as cancelled one by one, and all marks are gone when a round begins. -/
theorem Turn.canceling (hturn : Turn q objects label next objects')
    (hmarked : id ∈ next.cancelingTimers) :
    (∀ now, label ≠ .handleRead now) ∧ (id ∈ q.cancelingTimers ∨ label = .cancelInLoop id) := by
  cases hturn with
  | newTimer hfree | cancelQueued hobject hsequence | run hround hrest hobject | fire harmed =>
      exact ⟨nofun, .inl hmarked⟩
  | addTimerInLoop hobject hsequence =>
      refine ⟨nofun, .inl ?_⟩
      split at hmarked
      · exact hmarked
      · exact hmarked
  | cancelElsewhere hactive =>
      refine ⟨nofun, ?_⟩
      split at hmarked
      · rcases OrderedSet.mem_insert.mp hmarked with rfl | hold
        · exact .inr rfl
        · exact .inl hold
      · exact .inl hmarked
  | handleRead hround htimers => exact absurd hmarked (OrderedSet.not_mem_empty _)
  | @finish r clock heap timers activeTimers log hround hrest hquiet =>
      obtain ⟨timerfd, settings, hclosed⟩ := closed_eq q clock heap timers activeTimers log
      rw [hclosed] at hmarked
      exact ⟨nofun, .inl hmarked⟩

/-- A repeating timer that is kept. -/
def Recurs (id : TimerId) (q : TimerSystem) (objects : Objects) : Prop :=
  ∃ place t, objects id.timer = some ⟨place, t⟩ ∧ t.sequence = id.sequence ∧ t.repeats = true ∧
    (place = .batch → id ∉ q.cancelingTimers)

theorem Recurs.step (hinv : Inv q objects) (hrecurs : Recurs id q objects)
    (hlabel : label ≠ .cancelInLoop id) (hturn : Turn q objects label next objects') :
    Recurs id next objects' := by
  obtain ⟨place, t, hobject, hsequence, hrepeats, hfree⟩ := hrecurs
  have hfate := hturn.fate hinv hobject hsequence
  generalize hafter : objects' id.timer = after at hfate
  cases hfate with
  | stays =>
      refine ⟨place, t, hafter, hsequence, hrepeats, fun hbatch hmarked => ?_⟩
      exact (hturn.canceling hmarked).2.elim (hfree hbatch) hlabel
  | enters => exact ⟨.queue, t, hafter, hsequence, hrepeats, nofun⟩
  | withdrawn => exact absurd rfl hlabel
  | expires =>
      refine ⟨.batch, t, hafter, hsequence, hrepeats, fun _ hmarked => ?_⟩
      exact (hturn.canceling hmarked).1 _ rfl
  | @settles r clock hround =>
      rw [if_pos (by simp [hrepeats, hfree rfl])] at hafter
      refine ⟨.queue, t.restart r.now, hafter, ?_, ?_, nofun⟩
      · rw [Timer.restart, if_pos hrepeats]
        exact hsequence
      · rw [Timer.restart, if_pos hrepeats]
        exact hrepeats

/-- A repeating timer goes on until it is cancelled. -/
theorem kept_run {labels : List TimerLabel} {t : Timer} (hinv : Inv q objects) (hkept : q.Kept id)
    (hheap : q.heap id.timer = some t) (hrepeats : t.repeats = true)
    (hlabels : ∀ label ∈ labels, label ≠ .cancelInLoop id)
    (hrun : Execution.run step q labels = .ok next) : next.Kept id := by
  have hrecurs : Recurs id q objects := by
    obtain ⟨place, u, hobject, hsequence, hfree⟩ := hinv.kept_iff.mp hkept
    rw [hinv.represents.read hobject, Option.some.injEq] at hheap
    exact ⟨place, u, hobject, hsequence, hheap ▸ hrepeats, hfree⟩
  obtain ⟨objects', hnext, place, u, hobject, hsequence, -, hfree⟩ := run_turns
    (· ≠ .cancelInLoop id) (Recurs id)
    (fun _ _ _ _ _ hstate hholds hlabel hturn _ => hholds.step hstate hlabel hturn)
    hinv hrecurs hlabels hrun
  exact hnext.kept_iff.mpr ⟨place, u, hobject, hsequence, hfree⟩

/-! ## Cancellation -/

/-- What becomes of a timer from the state `q` to the state `next`, while `labels` are executed and
`extra` is recorded. -/
structure Undisturbed (q next : TimerSystem) (labels : List TimerLabel) (extra : List TimerEvent)
    (id : TimerId) : Prop where
  /-- A queued timer stays as it is until a `handleRead` finds that its time has come, and is due or
  has been called after that. -/
  queued : ∀ t, id ∈ q.activeTimers → q.heap id.timer = some t →
    (id ∈ next.activeTimers ∧ next.heap id.timer = some t ∧
      ∀ now, .handleRead now ∈ labels → now < t.expiration) ∨
    next.Due id ∨ ∃ round, .ran round id ∈ extra
  due : q.Due id → next.Due id ∨ ∃ round, .ran round id ∈ extra
  repeating : ∀ t, q.heap id.timer = some t → t.repeats = true → q.Kept id → next.Kept id

theorem undisturbed_of_run {labels : List TimerLabel} {extra : List TimerEvent} (hinv : Inv q objects)
    (hlabels : ∀ label ∈ labels, label ≠ .cancelInLoop id)
    (hrun : Execution.run step q labels = .ok next) (hextra : next.log = q.log ++ extra) :
    Undisturbed q next labels extra id := by
  refine ⟨?_, ?_, ?_⟩
  · intro t hactive hheap
    obtain ⟨u, hobject, hsequence⟩ := (hinv.represents.activeTimers id).mp hactive
    obtain rfl : u = t := Option.some.inj ((hinv.represents.read hobject).symm.trans hheap)
    obtain ⟨extra', heq, hfinal⟩ := queued_run hinv hobject hsequence hlabels hrun
    obtain rfl : extra' = extra := List.append_cancel_left (heq.symm.trans hextra)
    exact hfinal
  · intro hdue
    obtain ⟨extra', heq, hfinal⟩ := due_run hinv hdue hrun
    obtain rfl : extra' = extra := List.append_cancel_left (heq.symm.trans hextra)
    exact hfinal
  · intro t hheap hrepeats hkept
    exact kept_run hinv hkept hheap hrepeats hlabels hrun

/-- **Cancellation is final.** When `cancelInLoop` is called for a timer that has been inserted, then
whatever is done afterwards the timer is in the queue no more, and its callback is only run in the
round of that call and if the batch had the timer and had not reached it. No other timer is affected:
the call leaves everything that is kept about it as it is, and every timer that is not itself
cancelled stays in the queue until its time has come, is called then, and goes on if it repeats. -/
theorem cancellation_final (before after : List TimerLabel) (q q₁ q₂ : TimerSystem) (id : TimerId)
    (hbefore : Execution.run step {} before = .ok q) (hinserted : .inserted id ∈ q.log)
    (hcancel : q.step (.cancelInLoop id) = .ok q₁) (hafter : Execution.run step q₁ after = .ok q₂) :
    ∃ extra, q₂.log = q.log ++ extra ∧
      (∀ round, .ran round id ∈ extra → round = q.rounds ∧ q.Due id) ∧
      id ∉ q₂.activeTimers ∧
      ∀ other, other ≠ id → q.Unaffected q₁ other ∧
        ((∀ label ∈ after, label ≠ .cancelInLoop other) →
          Undisturbed q q₂ (.cancelInLoop id :: after) extra other) := by
  obtain ⟨objects, hinv⟩ := inv_of_run hbefore
  obtain ⟨objects₁, hturn, hinv₁⟩ := step_turn hinv hcancel
  obtain ⟨objects₂, hinv₂, hstopped⟩ := run_turns (fun _ => True) (Stopped q id)
    (fun _ _ _ _ _ _ hholds _ hturn hnext => hholds.step hturn hnext)
    hinv₁ (stopped_of_cancel hinv hinserted hturn hinv₁) (fun _ _ => trivial) hafter
  obtain ⟨extra, hextra, hran⟩ := hstopped.log
  refine ⟨extra, hextra, hran, hstopped.not_active, fun other hother => ⟨?_, fun hlabels => ?_⟩⟩
  · exact unaffected_of_cancel hinv hturn hinv₁ hother
  · refine undisturbed_of_run hinv ?_ (run_cons_ok.mpr ⟨q₁, hcancel, hafter⟩) hextra
    intro label hlabel
    rcases List.mem_cons.mp hlabel with rfl | hlater
    · intro heq
      exact hother (TimerLabel.cancelInLoop.inj heq).symm
    · exact hlabels label hlater

/-- Two repeating timers expire together; the callback of the first cancels the second, which is run
in this round and never again. -/
def cancelNext : List TimerLabel × List TimerLabel :=
  let second := Interval.every 1000000
  ([.newTimer 1 10 second, .addTimerInLoop ⟨1, 1⟩ 1, .newTimer 2 11 second, .addTimerInLoop ⟨2, 2⟩ 1,
    .fire, .handleRead 20, .run],
    [.run, .finish 22, .fire, .handleRead 1000020, .run, .finish 1000021])

theorem cancellation_final_cancelNext :
    ∃ q q₁ q₂, Execution.run step {} cancelNext.1 = .ok q ∧ .inserted ⟨2, 2⟩ ∈ q.log ∧
      q.step (.cancelInLoop ⟨2, 2⟩) = .ok q₁ ∧ Execution.run step q₁ cancelNext.2 = .ok q₂ ∧
      .ran 1 ⟨2, 2⟩ ∈ q₂.log ∧ q₂.rounds = 2 ∧ ⟨2, 2⟩ ∉ q₂.activeTimers ∧
      q.Unaffected q₁ ⟨1, 1⟩ := by
  obtain ⟨q₂, hrun, hcheck⟩ := exists_of_outcome step {}
    (cancelNext.1 ++ .cancelInLoop ⟨2, 2⟩ :: cancelNext.2)
    (fun q => decide (.ran 1 ⟨2, 2⟩ ∈ q.log) && q.rounds == 2) (by decide +kernel)
  simp only [Bool.and_eq_true, decide_eq_true_eq, beq_iff_eq] at hcheck
  obtain ⟨q, hbefore, hrest⟩ := run_append_ok.mp hrun
  obtain ⟨q₁, hcancel, hafter⟩ := run_cons_ok.mp hrest
  have hinserted : .inserted ⟨2, 2⟩ ∈ q.log := by
    obtain ⟨other, hother, hin⟩ := exists_of_outcome step {} cancelNext.1
      (fun q => decide (.inserted ⟨2, 2⟩ ∈ q.log)) (by decide +kernel)
    obtain rfl : q = other := Except.ok.inj (hbefore.symm.trans hother)
    exact of_decide_eq_true hin
  obtain ⟨extra, -, -, hactive, hothers⟩ :=
    cancellation_final cancelNext.1 cancelNext.2 q q₁ q₂ ⟨2, 2⟩ hbefore hinserted hcancel hafter
  exact ⟨q, q₁, q₂, hbefore, hinserted, hcancel, hafter, hcheck.1, hcheck.2, hactive,
    (hothers ⟨1, 1⟩ (by decide)).1⟩

end Muduo.TimerSystem
