import Muduo.EventLoop
import Muduo.TimerQueueCancel

/-! `addTimer` and `cancel` called from any thread. Both go through `runInLoop`: in the loop thread
`addTimerInLoop` and `cancelInLoop` are called at once, in any other thread they are queued for the
loop. The queue is first in, first out, but a call in the loop thread overtakes what is queued. -/

namespace Muduo

open Execution

/-! ## The loop with its functor queue -/

/-- The functors that the timer queue hands to `runInLoop`. -/
inductive TimerFunctor where
  | addTimerInLoop (id : TimerId)
  | cancelInLoop (id : TimerId)
  deriving DecidableEq, Repr

/-- The timer that the functor puts into the queue. -/
def TimerFunctor.added : TimerFunctor → Option TimerId
  | .addTimerInLoop id => some id
  | .cancelInLoop _ => none

/-- The steps that neither `addTimer` nor `cancel` makes. -/
def TimerLabel.internal : TimerLabel → Bool
  | .handleRead _ => true
  | .run => true
  | .finish _ => true
  | .fire => true
  | .newTimer _ _ _ => false
  | .addTimerInLoop _ _ => false
  | .cancelInLoop _ => false

structure TimerLoop where
  timers : TimerSystem := {}
  queue : FunctorQueue TimerFunctor := {}

inductive LoopLabel where
  /-- `addTimer`; `clock` is what `Timestamp::now()` says if the timerfd is set at once. -/
  | addTimer (thread : Thread) (timer : Nat) (when : Timestamp) (interval : Interval)
      (clock : Timestamp)
  | cancel (thread : Thread) (id : TimerId)
  | doPendingFunctors
  /-- The next functor of the batch. -/
  | functor (clock : Timestamp)
  | handleRead (now : Timestamp)
  /-- The callback of the next expired timer. -/
  | run
  | finish (clock : Timestamp)
  | fire
  deriving DecidableEq, Repr

/-- The steps that the timer queue makes by itself. -/
def LoopLabel.inner : LoopLabel → Option TimerLabel
  | .handleRead now => some (.handleRead now)
  | .run => some .run
  | .finish clock => some (.finish clock)
  | .fire => some .fire
  | .addTimer _ _ _ _ _ => none
  | .cancel _ _ => none
  | .doPendingFunctors => none
  | .functor _ => none

theorem LoopLabel.internal_inner {label : LoopLabel} {inner : TimerLabel}
    (hinner : label.inner = some inner) : inner.internal = true := by
  cases label <;> cases hinner <;> rfl

namespace TimerLoop

/-- A step of the timer queue alone. -/
def lift (s : TimerLoop) (label : TimerLabel) : Except TimerStop TimerLoop := do
  let timers ← s.timers.step label
  return { s with timers := timers }

def queueInLoop (s : TimerLoop) (functor : TimerFunctor) : TimerLoop :=
  { s with queue := s.queue.queueInLoop functor }

/-- `functor()`. -/
def call (s : TimerLoop) (clock : Timestamp) : TimerFunctor → Except TimerStop TimerLoop
  | .addTimerInLoop id => s.lift (.addTimerInLoop id clock)
  | .cancelInLoop id => s.lift (.cancelInLoop id)

def runInLoop (s : TimerLoop) (thread : Thread) (clock : Timestamp) (functor : TimerFunctor) :
    Except TimerStop TimerLoop :=
  match thread with
  | .loop => s.call clock functor
  | .other _ => .ok (s.queueInLoop functor)

def addTimer (s : TimerLoop) (thread : Thread) (timer : Nat) (when : Timestamp) (interval : Interval)
    (clock : Timestamp) : Except TimerStop TimerLoop := do
  let s ← s.lift (.newTimer timer when interval)
  s.runInLoop thread clock (.addTimerInLoop ⟨timer, s.timers.numCreated⟩)

def cancel (s : TimerLoop) (thread : Thread) (id : TimerId) : Except TimerStop TimerLoop :=
  s.runInLoop thread 0 (.cancelInLoop id)

/-- One step. `cancel` is only called with an id that `addTimer` has returned. The loop thread handles
the timerfd and runs the functors by turns; callbacks and functors call `addTimer` and `cancel`, and
other threads do so at any time. -/
def step (s : TimerLoop) : LoopLabel → Except TimerStop TimerLoop
  | .addTimer thread timer when interval clock => s.addTimer thread timer when interval clock
  | .cancel thread id =>
      if .created id ∈ s.timers.log then s.cancel thread id else .error .disabled
  | .doPendingFunctors =>
      match s.timers.round, s.queue.swap with
      | none, some queue => .ok { s with queue := queue }
      | _, _ => .error .disabled
  | .functor clock =>
      match s.timers.round, s.queue.next with
      | none, some (functor, rest) => { s with queue := rest }.call clock functor
      | _, _ => .error .disabled
  | .handleRead now => if s.queue.functors = [] then s.lift (.handleRead now) else .error .disabled
  | .run => s.lift .run
  | .finish clock => s.lift (.finish clock)
  | .fire => s.lift .fire

variable {s next : TimerLoop} {label : LoopLabel}

theorem lift_ok {label : TimerLabel} :
    s.lift label = .ok next ↔
      ∃ timers, s.timers.step label = .ok timers ∧ next = { s with timers := timers } := by
  unfold lift
  cases hstep : s.timers.step label with
  | error stop => simp [bind, Except.bind]
  | ok timers => simp [bind, Except.bind, pure, Except.pure, eq_comm]

/-! ## What a step does -/

/-- What a step does to the timer queue and to the functors that are queued. -/
inductive Turn (s : TimerLoop) : LoopLabel → TimerLoop → Prop
  | internal {label : LoopLabel} {inner : TimerLabel} {timers : TimerSystem}
      (hstep : s.timers.step inner = .ok timers) (hinner : label.inner = some inner) :
      Turn s label { s with timers := timers }
  | cancel {id : TimerId} {timers : TimerSystem} (hcreated : .created id ∈ s.timers.log)
      (hstep : s.timers.step (.cancelInLoop id) = .ok timers) :
      Turn s (.cancel .loop id) { s with timers := timers }
  | addTimer {timer : Nat} {when : Timestamp} {interval : Interval} {clock : Timestamp}
      {created timers : TimerSystem} (hnew : s.timers.step (.newTimer timer when interval) = .ok created)
      (hadd : created.step (.addTimerInLoop ⟨timer, created.numCreated⟩ clock) = .ok timers) :
      Turn s (.addTimer .loop timer when interval clock) { s with timers := timers }
  | addTimerQueued {thread timer : Nat} {when : Timestamp} {interval : Interval} {clock : Timestamp}
      {created : TimerSystem} (hnew : s.timers.step (.newTimer timer when interval) = .ok created) :
      Turn s (.addTimer (.other thread) timer when interval clock)
        ({ s with timers := created }.queueInLoop (.addTimerInLoop ⟨timer, created.numCreated⟩))
  | cancelQueued {thread : Nat} {id : TimerId} (hcreated : .created id ∈ s.timers.log) :
      Turn s (.cancel (.other thread) id) (s.queueInLoop (.cancelInLoop id))
  | doPendingFunctors {queue : FunctorQueue TimerFunctor} (hswap : s.queue.swap = some queue) :
      Turn s .doPendingFunctors { s with queue := queue }
  | functorAdd {clock : Timestamp} {id : TimerId} {rest : FunctorQueue TimerFunctor}
      {timers : TimerSystem} (hnext : s.queue.next = some (.addTimerInLoop id, rest))
      (hstep : s.timers.step (.addTimerInLoop id clock) = .ok timers) :
      Turn s (.functor clock) { timers := timers, queue := rest }
  | functorCancel {clock : Timestamp} {id : TimerId} {rest : FunctorQueue TimerFunctor}
      {timers : TimerSystem} (hnext : s.queue.next = some (.cancelInLoop id, rest))
      (hstep : s.timers.step (.cancelInLoop id) = .ok timers) :
      Turn s (.functor clock) { timers := timers, queue := rest }

theorem step_turn (hstep : s.step label = .ok next) : Turn s label next := by
  cases label with
  | addTimer thread timer when interval clock =>
      simp only [step, addTimer] at hstep
      cases hnew : s.lift (.newTimer timer when interval) with
      | error stop => simp [hnew, bind, Except.bind] at hstep
      | ok middle =>
          obtain ⟨created, hcreated, rfl⟩ := lift_ok.mp hnew
          simp only [hnew, bind, Except.bind] at hstep
          cases thread with
          | loop =>
              obtain ⟨timers, htimers, rfl⟩ := lift_ok.mp hstep
              exact .addTimer hcreated htimers
          | other thread =>
              cases hstep
              exact .addTimerQueued hcreated
  | cancel thread id =>
      obtain ⟨hcreated, hstep⟩ := guarded_ok.mp hstep
      cases thread with
      | loop =>
          obtain ⟨timers, htimers, rfl⟩ := lift_ok.mp hstep
          exact .cancel hcreated htimers
      | other thread =>
          cases hstep
          exact .cancelQueued hcreated
  | doPendingFunctors =>
      simp only [step] at hstep
      split at hstep
      · rename_i hswap
        cases hstep
        exact .doPendingFunctors hswap
      · cases hstep
  | functor clock =>
      simp only [step] at hstep
      split at hstep
      · rename_i functor rest hround hnext
        cases functor with
        | addTimerInLoop id =>
            obtain ⟨timers, htimers, rfl⟩ := lift_ok.mp hstep
            exact .functorAdd hnext htimers
        | cancelInLoop id =>
            obtain ⟨timers, htimers, rfl⟩ := lift_ok.mp hstep
            exact .functorCancel hnext htimers
      · cases hstep
  | handleRead now =>
      obtain ⟨-, hstep⟩ := guarded_ok.mp hstep
      obtain ⟨timers, htimers, rfl⟩ := lift_ok.mp hstep
      exact .internal htimers rfl
  | run | finish clock | fire =>
      obtain ⟨timers, htimers, rfl⟩ := lift_ok.mp hstep
      exact .internal htimers rfl

/-- The timers that wait for `addTimerInLoop` are those that are queued for it, and nobody is queued to
cancel a timer before it has been inserted or in front of what inserts it. -/
structure Ordered (s : TimerLoop) (objects : Objects) : Prop where
  inv : s.timers.Inv objects
  pending : s.timers.pending = s.queue.queued.filterMap TimerFunctor.added
  cancels : ∀ front id back, s.queue.queued = front ++ .cancelInLoop id :: back →
    .inserted id ∈ s.timers.log ∨ .addTimerInLoop id ∈ front

theorem ordered_initial : Ordered {} fun _ => none where
  inv := TimerSystem.inv_initial
  pending := rfl
  cancels front id back h := by simp [FunctorQueue.queued] at h

/-- A timer has been inserted unless its `addTimerInLoop` is still queued. -/
theorem Ordered.inserted {objects : Objects} (hordered : Ordered s objects) {id : TimerId}
    (hcreated : .created id ∈ s.timers.log) :
    .inserted id ∈ s.timers.log ∨ .addTimerInLoop id ∈ s.queue.queued := by
  by_cases hwaiting : objects.In .functor id.timer (·.sequence = id.sequence)
  · right
    have hpending := (hordered.inv.represents.pending id).mpr hwaiting
    rw [hordered.pending, List.mem_filterMap] at hpending
    obtain ⟨functor, hfunctor, hadded⟩ := hpending
    cases functor with
    | addTimerInLoop other => exact Option.some.inj hadded ▸ hfunctor
    | cancelInLoop other => cases hadded
  · exact .inl (hordered.inv.recorded.waiting id hcreated hwaiting)

end TimerLoop

namespace TimerSystem

/-- The functors that wait are those of `addTimer`, until `addTimerInLoop` is called. -/
theorem Turn.pending {q next : TimerSystem} {objects objects' : Objects} {label : TimerLabel}
    (hturn : Turn q objects label next objects')
    (hlabel : label.internal = true ∨ ∃ id, label = .cancelInLoop id) : next.pending = q.pending := by
  cases hturn with
  | newTimer hfree | addTimerInLoop hobject hsequence => simp [TimerLabel.internal] at hlabel
  | cancelQueued hobject hsequence => rfl
  | cancelElsewhere hactive =>
      split
      · rfl
      · rfl
  | handleRead hround htimers => rfl
  | run hround hrest hobject => rfl
  | @finish r clock heap timers activeTimers log hround hrest hquiet =>
      obtain ⟨timerfd, settings, hclosed⟩ := closed_eq q clock heap timers activeTimers log
      rw [hclosed]
      rfl
  | fire harmed => rfl

theorem Turn.pending_newTimer {q next : TimerSystem} {objects objects' : Objects} {timer : Nat}
    {when : Timestamp} {interval : Interval}
    (hturn : Turn q objects (.newTimer timer when interval) next objects') :
    next.pending = q.pending ++ [⟨timer, next.numCreated⟩] := by
  cases hturn with
  | newTimer hfree => rfl

theorem Turn.pending_addTimerInLoop {q next : TimerSystem} {objects objects' : Objects} {id : TimerId}
    {clock : Timestamp} (hturn : Turn q objects (.addTimerInLoop id clock) next objects') :
    next.pending = q.pending.erase id ∧ .inserted id ∈ next.log := by
  cases hturn with
  | addTimerInLoop hobject hsequence =>
      have hinserted : .inserted id ∈ q.log ++ [.inserted id] :=
        List.mem_append_right _ (List.mem_singleton.mpr rfl)
      split
      · exact ⟨rfl, hinserted⟩
      · exact ⟨rfl, hinserted⟩

end TimerSystem

namespace TimerLoop

variable {s next : TimerLoop} {label : LoopLabel} {objects : Objects}

/-- A step of the timer queue that queues nothing and leaves the waiting timers alone. -/
theorem Ordered.of_pending (hordered : Ordered s objects) {timers : TimerSystem} {inner : TimerLabel}
    (hstep : s.timers.step inner = .ok timers)
    (hinner : inner.internal = true ∨ ∃ id, inner = .cancelInLoop id) :
    ∃ objects', Ordered { s with timers := timers } objects' := by
  obtain ⟨objects', hturn, hinv⟩ := TimerSystem.step_turn hordered.inv hstep
  refine ⟨objects', hinv, (hturn.pending hinner).trans hordered.pending, ?_⟩
  intro front id back hqueued
  exact (hordered.cancels front id back hqueued).imp_left hturn.log_mono

/-- The first functor of the batch has been taken out. -/
theorem Ordered.rest (hordered : Ordered s objects) {functor : TimerFunctor}
    {rest : FunctorQueue TimerFunctor} (hnext : s.queue.next = some (functor, rest))
    (front : List TimerFunctor) (id : TimerId) (back : List TimerFunctor)
    (hqueued : rest.queued = front ++ .cancelInLoop id :: back) :
    .inserted id ∈ s.timers.log ∨ functor = .addTimerInLoop id ∨ .addTimerInLoop id ∈ front := by
  have hall : s.queue.queued = (functor :: front) ++ .cancelInLoop id :: back := by
    rw [FunctorQueue.queued_next hnext, hqueued]
    rfl
  refine (hordered.cancels _ id back hall).imp_right fun hmem => ?_
  exact (List.mem_cons.mp hmem).imp_left Eq.symm

theorem Ordered.step (hordered : Ordered s objects) (hturn : Turn s label next) :
    ∃ objects', Ordered next objects' := by
  cases hturn with
  | internal hstep hinner => exact hordered.of_pending hstep (.inl (LoopLabel.internal_inner hinner))
  | cancel hcreated hstep => exact hordered.of_pending hstep (.inr ⟨_, rfl⟩)
  | @addTimer timer when interval clock created timers hnew hadd =>
      obtain ⟨objects₁, hturn₁, hinv₁⟩ := TimerSystem.step_turn hordered.inv hnew
      obtain ⟨objects₂, hturn₂, hinv₂⟩ := TimerSystem.step_turn hinv₁ hadd
      refine ⟨objects₂, hinv₂, ?_, ?_⟩
      · have hnodup := hinv₁.represents.pendingNodup
        have hpending := hturn₁.pending_newTimer
        rw [hpending] at hnodup
        show timers.pending = _
        rw [hturn₂.pending_addTimerInLoop.1, hpending, List.erase_append_right, List.erase_cons_head,
          List.append_nil]
        · exact hordered.pending
        · intro hmem
          exact (List.nodup_append.mp hnodup).2.2 _ hmem _ List.mem_cons_self rfl
      · intro front id back hqueued
        exact (hordered.cancels front id back hqueued).imp_left fun h =>
          hturn₂.log_mono (hturn₁.log_mono h)
  | @addTimerQueued thread timer when interval clock created hnew =>
      obtain ⟨objects₁, hturn₁, hinv₁⟩ := TimerSystem.step_turn hordered.inv hnew
      refine ⟨objects₁, hinv₁, ?_, ?_⟩
      · show created.pending = (s.queue.queueInLoop _).queued.filterMap _
        rw [hturn₁.pending_newTimer, FunctorQueue.queued_queueInLoop, List.filterMap_append,
          hordered.pending]
        rfl
      · intro front id back hqueued
        rcases FunctorQueue.split_queueInLoop hqueued with ⟨hlast, -⟩ | ⟨rest, hold⟩
        · cases hlast
        · exact (hordered.cancels front id rest hold).imp_left hturn₁.log_mono
  | @cancelQueued thread other hcreated =>
      refine ⟨objects, hordered.inv, ?_, ?_⟩
      · show s.timers.pending = (s.queue.queueInLoop _).queued.filterMap _
        rw [FunctorQueue.queued_queueInLoop, List.filterMap_append, hordered.pending]
        exact (List.append_nil _).symm
      · intro front id back hqueued
        rcases FunctorQueue.split_queueInLoop hqueued with ⟨hlast, hfront⟩ | ⟨rest, hold⟩
        · cases hlast
          rw [hfront]
          exact hordered.inserted hcreated
        · exact hordered.cancels front id rest hold
  | doPendingFunctors hswap =>
      refine ⟨objects, hordered.inv, ?_, ?_⟩
      · show s.timers.pending = _
        rw [FunctorQueue.queued_swap hswap]
        exact hordered.pending
      · intro front id back hqueued
        rw [FunctorQueue.queued_swap hswap] at hqueued
        exact hordered.cancels front id back hqueued
  | functorAdd hnext hstep =>
      obtain ⟨objects', hturn, hinv⟩ := TimerSystem.step_turn hordered.inv hstep
      obtain ⟨hpending, hinserted⟩ := hturn.pending_addTimerInLoop
      refine ⟨objects', hinv, ?_, ?_⟩
      · rw [hpending, hordered.pending, FunctorQueue.queued_next hnext]
        exact List.erase_cons_head _ _
      · intro front id back hqueued
        rcases hordered.rest hnext front id back hqueued with hold | hhead | hfront
        · exact .inl (hturn.log_mono hold)
        · cases hhead
          exact .inl hinserted
        · exact .inr hfront
  | functorCancel hnext hstep =>
      obtain ⟨objects', hturn, hinv⟩ := TimerSystem.step_turn hordered.inv hstep
      refine ⟨objects', hinv, ?_, ?_⟩
      · rw [hturn.pending (.inr ⟨_, rfl⟩), hordered.pending, FunctorQueue.queued_next hnext]
        rfl
      · intro front id back hqueued
        rcases hordered.rest hnext front id back hqueued with hold | hhead | hfront
        · exact .inl (hturn.log_mono hold)
        · cases hhead
        · exact .inr hfront

/-! ## Cancellation -/

/-- The step calls `cancelInLoop` for this timer, at once or out of the functor queue. -/
def Executes (s : TimerLoop) (id : TimerId) : LoopLabel → Prop
  | .cancel .loop other => other = id
  | .functor _ => ∃ rest, s.queue.next = some (.cancelInLoop id, rest)
  | _ => False

theorem Executes.inner {id : TimerId} (hexecutes : s.Executes id label) : label.inner = none := by
  cases label with
  | cancel thread other => rfl
  | functor clock => rfl
  | addTimer | doPendingFunctors | handleRead | run | finish | fire => cases hexecutes

/-- The loop thread does not overtake what is to insert the timer. -/
def Timely (s : TimerLoop) : LoopLabel → Prop
  | .cancel .loop id => .addTimerInLoop id ∉ s.queue.queued
  | _ => True

/-- Another thread adds a timer and cancels it, both before the loop has run a functor. -/
def cancelQueued : List LoopLabel × LoopLabel × List LoopLabel :=
  ([.addTimer (.other 1) 1 10 (.every 1000000) 1, .cancel (.other 2) ⟨1, 1⟩,
    .doPendingFunctors, .functor 5], .functor 6, [.fire, .handleRead 20, .finish 21])

end TimerLoop
end Muduo
