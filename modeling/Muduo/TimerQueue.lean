import Mathlib.Algebra.Order.Ring.Int
import Mathlib.Logic.Function.Basic
import Muduo.Execution
import Muduo.OrderedSet
import Muduo.Timestamp

/-! `muduo::net::TimerQueue` with the `Timer` objects it owns, the timerfd and the kernel behind it.
A `Timer*` is an address; the heap says which object lives there, and an address is given out again
once its object is deleted. Reaching for an object that is not there, or deleting it again, stops the
program, and so does a failed assertion.

`handleRead` calls back into user code, once for each timer of the expired batch, and that code may
add and cancel timers. It is cut there: its first part takes the batch out, each callback is a step of
its own, what the callbacks do are further steps, and the last part puts the batch back. -/

namespace Muduo

/-! ## Timers -/

/-- A `double` of seconds, as far as the code looks at it: whether it is greater than `0.0`, and the
microseconds it is converted to, rounded towards zero. -/
structure Interval where
  positive : Bool
  microSeconds : Int
  nonneg : positive = true → 0 ≤ microSeconds
  deriving DecidableEq, Repr

namespace Interval

/-- `0.0`. -/
def never : Interval := ⟨false, 0, nofun⟩

def every (microSeconds : Nat) : Interval := ⟨true, microSeconds, fun _ => Int.natCast_nonneg _⟩

end Interval

def addTime (timestamp : Timestamp) (seconds : Interval) : Timestamp :=
  timestamp + seconds.microSeconds

/-- The members of `Timer`; the callback itself is left to the user. -/
structure Timer where
  expiration : Timestamp
  interval : Interval
  sequence : Nat
  deriving DecidableEq, Repr

namespace Timer

/-- `repeat_`. -/
def repeats (t : Timer) : Bool := t.interval.positive

def restart (t : Timer) (now : Timestamp) : Timer :=
  if t.repeats then { t with expiration := addTime now t.interval }
  else { t with expiration := Timestamp.invalid }

end Timer

/-- What `addTimer` returns. -/
structure TimerId where
  timer : Nat
  sequence : Nat
  deriving DecidableEq, Repr

/-- `std::pair<Timer*, int64_t>`. -/
abbrev ActiveTimer := TimerId

/-- `std::pair<Timestamp, Timer*>`. -/
structure Entry where
  expiration : Timestamp
  timer : Nat
  deriving DecidableEq, Repr

instance : LinearOrder TimerId :=
  LinearOrder.lift' (fun id => toLex (id.timer, id.sequence)) fun id other heq => by
    cases id
    cases other
    simpa using heq

instance : LinearOrder Entry :=
  LinearOrder.lift' (fun entry => toLex (entry.expiration, entry.timer)) fun entry other heq => by
    cases entry
    cases other
    simpa using heq

theorem Entry.le_iff (entry other : Entry) : entry ≤ other ↔
    entry.expiration < other.expiration ∨
      entry.expiration = other.expiration ∧ entry.timer ≤ other.timer :=
  Prod.Lex.toLex_le_toLex

theorem Entry.expiration_le {entry other : Entry} (hle : entry ≤ other) :
    entry.expiration ≤ other.expiration := by
  rcases (Entry.le_iff entry other).mp hle with hlt | ⟨heq, -⟩
  · exact le_of_lt hlt
  · exact le_of_eq heq

theorem Entry.lt_iff (entry other : Entry) : entry < other ↔
    entry.expiration < other.expiration ∨
      entry.expiration = other.expiration ∧ entry.timer < other.timer :=
  Prod.Lex.toLex_lt_toLex

def UINTPTR_MAX : Nat := 2 ^ 64 - 1

/-! ## The timerfd -/

structure TimeSpec where
  tv_sec : Int
  tv_nsec : Int
  deriving DecidableEq, Repr

/-- `howMuchTimeFromNow`; the division and the remainder are those of C++. -/
def howMuchTimeFromNow (now : Timestamp) (expiration : Timestamp) : TimeSpec :=
  let microseconds := expiration - now
  let microseconds := if microseconds < 100 then 100 else microseconds
  { tv_sec := microseconds.tdiv Timestamp.kMicroSecondsPerSecond
    tv_nsec := microseconds.tmod Timestamp.kMicroSecondsPerSecond * 1000 }

/-- The kernel's timer, with the expiration it was last set for. -/
inductive Timerfd where
  | disarmed
  | armed (expiration : Timestamp)
  /-- It has expired and has not been read since. -/
  | fired
  deriving DecidableEq, Repr

/-- `timerfd_settime` with a relative value: it fails on a value that is not a time, and zero disarms
the timer. An expiration that has not been read is forgotten. -/
def timerfd_settime (timerfd : Timerfd) (value : TimeSpec) (expiration : Timestamp) : Timerfd :=
  if value.tv_sec < 0 ∨ value.tv_nsec < 0 ∨ 1000000000 ≤ value.tv_nsec then timerfd
  else if value.tv_sec = 0 ∧ value.tv_nsec = 0 then .disarmed
  else .armed expiration

/-- A call of `timerfd_settime`. -/
structure Setting where
  expiration : Timestamp
  now : Timestamp
  value : TimeSpec
  deriving DecidableEq, Repr

/-! ## The state -/

/-- The members of the class. -/
structure TimerQueue where
  timers : OrderedSet Entry := .empty
  activeTimers : OrderedSet ActiveTimer := .empty
  callingExpiredTimers : Bool := false
  cancelingTimers : OrderedSet ActiveTimer := .empty

/-- The locals of a `handleRead` that has called back into user code. -/
structure Round where
  number : Nat
  now : Timestamp
  expired : List Entry
  /-- The timers of the batch that have not been reached. -/
  rest : List Entry
  deriving DecidableEq, Repr

/-- What happens to a timer object. -/
inductive TimerEvent where
  | created (id : TimerId)
  | inserted (id : TimerId)
  | ran (round : Nat) (id : TimerId)
  | restarted (id : TimerId)
  | deleted (id : TimerId)
  deriving DecidableEq, Repr

def TimerEvent.id : TimerEvent → TimerId
  | .created id => id
  | .inserted id => id
  | .ran _ id => id
  | .restarted id => id
  | .deleted id => id

/-- The queue with the timer objects, the timerfd, the running `handleRead`, and a record of what has
happened. -/
structure TimerSystem extends TimerQueue where
  heap : Nat → Option Timer := fun _ => none
  numCreated : Nat := 0
  /-- Timers that `addTimer` has created and `addTimerInLoop` has not been called for. -/
  pending : List TimerId := []
  timerfd : Timerfd := .disarmed
  settings : List Setting := []
  /-- How many times `handleRead` has been called. -/
  rounds : Nat := 0
  round : Option Round := none
  log : List TimerEvent := []

/-- Why a step does not go through. -/
inductive TimerStop where
  /-- `assert(timers_.size() == activeTimers_.size())`. -/
  | sizesDiffer
  /-- `assert(n == 1)`. -/
  | notErased
  /-- `assert(result.second)`. -/
  | notInserted
  /-- `assert(end == timers_.end() || now < end->first)`. -/
  | notSplit
  /-- There is no object at the address. -/
  | dangling (timer : Nat)
  | disabled
  deriving DecidableEq, Repr

def require (condition : Bool) (stop : TimerStop) : Except TimerStop Unit :=
  if condition then .ok () else .error stop

namespace TimerSystem

def record (q : TimerSystem) (event : TimerEvent) : TimerSystem := { q with log := q.log ++ [event] }

def write (q : TimerSystem) (timer : Nat) (object : Option Timer) : TimerSystem :=
  { q with heap := Function.update q.heap timer object }

/-- `*timer`. -/
def deref (q : TimerSystem) (timer : Nat) : Except TimerStop Timer :=
  match q.heap timer with
  | some t => .ok t
  | none => .error (.dangling timer)

/-- `delete timer`. -/
def delete (q : TimerSystem) (timer : Nat) : Except TimerStop TimerSystem := do
  let t ← q.deref timer
  return (q.write timer none).record (.deleted ⟨timer, t.sequence⟩)

/-- `new Timer(cb, when, interval)` at the address the allocator has chosen. -/
def newTimer (q : TimerSystem) (timer : Nat) (when : Timestamp) (interval : Interval) : TimerSystem :=
  let sequence := q.numCreated + 1
  let q := (q.write timer (some ⟨when, interval, sequence⟩)).record (.created ⟨timer, sequence⟩)
  { q with numCreated := sequence, pending := q.pending ++ [⟨timer, sequence⟩] }

def sizesAgree (q : TimerSystem) : Bool := q.timers.size == q.activeTimers.size

/-- `it == timers_.end() || when < it->first`, where `it` is `timers_.begin()`. -/
def isEarliest (q : TimerSystem) (when : Timestamp) : Bool :=
  match q.timers.first with
  | none => true
  | some it => decide (when < it.expiration)

def insert (q : TimerSystem) (timer : Nat) : Except TimerStop (Bool × TimerSystem) := do
  require q.sizesAgree .sizesDiffer
  let t ← q.deref timer
  let when := t.expiration
  let earliestChanged := q.isEarliest when
  let (timers, result) := q.timers.insert ⟨when, timer⟩
  require result .notInserted
  let (activeTimers, result) := q.activeTimers.insert ⟨timer, t.sequence⟩
  require result .notInserted
  let q := { q with timers := timers, activeTimers := activeTimers }
  require q.sizesAgree .sizesDiffer
  return (earliestChanged, q.record (.inserted ⟨timer, t.sequence⟩))

def resetTimerfd (q : TimerSystem) (now : Timestamp) (expiration : Timestamp) : TimerSystem :=
  let newValue := howMuchTimeFromNow now expiration
  { q with
    timerfd := timerfd_settime q.timerfd newValue expiration
    settings := q.settings ++ [⟨expiration, now, newValue⟩] }

/-- `readTimerfd`; the read gets nothing while the timer has not expired. -/
def readTimerfd (q : TimerSystem) : TimerSystem :=
  { q with timerfd := if q.timerfd = .fired then .disarmed else q.timerfd }

/-- `addTimerInLoop`; `clock` is what `Timestamp::now()` says if the timerfd is set. -/
def addTimerInLoop (q : TimerSystem) (timer : Nat) (clock : Timestamp) :
    Except TimerStop TimerSystem := do
  let (earliestChanged, q) ← q.insert timer
  if earliestChanged then
    let t ← q.deref timer
    return q.resetTimerfd clock t.expiration
  else return q

def cancelInLoop (q : TimerSystem) (timerId : TimerId) : Except TimerStop TimerSystem := do
  require q.sizesAgree .sizesDiffer
  let q ←
    if timerId ∈ q.activeTimers then do
      let t ← q.deref timerId.timer
      let (timers, n) := q.timers.erase ⟨t.expiration, timerId.timer⟩
      require (n == 1) .notErased
      let q ← { q with timers := timers }.delete timerId.timer
      pure { q with activeTimers := (q.activeTimers.erase timerId).1 }
    else if q.callingExpiredTimers then
      pure { q with cancelingTimers := (q.cancelingTimers.insert timerId).1 }
    else pure q
  require q.sizesAgree .sizesDiffer
  return q

/-- The loop of `getExpired`. -/
def eraseExpired (q : TimerSystem) : List Entry → Except TimerStop TimerSystem
  | [] => .ok q
  | it :: rest => do
      let t ← q.deref it.timer
      let (activeTimers, n) := q.activeTimers.erase ⟨it.timer, t.sequence⟩
      require (n == 1) .notErased
      eraseExpired { q with activeTimers := activeTimers } rest

def getExpired (q : TimerSystem) (now : Timestamp) : Except TimerStop (List Entry × TimerSystem) := do
  require q.sizesAgree .sizesDiffer
  let sentry : Entry := ⟨now, UINTPTR_MAX⟩
  let (expired, timers) := q.timers.cut sentry
  require (timers.first.all fun it => decide (now < it.expiration)) .notSplit
  let q ← { q with timers := timers }.eraseExpired expired
  require q.sizesAgree .sizesDiffer
  return (expired, q)

/-- The loop of `reset`. -/
def resetExpired (q : TimerSystem) (now : Timestamp) : List Entry → Except TimerStop TimerSystem
  | [] => .ok q
  | it :: rest => do
      let t ← q.deref it.timer
      if t.repeats && !decide (⟨it.timer, t.sequence⟩ ∈ q.cancelingTimers) then
        let q := (q.write it.timer (some (t.restart now))).record (.restarted ⟨it.timer, t.sequence⟩)
        let (_, q) ← q.insert it.timer
        q.resetExpired now rest
      else
        let q ← q.delete it.timer
        q.resetExpired now rest

/-- The end of `reset`: the timerfd is set for the first timer, if its expiration is valid. -/
def rearm (q : TimerSystem) (clock : Timestamp) : Except TimerStop TimerSystem := do
  let nextExpire ←
    match q.timers.first with
    | some it => do
        let t ← q.deref it.timer
        pure t.expiration
    | none => pure Timestamp.invalid
  if Timestamp.valid nextExpire then return q.resetTimerfd clock nextExpire else return q

def reset (q : TimerSystem) (expired : List Entry) (now clock : Timestamp) :
    Except TimerStop TimerSystem := do
  let q ← q.resetExpired now expired
  q.rearm clock

/-- `handleRead` up to the loop over the batch. -/
def handleRead (q : TimerSystem) (now : Timestamp) : Except TimerStop TimerSystem := do
  let (expired, q) ← q.readTimerfd.getExpired now
  return { q with
    callingExpiredTimers := true
    cancelingTimers := .empty
    rounds := q.rounds + 1
    round := some ⟨q.rounds + 1, now, expired, expired⟩ }

/-- `it.second->run()`. -/
def run (q : TimerSystem) (r : Round) (it : Entry) (rest : List Entry) :
    Except TimerStop TimerSystem := do
  let t ← q.deref it.timer
  let q := q.record (.ran r.number ⟨it.timer, t.sequence⟩)
  return { q with round := some { r with rest := rest } }

/-- `handleRead` after the loop. -/
def finish (q : TimerSystem) (r : Round) (clock : Timestamp) : Except TimerStop TimerSystem := do
  let q ← { q with callingExpiredTimers := false }.reset r.expired r.now clock
  return { q with round := none }

end TimerSystem

/-! ## Runs -/

inductive TimerLabel where
  /-- The first half of `addTimer`, in any thread. -/
  | newTimer (timer : Nat) (when : Timestamp) (interval : Interval)
  | addTimerInLoop (id : TimerId) (clock : Timestamp)
  | cancelInLoop (id : TimerId)
  | handleRead (now : Timestamp)
  /-- The callback of the next timer of the batch. -/
  | run
  | finish (clock : Timestamp)
  /-- The kernel's timer expires. -/
  | fire
  deriving DecidableEq, Repr

namespace TimerSystem

/-- One step. The allocator gives out addresses that are not in use, and none at the very end of the
address space; `addTimerInLoop` is called once for every timer created; timers are added and cancelled
at any time, by callbacks and between calls of `handleRead`. -/
def step (q : TimerSystem) : TimerLabel → Except TimerStop TimerSystem
  | .newTimer timer when interval =>
      if timer < UINTPTR_MAX ∧ (q.heap timer).isNone then .ok (q.newTimer timer when interval)
      else .error .disabled
  | .addTimerInLoop id clock =>
      if id ∈ q.pending then
        { q with pending := q.pending.erase id }.addTimerInLoop id.timer clock
      else .error .disabled
  | .cancelInLoop id => q.cancelInLoop id
  | .handleRead now =>
      match q.round with
      | none => q.handleRead now
      | some _ => .error .disabled
  | .run =>
      match q.round with
      | some r =>
          match r.rest with
          | it :: rest => q.run r it rest
          | [] => .error .disabled
      | none => .error .disabled
  | .finish clock =>
      match q.round with
      | some r => if r.rest = [] then q.finish r clock else .error .disabled
      | none => .error .disabled
  | .fire =>
      match q.timerfd with
      | .armed _ => .ok { q with timerfd := .fired }
      | _ => .error .disabled

end TimerSystem
end Muduo
