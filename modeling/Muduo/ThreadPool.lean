import Muduo.CondVar
import Muduo.Execution

/-! `muduo::ThreadPool` after `start(numThreads)`: workers take tasks from a queue, and `run`, in any thread
that is not a blocked one, puts tasks there and waits while the queue is full. What a thread does while it
holds the mutex is one step, up to the end of the call or up to `wait`. -/

namespace Muduo

open Execution

/-- Where a worker is in `runInThread`. -/
inductive WorkerPhase where
  /-- At the condition of the loop. -/
  | testing
  /-- In `take`. -/
  | taking
  /-- In a task. -/
  | executing
  | finished
  deriving DecidableEq, Repr

/-- Who calls `run`: a worker does so in a task. -/
inductive ThreadPool.Caller where
  | thread (id : Nat)
  | worker (index : Nat)
  deriving DecidableEq, Repr

/-- Where `stop()` is. -/
inductive StopPhase where
  | notCalled
  /-- In the loop that joins the workers. -/
  | joining
  | returned
  deriving DecidableEq, Repr

/-- Why a step is not taken: it is not one the thread can take now, or an assertion fails. -/
inductive PoolStop where
  | disabled
  | assertion
  deriving DecidableEq, Repr

structure ThreadPool (Task : Type) where
  notEmpty : CondVar Nat := {}
  /-- A thread that waits here has a task to hand over. -/
  notFull : CondVar (ThreadPool.Caller × Task) := {}
  /-- `threads_`. -/
  workers : List WorkerPhase
  queue : List Task := []
  maxQueueSize : Nat
  running : Bool := true
  stopPhase : StopPhase := .notCalled
  deriving DecidableEq, Repr

namespace ThreadPool

variable {Task : Type}

/-- The pool after `setMaxQueueSize(maxQueueSize)` and `start(numThreads)`. -/
def started (numThreads maxQueueSize : Nat) : ThreadPool Task :=
  { workers := List.replicate numThreads .testing, maxQueueSize := maxQueueSize }

def isFull (p : ThreadPool Task) : Bool := p.maxQueueSize > 0 && p.queue.length ≥ p.maxQueueSize

/-- `run` behind its loop. The choice is which thread `notify` wakes. -/
def push (p : ThreadPool Task) (task : Task) (choice : Nat) : Except PoolStop (ThreadPool Task) :=
  -- assert(!isFull())
  if p.isFull then .error .assertion
  else
    match p.notEmpty.notify choice with
    | some notEmpty => .ok { p with queue := p.queue ++ [task], notEmpty := notEmpty }
    | none => .error .disabled

/-- The loop of `run`, in a thread that has the mutex. -/
def runLocked (p : ThreadPool Task) (caller : Caller) (task : Task) (choice : Nat) :
    Except PoolStop (ThreadPool Task) :=
  if p.isFull then .ok { p with notFull := p.notFull.wait (caller, task) } else p.push task choice

/-- `run`. Without workers the task is run by the caller. -/
def run (p : ThreadPool Task) (caller : Caller) (task : Task) (choice : Nat) :
    Except PoolStop (ThreadPool Task) :=
  if p.workers.isEmpty then .ok p else p.runLocked caller task choice

/-- `take` behind its loop; the worker runs the task, or goes back to the condition of its loop if it has
got none. -/
def pop (p : ThreadPool Task) (index : Nat) (choice : Nat) : Except PoolStop (ThreadPool Task) :=
  match p.queue with
  | _ :: rest =>
      match if p.maxQueueSize > 0 then p.notFull.notify choice else some p.notFull with
      | some notFull => .ok { p with
          queue := rest
          notFull := notFull
          workers := p.workers.set index .executing }
      | none => .error .disabled
  | [] => .ok { p with workers := p.workers.set index .testing }

/-- The loop of `take`. -/
def takeLocked (p : ThreadPool Task) (index : Nat) (choice : Nat) :
    Except PoolStop (ThreadPool Task) :=
  if p.queue.isEmpty && p.running then .ok { p with notEmpty := p.notEmpty.wait index }
  else p.pop index choice

/-- The condition of the loop in `runInThread`. -/
def test (p : ThreadPool Task) (index : Nat) : ThreadPool Task :=
  { p with workers := p.workers.set index (if p.running then .taking else .finished) }

/-- `stop()` up to the loop that joins the workers. -/
def stop (p : ThreadPool Task) : ThreadPool Task :=
  { p with running := false, notEmpty := p.notEmpty.notifyAll, stopPhase := .joining }

inductive Label (Task : Type) where
  | run (caller : Caller) (task : Task) (choice : Nat)
  /-- A thread that was woken in `run` has the mutex again. -/
  | resumeRun (woken : Woken) (choice : Nat)
  | wakeRun (index : Nat)
  | test (index : Nat)
  | take (index : Nat) (choice : Nat)
  | resumeTake (woken : Woken) (choice : Nat)
  | wakeTake (index : Nat)
  /-- The task of a worker returns. -/
  | finishTask (index : Nat)
  | stop
  /-- `stop()` returns: every worker is joined. -/
  | joined
  deriving DecidableEq, Repr

/-- The caller is inside `run`. -/
def inside (p : ThreadPool Task) (caller : Caller) : Bool :=
  caller ∈ p.notFull.threads.map Prod.fst

/-- The caller can call `run`: it is not in there, and a worker is running a task. -/
def canRun (p : ThreadPool Task) : Caller → Bool
  | .thread id => !p.inside (.thread id)
  | .worker index => !p.inside (.worker index) && p.workers[index]? == some .executing

def step (p : ThreadPool Task) : Label Task → Except PoolStop (ThreadPool Task)
  | .run caller task choice =>
      if p.canRun caller then p.run caller task choice else .error .disabled
  | .resumeRun woken choice =>
      match p.notFull.resume woken with
      | some ((caller, task), notFull) => { p with notFull := notFull }.runLocked caller task choice
      | none => .error .disabled
  | .wakeRun index =>
      match p.notFull.wakeUp index with
      | some notFull => .ok { p with notFull := notFull }
      | none => .error .disabled
  | .test index =>
      if p.workers[index]? = some .testing then .ok (p.test index) else .error .disabled
  | .take index choice =>
      if p.workers[index]? = some .taking ∧ index ∉ p.notEmpty.threads then p.takeLocked index choice
      else .error .disabled
  | .resumeTake woken choice =>
      match p.notEmpty.resume woken with
      | some (index, notEmpty) => { p with notEmpty := notEmpty }.takeLocked index choice
      | none => .error .disabled
  | .wakeTake index =>
      match p.notEmpty.wakeUp index with
      | some notEmpty => .ok { p with notEmpty := notEmpty }
      | none => .error .disabled
  | .finishTask index =>
      if p.workers[index]? = some .executing ∧ p.inside (.worker index) = false then
        .ok { p with workers := p.workers.set index .testing }
      else .error .disabled
  | .stop => if p.stopPhase = .notCalled then .ok p.stop else .error .disabled
  | .joined =>
      if p.stopPhase = .joining ∧ p.workers.all (· == .finished) then
        .ok { p with stopPhase := .returned }
      else .error .disabled

/-! ## Producers and `stop()` -/

/-- The workers that are in `take`: after `stop()` each of them takes one more task, if there is one. -/
def takers (p : ThreadPool Task) : Nat := p.workers.countP (· == .taking)

/-- The condition under which `stop()` leaves no producer behind. For every producer that waits when it is
called there is a worker that is still going to take a task, and a task to take; from then on the queue is
not full when `run` looks at it. -/
def Heeded (p : ThreadPool Task) : Label Task → Prop
  | .stop => p.notFull.waiting.length ≤ p.queue.length ∧ p.notFull.waiting.length ≤ p.takers
  | .run _ _ _ => p.running = true ∨ p.isFull = false
  | .resumeRun _ _ => p.running = true ∨ p.isFull = false
  | _ => True

instance (p : ThreadPool Task) : ∀ label, Decidable (Heeded p label)
  | .stop => inferInstanceAs (Decidable (_ ∧ _))
  | .run _ _ _ => inferInstanceAs (Decidable (_ ∨ _))
  | .resumeRun _ _ => inferInstanceAs (Decidable (_ ∨ _))
  | .wakeRun _ | .test _ | .take _ _ | .resumeTake _ _ | .wakeTake _ | .finishTask _ | .joined =>
      isTrue trivial

/-- Once `running_` is false, no more producers wait than there are tasks and workers to take them. -/
structure Draining (p : ThreadPool Task) : Prop where
  stopped : p.stopPhase ≠ .notCalled → p.running = false
  queued : p.running = false → p.notFull.waiting.length ≤ p.queue.length
  served : p.running = false → p.notFull.waiting.length ≤ p.takers
  joined : p.stopPhase = .returned → p.takers = 0
  /-- A queue without bound is never full. -/
  unbounded : p.maxQueueSize = 0 → p.notFull.waiting = []

variable {p next : ThreadPool Task}

theorem draining_started (numThreads maxQueueSize : Nat) :
    Draining (started numThreads maxQueueSize : ThreadPool Task) where
  stopped := by simp [started]
  queued := by simp [started]
  served := by simp [started]
  joined := by simp [started]
  unbounded _ := rfl

/-- A worker that does not come into `take`. -/
theorem takers_set_le {phase : WorkerPhase} (hphase : phase ≠ .taking) (index : Nat) :
    (p.workers.set index phase).countP (· == .taking) ≤ p.takers ∧
      p.takers ≤ (p.workers.set index phase).countP (· == .taking) + 1 := by
  have hnew : (phase == WorkerPhase.taking) = false := beq_false_of_ne hphase
  by_cases hindex : index < p.workers.length
  · rw [List.countP_set hindex, hnew, takers]
    split <;> simp
    omega
  · rw [List.set_eq_of_length_le (Nat.not_lt.mp hindex)]
    exact ⟨Nat.le_refl _, Nat.le_succ _⟩

/-- A worker that was not in `take`, and does not come into it. -/
theorem takers_set_eq {old phase : WorkerPhase} {index : Nat} (hold : p.workers[index]? = some old)
    (hnot : old ≠ .taking) (hphase : phase ≠ .taking) :
    (p.workers.set index phase).countP (· == .taking) = p.takers := by
  obtain ⟨hindex, rfl⟩ := List.getElem?_eq_some_iff.mp hold
  have hbefore : (p.workers[index] == WorkerPhase.taking) = false := beq_false_of_ne hnot
  have hnew : (phase == WorkerPhase.taking) = false := beq_false_of_ne hphase
  rw [List.countP_set hindex, hbefore, hnew, takers]
  simp

theorem draining_push {task : Task} {choice : Nat} (hp : Draining p)
    (hpush : p.push task choice = .ok next) : Draining next := by
  rw [push] at hpush
  split at hpush
  · cases hpush
  · split at hpush
    · cases hpush
      refine { hp with queued := fun hstop => ?_ }
      have hqueued := hp.queued hstop
      rw [List.length_append]
      exact Nat.le_trans hqueued (Nat.le_add_right _ _)
    · cases hpush

theorem draining_runLocked {caller : Caller} {task : Task} {choice : Nat} (hp : Draining p)
    (hheeded : p.running = true ∨ p.isFull = false)
    (hrun : p.runLocked caller task choice = .ok next) : Draining next := by
  rw [runLocked] at hrun
  split at hrun
  · -- the thread waits, so `stop()` was not called
    rename_i hfull
    have hrunning : p.running = true := hheeded.resolve_right (by simp [hfull])
    have hbound : p.maxQueueSize ≠ 0 := by
      simp only [isFull, Bool.and_eq_true, decide_eq_true_eq] at hfull
      omega
    cases hrun
    exact {
      stopped := hp.stopped
      queued := fun hstop => absurd hrunning (by simp [show p.running = false from hstop])
      served := fun hstop => absurd hrunning (by simp [show p.running = false from hstop])
      joined := hp.joined
      unbounded := fun hzero => absurd hzero hbound }
  · exact draining_push hp hrun

/-- A task is taken: one producer less waits, if any does. -/
theorem draining_pop {index choice : Nat} (hp : Draining p) (hpop : p.pop index choice = .ok next) :
    Draining next := by
  have hset (phase : WorkerPhase) (hphase : phase ≠ .taking) := takers_set_le (p := p) hphase index
  rw [pop] at hpop
  split at hpop
  · rename_i task rest hqueue
    split at hpop
    · rename_i notFull hnotify
      cases hpop
      have hwaiting : notFull.waiting.length = p.notFull.waiting.length - 1 := by
        split at hnotify
        · exact CondVar.length_waiting_notify hnotify
        · rename_i hzero
          cases hnotify
          rw [hp.unbounded (by omega)]
          rfl
      obtain ⟨hle, hge⟩ := hset .executing (by decide)
      refine ⟨hp.stopped, fun hstop => ?_, fun hstop => ?_, fun hreturned => ?_, fun hzero => ?_⟩
      · have hqueued := hp.queued hstop
        rw [hqueue, List.length_cons] at hqueued
        show notFull.waiting.length ≤ rest.length
        omega
      · have hserved := hp.served hstop
        show notFull.waiting.length ≤ (p.workers.set index .executing).countP (· == .taking)
        omega
      · have hjoined := hp.joined hreturned
        show (p.workers.set index .executing).countP (· == .taking) = 0
        omega
      · have hnone := hp.unbounded hzero
        rw [hnone, List.length_nil] at hwaiting
        exact List.length_eq_zero_iff.mp hwaiting
    · cases hpop
  · rename_i hqueue
    cases hpop
    obtain ⟨hle, -⟩ := hset .testing (by decide)
    have hnone : p.running = false → p.notFull.waiting.length = 0 := by
      intro hstop
      have hqueued := hp.queued hstop
      rw [hqueue, List.length_nil] at hqueued
      omega
    refine ⟨hp.stopped, hp.queued, fun hstop => ?_, fun hreturned => ?_, hp.unbounded⟩
    · have hzero := hnone hstop
      show p.notFull.waiting.length ≤ _
      omega
    · have hjoined := hp.joined hreturned
      show (p.workers.set index .testing).countP (· == .taking) = 0
      omega

theorem draining_takeLocked {index choice : Nat} (hp : Draining p)
    (htake : p.takeLocked index choice = .ok next) : Draining next := by
  rw [takeLocked] at htake
  split at htake
  · cases htake
    exact { hp with }
  · exact draining_pop hp htake

theorem draining_test {index : Nat} (hp : Draining p) (hphase : p.workers[index]? = some .testing) :
    Draining (p.test index) := by
  rw [test]
  cases hrunning : p.running with
  | true =>
      have hnotCalled : p.stopPhase = .notCalled := by
        by_contra hcalled
        rw [hp.stopped hcalled] at hrunning
        cases hrunning
      refine ⟨by simp [hnotCalled], by simp, by simp, by simp [hnotCalled], hp.unbounded⟩
  | false =>
      have htakers := takers_set_eq hphase (by decide) (show WorkerPhase.finished ≠ .taking by decide)
      refine ⟨fun _ => rfl, fun _ => hp.queued hrunning, fun _ => ?_, fun hreturned => ?_, hp.unbounded⟩
      · show _ ≤ (p.workers.set index .finished).countP (· == .taking)
        rw [htakers]
        exact hp.served hrunning
      · show (p.workers.set index .finished).countP (· == .taking) = 0
        rw [htakers]
        exact hp.joined hreturned

theorem draining_step {label : Label Task} (hp : Draining p) (hheeded : Heeded p label)
    (hstep : p.step label = .ok next) : Draining next := by
  cases label with
  | run caller task choice =>
      obtain ⟨-, hstep⟩ := guarded_ok.mp hstep
      rw [run] at hstep
      split at hstep
      · cases hstep
        exact hp
      · exact draining_runLocked hp hheeded hstep
  | resumeRun woken choice =>
      simp only [step] at hstep
      split at hstep
      · rename_i caller task notFull hresume
        have hwaiting := CondVar.waiting_resume hresume
        refine draining_runLocked (p := { p with notFull := notFull }) ?_ hheeded hstep
        refine ⟨hp.stopped, ?_, ?_, hp.joined, ?_⟩ <;> simp only [hwaiting]
        · exact hp.queued
        · exact hp.served
        · exact hp.unbounded
      · cases hstep
  | wakeRun index =>
      simp only [step] at hstep
      split at hstep
      · rename_i notFull hwake
        have hle := CondVar.length_waiting_wakeUp hwake
        cases hstep
        refine ⟨hp.stopped, fun hstop => Nat.le_trans hle (hp.queued hstop),
          fun hstop => Nat.le_trans hle (hp.served hstop), hp.joined, fun hzero => ?_⟩
        rw [hp.unbounded hzero, List.length_nil, Nat.le_zero, List.length_eq_zero_iff] at hle
        exact hle
      · cases hstep
  | test index =>
      obtain ⟨hphase, hstep⟩ := guarded_ok.mp hstep
      cases hstep
      exact draining_test hp hphase
  | take index choice =>
      obtain ⟨-, hstep⟩ := guarded_ok.mp hstep
      exact draining_takeLocked hp hstep
  | resumeTake woken choice =>
      simp only [step] at hstep
      split at hstep
      · rename_i index notEmpty hresume
        exact draining_takeLocked (p := { p with notEmpty := notEmpty }) { hp with } hstep
      · cases hstep
  | wakeTake index =>
      simp only [step] at hstep
      split at hstep
      · cases hstep
        exact { hp with }
      · cases hstep
  | finishTask index =>
      obtain ⟨hphase, hstep⟩ := guarded_ok.mp hstep
      cases hstep
      have htakers := takers_set_eq hphase.1 (by decide) (show WorkerPhase.testing ≠ .taking by decide)
      refine ⟨hp.stopped, hp.queued, fun hstop => ?_, fun hreturned => ?_, hp.unbounded⟩
      · show _ ≤ (p.workers.set index .testing).countP (· == .taking)
        rw [htakers]
        exact hp.served hstop
      · show (p.workers.set index .testing).countP (· == .taking) = 0
        rw [htakers]
        exact hp.joined hreturned
  | stop =>
      obtain ⟨-, hstep⟩ := guarded_ok.mp hstep
      cases hstep
      exact ⟨fun _ => rfl, fun _ => hheeded.1, fun _ => hheeded.2, by simp [stop], hp.unbounded⟩
  | joined =>
      obtain ⟨hall, hstep⟩ := guarded_ok.mp hstep
      cases hstep
      refine { hp with stopped := fun _ => hp.stopped (by simp [hall.1]), joined := fun _ => ?_ }
      refine List.countP_eq_zero.mpr fun phase hphase => ?_
      have hfinished := List.all_eq_true.mp hall.2 phase hphase
      simp_all

/-- **What `stop()` releases.** In every run with any number of workers and any bound in which, when
`stop()` is called, there are as many tasks and as many workers to take them as producers that wait, and
from then on the queue is not full when `run` looks at it: once `stop()` has returned, no thread waits in
`run`. -/
theorem stop_releases {numThreads maxQueueSize : Nat} {labels : List (Label Task)}
    (hheeded : Meets step Heeded (started numThreads maxQueueSize) labels)
    (hrun : Execution.run step (started numThreads maxQueueSize) labels = .ok p)
    (hreturned : p.stopPhase = .returned) : p.notFull.waiting = [] := by
  have hp := run_preserves_of_meets Draining
    (fun _ _ _ hdraining hmeets hstep => draining_step hdraining hmeets hstep)
    (draining_started numThreads maxQueueSize) hheeded hrun
  have hserved := hp.served (hp.stopped (by simp [hreturned]))
  rw [hp.joined hreturned, Nat.le_zero] at hserved
  exact List.length_eq_zero_iff.mp hserved

/-- A producer waits when `stop()` is called, and the worker that is about to take a task lets it go on. -/
def lastTake : List (Label Nat) :=
  [.run (.thread 1) 10 0, .run (.thread 2) 11 0, .test 0, .stop, .take 0 0, .resumeRun (.notified 0) 0,
    .finishTask 0, .test 0, .joined]

theorem stop_releases_lastTake :
    ∃ p : ThreadPool Nat, Execution.run step (started 1 1) lastTake = .ok p ∧
      p.stopPhase = .returned ∧ p.queue = [11] ∧ p.notFull.waiting = [] := by
  obtain ⟨p, hrun, hcheck⟩ := exists_of_outcome step (started 1 1) lastTake
    (fun p => p.stopPhase = .returned && p.queue = [11]) (by decide +kernel)
  simp only [Bool.and_eq_true, decide_eq_true_eq] at hcheck
  exact ⟨p, hrun, hcheck.1, hcheck.2, stop_releases (by decide +kernel) hrun hcheck.1⟩

/-- The worker is busy when `stop()` is called, and leaves without taking another task. -/
def busyWorker : List (Label Nat) :=
  [.run (.thread 1) 10 0, .test 0, .take 0 0, .run (.thread 1) 11 0, .run (.thread 2) 12 0, .stop,
    .finishTask 0, .test 0, .joined]

/-- `run` is called when `stop()` has returned. -/
def lateProducer : List (Label Nat) :=
  [.run (.thread 1) 10 0, .stop, .test 0, .joined, .run (.thread 2) 11 0]

/-- `stop()` has returned and a thread waits in `run`: it was there before, or came later. -/
theorem stop_leaves_producer :
    (∃ p : ThreadPool Nat, Execution.run step (started 1 1) busyWorker = .ok p ∧
      p.stopPhase = .returned ∧ p.notFull.waiting = [(.thread 2, 12)]) ∧
    ∃ p : ThreadPool Nat, Execution.run step (started 1 1) lateProducer = .ok p ∧
      p.stopPhase = .returned ∧ p.notFull.waiting = [(.thread 2, 11)] := by
  constructor
  · obtain ⟨p, hrun, hcheck⟩ := exists_of_outcome step (started 1 1) busyWorker
      (fun p => p.stopPhase = .returned && p.notFull.waiting = [(.thread 2, 12)]) (by decide +kernel)
    simp only [Bool.and_eq_true, decide_eq_true_eq] at hcheck
    exact ⟨p, hrun, hcheck.1, hcheck.2⟩
  · obtain ⟨p, hrun, hcheck⟩ := exists_of_outcome step (started 1 1) lateProducer
      (fun p => p.stopPhase = .returned && p.notFull.waiting = [(.thread 2, 11)]) (by decide +kernel)
    simp only [Bool.and_eq_true, decide_eq_true_eq] at hcheck
    exact ⟨p, hrun, hcheck.1, hcheck.2⟩

end ThreadPool
end Muduo
