import Muduo.CondVar
import Muduo.Execution

/-! `muduo::BoundedBlockingQueue` as a monitor: any number of threads call `put` and `take`. What a thread
does while it holds the mutex is one step, up to the end of the call or up to `wait`; a thread that was
woken goes on at the test of its loop. -/

/-- `boost::circular_buffer::push_back`: a full buffer loses its first element. -/
def circularPushBack {α : Type*} (capacity : Nat) (queue : List α) (x : α) : List α :=
  if queue.length = capacity then
    if capacity = 0 then queue else queue.tail ++ [x]
  else queue ++ [x]

namespace Muduo

open Execution

/-- Why a step is not taken: it is not one the thread can take now, or an assertion fails. -/
inductive QueueStop where
  | disabled
  | assertion
  deriving DecidableEq, Repr

structure BoundedBlockingQueue (ι α : Type*) (maxSize : Nat) where
  notEmpty : CondVar ι := {}
  /-- A thread that waits here has a value to put. -/
  notFull : CondVar (ι × α) := {}
  queue : List α := []
  /-- The values put, in the order of insertion. -/
  inserted : List α := []
  /-- The values returned by `take`, in the order of removal. -/
  removed : List α := []
  deriving DecidableEq, Repr

namespace BoundedBlockingQueue

variable {ι α : Type*} {maxSize : Nat}

/-- `queue_.full()`. -/
def full (q : BoundedBlockingQueue ι α maxSize) : Bool := q.queue.length == maxSize

/-- `put` behind its loop. The choice is which thread `notify` wakes. -/
def insert (q : BoundedBlockingQueue ι α maxSize) (x : α) (choice : Nat) :
    Except QueueStop (BoundedBlockingQueue ι α maxSize) :=
  -- assert(!queue_.full())
  if q.full then .error .assertion
  else
    match q.notEmpty.notify choice with
    | some notEmpty => .ok { q with
        queue := circularPushBack maxSize q.queue x
        notEmpty := notEmpty
        inserted := q.inserted ++ [x] }
    | none => .error .disabled

/-- The loop of `put`, in a thread that has the mutex. -/
def putLocked (q : BoundedBlockingQueue ι α maxSize) (thread : ι) (x : α) (choice : Nat) :
    Except QueueStop (BoundedBlockingQueue ι α maxSize) :=
  if q.full then .ok { q with notFull := q.notFull.wait (thread, x) } else q.insert x choice

/-- `take` behind its loop. -/
def remove (q : BoundedBlockingQueue ι α maxSize) (choice : Nat) :
    Except QueueStop (BoundedBlockingQueue ι α maxSize) :=
  match q.queue with
  -- assert(!queue_.empty())
  | [] => .error .assertion
  | front :: rest =>
      match q.notFull.notify choice with
      | some notFull => .ok { q with
          queue := rest
          notFull := notFull
          removed := q.removed ++ [front] }
      | none => .error .disabled

/-- The loop of `take`. -/
def takeLocked (q : BoundedBlockingQueue ι α maxSize) (thread : ι) (choice : Nat) :
    Except QueueStop (BoundedBlockingQueue ι α maxSize) :=
  if q.queue.isEmpty then .ok { q with notEmpty := q.notEmpty.wait thread } else q.remove choice

inductive Label (ι α : Type*) where
  | put (thread : ι) (x : α) (choice : Nat)
  | take (thread : ι) (choice : Nat)
  /-- A thread that was woken in `put` has the mutex again. -/
  | resumePut (woken : Woken) (choice : Nat)
  | resumeTake (woken : Woken) (choice : Nat)
  /-- A thread that waits in `put` wakes up for no reason. -/
  | wakePut (index : Nat)
  | wakeTake (index : Nat)
  deriving DecidableEq, Repr

section Steps

variable [DecidableEq ι]

/-- The thread is inside `put` or `take`. -/
def inside (q : BoundedBlockingQueue ι α maxSize) (thread : ι) : Bool :=
  thread ∈ q.notEmpty.threads || thread ∈ q.notFull.threads.map Prod.fst

def step (q : BoundedBlockingQueue ι α maxSize) : Label ι α → Except QueueStop (BoundedBlockingQueue ι α maxSize)
  | .put thread x choice => if q.inside thread then .error .disabled else q.putLocked thread x choice
  | .take thread choice => if q.inside thread then .error .disabled else q.takeLocked thread choice
  | .resumePut woken choice =>
      match q.notFull.resume woken with
      | some ((thread, x), notFull) => { q with notFull := notFull }.putLocked thread x choice
      | none => .error .disabled
  | .resumeTake woken choice =>
      match q.notEmpty.resume woken with
      | some (thread, notEmpty) => { q with notEmpty := notEmpty }.takeLocked thread choice
      | none => .error .disabled
  | .wakePut index =>
      match q.notFull.wakeUp index with
      | some notFull => .ok { q with notFull := notFull }
      | none => .error .disabled
  | .wakeTake index =>
      match q.notEmpty.wakeUp index with
      | some notEmpty => .ok { q with notEmpty := notEmpty }
      | none => .error .disabled

end Steps

/-! ## The queue -/

/-- Every value is in the queue between its insertion and its removal, the queue is not too long, and
threads that wait have been notified as often as values and places allow. -/
structure Inv (q : BoundedBlockingQueue ι α maxSize) : Prop where
  fifo : q.removed ++ q.queue = q.inserted
  bounded : q.queue.length ≤ maxSize
  notEmpty : q.notEmpty.Covered q.queue.length
  notFull : q.notFull.Covered (maxSize - q.queue.length)

variable {q : BoundedBlockingQueue ι α maxSize}

theorem inv_new : Inv ({} : BoundedBlockingQueue ι α maxSize) where
  fifo := rfl
  bounded := Nat.zero_le _
  notEmpty := CondVar.covered_new _
  notFull := CondVar.covered_new _

theorem full_iff : q.full = true ↔ q.queue.length = maxSize := beq_iff_eq

/-- What a step leads to: it is not possible, or it keeps the invariant. -/
def Safe (result : Except QueueStop (BoundedBlockingQueue ι α maxSize)) : Prop :=
  result = .error .disabled ∨ ∃ next, result = .ok next ∧ Inv next

/-- A value is inserted. The thread that does so needs one of the places the others were notified of. -/
theorem safe_insert (hfifo : q.removed ++ q.queue = q.inserted) (hroom : q.queue.length < maxSize)
    (hempty : q.notEmpty.Covered q.queue.length)
    (hfull : q.notFull.Covered (maxSize - q.queue.length - 1)) (x : α) (choice : Nat) :
    Safe (q.insert x choice) := by
  have hnot : ¬ q.full = true := by
    rw [full_iff]
    omega
  rw [insert, if_neg hnot]
  cases hnotify : q.notEmpty.notify choice with
  | none => exact .inl rfl
  | some notEmpty =>
      refine .inr ⟨_, rfl, ?_⟩
      have hpush : circularPushBack maxSize q.queue x = q.queue ++ [x] := by
        rw [circularPushBack, if_neg (by omega)]
      have hlength : (circularPushBack maxSize q.queue x).length = q.queue.length + 1 := by
        rw [hpush, List.length_append, List.length_singleton]
      refine ⟨?_, ?_, ?_, ?_⟩
      · show q.removed ++ circularPushBack maxSize q.queue x = q.inserted ++ [x]
        rw [hpush, ← List.append_assoc, hfifo]
      · show (circularPushBack maxSize q.queue x).length ≤ maxSize
        omega
      · show notEmpty.Covered (circularPushBack maxSize q.queue x).length
        rw [hlength]
        exact hempty.notify hnotify
      · show q.notFull.Covered (maxSize - (circularPushBack maxSize q.queue x).length)
        rw [hlength, ← Nat.sub_sub]
        exact hfull

/-- A value is removed. -/
theorem safe_remove {front : α} {rest : List α} (hqueue : q.queue = front :: rest)
    (hfifo : q.removed ++ q.queue = q.inserted) (hbounded : q.queue.length ≤ maxSize)
    (hempty : q.notEmpty.Covered rest.length)
    (hfull : q.notFull.Covered (maxSize - q.queue.length)) (choice : Nat) :
    Safe (q.remove choice) := by
  rw [remove, hqueue]
  cases hnotify : q.notFull.notify choice with
  | none => exact .inl rfl
  | some notFull =>
      rw [hqueue, List.length_cons] at hbounded hfull
      refine .inr ⟨_, rfl, ?_, by simpa using Nat.le_of_succ_le hbounded, hempty, ?_⟩
      · show q.removed ++ [front] ++ rest = q.inserted
        rw [List.append_assoc, ← hfifo, hqueue]
        rfl
      · have hmore : maxSize - rest.length = maxSize - (rest.length + 1) + 1 := by omega
        show notFull.Covered (maxSize - rest.length)
        rw [hmore]
        exact hfull.notify hnotify

/-- The thread that runs the loop may be one of those that were notified. -/
theorem safe_putLocked (hfifo : q.removed ++ q.queue = q.inserted)
    (hbounded : q.queue.length ≤ maxSize) (hempty : q.notEmpty.Covered q.queue.length)
    (hfull : q.notFull.Covered (maxSize - q.queue.length - 1)) (thread : ι) (x : α)
    (choice : Nat) : Safe (q.putLocked thread x choice) := by
  rw [putLocked]
  split
  · rename_i hno
    rw [full_iff] at hno
    refine .inr ⟨_, rfl, hfifo, hbounded, hempty, ?_⟩
    show (q.notFull.wait (thread, x)).Covered (maxSize - q.queue.length)
    rw [hno, Nat.sub_self]
    exact CondVar.covered_zero _
  · rename_i hroom
    rw [full_iff] at hroom
    exact safe_insert hfifo (by omega) hempty hfull x choice

theorem safe_takeLocked (hfifo : q.removed ++ q.queue = q.inserted)
    (hbounded : q.queue.length ≤ maxSize) (hempty : q.notEmpty.Covered (q.queue.length - 1))
    (hfull : q.notFull.Covered (maxSize - q.queue.length)) (thread : ι) (choice : Nat) :
    Safe (q.takeLocked thread choice) := by
  rw [takeLocked]
  split
  · rename_i hnone
    rw [List.isEmpty_iff] at hnone
    refine .inr ⟨_, rfl, hfifo, hbounded, ?_, hfull⟩
    show (q.notEmpty.wait thread).Covered q.queue.length
    rw [hnone]
    exact CondVar.covered_zero _
  · cases hqueue : q.queue with
    | nil => simp_all
    | cons front rest =>
        rw [hqueue, List.length_cons, Nat.add_sub_cancel] at hempty
        exact safe_remove hqueue hfifo hbounded hempty hfull choice

section Steps

variable [DecidableEq ι]

theorem safe_step (hinv : Inv q) (label : Label ι α) : Safe (q.step label) := by
  obtain ⟨hfifo, hbounded, hempty, hfull⟩ := hinv
  cases label with
  | put thread x choice =>
      simp only [step]
      split
      · exact .inl rfl
      · exact safe_putLocked hfifo hbounded hempty (hfull.mono (Nat.sub_le _ _)) thread x choice
  | take thread choice =>
      simp only [step]
      split
      · exact .inl rfl
      · exact safe_takeLocked hfifo hbounded (hempty.mono (Nat.sub_le _ _)) hfull thread choice
  | resumePut woken choice =>
      simp only [step]
      split
      · rename_i thread x notFull hresume
        have hfewer := hfull.resume hresume
        exact safe_putLocked (q := { q with notFull := notFull }) hfifo hbounded hempty hfewer thread x
          choice
      · exact .inl rfl
  | resumeTake woken choice =>
      simp only [step]
      split
      · rename_i thread notEmpty hresume
        have hfewer := hempty.resume hresume
        exact safe_takeLocked (q := { q with notEmpty := notEmpty }) hfifo hbounded hfewer hfull thread
          choice
      · exact .inl rfl
  | wakePut index =>
      simp only [step]
      split
      · exact .inr ⟨_, rfl, hfifo, hbounded, hempty, hfull.wakeUp ‹_›⟩
      · exact .inl rfl
  | wakeTake index =>
      simp only [step]
      split
      · exact .inr ⟨_, rfl, hfifo, hbounded, hempty.wakeUp ‹_›, hfull⟩
      · exact .inl rfl

/-- **A bounded FIFO monitor without lost wakeups.** For every capacity, any threads and any order of their
steps: no assertion fails; the values returned, in order, followed by the queue are the values put, in
order; the queue never exceeds its capacity; and it never comes to pass that a consumer waits, the queue
has a value, and no consumer was notified that has still to look, nor that a producer waits, the queue has
a place, and no producer was notified. -/
theorem fifo_monitor (maxSize : Nat) (labels : List (Label ι α)) :
    (∀ reason, run step ({} : BoundedBlockingQueue ι α maxSize) labels = .error reason →
      reason = .disabled) ∧
    ∀ q, run step ({} : BoundedBlockingQueue ι α maxSize) labels = .ok q →
      q.removed ++ q.queue = q.inserted ∧ q.queue.length ≤ maxSize ∧
      ¬ (0 < q.queue.length ∧ q.notEmpty.waiting ≠ [] ∧ q.notEmpty.notified = []) ∧
      ¬ (0 < maxSize - q.queue.length ∧ q.notFull.waiting ≠ [] ∧ q.notFull.notified = []) := by
  obtain ⟨hsafe, hreached⟩ := run_safe Inv (fun _ label hinv => safe_step hinv label) inv_new labels
  refine ⟨hsafe, fun q hrun => ?_⟩
  obtain ⟨hfifo, hbounded, hempty, hfull⟩ := hreached q hrun
  exact ⟨hfifo, hbounded, hempty.not_stuck, hfull.not_stuck⟩

/-- A value is stolen: a producer notifies the consumer that waits, another consumer takes the value first,
and the one that was notified waits again. -/
theorem fifo_monitor_stolen :
    ∃ q : BoundedBlockingQueue Nat Nat 1,
      run step {} [.take 0 0, .put 1 7 0, .take 2 0, .resumeTake (.notified 0) 0, .wakeTake 0] = .ok q ∧
      q.removed ++ q.queue = q.inserted ∧ q.removed = [7] ∧
      ¬ (0 < q.queue.length ∧ q.notEmpty.waiting ≠ [] ∧ q.notEmpty.notified = []) := by
  obtain ⟨q, hrun, hremoved⟩ := exists_of_outcome step ({} : BoundedBlockingQueue Nat Nat 1)
    [.take 0 0, .put 1 7 0, .take 2 0, .resumeTake (.notified 0) 0, .wakeTake 0]
    (fun q => q.removed = [7]) (by decide +kernel)
  obtain ⟨-, hreached⟩ := fifo_monitor 1
    [.take 0 0, .put 1 7 0, .take 2 0, .resumeTake (.notified 0) 0, .wakeTake 0]
  obtain ⟨hfifo, -, hempty, -⟩ := hreached q hrun
  exact ⟨q, hrun, hfifo, of_decide_eq_true hremoved, hempty⟩

end Steps

end BoundedBlockingQueue
end Muduo
