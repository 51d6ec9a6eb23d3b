import Muduo.CheckedInt
import Muduo.MutexLock

/-! `muduo::CountDownLatch` over a `MutexLock` and a `Condition`: any number of threads call `wait()` and
`countDown()`. A thread is in a call of the latch and, inside it, in a call of the mutex or of the condition;
its place in the latter is kept by the mutex. -/

namespace Muduo

open Execution

/-- Where a thread is in the code of the latch. -/
inductive LatchTask where
  | idle
  /-- In `wait()`, up to the end of the loop. -/
  | await
  /-- In `wait()`, behind the loop. -/
  | leave
  /-- In `countDown()`, before `--count_`. -/
  | count
  /-- In `countDown()`, before the test whether the count is 0. -/
  | notify
  /-- In `countDown()`, behind the test. -/
  | finish
  deriving DecidableEq, Repr

namespace LatchTask

/-- Where a thread can be in the mutex meanwhile. -/
def allows : LatchTask → MutexPlace → Bool
  | .idle, p => p = .outside
  | .await, p => p ≠ .unlocking
  | .leave, p => p = .inside ∨ p = .unlocking
  | .count, p => p = .outside ∨ p = .locked ∨ p = .inside
  | .notify, p => p = .inside
  | .finish, p => p = .inside ∨ p = .unlocking

end LatchTask

structure CountDownLatch (ι : Type*) where
  mutex : MutexLock ι := {}
  count : Int
  task : ι → LatchTask := fun _ => .idle
  /-- How many calls of `countDown()` have changed the count. -/
  downs : Nat := 0

namespace CountDownLatch

variable {ι : Type*} [DecidableEq ι] (ids : ThreadIds ι)

def proceed (l : CountDownLatch ι) (t : ι) (task : LatchTask) : CountDownLatch ι :=
  { l with task := Function.update l.task t task }

/-- A step in the code of the mutex or of the condition. -/
def onMutex (l : CountDownLatch ι) (label : MutexLock.Label ι) : Except MutexStop (CountDownLatch ι) :=
  match l.mutex.step ids label with
  | .ok mutex => .ok { l with mutex := mutex }
  | .error reason => .error reason

/-- What a thread does inside a call. -/
inductive Move (ι : Type*) where
  /-- The constructor of `MutexLockGuard`. -/
  | lock (t : ι)
  | assign (t : ι)
  /-- The condition of the loop in `wait()`, and the beginning of `condition_.wait()`. -/
  | test (t : ι)
  | sleep (t : ι)
  | wake (t : ι)
  | reacquire (t : ι)
  | reassign (t : ι)
  /-- `--count_`. -/
  | decrement (t : ι)
  /-- `notifyAll()`, if the count is 0. -/
  | notify (t : ι)
  /-- The destructor of `MutexLockGuard`, and the end of the call. -/
  | unassign (t : ι)
  | unlock (t : ι)
  deriving DecidableEq, Repr

def Move.thread : Move ι → ι
  | .lock t | .assign t | .test t | .sleep t | .wake t | .reacquire t | .reassign t | .decrement t
  | .notify t | .unassign t | .unlock t => t

def move (l : CountDownLatch ι) : Move ι → Except MutexStop (CountDownLatch ι)
  | .lock t =>
      if l.task t = .await ∨ l.task t = .count then l.onMutex ids (.lock t) else .error .disabled
  | .assign t => l.onMutex ids (.assign t)
  | .test t =>
      if l.task t = .await ∧ l.mutex.place t = .inside then
        if 0 < l.count then l.onMutex ids (.wait t) else .ok (l.proceed t .leave)
      else .error .disabled
  | .sleep t => l.onMutex ids (.sleep t)
  | .wake t => l.onMutex ids (.wake t)
  | .reacquire t => l.onMutex ids (.reacquire t)
  | .reassign t => l.onMutex ids (.reassign t)
  | .decrement t =>
      -- below the least int the decrement is undefined
      if l.task t = .count ∧ l.mutex.place t = .inside ∧ CheckedInt.Fits 32 (l.count - 1) then
        .ok ({ l with count := l.count - 1, downs := l.downs + 1 }.proceed t .notify)
      else .error .disabled
  | .notify t =>
      if l.task t = .notify then
        if l.count = 0 then (l.onMutex ids .wakeAll).map fun next => next.proceed t .finish
        else .ok (l.proceed t .finish)
      else .error .disabled
  | .unassign t =>
      if l.task t = .leave ∨ l.task t = .finish then l.onMutex ids (.unassign t) else .error .disabled
  | .unlock t => (l.onMutex ids (.unlock t)).map fun next => next.proceed t .idle

inductive Label (ι : Type*) where
  | wait (t : ι)
  | countDown (t : ι)
  | move (m : Move ι)
  deriving DecidableEq, Repr

/-- A thread begins a call. -/
def enter (l : CountDownLatch ι) (t : ι) (task : LatchTask) : Except MutexStop (CountDownLatch ι) :=
  if l.task t = .idle then .ok (l.proceed t task) else .error .disabled

def step (l : CountDownLatch ι) : Label ι → Except MutexStop (CountDownLatch ι)
  | .wait t => l.enter t .await
  | .countDown t => l.enter t .count
  | .move m => l.move ids m

/-- What the steps of a call do. -/
inductive Turn (l : CountDownLatch ι) (t : ι) : CountDownLatch ι → Prop where
  /-- The thread goes on in the mutex or the condition. -/
  | pass {label : MutexLock.Label ι} {mutex : MutexLock ι} {before after : MutexPlace} :
      label.passage = some (t, before, after) → l.mutex.step ids label = .ok mutex →
      (l.task t).allows after = true → (after = .parting → 0 < l.count) →
      (after = .waiting → before = .parting) → Turn l t { l with mutex := mutex }
  | leave : l.task t = .await → l.mutex.place t = .inside → l.count ≤ 0 → Turn l t (l.proceed t .leave)
  | decrement : l.task t = .count → l.mutex.place t = .inside →
      Turn l t ({ l with count := l.count - 1, downs := l.downs + 1 }.proceed t .notify)
  | wakeAll {mutex : MutexLock ι} : l.task t = .notify → l.mutex.step ids .wakeAll = .ok mutex →
      Turn l t ({ l with mutex := mutex }.proceed t .finish)
  | skip : l.task t = .notify → l.count ≠ 0 → Turn l t (l.proceed t .finish)
  | return {mutex : MutexLock ι} : l.task t = .leave ∨ l.task t = .finish → l.mutex.place t = .unlocking →
      l.mutex.step ids (.unlock t) = .ok mutex → Turn l t ({ l with mutex := mutex }.proceed t .idle)

/-! ## The invariant -/

/-- A thread falls asleep while the count is positive. A count of 0 is followed by the notification of all
threads before another thread can look. -/
structure Inv (n : Int) (l : CountDownLatch ι) : Prop where
  mutex : l.mutex.Inv ids
  count_eq : l.count = n - l.downs
  allows : ∀ t, (l.task t).allows (l.mutex.place t) = true
  parting : ∀ t, l.mutex.place t = .parting → 0 < l.count
  asleep : ∀ t, l.mutex.place t = .waiting → 0 < l.count ∨ l.count = 0 ∧ ∃ u, l.task u = .notify
  leave : ∀ t, l.task t = .leave → l.count ≤ 0

variable {ids} {n : Int} {l next : CountDownLatch ι}

omit [DecidableEq ι] in
theorem inv_new (n : Int) : Inv ids n ({ count := n } : CountDownLatch ι) where
  mutex := MutexLock.inv_new
  count_eq := by simp
  allows t := rfl
  parting t ht := by cases ht
  asleep t ht := by cases ht
  leave t ht := by cases ht

@[simp] theorem task_proceed_self (l : CountDownLatch ι) (t : ι) (task : LatchTask) :
    (l.proceed t task).task t = task :=
  Function.update_self _ _ _

theorem task_proceed_of_ne (l : CountDownLatch ι) {t u : ι} (hne : u ≠ t) (task : LatchTask) :
    (l.proceed t task).task u = l.task u :=
  Function.update_of_ne hne _ _

theorem forall_proceed {t : ι} {task : LatchTask} {P : ι → LatchTask → Prop} (hself : P t task)
    (hothers : ∀ u, u ≠ t → P u (l.task u)) (u : ι) : P u ((l.proceed t task).task u) :=
  (Function.forall_update_iff l.task P).mpr ⟨hself, hothers⟩ u

/-- A step inside a call is one that the thread cannot take, or one of the turns. -/
def Acts (ids : ThreadIds ι) (l : CountDownLatch ι) (t : ι) (result : Except MutexStop (CountDownLatch ι)) : Prop :=
  result = .error .disabled ∨ ∃ next, result = .ok next ∧ Turn ids l t next

theorem acts_guarded {t : ι} {guard : Prop} [Decidable guard] {attempt : Except MutexStop (CountDownLatch ι)}
    (hattempt : guard → Acts ids l t attempt) : Acts ids l t (if guard then attempt else .error .disabled) := by
  split
  · exact hattempt ‹_›
  · exact .inl rfl

/-- A step of the mutex or the condition inside a call that allows the place it leads to. -/
theorem acts_pass (hinv : Inv ids n l) {label : MutexLock.Label ι} {t : ι} {before after : MutexPlace}
    (hpassage : label.passage = some (t, before, after))
    (hallows : l.mutex.place t = before → (l.task t).allows after = true)
    (hparting : after = .parting → 0 < l.count) (hwaiting : after = .waiting → before = .parting) :
    Acts ids l t (l.onMutex ids label) := by
  have hright : l.mutex.Right label := by
    cases label with
    | assertLocked _ => cases hpassage
    | _ => trivial
  rw [onMutex]
  cases hstep : l.mutex.step ids label with
  | ok mutex =>
      have hplace := (MutexLock.place_step hpassage hstep).1
      exact .inr ⟨_, rfl, .pass hpassage hstep (hallows hplace) hparting hwaiting⟩
  | error reason =>
      rw [(MutexLock.step_assertion_iff hinv.mutex label).mpr hright reason hstep]
      exact .inl rfl

/-- Only a thread in `wait()` is in the condition. -/
theorem task_of_place {task : LatchTask} {p : MutexPlace} (hallows : task.allows p = true)
    (hp : p = .parting ∨ p = .waiting ∨ p = .woken ∨ p = .returned) : task = .await := by
  rcases hp with rfl | rfl | rfl | rfl <;> cases task <;> simp [LatchTask.allows] at hallows ⊢

theorem task_of_unlocking {task : LatchTask} (hallows : task.allows .unlocking = true) :
    task = .leave ∨ task = .finish := by
  cases task <;> simp [LatchTask.allows] at hallows ⊢

theorem task_of_locked {task : LatchTask} (hallows : task.allows .locked = true) :
    task = .await ∨ task = .count := by
  cases task <;> simp [LatchTask.allows] at hallows ⊢

theorem move_acts (hinv : Inv ids n l) (m : Move ι) : Acts ids l m.thread (l.move ids m) := by
  -- inside the condition the thread is in `wait()`, which allows every place of the condition
  have hcondition {label : MutexLock.Label ι} {t : ι} {before after : MutexPlace}
      (hpassage : label.passage = some (t, before, after))
      (hbefore : before = .parting ∨ before = .waiting ∨ before = .woken ∨ before = .returned)
      (hafter : after ≠ .unlocking) (hparting : after ≠ .parting) (hwaiting : after = .waiting → before = .parting) :
      Acts ids l t (l.onMutex ids label) := by
    refine acts_pass hinv hpassage (fun hplace => ?_) (fun h => absurd h hparting) hwaiting
    rw [task_of_place (hinv.allows t) (by rw [hplace]; exact hbefore)]
    exact decide_eq_true hafter
  cases m with
  | lock t =>
      refine acts_guarded fun htask => acts_pass (t := t) hinv rfl (fun _ => ?_) (by simp) (by simp)
      rcases htask with htask | htask <;> rw [htask] <;> rfl
  | assign t =>
      refine acts_pass (t := t) hinv rfl (fun hplace => ?_) (by simp) (by simp)
      rcases task_of_locked (hplace ▸ hinv.allows t) with htask | htask <;> rw [htask] <;> rfl
  | test t =>
      refine acts_guarded fun hloop => ?_
      split
      · rename_i hpositive
        refine acts_pass (t := t) hinv rfl (fun _ => ?_) (fun _ => hpositive) (by simp)
        rw [hloop.1]
        rfl
      · rename_i hzero
        exact .inr ⟨_, rfl, .leave hloop.1 hloop.2 (Int.not_lt.mp hzero)⟩
  | sleep t => exact hcondition rfl (by simp) (by simp) (by simp) (fun _ => rfl)
  | wake t | reacquire t | reassign t => exact hcondition rfl (by simp) (by simp) (by simp) (by simp)
  | decrement t => exact acts_guarded fun hinside => .inr ⟨_, rfl, .decrement hinside.1 hinside.2.1⟩
  | notify t =>
      refine acts_guarded fun htask => ?_
      split
      · exact .inr ⟨_, rfl, .wakeAll htask rfl⟩
      · exact .inr ⟨_, rfl, .skip htask ‹_›⟩
  | unassign t =>
      refine acts_guarded fun htask => acts_pass (t := t) hinv rfl (fun _ => ?_) (by simp) (by simp)
      rcases htask with htask | htask <;> rw [htask] <;> rfl
  | unlock t =>
      rw [move, onMutex]
      cases hstep : l.mutex.step ids (.unlock t) with
      | ok mutex =>
          have hplace : l.mutex.place t = .unlocking := (MutexLock.place_step rfl hstep).1
          exact .inr ⟨_, rfl, .return (task_of_unlocking (hplace ▸ hinv.allows t)) hplace hstep⟩
      | error reason =>
          rw [(MutexLock.step_assertion_iff hinv.mutex (.unlock t)).mpr trivial reason hstep]
          exact .inl rfl

/-! ## The steps keep it -/

omit [DecidableEq ι] in
/-- A thread behind its loop, or behind its decrement, has the mutex until the call ends. -/
theorem Inv.owns (hinv : Inv ids n l) {t : ι}
    (htask : l.task t = .leave ∨ l.task t = .notify ∨ l.task t = .finish) : (l.mutex.place t).owns = true := by
  have hallows := hinv.allows t
  rcases htask with htask | htask | htask <;> rw [htask] at hallows <;>
    cases hplace : l.mutex.place t <;> simp [LatchTask.allows, MutexPlace.owns, hplace] at hallows ⊢

omit [DecidableEq ι] in
theorem Inv.outside (hinv : Inv ids n l) {t : ι} (htask : l.task t = .idle) : l.mutex.place t = .outside := by
  have hallows := hinv.allows t
  rw [htask] at hallows
  exact of_decide_eq_true hallows

omit [DecidableEq ι] in
theorem Inv.inside (hinv : Inv ids n l) {t : ι} (htask : l.task t = .notify) : l.mutex.place t = .inside := by
  have hallows := hinv.allows t
  rw [htask] at hallows
  exact of_decide_eq_true hallows

/-- A thread goes on to a task that allows its place. The threads asleep must not depend on it. -/
theorem Inv.proceed (hinv : Inv ids n l) {t : ι} {task : LatchTask}
    (hallows : task.allows (l.mutex.place t) = true) (hleave : task = .leave → l.count ≤ 0)
    (hnotify : l.task t = .notify → ∀ u, l.mutex.place u = .waiting → 0 < l.count) :
    Inv ids n (l.proceed t task) := by
  refine ⟨hinv.mutex, hinv.count_eq, ?_, hinv.parting, fun u hplace => ?_, ?_⟩
  · exact forall_proceed (P := fun u task => task.allows (l.mutex.place u) = true) hallows fun u _ => hinv.allows u
  · rcases hinv.asleep u hplace with hpositive | ⟨hzero, v, hv⟩
    · exact .inl hpositive
    · by_cases hvt : v = t
      · subst hvt
        exact .inl (hnotify hv u hplace)
      · exact .inr ⟨hzero, v, by rw [task_proceed_of_ne _ hvt]; exact hv⟩
  · exact forall_proceed (P := fun _ task => task = .leave → l.count ≤ 0) hleave fun u _ => hinv.leave u

/-- A step in the mutex or the condition, by a thread that is not about to notify. It may end the call. -/
theorem Inv.pass (hinv : Inv ids n l) {t : ι} {label : MutexLock.Label ι} {mutex : MutexLock ι}
    {before after : MutexPlace} (hpassage : label.passage = some (t, before, after))
    (hstep : l.mutex.step ids label = .ok mutex) {task : LatchTask} (htask : task = l.task t ∨ task = .idle)
    (hnot : l.task t ≠ .notify ∨ task = l.task t) (hallows : task.allows after = true)
    (hparting : after = .parting → 0 < l.count) (hwaiting : after = .waiting → before = .parting) :
    Inv ids n ({ l with mutex := mutex }.proceed t task) := by
  obtain ⟨hbefore, hplaces⟩ := MutexLock.place_step hpassage hstep
  have hself : mutex.place t = after := by rw [hplaces, Function.update_self]
  have hothers {u : ι} (hu : u ≠ t) : mutex.place u = l.mutex.place u := by
    rw [hplaces, Function.update_of_ne hu]
  refine ⟨MutexLock.step_inv hinv.mutex hstep, hinv.count_eq, ?_, fun u hplace => ?_, fun u hplace => ?_, ?_⟩
  · refine forall_proceed (P := fun u task => task.allows (mutex.place u) = true) ?_ fun u hu => ?_
    · exact hself ▸ hallows
    · exact (hothers hu).symm ▸ hinv.allows u
  · by_cases hu : u = t
    · subst hu
      exact hparting (hself.symm.trans hplace)
    · exact hinv.parting u ((hothers hu).symm.trans hplace)
  · by_cases hu : u = t
    · subst hu
      refine .inl (hinv.parting u ?_)
      rw [hbefore]
      exact hwaiting (hself.symm.trans hplace)
    · refine (hinv.asleep u ((hothers hu).symm.trans hplace)).imp_right fun hdone => ⟨hdone.1, ?_⟩
      obtain ⟨v, hv⟩ := hdone.2
      refine ⟨v, ?_⟩
      by_cases hvt : v = t
      · subst hvt
        rw [task_proceed_self, hnot.resolve_left (fun h => h hv)]
        exact hv
      · rw [task_proceed_of_ne _ hvt]
        exact hv
  · refine forall_proceed (P := fun _ task => task = .leave → l.count ≤ 0) ?_ fun u _ => hinv.leave u
    rcases htask with rfl | rfl
    · exact hinv.leave t
    · exact fun h => by cases h

/-- The thread that counts has the mutex: nobody is about to fall asleep, and nobody is about to notify. -/
theorem Inv.decrement (hinv : Inv ids n l) {t : ι} (htask : l.task t = .count)
    (hplace : l.mutex.place t = .inside) :
    Inv ids n ({ l with count := l.count - 1, downs := l.downs + 1 }.proceed t .notify) := by
  have howns : (l.mutex.place t).owns = true := by rw [hplace]; rfl
  have hcount := hinv.count_eq
  refine ⟨hinv.mutex, ?_, ?_, fun u hu => ?_, fun u hu => ?_, ?_⟩
  · simp only [CountDownLatch.proceed]
    omega
  · exact forall_proceed (P := fun u task => task.allows (l.mutex.place u) = true) (decide_eq_true hplace)
      fun u _ => hinv.allows u
  · change l.mutex.place u = .parting at hu
    have hut := hinv.mutex.exclusive (by rw [hu]; rfl) howns
    rw [hut, hplace] at hu
    cases hu
  · have hpositive : 0 < l.count := by
      refine (hinv.asleep u hu).resolve_right ?_
      rintro ⟨-, v, hv⟩
      have hvt := hinv.mutex.exclusive (hinv.owns (.inr (.inl hv))) howns
      rw [hvt, htask] at hv
      cases hv
    by_cases hlast : l.count - 1 = 0
    · exact .inr ⟨hlast, t, task_proceed_self _ _ _⟩
    · refine .inl ?_
      change 0 < l.count - 1
      omega
  · refine forall_proceed (P := fun _ task => task = .leave → l.count - 1 ≤ 0) (fun h => by cases h) fun u _ hu => ?_
    have hzero := hinv.leave u hu
    omega

/-- After the notification no thread is asleep. -/
theorem Inv.wakeAll (hinv : Inv ids n l) {mutex : MutexLock ι}
    (hstep : l.mutex.step ids .wakeAll = .ok mutex) :
    Inv ids n { l with mutex := mutex } ∧ ∀ u, mutex.place u ≠ .waiting := by
  have hkeeps := MutexLock.step_inv hinv.mutex hstep
  cases hstep
  have hawake (u : ι) : (if l.mutex.place u = .waiting then .woken else l.mutex.place u) ≠ MutexPlace.waiting := by
    split
    · exact fun h => by cases h
    · assumption
  refine ⟨⟨hkeeps, hinv.count_eq, fun u => ?_, fun u hu => hinv.parting u ?_,
    fun u hu => absurd hu (hawake u), hinv.leave⟩, hawake⟩
  · have hallows := hinv.allows u
    by_cases hwaiting : l.mutex.place u = .waiting
    · rw [hwaiting] at hallows
      rw [task_of_place hallows (by simp)]
      simp [LatchTask.allows, hwaiting]
    · simpa [hwaiting] using hallows
  · simp only at hu
    split at hu
    · cases hu
    · exact hu

theorem Turn.inv (hinv : Inv ids n l) {t : ι} (hturn : Turn ids l t next) : Inv ids n next := by
  cases hturn with
  | @pass label mutex before after hpassage hstep hallows hparting hwaiting =>
      have hsame : ({ l with mutex := mutex }.proceed t (l.task t) : CountDownLatch ι) = { l with mutex := mutex } := by
        rw [CountDownLatch.proceed, Function.update_eq_self]
      exact hsame ▸ hinv.pass hpassage hstep (.inl rfl) (.inr rfl) hallows hparting hwaiting
  | leave htask hplace hzero =>
      refine hinv.proceed (by rw [hplace]; rfl) (fun _ => hzero) fun hnotify => ?_
      rw [htask] at hnotify
      cases hnotify
  | decrement htask hplace => exact hinv.decrement htask hplace
  | wakeAll htask hstep =>
      have hinside := hinv.inside htask
      obtain ⟨hkeeps, hawake⟩ := hinv.wakeAll hstep
      refine hkeeps.proceed ?_ (fun h => by cases h) fun _ u hu => absurd hu (hawake u)
      cases hstep
      simp [LatchTask.allows, hinside]
  | skip htask hzero =>
      refine hinv.proceed (by rw [hinv.inside htask]; rfl) (fun h => by cases h) fun _ u hu => ?_
      exact (hinv.asleep u hu).resolve_right fun hdone => hzero hdone.1
  | «return» htask hplace hstep =>
      refine hinv.pass rfl hstep (.inr rfl) (.inl fun h => ?_) rfl (fun h => by cases h) (fun h => by cases h)
      rcases htask with htask | htask <;> rw [htask] at h <;> cases h

theorem Turn.task_of_ne {t u : ι} (hturn : Turn ids l t next) (hne : u ≠ t) : next.task u = l.task u := by
  cases hturn with
  | pass _ _ _ _ _ => rfl
  | leave _ _ _ | decrement _ _ | wakeAll _ _ | skip _ _ | «return» _ _ _ => exact task_proceed_of_ne _ hne _

/-- How the task of a thread goes on, and whether the count is decremented. -/
inductive Advance : LatchTask → LatchTask → Nat → Prop where
  | stay (task : LatchTask) : Advance task task 0
  | leave : Advance .await .leave 0
  | decrement : Advance .count .notify 1
  | notify : Advance .notify .finish 0
  | waited : Advance .leave .idle 0
  | counted : Advance .finish .idle 0

theorem Turn.advance {t : ι} (hturn : Turn ids l t next) :
    ∃ k, Advance (l.task t) (next.task t) k ∧ next.downs = l.downs + k := by
  cases hturn with
  | pass _ _ _ _ _ => exact ⟨0, .stay _, rfl⟩
  | leave htask _ _ => exact ⟨0, by rw [htask, task_proceed_self]; exact .leave, rfl⟩
  | decrement htask _ => exact ⟨1, by rw [htask, task_proceed_self]; exact .decrement, rfl⟩
  | wakeAll htask _ | skip htask _ =>
      exact ⟨0, by rw [htask, task_proceed_self]; exact .notify, rfl⟩
  | «return» htask _ _ =>
      refine ⟨0, ?_, rfl⟩
      rw [task_proceed_self]
      rcases htask with htask | htask <;> rw [htask]
      · exact .waited
      · exact .counted

/-- A thread that is in no call takes no step inside one. -/
theorem Turn.not_idle (hinv : Inv ids n l) {t : ι} (hturn : Turn ids l t next) : l.task t ≠ .idle := by
  intro hidle
  have houtside := hinv.outside hidle
  cases hturn with
  | @pass label mutex before after hpassage hstep hallows _ _ =>
      have hbefore := (MutexLock.place_step hpassage hstep).1
      rw [hidle] at hallows
      obtain rfl : after = .outside := of_decide_eq_true hallows
      rw [houtside] at hbefore
      subst hbefore
      cases label <;> cases hpassage
  | leave htask _ _ | decrement htask _ | wakeAll htask _ | skip htask _ =>
      rw [hidle] at htask
      cases htask
  | «return» htask _ _ => rcases htask with htask | htask <;> rw [hidle] at htask <;> cases htask

/-- A thread that begins a call is outside the mutex. -/
theorem Inv.enter (hinv : Inv ids n l) {t : ι} {task : LatchTask} (hidle : l.task t = .idle)
    (hallows : task.allows .outside = true) (hleave : task ≠ .leave) : Inv ids n (l.proceed t task) := by
  refine hinv.proceed (by rw [hinv.outside hidle]; exact hallows) (fun h => absurd h hleave) fun h => ?_
  rw [hidle] at h
  cases h

/-- **Every step.** No assertion of the mutex fails. -/
theorem step_safe (hinv : Inv ids n l) (label : Label ι) :
    l.step ids label = .error .disabled ∨ ∃ next, l.step ids label = .ok next ∧ Inv ids n next := by
  have henter {t : ι} {task : LatchTask} (hallows : task.allows .outside = true) (hleave : task ≠ .leave) :
      l.enter t task = .error .disabled ∨ ∃ next, l.enter t task = .ok next ∧ Inv ids n next := by
    rw [CountDownLatch.enter]
    split
    · exact .inr ⟨_, rfl, hinv.enter ‹_› hallows hleave⟩
    · exact .inl rfl
  cases label with
  | wait t | countDown t => exact henter rfl (by decide)
  | move m =>
      rcases move_acts hinv m with hdisabled | ⟨next, hnext, hturn⟩
      · exact .inl hdisabled
      · exact .inr ⟨next, hnext, hturn.inv hinv⟩

/-- **The latch.** In every run of any number of threads, as long as `count_` does not overflow, no assertion
fails. A call of `wait()` gets past its loop only after as many calls of `countDown()` as the latch was made
with have decremented. Once they have, a thread is asleep in `wait()` only while one that has the mutex is
about to notify all of them. -/
theorem wait_exact (ids : ThreadIds ι) (n : Int) (labels : List (Label ι)) :
    (∀ reason, run (step ids) { count := n } labels = .error reason → reason = .disabled) ∧
    ∀ l, run (step ids) { count := n } labels = .ok l →
      (∀ t, l.task t = .leave → n ≤ l.downs) ∧
      (∀ t, n ≤ l.downs → l.mutex.place t = .waiting →
        n = l.downs ∧ ∃ u, l.task u = .notify ∧ l.mutex.place u = .inside) := by
  obtain ⟨hstops, hinvs⟩ := run_safe (Inv ids n) (fun l label hinv => step_safe hinv label) (inv_new n) labels
  refine ⟨hstops, fun l hrun => ?_⟩
  have hinv := hinvs l hrun
  have hcount := hinv.count_eq
  refine ⟨fun t htask => ?_, fun t hdone hwaiting => ?_⟩
  · have hzero := hinv.leave t htask
    omega
  · obtain ⟨hzero, u, hu⟩ := (hinv.asleep t hwaiting).resolve_left (by omega)
    exact ⟨by omega, u, hu, hinv.inside hu⟩

end CountDownLatch
end Muduo
