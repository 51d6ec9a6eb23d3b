import Muduo.CountDownLatch

/-! `muduo::Thread`: `start()` creates a thread and waits on a latch until the thread has stored its id. The
latch and the id are fields of the `Thread`, which its owner may destroy as soon as `start()` has returned,
while the thread runs on. A step of the thread on a field of the destroyed object stops the run. -/

namespace Muduo

open Execution

/-- The thread that owns the object, and the one that the object starts. -/
inductive Party where
  | owner
  | child
  deriving DecidableEq, Repr

inductive OwnerPlace where
  /-- In no call. -/
  | idle
  /-- In `start()`, at `latch_.wait()`. -/
  | starting
  /-- In `join()`, at `pthread_join`. -/
  | joining
  /-- Behind the destructor. -/
  | gone
  deriving DecidableEq, Repr

inductive ChildPlace where
  | absent
  /-- Before `*tid_` is written. -/
  | born
  | stored
  /-- In `latch_->countDown()`. -/
  | counting
  | running
  | finished
  deriving DecidableEq, Repr

/-- Why a step is not taken: it is not one the thread can take now, an assertion fails, the process is
aborted, or a field of the destroyed object is used. -/
inductive ThreadStop where
  | disabled
  | assertion
  | fatal
  | freed
  deriving DecidableEq, Repr

def ThreadStop.ofMutex : MutexStop → ThreadStop
  | .disabled => .disabled
  | .assertion => .assertion

/-- A `Thread`, its owner and the thread it starts. -/
structure ThreadObject where
  started : Bool := false
  joined : Bool := false
  tid : Int := 0
  latch : CountDownLatch Party := { count := 1 }
  owner : OwnerPlace := .idle
  child : ChildPlace := .absent
  /-- The calls of `pthread_join` that have returned, and those of `pthread_detach`. -/
  joins : Nat := 0
  detaches : Nat := 0

namespace ThreadObject

variable (ids : ThreadIds Party)

/-- A step on the latch, which is a field of the object. -/
def onLatch (s : ThreadObject) (label : CountDownLatch.Label Party) : Except ThreadStop ThreadObject :=
  match s.latch.step ids label with
  | .ok latch => if s.owner = .gone then .error .freed else .ok { s with latch := latch }
  | .error reason => .error (.ofMutex reason)

/-- `start()` up to `latch_.wait()`. -/
def start (s : ThreadObject) (created : Bool) : Except ThreadStop ThreadObject :=
  if s.owner = .idle then
    if s.started then .error .assertion
    else if created then
      { s with started := true, child := .born, owner := .starting }.onLatch ids (.wait .owner)
    -- LOG_SYSFATAL
    else .error .fatal
  else .error .disabled

/-- `start()` behind `latch_.wait()`. -/
def startReturns (s : ThreadObject) : Except ThreadStop ThreadObject :=
  if s.owner = .starting ∧ s.latch.task .owner = .idle then
    if 0 < s.tid then .ok { s with owner := .idle } else .error .assertion
  else .error .disabled

def join (s : ThreadObject) : Except ThreadStop ThreadObject :=
  if s.owner = .idle then
    if s.started ∧ ¬s.joined then .ok { s with joined := true, owner := .joining } else .error .assertion
  else .error .disabled

/-- `pthread_join` returns. -/
def joinReturns (s : ThreadObject) : Except ThreadStop ThreadObject :=
  if s.owner = .joining ∧ s.child = .finished then .ok { s with owner := .idle, joins := s.joins + 1 }
  else .error .disabled

/-- `~Thread()`, and the destructor of the latch. -/
def destroy (s : ThreadObject) : Except ThreadStop ThreadObject :=
  if s.owner = .idle then
    match s.latch.mutex.destroy with
    | .ok () => .ok { s with
        owner := .gone
        detaches := if s.started && !s.joined then s.detaches + 1 else s.detaches }
    | .error reason => .error (.ofMutex reason)
  else .error .disabled

/-- `*tid_ = CurrentThread::tid()`. -/
def store (s : ThreadObject) : Except ThreadStop ThreadObject :=
  if s.child = .born then
    if s.owner = .gone then .error .freed else .ok { s with tid := ids.tid .child, child := .stored }
  else .error .disabled

/-- `latch_->countDown()` begins. -/
def countDown (s : ThreadObject) : Except ThreadStop ThreadObject :=
  if s.child = .stored then { s with child := .counting }.onLatch ids (.countDown .child)
  else .error .disabled

/-- `latch_->countDown()` has returned. -/
def runFunc (s : ThreadObject) : Except ThreadStop ThreadObject :=
  if s.child = .counting ∧ s.latch.task .child = .idle then .ok { s with child := .running }
  else .error .disabled

/-- `func_()` has returned, or has thrown. -/
def finish (s : ThreadObject) (thrown : Bool) : Except ThreadStop ThreadObject :=
  if s.child = .running then
    -- abort(), or the exception leaves the thread
    if thrown then .error .fatal else .ok { s with child := .finished }
  else .error .disabled

/-- A step inside `latch_.wait()` of the owner or `latch_->countDown()` of the thread. -/
def latchMove (s : ThreadObject) (m : CountDownLatch.Move Party) : Except ThreadStop ThreadObject :=
  if (m.thread = .owner ∧ s.owner = .starting) ∨ (m.thread = .child ∧ s.child = .counting) then
    s.onLatch ids (.move m)
  else .error .disabled

inductive Label where
  | start (created : Bool)
  | startReturns
  | join
  | joinReturns
  | destroy
  | store
  | countDown
  | runFunc
  | finish (thrown : Bool)
  | latch (m : CountDownLatch.Move Party)
  deriving DecidableEq, Repr

def step (s : ThreadObject) : Label → Except ThreadStop ThreadObject
  | .start created => s.start ids created
  | .startReturns => s.startReturns
  | .join => s.join
  | .joinReturns => s.joinReturns
  | .destroy => s.destroy
  | .store => s.store ids
  | .countDown => s.countDown ids
  | .runFunc => s.runFunc
  | .finish thrown => s.finish thrown
  | .latch m => s.latchMove ids m

/-! ## The invariant -/

/-- What the place of the thread says about its task at the latch and the calls of `countDown()`. -/
def ChildAt : ChildPlace → LatchTask → Nat → Prop
  | .absent, task, downs | .born, task, downs | .stored, task, downs => task = .idle ∧ downs = 0
  | .counting, task, downs =>
      task = .count ∧ downs = 0 ∨ (task = .notify ∨ task = .finish ∨ task = .idle) ∧ downs = 1
  | .running, task, downs | .finished, task, downs => task = .idle ∧ downs = 1

/-- How often the resources of the thread have been given back. -/
def reclaimed (s : ThreadObject) : Nat :=
  match s.owner with
  | .idle => s.joined.toNat
  | .starting | .joining => 0
  | .gone => s.started.toNat

structure Inv (s : ThreadObject) : Prop where
  latch : s.latch.Inv ids 1
  absent : s.started = false → s.child = .absent ∧ s.joined = false
  owner_starting : s.owner = .starting → s.started = true ∧ s.joined = false ∧
    (s.latch.task .owner = .await ∨ s.latch.task .owner = .leave ∨ s.latch.task .owner = .idle)
  owner_idle : s.owner ≠ .starting → s.latch.task .owner = .idle
  owner_joining : s.owner = .joining → s.joined = true
  child : ChildAt s.child (s.latch.task .child) s.latch.downs
  tid : s.child ≠ .absent → s.child ≠ .born → s.tid = ids.tid .child
  /-- When the owner is behind the latch, so is the thread. -/
  behind : s.started = true → s.latch.task .owner = .idle → s.latch.task .child = .idle ∧ s.latch.downs = 1
  reclaimed : s.joins + s.detaches = s.reclaimed

variable {ids} {s next : ThreadObject}

theorem inv_new : Inv ids {} where
  latch := CountDownLatch.inv_new 1
  absent _ := ⟨rfl, rfl⟩
  owner_starting h := by cases h
  owner_idle _ := rfl
  owner_joining h := by cases h
  child := ⟨rfl, rfl⟩
  tid h := absurd rfl h
  behind h := by cases h
  reclaimed := rfl

/-! ## The latch -/

/-- When the owner is past the loop of `wait()`, the thread is behind `countDown()`: it has decremented, and
it does not have the mutex any more. -/
theorem Inv.child_idle (hinv : Inv ids s) (hleave : s.latch.task .owner = .leave) :
    s.latch.task .child = .idle ∧ s.latch.downs = 1 := by
  have hcount := hinv.latch.count_eq
  have hzero := hinv.latch.leave .owner hleave
  have howner := hinv.latch.owns (.inl hleave)
  have hnot (htask : s.latch.task .child = .notify ∨ s.latch.task .child = .finish) : False := by
    have hchild := hinv.latch.owns (.inr htask)
    cases hinv.latch.mutex.exclusive howner hchild
  have hchild := hinv.child
  cases hplace : s.child with
  | absent | born | stored =>
      rw [hplace] at hchild
      have hdowns := hchild.2
      omega
  | counting =>
      rw [hplace] at hchild
      rcases hchild with ⟨-, hdowns⟩ | ⟨htask, hdowns⟩
      · omega
      · rcases htask with htask | htask | htask
        · exact (hnot (.inl htask)).elim
        · exact (hnot (.inr htask)).elim
        · exact ⟨htask, hdowns⟩
  | running | finished =>
      rw [hplace] at hchild
      exact hchild

theorem Inv.turn_owner (hinv : Inv ids s) (hstarting : s.owner = .starting) {latch : CountDownLatch Party}
    (hturn : CountDownLatch.Turn ids s.latch .owner latch) : Inv ids { s with latch := latch } := by
  have hchild : latch.task .child = s.latch.task .child := hturn.task_of_ne (by decide)
  obtain ⟨hstarted, hjoined, htask⟩ := hinv.owner_starting hstarting
  obtain ⟨k, hadvance, hdowns⟩ := hturn.advance
  have hnot := hturn.not_idle hinv.latch
  -- the owner does not decrement, and leaves `wait()` from behind its loop
  obtain ⟨hk, htask, hidle⟩ : k = 0 ∧
      (latch.task .owner = .await ∨ latch.task .owner = .leave ∨ latch.task .owner = .idle) ∧
      (latch.task .owner = .idle → s.latch.task .owner = .leave) := by
    rcases htask with htask | htask | htask
    · rw [htask] at hadvance
      generalize latch.task .owner = after at hadvance
      cases hadvance <;> simp
    · rw [htask] at hadvance
      generalize latch.task .owner = after at hadvance
      cases hadvance <;> simp [htask]
    · exact absurd htask hnot
  have hdowns : latch.downs = s.latch.downs := by rw [hdowns, hk, Nat.add_zero]
  refine ⟨hturn.inv hinv.latch, hinv.absent, fun _ => ⟨hstarted, hjoined, htask⟩,
    fun h => absurd hstarting h, hinv.owner_joining, ?_, hinv.tid, fun _ hback => ?_, hinv.reclaimed⟩
  · change ChildAt s.child (latch.task .child) latch.downs
    rw [hchild, hdowns]
    exact hinv.child
  · change latch.task .child = .idle ∧ latch.downs = 1
    rw [hchild, hdowns]
    exact hinv.child_idle (hidle hback)

theorem Inv.started (hinv : Inv ids s) (hchild : s.child ≠ .absent) : s.started = true := by
  by_contra hnot
  exact hchild (hinv.absent (Bool.not_eq_true _ ▸ hnot)).1

/-- A thread that exists was started, wherever it is. -/
theorem Inv.absent_of (hinv : Inv ids s) {place : ChildPlace} (hplace : s.child = place) (hne : place ≠ .absent)
    {P : Prop} (hnot : s.started = false) : P := by
  rw [hinv.started (hplace ▸ hne)] at hnot
  cases hnot

/-- The thread stores its id before it decrements. -/
theorem Inv.tid_of_downs (hinv : Inv ids s) (hdowns : s.latch.downs = 1) : s.tid = ids.tid .child := by
  have hchild := hinv.child
  apply hinv.tid
  all_goals
    intro h
    rw [h] at hchild
    have hzero := hchild.2
    omega

/-- While the thread is in `countDown()` the owner is in `start()`. -/
theorem Inv.owner_of_child (hinv : Inv ids s) (hchild : s.child ≠ .absent)
    (hbusy : s.latch.task .child ≠ .idle ∨ s.latch.downs = 0) :
    s.owner = .starting ∧ s.latch.task .owner ≠ .idle := by
  have hstarted := hinv.started hchild
  have howner : s.latch.task .owner ≠ .idle := by
    intro hidle
    obtain ⟨htask, hdowns⟩ := hinv.behind hstarted hidle
    rcases hbusy with hbusy | hbusy
    · exact hbusy htask
    · omega
  refine ⟨?_, howner⟩
  by_contra hnot
  exact howner (hinv.owner_idle hnot)

theorem Inv.turn_child (hinv : Inv ids s) (hcounting : s.child = .counting) {latch : CountDownLatch Party}
    (hturn : CountDownLatch.Turn ids s.latch .child latch) :
    s.owner = .starting ∧ Inv ids { s with latch := latch } := by
  have htask : latch.task .owner = s.latch.task .owner := hturn.task_of_ne (by decide)
  have hnot := hturn.not_idle hinv.latch
  obtain ⟨hstarting, howner⟩ := hinv.owner_of_child (by simp [hcounting]) (.inl hnot)
  obtain ⟨k, hadvance, hdowns⟩ := hturn.advance
  have hchild := hinv.child
  rw [hcounting] at hchild
  have hchild : ChildAt .counting (latch.task .child) latch.downs := by
    generalize latch.task .child = after at hadvance
    rw [hdowns]
    rcases hchild with ⟨hbefore, hzero⟩ | ⟨hbefore | hbefore | hbefore, hone⟩
    · rw [hbefore] at hadvance
      cases hadvance <;> simp [ChildAt, hzero]
    · rw [hbefore] at hadvance
      cases hadvance <;> simp [ChildAt, hone]
    · rw [hbefore] at hadvance
      cases hadvance <;> simp [ChildAt, hone]
    · exact absurd hbefore hnot
  refine ⟨hstarting, hturn.inv hinv.latch, hinv.absent, fun h => ?_, fun h => absurd hstarting h,
    hinv.owner_joining, ?_, hinv.tid, fun _ hidle => ?_, hinv.reclaimed⟩
  · change s.started = true ∧ s.joined = false ∧ (latch.task .owner = .await ∨ _ ∨ _)
    rw [htask]
    exact hinv.owner_starting h
  · change ChildAt s.child _ _
    rw [hcounting]
    exact hchild
  · change latch.task .owner = .idle at hidle
    rw [htask] at hidle
    exact absurd hidle howner

/-! ## The steps -/

def Harmless (reason : ThreadStop) : Prop := reason = .disabled ∨ reason = .fatal

/-- What a step leads to: it is stopped for a harmless reason, or it keeps the invariant. -/
def Safe (ids : ThreadIds Party) (result : Except ThreadStop ThreadObject) : Prop :=
  (∃ reason, result = .error reason ∧ Harmless reason) ∨ ∃ next, result = .ok next ∧ Inv ids next

theorem safe_disabled : Safe ids (.error .disabled) := .inl ⟨.disabled, rfl, .inl rfl⟩

theorem safe_ok (hinv : Inv ids s) : Safe ids (.ok s) := .inr ⟨s, rfl, hinv⟩

theorem safe_guarded {guard : Prop} [Decidable guard] {attempt : Except ThreadStop ThreadObject}
    (hattempt : guard → Safe ids attempt) : Safe ids (if guard then attempt else .error .disabled) := by
  split
  · exact hattempt ‹_›
  · exact safe_disabled

/-- While the owner is in `start()` the latch exists. -/
theorem safe_onLatch {label : CountDownLatch.Label Party} {latch : CountDownLatch Party}
    (hstep : s.latch.step ids label = .ok latch) (hstarting : s.owner = .starting)
    (hnext : Inv ids { s with latch := latch }) : Safe ids (s.onLatch ids label) := by
  rw [onLatch, hstep]
  change Safe ids (if s.owner = .gone then _ else _)
  rw [if_neg (by simp [hstarting])]
  exact safe_ok hnext

theorem safe_latchMove (hinv : Inv ids s) (m : CountDownLatch.Move Party) : Safe ids (s.latchMove ids m) := by
  apply safe_guarded
  intro hplace
  rcases CountDownLatch.move_acts hinv.latch m with hstep | ⟨latch, hstep, hturn⟩
  · rw [onLatch, CountDownLatch.step, hstep]
    exact safe_disabled
  · rcases hplace with ⟨hthread, hstarting⟩ | ⟨hthread, hcounting⟩
    · rw [hthread] at hturn
      exact safe_onLatch hstep hstarting (hinv.turn_owner hstarting hturn)
    · rw [hthread] at hturn
      obtain ⟨hstarting, hnext⟩ := hinv.turn_child hcounting hturn
      exact safe_onLatch hstep hstarting hnext

theorem safe_start (hinv : Inv ids s) (created : Bool) (hright : s.owner = .idle → s.started = false) :
    Safe ids (s.start ids created) := by
  apply safe_guarded
  intro hidle
  have hstarted := hright hidle
  obtain ⟨habsent, hjoined⟩ := hinv.absent hstarted
  have htask := hinv.owner_idle (by simp [hidle])
  rw [if_neg (by simp [hstarted])]
  cases created with
  | false => exact .inl ⟨.fatal, rfl, .inr rfl⟩
  | true =>
      have hchild := hinv.child
      rw [habsent] at hchild
      refine safe_onLatch (if_pos htask) rfl ⟨hinv.latch.enter htask rfl (by decide), (fun h => by cases h),
        fun _ => ⟨rfl, hjoined, .inl ?_⟩,
        fun h => absurd rfl h, (fun h => by cases h), hchild, fun _ h => absurd rfl h, fun _ h => ?_, ?_⟩
      · exact CountDownLatch.task_proceed_self _ _ _
      · rw [CountDownLatch.task_proceed_self] at h
        cases h
      · have hreclaimed := hinv.reclaimed
        simpa [reclaimed, hidle, hjoined] using hreclaimed

theorem safe_startReturns (hinv : Inv ids s) : Safe ids s.startReturns := by
  apply safe_guarded
  rintro ⟨hstarting, hidle⟩
  obtain ⟨hstarted, hjoined, -⟩ := hinv.owner_starting hstarting
  obtain ⟨-, hdowns⟩ := hinv.behind hstarted hidle
  rw [if_pos (by rw [hinv.tid_of_downs hdowns]; exact ids.tid_pos _)]
  refine safe_ok ⟨hinv.latch, hinv.absent, (fun h => by cases h), fun _ => hidle, (fun h => by cases h),
    hinv.child, hinv.tid, hinv.behind, ?_⟩
  have hreclaimed := hinv.reclaimed
  simpa [reclaimed, hstarting, hjoined] using hreclaimed

theorem safe_join (hinv : Inv ids s) (hright : s.owner = .idle → s.started = true ∧ s.joined = false) :
    Safe ids s.join := by
  apply safe_guarded
  intro hidle
  obtain ⟨hstarted, hjoined⟩ := hright hidle
  rw [if_pos ⟨hstarted, by simp [hjoined]⟩]
  refine safe_ok ⟨hinv.latch, fun h => ?_, (fun h => by cases h), fun _ => hinv.owner_idle (by simp [hidle]),
    fun _ => rfl, hinv.child, hinv.tid, hinv.behind, ?_⟩
  · rw [hstarted] at h
    cases h
  · have hreclaimed := hinv.reclaimed
    simpa [reclaimed, hidle, hjoined] using hreclaimed

theorem safe_joinReturns (hinv : Inv ids s) : Safe ids s.joinReturns := by
  apply safe_guarded
  rintro ⟨hjoining, hfinished⟩
  refine safe_ok ⟨hinv.latch, hinv.absent, (fun h => by cases h), fun _ => hinv.owner_idle (by simp [hjoining]),
    (fun h => by cases h), hinv.child, hinv.tid, hinv.behind, ?_⟩
  have hreclaimed := hinv.reclaimed
  simp only [reclaimed, hjoining] at hreclaimed
  simp only [reclaimed, hinv.owner_joining hjoining, Bool.toNat_true]
  omega

theorem safe_destroy (hinv : Inv ids s) : Safe ids s.destroy := by
  apply safe_guarded
  intro hidle
  have htask := hinv.owner_idle (by simp [hidle])
  have hchild : s.latch.task .child = .idle := by
    cases hstarted : s.started with
    | true => exact (hinv.behind hstarted htask).1
    | false =>
        have hchild := hinv.child
        rw [(hinv.absent hstarted).1] at hchild
        exact hchild.1
  have hdestroy : s.latch.mutex.destroy = .ok () := by
    apply (MutexLock.destroy_ok_iff hinv.latch.mutex).mpr
    intro p
    cases p with
    | owner => exact hinv.latch.outside htask
    | child => exact hinv.latch.outside hchild
  rw [hdestroy]
  refine safe_ok ⟨hinv.latch, hinv.absent, (fun h => by cases h), fun _ => htask,
    (fun h => by cases h), hinv.child, hinv.tid, hinv.behind, ?_⟩
  have hreclaimed := hinv.reclaimed
  simp only [reclaimed, hidle] at hreclaimed
  simp only [reclaimed]
  cases hstarted : s.started with
  | true => cases hjoined : s.joined <;> simp [hjoined] at hreclaimed ⊢ <;> omega
  | false => simpa [(hinv.absent hstarted).2] using hreclaimed

theorem safe_store (hinv : Inv ids s) : Safe ids (s.store ids) := by
  apply safe_guarded
  intro hborn
  have hchild := hinv.child
  rw [hborn] at hchild
  obtain ⟨hstarting, howner⟩ := hinv.owner_of_child (by simp [hborn]) (.inr hchild.2)
  rw [if_neg (by simp [hstarting])]
  exact safe_ok ⟨hinv.latch, hinv.absent_of hborn (by decide), hinv.owner_starting, hinv.owner_idle,
    hinv.owner_joining, hchild, fun _ _ => rfl, hinv.behind, hinv.reclaimed⟩

theorem safe_countDown (hinv : Inv ids s) : Safe ids (s.countDown ids) := by
  apply safe_guarded
  intro hstored
  have hchild := hinv.child
  rw [hstored] at hchild
  obtain ⟨hstarting, howner⟩ := hinv.owner_of_child (by simp [hstored]) (.inr hchild.2)
  have hother : (s.latch.proceed .child .count).task .owner = s.latch.task .owner :=
    CountDownLatch.task_proceed_of_ne _ (by decide) _
  refine safe_onLatch (if_pos hchild.1) hstarting ⟨hinv.latch.enter hchild.1 rfl (by decide),
    hinv.absent_of hstored (by decide), fun h => ?_,
    fun h => absurd hstarting h, hinv.owner_joining, ?_,
    fun _ _ => hinv.tid (by simp [hstored]) (by simp [hstored]), fun _ h => ?_, hinv.reclaimed⟩
  · rw [hother]
    exact hinv.owner_starting h
  · exact .inl ⟨CountDownLatch.task_proceed_self _ _ _, hchild.2⟩
  · rw [hother] at h
    exact absurd h howner

theorem safe_runFunc (hinv : Inv ids s) : Safe ids s.runFunc := by
  apply safe_guarded
  rintro ⟨hcounting, hidle⟩
  have hchild := hinv.child
  rw [hcounting, hidle] at hchild
  have hdowns : s.latch.downs = 1 := by
    rcases hchild with ⟨h, -⟩ | ⟨-, h⟩
    · cases h
    · exact h
  exact safe_ok ⟨hinv.latch, hinv.absent_of hcounting (by decide), hinv.owner_starting, hinv.owner_idle,
    hinv.owner_joining, ⟨hidle, hdowns⟩, fun _ _ => hinv.tid_of_downs hdowns, hinv.behind, hinv.reclaimed⟩

theorem safe_finish (hinv : Inv ids s) (thrown : Bool) : Safe ids (s.finish thrown) := by
  apply safe_guarded
  intro hrunning
  have hchild := hinv.child
  rw [hrunning] at hchild
  cases thrown with
  | true => exact .inl ⟨.fatal, rfl, .inr rfl⟩
  | false =>
      exact safe_ok ⟨hinv.latch, hinv.absent_of hrunning (by decide), hinv.owner_starting, hinv.owner_idle,
        hinv.owner_joining, hchild, fun _ _ => hinv.tid_of_downs hchild.2, hinv.behind, hinv.reclaimed⟩

/-- The calls that the owner may make: `start()` once, and `join()` once after it. -/
def Right (s : ThreadObject) : Label → Prop
  | .start _ => s.owner = .idle → s.started = false
  | .join => s.owner = .idle → s.started = true ∧ s.joined = false
  | _ => True

theorem step_safe (hinv : Inv ids s) {label : Label} (hright : Right s label) : Safe ids (s.step ids label) := by
  cases label with
  | start created => exact safe_start hinv created hright
  | startReturns => exact safe_startReturns hinv
  | join => exact safe_join hinv hright
  | joinReturns => exact safe_joinReturns hinv
  | destroy => exact safe_destroy hinv
  | store => exact safe_store hinv
  | countDown => exact safe_countDown hinv
  | runFunc => exact safe_runFunc hinv
  | finish thrown => exact safe_finish hinv thrown
  | latch m => exact safe_latchMove hinv m

/-- The other calls fail an assertion. -/
theorem step_wrong {label : Label} (hwrong : ¬ Right s label) : s.step ids label = .error .assertion := by
  cases label with
  | start created =>
      obtain ⟨hidle, hstarted⟩ := Classical.not_imp.mp hwrong
      rw [step, start, if_pos hidle, if_pos (by simpa using hstarted)]
  | join =>
      obtain ⟨hidle, hnot⟩ := Classical.not_imp.mp hwrong
      rw [step, join, if_pos hidle, if_neg (by simpa using hnot)]
  | _ => exact absurd trivial hwrong

theorem step_harmless_iff (hinv : Inv ids s) (label : Label) :
    (∀ reason, s.step ids label = .error reason → Harmless reason) ↔ Right s label := by
  constructor
  · intro hharmless
    by_contra hwrong
    rcases hharmless .assertion (step_wrong hwrong) with h | h <;> cases h
  · intro hright reason hreason
    rcases step_safe hinv hright with ⟨other, hother, hharmless⟩ | ⟨next, hnext, -⟩
    · rw [hother] at hreason
      cases hreason
      exact hharmless
    · rw [hnext] at hreason
      cases hreason

theorem step_inv (hinv : Inv ids s) {label : Label} (hstep : s.step ids label = .ok next) : Inv ids next := by
  have hright : Right s label := by
    by_contra hwrong
    rw [step_wrong hwrong] at hstep
    cases hstep
  rcases step_safe hinv hright with ⟨reason, hreason, -⟩ | ⟨other, hother, hkeeps⟩
  · rw [hreason] at hstep
    cases hstep
  · rw [hother] at hstep
    cases hstep
    exact hkeeps

/-- **Starting a thread.** Whatever the order of the steps of the owner and of the thread, a run is stopped
only where the owner calls `start()` twice, or `join()` before `start()` or twice, or where no thread can be
created or `func_()` throws: the thread never uses a field of the destroyed object, and no other assertion
fails. When `start()` has returned, `tid_` is the id of the thread, and the thread is behind its last use of
the latch. When the object is destroyed, a thread that was started has been joined or detached, and not
both. -/
theorem start_handshake (ids : ThreadIds Party) (labels : List Label) :
    ((∀ reason, run (step ids) {} labels = .error reason → reason = .disabled ∨ reason = .fatal) ↔
      Meets (step ids) Right {} labels) ∧
    ∀ s, run (step ids) {} labels = .ok s →
      (s.started = true → s.owner ≠ .starting → s.tid = ids.tid .child ∧ s.latch.task .child = .idle ∧
        (s.child = .counting ∨ s.child = .running ∨ s.child = .finished)) ∧
      (s.owner = .gone → s.joins + s.detaches = s.started.toNat) := by
  constructor
  · refine run_harmless_iff_meets (Inv ids) (fun s label hinv => ?_) inv_new
    exact ⟨step_harmless_iff hinv label, fun next hstep => step_inv hinv hstep⟩
  · intro s hrun
    have hinv := run_preserves (Inv ids) (fun s label next hinv hstep => step_inv hinv hstep) inv_new hrun
    refine ⟨fun hstarted howner => ?_, fun hgone => ?_⟩
    · obtain ⟨htask, hdowns⟩ := hinv.behind hstarted (hinv.owner_idle howner)
      have hchild := hinv.child
      have hplace : s.child = .counting ∨ s.child = .running ∨ s.child = .finished := by
        cases hplace : s.child <;> simp [hplace, ChildAt, hdowns] at hchild ⊢
      exact ⟨hinv.tid_of_downs hdowns, htask, hplace⟩
    · have hreclaimed := hinv.reclaimed
      rwa [reclaimed, hgone] at hreclaimed

end ThreadObject
end Muduo
