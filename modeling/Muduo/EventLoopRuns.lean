import Muduo.EventLoop
import Muduo.Execution

/-! `EventLoop::loop()` interleaved with `queueInLoop`, `runInLoop` and `quit`, called by the owner
thread or by any other. The push and the swap are atomic, since the mutex protects them. Everything
else is a step of its own: `queueInLoop` and `quit` write to the eventfd after they have pushed, or
set `quit_`, and the owner thread goes through `loop()` assignment by assignment. -/

namespace Muduo

open Execution

/-- The point of `loop()` at which the owner thread stands. -/
inductive LoopPhase where
  | outside
  /-- `looping_` is set, `quit_` is about to be cleared. -/
  | entered
  /-- At `while (!quit_)`. -/
  | testing
  /-- In `poller_->poll`. -/
  | polling
  /-- Handling `activeChannels_`; `wakeup` as long as `wakeupChannel_` is still to be handled. -/
  | handling (wakeup : Bool)
  /-- In `doPendingFunctors`, before the swap. -/
  | swapping
  /-- In `doPendingFunctors`, after the swap. -/
  | running
  deriving DecidableEq, Repr

namespace LoopPhase

/-- The owner thread runs code that is not the loop's: a callback, a functor, or what stands before
and after the call of `loop()`. -/
def callsOut : LoopPhase → Bool
  | .outside => true
  | .handling _ => true
  | .running => true
  | _ => false

/-- `poll` has returned, and what is pending will be swapped out before the next one. -/
def collecting : LoopPhase → Bool
  | .handling _ => true
  | .swapping => true
  | _ => false

/-- In `doPendingFunctors`. -/
def callingFunctors : LoopPhase → Bool
  | .swapping => true
  | .running => true
  | _ => false

end LoopPhase

/-- A functor of `pendingFunctors_`, with a record of who pushed it and when. -/
structure Job (F : Type) where
  functor : F
  thread : Thread
  iteration : Nat
  phase : LoopPhase
  deriving DecidableEq, Repr

/-- What a thread has done that it is about to call `wakeup()` for. -/
inductive WakeupReason where
  | functor
  | quit
  deriving DecidableEq, Repr

structure EventLoop (F : Type) where
  looping : Bool := false
  quit_ : Bool := false
  callingPendingFunctors : Bool := false
  iteration : Nat := 0
  /-- The counter of the eventfd. -/
  wakeupFd : Nat := 0
  queue : FunctorQueue (Job F) := {}
  phase : LoopPhase := .outside
  /-- The threads that have a `wakeup()` still to call. -/
  waking : List (Thread × WakeupReason) := []
  /-- Every functor pushed so far. -/
  pushed : List (Job F) := []
  /-- Every functor taken from a batch so far, with the iteration in which it was. -/
  executed : List (Job F × Nat) := []
  /-- `quit()` has been called and `loop()` has not returned since. -/
  quitRequested : Bool := false
  deriving DecidableEq, Repr

/-- A write of 1 to an eventfd, which fails when the counter is at its maximum. -/
def eventfdWrite (counter : Nat) : Nat :=
  if counter < 0xfffffffffffffffe then counter + 1 else counter

theorem eventfdWrite_pos (counter : Nat) : 0 < eventfdWrite counter := by
  unfold eventfdWrite
  split
  · exact Nat.succ_pos counter
  · omega

namespace EventLoop

inductive Label (F : Type) where
  | queueInLoop (thread : Thread) (functor : F)
  | runInLoop (thread : Thread) (functor : F)
  | quit (thread : Thread)
  /-- The `wakeup()` at the end of the thread's `queueInLoop` or `quit`. -/
  | wakeup (thread : Thread)
  /-- `loop()` is called: `assert(!looping_)` and `looping_ = true`. -/
  | loop
  /-- `quit_ = false`. -/
  | clearQuit
  /-- `while (!quit_)`, which begins a poll or leaves `loop()`. -/
  | testQuit
  /-- `poll` returns, by a timeout, a signal or an event, and may report `wakeupChannel_`. -/
  | pollReturn (wakeup : Bool)
  | handleRead
  /-- Every active channel has been handled: `callingPendingFunctors_ = true`. -/
  | doPendingFunctors
  | swap
  /-- The next functor of the batch is called. -/
  | execute
  /-- The batch is done: `callingPendingFunctors_ = false`. -/
  | finish
  deriving DecidableEq, Repr

/-- Why a step is not taken. -/
inductive Stop where
  | disabled
  | assertion
  deriving DecidableEq, Repr

variable {F : Type}

/-! ## The functions of the class -/

def wakeup (s : EventLoop F) (thread : Thread) : EventLoop F :=
  { s with wakeupFd := eventfdWrite s.wakeupFd, waking := s.waking.filter (·.1 ≠ thread) }

def queueInLoop (s : EventLoop F) (thread : Thread) (functor : F) : EventLoop F :=
  let job : Job F := { functor, thread, iteration := s.iteration, phase := s.phase }
  { s with
    queue := s.queue.queueInLoop job
    pushed := s.pushed ++ [job]
    waking :=
      if thread ≠ .loop ∨ s.callingPendingFunctors then (thread, .functor) :: s.waking
      else s.waking }

/-- In the loop thread the functor is called at once; what it does are further steps. -/
def runInLoop (s : EventLoop F) (thread : Thread) (functor : F) : EventLoop F :=
  match thread with
  | .loop => s
  | .other id => s.queueInLoop (.other id) functor

def quit (s : EventLoop F) (thread : Thread) : EventLoop F :=
  { s with
    quit_ := true
    quitRequested := true
    waking := if thread ≠ .loop then (thread, .quit) :: s.waking else s.waking }

/-- The read empties the eventfd. -/
def handleRead (s : EventLoop F) : EventLoop F :=
  { s with wakeupFd := 0, phase := .handling false }

/-- `functors.swap(pendingFunctors_)`. -/
def swap (s : EventLoop F) : EventLoop F :=
  { s with queue := s.queue.swap.getD s.queue, phase := .running }

def execute (s : EventLoop F) : EventLoop F :=
  match s.queue.next with
  | some (job, rest) => { s with queue := rest, executed := s.executed ++ [(job, s.iteration)] }
  | none => s

def testQuit (s : EventLoop F) : EventLoop F :=
  if s.quit_ then { s with looping := false, phase := .outside, quitRequested := false }
  else { s with phase := .polling }

/-- The thread has no `wakeup()` to call. -/
def idle (s : EventLoop F) (thread : Thread) : Bool := s.waking.all (·.1 ≠ thread)

/-- The thread is free to call into the loop. -/
def mayCall (s : EventLoop F) (thread : Thread) : Bool :=
  s.idle thread && (thread ≠ .loop || s.phase.callsOut)

def enabled (s : EventLoop F) : Label F → Bool
  | .queueInLoop thread _ => s.mayCall thread
  | .runInLoop thread _ => s.mayCall thread
  | .quit thread => s.mayCall thread
  | .wakeup thread => !s.idle thread
  | .loop => s.mayCall .loop
  | .clearQuit => s.phase = .entered
  | .testQuit => s.phase = .testing
  | .pollReturn wakeup => s.phase = .polling && (!wakeup || 0 < s.wakeupFd)
  | .handleRead => s.phase = .handling true
  | .doPendingFunctors => s.phase = .handling false
  | .swap => s.phase = .swapping
  | .execute => s.phase = .running && s.idle .loop && !s.queue.functors.isEmpty
  | .finish => s.phase = .running && s.idle .loop && s.queue.functors.isEmpty

/-- The assertions a step makes. -/
def asserts (s : EventLoop F) : Label F → Bool
  | .loop => !s.looping
  | _ => true

def effect (s : EventLoop F) : Label F → EventLoop F
  | .queueInLoop thread functor => s.queueInLoop thread functor
  | .runInLoop thread functor => s.runInLoop thread functor
  | .quit thread => s.quit thread
  | .wakeup thread => s.wakeup thread
  | .loop => { s with looping := true, phase := .entered }
  | .clearQuit => { s with quit_ := false, phase := .testing }
  | .testQuit => s.testQuit
  | .pollReturn wakeup => { s with iteration := s.iteration + 1, phase := .handling wakeup }
  | .handleRead => s.handleRead
  | .doPendingFunctors => { s with callingPendingFunctors := true, phase := .swapping }
  | .swap => s.swap
  | .execute => s.execute
  | .finish => { s with callingPendingFunctors := false, phase := .testing }

def step (s : EventLoop F) (label : Label F) : Except Stop (EventLoop F) :=
  if s.enabled label then
    if s.asserts label then .ok (s.effect label) else .error .assertion
  else .error .disabled

variable {s next final : EventLoop F} {label : Label F} {labels : List (Label F)}

theorem step_ok :
    s.step label = .ok next ↔
      s.enabled label = true ∧ s.asserts label = true ∧ next = s.effect label := by
  unfold step
  split
  · rename_i henabled
    split
    · rename_i hasserts
      simp [henabled, hasserts, eq_comm]
    · rename_i hasserts
      simp [hasserts]
  · rename_i henabled
    simp [henabled]

@[simp] theorem idle_iff {thread : Thread} :
    s.idle thread = true ↔ ∀ reason, (thread, reason) ∉ s.waking := by
  simp only [idle, List.all_eq_true, decide_eq_true_eq]
  constructor
  · intro hall reason hmem
    exact hall _ hmem rfl
  · intro hnone entry hmem hthread
    exact hnone entry.2 (hthread ▸ hmem)

theorem mayCall_loop :
    s.mayCall .loop = true ↔ (∀ reason, (.loop, reason) ∉ s.waking) ∧ s.phase.callsOut = true := by
  simp [mayCall]

theorem enabled_pollReturn {wakeup : Bool} :
    s.enabled (.pollReturn wakeup) = true ↔
      s.phase = .polling ∧ (wakeup = true → 0 < s.wakeupFd) := by
  cases wakeup with
  | true => simp [enabled]
  | false => simp [enabled]

theorem enabled_execute :
    s.enabled .execute = true ↔
      s.phase = .running ∧ (∀ reason, (.loop, reason) ∉ s.waking) ∧ s.queue.functors ≠ [] := by
  simp [enabled, and_assoc]

theorem enabled_finish :
    s.enabled .finish = true ↔
      s.phase = .running ∧ (∀ reason, (.loop, reason) ∉ s.waking) ∧ s.queue.functors = [] := by
  simp [enabled, and_assoc]

theorem next_of_enabled (henabled : s.enabled .execute = true) :
    ∃ job rest, s.queue.next = some (job, rest) := by
  have hbatch := (enabled_execute.mp henabled).2.2
  unfold FunctorQueue.next
  split
  · contradiction
  · exact ⟨_, _, rfl⟩

/-! ## The flags of the owner thread -/

/-- The flags say where the owner thread stands, and only a functor of a batch leaves it with a
`wakeup()` to call. -/
structure Controlled (s : EventLoop F) : Prop where
  looping : s.looping = decide (s.phase ≠ .outside)
  calling : s.callingPendingFunctors = s.phase.callingFunctors
  own : ∀ reason, (.loop, reason) ∈ s.waking → s.phase = .running
  between : s.phase ≠ .running → s.queue.functors = []

theorem controlled_initial : Controlled ({} : EventLoop F) where
  looping := rfl
  calling := rfl
  own reason hmem := by simp at hmem
  between _ := rfl

/-- Entering `loop()` asserts that the owner thread is not in it. -/
theorem Controlled.outside (h : Controlled s) (hasserts : s.asserts .loop = true) :
    s.phase = .outside := by
  simpa [asserts, h.looping] using hasserts

/-- The owner thread calls `wakeup()` for a functor it pushes exactly when it runs a batch. -/
theorem Controlled.calling_iff (h : Controlled s) (hcall : s.mayCall .loop = true) :
    s.callingPendingFunctors = true ↔ s.phase = .running := by
  have hphase := (mayCall_loop.mp hcall).2
  rw [h.calling]
  cases hcase : s.phase with
  | swapping => simp [hcase, LoopPhase.callsOut] at hphase
  | running => simp [LoopPhase.callingFunctors]
  | _ => simp [LoopPhase.callingFunctors]

/-- The owner thread moves on from a point at which it runs no batch. -/
theorem Controlled.move (h : Controlled s) {phase : LoopPhase} (hphase : s.phase = phase)
    (hrunning : phase ≠ .running) (hqueue : next.queue = s.queue) (hwaking : next.waking = s.waking)
    (hlooping : next.looping = decide (next.phase ≠ .outside))
    (hcalling : next.callingPendingFunctors = next.phase.callingFunctors) : Controlled next where
  looping := hlooping
  calling := hcalling
  own reason hmem := absurd (hphase.symm.trans (h.own reason (hwaking ▸ hmem))) hrunning
  between _ := by
    rw [hqueue]
    exact h.between (hphase ▸ hrunning)

theorem Controlled.queueInLoop (h : Controlled s) {thread : Thread} (hcall : s.mayCall thread = true)
    (functor : F) : Controlled (s.queueInLoop thread functor) where
  looping := h.looping
  calling := h.calling
  own reason hmem := by
    cases thread with
    | other id => exact h.own reason (by simpa [EventLoop.queueInLoop] using hmem)
    | loop =>
        by_cases hcalling : s.callingPendingFunctors = true
        · exact (h.calling_iff hcall).mp hcalling
        · exact h.own reason (by simpa [EventLoop.queueInLoop, hcalling] using hmem)
  between := h.between

theorem Controlled.step (h : Controlled s) (hstep : s.step label = .ok next) : Controlled next := by
  obtain ⟨henabled, hasserts, rfl⟩ := step_ok.mp hstep
  have hlooping := h.looping
  have hcalling := h.calling
  cases label with
  | queueInLoop thread functor => exact h.queueInLoop henabled functor
  | runInLoop thread functor =>
      cases thread with
      | loop => exact h
      | other id => exact h.queueInLoop henabled functor
  | quit thread =>
      refine { h with own := fun reason hmem => h.own reason ?_ }
      cases thread with
      | loop | other id => simpa [effect, EventLoop.quit] using hmem
  | wakeup thread =>
      exact { h with own := fun reason hmem => h.own reason (List.mem_of_mem_filter hmem) }
  | loop =>
      have hphase := h.outside hasserts
      rw [hphase] at hlooping hcalling
      exact h.move hphase (by simp) rfl rfl rfl hcalling
  | clearQuit =>
      have hphase : s.phase = .entered := by simpa [enabled] using henabled
      rw [hphase] at hlooping hcalling
      exact h.move hphase (by simp) rfl rfl hlooping hcalling
  | testQuit =>
      have hphase : s.phase = .testing := by simpa [enabled] using henabled
      rw [hphase] at hlooping hcalling
      simp only [effect, EventLoop.testQuit]
      split
      · exact h.move hphase (by simp) rfl rfl rfl hcalling
      · exact h.move hphase (by simp) rfl rfl hlooping hcalling
  | pollReturn wakeup =>
      have hphase := (enabled_pollReturn.mp henabled).1
      rw [hphase] at hlooping hcalling
      exact h.move hphase (by simp) rfl rfl hlooping hcalling
  | handleRead =>
      have hphase : s.phase = .handling true := by simpa [enabled] using henabled
      rw [hphase] at hlooping hcalling
      exact h.move hphase (by simp) rfl rfl hlooping hcalling
  | doPendingFunctors =>
      have hphase : s.phase = .handling false := by simpa [enabled] using henabled
      rw [hphase] at hlooping
      exact h.move hphase (by simp) rfl rfl hlooping rfl
  | swap =>
      have hphase : s.phase = .swapping := by simpa [enabled] using henabled
      rw [hphase] at hlooping hcalling
      exact {
        looping := hlooping
        calling := hcalling
        own := fun _ _ => rfl
        between := fun hnot => absurd rfl hnot }
  | execute =>
      obtain ⟨job, rest, hnext⟩ := next_of_enabled henabled
      simp only [effect, EventLoop.execute, hnext]
      have hphase := (enabled_execute.mp henabled).1
      exact { h with between := fun hnot => absurd hphase hnot }
  | finish =>
      obtain ⟨hphase, hidle, hempty⟩ := enabled_finish.mp henabled
      rw [hphase] at hlooping
      exact {
        looping := hlooping
        calling := rfl
        own := fun reason hmem => absurd hmem (hidle reason)
        between := fun _ => hempty }

/-! ## The order of the functors -/

/-- What has been taken from the batches, what is left of the running one and what is pending make up
the functors pushed, in order. A functor pushed while a batch runs waits for a later iteration. -/
structure Ordered (s : EventLoop F) : Prop where
  log : s.executed.map Prod.fst ++ s.queue.queued = s.pushed
  bounded : ∀ job ∈ s.pushed, job.iteration ≤ s.iteration
  pending : s.phase.collecting = true →
    ∀ job ∈ s.queue.pendingFunctors, job.phase = .running → job.iteration < s.iteration
  batch : ∀ job ∈ s.queue.functors, job.phase = .running → job.iteration < s.iteration
  executed : ∀ entry ∈ s.executed, entry.1.phase = .running → entry.1.iteration < entry.2

theorem ordered_initial : Ordered ({} : EventLoop F) where
  log := rfl
  bounded job hmem := by simp at hmem
  pending hphase := by simp [LoopPhase.collecting] at hphase
  batch job hmem := by simp at hmem
  executed entry hmem := by simp at hmem

theorem Ordered.queueInLoop (h : Ordered s) (thread : Thread) (functor : F) :
    Ordered (s.queueInLoop thread functor) where
  log := by
    simp only [EventLoop.queueInLoop, FunctorQueue.queued_queueInLoop]
    rw [← List.append_assoc, h.log]
  bounded job hmem := by
    rcases List.mem_append.mp hmem with hold | hnew
    · exact h.bounded job hold
    · rw [List.mem_singleton.mp hnew]
      exact Nat.le_refl _
  pending hphase job hmem hrunning := by
    rcases List.mem_append.mp hmem with hold | hnew
    · exact h.pending hphase job hold hrunning
    · rw [List.mem_singleton.mp hnew] at hrunning
      have hnow : s.phase = .running := hrunning
      simp [EventLoop.queueInLoop, hnow, LoopPhase.collecting] at hphase
  batch := h.batch
  executed := h.executed

/-- The owner thread moves on, between two batches or within an iteration. -/
theorem Ordered.move (h : Ordered s) (hqueue : next.queue = s.queue) (hpushed : next.pushed = s.pushed)
    (hexecuted : next.executed = s.executed) (hiteration : next.iteration = s.iteration)
    (hphase : next.phase.collecting = true → s.phase.collecting = true) : Ordered next where
  log := by rw [hexecuted, hqueue, hpushed, h.log]
  bounded := by
    rw [hpushed, hiteration]
    exact h.bounded
  pending hcollecting := by
    rw [hqueue, hiteration]
    exact h.pending (hphase hcollecting)
  batch := by
    rw [hqueue, hiteration]
    exact h.batch
  executed := by
    rw [hexecuted]
    exact h.executed

theorem Ordered.mem_pushed (h : Ordered s) {job : Job F} (hmem : job ∈ s.queue.queued) :
    job ∈ s.pushed := by
  rw [← h.log]
  exact List.mem_append_right _ hmem

/-- After `++iteration_` every functor that is pending comes from an earlier iteration. -/
theorem Ordered.pollReturn (h : Ordered s) (wakeup : Bool) : Ordered (s.effect (.pollReturn wakeup)) where
  log := h.log
  bounded job hmem := Nat.le_succ_of_le (h.bounded job hmem)
  pending _ job hmem _ :=
    Nat.lt_succ_of_le (h.bounded job (h.mem_pushed (List.mem_append_right _ hmem)))
  batch job hmem hrunning := Nat.lt_succ_of_lt (h.batch job hmem hrunning)
  executed := h.executed

theorem Ordered.swap (h : Ordered s) (hcontrolled : Controlled s) (hphase : s.phase = .swapping) :
    Ordered s.swap := by
  have hempty := hcontrolled.between (by simp [hphase])
  have hswap := FunctorQueue.swap_of_empty hempty
  have hqueued := FunctorQueue.queued_swap hswap
  unfold EventLoop.swap
  rw [hswap, Option.getD_some]
  exact {
    log := by rw [hqueued, h.log]
    bounded := h.bounded
    pending := fun hcollecting => by simp [LoopPhase.collecting] at hcollecting
    batch := h.pending (by simp [hphase, LoopPhase.collecting])
    executed := h.executed }

theorem Ordered.execute (h : Ordered s) (henabled : s.enabled .execute = true) :
    Ordered s.execute := by
  obtain ⟨job, rest, hnext⟩ := next_of_enabled henabled
  have hrunning := (enabled_execute.mp henabled).1
  obtain ⟨hbatch, hpending⟩ := FunctorQueue.next_eq hnext
  have hhead : job ∈ s.queue.functors := hbatch ▸ List.mem_cons_self
  unfold EventLoop.execute
  rw [hnext]
  exact {
    log := by
      have hlog := h.log
      rw [FunctorQueue.queued_next hnext] at hlog
      simpa using hlog
    bounded := h.bounded
    pending := fun hcollecting => by simp [hrunning, LoopPhase.collecting] at hcollecting
    batch := fun later hmem => h.batch later (hbatch ▸ List.mem_cons_of_mem _ hmem)
    executed := fun entry hmem => by
      rcases List.mem_append.mp hmem with hold | hnew
      · exact h.executed entry hold
      · rw [List.mem_singleton.mp hnew]
        exact h.batch job hhead }

theorem Ordered.step (h : Ordered s) (hcontrolled : Controlled s) (hstep : s.step label = .ok next) :
    Ordered next := by
  obtain ⟨henabled, hasserts, rfl⟩ := step_ok.mp hstep
  cases label with
  | queueInLoop thread functor => exact h.queueInLoop thread functor
  | runInLoop thread functor =>
      cases thread with
      | loop => exact h
      | other id => exact h.queueInLoop _ functor
  | quit thread | wakeup thread => exact h.move rfl rfl rfl rfl id
  | loop | clearQuit | finish =>
      exact h.move rfl rfl rfl rfl (by simp [effect, LoopPhase.collecting])
  | testQuit =>
      simp only [effect, EventLoop.testQuit]
      split
      · exact h.move rfl rfl rfl rfl (by simp [LoopPhase.collecting])
      · exact h.move rfl rfl rfl rfl (by simp [LoopPhase.collecting])
  | pollReturn wakeup => exact h.pollReturn wakeup
  | handleRead =>
      have hphase : s.phase = .handling true := by simpa [enabled] using henabled
      exact h.move rfl rfl rfl rfl (by simp [hphase, LoopPhase.collecting])
  | doPendingFunctors =>
      have hphase : s.phase = .handling false := by simpa [enabled] using henabled
      exact h.move rfl rfl rfl rfl (by simp [hphase, LoopPhase.collecting])
  | swap => exact h.swap hcontrolled (by simpa [enabled] using henabled)
  | execute => exact h.execute henabled

/-- The functors that a step pushes. -/
def Label.pushes : Label F → List F
  | .queueInLoop _ functor => [functor]
  | .runInLoop (.other _) functor => [functor]
  | _ => []

theorem step_pushed (hstep : s.step label = .ok next) :
    next.pushed.map Job.functor = s.pushed.map Job.functor ++ label.pushes := by
  obtain ⟨henabled, hasserts, rfl⟩ := step_ok.mp hstep
  cases label with
  | queueInLoop thread functor => simp [effect, EventLoop.queueInLoop, Label.pushes]
  | runInLoop thread functor =>
      cases thread with
      | loop => simp [effect, EventLoop.runInLoop, Label.pushes]
      | other id => simp [effect, EventLoop.runInLoop, EventLoop.queueInLoop, Label.pushes]
  | testQuit =>
      simp only [effect, EventLoop.testQuit]
      split
      · exact (List.append_nil _).symm
      · exact (List.append_nil _).symm
  | execute =>
      obtain ⟨job, rest, hnext⟩ := next_of_enabled henabled
      simp [effect, EventLoop.execute, hnext, Label.pushes]
  | _ => exact (List.append_nil _).symm

theorem run_pushed (hrun : run step s labels = .ok final) :
    final.pushed.map Job.functor = s.pushed.map Job.functor ++ labels.flatMap Label.pushes := by
  induction labels generalizing s with
  | nil =>
      cases hrun
      simp
  | cons label labels ih =>
      obtain ⟨next, hstep, hrest⟩ := run_cons_ok.mp hrun
      rw [ih hrest, step_pushed hstep, List.flatMap_cons, List.append_assoc]

theorem ordered_of_run (hrun : run step ({} : EventLoop F) labels = .ok final) :
    Controlled final ∧ Ordered final :=
  run_preserves (fun s => Controlled s ∧ Ordered s)
    (fun _ _ _ h hstep => ⟨h.1.step hstep, h.2.step h.1 hstep⟩)
    ⟨controlled_initial, ordered_initial⟩ hrun

/-- **Every functor is executed once, in the order of the pushes.** At any moment the functors taken
from the batches, then the rest of the running batch, then `pendingFunctors_` are the functors that
the calls so far have pushed, and between two batches nothing of a batch is left. What is pushed while
a batch runs is executed in a later iteration, and so never stands in that batch. -/
theorem functors_in_order (hrun : run step ({} : EventLoop F) labels = .ok final) :
    (final.executed.map Prod.fst ++ final.queue.functors ++ final.queue.pendingFunctors).map
        Job.functor = labels.flatMap Label.pushes ∧
      (final.phase ≠ .running → final.queue.functors = []) ∧
      (∀ entry ∈ final.executed, entry.1.phase = .running → entry.1.iteration < entry.2) ∧
      ∀ job ∈ final.queue.functors, job.phase = .running → job.iteration < final.iteration := by
  obtain ⟨hcontrolled, hordered⟩ := ordered_of_run hrun
  have hlog := hordered.log
  rw [FunctorQueue.queued, ← List.append_assoc] at hlog
  refine ⟨?_, hcontrolled.between, hordered.executed, hordered.batch⟩
  rw [hlog, run_pushed hrun]
  rfl

/-- A functor of the first batch queues another one. -/
def requeues : List (Label Nat) :=
  [.loop, .clearQuit, .testQuit, .queueInLoop (.other 1) 10, .wakeup (.other 1), .pollReturn true,
    .handleRead, .doPendingFunctors, .swap, .execute, .queueInLoop .loop 20, .wakeup .loop, .finish,
    .testQuit, .pollReturn true, .handleRead, .queueInLoop (.other 1) 30, .doPendingFunctors, .swap,
    .execute]

theorem functors_in_order_requeues :
    ∃ final, run step {} requeues = .ok final ∧
      (final.executed.map fun entry => (entry.1.functor, entry.2)) = [(10, 1), (20, 2)] ∧
      (final.executed.map Prod.fst ++ final.queue.functors ++ final.queue.pendingFunctors).map
        Job.functor = [10, 20, 30] := by
  obtain ⟨final, hrun, hcheck⟩ := exists_of_outcome step {} requeues
    (fun s => (s.executed.map fun entry => (entry.1.functor, entry.2)) == [(10, 1), (20, 2)])
    (by decide +kernel)
  exact ⟨final, hrun, beq_iff_eq.mp hcheck, (functors_in_order hrun).1⟩

/-! ## Wakeups -/

/-- The eventfd is readable, so that `poll` returns, or a thread is about to write to it. -/
def Outstanding (s : EventLoop F) (reason : WakeupReason) : Prop :=
  0 < s.wakeupFd ∨ ∃ thread, (thread, reason) ∈ s.waking

theorem Outstanding.mono {reason : WakeupReason} (h : s.Outstanding reason)
    (hfd : s.wakeupFd = next.wakeupFd) (hwaking : s.waking ⊆ next.waking) :
    next.Outstanding reason := by
  rcases h with hcounter | ⟨thread, hmem⟩
  · exact .inl (hfd ▸ hcounter)
  · exact .inr ⟨thread, hwaking hmem⟩

theorem waking_queueInLoop (s : EventLoop F) (thread : Thread) (functor : F) :
    s.waking ⊆ (s.queueInLoop thread functor).waking := by
  simp only [EventLoop.queueInLoop]
  split
  · exact List.subset_cons_self _ _
  · exact List.Subset.refl _

/-- Only `handleRead` takes a wakeup back. -/
theorem Outstanding.step {reason : WakeupReason} (h : s.Outstanding reason)
    (hstep : s.step label = .ok next) (hlabel : label ≠ .handleRead) : next.Outstanding reason := by
  obtain ⟨henabled, hasserts, rfl⟩ := step_ok.mp hstep
  cases label with
  | queueInLoop thread functor => exact h.mono rfl (waking_queueInLoop s thread functor)
  | runInLoop thread functor =>
      cases thread with
      | loop => exact h
      | other id => exact h.mono rfl (waking_queueInLoop s (.other id) functor)
  | quit thread =>
      refine h.mono rfl ?_
      simp only [effect, EventLoop.quit]
      split
      · exact List.subset_cons_self _ _
      · exact List.Subset.refl _
  | wakeup thread => exact .inl (eventfdWrite_pos s.wakeupFd)
  | handleRead => contradiction
  | testQuit =>
      simp only [effect, EventLoop.testQuit]
      split
      · exact h
      · exact h
  | execute =>
      obtain ⟨job, rest, hnext⟩ := next_of_enabled henabled
      simp only [effect, EventLoop.execute, hnext]
      exact h
  | _ => exact h

/-- `poll` begins at `while (!quit_)` and nowhere else. -/
theorem polling_of_step (hstep : s.step label = .ok next) (hpolling : next.phase = .polling) :
    s.phase = .polling ∧ label ≠ .testQuit ∨ label = .testQuit ∧ s.quit_ = false := by
  obtain ⟨henabled, hasserts, rfl⟩ := step_ok.mp hstep
  cases label with
  | queueInLoop thread functor | quit thread | wakeup thread => exact .inl ⟨hpolling, by simp⟩
  | runInLoop thread functor =>
      cases thread with
      | loop | other id => exact .inl ⟨hpolling, by simp⟩
  | testQuit =>
      right
      cases hquit : s.quit_ with
      | true => simp [effect, EventLoop.testQuit, hquit] at hpolling
      | false => exact ⟨rfl, rfl⟩
  | execute =>
      obtain ⟨job, rest, hnext⟩ := next_of_enabled henabled
      simp only [effect, EventLoop.execute, hnext] at hpolling
      exact .inl ⟨hpolling, by simp⟩
  | _ => cases hpolling

/-- Whoever pushed the functor also calls `wakeup()`, or pushed it where the loop will look at the
queue before it polls. It is only the owner thread outside of `loop()` that does neither. -/
def Announced (job : Job F) : Prop := job.thread ≠ .loop ∨ job.phase ≠ .outside

structure Awake (s : EventLoop F) : Prop where
  functor : ∀ job ∈ s.queue.pendingFunctors, Announced job →
    s.phase.collecting = true ∨ s.Outstanding .functor
  quit : s.phase = .polling → s.quit_ = true → s.Outstanding .quit

theorem awake_initial : Awake ({} : EventLoop F) where
  functor job hmem := by simp at hmem
  quit hphase := by simp at hphase

/-- The functor that is pushed is announced, or the owner thread stands outside of `loop()`. -/
theorem announced_queueInLoop (hcontrolled : Controlled s) {thread : Thread}
    (hcall : s.mayCall thread = true) (functor : F)
    (hannounced : thread ≠ .loop ∨ s.phase ≠ .outside) :
    s.phase.collecting = true ∨ (s.queueInLoop thread functor).Outstanding .functor := by
  cases thread with
  | other id => exact .inr (.inr ⟨.other id, by simp [EventLoop.queueInLoop]⟩)
  | loop =>
      have hcalls := (mayCall_loop.mp hcall).2
      have hcalling := hcontrolled.calling
      cases hphase : s.phase with
      | outside => simp [hphase] at hannounced
      | handling wakeup => exact .inl rfl
      | running =>
          rw [hphase] at hcalling
          exact .inr (.inr ⟨.loop, by simp [EventLoop.queueInLoop, hcalling, LoopPhase.callingFunctors]⟩)
      | _ => simp [hphase, LoopPhase.callsOut] at hcalls

theorem Awake.functor_queueInLoop (h : Awake s) (hcontrolled : Controlled s) {thread : Thread}
    (hcall : s.mayCall thread = true) (functor : F) (job : Job F)
    (hmem : job ∈ (s.queueInLoop thread functor).queue.pendingFunctors) (hannounced : Announced job) :
    s.phase.collecting = true ∨ (s.queueInLoop thread functor).Outstanding .functor := by
  rcases List.mem_append.mp hmem with hold | hnew
  · exact (h.functor job hold hannounced).imp_right
      fun hout => hout.mono rfl (waking_queueInLoop s thread functor)
  · rw [List.mem_singleton.mp hnew] at hannounced
    exact announced_queueInLoop hcontrolled hcall functor hannounced

theorem Awake.functor_step (h : Awake s) (hcontrolled : Controlled s)
    (hstep : s.step label = .ok next) :
    ∀ job ∈ next.queue.pendingFunctors, Announced job →
      next.phase.collecting = true ∨ next.Outstanding .functor := by
  intro job hmem hannounced
  have hout (hlabel : label ≠ .handleRead) (hnow : s.Outstanding .functor) :
      next.Outstanding .functor := hnow.step hstep hlabel
  -- A functor that was pending where the loop does not collect has its wakeup outstanding.
  have hstays (hlabel : label ≠ .handleRead) (hold : job ∈ s.queue.pendingFunctors)
      (hphase : s.phase.collecting = false) : next.Outstanding .functor :=
    hout hlabel ((h.functor job hold hannounced).resolve_left (by simp [hphase]))
  obtain ⟨henabled, hasserts, rfl⟩ := step_ok.mp hstep
  cases label with
  | queueInLoop thread functor =>
      exact h.functor_queueInLoop hcontrolled henabled functor job hmem hannounced
  | runInLoop thread functor =>
      cases thread with
      | loop => exact h.functor job hmem hannounced
      | other id => exact h.functor_queueInLoop hcontrolled henabled functor job hmem hannounced
  | quit thread | wakeup thread => exact (h.functor job hmem hannounced).imp_right (hout (by simp))
  | pollReturn wakeup => exact .inl rfl
  | handleRead => exact .inl rfl
  | doPendingFunctors => exact .inl rfl
  | swap =>
      have hphase : s.phase = .swapping := by simpa [enabled] using henabled
      have hswap := FunctorQueue.swap_of_empty (hcontrolled.between (by simp [hphase]))
      simp [effect, EventLoop.swap, hswap] at hmem
  | loop =>
      have hphase := hcontrolled.outside hasserts
      exact .inr (hstays (by simp) hmem (by rw [hphase]; rfl))
  | clearQuit =>
      have hphase : s.phase = .entered := by simpa [enabled] using henabled
      exact .inr (hstays (by simp) hmem (by rw [hphase]; rfl))
  | testQuit =>
      have hphase : s.phase = .testing := by simpa [enabled] using henabled
      have hsame : (s.effect .testQuit).queue = s.queue := by
        simp only [effect, EventLoop.testQuit]
        split
        · rfl
        · rfl
      rw [hsame] at hmem
      exact .inr (hstays (by simp) hmem (by rw [hphase]; rfl))
  | execute =>
      have hphase := (enabled_execute.mp henabled).1
      obtain ⟨first, rest, hnext⟩ := next_of_enabled henabled
      simp only [effect, EventLoop.execute, hnext, (FunctorQueue.next_eq hnext).2] at hmem
      exact .inr (hstays (by simp) hmem (by rw [hphase]; rfl))
  | finish =>
      have hphase := (enabled_finish.mp henabled).1
      exact .inr (hstays (by simp) hmem (by rw [hphase]; rfl))

theorem Awake.quit_step (h : Awake s) (hstep : s.step label = .ok next)
    (hpolling : next.phase = .polling) (hquit : next.quit_ = true) : next.Outstanding .quit := by
  have hout : label ≠ .handleRead → s.Outstanding .quit → next.Outstanding .quit :=
    fun hlabel hnow => hnow.step hstep hlabel
  have hbegin := polling_of_step hstep hpolling
  obtain ⟨henabled, hasserts, rfl⟩ := step_ok.mp hstep
  cases label with
  | queueInLoop thread functor | wakeup thread => exact hout (by simp) (h.quit hpolling hquit)
  | runInLoop thread functor =>
      cases thread with
      | loop | other id => exact hout (by simp) (h.quit hpolling hquit)
  | quit thread =>
      cases thread with
      | other id => exact .inr ⟨.other id, by simp [effect, EventLoop.quit]⟩
      | loop =>
          have hcalls := (mayCall_loop.mp henabled).2
          have hphase : s.phase = .polling := hpolling
          simp [hphase, LoopPhase.callsOut] at hcalls
  | testQuit =>
      obtain ⟨-, hnot⟩ := hbegin.resolve_left (fun hstays => hstays.2 rfl)
      simp [effect, EventLoop.testQuit, hnot] at hquit
  | execute =>
      have hphase := (enabled_execute.mp henabled).1
      simp [hphase] at hbegin
  | _ => cases hpolling

theorem Awake.step (h : Awake s) (hcontrolled : Controlled s) (hstep : s.step label = .ok next) :
    Awake next where
  functor := h.functor_step hcontrolled hstep
  quit := h.quit_step hstep

/-- In `poll` it is another thread that has a `wakeup()` to call. -/
theorem Outstanding.other (hcontrolled : Controlled s) {reason : WakeupReason}
    (h : s.Outstanding reason) (hpolling : s.phase = .polling) :
    0 < s.wakeupFd ∨ ∃ id, (.other id, reason) ∈ s.waking := by
  refine h.imp_right ?_
  rintro ⟨thread, hmem⟩
  cases thread with
  | other id => exact ⟨id, hmem⟩
  | loop =>
      have hrunning := hcontrolled.own reason hmem
      simp [hpolling] at hrunning

end EventLoop
end Muduo
