import Muduo.EventLoopRuns

/-! What is asked of an `EventLoop` before its `loop()` runs. `loop()` clears `quit_` on entry, so it
forgets a `quit()` that came first; and the owner thread does not write to the eventfd for a functor
that it queues before the call. `EventLoopThread` hands its loop out before `loop()` is entered, and
its destructor relies on `quit()`. -/

namespace Muduo

open Execution

namespace EventLoop

variable {F : Type} {s next final : EventLoop F} {label : Label F} {labels : List (Label F)}

instance (job : Job F) : Decidable (Announced job) :=
  inferInstanceAs (Decidable (job.thread ≠ .loop ∨ job.phase ≠ .outside))

/-- `loop()` is entered when no `quit()` waits for an answer and nothing is pending that its own thread
has queued outside of it, and `quit()` is not called between `looping_ = true` and `quit_ = false`. -/
def InTime (s : EventLoop F) : Label F → Prop
  | .loop => s.quitRequested = false ∧ ∀ job ∈ s.queue.pendingFunctors, Announced job
  | .quit _ => s.phase ≠ .entered
  | _ => True

instance (s : EventLoop F) : (label : Label F) → Decidable (s.InTime label)
  | .loop => inferInstanceAs (Decidable (_ ∧ _))
  | .quit _ => inferInstanceAs (Decidable (_ ≠ _))
  | .queueInLoop _ _ => isTrue trivial
  | .runInLoop _ _ => isTrue trivial
  | .wakeup _ => isTrue trivial
  | .clearQuit => isTrue trivial
  | .testQuit => isTrue trivial
  | .pollReturn _ => isTrue trivial
  | .handleRead => isTrue trivial
  | .doPendingFunctors => isTrue trivial
  | .swap => isTrue trivial
  | .execute => isTrue trivial
  | .finish => isTrue trivial

/-- No request is forgotten. -/
structure Remembers (s : EventLoop F) : Prop where
  kept : s.quitRequested = true → s.quit_ = true
  entered : s.phase = .entered → s.quitRequested = false
  announced : s.phase ≠ .outside → ∀ job ∈ s.queue.pendingFunctors, Announced job

theorem remembers_initial : Remembers ({} : EventLoop F) where
  kept hrequested := by simp at hrequested
  entered hphase := by simp at hphase
  announced hphase := by simp at hphase

theorem Remembers.queueInLoop (h : Remembers s) (thread : Thread) (functor : F) :
    Remembers (s.queueInLoop thread functor) where
  kept := h.kept
  entered := h.entered
  announced hphase job hmem := by
    rcases List.mem_append.mp hmem with hold | hnew
    · exact h.announced hphase job hold
    · rw [List.mem_singleton.mp hnew]
      exact .inr hphase

/-- The owner thread moves on within `loop()`. -/
theorem Remembers.move (h : Remembers s) (hphase : s.phase ≠ .outside)
    (hqueue : next.queue.pendingFunctors ⊆ s.queue.pendingFunctors)
    (hentered : next.phase ≠ .entered)
    (hkept : next.quitRequested = true → next.quit_ = true) : Remembers next where
  kept := hkept
  entered hnow := absurd hnow hentered
  announced _ job hmem := h.announced hphase job (hqueue hmem)

theorem Remembers.step (h : Remembers s) (hcontrolled : Controlled s) (htime : s.InTime label)
    (hstep : s.step label = .ok next) : Remembers next := by
  obtain ⟨henabled, hasserts, rfl⟩ := step_ok.mp hstep
  cases label with
  | queueInLoop thread functor => exact h.queueInLoop thread functor
  | runInLoop thread functor =>
      cases thread with
      | loop => exact h
      | other id => exact h.queueInLoop (.other id) functor
  | quit thread =>
      exact { h with kept := fun _ => rfl, entered := fun hphase => absurd hphase htime }
  | wakeup thread => exact ⟨h.kept, h.entered, h.announced⟩
  | loop =>
      exact {
        kept := h.kept
        entered := fun _ => htime.1
        announced := fun _ => htime.2 }
  | clearQuit =>
      have hphase : s.phase = .entered := by simpa [enabled] using henabled
      refine h.move (by simp [hphase]) (List.Subset.refl _) (by simp [effect]) ?_
      intro hrequested
      exact absurd (h.entered hphase) (by simpa [effect] using hrequested)
  | testQuit =>
      have hphase : s.phase = .testing := by simpa [enabled] using henabled
      simp only [effect, EventLoop.testQuit]
      split
      · exact h.move (by simp [hphase]) (List.Subset.refl _) (by simp) (by simp)
      · exact h.move (by simp [hphase]) (List.Subset.refl _) (by simp) h.kept
  | pollReturn wakeup =>
      have hphase := (enabled_pollReturn.mp henabled).1
      exact h.move (by simp [hphase]) (List.Subset.refl _) (by simp [effect]) h.kept
  | handleRead =>
      have hphase : s.phase = .handling true := by simpa [enabled] using henabled
      exact h.move (by simp [hphase]) (List.Subset.refl _) (by simp [effect, EventLoop.handleRead]) h.kept
  | doPendingFunctors =>
      have hphase : s.phase = .handling false := by simpa [enabled] using henabled
      exact h.move (by simp [hphase]) (List.Subset.refl _) (by simp [effect]) h.kept
  | swap =>
      have hphase : s.phase = .swapping := by simpa [enabled] using henabled
      have hswap := FunctorQueue.swap_of_empty (hcontrolled.between (by simp [hphase]))
      refine h.move (by simp [hphase]) ?_ (by simp [effect, EventLoop.swap]) h.kept
      simp [effect, EventLoop.swap, hswap]
  | execute =>
      have hphase := (enabled_execute.mp henabled).1
      obtain ⟨job, rest, hnext⟩ := next_of_enabled henabled
      simp only [effect, EventLoop.execute, hnext]
      refine h.move (by simp [hphase]) ?_ (by simp [hphase]) h.kept
      rw [(FunctorQueue.next_eq hnext).2]
      exact List.Subset.refl _
  | finish =>
      have hphase := (enabled_finish.mp henabled).1
      exact h.move (by simp [hphase]) (List.Subset.refl _) (by simp [effect]) h.kept

/-- What the requests rest on. -/
structure Sound (s : EventLoop F) : Prop where
  controlled : Controlled s
  awake : Awake s
  remembers : Remembers s

theorem sound_initial : Sound ({} : EventLoop F) :=
  ⟨controlled_initial, awake_initial, remembers_initial⟩

theorem Sound.step (h : Sound s) (htime : s.InTime label) (hstep : s.step label = .ok next) :
    Sound next where
  controlled := h.controlled.step hstep
  awake := h.awake.step h.controlled hstep
  remembers := h.remembers.step h.controlled htime hstep

theorem polling_of_quit (hquit : s.quit_ = true) (hstep : s.step label = .ok next)
    (hpolling : next.phase = .polling) : s.phase = .polling := by
  rcases polling_of_step hstep hpolling with ⟨hphase, -⟩ | ⟨-, hnot⟩
  · exact hphase
  · simp [hquit] at hnot

/-- The thread that makes the call, where the step is one. -/
def Label.caller : Label F → Option Thread
  | .queueInLoop thread _ => some thread
  | .runInLoop thread _ => some thread
  | .quit thread => some thread
  | .loop => some .loop
  | _ => none

/-- `quit_` is cleared on entry to `loop()` only, and the request ends when `loop()` returns. -/
theorem quit_kept (hstep : s.step label = .ok next) (hentered : s.phase ≠ .entered)
    (hquit : s.quit_ = true) : next.quit_ = true := by
  obtain ⟨henabled, hasserts, rfl⟩ := step_ok.mp hstep
  cases label with
  | runInLoop thread functor =>
      cases thread with
      | loop => exact hquit
      | other id => exact hquit
  | quit thread => rfl
  | clearQuit =>
      have hphase : s.phase = .entered := by simpa [enabled] using henabled
      exact absurd hphase hentered
  | testQuit => simp [effect, EventLoop.testQuit, hquit]
  | execute =>
      obtain ⟨job, rest, hnext⟩ := next_of_enabled henabled
      simpa [effect, EventLoop.execute, hnext] using hquit
  | _ => exact hquit

/-- As long as the owner thread is outside of `loop()` it stays there, and a request stays. -/
theorem outside_kept (hstep : s.step label = .ok next) (houtside : s.phase = .outside)
    (hlabel : label ≠ .loop) :
    next.phase = .outside ∧ (s.quitRequested = true → next.quitRequested = true) := by
  obtain ⟨henabled, hasserts, rfl⟩ := step_ok.mp hstep
  cases label with
  | queueInLoop thread functor | wakeup thread => exact ⟨houtside, id⟩
  | runInLoop thread functor =>
      cases thread with
      | loop => exact ⟨houtside, id⟩
      | other id => exact ⟨houtside, fun h => h⟩
  | quit thread => exact ⟨houtside, fun _ => rfl⟩
  | loop => contradiction
  | _ => simp [enabled, houtside] at henabled

theorem entered_of_step (hstep : s.step label = .ok next) (hlabel : label ≠ .loop)
    (hentered : s.phase ≠ .entered) : next.phase ≠ .entered := by
  obtain ⟨henabled, hasserts, rfl⟩ := step_ok.mp hstep
  cases label with
  | loop => contradiction
  | runInLoop thread functor =>
      cases thread with
      | loop => exact hentered
      | other id => exact hentered
  | testQuit =>
      simp only [effect, EventLoop.testQuit]
      split
      · simp
      · simp
  | execute =>
      obtain ⟨job, rest, hnext⟩ := next_of_enabled henabled
      simpa only [effect, EventLoop.execute, hnext] using hentered
  | queueInLoop thread functor | quit thread | wakeup thread => exact hentered
  | _ => simp [effect, EventLoop.handleRead, EventLoop.swap]

end EventLoop

/-! ## The thread of a loop -/

/-- Where `threadFunc` stands. -/
inductive ThreadPhase where
  | notStarted
  | started
  /-- The `EventLoop` is constructed; `callback_` runs. -/
  | initializing
  /-- `loop_` points to it. -/
  | published
  /-- `loop()` has been called, and may have returned. -/
  | looping
  /-- `loop_` is `NULL` again. -/
  | unpublished
  | finished
  deriving DecidableEq, Repr

/-- The pointer to the loop has been handed out. -/
def ThreadPhase.handedOut : ThreadPhase → Bool
  | .notStarted => false
  | .started => false
  | .initializing => false
  | .published => true
  | .looping => true
  | .unpublished => true
  | .finished => true

/-- Where the thread that owns the `EventLoopThread` stands. -/
inductive OwnerPhase where
  /-- In none of its functions. -/
  | idle
  /-- In `startLoop`, waiting for `loop_`. -/
  | starting
  /-- In the destructor, which has found `loop_` to be set. -/
  | exiting
  /-- The destructor has set `quit_`. -/
  | joining
  | destructed
  deriving DecidableEq, Repr

structure EventLoopThread (F : Type) where
  /-- The local variable `loop` of `threadFunc`. -/
  loop : Option (EventLoop F) := none
  /-- `loop_ != NULL`. -/
  loop_ : Bool := false
  thread : ThreadPhase := .notStarted
  owner : OwnerPhase := .idle
  deriving DecidableEq, Repr

namespace EventLoopThread

inductive Label (F : Type) where
  /-- `thread_.start()`. -/
  | startLoop
  /-- `startLoop` finds `loop_` set. -/
  | startLoopReturns
  /-- `~EventLoopThread` looks at `loop_`. -/
  | destructor
  /-- `loop_->quit()` up to its `wakeup()`. -/
  | quit
  | join
  /-- `EventLoop loop;`. -/
  | construct
  /-- `loop_ = &loop`. -/
  | publish
  /-- `loop.loop()`. -/
  | enter
  /-- `loop_ = NULL`. -/
  | unpublish
  /-- `~EventLoop`, as `threadFunc` returns. -/
  | destruct
  /-- A step of the loop: its own, or a call of `callback_`, of a functor or of another thread. -/
  | inLoop (label : EventLoop.Label F)
  deriving DecidableEq, Repr

inductive Stop where
  | disabled
  | assertion
  /-- A call into a loop that does not exist. -/
  | noLoop
  | loop (stop : EventLoop.Stop)
  deriving DecidableEq, Repr

variable {F : Type}

/-- The thread that owns the `EventLoopThread`. -/
def ownerThread : Thread := .other 0

/-- The thread is at a point at which it runs code that may call into the loop: `callback_`, a
functor or a callback of the loop, or what its own program does. -/
def callsLoop (s : EventLoopThread F) (loop : EventLoop F) (thread : Thread) : Bool :=
  if thread = .loop then s.thread = .initializing || s.thread = .looping && loop.phase ≠ .outside
  else thread ≠ ownerThread || s.owner = .idle

/-- A step of the loop, after which both threads stand as given. -/
def lift (s : EventLoopThread F) (label : EventLoop.Label F) (thread : ThreadPhase)
    (owner : OwnerPhase) : Except Stop (EventLoopThread F) :=
  match s.loop with
  | none => .error .noLoop
  | some loop =>
      match loop.step label with
      | .ok next => .ok { s with loop := some next, thread := thread, owner := owner }
      | .error stop => .error (.loop stop)

/-- `loop()` has not been called, or has returned. -/
def atRest (s : EventLoopThread F) : Bool := s.loop.all (·.phase = .outside)

def step (s : EventLoopThread F) : Label F → Except Stop (EventLoopThread F)
  | .startLoop =>
      if s.owner = .idle then
        if s.thread = .notStarted then .ok { s with thread := .started, owner := .starting }
        else .error .assertion
      else .error .disabled
  | .startLoopReturns =>
      if s.owner = .starting ∧ s.loop_ = true then .ok { s with owner := .idle }
      else .error .disabled
  | .destructor =>
      if s.owner = .idle then
        .ok { s with owner := if s.loop_ = true then .exiting else .destructed }
      else .error .disabled
  | .quit =>
      if s.owner = .exiting then s.lift (.quit ownerThread) s.thread .joining
      else .error .disabled
  | .join =>
      if s.owner = .joining ∧ s.thread = .finished then .ok { s with owner := .destructed }
      else .error .disabled
  | .construct =>
      if s.thread = .started then .ok { s with loop := some {}, thread := .initializing }
      else .error .disabled
  | .publish =>
      if s.thread = .initializing ∧ s.atRest = true then
        .ok { s with loop_ := true, thread := .published }
      else .error .disabled
  | .enter =>
      if s.thread = .published then s.lift .loop .looping s.owner else .error .disabled
  | .unpublish =>
      if s.thread = .looping ∧ s.atRest = true then
        .ok { s with loop_ := false, thread := .unpublished }
      else .error .disabled
  | .destruct =>
      if s.thread = .unpublished then .ok { s with loop := none, thread := .finished }
      else .error .disabled
  | .inLoop label =>
      if s.loop.all (fun loop => label.caller.all (s.callsLoop loop)) = true then
        s.lift label s.thread s.owner
      else .error .disabled

variable {s next final : EventLoopThread F} {label : Label F} {labels : List (Label F)}

theorem lift_ok {label : EventLoop.Label F} {thread : ThreadPhase} {owner : OwnerPhase} :
    s.lift label thread owner = .ok next ↔
      ∃ loop loop', s.loop = some loop ∧ loop.step label = .ok loop' ∧
        next = { s with loop := some loop', thread := thread, owner := owner } := by
  unfold lift
  cases hloop : s.loop with
  | none => simp
  | some loop =>
      cases hstep : loop.step label with
      | ok loop' => simp [hstep, eq_comm]
      | error stop => simp [hstep]

/-- The call into the loop that a step makes. -/
def Label.inner : Label F → Option (EventLoop.Label F)
  | .quit => some (.quit ownerThread)
  | .enter => some .loop
  | .inLoop label => some label
  | _ => none

/-- The calls into the loop are made in time. -/
def InTime (s : EventLoopThread F) (label : Label F) : Prop :=
  ∀ loop ∈ s.loop, ∀ inner ∈ label.inner, loop.InTime inner

instance (s : EventLoopThread F) (label : Label F) : Decidable (s.InTime label) :=
  inferInstanceAs (Decidable (∀ loop ∈ s.loop, ∀ inner ∈ label.inner, loop.InTime inner))

structure Joinable (s : EventLoopThread F) : Prop where
  sound : ∀ loop ∈ s.loop, EventLoop.Sound loop
  waiting : s.thread = .published → ∀ loop ∈ s.loop, loop.phase = .outside
  handed : s.loop_ = true ∨ s.owner = .exiting ∨ s.owner = .joining → s.thread.handedOut = true
  quit : s.owner = .joining → ∀ loop ∈ s.loop,
    loop.quit_ = true ∧ loop.phase ≠ .entered ∧ (s.thread = .published → loop.quitRequested = true)

/-- A step that leaves the loop alone. -/
theorem Joinable.move (h : Joinable s) (hloop : next.loop = s.loop)
    (hwaiting : next.thread = .published → s.thread = .published ∨ s.atRest = true)
    (hhanded : next.loop_ = true ∨ next.owner = .exiting ∨ next.owner = .joining →
      next.thread.handedOut = true)
    (howner : next.owner = .joining → s.owner = .joining ∧ (next.thread = .published →
      s.thread = .published)) : Joinable next where
  sound loop hmem := h.sound loop (hloop ▸ hmem)
  waiting hthread loop hmem := by
    rw [hloop] at hmem
    rcases hwaiting hthread with hbefore | hrest
    · exact h.waiting hbefore loop hmem
    · simpa [atRest, Option.mem_def.mp hmem] using hrest
  handed := hhanded
  quit hjoining loop hmem := by
    rw [hloop] at hmem
    obtain ⟨hbefore, hthread⟩ := howner hjoining
    obtain ⟨hquit, hentered, hrequested⟩ := h.quit hbefore loop hmem
    exact ⟨hquit, hentered, fun hpublished => hrequested (hthread hpublished)⟩

/-- A step of the loop or a call into it, other than the call of `loop()`. -/
theorem Joinable.inner (h : Joinable s) {inner : EventLoop.Label F} {loop loop' : EventLoop F}
    (hloop : s.loop = some loop) (hstep : loop.step inner = .ok loop') (htime : loop.InTime inner)
    (hentry : inner = .loop → s.thread ≠ .published ∧ s.owner ≠ .joining) :
    Joinable { s with loop := some loop' } where
  sound other hother := by
    cases hother
    exact (h.sound loop hloop).step htime hstep
  waiting hthread other hother := by
    cases hother
    have hlabel : inner ≠ .loop := fun heq => (hentry heq).1 hthread
    exact (EventLoop.outside_kept hstep (h.waiting hthread loop hloop) hlabel).1
  handed := h.handed
  quit howner other hother := by
    cases hother
    have hlabel : inner ≠ .loop := fun heq => (hentry heq).2 howner
    obtain ⟨hquit, hentered, hrequested⟩ := h.quit howner loop hloop
    refine ⟨EventLoop.quit_kept hstep hentered hquit,
      EventLoop.entered_of_step hstep hlabel hentered, fun hthread => ?_⟩
    exact (EventLoop.outside_kept hstep (h.waiting hthread loop hloop) hlabel).2 (hrequested hthread)

/-- While the destructor waits, nobody calls `loop()` but `threadFunc`. -/
theorem Joinable.no_entry (h : Joinable s) {loop loop' : EventLoop F} (hloop : s.loop = some loop)
    (hcalls : s.callsLoop loop .loop = true) (hstep : loop.step .loop = .ok loop') :
    s.thread ≠ .published ∧ s.owner ≠ .joining := by
  obtain ⟨-, hasserts, -⟩ := EventLoop.step_ok.mp hstep
  have hphase := (h.sound loop hloop).controlled.outside hasserts
  have hthread : s.thread = .initializing := by simpa [callsLoop, hphase] using hcalls
  refine ⟨by simp [hthread], fun hjoining => ?_⟩
  have hhanded := h.handed (.inr (.inr hjoining))
  simp [hthread, ThreadPhase.handedOut] at hhanded

theorem Joinable.step (h : Joinable s) (htime : s.InTime label) (hstep : s.step label = .ok next) :
    Joinable next := by
  cases label with
  | startLoop =>
      obtain ⟨howner, hstep⟩ := guarded_ok.mp hstep
      obtain ⟨hthread, hstep⟩ := guarded_ok.mp hstep
      cases hstep
      have hhanded := h.handed
      rw [hthread, howner] at hhanded
      exact h.move rfl (by simp) (by simpa [ThreadPhase.handedOut] using hhanded) (by simp)
  | startLoopReturns =>
      obtain ⟨hguard, hstep⟩ := guarded_ok.mp hstep
      cases hstep
      exact h.move rfl .inl (fun _ => h.handed (.inl hguard.2)) (by simp)
  | destructor =>
      obtain ⟨-, hstep⟩ := guarded_ok.mp hstep
      cases hstep
      refine h.move rfl .inl (fun hout => ?_) ?_
      · by_cases hloop : s.loop_ = true
        · exact h.handed (.inl hloop)
        · simp [hloop] at hout
      · split
        · simp
        · simp
  | quit =>
      obtain ⟨howner, hstep⟩ := guarded_ok.mp hstep
      obtain ⟨loop, loop', hloop, hquit, rfl⟩ := lift_ok.mp hstep
      have hcall := htime loop hloop _ rfl
      have hinner := h.inner hloop hquit hcall (by simp)
      obtain ⟨-, -, rfl⟩ := EventLoop.step_ok.mp hquit
      exact {
        sound := hinner.sound
        waiting := hinner.waiting
        handed := fun _ => h.handed (.inr (.inl howner))
        quit := fun _ other hother => by
          cases hother
          exact ⟨rfl, hcall, fun _ => rfl⟩ }
  | join =>
      obtain ⟨hguard, hstep⟩ := guarded_ok.mp hstep
      cases hstep
      exact h.move rfl .inl (fun _ => by simp [hguard.2, ThreadPhase.handedOut]) (by simp)
  | construct =>
      obtain ⟨hthread, hstep⟩ := guarded_ok.mp hstep
      cases hstep
      have hhanded := h.handed
      rw [hthread] at hhanded
      exact {
        sound := fun loop hloop => by
          cases hloop
          exact EventLoop.sound_initial
        waiting := fun hpublished => by cases hpublished
        handed := hhanded
        quit := fun howner => by cases hhanded (.inr (.inr howner)) }
  | publish =>
      obtain ⟨hguard, hstep⟩ := guarded_ok.mp hstep
      cases hstep
      have hhanded := h.handed
      rw [hguard.1] at hhanded
      exact h.move rfl (fun _ => .inr hguard.2) (fun _ => rfl)
        (fun howner => by cases hhanded (.inr (.inr howner)))
  | enter =>
      obtain ⟨hthread, hstep⟩ := guarded_ok.mp hstep
      obtain ⟨loop, loop', hloop, henter, rfl⟩ := lift_ok.mp hstep
      have hcall := htime loop hloop _ rfl
      exact {
        sound := fun other hother => by
          cases hother
          exact (h.sound loop hloop).step hcall henter
        waiting := fun hpublished => by cases hpublished
        handed := fun _ => rfl
        -- A destructor that has called `quit()` before is a request that `loop()` would forget.
        quit := fun howner => by
          have hrequested := (h.quit howner loop hloop).2.2 hthread
          exact absurd hcall.1 (by simp [hrequested]) }
  | unpublish =>
      obtain ⟨-, hstep⟩ := guarded_ok.mp hstep
      cases hstep
      exact h.move rfl (by simp) (fun _ => rfl) (fun howner => ⟨howner, by simp⟩)
  | destruct =>
      obtain ⟨-, hstep⟩ := guarded_ok.mp hstep
      cases hstep
      exact {
        sound := fun loop hloop => by cases hloop
        waiting := fun hpublished => by cases hpublished
        handed := fun _ => rfl
        quit := fun _ loop hloop => by cases hloop }
  | inLoop label =>
      obtain ⟨hallowed, hstep⟩ := guarded_ok.mp hstep
      obtain ⟨loop, loop', hloop, hinner, rfl⟩ := lift_ok.mp hstep
      refine h.inner hloop hinner (htime loop hloop _ rfl) ?_
      rintro rfl
      exact h.no_entry hloop (by simpa [hloop, EventLoop.Label.caller] using hallowed) hinner

/-- The destructor's `join` does not wait for a loop that keeps running: `quit_` stays set, no further
poll begins, and a poll that has begun is about to be woken. -/
def Joins (s : EventLoopThread F) : Prop :=
  s.owner = .joining → ∀ loop ∈ s.loop,
    loop.quit_ = true ∧
      (∀ label next, loop.step label = .ok next → next.phase = .polling → loop.phase = .polling) ∧
      (loop.phase = .polling → 0 < loop.wakeupFd ∨ ∃ id, (.other id, .quit) ∈ loop.waking)

theorem Joinable.joins (h : Joinable s) : s.Joins := by
  intro howner loop hloop
  have hquit := (h.quit howner loop hloop).1
  have hsound := h.sound loop hloop
  refine ⟨hquit, fun label next hstep => EventLoop.polling_of_quit hquit hstep, fun hpolling => ?_⟩
  exact (hsound.awake.quit hpolling hquit).other hsound.controlled hpolling

end EventLoopThread
end Muduo
