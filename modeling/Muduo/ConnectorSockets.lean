import Muduo.Connector
import Muduo.Execution

/-! Who owns the sockets that `Connector::connect` creates. A socket belongs to the connector, through
the registered `channel_`, as long as the state is `kConnecting`; the six ways out of an attempt each
close it or hand it over. The channel itself stays behind until the queued `resetChannel` has run. -/

namespace Muduo
namespace Connector

open Execution

variable {G : Type} [DecidableEq G] {s next : Connector G} {sockfd stops : Nat}

/-- How many `resetChannel` functors are queued. -/
def resets (s : Connector G) : Nat := s.queue.queued.count .resetChannel

/-- What the connector holds: `state_`, `channel_`, the number of queued `resetChannel` functors and the
socket it has still to dispose of. -/
inductive Holding : ConnectorState → Option (Nat × Channel) → Nat → Option Nat → Prop where
  | idle {state : ConnectorState} (hstate : state ≠ .kConnecting) : Holding state none 0 none
  | connecting (sockfd : Nat) :
      Holding .kConnecting (some (sockfd, watched)) 0 (some sockfd)
  | releasing {state : ConnectorState} (sockfd : Nat) (hstate : state ≠ .kConnecting) :
      Holding state (some (sockfd, {})) 1 none

/-- Every socket created so far has been disposed of once, except for the one that is held. -/
def Balanced (log : List ConnectorEvent) (sockets : Nat) (held : Option Nat) : Prop :=
  ∀ sockfd, log.countP (ConnectorEvent.disposes sockfd) + (if held = some sockfd then 1 else 0) =
    if sockfd < sockets then 1 else 0

structure Sound (s : Connector G) : Prop where
  held : ∃ held, Holding s.state s.channel s.resets held ∧ Balanced s.log s.sockets held
  active : s.active = true → s.state = .kConnecting ∧ s.stage = .handling

theorem sound_initial : Sound ({} : Connector G) where
  held := ⟨none, .idle ConnectorState.noConfusion, fun sockfd => by simp⟩
  active := by simp

/-! ## The sockets of an attempt -/

section Balanced

variable {log : List ConnectorEvent} {sockets : Nat} {held : Option Nat}

theorem Balanced.created (hlog : Balanced log sockets none) :
    Balanced (log ++ [.created sockets]) (sockets + 1) (some sockets) := by
  intro other
  have hother := hlog other
  simp only [List.countP_append, List.countP_singleton, ConnectorEvent.disposes, reduceCtorEq,
    if_false, Option.some.injEq] at hother ⊢
  split_ifs at hother ⊢ <;> omega

/-- Disposing of the socket that is held. -/
theorem Balanced.disposed (hlog : Balanced log sockets (some sockfd)) {event : ConnectorEvent}
    (hevent : event = .closed sockfd ∨ ∃ connect_, event = .handed sockfd connect_) :
    Balanced (log ++ [event]) sockets none := by
  intro other
  have hdisposes : event.disposes other = decide (sockfd = other) := by
    rcases hevent with rfl | ⟨connect_, rfl⟩ <;> rfl
  have hother := hlog other
  simp only [List.countP_append, List.countP_singleton, hdisposes, decide_eq_true_eq, reduceCtorEq,
    if_false, Option.some.injEq] at hother ⊢
  omega

end Balanced

section Holding

variable {state : ConnectorState} {channel : Option (Nat × Channel)} {resets : Nat} {held : Option Nat}

theorem Holding.held_eq_none (hholding : Holding state channel resets held)
    (hstate : state ≠ .kConnecting) : held = none := by
  cases hholding with
  | idle => rfl
  | connecting => exact absurd rfl hstate
  | releasing => rfl

/-- The state does not matter to what is held outside of an attempt. -/
theorem Holding.settled (hholding : Holding state channel resets none) {state' : ConnectorState}
    (hstate : state' ≠ .kConnecting) : Holding state' channel resets none := by
  cases hholding with
  | idle => exact .idle hstate
  | releasing sockfd => exact .releasing sockfd hstate

theorem Holding.of_connecting (hholding : Holding .kConnecting channel resets held) :
    ∃ sockfd, channel = some (sockfd, watched) ∧ resets = 0 ∧ held = some sockfd := by
  cases hholding with
  | idle hstate | releasing _ hstate => exact absurd rfl hstate
  | connecting sockfd => exact ⟨sockfd, rfl, rfl, rfl⟩

theorem Holding.of_channel_none (hholding : Holding state none resets held) : resets = 0 := by
  cases hholding with
  | idle => rfl

theorem Holding.of_reset (hholding : Holding state channel (resets + 1) held) :
    ∃ sockfd, channel = some (sockfd, {}) ∧ resets = 0 ∧ state ≠ .kConnecting ∧ held = none := by
  generalize hcount : resets + 1 = count at hholding
  cases hholding with
  | idle => omega
  | connecting => omega
  | releasing sockfd hstate => exact ⟨sockfd, rfl, by omega, hstate, rfl⟩

end Holding

theorem Sound.attempt (hs : Sound s) (hstate : s.state = .kConnecting) :
    ∃ sockfd, s.channel = some (sockfd, watched) ∧ s.resets = 0 ∧
      Balanced s.log s.sockets (some sockfd) := by
  obtain ⟨held, hholding, hlog⟩ := hs.held
  rw [hstate] at hholding
  obtain ⟨sockfd, hchannel, hresets, rfl⟩ := hholding.of_connecting
  exact ⟨sockfd, hchannel, hresets, hlog⟩

theorem Sound.inactive (hs : Sound s) (hstate : s.state ≠ .kConnecting) : s.active = false := by
  cases hactive : s.active with
  | false => rfl
  | true => exact absurd (hs.active hactive).1 hstate

theorem Sound.inactive_of_running (hs : Sound s) (hstage : s.stage = .running) :
    s.active = false := by
  cases hactive : s.active with
  | false => rfl
  | true =>
      have hhandling := (hs.active hactive).2
      simp [hstage] at hhandling

/-! ## The operations keep the account -/

/-- The stops that are not ruled out: the label does not apply, or one of the two assertions at the
beginning of an attempt fails. -/
def Tolerated (reason : ConnectorStop) : Prop :=
  reason = .disabled ∨ reason = .notDisconnected ∨ reason = .channelInUse

/-- What a step does to the sockets: nothing, or an attempt begins or ends. -/
inductive Moved (s : Connector G) (label : ConnectorLabel) (next : Connector G) : Prop where
  | kept (hlog : next.log = s.log) (hstate : next.state = s.state)
  | begun {ready : Connector G} (hbegun : Begun ready next) (hlog : ready.log = s.log)
      (hstate : s.state = .kDisconnected ∨ ∃ errno, label = .restart errno)
  | ended {ready : Connector G} {sockfd stops : Nat} {handed : Option Nat}
      (hended : Ended ready sockfd stops handed next) (hlog : ready.log = s.log)
      (hconnect : ready.connect_ = s.connect_) (hstate : s.state = .kConnecting)

/-- The operation is stopped for one of these reasons or moves on to a sound connector. -/
def Safe (s : Connector G) (label : ConnectorLabel) (result : Except ConnectorStop (Connector G)) :
    Prop :=
  (∃ reason, result = .error reason ∧ Tolerated reason) ∨
    ∃ next, result = .ok next ∧ Sound next ∧ Moved s label next

variable {label : ConnectorLabel}

theorem safe_disabled : Safe s label (.error .disabled) := .inl ⟨.disabled, rfl, .inl rfl⟩

theorem Sound.safe (hs : Sound next) (hlog : next.log = s.log) (hstate : next.state = s.state) :
    Safe s label (.ok next) :=
  .inr ⟨next, rfl, hs, .kept hlog hstate⟩

theorem Sound.of_inactive {held : Option Nat} (hholding : Holding s.state s.channel s.resets held)
    (hlog : Balanced s.log s.sockets held) (hinactive : s.active = false) : Sound s where
  held := ⟨held, hholding, hlog⟩
  active hactive := by simp [hinactive] at hactive

theorem Sound.begun (hs : Sound s) (hstate : s.state = .kDisconnected) (hbegun : Begun s next) :
    Sound next := by
  obtain ⟨held, hholding, hlog⟩ := hs.held
  have hnotConnecting : s.state ≠ .kConnecting := by simp [hstate]
  obtain rfl := hholding.held_eq_none hnotConnecting
  have hinactive := hs.inactive hnotConnecting
  cases hbegun with
  | stopped => exact hs
  | connecting _ hchannel =>
      have hresets : s.resets = 0 := by
        rw [hchannel] at hholding
        exact hholding.of_channel_none
      have hconnecting : Holding .kConnecting (some (s.sockets, watched)) s.resets (some s.sockets) := by
        rw [hresets]
        exact .connecting s.sockets
      exact .of_inactive hconnecting hlog.created hinactive
  | retried =>
      rw [retry_eq]
      exact .of_inactive (hholding.settled (by simp)) (hlog.created.disposed (.inl rfl)) hinactive
  | failed => exact .of_inactive hholding (hlog.created.disposed (.inl rfl)) hinactive

theorem Sound.ended (hs : Sound s) (hinactive : s.active = false) (hstate : s.state = .kConnecting)
    {handed : Option Nat} (hchannel : s.channel = some (sockfd, watched))
    (hended : Ended s sockfd stops handed next) : Sound next := by
  obtain ⟨held, hheld, hresets, hlog⟩ := hs.attempt hstate
  obtain rfl : held = sockfd := by simpa [hheld] using hchannel
  have hqueued : (s.released held).resets = 1 := by
    simpa [resets, released] using hresets
  have hreleasing (state : ConnectorState) (hsettled : state ≠ .kConnecting) :
      Holding state (some (held, {})) (s.released held).resets none :=
    hqueued ▸ .releasing held hsettled
  cases hended with
  | retried =>
      rw [retry_eq]
      exact .of_inactive (hreleasing _ (by simp)) (hlog.disposed (.inl rfl)) hinactive
  | handed =>
      exact .of_inactive (hreleasing _ (by simp)) (hlog.disposed (.inr ⟨_, rfl⟩)) hinactive
  | abandoned =>
      exact .of_inactive (hreleasing _ (by simp)) (hlog.disposed (.inl rfl)) hinactive

/-- `startInLoop`, once the step has got the connector ready for it. -/
theorem Sound.startInLoop {ready : Connector G} (hs : Sound ready) (errno : ConnectErrno)
    (hlog : ready.log = s.log) (hstate : ready.state = s.state ∨ ∃ errno, label = .restart errno) :
    Safe s label (ready.startInLoop errno) := by
  rcases startInLoop_spec ready errno with ⟨hstop, -⟩ | ⟨hstop, -⟩ | ⟨next, hnext, hready, hbegun⟩
  · exact .inl ⟨_, hstop, .inr (.inl rfl)⟩
  · exact .inl ⟨_, hstop, .inr (.inr rfl)⟩
  · have hmoved := Moved.begun hbegun hlog (hstate.imp_left fun hsame => hsame.symm.trans hready)
    exact .inr ⟨next, hnext, hs.begun hready hbegun, hmoved⟩

theorem Sound.handleEvent (hs : Sound s) (hactive : s.active = true) (revents : EventMask)
    (status : SocketStatus) (stops : Nat) :
    Safe s label ((s.handleEvent revents status stops).map Prod.snd) := by
  obtain ⟨hstate, -⟩ := hs.active hactive
  obtain ⟨sockfd, hchannel, -⟩ := hs.attempt hstate
  have hhandling : Sound { s with active := false } := ⟨hs.held, by simp⟩
  rcases handleEvent_connecting hactive hstate hchannel revents status stops with
    hsame | ⟨handed, next, hnext, hended⟩
  · rw [hsame]
    exact hhandling.safe rfl rfl
  · rw [hnext]
    exact .inr ⟨next, rfl, hhandling.ended rfl hstate hchannel hended, .ended hended rfl rfl hstate⟩

/-- Queueing and taking out functors other than `resetChannel`. -/
theorem Sound.requeue (hs : Sound s) {queue : FunctorQueue (ConnectorFunctor G)}
    (hqueue : queue.queued.count .resetChannel = s.resets) : Sound { s with queue := queue } := by
  refine ⟨?_, hs.active⟩
  show ∃ held, Holding s.state s.channel (queue.queued.count .resetChannel) held ∧ _
  rw [hqueue]
  exact hs.held

theorem Sound.queueInLoop (hs : Sound s) {functor : ConnectorFunctor G}
    (hfunctor : functor ≠ .resetChannel) :
    Sound { s with queue := s.queue.queueInLoop functor } :=
  hs.requeue (by simp [resets, hfunctor])

theorem Sound.popped (hs : Sound s) {functor : ConnectorFunctor G}
    {queue : FunctorQueue (ConnectorFunctor G)} (hqueue : s.queue.queued = functor :: queue.queued)
    (hfunctor : functor ≠ .resetChannel) : Sound { s with queue := queue } :=
  hs.requeue (by simp [resets, hqueue, hfunctor])

/-- The channel that a `resetChannel` functor finds has been removed from the poller. -/
theorem Sound.resetChannel (hs : Sound s) {queue : FunctorQueue (ConnectorFunctor G)}
    (hqueue : s.queue.queued = .resetChannel :: queue.queued) :
    { s with queue := queue }.resetChannel = .ok { s with queue := queue, channel := none } ∧
      Sound { s with queue := queue, channel := none } := by
  obtain ⟨held, hholding, hlog⟩ := hs.held
  have hcount : s.resets = queue.queued.count .resetChannel + 1 := by simp [resets, hqueue]
  rw [hcount] at hholding
  obtain ⟨sockfd, hchannel, hresets, hstate, rfl⟩ := hholding.of_reset
  refine ⟨by simp [Connector.resetChannel, hchannel], .of_inactive ?_ hlog (hs.inactive hstate)⟩
  show Holding s.state none (queue.queued.count .resetChannel) none
  rw [hresets]
  exact .idle hstate

theorem Sound.runFunctor (hs : Sound s) {functor : ConnectorFunctor G} {popped : Connector G}
    (hpopped : s.nextFunctor = some (functor, popped)) (errno : ConnectErrno) :
    (∃ reason, popped.runFunctor errno functor = .error reason ∧ Tolerated reason) ∨
      ∃ next, popped.runFunctor errno functor = .ok next ∧ Sound next ∧ Ran popped functor next := by
  obtain ⟨hstage, queue, rfl, hqueue⟩ := nextFunctor_spec hpopped
  cases functor with
  | startInLoop =>
      have hready := hs.popped hqueue (by simp)
      rcases startInLoop_spec { s with queue := queue } errno with
        ⟨hstop, -⟩ | ⟨hstop, -⟩ | ⟨next, hnext, hstate, hbegun⟩
      · exact .inl ⟨_, hstop, .inr (.inl rfl)⟩
      · exact .inl ⟨_, hstop, .inr (.inr rfl)⟩
      · exact .inr ⟨next, hnext, hready.begun hstate hbegun, .began hstate hbegun⟩
  | stopInLoop =>
      have hready := hs.popped hqueue (by simp)
      by_cases hstate : s.state = .kConnecting
      · obtain ⟨sockfd, hchannel, -⟩ := hs.attempt hstate
        have hended : Ended { s with queue := queue } sockfd 0 none _ := .retried
        exact .inr ⟨_, stopInLoop_connecting (s := { s with queue := queue }) hstate hchannel,
          hready.ended (hs.inactive_of_running hstage) hstate hchannel hended, .gaveUp hstate hended⟩
      · exact .inr ⟨_, by simp [Connector.runFunctor, stopInLoop, hstate], hready, .idle hstate⟩
  | resetChannel =>
      obtain ⟨hreset, hsound⟩ := hs.resetChannel hqueue
      exact .inr ⟨_, hreset, hsound, .reset⟩
  | other functor => exact .inr ⟨_, rfl, hs.popped hqueue (by simp), .other functor⟩

theorem Sound.ran (hs : Sound s) {functor : ConnectorFunctor G} {popped : Connector G}
    (hpopped : s.nextFunctor = some (functor, popped)) {errno : ConnectErrno}
    (hrun : popped.runFunctor errno functor = .ok next) : Ran popped functor next := by
  rcases hs.runFunctor hpopped errno with ⟨reason, hstop, -⟩ | ⟨other, hok, -, hran⟩
  · simp [hrun] at hstop
  · obtain rfl : other = next := Except.ok.inj (hok.symm.trans hrun)
    exact hran

theorem Sound.connecting_of_watching (hs : Sound s) (hwatching : s.watching = true) :
    s.state = .kConnecting := by
  obtain ⟨held, hholding, -⟩ := hs.held
  unfold watching at hwatching
  cases hchannel : s.channel with
  | none => simp [hchannel] at hwatching
  | some entry =>
      rw [hchannel] at hholding hwatching
      generalize s.state = state, s.resets = resets at hholding
      cases hholding with
      | connecting => rfl
      | releasing => simp at hwatching

theorem Sound.poll (hs : Sound s) (ready : Bool) :
    s.poll ready = .error .disabled ∨ ∃ active,
      s.poll ready = .ok { s with stage := .handling, active := active } ∧
        Sound { s with stage := .handling, active := active } := by
  unfold Connector.poll
  split
  · refine .inr ⟨_, rfl, hs.held, fun hactive => ⟨?_, rfl⟩⟩
    exact hs.connecting_of_watching (Bool.and_eq_true_iff.mp hactive).2
  · exact .inl rfl

theorem Sound.beginFunctors (hs : Sound s) :
    s.beginFunctors = .error .disabled ∨ ∃ queue, queue.queued = s.queue.queued ∧
      s.beginFunctors = .ok { s with stage := .running, queue := queue } ∧
        Sound { s with stage := .running, queue := queue } := by
  unfold Connector.beginFunctors
  split
  · rename_i hhandled
    cases hswap : s.queue.swap with
    | none => exact .inl rfl
    | some queue =>
        have hqueue := FunctorQueue.queued_swap hswap
        have hrequeued : Sound { s with queue := queue } := hs.requeue (by rw [hqueue, resets])
        exact .inr ⟨queue, hqueue, rfl, hrequeued.held, by simp [hhandled.2]⟩
  · exact .inl rfl

/-- What `restart` prepares before it calls `startInLoop`. -/
theorem Sound.restarting (hs : Sound s) (hstate : s.state = .kConnected) :
    Sound { s with
      state := .kDisconnected, retryDelayMs := kInitRetryDelayMs, connect_ := true } := by
  obtain ⟨held, hholding, hlog⟩ := hs.held
  obtain rfl := hholding.held_eq_none (by simp [hstate])
  exact .of_inactive (hholding.settled (by simp)) hlog (hs.inactive (by simp [hstate]))

/-- **The account is kept.** -/
theorem Sound.step (hs : Sound s) (label : ConnectorLabel) : Safe s label (s.step label) := by
  cases label with
  | start errno =>
      have hwanted : Sound { s with connect_ := true } := ⟨hs.held, hs.active⟩
      exact hwanted.startInLoop errno rfl (.inl rfl)
  | stop =>
      have hstopped : Sound { s with connect_ := false } := ⟨hs.held, hs.active⟩
      exact (hstopped.queueInLoop (by simp)).safe rfl rfl
  | restart errno =>
      simp only [Connector.step]
      split
      · rename_i hhanded
        exact (hs.restarting (handedOver_state hhanded)).startInLoop errno rfl (.inr ⟨errno, rfl⟩)
      · exact safe_disabled
  | beginStart | beginStop => exact .inr ⟨_, rfl, ⟨hs.held, hs.active⟩, .kept rfl rfl⟩
  | endStart =>
      simp only [Connector.step]
      split
      · exact safe_disabled
      · have hended : Sound { s with starting := s.starting - 1 } := ⟨hs.held, hs.active⟩
        exact (hended.queueInLoop (by simp)).safe rfl rfl
  | endStop =>
      simp only [Connector.step]
      split
      · exact safe_disabled
      · have hended : Sound { s with stopping := s.stopping - 1 } := ⟨hs.held, hs.active⟩
        exact (hended.queueInLoop (by simp)).safe rfl rfl
  | poll ready =>
      rcases hs.poll ready with hdisabled | ⟨active, hpoll, hpolled⟩
      · exact .inl ⟨_, hdisabled, .inl rfl⟩
      · exact .inr ⟨_, hpoll, hpolled, .kept rfl rfl⟩
  | handleEvent revents status stops =>
      cases hactive : s.active with
      | false =>
          have hdisabled : s.step (.handleEvent revents status stops) = .error .disabled := by
            simp [Connector.step, Connector.handleEvent, hactive, Except.map]
          rw [hdisabled]
          exact safe_disabled
      | true => exact hs.handleEvent hactive revents status stops
  | fire index errno =>
      simp only [Connector.step, fire]
      split
      · have hfired : Sound { s with timers := s.timers.eraseIdx index } := ⟨hs.held, hs.active⟩
        exact hfired.startInLoop errno rfl (.inl rfl)
      · exact safe_disabled
  | beginFunctors =>
      rcases hs.beginFunctors with hdisabled | ⟨queue, -, hbegin, hbegun⟩
      · exact .inl ⟨_, hdisabled, .inl rfl⟩
      · exact .inr ⟨_, hbegin, hbegun, .kept rfl rfl⟩
  | execute errno =>
      simp only [Connector.step]
      cases hpopped : s.nextFunctor with
      | none => exact safe_disabled
      | some popped =>
          rcases hs.runFunctor hpopped errno with hstop | ⟨next, hnext, hsound, hran⟩
          · exact .inl hstop
          · obtain ⟨-, queue, heq, -⟩ := nextFunctor_spec hpopped
            refine .inr ⟨next, hnext, hsound, ?_⟩
            obtain ⟨functor, popped⟩ := popped
            obtain rfl : popped = { s with queue := queue } := heq
            cases hran with
            | began hstate hbegun => exact .begun hbegun rfl (.inl hstate)
            | gaveUp hstate hended => exact .ended hended rfl rfl hstate
            | idle | reset | other => exact .kept rfl rfl

theorem Sound.of_step (hs : Sound s) (hstep : s.step label = .ok next) :
    Sound next ∧ Moved s label next := by
  rcases hs.step label with ⟨reason, hstop, -⟩ | ⟨other, hok, hmoved⟩
  · simp [hstep] at hstop
  · obtain rfl : other = next := Except.ok.inj (hok.symm.trans hstep)
    exact hmoved

/-- A sound connector has disposed of no socket twice, and what it has not disposed of is connecting. -/
theorem Sound.disposed_le_one (hs : Sound s) (sockfd : Nat) :
    s.log.countP (ConnectorEvent.disposes sockfd) ≤ 1 := by
  obtain ⟨held, -, hlog⟩ := hs.held
  have hcount := hlog sockfd
  split_ifs at hcount <;> omega

theorem Sound.connecting_of_undisposed (hs : Sound s) (hcreated : sockfd < s.sockets)
    (hundisposed : s.log.countP (ConnectorEvent.disposes sockfd) = 0) :
    s.state = .kConnecting ∧ s.channel = some (sockfd, watched) := by
  obtain ⟨held, hholding, hlog⟩ := hs.held
  have hcount := hlog sockfd
  rw [hundisposed, if_pos hcreated] at hcount
  have hheld : held = some sockfd := by
    by_contra hne
    simp [hne] at hcount
  subst hheld
  generalize s.state = state, s.channel = channel, s.resets = resets at hholding ⊢
  cases hholding with
  | connecting => exact ⟨rfl, rfl⟩

/-! ## When a socket is handed over -/

/-- **A socket is handed over** by a step that has found `connect_` set. -/
theorem Sound.handed_step (hs : Sound s) {connect_ : Bool}
    (hstep : s.step label = .ok next) (hmem : .handed sockfd connect_ ∈ next.log) :
    .handed sockfd connect_ ∈ s.log ∨ s.connect_ = true := by
  cases (hs.of_step hstep).2 with
  | kept hlog => exact .inl (hlog ▸ hmem)
  | begun hbegun hlog => exact .inl (hlog ▸ hbegun.handed_mem hmem)
  | ended hended hlog hconnect =>
      rw [← hlog, ← hconnect]
      exact (hended.handed_mem hmem).imp_right And.left

/-- **Socket ownership.** In every run of a connector no assertion fails but the two at the beginning of
an attempt. In every state that is reached each socket has been disposed of at most once, closed or
handed over; a socket not yet disposed of is that of `channel_`, which is registered, in
`kConnecting`; and the step that hands over a socket has found `connect_` set. -/
theorem sockets_owned (labels : List ConnectorLabel) :
    (∀ reason, run step ({} : Connector G) labels = .error reason → Tolerated reason) ∧
      ∀ final, run step ({} : Connector G) labels = .ok final →
        (∀ sockfd, final.log.countP (ConnectorEvent.disposes sockfd) ≤ 1) ∧
        (∀ sockfd < final.sockets, final.log.countP (ConnectorEvent.disposes sockfd) = 0 →
          final.state = .kConnecting ∧ ∃ channel, final.channel = some (sockfd, channel) ∧
            channel.addedToLoop = true ∧ channel.inChannels = true ∧ channel.isWriting = true) ∧
        ∀ label next, final.step label = .ok next →
          ∀ sockfd connect_, .handed sockfd connect_ ∈ next.log →
            .handed sockfd connect_ ∈ final.log ∨ final.connect_ = true := by
  have hsafe : (∀ reason, run step ({} : Connector G) labels = .error reason → Tolerated reason) ∧
      ∀ final, run step ({} : Connector G) labels = .ok final → Sound final :=
    run_safe_of_meets Sound (fun _ label hs _ => (hs.step label).imp_right
      fun ⟨next, hnext, hsound, _⟩ => ⟨next, hnext, hsound⟩) sound_initial
      (meets_of_forall (fun _ _ => trivial) _)
  refine ⟨hsafe.1, fun final hrun => ?_⟩
  have hs := hsafe.2 final hrun
  refine ⟨hs.disposed_le_one, fun sockfd hcreated hundisposed => ?_,
    fun label next hstep sockfd connect_ => hs.handed_step hstep⟩
  obtain ⟨hstate, hchannel⟩ := hs.connecting_of_undisposed hcreated hundisposed
  exact ⟨hstate, watched, hchannel, rfl, rfl, rfl⟩

/-- Another thread clears `connect_` between the test and the call: the socket is handed over all the
same. -/
theorem handed_after_stop : ∃ final, run step ({} : Connector Unit)
    [.start .EINPROGRESS, .poll true, .handleEvent POLLOUT {} 1] = .ok final ∧
      final.connect_ = false ∧ final.log = [.created 0, .handed 0 false] := by
  obtain ⟨final, hrun, hfinal⟩ := exists_of_outcome step ({} : Connector Unit)
    [.start .EINPROGRESS, .poll true, .handleEvent POLLOUT {} 1]
    (fun final => decide (final.connect_ = false ∧ final.log = [.created 0, .handed 0 false]))
    (by decide +kernel)
  exact ⟨final, hrun, of_decide_eq_true hfinal⟩

/-- An error and a write event of one dispatch: the socket is closed once and the attempt is made again
later. -/
example : outcome step ({} : Connector Unit)
    [.start .EINPROGRESS, .poll true, .handleEvent (POLLERR ||| POLLOUT) {} 0]
    (fun final => final.log = [.created 0, .closed 0] ∧ final.timers = [500]) = true := by
  decide +kernel

end Connector
end Muduo
