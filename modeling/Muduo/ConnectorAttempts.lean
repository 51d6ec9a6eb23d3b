import Muduo.ConnectorSockets

/-! How many attempts a `Connector` makes at a time. An attempt begins with a call of `startInLoop`, and
such calls are announced in three ways: by another thread inside `start`, by a functor, by a retry
timer. Nothing takes an announcement back: `stop` clears `connect_` and leaves them all. So a second
`start` may find its attempt overlapping the one of an earlier announcement, or the channel that
waits to be reset. -/

namespace Muduo
namespace Connector

open Execution

variable {G : Type} [DecidableEq G] {s next : Connector G} {sockfd stops : Nat}

/-- How many `startInLoop` functors are queued. -/
def starts (s : Connector G) : Nat := s.queue.queued.count .startInLoop

/-- No attempt is announced, and the channel of the last one has been reset. -/
def settled (s : Connector G) : Bool :=
  s.channel.isNone && s.timers.isEmpty && s.starting == 0 && s.starts == 0

/-- `start()` and `restart()` are called when nothing is left of earlier attempts, and no retry timer
fires before the channel has been reset. Nothing is asked of `stop()`. -/
def calm (s : Connector G) : ConnectorLabel → Bool
  | .start _ => s.state = .kDisconnected ∧ s.settled
  | .beginStart => s.state = .kDisconnected ∧ s.settled
  | .restart _ => s.settled
  | .fire _ _ => s.channel.isNone
  | _ => true

/-- At most one attempt is announced, and then none is being made. -/
structure Alone (starting starts timers : Nat) (state : ConnectorState)
    (channel : Option (Nat × Channel)) : Prop where
  few : starting + starts + timers ≤ 1
  quiet : starting + starts + timers = 1 → state = .kDisconnected
  clear : starting + starts = 1 → channel = none

/-- The connector accounts for its sockets and makes one attempt at a time. -/
structure Sole (s : Connector G) : Prop where
  sound : Sound s
  alone : Alone s.starting s.starts s.timers.length s.state s.channel

theorem sole_initial : Sole ({} : Connector G) where
  sound := sound_initial
  alone := ⟨Nat.zero_le 1, fun _ => rfl, fun _ => rfl⟩

theorem announced_of_settled (hsettled : s.settled = true) :
    s.channel = none ∧ s.starting + s.starts + s.timers.length = 0 := by
  simp only [settled, Bool.and_eq_true, Option.isNone_iff_eq_none, List.isEmpty_iff, beq_iff_eq]
    at hsettled
  obtain ⟨⟨⟨hchannel, htimers⟩, hstarting⟩, hstarts⟩ := hsettled
  exact ⟨hchannel, by simp [htimers, hstarting, hstarts]⟩

section Alone

variable {starting starts timers : Nat} {state : ConnectorState} {channel : Option (Nat × Channel)}

theorem Alone.of_none (hnone : starting + starts + timers = 0) :
    Alone starting starts timers state channel := by
  refine ⟨by omega, fun hone => ?_, fun hone => ?_⟩ <;> omega

/-- A retry timer is all that is announced. -/
theorem Alone.of_timer (hnone : starting + starts = 0) (htimers : timers ≤ 1) :
    Alone starting starts timers .kDisconnected channel := by
  refine ⟨by omega, fun _ => rfl, fun hone => ?_⟩
  omega

/-- While an attempt is being made, none is announced. -/
theorem Alone.none_of_ne (halone : Alone starting starts timers state channel)
    (hstate : state ≠ .kDisconnected) : starting + starts + timers = 0 := by
  have hfew := halone.few
  have hquiet : starting + starts + timers ≠ 1 := fun hone => hstate (halone.quiet hone)
  omega

end Alone

/-- An attempt that begins when no other is announced. -/
theorem Sole.begun (hs : Sound s) (hnone : s.starting + s.starts + s.timers.length = 0)
    (hstate : s.state = .kDisconnected) (hbegun : Begun s next) : Sole next := by
  refine ⟨hs.begun hstate hbegun, ?_⟩
  cases hbegun with
  | stopped | connecting | failed => exact .of_none hnone
  | retried =>
      have htimers := retry_timers_le s.created s.sockets
      have hbefore : s.created.timers.length = 0 := by
        show s.timers.length = 0
        omega
      rw [retry_eq] at htimers ⊢
      refine .of_timer ?_ (by omega)
      show s.starting + s.starts = 0
      omega

theorem Sole.startInLoop (hs : Sound s) (hnone : s.starting + s.starts + s.timers.length = 0)
    (hstate : s.state = .kDisconnected) (hchannel : s.channel = none) (errno : ConnectErrno) :
    ∃ next, s.startInLoop errno = .ok next ∧ Sole next := by
  obtain ⟨next, hnext, hbegun⟩ := startInLoop_of_clear hstate hchannel errno
  exact ⟨next, hnext, .begun hs hnone hstate hbegun⟩

theorem Sole.ended (hs : Sole s) (hinactive : s.active = false) (hstate : s.state = .kConnecting)
    {handed : Option Nat} (hchannel : s.channel = some (sockfd, watched))
    (hended : Ended s sockfd stops handed next) : Sole next := by
  refine ⟨hs.sound.ended hinactive hstate hchannel hended, ?_⟩
  have hnone := hs.alone.none_of_ne (by simp [hstate])
  have hstarts : (s.released sockfd).starts = s.starts := by
    simp [starts, released]
  cases hended with
  | retried =>
      have htimers := retry_timers_le (s.released sockfd) sockfd
      have hbefore : (s.released sockfd).timers.length = 0 := by
        show s.timers.length = 0
        omega
      rw [retry_eq] at htimers ⊢
      refine .of_timer ?_ (by omega)
      show s.starting + (s.released sockfd).starts = 0
      omega
  | handed | abandoned =>
      refine .of_none ?_
      show s.starting + (s.released sockfd).starts + s.timers.length = 0
      omega

/-- What the flags of other threads and the functors that do not start an attempt leave as it is. -/
theorem Sole.of_sound {s' : Connector G} (hs : Sole s) (hsound : Sound s')
    (hstarting : s'.starting + s'.starts = s.starting + s.starts) (htimers : s'.timers = s.timers)
    (hstate : s'.state = s.state) (hchannel : s'.channel = s.channel ∨ s'.channel = none) :
    Sole s' := by
  obtain ⟨-, hfew, hquiet, hclear⟩ := hs
  refine ⟨hsound, ?_, ?_, ?_⟩
  · rw [hstarting, htimers]
    exact hfew
  · rw [hstarting, htimers, hstate]
    exact hquiet
  · rw [hstarting]
    intro hone
    rcases hchannel with hsame | hnone
    · rw [hsame]
      exact hclear hone
    · exact hnone

/-- The functors that do not start an attempt. -/
theorem Sole.queueInLoop (hs : Sole s) {functor : ConnectorFunctor G}
    (hstart : functor ≠ .startInLoop) (hreset : functor ≠ .resetChannel) :
    Sole { s with queue := s.queue.queueInLoop functor } := by
  refine hs.of_sound (hs.sound.queueInLoop hreset) ?_ rfl rfl (.inl rfl)
  show s.starting + (s.queue.queueInLoop functor).queued.count .startInLoop = _
  simp [starts, hstart]

theorem Sole.flagged (hs : Sole s) (connect_ : Bool) (stopping : Nat) :
    Sole { s with connect_ := connect_, stopping := stopping } :=
  ⟨⟨hs.sound.held, hs.sound.active⟩, hs.alone⟩

/-- Another thread goes from its write of `connect_` to the functor. -/
theorem Sole.endStart (hs : Sole s) (hstarting : s.starting ≠ 0) :
    Sole { s with starting := s.starting - 1, queue := s.queue.queueInLoop .startInLoop } := by
  have hsound := hs.sound
  have hended : Sound { s with starting := s.starting - 1 } := ⟨hsound.held, hsound.active⟩
  refine hs.of_sound (hended.queueInLoop (by simp)) ?_ rfl rfl (.inl rfl)
  have hqueued : (s.queue.queueInLoop .startInLoop).queued.count .startInLoop = s.starts + 1 := by
    simp [starts]
  show s.starting - 1 + (s.queue.queueInLoop .startInLoop).queued.count .startInLoop =
    s.starting + s.starts
  omega

/-- Another thread announces an attempt when none is left. -/
theorem Sole.beginStart (hs : Sound s) (hstate : s.state = .kDisconnected)
    (hchannel : s.channel = none) (hnone : s.starting + s.starts + s.timers.length = 0) :
    Sole { s with connect_ := true, starting := s.starting + 1 } := by
  refine ⟨⟨hs.held, hs.active⟩, ?_, fun _ => hstate, fun _ => hchannel⟩
  show s.starting + 1 + s.starts + s.timers.length ≤ 1
  omega

theorem Sole.runFunctor (hs : Sole s) {functor : ConnectorFunctor G} {popped : Connector G}
    (hpopped : s.nextFunctor = some (functor, popped)) (errno : ConnectErrno) :
    ∃ next, popped.runFunctor errno functor = .ok next ∧ Sole next := by
  obtain ⟨hstage, queue, rfl, hqueue⟩ := nextFunctor_spec hpopped
  cases functor with
  | startInLoop =>
      have hsound := hs.sound.popped hqueue (by simp)
      have hstarts : s.starts = queue.queued.count .startInLoop + 1 := by simp [starts, hqueue]
      have hfew := hs.alone.few
      have hstate := hs.alone.quiet (by omega)
      have hchannel := hs.alone.clear (by omega)
      refine Sole.startInLoop (s := { s with queue := queue }) hsound ?_ hstate hchannel errno
      show s.starting + queue.queued.count .startInLoop + s.timers.length = 0
      omega
  | stopInLoop =>
      have hstarts : queue.queued.count .startInLoop = s.starts := by simp [starts, hqueue]
      have hsole : Sole { s with queue := queue } := by
        refine hs.of_sound (hs.sound.popped hqueue (by simp)) ?_ rfl rfl (.inl rfl)
        show s.starting + queue.queued.count .startInLoop = _
        rw [hstarts]
      by_cases hstate : s.state = .kConnecting
      · have hinactive : s.active = false := hs.sound.inactive_of_running hstage
        obtain ⟨sockfd, hchannel, -⟩ := hs.sound.attempt hstate
        refine ⟨_, stopInLoop_connecting (s := { s with queue := queue }) hstate hchannel, ?_⟩
        have hended : Ended { s with queue := queue } sockfd 0 none _ := .retried
        exact hsole.ended hinactive hstate hchannel hended
      · exact ⟨_, by simp [Connector.runFunctor, Connector.stopInLoop, hstate], hsole⟩
  | resetChannel =>
      obtain ⟨hreset, hsound⟩ := hs.sound.resetChannel hqueue
      refine ⟨_, hreset, hs.of_sound hsound ?_ rfl rfl (.inr rfl)⟩
      show s.starting + queue.queued.count .startInLoop = _
      simp [starts, hqueue]
  | other functor =>
      refine ⟨_, rfl, hs.of_sound (hs.sound.popped hqueue (by simp)) ?_ rfl rfl (.inl rfl)⟩
      show s.starting + queue.queued.count .startInLoop = _
      simp [starts, hqueue]

/-- **A calm step** is refused or goes through, and leaves one attempt at most. -/
theorem Sole.step (hs : Sole s) {label : ConnectorLabel} (hcalm : s.calm label = true) :
    s.step label = .error .disabled ∨ ∃ next, s.step label = .ok next ∧ Sole next := by
  have hsound := hs.sound
  cases label with
  | start errno =>
      obtain ⟨hstate, hsettled⟩ := of_decide_eq_true hcalm
      obtain ⟨hchannel, hnone⟩ := announced_of_settled hsettled
      have hwanted : Sound { s with connect_ := true } := ⟨hsound.held, hsound.active⟩
      exact .inr (Sole.startInLoop hwanted hnone hstate hchannel errno)
  | stop => exact .inr ⟨_, rfl, (hs.flagged false s.stopping).queueInLoop (by simp) (by simp)⟩
  | restart errno =>
      obtain ⟨hchannel, hnone⟩ := announced_of_settled hcalm
      simp only [Connector.step]
      split
      · rename_i hhanded
        have hready := hsound.restarting (handedOver_state hhanded)
        exact .inr (Sole.startInLoop hready hnone rfl hchannel errno)
      · exact .inl rfl
  | beginStart =>
      obtain ⟨hstate, hsettled⟩ := of_decide_eq_true hcalm
      obtain ⟨hchannel, hnone⟩ := announced_of_settled hsettled
      exact .inr ⟨_, rfl, .beginStart hsound hstate hchannel hnone⟩
  | endStart =>
      simp only [Connector.step]
      split
      · exact .inl rfl
      · rename_i hstarting
        exact .inr ⟨_, rfl, hs.endStart hstarting⟩
  | beginStop => exact .inr ⟨_, rfl, hs.flagged false (s.stopping + 1)⟩
  | endStop =>
      simp only [Connector.step]
      split
      · exact .inl rfl
      · have hended := hs.flagged s.connect_ (s.stopping - 1)
        exact .inr ⟨_, rfl, hended.queueInLoop (by simp) (by simp)⟩
  | poll ready =>
      rcases hsound.poll ready with hdisabled | ⟨active, hpoll, hpolled⟩
      · exact .inl hdisabled
      · exact .inr ⟨_, hpoll, hpolled, hs.alone⟩
  | handleEvent revents status stops =>
      cases hactive : s.active with
      | false => exact .inl (by simp [Connector.step, Connector.handleEvent, hactive, Except.map])
      | true =>
          obtain ⟨hstate, -⟩ := hsound.active hactive
          obtain ⟨sockfd, hchannel, -⟩ := hsound.attempt hstate
          have hhandling : Sole { s with active := false } :=
            ⟨⟨hsound.held, by simp⟩, hs.alone⟩
          right
          rcases handleEvent_connecting hactive hstate hchannel revents status stops with
            hsame | ⟨handed, next, hnext, hended⟩
          · exact ⟨_, by simp [Connector.step, hsame, Except.map], hhandling⟩
          · refine ⟨next, by simp [Connector.step, hnext, Except.map], ?_⟩
            exact hhandling.ended rfl hstate hchannel hended
  | fire index errno =>
      simp only [Connector.step, fire]
      split
      · rename_i hfires
        have hchannel : s.channel = none := Option.isNone_iff_eq_none.mp hcalm
        have hfired : Sound { s with timers := s.timers.eraseIdx index } := ⟨hsound.held, hsound.active⟩
        have hfew := hs.alone.few
        have hstate := hs.alone.quiet (by omega)
        refine .inr (Sole.startInLoop hfired ?_ hstate hchannel errno)
        show s.starting + s.starts + (s.timers.eraseIdx index).length = 0
        rw [List.length_eraseIdx_of_lt hfires.2]
        omega
      · exact .inl rfl
  | beginFunctors =>
      rcases hsound.beginFunctors with hdisabled | ⟨queue, hqueue, hbegin, hbegun⟩
      · exact .inl hdisabled
      · refine .inr ⟨_, hbegin, hs.of_sound hbegun ?_ rfl rfl (.inl rfl)⟩
        show s.starting + queue.queued.count .startInLoop = _
        rw [hqueue, starts]
  | execute errno =>
      simp only [Connector.step]
      cases hpopped : s.nextFunctor with
      | none => exact .inl rfl
      | some popped => exact .inr (hs.runFunctor hpopped errno)

end Connector
end Muduo
