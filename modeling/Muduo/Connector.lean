import Muduo.Channel
import Muduo.EventLoop

/-! `muduo::net::Connector`, from one attempt to connect to the next. A socket is identified by the
number of sockets created before it, since descriptors are reused. `start` and `stop` may be called
in the loop thread or in any other; another thread writes `connect_` and queues its functor in two
steps of its own, and everything the loop thread does between two calls of user code is one step,
in which `handleWrite` may still be overtaken by the `stop()` of another thread. The results of the
system calls come with the step that makes them. -/

namespace Muduo

/-- `Connector::States`. -/
inductive ConnectorState where
  | kDisconnected
  | kConnecting
  | kConnected
  deriving DecidableEq, Repr

/-- The `savedErrno` of `Connector::connect`. -/
inductive ConnectErrno where
  | zero
  | EINPROGRESS
  | EINTR
  | EISCONN
  | EAGAIN
  | EADDRINUSE
  | EADDRNOTAVAIL
  | ECONNREFUSED
  | ENETUNREACH
  | EACCES
  | EPERM
  | EAFNOSUPPORT
  | EALREADY
  | EBADF
  | EFAULT
  | ENOTSOCK
  | other (code : Nat)
  deriving DecidableEq, Repr

/-- What `handleWrite` asks the kernel about the socket. -/
structure SocketStatus where
  getSocketError : Nat := 0
  isSelfConnect : Bool := false
  deriving DecidableEq, Repr

/-- The functors of the loop. The first three are the connector's own, bound to its raw pointer. -/
inductive ConnectorFunctor (G : Type) where
  | startInLoop
  | stopInLoop
  | resetChannel
  | other (functor : G)
  deriving DecidableEq, Repr

/-- The loop thread is handling the active channels, or is running the functors up to the next
`poll`. -/
inductive LoopStage where
  | handling
  | running
  deriving DecidableEq, Repr

/-- A record of what became of the sockets. -/
inductive ConnectorEvent where
  | created (sockfd : Nat)
  | closed (sockfd : Nat)
  /-- `newConnectionCallback_(sockfd)`, with the `connect_` of that moment. -/
  | handed (sockfd : Nat) (connect_ : Bool)
  deriving DecidableEq, Repr

/-- The event disposes of the socket. -/
def ConnectorEvent.disposes (sockfd : Nat) : ConnectorEvent → Bool
  | .closed other => other = sockfd
  | .handed other _ => other = sockfd
  | _ => false

def kInitRetryDelayMs : Nat := 500
def kMaxRetryDelayMs : Nat := 30 * 1000

structure Connector (G : Type) where
  connect_ : Bool := false
  state : ConnectorState := .kDisconnected
  /-- `channel_`, with the descriptor it was made for. -/
  channel : Option (Nat × Channel) := none
  retryDelayMs : Nat := kInitRetryDelayMs
  /-- The delays of the pending retry timers. -/
  timers : List Nat := []
  queue : FunctorQueue (ConnectorFunctor G) := {}
  stage : LoopStage := .running
  /-- `channel_` is among the active channels and is still to be handled. -/
  active : Bool := false
  /-- The other threads that have set `connect_` in `start` and have not yet queued `startInLoop`. -/
  starting : Nat := 0
  /-- The other threads that have cleared `connect_` in `stop` and have not yet queued `stopInLoop`. -/
  stopping : Nat := 0
  /-- How many sockets `connect` has created. -/
  sockets : Nat := 0
  log : List ConnectorEvent := []
  deriving DecidableEq, Repr

inductive ConnectorStop where
  /-- The label does not apply in this state. -/
  | disabled
  /-- `assert(state_ == kDisconnected)` in `startInLoop`. -/
  | notDisconnected
  /-- `assert(!channel_)` in `connecting`. -/
  | channelInUse
  /-- `assert(state_ == kDisconnected)` in `handleWrite`. -/
  | writeState
  /-- `channel_` is dereferenced and is null. -/
  | nullChannel
  /-- `assert(!addedToLoop_)` and `assert(!loop_->hasChannel(this))` in `~Channel`. -/
  | channelAdded
  | channel (failure : ChannelFailure)
  deriving DecidableEq, Repr

inductive ConnectorLabel where
  /-- `start()`, `stop()` and `restart()` in the loop thread. -/
  | start (errno : ConnectErrno)
  | stop
  | restart (errno : ConnectErrno)
  /-- `start()` and `stop()` in another thread, up to the write of `connect_` and after it. -/
  | beginStart
  | endStart
  | beginStop
  | endStop
  /-- `poll` returns, with or without an event of the connecting socket. -/
  | poll (ready : Bool)
  /-- While it is handled, `stops` other threads clear `connect_` in `stop()` after `handleWrite` has
  tested it. -/
  | handleEvent (revents : EventMask) (status : SocketStatus) (stops : Nat)
  /-- A retry timer fires. -/
  | fire (index : Nat) (errno : ConnectErrno)
  /-- All active channels are handled; `doPendingFunctors` swaps. -/
  | beginFunctors
  /-- The next functor of the batch. -/
  | execute (errno : ConnectErrno)
  deriving DecidableEq, Repr

namespace Connector

variable {G : Type}

def close (s : Connector G) (sockfd : Nat) : Connector G :=
  { s with log := s.log ++ [.closed sockfd] }

def retry (s : Connector G) (sockfd : Nat) : Connector G :=
  let s : Connector G := { s.close sockfd with state := .kDisconnected }
  if s.connect_ then
    { s with
      timers := s.timers ++ [s.retryDelayMs]
      retryDelayMs := min (s.retryDelayMs * 2) kMaxRetryDelayMs }
  else s

def connecting (s : Connector G) (sockfd : Nat) : Except ConnectorStop (Connector G) :=
  let s : Connector G := { s with state := .kConnecting }
  if s.channel.isSome then .error .channelInUse
  else
    match ({} : Channel).enableWriting with
    | .ok channel => .ok { s with channel := some (sockfd, channel) }
    | .error failure => .error (.channel failure)

def connect (s : Connector G) (savedErrno : ConnectErrno) : Except ConnectorStop (Connector G) :=
  let sockfd := s.sockets
  let s : Connector G := { s with sockets := sockfd + 1, log := s.log ++ [.created sockfd] }
  match savedErrno with
  | .zero | .EINPROGRESS | .EINTR | .EISCONN => s.connecting sockfd
  | .EAGAIN | .EADDRINUSE | .EADDRNOTAVAIL | .ECONNREFUSED | .ENETUNREACH => .ok (s.retry sockfd)
  | .EACCES | .EPERM | .EAFNOSUPPORT | .EALREADY | .EBADF | .EFAULT | .ENOTSOCK =>
      .ok (s.close sockfd)
  | .other _ => .ok (s.close sockfd)

def startInLoop (s : Connector G) (errno : ConnectErrno) : Except ConnectorStop (Connector G) :=
  if s.state ≠ .kDisconnected then .error .notDisconnected
  else if s.connect_ then s.connect errno
  else .ok s

/-- `start()` in the loop thread, where `runInLoop` calls `startInLoop` at once. -/
def start (s : Connector G) (errno : ConnectErrno) : Except ConnectorStop (Connector G) :=
  { s with connect_ := true }.startInLoop errno

/-- `stop()` in the loop thread; it queues `stopInLoop` there too. -/
def stop (s : Connector G) : Connector G :=
  { s with connect_ := false, queue := s.queue.queueInLoop .stopInLoop }

def restart (s : Connector G) (errno : ConnectErrno) : Except ConnectorStop (Connector G) :=
  { s with state := .kDisconnected, retryDelayMs := kInitRetryDelayMs, connect_ := true }.startInLoop
    errno

def removeAndResetChannel (s : Connector G) : Except ConnectorStop (Nat × Connector G) :=
  match s.channel with
  | none => .error .nullChannel
  | some (sockfd, channel) =>
      match channel.disableAll with
      | .error failure => .error (.channel failure)
      | .ok channel =>
          match channel.remove with
          | .error failure => .error (.channel failure)
          | .ok channel =>
              -- `channel_` cannot be reset here, inside `Channel::handleEvent`
              .ok (sockfd, { s with
                channel := some (sockfd, channel)
                queue := s.queue.queueInLoop .resetChannel })

def resetChannel (s : Connector G) : Except ConnectorStop (Connector G) :=
  match s.channel with
  | none => .ok s
  | some (_, channel) =>
      if channel.addedToLoop || channel.inChannels then .error .channelAdded
      else .ok { s with channel := none }

def stopInLoop (s : Connector G) : Except ConnectorStop (Connector G) :=
  if s.state = .kConnecting then
    let s : Connector G := { s with state := .kDisconnected }
    s.removeAndResetChannel.map fun removed => removed.2.retry removed.1
  else .ok s

def handleError (s : Connector G) : Except ConnectorStop (Connector G) :=
  if s.state = .kConnecting then
    s.removeAndResetChannel.map fun removed => removed.2.retry removed.1
  else .ok s

/-- The last part of `handleWrite`, once the socket has turned out to be connected; with the socket
that `newConnectionCallback_` is called with. -/
def connected (s : Connector G) (sockfd stops : Nat) : Option Nat × Connector G :=
  let s : Connector G := { s with state := .kConnected }
  if s.connect_ then
    -- between the test and the call nothing keeps `stop()` in other threads from clearing `connect_`
    let s : Connector G := { s with connect_ := stops = 0, stopping := s.stopping + stops }
    (some sockfd, { s with log := s.log ++ [.handed sockfd s.connect_] })
  else (none, s.close sockfd)

def handleWrite (s : Connector G) (status : SocketStatus) (stops : Nat) :
    Except ConnectorStop (Option Nat × Connector G) :=
  if s.state = .kConnecting then
    s.removeAndResetChannel.map fun removed =>
      if status.getSocketError ≠ 0 then (none, removed.2.retry removed.1)
      else if status.isSelfConnect then (none, removed.2.retry removed.1)
      else removed.2.connected removed.1 stops
  else if s.state = .kDisconnected then .ok (none, s)
  else .error .writeState

/-- The callbacks set on the channel. -/
def handleCallback (s : Connector G) (status : SocketStatus) (stops : Nat) :
    Channel.Callback → Except ConnectorStop (Option Nat × Connector G)
  | .closeCallback => .ok (none, s)
  | .errorCallback => s.handleError.map fun s => (none, s)
  | .readCallback => .ok (none, s)
  | .writeCallback => s.handleWrite status stops

def handleCallbacks (s : Connector G) (status : SocketStatus) (stops : Nat) :
    List Channel.Callback → Except ConnectorStop (Option Nat × Connector G)
  | [] => .ok (none, s)
  | callback :: callbacks =>
      match s.handleCallback status stops callback with
      | .error reason => .error reason
      | .ok (handed, s) =>
          (s.handleCallbacks status stops callbacks).map fun result => (handed.or result.1, result.2)

/-- `Channel::handleEvent` of the connecting channel, with the socket that was handed over, if any. -/
def handleEvent (s : Connector G) (revents : EventMask) (status : SocketStatus) (stops : Nat) :
    Except ConnectorStop (Option Nat × Connector G) :=
  if s.active then
    { s with active := false }.handleCallbacks status stops (Channel.handleEventWithGuard revents)
  else .error .disabled

/-- A retry timer fires: `startInLoop` on a shared pointer. -/
def fire (s : Connector G) (index : Nat) (errno : ConnectErrno) :
    Except ConnectorStop (Connector G) :=
  if s.stage = .handling ∧ index < s.timers.length then
    { s with timers := s.timers.eraseIdx index }.startInLoop errno
  else .error .disabled

/-- The poller watches the socket of `channel_`. -/
def watching (s : Connector G) : Bool := s.channel.any fun entry => entry.2.interest.isSome

def poll (s : Connector G) (ready : Bool) : Except ConnectorStop (Connector G) :=
  if s.stage = .running ∧ s.queue.functors.isEmpty then
    .ok { s with stage := .handling, active := ready && s.watching }
  else .error .disabled

def beginFunctors (s : Connector G) : Except ConnectorStop (Connector G) :=
  if s.stage = .handling ∧ s.active = false then
    match s.queue.swap with
    | some queue => .ok { s with stage := .running, queue := queue }
    | none => .error .disabled
  else .error .disabled

/-- A functor of the batch. The functors of others do nothing to the connector. -/
def runFunctor (s : Connector G) (errno : ConnectErrno) :
    ConnectorFunctor G → Except ConnectorStop (Connector G)
  | .startInLoop => s.startInLoop errno
  | .stopInLoop => s.stopInLoop
  | .resetChannel => s.resetChannel
  | .other _ => .ok s

/-- The next functor of the batch, taken out of it. -/
def nextFunctor (s : Connector G) : Option (ConnectorFunctor G × Connector G) :=
  if s.stage = .running then
    s.queue.next.map fun popped => (popped.1, { s with queue := popped.2 })
  else none

/-- The last socket was handed over; its connection may end and lead to a `restart`. -/
def handedOver (s : Connector G) : Bool :=
  match s.log.getLast? with
  | some (.handed _ _) => s.state = .kConnected
  | _ => false

def step (s : Connector G) : ConnectorLabel → Except ConnectorStop (Connector G)
  | .start errno => s.start errno
  | .stop => .ok s.stop
  | .restart errno => if s.handedOver then s.restart errno else .error .disabled
  | .beginStart => .ok { s with connect_ := true, starting := s.starting + 1 }
  | .endStart =>
      if s.starting = 0 then .error .disabled
      else .ok { s with
        starting := s.starting - 1
        queue := s.queue.queueInLoop .startInLoop }
  | .beginStop => .ok { s with connect_ := false, stopping := s.stopping + 1 }
  | .endStop =>
      if s.stopping = 0 then .error .disabled
      else .ok { s with
        stopping := s.stopping - 1
        queue := s.queue.queueInLoop .stopInLoop }
  | .poll ready => s.poll ready
  | .handleEvent revents status stops => (s.handleEvent revents status stops).map Prod.snd
  | .fire index errno => s.fire index errno
  | .beginFunctors => s.beginFunctors
  | .execute errno =>
      match s.nextFunctor with
      | some (functor, s) => s.runFunctor errno functor
      | none => .error .disabled

variable {s next : Connector G}

/-! ## How an attempt begins -/

/-- The channel of a connecting socket. -/
def watched : Channel := ({} : Channel).refreshed Channel.kWriteEvent

def created (s : Connector G) : Connector G :=
  { s with sockets := s.sockets + 1, log := s.log ++ [.created s.sockets] }

/-- What a call of `startInLoop` in `kDisconnected` comes to. -/
inductive Begun (s : Connector G) : Connector G → Prop where
  | stopped (hstop : s.connect_ = false) : Begun s s
  | connecting (hconnect : s.connect_ = true) (hchannel : s.channel = none) :
      Begun s { s.created with state := .kConnecting, channel := some (s.sockets, watched) }
  | retried (hconnect : s.connect_ = true) : Begun s (s.created.retry s.sockets)
  | failed (hconnect : s.connect_ = true) : Begun s (s.created.close s.sockets)

theorem connect_cases (s : Connector G) (errno : ConnectErrno) :
    s.connect errno = s.created.connecting s.sockets ∨
      s.connect errno = .ok (s.created.retry s.sockets) ∨
      s.connect errno = .ok (s.created.close s.sockets) := by
  cases errno <;> simp [connect, created]

theorem connecting_of_none (hchannel : s.channel = none) (sockfd : Nat) :
    s.connecting sockfd =
      .ok { s with state := .kConnecting, channel := some (sockfd, watched) } := by
  have hwatched : ({} : Channel).enableWriting = .ok watched := rfl
  simp [connecting, hchannel, hwatched]

theorem connecting_of_ne_none (hchannel : s.channel ≠ none) (sockfd : Nat) :
    s.connecting sockfd = .error .channelInUse := by
  simp [connecting, Option.isSome_iff_ne_none.mpr hchannel]

theorem startInLoop_spec (s : Connector G) (errno : ConnectErrno) :
    s.startInLoop errno = .error .notDisconnected ∧ s.state ≠ .kDisconnected ∨
      s.startInLoop errno = .error .channelInUse ∧ s.channel ≠ none ∨
      ∃ next, s.startInLoop errno = .ok next ∧ s.state = .kDisconnected ∧ Begun s next := by
  by_cases hstate : s.state = .kDisconnected
  · right
    cases hconnect : s.connect_ with
    | false => exact .inr ⟨s, by simp [startInLoop, hstate, hconnect], hstate, .stopped hconnect⟩
    | true =>
        have hstart : s.startInLoop errno = s.connect errno := by
          simp [startInLoop, hstate, hconnect]
        rw [hstart]
        rcases connect_cases s errno with heq | heq | heq
        · rw [heq]
          by_cases hchannel : s.channel = none
          · exact .inr ⟨_, connecting_of_none (s := s.created) hchannel _, hstate, .connecting hconnect hchannel⟩
          · exact .inl ⟨connecting_of_ne_none (s := s.created) hchannel _, hchannel⟩
        · exact .inr ⟨_, heq, hstate, .retried hconnect⟩
        · exact .inr ⟨_, heq, hstate, .failed hconnect⟩
  · exact .inl ⟨by simp [startInLoop, hstate], hstate⟩

theorem startInLoop_of_clear (hstate : s.state = .kDisconnected) (hchannel : s.channel = none)
    (errno : ConnectErrno) : ∃ next, s.startInLoop errno = .ok next ∧ Begun s next := by
  rcases startInLoop_spec s errno with ⟨-, hne⟩ | ⟨-, hne⟩ | ⟨next, hnext, -, hbegun⟩
  · exact absurd hstate hne
  · exact absurd hchannel hne
  · exact ⟨next, hnext, hbegun⟩

/-- With `connect_` cleared nothing begins. -/
theorem Begun.eq_of_unwanted (hbegun : Begun s next) (hunwanted : s.connect_ = false) : next = s := by
  have hclash (hconnect : s.connect_ = true) : next = s :=
    absurd (hunwanted.symm.trans hconnect) (by simp)
  cases hbegun with
  | stopped => rfl
  | connecting hconnect | retried hconnect | failed hconnect => exact hclash hconnect

/-! ## How it ends -/

/-- The connector once `removeAndResetChannel` has returned the socket. -/
def released (s : Connector G) (sockfd : Nat) : Connector G :=
  { s with channel := some (sockfd, {}), queue := s.queue.queueInLoop .resetChannel }

/-- How a handler ends the attempt with the socket, and the socket it has handed over. -/
inductive Ended (s : Connector G) (sockfd stops : Nat) : Option Nat → Connector G → Prop where
  | retried : Ended s sockfd stops none ((s.released sockfd).retry sockfd)
  | handed (hconnect : s.connect_ = true) :
      Ended s sockfd stops (some sockfd)
        { s.released sockfd with
          state := .kConnected
          connect_ := stops = 0
          stopping := s.stopping + stops
          log := s.log ++ [.handed sockfd (stops = 0)] }
  | abandoned (hconnect : s.connect_ = false) :
      Ended s sockfd stops none
        { s.released sockfd with
          state := .kConnected
          log := s.log ++ [.closed sockfd] }

variable {sockfd stops : Nat}

theorem removeAndResetChannel_eq (hchannel : s.channel = some (sockfd, watched)) :
    s.removeAndResetChannel = .ok (sockfd, s.released sockfd) := by
  have hdisabled : watched.disableAll = .ok (watched.refreshed Channel.kNoneEvent) := rfl
  have hremoved : (watched.refreshed Channel.kNoneEvent).remove = .ok {} := rfl
  simp [removeAndResetChannel, hchannel, hdisabled, hremoved, released]

theorem stopInLoop_connecting (hstate : s.state = .kConnecting)
    (hchannel : s.channel = some (sockfd, watched)) :
    s.stopInLoop = .ok ((s.released sockfd).retry sockfd) := by
  have hremove : ({ s with state := .kDisconnected } : Connector G).removeAndResetChannel = _ :=
    removeAndResetChannel_eq hchannel
  simp only [stopInLoop, hstate, if_true, hremove, Except.map]
  rfl

theorem handleError_connecting (hstate : s.state = .kConnecting)
    (hchannel : s.channel = some (sockfd, watched)) :
    s.handleError = .ok ((s.released sockfd).retry sockfd) := by
  simp [handleError, hstate, removeAndResetChannel_eq hchannel, Except.map]

theorem connected_ended (s : Connector G) (sockfd stops : Nat) :
    Ended s sockfd stops ((s.released sockfd).connected sockfd stops).1
      ((s.released sockfd).connected sockfd stops).2 := by
  cases hconnect : s.connect_ with
  | false =>
      have hended : Ended s sockfd stops _ _ := .abandoned hconnect
      simpa [connected, close, released, hconnect] using hended
  | true =>
      have hended : Ended s sockfd stops _ _ := .handed hconnect
      simpa [connected, released, hconnect] using hended

theorem handleWrite_connecting (hstate : s.state = .kConnecting)
    (hchannel : s.channel = some (sockfd, watched)) (status : SocketStatus) (stops : Nat) :
    ∃ handed next, s.handleWrite status stops = .ok (handed, next) ∧
      Ended s sockfd stops handed next := by
  simp only [handleWrite, hstate, if_true, removeAndResetChannel_eq hchannel, Except.map]
  split_ifs
  · exact ⟨_, _, rfl, .retried⟩
  · exact ⟨_, _, rfl, .retried⟩
  · exact ⟨_, _, rfl, connected_ended s sockfd stops⟩

/-- Once the attempt has been given up, the callbacks that follow do nothing. -/
theorem handleCallbacks_disconnected (hstate : s.state = .kDisconnected) (status : SocketStatus)
    (callbacks : List Channel.Callback) : s.handleCallbacks status stops callbacks = .ok (none, s) := by
  induction callbacks with
  | nil => rfl
  | cons callback callbacks ih =>
      have hcallback : s.handleCallback status stops callback = .ok (none, s) := by
        cases callback <;> simp [handleCallback, handleError, handleWrite, hstate, Except.map]
      simp [handleCallbacks, hcallback, ih, Except.map]

theorem retry_eq (s : Connector G) (sockfd : Nat) :
    s.retry sockfd = { s with
      log := s.log ++ [.closed sockfd]
      state := .kDisconnected
      timers := if s.connect_ then s.timers ++ [s.retryDelayMs] else s.timers
      retryDelayMs :=
        if s.connect_ then min (s.retryDelayMs * 2) kMaxRetryDelayMs else s.retryDelayMs } := by
  cases hconnect : s.connect_ <;> simp [retry, close, hconnect]

@[simp] theorem retry_state (s : Connector G) (sockfd : Nat) :
    (s.retry sockfd).state = .kDisconnected := by
  rw [retry_eq]

theorem retry_timers_le (s : Connector G) (sockfd : Nat) :
    (s.retry sockfd).timers.length ≤ s.timers.length + 1 := by
  rw [retry_eq]
  show (if s.connect_ then s.timers ++ [s.retryDelayMs] else s.timers).length ≤ _
  split <;> simp

/-- The callbacks of one event. No callback follows the write callback. -/
theorem handleCallbacks_connecting (hstate : s.state = .kConnecting)
    (hchannel : s.channel = some (sockfd, watched)) (status : SocketStatus)
    (callbacks : List Channel.Callback)
    (hlast : callbacks.Pairwise fun callback _ => callback ≠ .writeCallback) :
    s.handleCallbacks status stops callbacks = .ok (none, s) ∨
      ∃ handed next, s.handleCallbacks status stops callbacks = .ok (handed, next) ∧
        Ended s sockfd stops handed next := by
  induction callbacks with
  | nil => exact .inl rfl
  | cons callback callbacks ih =>
      obtain ⟨hhead, htail⟩ := List.pairwise_cons.mp hlast
      have hignored (hcallback : s.handleCallback status stops callback = .ok (none, s)) :
          s.handleCallbacks status stops (callback :: callbacks) =
            s.handleCallbacks status stops callbacks := by
        cases hrest : s.handleCallbacks status stops callbacks with
        | error reason | ok result => simp [handleCallbacks, hcallback, hrest, Except.map]
      cases callback with
      | closeCallback | readCallback =>
          rw [hignored rfl]
          exact ih htail
      | errorCallback =>
          right
          refine ⟨_, _, ?_, .retried⟩
          simp [handleCallbacks, handleCallback, handleError_connecting hstate hchannel,
            handleCallbacks_disconnected, Except.map]
      | writeCallback =>
          obtain rfl : callbacks = [] :=
            List.eq_nil_iff_forall_not_mem.mpr fun callback hmem => hhead callback hmem rfl
          obtain ⟨handed, next, hwrite, hended⟩ :=
            handleWrite_connecting hstate hchannel status stops
          exact .inr ⟨handed, next, by simp [handleCallbacks, handleCallback, hwrite, Except.map], hended⟩

theorem handleEventWithGuard_pairwise (revents : EventMask) :
    (Channel.handleEventWithGuard revents).Pairwise fun callback _ => callback ≠ .writeCallback := by
  unfold Channel.handleEventWithGuard
  split_ifs <;> simp

theorem handleEvent_connecting (hactive : s.active = true) (hstate : s.state = .kConnecting)
    (hchannel : s.channel = some (sockfd, watched)) (revents : EventMask) (status : SocketStatus)
    (stops : Nat) : s.handleEvent revents status stops = .ok (none, { s with active := false }) ∨
      ∃ handed next, s.handleEvent revents status stops = .ok (handed, next) ∧
        Ended { s with active := false } sockfd stops handed next := by
  rw [handleEvent, if_pos hactive]
  exact handleCallbacks_connecting (s := { s with active := false }) hstate hchannel status _
    (handleEventWithGuard_pairwise revents)

theorem Ended.frame {handed : Option Nat} (hended : Ended s sockfd 0 handed next) :
    next.state ≠ .kConnecting ∧ next.connect_ = s.connect_ ∧ next.starting = s.starting ∧
      next.stopping = s.stopping ∧ next.queue = s.queue.queueInLoop .resetChannel := by
  cases hended with
  | retried =>
      rw [retry_eq]
      exact ⟨by simp, rfl, rfl, rfl, rfl⟩
  | handed hconnect => exact ⟨by simp, hconnect.symm, rfl, rfl, rfl⟩
  | abandoned => exact ⟨by simp, rfl, rfl, rfl, rfl⟩

theorem Ended.of_handed {handed : Nat} (hended : Ended s sockfd stops (some handed) next) :
    s.connect_ = true ∧ next.state = .kConnected := by
  cases hended with
  | handed hconnect => exact ⟨hconnect, rfl⟩

theorem Begun.handed_mem {connect_ : Bool} (hbegun : Begun s next)
    (hmem : .handed sockfd connect_ ∈ next.log) : .handed sockfd connect_ ∈ s.log := by
  cases hbegun with
  | stopped => exact hmem
  | connecting => simpa [created] using hmem
  | retried =>
      rw [retry_eq] at hmem
      simpa [created] using hmem
  | failed => simpa [close, created] using hmem

theorem Ended.handed_mem {connect_ : Bool} {handed : Option Nat} {held : Nat}
    (hended : Ended s held stops handed next) (hmem : .handed sockfd connect_ ∈ next.log) :
    .handed sockfd connect_ ∈ s.log ∨ s.connect_ = true ∧ next.state = .kConnected := by
  cases hended with
  | retried =>
      rw [retry_eq] at hmem
      exact .inl (by simpa [released] using hmem)
  | handed hconnect => exact .inr ⟨hconnect, rfl⟩
  | abandoned => exact .inl (by simpa using hmem)

/-- What a functor does to the connector it was queued for. -/
inductive Ran (s : Connector G) : ConnectorFunctor G → Connector G → Prop where
  | began {next : Connector G} (hstate : s.state = .kDisconnected) (hbegun : Begun s next) :
      Ran s .startInLoop next
  | gaveUp {next : Connector G} {sockfd : Nat} (hstate : s.state = .kConnecting)
      (hended : Ended s sockfd 0 none next) : Ran s .stopInLoop next
  | idle (hstate : s.state ≠ .kConnecting) : Ran s .stopInLoop s
  | reset : Ran s .resetChannel { s with channel := none }
  | other (functor : G) : Ran s (.other functor) s

/-! ## The loop and the client -/

theorem nextFunctor_spec {functor : ConnectorFunctor G} {popped : Connector G}
    (hpopped : s.nextFunctor = some (functor, popped)) :
    s.stage = .running ∧ ∃ queue, popped = { s with queue := queue } ∧
      s.queue.queued = functor :: queue.queued := by
  unfold nextFunctor at hpopped
  split at hpopped
  · rename_i hstage
    obtain ⟨⟨first, queue⟩, hnext, heq⟩ := Option.map_eq_some_iff.mp hpopped
    cases heq
    exact ⟨hstage, queue, rfl, FunctorQueue.queued_next hnext⟩
  · cases hpopped

theorem handedOver_state (hhanded : s.handedOver = true) : s.state = .kConnected := by
  unfold handedOver at hhanded
  split at hhanded
  · exact of_decide_eq_true hhanded
  · cases hhanded

end Connector
end Muduo
