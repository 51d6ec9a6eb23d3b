import Muduo.Buffer
import Muduo.Channel
import Muduo.EventLoop
import Muduo.Execution

/-! `muduo::net::TcpConnection`. The functions are those of the source on the connection's state, with
the functor queue of its loop beside it. What the kernel answers is an argument. A function that
calls back into user code in its middle (`handleClose`, `connectDestroyed`) is cut there: the rest of
it is pushed on the stack of the loop thread, above the callbacks that are left of the running
`Channel::handleEvent`, and the calls the user code makes are steps of their own.

Logging is left out, and so is `inputBuffer_`, which only the user's message callback looks into. -/

namespace Muduo

inductive StateE where
  | kDisconnected
  | kConnecting
  | kConnected
  | kDisconnecting
  deriving DecidableEq, Repr

inductive Errno where
  | EWOULDBLOCK
  | EPIPE
  | ECONNRESET
  | other (code : Nat)
  deriving DecidableEq, Repr

/-- What `write(2)` does with the bytes it is offered: it accepts at most `count` of them, or fails. -/
inductive WriteResult where
  | accepts (count : Nat)
  | fails (errno : Errno)
  deriving DecidableEq, Repr

/-- What `readv(2)` returns in `inputBuffer_.readFd`. -/
inductive ReadResult where
  | received (count : Nat)
  | fails (errno : Errno)
  deriving DecidableEq, Repr

/-- The functors a connection puts into the queue of its loop. A message is numbered when it is
sent, so that equal messages can be told apart; the code does not look at the number. -/
inductive ConnectionFunctor where
  | connectEstablished
  | connectDestroyed
  | sendInLoop (number : Nat) (message : Bytes)
  | shutdownInLoop
  | forceCloseInLoop
  | startReadInLoop
  | stopReadInLoop
  | writeCompleteCallback
  | highWaterMarkCallback (length : Nat)
  deriving DecidableEq, Repr

/-- What stands on the stack of the loop thread: a callback of the channel that `handleEvent` has yet
to invoke, or the rest of a function that has called back into user code. -/
inductive Frame where
  | event (callback : Channel.Callback)
  /-- `handleClose` after `connectionCallback_`: `closeCallback_(guardThis)`. -/
  | closeCallback
  /-- `connectDestroyed` after `connectionCallback_`: `channel_->remove()`. -/
  | removeChannel
  deriving DecidableEq, Repr

/-- A callback invoked by the connection. The connection callback reports `conn->connected()`. -/
inductive Notice where
  | connection (connected : Bool)
  | message
  | close
  deriving DecidableEq, Repr

/-- The circumstances of a `shutdownWrite()`. -/
structure HalfClose where
  state : StateE
  backlog : Bytes
  accepted : Bytes
  deriving DecidableEq, Repr

/-- The members of the class. -/
structure TcpConnection where
  state : StateE := .kConnecting
  reading : Bool := true
  channel : Channel := {}
  outputBuffer : Buffer := Buffer.new Buffer.kInitialSize
  writeCompleteCallback : Bool := false
  highWaterMarkCallback : Bool := false
  highWaterMark : Nat := 64 * 1024 * 1024
  deriving DecidableEq, Repr

/-- A connection with the loop it lives in and a record of what has happened to it. -/
structure Session extends TcpConnection where
  queue : FunctorQueue ConnectionFunctor := {}
  stack : List Frame := []
  /-- Timers of `forceCloseWithDelay` that have not fired. -/
  delayedCloses : Nat := 0
  /-- The owner's `removeConnection` runs its second half in the connection's own loop. -/
  ownerInLoop : Bool := true
  /-- `removeConnectionInLoop` requests waiting in the owner's loop. -/
  removals : Nat := 0
  /-- The messages `send` has taken over so far. -/
  sends : Nat := 0
  /-- The messages handed to `sendInLoop` while `state_` was not `kDisconnected`. -/
  messages : List (Nat × Bytes) := []
  /-- The bytes `write(2)` has accepted. -/
  accepted : Bytes := []
  /-- A direct write has failed with `EPIPE` or `ECONNRESET`. -/
  faulted : Bool := false
  halfCloses : List HalfClose := []
  /-- `shutdown()` has taken effect. -/
  shutdownRequested : Bool := false
  /-- `shutdownInLoop` has run after that. -/
  shutdownServed : Bool := false
  notices : List Notice := []
  /-- `connectDestroyed` has run. -/
  destroyed : Bool := false
  deriving DecidableEq, Repr

/-- Why a step does not go through: the program stops at a failed assertion, or the loop cannot take
the step in this state. -/
inductive Stop where
  | channel (failure : ChannelFailure)
  /-- An assertion of `Buffer`. -/
  | buffer
  /-- `assert(state_ == kConnecting)` in `connectEstablished`. -/
  | notConnecting
  /-- `assert(state_ == kConnected || state_ == kDisconnecting)` in `handleClose`. -/
  | notOpen
  | disabled
  deriving DecidableEq, Repr

namespace Session

/-- The bytes of the messages handed to `sendInLoop`. -/
def handed (s : Session) : Bytes := s.messages.flatMap Prod.snd

def queueInLoop (s : Session) (f : ConnectionFunctor) : Session :=
  { s with queue := s.queue.queueInLoop f }

def withChannel (s : Session) (result : Except ChannelFailure Channel) : Except Stop Session :=
  match result with
  | .ok channel => .ok { s with channel := channel }
  | .error failure => .error (.channel failure)

def setState (s : Session) (state : StateE) : Session := { s with state := state }

def notify (s : Session) (notice : Notice) : Session := { s with notices := s.notices ++ [notice] }

/-- `connectionCallback_(shared_from_this())`. -/
def connectionCallback (s : Session) : Session :=
  s.notify (.connection (s.state == .kConnected))

def shutdownWrite (s : Session) : Session :=
  { s with halfCloses := s.halfCloses ++ [⟨s.state, s.outputBuffer.readable, s.accepted⟩] }

def shutdownInLoop (s : Session) : Session :=
  let s := { s with shutdownServed := s.shutdownServed || s.shutdownRequested }
  if !s.channel.isWriting then s.shutdownWrite else s

/-- The end of `sendInLoop`: what the direct write left over goes to the output buffer. -/
def appendRemaining (s : Session) (remaining : Bytes) : Except Stop Session :=
  if 0 < remaining.length then
    let oldLen := s.outputBuffer.readableBytes
    let s :=
      if s.highWaterMark ≤ oldLen + remaining.length ∧ oldLen < s.highWaterMark ∧
          s.highWaterMarkCallback then
        s.queueInLoop (.highWaterMarkCallback (oldLen + remaining.length))
      else s
    match s.outputBuffer.append remaining with
    | none => .error .buffer
    | some longer =>
        let s := { s with outputBuffer := longer }
        if !s.channel.isWriting then s.withChannel s.channel.enableWriting else .ok s
  else .ok s

/-- `sendInLoop`. The error number of a failed direct write is read after it has been logged; logging
leaves it alone. -/
def sendInLoop (s : Session) (number : Nat) (data : Bytes) (write : WriteResult) :
    Except Stop Session :=
  if s.state = .kDisconnected then .ok s
  else
    let s := { s with messages := s.messages ++ [(number, data)] }
    -- if no thing in output queue, try writing directly
    if !s.channel.isWriting && s.outputBuffer.readableBytes == 0 then
      match write with
      | .accepts count =>
          let s := { s with accepted := s.accepted ++ data.take count }
          let remaining := data.drop count
          let s :=
            if remaining.length = 0 ∧ s.writeCompleteCallback then
              s.queueInLoop .writeCompleteCallback
            else s
          s.appendRemaining remaining
      | .fails errno =>
          if errno = .EPIPE ∨ errno = .ECONNRESET then .ok { s with faulted := true }
          else s.appendRemaining data
    else s.appendRemaining data

/-- `handleWrite` once the output buffer has been drained. -/
def drained (s : Session) : Except Stop Session :=
  match s.withChannel s.channel.disableWriting with
  | .error stop => .error stop
  | .ok s =>
      let s := if s.writeCompleteCallback then s.queueInLoop .writeCompleteCallback else s
      if s.state = .kDisconnecting then .ok s.shutdownInLoop else .ok s

def handleWrite (s : Session) (write : WriteResult) : Except Stop Session :=
  if s.channel.isWriting then
    match write with
    | .accepts count =>
        let taken := s.outputBuffer.readable.take count
        if 0 < taken.length then
          match s.outputBuffer.retrieve taken.length with
          | none => .error .buffer
          | some rest =>
              let s := { s with accepted := s.accepted ++ taken, outputBuffer := rest }
              if s.outputBuffer.readableBytes = 0 then s.drained else .ok s
        else .ok s
    | .fails _ => .ok s
  else .ok s

def handleClose (s : Session) : Except Stop Session :=
  if s.state = .kConnected ∨ s.state = .kDisconnecting then
    let s := s.setState .kDisconnected
    match s.withChannel s.channel.disableAll with
    | .error stop => .error stop
    | .ok s =>
        let s := s.connectionCallback
        .ok { s with stack := .closeCallback :: s.stack }
  else .error .notOpen

/-- The owner's `removeConnection`: its second half queues `connectDestroyed` in the loop of the
connection, at once when the owner lives in that loop and through the owner's loop otherwise. -/
def closeCallback (s : Session) : Session :=
  let s := s.notify .close
  if s.ownerInLoop then s.queueInLoop .connectDestroyed else { s with removals := s.removals + 1 }

def handleRead (s : Session) : ReadResult → Except Stop Session
  | .received count => if 0 < count then .ok (s.notify .message) else s.handleClose
  -- handleError only logs
  | .fails _ => .ok s

def forceCloseInLoop (s : Session) : Except Stop Session :=
  if s.state = .kConnected ∨ s.state = .kDisconnecting then s.handleClose else .ok s

def startReadInLoop (s : Session) : Except Stop Session :=
  if !s.reading || !s.channel.isReading then
    match s.withChannel s.channel.enableReading with
    | .error stop => .error stop
    | .ok s => .ok { s with reading := true }
  else .ok s

def stopReadInLoop (s : Session) : Except Stop Session :=
  if s.reading || s.channel.isReading then
    match s.withChannel s.channel.disableReading with
    | .error stop => .error stop
    | .ok s => .ok { s with reading := false }
  else .ok s

def connectEstablished (s : Session) : Except Stop Session :=
  if s.state = .kConnecting then
    let s := s.setState .kConnected
    match s.withChannel s.channel.enableReading with
    | .error stop => .error stop
    | .ok s => .ok s.connectionCallback
  else .error .notConnecting

def connectDestroyed (s : Session) : Except Stop Session :=
  let s := { s with destroyed := true }
  if s.state = .kConnected then
    let s := s.setState .kDisconnected
    match s.withChannel s.channel.disableAll with
    | .error stop => .error stop
    | .ok s =>
        let s := s.connectionCallback
        .ok { s with stack := .removeChannel :: s.stack }
  else .ok { s with stack := .removeChannel :: s.stack }

end Session

/-! ## The calls of the user -/

inductive Call where
  | send (message : Bytes)
  | shutdown
  | forceClose
  | forceCloseWithDelay
  | startRead
  | stopRead
  deriving DecidableEq, Repr

namespace Session

/-- `loop_->runInLoop` of a function that is run at once in the loop thread. -/
def runInLoop (s : Session) (thread : Thread) (f : ConnectionFunctor)
    (body : Session → Except Stop Session) : Except Stop Session :=
  match thread with
  | .loop => body s
  | .other _ => .ok (s.queueInLoop f)

/-- `send`, for messages that the `StringPiece` of another thread's functor has room for: its length is an
`int`. -/
def send (s : Session) (thread : Thread) (message : Bytes) (write : WriteResult) :
    Except Stop Session :=
  if s.state = .kConnected then
    let number := s.sends
    { s with sends := number + 1 }.runInLoop thread (.sendInLoop number message)
      fun s => s.sendInLoop number message write
  else .ok s

def shutdown (s : Session) (thread : Thread) : Except Stop Session :=
  if s.state = .kConnected then
    { s.setState .kDisconnecting with shutdownRequested := true }.runInLoop thread .shutdownInLoop
      fun s => .ok s.shutdownInLoop
  else .ok s

def forceClose (s : Session) : Session :=
  if s.state = .kConnected ∨ s.state = .kDisconnecting then
    (s.setState .kDisconnecting).queueInLoop .forceCloseInLoop
  else s

def forceCloseWithDelay (s : Session) : Session :=
  if s.state = .kConnected ∨ s.state = .kDisconnecting then
    { s.setState .kDisconnecting with delayedCloses := s.delayedCloses + 1 }
  else s

/-- A call of the user; the write result is what a direct write gets. -/
def call (s : Session) (thread : Thread) (write : WriteResult) : Call → Except Stop Session
  | .send message => s.send thread message write
  | .shutdown => s.shutdown thread
  | .forceClose => .ok s.forceClose
  | .forceCloseWithDelay => .ok s.forceCloseWithDelay
  | .startRead => s.runInLoop thread .startReadInLoop startReadInLoop
  | .stopRead => s.runInLoop thread .stopReadInLoop stopReadInLoop

/-- A functor taken from the queue. What the user's own callbacks do are calls. -/
def runFunctor (s : Session) (write : WriteResult) : ConnectionFunctor → Except Stop Session
  | .connectEstablished => s.connectEstablished
  | .connectDestroyed => s.connectDestroyed
  | .sendInLoop number message => s.sendInLoop number message write
  | .shutdownInLoop => .ok s.shutdownInLoop
  | .forceCloseInLoop => s.forceCloseInLoop
  | .startReadInLoop => s.startReadInLoop
  | .stopReadInLoop => s.stopReadInLoop
  | .writeCompleteCallback => .ok s
  | .highWaterMarkCallback _ => .ok s

/-- What stood on the stack. -/
def runFrame (s : Session) (write : WriteResult) (read : ReadResult) : Frame → Except Stop Session
  | .event .closeCallback => s.handleClose
  | .event .errorCallback => .ok s
  | .event .readCallback => s.handleRead read
  | .event .writeCallback => s.handleWrite write
  | .closeCallback => .ok s.closeCallback
  | .removeChannel => s.withChannel s.channel.remove

end Session

/-! ## Runs

A free run invokes the functions in any order whatsoever. In a run of the loop the calls come from
any thread at any time, and everything else in the order in which the loop comes to it. -/

inductive Op where
  | call (thread : Thread) (call : Call) (write : WriteResult)
  | functor (functor : ConnectionFunctor) (write : WriteResult)
  | frame (frame : Frame) (write : WriteResult) (read : ReadResult)
  deriving DecidableEq, Repr

namespace Session

def perform (s : Session) : Op → Except Stop Session
  | .call thread c write => s.call thread write c
  | .functor f write => s.runFunctor write f
  | .frame f write read => s.runFrame write read f

end Session

inductive Label where
  | call (thread : Thread) (call : Call) (write : WriteResult)
  /-- `poll` has reported the channel, and `handleEvent` begins. -/
  | handleEvent (revents : EventMask)
  /-- What is on top of the stack goes on. -/
  | resume (write : WriteResult) (read : ReadResult)
  | doPendingFunctors
  /-- The next functor of the batch. -/
  | functor (write : WriteResult)
  /-- A timer of `forceCloseWithDelay` fires. -/
  | delayedForceClose
  | removeConnectionInLoop
  deriving DecidableEq, Repr

namespace Session

/-- The loop thread is between two functions of this connection. -/
def Idle (s : Session) : Prop := s.stack = []

instance (s : Session) : Decidable s.Idle := inferInstanceAs (Decidable (s.stack = []))

/-- One step of the loop. The poller reports the channel only while the kernel watches it; events
and timers are handled between two batches of functors. -/
def step (s : Session) : Label → Except Stop Session
  | .call thread c write => s.perform (.call thread c write)
  | .handleEvent revents =>
      if s.Idle ∧ s.queue.functors = [] ∧ s.channel.interest.isSome then
        .ok { s with stack := (Channel.handleEventWithGuard revents).map .event }
      else .error .disabled
  | .resume write read =>
      match s.stack with
      | [] => .error .disabled
      | f :: rest => { s with stack := rest }.perform (.frame f write read)
  | .doPendingFunctors =>
      if s.Idle then
        match s.queue.swap with
        | none => .error .disabled
        | some queue => .ok { s with queue := queue }
      else .error .disabled
  | .functor write =>
      if s.Idle then
        match s.queue.next with
        | none => .error .disabled
        | some (f, queue) => { s with queue := queue }.perform (.functor f write)
      else .error .disabled
  | .delayedForceClose =>
      if s.Idle ∧ s.queue.functors = [] ∧ 0 < s.delayedCloses then
        { s with delayedCloses := s.delayedCloses - 1 }.perform (.call .loop .forceClose (.accepts 0))
      else .error .disabled
  | .removeConnectionInLoop =>
      if 0 < s.removals then
        .ok ({ s with removals := s.removals - 1 }.queueInLoop .connectDestroyed)
      else .error .disabled

/-- What the owner sets before it hands the connection to its loop. -/
structure Setup where
  writeCompleteCallback : Bool := false
  highWaterMarkCallback : Bool := false
  highWaterMark : Nat := 64 * 1024 * 1024
  ownerInLoop : Bool := true
  deriving DecidableEq, Repr

/-- A connection as its owner sets it up: `connectEstablished` is the first thing its loop runs. -/
def new (setup : Setup) : Session where
  writeCompleteCallback := setup.writeCompleteCallback
  highWaterMarkCallback := setup.highWaterMarkCallback
  highWaterMark := setup.highWaterMark
  ownerInLoop := setup.ownerInLoop
  queue := { pendingFunctors := [.connectEstablished] }

end Session
end Muduo
