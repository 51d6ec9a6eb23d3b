import Muduo.Buffer
import Muduo.Decimal
import Muduo.EventLoop
import Muduo.Execution
import Muduo.TcpConnection

/-! `muduo::net::TcpServer` with its threads: the base loop, which accepts connections and keeps the map of
them, and the loops of the thread pool, in which the connections live. The loops give each other work
through their functor queues. Of a connection only what the server is concerned with is modelled here:
how it is established, closed and destroyed.

A step is what a thread does between two points at which it calls user code or another thread can
interfere. `handleClose` calls user code in its middle, so it takes two. -/

namespace Muduo

open Execution

/-! ## Names -/

/-- An IPv4 or IPv6 address as `inet_ntop` writes it, in at most `INET6_ADDRSTRLEN - 1` characters. -/
structure InetAddress where
  ip : Bytes
  port : UInt16
  ip_length : ip.length ≤ 45

/-- `toIpPort`, with a buffer of 64 bytes. -/
def InetAddress.toIpPort (a : InetAddress) : Bytes :=
  -- snprintf(buf+end, size-end, ":%u", port)
  a.ip ++ (ascii ":" ++ Decimal.print a.port.toNat).take (64 - a.ip.length - 1)

/-- What a server is constructed with, and the number of its threads. -/
structure ServerConfig where
  name : Bytes
  listenAddr : InetAddress
  numThreads : Nat

/-- The name of a connection. `snprintf` writes into a buffer of 64 bytes. -/
def ServerConfig.connName (cfg : ServerConfig) (nextConnId : BitVec 32) : Bytes :=
  cfg.name ++ (ascii "-" ++ cfg.listenAddr.toIpPort ++ ascii "#" ++
    Decimal.printInt nextConnId.toInt).take 63

/-! ## The state -/

/-- What the loops are given to run. Connections are numbered as they are accepted. -/
inductive ServerFunctor where
  | connectEstablished (c : Nat)
  | removeConnectionInLoop (c : Nat)
  | connectDestroyed (c : Nat)
  deriving DecidableEq, Repr

def ServerFunctor.connection : ServerFunctor → Nat
  | .connectEstablished c => c
  | .removeConnectionInLoop c => c
  | .connectDestroyed c => c

/-- What has happened to a connection. -/
inductive LifeEvent where
  | established
  /-- `closeCallback_` was called. -/
  | closed
  /-- It was erased from `connections_`. -/
  | removed
  | destroyed
  deriving DecidableEq, Repr

structure ServedConnection where
  name : Bytes := []
  loop : Nat := 0
  state : StateE := .kConnecting
  /-- `handleClose` is in the middle, in `connectionCallback_`. -/
  closing : Bool := false
  /-- The channel is interested in events. -/
  reading : Bool := false
  /-- The poller knows the channel. -/
  added : Bool := false
  trace : List LifeEvent := []

/-- A loop: its functors, whether it is running a batch of them, and whether it is to end or has. -/
structure ServerLoop where
  queue : FunctorQueue ServerFunctor := {}
  running : Bool := false
  quit : Bool := false
  exited : Bool := false

/-- Loop 0 is the base loop, and loops 1 to `numThreads` are those of the thread pool. -/
structure TcpServer where
  next : Nat := 0
  nextConnId : BitVec 32 := 1
  accepted : Nat := 0
  connection : Nat → ServedConnection := fun _ => {}
  connections : List (Bytes × Nat) := []
  loop : Nat → ServerLoop := fun _ => {}
  /-- `~TcpServer` has begun. -/
  destroyed : Bool := false

/-- Why a step is not taken: it is not the thread's turn, an assertion fails (in `connectEstablished`, in
`removeConnectionInLoop`, or in `Channel::remove` and `Poller::removeChannel`), or a member function of the
server is called after its destructor. -/
inductive ServerStop where
  | disabled
  | established
  | erase
  | remove
  | destroyed
  deriving DecidableEq, Repr

/-! ## The functions of the source -/

/-- `connections_[connName] = conn`, in a map ordered by names. -/
def insertName (name : Bytes) (c : Nat) : List (Bytes × Nat) → List (Bytes × Nat)
  | [] => [(name, c)]
  | entry :: rest =>
      if name < entry.1 then (name, c) :: entry :: rest
      else if name = entry.1 then (name, c) :: rest
      else entry :: insertName name c rest

namespace TcpServer

def modify (s : TcpServer) (c : Nat) (change : ServedConnection → ServedConnection) : TcpServer :=
  { s with connection := Function.update s.connection c (change (s.connection c)) }

def setLoop (s : TcpServer) (l : Nat) (changed : ServerLoop) : TcpServer :=
  { s with loop := Function.update s.loop l changed }

def queueInLoop (s : TcpServer) (l : Nat) (f : ServerFunctor) : TcpServer :=
  s.setLoop l { s.loop l with queue := (s.loop l).queue.queueInLoop f }

def connectEstablished (s : TcpServer) (c : Nat) : Except ServerStop TcpServer :=
  if (s.connection c).state = .kConnecting then
    .ok (s.modify c fun conn => { conn with
      state := .kConnected
      reading := true
      added := true
      trace := conn.trace ++ [.established] })
  else .error .established

/-- `channel_->remove()` asserts that the channel is not interested in events, and the poller that it knows
the channel. -/
def removeChannel (s : TcpServer) (c : Nat) : Except ServerStop TcpServer :=
  if !(s.connection c).reading && (s.connection c).added then
    .ok (s.modify c fun conn => { conn with added := false, trace := conn.trace ++ [.destroyed] })
  else .error .remove

def connectDestroyed (s : TcpServer) (c : Nat) : Except ServerStop TcpServer :=
  if (s.connection c).state = .kConnected then
    (s.modify c fun conn => { conn with state := .kDisconnected, reading := false }).removeChannel c
  else s.removeChannel c

/-- The connection is erased from the map. -/
def erase (s : TcpServer) (c : Nat) : TcpServer :=
  TcpServer.modify
    { s with connections := s.connections.filter fun entry => entry.1 ≠ (s.connection c).name } c
    fun conn => { conn with trace := conn.trace ++ [.removed] }

def removeConnectionInLoop (s : TcpServer) (c : Nat) : Except ServerStop TcpServer :=
  if s.destroyed then .error .destroyed
  -- size_t n = connections_.erase(conn->name()); assert(n == 1)
  else if (s.connections.filter fun entry => entry.1 = (s.connection c).name).length = 1 then
    .ok ((s.erase c).queueInLoop (s.connection c).loop (.connectDestroyed c))
  else .error .erase

def perform (s : TcpServer) : ServerFunctor → Except ServerStop TcpServer
  | .connectEstablished c => s.connectEstablished c
  | .removeConnectionInLoop c => s.removeConnectionInLoop c
  | .connectDestroyed c => s.connectDestroyed c

/-- `runInLoop` of a loop, called in the thread of another or of the same. -/
def runInLoop (s : TcpServer) (thread l : Nat) (f : ServerFunctor) : Except ServerStop TcpServer :=
  if thread = l then s.perform f else .ok (s.queueInLoop l f)

/-- `getNextLoop`: the loop, and the next value of `next_`. -/
def getNextLoop (cfg : ServerConfig) (s : TcpServer) : Nat × Nat :=
  if cfg.numThreads = 0 then (0, s.next)
  else (s.next + 1, if cfg.numThreads ≤ s.next + 1 then 0 else s.next + 1)

/-- The connection is constructed and put into the map. -/
def register (cfg : ServerConfig) (s : TcpServer) : TcpServer :=
  { s with
    next := (getNextLoop cfg s).2
    nextConnId := s.nextConnId + 1
    accepted := s.accepted + 1
    connection := Function.update s.connection s.accepted
      { name := cfg.connName s.nextConnId, loop := (getNextLoop cfg s).1 }
    connections := insertName (cfg.connName s.nextConnId) s.accepted s.connections }

def newConnection (cfg : ServerConfig) (s : TcpServer) : Except ServerStop TcpServer :=
  (s.register cfg).runInLoop 0 (getNextLoop cfg s).1 (.connectEstablished s.accepted)

/-- `handleClose` up to `connectionCallback_`. -/
def handleClose (s : TcpServer) (c : Nat) : TcpServer :=
  s.modify c fun conn => { conn with state := .kDisconnected, reading := false, closing := true }

/-- The rest of `handleClose`: `closeCallback_` is `TcpServer::removeConnection`. -/
def closeCallback (s : TcpServer) (c : Nat) : Except ServerStop TcpServer :=
  (s.modify c fun conn => { conn with closing := false, trace := conn.trace ++ [.closed] }).runInLoop
    (s.connection c).loop 0 (.removeConnectionInLoop c)

/-- The loop in `~TcpServer`. -/
def destroyAll : TcpServer → List (Bytes × Nat) → Except ServerStop TcpServer
  | s, [] => .ok s
  | s, entry :: rest =>
      match s.runInLoop 0 (s.connection entry.2).loop (.connectDestroyed entry.2) with
      | .ok next => destroyAll next rest
      | .error stop => .error stop

/-- `~TcpServer`, before it destroys the thread pool. -/
def destroy (s : TcpServer) : Except ServerStop TcpServer :=
  destroyAll { s with destroyed := true, connections := [] } s.connections

/-! ## The steps -/

inductive Label where
  /-- The base loop accepts a connection. -/
  | accept
  /-- `TcpConnection::shutdown` of a connection. -/
  | shutdown (c : Nat)
  | handleClose (c : Nat)
  | closeCallback (c : Nat)
  /-- A loop begins, continues and ends `doPendingFunctors`. -/
  | swap (l : Nat)
  | execute (l : Nat)
  | finish (l : Nat)
  | destroy
  /-- `~EventLoopThread` of a loop, which the destructor of the thread pool runs. -/
  | quit (l : Nat)
  deriving DecidableEq, Repr

/-- The destructor of the thread pool has joined all threads. -/
def joined (cfg : ServerConfig) (s : TcpServer) : Bool :=
  (List.range cfg.numThreads).all fun i => (s.loop (i + 1)).exited

/-- The thread of the loop can take a step. The base loop waits in `~TcpServer` for the other threads. -/
def canRun (cfg : ServerConfig) (s : TcpServer) (l : Nat) : Bool :=
  l ≤ cfg.numThreads && !(s.loop l).exited && (l != 0 || !s.destroyed || s.joined cfg)

/-- Whether the step can be taken. Events arrive, and `forceCloseInLoop` acts, only while the connection is
up. -/
def enabled (cfg : ServerConfig) (s : TcpServer) : Label → Bool
  | .accept => s.canRun cfg 0 && !s.destroyed
  | .shutdown c => c < s.accepted && (s.connection c).state = .kConnected
  | .handleClose c => c < s.accepted && s.canRun cfg (s.connection c).loop &&
      ((s.connection c).state = .kConnected || (s.connection c).state = .kDisconnecting)
  | .closeCallback c => c < s.accepted && s.canRun cfg (s.connection c).loop && (s.connection c).closing
  | .swap l => s.canRun cfg l && !(s.loop l).running
  | .execute l => s.canRun cfg l && (s.loop l).running
  | .finish l => s.canRun cfg l && (s.loop l).running && (s.loop l).queue.functors = []
  | .destroy => s.canRun cfg 0 && !s.destroyed
  | .quit l => s.destroyed && l != 0 && l ≤ cfg.numThreads

def effect (cfg : ServerConfig) (s : TcpServer) : Label → Except ServerStop TcpServer
  | .accept => s.newConnection cfg
  | .shutdown c => .ok (s.modify c fun conn => { conn with state := .kDisconnecting })
  | .handleClose c => .ok (s.handleClose c)
  | .closeCallback c => s.closeCallback c
  | .swap l =>
      match (s.loop l).queue.swap with
      | some queue => .ok (s.setLoop l { s.loop l with queue := queue, running := true })
      | none => .error .disabled
  | .execute l =>
      match (s.loop l).queue.next with
      | some (f, rest) => (s.setLoop l { s.loop l with queue := rest }).perform f
      | none => .error .disabled
  -- while (!quit_)
  | .finish l => .ok (s.setLoop l { s.loop l with running := false, exited := (s.loop l).quit })
  | .destroy => s.destroy
  | .quit l => .ok (s.setLoop l { s.loop l with quit := true })

def step (cfg : ServerConfig) (s : TcpServer) (label : Label) : Except ServerStop TcpServer :=
  if s.enabled cfg label then s.effect cfg label else .error .disabled

end TcpServer
end Muduo
