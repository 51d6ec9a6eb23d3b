import Muduo.Connector

/-! `muduo::net::TcpClient` over its `Connector`, from the constructor to the moment both objects are
gone. The client's loop is the connector's: the functors of connections stand in the same queue. A
connection is identified by its socket. Of a `TcpConnection` only this is kept: whether its
`handleClose` is still to come, and whether its `closeCallback_` is that of the client or that of
`detail`, which is independent of the client. -/

namespace Muduo

/-- The functors that hold a `TcpConnectionPtr`. -/
inductive ClientFunctor where
  | forceCloseInLoop (connection : Nat)
  | connectDestroyed (connection : Nat)
  deriving DecidableEq, Repr

/-- How long the two objects live. The connector is shared by the client, by the timer of one second
that `~TcpClient` starts and by the pending retry timers. -/
inductive ClientLifetime where
  | alive
  /-- The client is destroyed; `removal` as long as the timer of `~TcpClient` is pending. -/
  | orphaned (removal : Bool)
  /-- The connector is destroyed too. -/
  | released
  deriving DecidableEq, Repr

structure TcpClient where
  connector : Connector ClientFunctor := {}
  retry : Bool := false
  connect_ : Bool := true
  connection : Option Nat := none
  /-- The connections whose `handleClose` has not been called. -/
  up : List Nat := []
  /-- The connections whose `closeCallback_` is `detail::removeConnection`. -/
  detached : List Nat := []
  /-- The connections that were registered when `poll` was called. -/
  polled : List Nat := []
  lifetime : ClientLifetime := .alive
  /-- How many calls of `connect()` there have been. -/
  connects : Nat := 0
  deriving DecidableEq, Repr

inductive TcpClientStop where
  /-- The label does not apply in this state. -/
  | disabled
  | connector (reason : ConnectorStop)
  /-- `assert(connection_ == conn)` in `removeConnection`. -/
  | otherConnection
  /-- `newConnection` or `removeConnection` is called on a destroyed `TcpClient`. -/
  | clientDestroyed
  /-- A functor or a callback bound to the raw pointer runs on a destroyed `Connector`. -/
  | connectorDestroyed
  /-- `assert(!channel_)` in `~Connector`. -/
  | connectorChannel
  deriving DecidableEq, Repr

inductive TcpClientLabel where
  /-- Calls in the loop thread. -/
  | connect (errno : ConnectErrno)
  | stop
  | disconnect
  | enableRetry
  /-- `connect()` and `stop()` in another thread, up to the connector's write of `connect_` and after. -/
  | beginConnect
  | endConnect
  | beginStop
  | endStop
  /-- `forceClose()` of a connection, in any thread. -/
  | forceClose (connection : Nat)
  | poll (ready : Bool)
  /-- An event of the connecting socket. -/
  | handleEvent (revents : EventMask) (status : SocketStatus)
  /-- An event of a connection leads to its `handleClose`. -/
  | handleClose (connection : Nat) (errno : ConnectErrno)
  | fire (index : Nat) (errno : ConnectErrno)
  | beginFunctors
  | execute (errno : ConnectErrno)
  /-- `~TcpClient` in the loop thread, with what `connection_.unique()` returns. -/
  | destroy (unique : Bool)
  /-- The timer that `~TcpClient` started fires: `detail::removeConnector`. -/
  | removeConnector
  deriving DecidableEq, Repr

namespace TcpClient

def withConnector (s : TcpClient) (result : Except ConnectorStop (Connector ClientFunctor)) :
    Except TcpClientStop TcpClient :=
  match result with
  | .ok connector => .ok { s with connector := connector }
  | .error reason => .error (.connector reason)

def queueInLoop (s : TcpClient) (functor : ClientFunctor) : TcpClient :=
  { s with
    connector := { s.connector with queue := s.connector.queue.queueInLoop (.other functor) } }

/-- `TcpConnection::forceClose`. -/
def forceClose (s : TcpClient) (connection : Nat) : TcpClient :=
  if connection ∈ s.up then s.queueInLoop (.forceCloseInLoop connection) else s

def newConnection (s : TcpClient) (sockfd : Nat) : Except TcpClientStop TcpClient :=
  if s.lifetime = .alive then
    .ok { s with connection := some sockfd, up := sockfd :: s.up }
  else .error .clientDestroyed

/-- The client when the connector has handled an event: `newConnection` is called with the socket it
hands over, if any. -/
def newConnectionCallback (s : TcpClient) : Option Nat → Except TcpClientStop TcpClient
  | none => .ok s
  | some sockfd => s.newConnection sockfd

def removeConnection (s : TcpClient) (connection : Nat) (errno : ConnectErrno) :
    Except TcpClientStop TcpClient :=
  if s.lifetime ≠ .alive then .error .clientDestroyed
  else if s.connection ≠ some connection then .error .otherConnection
  else
    let s := { s with connection := none }.queueInLoop (.connectDestroyed connection)
    if s.retry && s.connect_ then s.withConnector (s.connector.restart errno) else .ok s

/-- `TcpConnection::handleClose`, with the `closeCallback_` of the connection. -/
def handleClose (s : TcpClient) (connection : Nat) (errno : ConnectErrno) :
    Except TcpClientStop TcpClient :=
  let s := { s with up := s.up.filter (· ≠ connection) }
  if connection ∈ s.detached then .ok (s.queueInLoop (.connectDestroyed connection))
  else s.removeConnection connection errno

/-- An owner has let go of the connector; `~Connector` if it was the last one. -/
def releaseConnector (s : TcpClient) : Except TcpClientStop TcpClient :=
  if s.lifetime = .orphaned false ∧ s.connector.timers.isEmpty then
    if s.connector.channel.isSome then .error .connectorChannel
    else .ok { s with lifetime := .released }
  else .ok s

/-- `~TcpClient`, including the destruction of `connector_`. -/
def destroy (s : TcpClient) (unique : Bool) : Except TcpClientStop TcpClient :=
  match s.connection with
  | some connection =>
      let s := { s with detached := connection :: s.detached, lifetime := .orphaned false }
      (if unique then s.forceClose connection else s).releaseConnector
  | none =>
      { s with connector := s.connector.stop, lifetime := .orphaned true }.releaseConnector

/-- The next functor of the batch. -/
def execute (s : TcpClient) (errno : ConnectErrno) : Except TcpClientStop TcpClient :=
  match s.connector.nextFunctor with
  | none => .error .disabled
  | some (functor, connector) =>
      let s := { s with connector := connector }
      match functor with
      | .other (.forceCloseInLoop connection) =>
          if connection ∈ s.up then s.handleClose connection errno else .ok s
      | .other (.connectDestroyed _) => .ok s
      | functor =>
          if s.lifetime = .released then .error .connectorDestroyed
          else s.withConnector (connector.runFunctor errno functor)

def step (s : TcpClient) : TcpClientLabel → Except TcpClientStop TcpClient
  | .connect errno =>
      if s.lifetime = .alive then
        { s with connect_ := true, connects := s.connects + 1 }.withConnector
          (s.connector.start errno)
      else .error .disabled
  | .stop =>
      if s.lifetime = .alive then .ok { s with connect_ := false, connector := s.connector.stop }
      else .error .disabled
  | .disconnect =>
      -- `shutdown()` of the connection lets the peer close it
      if s.lifetime = .alive then .ok { s with connect_ := false } else .error .disabled
  | .enableRetry =>
      if s.lifetime = .alive then .ok { s with retry := true } else .error .disabled
  | .beginConnect =>
      if s.lifetime = .alive then
        { s with connect_ := true, connects := s.connects + 1 }.withConnector
          (s.connector.step .beginStart)
      else .error .disabled
  | .endConnect => s.withConnector (s.connector.step .endStart)
  | .beginStop =>
      if s.lifetime = .alive then
        { s with connect_ := false }.withConnector (s.connector.step .beginStop)
      else .error .disabled
  | .endStop => s.withConnector (s.connector.step .endStop)
  | .forceClose connection => .ok (s.forceClose connection)
  | .poll ready => { s with polled := s.up }.withConnector (s.connector.poll ready)
  | .handleEvent revents status =>
      match s.connector.handleEvent revents status 0 with
      | .error reason => .error (.connector reason)
      | .ok (handed, connector) =>
          if s.lifetime = .released then .error .connectorDestroyed
          else { s with connector := connector }.newConnectionCallback handed
  | .handleClose connection errno =>
      if s.connector.stage = .handling ∧ connection ∈ s.polled ∧ connection ∈ s.up then
        s.handleClose connection errno
      else .error .disabled
  | .fire index errno =>
      match s.connector.fire index errno with
      | .error reason => .error (.connector reason)
      | .ok connector => { s with connector := connector }.releaseConnector
  | .beginFunctors => s.withConnector s.connector.beginFunctors
  | .execute errno => s.execute errno
  | .destroy unique =>
      -- no other thread is inside a member function of an object that is being destroyed
      if s.lifetime = .alive ∧ s.connector.starting = 0 ∧ s.connector.stopping = 0 then
        s.destroy unique
      else .error .disabled
  | .removeConnector =>
      if s.lifetime = .orphaned true ∧ s.connector.stage = .handling then
        { s with lifetime := .orphaned false }.releaseConnector
      else .error .disabled

end TcpClient
end Muduo
