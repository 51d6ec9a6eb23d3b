import Mathlib.Logic.Function.Basic
import Muduo.Execution
import Muduo.ProtobufCodecLite

/-! `muduo::net::RpcChannel`. A channel calls methods of the peer and serves calls of the peer. A call is
three steps of its thread: it takes the next id, it enters itself into `outstandings_` under the mutex,
and it sends the request. The loop thread of the channel decodes one message after the other and passes
it to `onRpcMessage`. Two channels are connected by a stream in each direction. -/

namespace Muduo

inductive MessageType where
  | REQUEST
  | RESPONSE
  | ERROR
  deriving DecidableEq, Repr

inductive RpcErrorCode where
  | NO_ERROR
  | WRONG_PROTO
  | NO_SERVICE
  | NO_METHOD
  | INVALID_REQUEST
  | INVALID_RESPONSE
  | TIMEOUT
  deriving DecidableEq, Repr

structure RpcMessage where
  type : MessageType
  id : Nat
  service : Option Bytes := none
  method : Option Bytes := none
  request : Option Bytes := none
  response : Option Bytes := none
  error : Option RpcErrorCode := none
  deriving DecidableEq, Repr

/-- How the response objects are serialized and parsed. -/
structure ResponseFormat (Resp : Type) where
  serializeAsString : Resp → Bytes
  parseFromString : Bytes → Option Resp

/-- Responses that are their own serialization. -/
def plainFormat : ResponseFormat Bytes := ⟨id, some⟩

/-- What has become of a response object. -/
inductive Content (Resp : Type) where
  | unmodified
  | parsed (response : Resp)
  /-- `ParseFromString` has failed half way. -/
  | garbled
  deriving DecidableEq, Repr

/-- Why a step is not taken: nothing is at this point of the program, or an assertion fails. -/
inductive RpcStop where
  | disabled
  | assertion
  deriving DecidableEq, Repr

variable {Req Resp L : Type}

/-! ## Calls -/

/-- The arguments of `CallMethod`: the names, the serialized request, and whether the pointers to the
response and to the closure are not null. -/
structure CallArguments where
  service : Bytes
  method : Bytes
  request : Bytes
  response : Bool := true
  done : Bool := true
  deriving DecidableEq, Repr

/-- How far a call of `CallMethod` has come. -/
inductive CallPhase where
  | numbered
  | registered
  | sent
  deriving DecidableEq, Repr

structure RpcCall where
  id : Nat
  arguments : CallArguments
  phase : CallPhase
  deriving DecidableEq, Repr

/-- An entry of `outstandings_`. A response object and a closure are named by the call they came with;
a null pointer is `none`. -/
structure OutstandingCall where
  response : Option Nat
  done : Option Nat
  deriving DecidableEq, Repr

/-- The request of a call. -/
def RpcCall.message (call : RpcCall) : RpcMessage where
  type := .REQUEST
  id := call.id
  service := some call.arguments.service
  method := some call.arguments.method
  request := some call.arguments.request

/-- The entry that call `k` makes for itself. -/
def RpcCall.out (call : RpcCall) (k : Nat) : OutstandingCall where
  response := bif call.arguments.response then some k else none
  done := bif call.arguments.done then some k else none

/-- What a channel has for its own calls. The calls are named by numbers of the callers' choice. -/
structure Caller (Resp : Type) where
  id : Nat := 0
  outstandings : Nat → Option OutstandingCall := fun _ => none
  calls : Nat → Option RpcCall := fun _ => none
  /-- The response object of each call. -/
  content : Nat → Content Resp := fun _ => .unmodified
  /-- What the response object held whenever the closure of the call was run. -/
  runs : Nat → List (Content Resp) := fun _ => []
  /-- How often the response object of each call has been deleted. -/
  deleted : Nat → Nat := fun _ => 0

namespace Caller

/-- `CallMethod` until it has its id. -/
def number (c : Caller Resp) (k : Nat) (arguments : CallArguments) : Option (Caller Resp) :=
  match c.calls k with
  | none =>
      -- int64_t id = id_.incrementAndGet()
      some { c with
        id := c.id + 1
        calls := Function.update c.calls k (some ⟨c.id + 1, arguments, .numbered⟩) }
  | some _ => none

/-- `outstandings_[id] = out`. -/
def register (c : Caller Resp) (k : Nat) : Option (Caller Resp) :=
  match c.calls k with
  | some ⟨id, arguments, .numbered⟩ =>
      let call : RpcCall := ⟨id, arguments, .registered⟩
      some { c with
        outstandings := Function.update c.outstandings id (some (call.out k))
        calls := Function.update c.calls k (some call) }
  | _ => none

/-- `codec_.send(conn_, message)` in `CallMethod`. -/
def send (c : Caller Resp) (k : Nat) : Option (Caller Resp × RpcMessage) :=
  match c.calls k with
  | some ⟨id, arguments, .registered⟩ =>
      let call : RpcCall := ⟨id, arguments, .sent⟩
      some ({ c with calls := Function.update c.calls k (some call) }, call.message)
  | _ => none

/-- The critical section of `onRpcMessage`: the entry is looked up and erased. -/
def find (c : Caller Resp) (id : Nat) : Caller Resp × OutstandingCall :=
  ({ c with outstandings := Function.update c.outstandings id none },
    (c.outstandings id).getD ⟨none, none⟩)

/-- `out.response->ParseFromString(message.response())`, if the message has one. -/
def fill (format : ResponseFormat Resp) (content : Content Resp) (message : RpcMessage) :
    Content Resp :=
  match message.response with
  | some bytes =>
      match format.parseFromString bytes with
      | some response => .parsed response
      | none => .garbled
  | none => content

/-- What `onRpcMessage` does with the entry: the response object is filled, the closure is run, and the
response object is deleted. -/
def finish (format : ResponseFormat Resp) (c : Caller Resp) (out : OutstandingCall)
    (message : RpcMessage) : Caller Resp :=
  match out.response with
  | none => c
  | some k =>
      let content := fill format (c.content k) message
      { c with
        content := Function.update c.content k content
        runs :=
          match out.done with
          | some j => Function.update c.runs j (c.runs j ++ [content])
          | none => c.runs
        deleted := Function.update c.deleted k (c.deleted k + 1) }

theorem finish_calls (format : ResponseFormat Resp) (c : Caller Resp) (out : OutstandingCall)
    (message : RpcMessage) : (c.finish format out message).calls = c.calls := by
  rw [finish]
  cases out.response <;> rfl

theorem finish_id (format : ResponseFormat Resp) (c : Caller Resp) (out : OutstandingCall)
    (message : RpcMessage) : (c.finish format out message).id = c.id := by
  rw [finish]
  cases out.response <;> rfl

theorem finish_outstandings (format : ResponseFormat Resp) (c : Caller Resp) (out : OutstandingCall)
    (message : RpcMessage) : (c.finish format out message).outstandings = c.outstandings := by
  rw [finish]
  cases out.response <;> rfl

/-- Only the objects of the call whose entry it is are touched. -/
theorem finish_other (format : ResponseFormat Resp) (c : Caller Resp) (call : RpcCall)
    (message : RpcMessage) {k l : Nat} (hl : l ≠ k) :
    (c.finish format (call.out k) message).content l = c.content l ∧
      (c.finish format (call.out k) message).runs l = c.runs l := by
  simp only [finish, RpcCall.out]
  cases call.arguments.response with
  | false => exact ⟨rfl, rfl⟩
  | true => cases call.arguments.done <;> simp [Function.update_of_ne hl]

/-- The closure of the call is run once, or not at all when one of its pointers is null. -/
theorem finish_runs (format : ResponseFormat Resp) (c : Caller Resp) (call : RpcCall)
    (message : RpcMessage) (k : Nat) :
    (c.finish format (call.out k) message).runs k =
      bif call.arguments.response && call.arguments.done
        then c.runs k ++ [fill format (c.content k) message] else c.runs k := by
  simp only [finish, RpcCall.out]
  cases call.arguments.response with
  | false => rfl
  | true => cases call.arguments.done <;> simp

end Caller

/-! ## Services -/

/-- `ParseFromString` of the request prototype of a method. -/
structure Method (Req : Type) where
  parseRequest : Bytes → Option Req

structure Service (Req : Type) where
  findMethodByName : Bytes → Option (Method Req)

/-- An implementation of a method has been called for the request message. It keeps the response object
and the closure until it has produced the response. -/
structure Invocation (Req Resp : Type) where
  message : RpcMessage
  request : Req
  produced : Option Resp := none

/-- What a channel has for the calls of its peer. -/
structure Callee (Req Resp : Type) where
  /-- `services_`, which may be null. -/
  services : Option (Bytes → Option (Service Req))
  invocations : Nat → Option (Invocation Req Resp) := fun _ => none
  /-- The requests that were handled, and the responses that were sent. -/
  handled : List RpcMessage := []
  emitted : List RpcMessage := []

namespace Callee

/-- The lookups of `onRpcMessage` for a request: the request object, or the error. -/
def resolve (services : Option (Bytes → Option (Service Req))) (message : RpcMessage) :
    Except RpcErrorCode Req :=
  match services with
  | none => .error .NO_SERVICE
  | some services =>
      match services (message.service.getD []) with
      | none => .error .NO_SERVICE
      | some service =>
          match service.findMethodByName (message.method.getD []) with
          | none => .error .NO_METHOD
          | some method =>
              match method.parseRequest (message.request.getD []) with
              | none => .error .INVALID_REQUEST
              | some request => .ok request

/-- The method that is found under the names of a call makes the request of its bytes. -/
def Parses (services : Option (Bytes → Option (Service Req))) (arguments : CallArguments) (request : Req) :
    Prop :=
  ∃ table service method, services = some table ∧ table arguments.service = some service ∧
    service.findMethodByName arguments.method = some method ∧
    method.parseRequest arguments.request = some request

theorem parses_of_resolve {services : Option (Bytes → Option (Service Req))} {call : RpcCall} {request : Req}
    (hresolve : resolve services call.message = .ok request) : Parses services call.arguments request := by
  cases services with
  | none => cases hresolve
  | some table =>
      simp only [resolve] at hresolve
      split at hresolve
      · cases hresolve
      · rename_i service hservice
        split at hresolve
        · cases hresolve
        · rename_i method hmethod
          split at hresolve
          · cases hresolve
          · rename_i parsed hparsed
            cases hresolve
            exact ⟨table, service, method, rfl, hservice, hmethod, hparsed⟩

/-- The reply to a request that is refused. -/
def refusal (id : Nat) (error : RpcErrorCode) : RpcMessage where
  type := .RESPONSE
  id := id
  error := some error

/-- The reply of `doneCallback`. -/
def reply (format : ResponseFormat Resp) (id : Nat) (response : Resp) : RpcMessage where
  type := .RESPONSE
  id := id
  response := some (format.serializeAsString response)

/-- `onRpcMessage` for a request: the method is called as invocation `j`, or an error is sent. -/
def dispatch (c : Callee Req Resp) (j : Nat) (message : RpcMessage) :
    Option (Callee Req Resp × Option RpcMessage) :=
  match resolve c.services message, c.invocations j with
  | .ok request, none =>
      some ({ c with
        invocations := Function.update c.invocations j (some { message, request })
        handled := c.handled ++ [message] }, none)
  | .ok _, some _ => none
  | .error error, _ =>
      some ({ c with
        handled := c.handled ++ [message]
        emitted := c.emitted ++ [refusal message.id error] }, some (refusal message.id error))

/-- Invocation `j` has produced its response and runs its closure, `doneCallback`. -/
def complete (format : ResponseFormat Resp) (c : Callee Req Resp) (j : Nat) (response : Resp) :
    Option (Callee Req Resp × RpcMessage) :=
  match c.invocations j with
  | some ⟨message, request, none⟩ =>
      some ({ c with
        invocations := Function.update c.invocations j (some ⟨message, request, some response⟩)
        emitted := c.emitted ++ [reply format message.id response] },
        reply format message.id response)
  | _ => none

end Callee

/-! ## Channels -/

/-- What the loop thread of a channel is doing. -/
inductive IoPhase where
  | waiting
  /-- In the loop of the codec. -/
  | parsing
  /-- At the beginning of `onRpcMessage`. -/
  | handling (message : RpcMessage)
  /-- Behind the critical section of `onRpcMessage`. -/
  | found (out : OutstandingCall) (message : RpcMessage)
  deriving DecidableEq, Repr

structure RpcChannel (Req Resp : Type) where
  caller : Caller Resp := {}
  callee : Callee Req Resp
  io : IoPhase := .waiting

namespace RpcChannel

inductive Action (Resp : Type) where
  | number (k : Nat) (arguments : CallArguments)
  | register (k : Nat)
  | send (k : Nat)
  | find
  | finish
  | dispatch (j : Nat)
  | ignore
  | complete (j : Nat) (response : Resp)
  deriving DecidableEq, Repr

/-- A step of a channel and the message it sends. -/
def act (format : ResponseFormat Resp) (s : RpcChannel Req Resp) :
    Action Resp → Except RpcStop (RpcChannel Req Resp × Option RpcMessage)
  | .number k arguments =>
      match s.caller.number k arguments with
      | some caller => .ok ({ s with caller := caller }, none)
      | none => .error .disabled
  | .register k =>
      match s.caller.register k with
      | some caller => .ok ({ s with caller := caller }, none)
      | none => .error .disabled
  | .send k =>
      match s.caller.send k with
      | some (caller, message) => .ok ({ s with caller := caller }, some message)
      | none => .error .disabled
  | .find =>
      match s.io with
      | .handling message =>
          match message.type with
          | .RESPONSE =>
              -- assert(message.has_response() || message.has_error())
              bif message.response.isSome || message.error.isSome then
                let found := s.caller.find message.id
                .ok ({ s with caller := found.1, io := .found found.2 message }, none)
              else .error .assertion
          | _ => .error .disabled
      | _ => .error .disabled
  | .finish =>
      match s.io with
      | .found out message =>
          .ok ({ s with caller := s.caller.finish format out message, io := .parsing }, none)
      | _ => .error .disabled
  | .dispatch j =>
      match s.io with
      | .handling message =>
          match message.type, s.callee.dispatch j message with
          | .REQUEST, some (callee, reply) => .ok ({ s with callee := callee, io := .parsing }, reply)
          | _, _ => .error .disabled
      | _ => .error .disabled
  | .ignore =>
      match s.io with
      | .handling message =>
          match message.type with
          | .ERROR => .ok ({ s with io := .parsing }, none)
          | _ => .error .disabled
      | _ => .error .disabled
  | .complete j response =>
      match s.callee.complete format j response with
      | some (callee, reply) => .ok ({ s with callee := callee }, some reply)
      | none => .error .disabled

/-- What a step of a channel can do, and the message it sends. -/
inductive Acted (format : ResponseFormat Resp) (s : RpcChannel Req Resp) :
    Action Resp → RpcChannel Req Resp → Option RpcMessage → Prop where
  | number {k : Nat} {arguments : CallArguments} {caller : Caller Resp}
      (hcaller : s.caller.number k arguments = some caller) :
      Acted format s (.number k arguments) { s with caller := caller } none
  | register {k : Nat} {caller : Caller Resp} (hcaller : s.caller.register k = some caller) :
      Acted format s (.register k) { s with caller := caller } none
  | send {k : Nat} {caller : Caller Resp} {message : RpcMessage}
      (hcaller : s.caller.send k = some (caller, message)) :
      Acted format s (.send k) { s with caller := caller } (some message)
  | find {message : RpcMessage} (hio : s.io = .handling message) (htype : message.type = .RESPONSE) :
      Acted format s .find
        { s with
          caller := (s.caller.find message.id).1
          io := .found (s.caller.find message.id).2 message } none
  | finish {out : OutstandingCall} {message : RpcMessage} (hio : s.io = .found out message) :
      Acted format s .finish
        { s with caller := s.caller.finish format out message, io := .parsing } none
  | dispatch {j : Nat} {message : RpcMessage} {callee : Callee Req Resp} {reply : Option RpcMessage}
      (hio : s.io = .handling message) (htype : message.type = .REQUEST)
      (hcallee : s.callee.dispatch j message = some (callee, reply)) :
      Acted format s (.dispatch j) { s with callee := callee, io := .parsing } reply
  | ignore {message : RpcMessage} (hio : s.io = .handling message) (htype : message.type = .ERROR) :
      Acted format s .ignore { s with io := .parsing } none
  | complete {j : Nat} {response : Resp} {callee : Callee Req Resp} {reply : RpcMessage}
      (hcallee : s.callee.complete format j response = some (callee, reply)) :
      Acted format s (.complete j response) { s with callee := callee } (some reply)

theorem acted {format : ResponseFormat Resp} {s next : RpcChannel Req Resp}
    {action : Action Resp} {message : Option RpcMessage}
    (hact : s.act format action = .ok (next, message)) : Acted format s action next message := by
  cases action with
  | number k arguments =>
      simp only [act] at hact
      split at hact
      · cases hact
        exact .number ‹_›
      · cases hact
  | register k =>
      simp only [act] at hact
      split at hact
      · cases hact
        exact .register ‹_›
      · cases hact
  | send k =>
      simp only [act] at hact
      split at hact
      · cases hact
        exact .send ‹_›
      · cases hact
  | find =>
      simp only [act] at hact
      split at hact
      · rename_i received hio
        split at hact
        · rename_i htype
          cases hassert : received.response.isSome || received.error.isSome with
          | true =>
              rw [hassert] at hact
              cases hact
              exact .find hio htype
          | false => rw [hassert] at hact; cases hact
        · cases hact
      · cases hact
  | finish =>
      simp only [act] at hact
      split at hact
      · cases hact
        exact .finish ‹_›
      · cases hact
  | dispatch j =>
      simp only [act] at hact
      split at hact
      · rename_i received hio
        split at hact
        · rename_i callee reply htype hcallee
          cases hact
          exact .dispatch hio htype hcallee
        · cases hact
      · cases hact
  | ignore =>
      simp only [act] at hact
      split at hact
      · rename_i received hio
        split at hact
        · cases hact
          exact .ignore hio ‹_›
        · cases hact
      · cases hact
  | complete j response =>
      simp only [act] at hact
      split at hact
      · cases hact
        exact .complete ‹_›
      · cases hact

/-- The one assertion that depends on what the peer has sent. -/
theorem act_assertion {format : ResponseFormat Resp} {s : RpcChannel Req Resp} {action : Action Resp} :
    s.act format action = .error .assertion ↔
      action = .find ∧ ∃ message, s.io = .handling message ∧ message.type = .RESPONSE ∧
        message.response = none ∧ message.error = none := by
  constructor
  · intro hact
    cases action with
    | find =>
        simp only [act] at hact
        split at hact
        · rename_i message hio
          split at hact
          · rename_i htype
            cases hassert : message.response.isSome || message.error.isSome with
            | true => rw [hassert] at hact; cases hact
            | false =>
                rw [Bool.or_eq_false_iff, Option.isSome_eq_false_iff, Option.isSome_eq_false_iff,
                  Option.isNone_iff_eq_none, Option.isNone_iff_eq_none] at hassert
                exact ⟨rfl, message, hio, htype, hassert⟩
          · cases hact
        · cases hact
    | number k arguments | register k | send k | finish | complete j response =>
        simp only [act] at hact; split at hact <;> cases hact
    | dispatch j =>
        simp only [act] at hact
        split at hact
        · split at hact <;> cases hact
        · cases hact
    | ignore =>
        simp only [act] at hact
        split at hact
        · split at hact <;> cases hact
        · cases hact
  · rintro ⟨rfl, message, hio, htype, hresponse, herror⟩
    simp [act, hio, htype, hresponse, herror]

end RpcChannel

/-! ## Two connected channels -/

/-- What carries messages from one channel to the other. -/
structure Transport (L : Type) where
  send : L → RpcMessage → Option L
  /-- Bytes arrive at the receiver. -/
  arrive : L → Nat → Option L
  /-- The receiver finds a complete message, and what is left behind it. -/
  take : L → Option (RpcMessage × L)
  /-- The receiver finds no complete message. -/
  leave : L → Bool

/-- A channel with the stream that leads to it. -/
structure Endpoint (L Req Resp : Type) where
  channel : RpcChannel Req Resp
  inbound : L

namespace Endpoint

inductive Event (Resp : Type) where
  | channel (action : RpcChannel.Action Resp)
  | arrive (count : Nat)
  | take
  | leave
  deriving DecidableEq, Repr

def post (transport : Transport L) (inbound : L) : Option RpcMessage → Option L
  | some message => transport.send inbound message
  | none => some inbound

/-- A step of an endpoint, which may send to its peer. The codec retrieves a frame behind the callback;
the buffer belongs to the loop thread, so that the frame can be taken off at once. -/
def act (transport : Transport L) (format : ResponseFormat Resp) (own peer : Endpoint L Req Resp) :
    Event Resp → Except RpcStop (Endpoint L Req Resp × Endpoint L Req Resp)
  | .channel action =>
      match own.channel.act format action with
      | .ok (channel, message) =>
          match post transport peer.inbound message with
          | some inbound => .ok (⟨channel, own.inbound⟩, ⟨peer.channel, inbound⟩)
          | none => .error .disabled
      | .error reason => .error reason
  | .arrive count =>
      match own.channel.io, transport.arrive own.inbound count with
      | .waiting, some inbound => .ok (⟨{ own.channel with io := .parsing }, inbound⟩, peer)
      | _, _ => .error .disabled
  | .take =>
      match own.channel.io, transport.take own.inbound with
      | .parsing, some (message, inbound) =>
          .ok (⟨{ own.channel with io := .handling message }, inbound⟩, peer)
      | _, _ => .error .disabled
  | .leave =>
      match own.channel.io, transport.leave own.inbound with
      | .parsing, true => .ok (⟨{ own.channel with io := .waiting }, own.inbound⟩, peer)
      | _, _ => .error .disabled

end Endpoint

structure RpcPair (L Req Resp : Type) where
  client : Endpoint L Req Resp
  server : Endpoint L Req Resp

namespace RpcPair

inductive Label (Resp : Type) where
  | client (event : Endpoint.Event Resp)
  | server (event : Endpoint.Event Resp)
  deriving DecidableEq, Repr

def step (transport : Transport L) (format : ResponseFormat Resp) (s : RpcPair L Req Resp) :
    Label Resp → Except RpcStop (RpcPair L Req Resp)
  | .client event =>
      match s.client.act transport format s.server event with
      | .ok (client, server) => .ok ⟨client, server⟩
      | .error reason => .error reason
  | .server event =>
      match s.server.act transport format s.client event with
      | .ok (server, client) => .ok ⟨client, server⟩
      | .error reason => .error reason

/-- Two channels over fresh streams, with the services of either side. -/
def new (empty : L) (clientServices serverServices : Option (Bytes → Option (Service Req))) :
    RpcPair L Req Resp where
  client := { channel := { callee := { services := clientServices } }, inbound := empty }
  server := { channel := { callee := { services := serverServices } }, inbound := empty }

end RpcPair
end Muduo
