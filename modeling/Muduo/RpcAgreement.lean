import Muduo.ProtobufCodecStreams
import Muduo.RpcDialogueRuns

/-! Two channels connected by byte streams. The streams carry the frames of the codec, in pieces of any
size, and behave as queues of messages; on queues of messages the calls of either channel are a dialogue
with the services of the other. What holds in every dialogue holds for the channels. -/

namespace Muduo

open Execution Framing

variable {Req Resp : Type}

/-! ## Steps of a channel -/

theorem Caller.send_type {c next : Caller Resp} {k : Nat} {message : RpcMessage}
    (hsend : c.send k = some (next, message)) : message.type = .REQUEST := by
  rw [send] at hsend
  split at hsend
  · cases hsend
    rfl
  · cases hsend

theorem Callee.dispatch_type {e next : Callee Req Resp} {j : Nat} {request reply : RpcMessage}
    (hdispatch : e.dispatch j request = some (next, some reply)) : reply.type = .RESPONSE := by
  rw [dispatch] at hdispatch
  split at hdispatch
  · cases hdispatch
  · cases hdispatch
  · cases hdispatch
    rfl

theorem Callee.complete_type {format : ResponseFormat Resp} {e next : Callee Req Resp} {j : Nat}
    {response : Resp} {reply : RpcMessage}
    (hcomplete : e.complete format j response = some (next, reply)) : reply.type = .RESPONSE := by
  rw [complete] at hcomplete
  split at hcomplete
  · cases hcomplete
    rfl
  · cases hcomplete

/-! ## Queues of messages -/

def queueTransport : Transport (List RpcMessage) where
  send queue message := some (queue ++ [message])
  arrive queue _ := some queue
  take
    | message :: queue => some (message, queue)
    | [] => none
  leave _ := true

namespace IoPhase

def request? : IoPhase → Option RpcMessage
  | .handling message => if message.type = .REQUEST then some message else none
  | _ => none

def answering : IoPhase → Answering
  | .handling message => if message.type = .RESPONSE then .delivered message else .idle
  | .found out message => .found out message
  | _ => .idle

end IoPhase

namespace Endpoint

/-- The calls of the one endpoint and the services of the other. -/
def dialogue (caller callee : Endpoint (List RpcMessage) Req Resp) : Dialogue Req Resp where
  caller := caller.channel.caller
  callee := callee.channel.callee
  requests := callee.inbound.filter fun message => message.type = .REQUEST
  serving := callee.channel.io.request?
  replies := caller.inbound.filter fun message => message.type = .RESPONSE
  answering := caller.channel.io.answering

/-- What a step of an endpoint can do on queues of messages. -/
inductive Acted (format : ResponseFormat Resp) (own peer : Endpoint (List RpcMessage) Req Resp) :
    Event Resp → Endpoint (List RpcMessage) Req Resp → Endpoint (List RpcMessage) Req Resp → Prop where
  | channel {action : RpcChannel.Action Resp} {channel : RpcChannel Req Resp}
      {message : Option RpcMessage} (hacted : own.channel.Acted format action channel message) :
      Acted format own peer (.channel action) ⟨channel, own.inbound⟩
        ⟨peer.channel, peer.inbound ++ message.toList⟩
  | arrive {count : Nat} (hio : own.channel.io = .waiting) :
      Acted format own peer (.arrive count) ⟨{ own.channel with io := .parsing }, own.inbound⟩ peer
  | take {message : RpcMessage} {inbound : List RpcMessage} (hio : own.channel.io = .parsing)
      (hinbound : own.inbound = message :: inbound) :
      Acted format own peer .take ⟨{ own.channel with io := .handling message }, inbound⟩ peer
  | leave (hio : own.channel.io = .parsing) :
      Acted format own peer .leave ⟨{ own.channel with io := .waiting }, own.inbound⟩ peer

theorem acted {format : ResponseFormat Resp} {own peer own' peer' : Endpoint (List RpcMessage) Req Resp}
    {event : Event Resp} (hact : own.act queueTransport format peer event = .ok (own', peer')) :
    Acted format own peer event own' peer' := by
  cases event with
  | channel action =>
      simp only [act] at hact
      split at hact
      · rename_i channel message hchannel
        cases message with
        | none =>
            cases hact
            have hacted : Acted format own peer (.channel action) ⟨channel, own.inbound⟩
                ⟨peer.channel, peer.inbound ++ Option.toList none⟩ :=
              .channel (RpcChannel.acted hchannel)
            rwa [Option.toList_none, List.append_nil] at hacted
        | some message =>
            cases hact
            exact .channel (RpcChannel.acted hchannel)
      · cases hact
  | arrive count =>
      simp only [act] at hact
      split at hact
      · rename_i hio harrive
        cases hact
        cases harrive
        exact .arrive hio
      · cases hact
  | take =>
      simp only [act] at hact
      split at hact
      · rename_i message inbound hio htake
        cases hact
        cases hinbound : own.inbound with
        | nil => rw [hinbound] at htake; cases htake
        | cons first rest =>
            rw [hinbound] at htake
            cases htake
            exact .take hio hinbound
      · cases hact
  | leave =>
      simp only [act] at hact
      split at hact
      · cases hact
        exact .leave ‹_›
      · cases hact

theorem reachable_step {format : ResponseFormat Resp} {d next : Dialogue Req Resp}
    (label : Dialogue.Label Resp) (hstep : Dialogue.step format d label = .ok next) :
    Reachable (Dialogue.step format) d next :=
  (Reachable.refl d).of_step hstep

theorem reachable_of_eq {format : ResponseFormat Resp} {d next : Dialogue Req Resp}
    (heq : d = next) : Reachable (Dialogue.step format) d next :=
  heq ▸ Reachable.refl d

/-- A step of an endpoint in the dialogue about its own calls. -/
theorem dialogue_caller {format : ResponseFormat Resp}
    {own peer own' peer' : Endpoint (List RpcMessage) Req Resp} {event : Event Resp}
    (hacted : Acted format own peer event own' peer') :
    Reachable (Dialogue.step format) (dialogue own peer) (dialogue own' peer') := by
  cases hacted with
  | @channel action channel sent hacted =>
      cases hacted with
      | @number k arguments caller hcaller =>
          apply reachable_step (.number k arguments)
          simp only [Dialogue.step, dialogue, hcaller, Option.toList_none, List.append_nil]
      | @register k caller hcaller =>
          apply reachable_step (.register k)
          simp only [Dialogue.step, dialogue, hcaller, Option.toList_none, List.append_nil]
      | @send k caller message hcaller =>
          apply reachable_step (.send k)
          simp [Dialogue.step, dialogue, hcaller, Caller.send_type hcaller]
      | find hio htype =>
          apply reachable_step .find
          simp [Dialogue.step, dialogue, hio, IoPhase.answering, htype]
      | finish hio =>
          apply reachable_step .finish
          simp [Dialogue.step, dialogue, hio, IoPhase.answering]
      | @dispatch j message callee _ hio htype hcallee =>
          -- a refusal is no request
          apply reachable_of_eq
          cases sent with
          | none => simp [dialogue, hio, IoPhase.answering, htype]
          | some reply => simp [dialogue, hio, IoPhase.answering, htype, Callee.dispatch_type hcallee]
      | ignore hio htype =>
          apply reachable_of_eq
          simp [dialogue, hio, IoPhase.answering, htype]
      | complete hcallee =>
          apply reachable_of_eq
          simp [dialogue, Callee.complete_type hcallee]
  | arrive hio | leave hio =>
      apply reachable_of_eq
      simp [dialogue, hio, IoPhase.answering]
  | @take message inbound hio hinbound =>
      by_cases htype : message.type = .RESPONSE
      · apply reachable_step .deliver
        simp [Dialogue.step, dialogue, hio, hinbound, IoPhase.answering, htype]
      · apply reachable_of_eq
        simp [dialogue, hio, hinbound, IoPhase.answering, htype]

/-- A step of an endpoint in the dialogue about the calls of its peer. -/
theorem dialogue_callee {format : ResponseFormat Resp}
    {own peer own' peer' : Endpoint (List RpcMessage) Req Resp} {event : Event Resp}
    (hacted : Acted format own peer event own' peer') :
    Reachable (Dialogue.step format) (dialogue peer own) (dialogue peer' own') := by
  cases hacted with
  | @channel action channel sent hacted =>
      cases hacted with
      | number hcaller | register hcaller =>
          apply reachable_of_eq
          simp [dialogue]
      | send hcaller =>
          -- a request is no reply
          apply reachable_of_eq
          simp [dialogue, Caller.send_type hcaller]
      | find hio htype =>
          apply reachable_of_eq
          simp [dialogue, hio, IoPhase.request?, htype]
      | finish hio =>
          apply reachable_of_eq
          simp [dialogue, hio, IoPhase.request?]
      | @dispatch j message callee _ hio htype hcallee =>
          apply reachable_step (.dispatch j)
          cases sent with
          | none => simp [Dialogue.step, dialogue, hio, IoPhase.request?, htype, hcallee]
          | some reply =>
              simp [Dialogue.step, dialogue, hio, IoPhase.request?, htype, hcallee,
                Callee.dispatch_type hcallee]
      | ignore hio htype =>
          apply reachable_of_eq
          simp [dialogue, hio, IoPhase.request?, htype]
      | @complete j response callee reply hcallee =>
          apply reachable_step (.complete j response)
          simp [Dialogue.step, dialogue, hcallee, Callee.complete_type hcallee]
  | arrive hio | leave hio =>
      apply reachable_of_eq
      simp [dialogue, hio, IoPhase.request?]
  | @take message inbound hio hinbound =>
      by_cases htype : message.type = .REQUEST
      · apply reachable_step .serve
        simp [Dialogue.step, dialogue, hio, hinbound, IoPhase.request?, htype]
      · apply reachable_of_eq
        simp [dialogue, hio, hinbound, IoPhase.request?, htype]

end Endpoint

/-! ## Byte streams -/

def rpctag : Bytes := [82, 80, 67, 48]

/-- The bytes that were sent and have not arrived, and the buffer of the receiver. -/
structure ByteStream where
  wire : Bytes
  input : Buffer

def ByteStream.new : ByteStream := ⟨[], Buffer.new Buffer.kInitialSize⟩

open ProtobufCodecLite in
/-- The codec on a byte stream. `ByteSize` is an `int`: there are no messages of 2 GiB or more. -/
def byteTransport (c : ProtobufCodecLite RpcMessage) : Transport ByteStream where
  send stream message :=
    if c.byteSize message < 2 ^ 31 then
      (c.fillEmptyBuffer (Buffer.new Buffer.kInitialSize) message).map fun buf =>
        { stream with wire := stream.wire ++ buf.readable }
    else none
  arrive stream count :=
    (stream.input.append (stream.wire.take count)).map fun input =>
      ⟨stream.wire.drop count, input⟩
  take stream :=
    match c.turn stream.input with
    | some (.frame (some message) length) =>
        (stream.input.retrieve length).map fun input => (message, { stream with input := input })
    | _ => none
  leave stream :=
    match c.turn stream.input with
    | some .more => true
    | some (.reject _) => true
    | _ => false

/-- The codec of the channels. -/
structure IsRpcCodec (c : ProtobufCodecLite RpcMessage) : Prop where
  tag_eq : c.tag = rpctag
  no_rawCb : c.rawCb = none
  faithful : c.Faithful

section Carries

open ProtobufCodecLite

/-- The frame of a message. -/
def rpcFrame (c : ProtobufCodecLite RpcMessage) (message : RpcMessage) : Bytes :=
  framed (c.body (c.serializeWithCachedSizesToArray message))

/-- The stream holds the frames of the messages in the queue: some bytes of them in the buffer of the
receiver, the others on their way. -/
def Carries (c : ProtobufCodecLite RpcMessage) (stream : ByteStream) (queue : List RpcMessage) : Prop :=
  stream.input.readable ++ stream.wire = (queue.map (rpcFrame c)).flatten ∧
    ∀ message ∈ queue, c.byteSize message < 2 ^ 31

variable {c : ProtobufCodecLite RpcMessage} {stream next : ByteStream} {queue : List RpcMessage}

theorem carries_new (c : ProtobufCodecLite RpcMessage) : Carries c .new [] :=
  ⟨by simp [ByteStream.new], by simp⟩

theorem carries_send (hcodec : IsRpcCodec c) (hcarries : Carries c stream queue) {message : RpcMessage}
    (hsend : (byteTransport c).send stream message = some next) :
    Carries c next (queue ++ [message]) := by
  simp only [byteTransport] at hsend
  split at hsend
  · rename_i hsize
    obtain ⟨full, hfull, hreadable⟩ := fillEmptyBuffer_spec hcodec.faithful message
      (Buffer.readable_new Buffer.kInitialSize) (Nat.le_refl _)
    rw [hfull, Option.map_some, Option.some.injEq] at hsend
    subst hsend
    refine ⟨?_, ?_⟩
    · simp only [hreadable, List.map_append, List.flatten_append, List.map_cons, List.map_nil,
        List.flatten_singleton, ← hcarries.1, List.append_assoc]
      rfl
    · intro other hmem
      rcases List.mem_append.mp hmem with hmem | hmem
      · exact hcarries.2 other hmem
      · rw [List.mem_singleton.mp hmem]
        exact hsize
  · cases hsend

theorem carries_arrive (hcarries : Carries c stream queue) {count : Nat}
    (harrive : (byteTransport c).arrive stream count = some next) : Carries c next queue := by
  obtain ⟨input, hinput, hcontent⟩ := stream.input.append_readable (stream.wire.take count)
  simp only [byteTransport, hinput, Option.map_some, Option.some.injEq] at harrive
  subst harrive
  refine ⟨?_, hcarries.2⟩
  rw [hcontent, List.append_assoc, List.take_append_drop]
  exact hcarries.1

/-- What is decoded from the frame of a message is the message, if anything is. -/
theorem examine_rpcFrame (hcodec : IsRpcCodec c) {message decoded : RpcMessage} {length : Nat}
    (hsize : c.byteSize message < 2 ^ 31) {later : Bytes}
    (hexamine : c.examine (rpcFrame c message ++ later) = .frame (some decoded) length) :
    decoded = message ∧ length = (rpcFrame c message).length := by
  have hlength := c.body_length (c.serializeWithCachedSizesToArray message)
  rw [hcodec.tag_eq, ← hcodec.faithful.byteSize_eq] at hlength
  have htag : rpctag.length = 4 := rfl
  have hsum : kChecksumLen = 4 := rfl
  have hmin : c.kMinMessageLen ≤ (c.body (c.serializeWithCachedSizesToArray message)).length := by
    rw [kMinMessageLen, hcodec.tag_eq]
    omega
  rw [rpcFrame] at hexamine
  by_cases hmax : (c.body (c.serializeWithCachedSizesToArray message)).length ≤ kMaxMessageLen
  · rw [examine_framed hcodec.no_rawCb hmin hmax, parse_body,
      hcodec.faithful.parse_serialize] at hexamine
    obtain ⟨hvalue, hcount⟩ := Outcome.frame.inj hexamine
    exact ⟨(Option.some.inj hvalue).symm, hcount.symm⟩
  · rw [examine_oversized hmin (by omega) (by omega)] at hexamine
    cases hexamine

/-- The message that is taken is the first of the queue. -/
theorem carries_take (hcodec : IsRpcCodec c) (hcarries : Carries c stream queue) {message : RpcMessage}
    (htake : (byteTransport c).take stream = some (message, next)) :
    ∃ rest, queue = message :: rest ∧ Carries c next rest := by
  simp only [byteTransport, turn_eq] at htake
  split at htake
  · rename_i decoded length hturn
    have hexamine := Option.some.inj hturn
    have hfits := (examine_frame hexamine).2.2.2
    rw [stream.input.readable_length] at hfits
    obtain ⟨input, hinput, hcontent⟩ := Buffer.retrieve_readable hfits
    rw [hinput, Option.map_some, Option.some.injEq, Prod.mk.injEq] at htake
    obtain ⟨rfl, rfl⟩ := htake
    -- the decision does not change with the bytes that have not arrived
    have hwhole := examine_append stream.wire (by rw [hexamine]; simp)
    rw [hcarries.1, hexamine] at hwhole
    cases queue with
    | nil =>
        have hnil : c.examine [] = .more := c.decoder.look_nil
        rw [List.map_nil, List.flatten_nil, hnil] at hwhole
        cases hwhole
    | cons first rest =>
        rw [List.map_cons, List.flatten_cons] at hwhole
        obtain ⟨rfl, hlength⟩ := examine_rpcFrame hcodec (hcarries.2 first (by simp)) hwhole
        refine ⟨rest, rfl, ?_, fun other hmem => hcarries.2 other (List.mem_cons_of_mem _ hmem)⟩
        calc input.readable ++ stream.wire
            = stream.input.readable.drop length ++ stream.wire := by rw [hcontent]
          _ = (stream.input.readable ++ stream.wire).drop length := by
              rw [List.drop_append_of_le_length (by rwa [stream.input.readable_length])]
          _ = (rpcFrame c decoded ++ (rest.map (rpcFrame c)).flatten).drop length := by
              rw [hcarries.1, List.map_cons, List.flatten_cons]
          _ = (rest.map (rpcFrame c)).flatten := List.drop_left' hlength.symm
  · cases htake

end Carries

/-! ## Agreement -/

namespace Endpoint

/-- The same channel, whose stream holds the messages of the queue. -/
def Matches (c : ProtobufCodecLite RpcMessage) (bytes : Endpoint ByteStream Req Resp)
    (messages : Endpoint (List RpcMessage) Req Resp) : Prop :=
  messages.channel = bytes.channel ∧ Carries c bytes.inbound messages.inbound

/-- The steps on byte streams are steps on queues. -/
theorem act_matches {c : ProtobufCodecLite RpcMessage} (hcodec : IsRpcCodec c)
    {format : ResponseFormat Resp} {own peer own' peer' : Endpoint ByteStream Req Resp}
    {twin twinPeer : Endpoint (List RpcMessage) Req Resp} {event : Event Resp}
    (hown : Matches c own twin) (hpeer : Matches c peer twinPeer)
    (hact : own.act (byteTransport c) format peer event = .ok (own', peer')) :
    ∃ twin' twinPeer', twin.act queueTransport format twinPeer event = .ok (twin', twinPeer') ∧
      Matches c own' twin' ∧ Matches c peer' twinPeer' := by
  obtain ⟨channel, queue⟩ := twin
  obtain ⟨peerChannel, peerQueue⟩ := twinPeer
  obtain ⟨rfl, hcarries⟩ := hown
  obtain ⟨rfl, hpeerCarries⟩ := hpeer
  cases event with
  | channel action =>
      simp only [act] at hact ⊢
      split at hact
      · rename_i channel message hchannel
        cases message with
        | none =>
            cases hact
            exact ⟨_, _, rfl, ⟨rfl, hcarries⟩, rfl, hpeerCarries⟩
        | some message =>
            simp only [post] at hact ⊢
            split at hact
            · rename_i inbound hsend
              cases hact
              exact ⟨_, _, rfl, ⟨rfl, hcarries⟩, rfl, carries_send hcodec hpeerCarries hsend⟩
            · cases hact
      · cases hact
  | arrive count =>
      simp only [act] at hact ⊢
      split at hact
      · rename_i inbound hio harrive
        cases hact
        rw [hio]
        exact ⟨_, _, rfl, ⟨rfl, carries_arrive hcarries harrive⟩, rfl, hpeerCarries⟩
      · cases hact
  | take =>
      simp only [act] at hact ⊢
      split at hact
      · rename_i message inbound hio htake
        cases hact
        obtain ⟨rest, hqueue, hrest⟩ := carries_take hcodec hcarries htake
        dsimp only at hqueue
        rw [hio, hqueue]
        exact ⟨_, _, rfl, ⟨rfl, hrest⟩, rfl, hpeerCarries⟩
      · cases hact
  | leave =>
      simp only [act] at hact ⊢
      split at hact
      · rename_i hio _
        cases hact
        rw [hio]
        exact ⟨_, _, rfl, ⟨rfl, hcarries⟩, rfl, hpeerCarries⟩
      · cases hact

end Endpoint

namespace RpcPair

def Matches (c : ProtobufCodecLite RpcMessage) (bytes : RpcPair ByteStream Req Resp)
    (messages : RpcPair (List RpcMessage) Req Resp) : Prop :=
  bytes.client.Matches c messages.client ∧ bytes.server.Matches c messages.server

theorem step_matches {c : ProtobufCodecLite RpcMessage} (hcodec : IsRpcCodec c)
    {format : ResponseFormat Resp} {s next : RpcPair ByteStream Req Resp}
    {twin : RpcPair (List RpcMessage) Req Resp} {label : Label Resp} (hmatches : Matches c s twin)
    (hstep : step (byteTransport c) format s label = .ok next) :
    ∃ twin', step queueTransport format twin label = .ok twin' ∧ Matches c next twin' := by
  obtain ⟨hclient, hserver⟩ := hmatches
  cases label with
  | client event =>
      simp only [step] at hstep ⊢
      split at hstep
      · rename_i client server hact
        cases hstep
        obtain ⟨client', server', htwin, hclient', hserver'⟩ :=
          Endpoint.act_matches hcodec hclient hserver hact
        exact ⟨⟨client', server'⟩, by rw [htwin], hclient', hserver'⟩
      · cases hstep
  | server event =>
      simp only [step] at hstep ⊢
      split at hstep
      · rename_i server client hact
        cases hstep
        obtain ⟨server', client', htwin, hserver', hclient'⟩ :=
          Endpoint.act_matches hcodec hserver hclient hact
        exact ⟨⟨client', server'⟩, by rw [htwin], hclient', hserver'⟩
      · cases hstep

/-- A step of the pair in the two dialogues. -/
theorem step_dialogues {format : ResponseFormat Resp} {s next : RpcPair (List RpcMessage) Req Resp}
    {label : Label Resp} (hstep : step queueTransport format s label = .ok next) :
    Reachable (Dialogue.step format) (s.client.dialogue s.server) (next.client.dialogue next.server) ∧
      Reachable (Dialogue.step format) (s.server.dialogue s.client)
        (next.server.dialogue next.client) := by
  cases label with
  | client event =>
      simp only [step] at hstep
      split at hstep
      · rename_i hact
        cases hstep
        have hacted := Endpoint.acted hact
        exact ⟨Endpoint.dialogue_caller hacted, Endpoint.dialogue_callee hacted⟩
      · cases hstep
  | server event =>
      simp only [step] at hstep
      split at hstep
      · rename_i hact
        cases hstep
        have hacted := Endpoint.acted hact
        exact ⟨Endpoint.dialogue_callee hacted, Endpoint.dialogue_caller hacted⟩
      · cases hstep

/-- In every run of two channels over byte streams, each closure is run at most once and with the answer
to its own call, and at most one response is sent for each request. -/
theorem rpc_agreement {c : ProtobufCodecLite RpcMessage} (hcodec : IsRpcCodec c)
    {format : ResponseFormat Resp}
    (hformat : ∀ response, format.parseFromString (format.serializeAsString response) = some response)
    (clientServices serverServices : Option (Bytes → Option (Service Req)))
    {labels : List (Label Resp)} {final : RpcPair ByteStream Req Resp}
    (hrun : run (step (byteTransport c) format) (new .new clientServices serverServices) labels =
      .ok final) :
    Dialogue.Agreement final.client.channel.caller final.server.channel.callee ∧
      Dialogue.Agreement final.server.channel.caller final.client.channel.callee := by
  have hstart : Matches c (new .new clientServices serverServices)
      (new [] clientServices serverServices : RpcPair (List RpcMessage) Req Resp) :=
    ⟨⟨rfl, carries_new c⟩, rfl, carries_new c⟩
  obtain ⟨twin, htwin, hclient, hserver⟩ := run_matched (Matches c) hstart hrun
    (fun _ _ _ _ hmatches hstep => step_matches hcodec hmatches hstep)
  have hcalls := run_simulates (fun s => s.client.dialogue s.server)
    (fun _ _ _ hstep => (step_dialogues hstep).1) htwin
  have hserves := run_simulates (fun s => s.server.dialogue s.client)
    (fun _ _ _ hstep => (step_dialogues hstep).2) htwin
  have hagreement := Dialogue.run_agreement hformat hcalls
  have hagreement' := Dialogue.run_agreement hformat hserves
  rw [← hclient.1, ← hserver.1]
  exact ⟨hagreement, hagreement'⟩

end RpcPair

/-! ## A codec -/

/-- Every byte stands behind a one, and a zero ends them. -/
def quote : Bytes → Bytes
  | [] => [0]
  | byte :: bytes => 1 :: byte :: quote bytes

def unquote : Bytes → Option (Bytes × Bytes)
  | [] => none
  | [mark] => if mark = 0 then some ([], []) else none
  | mark :: byte :: rest =>
      if mark = 0 then some ([], byte :: rest)
      else (unquote rest).map fun result => (byte :: result.1, result.2)

theorem unquote_quote (bytes later : Bytes) : unquote (quote bytes ++ later) = some (bytes, later) := by
  induction bytes with
  | nil => cases later <;> rfl
  | cons byte bytes ih =>
      rw [quote, List.cons_append, List.cons_append, unquote, if_neg (by decide)]
      simp only [ih, Option.map_some]

def unquoteAll : Nat → Bytes → Option (List Bytes)
  | 0, _ => some []
  | count + 1, bytes =>
      (unquote bytes).bind fun first => (unquoteAll count first.2).map fun rest => first.1 :: rest

theorem unquoteAll_quote (fields : List Bytes) :
    unquoteAll fields.length (fields.flatMap quote) = some fields := by
  induction fields with
  | nil => rfl
  | cons field fields ih =>
      rw [List.length_cons, unquoteAll, List.flatMap_cons, unquote_quote, Option.bind_some, ih]
      rfl

namespace RpcMessage

def optional : Option Bytes → Bytes
  | some bytes => 0 :: bytes
  | none => []

def optional? : Bytes → Option Bytes
  | _ :: bytes => some bytes
  | [] => none

@[simp] theorem optional?_optional (field : Option Bytes) : optional? (optional field) = field := by
  cases field <;> rfl

def errors : List RpcErrorCode :=
  [.NO_ERROR, .WRONG_PROTO, .NO_SERVICE, .NO_METHOD, .INVALID_REQUEST, .INVALID_RESPONSE, .TIMEOUT]

def types : List MessageType := [.REQUEST, .RESPONSE, .ERROR]

/-- The fields of a message, numbers in unary. -/
def fields (message : RpcMessage) : List Bytes :=
  [List.replicate (types.idxOf message.type) 0, List.replicate message.id 0,
    optional message.service, optional message.method, optional message.request,
    optional message.response,
    optional (message.error.map fun error => List.replicate (errors.idxOf error) 0)]

def ofFields : List Bytes → Option RpcMessage
  | [type, id, service, method, request, response, error] =>
      (types[type.length]?).map fun type =>
        { type := type
          id := id.length
          service := optional? service
          method := optional? method
          request := optional? request
          response := optional? response
          error := (optional? error).bind fun bytes => errors[bytes.length]? }
  | _ => none

theorem ofFields_fields (message : RpcMessage) : ofFields message.fields = some message := by
  obtain ⟨type, id, service, method, request, response, error⟩ := message
  have herror : (error.map fun error => List.replicate (errors.idxOf error) (0 : UInt8)).bind
      (fun bytes => errors[bytes.length]?) = error := by
    cases error with
    | none => rfl
    | some error => cases error <;> rfl
  cases type <;> simp [fields, ofFields, herror, types]

end RpcMessage

/-- A codec for the messages of the channels. -/
def quotedCodec : ProtobufCodecLite RpcMessage where
  tag := rpctag
  byteSize message := (message.fields.flatMap quote).length
  serializeWithCachedSizesToArray message := message.fields.flatMap quote
  parseFromArray bytes := (unquoteAll 7 bytes).bind RpcMessage.ofFields
  adler32 := ProtobufCodecLite.zlibAdler32

theorem isRpcCodec_quotedCodec : IsRpcCodec quotedCodec where
  tag_eq := rfl
  no_rawCb := rfl
  faithful := {
    byteSize_eq := fun _ => rfl
    parse_serialize := fun message => by
      have hall := unquoteAll_quote message.fields
      simp only [quotedCodec]
      rw [show message.fields.length = 7 from rfl] at hall
      rw [hall, Option.bind_some, RpcMessage.ofFields_fields] }

/-- One service with one method, which accepts all requests. -/
def oneService : Option (Bytes → Option (Service Bytes)) :=
  some fun service =>
    if service = [83] then
      some ⟨fun method => if method = [77] then some ⟨some⟩ else none⟩
    else none

/-- Two calls from two threads. The one with the later id sends first, and names a method that does not
exist. The requests arrive in two pieces. -/
def twoCalls : List (RpcPair.Label Bytes) :=
  [.client (.channel (.number 0 ⟨[83], [77], [5], true, true⟩)),
    .client (.channel (.number 1 ⟨[83], [78], [6], true, true⟩)),
    .client (.channel (.register 1)), .client (.channel (.send 1)),
    .client (.channel (.register 0)), .client (.channel (.send 0)),
    .server (.arrive 50), .server .take, .server (.channel (.dispatch 0)), .server .leave,
    .server (.arrive 1000), .server .take, .server (.channel (.dispatch 0)), .server .leave,
    .server (.channel (.complete 0 [9])),
    .client (.arrive 1000), .client .take, .client (.channel .find), .client (.channel .finish),
    .client .take, .client (.channel .find), .client (.channel .finish), .client .leave]

/-- Both closures are run: one with the response that was produced for the bytes of its call, one with nothing
in the response object. -/
theorem rpc_agreement_twoCalls :
    ∃ final, run (RpcPair.step (byteTransport quotedCodec) plainFormat)
        (RpcPair.new .new none oneService) twoCalls = .ok final ∧
      final.client.channel.caller.runs 0 = [.parsed [9]] ∧
      final.client.channel.caller.runs 1 = [.unmodified] ∧
      (final.server.channel.callee.invocations 0).map Invocation.request = some [5] ∧
      Dialogue.Agreement final.client.channel.caller final.server.channel.callee ∧
      Dialogue.Agreement final.server.channel.caller final.client.channel.callee := by
  obtain ⟨final, hrun, hcheck⟩ := exists_of_outcome
    (RpcPair.step (byteTransport quotedCodec) plainFormat) (RpcPair.new .new none oneService) twoCalls
    (fun s : RpcPair ByteStream Bytes Bytes =>
      decide (s.client.channel.caller.runs 0 = [.parsed [9]] ∧
        s.client.channel.caller.runs 1 = [.unmodified] ∧
        (s.server.channel.callee.invocations 0).map Invocation.request = some [5])) (by decide +kernel)
  obtain ⟨hfirst, hsecond, hrequest⟩ := of_decide_eq_true hcheck
  exact ⟨final, hrun, hfirst, hsecond, hrequest,
    RpcPair.rpc_agreement isRpcCodec_quotedCodec (fun _ => rfl) none oneService hrun⟩

end Muduo
