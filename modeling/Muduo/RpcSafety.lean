import Muduo.RpcAgreement
import Muduo.RpcOwnership

/-! What a peer can do to the RPC stack with bytes. Here every look at the receive buffer is a read at an
offset from `peek()`, and reading past the readable bytes is a fault, as is a failed assertion. The codec
never causes either. `onRpcMessage` asserts something of the message that nothing has checked. -/

namespace Muduo

open Execution Framing

/-- Why a step is not taken: nothing is at this point of the program, an assertion fails, or a read goes
past the readable bytes. -/
inductive Fault where
  | disabled
  | assertion
  | overrun
  deriving DecidableEq, Repr

/-- The `len` bytes from `peek() + offset` on. -/
def Buffer.peekAt (b : Buffer) (offset len : Int) : Except Fault Bytes :=
  if 0 ≤ offset ∧ 0 ≤ len ∧ offset + len ≤ b.readableBytes then
    .ok ((b.readable.drop offset.toNat).take len.toNat)
  else .error .overrun

theorem Buffer.peekAt_ok {b : Buffer} {offset len : Nat} (hfits : offset + len ≤ b.readableBytes) :
    b.peekAt offset len = .ok ((b.readable.drop offset).take len) := by
  rw [peekAt, if_pos ⟨Int.natCast_nonneg _, Int.natCast_nonneg _, by omega⟩]
  rfl

/-- A part of a part of the content is a part of the content. -/
theorem take_drop_within (content : Bytes) {start len offset count : Nat} (hfits : offset + count ≤ len) :
    (((content.drop start).take len).drop offset).take count =
      (content.drop (start + offset)).take count := by
  rw [List.drop_take, List.drop_drop, List.take_take, Nat.min_eq_left (by omega)]

namespace ProtobufCodecLite

variable {M : Type} (c : ProtobufCodecLite M)

/-! ## The codec, read by read -/

def asInt32At (buf : Buffer) (offset : Int) : Except Fault (BitVec 32) := do
  let be32 ← buf.peekAt offset 4
  return networkToHost32 be32

def validateChecksumAt (buf : Buffer) (offset len : Int) : Except Fault Bool := do
  let expectedCheckSum ← asInt32At buf (offset + len - kChecksumLen)
  let data ← buf.peekAt offset (len - kChecksumLen)
  return c.checksum data == expectedCheckSum

def parseAt (buf : Buffer) (offset len : Int) : Except Fault (Except ErrorCode M) := do
  let valid ← c.validateChecksumAt buf offset len
  if valid then
    let front ← buf.peekAt offset c.tag.length
    if front = c.tag then
      let data ← buf.peekAt (offset + c.tag.length) (len - kChecksumLen - c.tag.length)
      match c.parseFromBuffer data with
      | some message => return .ok message
      | none => return .error .kParseError
    else return .error .kUnknownMessageType
  else return .error .kCheckSumError

/-- Whether the raw message callback lets the frame be parsed. -/
def rawCbAt (buf : Buffer) (len : Int) : Except Fault Bool :=
  match c.rawCb with
  | some callback => do
      let frame ← buf.peekAt 0 (kHeaderLen + len)
      return callback frame
  | none => return true

def judgeAt (buf : Buffer) (len : Int) : Except Fault (Outcome (Option M) ErrorCode) :=
  if len > kMaxMessageLen ∨ len < c.kMinMessageLen then return .reject .kInvalidLength
  else if kHeaderLen + len ≤ buf.readableBytes then do
    let proceed ← c.rawCbAt buf len
    if proceed then
      let result ← c.parseAt buf kHeaderLen len
      return afterParse (kHeaderLen + len.toNat) result
    else return .frame none (kHeaderLen + len.toNat)
  else return .more

/-- The test of the loop in `onMessage` and its body. -/
def turnAt (buf : Buffer) : Except Fault (Outcome (Option M) ErrorCode) :=
  if c.kMinMessageLen + kHeaderLen ≤ buf.readableBytes then
    match buf.peekInt32 with
    | some len => c.judgeAt buf len.toInt
    | none => .error .assertion
  else return .more

variable {c} {buf : Buffer}

theorem asInt32At_eq {offset : Nat} (hfits : offset + 4 ≤ buf.readableBytes) :
    asInt32At buf offset = .ok (networkToHost32 ((buf.readable.drop offset).take 4)) := by
  have hread : buf.peekAt offset 4 = .ok ((buf.readable.drop offset).take 4) := Buffer.peekAt_ok hfits
  rw [asInt32At, hread]
  rfl

theorem validateChecksumAt_eq {start len : Nat} (hmin : kChecksumLen ≤ len)
    (hfits : start + len ≤ buf.readableBytes) :
    c.validateChecksumAt buf start len =
      .ok (c.validateChecksum ((buf.readable.drop start).take len)) := by
  have hfront : (len : Int) - kChecksumLen = (len - kChecksumLen : Nat) := by omega
  have hback : (start : Int) + len - kChecksumLen = (start + (len - kChecksumLen) : Nat) := by omega
  have hlength : ((buf.readable.drop start).take len).length = len := by
    rw [List.length_take, List.length_drop, buf.readable_length]
    omega
  have hsum : ((buf.readable.drop start).take len).take (len - kChecksumLen) =
      (buf.readable.drop start).take (len - kChecksumLen) := by
    rw [List.take_take, Nat.min_eq_left (Nat.sub_le _ _)]
  have hlast : (((buf.readable.drop start).take len).drop (len - kChecksumLen)).take 4 =
      (buf.readable.drop (start + (len - kChecksumLen))).take 4 :=
    take_drop_within buf.readable (by simp only [kChecksumLen] at hmin ⊢; omega)
  rw [validateChecksumAt, hback, hfront, asInt32At_eq (by simp only [kChecksumLen] at hmin ⊢; omega),
    Buffer.peekAt_ok (by omega), validateChecksum, hlength, hsum, asInt32, hlast]
  rfl

theorem parseAt_eq {start len : Nat} (hmin : c.kMinMessageLen ≤ len)
    (hfits : start + len ≤ buf.readableBytes) :
    c.parseAt buf start len = .ok (c.parse ((buf.readable.drop start).take len)) := by
  have htag : c.tag.length + kChecksumLen ≤ len := hmin
  have hlength : ((buf.readable.drop start).take len).length = len := by
    rw [List.length_take, List.length_drop, buf.readable_length]
    omega
  have hfront : ((buf.readable.drop start).take len).take c.tag.length =
      (buf.readable.drop start).take c.tag.length := by
    rw [List.take_take, Nat.min_eq_left (by omega)]
  have hdata : (((buf.readable.drop start).take len).drop c.tag.length).take
      (len - kChecksumLen - c.tag.length) =
      (buf.readable.drop (start + c.tag.length)).take (len - kChecksumLen - c.tag.length) :=
    take_drop_within buf.readable (by omega)
  have hreadTag : buf.peekAt start c.tag.length = .ok ((buf.readable.drop start).take c.tag.length) :=
    Buffer.peekAt_ok (by omega)
  have hreadData : buf.peekAt (start + c.tag.length) (len - kChecksumLen - c.tag.length) =
      .ok ((buf.readable.drop (start + c.tag.length)).take (len - kChecksumLen - c.tag.length)) := by
    have hlen : (len : Int) - kChecksumLen - c.tag.length =
        (len - kChecksumLen - c.tag.length : Nat) := by omega
    rw [hlen]
    exact Buffer.peekAt_ok (by omega)
  rw [parseAt, validateChecksumAt_eq (by omega) hfits, parse, hlength, hfront]
  simp only [bind, Except.bind, pure, Except.pure, hreadTag, hreadData, hdata]
  cases c.validateChecksum ((buf.readable.drop start).take len) with
  | false => rfl
  | true =>
      simp only [if_true]
      by_cases hsame : (buf.readable.drop start).take c.tag.length = c.tag
      · rw [if_pos hsame, if_pos hsame]
        cases c.parseFromBuffer _ <;> rfl
      · rw [if_neg hsame, if_neg hsame]

theorem rawCbAt_eq {len : Nat} (hfits : kHeaderLen + len ≤ buf.readableBytes) :
    c.rawCbAt buf len =
      .ok (c.rawCb.all fun callback => callback (buf.readable.take (kHeaderLen + len))) := by
  have hwhole : 0 + (kHeaderLen + len) ≤ buf.readableBytes := by omega
  have hread : buf.peekAt 0 (kHeaderLen + len) = .ok (buf.readable.take (kHeaderLen + len)) :=
    Buffer.peekAt_ok hwhole
  rw [rawCbAt]
  cases c.rawCb with
  | none => rfl
  | some callback =>
      simp only [hread, Option.all_some]
      rfl

theorem judgeAt_eq (len : Int) : c.judgeAt buf len = .ok (c.judge len buf.readable) := by
  rw [judgeAt, judge]
  by_cases hrange : len > kMaxMessageLen ∨ len < c.kMinMessageLen
  · rw [if_pos hrange, if_pos hrange]
    rfl
  · rw [if_neg hrange, if_neg hrange]
    obtain ⟨count, rfl⟩ : ∃ count : Nat, len = count := Int.eq_ofNat_of_zero_le (by omega)
    rw [Int.toNat_natCast, buf.readable_length]
    by_cases hfits : kHeaderLen + count ≤ buf.readableBytes
    · rw [if_pos hfits, if_pos (by omega), rawCbAt_eq hfits]
      have hparse : c.parseAt buf kHeaderLen count =
          .ok (c.parse ((buf.readable.drop kHeaderLen).take count)) := parseAt_eq (by omega) hfits
      simp only [bind, Except.bind, hparse]
      split <;> rfl
    · rw [if_neg hfits, if_neg (by omega)]
      rfl

/-- Read by read the codec does what it does on the content as a whole: no assertion fails, and nothing
is read past the content. -/
theorem turnAt_eq (buf : Buffer) : c.turnAt buf = .ok (c.examine buf.readable) := by
  rw [turnAt, examine, buf.readable_length]
  by_cases hmin : c.kMinMessageLen + kHeaderLen ≤ buf.readableBytes
  · have hpeek : 4 ≤ buf.readableBytes := Nat.le_trans (Nat.le_add_left _ _) hmin
    rw [if_pos hmin, if_pos hmin, Buffer.peekInt32, if_pos hpeek]
    exact judgeAt_eq _
  · rw [if_neg hmin, if_neg hmin]
    rfl

end ProtobufCodecLite

/-! ## A channel behind its codec -/

variable {Req Resp : Type}

/-- A channel with the receive buffer of its connection. -/
structure RpcReceiver (Req Resp : Type) where
  channel : RpcChannel Req Resp
  input : Buffer

namespace RpcReceiver

/-- Bytes arrive, the codec looks at the buffer once more, or the channel does something. -/
inductive Label (Resp : Type) where
  | chunk (bytes : Bytes)
  | turn
  | action (action : RpcChannel.Action Resp)
  deriving DecidableEq, Repr

def fault : RpcStop → Fault
  | .disabled => .disabled
  | .assertion => .assertion

/-- What the loop thread does next with what the codec has found. A frame without a message was kept by
the raw message callback. The callback for errors leaves the buffer alone. -/
def ioAfter : Outcome (Option RpcMessage) ProtobufCodecLite.ErrorCode → IoPhase
  | .frame (some message) _ => .handling message
  | .frame none _ => .parsing
  | .reject _ => .waiting
  | .more => .waiting

/-- The number of bytes that are retrieved. -/
def consumed : Outcome (Option RpcMessage) ProtobufCodecLite.ErrorCode → Nat
  | .frame _ length => length
  | _ => 0

def step (c : ProtobufCodecLite RpcMessage) (format : ResponseFormat Resp)
    (s : RpcReceiver Req Resp) : Label Resp → Except Fault (RpcReceiver Req Resp)
  | .chunk bytes =>
      match s.channel.io, s.input.append bytes with
      | .waiting, some input => .ok ⟨{ s.channel with io := .parsing }, input⟩
      | .waiting, none => .error .assertion
      | _, _ => .error .disabled
  | .turn =>
      match s.channel.io with
      | .parsing =>
          match c.turnAt s.input with
          | .ok outcome =>
              match s.input.retrieve (consumed outcome) with
              | some input => .ok ⟨{ s.channel with io := ioAfter outcome }, input⟩
              | none => .error .assertion
          | .error reason => .error reason
      | _ => .error .disabled
  | .action action =>
      match s.channel.act format action with
      | .ok (channel, _) => .ok ⟨channel, s.input⟩
      | .error reason => .error (fault reason)

/-- A response that `onRpcMessage` looks up carries a response or an error. -/
def Carrying (s : RpcReceiver Req Resp) (label : Label Resp) : Prop :=
  label = .action .find → ∀ message, s.channel.io = .handling message → RpcClient.Carries message

variable {c : ProtobufCodecLite RpcMessage} {format : ResponseFormat Resp}

/-- What is consumed lies within the content. -/
theorem retrieve_consumed (buf : Buffer) :
    ∃ rest, buf.retrieve (consumed (c.examine buf.readable)) = some rest := by
  have hlength : consumed (c.examine buf.readable) ≤ buf.readableBytes := by
    cases houtcome : c.examine buf.readable with
    | frame value length =>
        rw [← buf.readable_length]
        exact (c.decoder.frame_length houtcome).2
    | reject errorCode | more => exact Nat.zero_le _
  obtain ⟨rest, hrest, -⟩ := Buffer.retrieve_readable hlength
  exact ⟨rest, hrest⟩

/-- The only step that the peer can make fail is the one that looks up its response. -/
theorem step_harmless_iff (s : RpcReceiver Req Resp) (label : Label Resp) :
    (∀ reason, step c format s label = .error reason → reason = .disabled) ↔ Carrying s label := by
  cases label with
  | chunk bytes =>
      obtain ⟨input, hinput, -⟩ := s.input.append_readable bytes
      refine iff_of_true ?_ (fun heq => by cases heq)
      intro reason hreason
      simp only [step, hinput] at hreason
      split at hreason
      · cases hreason
      · contradiction
      · exact (Except.error.inj hreason).symm
  | turn =>
      obtain ⟨input, hinput⟩ := retrieve_consumed (c := c) s.input
      refine iff_of_true ?_ (fun heq => by cases heq)
      intro reason hreason
      simp only [step, ProtobufCodecLite.turnAt_eq, hinput] at hreason
      split at hreason
      · cases hreason
      · exact (Except.error.inj hreason).symm
  | action action =>
      have hfault : (∀ reason, step c format s (.action action) = .error reason → reason = .disabled) ↔
          s.channel.act format action ≠ .error .assertion := by
        simp only [step]
        cases s.channel.act format action with
        | ok result => simp
        | error reason => cases reason <;> simp [fault]
      rw [hfault, ne_eq, RpcChannel.act_assertion, Carrying]
      constructor
      · intro hnot heq message hio htype
        obtain rfl := Label.action.inj heq
        by_contra hcarries
        rw [not_or, Bool.not_eq_true, Option.isSome_eq_false_iff, Option.isNone_iff_eq_none,
          Bool.not_eq_true, Option.isSome_eq_false_iff, Option.isNone_iff_eq_none] at hcarries
        exact hnot ⟨rfl, message, hio, htype, hcarries⟩
      · rintro hcarries ⟨rfl, message, hio, htype, hresponse, herror⟩
        have := hcarries rfl message hio htype
        simp [hresponse, herror] at this

/-- **What the peer must not send.** Whatever calls are outstanding and whatever services are registered,
no assertion fails and nothing is read past the readable bytes just when every response that is decoded
carries a response or an error. -/
theorem remote_bytes_safe_iff (c : ProtobufCodecLite RpcMessage) (format : ResponseFormat Resp)
    (s : RpcReceiver Req Resp) (labels : List (Label Resp)) :
    (∀ reason, run (step c format) s labels = .error reason → reason = .disabled) ↔
      Meets (step c format) Carrying s labels :=
  run_harmless_iff_meets (fun _ => True)
    (fun state label _ => ⟨step_harmless_iff state label, fun _ _ => trivial⟩) trivial

/-- The bytes of a message, and what becomes of it. -/
def received (message : RpcMessage) : List (Label Bytes) :=
  let frame := ProtobufCodecLite.framed (quotedCodec.body (message.fields.flatMap quote))
  [.chunk (frame.take 9), .turn, .chunk (frame.drop 9), .turn, .action .find, .action .finish]

/-- A channel with no outstanding calls and no services. -/
def idle : RpcReceiver Unit Bytes := ⟨{ callee := { services := none } }, Buffer.new 16⟩

/-- A response with an error, to a call that was never made. -/
theorem remote_bytes_safe_refused :
    Meets (step quotedCodec plainFormat) Carrying idle
      (received { type := .RESPONSE, id := 1, error := some .NO_METHOD }) := by
  obtain ⟨final, hrun, -⟩ := exists_of_outcome (step quotedCodec plainFormat) idle
    (received { type := .RESPONSE, id := 1, error := some .NO_METHOD }) (fun _ => true)
    (by decide +kernel)
  refine (remote_bytes_safe_iff quotedCodec plainFormat idle _).mp ?_
  intro reason hreason
  rw [hrun] at hreason
  cases hreason

/-- A response with neither field fails the assertion. -/
theorem bare_response_asserts :
    run (step quotedCodec plainFormat) idle (received { type := .RESPONSE, id := 1 }) =
      .error .assertion :=
  error_of_failsWith _ _ _ _ (by decide +kernel)

end RpcReceiver
end Muduo
