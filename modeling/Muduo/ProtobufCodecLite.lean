import Muduo.Buffer
import Muduo.Execution
import Muduo.Framing

/-! `muduo::net::ProtobufCodecLite`: messages in frames

    size      4-byte  M+N+4
    tag       M-byte
    payload   N-byte
    checksum  4-byte  adler32 of tag+payload

The encoder fills an empty buffer with one frame. The decoder is called with a buffer whenever bytes
have been appended to it. It is an instance of the decoders of `Framing`: what it does to a buffer is
to consume the content. -/

namespace Muduo

open Framing

/-- The tag and the raw message callback of a codec, with what it calls: protobuf for the messages of
its prototype, and `adler32(1, ..)` of zlib. -/
structure ProtobufCodecLite (M : Type) where
  tag : Bytes
  byteSize : M → Nat
  serializeWithCachedSizesToArray : M → Bytes
  parseFromArray : Bytes → Option M
  adler32 : Bytes → BitVec 32
  rawCb : Option (Bytes → Bool) := none

namespace ProtobufCodecLite

inductive ErrorCode where
  | kNoError
  | kInvalidLength
  | kCheckSumError
  | kInvalidNameLen
  | kUnknownMessageType
  | kParseError
  deriving DecidableEq, Repr

def kHeaderLen : Nat := 4
def kChecksumLen : Nat := 4
def kMaxMessageLen : Nat := 64 * 1024 * 1024

variable {M : Type} (c : ProtobufCodecLite M)

def kMinMessageLen : Nat := c.tag.length + kChecksumLen

/-- The message is serialized as long as its `ByteSize`, and parsed back from what it is serialized to. -/
structure Faithful : Prop where
  byteSize_eq : ∀ message, c.byteSize message = (c.serializeWithCachedSizesToArray message).length
  parse_serialize : ∀ message,
    c.parseFromArray (c.serializeWithCachedSizesToArray message) = some message

/-! ## Encoder -/

def checksum (buf : Bytes) : BitVec 32 := c.adler32 buf

def serializeToBuffer (message : M) (buf : Buffer) : Option Buffer := do
  let wide ← buf.ensureWritableBytes (c.byteSize message + kChecksumLen)
  let filled ← wide.fill (c.serializeWithCachedSizesToArray message)
  -- ByteSizeConsistencyError
  if (c.serializeWithCachedSizesToArray message).length ≠ c.byteSize message then none
  else filled.hasWritten (c.byteSize message)

def fillEmptyBuffer (buf : Buffer) (message : M) : Option Buffer :=
  -- assert(buf->readableBytes() == 0)
  if buf.readableBytes ≠ 0 then none
  else do
    let tagged ← buf.append c.tag
    let filled ← c.serializeToBuffer message tagged
    let summed ← filled.appendInt32 (c.checksum filled.readable)
    -- assert(buf->readableBytes() == tag_.size() + byte_size + kChecksumLen)
    if summed.readableBytes ≠ c.tag.length + c.byteSize message + kChecksumLen then none
    else summed.prepend (hostToNetwork32 (BitVec.ofNat 32 summed.readableBytes))

/-- Bytes behind their number. -/
def framed (body : Bytes) : Bytes := hostToNetwork32 (BitVec.ofNat 32 body.length) ++ body

/-- What follows the size in the frame of a payload. -/
def body (payload : Bytes) : Bytes :=
  c.tag ++ payload ++ hostToNetwork32 (c.checksum (c.tag ++ payload))

theorem body_length (payload : Bytes) :
    (c.body payload).length = c.tag.length + payload.length + kChecksumLen := by
  rw [body, List.length_append, List.length_append, hostToNetwork32_length]
  rfl

theorem framed_length (body : Bytes) : (framed body).length = kHeaderLen + body.length := by
  rw [framed, List.length_append, hostToNetwork32_length]
  rfl

variable {c}

theorem serializeToBuffer_spec (hfaithful : c.Faithful) (message : M) {buf : Buffer}
    (hfront : Buffer.kCheapPrepend ≤ buf.prependableBytes) :
    ∃ filled, c.serializeToBuffer message buf = some filled ∧
      filled.readable = buf.readable ++ c.serializeWithCachedSizesToArray message ∧
      Buffer.kCheapPrepend ≤ filled.prependableBytes := by
  have hsize := hfaithful.byteSize_eq message
  obtain ⟨wide, hwide, hcontent, hspace⟩ :=
    buf.ensureWritableBytes_spec (c.byteSize message + kChecksumLen)
  have hfits : (c.serializeWithCachedSizesToArray message).length ≤ wide.writableBytes := by omega
  obtain ⟨filled, hfilled, hresult⟩ :=
    Buffer.fill_hasWritten_readable hfits (Nat.le_of_eq hsize)
  obtain ⟨written, hfill, hhas⟩ := Option.bind_eq_some_iff.mp hfilled
  refine ⟨filled, ?_, ?_, ?_⟩
  · simp only [serializeToBuffer, hwide, hfill, Option.bind_eq_bind, Option.bind_some]
    rw [if_neg (not_not_intro hsize.symm)]
    exact hhas
  · rw [hresult, hcontent, hsize, List.take_length]
  · rw [Buffer.hasWritten_front hhas, Buffer.fill_front hfill]
    exact Buffer.ensureWritableBytes_front hwide hfront

/-- The encoder fills an empty buffer with the frame of the serialized message. -/
theorem fillEmptyBuffer_spec (hfaithful : c.Faithful) (message : M) {buf : Buffer}
    (hempty : buf.readable = []) (hfront : Buffer.kCheapPrepend ≤ buf.prependableBytes) :
    ∃ full, c.fillEmptyBuffer buf message = some full ∧
      full.readable = framed (c.body (c.serializeWithCachedSizesToArray message)) := by
  have hzero := buf.readableBytes_eq_zero.mpr hempty
  obtain ⟨tagged, htagged, htag⟩ := buf.append_readable c.tag
  rw [hempty, List.nil_append] at htag
  obtain ⟨filled, hfilled, hpayload, hroom⟩ :=
    serializeToBuffer_spec hfaithful message (Buffer.append_front htagged hfront)
  rw [htag] at hpayload
  obtain ⟨summed, hsummed, hsum⟩ :=
    filled.append_readable (hostToNetwork32 (c.checksum filled.readable))
  have hbody : summed.readable = c.body (c.serializeWithCachedSizesToArray message) := by
    rw [hsum, hpayload, body]
  have hcount : summed.readableBytes = c.tag.length + c.byteSize message + kChecksumLen := by
    rw [← summed.readable_length, hbody, body_length, hfaithful.byteSize_eq]
  have hheader : (hostToNetwork32 (BitVec.ofNat 32 summed.readableBytes)).length ≤
      summed.prependableBytes := by
    rw [hostToNetwork32_length]
    exact Nat.le_trans (by decide) (Buffer.append_front hsummed hroom)
  obtain ⟨full, hfull, hresult⟩ := Buffer.prepend_readable hheader
  refine ⟨full, ?_, ?_⟩
  · simp only [fillEmptyBuffer, hzero, htagged, hfilled, Buffer.appendInt32, hsummed, hcount,
      Option.bind_eq_bind, Option.bind_some, ne_eq, not_true_eq_false, if_false]
    rw [← hcount]
    exact hfull
  · rw [hresult, framed, ← hbody, summed.readable_length]

/-! ## Decoder -/

variable (c)

def asInt32 (buf : Bytes) : BitVec 32 := networkToHost32 (buf.take 4)

/-- `validateChecksum` of the bytes from `buf` on, as many as `len` says. -/
def validateChecksum (buf : Bytes) : Bool :=
  c.checksum (buf.take (buf.length - kChecksumLen)) ==
    asInt32 (buf.drop (buf.length - kChecksumLen))

def parseFromBuffer (buf : Bytes) : Option M := c.parseFromArray buf

/-- `parse`: the message, or the error code. -/
def parse (buf : Bytes) : Except ErrorCode M :=
  if c.validateChecksum buf then
    -- memcmp(buf, tag_.data(), tag_.size()) == 0
    if buf.take c.tag.length = c.tag then
      let dataLen := buf.length - kChecksumLen - c.tag.length
      match c.parseFromBuffer ((buf.drop c.tag.length).take dataLen) with
      | some message => .ok message
      | none => .error .kParseError
    else .error .kUnknownMessageType
  else .error .kCheckSumError

/-- What the loop in `onMessage` makes of the result of `parse`. -/
def afterParse (length : Nat) : Except ErrorCode M → Outcome (Option M) ErrorCode
  | .ok message => .frame (some message) length
  | .error errorCode => .reject errorCode

/-- The body of the loop in `onMessage` once `len` has been peeked. A frame that the raw message
callback keeps from being parsed has no message. -/
def judge (len : Int) (content : Bytes) : Outcome (Option M) ErrorCode :=
  if len > kMaxMessageLen ∨ len < c.kMinMessageLen then .reject .kInvalidLength
  else if kHeaderLen + len.toNat ≤ content.length then
    -- rawCb_ && !rawCb_(conn, StringPiece(buf->peek(), kHeaderLen+len), receiveTime)
    if c.rawCb.all fun callback => callback (content.take (kHeaderLen + len.toNat)) then
      afterParse (kHeaderLen + len.toNat) (c.parse ((content.drop kHeaderLen).take len.toNat))
    else .frame none (kHeaderLen + len.toNat)
  else .more

/-- The test of the loop in `onMessage` and its body, up to what is done with the result. -/
def turn (buf : Buffer) : Option (Outcome (Option M) ErrorCode) :=
  if c.kMinMessageLen + kHeaderLen ≤ buf.readableBytes then
    buf.peekInt32.map fun len => c.judge len.toInt buf.readable
  else some .more

/-- A call of the codec's callbacks. -/
inductive Event (M : Type) where
  | message (message : M)
  | error (errorCode : ErrorCode)
  deriving DecidableEq, Repr

/-- The loop of `onMessage`, with the callbacks it has called. The number of turns is bounded here and
the bound is never met. -/
def loop : Nat → Buffer → Option (Buffer × List (Event M))
  | 0, _ => none
  | turns + 1, buf =>
      match c.turn buf with
      | none => none
      | some .more => some (buf, [])
      | some (.reject errorCode) => some (buf, [.error errorCode])
      | some (.frame message length) => do
          let rest ← buf.retrieve length
          let (last, events) ← loop turns rest
          some (last, message.toList.map .message ++ events)

def onMessage (buf : Buffer) : Option (Buffer × List (Event M)) := c.loop (buf.readableBytes + 1) buf

/-! The decoder as one on byte lists. -/

/-- `peekInt32` of the content. -/
def lengthField (content : Bytes) : Int := (networkToHost32 (content.take 4)).toInt

def examine (content : Bytes) : Outcome (Option M) ErrorCode :=
  if c.kMinMessageLen + kHeaderLen ≤ content.length then c.judge (lengthField content) content
  else .more

/-- No turn fails the assertion of `peekInt32`. -/
theorem turn_eq (buf : Buffer) : c.turn buf = some (c.examine buf.readable) := by
  rw [turn, examine, buf.readable_length]
  by_cases hmin : c.kMinMessageLen + kHeaderLen ≤ buf.readableBytes
  · have hpeek : 4 ≤ buf.readableBytes := Nat.le_trans (Nat.le_add_left _ _) hmin
    rw [if_pos hmin, if_pos hmin, Buffer.peekInt32, if_pos hpeek]
    rfl
  · rw [if_neg hmin, if_neg hmin]

variable {c} {content : Bytes}

theorem lengthField_append (later : Bytes) (hheader : 4 ≤ content.length) :
    lengthField (content ++ later) = lengthField content := by
  rw [lengthField, lengthField, List.take_append_of_le_length hheader]

/-- Only the frame itself is looked at. -/
theorem judge_append {len : Int} (later : Bytes) (hfits : kHeaderLen + len.toNat ≤ content.length) :
    c.judge len (content ++ later) = c.judge len content := by
  have hmore : kHeaderLen + len.toNat ≤ (content ++ later).length := by
    rw [List.length_append]
    omega
  have hbody : ((content ++ later).drop kHeaderLen).take len.toNat =
      (content.drop kHeaderLen).take len.toNat := by
    rw [List.drop_append_of_le_length (by omega), List.take_append_of_le_length]
    rw [List.length_drop]
    omega
  simp only [judge, if_pos hfits, if_pos hmore, hbody, List.take_append_of_le_length hfits]

theorem examine_append (later : Bytes) (hdecided : c.examine content ≠ .more) :
    c.examine (content ++ later) = c.examine content := by
  have hmin : c.kMinMessageLen + kHeaderLen ≤ content.length := by
    by_contra hshort
    exact hdecided (if_neg hshort)
  have hmore : c.kMinMessageLen + kHeaderLen ≤ (content ++ later).length := by
    rw [List.length_append]
    omega
  rw [examine, if_pos hmin] at hdecided
  rw [examine, examine, if_pos hmin, if_pos hmore,
    lengthField_append later (Nat.le_trans (Nat.le_add_left _ _) hmin)]
  by_cases hrange : lengthField content > kMaxMessageLen ∨ lengthField content < c.kMinMessageLen
  · rw [judge, judge, if_pos hrange, if_pos hrange]
  · apply judge_append
    by_contra hfits
    rw [judge, if_neg hrange, if_neg hfits] at hdecided
    exact hdecided rfl

theorem afterParse_frame {result : Except ErrorCode M} {value : Option M} {length other : Nat}
    (hframe : afterParse length result = .frame value other) : length = other := by
  cases result with
  | ok message => exact (Outcome.frame.inj hframe).2
  | error errorCode => cases hframe

/-- What a frame at the front says about the length field. -/
theorem examine_frame {value : Option M} {length : Nat}
    (hframe : c.examine content = .frame value length) :
    c.kMinMessageLen ≤ lengthField content ∧ lengthField content ≤ kMaxMessageLen ∧
      length = kHeaderLen + (lengthField content).toNat ∧ length ≤ content.length := by
  rw [examine] at hframe
  split at hframe
  · rw [judge] at hframe
    split at hframe
    · cases hframe
    · rename_i hrange
      split at hframe
      · rename_i hfits
        have hlength : length = kHeaderLen + (lengthField content).toNat := by
          split at hframe
          · exact (afterParse_frame hframe).symm
          · exact (Outcome.frame.inj hframe).2.symm
        exact ⟨by omega, by omega, hlength, by omega⟩
      · cases hframe
  · cases hframe

theorem examine_take {value : Option M} {length : Nat}
    (hframe : c.examine content = .frame value length) :
    c.examine (content.take length) = .frame value length := by
  obtain ⟨hmin, hmax, hlength, hfits⟩ := examine_frame hframe
  have hwhole : (content.take length).length = length := by
    rw [List.length_take, Nat.min_eq_left hfits]
  have hheader : 4 ≤ (content.take length).length := by
    rw [hwhole, hlength]
    exact Nat.le_add_right _ _
  have hfield := lengthField_append (content.drop length) hheader
  rw [List.take_append_drop] at hfield
  have henough : c.kMinMessageLen + kHeaderLen ≤ (content.take length).length := by omega
  have hcontent : c.kMinMessageLen + kHeaderLen ≤ content.length := by omega
  rw [examine, if_pos hcontent] at hframe
  rw [examine, if_pos henough, ← hfield]
  calc c.judge (lengthField content) (content.take length)
      = c.judge (lengthField content) (content.take length ++ content.drop length) :=
        (judge_append _ (by omega)).symm
    _ = c.judge (lengthField content) content := by rw [List.take_append_drop]
    _ = .frame value length := hframe

variable (c) in
def decoder : Decoder UInt8 (Option M) ErrorCode where
  look := c.examine
  look_nil := if_neg (by simp [kHeaderLen])
  frame_length hframe := by
    obtain ⟨-, -, hlength, hfits⟩ := examine_frame hframe
    exact ⟨by rw [hlength]; exact Nat.lt_of_lt_of_le (by decide) (Nat.le_add_right _ _), hfits⟩
  frame_take hframe := examine_take hframe
  frame_append later hframe := by rw [examine_append later (by rw [hframe]; simp), hframe]
  reject_append later hreject := by rw [examine_append later (by rw [hreject]; simp), hreject]

end ProtobufCodecLite
end Muduo
