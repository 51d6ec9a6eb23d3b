import Muduo.ProtobufCodecLite

/-! `ProtobufCodecLite` on a stream that arrives in pieces. A frame is described by the wire format
alone. The decoder delivers the messages of the frames at the front of the stream, however the stream
is cut, and stays at the first frame it rejects. -/

namespace Muduo
namespace ProtobufCodecLite

open Framing Execution

variable {M : Type} {c : ProtobufCodecLite M}

/-! ## Frames -/

theorem validateChecksum_body (payload : Bytes) : c.validateChecksum (c.body payload) = true := by
  have htake : (c.body payload).take ((c.body payload).length - kChecksumLen) = c.tag ++ payload := by
    rw [body, List.length_append, hostToNetwork32_length]
    exact List.take_left' (by simp [kChecksumLen])
  have hdrop : (c.body payload).drop ((c.body payload).length - kChecksumLen) =
      hostToNetwork32 (c.checksum (c.tag ++ payload)) := by
    rw [body, List.length_append, hostToNetwork32_length]
    exact List.drop_left' (by simp [kChecksumLen])
  rw [validateChecksum, htake, hdrop, asInt32,
    List.take_of_length_le (Nat.le_of_eq (hostToNetwork32_length _)),
    networkToHost32_hostToNetwork32, beq_self_eq_true]

/-- A body passes the checksum and the tag, so that only its payload decides. -/
theorem parse_body (payload : Bytes) :
    c.parse (c.body payload) = (c.parseFromArray payload).elim (.error .kParseError) .ok := by
  have htag : (c.body payload).take c.tag.length = c.tag := by
    rw [body, List.append_assoc]
    exact List.take_left
  have hdata : ((c.body payload).drop c.tag.length).take
      ((c.body payload).length - kChecksumLen - c.tag.length) = payload := by
    rw [body_length, body, List.append_assoc, List.drop_left]
    exact List.take_left' (by omega)
  simp only [parse, validateChecksum_body, if_true, if_pos htag, hdata, parseFromBuffer]
  cases c.parseFromArray payload <;> rfl

/-- Bytes that pass the checksum and the tag are a body. -/
theorem body_of_valid {buf : Bytes} (hmin : c.kMinMessageLen ≤ buf.length)
    (hsum : c.validateChecksum buf = true) (htag : buf.take c.tag.length = c.tag) :
    ∃ payload, buf = c.body payload := by
  rw [kMinMessageLen] at hmin
  have hfront : c.tag ++ (buf.drop c.tag.length).take (buf.length - kChecksumLen - c.tag.length) =
      buf.take (buf.length - kChecksumLen) := by
    have hcount : c.tag.length + (buf.length - kChecksumLen - c.tag.length) =
        buf.length - kChecksumLen := by omega
    calc c.tag ++ (buf.drop c.tag.length).take (buf.length - kChecksumLen - c.tag.length)
        = buf.take c.tag.length ++
            (buf.drop c.tag.length).take (buf.length - kChecksumLen - c.tag.length) := by rw [htag]
      _ = buf.take (c.tag.length + (buf.length - kChecksumLen - c.tag.length)) :=
          List.take_add.symm
      _ = buf.take (buf.length - kChecksumLen) := by rw [hcount]
  have hlast : (buf.drop (buf.length - kChecksumLen)).length = 4 := by
    rw [List.length_drop]
    exact Nat.sub_sub_self (by omega)
  rw [validateChecksum, beq_iff_eq, asInt32, List.take_of_length_le (Nat.le_of_eq hlast)] at hsum
  refine ⟨(buf.drop c.tag.length).take (buf.length - kChecksumLen - c.tag.length), ?_⟩
  rw [body, hfront, hsum, hostToNetwork32_networkToHost32 hlast, List.take_append_drop]

/-- The results of `parse`. -/
theorem parse_cases {buf : Bytes} (hmin : c.kMinMessageLen ≤ buf.length) :
    (c.validateChecksum buf = false ∧ c.parse buf = .error .kCheckSumError) ∨
    (c.validateChecksum buf = true ∧ buf.take c.tag.length ≠ c.tag ∧
      c.parse buf = .error .kUnknownMessageType) ∨
    ∃ payload, buf = c.body payload := by
  cases hsum : c.validateChecksum buf with
  | false => exact .inl ⟨rfl, by simp [parse, hsum]⟩
  | true =>
      right
      by_cases htag : buf.take c.tag.length = c.tag
      · exact .inr (body_of_valid hmin hsum htag)
      · exact .inl ⟨rfl, htag, by simp [parse, hsum, htag]⟩

theorem lengthField_framed (buf later : Bytes) :
    lengthField (framed buf ++ later) = (BitVec.ofNat 32 buf.length).toInt := by
  rw [lengthField, framed, List.append_assoc, List.take_left' (hostToNetwork32_length _),
    networkToHost32_hostToNetwork32]

theorem toInt_ofNat_of_lt {n : Nat} (hlt : n < 2 ^ 31) : (BitVec.ofNat 32 n).toInt = n := by
  have hnat : (BitVec.ofNat 32 n).toNat = n := by
    rw [BitVec.toNat_ofNat]
    omega
  rw [BitVec.toInt_eq_toNat_of_lt (by omega), hnat]

/-- A complete frame of an admissible length is decided by `parse`, unless the raw message callback keeps
it. -/
theorem examine_framed_raw {buf : Bytes} (hmin : c.kMinMessageLen ≤ buf.length)
    (hmax : buf.length ≤ kMaxMessageLen) (later : Bytes) :
    c.examine (framed buf ++ later) =
      if c.rawCb.all fun callback => callback (framed buf) then
        afterParse (framed buf).length (c.parse buf)
      else .frame none (framed buf).length := by
  have hfield : lengthField (framed buf ++ later) = buf.length := by
    rw [lengthField_framed, toInt_ofNat_of_lt (Nat.lt_of_le_of_lt hmax (by decide))]
  have hlength : (framed buf ++ later).length = kHeaderLen + buf.length + later.length := by
    rw [List.length_append, framed_length]
  have hrange : ¬((buf.length : Int) > kMaxMessageLen ∨ (buf.length : Int) < c.kMinMessageLen) := by
    omega
  have hbuf : ((framed buf ++ later).drop kHeaderLen).take buf.length = buf := by
    rw [framed, kHeaderLen, List.append_assoc, List.drop_left' (hostToNetwork32_length _),
      List.take_left]
  have hwhole : (framed buf ++ later).take (kHeaderLen + buf.length) = framed buf :=
    List.take_left' (framed_length buf)
  rw [examine, if_pos (by omega), hfield, judge, if_neg hrange, Int.toNat_natCast,
    if_pos (by omega), hwhole, hbuf, framed_length]

theorem examine_framed (hraw : c.rawCb = none) {buf : Bytes} (hmin : c.kMinMessageLen ≤ buf.length)
    (hmax : buf.length ≤ kMaxMessageLen) (later : Bytes) :
    c.examine (framed buf ++ later) = afterParse (framed buf).length (c.parse buf) := by
  rw [examine_framed_raw hmin hmax, hraw, Option.all_none, if_pos rfl]

/-- A frame that is too long is rejected, also where its length does not fit into the length field. -/
theorem examine_oversized {buf : Bytes} (hmin : c.kMinMessageLen ≤ buf.length)
    (hmax : kMaxMessageLen < buf.length) (hfits : buf.length < 2 ^ 32) (later : Bytes) :
    c.examine (framed buf ++ later) = .reject .kInvalidLength := by
  have henough : c.kMinMessageLen + kHeaderLen ≤ (framed buf ++ later).length := by
    rw [List.length_append, framed_length]
    omega
  have hrange : lengthField (framed buf ++ later) > kMaxMessageLen ∨
      lengthField (framed buf ++ later) < c.kMinMessageLen := by
    rw [lengthField_framed]
    by_cases hlt : buf.length < 2 ^ 31
    · rw [toInt_ofNat_of_lt hlt]
      omega
    · have hnat : (BitVec.ofNat 32 buf.length).toNat = buf.length := by
        rw [BitVec.toNat_ofNat]
        omega
      rw [BitVec.toInt_eq_toNat_cond, hnat, if_neg (by omega)]
      omega
  rw [examine, if_pos henough, judge, if_pos hrange]

/-- A frame of an admissible length is complete: it stands at the front of the content. -/
def Complete (c : ProtobufCodecLite M) (content buf : Bytes) : Prop :=
  c.kMinMessageLen ≤ buf.length ∧ buf.length ≤ kMaxMessageLen ∧ ∃ later, content = framed buf ++ later

/-- The length field determines the four bytes it was read from. -/
theorem complete_of_lengthField {content : Bytes} (hmin : c.kMinMessageLen ≤ lengthField content)
    (hmax : lengthField content ≤ kMaxMessageLen)
    (hfits : kHeaderLen + (lengthField content).toNat ≤ content.length) :
    ∃ buf, c.Complete content buf := by
  let buf := (content.drop kHeaderLen).take (lengthField content).toNat
  have hcount : buf.length = (lengthField content).toNat := by
    rw [List.length_take, List.length_drop]
    omega
  have hheader : (content.take 4).length = 4 := by
    rw [List.length_take]
    exact Nat.min_eq_left (Nat.le_trans (Nat.le_add_right _ _) hfits)
  have hfield : networkToHost32 (content.take 4) = BitVec.ofNat 32 buf.length := by
    have hlt : buf.length < 2 ^ 31 := by
      have : kMaxMessageLen < 2 ^ 31 := by decide
      omega
    apply BitVec.eq_of_toInt_eq
    rw [toInt_ofNat_of_lt hlt, hcount, Int.toNat_of_nonneg (by omega)]
    rfl
  refine ⟨buf, by omega, by omega, (content.drop kHeaderLen).drop (lengthField content).toNat, ?_⟩
  rw [framed, ← hfield, hostToNetwork32_networkToHost32 hheader, List.append_assoc,
    List.take_append_drop]
  exact (List.take_append_drop 4 content).symm

/-- The bytes are the frame of a message, in the wire format. -/
def IsWireFrame (c : ProtobufCodecLite M) (frame : Bytes) (message : M) : Prop :=
  ∃ payload, frame = framed (c.body payload) ∧ (c.body payload).length ≤ kMaxMessageLen ∧
    c.parseFromArray payload = some message

/-- A frame that the decoder rejects, and the error it is rejected with. A bad length is noticed once
the shortest frame could be there, everything else once the frame is complete. -/
inductive Malformed (c : ProtobufCodecLite M) (content : Bytes) : ErrorCode → Prop where
  | length (henough : c.kMinMessageLen + kHeaderLen ≤ content.length)
      (hrange : lengthField content > kMaxMessageLen ∨ lengthField content < c.kMinMessageLen) :
      Malformed c content .kInvalidLength
  | checksum {buf : Bytes} (hcomplete : c.Complete content buf)
      (hsum : c.validateChecksum buf = false) : Malformed c content .kCheckSumError
  | tag {buf : Bytes} (hcomplete : c.Complete content buf) (hsum : c.validateChecksum buf = true)
      (htag : buf.take c.tag.length ≠ c.tag) : Malformed c content .kUnknownMessageType
  | payload {payload : Bytes} (hcomplete : c.Complete content (c.body payload))
      (hparse : c.parseFromArray payload = none) : Malformed c content .kParseError

/-- What is decided is a bad length or a complete frame. -/
theorem examine_cases {content : Bytes} (hdecided : c.examine content ≠ .more) :
    (c.Malformed content .kInvalidLength ∧ c.examine content = .reject .kInvalidLength) ∨
    ∃ buf, c.Complete content buf := by
  have henough : c.kMinMessageLen + kHeaderLen ≤ content.length := by
    by_contra hshort
    exact hdecided (if_neg hshort)
  rw [examine, if_pos henough] at hdecided ⊢
  by_cases hrange : lengthField content > kMaxMessageLen ∨ lengthField content < c.kMinMessageLen
  · exact .inl ⟨.length henough hrange, if_pos hrange⟩
  · rw [judge, if_neg hrange] at hdecided
    by_cases hfits : kHeaderLen + (lengthField content).toNat ≤ content.length
    · exact .inr (complete_of_lengthField (by omega) (by omega) hfits)
    · exact absurd (if_neg hfits) hdecided

section NoRawCallback

variable (hraw : c.rawCb = none)
include hraw

theorem examine_complete {content buf : Bytes} (hcomplete : c.Complete content buf) :
    c.examine content = afterParse (framed buf).length (c.parse buf) := by
  obtain ⟨hmin, hmax, later, rfl⟩ := hcomplete
  exact examine_framed hraw hmin hmax later

theorem IsWireFrame.isFrame {frame : Bytes} {message : M} (hframe : c.IsWireFrame frame message) :
    c.decoder.IsFrame frame (some message) := by
  obtain ⟨payload, rfl, hmax, hpayload⟩ := hframe
  have hmin : c.kMinMessageLen ≤ (c.body payload).length := by
    rw [kMinMessageLen, body_length]
    omega
  have hexamine := examine_framed hraw hmin hmax []
  rw [List.append_nil, parse_body, hpayload] at hexamine
  exact hexamine

/-- What the decoder recognises as a frame is the frame of a message. -/
theorem isWireFrame_of_isFrame {frame : Bytes} {value : Option M}
    (hframe : c.decoder.IsFrame frame value) :
    ∃ message, value = some message ∧ c.IsWireFrame frame message := by
  have hexamine : c.examine frame = .frame value frame.length := hframe
  rcases examine_cases (by rw [hexamine]; simp) with ⟨-, hreject⟩ | ⟨buf, hcomplete⟩
  · rw [hreject] at hexamine
    cases hexamine
  · rw [examine_complete hraw hcomplete] at hexamine
    obtain ⟨hmin, hmax, later, hcontent⟩ := hcomplete
    -- the frame is as long as the whole list, so that nothing follows it
    have hlater : later = [] := by
      have hlength := congrArg List.length hcontent
      rw [← afterParse_frame hexamine, List.length_append] at hlength
      exact List.length_eq_zero_iff.mp (by omega)
    rw [hlater, List.append_nil] at hcontent
    rcases parse_cases hmin with ⟨-, hparse⟩ | ⟨-, -, hparse⟩ | ⟨payload, rfl⟩
    · rw [hparse] at hexamine
      cases hexamine
    · rw [hparse] at hexamine
      cases hexamine
    · rw [parse_body] at hexamine
      cases hpayload : c.parseFromArray payload with
      | none => rw [hpayload] at hexamine; cases hexamine
      | some message =>
          rw [hpayload] at hexamine
          exact ⟨message, (Outcome.frame.inj hexamine).1.symm, payload, hcontent, hmax, hpayload⟩

/-- The decoder rejects exactly the malformed frames. -/
theorem examine_reject {content : Bytes} {code : ErrorCode} :
    c.examine content = .reject code ↔ c.Malformed content code := by
  constructor
  · intro hreject
    rcases examine_cases (by rw [hreject]; simp) with ⟨hbad, hlength⟩ | ⟨buf, hcomplete⟩
    · rw [hlength] at hreject
      exact Outcome.reject.inj hreject ▸ hbad
    · rw [examine_complete hraw hcomplete] at hreject
      rcases parse_cases hcomplete.1 with ⟨hsum, hparse⟩ | ⟨hsum, htag, hparse⟩ | ⟨payload, rfl⟩
      · rw [hparse] at hreject
        exact Outcome.reject.inj hreject ▸ .checksum hcomplete hsum
      · rw [hparse] at hreject
        exact Outcome.reject.inj hreject ▸ .tag hcomplete hsum htag
      · rw [parse_body] at hreject
        cases hpayload : c.parseFromArray payload with
        | none =>
            rw [hpayload] at hreject
            exact Outcome.reject.inj hreject ▸ .payload hcomplete hpayload
        | some message => rw [hpayload] at hreject; cases hreject
  · intro hmalformed
    cases hmalformed with
    | length henough hrange => rw [examine, if_pos henough, judge, if_pos hrange]
    | checksum hcomplete hsum => simp [examine_complete hraw hcomplete, parse, hsum, afterParse]
    | tag hcomplete hsum htag => simp [examine_complete hraw hcomplete, parse, hsum, htag, afterParse]
    | payload hcomplete hparse =>
        rw [examine_complete hraw hcomplete, parse_body, hparse]
        rfl

theorem forall₂_isWireFrame {frames : List Bytes} {values : List (Option M)}
    (hframes : List.Forall₂ c.decoder.IsFrame frames values) :
    List.Forall₂ c.IsWireFrame frames (values.filterMap id) := by
  induction hframes with
  | nil => exact .nil
  | cons hframe _ ih =>
      obtain ⟨message, rfl, hwire⟩ := isWireFrame_of_isFrame hraw hframe
      exact .cons hwire ih

theorem forall₂_isFrame {frames : List Bytes} {messages : List M}
    (hframes : List.Forall₂ c.IsWireFrame frames messages) :
    List.Forall₂ c.decoder.IsFrame frames (messages.map some) := by
  induction hframes with
  | nil => exact .nil
  | cons hframe _ ih => exact .cons (hframe.isFrame hraw) ih

end NoRawCallback

/-! ## Calls of `onMessage` -/

/-- The messages among the values of the frames. -/
def delivered (values : List (Option M)) : List M := values.filterMap id

/-- The callbacks that are called while the content is consumed. -/
def report (parsed : Parsed UInt8 (Option M) ErrorCode) : List (Event M) :=
  (delivered parsed.values).map .message ++ parsed.stop.toList.map .error

variable (c) in
theorem loop_spec {turns : Nat} {buf : Buffer} (henough : buf.readableBytes < turns) :
    ∃ last, c.loop turns buf = some (last, report (c.decoder.consume buf.readable)) ∧
      last.readable = (c.decoder.consume buf.readable).rest := by
  induction turns generalizing buf with
  | zero => exact absurd henough (Nat.not_lt_zero _)
  | succ turns ih =>
      rw [loop, turn_eq]
      cases hexamine : c.examine buf.readable with
      | more =>
          rw [Decoder.consume_more (show c.decoder.look _ = _ from hexamine)]
          exact ⟨buf, rfl, rfl⟩
      | reject code =>
          rw [Decoder.consume_reject (show c.decoder.look _ = _ from hexamine)]
          exact ⟨buf, rfl, rfl⟩
      | frame value length =>
          -- the frame is retrieved, which leaves fewer readable bytes than there are turns
          have hlength := c.decoder.frame_length hexamine
          rw [buf.readable_length] at hlength
          obtain ⟨rest, hrest, hcontent⟩ := Buffer.retrieve_readable hlength.2
          have hfewer : rest.readableBytes < turns := by
            rw [← rest.readable_length, hcontent, List.length_drop, buf.readable_length]
            omega
          obtain ⟨last, hlast, hreadable⟩ := ih hfewer
          rw [Decoder.consume_frame (show c.decoder.look _ = _ from hexamine), ← hcontent]
          refine ⟨last, ?_, hreadable⟩
          simp only [hrest, hlast, Option.bind_eq_bind, Option.bind_some]
          cases value <;> rfl

/-- `onMessage` consumes the content of the buffer. -/
theorem onMessage_spec (c : ProtobufCodecLite M) (buf : Buffer) :
    ∃ last, c.onMessage buf = some (last, report (c.decoder.consume buf.readable)) ∧
      last.readable = (c.decoder.consume buf.readable).rest :=
  c.loop_spec (Nat.lt_succ_self _)

/-- A buffer that bytes are received in, and the callbacks of every call of `onMessage` so far. -/
structure Receiver (M : Type) where
  input : Buffer
  calls : List (List (Event M)) := []

def Event.message? : Event M → Option M
  | .message delivered => some delivered
  | .error _ => none

namespace Receiver

def new (initialSize : Nat) : Receiver M := { input := Buffer.new initialSize }

/-- The messages that the message callback has been called with. -/
def messages (r : Receiver M) : List M := r.calls.flatten.filterMap Event.message?

end Receiver

/-- A chunk is appended to the buffer and `onMessage` is called. -/
def receive (c : ProtobufCodecLite M) (r : Receiver M) (chunk : Bytes) : Except Unit (Receiver M) :=
  match (r.input.append chunk).bind c.onMessage with
  | some (input, events) => .ok { input := input, calls := r.calls ++ [events] }
  | none => .error ()

theorem receive_spec (c : ProtobufCodecLite M) (r : Receiver M) (chunk : Bytes) :
    ∃ next, c.receive r chunk = .ok next ∧
      next.input.readable = (c.decoder.consume (r.input.readable ++ chunk)).rest ∧
      next.calls = r.calls ++ [report (c.decoder.consume (r.input.readable ++ chunk))] := by
  obtain ⟨longer, hlonger, hcontent⟩ := r.input.append_readable chunk
  obtain ⟨last, hlast, hrest⟩ := c.onMessage_spec longer
  rw [hcontent] at hlast hrest
  refine ⟨{ input := last, calls := _ }, ?_, hrest, rfl⟩
  simp only [receive, hlonger, Option.bind_some, hlast]

theorem messages_report (parsed : Parsed UInt8 (Option M) ErrorCode) :
    (report parsed).filterMap Event.message? = delivered parsed.values := by
  have hmessages (messages : List M) :
      (messages.map Event.message).filterMap Event.message? = messages := by
    induction messages with
    | nil => rfl
    | cons message messages ih =>
        rw [List.map_cons, List.filterMap_cons, ih]
        rfl
  rw [report, List.filterMap_append, hmessages]
  cases parsed.stop <;> simp [Event.message?]

/-- The receiver has consumed the stream. -/
structure Fed (c : ProtobufCodecLite M) (stream : Bytes) (r : Receiver M) : Prop where
  input_eq : r.input.readable = (c.decoder.consume stream).rest
  messages_eq : r.messages = delivered (c.decoder.consume stream).values
  /-- Nothing but messages has been reported as long as nothing was rejected. -/
  quiet : (c.decoder.consume stream).stop = none →
    r.calls.flatten = (delivered (c.decoder.consume stream).values).map .message
  /-- The last call has reported what the decoder has stopped with. -/
  reported : ∀ code, (c.decoder.consume stream).stop = some code →
    ∃ earlier, ∃ messages : List M, r.calls = earlier ++ [messages.map .message ++ [.error code]]

theorem fed_new (c : ProtobufCodecLite M) (initialSize : Nat) :
    c.Fed [] (Receiver.new initialSize) := by
  have hnil := Decoder.consume_more c.decoder.look_nil
  refine ⟨?_, ?_, ?_, ?_⟩
  · rw [hnil]
    exact Buffer.readable_new _
  · rw [hnil]
    rfl
  · rw [hnil]
    exact fun _ => rfl
  · rw [hnil]
    exact nofun

theorem fed_receive {stream chunk : Bytes} {r : Receiver M} (hfed : c.Fed stream r) :
    ∃ next, c.receive r chunk = .ok next ∧ c.Fed (stream ++ chunk) next := by
  obtain ⟨next, hnext, hinput, hcalls⟩ := c.receive_spec r chunk
  have happend := c.decoder.consume_append stream chunk
  rw [hfed.input_eq] at hinput hcalls
  generalize hlater : c.decoder.consume ((c.decoder.consume stream).rest ++ chunk) = later
    at happend hinput hcalls
  refine ⟨next, hnext, ?_, ?_, ?_, ?_⟩
  · rw [happend, hinput, Parsed.behind_rest]
  · rw [Receiver.messages, hcalls, List.flatten_concat, List.filterMap_append, messages_report,
      happend, Parsed.behind_values, delivered, delivered, List.filterMap_append]
    exact congrArg (· ++ delivered later.values) hfed.messages_eq
  · intro hstop
    have hbefore := hfed.quiet (Decoder.stop_of_append hstop)
    rw [happend, Parsed.behind_stop] at hstop
    rw [happend, Parsed.behind_values, hcalls, List.flatten_concat, hbefore, report, hstop, delivered,
      delivered, delivered, List.filterMap_append, List.map_append, Option.toList_none, List.map_nil,
      List.append_nil]
  · intro code hstop
    rw [happend, Parsed.behind_stop] at hstop
    refine ⟨r.calls, delivered later.values, ?_⟩
    rw [hcalls, report, hstop]
    rfl

/-- However the bytes are cut into chunks, the receiver has consumed their concatenation. -/
theorem fed_run {stream : Bytes} {r : Receiver M} (hfed : c.Fed stream r) (chunks : List Bytes) :
    ∃ final, run c.receive r chunks = .ok final ∧ c.Fed (stream ++ chunks.flatten) final := by
  induction chunks generalizing stream r with
  | nil => exact ⟨r, rfl, by rwa [List.flatten_nil, List.append_nil]⟩
  | cons chunk chunks ih =>
      obtain ⟨next, hnext, hfed'⟩ := fed_receive hfed
      obtain ⟨final, hrun, hfinal⟩ := ih hfed'
      refine ⟨final, run_cons_ok.mpr ⟨next, hnext, hrun⟩, ?_⟩
      rwa [List.flatten_cons, ← List.append_assoc]

/-- At a rejected frame every further call reports the same error and leaves the bytes alone. -/
theorem stuck_run {r : Receiver M} {code : ErrorCode}
    (hreject : c.decoder.look r.input.readable = .reject code) (chunks : List Bytes) :
    ∃ final, run c.receive r chunks = .ok final ∧
      final.input.readable = r.input.readable ++ chunks.flatten ∧
      final.calls = r.calls ++ List.replicate chunks.length [.error code] := by
  induction chunks generalizing r with
  | nil => exact ⟨r, rfl, by simp, by simp⟩
  | cons chunk chunks ih =>
      obtain ⟨next, hnext, hinput, hcalls⟩ := c.receive_spec r chunk
      have hagain := c.decoder.reject_append chunk hreject
      rw [Decoder.consume_reject hagain] at hinput hcalls
      dsimp only at hinput
      obtain ⟨final, hrun, hreadable, hall⟩ := ih (hinput ▸ hagain)
      refine ⟨final, run_cons_ok.mpr ⟨next, hnext, hrun⟩, ?_, ?_⟩
      · rw [hreadable, hinput, List.flatten_cons, List.append_assoc]
      · rw [hall, hcalls, List.length_cons, List.replicate_succ, List.append_assoc]
        rfl

/-! ## Round trip -/

/-- The encoder turns every message that is not too long into a frame of it. -/
theorem fillEmptyBuffer_frames (hfaithful : c.Faithful) (initialSize : Nat) {messages : List M}
    (hshort : ∀ message ∈ messages,
      c.tag.length + c.byteSize message + kChecksumLen ≤ kMaxMessageLen) :
    ∃ frames, List.Forall₂ (fun message frame =>
        c.fillEmptyBuffer (Buffer.new initialSize) message = some frame) messages frames ∧
      List.Forall₂ c.IsWireFrame (frames.map Buffer.readable) messages := by
  induction messages with
  | nil => exact ⟨[], .nil, .nil⟩
  | cons message messages ih =>
      obtain ⟨frames, hfilled, hwire⟩ := ih fun later hlater => hshort later (by simp [hlater])
      obtain ⟨full, hfull, hreadable⟩ := fillEmptyBuffer_spec hfaithful message
        (Buffer.readable_new initialSize) (Nat.le_refl _)
      refine ⟨full :: frames, .cons hfull hfilled, .cons ⟨_, hreadable, ?_, ?_⟩ hwire⟩
      · rw [body_length, ← hfaithful.byteSize_eq]
        exact hshort message (by simp)
      · exact hfaithful.parse_serialize message

theorem delivered_some (messages : List M) : delivered (messages.map some) = messages := by
  rw [delivered, List.filterMap_map]
  exact List.filterMap_some

/-- The frames of the messages, received in chunks of any size, give back the messages in order. No
error is reported and nothing stays in the buffer. -/
theorem codec_round_trip (hraw : c.rawCb = none) (hfaithful : c.Faithful) (messages : List M)
    (hshort : ∀ message ∈ messages,
      c.tag.length + c.byteSize message + kChecksumLen ≤ kMaxMessageLen) (initialSize : Nat) :
    ∃ frames, List.Forall₂ (fun message frame =>
        c.fillEmptyBuffer (Buffer.new initialSize) message = some frame) messages frames ∧
      ∀ (size : Nat) (chunks : List Bytes), chunks.flatten = (frames.map Buffer.readable).flatten →
        ∃ final, run c.receive (Receiver.new size) chunks = .ok final ∧
          final.calls.flatten = messages.map .message ∧ final.input.readable = [] := by
  obtain ⟨frames, hfilled, hwire⟩ := fillEmptyBuffer_frames hfaithful initialSize hshort
  refine ⟨frames, hfilled, fun size chunks hchunks => ?_⟩
  obtain ⟨final, hrun, hfed⟩ := fed_run (c.fed_new size) chunks
  have hconsume := Decoder.consume_frames (forall₂_isFrame hraw hwire) []
  rw [List.append_nil, Decoder.consume_more c.decoder.look_nil] at hconsume
  rw [List.nil_append, hchunks] at hfed
  refine ⟨final, hrun, ?_, ?_⟩
  · rw [hfed.quiet (by rw [hconsume]; rfl), hconsume, Parsed.behind_values, List.append_nil,
      delivered_some]
  · rw [hfed.input_eq, hconsume]
    rfl

/-- zlib's `adler32(1, ..)`. -/
def zlibAdler32 (bytes : Bytes) : BitVec 32 :=
  let sums := bytes.foldl (fun (sums : Nat × Nat) byte =>
    let low := (sums.1 + byte.toNat) % 65521
    (low, (sums.2 + low) % 65521)) (1, 0)
  BitVec.ofNat 32 (sums.2 * 65536 + sums.1)

/-- The codec with the tag `RPC0` for messages that are their own serialization. -/
def plain : ProtobufCodecLite Bytes where
  tag := [82, 80, 67, 48]
  byteSize := List.length
  serializeWithCachedSizesToArray := id
  parseFromArray := some
  adler32 := zlibAdler32

theorem plain_faithful : plain.Faithful := ⟨fun _ => rfl, fun _ => rfl⟩

/-- Three messages, one of them empty, received byte by byte. -/
theorem codec_round_trip_bytewise :
    ∃ frames, List.Forall₂ (fun message frame =>
        plain.fillEmptyBuffer (Buffer.new 8) message = some frame) [[1, 2, 3], [], [4]] frames ∧
      ∃ final, run plain.receive (Receiver.new 8)
          ((frames.map Buffer.readable).flatten.map fun byte => [byte]) = .ok final ∧
        final.calls.flatten = [.message [1, 2, 3], .message [], .message [4]] ∧
        final.input.readable = [] := by
  obtain ⟨frames, hframes, hrun⟩ :=
    codec_round_trip rfl plain_faithful [[1, 2, 3], [], [4]] (by decide) 8
  refine ⟨frames, hframes, hrun 8 _ ?_⟩
  induction (frames.map Buffer.readable).flatten with
  | nil => rfl
  | cons byte bytes ih => rw [List.map_cons, List.flatten_cons, ih, List.singleton_append]

/-! ## Arbitrary input -/

/-- What a receiver has made of a stream. -/
structure Framed (c : ProtobufCodecLite M) (stream : Bytes) (r : Receiver M) : Prop where
  /-- The messages are those of the frames in front of the unread bytes, which begin with none. -/
  maximal : ∃ frames, List.Forall₂ c.IsWireFrame frames r.messages ∧
    stream = frames.flatten ++ r.input.readable ∧
    ∀ frame message later, c.IsWireFrame frame message → r.input.readable ≠ frame ++ later
  /-- A malformed frame in front of the unread bytes has been reported by the last call. Every further
  call reports the same error, delivers nothing, and adds the chunk to the unread bytes. -/
  stuck : ∀ code, c.Malformed r.input.readable code →
    (∃ earlier, ∃ messages : List M, r.calls = earlier ++ [messages.map .message ++ [.error code]]) ∧
    ∀ chunks, ∃ final, run c.receive r chunks = .ok final ∧
      final.messages = r.messages ∧
      final.input.readable = r.input.readable ++ chunks.flatten ∧
      final.calls = r.calls ++ List.replicate chunks.length [.error code]

theorem Fed.framed (hraw : c.rawCb = none) {stream : Bytes} {r : Receiver M}
    (hfed : c.Fed stream r) : c.Framed stream r := by
  refine ⟨?_, ?_⟩
  · obtain ⟨frames, hframes, hstream⟩ := c.decoder.consume_eq_frames stream
    refine ⟨frames, ?_, ?_, ?_⟩
    · rw [hfed.messages_eq]
      exact forall₂_isWireFrame hraw hframes
    · rw [hfed.input_eq]
      exact hstream
    · intro frame message later hframe
      rw [hfed.input_eq]
      exact Decoder.consume_rest_ne_frame stream (hframe.isFrame hraw) later
  · intro code hmalformed
    have hreject : c.decoder.look r.input.readable = .reject code := (examine_reject hraw).mpr hmalformed
    have hstop : (c.decoder.consume stream).stop = some code := by
      have hrest := c.decoder.consume_rest stream
      rw [← hfed.input_eq, Decoder.consume_reject hreject] at hrest
      exact (congrArg Parsed.stop hrest).symm
    refine ⟨hfed.reported code hstop, fun chunks => ?_⟩
    obtain ⟨final, hrun, hreadable, hcalls⟩ := stuck_run hreject chunks
    refine ⟨final, hrun, ?_, hreadable, hcalls⟩
    rw [Receiver.messages, hcalls, List.flatten_append, List.filterMap_append]
    have hnone : ((List.replicate chunks.length [Event.error code]).flatten).filterMap
        (Event.message? (M := M)) = [] := by
      rw [List.filterMap_eq_nil_iff]
      intro event hevent
      obtain ⟨events, hevents, hmem⟩ := List.mem_flatten.mp hevent
      rw [List.eq_of_mem_replicate hevents, List.mem_singleton] at hmem
      rw [hmem]
      rfl
    rw [hnone, List.append_nil]
    rfl

/-- Any stream, cut in any two ways: the same messages are delivered, those of the longest sequence of
frames at its front, and a malformed frame behind them stops the decoder for good. -/
theorem framing_of_any_input (hraw : c.rawCb = none) (size size' : Nat) (stream : Bytes)
    (chunks chunks' : List Bytes) (hchunks : chunks.flatten = stream)
    (hchunks' : chunks'.flatten = stream) :
    ∃ final final', run c.receive (Receiver.new size) chunks = .ok final ∧
      run c.receive (Receiver.new size') chunks' = .ok final' ∧
      final.messages = final'.messages ∧ final.input.readable = final'.input.readable ∧
      c.Framed stream final ∧ c.Framed stream final' := by
  obtain ⟨final, hrun, hfed⟩ := fed_run (c.fed_new size) chunks
  obtain ⟨final', hrun', hfed'⟩ := fed_run (c.fed_new size') chunks'
  rw [List.nil_append, hchunks] at hfed
  rw [List.nil_append, hchunks'] at hfed'
  refine ⟨final, final', hrun, hrun', ?_, ?_, hfed.framed hraw, hfed'.framed hraw⟩
  · rw [hfed.messages_eq, hfed'.messages_eq]
  · rw [hfed.input_eq, hfed'.input_eq]

/-- A frame with a wrong checksum between two that are well formed. -/
def spoiled : Bytes :=
  framed (plain.body [7]) ++ framed (plain.tag ++ [9, 0, 0, 0, 0]) ++ framed (plain.body [8])

/-- Received at once and in two pieces: the first message is delivered and the second frame reported. -/
theorem framing_of_any_input_spoiled :
    ∃ final final', run plain.receive (Receiver.new 8) [spoiled] = .ok final ∧
      run plain.receive (Receiver.new 8) [spoiled.take 5, spoiled.drop 5] = .ok final' ∧
      final.calls = [[.message [7], .error .kCheckSumError]] ∧
      final'.calls = [[], [.message [7], .error .kCheckSumError]] ∧
      final.messages = final'.messages ∧ plain.Framed spoiled final ∧ plain.Framed spoiled final' := by
  obtain ⟨final, final', hrun, hrun', hmessages, -, hframed, hframed'⟩ :=
    framing_of_any_input (show plain.rawCb = none from rfl) 8 8 spoiled [spoiled] [spoiled.take 5, spoiled.drop 5]
      (List.append_nil _) (by rw [List.flatten_cons, List.flatten_singleton, List.take_append_drop])
  obtain ⟨whole, hwhole, hcalls⟩ := exists_of_outcome plain.receive (Receiver.new 8) [spoiled]
    (fun r => decide (r.calls = [[.message [7], .error .kCheckSumError]])) (by decide +kernel)
  obtain ⟨cut, hcut, hcalls'⟩ := exists_of_outcome plain.receive (Receiver.new 8)
    [spoiled.take 5, spoiled.drop 5]
    (fun r => decide (r.calls = [[], [.message [7], .error .kCheckSumError]])) (by decide +kernel)
  obtain rfl := Except.ok.inj (hrun.symm.trans hwhole)
  obtain rfl := Except.ok.inj (hrun'.symm.trans hcut)
  exact ⟨final, final', hrun, hrun', of_decide_eq_true hcalls, of_decide_eq_true hcalls', hmessages,
    hframed, hframed'⟩

end ProtobufCodecLite
end Muduo
