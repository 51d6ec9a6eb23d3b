import Muduo.ProtobufCodecStreams

/-! The limits on the length of a frame. The decoder enforces them and the encoder does not: it frames
every message, however long, and the frame of a message that is too long is refused by every codec with
the same tag. -/

namespace Muduo
namespace ProtobufCodecLite

open Framing

variable {M : Type} {c : ProtobufCodecLite M}

/-- Where `serializeToBuffer` goes through, it has added the serialized message. -/
theorem serializeToBuffer_readable (hfaithful : c.Faithful) {message : M} {buf filled : Buffer}
    (hfilled : c.serializeToBuffer message buf = some filled) :
    filled.readable = buf.readable ++ c.serializeWithCachedSizesToArray message := by
  have hsize := hfaithful.byteSize_eq message
  obtain ⟨wide, hwide, hcontent, hspace⟩ :=
    buf.ensureWritableBytes_spec (c.byteSize message + kChecksumLen)
  have hfits : (c.serializeWithCachedSizesToArray message).length ≤ wide.writableBytes := by omega
  obtain ⟨longer, hlonger, hresult⟩ := Buffer.fill_hasWritten_readable hfits (Nat.le_of_eq hsize)
  obtain ⟨written, hfill, hhas⟩ := Option.bind_eq_some_iff.mp hlonger
  simp only [serializeToBuffer, hwide, hfill, Option.bind_eq_bind, Option.bind_some] at hfilled
  rw [if_neg (not_not_intro hsize.symm)] at hfilled
  obtain rfl := Option.some.inj (hfilled.symm.trans hhas)
  rw [hresult, hcontent, hsize, List.take_length]

/-- Where the encoder goes through, it leaves the frame of the serialized message. -/
theorem fillEmptyBuffer_readable (hfaithful : c.Faithful) {message : M} {buf full : Buffer}
    (hfull : c.fillEmptyBuffer buf message = some full) :
    full.readable = framed (c.body (c.serializeWithCachedSizesToArray message)) := by
  rw [fillEmptyBuffer] at hfull
  split at hfull
  · cases hfull
  · rename_i hzero
    have hempty : buf.readable = [] := buf.readableBytes_eq_zero.mp (not_not.mp hzero)
    obtain ⟨tagged, htagged, hfull⟩ := Option.bind_eq_some_iff.mp hfull
    obtain ⟨filled, hfilled, hfull⟩ := Option.bind_eq_some_iff.mp hfull
    obtain ⟨summed, hsummed, hfull⟩ := Option.bind_eq_some_iff.mp hfull
    split at hfull
    · cases hfull
    · obtain ⟨longer, hlonger, htag⟩ := buf.append_readable c.tag
      obtain rfl := Option.some.inj (htagged.symm.trans hlonger)
      obtain ⟨last, hlast, hsum⟩ := filled.append_readable (hostToNetwork32 (c.checksum filled.readable))
      obtain rfl := Option.some.inj (hsummed.symm.trans hlast)
      have hbody : summed.readable = c.body (c.serializeWithCachedSizesToArray message) := by
        rw [hsum, serializeToBuffer_readable hfaithful hfilled, htag, hempty, List.nil_append, body]
      have hroom : (hostToNetwork32 (BitVec.ofNat 32 summed.readableBytes)).length ≤
          summed.prependableBytes := by
        by_contra hnone
        rw [Buffer.prepend, dif_neg hnone] at hfull
        cases hfull
      obtain ⟨framed', hframed, hresult⟩ := Buffer.prepend_readable hroom
      obtain rfl := Option.some.inj (hfull.symm.trans hframed)
      rw [hresult, framed, ← hbody, summed.readable_length]

/-- `onMessage` takes the whole buffer and reports no error. -/
def Accepts (c : ProtobufCodecLite M) (frame : Buffer) : Prop :=
  ∃ rest events, c.onMessage frame = some (rest, events) ∧ rest.readable = [] ∧
    ∀ code, .error code ∉ events

/-- A body of an admissible length is parsed, unless the raw message callback keeps the frame. -/
theorem examine_body {payload : Bytes} {message : M} (hparse : c.parseFromArray payload = some message)
    (hmax : (c.body payload).length ≤ kMaxMessageLen) :
    ∃ value, c.examine (framed (c.body payload)) =
      .frame value (framed (c.body payload)).length := by
  have hmin : c.kMinMessageLen ≤ (c.body payload).length := by
    rw [kMinMessageLen, body_length]
    omega
  have hframed := examine_framed_raw hmin hmax []
  rw [List.append_nil, parse_body, hparse] at hframed
  rw [hframed]
  split
  · exact ⟨some message, rfl⟩
  · exact ⟨none, rfl⟩

/-- **What the encoder writes and what the decoder takes.** The frame of a message has a length field that
counts the bytes behind it, lies within the limits, and is accepted by a codec with the same tag, just when
the tag, the serialized message and the checksum together are no longer than `kMaxMessageLen`. -/
theorem frame_accepted_iff (c : ProtobufCodecLite M) (hfaithful : c.Faithful) (message : M)
    (buf full : Buffer) (hfull : c.fillEmptyBuffer buf message = some full) :
    (lengthField full.readable = full.readableBytes - kHeaderLen ∧
      c.kMinMessageLen ≤ lengthField full.readable ∧ lengthField full.readable ≤ kMaxMessageLen ∧
      c.Accepts full) ↔
    c.tag.length + c.byteSize message + kChecksumLen ≤ kMaxMessageLen := by
  have hreadable := fillEmptyBuffer_readable hfaithful hfull
  have hbody : (c.body (c.serializeWithCachedSizesToArray message)).length =
      c.tag.length + c.byteSize message + kChecksumLen := by
    rw [body_length, hfaithful.byteSize_eq]
  have hcount : full.readableBytes =
      kHeaderLen + (c.body (c.serializeWithCachedSizesToArray message)).length := by
    rw [← full.readable_length, hreadable, framed_length]
  constructor
  · rintro ⟨hfield, -, hmax, -⟩
    rw [hcount, hbody] at hfield
    omega
  · intro hshort
    rw [← hbody] at hshort
    obtain ⟨value, hexamine⟩ := examine_body (hfaithful.parse_serialize message) hshort
    have hlook : c.decoder.look full.readable = .frame value full.readable.length := by
      rw [hreadable]
      exact hexamine
    obtain ⟨hmin, hmax, hlength, -⟩ := examine_frame hlook
    rw [full.readable_length] at hlength
    refine ⟨by omega, hmin, hmax, ?_⟩
    obtain ⟨last, hcall, hrest⟩ := c.onMessage_spec full
    rw [Decoder.consume_frame hlook, List.drop_length,
      Decoder.consume_more c.decoder.look_nil] at hcall hrest
    refine ⟨last, _, hcall, hrest, fun code herror => ?_⟩
    cases value with
    | none => cases herror
    | some value => cases herror with
      | tail _ hmem => cases hmem

/-- A message of three bytes. -/
theorem frame_accepted_short :
    plain.Faithful ∧ ∃ full, plain.fillEmptyBuffer (Buffer.new 8) [1, 2, 3] = some full ∧
      lengthField full.readable = full.readableBytes - kHeaderLen ∧ plain.Accepts full := by
  obtain ⟨full, hfull, -⟩ := fillEmptyBuffer_spec plain_faithful [1, 2, 3] (Buffer.readable_new 8)
    (Nat.le_refl _)
  obtain ⟨hfield, -, -, haccepts⟩ :=
    (frame_accepted_iff plain plain_faithful [1, 2, 3] (Buffer.new 8) full hfull).mpr (by decide)
  exact ⟨plain_faithful, full, hfull, hfield, haccepts⟩

/-- A frame that is too long is refused by its length, also where that has become negative. -/
theorem oversized_refused (hfaithful : c.Faithful) {message : M} {buf full : Buffer}
    (hfull : c.fillEmptyBuffer buf message = some full)
    (hmax : kMaxMessageLen < c.tag.length + c.byteSize message + kChecksumLen)
    (hfits : c.tag.length + c.byteSize message + kChecksumLen < 2 ^ 32) :
    ∃ last, c.onMessage full = some (last, [.error .kInvalidLength]) := by
  have hbody : (c.body (c.serializeWithCachedSizesToArray message)).length =
      c.tag.length + c.byteSize message + kChecksumLen := by
    rw [body_length, hfaithful.byteSize_eq]
  have hmin : c.kMinMessageLen ≤ (c.body (c.serializeWithCachedSizesToArray message)).length := by
    rw [hbody, kMinMessageLen]
    omega
  rw [← hbody] at hmax hfits
  have hlook : c.decoder.look full.readable = .reject .kInvalidLength := by
    have hrefused := examine_oversized hmin hmax hfits []
    rw [List.append_nil, ← fillEmptyBuffer_readable hfaithful hfull] at hrefused
    exact hrefused
  obtain ⟨last, hcall, -⟩ := c.onMessage_spec full
  rw [Decoder.consume_reject hlook] at hcall
  exact ⟨last, hcall⟩

/-- A message of 64 MiB is framed, and `onMessage` of the same codec refuses the length of the frame. -/
theorem own_frame_refused :
    ∃ message : Bytes, message.length = 64 * 1024 * 1024 ∧
      ∃ full, plain.fillEmptyBuffer (Buffer.new 8) message = some full ∧
        ∃ last, plain.onMessage full = some (last, [.error .kInvalidLength]) := by
  obtain ⟨message, hlength⟩ : ∃ message : Bytes, message.length = 64 * 1024 * 1024 :=
    ⟨List.replicate (64 * 1024 * 1024) 0, List.length_replicate⟩
  obtain ⟨full, hfull, -⟩ := fillEmptyBuffer_spec plain_faithful message (Buffer.readable_new 8)
    (Nat.le_refl _)
  have hcount : plain.tag.length + plain.byteSize message + kChecksumLen = 64 * 1024 * 1024 + 8 := by
    show 4 + message.length + 4 = _
    rw [hlength]
  refine ⟨message, hlength, full, hfull, oversized_refused plain_faithful hfull ?_ ?_⟩
  · rw [hcount]
    decide
  · rw [hcount]
    decide

end ProtobufCodecLite
end Muduo
