import Mathlib.Data.List.Basic
import Mathlib.Tactic.Common
import Muduo.BigEndian
import Muduo.Lines

/-! `muduo::net::Buffer`: a vector of bytes with a reader index and a writer index. The bytes between
the two are the content. An operation whose assertion fails returns `none`. The index invariant of
the class comment is part of the type, so a buffer that violates it cannot be built, and the
operations are related to the content as a plain byte list. -/

namespace Muduo

abbrev Bytes := List UInt8

/-- The bytes of a text of ASCII characters. -/
def ascii (text : String) : Bytes := text.toList.map fun c => UInt8.ofNat c.toNat

namespace Buffer

def kCheapPrepend : Nat := 8
def kInitialSize : Nat := 1024

end Buffer

/-- `buffer_` with its two indices. The constructor allocates `kCheapPrepend` bytes in front and no
operation gives them back. -/
structure Buffer where
  buffer : Bytes
  readerIndex : Nat
  writerIndex : Nat
  reader_le_writer : readerIndex ≤ writerIndex
  writer_le_size : writerIndex ≤ buffer.length
  cheap_le_size : Buffer.kCheapPrepend ≤ buffer.length
  deriving DecidableEq, Repr

/-- `std::copy` of the data to the given position of a vector that is long enough. -/
def overwrite (bytes : Bytes) (position : Nat) (data : Bytes) : Bytes :=
  bytes.take position ++ data ++ bytes.drop (position + data.length)

theorem overwrite_length {bytes : Bytes} {position : Nat} {data : Bytes}
    (hfits : position + data.length ≤ bytes.length) :
    (overwrite bytes position data).length = bytes.length := by
  simp only [overwrite, List.length_append, List.length_take, List.length_drop]
  omega

theorem overwrite_take {bytes : Bytes} {position : Nat} {data : Bytes}
    (hfits : position + data.length ≤ bytes.length) :
    (overwrite bytes position data).take (position + data.length) = bytes.take position ++ data := by
  rw [overwrite, List.take_append_of_le_length]
  · apply List.take_of_length_le
    rw [List.length_append, List.length_take]
    omega
  · rw [List.length_append, List.length_take]
    omega

theorem overwrite_drop {bytes : Bytes} {position : Nat} {data : Bytes}
    (hposition : position ≤ bytes.length) :
    (overwrite bytes position data).drop position = data ++ bytes.drop (position + data.length) := by
  rw [overwrite, List.append_assoc, List.drop_append, List.drop_of_length_le (List.length_take_le _ _),
    List.nil_append, List.length_take, Nat.min_eq_left hposition, Nat.sub_self, List.drop_zero]

/-- `std::vector<char>::resize`. -/
def resize (bytes : Bytes) (size : Nat) : Bytes :=
  bytes.take size ++ List.replicate (size - bytes.length) 0

theorem resize_length (bytes : Bytes) (size : Nat) : (resize bytes size).length = size := by
  simp only [resize, List.length_append, List.length_take, List.length_replicate]
  omega

theorem resize_take {bytes : Bytes} {count size : Nat} (hcount : count ≤ bytes.length)
    (hsize : count ≤ size) : (resize bytes size).take count = bytes.take count := by
  rw [resize, List.take_append_of_le_length]
  · rw [List.take_take, Nat.min_eq_left hsize]
  · rw [List.length_take]
    omega

namespace Buffer

/-- The constructor. -/
def new (initialSize : Nat) : Buffer where
  buffer := List.replicate (kCheapPrepend + initialSize) 0
  readerIndex := kCheapPrepend
  writerIndex := kCheapPrepend
  reader_le_writer := Nat.le_refl _
  writer_le_size := by simp
  cheap_le_size := by simp

def readableBytes (b : Buffer) : Nat := b.writerIndex - b.readerIndex

def writableBytes (b : Buffer) : Nat := b.buffer.length - b.writerIndex

def prependableBytes (b : Buffer) : Nat := b.readerIndex

/-- The `readableBytes()` bytes from `peek()` on: the content. -/
def readable (b : Buffer) : Bytes := (b.buffer.take b.writerIndex).drop b.readerIndex

theorem readable_length (b : Buffer) : b.readable.length = b.readableBytes := by
  have := b.writer_le_size
  rw [readable, List.length_drop, List.length_take, readableBytes]
  omega

theorem readableBytes_eq_zero (b : Buffer) : b.readableBytes = 0 ↔ b.readable = [] := by
  rw [← readable_length, List.length_eq_zero_iff]

@[simp] theorem readable_new (initialSize : Nat) : (new initialSize).readable = [] := by
  rw [← readableBytes_eq_zero]
  simp [new, readableBytes]

def retrieveAll (b : Buffer) : Buffer where
  buffer := b.buffer
  readerIndex := kCheapPrepend
  writerIndex := kCheapPrepend
  reader_le_writer := Nat.le_refl _
  writer_le_size := b.cheap_le_size
  cheap_le_size := b.cheap_le_size

theorem readable_retrieveAll (b : Buffer) : b.retrieveAll.readable = [] := by
  rw [← readableBytes_eq_zero]
  simp [retrieveAll, readableBytes]

def retrieve (b : Buffer) (len : Nat) : Option Buffer :=
  -- assert(len <= readableBytes())
  if hlen : len ≤ b.readableBytes then
    if len < b.readableBytes then
      some { b with
        readerIndex := b.readerIndex + len
        reader_le_writer := by
          have := b.reader_le_writer
          simp only [readableBytes] at hlen
          omega }
    else some b.retrieveAll
  else none

/-- Retrieving within the content drops its front, also where the indices are reset. -/
theorem retrieve_readable {b : Buffer} {len : Nat} (hlen : len ≤ b.readableBytes) :
    ∃ rest, b.retrieve len = some rest ∧ rest.readable = b.readable.drop len := by
  rw [retrieve, dif_pos hlen]
  by_cases hlt : len < b.readableBytes
  · rw [if_pos hlt]
    refine ⟨_, rfl, ?_⟩
    simp only [readable, List.drop_drop]
  · rw [if_neg hlt]
    refine ⟨_, rfl, ?_⟩
    rw [readable_retrieveAll, List.drop_of_length_le]
    rw [readable_length]
    omega

/-- `retrieveUntil`, with the position of its argument in `buffer_`. -/
def retrieveUntil (b : Buffer) (position : Nat) : Option Buffer :=
  -- assert(peek() <= end) and assert(end <= beginWrite())
  if b.readerIndex ≤ position ∧ position ≤ b.writerIndex then b.retrieve (position - b.readerIndex)
  else none

/-- The two characters of `kCRLF`. -/
def kCR : UInt8 := 13
def kLF : UInt8 := 10

/-- `findCRLF`, as an offset from `peek()`. -/
def findCRLF (b : Buffer) : Option Nat := Lines.find kCR kLF b.readable

/-- The string made of the first bytes of the content, and the buffer without them. -/
def retrieveAsString (b : Buffer) (len : Nat) : Option (Bytes × Buffer) :=
  -- assert(len <= readableBytes())
  if len ≤ b.readableBytes then (b.retrieve len).map fun rest => (b.readable.take len, rest)
  else none

theorem retrieveUntil_readable {b : Buffer} {offset : Nat} (hoffset : offset ≤ b.readableBytes) :
    ∃ rest, b.retrieveUntil (b.readerIndex + offset) = some rest ∧
      rest.readable = b.readable.drop offset := by
  have hreader := b.reader_le_writer
  have hend : b.readerIndex + offset ≤ b.writerIndex := by
    simp only [readableBytes] at hoffset
    omega
  rw [retrieveUntil, if_pos ⟨Nat.le_add_right _ _, hend⟩, Nat.add_sub_cancel_left]
  exact retrieve_readable hoffset

theorem retrieveAsString_readable {b : Buffer} {len : Nat} (hlen : len ≤ b.readableBytes) :
    ∃ rest, b.retrieveAsString len = some (b.readable.take len, rest) ∧
      rest.readable = b.readable.drop len := by
  obtain ⟨rest, hrest, hcontent⟩ := retrieve_readable hlen
  exact ⟨rest, by rw [retrieveAsString, if_pos hlen, hrest]; rfl, hcontent⟩

/-- The last bytes of the content are taken back. -/
def unwrite (b : Buffer) (len : Nat) : Option Buffer :=
  -- assert(len <= readableBytes())
  if hlen : len ≤ b.readableBytes then
    some { b with
      writerIndex := b.writerIndex - len
      reader_le_writer := by
        have := b.reader_le_writer
        simp only [readableBytes] at hlen
        omega
      writer_le_size := by
        have := b.writer_le_size
        omega }
  else none

theorem unwrite_readable {b : Buffer} {len : Nat} (hlen : len ≤ b.readableBytes) :
    ∃ shorter, b.unwrite len = some shorter ∧
      shorter.readable = b.readable.take (b.readable.length - len) := by
  have hwriter := b.writer_le_size
  have hreader := b.reader_le_writer
  rw [unwrite, dif_pos hlen]
  refine ⟨_, rfl, ?_⟩
  rw [readable_length]
  simp only [readable, readableBytes] at hlen ⊢
  rw [List.take_drop, List.take_take]
  congr 2
  omega

/-- `prepend`: the bytes are copied to the place in front of the content. -/
def prepend (b : Buffer) (data : Bytes) : Option Buffer :=
  -- assert(len <= prependableBytes())
  if hlen : data.length ≤ b.prependableBytes then
    have hfits : b.readerIndex - data.length + data.length ≤ b.buffer.length := by
      have := b.reader_le_writer
      have := b.writer_le_size
      simp only [prependableBytes] at hlen
      omega
    some {
      buffer := overwrite b.buffer (b.readerIndex - data.length) data
      readerIndex := b.readerIndex - data.length
      writerIndex := b.writerIndex
      reader_le_writer := by have := b.reader_le_writer; omega
      writer_le_size := by rw [overwrite_length hfits]; exact b.writer_le_size
      cheap_le_size := by rw [overwrite_length hfits]; exact b.cheap_le_size }
  else none

theorem prepend_readable {b : Buffer} {data : Bytes} (hlen : data.length ≤ b.prependableBytes) :
    ∃ longer, b.prepend data = some longer ∧ longer.readable = data ++ b.readable := by
  have hreader := b.reader_le_writer
  have hwriter := b.writer_le_size
  rw [prepend, dif_pos hlen]
  refine ⟨_, rfl, ?_⟩
  simp only [prependableBytes] at hlen
  have hplace : b.readerIndex - data.length + data.length = b.readerIndex := by omega
  simp only [readable]
  rw [List.drop_take, List.drop_take, overwrite_drop (by omega), hplace, List.take_append,
    List.take_of_length_le (by omega)]
  congr 2
  omega

/-- `makeSpace`, which `ensureWritableBytes` calls when the writable bytes do not suffice. -/
def makeSpace (b : Buffer) (len : Nat) (hlen : b.writableBytes < len) : Option Buffer :=
  if b.writableBytes + b.prependableBytes < len + kCheapPrepend then
    some { b with
      buffer := resize b.buffer (b.writerIndex + len)
      writer_le_size := by rw [resize_length]; omega
      cheap_le_size := by
        have := b.cheap_le_size
        simp only [writableBytes] at hlen
        rw [resize_length]
        omega }
  -- assert(kCheapPrepend < readerIndex_)
  else if hfront : kCheapPrepend < b.readerIndex then
    have hfits : kCheapPrepend + b.readable.length ≤ b.buffer.length := by
      have := b.reader_le_writer
      have := b.writer_le_size
      rw [readable_length, readableBytes]
      omega
    some {
      buffer := overwrite b.buffer kCheapPrepend b.readable
      readerIndex := kCheapPrepend
      writerIndex := kCheapPrepend + b.readableBytes
      reader_le_writer := Nat.le_add_right _ _
      writer_le_size := by rw [overwrite_length hfits, ← readable_length]; exact hfits
      cheap_le_size := by rw [overwrite_length hfits]; exact b.cheap_le_size }
  else none

/-- `makeSpace` never fails its assertion, keeps the content, and makes the bytes writable: on the
resize path and on the path that moves the content to the front. -/
theorem makeSpace_spec (b : Buffer) (len : Nat) (hlen : b.writableBytes < len) :
    ∃ wide, b.makeSpace len hlen = some wide ∧ wide.readable = b.readable ∧
      len ≤ wide.writableBytes := by
  have hreader := b.reader_le_writer
  have hwriter := b.writer_le_size
  have hcount := b.readable_length
  rw [makeSpace]
  by_cases hresize : b.writableBytes + b.prependableBytes < len + kCheapPrepend
  · rw [if_pos hresize]
    refine ⟨_, rfl, ?_, ?_⟩
    · simp only [readable]
      rw [resize_take hwriter (Nat.le_add_right _ _)]
    · simp only [writableBytes, resize_length]
      omega
  · rw [if_neg hresize]
    have hfront : kCheapPrepend < b.readerIndex := by
      simp only [writableBytes, prependableBytes] at hlen hresize
      omega
    have hfits : kCheapPrepend + b.readable.length ≤ b.buffer.length := by
      rw [hcount, readableBytes]
      omega
    rw [dif_pos hfront]
    refine ⟨_, rfl, ?_, ?_⟩
    · simp only [readable, readableBytes] at hcount hfits ⊢
      rw [← hcount, overwrite_take hfits, List.drop_append_of_le_length]
      · rw [List.drop_of_length_le, List.nil_append]
        exact List.length_take_le _ _
      · rw [List.length_take]
        omega
    · simp only [writableBytes, prependableBytes] at hresize ⊢
      rw [overwrite_length hfits, readableBytes]
      omega

def ensureWritableBytes (b : Buffer) (len : Nat) : Option Buffer :=
  if hlen : b.writableBytes < len then b.makeSpace len hlen else some b

theorem ensureWritableBytes_spec (b : Buffer) (len : Nat) :
    ∃ wide, b.ensureWritableBytes len = some wide ∧ wide.readable = b.readable ∧
      len ≤ wide.writableBytes := by
  rw [ensureWritableBytes]
  by_cases hlen : b.writableBytes < len
  · rw [dif_pos hlen]
    exact b.makeSpace_spec len hlen
  · rw [dif_neg hlen]
    exact ⟨b, rfl, rfl, by omega⟩

/-- The bytes copied to `beginWrite()` followed by `hasWritten`, whose assertion is the bound. -/
def write (b : Buffer) (data : Bytes) : Option Buffer :=
  if hlen : data.length ≤ b.writableBytes then
    have hfits : b.writerIndex + data.length ≤ b.buffer.length := by
      have := b.writer_le_size
      simp only [writableBytes] at hlen
      omega
    some {
      buffer := overwrite b.buffer b.writerIndex data
      readerIndex := b.readerIndex
      writerIndex := b.writerIndex + data.length
      reader_le_writer := by have := b.reader_le_writer; omega
      writer_le_size := by rw [overwrite_length hfits]; exact hfits
      cheap_le_size := by rw [overwrite_length hfits]; exact b.cheap_le_size }
  else none

theorem write_readable {b : Buffer} {data : Bytes} (hlen : data.length ≤ b.writableBytes) :
    ∃ longer, b.write data = some longer ∧ longer.readable = b.readable ++ data := by
  have hreader := b.reader_le_writer
  have hwriter := b.writer_le_size
  rw [write, dif_pos hlen]
  refine ⟨_, rfl, ?_⟩
  simp only [writableBytes] at hlen
  simp only [readable]
  rw [overwrite_take (by omega), List.drop_append_of_le_length]
  rw [List.length_take]
  omega

/-- Bytes are written from `beginWrite()` on, within the writable ones. -/
def fill (b : Buffer) (data : Bytes) : Option Buffer :=
  if hlen : data.length ≤ b.writableBytes then
    have hfits : b.writerIndex + data.length ≤ b.buffer.length := by
      have := b.writer_le_size
      simp only [writableBytes] at hlen
      omega
    some { b with
      buffer := overwrite b.buffer b.writerIndex data
      writer_le_size := by rw [overwrite_length hfits]; exact b.writer_le_size
      cheap_le_size := by rw [overwrite_length hfits]; exact b.cheap_le_size }
  else none

def hasWritten (b : Buffer) (len : Nat) : Option Buffer :=
  -- assert(len <= writableBytes())
  if hlen : len ≤ b.writableBytes then
    some { b with
      writerIndex := b.writerIndex + len
      reader_le_writer := by have := b.reader_le_writer; omega
      writer_le_size := by
        have := b.writer_le_size
        simp only [writableBytes] at hlen
        omega }
  else none

/-- What has been written becomes content as far as `hasWritten` says. -/
theorem fill_hasWritten_readable {b : Buffer} {data : Bytes} {len : Nat}
    (hdata : data.length ≤ b.writableBytes) (hlen : len ≤ data.length) :
    ∃ longer, ((b.fill data).bind fun filled => filled.hasWritten len) = some longer ∧
      longer.readable = b.readable ++ data.take len := by
  have hreader := b.reader_le_writer
  have hwriter := b.writer_le_size
  have hfits : b.writerIndex + data.length ≤ b.buffer.length := by
    simp only [writableBytes] at hdata
    omega
  rw [fill, dif_pos hdata, Option.bind_some, hasWritten, dif_pos]
  · refine ⟨_, rfl, ?_⟩
    simp only [readable]
    have hcontent : (overwrite b.buffer b.writerIndex data).take (b.writerIndex + len) =
        b.buffer.take b.writerIndex ++ data.take len := by
      rw [← Nat.min_eq_left (Nat.add_le_add_left hlen b.writerIndex), ← List.take_take,
        overwrite_take hfits, List.take_append, List.take_of_length_le
        (Nat.le_trans (List.length_take_le _ _) (Nat.le_add_right _ _)), List.length_take,
        Nat.min_eq_left hwriter, Nat.add_sub_cancel_left]
    rw [hcontent, List.drop_append_of_le_length]
    rw [List.length_take]
    omega
  · simp only [writableBytes]
    rw [overwrite_length hfits]
    omega

def append (b : Buffer) (data : Bytes) : Option Buffer :=
  (b.ensureWritableBytes data.length).bind fun wide => wide.write data

/-- Appending never fails an assertion and adds the data behind the content. -/
theorem append_readable (b : Buffer) (data : Bytes) :
    ∃ longer, b.append data = some longer ∧ longer.readable = b.readable ++ data := by
  obtain ⟨wide, hwide, hcontent, hspace⟩ := b.ensureWritableBytes_spec data.length
  obtain ⟨longer, hlonger, hresult⟩ := write_readable hspace
  refine ⟨longer, ?_, ?_⟩
  · rw [append, hwide, Option.bind_some, hlonger]
  · rw [hresult, hcontent]

/-! Writing never takes bytes away in front of the content: the cheap prepend room stays. -/

theorem makeSpace_front {b wide : Buffer} {len : Nat} {hlen : b.writableBytes < len}
    (hwide : b.makeSpace len hlen = some wide) (hfront : kCheapPrepend ≤ b.prependableBytes) :
    kCheapPrepend ≤ wide.prependableBytes := by
  rw [makeSpace] at hwide
  by_cases hresize : b.writableBytes + b.prependableBytes < len + kCheapPrepend
  · rw [if_pos hresize] at hwide
    cases hwide
    exact hfront
  · rw [if_neg hresize] at hwide
    by_cases hmove : kCheapPrepend < b.readerIndex
    · rw [dif_pos hmove] at hwide
      cases hwide
      exact Nat.le_refl _
    · rw [dif_neg hmove] at hwide
      exact absurd hwide (by simp)

theorem ensureWritableBytes_front {b wide : Buffer} {len : Nat}
    (hwide : b.ensureWritableBytes len = some wide) (hfront : kCheapPrepend ≤ b.prependableBytes) :
    kCheapPrepend ≤ wide.prependableBytes := by
  rw [ensureWritableBytes] at hwide
  by_cases hlen : b.writableBytes < len
  · rw [dif_pos hlen] at hwide
    exact makeSpace_front hwide hfront
  · rw [dif_neg hlen] at hwide
    cases hwide
    exact hfront

theorem write_front {b longer : Buffer} {data : Bytes} (hlonger : b.write data = some longer) :
    longer.prependableBytes = b.prependableBytes := by
  rw [write] at hlonger
  split at hlonger
  · cases hlonger
    rfl
  · exact absurd hlonger (by simp)

theorem fill_front {b filled : Buffer} {data : Bytes} (hfilled : b.fill data = some filled) :
    filled.prependableBytes = b.prependableBytes := by
  rw [fill] at hfilled
  split at hfilled
  · cases hfilled
    rfl
  · exact absurd hfilled (by simp)

theorem hasWritten_front {b longer : Buffer} {len : Nat} (hlonger : b.hasWritten len = some longer) :
    longer.prependableBytes = b.prependableBytes := by
  rw [hasWritten] at hlonger
  split at hlonger
  · cases hlonger
    rfl
  · exact absurd hlonger (by simp)

theorem append_front {b longer : Buffer} {data : Bytes} (hlonger : b.append data = some longer)
    (hfront : kCheapPrepend ≤ b.prependableBytes) : kCheapPrepend ≤ longer.prependableBytes := by
  obtain ⟨wide, hwide, hwrite⟩ := Option.bind_eq_some_iff.mp hlonger
  rw [write_front hwrite]
  exact ensureWritableBytes_front hwide hfront

end Buffer

/-- The four bytes of an `int32_t` after `hostToNetwork32`, as they lie in memory. -/
def hostToNetwork32 (x : BitVec 32) : Bytes := BigEndian.encode 4 x.toNat

/-- Four bytes copied into an `int32_t`, and `networkToHost32` of it. -/
def networkToHost32 (bytes : Bytes) : BitVec 32 := BitVec.ofNat 32 (BigEndian.decode bytes)

@[simp] theorem hostToNetwork32_length (x : BitVec 32) : (hostToNetwork32 x).length = 4 :=
  BigEndian.encode_length _ _

@[simp] theorem networkToHost32_hostToNetwork32 (x : BitVec 32) :
    networkToHost32 (hostToNetwork32 x) = x := by
  have hfits : x.toNat < 256 ^ 4 := x.isLt
  rw [networkToHost32, hostToNetwork32, BigEndian.decode_encode, Nat.mod_eq_of_lt hfits,
    BitVec.ofNat_toNat, BitVec.setWidth_eq]

theorem hostToNetwork32_networkToHost32 {bytes : Bytes} (hlength : bytes.length = 4) :
    hostToNetwork32 (networkToHost32 bytes) = bytes := by
  have hfits : BigEndian.decode bytes < 2 ^ 32 := by
    have hlt := BigEndian.decode_lt bytes
    rwa [hlength] at hlt
  have hvalue : (networkToHost32 bytes).toNat = BigEndian.decode bytes :=
    (BitVec.toNat_ofNat _ _).trans (Nat.mod_eq_of_lt hfits)
  rw [hostToNetwork32, hvalue, ← hlength, BigEndian.encode_decode]

namespace Buffer

def appendInt32 (b : Buffer) (x : BitVec 32) : Option Buffer := b.append (hostToNetwork32 x)

def peekInt32 (b : Buffer) : Option (BitVec 32) :=
  -- assert(readableBytes() >= sizeof(int32_t))
  if 4 ≤ b.readableBytes then some (networkToHost32 (b.readable.take 4)) else none

end Buffer
end Muduo
