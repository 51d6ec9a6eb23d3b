import Muduo.Buffer

/-! `muduo::StringPiece`, whose length is an `int`, and the members of `muduo::net::Buffer` that depend on
how wide the integers are: `append` of a piece, and `shrink`, which asks for a number of bytes that need
not exist anywhere. Sums of sizes are taken in `size_t` here. -/

namespace Muduo

/-- `StringPiece`: the bytes it was made of, and `length_`. -/
structure StringPiece where
  data : Bytes
  length : BitVec 32

namespace StringPiece

/-- The constructors, which cast the number of bytes to `int`. -/
def ofBytes (data : Bytes) : StringPiece := ⟨data, BitVec.ofNat 32 data.length⟩

/-- `size()` where a `size_t` is expected. -/
def size (piece : StringPiece) : Nat := (piece.length.signExtend 64).toNat

theorem size_ofBytes {data : Bytes} (hdata : data.length < 2 ^ 31) : (ofBytes data).size = data.length := by
  have hnat : (BitVec.ofNat 32 data.length).toNat = data.length := by
    rw [BitVec.toNat_ofNat]
    omega
  have hsign : (BitVec.ofNat 32 data.length).msb = false := by
    rw [BitVec.msb_eq_false_iff_two_mul_lt, hnat]
    omega
  rw [size, ofBytes, BitVec.signExtend_eq_setWidth_of_msb_false hsign, BitVec.toNat_setWidth, hnat]
  omega

/-- A length that survives both casts is below `2^31`, or beyond every object. -/
theorem length_of_size {data : Bytes} (hsize : (ofBytes data).size = data.length) :
    data.length < 2 ^ 31 ∨ 2 ^ 63 ≤ data.length := by
  cases hsign : (BitVec.ofNat 32 data.length).msb with
  | false =>
      have hnat : (BitVec.ofNat 32 data.length).toNat = data.length := by
        rw [size, ofBytes, BitVec.signExtend_eq_setWidth_of_msb_false hsign, BitVec.toNat_setWidth]
          at hsize
        have hlt := (BitVec.ofNat 32 data.length).isLt
        omega
      rw [BitVec.msb_eq_false_iff_two_mul_lt, hnat] at hsign
      omega
  | true =>
      have hmsb : ((BitVec.ofNat 32 data.length).signExtend 64).msb = true := by
        rw [BitVec.msb_signExtend, hsign]
        rfl
      rw [BitVec.msb_eq_true_iff_two_mul_ge] at hmsb
      have hcast : ((BitVec.ofNat 32 data.length).signExtend 64).toNat = data.length := hsize
      omega

end StringPiece

namespace Buffer

/-- `max_size()` of the vector. -/
def maxSize : Nat := 2 ^ 63 - 1

/-- A sum in `size_t`. -/
def sizeSum (a b : Nat) : Nat := (a + b) % 2 ^ 64

/-- The content fits behind the cheap prepend room when it is moved there. -/
theorem moved_le {b : Buffer} (hfront : kCheapPrepend < b.readerIndex) :
    kCheapPrepend + b.readableBytes ≤ (overwrite b.buffer kCheapPrepend b.readable).length := by
  have hreader := b.reader_le_writer
  have hwriter := b.writer_le_size
  have hfits : kCheapPrepend + b.readable.length ≤ b.buffer.length := by
    rw [readable_length, readableBytes]
    omega
  rw [overwrite_length hfits, ← readable_length]
  exact hfits

theorem cheap_le_moved {b : Buffer} (hfront : kCheapPrepend < b.readerIndex) :
    kCheapPrepend ≤ (overwrite b.buffer kCheapPrepend b.readable).length :=
  Nat.le_trans (Nat.le_add_right _ _) (moved_le hfront)

theorem cheap_le_writer (b : Buffer) : kCheapPrepend ≤ kCheapPrepend + b.readableBytes :=
  Nat.le_add_right _ _

/-- `makeSpace`, for a number of bytes that may be too large for any vector. -/
def makeSpaceSize (b : Buffer) (len : Nat) : Option Buffer :=
  if sizeSum b.writableBytes b.prependableBytes < sizeSum len kCheapPrepend then
    -- resize throws std::length_error beyond max_size(), and when the sum wraps around the vector is
    -- cut off in front of the writer index
    if hsize : b.writerIndex ≤ sizeSum b.writerIndex len ∧ kCheapPrepend ≤ sizeSum b.writerIndex len ∧
        sizeSum b.writerIndex len ≤ maxSize then
      some { b with
        buffer := resize b.buffer (sizeSum b.writerIndex len)
        writer_le_size := by rw [resize_length]; exact hsize.1
        cheap_le_size := by rw [resize_length]; exact hsize.2.1 }
    else none
  -- assert(kCheapPrepend < readerIndex_)
  else if hfront : kCheapPrepend < b.readerIndex then
    some {
      buffer := overwrite b.buffer kCheapPrepend b.readable
      readerIndex := kCheapPrepend
      writerIndex := kCheapPrepend + b.readableBytes
      reader_le_writer := cheap_le_writer b
      writer_le_size := moved_le hfront
      cheap_le_size := cheap_le_moved hfront }
  else none

def ensureWritableSize (b : Buffer) (len : Nat) : Option Buffer :=
  if b.writableBytes < len then
    -- assert(writableBytes() >= len)
    (b.makeSpaceSize len).filter fun wide => len ≤ wide.writableBytes
  else some b

/-- `append` of a piece. A length that has become negative is more than a vector can hold. -/
def appendPiece (b : Buffer) (str : StringPiece) : Option Buffer :=
  if str.size ≤ maxSize ∧ str.size ≤ str.data.length then b.append (str.data.take str.size) else none

def toStringPiece (b : Buffer) : StringPiece := StringPiece.ofBytes b.readable

/-- `shrink`: what `other` holds when it is swapped. -/
def shrink (b : Buffer) (reserve : Nat) : Option Buffer :=
  (ensureWritableSize (new kInitialSize) (sizeSum b.readableBytes reserve)).bind fun other =>
    other.appendPiece b.toStringPiece

variable {b : Buffer}

theorem makeSpaceSize_eq {len : Nat} (hlen : b.writableBytes < len) (hsize : b.buffer.length ≤ maxSize)
    (hfits : b.writerIndex + len ≤ maxSize) : b.makeSpaceSize len = b.makeSpace len hlen := by
  have hreader := b.reader_le_writer
  have hwriter := b.writer_le_size
  have hcheap := b.cheap_le_size
  have hroom : sizeSum b.writableBytes b.prependableBytes = b.writableBytes + b.prependableBytes := by
    apply Nat.mod_eq_of_lt
    simp only [writableBytes, prependableBytes, maxSize] at hsize ⊢
    omega
  have hwanted : sizeSum len kCheapPrepend = len + kCheapPrepend := by
    apply Nat.mod_eq_of_lt
    simp only [maxSize, kCheapPrepend] at hfits ⊢
    omega
  have hgrown : sizeSum b.writerIndex len = b.writerIndex + len := by
    apply Nat.mod_eq_of_lt
    simp only [maxSize] at hfits
    omega
  have hkept : b.writerIndex ≤ b.writerIndex + len ∧ kCheapPrepend ≤ b.writerIndex + len ∧
      b.writerIndex + len ≤ maxSize := by
    simp only [writableBytes] at hlen
    exact ⟨Nat.le_add_right _ _, by omega, hfits⟩
  simp only [makeSpaceSize, makeSpace, hroom, hwanted, hgrown, dif_pos hkept]

/-- As long as the vector can grow, sizes are numbers. -/
theorem ensureWritableSize_eq {len : Nat} (hsize : b.buffer.length ≤ maxSize)
    (hfits : b.writerIndex + len ≤ maxSize) : b.ensureWritableSize len = b.ensureWritableBytes len := by
  rw [ensureWritableSize, ensureWritableBytes]
  by_cases hlen : b.writableBytes < len
  · obtain ⟨wide, hwide, -, hspace⟩ := b.makeSpace_spec len hlen
    rw [if_pos hlen, dif_pos hlen, makeSpaceSize_eq hlen hsize hfits, hwide]
    simp [hspace]
  · rw [if_neg hlen, dif_neg hlen]

theorem writableBytes_new (initialSize : Nat) : (new initialSize).writableBytes = initialSize := by
  simp [new, writableBytes]

/-- The vector of a new buffer cannot grow that far. -/
theorem ensureWritableSize_new {len : Nat} (hlen : len < 2 ^ 64) (htoo : maxSize < kCheapPrepend + len) :
    (new kInitialSize).ensureWritableSize len = none := by
  have hmore : (new kInitialSize).writableBytes < len := by
    rw [writableBytes_new]
    simp only [maxSize, kCheapPrepend, kInitialSize] at htoo ⊢
    omega
  have hnone : (new kInitialSize).makeSpaceSize len = none := by
    rw [makeSpaceSize]
    split
    · -- the sum is too large, or it has wrapped around to less than there was before
      apply dif_neg
      rintro ⟨-, -, hmax⟩
      rename_i htest
      rw [writableBytes_new] at htest
      simp only [sizeSum, maxSize, kCheapPrepend, kInitialSize, new, prependableBytes] at htest hmax htoo
      omega
    · exact dif_neg (Nat.lt_irrefl kCheapPrepend)
  rw [ensureWritableSize, if_pos hmore, hnone]
  rfl

/-- Where the content begins behind the cheap prepend room it is not moved, and the vector grows by just
what is missing. -/
theorem ensureWritableBytes_size {wide : Buffer} {len : Nat} (hfront : b.readerIndex = kCheapPrepend)
    (hwide : b.ensureWritableBytes len = some wide) :
    wide.readerIndex = kCheapPrepend ∧ wide.writerIndex = b.writerIndex ∧
      wide.buffer.length = max b.buffer.length (b.writerIndex + len) := by
  have hwriter := b.writer_le_size
  rw [ensureWritableBytes] at hwide
  by_cases hlen : b.writableBytes < len
  · rw [dif_pos hlen, makeSpace] at hwide
    simp only [writableBytes] at hlen
    split at hwide
    · cases hwide
      exact ⟨hfront, rfl, by rw [resize_length]; omega⟩
    · rw [dif_neg (by omega)] at hwide
      cases hwide
  · rw [dif_neg hlen] at hwide
    cases hwide
    simp only [writableBytes] at hlen
    exact ⟨hfront, rfl, by omega⟩

theorem append_size {longer : Buffer} {data : Bytes} (hfront : b.readerIndex = kCheapPrepend)
    (hlonger : b.append data = some longer) :
    longer.readerIndex = kCheapPrepend ∧
      longer.buffer.length = max b.buffer.length (b.writerIndex + data.length) := by
  obtain ⟨wide, hwide, hwrite⟩ := Option.bind_eq_some_iff.mp hlonger
  obtain ⟨hindex, -, hlength⟩ := ensureWritableBytes_size hfront hwide
  rw [write] at hwrite
  split at hwrite
  · rename_i hfits
    cases hwrite
    simp only [writableBytes] at hfits
    refine ⟨hindex, ?_⟩
    rw [overwrite_length (by have := wide.writer_le_size; omega), hlength]
  · cases hwrite

/-- A piece of which both casts give back the length is appended like any other bytes. -/
theorem appendPiece_ofBytes (b : Buffer) {data : Bytes} (hdata : data.length < 2 ^ 31) :
    b.appendPiece (StringPiece.ofBytes data) = b.append data := by
  have hsize := StringPiece.size_ofBytes hdata
  have hfits : (StringPiece.ofBytes data).size ≤ maxSize ∧
      (StringPiece.ofBytes data).size ≤ (StringPiece.ofBytes data).data.length := by
    rw [hsize, maxSize]
    exact ⟨by omega, Nat.le_refl _⟩
  rw [appendPiece, if_pos hfits, hsize]
  exact congrArg b.append List.take_length

/-- What is appended of a piece is a front of its bytes, and not all of them when a cast has changed the
length. -/
theorem appendPiece_cases {longer : Buffer} {data : Bytes}
    (hlonger : b.appendPiece (StringPiece.ofBytes data) = some longer) :
    ∃ count, count ≤ data.length ∧ count ≤ maxSize ∧ b.append (data.take count) = some longer ∧
      (count = data.length → data.length < 2 ^ 31) := by
  rw [appendPiece] at hlonger
  split at hlonger
  · rename_i hfits
    refine ⟨(StringPiece.ofBytes data).size, hfits.2, hfits.1, hlonger, fun hsize => ?_⟩
    rcases StringPiece.length_of_size hsize with hsmall | hlarge
    · exact hsmall
    · have hmax := hfits.1
      rw [hsize, maxSize] at hmax
      omega
  · cases hlonger

/-- The three parts of a buffer. -/
theorem parts_length (b : Buffer) :
    b.prependableBytes + b.readableBytes + b.writableBytes = b.buffer.length := by
  have hreader := b.reader_le_writer
  have hwriter := b.writer_le_size
  simp only [prependableBytes, readableBytes, writableBytes]
  omega

theorem shrink_of_fits {reserve : Nat} (hcontent : b.readableBytes < 2 ^ 31)
    (hfits : kCheapPrepend + (b.readableBytes + reserve) ≤ maxSize) :
    ∃ shrunk, b.shrink reserve = some shrunk ∧ shrunk.readable = b.readable ∧
      shrunk.prependableBytes = kCheapPrepend ∧ reserve ≤ shrunk.writableBytes := by
  have hsum : sizeSum b.readableBytes reserve = b.readableBytes + reserve := by
    apply Nat.mod_eq_of_lt
    rw [maxSize] at hfits
    omega
  obtain ⟨other, hother, hempty, -⟩ :=
    (new kInitialSize).ensureWritableBytes_spec (b.readableBytes + reserve)
  obtain ⟨shrunk, hshrunk, hreadable⟩ := other.append_readable b.readable
  rw [readable_new] at hempty
  rw [hempty, List.nil_append] at hreadable
  obtain ⟨hfront, hindex, hlength⟩ := ensureWritableBytes_size rfl hother
  obtain ⟨hstart, hend⟩ := append_size hfront hshrunk
  have hmember : b.readable.length < 2 ^ 31 := by rwa [b.readable_length]
  refine ⟨shrunk, ?_, hreadable, hstart, ?_⟩
  · rw [shrink, hsum, ensureWritableSize_eq (by decide +kernel) hfits, hother]
    exact (other.appendPiece_ofBytes hmember).trans hshrunk
  · have hparts := shrunk.parts_length
    have hcount : shrunk.readableBytes = b.readableBytes := by
      rw [← shrunk.readable_length, ← b.readable_length, hreadable]
    have hwriter : (new kInitialSize).writerIndex = kCheapPrepend := rfl
    rw [show shrunk.prependableBytes = kCheapPrepend from hstart, hcount] at hparts
    rw [hwriter] at hlength
    omega

/-- **`shrink` and its sizes.** `shrink(reserve)` keeps the content, leaves just the cheap prepend room in
front of it and makes `reserve` bytes writable behind it, just when the content is shorter than `2^31`
bytes, so that it survives the casts of `StringPiece`, and the vector can be as large as that takes. -/
theorem shrink_iff (b : Buffer) (reserve : Nat) :
    (∃ shrunk, b.shrink reserve = some shrunk ∧ shrunk.readable = b.readable ∧
      shrunk.prependableBytes = kCheapPrepend ∧ reserve ≤ shrunk.writableBytes) ↔
    b.readableBytes < 2 ^ 31 ∧ kCheapPrepend + b.readableBytes + reserve ≤ maxSize := by
  constructor
  · rintro ⟨shrunk, hshrink, hreadable, hfront, hreserve⟩
    obtain ⟨other, hother, happend⟩ := Option.bind_eq_some_iff.mp hshrink
    -- the vector of `other` has not become too large
    have hlen : sizeSum b.readableBytes reserve < 2 ^ 64 := Nat.mod_lt _ (by decide)
    have hgrown : kCheapPrepend + sizeSum b.readableBytes reserve ≤ maxSize := by
      by_contra htoo
      rw [ensureWritableSize_new hlen (by omega)] at hother
      cases hother
    rw [ensureWritableSize_eq (by decide +kernel) hgrown] at hother
    obtain ⟨hstart, hindex, hlength⟩ := ensureWritableBytes_size rfl hother
    obtain ⟨wide, hwide, hempty, -⟩ :=
      (new kInitialSize).ensureWritableBytes_spec (sizeSum b.readableBytes reserve)
    obtain rfl := Option.some.inj (hother.symm.trans hwide)
    -- all of the content was appended
    obtain ⟨count, hcount, hmax, hpiece, hsmall⟩ := appendPiece_cases happend
    obtain ⟨longer, hlonger, hresult⟩ := other.append_readable (b.readable.take count)
    obtain rfl := Option.some.inj (hpiece.symm.trans hlonger)
    rw [hempty, readable_new, List.nil_append, hreadable] at hresult
    have hall : count = b.readable.length := by
      have htake := congrArg List.length hresult
      rw [List.length_take, Nat.min_eq_left hcount] at htake
      exact htake.symm
    have hcontent : b.readableBytes < 2 ^ 31 := by
      rw [← b.readable_length]
      exact hsmall hall
    refine ⟨hcontent, ?_⟩
    -- what is writable lies within the vector
    obtain ⟨-, hend⟩ := append_size hstart hpiece
    have hparts := shrunk.parts_length
    have hsame : shrunk.readableBytes = b.readableBytes := by
      rw [← shrunk.readable_length, ← b.readable_length, hreadable]
    have hwriter : (new kInitialSize).writerIndex = kCheapPrepend := rfl
    have hinitial : (new kInitialSize).buffer.length = kCheapPrepend + kInitialSize := by
      simp [new]
    rw [hwriter] at hindex hlength
    rw [List.length_take, Nat.min_eq_left hcount, hindex, hlength, hinitial] at hend
    rw [hfront, hsame, hend] at hparts
    simp only [maxSize, kCheapPrepend, kInitialSize] at hgrown hmax hparts ⊢
    omega
  · rintro ⟨hcontent, hfits⟩
    exact shrink_of_fits hcontent (by rwa [← Nat.add_assoc])

/-- Of `2^32` bytes the casts leave none: `shrink` drops the content. -/
theorem shrink_drops_content :
    ∃ full shrunk, (new kInitialSize).append (List.replicate (2 ^ 32) 65) = some full ∧
      full.readableBytes = 2 ^ 32 ∧ full.shrink 0 = some shrunk ∧ shrunk.readable = [] := by
  obtain ⟨full, hfull, hcontent⟩ := (new kInitialSize).append_readable (List.replicate (2 ^ 32) 65)
  rw [readable_new, List.nil_append] at hcontent
  have hcount : full.readableBytes = 2 ^ 32 := by
    rw [← full.readable_length, hcontent, List.length_replicate]
  have hsum : sizeSum full.readableBytes 0 = 2 ^ 32 := by
    rw [hcount]
    rfl
  obtain ⟨other, hother, hempty, -⟩ := (new kInitialSize).ensureWritableBytes_spec (2 ^ 32)
  obtain ⟨shrunk, hshrunk, hnone⟩ := other.append_readable []
  rw [hempty, readable_new] at hnone
  have hpiece : other.appendPiece full.toStringPiece = other.append [] := by
    have hsize : full.toStringPiece.size = 0 := by
      rw [StringPiece.size, toStringPiece, StringPiece.ofBytes, full.readable_length, hcount]
      rfl
    rw [appendPiece, hsize, if_pos ⟨Nat.zero_le _, Nat.zero_le _⟩, List.take_zero]
  refine ⟨full, shrunk, hfull, hcount, ?_, hnone⟩
  rw [shrink, hsum, ensureWritableSize_eq (by decide +kernel) (by decide +kernel), hother,
    Option.bind_some, hpiece]
  exact hshrunk

end Buffer
end Muduo
