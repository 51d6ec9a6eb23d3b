import Mathlib.Algebra.GroupWithZero.Nat
import Muduo.Buffer

/-! `Buffer::readFd`: what is read goes into the writable bytes and, when these do not suffice, into a
buffer on the stack, from which it is appended. The layout of a buffer is what is left of it when the bytes
behind the writer index do not count; `append` and `readFd` are the same operation on layouts. -/

namespace Muduo

/-- What `readv(2)` does: it stores bytes, as many as there are and fit but at most so many, or fails. -/
inductive Readv where
  | stores (limit : Nat)
  | fails (errno : Int)
  deriving DecidableEq, Repr

/-- The parts of the data in blocks of memory of the given lengths, which are filled in order. -/
def scatter : List Nat → Bytes → List Bytes
  | [], _ => []
  | len :: lens, data => data.take len :: scatter lens (data.drop len)

namespace Buffer

/-- `sizeof extrabuf`. -/
def sizeofExtrabuf : Nat := 65536

/-- `writerIndex_ = buffer_.size()`. -/
def writeToEnd (b : Buffer) : Buffer :=
  { b with
    writerIndex := b.buffer.length
    reader_le_writer := Nat.le_trans b.reader_le_writer b.writer_le_size
    writer_le_size := Nat.le_refl _ }

/-- What `readFd` returns, what it leaves in `*savedErrno`, and the buffer. -/
structure ReadFd where
  n : Int
  savedErrno : Int
  buffer : Buffer
  deriving DecidableEq, Repr

/-- The lengths of the blocks that are offered to `readv`. -/
def iovecs (b : Buffer) : List Nat :=
  let writable := b.writableBytes
  let iovcnt := if writable < sizeofExtrabuf then 2 else 1
  [writable, sizeofExtrabuf].take iovcnt

/-- `readFd`, with the bytes that are available and what `readv` does. -/
def readFd (b : Buffer) (savedErrno : Int) (input : Bytes) : Readv → Option ReadFd
  | .fails errno => some ⟨-1, errno, b⟩
  | .stores limit =>
      let writable := b.writableBytes
      let data := input.take (min limit b.iovecs.sum)
      let n := data.length
      let blocks := scatter b.iovecs data
      (b.fill (blocks.getD 0 [])).bind fun b =>
        -- writerIndex_ += n
        if n ≤ writable then (b.hasWritten n).map fun b => ⟨n, savedErrno, b⟩
        else
          let extrabuf := blocks.getD 1 []
          (b.writeToEnd.append (extrabuf.take (n - writable))).map fun b => ⟨n, savedErrno, b⟩

/-! ## Layouts -/

/-- A buffer without the bytes behind the writer index. -/
structure Layout where
  used : Bytes
  readerIndex : Nat
  size : Nat
  deriving DecidableEq, Repr

def layout (b : Buffer) : Layout := ⟨b.buffer.take b.writerIndex, b.readerIndex, b.buffer.length⟩

namespace Layout

/-- Data that fits is put behind what is there. Else the vector grows, unless it has room enough in front
of the content, which is then moved there. -/
def append (v : Layout) (data : Bytes) : Layout :=
  if data.length ≤ v.size - v.used.length then ⟨v.used ++ data, v.readerIndex, v.size⟩
  else if v.size - v.used.length + v.readerIndex < data.length + kCheapPrepend then
    ⟨v.used ++ data, v.readerIndex, v.used.length + data.length⟩
  else ⟨v.used.take kCheapPrepend ++ v.used.drop v.readerIndex ++ data, kCheapPrepend, v.size⟩

variable {v : Layout} {data front back : Bytes}

theorem append_of_fits (hfits : data.length ≤ v.size - v.used.length) :
    v.append data = ⟨v.used ++ data, v.readerIndex, v.size⟩ := if_pos hfits

theorem append_of_grows (hfull : v.size - v.used.length < data.length)
    (hgrows : v.size - v.used.length + v.readerIndex < data.length + kCheapPrepend) :
    v.append data = ⟨v.used ++ data, v.readerIndex, v.used.length + data.length⟩ := by
  rw [append, if_neg (Nat.not_le.mpr hfull), if_pos hgrows]

theorem append_of_moves (hfull : v.size - v.used.length < data.length)
    (hmoves : ¬ v.size - v.used.length + v.readerIndex < data.length + kCheapPrepend) :
    v.append data =
      ⟨v.used.take kCheapPrepend ++ v.used.drop v.readerIndex ++ data, kCheapPrepend, v.size⟩ := by
  rw [append, if_neg (Nat.not_le.mpr hfull), if_neg hmoves]

/-- Filling the buffer first and appending the rest is appending at once. -/
theorem append_append (hback : 0 < back.length) (hreader : v.readerIndex ≤ v.used.length)
    (hfront : v.used.length + front.length = v.size) :
    append ⟨v.used ++ front, v.readerIndex, v.size⟩ back = v.append (front ++ back) := by
  have hfull : v.size - (v.used ++ front).length = 0 := by
    rw [List.length_append]
    omega
  have hlength : (front ++ back).length = front.length + back.length := List.length_append
  by_cases hgrows : v.readerIndex < back.length + kCheapPrepend
  · rw [append_of_grows (by simpa only [hfull] using hback)
      (by simpa only [hfull, Nat.zero_add] using hgrows), append_of_grows (by omega) (by omega), hlength]
    simp only [List.append_assoc, List.length_append, Nat.add_assoc]
  · rw [append_of_moves (by simpa only [hfull] using hback)
      (by simpa only [hfull, Nat.zero_add] using hgrows), append_of_moves (by omega) (by omega),
      List.take_append_of_le_length (by omega), List.drop_append_of_le_length hreader]
    simp only [List.append_assoc]

end Layout

variable {b longer wide : Buffer} {data : Bytes}

theorem used_length (b : Buffer) : b.layout.used.length = b.writerIndex := by
  rw [layout, List.length_take, Nat.min_eq_left b.writer_le_size]

theorem readable_eq_layout (b : Buffer) : b.readable = b.layout.used.drop b.layout.readerIndex := rfl

theorem makeSpace_layout {len : Nat} {hlen : b.writableBytes < len}
    (hwide : b.makeSpace len hlen = some wide) :
    wide.layout =
      if b.writableBytes + b.readerIndex < len + kCheapPrepend then
        ⟨b.layout.used, b.readerIndex, b.writerIndex + len⟩
      else
        ⟨b.layout.used.take kCheapPrepend ++ b.layout.used.drop b.readerIndex, kCheapPrepend,
          b.buffer.length⟩ := by
  have hreader := b.reader_le_writer
  have hwriter := b.writer_le_size
  rw [makeSpace, prependableBytes] at hwide
  by_cases hresize : b.writableBytes + b.readerIndex < len + kCheapPrepend
  · rw [if_pos hresize] at hwide ⊢
    cases hwide
    simp only [layout]
    rw [resize_take hwriter (Nat.le_add_right _ _), resize_length]
  · rw [if_neg hresize] at hwide ⊢
    by_cases hfront : kCheapPrepend < b.readerIndex
    · rw [dif_pos hfront] at hwide
      cases hwide
      have hfits : kCheapPrepend + b.readable.length ≤ b.buffer.length := by
        rw [readable_length, readableBytes]
        omega
      simp only [layout]
      rw [← readable_length, overwrite_take hfits, overwrite_length hfits, List.take_take,
        Nat.min_eq_left (by omega)]
      rfl
    · rw [dif_neg hfront] at hwide
      cases hwide

theorem write_layout (hlonger : b.write data = some longer) :
    longer.layout = ⟨b.layout.used ++ data, b.readerIndex, b.buffer.length⟩ := by
  have hwriter := b.writer_le_size
  rw [write] at hlonger
  split at hlonger
  · rename_i hlen
    have hfits : b.writerIndex + data.length ≤ b.buffer.length := by
      simp only [writableBytes] at hlen
      omega
    cases hlonger
    simp only [layout]
    rw [overwrite_take hfits, overwrite_length hfits]
  · cases hlonger

/-- `append` is an operation on layouts. -/
theorem append_layout (hlonger : b.append data = some longer) :
    longer.layout = b.layout.append data := by
  obtain ⟨wide, hwide, hwrite⟩ := Option.bind_eq_some_iff.mp hlonger
  have hfree : b.layout.size - b.layout.used.length = b.writableBytes := by
    rw [used_length]
    rfl
  rw [write_layout hwrite]
  rw [ensureWritableBytes] at hwide
  by_cases hlen : b.writableBytes < data.length
  · rw [dif_pos hlen] at hwide
    have hmade := makeSpace_layout hwide
    by_cases hresize : b.writableBytes + b.readerIndex < data.length + kCheapPrepend
    · rw [if_pos hresize] at hmade
      obtain ⟨hused, hreader, hsize⟩ := (Layout.mk.injEq ..).mp hmade
      rw [Layout.append_of_grows (by rwa [hfree]) (by rwa [hfree]), used_length]
      exact (Layout.mk.injEq ..).mpr ⟨congrArg (· ++ data) hused, hreader, hsize⟩
    · rw [if_neg hresize] at hmade
      obtain ⟨hused, hreader, hsize⟩ := (Layout.mk.injEq ..).mp hmade
      rw [Layout.append_of_moves (by rwa [hfree]) (by rwa [hfree])]
      exact (Layout.mk.injEq ..).mpr ⟨congrArg (· ++ data) hused, hreader, hsize⟩
  · rw [dif_neg hlen] at hwide
    cases hwide
    rw [Layout.append_of_fits (by omega)]
    rfl

/-! ## What is read -/

/-- The data of a `readv` in the buffer: in the writable bytes, and behind them if there is more. -/
def absorb (b : Buffer) (data : Bytes) : Option Buffer :=
  (b.fill (data.take b.writableBytes)).bind fun filled =>
    if data.length ≤ b.writableBytes then filled.hasWritten data.length
    else filled.writeToEnd.append (data.drop b.writableBytes)

theorem iovecs_of_lt (hsmall : b.writableBytes < sizeofExtrabuf) :
    b.iovecs = [b.writableBytes, sizeofExtrabuf] := by
  simp [iovecs, hsmall]

theorem iovecs_of_le (hlarge : sizeofExtrabuf ≤ b.writableBytes) : b.iovecs = [b.writableBytes] := by
  simp [iovecs, Nat.not_lt.mpr hlarge]

theorem scatter_first (b : Buffer) (data : Bytes) :
    (scatter b.iovecs data).getD 0 [] = data.take b.writableBytes := by
  rcases Nat.lt_or_ge b.writableBytes sizeofExtrabuf with hsmall | hlarge
  · rw [iovecs_of_lt hsmall]
    rfl
  · rw [iovecs_of_le hlarge]
    rfl

/-- What does not fit in the writable bytes is in the second block. -/
theorem scatter_second (hmore : b.writableBytes < data.length) (hbound : data.length ≤ b.iovecs.sum) :
    (scatter b.iovecs data).getD 1 [] = data.drop b.writableBytes := by
  rcases Nat.lt_or_ge b.writableBytes sizeofExtrabuf with hsmall | hlarge
  · rw [iovecs_of_lt hsmall, List.sum_cons, List.sum_singleton] at hbound
    rw [iovecs_of_lt hsmall]
    refine List.take_of_length_le ?_
    rw [List.length_drop]
    omega
  · rw [iovecs_of_le hlarge, List.sum_singleton] at hbound
    omega

theorem readFd_stores (b : Buffer) (savedErrno : Int) (input : Bytes) (limit : Nat) :
    b.readFd savedErrno input (.stores limit) =
      (b.absorb (input.take (min limit b.iovecs.sum))).map fun after =>
        ⟨(input.take (min limit b.iovecs.sum)).length, savedErrno, after⟩ := by
  have hbound : (input.take (min limit b.iovecs.sum)).length ≤ b.iovecs.sum := by
    rw [List.length_take]
    omega
  rw [readFd, absorb]
  generalize input.take (min limit b.iovecs.sum) = data at hbound ⊢
  simp only [scatter_first, Option.map_bind]
  refine Option.bind_congr fun filled _ => ?_
  by_cases hfits : data.length ≤ b.writableBytes
  · simp only [Function.comp, if_pos hfits]
  · simp only [Function.comp, if_neg hfits]
    rw [scatter_second (Nat.not_le.mp hfits) hbound, ← List.length_drop, List.take_length]

/-- Data that fits is written where `append` writes it. -/
theorem absorb_of_fits (hfits : data.length ≤ b.writableBytes) : b.absorb data = b.append data := by
  rw [absorb, append, ensureWritableBytes, dif_neg (Nat.not_lt.mpr hfits), Option.bind_some,
    List.take_of_length_le hfits, write, fill, dif_pos hfits, dif_pos hfits, Option.bind_some,
    if_pos hfits, hasWritten, dif_pos]
  have hlen : b.writerIndex + data.length ≤ b.buffer.length := by
    have := b.writer_le_size
    simp only [writableBytes] at hfits
    omega
  simpa only [writableBytes, overwrite_length hlen] using hfits

/-- The writable bytes are filled to the end. -/
theorem fill_writeToEnd {front : Bytes} (hfront : front.length = b.writableBytes) :
    ∃ filled, b.fill front = some filled ∧
      filled.writeToEnd.layout = ⟨b.layout.used ++ front, b.readerIndex, b.buffer.length⟩ := by
  have hend : b.writerIndex + front.length = b.buffer.length := by
    have := b.writer_le_size
    simp only [writableBytes] at hfront
    omega
  rw [fill, dif_pos (Nat.le_of_eq hfront)]
  refine ⟨_, rfl, ?_⟩
  have hlength := overwrite_length (Nat.le_of_eq hend)
  have htake := overwrite_take (Nat.le_of_eq hend)
  simp only [writeToEnd, layout]
  rw [hlength, ← hend, htake]

/-- However the data is spread, the layout is the one `append` makes. -/
theorem absorb_layout (b : Buffer) (data : Bytes) :
    ∃ after, b.absorb data = some after ∧ after.layout = b.layout.append data := by
  by_cases hfits : data.length ≤ b.writableBytes
  · obtain ⟨after, hafter, -⟩ := append_readable b data
    exact ⟨after, (absorb_of_fits hfits).trans hafter, append_layout hafter⟩
  · have hfront : (data.take b.writableBytes).length = b.writableBytes := by
      rw [List.length_take]
      omega
    obtain ⟨filled, hfilled, hfull⟩ := fill_writeToEnd hfront
    obtain ⟨after, hafter, -⟩ := append_readable filled.writeToEnd (data.drop b.writableBytes)
    refine ⟨after, ?_, ?_⟩
    · rw [absorb, hfilled, Option.bind_some, if_neg hfits, hafter]
    · have hrest : 0 < (data.drop b.writableBytes).length := by
        rw [List.length_drop]
        omega
      have hused : b.layout.used.length + (data.take b.writableBytes).length = b.layout.size := by
        have := b.writer_le_size
        rw [used_length, hfront, writableBytes]
        exact Nat.add_sub_cancel' this
      have hreader : b.layout.readerIndex ≤ b.layout.used.length := by
        rw [used_length]
        exact b.reader_le_writer
      calc after.layout
          = filled.writeToEnd.layout.append (data.drop b.writableBytes) := append_layout hafter
        _ = Layout.append ⟨b.layout.used ++ data.take b.writableBytes, b.layout.readerIndex,
              b.layout.size⟩ (data.drop b.writableBytes) := by rw [hfull]; rfl
        _ = b.layout.append (data.take b.writableBytes ++ data.drop b.writableBytes) :=
              Layout.append_append hrest hreader hused
        _ = b.layout.append data := by rw [List.take_append_drop]

/-- **`readFd` appends exactly what was read.** For every buffer, whatever its writable space, and whatever
bytes there are to read: when `readv` fails, the buffer is as it was and the error is stored. Else the
result is the number of bytes read, and the content is the old content followed by these bytes. The buffer
is the one that `append` of the bytes makes, but for bytes behind the writer index, and also there unless
the stack buffer was used. -/
theorem readFd_appends (b : Buffer) (savedErrno : Int) (input : Bytes) (result : Readv) :
    ∃ r, b.readFd savedErrno input result = some r ∧
      match result with
      | .fails errno => r.n < 0 ∧ r.savedErrno = errno ∧ r.buffer = b
      | .stores limit =>
          ∃ n : Nat, n = min (min limit b.iovecs.sum) input.length ∧ r.n = n ∧
            r.savedErrno = savedErrno ∧
            r.buffer.readable = b.readable ++ input.take n ∧
            ∃ longer, b.append (input.take n) = some longer ∧ r.buffer.layout = longer.layout ∧
              (n ≤ b.writableBytes → r.buffer = longer) := by
  cases result with
  | fails errno => exact ⟨_, rfl, Int.negSucc_lt_zero 0, rfl, rfl⟩
  | stores limit =>
      obtain ⟨after, habsorb, hlayout⟩ := b.absorb_layout (input.take (min limit b.iovecs.sum))
      obtain ⟨longer, happend, hreadable⟩ := b.append_readable (input.take (min limit b.iovecs.sum))
      have hsame : after.layout = longer.layout := hlayout.trans (append_layout happend).symm
      have hdata : input.take (min (min limit b.iovecs.sum) input.length) =
          input.take (min limit b.iovecs.sum) := by
        rw [← List.length_take, List.take_eq_take_iff]
        simp
      refine ⟨_, by rw [readFd_stores, habsorb]; rfl, _, rfl, ?_, rfl, ?_⟩
      · rw [List.length_take]
      rw [hdata]
      refine ⟨?_, longer, happend, hsame, fun hfits => ?_⟩
      · rw [readable_eq_layout, hsame, ← readable_eq_layout, hreadable]
      · rw [← List.length_take] at hfits
        exact Option.some.inj (habsorb.symm.trans ((absorb_of_fits hfits).trans happend))

end Buffer
end Muduo
