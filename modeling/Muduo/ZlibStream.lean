import Muduo.Buffer
import Muduo.CheckedInt
import Muduo.Compressor
import Muduo.Execution

/-! `muduo::net::ZlibOutputStream`: what is written is compressed to a `Buffer`. The `z_stream` keeps a
pointer to the input and a count between calls. A `write` of a piece of text takes all of it, a `write` of a
`Buffer` calls `deflate` once and leaves in the `Buffer` what was not taken. -/

namespace Muduo

open CheckedInt Compressor Execution

/-- The bytes around the content. -/
def Buffer.free (b : Buffer) : Nat := b.writableBytes + b.prependableBytes

/-- The members, with `next_in` as the memory it points to and the offset in it. `accepted` is history: the
bytes of the pieces that were written and the bytes that were removed from the buffers that were written. -/
structure ZlibOutputStream (z : Deflate) where
  zstate : z.State
  nextIn : Option (Bytes × Nat) := none
  availIn : Nat := 0
  zerror : Code := .ok
  bufferSize : Nat := 1024
  output : Buffer
  accepted : Bytes := []

namespace ZlibOutputStream

/-- Why the program does not go on: an assertion fails, or a loop does not end. -/
inductive Stop
  | assertion | endless
  deriving DecidableEq

variable {z : Deflate}

/-- The bytes that are offered to `deflate`. -/
def input (s : ZlibOutputStream z) : Bytes :=
  match s.nextIn with
  | none => []
  | some (memory, offset) => (memory.drop offset).take s.availIn

/-- The members after a call of `deflate` whose output was added to the buffer. -/
def advanced (s : ZlibOutputStream z) (call : Deflation z.State) (output : Buffer) : ZlibOutputStream z :=
  { s with
    zstate := call.next
    nextIn := s.nextIn.map fun (memory, offset) => (memory, offset + call.consumed)
    availIn := s.availIn - call.consumed
    output := output
    bufferSize := if output.writableBytes = 0 ∧ s.bufferSize < 65536 then s.bufferSize * 2 else s.bufferSize }

def compress (s : ZlibOutputStream z) (flush : Flush) : Option (Code × ZlibOutputStream z) := do
  let wide ← s.output.ensureWritableBytes s.bufferSize
  let availOut := wide.writableBytes % 2 ^ 32
  let call := z.deflate s.zstate s.input availOut flush
  let filled ← wide.fill call.output
  let output ← filled.hasWritten (filled.writableBytes - (availOut - call.output.length))
  return (call.code, s.advanced call output)

/-- `next_in` and `avail_in` are set. -/
def offer (s : ZlibOutputStream z) (memory : Bytes) (count : Nat) : ZlibOutputStream z :=
  { s with nextIn := some (memory, 0), availIn := count }

/-- History: the bytes are accepted. -/
def accept (s : ZlibOutputStream z) (bytes : Bytes) : ZlibOutputStream z :=
  { s with accepted := s.accepted ++ bytes }

/-- The loop of `write(StringPiece)`. -/
def writeLoop : Nat → ZlibOutputStream z → Except Stop (ZlibOutputStream z)
  | 0, s => if s.availIn > 0 ∧ s.zerror = .ok then .error .endless else .ok s
  | turns + 1, s =>
      if s.availIn > 0 ∧ s.zerror = .ok then
        match s.compress .noFlush with
        | none => .error .assertion
        | some (code, s) => writeLoop turns { s with zerror := code }
      else .ok s

/-- `write(StringPiece)`. -/
def writePiece (s : ZlibOutputStream z) (buf : Bytes) : Except Stop (Bool × ZlibOutputStream z) :=
  if s.zerror ≠ .ok then .ok (false, s)
  else if s.nextIn ≠ none ∨ s.availIn ≠ 0 then .error .assertion
  else
    match writeLoop (z.work s.zstate buf) ((s.accept buf).offer buf buf.length) with
    | .error reason => .error reason
    | .ok s =>
        if s.availIn = 0 then
          if s.nextIn = some (buf, buf.length) then .ok (s.zerror = .ok, { s with nextIn := none })
          else .error .assertion
        else .ok (s.zerror = .ok, s)

/-- The call of `compress` in `write(Buffer*)`. -/
def compressOnce (s : ZlibOutputStream z) : Except Stop (ZlibOutputStream z) :=
  if s.availIn > 0 ∧ s.zerror = .ok then
    match s.compress .noFlush with
    | none => .error .assertion
    | some (code, s) => .ok { s with zerror := code }
  else .ok s

/-- `write(Buffer*)`, with what is left in the buffer. -/
def writeBuffer (s : ZlibOutputStream z) (buf : Buffer) : Except Stop (Bool × Buffer × ZlibOutputStream z) :=
  if s.zerror ≠ .ok then .ok (false, buf, s)
  else
    match compressOnce (s.offer buf.readable (buf.readableBytes % 2 ^ 32)) with
    | .error reason => .error reason
    | .ok s =>
        match buf.retrieve (buf.readableBytes - s.availIn) with
        | none => .error .assertion
        | some rest =>
            .ok (s.zerror = .ok, rest, s.accept (buf.readable.take (buf.readableBytes - s.availIn)))

/-- The loop of `finish`. -/
def finishLoop : Nat → ZlibOutputStream z → Except Stop (ZlibOutputStream z)
  | 0, s => if s.zerror = .ok then .error .endless else .ok s
  | turns + 1, s =>
      if s.zerror = .ok then
        match s.compress .finish with
        | none => .error .assertion
        | some (code, s) => finishLoop turns { s with zerror := code }
      else .ok s

/-- `finish`. Of `deflateEnd` the code is `Z_OK` when the stream has ended. -/
def finish (s : ZlibOutputStream z) : Except Stop (Bool × ZlibOutputStream z) :=
  if s.zerror ≠ .ok then .ok (false, s)
  else
    match finishLoop (z.work s.zstate s.input + 1) s with
    | .error reason => .error reason
    | .ok s => .ok (s.zerror = .streamEnd, { s with zerror := .streamEnd })

/-- A call of one of the functions `write`. The length of a `StringPiece` is an `int`. -/
inductive Write
  | piece (buf : {bytes : Bytes // bytes.length < 2 ^ 31})
  | buffer (buf : Buffer)

def step (s : ZlibOutputStream z) : Write → Except Stop (ZlibOutputStream z)
  | .piece buf => (s.writePiece buf).map Prod.snd
  | .buffer buf => (s.writeBuffer buf).map fun result => result.2.2

/-! ## One call of `deflate` -/

/-- The output buffer has less than 4 GiB of free space, its growth is bounded, and the input is there. -/
structure Sane (s : ZlibOutputStream z) : Prop where
  free : s.output.free < 2 ^ 32
  size_pos : 0 < s.bufferSize
  size_le : s.bufferSize ≤ 131072
  input_length : s.input.length = s.availIn

/-- What a call of `compress` changes. -/
structure Advance (s : ZlibOutputStream z) (call : Deflation z.State) (next : ZlibOutputStream z) : Prop where
  sane : next.Sane
  zstate : next.zstate = call.next
  nextIn : next.nextIn = s.nextIn.map fun (memory, offset) => (memory, offset + call.consumed)
  input : next.input = s.input.drop call.consumed
  output : next.output.readable = s.output.readable ++ call.output
  zerror : next.zerror = s.zerror
  accepted : next.accepted = s.accepted

/-- Space is made by resizing to just what is asked for, or by moving the content, which frees nothing. -/
theorem ensureWritableBytes_free {b wide : Buffer} {len : Nat} (hwide : b.ensureWritableBytes len = some wide) :
    wide.free ≤ max b.free (2 * len + 8) := by
  have hreader := b.reader_le_writer
  have hwriter := b.writer_le_size
  rw [Buffer.ensureWritableBytes] at hwide
  split at hwide
  · rw [Buffer.makeSpace] at hwide
    split_ifs at hwide with hresize hmove
    · cases hwide
      simp only [Buffer.free, Buffer.writableBytes, Buffer.prependableBytes, resize_length,
        Buffer.kCheapPrepend] at hresize ⊢
      omega
    · cases hwide
      have hfits : Buffer.kCheapPrepend + b.readable.length ≤ b.buffer.length := by
        rw [Buffer.readable_length, Buffer.readableBytes]
        omega
      simp only [Buffer.free, Buffer.writableBytes, Buffer.prependableBytes, overwrite_length hfits,
        Buffer.readableBytes]
      omega
  · cases hwide
    exact le_max_left _ _

theorem fill_writableBytes {b filled : Buffer} {data : Bytes} (hfilled : b.fill data = some filled) :
    filled.writableBytes = b.writableBytes := by
  rw [Buffer.fill] at hfilled
  split at hfilled
  · rename_i hlen
    have hwriter := b.writer_le_size
    cases hfilled
    rw [Buffer.writableBytes] at hlen
    simp only [Buffer.writableBytes]
    rw [overwrite_length (by omega)]
  · cases hfilled

theorem hasWritten_free {b longer : Buffer} {len : Nat} (hlonger : b.hasWritten len = some longer) :
    longer.free ≤ b.free := by
  rw [Buffer.hasWritten] at hlonger
  split at hlonger
  · cases hlonger
    simp only [Buffer.free, Buffer.writableBytes, Buffer.prependableBytes]
    omega
  · cases hlonger

variable {s : ZlibOutputStream z}

/-- The input behind what was taken. -/
theorem input_advanced (s : ZlibOutputStream z) (call : Deflation z.State) (output : Buffer) :
    (s.advanced call output).input = s.input.drop call.consumed := by
  rw [input, input, advanced]
  cases hnext : s.nextIn with
  | none => exact List.drop_nil.symm
  | some place =>
      simp only [Option.map_some]
      rw [List.drop_take, List.drop_drop]

theorem compress_spec (hsane : s.Sane) (flush : Flush) :
    ∃ room next, 0 < room ∧ Advance s (z.deflate s.zstate s.input room flush) next ∧
      s.compress flush = some ((z.deflate s.zstate s.input room flush).code, next) := by
  obtain ⟨hfree, hpos, hle, hlength⟩ := hsane
  obtain ⟨wide, hwide, hreadable, hroom⟩ := s.output.ensureWritableBytes_spec s.bufferSize
  have hwideFree := ensureWritableBytes_free hwide
  have hmod : wide.writableBytes % 2 ^ 32 = wide.writableBytes := by
    refine Nat.mod_eq_of_lt ?_
    rw [Buffer.free] at hwideFree
    omega
  have houtput := z.output_le s.zstate s.input wide.writableBytes flush
  obtain ⟨longer, hlonger, hcontent⟩ := Buffer.fill_hasWritten_readable houtput (Nat.le_refl _)
  obtain ⟨filled, hfilled, hwritten⟩ := Option.bind_eq_some_iff.mp hlonger
  rw [List.take_length, hreadable] at hcontent
  have hcount : filled.writableBytes - (wide.writableBytes -
      (z.deflate s.zstate s.input wide.writableBytes flush).output.length) =
      (z.deflate s.zstate s.input wide.writableBytes flush).output.length := by
    rw [fill_writableBytes hfilled]
    omega
  have hfreeLonger : longer.free < 2 ^ 32 := by
    have hless := hasWritten_free hwritten
    have hfront := Buffer.fill_front hfilled
    have hspace := fill_writableBytes hfilled
    simp only [Buffer.free] at hless hwideFree hfree ⊢
    omega
  have hcompress : s.compress flush = some ((z.deflate s.zstate s.input wide.writableBytes flush).code,
      s.advanced (z.deflate s.zstate s.input wide.writableBytes flush) longer) := by
    rw [compress, bind_of_eq hwide, hmod]
    simp only [bind_of_eq hfilled, hcount, bind_of_eq hwritten]
    rfl
  refine ⟨wide.writableBytes, _, by omega, ⟨⟨hfreeLonger, ?_, ?_, ?_⟩, rfl, rfl, input_advanced _ _ _, hcontent,
    rfl, rfl⟩, hcompress⟩
  · simp only [advanced]
    split <;> omega
  · simp only [advanced]
    split <;> omega
  · rw [input_advanced, List.length_drop, hlength]
    rfl

/-- The code is no part of what a call of `deflate` depends on. -/
theorem Sane.coded (hsane : s.Sane) (code : Code) : Sane { s with zerror := code } :=
  ⟨hsane.free, hsane.size_pos, hsane.size_le, hsane.input_length⟩

theorem input_eq_nil (hsane : s.Sane) (havail : s.availIn = 0) : s.input = [] := by
  rw [← List.length_eq_zero_iff, hsane.input_length, havail]

theorem input_ne_nil (hsane : s.Sane) (havail : s.availIn ≠ 0) : s.input ≠ [] := by
  rwa [Ne, ← List.length_eq_zero_iff, hsane.input_length]

/-- Advancing twice. -/
theorem map_offset (place : Option (Bytes × Nat)) (a b : Nat) :
    (place.map fun (memory, offset) => (memory, offset + a)).map (fun (memory, offset) => (memory, offset + b)) =
      place.map fun (memory, offset) => (memory, offset + (a + b)) := by
  cases place with
  | none => rfl
  | some place => simp only [Option.map_some, Nat.add_assoc]

theorem map_offset_zero (place : Option (Bytes × Nat)) :
    place.map (fun (memory, offset) => (memory, offset + 0)) = place := by
  cases place with
  | none => rfl
  | some place => rfl

/-! ## Loops -/

/-- What a loop makes of the stream: the input was taken, and more output is there. -/
structure Progress (s : ZlibOutputStream z) (taken more : Bytes) (final : ZlibOutputStream z) : Prop where
  sane : final.Sane
  nextIn : final.nextIn = s.nextIn.map fun (memory, offset) => (memory, offset + taken.length)
  input : s.input = taken ++ final.input
  output : final.output.readable = s.output.readable ++ more
  accepted : final.accepted = s.accepted

theorem Progress.refl (hsane : s.Sane) : Progress s [] [] s :=
  ⟨hsane, (map_offset_zero _).symm, rfl, (List.append_nil _).symm, rfl⟩

theorem Advance.input_append {call : Deflation z.State} {next : ZlibOutputStream z} (hadvance : Advance s call next)
    (code : Code) :
    s.input.take call.consumed ++ ZlibOutputStream.input { next with zerror := code } = s.input := by
  have hinput : ZlibOutputStream.input { next with zerror := code } = s.input.drop call.consumed := hadvance.input
  rw [hinput, List.take_append_drop]

/-- One call of `deflate`, and what comes after it. -/
theorem Advance.progress {call : Deflation z.State} {next final : ZlibOutputStream z} {taken more : Bytes} {code : Code}
    (hadvance : Advance s call next) (hcall : call.consumed ≤ s.input.length)
    (hprogress : Progress { next with zerror := code } taken more final) :
    Progress s (s.input.take call.consumed ++ taken) (call.output ++ more) final := by
  obtain ⟨hsane, hnextIn, hinput, houtput, haccepted⟩ := hprogress
  refine ⟨hsane, ?_, ?_, ?_, haccepted.trans hadvance.accepted⟩
  · rw [hnextIn, hadvance.nextIn, map_offset, List.length_append, List.length_take, Nat.min_eq_left hcall]
  · have hrest : next.input = taken ++ final.input := hinput
    rw [List.append_assoc, ← hrest, hadvance.input, List.take_append_drop]
  · rw [houtput, hadvance.output, List.append_assoc]

theorem writeLoop_done {plain out : Bytes} (hsane : s.Sane) (hok : s.zerror = .ok)
    (hproduced : z.produced s.zstate plain out) (havail : s.availIn = 0) (turns : Nat) :
    ∃ final more, writeLoop turns s = .ok final ∧ Progress s s.input more final ∧ final.zerror = .ok ∧
      z.produced final.zstate (plain ++ s.input) (out ++ more) := by
  have hdone : writeLoop turns s = .ok s := by
    cases turns with
    | zero | succ turns => exact if_neg fun h => absurd h.1 (by omega)
  rw [input_eq_nil hsane havail]
  refine ⟨s, [], hdone, Progress.refl hsane, hok, ?_⟩
  rw [List.append_nil, List.append_nil]
  exact hproduced

/-- A turn with input and space goes on. -/
theorem noFlush_turn (hsane : s.Sane) (havail : s.availIn ≠ 0) :
    ∃ call next, s.compress .noFlush = some (.ok, next) ∧ Advance s call next ∧
      call.consumed ≤ s.input.length ∧ z.work next.zstate next.input < z.work s.zstate s.input ∧
      ∀ plain out, z.produced s.zstate plain out →
        z.produced next.zstate (plain ++ s.input.take call.consumed) (out ++ call.output) := by
  obtain ⟨room, next, hroom, hadvance, hcompress⟩ := compress_spec hsane .noFlush
  have hcode := z.code_noFlush s.zstate s.input room hroom (input_ne_nil hsane havail)
  refine ⟨_, next, by rw [hcompress, hcode], hadvance, z.consumed_le _ _ _ _, ?_, fun plain out hproduced => ?_⟩
  · rw [hadvance.zstate, hadvance.input]
    exact z.work_lt s.zstate s.input room .noFlush hroom hcode
  · rw [hadvance.zstate]
    exact z.produced_next s.zstate s.input room .noFlush plain out hproduced

/-- A turn of `finish` goes on, or takes all of the input and ends. -/
theorem finish_turn (hsane : s.Sane) :
    ∃ call next, s.compress .finish = some (call.code, next) ∧ Advance s call next ∧
      call.consumed ≤ s.input.length ∧
      (call.code = .ok ∧ z.work next.zstate next.input < z.work s.zstate s.input ∧
        (∀ plain out, z.produced s.zstate plain out →
          z.produced next.zstate (plain ++ s.input.take call.consumed) (out ++ call.output)) ∨
      call.code = .streamEnd ∧ call.consumed = s.input.length ∧
        ∀ plain out, z.produced s.zstate plain out → z.inflate (out ++ call.output) = some (plain ++ s.input)) := by
  obtain ⟨room, next, hroom, hadvance, hcompress⟩ := compress_spec hsane .finish
  refine ⟨_, next, hcompress, hadvance, z.consumed_le _ _ _ _, ?_⟩
  rcases z.code_finish s.zstate s.input room hroom with hcode | ⟨hcode, hall⟩
  · refine .inl ⟨hcode, ?_, fun plain out hproduced => ?_⟩
    · rw [hadvance.zstate, hadvance.input]
      exact z.work_lt s.zstate s.input room .finish hroom hcode
    · rw [hadvance.zstate]
      exact z.produced_next s.zstate s.input room .finish plain out hproduced
  · refine .inr ⟨hcode, hall, fun plain out hproduced => ?_⟩
    rw [z.produced_end s.zstate s.input room .finish plain out hproduced hcode, hall, List.take_length]

/-- **The loop of `write(StringPiece)`** takes all of the input. -/
theorem writeLoop_spec {turns : Nat} {plain out : Bytes} (hsane : s.Sane) (hok : s.zerror = .ok)
    (hproduced : z.produced s.zstate plain out) (hwork : z.work s.zstate s.input ≤ turns) :
    ∃ final more, writeLoop turns s = .ok final ∧ Progress s s.input more final ∧ final.zerror = .ok ∧
      z.produced final.zstate (plain ++ s.input) (out ++ more) := by
  induction turns generalizing s plain out with
  | zero =>
      by_cases havail : s.availIn = 0
      · exact writeLoop_done hsane hok hproduced havail 0
      · obtain ⟨call, next, -, -, -, hless, -⟩ := noFlush_turn hsane havail
        omega
  | succ turns ih =>
      by_cases havail : s.availIn = 0
      · exact writeLoop_done hsane hok hproduced havail (turns + 1)
      · obtain ⟨call, next, hcompress, hadvance, hconsumed, hless, hnext⟩ := noFlush_turn hsane havail
        have hfewer : z.work next.zstate next.input ≤ turns := by omega
        obtain ⟨final, more, hloop, hprogress, hfinal, hall⟩ :=
          ih (hadvance.sane.coded .ok) rfl (hnext plain out hproduced) hfewer
        have hinput := hadvance.input_append .ok
        have hwhole := hadvance.progress hconsumed hprogress
        rw [List.append_assoc, List.append_assoc, hinput] at hall
        rw [hinput] at hwhole
        refine ⟨final, call.output ++ more, ?_, hwhole, hfinal, hall⟩
        rw [writeLoop, if_pos ⟨Nat.pos_of_ne_zero havail, hok⟩, hcompress]
        exact hloop

/-- **The loop of `finish`** takes what is left of the input, and the output then represents all of it. -/
theorem finishLoop_spec {turns : Nat} {plain out : Bytes} (hsane : s.Sane) (hok : s.zerror = .ok)
    (hproduced : z.produced s.zstate plain out) (hwork : z.work s.zstate s.input < turns) :
    ∃ final more, finishLoop turns s = .ok final ∧ Progress s s.input more final ∧ final.zerror = .streamEnd ∧
      z.inflate (out ++ more) = some (plain ++ s.input) := by
  induction turns generalizing s plain out with
  | zero => exact absurd hwork (Nat.not_lt_zero _)
  | succ turns ih =>
      obtain ⟨call, next, hcompress, hadvance, hconsumed, hcode | hcode⟩ := finish_turn hsane
      · obtain ⟨hcode, hless, hnext⟩ := hcode
        rw [hcode] at hcompress
        have hfewer : z.work next.zstate next.input < turns := by omega
        obtain ⟨final, more, hloop, hprogress, hfinal, hinflate⟩ :=
          ih (hadvance.sane.coded .ok) rfl (hnext plain out hproduced) hfewer
        have hinput := hadvance.input_append .ok
        have hwhole := hadvance.progress hconsumed hprogress
        rw [List.append_assoc, List.append_assoc, hinput] at hinflate
        rw [hinput] at hwhole
        refine ⟨final, call.output ++ more, ?_, hwhole, hfinal, hinflate⟩
        rw [finishLoop, if_pos hok, hcompress]
        exact hloop
      · obtain ⟨hcode, hall, hinflate⟩ := hcode
        rw [hcode] at hcompress
        have hdone : finishLoop turns { next with zerror := .streamEnd } =
            .ok { next with zerror := .streamEnd } := by
          cases turns with
          | zero | succ turns => exact if_neg (show ¬ Code.streamEnd = Code.ok by decide)
        have hwhole := hadvance.progress hconsumed (Progress.refl (hadvance.sane.coded .streamEnd))
        rw [List.append_nil, List.append_nil, hall, List.take_length] at hwhole
        refine ⟨_, call.output, ?_, hwhole, rfl, hinflate plain out hproduced⟩
        rw [finishLoop, if_pos hok, hcompress]
        exact hdone

/-- The call of `compress` in `write(Buffer*)` takes a front part of the input. -/
theorem compressOnce_spec {plain out : Bytes} (hsane : s.Sane) (hok : s.zerror = .ok)
    (hproduced : z.produced s.zstate plain out) :
    ∃ final taken more, compressOnce s = .ok final ∧ Progress s taken more final ∧ final.zerror = .ok ∧
      z.produced final.zstate (plain ++ taken) (out ++ more) := by
  by_cases havail : s.availIn = 0
  · refine ⟨s, [], [], if_neg fun h => absurd h.1 (by omega), Progress.refl hsane, hok, ?_⟩
    rw [List.append_nil, List.append_nil]
    exact hproduced
  · obtain ⟨call, next, hcompress, hadvance, hconsumed, -, hnext⟩ := noFlush_turn hsane havail
    have hwhole := hadvance.progress hconsumed (Progress.refl (hadvance.sane.coded .ok))
    rw [List.append_nil, List.append_nil] at hwhole
    refine ⟨_, _, _, ?_, hwhole, rfl, hnext plain out hproduced⟩
    rw [compressOnce, if_pos ⟨Nat.pos_of_ne_zero havail, hok⟩, hcompress]

/-! ## Writes -/

namespace Write

def isPiece : Write → Bool
  | piece _ => true
  | buffer _ => false

/-- The number of bytes fits in `avail_in`. -/
def Small : Write → Prop
  | piece _ => True
  | buffer buf => buf.readableBytes < 2 ^ 32

/-- No piece is written after a buffer. -/
def Ordered (writes : List Write) : Prop :=
  writes.Pairwise fun earlier later => later.isPiece = true → earlier.isPiece = true

end Write

open Write

/-- The bytes that were taken so far are those that were accepted, unless a count was truncated: then more
bytes were removed from buffers than were taken. -/
def Accounted (writes : List Write) (plain accepted : Bytes) : Prop :=
  ((∀ w ∈ writes, w.Small) ∧ accepted = plain) ∨
    (¬ (∀ w ∈ writes, w.Small) ∧ plain.length + 2 ^ 32 ≤ accepted.length)

/-- After some writes to a buffer with some content. -/
structure Sound (content : Bytes) (writes : List Write) (s : ZlibOutputStream z) : Prop where
  sane : s.Sane
  zerror : s.zerror = .ok
  availIn_lt : s.availIn < 2 ^ 32
  fresh : s.nextIn = none ↔ ∀ w ∈ writes, w.isPiece = true
  ordered : Ordered writes
  produced : ∃ plain out, z.produced s.zstate plain out ∧ s.output.readable = content ++ out ∧
    Accounted writes plain s.accepted

theorem accounted_append {writes : List Write} {plain accepted taken removed : Bytes} {w : Write}
    (haccounted : Accounted writes plain accepted) (hsmall : w.Small → removed = taken)
    (hlarge : ¬ w.Small → taken.length + 2 ^ 32 ≤ removed.length) :
    Accounted (writes ++ [w]) (plain ++ taken) (accepted ++ removed) := by
  have hmem : (∀ w' ∈ writes ++ [w], w'.Small) ↔ (∀ w' ∈ writes, w'.Small) ∧ w.Small := by
    rw [List.forall_mem_append, List.forall_mem_singleton]
  by_cases hw : w.Small
  · rcases haccounted with ⟨hall, heq⟩ | ⟨hnot, hlength⟩
    · exact .inl ⟨hmem.mpr ⟨hall, hw⟩, by rw [heq, hsmall hw]⟩
    · refine .inr ⟨fun h => hnot (hmem.mp h).1, ?_⟩
      rw [hsmall hw, List.length_append, List.length_append]
      omega
  · have hremoved := hlarge hw
    refine .inr ⟨fun h => hw (hmem.mp h).2, ?_⟩
    rw [List.length_append, List.length_append]
    rcases haccounted with ⟨-, heq⟩ | ⟨-, hlength⟩
    · rw [heq]
      omega
    · omega

variable {content : Bytes} {writes : List Write}

/-- All the input was taken. -/
theorem Progress.done {final : ZlibOutputStream z} {more : Bytes} (hprogress : Progress s s.input more final) :
    final.availIn = 0 := by
  have hempty : final.input = [] := List.append_right_eq_self.mp hprogress.input.symm
  rw [← hprogress.sane.input_length, hempty]
  rfl

/-- What is left of the input. -/
theorem Progress.availIn_add {final : ZlibOutputStream z} {taken more : Bytes}
    (hprogress : Progress s taken more final) (hsane : s.Sane) : taken.length + final.availIn = s.availIn := by
  rw [← hsane.input_length, hprogress.input, List.length_append, hprogress.sane.input_length]

theorem availIn_eq_zero (hsane : s.Sane) (hnext : s.nextIn = none) : s.availIn = 0 := by
  rw [← hsane.input_length, input, hnext]
  rfl

theorem input_offer (s : ZlibOutputStream z) (memory : Bytes) (count : Nat) :
    (s.offer memory count).input = memory.take count := rfl

theorem Sane.offer (hsane : s.Sane) {memory : Bytes} {count : Nat} (hcount : count ≤ memory.length) :
    (s.offer memory count).Sane := by
  refine ⟨hsane.free, hsane.size_pos, hsane.size_le, ?_⟩
  rw [input_offer, List.length_take, Nat.min_eq_left hcount]
  rfl

theorem ordered_append {w : Write} (hordered : Ordered writes)
    (hlast : ∀ earlier ∈ writes, w.isPiece = true → earlier.isPiece = true) : Ordered (writes ++ [w]) := by
  refine List.pairwise_append.mpr ⟨hordered, List.pairwise_singleton _ _, fun earlier hearlier later hlater => ?_⟩
  rw [List.mem_singleton.mp hlater]
  exact hlast earlier hearlier

/-- **`write(StringPiece)`** fails its assertion after a buffer was written, and takes the whole piece
otherwise. -/
theorem writePiece_sound (hsound : Sound content writes s) (buf : {bytes : Bytes // bytes.length < 2 ^ 31}) :
    (s.nextIn ≠ none ∧ step s (.piece buf) = .error .assertion) ∨
      ∃ next, step s (.piece buf) = .ok next ∧ Sound content (writes ++ [.piece buf]) next := by
  obtain ⟨hsane, hok, -, hfresh, hordered, plain, out, hproduced, houtput, haccounted⟩ := hsound
  by_cases hnext : s.nextIn = none
  · have havail := availIn_eq_zero hsane hnext
    have hoffered : ((s.accept buf).offer buf buf.1.length).Sane :=
      Sane.offer (s := s.accept buf) ⟨hsane.free, hsane.size_pos, hsane.size_le, hsane.input_length⟩ (Nat.le_refl _)
    have hinput : ((s.accept buf).offer buf buf.1.length).input = buf.1 := by
      rw [input_offer, List.take_length]
    have hwork : z.work s.zstate ((s.accept buf).offer buf buf.1.length).input ≤ z.work s.zstate buf := by
      rw [hinput]
    obtain ⟨final, more, hloop, hprogress, hfinal, hall⟩ := writeLoop_spec hoffered hok hproduced hwork
    have hdone := hprogress.done
    rw [hinput] at hprogress hall
    have hend : final.nextIn = some (buf.1, buf.1.length) := by
      rw [hprogress.nextIn]
      show some (buf.1, 0 + buf.1.length) = _
      rw [Nat.zero_add]
    have hstep : step s (.piece buf) = .ok { final with nextIn := none } := by
      rw [step, writePiece, if_neg (not_not_intro hok), if_neg (not_or_intro (not_not_intro hnext)
        (not_not_intro havail)), hloop]
      simp only [hdone, hend, if_true]
      rfl
    have hpieces := hfresh.mp hnext
    refine .inr ⟨_, hstep, ⟨hprogress.sane.free, hprogress.sane.size_pos, hprogress.sane.size_le, hdone.symm⟩,
      hfinal, by rw [hdone]; decide, iff_of_true rfl ?_, ordered_append hordered fun w hw _ => hpieces w hw,
      ⟨plain ++ buf.1, out ++ more, hall, ?_, ?_⟩⟩
    · rw [List.forall_mem_append, List.forall_mem_singleton]
      exact ⟨hpieces, rfl⟩
    · rw [hprogress.output, ← List.append_assoc]
      exact congrArg (· ++ more) houtput
    · rw [hprogress.accepted]
      exact accounted_append haccounted (fun _ => rfl) fun hlarge => absurd trivial hlarge
  · refine .inl ⟨hnext, ?_⟩
    rw [step, writePiece, if_neg (not_not_intro hok), if_pos (.inl hnext)]
    rfl

/-- **`write(Buffer*)`** removes what was taken, and 4 GiB more for every time that the count was wrapped. -/
theorem writeBuffer_sound (hsound : Sound content writes s) (buf : Buffer) :
    ∃ next, step s (.buffer buf) = .ok next ∧ Sound content (writes ++ [.buffer buf]) next := by
  obtain ⟨hsane, hok, -, hfresh, hordered, plain, out, hproduced, houtput, haccounted⟩ := hsound
  have hlength := buf.readable_length
  have hcount : buf.readableBytes % 2 ^ 32 ≤ buf.readable.length := by
    rw [hlength]
    exact Nat.mod_le _ _
  have hoffered := hsane.offer hcount
  obtain ⟨final, taken, more, honce, hprogress, hfinal, hall⟩ := compressOnce_spec hoffered hok hproduced
  have hleft : taken.length + final.availIn = buf.readableBytes % 2 ^ 32 := hprogress.availIn_add hoffered
  have hmod := Nat.mod_lt buf.readableBytes (show 0 < 2 ^ 32 by decide)
  obtain ⟨rest, hrest, -⟩ := Buffer.retrieve_readable
    (show buf.readableBytes - final.availIn ≤ buf.readableBytes from Nat.sub_le _ _)
  have hstep : step s (.buffer buf) =
      .ok (final.accept (buf.readable.take (buf.readableBytes - final.availIn))) := by
    rw [step, writeBuffer, if_neg (not_not_intro hok), honce]
    simp only [hrest]
    rfl
  refine ⟨_, hstep, ⟨hprogress.sane.free, hprogress.sane.size_pos, hprogress.sane.size_le,
    hprogress.sane.input_length⟩, hfinal, ?_, iff_of_false ?_ ?_, ordered_append hordered fun w hw h => ?_,
    ⟨plain ++ taken, out ++ more, hall, ?_, ?_⟩⟩
  · show final.availIn < 2 ^ 32
    omega
  · show ¬ final.nextIn = none
    rw [hprogress.nextIn]
    exact Option.some_ne_none _
  · rw [List.forall_mem_append, List.forall_mem_singleton]
    exact fun h => absurd h.2 Bool.false_ne_true
  · exact absurd h Bool.false_ne_true
  · show final.output.readable = _
    rw [hprogress.output, ← List.append_assoc]
    exact congrArg (· ++ more) houtput
  · have hfront : buf.readable.take (buf.readableBytes % 2 ^ 32) = taken ++ final.input := hprogress.input
    have haccepted : final.accepted = s.accepted := hprogress.accepted
    rw [← haccepted] at haccounted
    refine accounted_append haccounted (fun hsmall => ?_) fun hlarge => ?_
    · -- the count was not wrapped
      have hsmall : buf.readableBytes % 2 ^ 32 = buf.readableBytes := Nat.mod_eq_of_lt hsmall
      have hremoved : buf.readableBytes - final.availIn = taken.length := by omega
      have htaken := congrArg (List.take taken.length) hfront
      rw [List.take_left, List.take_take, Nat.min_eq_left (by omega)] at htaken
      rw [hremoved, htaken]
    · have hlarge : 2 ^ 32 ≤ buf.readableBytes := Nat.not_lt.mp hlarge
      have hdivision := Nat.div_add_mod buf.readableBytes (2 ^ 32)
      have hquotient : 1 ≤ buf.readableBytes / 2 ^ 32 := Nat.div_pos hlarge (by decide)
      rw [List.length_take, hlength]
      omega

theorem step_sound (hsound : Sound content writes s) (w : Write) :
    ((∃ earlier ∈ writes, ¬ (w.isPiece = true → earlier.isPiece = true)) ∧ step s w = .error .assertion) ∨
      ∃ next, step s w = .ok next ∧ Sound content (writes ++ [w]) next := by
  cases w with
  | piece buf =>
      rcases writePiece_sound hsound buf with ⟨hnext, hstep⟩ | hnext
      · refine .inl ⟨?_, hstep⟩
        rw [Ne, hsound.fresh] at hnext
        push Not at hnext
        obtain ⟨earlier, hmem, hbuffer⟩ := hnext
        exact ⟨earlier, hmem, fun h => hbuffer (h rfl)⟩
      · exact .inr hnext
  | buffer buf => exact .inr (writeBuffer_sound hsound buf)

/-- The stream as it is constructed. -/
def init (z : Deflate) (output : Buffer) : ZlibOutputStream z := { zstate := z.init, output := output }

theorem init_sound (z : Deflate) {output : Buffer} (hfree : output.free < 2 ^ 32) :
    Sound output.readable [] (init z output) :=
  ⟨⟨hfree, show 0 < 1024 by decide, show 1024 ≤ 131072 by decide, rfl⟩, rfl, show 0 < 2 ^ 32 by decide,
    iff_of_true rfl fun _ h => absurd h List.not_mem_nil,
    List.Pairwise.nil, [], [], z.produced_init, (List.append_nil _).symm,
    .inl ⟨fun _ h => absurd h List.not_mem_nil, rfl⟩⟩

/-- Ordered writes go through. -/
theorem run_of_ordered (z : Deflate) {output : Buffer} (hfree : output.free < 2 ^ 32) {writes : List Write}
    (hordered : Ordered writes) :
    ∃ s, run step (init z output) writes = .ok s ∧ Sound output.readable writes s := by
  refine run_of_legal_history (Sound output.readable) (fun history s w hsound
    (hlegal : ∀ earlier ∈ history, w.isPiece = true → earlier.isPiece = true) => ?_) (init_sound z hfree)
    fun front w back heq => ?_
  · rcases step_sound hsound w with ⟨⟨earlier, hmem, hnot⟩, -⟩ | hnext
    · exact absurd (hlegal earlier hmem) hnot
    · exact hnext
  · rw [heq] at hordered
    exact fun earlier hmem => (List.pairwise_append.mp hordered).2.2 earlier hmem w List.mem_cons_self

/-- Writes that go through are ordered. -/
theorem sound_of_run (z : Deflate) {output : Buffer} (hfree : output.free < 2 ^ 32) {writes : List Write}
    {s : ZlibOutputStream z} (hrun : run step (init z output) writes = .ok s) :
    Sound output.readable writes s := by
  refine run_history (Sound output.readable) (fun history s w next hsound hnext => ?_) (init_sound z hfree) hrun
  rcases step_sound hsound w with ⟨-, herror⟩ | ⟨other, hother, hsound⟩
  · rw [herror] at hnext
    cases hnext
  · obtain rfl := Except.ok.inj (hother.symm.trans hnext)
    exact hsound

/-- **`finish`** ends the stream. Its output represents what was taken before and the input that is still
pointed to. -/
theorem finish_spec (hsound : Sound content writes s) :
    ∃ final plain out, finish s = .ok (true, final) ∧ final.output.readable = content ++ out ∧
      z.inflate out = some (plain ++ s.input) ∧ Accounted writes plain s.accepted := by
  obtain ⟨hsane, hok, -, -, -, plain, out, hproduced, houtput, haccounted⟩ := hsound
  obtain ⟨final, more, hloop, hprogress, hfinal, hinflate⟩ :=
    finishLoop_spec hsane hok hproduced (Nat.lt_succ_self _)
  refine ⟨{ final with zerror := .streamEnd }, plain, out ++ more, ?_, ?_, hinflate, haccounted⟩
  · rw [finish, if_neg (not_not_intro hok), hloop]
    simp only [hfinal, decide_true]
  · show final.output.readable = _
    rw [hprogress.output, houtput, List.append_assoc]

/-- What was taken and what is left of the input make up what was accepted just when no count was wrapped and
nothing is left. -/
theorem accepted_iff (hsound : Sound content writes s) {plain : Bytes}
    (haccounted : Accounted writes plain s.accepted) :
    plain ++ s.input = s.accepted ↔ (∀ w ∈ writes, w.Small) ∧ s.availIn = 0 := by
  have hinput := hsound.sane.input_length
  have havail := hsound.availIn_lt
  rcases haccounted with ⟨hsmall, heq⟩ | ⟨hlarge, hlength⟩
  · rw [heq, List.append_right_eq_self, ← List.length_eq_zero_iff, hinput]
    exact (and_iff_right hsmall).symm
  · refine iff_of_false (fun h => ?_) fun h => hlarge h.1
    have hwhole := congrArg List.length h
    rw [List.length_append] at hwhole
    omega

/-- **Compressed just what was consumed.** Into a buffer with less than 4 GiB of free space, and with any
compressor that keeps its promises: all calls go through, and the output represents the pieces that were
written and the bytes that were removed from the buffers that were written, just when no piece is written
after a buffer, no buffer holds 4 GiB or more, and nothing is left of the input when `finish` is called. -/
theorem compressed_exactly_iff (z : Deflate) (output : {b : Buffer // b.free < 2 ^ 32}) (writes : List Write) :
    (∃ s final out, run step (init z output) writes = .ok s ∧ finish s = .ok (true, final) ∧
      final.output.readable = output.1.readable ++ out ∧ z.inflate out = some s.accepted) ↔
    Ordered writes ∧ (∀ w ∈ writes, w.Small) ∧
      ∀ s, run step (init z output) writes = .ok s → s.availIn = 0 := by
  constructor
  · rintro ⟨s, final, out, hrun, hfinish, hreadable, hinflate⟩
    have hsound := sound_of_run z output.2 hrun
    obtain ⟨other, plain, out', hother, hreadable', hinflate', haccounted⟩ := finish_spec hsound
    obtain ⟨-, rfl⟩ := Prod.mk.inj (Except.ok.inj (hfinish.symm.trans hother))
    obtain rfl := List.append_cancel_left (hreadable.symm.trans hreadable')
    obtain ⟨hsmall, havail⟩ := (accepted_iff hsound haccounted).mp
      (Option.some.inj (hinflate'.symm.trans hinflate))
    refine ⟨hsound.ordered, hsmall, fun s' hrun' => ?_⟩
    obtain rfl := Except.ok.inj (hrun.symm.trans hrun')
    exact havail
  · rintro ⟨hordered, hsmall, hleft⟩
    obtain ⟨s, hrun, hsound⟩ := run_of_ordered z output.2 hordered
    obtain ⟨final, plain, out, hfinish, hreadable, hinflate, haccounted⟩ := finish_spec hsound
    refine ⟨s, final, out, hrun, hfinish, hreadable, ?_⟩
    rw [hinflate, (accepted_iff hsound haccounted).mpr ⟨hsmall, hleft s hrun⟩]

/-- An output with 1024 free bytes. -/
def room : {b : Buffer // b.free < 2 ^ 32} := ⟨Buffer.new 1024, by decide +kernel⟩

/-- A piece and then a buffer. -/
def inOrder : List Write :=
  [.piece ⟨ascii "in ", by decide⟩, .buffer (((Buffer.new 16).append (ascii "order")).getD (Buffer.new 0))]

theorem compressed_exactly_inOrder :
    ∃ s final out, run step (init held room) inOrder = .ok s ∧ finish s = .ok (true, final) ∧
      final.output.readable = room.1.readable ++ out ∧ held.inflate out = some (ascii "in order") := by
  obtain ⟨s, hrun, hcheck⟩ := exists_of_outcome step (init held room) inOrder
    (fun s => s.availIn = 0 ∧ s.accepted = ascii "in order") (by decide +kernel)
  obtain ⟨havail, haccepted⟩ := of_decide_eq_true hcheck
  have hsmall : ∀ w ∈ inOrder, w.Small := by
    rw [inOrder, List.forall_mem_cons, List.forall_mem_singleton]
    exact ⟨trivial, by unfold Write.Small; decide +kernel⟩
  have hleft (t : ZlibOutputStream held) (ht : run step (init held room) inOrder = .ok t) : t.availIn = 0 := by
    rw [hrun] at ht
    rw [← Except.ok.inj ht]
    exact havail
  obtain ⟨other, final, out, hother, hfinish, hreadable, hinflate⟩ :=
    (compressed_exactly_iff held room inOrder).mpr ⟨by simp [inOrder, Ordered, isPiece], hsmall, hleft⟩
  obtain rfl := Except.ok.inj (hrun.symm.trans hother)
  rw [haccepted] at hinflate
  exact ⟨s, final, out, hrun, hfinish, hreadable, hinflate⟩

/-- A piece after a buffer fails the assertion, even when the buffer was empty. -/
theorem piece_after_buffer :
    run step (init held (Buffer.new 1024)) [.buffer (Buffer.new 0), .piece ⟨ascii "x", by decide⟩] =
      .error .assertion :=
  error_of_failsWith _ _ _ _ (by decide +kernel)

end ZlibOutputStream
end Muduo
