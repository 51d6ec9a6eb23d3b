import Muduo.Buffer
import Muduo.Execution
import Muduo.Packing
import Muduo.Timestamp

/-! `muduo::AsyncLogging`: any thread appends lines to buffers in memory, and one thread writes full buffers
to the log file. Between the two, buffers change hands under a mutex. The sections that hold the mutex are
single steps, and so is what the logging thread does between two of its operations on the log file. -/

namespace Muduo

open Execution Packing

/-- `detail::FixedBuffer`. -/
structure FixedBuffer (SIZE : Nat) where
  data : Bytes
  length_le : data.length ≤ SIZE

namespace FixedBuffer

variable {SIZE : Nat}

def new : FixedBuffer SIZE := ⟨[], Nat.zero_le _⟩

def avail (b : FixedBuffer SIZE) : Nat := SIZE - b.data.length

/-- A text that does not fit is not appended at all. -/
def append (b : FixedBuffer SIZE) (buf : Bytes) : FixedBuffer SIZE :=
  if hfits : buf.length < b.avail then
    ⟨b.data ++ buf, by
      have := b.length_le
      rw [avail] at hfits
      rw [List.length_append]
      omega⟩
  else b

def reset (_ : FixedBuffer SIZE) : FixedBuffer SIZE := new

theorem append_fits {b : FixedBuffer SIZE} {buf : Bytes} (hfits : buf.length < b.avail) :
    (b.append buf).data = b.data ++ buf := by
  rw [append, dif_pos hfits]

theorem append_full {b : FixedBuffer SIZE} {buf : Bytes} (hfull : ¬ buf.length < b.avail) :
    b.append buf = b := by
  rw [append, dif_neg hfull]

theorem avail_empty {b : FixedBuffer SIZE} (hempty : b.data = []) : b.avail = SIZE := by
  rw [avail, hempty, List.length_nil, Nat.sub_zero]

end FixedBuffer

/-- What is appended to the log file: the content of a buffer, or the notice that buffers were dropped. -/
inductive LogRecord where
  | data (bytes : Bytes)
  | dropped (now : Timestamp) (buffers : Nat)
  deriving DecidableEq, Repr

def LogRecord.bytes? : LogRecord → Option Bytes
  | .data bytes => some bytes
  | .dropped _ _ => none

/-- Where the logging thread is. -/
inductive LoggingPhase where
  /-- `start()` was not called. -/
  | idle
  /-- At the condition of the loop. -/
  | testing
  /-- Before the critical section. -/
  | entering
  /-- In `waitForSeconds`. -/
  | waiting
  /-- Behind the critical section, with a batch. -/
  | taken
  /-- In the loop that writes the batch, with so many buffers written. -/
  | writing (count : Nat)
  /-- Behind that loop. -/
  | recycling
  | finished
  deriving DecidableEq, Repr

/-- Why a step is not taken: it is not the thread's turn, an assertion fails, or a null pointer is
dereferenced. -/
inductive LoggingStop where
  | disabled
  | assertion
  | null
  deriving DecidableEq, Repr

structure AsyncLogging (SIZE : Nat) where
  running : Bool := false
  currentBuffer : Option (FixedBuffer SIZE) := some .new
  nextBuffer : Option (FixedBuffer SIZE) := some .new
  buffers : List (FixedBuffer SIZE) := []
  phase : LoggingPhase := .idle
  newBuffer1 : Option (FixedBuffer SIZE) := none
  newBuffer2 : Option (FixedBuffer SIZE) := none
  buffersToWrite : List (FixedBuffer SIZE) := []
  output : List LogRecord := []
  /-- The lines of all the calls of `append`, in the order in which they held the mutex. -/
  lines : List Bytes := []
  /-- The batches whose size was looked at: what their buffers contained before. -/
  batches : List (List Bytes) := []

namespace AsyncLogging

variable {SIZE : Nat}

/-- `start()`. When it returns, the thread is behind `latch_.countDown()`. -/
def start (s : AsyncLogging SIZE) : Except LoggingStop (AsyncLogging SIZE) :=
  if s.phase = .idle then
    .ok { s with running := true, phase := .testing, newBuffer1 := some .new, newBuffer2 := some .new }
  else .error .disabled

def append (s : AsyncLogging SIZE) (logline : Bytes) : Except LoggingStop (AsyncLogging SIZE) :=
  match s.currentBuffer with
  | some current =>
      if logline.length < current.avail then
        .ok { s with
          currentBuffer := some (current.append logline)
          lines := s.lines ++ [logline] }
      else
        .ok { s with
          buffers := s.buffers ++ [current]
          currentBuffer := some ((s.nextBuffer.getD .new).append logline)
          nextBuffer := none
          lines := s.lines ++ [logline] }
  | none => .error .null

/-- A buffer that the thread has in reserve. -/
def isSpare : Option (FixedBuffer SIZE) → Bool
  | some b => b.data.length == 0
  | none => false

/-- The condition of the loop, and the assertions at the beginning of its body. -/
def test (s : AsyncLogging SIZE) : Except LoggingStop (AsyncLogging SIZE) :=
  if s.phase = .testing then
    if s.running then
      if isSpare s.newBuffer1 && isSpare s.newBuffer2 && s.buffersToWrite.isEmpty then
        .ok { s with phase := .entering }
      else .error .assertion
    else .ok { s with phase := .finished }
  else .error .disabled

/-- The state after the critical section, in which `current` was the current buffer. -/
def swapped (s : AsyncLogging SIZE) (current : FixedBuffer SIZE) : AsyncLogging SIZE :=
  { s with
    buffersToWrite := s.buffers ++ [current]
    buffers := s.buffersToWrite
    currentBuffer := s.newBuffer1
    newBuffer1 := none
    -- nextBuffer_ takes newBuffer2 if it is null
    nextBuffer := if s.nextBuffer.isSome then s.nextBuffer else s.newBuffer2
    newBuffer2 := if s.nextBuffer.isSome then s.newBuffer2 else none
    phase := .taken }

/-- The end of the critical section. A null pointer that is pushed is dereferenced when it is written. -/
def swap (s : AsyncLogging SIZE) : Except LoggingStop (AsyncLogging SIZE) :=
  match s.currentBuffer with
  | some current => .ok (s.swapped current)
  | none => .error .null

/-- The critical section is entered. -/
def lock (s : AsyncLogging SIZE) : Except LoggingStop (AsyncLogging SIZE) :=
  if s.phase = .entering then
    if s.buffers.isEmpty then .ok { s with phase := .waiting } else s.swap
  else .error .disabled

/-- `waitForSeconds` returns: there was a notification, the time is over, or for no reason. -/
def wake (s : AsyncLogging SIZE) : Except LoggingStop (AsyncLogging SIZE) :=
  if s.phase = .waiting then s.swap else .error .disabled

/-- All but the first two buffers of a batch that is too large are dropped. -/
def trim (s : AsyncLogging SIZE) (now : Timestamp) : Except LoggingStop (AsyncLogging SIZE) :=
  if s.phase = .taken then
    if s.buffersToWrite.isEmpty then .error .assertion
    else if 25 < s.buffersToWrite.length then
      .ok { s with
        output := s.output ++ [.dropped now (s.buffersToWrite.length - 2)]
        buffersToWrite := s.buffersToWrite.take 2
        phase := .writing 0
        batches := s.batches ++ [s.buffersToWrite.map FixedBuffer.data] }
    else
      .ok { s with
        phase := .writing 0
        batches := s.batches ++ [s.buffersToWrite.map FixedBuffer.data] }
  else .error .disabled

/-- One turn of the loop that writes the batch, or its end. -/
def write (s : AsyncLogging SIZE) : Except LoggingStop (AsyncLogging SIZE) :=
  match s.phase with
  | .writing count =>
      match s.buffersToWrite[count]? with
      | some buffer =>
          .ok { s with output := s.output ++ [.data buffer.data], phase := .writing (count + 1) }
      | none => .ok { s with phase := .recycling }
  | _ => .error .disabled

/-- A buffer of the batch takes the place of one that was handed over. -/
def refill (slot : Option (FixedBuffer SIZE)) (pool : List (FixedBuffer SIZE)) :
    Except LoggingStop (Option (FixedBuffer SIZE) × List (FixedBuffer SIZE)) :=
  match slot with
  | some b => .ok (some b, pool)
  | none =>
      match pool.getLast? with
      | some b => .ok (some b.reset, pool.dropLast)
      | none => .error .assertion

def recycle (s : AsyncLogging SIZE) : Except LoggingStop (AsyncLogging SIZE) :=
  if s.phase = .recycling then
    -- buffersToWrite.resize(2), if it is larger
    match refill s.newBuffer1 (s.buffersToWrite.take 2) with
    | .ok (newBuffer1, pool) =>
        match refill s.newBuffer2 pool with
        | .ok (newBuffer2, _) =>
            .ok { s with
              newBuffer1 := newBuffer1
              newBuffer2 := newBuffer2
              buffersToWrite := []
              phase := .testing }
        | .error stop => .error stop
    | .error stop => .error stop
  else .error .disabled

/-- `stop()` up to `thread_.join()`, which returns when the thread has finished. -/
def stop (s : AsyncLogging SIZE) : Except LoggingStop (AsyncLogging SIZE) :=
  if s.running then .ok { s with running := false } else .error .disabled

inductive Label where
  | start
  | append (logline : Bytes)
  | test
  | lock
  | wake
  | trim (now : Timestamp)
  | write
  | recycle
  | stop
  deriving DecidableEq, Repr

def step (s : AsyncLogging SIZE) : Label → Except LoggingStop (AsyncLogging SIZE)
  | .start => s.start
  | .append logline => s.append logline
  | .test => s.test
  | .lock => s.lock
  | .wake => s.wake
  | .trim now => s.trim now
  | .write => s.write
  | .recycle => s.recycle
  | .stop => s.stop

/-! ## What a step does -/

/-- The steps that are taken. -/
inductive Turn (s : AsyncLogging SIZE) : Label → AsyncLogging SIZE → Prop where
  | start : s.phase = .idle → Turn s .start
      { s with running := true, phase := .testing, newBuffer1 := some .new, newBuffer2 := some .new }
  | extend {current : FixedBuffer SIZE} {logline : Bytes} :
      s.currentBuffer = some current → logline.length < current.avail →
      Turn s (.append logline)
        { s with currentBuffer := some (current.append logline), lines := s.lines ++ [logline] }
  | rotate {current : FixedBuffer SIZE} {logline : Bytes} :
      s.currentBuffer = some current → ¬ logline.length < current.avail →
      Turn s (.append logline)
        { s with
          buffers := s.buffers ++ [current]
          currentBuffer := some ((s.nextBuffer.getD .new).append logline)
          nextBuffer := none
          lines := s.lines ++ [logline] }
  | enter : s.phase = .testing → s.running = true → isSpare s.newBuffer1 = true →
      s.buffersToWrite = [] → Turn s .test { s with phase := .entering }
  | exit : s.phase = .testing → s.running = false → Turn s .test { s with phase := .finished }
  | wait : s.phase = .entering → Turn s .lock { s with phase := .waiting }
  | swap {label : Label} {current : FixedBuffer SIZE} : label = .lock ∨ label = .wake →
      s.phase = .entering ∨ s.phase = .waiting → s.currentBuffer = some current →
      Turn s label (s.swapped current)
  | drop {now : Timestamp} : s.phase = .taken → 25 < s.buffersToWrite.length →
      Turn s (.trim now)
        { s with
          output := s.output ++ [.dropped now (s.buffersToWrite.length - 2)]
          buffersToWrite := s.buffersToWrite.take 2
          phase := .writing 0
          batches := s.batches ++ [s.buffersToWrite.map FixedBuffer.data] }
  | keep {now : Timestamp} : s.phase = .taken → ¬ 25 < s.buffersToWrite.length →
      Turn s (.trim now)
        { s with
          phase := .writing 0
          batches := s.batches ++ [s.buffersToWrite.map FixedBuffer.data] }
  | write {count : Nat} {buffer : FixedBuffer SIZE} :
      s.phase = .writing count → s.buffersToWrite[count]? = some buffer →
      Turn s .write
        { s with output := s.output ++ [.data buffer.data], phase := .writing (count + 1) }
  | written {count : Nat} : s.phase = .writing count → s.buffersToWrite[count]? = none →
      Turn s .write { s with phase := .recycling }
  | recycle {newBuffer1 newBuffer2 : Option (FixedBuffer SIZE)} {pool rest : List (FixedBuffer SIZE)} :
      s.phase = .recycling →
      refill s.newBuffer1 (s.buffersToWrite.take 2) = .ok (newBuffer1, pool) →
      refill s.newBuffer2 pool = .ok (newBuffer2, rest) →
      Turn s .recycle
        { s with
          newBuffer1 := newBuffer1
          newBuffer2 := newBuffer2
          buffersToWrite := []
          phase := .testing }
  | stop : s.running = true → Turn s .stop { s with running := false }

theorem turn_swap {s next : AsyncLogging SIZE} {label : Label}
    (hlabel : label = .lock ∨ label = .wake) (hphase : s.phase = .entering ∨ s.phase = .waiting)
    (hswap : s.swap = .ok next) : Turn s label next := by
  rw [AsyncLogging.swap] at hswap
  split at hswap
  · rename_i current hcurrent
    cases hswap
    exact .swap hlabel hphase hcurrent
  · cases hswap

theorem turn_of_step {s next : AsyncLogging SIZE} {label : Label}
    (hstep : s.step label = .ok next) : Turn s label next := by
  cases label with
  | start =>
      obtain ⟨hphase, hstep⟩ := guarded_ok.mp hstep
      cases hstep
      exact .start hphase
  | append logline =>
      simp only [step, AsyncLogging.append] at hstep
      split at hstep
      · split at hstep
        · cases hstep
          exact .extend ‹_› ‹_›
        · cases hstep
          exact .rotate ‹_› ‹_›
      · cases hstep
  | test =>
      obtain ⟨hphase, hstep⟩ := guarded_ok.mp hstep
      split at hstep
      · rename_i hrunning
        obtain ⟨hspare, hstep⟩ := guarded_ok.mp hstep
        simp only [Bool.and_eq_true, List.isEmpty_iff] at hspare
        cases hstep
        exact .enter hphase hrunning hspare.1.1 hspare.2
      · rename_i hrunning
        cases hstep
        exact .exit hphase (Bool.not_eq_true _ ▸ hrunning)
  | lock =>
      obtain ⟨hphase, hstep⟩ := guarded_ok.mp hstep
      split at hstep
      · cases hstep
        exact .wait hphase
      · exact turn_swap (.inl rfl) (.inl hphase) hstep
  | wake =>
      obtain ⟨hphase, hstep⟩ := guarded_ok.mp hstep
      exact turn_swap (.inr rfl) (.inr hphase) hstep
  | trim now =>
      obtain ⟨hphase, hstep⟩ := guarded_ok.mp hstep
      split at hstep
      · cases hstep
      · split at hstep
        · cases hstep
          exact .drop hphase ‹_›
        · cases hstep
          exact .keep hphase ‹_›
  | write =>
      simp only [step, AsyncLogging.write] at hstep
      split at hstep
      · split at hstep
        · cases hstep
          exact .write ‹_› ‹_›
        · cases hstep
          exact .written ‹_› ‹_›
      · cases hstep
  | recycle =>
      obtain ⟨hphase, hstep⟩ := guarded_ok.mp hstep
      split at hstep
      · split at hstep
        · cases hstep
          exact .recycle hphase ‹_› ‹_›
        · cases hstep
      · cases hstep
  | stop =>
      obtain ⟨hrunning, hstep⟩ := guarded_ok.mp hstep
      cases hstep
      exact .stop hrunning

/-! ## The buffers -/

/-- Buffers in reserve are empty, and there is always a current buffer. -/
structure Sound (s : AsyncLogging SIZE) : Prop where
  current : ∃ b, s.currentBuffer = some b
  next_empty : ∀ b, s.nextBuffer = some b → b.data = []
  new1_empty : ∀ b, s.newBuffer1 = some b → b.data = []
  new2_empty : ∀ b, s.newBuffer2 = some b → b.data = []
  /-- The thread can hand a buffer over when it enters the critical section. -/
  armed : s.phase = .entering ∨ s.phase = .waiting →
    (∃ b, s.newBuffer1 = some b) ∧ s.buffersToWrite = []

theorem sound_new : Sound ({} : AsyncLogging SIZE) where
  current := ⟨_, rfl⟩
  next_empty b hb := by
    cases hb
    rfl
  new1_empty := nofun
  new2_empty := nofun
  armed := by simp

theorem refill_empty {slot filled : Option (FixedBuffer SIZE)} {pool rest : List (FixedBuffer SIZE)}
    (hslot : ∀ b, slot = some b → b.data = []) (hrefill : refill slot pool = .ok (filled, rest)) :
    ∀ b, filled = some b → b.data = [] := by
  unfold refill at hrefill
  split at hrefill
  · cases hrefill
    exact hslot
  · split at hrefill
    · cases hrefill
      intro b hb
      cases hb
      rfl
    · cases hrefill

theorem sound_turn {s next : AsyncLogging SIZE} {label : Label} (hsound : Sound s)
    (hturn : Turn s label next) : Sound next := by
  obtain ⟨hcurrent, hnext, hnew1, hnew2, harmed⟩ := hsound
  cases hturn with
  | start hphase =>
      have hempty : ∀ b : FixedBuffer SIZE, some FixedBuffer.new = some b → b.data = [] := by
        intro b hb
        cases hb
        rfl
      exact ⟨hcurrent, hnext, hempty, hempty, by simp⟩
  | extend _ _ => exact ⟨⟨_, rfl⟩, hnext, hnew1, hnew2, harmed⟩
  | rotate _ _ => exact ⟨⟨_, rfl⟩, nofun, hnew1, hnew2, harmed⟩
  | enter _ _ hspare hwrite =>
      refine ⟨hcurrent, hnext, hnew1, hnew2, fun _ => ⟨?_, hwrite⟩⟩
      unfold isSpare at hspare
      split at hspare
      · exact ⟨_, ‹_›⟩
      · cases hspare
  | exit _ _ | drop _ _ | keep _ _ | write _ _ | written _ _ =>
      exact ⟨hcurrent, hnext, hnew1, hnew2, by simp⟩
  | wait hphase => exact ⟨hcurrent, hnext, hnew1, hnew2, fun _ => harmed (.inl hphase)⟩
  | swap _ hphase _ =>
      refine ⟨(harmed hphase).1, ?_, nofun, ?_, by simp [swapped]⟩
      · simp only [swapped]
        split
        · exact hnext
        · exact hnew2
      · simp only [swapped]
        split
        · exact hnew2
        · exact nofun
  | recycle _ hfirst hsecond =>
      exact ⟨hcurrent, hnext, refill_empty hnew1 hfirst, refill_empty hnew2 hsecond, by simp⟩
  | stop _ => exact ⟨hcurrent, hnext, hnew1, hnew2, harmed⟩

/-! ## The lines -/

/-- The lines that fit in a buffer. -/
def short (s : AsyncLogging SIZE) : List Bytes := s.lines.filter fun line => line.length < SIZE

/-- The batch that has not been looked at. -/
def fetched (s : AsyncLogging SIZE) : List Bytes :=
  match s.phase with
  | .taken => s.buffersToWrite.map FixedBuffer.data
  | _ => []

/-- What is left to write of the batch that is written. -/
def unwritten (s : AsyncLogging SIZE) : List Bytes :=
  match s.phase with
  | .writing count => (s.buffersToWrite.drop count).map FixedBuffer.data
  | _ => []

/-- What was written to the log file, without the notices. -/
def logged (s : AsyncLogging SIZE) : List Bytes := s.output.filterMap LogRecord.bytes?

/-- What the front end has: `buffers_` and `currentBuffer_`. -/
def pending (s : AsyncLogging SIZE) : List Bytes :=
  s.buffers.map FixedBuffer.data ++ s.currentBuffer.toList.map FixedBuffer.data

/-- What the thread has been given. -/
def handed (s : AsyncLogging SIZE) : List Bytes := s.batches.flatten ++ s.fetched

/-- What is kept of a batch. -/
def kept (batch : List Bytes) : List Bytes := if 25 < batch.length then batch.take 2 else batch

/-- Every line that fits lies in one of the buffers there have been, and what is kept of the batches is
written or will be. -/
structure Conserved (s : AsyncLogging SIZE) : Prop where
  packed : Packed (s.handed ++ s.pending) s.short
  kept : s.logged ++ s.unwritten = s.batches.flatMap kept

theorem conserved_new : Conserved ({} : AsyncLogging SIZE) where
  packed := packed_one
  kept := rfl

theorem short_append (s : AsyncLogging SIZE) (line : Bytes) :
    (s.lines ++ [line]).filter (fun line => line.length < SIZE) =
      s.short ++ if line.length < SIZE then [line] else [] := by
  rw [List.filter_append, short]
  congr 1
  by_cases hline : line.length < SIZE <;> simp [hline]

/-- The line goes into the current buffer, or into an empty one. -/
theorem packed_append {s next : AsyncLogging SIZE} {logline : Bytes} (hsound : Sound s)
    (hpacked : Packed (s.handed ++ s.pending) s.short) (hturn : Turn s (.append logline) next) :
    Packed (next.handed ++ next.pending) next.short := by
  cases hturn with
  | @extend current _ hcurrent hfits =>
      have hshort : logline.length < SIZE := Nat.lt_of_lt_of_le hfits (Nat.sub_le _ _)
      simp only [pending, hcurrent, Option.toList_some, List.map_cons, List.map_nil] at hpacked
      rw [← List.append_assoc] at hpacked
      have hput := hpacked.put logline
      simp only [short, pending, Option.toList_some, List.map_cons, List.map_nil,
        FixedBuffer.append_fits hfits, short_append, if_pos hshort]
      rw [← List.append_assoc]
      exact hput
  | @rotate current _ hcurrent hfull =>
      have hempty : (s.nextBuffer.getD .new).data = [] := by
        cases hnext : s.nextBuffer with
        | none => rfl
        | some b => exact hsound.next_empty b hnext
      have hprovide := hpacked.provide
      simp only [pending, hcurrent, Option.toList_some, List.map_cons, List.map_nil] at hprovide
      simp only [short, pending, Option.toList_some, List.map_cons, List.map_nil, List.map_append,
        short_append]
      by_cases hshort : logline.length < SIZE
      · have hfits : logline.length < (s.nextBuffer.getD FixedBuffer.new).avail := by
          rw [FixedBuffer.avail_empty hempty]
          exact hshort
        have hput := hprovide.put logline
        rw [FixedBuffer.append_fits hfits, hempty, if_pos hshort, ← List.append_assoc]
        exact hput
      · have hfull : ¬ logline.length < (s.nextBuffer.getD FixedBuffer.new).avail := by
          rw [FixedBuffer.avail_empty hempty]
          exact hshort
        rw [FixedBuffer.append_full hfull, hempty, if_neg hshort, ← List.append_assoc,
          List.append_nil]
        exact hprovide
  | swap hlabel _ _ => rcases hlabel with hlabel | hlabel <;> cases hlabel

/-- The thread takes the buffers there are. -/
theorem handed_swapped {s : AsyncLogging SIZE} {current : FixedBuffer SIZE}
    (hphase : s.phase = .entering ∨ s.phase = .waiting) (hcurrent : s.currentBuffer = some current) :
    (s.swapped current).handed = s.handed ++ s.pending := by
  have hfetched : s.fetched = [] := by
    rcases hphase with hphase | hphase <;> simp only [fetched, hphase]
  rw [handed, handed, hfetched]
  simp [pending, fetched, swapped, hcurrent]

/-- It leaves an empty one. -/
theorem pending_swapped {s : AsyncLogging SIZE} (hsound : Sound s)
    (hphase : s.phase = .entering ∨ s.phase = .waiting) (current : FixedBuffer SIZE) :
    (s.swapped current).pending = [[]] := by
  obtain ⟨⟨spare, hspare⟩, hnone⟩ := hsound.armed hphase
  simp [pending, swapped, hspare, hnone, hsound.new1_empty spare hspare]

/-- A step that moves no lines. -/
theorem Conserved.of_eq {s next : AsyncLogging SIZE} (hconserved : Conserved s)
    (hhanded : next.handed = s.handed) (hpending : next.pending = s.pending)
    (hlines : next.lines = s.lines) (hlogged : next.logged ++ next.unwritten = s.logged ++ s.unwritten)
    (hbatches : next.batches = s.batches) : Conserved next where
  packed := by
    rw [hhanded, hpending, short, hlines]
    exact hconserved.packed
  kept := by
    rw [hlogged, hbatches]
    exact hconserved.kept

theorem conserved_turn {s next : AsyncLogging SIZE} {label : Label} (hsound : Sound s)
    (hconserved : Conserved s) (hturn : Turn s label next) : Conserved next := by
  have hpacked := hconserved.packed
  have hkept := hconserved.kept
  cases hturn with
  | start hphase | enter hphase _ _ _ | exit hphase _ | wait hphase | recycle hphase _ _ =>
      exact hconserved.of_eq (by simp [handed, fetched, hphase]) rfl rfl
        (by simp [logged, unwritten, hphase]) rfl
  | extend hcurrent hfits => exact ⟨packed_append hsound hpacked (.extend hcurrent hfits), hkept⟩
  | rotate hcurrent hfull => exact ⟨packed_append hsound hpacked (.rotate hcurrent hfull), hkept⟩
  | swap _ hphase hcurrent =>
      constructor
      · rw [handed_swapped hphase hcurrent, pending_swapped hsound hphase]
        exact hpacked.provide
      · rcases hphase with hphase | hphase <;>
          simpa [logged, unwritten, swapped, hphase] using hkept
  | drop hphase hlarge =>
      -- the batch is recorded as it was taken
      constructor
      · simpa [handed, fetched, pending, short, hphase] using hpacked
      · simp only [logged, unwritten, hphase, List.append_nil] at hkept
        simp [logged, unwritten, hkept, LogRecord.bytes?, AsyncLogging.kept, hlarge]
  | keep hphase hlarge =>
      constructor
      · simpa [handed, fetched, pending, short, hphase] using hpacked
      · simp only [logged, unwritten, hphase, List.append_nil] at hkept
        simp [logged, unwritten, hkept, AsyncLogging.kept, hlarge]
  | @write count buffer hphase hbuffer =>
      refine hconserved.of_eq (by simp [handed, fetched, hphase]) rfl rfl ?_ rfl
      obtain ⟨hlt, rfl⟩ := List.getElem?_eq_some_iff.mp hbuffer
      simp only [logged, unwritten, hphase]
      rw [List.drop_eq_getElem_cons hlt, List.map_cons, List.filterMap_append, List.append_assoc]
      rfl
  | @written count hphase hend =>
      refine hconserved.of_eq (by simp [handed, fetched, hphase]) rfl rfl ?_ rfl
      have hle := List.getElem?_eq_none_iff.mp hend
      simp [logged, unwritten, hphase, List.drop_of_length_le hle]
  | stop _ => exact ⟨hpacked, hkept⟩

/-- What holds after every run. -/
theorem run_conserved {s : AsyncLogging SIZE} {labels : List Label}
    (hrun : run step {} labels = .ok s) : Sound s ∧ Conserved s := by
  refine run_preserves (fun s => Sound s ∧ Conserved s) ?_ ⟨sound_new, conserved_new⟩ hrun
  rintro s label next ⟨hsound, hconserved⟩ hstep
  have hturn := turn_of_step hstep
  exact ⟨sound_turn hsound hturn, conserved_turn hsound hconserved hturn⟩

/-- **No line is lost, split or written twice.** At every moment the lines that fit in a buffer lie, in
order and each of them whole, in the buffers of the batches there have been, in `buffers_` and in the
current buffer. Of these the log file has been given, or will be given, the batches in order, without all
but the first two buffers of each batch of more than 25. -/
theorem lines_conserved {s : AsyncLogging SIZE} {labels : List Label}
    (hrun : run step {} labels = .ok s) :
    ∃ current, s.currentBuffer = some current ∧
      Packed (s.batches.flatten ++ s.fetched ++ s.buffers.map FixedBuffer.data ++ [current.data])
        (s.lines.filter fun line => line.length < SIZE) ∧
      s.logged ++ s.unwritten = s.batches.flatMap kept := by
  obtain ⟨hsound, hconserved⟩ := run_conserved hrun
  obtain ⟨current, hcurrent⟩ := hsound.current
  have hpacked := hconserved.packed
  simp only [handed, pending, hcurrent, Option.toList_some, List.map_cons, List.map_nil] at hpacked
  refine ⟨current, hcurrent, ?_, hconserved.kept⟩
  rw [List.append_assoc (s.batches.flatten ++ s.fetched)]
  exact hpacked

/-- A run with buffers of four bytes: a line too long, a full buffer, and a batch half written. -/
theorem lines_conserved_written :
    ∃ s : AsyncLogging 4, run step {} [.append [1, 2], .start, .append [3, 4, 5, 6, 7], .test, .lock,
        .append [8, 9], .trim 0, .write] = .ok s ∧
      ∃ current, s.currentBuffer = some current ∧
        Packed (s.batches.flatten ++ s.fetched ++ s.buffers.map FixedBuffer.data ++ [current.data])
          (s.lines.filter fun line => line.length < 4) ∧
        s.logged ++ s.unwritten = s.batches.flatMap kept ∧ s.logged = [[1, 2]] := by
  obtain ⟨s, hrun, hlogged⟩ := exists_of_outcome step ({} : AsyncLogging 4)
    [.append [1, 2], .start, .append [3, 4, 5, 6, 7], .test, .lock, .append [8, 9], .trim 0, .write]
    (fun s => s.logged = [[1, 2]]) (by decide +kernel)
  obtain ⟨current, hcurrent, hpacked, hkept⟩ := lines_conserved hrun
  exact ⟨s, hrun, current, hcurrent, hpacked, hkept, of_decide_eq_true hlogged⟩

end AsyncLogging
end Muduo
