import Muduo.AsyncLogging
import Muduo.LogFileNames

/-! The whole way of a log line: from `AsyncLogging::append` through the buffers and the logging thread to
the files that its `LogFile` begins. The thread makes the `LogFile` when it starts, and hands it every
buffer of a batch, and the notice that buffers were dropped. -/

namespace Muduo

open Execution Packing

/-- `"Dropped log messages at %s, %zd larger buffers\n"`, into an array of 256 bytes. -/
def droppedText (now : Timestamp) (buffers : Nat) : Bytes :=
  (ascii "Dropped log messages at " ++ Timestamp.toFormattedString now true ++ ascii ", " ++
    Decimal.print buffers ++ ascii " larger buffers\n").take 255

def LogRecord.text : LogRecord → Bytes
  | .data bytes => bytes
  | .dropped now buffers => droppedText now buffers

namespace AsyncLogging

/-- What the C library answers to the calls that a step makes: how many bytes `fwrite_unlocked` accepts,
attempt by attempt and never none, and what the log file reads. -/
structure Answers where
  results : Nat → Nat
  results_ne_zero : ∀ i, results i ≠ 0
  clock : LogFile.TimeT
  reading : LogFile.Reading

structure Pipeline (SIZE : Nat) where
  logging : AsyncLogging SIZE := {}
  /-- The `LogFile` of the thread. -/
  output : Option LogFile.State := none

namespace Pipeline

variable {SIZE : Nat} (config : LogFile.Config)

/-- `output.append` for a record. -/
def appendRecord (file : LogFile.State) (record : LogRecord) (answers : Answers) : Option LogFile.State :=
  LogFile.append config file ⟨record.text, answers.results⟩ answers.clock answers.reading

/-- The records that are handed to the log file, one after another. -/
def deliver (output : Option LogFile.State) (records : List LogRecord) (answers : Answers) :
    Option (Option LogFile.State) :=
  match records, output with
  | [], output => some output
  | record :: records, some file => do
      let next ← appendRecord config file record answers
      deliver (some next) records answers
  | _ :: _, none => none

def step (p : Pipeline SIZE) (label : Label × Answers) : Except LoggingStop (Pipeline SIZE) :=
  match p.logging.step label.1 with
  | .ok next =>
      match label.1 with
      | .start => .ok ⟨next, LogFile.construct config label.2.reading⟩
      | _ =>
          -- the records that this step adds to the output
          match deliver config p.output (next.output.drop p.logging.output.length) label.2 with
          | some output => .ok ⟨next, output⟩
          | none => .error .assertion
  | .error stop => .error stop

/-! ## What the files hold -/

/-- The files hold the records in their order, each of them entirely in one file. -/
structure Stored (s : AsyncLogging SIZE) (output : Option LogFile.State) : Prop where
  none_iff : output = none ↔ s.phase = .idle
  idle : s.phase = .idle → s.output = []
  stored : ∀ file, output = some file → ∃ calls, LogFile.Sound config calls file ∧
    calls.filterMap LogFile.Call.record = s.output.map LogRecord.text

variable {config}

/-- Every record is accepted. -/
theorem accepts (answers : Answers) (text : Bytes) : (AppendCall.mk text answers.results).Lasting := by
  refine ⟨text.length, fun i _ => answers.results_ne_zero (1 + i), ?_⟩
  have hsum := List.length_le_sum_of_one_le ((List.range text.length).map fun i => answers.results (1 + i)) (by
    intro n hn
    obtain ⟨i, -, rfl⟩ := List.mem_map.mp hn
    exact Nat.one_le_iff_ne_zero.mpr (answers.results_ne_zero _))
  rw [List.length_map, List.length_range] at hsum
  exact (Nat.sub_le _ _).trans hsum

theorem deliver_ok {calls : List LogFile.Call} {file : LogFile.State} (hsound : LogFile.Sound config calls file)
    (answers : Answers) (records : List LogRecord) :
    ∃ calls' file', deliver config (some file) records answers = some (some file') ∧
      LogFile.Sound config calls' file' ∧
      calls'.filterMap LogFile.Call.record = calls.filterMap LogFile.Call.record ++ records.map LogRecord.text := by
  induction records generalizing calls file with
  | nil => exact ⟨calls, file, rfl, hsound, (List.append_nil _).symm⟩
  | cons record records ih =>
      obtain ⟨next, -, hnext, hsound', -⟩ :=
        LogFile.append_sound hsound (accepts answers record.text) answers.clock answers.reading
      obtain ⟨calls', file', hdeliver, hsound'', hrecords⟩ := ih hsound'
      refine ⟨calls', file', ?_, hsound'', ?_⟩
      · rw [deliver, appendRecord, hnext]
        exact hdeliver
      · rw [hrecords, List.filterMap_append, List.map_cons, List.append_assoc]
        rfl

/-- A step adds records to the output, but none before the thread has started. -/
theorem output_turn {s next : AsyncLogging SIZE} {label : Label} (hturn : Turn s label next) :
    ∃ records, next.output = s.output ++ records ∧ (s.phase = .idle → records = []) ∧
      (label ≠ .start → (next.phase = .idle ↔ s.phase = .idle)) := by
  -- the thread is at work before and after the step
  have hbusy (records : List LogRecord) (houtput : next.output = s.output ++ records) (hbefore : s.phase ≠ .idle)
      (hafter : next.phase ≠ .idle) : ∃ records, next.output = s.output ++ records ∧ (s.phase = .idle → records = []) ∧
        (label ≠ .start → (next.phase = .idle ↔ s.phase = .idle)) :=
    ⟨records, houtput, fun h => absurd h hbefore, fun _ => iff_of_false hafter hbefore⟩
  cases hturn with
  | start hphase => exact ⟨[], (List.append_nil _).symm, fun _ => rfl, fun h => absurd rfl h⟩
  | extend _ _ | rotate _ _ | stop _ =>
      exact ⟨[], (List.append_nil _).symm, fun _ => rfl, fun _ => Iff.rfl⟩
  | enter hphase _ _ _ | exit hphase _ | wait hphase | recycle hphase _ _ | keep hphase _ | written hphase _ =>
      exact hbusy [] (List.append_nil _).symm (by simp [hphase]) (fun h => by cases h)
  | swap _ hphase _ =>
      refine hbusy [] (List.append_nil _).symm ?_ (fun h => by cases h)
      rcases hphase with hphase | hphase <;> simp [hphase]
  | drop hphase _ | write hphase _ => exact hbusy [_] rfl (by simp [hphase]) (fun h => by cases h)

/-- The log file takes part in every step that the front end and the thread take. -/
theorem step_stored {s next : AsyncLogging SIZE} {output : Option LogFile.State} (hstored : Stored config s output)
    {label : Label × Answers} (hstep : s.step label.1 = .ok next) :
    ∃ output', step config ⟨s, output⟩ label = .ok ⟨next, output'⟩ ∧ Stored config next output' := by
  obtain ⟨label, answers⟩ := label
  have hturn := turn_of_step hstep
  obtain ⟨records, hrecords, hnone, hphase⟩ := output_turn hturn
  have hdrop : next.output.drop s.output.length = records := by rw [hrecords, List.drop_left]
  by_cases hstart : label = .start
  · -- the thread begins with the construction of its log file
    subst hstart
    obtain ⟨file, hfile, hsound⟩ := LogFile.construct_sound config answers.reading
    refine ⟨some file, ?_, ?_⟩
    · simp only [step, hstep, hfile]
    · cases hturn with
      | start hidle =>
          refine ⟨iff_of_false (fun h => by cases h) (fun h => by cases h), (fun h => by cases h),
            fun other hother => ?_⟩
          cases hother
          refine ⟨[], hsound, ?_⟩
          change [] = s.output.map LogRecord.text
          rw [hstored.idle hidle]
          rfl
      | swap hlabel _ _ => rcases hlabel with h | h <;> cases h
  · have hstep' : step config ⟨s, output⟩ (label, answers) =
        match deliver config output records answers with
        | some output => .ok ⟨next, output⟩
        | none => .error .assertion := by
      simp only [step, hstep, hdrop]
    rw [hstep']
    have hphase := hphase hstart
    cases output with
    | none =>
        have hidle := hstored.none_iff.mp rfl
        rw [hnone hidle]
        refine ⟨none, rfl, iff_of_true rfl (hphase.mpr hidle), fun _ => ?_, fun file hfile => by cases hfile⟩
        rw [hrecords, hnone hidle, hstored.idle hidle]
        rfl
    | some file =>
        obtain ⟨calls, hsound, hcalls⟩ := hstored.stored file rfl
        obtain ⟨calls', file', hdeliver, hsound', hcalls'⟩ := deliver_ok hsound answers records
        have hbusy : next.phase ≠ .idle := fun h => by cases hstored.none_iff.mpr (hphase.mp h)
        rw [hdeliver]
        refine ⟨some file', rfl, iff_of_false (fun h => by cases h) hbusy, fun h => absurd h hbusy,
          fun other hother => ?_⟩
        cases hother
        exact ⟨calls', hsound', by rw [hcalls', hcalls, hrecords, List.map_append]⟩

theorem stored_new : Stored config ({} : AsyncLogging SIZE) none :=
  ⟨iff_of_true rfl rfl, fun _ => rfl, fun file hfile => by cases hfile⟩

/-- Whatever the front end and the thread do, the log file does its part. -/
theorem run_stored {s : AsyncLogging SIZE} {labels : List (Label × Answers)}
    (hrun : run AsyncLogging.step {} (labels.map Prod.fst) = .ok s) :
    ∃ output, run (step config) ({} : Pipeline SIZE) labels = .ok ⟨s, output⟩ ∧ Stored config s output := by
  rw [run_map] at hrun
  have hmatched : ∃ p, run (step config) ({} : Pipeline SIZE) labels = .ok p ∧
      p.logging = s ∧ Stored config s p.output := by
    refine run_matched (fun s (p : Pipeline SIZE) => p.logging = s ∧ Stored config s p.output)
      (And.intro rfl stored_new) hrun ?_
    rintro s p label next ⟨rfl, hstored⟩ hstep
    obtain ⟨output, hnext, hkeeps⟩ := step_stored hstored hstep
    exact ⟨_, hnext, rfl, hkeeps⟩
  obtain ⟨p, hp, rfl, hstored⟩ := hmatched
  exact ⟨p.output, hp, hstored⟩

/-- What the log file was given of the batches, in the order of the lines. -/
theorem logged_sublist {s : AsyncLogging SIZE} (hconserved : Conserved s) :
    s.logged.Sublist (s.handed ++ s.pending) := by
  have hkept (batch : List Bytes) : (kept batch).Sublist batch := by
    rw [kept]
    split
    · exact List.take_sublist 2 batch
    · exact List.Sublist.refl batch
  have hbatches : (s.batches.flatMap kept).Sublist s.batches.flatten := by
    rw [← List.flatMap_id]
    exact List.Sublist.flatMap_right _ fun batch _ => hkept batch
  calc s.logged.Sublist (s.logged ++ s.unwritten) := List.sublist_append_left _ _
    _ = s.batches.flatMap kept := hconserved.kept
    List.Sublist _ s.batches.flatten := hbatches
    List.Sublist _ (s.handed ++ s.pending) := by
      rw [handed, List.append_assoc]
      exact List.sublist_append_left _ _

/-- Nothing is dropped while no batch is too large. -/
theorem logged_of_small {s : AsyncLogging SIZE} (hconserved : Conserved s)
    (hsmall : ∀ batch ∈ s.batches, batch.length ≤ 25) :
    s.handed ++ s.pending = s.logged ++ (s.unwritten ++ s.fetched ++ s.pending) := by
  have hkept : s.batches.flatMap kept = s.batches.flatten := by
    rw [List.flatten_eq_flatMap]
    exact List.flatMap_congr fun batch hbatch => if_neg (Nat.not_lt.mpr (hsmall batch hbatch))
  rw [handed, ← hkept, ← hconserved.kept]
  simp only [List.append_assoc]

/-- There are no notices as long as no batch is too large. -/
def Quiet (s : AsyncLogging SIZE) : Prop :=
  (∀ batch ∈ s.batches, batch.length ≤ 25) → s.output.map LogRecord.text = s.logged

theorem quiet_turn {s next : AsyncLogging SIZE} {label : Label} (hquiet : Quiet s) (hturn : Turn s label next) :
    Quiet next := by
  intro hsmall
  cases hturn with
  | start _ | extend _ _ | rotate _ _ | enter _ _ _ _ | exit _ _ | wait _ | swap _ _ _ | written _ _ | recycle _ _ _
  | stop _ => exact hquiet hsmall
  | drop _ hlarge =>
      have hlength := hsmall _ (List.mem_append_right _ (List.mem_singleton_self _))
      rw [List.length_map] at hlength
      omega
  | keep _ _ => exact hquiet fun batch hbatch => hsmall batch (List.mem_append_left _ hbatch)
  | write _ _ =>
      have hbefore := hquiet hsmall
      simp only [logged, List.map_append, List.filterMap_append, hbefore]
      rfl

/-- The contents of the files, in the order in which they were begun. -/
def contents (file : LogFile.State) : List Bytes := file.files.map fun f => f.file.accepted

/-- **From the line to the file.** Whatever the threads do, the files hold the buffers that were written and
the notices in their order, each of them entirely in one file, and no two files have one name. The buffers
that were written hold some of the lines, each of them whole, in the order of the calls of `append` and none of
them twice. As long as no batch has more than 25 buffers, all lines that fit in a buffer lie, in order and
each of them whole, in the files and then in the buffers in memory. -/
theorem lines_reach_files (config : LogFile.Config) {s : AsyncLogging SIZE} {labels : List (Label × Answers)}
    (hrun : run AsyncLogging.step {} (labels.map Prod.fst) = .ok s) :
    ∃ output, run (step config) ({} : Pipeline SIZE) labels = .ok ⟨s, output⟩ ∧
      (output = none ↔ s.phase = .idle) ∧
      ∀ file, output = some file →
        (file.files.map LogFile.File.name).Nodup ∧
        Packed (contents file) (s.output.map LogRecord.text) ∧
        (∃ survivors, survivors.Sublist (s.lines.filter fun line => line.length < SIZE) ∧
          Packed s.logged survivors) ∧
        ((∀ batch ∈ s.batches, batch.length ≤ 25) →
          Packed (contents file ++ (s.unwritten ++ s.fetched ++ s.pending))
            (s.lines.filter fun line => line.length < SIZE)) := by
  obtain ⟨output, houtput, hstored⟩ := run_stored hrun
  have hconserved := (run_conserved hrun).2
  have hquiet : Quiet s := run_preserves Quiet (fun s label next hquiet hstep => quiet_turn hquiet (turn_of_step hstep))
    (fun _ => rfl) hrun
  refine ⟨output, houtput, hstored.none_iff, fun file hfile => ?_⟩
  obtain ⟨calls, hsound, hcalls⟩ := hstored.stored file hfile
  obtain ⟨groups, hcontents, hrecords⟩ := hsound.contents
  have hpacked : Packed (contents file) (s.output.map LogRecord.text) :=
    ⟨groups, hcontents.symm, hrecords.trans hcalls⟩
  refine ⟨hsound.nodup_names, hpacked, hconserved.packed.sublist (logged_sublist hconserved), fun hsmall => ?_⟩
  -- the lines lie in the buffers, and the buffers that were written lie in the files
  have hlines := hconserved.packed
  rw [logged_of_small hconserved hsmall, ← hquiet hsmall] at hlines
  exact (hpacked.append (packed_self _)).trans hlines

/-- Two lines for buffers of four bytes, up to the writing of the first batch. -/
def firstBatch : List Label := [.start, .append [1, 2], .append [3, 4, 10], .test, .lock, .trim 0, .write]

theorem lines_reach_files_first :
    ∃ (answers : Answers) (s : AsyncLogging 4) (output : Option LogFile.State),
      run (step LogFile.smallFiles) ({} : Pipeline 4) (firstBatch.map fun label => (label, answers)) = .ok ⟨s, output⟩ ∧
      s.logged = [[1, 2]] ∧ ∃ file, output = some file ∧
        Packed (contents file ++ (s.unwritten ++ s.fetched ++ s.pending)) [[1, 2], [3, 4, 10]] := by
  have answers : Answers := ⟨fun _ => 1, fun _ => Nat.one_ne_zero, ⟨1700000000, by decide⟩,
    ⟨⟨1700000000, by decide⟩, ascii "host", 42⟩⟩
  obtain ⟨s, hrun, hcheck⟩ := exists_of_outcome AsyncLogging.step ({} : AsyncLogging 4) firstBatch
    (fun s => s.logged = [[1, 2]] ∧ s.phase ≠ .idle ∧ (∀ batch ∈ s.batches, batch.length ≤ 25) ∧
      (s.lines.filter fun line => line.length < 4) = [[1, 2], [3, 4, 10]]) (by decide +kernel)
  obtain ⟨hlogged, hphase, hsmall, hlines⟩ := of_decide_eq_true hcheck
  have hfirst : run AsyncLogging.step {} ((firstBatch.map fun label => (label, answers)).map Prod.fst) = .ok s := hrun
  obtain ⟨output, houtput, hnone, hfiles⟩ := lines_reach_files LogFile.smallFiles hfirst
  obtain ⟨file, rfl⟩ := Option.ne_none_iff_exists'.mp fun h => hphase (hnone.mp h)
  refine ⟨answers, s, _, houtput, hlogged, file, rfl, ?_⟩
  have hpacked := (hfiles file rfl).2.2.2 hsmall
  rwa [hlines] at hpacked

end Pipeline
end AsyncLogging
end Muduo
