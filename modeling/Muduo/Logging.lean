import Muduo.LogStream
import Muduo.LogTime
import Muduo.Timestamp

/-! `muduo::Logger`: a record is streamed to a buffer of fixed size between its header and its end, and the
content of the buffer is passed on. The time in the header is formatted once a second, and the text is kept
for the other records of the second. -/

namespace Muduo.Logging

open Execution TimeZone

inductive LogLevel
  | trace | debug | info | warn | error | fatal
  deriving DecidableEq

/-- `LogLevelName`. -/
def LogLevel.name : LogLevel → Bytes
  | trace => ascii "TRACE "
  | debug => ascii "DEBUG "
  | info => ascii "INFO  "
  | warn => ascii "WARN  "
  | error => ascii "ERROR "
  | fatal => ascii "FATAL "

/-- A value of type `int`. -/
abbrev IntValue := {v : Int // IntegerType.int.Holds v}

/-- The constructors of `Logger`, besides the file and the line. -/
inductive Origin
  | plain
  | leveled (level : LogLevel)
  | traced (level : LogLevel) (func : Bytes)
  | system (toAbort : Bool) (errno : IntValue)

namespace Origin

def level : Origin → LogLevel
  | plain => .info
  | leveled level => level
  | traced level _ => level
  | system toAbort _ => if toAbort then .fatal else .error

def savedErrno : Origin → IntValue
  | system _ errno => errno
  | _ => ⟨0, by decide⟩

end Origin

/-- A statement that logs: how the `Logger` is made, what the clock says, what the memory of its buffer holds
before, and the values that are streamed. -/
structure Statement where
  origin : Origin
  file : Bytes
  line : IntValue
  time : Timestamp
  time_pos : 0 < time.tdiv Timestamp.kMicroSecondsPerSecond
  memory : Bytes
  memory_length : memory.length = kSmallBuffer
  values : List Piece

namespace Statement

def seconds (st : Statement) : Int := st.time.tdiv Timestamp.kMicroSecondsPerSecond

def microseconds (st : Statement) : Int := st.time.tmod Timestamp.kMicroSecondsPerSecond

/-- `SourceFile`: the name behind the last slash. -/
def basename (st : Statement) : Bytes := (st.file.reverse.takeWhile (· ≠ 47)).reverse

end Statement

/-- What `g_output` was called with, at which second and in which zone. -/
structure Record where
  seconds : Int
  zone : Zone
  message : Bytes

/-- The variables of the thread and of the process, and the records so far. `formattedIn` is the zone that was
in force when `t_time` was formatted; no code reads it. -/
structure State where
  time : Bytes := []
  lastSecond : Int := 0
  logTimeZone : Zone := {}
  formattedIn : Zone := {}
  records : List Record := []
  aborted : Bool := false

/-- The number of the thread, and the texts of `strerror_r`. -/
structure Environment where
  tid : Int
  strerror : Int → Bytes

/-- `formatTime`, up to the two texts that it streams. -/
def refresh (s : State) (seconds : Int) : Option State := do
  if seconds ≠ s.lastSecond then
    let text ← directText s.logTimeZone seconds
    return { s with lastSecond := seconds, time := text, formattedIn := s.logTimeZone }
  else return s

/-- The text of the microseconds, and the length that is asserted. -/
def microText (zone : Zone) (microseconds : Int) : Bytes × Nat :=
  if zone.valid then (ascii "." ++ Decimal.printPadded 6 microseconds ++ ascii " ", 8)
  else (ascii "." ++ Decimal.printPadded 6 microseconds ++ ascii "Z ", 9)

/-- `formatTime`. -/
def formatTime (s : State) (st : Statement) : Option (State × List Piece) := do
  let s ← refresh s st.seconds
  let (us, length) := microText s.logTimeZone st.microseconds
  if us.length = length ∧ s.time.length = 17 then return (s, [.string s.time, .string us]) else none

variable (env : Environment)

/-- What `Impl::Impl` streams behind the time. -/
def headerRest (st : Statement) : List Piece :=
  [.string (Decimal.printSpaced 5 env.tid ++ ascii " "), .string st.origin.level.name] ++
  (if st.origin.savedErrno.1 ≠ 0 then
    [.cstring (some (env.strerror st.origin.savedErrno)), .cstring (some (ascii " (errno=")),
      .integer ⟨.int, st.origin.savedErrno, st.origin.savedErrno.2⟩, .cstring (some (ascii ") "))]
  else []) ++
  match st.origin with
  | .traced _ func => [.cstring (some func), .char 32]
  | _ => []

/-- What `finish` streams before the newline. -/
def finishPieces (st : Statement) : List Piece :=
  [.cstring (some (ascii " - ")), .stringPiece st.basename, .char 58, .integer ⟨.int, st.line, st.line.2⟩]

/-- All that is streamed before `~Logger`. -/
def streamed (s : State) (st : Statement) : Option (State × List Piece) := do
  if s.aborted then none
  else
    let (s, time) ← formatTime s st
    return (s, time ++ headerRest env st ++ st.values)

inductive Label
  | log (st : Statement)
  | setTimeZone (zone : Zone)

/-- A statement from its beginning to the end of `~Logger`, or a call of `setTimeZone`. -/
def step (s : State) : Label → Except Unit State
  | .log st =>
      match streamed env s st with
      | none => .error ()
      | some (s, pieces) =>
          match run LogStream.step { data := st.memory } (pieces ++ finishPieces st ++ [.char 10]) with
          | .error _ => .error ()
          | .ok stream => .ok { s with
              records := s.records ++ [⟨st.seconds, s.logTimeZone, stream.content⟩]
              aborted := st.origin.level = .fatal }
  | .setTimeZone zone => if s.aborted then .error () else .ok { s with logTimeZone := zone }

/-! ## One statement -/

variable {env} {s next : State} {st : Statement} {pieces : List Piece}

theorem microseconds_bounds (st : Statement) : 0 ≤ st.microseconds ∧ st.microseconds < 10 ^ 6 := by
  have hk : Timestamp.kMicroSecondsPerSecond = 1000000 := rfl
  have hpos := st.time_pos
  have hdivision := Int.mul_tdiv_add_tmod st.time Timestamp.kMicroSecondsPerSecond
  have hlow := Int.lt_tmod_of_pos st.time (b := Timestamp.kMicroSecondsPerSecond) (by decide)
  have htime : (0 : Int) ≤ st.time := by
    rw [hk] at hpos hdivision hlow
    omega
  exact ⟨Int.tmod_nonneg _ htime, Int.tmod_lt_of_pos _ (by decide)⟩

theorem microText_length (zone : Zone) (st : Statement) :
    (microText zone st.microseconds).1.length = (microText zone st.microseconds).2 := by
  obtain ⟨hlow, hhigh⟩ := microseconds_bounds st
  have hsix := Decimal.length_printPadded (show 0 < 6 by decide) hlow hhigh
  rw [microText]
  split
  · simp only [List.length_append, hsix]
    decide
  · simp only [List.length_append, hsix]
    decide

/-- Whether the text of the last formatting is used, or a new one. -/
theorem formatTime_hit (hsecond : st.seconds = s.lastSecond) (htime : s.time.length = 17) :
    formatTime s st =
      some (s, [.string s.time, .string (microText s.logTimeZone st.microseconds).1]) := by
  have hrefresh : refresh s st.seconds = some s := if_neg (not_not_intro hsecond)
  rw [formatTime, hrefresh]
  exact if_pos ⟨microText_length _ st, htime⟩

theorem formatTime_miss (hsecond : st.seconds ≠ s.lastSecond) :
    formatTime s st = (directText s.logTimeZone st.seconds).map fun text =>
      ({ s with lastSecond := st.seconds, time := text, formattedIn := s.logTimeZone },
        [.string text, .string (microText s.logTimeZone st.microseconds).1]) := by
  rw [formatTime, refresh, if_pos hsecond]
  cases htext : directText s.logTimeZone st.seconds with
  | none => rfl
  | some text =>
      obtain ⟨fields, -, hlength, rfl⟩ := directText_eq_some.mp htext
      exact if_pos ⟨microText_length _ st, hlength⟩

/-- What a statement leads to, when it is not stopped. -/
def logged (next : State) (st : Statement) (pieces : List Piece) : State :=
  { next with
    records := next.records ++
      [⟨st.seconds, next.logTimeZone, Piece.keptText (pieces ++ finishPieces st ++ [.char 10])⟩]
    aborted := st.origin.level = .fatal }

theorem step_log_stops (hstops : streamed env s st = none) : step env s (.log st) = .error () := by
  rw [step, hstops]

theorem step_log (hstreamed : streamed env s st = some (next, pieces)) :
    step env s (.log st) = .ok (logged next st pieces) := by
  obtain ⟨stream, hrun, -, hcontent⟩ := LogStream.run_pieces st.memory_length
    (pieces ++ finishPieces st ++ [.char 10])
  rw [step, hstreamed]
  simp only [hrun, hcontent]
  rfl

theorem streamed_aborted (haborted : s.aborted = true) : streamed env s st = none := by
  rw [streamed, if_pos haborted]

theorem streamed_eq (haborted : s.aborted = false) {time : List Piece}
    (hformat : formatTime s st = some (next, time)) :
    streamed env s st = some (next, time ++ headerRest env st ++ st.values) := by
  rw [streamed, if_neg (by rw [haborted]; exact Bool.false_ne_true), hformat]
  rfl

theorem streamed_none (hformat : formatTime s st = none) : streamed env s st = none := by
  rw [streamed, hformat]
  split
  · rfl
  · rfl

/-! ## The time -/

/-- The text that is kept is that of the last second, in the zone of the last formatting. -/
def Cached (s : State) : Prop := s.lastSecond = 0 ∨ directText s.formattedIn s.lastSecond = some s.time

/-- Every record begins with the text of its second in the zone that was in force. -/
def Transparent (s : State) : Prop :=
  ∀ record ∈ s.records, directText record.zone record.seconds = some (record.message.take 17)

/-- A record of the second whose text is kept finds a zone in force that has the same local time at that
second as the zone of the last formatting. -/
def Steady (s : State) : Label → Prop
  | .log st => s.aborted = false → st.seconds = s.lastSecond →
      directFields s.logTimeZone st.seconds = directFields s.formattedIn st.seconds
  | .setTimeZone _ => True

/-- Two zones give one text just when they give the same fields. -/
theorem directText_eq_iff {zone other : Zone} {seconds : Int} {text : Bytes}
    (htext : directText other seconds = some text) :
    directText zone seconds = some text ↔ directFields zone seconds = directFields other seconds := by
  obtain ⟨fields, hfields, hlength, rfl⟩ := directText_eq_some.mp htext
  constructor
  · intro hzone
    obtain ⟨others, hothers, hwidth, hsame⟩ := directText_eq_some.mp hzone
    rw [hothers, hfields, TimeFields.text_injective hwidth hsame]
  · intro hsame
    rw [directText, hsame, ← directText, htext]

/-- The record of a statement. -/
theorem transparent_logged {text us : Bytes} {rest : List Piece} (hlength : text.length = 17)
    (hrecords : Transparent next) :
    Transparent (logged next st ([.string text, .string us] ++ rest)) ↔
      directText next.logTimeZone st.seconds = some text := by
  have hmessage : (Piece.keptText ([.string text, .string us] ++ rest ++ finishPieces st ++ [.char 10])).take 17 =
      text := by
    rw [← hlength]
    exact Piece.keptText_take (by rw [hlength]; decide) _
  constructor
  · intro hall
    have hlast := hall _ (List.mem_append_right _ List.mem_cons_self)
    rwa [hmessage] at hlast
  · intro hdirect record hrecord
    rcases List.mem_append.mp hrecord with hold | hnew
    · exact hrecords record hold
    · rw [List.mem_singleton.mp hnew, hmessage]
      exact hdirect

/-- **One step and the cache.** -/
theorem step_transparent (env : Environment) {s : State} (label : Label) (hcached : Cached s)
    (htransparent : Transparent s) :
    (∃ reason, step env s label = .error reason ∧ Steady s label) ∨
      ∃ next, step env s label = .ok next ∧ Cached next ∧ (Transparent next ↔ Steady s label) := by
  cases label with
  | setTimeZone zone =>
      rw [step]
      split_ifs with haborted
      · exact .inl ⟨(), rfl, trivial⟩
      · exact .inr ⟨_, rfl, hcached, iff_of_true htransparent trivial⟩
  | log st =>
      cases haborted : s.aborted with
      | true =>
          exact .inl ⟨(), step_log_stops (streamed_aborted haborted),
            fun h => absurd (haborted.symm.trans h) Bool.true_eq_false.mp⟩
      | false =>
          by_cases hsecond : st.seconds = s.lastSecond
          · -- the kept text is used
            have hpos : 0 < st.seconds := st.time_pos
            have htext := hcached.resolve_left (by omega)
            have hlength := length_of_directText htext
            refine .inr ⟨_, step_log (streamed_eq haborted (formatTime_hit hsecond hlength)), hcached, ?_⟩
            rw [List.append_assoc, transparent_logged hlength htransparent]
            rw [← hsecond] at htext
            rw [directText_eq_iff htext]
            exact ⟨fun h _ _ => h, fun h => h haborted hsecond⟩
          · -- the second is formatted, or cannot be
            have hsteady : Steady s (.log st) := fun _ h => absurd h hsecond
            have hformat := formatTime_miss hsecond
            cases htext : directText s.logTimeZone st.seconds with
            | none =>
                rw [htext] at hformat
                exact .inl ⟨(), step_log_stops (streamed_none hformat), hsteady⟩
            | some text =>
                rw [htext] at hformat
                refine .inr ⟨_, step_log (streamed_eq haborted hformat), .inr htext, iff_of_true ?_ hsteady⟩
                rw [List.append_assoc]
                exact (transparent_logged (length_of_directText htext) fun record hrecord =>
                  htransparent record hrecord).mpr htext

/-- **The cache.** The time in every record is that of its second in the zone in force just when no record
finds, within the second whose text is kept, that the zone was changed to one with another local time. -/
theorem cache_transparent_iff (env : Environment) (labels : List Label) :
    Throughout (step env) Transparent {} labels ↔ Meets (step env) Steady {} labels :=
  throughout_iff_meets_of_stops Cached
    (fun _ label hcached htransparent (_ : True) => step_transparent env label hcached htransparent)
    (.inl rfl) (fun _ h => absurd h List.not_mem_nil) (meets_of_forall (fun _ _ => trivial) _)

/-- A record of the first second after the epoch. -/
def firstSecond : Statement where
  origin := .plain
  file := ascii "main.cc"
  line := ⟨1, by decide⟩
  time := 1000000
  time_pos := by decide
  memory := List.replicate kSmallBuffer 0
  memory_length := List.length_replicate
  values := []

/-- `TimeZone(8 * 3600, "CST")`. -/
def eastZone : Zone := { data := some (fixed (8 * 3600) (ascii "CST")) }

/-- Two records of one second, with a change of the zone between them: the second one has the time of the
zone before. -/
theorem zone_changed_within_second :
    ∃ final, run (step ⟨1, fun _ => []⟩) {} [.log firstSecond, .setTimeZone eastZone, .log firstSecond] = .ok final ∧
      (final.records.map fun record => record.message.take 17) =
        [ascii "19700101 00:00:01", ascii "19700101 00:00:01"] ∧
      (final.records.map fun record => directText record.zone record.seconds) =
        [some (ascii "19700101 00:00:01"), some (ascii "19700101 08:00:01")] := by
  obtain ⟨final, hfinal, hcheck⟩ := exists_of_outcome (step ⟨1, fun _ => []⟩) {}
    [.log firstSecond, .setTimeZone eastZone, .log firstSecond]
    (fun final => (final.records.map fun record => record.message.take 17) ==
        [ascii "19700101 00:00:01", ascii "19700101 00:00:01"] &&
      (final.records.map fun record => directText record.zone record.seconds) ==
        [some (ascii "19700101 00:00:01"), some (ascii "19700101 08:00:01")])
    (by decide +kernel)
  rw [Bool.and_eq_true, beq_iff_eq, beq_iff_eq] at hcheck
  exact ⟨final, hfinal, hcheck⟩

/-! ## Lines -/

/-- Strings without a newline. The numbers are no strings. -/
def PlainPiece : Piece → Prop
  | .bool _ | .integer _ | .pointer _ => True
  | piece => (10 : UInt8) ∉ piece.text

/-- No text that goes into the records has a newline. -/
structure Plain (env : Environment) (st : Statement) : Prop where
  strerror : ∀ errno, (10 : UInt8) ∉ env.strerror errno
  file : (10 : UInt8) ∉ st.file
  func : ∀ level func, st.origin = .traced level func → (10 : UInt8) ∉ func
  values : ∀ piece ∈ st.values, PlainPiece piece

/-- How many bytes are in use before the newline, when so many are in use before `~Logger`. -/
def usedBeforeNewline (used name line : Nat) : Nat :=
  let used := if used + 3 < 4000 then used + 3 else used
  let used := if used + name < 4000 then used + name else used
  let used := if used + 1 < 4000 then used + 1 else used
  if used + 32 ≤ 4000 then used + line else used

/-- A record is one line. -/
def IsLine (message : Bytes) : Prop := ∃ body, message = body ++ [10] ∧ (10 : UInt8) ∉ body

def Lines (s : State) : Prop := ∀ record ∈ s.records, IsLine record.message

/-- What is in use before `~Logger` leaves two bytes behind the end of the record. -/
def Roomy (env : Environment) (s : State) : Label → Prop
  | .log st => ∀ next pieces, streamed env s st = some (next, pieces) →
      usedBeforeNewline (Piece.keptText pieces).length st.basename.length
        (Decimal.printInt st.line).length < 3999
  | .setTimeZone _ => True

instance (env : Environment) (s : State) : (label : Label) → Decidable (Roomy env s label)
  | .setTimeZone _ => isTrue trivial
  | .log st =>
      decidable_of_iff (∀ result ∈ streamed env s st, usedBeforeNewline (Piece.keptText result.2).length
        st.basename.length (Decimal.printInt st.line).length < 3999)
        ⟨fun h next pieces hstreamed => h (next, pieces) hstreamed, fun h result => h result.1 result.2⟩

theorem newline_notMem_text {piece : Piece} (hpiece : PlainPiece piece) : (10 : UInt8) ∉ piece.text := by
  cases piece with
  | bool v => cases v <;> decide
  | integer v => exact Decimal.newline_notMem_printInt v.value
  | pointer v =>
      rw [Piece.text, List.mem_append]
      refine not_or_intro (by decide) fun hhex => ?_
      obtain ⟨d, hd, hdigit⟩ := List.mem_map.mp hhex
      exact LogConvert.hexChar_ne_newline d (Numeral.digit_lt (by decide) hd) hdigit
  | _ => exact hpiece

/-- What the end of the record adds, piece by piece. -/
theorem length_finish (pieces : List Piece) (st : Statement) :
    (Piece.keptText (pieces ++ finishPieces st)).length =
      usedBeforeNewline (Piece.keptText pieces).length st.basename.length (Decimal.printInt st.line).length := by
  have hsplit : pieces ++ finishPieces st = (((pieces ++ [.cstring (some (ascii " - "))]) ++
      [.stringPiece st.basename]) ++ [.char 58]) ++ [.integer ⟨.int, st.line, st.line.2⟩] := by
    rw [finishPieces, List.append_assoc, List.append_assoc, List.append_assoc]
    rfl
  rw [hsplit, Piece.length_keptText_append, Piece.length_keptText_append, Piece.length_keptText_append,
    Piece.length_keptText_append]
  simp only [Piece.keeps, Piece.inPlace, Bool.false_eq_true, if_false, if_true, decide_eq_true_eq]
  rfl

theorem newline_notMem_headerRest (hplain : Plain env st) :
    ∀ piece ∈ headerRest env st, (10 : UInt8) ∉ piece.text := by
  have hlevel : ∀ level : LogLevel, (10 : UInt8) ∉ level.name := by
    intro level
    cases level <;> decide
  intro piece hpiece
  rw [headerRest, List.mem_append, List.mem_append] at hpiece
  rcases hpiece with (hfirst | herrno) | hfunc
  · rcases List.mem_cons.mp hfirst with rfl | hfirst
    · rw [Piece.text, List.mem_append]
      exact not_or_intro (Decimal.newline_notMem_printSpaced 5 env.tid) (by decide)
    · rw [List.mem_singleton.mp hfirst]
      exact hlevel st.origin.level
  · split_ifs at herrno with hzero
    · rcases List.mem_cons.mp herrno with rfl | herrno
      · exact hplain.strerror _
      rcases List.mem_cons.mp herrno with rfl | herrno
      · decide
      rcases List.mem_cons.mp herrno with rfl | herrno
      · exact Decimal.newline_notMem_printInt _
      · rw [List.mem_singleton.mp herrno]
        decide
    · exact absurd herrno List.not_mem_nil
  · split at hfunc
    · rename_i level func horigin
      rcases List.mem_cons.mp hfunc with rfl | hblank
      · exact hplain.func level func horigin
      · rw [List.mem_singleton.mp hblank]
        decide
    · exact absurd hfunc List.not_mem_nil

theorem newline_notMem_finish (hplain : Plain env st) :
    ∀ piece ∈ finishPieces st, (10 : UInt8) ∉ piece.text := by
  have hname : (10 : UInt8) ∉ st.basename := by
    intro h
    have hreversed := List.takeWhile_subset _ (List.mem_reverse.mp h)
    exact hplain.file (List.mem_reverse.mp hreversed)
  intro piece hpiece
  rcases List.mem_cons.mp hpiece with rfl | hpiece
  · decide
  rcases List.mem_cons.mp hpiece with rfl | hpiece
  · exact hname
  rcases List.mem_cons.mp hpiece with rfl | hpiece
  · decide
  · rw [List.mem_singleton.mp hpiece]
    exact Decimal.newline_notMem_printInt _

theorem newline_notMem_microText (zone : Zone) (microseconds : Int) :
    (10 : UInt8) ∉ (microText zone microseconds).1 := by
  have hdigits := Decimal.newline_notMem_printPadded 6 microseconds
  rw [microText]
  split
  · rw [List.mem_append, List.mem_append]
    exact not_or_intro (not_or_intro (by decide) hdigits) (by decide)
  · rw [List.mem_append, List.mem_append]
    exact not_or_intro (not_or_intro (by decide) hdigits) (by decide)

/-- The time that is kept stays without a newline, and the records are left alone. -/
theorem formatTime_plain (htime : (10 : UInt8) ∉ s.time) {time : List Piece}
    (hformat : formatTime s st = some (next, time)) :
    (10 : UInt8) ∉ next.time ∧ next.records = s.records ∧ ∀ piece ∈ time, (10 : UInt8) ∉ piece.text := by
  have hpieces {text : Bytes} (htext : (10 : UInt8) ∉ text) (zone : Zone) :
      ∀ piece ∈ [Piece.string text, .string (microText zone st.microseconds).1], (10 : UInt8) ∉ piece.text := by
    intro piece hpiece
    rcases List.mem_cons.mp hpiece with rfl | hpiece
    · exact htext
    · rw [List.mem_singleton.mp hpiece]
      exact newline_notMem_microText _ _
  by_cases hsecond : st.seconds = s.lastSecond
  · have hrefresh : refresh s st.seconds = some s := if_neg (not_not_intro hsecond)
    rw [formatTime, hrefresh, Option.bind_eq_bind, Option.bind_some] at hformat
    simp only at hformat
    split_ifs at hformat
    obtain ⟨rfl, rfl⟩ := Prod.mk.inj (Option.some.inj hformat)
    exact ⟨htime, rfl, hpieces htime _⟩
  · rw [formatTime_miss hsecond, Option.map_eq_some_iff] at hformat
    obtain ⟨text, htext, heq⟩ := hformat
    obtain ⟨rfl, rfl⟩ := Prod.mk.inj heq
    obtain ⟨fields, -, -, rfl⟩ := directText_eq_some.mp htext
    exact ⟨TimeFields.newline_notMem_text fields, rfl, hpieces (TimeFields.newline_notMem_text fields) _⟩

/-- The newline is the last piece of a record: it is one line just when the newline is kept. -/
theorem isLine_iff (pieces : List Piece) (hpieces : ∀ piece ∈ pieces, (10 : UInt8) ∉ piece.text) :
    IsLine (Piece.keptText (pieces ++ [.char 10])) ↔ (Piece.keptText pieces).length < 3999 := by
  have hbody := Piece.notMem_keptText hpieces
  have hkeeps : (Piece.char 10).keeps (Piece.keptText pieces).length = true ↔
      (Piece.keptText pieces).length < 3999 := by
    rw [Piece.keeps, kSmallBuffer]
    exact decide_eq_true_iff.trans Nat.add_lt_add_iff_right
  rw [Piece.keptText_append]
  by_cases hroom : (Piece.keptText pieces).length < 3999
  · rw [if_pos (hkeeps.mpr hroom)]
    exact iff_of_true ⟨_, rfl, hbody⟩ hroom
  · rw [if_neg (mt hkeeps.mp hroom), List.append_nil]
    refine iff_of_false ?_ hroom
    rintro ⟨body, hbody', -⟩
    rw [hbody'] at hbody
    exact hbody (List.mem_append_right _ List.mem_cons_self)

/-- The texts that are streamed before `~Logger`. -/
theorem streamed_plain (hplain : Plain env st) (htime : (10 : UInt8) ∉ s.time)
    (hstreamed : streamed env s st = some (next, pieces)) :
    (10 : UInt8) ∉ next.time ∧ next.records = s.records ∧ ∀ piece ∈ pieces, (10 : UInt8) ∉ piece.text := by
  rw [streamed] at hstreamed
  split_ifs at hstreamed with haborted
  obtain ⟨⟨state, time⟩, hformat, heq⟩ := Option.bind_eq_some_iff.mp hstreamed
  obtain ⟨rfl, rfl⟩ := Prod.mk.inj (Option.some.inj heq)
  obtain ⟨hnext, hrecords, hpieces⟩ := formatTime_plain htime hformat
  refine ⟨hnext, hrecords, fun piece hpiece => ?_⟩
  rcases List.mem_append.mp hpiece with hheader | hvalue
  · rcases List.mem_append.mp hheader with hfirst | hrest
    · exact hpieces piece hfirst
    · exact newline_notMem_headerRest hplain piece hrest
  · exact newline_notMem_text (hplain.values piece hvalue)

/-- What may be logged: texts without newlines. -/
def PlainLabel (env : Environment) : Label → Prop
  | .log st => Plain env st
  | .setTimeZone _ => True

/-- **One step and the lines.** -/
theorem step_lines (env : Environment) {s : State} (label : Label) (htime : (10 : UInt8) ∉ s.time)
    (hlines : Lines s) (hlabel : PlainLabel env label) :
    (∃ reason, step env s label = .error reason ∧ Roomy env s label) ∨
      ∃ next, step env s label = .ok next ∧ (10 : UInt8) ∉ next.time ∧ (Lines next ↔ Roomy env s label) := by
  cases label with
  | setTimeZone zone =>
      rw [step]
      split_ifs with haborted
      · exact .inl ⟨(), rfl, trivial⟩
      · exact .inr ⟨_, rfl, htime, iff_of_true hlines trivial⟩
  | log st =>
      cases hstreamed : streamed env s st with
      | none =>
          refine .inl ⟨(), step_log_stops hstreamed, fun next pieces h => ?_⟩
          rw [hstreamed] at h
          exact absurd h.symm (Option.some_ne_none _)
      | some result =>
          obtain ⟨next, pieces⟩ := result
          obtain ⟨hnext, hrecords, hpieces⟩ := streamed_plain hlabel htime hstreamed
          refine .inr ⟨_, step_log hstreamed, hnext, ?_⟩
          have hline := isLine_iff (pieces ++ finishPieces st) (fun piece hpiece =>
            (List.mem_append.mp hpiece).elim (hpieces piece) (newline_notMem_finish hlabel piece))
          rw [length_finish] at hline
          constructor
          · intro hall state others hother
            obtain ⟨-, rfl⟩ := Prod.mk.inj (Option.some.inj (hstreamed.symm.trans hother))
            exact hline.mp (hall _ (List.mem_append_right _ List.mem_cons_self))
          · intro hroomy record hrecord
            rcases List.mem_append.mp hrecord with hold | hnew
            · rw [hrecords] at hold
              exact hlines record hold
            · rw [List.mem_singleton.mp hnew]
              exact hline.mpr (hroomy next pieces hstreamed)

/-- **Lines.** When no text that is logged has a newline, every record is one line just when for every record
the end of it leaves two bytes of the buffer. -/
theorem records_lines_iff (env : Environment) (labels : List Label)
    (hlabels : ∀ label ∈ labels, PlainLabel env label) :
    Throughout (step env) Lines {} labels ↔ Meets (step env) (Roomy env) {} labels :=
  throughout_iff_meets_of_stops (fun s => (10 : UInt8) ∉ s.time)
    (fun _ label htime hlines hlabel => step_lines env label htime hlines hlabel)
    List.not_mem_nil (fun _ h => absurd h List.not_mem_nil) (meets_of_forall hlabels _)

/-- An error of the system and a call that is traced, with strings and numbers. -/
def failedThenTraced : List Label :=
  [.log { firstSecond with
      origin := .system false ⟨2, by decide⟩
      values := [.string (ascii "opens "), .integer ⟨.int, -12, by decide⟩] },
    .log { firstSecond with
      origin := .traced .debug (ascii "run")
      values := [.integer ⟨.int, 7, by decide⟩, .cstring (some (ascii " left"))] }]

def noSuchFile : Environment := ⟨1, fun _ => ascii "No such file"⟩

theorem records_lines_failedThenTraced :
    ∃ final, run (step noSuchFile) {} failedThenTraced = .ok final ∧ final.records.length = 2 ∧ Lines final := by
  obtain ⟨final, hfinal, hcheck⟩ := exists_of_outcome (step noSuchFile) {} failedThenTraced
    (fun final => final.records.length == 2) (by decide +kernel)
  refine ⟨final, hfinal, beq_iff_eq.mp hcheck, ?_⟩
  have herror (errno : Int) : (10 : UInt8) ∉ noSuchFile.strerror errno :=
    show (10 : UInt8) ∉ ascii "No such file" by decide
  have hplain : ∀ label ∈ failedThenTraced, PlainLabel noSuchFile label := by
    rw [failedThenTraced, List.forall_mem_cons, List.forall_mem_singleton]
    refine ⟨⟨herror, by decide, (fun _ _ h => by cases h), ?_⟩, herror, by decide, fun _ _ h => ?_, ?_⟩
    · rw [List.forall_mem_cons, List.forall_mem_singleton]
      exact ⟨show (10 : UInt8) ∉ ascii "opens " by decide, trivial⟩
    · cases h
      decide
    · rw [List.forall_mem_cons, List.forall_mem_singleton]
      exact ⟨trivial, show (10 : UInt8) ∉ ascii " left" by decide⟩
  have hlines := (records_lines_iff noSuchFile failedThenTraced hplain).mpr (by decide +kernel)
  obtain ⟨middle, hmiddle, hlast⟩ := run_cons_ok.mp hfinal
  exact (hlines.2 middle hmiddle).2 final (run_singleton_ok.mp hlast)

/-- A string of 3961 characters behind the header of 38: the record fills the buffer but for one byte, and
has no newline. -/
theorem newline_dropped :
    ∃ final, run (step ⟨1, fun _ => []⟩) {}
        [.log { firstSecond with values := [.string (List.replicate 3961 97)] }] = .ok final ∧
      (final.records.map fun record => record.message.length) = [3999] ∧
      ∀ record ∈ final.records, (10 : UInt8) ∉ record.message := by
  obtain ⟨final, hfinal, hcheck⟩ := exists_of_outcome (step ⟨1, fun _ => []⟩) {}
    [.log { firstSecond with values := [.string (List.replicate 3961 97)] }]
    (fun final => (final.records.map fun record => record.message.length) == [3999] &&
      final.records.all fun record => !record.message.contains 10)
    (by decide +kernel)
  rw [Bool.and_eq_true, beq_iff_eq, List.all_eq_true] at hcheck
  refine ⟨final, hfinal, hcheck.1, fun record hrecord hmem => ?_⟩
  have hnone := hcheck.2 record hrecord
  rw [Bool.not_eq_true', ← Bool.not_eq_true, List.contains_iff_mem] at hnone
  exact hnone hmem

end Muduo.Logging
