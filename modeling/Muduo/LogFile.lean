import Muduo.FileUtil
import Muduo.Gmtime

/-! `muduo::LogFile`: records are appended to a file, and a new file is begun when the current one exceeds
the size, when a check every so many records finds a new day, or on request. No two files are begun in one
second, nor is one begun while the clock is behind the second of the last file. -/

namespace Muduo

open Execution CheckedInt

namespace LogFile

/-- What `time` returns, up to the last year for which `gmtime_r` has a result. -/
abbrev TimeT := {t : Int // 0 < t ∧ Fits 32 (gmtime t).year}

/-- What `getLogFileName` reads: the clock, the name of the host and the number of the process. -/
structure Reading where
  now : TimeT
  hostname : Bytes
  pid : Int

/-- The arguments of the constructor, which asserts the one about the slash. -/
structure Config where
  basename : Bytes
  rollSize : Nat
  flushInterval : Int := 3
  checkEveryN : Int := 1024
  plain : (47 : UInt8) ∉ basename
  checkEveryN_fits : Fits 32 checkEveryN

/-- A file that was created. -/
structure File where
  name : Bytes
  file : AppendFile := {}

/-- The files whose `AppendFile` is gone, in the order of creation, and the members. -/
structure State where
  closed : List File := []
  file : Option File := none
  count : Int := 0
  startOfPeriod : Int := 0
  lastRoll : Int := 0
  lastFlush : Int := 0

def kRollPerSeconds : Int := 60 * 60 * 24

/-- The files in the order of creation. -/
def State.files (s : State) : List File := s.closed ++ s.file.toList

/-- `getLogFileName`. -/
def getLogFileName (basename : Bytes) (reading : Reading) : Option Bytes := do
  let timebuf ← strftime 32 (gmtime reading.now)
  return basename ++ timebuf ++ reading.hostname ++ (ascii "." ++ Decimal.printInt reading.pid) ++ ascii ".log"

variable (config : Config)

/-- `rollFile`, which tells whether a file was begun. -/
def rollFile (s : State) (reading : Reading) : Option (Bool × State) := do
  let filename ← getLogFileName config.basename reading
  let now : Int := reading.now
  let start := now / kRollPerSeconds * kRollPerSeconds
  if now > s.lastRoll then
    return (true, { s with
      lastRoll := now
      lastFlush := now
      startOfPeriod := start
      closed := s.closed ++ s.file.toList
      file := some { name := filename } })
  else return (false, s)

/-- `LogFile::LogFile`. -/
def construct (reading : Reading) : Option State := do
  let (_, s) ← rollFile config {} reading
  return s

/-- `append_unlocked` after the write, with the clock that it reads itself and what an attempt to roll
reads. -/
def rollOrFlush (s : State) (writtenBytes : Nat) (clock : TimeT) (reading : Reading) : Option State := do
  if writtenBytes > config.rollSize then
    let (_, s) ← rollFile config s reading
    return s
  else
    let count ← add 32 s.count 1
    if count ≥ config.checkEveryN then
      let s := { s with count := 0 }
      let now : Int := clock
      let thisPeriod := now / kRollPerSeconds * kRollPerSeconds
      if thisPeriod ≠ s.startOfPeriod then
        let (_, s) ← rollFile config s reading
        return s
      else if now - s.lastFlush > config.flushInterval then return { s with lastFlush := now }
      else return s
    else return { s with count := count }

/-- `append_unlocked`. -/
def append (s : State) (call : AppendCall) (clock : TimeT) (reading : Reading) : Option State := do
  let current ← s.file
  let appended ← current.file.append call call.logline.length
  rollOrFlush config { s with file := some { current with file := appended } } appended.writtenBytes clock reading

inductive Call
  | append (call : AppendCall) (clock : TimeT) (reading : Reading)
  | rollFile (reading : Reading)

def step (s : State) : Call → Except Unit State
  | .append call clock reading => (append config s call clock reading).elim (.error ()) .ok
  | .rollFile reading => (rollFile config s reading).elim (.error ()) fun (_, next) => .ok next

namespace Call

/-- The record that a call appends. -/
def record : Call → Option Bytes
  | .append call _ _ => some call.logline
  | .rollFile _ => none

/-- Every byte of the record is written. -/
def Succeeds : Call → Prop
  | .append call _ _ => call.Lasting
  | .rollFile _ => True

end Call

/-! ## Names -/

/-- The name of the file that a reading gives rise to. -/
def nameOf (basename : Bytes) (reading : Reading) : Bytes :=
  basename ++ timeText (gmtime reading.now) ++ reading.hostname ++
    (ascii "." ++ Decimal.printInt reading.pid) ++ ascii ".log"

theorem getLogFileName_eq (basename : Bytes) (reading : Reading) :
    getLogFileName basename reading = some (nameOf basename reading) := by
  rw [getLogFileName, strftime_gmtime (Int.le_of_lt reading.now.2.1) reading.now.2.2]
  rfl

/-- Names that are equal were read in one second, whatever the host was called at the time. -/
theorem nameOf_injective {basename : Bytes} {reading other : Reading}
    (hname : nameOf basename reading = nameOf basename other) : (reading.now : Int) = other.now := by
  have hreading := Int.le_of_lt reading.now.2.1
  have hother := Int.le_of_lt other.now.2.1
  simp only [nameOf, List.append_assoc] at hname
  obtain ⟨hyear, hmon, hmday, hhour, hmin, hsec⟩ := timeText_injective (gmtime_printable hreading)
    (gmtime_printable hother) (List.append_cancel_left hname)
  exact gmtime_injective hreading hother hyear hmon hmday hhour hmin hsec

/-! ## Rolling -/

/-- After some calls: there is a current file, whose counter is right. The files hold the records in groups,
each record entirely in one file. Their names were read at later and later times. -/
structure Sound (calls : List Call) (s : State) : Prop where
  current : ∃ current, s.file = some current ∧ current.file.Accounted
  count_nonneg : 0 ≤ s.count
  count_le : s.count ≤ max 0 (config.checkEveryN - 1)
  contents : ∃ groups : List (List Bytes), (s.files.map fun f => f.file.accepted) = groups.map List.flatten ∧
    groups.flatten = calls.filterMap Call.record
  names : ∃ readings : List Reading, s.files.map File.name = readings.map (nameOf config.basename) ∧
    readings.Pairwise (fun earlier later => (earlier.now : Int) < later.now) ∧
    ∀ reading ∈ readings, (reading.now : Int) ≤ s.lastRoll

variable {config} {calls : List Call} {s : State}

theorem State.files_eq {current : File} (hfile : s.file = some current) : s.files = s.closed ++ [current] := by
  rw [State.files, hfile]
  rfl

/-- No two files have one name. -/
theorem Sound.nodup_names (hsound : Sound config calls s) : (s.files.map File.name).Nodup := by
  obtain ⟨readings, hnames, hincreasing, -⟩ := hsound.names
  rw [hnames]
  refine List.pairwise_map.mpr (hincreasing.imp fun hlater hname => ?_)
  exact absurd (nameOf_injective hname) (Int.ne_of_lt hlater)

/-- An attempt to roll begins a file, or changes nothing when the clock does not read a later second. -/
theorem rollFile_cases (config : Config) (s : State) (reading : Reading) :
    (s.lastRoll < reading.now ∧ rollFile config s reading = some (true, { s with
      lastRoll := reading.now
      lastFlush := reading.now
      startOfPeriod := (reading.now : Int) / kRollPerSeconds * kRollPerSeconds
      closed := s.files
      file := some { name := nameOf config.basename reading } })) ∨
    ((reading.now : Int) ≤ s.lastRoll ∧ rollFile config s reading = some (false, s)) := by
  by_cases hlater : s.lastRoll < reading.now
  · refine .inl ⟨hlater, ?_⟩
    rw [rollFile, getLogFileName_eq]
    exact if_pos hlater
  · refine .inr ⟨Int.not_lt.mp hlater, ?_⟩
    rw [rollFile, getLogFileName_eq]
    exact if_neg hlater

/-- A file that is begun is empty and has a new name. -/
theorem rollFile_sound (hsound : Sound config calls s) (reading : Reading) :
    ∃ rolled next current, rollFile config s reading = some (rolled, next) ∧ Sound config calls next ∧
      next.file = some current ∧ (current.file.accepted = [] ∨ (reading.now : Int) ≤ s.lastRoll) := by
  obtain ⟨⟨current, hfile, haccounted⟩, hnonneg, hle, ⟨groups, hcontents, hrecords⟩,
    ⟨readings, hnames, hincreasing, hbounded⟩⟩ := hsound
  rcases rollFile_cases config s reading with ⟨hlater, hroll⟩ | ⟨hearlier, hroll⟩
  · refine ⟨_, _, _, hroll, ?_, rfl, .inl rfl⟩
    refine ⟨⟨_, rfl, rfl⟩, hnonneg, hle, ⟨groups ++ [[]], ?_, ?_⟩, ⟨readings ++ [reading], ?_, ?_, ?_⟩⟩
    · rw [State.files_eq rfl, List.map_append, List.map_append, ← hcontents]
      rfl
    · rw [List.flatten_append, hrecords]
      exact List.append_nil _
    · rw [State.files_eq rfl, List.map_append, List.map_append, ← hnames]
      rfl
    · refine List.pairwise_append.mpr ⟨hincreasing, List.pairwise_singleton _ _, fun earlier hmem later hlast => ?_⟩
      rw [List.mem_singleton.mp hlast]
      exact Int.lt_of_le_of_lt (hbounded earlier hmem) hlater
    · intro other hother
      rcases List.mem_append.mp hother with hmem | hlast
      · exact Int.le_of_lt (Int.lt_of_le_of_lt (hbounded other hmem) hlater)
      · rw [List.mem_singleton.mp hlast]
  · exact ⟨_, _, current, hroll, ⟨⟨current, hfile, haccounted⟩, hnonneg, hle, ⟨groups, hcontents, hrecords⟩,
      ⟨readings, hnames, hincreasing, hbounded⟩⟩, hfile, .inr hearlier⟩

/-- A record that is written goes to the current file. -/
theorem Sound.write (hsound : Sound config calls s) (call : Call) {record : Bytes} {current : File}
    (hrecord : call.record = some record) (hfile : s.file = some current) {appended : AppendFile}
    (haccounted : appended.Accounted) (haccepted : appended.accepted = current.file.accepted ++ record) :
    Sound config (calls ++ [call]) { s with file := some { current with file := appended } } := by
  obtain ⟨-, hnonneg, hle, ⟨groups, hcontents, hrecords⟩, ⟨readings, hnames, hincreasing, hbounded⟩⟩ := hsound
  rw [State.files_eq hfile, List.map_append] at hcontents hnames
  obtain ⟨front, back, rfl, hfront, hback⟩ := List.map_eq_append_iff.mp hcontents.symm
  obtain ⟨last, rfl, hlast⟩ := List.map_eq_singleton_iff.mp hback
  refine ⟨⟨_, rfl, haccounted⟩, hnonneg, hle, ⟨front ++ [last ++ [record]], ?_, ?_⟩,
    ⟨readings, ?_, hincreasing, hbounded⟩⟩
  · rw [State.files_eq rfl, List.map_append, List.map_append, hfront]
    simp only [List.map_cons, List.map_nil, haccepted, List.flatten_append, hlast, List.flatten_cons,
      List.flatten_nil, List.append_nil]
  · rw [List.filterMap_append, ← hrecords, List.filterMap_cons, hrecord]
    simp only [List.flatten_append, List.flatten_cons, List.flatten_nil, List.append_nil, List.append_assoc,
      List.filterMap_nil]
  · rw [State.files_eq rfl, List.map_append, ← hnames]
    rfl

/-- The counter and the time of the last flush do not matter to the files. -/
theorem Sound.tick (hsound : Sound config calls s) {count : Int} (hnonneg : 0 ≤ count)
    (hle : count ≤ max 0 (config.checkEveryN - 1)) (lastFlush : Int) :
    Sound config calls { s with count := count, lastFlush := lastFlush } :=
  ⟨hsound.current, hnonneg, hle, hsound.contents, hsound.names⟩

/-- A roll that is attempted or not leaves a current file that does not exceed the size, unless the attempt
was refused. -/
theorem rollOrFlush_sound (hsound : Sound config calls s) {current : File} (hfile : s.file = some current)
    (haccounted : current.file.Accounted) (clock : TimeT) (reading : Reading) :
    ∃ next file, rollOrFlush config s current.file.writtenBytes clock reading = some next ∧
      Sound config calls next ∧ next.file = some file ∧
      (file.file.accepted.length ≤ config.rollSize ∨ (reading.now : Int) ≤ s.lastRoll) := by
  have hroll {count : Int} (hnonneg : 0 ≤ count) (hle : count ≤ max 0 (config.checkEveryN - 1)) :
      ∃ rolled next file, rollFile config { s with count := count } reading = some (rolled, next) ∧
        Sound config calls next ∧ next.file = some file ∧
        (file.file.accepted.length ≤ config.rollSize ∨ (reading.now : Int) ≤ s.lastRoll) := by
    obtain ⟨rolled, next, file, hnext, hsound, hcurrent, hempty⟩ :=
      rollFile_sound (hsound.tick hnonneg hle s.lastFlush) reading
    refine ⟨rolled, next, file, hnext, hsound, hcurrent, hempty.imp_left fun h => ?_⟩
    rw [h]
    exact Nat.zero_le _
  by_cases hsize : current.file.writtenBytes > config.rollSize
  · obtain ⟨rolled, next, file, hnext, hrest⟩ := hroll hsound.count_nonneg hsound.count_le
    refine ⟨next, file, ?_, hrest⟩
    rw [rollOrFlush, if_pos hsize]
    exact bind_of_eq hnext _
  · have hsmall : current.file.accepted.length ≤ config.rollSize := by
      rw [← haccounted]
      exact Nat.not_lt.mp hsize
    have hfits : Fits 32 (s.count + 1) := by
      have := fits_int.mp config.checkEveryN_fits
      have := hsound.count_nonneg
      have := hsound.count_le
      rw [fits_int]
      omega
    rw [rollOrFlush, if_neg hsize]
    simp only [bind_of_eq (add_eq hfits)]
    split_ifs with hcheck hperiod hflush
    · obtain ⟨rolled, next, file, hnext, hrest⟩ := hroll (Int.le_refl 0) (le_max_left _ _)
      exact ⟨next, file, bind_of_eq hnext _, hrest⟩
    · exact ⟨_, current, rfl, hsound.tick (Int.le_refl 0) (le_max_left _ _) _, hfile, .inl hsmall⟩
    · exact ⟨_, current, rfl, hsound.tick (Int.le_refl 0) (le_max_left _ _) _, hfile, .inl hsmall⟩
    · refine ⟨_, current, rfl, hsound.tick ?_ ?_ _, hfile, .inl hsmall⟩
      · have := hsound.count_nonneg
        omega
      · omega

/-- **One append.** The record is in a file afterwards, and the current file does not exceed the size unless
a roll was refused. -/
theorem append_sound (hsound : Sound config calls s) {call : AppendCall} (hlasting : call.Lasting)
    (clock : TimeT) (reading : Reading) :
    ∃ next file, append config s call clock reading = some next ∧
      Sound config (calls ++ [.append call clock reading]) next ∧ next.file = some file ∧
      (file.file.accepted.length ≤ config.rollSize ∨ (reading.now : Int) ≤ s.lastRoll) := by
  obtain ⟨current, hfile, haccounted⟩ := hsound.current
  obtain ⟨m, -, hall, happend⟩ := AppendFile.append_spec current.file call
  have happend := happend _ (Nat.le_refl _)
  rw [hall.mpr hlasting, List.take_length] at happend
  have hcounted : AppendFile.Accounted
      ⟨current.file.accepted ++ call.logline, current.file.writtenBytes + call.logline.length⟩ := by
    rw [AppendFile.Accounted, List.length_append, ← haccounted]
  have hwritten := hsound.write (.append call clock reading) rfl hfile hcounted rfl
  obtain ⟨next, file, hnext, hrest⟩ := rollOrFlush_sound hwritten rfl hcounted clock reading
  refine ⟨next, file, ?_, hrest⟩
  rw [append, bind_of_eq hfile, bind_of_eq happend]
  exact hnext

/-- **Every call.** -/
theorem step_sound (hsound : Sound config calls s) {call : Call} (hcall : call.Succeeds) :
    ∃ next, step config s call = .ok next ∧ Sound config (calls ++ [call]) next := by
  cases call with
  | append call clock reading =>
      obtain ⟨next, -, hnext, hsound, -⟩ := append_sound hsound hcall clock reading
      exact ⟨next, by rw [step, hnext]; rfl, hsound⟩
  | rollFile reading =>
      obtain ⟨rolled, next, -, hnext, hsound, -⟩ := rollFile_sound hsound reading
      refine ⟨next, by rw [step, hnext]; rfl, hsound.current, hsound.count_nonneg, hsound.count_le, ?_,
        hsound.names⟩
      obtain ⟨groups, hcontents, hrecords⟩ := hsound.contents
      refine ⟨groups, hcontents, ?_⟩
      rw [List.filterMap_append, hrecords]
      exact (List.append_nil _).symm

/-- The constructor begins the first file. -/
theorem construct_sound (config : Config) (reading : Reading) :
    ∃ initial, construct config reading = some initial ∧ Sound config [] initial := by
  rcases rollFile_cases config {} reading with ⟨hlater, hroll⟩ | ⟨hearlier, -⟩
  · refine ⟨_, bind_of_eq hroll _, ⟨_, rfl, rfl⟩, Int.le_refl 0, le_max_left _ _, ⟨[[]], rfl, rfl⟩,
      ⟨[reading], rfl, List.pairwise_singleton _ _, fun other hother => ?_⟩⟩
    rw [List.mem_singleton.mp hother]
  · exact absurd reading.now.2.1 (Int.not_lt.mpr hearlier)

/-- **Rolling.** When every record is written, every call succeeds. The files in the order of creation hold
the records in their order, each record entirely in one file, and no two files have one name. After every
append the current file does not exceed the size, or the clock of the attempt to roll was not after the last
roll. -/
theorem rolling (config : Config) (reading : Reading) (calls : List Call)
    (hcalls : ∀ call ∈ calls, call.Succeeds) :
    ∃ initial final, construct config reading = some initial ∧ run (step config) initial calls = .ok final ∧
      (final.files.map fun f => f.file.accepted).flatten = (calls.filterMap Call.record).flatten ∧
      (∃ groups : List (List Bytes), (final.files.map fun f => f.file.accepted) = groups.map List.flatten ∧
        groups.flatten = calls.filterMap Call.record) ∧
      (final.files.map File.name).Nodup ∧
      ∀ front call clock attempt back, calls = front ++ Call.append call clock attempt :: back →
        ∃ before after file, run (step config) initial front = .ok before ∧
          step config before (.append call clock attempt) = .ok after ∧ after.file = some file ∧
          (file.file.accepted.length ≤ config.rollSize ∨ (attempt.now : Int) ≤ before.lastRoll) := by
  obtain ⟨initial, hinitial, hsound⟩ := construct_sound config reading
  have hrun {labels : List Call} (hlabels : ∀ label ∈ labels, label.Succeeds) :=
    run_of_history (Sound config) (fun history state label h hlabel => step_sound h hlabel) hsound hlabels
  obtain ⟨final, hfinal, hsoundFinal⟩ := hrun hcalls
  obtain ⟨groups, hcontents, hrecords⟩ := hsoundFinal.contents
  refine ⟨initial, final, hinitial, hfinal, ?_, ⟨groups, hcontents, hrecords⟩, hsoundFinal.nodup_names, ?_⟩
  · rw [hcontents, ← List.flatten_flatten, hrecords]
  · rintro front call clock attempt back rfl
    obtain ⟨before, hbefore, hsoundBefore⟩ := hrun fun label hlabel => hcalls label (List.mem_append_left _ hlabel)
    obtain ⟨after, file, hafter, -, hfile, hsize⟩ := append_sound hsoundBefore
      (hcalls _ (List.mem_append_right _ List.mem_cons_self)) clock attempt
    exact ⟨before, after, file, hbefore, by rw [step, hafter]; rfl, hfile, hsize⟩

/-- Two records of which each exceeds the size, in one second. -/
theorem rolling_within_second :
    ∃ initial final, construct ⟨ascii "server", 4, 3, 1, by decide, by decide⟩
        ⟨⟨1700000000, by decide⟩, ascii "host", 42⟩ = some initial ∧
      run (step ⟨ascii "server", 4, 3, 1, by decide, by decide⟩) initial
        [.append ⟨ascii "first\n", fun _ => 4⟩ ⟨1700000000, by decide⟩ ⟨⟨1700000000, by decide⟩, ascii "host", 42⟩,
          .append ⟨ascii "second\n", fun _ => 7⟩ ⟨1700000001, by decide⟩
            ⟨⟨1700000001, by decide⟩, ascii "host", 42⟩] = .ok final ∧
      (final.files.map fun f => f.file.accepted).flatten = ascii "first\nsecond\n" := by
  obtain ⟨initial, final, hinitial, hfinal, hcontents, -⟩ := rolling ⟨ascii "server", 4, 3, 1, by decide, by decide⟩
    ⟨⟨1700000000, by decide⟩, ascii "host", 42⟩
    [.append ⟨ascii "first\n", fun _ => 4⟩ ⟨1700000000, by decide⟩ ⟨⟨1700000000, by decide⟩, ascii "host", 42⟩,
      .append ⟨ascii "second\n", fun _ => 7⟩ ⟨1700000001, by decide⟩ ⟨⟨1700000001, by decide⟩, ascii "host", 42⟩]
    (by
      intro call hcall
      rcases List.mem_cons.mp hcall with rfl | hlast
      · exact ⟨1, fun _ _ => Nat.succ_ne_zero 3, by decide⟩
      · rw [List.mem_singleton.mp hlast]
        exact AppendCall.accepts_zero)
  exact ⟨initial, final, hinitial, hfinal, hcontents⟩

end LogFile
end Muduo
