import Muduo.LogFile
import Muduo.TimestampText

/-! The names of the files of a `muduo::LogFile`. A name has the time at which the file was begun, and no file
is begun at or before the time of the one before it. -/

namespace Muduo.LogFile

open Execution TextOrder

/-- `basename.%Y%m%d-%H%M%S.` -/
def nameTemplate (basename : Bytes) : List Token :=
  [.literal basename, .literal (ascii "."), .number 4, .number 2, .number 2, .literal (ascii "-"), .number 2,
    .number 2, .number 2, .literal (ascii ".")]

theorem nameOf_eq_render (basename : Bytes) {reading : Reading} (hend : (reading.now : Int) < endOf9999) :
    nameOf basename reading = render (nameTemplate basename) (gmtimeValues reading.now) ++
      (reading.hostname ++ (ascii "." ++ Decimal.printInt reading.pid ++ ascii ".log")) := by
  obtain ⟨hlow, hhigh⟩ := gmtime_year_bounds (Int.le_of_lt reading.now.2.1) hend
  obtain ⟨hpadded, -⟩ := printPadded_year hlow hhigh
  simp only [nameOf, timeText, dateText, clockText, nameTemplate, gmtimeValues, render, hpadded, List.append_assoc,
    List.append_nil]

theorem fills_nameTemplate (basename : Bytes) {t : Int} (ht : 0 ≤ t) (hend : t < endOf9999) :
    Fills (nameTemplate basename) (gmtimeValues t) := by
  apply fills_gmtimeValues ht hend
  intro year mon mday hour min sec hyear hmon hmday hhour hmin hsec
  exact ⟨hyear, hmon, hmday, hhour, hmin, hsec, rfl⟩

/-- A later file has a later name, whatever the host is called. -/
theorem nameOf_lt (basename : Bytes) {reading later : Reading} (hlt : (reading.now : Int) < later.now)
    (hend : (later.now : Int) < endOf9999) : nameOf basename reading < nameOf basename later := by
  have hlow := Int.le_of_lt reading.now.2.1
  rw [nameOf_eq_render basename (Int.lt_trans hlt hend), nameOf_eq_render basename hend]
  apply render_lt
  · exact fills_nameTemplate basename hlow (Int.lt_trans hlt hend)
  · exact fills_nameTemplate basename (Int.le_of_lt later.now.2.1) hend
  · exact gmtimeValues_lt hlow hlt hend

/-- **The files by name.** When every record is written and the last file was begun before the year 10000,
the names of the files are in the order in which the files were begun. Whoever puts the files in the order of
their names has them in that order, with the records in theirs. -/
theorem names_in_order (config : Config) (reading : Reading) (calls : List Call)
    (hcalls : ∀ call ∈ calls, call.Succeeds) :
    ∃ initial final, construct config reading = some initial ∧ run (step config) initial calls = .ok final ∧
      (final.lastRoll < endOf9999 → (final.files.Pairwise fun f g => f.name < g.name) ∧
        ∀ listed : List File, listed.Perm final.files → (listed.Pairwise fun f g => f.name < g.name) →
          (listed.map fun f => f.file.accepted).flatten = (calls.filterMap Call.record).flatten) := by
  obtain ⟨initial, hinitial, hsound⟩ := construct_sound config reading
  obtain ⟨final, hfinal, hsound⟩ := run_of_history (Sound config)
    (fun history state label h hlabel => step_sound h hlabel) hsound hcalls
  obtain ⟨-, -, -, ⟨groups, hcontents, hrecords⟩, readings, hnames, hincreasing, hbounded⟩ := hsound
  refine ⟨initial, final, hinitial, hfinal, fun hlast => ?_⟩
  have hsorted : final.files.Pairwise fun f g => f.name < g.name := by
    apply List.pairwise_map.mp
    rw [hnames]
    apply List.pairwise_map.mpr
    refine hincreasing.imp_of_mem fun {earlier later} hearlier hlater hlt => ?_
    exact nameOf_lt config.basename hlt (Int.lt_of_le_of_lt (hbounded later hlater) hlast)
  refine ⟨hsorted, fun listed hperm hlisted => ?_⟩
  have hsame : listed = final.files := by
    refine hperm.eq_of_pairwise (fun f g _ _ hfg hgf => ?_) hlisted hsorted
    exact absurd hgf (List.lt_asymm hfg)
  rw [hsame, hcontents, ← List.flatten_flatten, hrecords]

/-- Files of four bytes. -/
def smallFiles : Config := ⟨ascii "server", 4, 3, 1, by decide, by decide⟩

/-- Two files begun in two seconds of one minute. -/
theorem names_in_order_within_minute :
    ∃ initial final, construct smallFiles ⟨⟨1700000000, by decide⟩, ascii "host", 42⟩ = some initial ∧
      run (step smallFiles) initial [.append ⟨ascii "first\n", fun _ => 6⟩ ⟨1700000000, by decide⟩
        ⟨⟨1700000001, by decide⟩, ascii "a", 42⟩] = .ok final ∧
      final.files.Pairwise fun f g => f.name < g.name := by
  obtain ⟨initial, final, hinitial, hfinal, hsorted⟩ := names_in_order smallFiles
    ⟨⟨1700000000, by decide⟩, ascii "host", 42⟩
    [.append ⟨ascii "first\n", fun _ => 6⟩ ⟨1700000000, by decide⟩ ⟨⟨1700000001, by decide⟩, ascii "a", 42⟩]
    (by
      intro call hcall
      rw [List.mem_singleton.mp hcall]
      exact AppendCall.accepts_zero)
  cases hinitial
  have hlast : some 1700000001 = some final.lastRoll :=
    congrArg (fun result => result.toOption.map State.lastRoll) hfinal
  exact ⟨_, final, rfl, hfinal, (hsorted (by rw [← Option.some.inj hlast]; decide)).1⟩

end Muduo.LogFile
