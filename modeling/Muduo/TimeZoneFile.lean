import Muduo.TimeZone

/-! A `muduo::TimeZone` made of a zone file. The reader fills the data of the zone as it goes along and
catches its own exceptions. Whatever it found, it reports success, and the zone is `valid()`. -/

namespace Muduo
namespace TimeZone

open LowerBound File

/-- The object itself, with its member `data_`. -/
structure Zone where
  data : Option Data := none

namespace Zone

def valid (zone : Zone) : Bool := zone.data.isSome

/-- `TimeZone(const char* zonefile)`. It would reset `data_` if `readTimeZoneFile` returned false, which it
does not do. -/
def ofFile (stack : Nat) (zonefile : Option File) : Option Zone :=
  (readTimeZoneFile stack zonefile).map fun data => { data := some data }

/-- Both conversions find the elements they look up, whatever their argument is. -/
def Usable (zone : Zone) : Prop :=
  ∀ data, zone.data = some data → ∀ (gmtime : Int → Tm) (timegm : Tm → Int),
    (∀ seconds, toLocalTime gmtime data seconds ≠ none) ∧
      ∀ localTm, fromLocalTime gmtime timegm data localTm ≠ none

end Zone

/-! ## Lookups in any data -/

/-- The index of a transition is that of a local type. -/
theorem localtimeAt_ne_none {data : Data} {i : Nat} (hi : i < data.transitions.length) :
    data.localtimeAt i ≠ none := by
  obtain ⟨type, htype, -⟩ := data.computed _ (List.getElem_mem hi)
  rw [Data.localtimeAt, List.getElem?_eq_getElem hi, Option.bind_some, htype]
  exact Option.some_ne_none type

/-- With a local type there is a result, in whatever order the transitions are. -/
theorem findLocaltime_ne_none {data : Data} (htypes : data.localtimes ≠ []) (sentry : Transition)
    (comp : Comp) : findLocaltime data sentry comp ≠ none := by
  have hfirst : data.localtimes.head? ≠ none := fun hnone => htypes (List.head?_eq_none_iff.mp hnone)
  unfold findLocaltime
  split
  · exact hfirst
  · rename_i front rest hsome
    split_ifs with hless
    · exact hfirst
    · have hlength : data.transitions.length = rest.length + 1 := by rw [hsome]; rfl
      cases htr : data.transitions[lowerBound (fun tr => comp.less tr sentry) data.transitions]? with
      | none =>
          simp only [htr]
          exact localtimeAt_ne_none (by omega)
      | some tr =>
          have hinside := (List.getElem?_eq_some_iff.mp htr).1
          simp only [htr]
          split_ifs with hunequal hbegin
          · -- the front, which is not later than the sentry, would be equal to it
            exfalso
            rw [hbegin, hsome] at htr
            obtain rfl := Option.some.inj htr
            have hpos : ¬ comp.less front sentry = true := fun hfront => by
              have hplace : 0 < lowerBound (fun tr => comp.less tr sentry) (front :: rest) :=
                lowerBound_pos hfront
              rw [← hsome] at hplace
              omega
            rw [Comp.less_iff] at hless hpos
            rw [Bool.not_eq_true', ← Bool.not_eq_true, Comp.equal_iff] at hunequal
            omega
          · exact localtimeAt_ne_none (by omega)
          · exact localtimeAt_ne_none hinside

theorem toLocalTime_ne_none {data : Data} (htypes : data.localtimes ≠ []) (gmtime : Int → Tm)
    (seconds : Int) : toLocalTime gmtime data seconds ≠ none := by
  rw [toLocalTime, Ne, Option.map_eq_none_iff]
  exact findLocaltime_ne_none htypes _ _

/-- A zone is usable just when it has a local type. -/
theorem usable_iff {data : Data} : Zone.Usable { data := some data } ↔ data.localtimes ≠ [] := by
  constructor
  · intro husable hnone
    have htransitions : data.transitions = [] := by
      rw [List.eq_nil_iff_forall_not_mem]
      intro tr htr
      obtain ⟨type, htype, -⟩ := data.computed tr htr
      rw [hnone] at htype
      cases htype
    refine (husable data rfl (fun _ => {}) (fun _ => 0)).1 0 ?_
    rw [toLocalTime, findLocaltime, htransitions, hnone]
    rfl
  · intro htypes other hother gmtime timegm
    obtain rfl := Option.some.inj hother
    refine ⟨toLocalTime_ne_none htypes gmtime, fun localTm => ?_⟩
    obtain ⟨type, htype⟩ := Option.ne_none_iff_exists'.mp
      (findLocaltime_ne_none htypes ⟨0, timegm localTm, 0⟩ ⟨false⟩)
    obtain ⟨tryTm, htry⟩ := Option.ne_none_iff_exists'.mp
      (toLocalTime_ne_none htypes gmtime (timegm localTm - type.gmtOffset))
    rw [fromLocalTime_eq gmtime timegm htype (Int.sub_add_cancel _ _).symm htry]
    exact Option.some_ne_none _

/-! ## What a file says -/

/-- The reader comes to the end of the file's tables: it opened the file, and no read threw. -/
def ReadsThrough (zonefile : Option File) (tables : Tables) (types : List Localtime) : Prop :=
  ∃ file rest behind text, zonefile = some file ∧ readTables file = some (tables, rest) ∧
    readLocaltimes tables.typecnt.toNat rest = (types, some behind) ∧
    readBytes tables.charcnt.toNat behind = some text

def ParsedCompletely (zonefile : Option File) : Prop :=
  ∃ tables types, ReadsThrough zonefile tables types

/-- The tables agree with each other: there is a local type, the indices are those of local types, and the
number of characters is not negative and not beyond the stack. -/
structure Consistent (stack : Nat) (tables : Tables) (types : List Localtime) : Prop where
  ne_nil : types ≠ []
  indices : ∀ index ∈ tables.localtimes, index < types.length
  charcnt : 0 ≤ tables.charcnt ∧ tables.charcnt ≤ stack

/-- A loop that reads a number of values reads as many. -/
theorem length_readMany {α : Type} {read : File → Option (α × File)} {count : Nat} {file rest : File}
    {values : List α} (hread : readMany read count file = some (values, rest)) :
    values.length = count := by
  induction count generalizing file values rest with
  | zero =>
      obtain ⟨rfl, -⟩ := Prod.mk.inj (Option.some.inj hread)
      rfl
  | succ count ih =>
      obtain ⟨⟨value, later⟩, -, hread⟩ := Option.bind_eq_some_iff.mp hread
      obtain ⟨⟨others, last⟩, hothers, hread⟩ := Option.bind_eq_some_iff.mp hread
      obtain ⟨rfl, -⟩ := Prod.mk.inj (Option.some.inj hread)
      rw [List.length_cons, ih hothers]

theorem length_readTables {file rest : File} {tables : Tables}
    (hread : readTables file = some (tables, rest)) : tables.trans.length = tables.localtimes.length := by
  obtain ⟨⟨head, file⟩, -, hread⟩ := Option.bind_eq_some_iff.mp hread
  dsimp only at hread
  split at hread
  · cases hread
  · obtain ⟨version, -, hread⟩ := Option.bind_eq_some_iff.mp hread
    obtain ⟨unused, -, hread⟩ := Option.bind_eq_some_iff.mp hread
    obtain ⟨isgmtcnt, -, hread⟩ := Option.bind_eq_some_iff.mp hread
    obtain ⟨isstdcnt, -, hread⟩ := Option.bind_eq_some_iff.mp hread
    obtain ⟨leapcnt, -, hread⟩ := Option.bind_eq_some_iff.mp hread
    obtain ⟨timecnt, -, hread⟩ := Option.bind_eq_some_iff.mp hread
    obtain ⟨typecnt, -, hread⟩ := Option.bind_eq_some_iff.mp hread
    obtain ⟨charcnt, -, hread⟩ := Option.bind_eq_some_iff.mp hread
    split at hread
    · cases hread
    · obtain ⟨⟨times, file⟩, htimes, hread⟩ := Option.bind_eq_some_iff.mp hread
      obtain ⟨⟨indices, file⟩, hindices, hread⟩ := Option.bind_eq_some_iff.mp hread
      obtain ⟨rfl, -⟩ := Prod.mk.inj (Option.some.inj hread)
      exact (length_readMany htimes).trans (length_readMany hindices).symm

/-- There are transitions just when the indices are those of local types. -/
theorem makeTransitions_ne_none {types : List Localtime} {times : List Int} {indices : List Nat}
    (hlength : times.length = indices.length) :
    makeTransitions types (times.zip indices) ≠ none ↔ ∀ index ∈ indices, index < types.length := by
  induction times generalizing indices with
  | nil =>
      obtain rfl := List.length_eq_zero_iff.mp hlength.symm
      exact iff_of_true (Option.some_ne_none _) fun index hindex => absurd hindex List.not_mem_nil
  | cons time times ih =>
      obtain ⟨index, indices, rfl⟩ := List.exists_cons_of_length_eq_add_one hlength.symm
      rw [List.zip_cons_cons, makeTransitions, List.forall_mem_cons, ← ih (Nat.succ.inj hlength)]
      by_cases hindex : index < types.length
      · rw [List.getElem?_eq_getElem hindex, Ne, Option.map_eq_none_iff]
        exact (and_iff_right hindex).symm
      · rw [List.getElem?_eq_none (Nat.le_of_not_lt hindex)]
        exact iff_of_false (fun hnever => hnever rfl) fun h => hindex h.1

/-- What the reader makes of a file that it reads through: it has undefined behaviour, or the local types are
all there. -/
theorem readTimeZoneFile_through (stack : Nat) {zonefile : Option File} {tables : Tables}
    {types : List Localtime} (hthrough : ReadsThrough zonefile tables types) :
    (Consistent stack tables types → ∃ data, readTimeZoneFile stack zonefile = some data) ∧
      ∀ data, readTimeZoneFile stack zonefile = some data → data.localtimes = types ∧
        (∀ index ∈ tables.localtimes, index < types.length) ∧
        0 ≤ tables.charcnt ∧ tables.charcnt ≤ stack := by
  obtain ⟨file, rest, behind, text, rfl, htables, htypes, htext⟩ := hthrough
  have hindices : makeTransitions types (tables.trans.zip tables.localtimes) ≠ none ↔
      ∀ index ∈ tables.localtimes, index < types.length :=
    makeTransitions_ne_none (length_readTables htables)
  rw [readTimeZoneFile, Option.bind_some, htables]
  dsimp only
  rw [htypes]
  dsimp only
  split
  · rename_i hnone
    refine ⟨fun hconsistent => absurd hnone (hindices.mpr hconsistent.indices), fun data hdata => ?_⟩
    cases hdata
  · rename_i transitions hsome
    have hinside := hindices.mp (hsome ▸ Option.some_ne_none _)
    split_ifs with hnoRoom
    · refine ⟨fun hconsistent => ?_, fun data hdata => ?_⟩
      · have hroom := hconsistent.charcnt
        omega
      · cases hdata
    · refine ⟨fun _ => ⟨_, rfl⟩, fun data hdata => ?_⟩
      obtain rfl := Option.some.inj hdata
      exact ⟨rfl, hinside, by omega, by omega⟩

/-- **A valid zone is usable.** The object made of a zone file is usable and stands for a file that was parsed
completely, if it is `valid()`, just when the file could be opened and read to the end and its tables are
consistent: in all other cases it is `valid()` as well, or the reader goes beyond its own tables or beyond the
stack. -/
theorem valid_usable_iff (stack : Nat) (zonefile : Option File) :
    (∃ zone, Zone.ofFile stack zonefile = some zone ∧
      (zone.valid = true → zone.Usable ∧ ParsedCompletely zonefile)) ↔
    ∃ tables types, ReadsThrough zonefile tables types ∧ Consistent stack tables types := by
  constructor
  · rintro ⟨zone, hzone, hvalid⟩
    obtain ⟨data, hdata, rfl⟩ := Option.map_eq_some_iff.mp hzone
    obtain ⟨husable, tables, types, hthrough⟩ := hvalid rfl
    obtain ⟨rfl, hindices, hcharcnt⟩ := (readTimeZoneFile_through stack hthrough).2 data hdata
    exact ⟨tables, data.localtimes, hthrough, usable_iff.mp husable, hindices, hcharcnt⟩
  · rintro ⟨tables, types, hthrough, hconsistent⟩
    obtain ⟨hdata, hread⟩ := readTimeZoneFile_through stack hthrough
    obtain ⟨data, hdata⟩ := hdata hconsistent
    refine ⟨{ data := some data }, by rw [Zone.ofFile, hdata]; rfl, fun _ => ⟨?_, tables, types, hthrough⟩⟩
    rw [usable_iff, (hread data hdata).1]
    exact hconsistent.ne_nil

/-- A file that does not exist gives a zone that is `valid()`, and in which nothing can be converted. -/
theorem missing_file_valid :
    ∃ zone, Zone.ofFile (8 * 2 ^ 20) none = some zone ∧ zone.valid = true ∧ ¬ zone.Usable ∧
      ∃ data, zone.data = some data ∧ ∀ gmtime seconds, toLocalTime gmtime data seconds = none :=
  ⟨{ data := some {} }, rfl, rfl, fun husable => usable_iff.mp husable rfl, {}, rfl, fun _ _ => rfl⟩

end TimeZone
end Muduo
