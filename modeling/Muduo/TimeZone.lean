import Muduo.BigEndian
import Muduo.Gmtime
import Muduo.LowerBound

/-! `muduo::TimeZone`. The transitions of a zone are searched by UTC for the way to local time, and by local
time for the way back. Where the clock is set back an hour, local times of that hour come twice; the flag
`tm_isdst` tells which of the two is meant. -/

namespace Muduo
namespace TimeZone

open LowerBound

structure Transition where
  gmttime : Int
  localtime : Int
  localtimeIdx : Nat
  deriving DecidableEq, Repr

structure Localtime where
  gmtOffset : Int
  isDst : Bool
  arrbIdx : Nat
  deriving DecidableEq, Repr

/-- `Comp`: which of the two times is compared. -/
structure Comp where
  compareGmt : Bool

namespace Comp

def key (comp : Comp) (tr : Transition) : Int := if comp.compareGmt then tr.gmttime else tr.localtime

/-- `operator()`. -/
def less (comp : Comp) (lhs rhs : Transition) : Bool := comp.key lhs < comp.key rhs

def equal (comp : Comp) (lhs rhs : Transition) : Bool := comp.key lhs = comp.key rhs

end Comp

/-- `TimeZone::Data`. The local time of a transition is computed from the offset of its local type. -/
structure Data where
  transitions : List Transition := []
  localtimes : List Localtime := []
  abbreviation : Bytes := []
  computed : ∀ tr ∈ transitions, ∃ type, localtimes[tr.localtimeIdx]? = some type ∧
    tr.localtime = tr.gmttime + type.gmtOffset := by simp

/-! ## Zone files -/

/-- What is left of a file. A read that throws `logic_error` has no result. -/
abbrev File := Bytes

namespace File

def readBytes (n : Nat) (file : File) : Option (Bytes × File) :=
  if n ≤ file.length then some (file.take n, file.drop n) else none

/-- Four bytes, in network byte order. -/
def readInt32 (file : File) : Option (Int × File) :=
  (readBytes 4 file).map fun (bytes, file) => ((BitVec.ofNat 32 (BigEndian.decode bytes)).toInt, file)

def readUInt8 (file : File) : Option (Nat × File) :=
  (readBytes 1 file).map fun (bytes, file) => (BigEndian.decode bytes, file)

/-- A loop that reads a number of values. -/
def readMany {α : Type} (read : File → Option (α × File)) : Nat → File → Option (List α × File)
  | 0, file => some ([], file)
  | count + 1, file => do
      let (value, file) ← read file
      let (values, file) ← readMany read count file
      return (value :: values, file)

/-- The loop over the local types. Those that were read are kept when a read throws. -/
def readLocaltimes : Nat → File → List Localtime × Option File
  | 0, file => ([], some file)
  | count + 1, file =>
      let entry := do
        let (gmtoff, file) ← readInt32 file
        let (isdst, file) ← readUInt8 file
        let (abbrind, file) ← readUInt8 file
        return (Localtime.mk gmtoff (isdst ≠ 0) abbrind, file)
      match entry with
      | none => ([], none)
      | some (type, file) =>
          let (types, file) := readLocaltimes count file
          (type :: types, file)

end File

/-- What a file says before its local types. -/
structure Tables where
  typecnt : Int
  charcnt : Int
  trans : List Int
  localtimes : List Nat

open File in
def readTables (file : File) : Option (Tables × File) := do
  let (head, file) ← readBytes 4 file
  if head ≠ ascii "TZif" then none
  let (_version, file) ← readBytes 1 file
  let (_, file) ← readBytes 15 file
  let (_isgmtcnt, file) ← readInt32 file
  let (_isstdcnt, file) ← readInt32 file
  let (_leapcnt, file) ← readInt32 file
  let (timecnt, file) ← readInt32 file
  let (typecnt, file) ← readInt32 file
  let (charcnt, file) ← readInt32 file
  -- trans.reserve(timecnt) throws length_error
  if timecnt < 0 then none
  let (times, file) ← readMany readInt32 timecnt.toNat file
  let (localtimes, file) ← readMany readUInt8 timecnt.toNat file
  return (⟨typecnt, charcnt, times, localtimes⟩, file)

/-- The loop that stores the transitions. An index beyond the local types is undefined behaviour. -/
def makeTransitions (types : List Localtime) : List (Int × Nat) → Option (List Transition)
  | [] => some []
  | (gmttime, localIdx) :: entries =>
      match types[localIdx]? with
      | none => none
      | some type =>
          (makeTransitions types entries).map (⟨gmttime, gmttime + type.gmtOffset, localIdx⟩ :: ·)

theorem computed_makeTransitions {types : List Localtime} {entries : List (Int × Nat)}
    {transitions : List Transition} (hmake : makeTransitions types entries = some transitions) :
    ∀ tr ∈ transitions, ∃ type, types[tr.localtimeIdx]? = some type ∧
      tr.localtime = tr.gmttime + type.gmtOffset := by
  induction entries generalizing transitions with
  | nil =>
      obtain rfl := Option.some.inj hmake
      intro tr htr
      cases htr
  | cons entry entries ih =>
      rw [makeTransitions] at hmake
      cases htype : types[entry.2]? with
      | none =>
          rw [htype] at hmake
          cases hmake
      | some type =>
          rw [htype] at hmake
          obtain ⟨others, hothers, rfl⟩ := Option.map_eq_some_iff.mp hmake
          intro tr htr
          rcases List.mem_cons.mp htr with rfl | hlater
          · exact ⟨type, htype, rfl⟩
          · exact ih hothers tr hlater

/-- `readTimeZoneFile` on the content of the file, if it can be opened. An exception ends the reading, and
what has been stored is kept. `readBytes` makes an array on the stack, which has room for one of `stack`
bytes. -/
def readTimeZoneFile (stack : Nat) (zonefile : Option File) : Option Data :=
  match zonefile.bind readTables with
  | none => some {}
  | some (tables, file) =>
      match File.readLocaltimes tables.typecnt.toNat file with
      | (types, none) => some { localtimes := types }
      | (types, some file) =>
          match hmake : makeTransitions types (tables.trans.zip tables.localtimes) with
          | none => none
          | some transitions =>
              -- an array of negative size, or of one beyond the stack, is undefined behaviour
              if tables.charcnt < 0 ∨ stack < tables.charcnt then none
              else some {
                transitions := transitions
                localtimes := types
                abbreviation := ((File.readBytes tables.charcnt.toNat file).map Prod.fst).getD []
                computed := computed_makeTransitions hmake }

/-- `TimeZone(int eastOfUtc, const char* name)`. -/
def fixed (eastOfUtc : Int) (name : Bytes) : Data :=
  { localtimes := [⟨eastOfUtc, false, 0⟩], abbreviation := name }

/-! ## Looking up -/

/-- The local type of the transition at some position. -/
def Data.localtimeAt (data : Data) (i : Nat) : Option Localtime :=
  data.transitions[i]?.bind fun tr => data.localtimes[tr.localtimeIdx]?

/-- `findLocaltime`. Without a result an assertion has failed or an element does not exist. -/
def findLocaltime (data : Data) (sentry : Transition) (comp : Comp) : Option Localtime :=
  match data.transitions with
  | [] => data.localtimes.head?
  | front :: _ =>
      if comp.less sentry front then data.localtimes.head?
      else
        let transI := lowerBound (fun tr => comp.less tr sentry) data.transitions
        match data.transitions[transI]? with
        | some tr =>
            if !comp.equal sentry tr then
              -- assert(transI != data.transitions.begin())
              if transI = 0 then none else data.localtimeAt (transI - 1)
            else data.localtimeAt transI
        | none => data.localtimeAt (data.transitions.length - 1)

section Conversion

/-! `gmtime_r` and `timegm` are the C library's. -/

variable (gmtime : Int → Tm) (timegm : Tm → Int)

def toLocalTime (data : Data) (seconds : Int) : Option Tm :=
  (findLocaltime data ⟨seconds, 0, 0⟩ ⟨true⟩).map fun type =>
    { gmtime (seconds + type.gmtOffset) with
      isdst := type.isDst
      gmtoff := type.gmtOffset
      zone := data.abbreviation.drop type.arrbIdx }

def fromLocalTime (data : Data) (localTm : Tm) : Option Int := do
  let seconds := timegm localTm
  let type ← findLocaltime data ⟨0, seconds, 0⟩ ⟨false⟩
  if localTm.isdst then
    let tryTm ← toLocalTime gmtime data (seconds - type.gmtOffset)
    if !tryTm.isdst && tryTm.hour = localTm.hour && tryTm.min = localTm.min then
      return seconds - 3600 - type.gmtOffset
  return seconds - type.gmtOffset

end Conversion

/-- The local type between two transitions: the one of the transition before, or the first one. -/
def Data.typeAt (data : Data) : Nat → Option Localtime
  | 0 => data.localtimes.head?
  | k + 1 => data.localtimeAt k

theorem Comp.less_iff {comp : Comp} {lhs rhs : Transition} :
    comp.less lhs rhs = true ↔ comp.key lhs < comp.key rhs := decide_eq_true_iff

theorem Comp.equal_iff {comp : Comp} {lhs rhs : Transition} :
    comp.equal lhs rhs = true ↔ comp.key lhs = comp.key rhs := decide_eq_true_iff

/-- The place of the last transition that is not later than the sentry, or the one behind it. -/
theorem lowerBound_transitions {data : Data} {sentry : Transition} {comp : Comp} {k : Nat}
    (hincreasing : data.transitions.Pairwise fun x y => comp.key x < comp.key y)
    (hk : Splits (fun tr => comp.key tr ≤ comp.key sentry) data.transitions (k + 1)) {tr : Transition}
    (htr : data.transitions[k]? = some tr) :
    lowerBound (fun tr => comp.less tr sentry) data.transitions =
      if comp.key tr = comp.key sentry then k else k + 1 := by
  have hle : comp.key tr ≤ comp.key sentry := (hk.2 k tr htr).mpr (Nat.lt_succ_self k)
  apply lowerBound_eq
  split_ifs with hequal
  · refine ⟨Nat.le_of_succ_le hk.1, fun i x hx => Comp.less_iff.trans ?_⟩
    rw [← hequal]
    constructor
    · intro hless
      by_contra hnot
      rcases Nat.eq_or_lt_of_le (Nat.le_of_not_lt hnot) with rfl | hlater
      · obtain rfl := Option.some.inj (hx.symm.trans htr)
        exact lt_irrefl _ hless
      · exact lt_asymm hless (getElem?_lt hincreasing hlater htr hx)
    · exact fun hearlier => getElem?_lt hincreasing hearlier hx htr
  · refine ⟨hk.1, fun i x hx => Comp.less_iff.trans ?_⟩
    constructor
    · exact fun hless => (hk.2 i x hx).mp (le_of_lt hless)
    · intro hearlier
      rcases Nat.eq_or_lt_of_le (Nat.le_of_lt_succ hearlier) with rfl | hlt
      · obtain rfl := Option.some.inj (hx.symm.trans htr)
        exact lt_of_le_of_ne hle hequal
      · exact lt_of_lt_of_le (getElem?_lt hincreasing hlt hx htr) hle

/-- **The lookup.** With `k` transitions that are not later than the sentry, the local type behind them is
found. -/
theorem findLocaltime_eq {data : Data} {sentry : Transition} (comp : Comp) {k : Nat}
    (hincreasing : data.transitions.Pairwise fun x y => comp.key x < comp.key y)
    (hk : Splits (fun tr => comp.key tr ≤ comp.key sentry) data.transitions k) :
    findLocaltime data sentry comp = data.typeAt k := by
  unfold findLocaltime
  split
  · rename_i hnone
    obtain rfl : k = 0 := by
      have hlength := hk.1
      rw [hnone] at hlength
      exact Nat.le_zero.mp hlength
    rfl
  · rename_i front rest hsome
    have hfront : data.transitions[0]? = some front := by rw [hsome]; rfl
    have hfirst := hk.2 0 front hfront
    cases k with
    | zero =>
        have hless : comp.less sentry front = true := by
          rw [Comp.less_iff]
          by_contra hnot
          exact Nat.lt_irrefl 0 (hfirst.mp (not_lt.mp hnot))
        rw [if_pos hless]
        rfl
    | succ k =>
        have hnot : ¬ comp.less sentry front = true := by
          rw [Comp.less_iff]
          exact not_lt.mpr (hfirst.mpr (Nat.succ_pos k))
        have hinside : k < data.transitions.length := hk.1
        have htr := List.getElem?_eq_getElem hinside
        rw [if_neg hnot, lowerBound_transitions hincreasing hk htr]
        split_ifs with hequal
        · -- the sentry is at a transition
          have hsame : (!comp.equal sentry data.transitions[k]) = false := by
            rw [Bool.not_eq_false', Comp.equal_iff]
            exact hequal.symm
          simp only [htr, hsame, Bool.false_eq_true, if_false]
          rfl
        · cases hnext : data.transitions[k + 1]? with
          | none =>
              have hlast : data.transitions.length - 1 = k := by
                have hlength := List.getElem?_eq_none_iff.mp hnext
                omega
              simp only [hnext, hlast]
              rfl
          | some next =>
              have hother : (!comp.equal sentry next) = true := by
                rw [Bool.not_eq_true', ← Bool.not_eq_true, Comp.equal_iff]
                intro hkeys
                exact Nat.lt_irrefl _ ((hk.2 (k + 1) next hnext).mp (le_of_eq hkeys.symm))
              simp only [hnext, hother, if_true, Nat.succ_ne_zero, if_false, Nat.add_sub_cancel]
              rfl

/-! ## There and back -/

/-- The conditions on a zone. A transition that sets the clock back, the first local type standing before
the first transition, ends daylight saving time by an hour, and nothing else happens for an hour. -/
structure Data.WellFormed (data : Data) : Prop where
  types : data.localtimes ≠ []
  gmt_increasing : data.transitions.Pairwise fun x y => x.gmttime < y.gmttime
  local_increasing : data.transitions.Pairwise fun x y => x.localtime < y.localtime
  setBack : ∀ k tr before after, data.transitions[k]? = some tr → data.typeAt k = some before →
    data.typeAt (k + 1) = some after → after.gmtOffset < before.gmtOffset →
      before.isDst = true ∧ after.isDst = false ∧ before.gmtOffset = after.gmtOffset + 3600 ∧
      ∀ next, data.transitions[k + 1]? = some next → tr.gmttime + 3600 ≤ next.gmttime

variable {data : Data}

/-- A transition has a local type, from which its local time was computed. -/
theorem typeAt_of_transition {k : Nat} {tr : Transition} (htr : data.transitions[k]? = some tr) :
    ∃ type, data.typeAt (k + 1) = some type ∧ tr.localtime = tr.gmttime + type.gmtOffset := by
  obtain ⟨type, htype, hlocal⟩ := data.computed tr (List.mem_of_getElem? htr)
  refine ⟨type, ?_, hlocal⟩
  rw [Data.typeAt, Data.localtimeAt, htr]
  exact htype

theorem exists_typeAt (hdata : data.WellFormed) {k : Nat} (hk : k ≤ data.transitions.length) :
    ∃ type, data.typeAt k = some type := by
  cases k with
  | zero =>
      obtain ⟨first, rest, hfirst⟩ := List.exists_cons_of_ne_nil hdata.types
      exact ⟨first, by rw [Data.typeAt, hfirst]; rfl⟩
  | succ k =>
      obtain ⟨type, htype, -⟩ := typeAt_of_transition (List.getElem?_eq_getElem hk)
      exact ⟨type, htype⟩

/-- There are `k` transitions up to a time in UTC, and as many up to one in local time. -/
def AtGmt (data : Data) (t : Int) (k : Nat) : Prop := Splits (fun tr => tr.gmttime ≤ t) data.transitions k

def AtLocal (data : Data) (l : Int) (k : Nat) : Prop :=
  Splits (fun tr => tr.localtime ≤ l) data.transitions k

theorem findLocaltime_gmt (hdata : data.WellFormed) {t : Int} {k : Nat} (hk : AtGmt data t k) :
    findLocaltime data ⟨t, 0, 0⟩ ⟨true⟩ = data.typeAt k :=
  findLocaltime_eq ⟨true⟩ hdata.gmt_increasing hk

theorem findLocaltime_local (hdata : data.WellFormed) {l : Int} {k : Nat} (hk : AtLocal data l k) :
    findLocaltime data ⟨0, l, 0⟩ ⟨false⟩ = data.typeAt k :=
  findLocaltime_eq ⟨false⟩ hdata.local_increasing hk

/-- Up to a time there are transitions, whichever they are. -/
theorem exists_atGmt (hdata : data.WellFormed) (t : Int) : ∃ k, AtGmt data t k := by
  apply exists_splits
  refine hdata.gmt_increasing.imp fun hless hlate => ?_
  omega

/-- **The way back, without an overlap.** The next transition is later in local time, too. -/
theorem atLocal_same (hdata : data.WellFormed) {t : Int} {k : Nat} {type : Localtime}
    (hk : AtGmt data t k) (htype : data.typeAt k = some type)
    (hnext : ∀ tr, data.transitions[k]? = some tr → t + type.gmtOffset < tr.localtime) :
    AtLocal data (t + type.gmtOffset) k := by
  refine splits_of_neighbours hdata.local_increasing hk.1 ?_ hnext
  rintro i tr rfl htr
  obtain ⟨same, hsame, hlocal⟩ := typeAt_of_transition htr
  obtain rfl := Option.some.inj (htype.symm.trans hsame)
  have hearlier : tr.gmttime ≤ t := (hk.2 i tr htr).mpr (Nat.lt_succ_self i)
  omega

/-- **The way back, in the hour that comes twice.** The next transition, which sets the clock back, seems to
have happened. After an hour it has. -/
theorem atLocal_overlap (hdata : data.WellFormed) {t : Int} {k : Nat} {type : Localtime}
    (hk : AtGmt data t k) (htype : data.typeAt k = some type) {tr : Transition}
    (htr : data.transitions[k]? = some tr) (hpast : tr.localtime ≤ t + type.gmtOffset) :
    ∃ after, data.typeAt (k + 1) = some after ∧ type.isDst = true ∧ after.isDst = false ∧
      type.gmtOffset = after.gmtOffset + 3600 ∧ AtLocal data (t + type.gmtOffset) (k + 1) ∧
      AtGmt data (t + 3600) (k + 1) := by
  obtain ⟨after, hafter, hlocal⟩ := typeAt_of_transition htr
  have hlate : t < tr.gmttime := by
    by_contra hnot
    exact Nat.lt_irrefl k ((hk.2 k tr htr).mp (not_lt.mp hnot))
  obtain ⟨hdst, hstandard, hhour, hquiet⟩ := hdata.setBack k tr type after htr htype hafter (by omega)
  have hlength : k + 1 ≤ data.transitions.length := (List.getElem?_eq_some_iff.mp htr).1
  refine ⟨after, hafter, hdst, hstandard, hhour, ?_, ?_⟩
  · refine splits_of_neighbours hdata.local_increasing hlength ?_ fun next hnext => ?_
    · rintro i other hi hother
      obtain rfl : i = k := by omega
      obtain rfl := Option.some.inj (htr.symm.trans hother)
      exact hpast
    · -- standard time is not set back
      obtain ⟨third, hthird, hlater⟩ := typeAt_of_transition hnext
      have hapart := hquiet next hnext
      have hforward : after.gmtOffset ≤ third.gmtOffset := by
        by_contra hback
        have hnever := (hdata.setBack (k + 1) next after third hnext hafter hthird (by omega)).1
        rw [hstandard] at hnever
        cases hnever
      omega
  · refine splits_of_neighbours hdata.gmt_increasing hlength ?_ fun next hnext => ?_
    · rintro i other hi hother
      obtain rfl : i = k := by omega
      obtain rfl := Option.some.inj (htr.symm.trans hother)
      omega
    · have hapart := hquiet next hnext
      omega

section RoundTrip

variable (gmtime : Int → Tm) (timegm : Tm → Int)

/-- What `toLocalTime` makes of a local type. -/
def localTm (data : Data) (seconds : Int) (type : Localtime) : Tm :=
  { gmtime (seconds + type.gmtOffset) with
    isdst := type.isDst
    gmtoff := type.gmtOffset
    zone := data.abbreviation.drop type.arrbIdx }

theorem toLocalTime_eq (hdata : data.WellFormed) {t : Int} {k : Nat} {type : Localtime}
    (hk : AtGmt data t k) (htype : data.typeAt k = some type) :
    toLocalTime gmtime data t = some (localTm gmtime data t type) := by
  rw [toLocalTime, findLocaltime_gmt hdata hk, htype]
  rfl

/-- `fromLocalTime` subtracts an hour from the time it would return when that is in standard time, with the
same hour and minute. -/
theorem fromLocalTime_eq {tm tryTm : Tm} {type : Localtime} {result : Int}
    (hfind : findLocaltime data ⟨0, timegm tm, 0⟩ ⟨false⟩ = some type)
    (hresult : timegm tm = result + type.gmtOffset)
    (htry : toLocalTime gmtime data result = some tryTm) :
    fromLocalTime gmtime timegm data tm = some
      (if tm.isdst = true ∧ tryTm.isdst = false ∧ tryTm.hour = tm.hour ∧ tryTm.min = tm.min then
        result - 3600
      else result) := by
  have hback : timegm tm - type.gmtOffset = result := by omega
  have hhack : timegm tm - 3600 - type.gmtOffset = result - 3600 := by omega
  rw [fromLocalTime, hfind]
  cases hdst : tm.isdst with
  | false => simp [hback]
  | true =>
      simp only [Option.bind_eq_bind, Option.bind_some, if_true, hback, htry, hhack, true_and,
        Bool.and_eq_true, Bool.not_eq_true', decide_eq_true_eq, and_assoc]
      split_ifs <;> rfl

/-- **Local time and back.** `gmtime_r` and `timegm` are inverse on UTC seconds, and `timegm` does not look
at the fields that the zone sets. In every well-formed zone every time is found again from its local time,
also when that comes twice. -/
theorem local_round_trip
    (hinverse : ∀ seconds isdst gmtoff zone, timegm
      { gmtime seconds with isdst := isdst, gmtoff := gmtoff, zone := zone } = seconds)
    (data : Data) (hdata : data.WellFormed) (t : Int) :
    ∃ tm, toLocalTime gmtime data t = some tm ∧ fromLocalTime gmtime timegm data tm = some t := by
  obtain ⟨k, hk⟩ := exists_atGmt hdata t
  obtain ⟨type, htype⟩ := exists_typeAt hdata hk.1
  have hto := toLocalTime_eq gmtime hdata hk htype
  have hseconds : timegm (localTm gmtime data t type) = t + type.gmtOffset := hinverse _ _ _ _
  refine ⟨_, hto, ?_⟩
  by_cases hpast : ∃ tr, data.transitions[k]? = some tr ∧ tr.localtime ≤ t + type.gmtOffset
  · obtain ⟨tr, htr, hpast⟩ := hpast
    obtain ⟨after, hafter, hdst, hstandard, hhour, hlocal, hgmt⟩ :=
      atLocal_overlap hdata hk htype htr hpast
    -- standard time is found, in which it is an hour later
    have hfind := (findLocaltime_local hdata hlocal).trans hafter
    have htry := toLocalTime_eq gmtime hdata hgmt hafter
    have hsame : t + type.gmtOffset = t + 3600 + after.gmtOffset := by omega
    rw [← hseconds] at hfind
    rw [fromLocalTime_eq gmtime timegm hfind (hseconds.trans hsame) htry, if_pos]
    · rw [Int.add_sub_cancel]
    · simp only [localTm, hdst, hstandard, hsame, and_self]
  · have hlocal : AtLocal data (t + type.gmtOffset) k := by
      refine atLocal_same hdata hk htype fun tr htr => ?_
      by_contra hnot
      exact hpast ⟨tr, htr, not_lt.mp hnot⟩
    have hfind := (findLocaltime_local hdata hlocal).trans htype
    rw [← hseconds] at hfind
    rw [fromLocalTime_eq gmtime timegm hfind hseconds hto, if_neg]
    rintro ⟨hdst, hstandard, -⟩
    rw [hdst] at hstandard
    cases hstandard

end RoundTrip

/-- New York in the year 2007. -/
def newYork : Data where
  transitions := [⟨1173596400, 1173582000, 1⟩, ⟨1194156000, 1194138000, 0⟩]
  localtimes := [⟨-18000, false, 0⟩, ⟨-14400, true, 4⟩]
  abbreviation := ascii "EST" ++ [0] ++ ascii "EDT" ++ [0]
  computed := by simp

theorem newYork_wellFormed : newYork.WellFormed where
  types := by decide
  gmt_increasing := by decide
  local_increasing := by decide
  setBack k tr before after htr hbefore hafter hback := by
    match k with
    | 0 =>
        obtain rfl := Option.some.inj hbefore
        obtain rfl := Option.some.inj hafter
        exact absurd hback (by decide)
    | 1 =>
        obtain rfl := Option.some.inj hbefore
        obtain rfl := Option.some.inj hafter
        exact ⟨rfl, rfl, rfl, fun _ hnext => by cases hnext⟩
    | k + 2 => cases htr

/-- Half past one on November 4, first in daylight saving time and then in standard time. -/
theorem local_round_trip_newYork :
    (∃ tm, toLocalTime gmtime newYork 1194154200 = some tm ∧
      fromLocalTime gmtime timegm newYork tm = some 1194154200) ∧
    ∃ tm, toLocalTime gmtime newYork 1194157800 = some tm ∧
      fromLocalTime gmtime timegm newYork tm = some 1194157800 :=
  ⟨local_round_trip gmtime timegm (fun seconds _ _ _ => timegm_gmtime seconds) newYork newYork_wellFormed _,
    local_round_trip gmtime timegm (fun seconds _ _ _ => timegm_gmtime seconds) newYork newYork_wellFormed _⟩

end TimeZone
end Muduo
