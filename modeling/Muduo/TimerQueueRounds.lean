import Muduo.TimerQueueCancel

/-! One round of `handleRead`. `getExpired` cuts the queue at the present time, timers that expire right
now included, and the round calls the timers it has taken, each of them once and in the order of their
expirations, whatever the callbacks add and cancel meanwhile. -/

namespace Muduo

/-- The timer that is called. -/
def TimerEvent.callback? : TimerEvent → Option TimerId
  | .ran _ id => some id
  | _ => none

namespace TimerSystem

open Execution

variable {q next : TimerSystem} {objects objects' : Objects} {now : Timestamp}

/-- What `getExpired` is for: `expired` are the timers that have expired, and the later ones are left. -/
structure Split (q : TimerSystem) (now : Timestamp) (expired : List Entry) (next : TimerSystem) :
    Prop where
  mem : ∀ it, it ∈ expired ↔ it ∈ q.timers ∧ it.expiration ≤ now
  nodup : expired.Nodup
  ordered : expired.Pairwise fun it other => it.expiration ≤ other.expiration
  timers : ∀ it, it ∈ next.timers ↔ it ∈ q.timers ∧ now < it.expiration
  activeTimers : ∀ id, id ∈ next.activeTimers ↔ id ∈ q.activeTimers ∧
    ∀ t, q.heap id.timer = some t → now < t.expiration
  heap : next.heap = q.heap
  coherent : Coherent next

theorem cut_ordered (q : TimerSystem) (sentry : Entry) :
    (q.timers.cut sentry).1.Pairwise fun it other => it.expiration ≤ other.expiration :=
  (q.timers.cut_increasing sentry).imp fun hlt => Entry.expiration_le (le_of_lt hlt)

theorem Coherent.getExpired_split (hq : Coherent q) (now : Timestamp) :
    ∃ expired next, q.getExpired now = .ok (expired, next) ∧ Split q now expired next := by
  obtain ⟨activeTimers, heq, hin, hsizes⟩ := hq.getExpired_eq now
  refine ⟨_, _, heq, fun it => hq.mem_cut_left now, (q.timers.cut_increasing _).imp ne_of_lt,
    q.cut_ordered _, fun it => hq.mem_cut_right now, hin, rfl, hsizes, ?_, ?_, ?_⟩
  · intro it hit
    obtain ⟨hmem, hlater⟩ := (hq.mem_cut_right now).mp hit
    obtain ⟨t, ht, hexpiration, hactive⟩ := hq.timers it hmem
    refine ⟨t, ht, hexpiration, (hin _).mpr ⟨hactive, fun u hu => ?_⟩⟩
    rw [ht, Option.some.injEq] at hu
    exact hu ▸ hexpiration ▸ hlater
  · intro id hid
    obtain ⟨hactive, hlater⟩ := (hin id).mp hid
    obtain ⟨t, ht, hsequence, hmem⟩ := hq.activeTimers id hactive
    exact ⟨t, ht, hsequence, (hq.mem_cut_right now).mpr ⟨hmem, hlater t ht⟩⟩
  · exact fun it hit => hq.addresses it ((hq.mem_cut_right now).mp hit).1

/-- The timer of an entry. -/
def idOf (q : TimerSystem) (it : Entry) : TimerId :=
  ⟨it.timer, ((q.heap it.timer).map Timer.sequence).getD 0⟩

theorem idOf_eq {it : Entry} {t : Timer} (ht : q.heap it.timer = some t) :
    q.idOf it = ⟨it.timer, t.sequence⟩ := by
  rw [idOf, ht]
  rfl

/-- The timers that have expired, in the order of their expirations. -/
def due (q : TimerSystem) (now : Timestamp) : List TimerId :=
  (q.timers.cut ⟨now, UINTPTR_MAX⟩).1.map q.idOf

theorem Coherent.mem_due (hq : Coherent q) (id : TimerId) :
    id ∈ q.due now ↔
      id ∈ q.activeTimers ∧ ∃ t, q.heap id.timer = some t ∧ t.expiration ≤ now := by
  rw [due, List.mem_map]
  constructor
  · rintro ⟨it, hit, rfl⟩
    obtain ⟨hmem, hle⟩ := (hq.mem_cut_left now).mp hit
    obtain ⟨t, ht, hexpiration, hactive⟩ := hq.timers it hmem
    rw [idOf_eq ht]
    exact ⟨hactive, t, ht, hexpiration ▸ hle⟩
  · rintro ⟨hactive, t, ht, hle⟩
    obtain ⟨u, hu, hsequence, hmem⟩ := hq.activeTimers id hactive
    obtain rfl : t = u := Option.some.inj (ht.symm.trans hu)
    refine ⟨⟨t.expiration, id.timer⟩, (hq.mem_cut_left now).mpr ⟨hmem, hle⟩, ?_⟩
    rw [idOf_eq ht, hsequence]

theorem Coherent.due_nodup (hq : Coherent q) (now : Timestamp) : (q.due now).Nodup := by
  refine List.Nodup.of_map TimerId.timer ?_
  rw [due, List.map_map]
  exact hq.cut_timers_nodup now

theorem Coherent.due_ordered (hq : Coherent q) (now : Timestamp) :
    (q.due now).Pairwise fun id other => ∀ t u, q.heap id.timer = some t →
      q.heap other.timer = some u → t.expiration ≤ u.expiration := by
  rw [due, List.pairwise_map]
  refine (q.cut_ordered _).imp_of_mem fun {it other} hit hother hle t u ht hu => ?_
  obtain ⟨t', ht', hexpiration, -⟩ := hq.timers it ((hq.mem_cut_left now).mp hit).1
  obtain ⟨u', hu', hotherExpiration, -⟩ := hq.timers other ((hq.mem_cut_left now).mp hother).1
  obtain rfl : t' = t := Option.some.inj (ht'.symm.trans ht)
  obtain rfl : u' = u := Option.some.inj (hu'.symm.trans hu)
  rw [hexpiration, hotherExpiration]
  exact hle

theorem Coherent.step_handleRead (hq : Coherent q) (hround : q.round = none) (now : Timestamp) :
    ∃ activeTimers, q.step (.handleRead now) =
      .ok (q.opened now (q.timers.cut ⟨now, UINTPTR_MAX⟩).1 (q.timers.cut ⟨now, UINTPTR_MAX⟩).2
        activeTimers) := by
  have hread : Coherent q.readTimerfd := { hq with }
  obtain ⟨activeTimers, heq, -, -⟩ := hread.getExpired_eq now
  refine ⟨activeTimers, ?_⟩
  simp only [step, hround, handleRead, heq, bind, Except.bind]
  rfl

/-! ## The callbacks of a round -/

/-- The round that began in the state `start` has called some of its timers, in order, and the rest are
in the batch as they were. -/
def Progress (start : TimerSystem) (r : Round) (q : TimerSystem) (objects : Objects) : Prop :=
  ∃ rest extra, q.round = some { r with rest := rest } ∧ q.log = start.log ++ extra ∧
    extra.filterMap TimerEvent.callback? ++ rest.map start.idOf = r.expired.map start.idOf ∧
    ∀ it ∈ rest, ∃ t, objects it.timer = some ⟨.batch, t⟩ ∧ start.idOf it = ⟨it.timer, t.sequence⟩

theorem callbacks_of_quiet {log log' : List TimerEvent} (hquiet : Quiet log log') :
    ∃ extra, log' = log ++ extra ∧ extra.filterMap TimerEvent.callback? = [] := by
  obtain ⟨extra, heq, hnone⟩ := hquiet
  refine ⟨extra, heq, List.filterMap_eq_nil_iff.mpr fun event hevent => ?_⟩
  cases event with
  | ran round id => exact absurd hevent (hnone round id)
  | _ => rfl

theorem progress_opened {expired : List Entry} {timers : OrderedSet Entry}
    {activeTimers : OrderedSet ActiveTimer}
    (hinv : Inv (q.opened now expired timers activeTimers) objects) :
    Progress q ⟨q.rounds + 1, now, expired, expired⟩ (q.opened now expired timers activeTimers)
      objects := by
  refine ⟨expired, [], rfl, (List.append_nil _).symm, rfl, fun it hit => ?_⟩
  obtain ⟨t, ht, -⟩ := (hinv.represents.batch it).mp hit
  exact ⟨t, ht, idOf_eq (hinv.represents.read ht)⟩

theorem progress_turn {start : TimerSystem} {r : Round} {label : TimerLabel} (hinv : Inv q objects)
    (hprogress : Progress start r q objects) (hlabel : ∀ clock, label ≠ .finish clock)
    (hturn : Turn q objects label next objects') : Progress start r next objects' := by
  obtain ⟨rest, extra, hround, hlog, hcalls, hrest⟩ := hprogress
  -- a timer of the batch stays there until the round ends
  have hstays : ∀ it ∈ rest, ∃ t, objects' it.timer = some ⟨.batch, t⟩ ∧
      start.idOf it = ⟨it.timer, t.sequence⟩ := by
    intro it hit
    obtain ⟨t, ht, hid⟩ := hrest it hit
    have hfate : Fate q ⟨it.timer, t.sequence⟩ t .batch label (objects' it.timer) :=
      hturn.fate hinv ht rfl
    generalize hafter : objects' it.timer = after at hfate
    cases hfate with
    | stays => exact ⟨t, rfl, hid⟩
    | settles => exact absurd rfl (hlabel _)
  cases hturn.pace hround with
  | waits _ hround' hquiet _ _ =>
      obtain ⟨more, hmore, hnone⟩ := callbacks_of_quiet hquiet
      refine ⟨rest, extra ++ more, hround', ?_, ?_, hstays⟩
      · rw [hmore, hlog, List.append_assoc]
      · rw [List.filterMap_append, hnone, List.append_nil, hcalls]
  | @calls it later t hhead hobject hround' hlog' _ _ =>
      obtain rfl : rest = it :: later := hhead
      obtain ⟨u, hu, hid⟩ := hrest it List.mem_cons_self
      rw [hobject, Option.some.injEq, Owned.mk.injEq] at hu
      obtain ⟨-, rfl⟩ := hu
      refine ⟨later, extra ++ [.ran r.number ⟨it.timer, t.sequence⟩], hround', ?_, ?_,
        fun other hother => hstays other (List.mem_cons_of_mem _ hother)⟩
      · rw [hlog', hlog, List.append_assoc]
      · rw [List.filterMap_append, ← hcalls, List.map_cons, hid, List.append_assoc]
        rfl
  | ends => exact absurd rfl (hlabel _)

/-- What has been called when the round ends is the batch. -/
theorem callbacks_finish {start : TimerSystem} {r : Round} {clock : Timestamp}
    (hprogress : Progress start r q objects)
    (hturn : Turn q objects (.finish clock) next objects') :
    ∃ extra, next.log = start.log ++ extra ∧
      extra.filterMap TimerEvent.callback? = r.expired.map start.idOf := by
  obtain ⟨rest, extra, hround, hlog, hcalls, -⟩ := hprogress
  cases hturn.pace hround with
  | waits hlabel => exact absurd rfl (hlabel _)
  | ends hnil hquiet =>
      obtain rfl : rest = [] := hnil
      obtain ⟨more, hmore, hnone⟩ := callbacks_of_quiet hquiet
      refine ⟨extra ++ more, by rw [hmore, hlog, List.append_assoc], ?_⟩
      rw [List.filterMap_append, hnone, ← hcalls]
      rfl

/-- A round calls the timers that had expired when it began, in order. -/
theorem round_callbacks {labels : List TimerLabel} {clock : Timestamp} (hinv : Inv q objects)
    (hlabels : ∀ label ∈ labels, ∀ clock, label ≠ .finish clock)
    (hrun : Execution.run step q (.handleRead now :: labels ++ [.finish clock]) = .ok next) :
    ∃ extra, next.log = q.log ++ extra ∧ extra.filterMap TimerEvent.callback? = q.due now := by
  obtain ⟨opened, hopened, hrest⟩ := run_cons_ok.mp hrun
  obtain ⟨last, hmiddle, hlast⟩ := run_append_ok.mp hrest
  rw [run_singleton_ok] at hlast
  obtain ⟨objects₁, hturn, hinv₁⟩ := step_turn hinv hopened
  have hround : q.round = none := by
    cases hturn with
    | handleRead hround _ => exact hround
  obtain ⟨activeTimers, heq⟩ := hinv.represents.coherent.step_handleRead hround now
  obtain rfl := Except.ok.inj (heq.symm.trans hopened)
  obtain ⟨objects₂, hinv₂, hprogress⟩ := run_turns (fun label => ∀ clock, label ≠ .finish clock) _
    (fun _ _ _ _ _ hstate hholds hlabel hmove _ => progress_turn hstate hholds hlabel hmove)
    hinv₁ (progress_opened hinv₁) hlabels hmiddle
  obtain ⟨objects₃, hfinish, -⟩ := step_turn hinv₂ hlast
  exact callbacks_finish hprogress hfinish

/-- **`getExpired` splits the timers exactly at the present time.** In every state whose two sets agree it
passes its assertions, returns the timers that have expired, each once and in the order of their
expirations, takes just these out of both sets, and leaves the sets in agreement. The sets agree in every
state that is reached, `handleRead` can be called there, and its round calls just the timers that have
expired when it begins, each once and in that order. -/
theorem getExpired_exact :
    (∀ q now, Coherent q →
      ∃ expired next, q.getExpired now = .ok (expired, next) ∧ Split q now expired next) ∧
    ∀ before q, Execution.run step {} before = .ok q → Coherent q ∧
      (q.round = none → ∀ now, ∃ next, q.step (.handleRead now) = .ok next) ∧
      ∀ now labels clock final, (∀ label ∈ labels, ∀ clock, label ≠ .finish clock) →
        Execution.run step q (.handleRead now :: labels ++ [.finish clock]) = .ok final →
        ∃ extra, final.log = q.log ++ extra ∧
          (extra.filterMap TimerEvent.callback?).Nodup ∧
          (∀ id, id ∈ extra.filterMap TimerEvent.callback? ↔
            id ∈ q.activeTimers ∧ ∃ t, q.heap id.timer = some t ∧ t.expiration ≤ now) ∧
          (extra.filterMap TimerEvent.callback?).Pairwise fun id other => ∀ t u,
            q.heap id.timer = some t → q.heap other.timer = some u → t.expiration ≤ u.expiration := by
  refine ⟨fun q now hq => hq.getExpired_split now, fun before q hrun => ?_⟩
  obtain ⟨objects, hinv⟩ := inv_of_run hrun
  have hq := hinv.represents.coherent
  refine ⟨hq, fun hround now => ?_, fun now labels clock final hlabels hround => ?_⟩
  · obtain ⟨_, heq⟩ := hq.step_handleRead hround now
    exact ⟨_, heq⟩
  · obtain ⟨extra, hlog, hcalls⟩ := round_callbacks hinv hlabels hround
    refine ⟨extra, hlog, ?_⟩
    rw [hcalls]
    exact ⟨hq.due_nodup now, hq.mem_due, hq.due_ordered now⟩

/-- Two timers that expire together, in a queue with a later one. -/
def ties : List TimerLabel :=
  [.newTimer 5 100 .never, .newTimer 3 100 .never, .newTimer 4 101 .never, .addTimerInLoop ⟨5, 1⟩ 50,
    .addTimerInLoop ⟨3, 2⟩ 50, .addTimerInLoop ⟨4, 3⟩ 50, .fire]

/-- At their expiration both are called, and the later one is not, although the first callback cancels
the second timer. -/
theorem getExpired_exact_ties :
    ∃ q final extra, Execution.run step {} ties = .ok q ∧
      (∃ expired next, q.getExpired 100 = .ok (expired, next) ∧ Split q 100 expired next) ∧
      Execution.run step q (.handleRead 100 :: [.run, .cancelInLoop ⟨5, 1⟩, .run] ++ [.finish 102]) =
        .ok final ∧
      final.log = q.log ++ extra ∧ (extra.filterMap TimerEvent.callback?).Nodup ∧
      ∀ id, id ∈ extra.filterMap TimerEvent.callback? ↔
        id ∈ q.activeTimers ∧ ∃ t, q.heap id.timer = some t ∧ t.expiration ≤ 100 := by
  obtain ⟨final, hrun, -⟩ := exists_of_outcome step {}
    (ties ++ (.handleRead 100 :: [.run, .cancelInLoop ⟨5, 1⟩, .run] ++ [.finish 102]))
    (fun _ => true) (by decide +kernel)
  obtain ⟨q, hbefore, hround⟩ := run_append_ok.mp hrun
  obtain ⟨hsplit, hreached⟩ := getExpired_exact
  obtain ⟨hq, -, hcalls⟩ := hreached ties q hbefore
  obtain ⟨extra, hlog, hnodup, hmem, -⟩ :=
    hcalls 100 [.run, .cancelInLoop ⟨5, 1⟩, .run] 102 final (by simp) hround
  exact ⟨q, final, extra, hbefore, hsplit q 100 hq, hround, hlog, hnodup, hmem⟩

end TimerSystem
end Muduo
