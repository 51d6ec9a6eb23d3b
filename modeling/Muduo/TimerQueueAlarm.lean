import Muduo.TimerQueueRuns

/-! The alarm clock of the timer queue. The timerfd is set when a timer becomes the first one and at
the end of `handleRead`, and at no other time; it is set early enough for every timer of the queue all
the same. -/

namespace Muduo

/-! ## The relative time -/

/-- The time that is left, but no less than 100 microseconds, in the two parts of a `timespec`. -/
theorem howMuchTimeFromNow_spec (now expiration : Int) :
    0 ≤ (howMuchTimeFromNow now expiration).tv_sec ∧
    0 ≤ (howMuchTimeFromNow now expiration).tv_nsec ∧
    (howMuchTimeFromNow now expiration).tv_nsec < 1000000000 ∧
    (howMuchTimeFromNow now expiration).tv_sec * 1000000000 +
      (howMuchTimeFromNow now expiration).tv_nsec = max 100 (expiration - now) * 1000 := by
  have hclamp : (if expiration - now < 100 then 100 else expiration - now) =
      max 100 (expiration - now) := by
    split
    · omega
    · omega
  have hnonneg : 0 ≤ max 100 (expiration - now) := by omega
  simp only [howMuchTimeFromNow, hclamp, Timestamp.kMicroSecondsPerSecond]
  rw [Int.tdiv_eq_ediv_of_nonneg hnonneg, Int.tmod_eq_emod_of_nonneg hnonneg]
  omega

/-- So the kernel's timer is always armed. -/
theorem timerfd_settime_arms (timerfd : Timerfd) (now expiration : Timestamp) :
    timerfd_settime timerfd (howMuchTimeFromNow now expiration) expiration = .armed expiration := by
  obtain ⟨hsec, hnsec, hbound, htotal⟩ := howMuchTimeFromNow_spec now expiration
  rw [timerfd_settime, if_neg (by omega), if_neg (by omega)]

theorem Objects.in_settle_queue {objects : Objects} {canceling : OrderedSet ActiveTimer}
    {now : Timestamp} {address : Nat} {condition : Timer → Prop}
    (hin : Objects.In (objects.settle canceling now) .queue address condition) :
    objects.In .queue address condition ∨
      ∃ t : Timer, t.repeats = true ∧ condition (t.restart now) := by
  obtain ⟨t, hafter, hcondition⟩ := hin
  unfold settle at hafter
  cases hobject : objects address with
  | none => simp [hobject] at hafter
  | some owned =>
      obtain ⟨place, u⟩ := owned
      rw [hobject] at hafter
      cases place with
      | functor => cases hafter
      | queue =>
          cases hafter
          exact .inl ⟨t, hobject, hcondition⟩
      | batch =>
          simp only at hafter
          split at hafter
          · rename_i hagain
            rw [Bool.and_eq_true] at hagain
            cases hafter
            exact .inr ⟨u, hagain.1, hcondition⟩
          · cases hafter

namespace TimerSystem

open Execution

variable {q next : TimerSystem} {objects objects' : Objects} {label : TimerLabel}

/-- The timerfd has fired, or it will no later than at this time: the last call of `resetTimerfd` was
made since, and for a time that is not later. -/
def Alarmed (q : TimerSystem) (expiration : Timestamp) : Prop :=
  q.timerfd = .fired ∨ ∃ setting, q.settings.getLast? = some setting ∧
    q.timerfd = .armed setting.expiration ∧ setting.expiration ≤ expiration

theorem Alarmed.mono {earlier later : Timestamp} (halarmed : q.Alarmed earlier)
    (hle : earlier ≤ later) : q.Alarmed later := by
  rcases halarmed with hfired | ⟨setting, hlast, harmed, hsetting⟩
  · exact .inl hfired
  · exact .inr ⟨setting, hlast, harmed, le_trans hsetting hle⟩

theorem alarmed_resetTimerfd (q : TimerSystem) (now : Timestamp) {expiration later : Timestamp}
    (hle : expiration ≤ later) : (q.resetTimerfd now expiration).Alarmed later := by
  refine .inr ⟨_, List.getLast?_concat .., ?_, hle⟩
  exact timerfd_settime_arms _ _ _

/-- Between two calls of `handleRead` there is an alarm for every timer. While the callbacks are run
there is one for every timer whose expiration is not valid, since the end of `reset` passes over
those. -/
structure AlarmInv (q : TimerSystem) : Prop where
  alarmed : ∀ it ∈ q.timers, (q.round = none ∨ it.expiration ≤ 0) → q.Alarmed it.expiration
  settings : ∀ setting ∈ q.settings,
    setting.value = howMuchTimeFromNow setting.now setting.expiration
  now : ∀ r, q.round = some r → 0 < r.now

theorem alarmInv_initial : AlarmInv {} where
  alarmed it hit := absurd hit (OrderedSet.not_mem_empty it)
  settings := nofun
  now := nofun

/-- The queue after one object has changed. -/
theorem mem_timers_of_update (hinv : Inv q objects) {address : Nat} {owned : Option Owned}
    (hnext : Inv next (Function.update objects address owned)) {it : Entry} (hit : it ∈ next.timers) :
    it ∈ q.timers ∨ ∃ t, owned = some ⟨.queue, t⟩ ∧ t.expiration = it.expiration := by
  have hin := (hnext.represents.timers it).mp hit
  rw [Objects.in_update] at hin
  rcases hin with ⟨-, hnew⟩ | ⟨-, hold⟩
  · exact .inr hnew
  · exact .inl ((hinv.represents.timers it).mpr hold)

theorem AlarmInv.resetTimerfd (hsettings : ∀ setting ∈ q.settings,
      setting.value = howMuchTimeFromNow setting.now setting.expiration)
    (hnow : ∀ r, q.round = some r → 0 < r.now) (clock : Timestamp) {expiration : Timestamp}
    (hfirst : ∀ it ∈ q.timers, expiration ≤ it.expiration) :
    AlarmInv (q.resetTimerfd clock expiration) where
  alarmed it hit _ := alarmed_resetTimerfd q clock (hfirst it hit)
  settings setting hsetting := by
    rcases List.mem_append.mp hsetting with hold | hnew
    · exact hsettings setting hold
    · rw [List.mem_singleton.mp hnew]
  now := hnow

theorem AlarmInv.addTimerInLoop (halarm : AlarmInv q) (hinv : Inv q objects) {id : TimerId}
    {clock : Timestamp} {t : Timer} {timers : OrderedSet Entry}
    {activeTimers : OrderedSet ActiveTimer}
    (hnext : Inv
      (if q.isEarliest t.expiration then
        (q.entered id timers activeTimers).resetTimerfd clock t.expiration
      else q.entered id timers activeTimers)
      (Function.update objects id.timer (some ⟨.queue, t⟩))) :
    AlarmInv
      (if q.isEarliest t.expiration then
        (q.entered id timers activeTimers).resetTimerfd clock t.expiration
      else q.entered id timers activeTimers) := by
  by_cases hearliest : q.isEarliest t.expiration = true
  · rw [if_pos hearliest] at hnext ⊢
    refine AlarmInv.resetTimerfd (q := q.entered id timers activeTimers) halarm.settings halarm.now
      clock ?_
    intro it hit
    rcases mem_timers_of_update hinv hnext hit with hold | ⟨u, hu, hexpiration⟩
    · exact le_of_lt ((isEarliest_iff _).mp hearliest it hold)
    · cases hu
      exact le_of_eq hexpiration
  · rw [if_neg hearliest] at hnext ⊢
    refine ⟨?_, halarm.settings, halarm.now⟩
    intro it hit hwhen
    rcases mem_timers_of_update hinv hnext hit with hold | ⟨u, hu, hexpiration⟩
    · exact halarm.alarmed it hold hwhen
    · -- some timer of the queue is not later than the new one, and the alarm for it will do
      cases hu
      rw [isEarliest_iff] at hearliest
      push Not at hearliest
      obtain ⟨other, hother, hle⟩ := hearliest
      rw [hexpiration] at hle
      exact (halarm.alarmed other hother (hwhen.imp_right (le_trans hle))).mono hle

theorem AlarmInv.finish (halarm : AlarmInv q) (hinv : Inv q objects) {r : Round}
    {clock : Timestamp} {heap : Nat → Option Timer} {timers : OrderedSet Entry}
    {activeTimers : OrderedSet ActiveTimer} {log : List TimerEvent} (hround : q.round = some r)
    (hnext : Inv (q.closed clock heap timers activeTimers log)
      (objects.settle q.cancelingTimers r.now)) :
    AlarmInv (q.closed clock heap timers activeTimers log) := by
  -- no round is open
  have hnow : ∀ other : Round, none = some other → 0 < other.now := fun _ h => absurd h (Option.some_ne_none _).symm
  have htimers := closed_timers q clock heap timers activeTimers log
  -- what has been restarted expires after the round began, so it has a valid expiration
  have hinvalid : ∀ it ∈ timers, it.expiration ≤ 0 → it ∈ q.timers := by
    intro it hit hle
    have hin := (hnext.represents.timers it).mp (by rwa [htimers])
    rcases Objects.in_settle_queue hin with hold | ⟨t, hrepeats, hexpiration⟩
    · exact (hinv.represents.timers it).mpr hold
    · have hpositive := halarm.now r hround
      have hinterval := t.interval.nonneg hrepeats
      rw [Timer.restart, if_pos hrepeats] at hexpiration
      simp only [addTime] at hexpiration
      rw [← hexpiration] at hle
      exact absurd hle (not_le.mpr (lt_of_lt_of_le hpositive (Int.le_add_of_nonneg_right hinterval)))
  cases hfirst : timers.first with
  | none =>
      refine ⟨?_, ?_, hnow⟩
      · intro it hit
        exact absurd (htimers ▸ hit) (OrderedSet.first_eq_none.mp hfirst it)
      · simp only [closed, rearmed, settled, hfirst]
        exact halarm.settings
  | some head =>
      have hleast : ∀ it ∈ timers, head.expiration ≤ it.expiration := fun it hit =>
        Entry.expiration_le (OrderedSet.first_le hfirst hit)
      by_cases hvalid : Timestamp.valid head.expiration = true
      · simp only [closed, rearmed, settled, hfirst, hvalid, if_true]
        have hset := AlarmInv.resetTimerfd
          (q := { q.settled heap timers activeTimers log with callingExpiredTimers := false, round := none })
          halarm.settings hnow clock hleast
        exact ⟨hset.alarmed, hset.settings, hnow⟩
      · have hle : head.expiration ≤ 0 := by simpa [Timestamp.valid] using hvalid
        have halarmed := halarm.alarmed head (hinvalid head (OrderedSet.first_mem hfirst) hle) (.inr hle)
        simp only [closed, rearmed, settled, hfirst, hvalid]
        exact ⟨fun it hit _ => halarmed.mono (hleast it hit), halarm.settings, hnow⟩

theorem AlarmInv.step (halarm : AlarmInv q) (hinv : Inv q objects)
    (hclock : ∀ now, label = .handleRead now → 0 < now)
    (hturn : Turn q objects label next objects') (hnext : Inv next objects') : AlarmInv next := by
  cases hturn with
  | newTimer hfree => exact ⟨halarm.alarmed, halarm.settings, halarm.now⟩
  | addTimerInLoop hobject hsequence => exact halarm.addTimerInLoop hinv hnext
  | cancelQueued hobject hsequence =>
      refine ⟨?_, halarm.settings, halarm.now⟩
      intro it hit
      rcases mem_timers_of_update hinv hnext hit with hold | ⟨t, ht, -⟩
      · exact halarm.alarmed it hold
      · cases ht
  | cancelElsewhere hactive =>
      split
      · exact ⟨halarm.alarmed, halarm.settings, halarm.now⟩
      · exact halarm
  | @handleRead now expired timers activeTimers hround htimers =>
      have hpositive := hclock now rfl
      refine ⟨?_, halarm.settings, ?_⟩
      · rintro it hit (hnone | hle)
        · cases hnone
        · have hlater := ((htimers it).mp hit).2
          exact absurd (hpositive.trans hlater) (not_lt.mpr hle)
      · rintro r ⟨rfl⟩
        exact hpositive
  | @run r _ _ _ hround hrest hobject =>
      refine ⟨?_, halarm.settings, ?_⟩
      · rintro it hit (hnone | hle)
        · cases hnone
        · exact halarm.alarmed it hit (.inr hle)
      · rintro _ ⟨rfl⟩
        exact halarm.now r hround
  | finish hround hrest hquiet => exact halarm.finish hinv hround hnext
  | fire harmed => exact ⟨fun _ _ _ => .inl rfl, halarm.settings, halarm.now⟩

/-- **No stranded timer.** Outside `handleRead`, for every timer of the queue the timerfd has fired and
has not been read, or it is armed by the last call of `resetTimerfd`, for a time that is not later;
and every value it is ever set to is a proper positive time, namely what is left until the
expiration but at least 100 microseconds. The clock may show any positive time. -/
theorem no_stranded_timer (labels : List TimerLabel) (q : TimerSystem)
    (hclock : ∀ now, .handleRead now ∈ labels → 0 < now)
    (hrun : Execution.run step {} labels = .ok q) :
    (q.round = none → ∀ it ∈ q.timers, q.Alarmed it.expiration) ∧
    ∀ setting ∈ q.settings,
      0 ≤ setting.value.tv_sec ∧ 0 ≤ setting.value.tv_nsec ∧ setting.value.tv_nsec < 1000000000 ∧
      (0 < setting.value.tv_sec ∨ 0 < setting.value.tv_nsec) ∧
      setting.value.tv_sec * 1000000000 + setting.value.tv_nsec =
        max 100 (setting.expiration - setting.now) * 1000 := by
  obtain ⟨-, -, halarm⟩ := run_turns (fun label => ∀ now, label = .handleRead now → 0 < now)
    (fun state _ => AlarmInv state)
    (fun _ _ _ _ _ hinv hholds hlabel hturn hnext => hholds.step hinv hlabel hturn hnext)
    inv_initial alarmInv_initial
    (fun label hlabel now heq => hclock now (heq ▸ hlabel)) hrun
  refine ⟨fun hround it hit => halarm.alarmed it hit (.inl hround), ?_⟩
  intro setting hsetting
  rw [halarm.settings setting hsetting]
  obtain ⟨hsec, hnsec, hbound, htotal⟩ := howMuchTimeFromNow_spec setting.now setting.expiration
  exact ⟨hsec, hnsec, hbound, by omega, htotal⟩

/-- A callback adds a timer without a valid expiration, and the repeating timer that runs it is put
back behind it: `reset` does not set the timerfd. -/
def invalidExpiration : List TimerLabel :=
  [.newTimer 1 10 (.every 1000000), .addTimerInLoop ⟨1, 1⟩ 1, .fire, .handleRead 20, .run,
    .newTimer 2 0 .never, .addTimerInLoop ⟨2, 2⟩ 15, .finish 30]

theorem no_stranded_timer_invalidExpiration :
    ∃ q, Execution.run step {} invalidExpiration = .ok q ∧ ⟨0, 2⟩ ∈ q.timers ∧
      ⟨1000020, 1⟩ ∈ q.timers ∧ q.settings.length = 2 ∧ q.Alarmed 0 := by
  obtain ⟨q, hrun, hcheck⟩ := exists_of_outcome step {} invalidExpiration
    (fun q => q.round == none && decide (⟨0, 2⟩ ∈ q.timers) && decide (⟨1000020, 1⟩ ∈ q.timers) &&
      q.settings.length == 2) (by decide +kernel)
  simp only [Bool.and_eq_true, decide_eq_true_eq, beq_iff_eq] at hcheck
  obtain ⟨⟨⟨hround, hfirst⟩, hsecond⟩, hcalls⟩ := hcheck
  have hclock : ∀ now, .handleRead now ∈ invalidExpiration → 0 < now := by
    intro now hnow
    simp only [invalidExpiration, List.mem_cons, reduceCtorEq, TimerLabel.handleRead.injEq,
      List.not_mem_nil, or_false, false_or] at hnow
    rw [hnow]
    decide
  exact ⟨q, hrun, hfirst, hsecond, hcalls,
    (no_stranded_timer invalidExpiration q hclock hrun).1 hround ⟨0, 2⟩ hfirst⟩

end TimerSystem
end Muduo
