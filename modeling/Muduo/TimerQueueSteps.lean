import Muduo.TimerQueueOwnership

/-! Every step of the timer queue is a step of the objects it owns, and no assertion fails and no
pointer dangles on the way. What happens to an object is recorded, and nothing happens to it after it
has been deleted. -/

namespace Muduo

/-! ## The record -/

/-- The record agrees with the objects that exist. -/
structure Recorded (log : List TimerEvent) (numCreated : Nat) (objects : Objects) : Prop where
  bounded : ∀ event ∈ log, event.id.sequence ≤ numCreated
  known : ∀ event ∈ log, .created event.id ∈ log
  live : ∀ id, objects.Live id → .created id ∈ log
  created : ∀ id, .created id ∈ log → objects.Live id ∨ .deleted id ∈ log
  deleted : ∀ id, .deleted id ∈ log → ¬objects.Live id
  /-- A deletion is the last thing that happens to an object. -/
  final : log.Pairwise fun earlier later => ∀ id, earlier = .deleted id → later.id ≠ id
  inserted : ∀ id, .inserted id ∈ log →
    ¬objects.In .functor id.timer (·.sequence = id.sequence)
  waiting : ∀ id, .created id ∈ log → ¬objects.In .functor id.timer (·.sequence = id.sequence) →
    .inserted id ∈ log

/-- An object that is put elsewhere with the same sequence number is the same object. -/
theorem Objects.live_update {objects : Objects} {address : Nat} {owned owned' : Owned}
    (hobject : objects address = some owned)
    (hsequence : owned'.timer.sequence = owned.timer.sequence) (id : TimerId) :
    Objects.Live (Function.update objects address (some owned')) id ↔ objects.Live id := by
  unfold Objects.Live
  by_cases hsame : id.timer = address
  · rw [hsame, Function.update_self, hobject]
    simp [hsequence]
  · rw [Function.update_of_ne hsame]

namespace Recorded

variable {log : List TimerEvent} {numCreated : Nat} {objects objects' : Objects}

theorem initial : Recorded [] 0 fun _ => none where
  bounded := nofun
  known := nofun
  live := by simp [Objects.Live]
  created := nofun
  deleted := nofun
  final := List.Pairwise.nil
  inserted := nofun
  waiting := nofun

theorem mem_of_append {event other : TimerEvent} (h : event ∈ log ++ [other]) (hne : other ≠ event) :
    event ∈ log := by
  rw [List.mem_append, List.mem_singleton] at h
  exact h.resolve_right fun heq => hne heq.symm

theorem final_append (hrecorded : Recorded log numCreated objects) {event : TimerEvent}
    (halive : TimerEvent.deleted event.id ∉ log) :
    (log ++ [event]).Pairwise fun earlier later => ∀ id, earlier = .deleted id → later.id ≠ id := by
  rw [List.pairwise_append]
  refine ⟨hrecorded.final, List.pairwise_singleton _ _, ?_⟩
  rintro earlier hearlier later hlater id rfl hsame
  rw [List.mem_singleton.mp hlater] at hsame
  exact halive (hsame ▸ hearlier)

theorem bounded_append (hrecorded : Recorded log numCreated objects) {event : TimerEvent}
    (hlive : objects.Live event.id) : ∀ e ∈ log ++ [event], e.id.sequence ≤ numCreated := by
  intro e he
  rw [List.mem_append, List.mem_singleton] at he
  rcases he with hold | rfl
  · exact hrecorded.bounded e hold
  · exact hrecorded.bounded (.created _) (hrecorded.live _ hlive)

theorem known_append (hrecorded : Recorded log numCreated objects) {event : TimerEvent}
    (hlive : objects.Live event.id) : ∀ e ∈ log ++ [event], .created e.id ∈ log ++ [event] := by
  intro e he
  rw [List.mem_append, List.mem_singleton] at he
  rcases he with hold | rfl
  · exact List.mem_append_left _ (hrecorded.known e hold)
  · exact List.mem_append_left _ (hrecorded.live _ hlive)

/-- Objects that are moved between the queue and the batch. -/
theorem moved (hrecorded : Recorded log numCreated objects)
    (hlive : ∀ id, objects'.Live id ↔ objects.Live id)
    (hfunctor : ∀ address condition, objects'.In .functor address condition ↔
      objects.In .functor address condition) : Recorded log numCreated objects' where
  bounded := hrecorded.bounded
  known := hrecorded.known
  live id h := hrecorded.live id ((hlive id).mp h)
  created id h := (hrecorded.created id h).imp_left (hlive id).mpr
  deleted id h := fun halive => hrecorded.deleted id h ((hlive id).mp halive)
  final := hrecorded.final
  inserted id h := fun hin => hrecorded.inserted id h ((hfunctor _ _).mp hin)
  waiting id h hout := hrecorded.waiting id h fun hin => hout ((hfunctor _ _).mpr hin)

/-- An object that is run or restarted. -/
theorem append (hrecorded : Recorded log numCreated objects) {event : TimerEvent}
    (hlive : objects.Live event.id) (hcreated : ∀ id, event ≠ .created id)
    (hdeleted : ∀ id, event ≠ .deleted id) (hinserted : ∀ id, event ≠ .inserted id) :
    Recorded (log ++ [event]) numCreated objects where
  bounded := hrecorded.bounded_append hlive
  known := hrecorded.known_append hlive
  live id h := List.mem_append_left _ (hrecorded.live id h)
  created id h := by
    have hold := mem_of_append h (hcreated id)
    exact (hrecorded.created id hold).imp_right fun h => List.mem_append_left _ h
  deleted id h := hrecorded.deleted id (mem_of_append h (hdeleted id))
  final := hrecorded.final_append fun h => hrecorded.deleted _ h hlive
  inserted id h := hrecorded.inserted id (mem_of_append h (hinserted id))
  waiting id h hout :=
    List.mem_append_left _ (hrecorded.waiting id (mem_of_append h (hcreated id)) hout)

/-- An object that is put into the queue. -/
theorem enter (hrecorded : Recorded log numCreated objects) {address : Nat} {owned : Owned}
    {t : Timer} (hobject : objects address = some owned)
    (hsequence : t.sequence = owned.timer.sequence) :
    Recorded (log ++ [.inserted ⟨address, t.sequence⟩]) numCreated
      (Function.update objects address (some ⟨.queue, t⟩)) := by
  have halive : objects.Live ⟨address, t.sequence⟩ := ⟨owned, hobject, hsequence.symm⟩
  have hlive : ∀ id, Objects.Live (Function.update objects address (some ⟨.queue, t⟩)) id ↔
      objects.Live id := Objects.live_update hobject hsequence
  have hfunctor : ∀ {other : Nat} {condition : Timer → Prop},
      (Objects.In (Function.update objects address (some ⟨.queue, t⟩)) .functor other condition ↔
        other ≠ address ∧ objects.In .functor other condition) := by
    intro other condition
    rw [Objects.in_update]
    simp
  refine ⟨hrecorded.bounded_append halive, hrecorded.known_append halive, ?_, ?_, ?_, ?_, ?_, ?_⟩
  · exact fun id h => List.mem_append_left _ (hrecorded.live id ((hlive id).mp h))
  · intro id h
    have hold := mem_of_append h nofun
    exact (hrecorded.created id hold).imp (hlive id).mpr fun h => List.mem_append_left _ h
  · intro id h hafter
    exact hrecorded.deleted id (mem_of_append h nofun) ((hlive id).mp hafter)
  · exact hrecorded.final_append fun h => hrecorded.deleted _ h halive
  · intro id h
    rw [hfunctor]
    rintro ⟨hne, hin⟩
    rw [List.mem_append, List.mem_singleton] at h
    rcases h with hold | hnew
    · exact hrecorded.inserted id hold hin
    · exact hne (congrArg TimerId.timer (TimerEvent.inserted.inj hnew))
  · intro id h hout
    have hold := mem_of_append h nofun
    rw [hfunctor] at hout
    rw [List.mem_append, List.mem_singleton]
    by_cases hin : objects.In .functor id.timer (·.sequence = id.sequence)
    · -- the functor had this object, so it is the one that is put into the queue
      have hsame : id.timer = address := not_not.mp fun hne => hout ⟨hne, hin⟩
      obtain ⟨u, hu, huSequence⟩ := hin
      rw [hsame, hobject, Option.some.injEq] at hu
      right
      cases id
      simp_all
    · exact .inl (hrecorded.waiting id hold hin)

/-- A new object gets a sequence number that has not been used. -/
theorem create (hrecorded : Recorded log numCreated objects) {address : Nat} {t : Timer}
    (hfree : objects address = none) (hsequence : t.sequence = numCreated + 1) :
    Recorded (log ++ [.created ⟨address, t.sequence⟩]) (numCreated + 1)
      (Function.update objects address (some ⟨.functor, t⟩)) := by
  have hlive : ∀ id, Objects.Live (Function.update objects address (some ⟨.functor, t⟩)) id ↔
      id = ⟨address, t.sequence⟩ ∨ objects.Live id := by
    intro id
    unfold Objects.Live
    by_cases hsame : id.timer = address
    · rw [hsame, Function.update_self, hfree]
      cases id
      simp_all [eq_comm]
    · rw [Function.update_of_ne hsame]
      constructor
      · exact .inr
      · rintro (rfl | h)
        · exact absurd rfl hsame
        · exact h
  have hfresh : ∀ event ∈ log, event.id ≠ ⟨address, t.sequence⟩ := by
    intro event hevent hid
    have hbound := hrecorded.bounded event hevent
    rw [hid] at hbound
    simp only [hsequence] at hbound
    omega
  refine ⟨?_, ?_, ?_, ?_, ?_, ?_, ?_, ?_⟩
  · intro event hevent
    rw [List.mem_append, List.mem_singleton] at hevent
    rcases hevent with hold | rfl
    · exact Nat.le_succ_of_le (hrecorded.bounded event hold)
    · exact Nat.le_of_eq hsequence
  · intro event hevent
    rw [List.mem_append, List.mem_singleton] at hevent
    rcases hevent with hold | rfl
    · exact List.mem_append_left _ (hrecorded.known event hold)
    · exact List.mem_append_right _ (List.mem_singleton.mpr rfl)
  · intro id h
    rcases (hlive id).mp h with rfl | hold
    · exact List.mem_append_right _ (List.mem_singleton.mpr rfl)
    · exact List.mem_append_left _ (hrecorded.live id hold)
  · intro id h
    rw [List.mem_append, List.mem_singleton] at h
    rcases h with hold | hnew
    · rcases hrecorded.created id hold with halive | hgone
      · exact .inl ((hlive id).mpr (.inr halive))
      · exact .inr (List.mem_append_left _ hgone)
    · exact .inl ((hlive id).mpr (.inl (TimerEvent.created.inj hnew)))
  · intro id h
    rw [List.mem_append, List.mem_singleton] at h
    rcases h with hold | hnew
    · intro halive
      rcases (hlive id).mp halive with rfl | hbefore
      · exact hfresh _ hold rfl
      · exact hrecorded.deleted id hold hbefore
    · cases hnew
  · exact hrecorded.final_append fun h => hfresh _ h rfl
  · intro id h
    rw [List.mem_append, List.mem_singleton] at h
    rcases h with hold | hnew
    · rw [Objects.in_update]
      rintro (⟨hsame, u, hu, hid⟩ | ⟨-, hin⟩)
      · refine hfresh _ hold ?_
        obtain rfl : t = u := congrArg Owned.timer (Option.some.inj hu)
        show id = _
        cases id
        simp_all
      · exact hrecorded.inserted id hold hin
    · cases hnew
  · intro id h hout
    rw [List.mem_append, List.mem_singleton] at h
    rcases h with hold | hnew
    · refine List.mem_append_left _ (hrecorded.waiting id hold fun hin => hout ?_)
      rw [Objects.in_update]
      refine .inr ⟨?_, hin⟩
      rintro hsame
      obtain ⟨u, hu, -⟩ := hin
      rw [hsame, hfree] at hu
      cases hu
    · refine absurd ?_ hout
      rw [TimerEvent.created.inj hnew, Objects.in_update]
      exact .inl ⟨rfl, t, rfl, rfl⟩

/-- The deletion of an object that has been put into the queue. -/
theorem discard (hrecorded : Recorded log numCreated objects) {address : Nat} {owned : Owned}
    (hobject : objects address = some owned) (hplace : owned.place ≠ .functor) :
    Recorded (log ++ [.deleted ⟨address, owned.timer.sequence⟩]) numCreated
      (Function.update objects address none) := by
  have halive : objects.Live ⟨address, owned.timer.sequence⟩ := ⟨owned, hobject, rfl⟩
  have hlive : ∀ id, Objects.Live (Function.update objects address none) id ↔
      id ≠ ⟨address, owned.timer.sequence⟩ ∧ objects.Live id := by
    intro id
    unfold Objects.Live
    by_cases hsame : id.timer = address
    · rw [hsame, Function.update_self, hobject]
      cases id
      simp_all [eq_comm]
    · rw [Function.update_of_ne hsame]
      refine ⟨fun h => ⟨?_, h⟩, fun h => h.2⟩
      rintro rfl
      exact hsame rfl
  refine ⟨hrecorded.bounded_append halive, hrecorded.known_append halive, ?_, ?_, ?_, ?_, ?_, ?_⟩
  · exact fun id h => List.mem_append_left _ (hrecorded.live id ((hlive id).mp h).2)
  · intro id h
    rw [List.mem_append, List.mem_singleton] at h
    rcases h with hold | hnew
    · by_cases hsame : id = ⟨address, owned.timer.sequence⟩
      · exact .inr (hsame ▸ List.mem_append_right _ (List.mem_singleton.mpr rfl))
      · rcases hrecorded.created id hold with hbefore | hgone
        · exact .inl ((hlive id).mpr ⟨hsame, hbefore⟩)
        · exact .inr (List.mem_append_left _ hgone)
    · cases hnew
  · intro id h hafter
    obtain ⟨hne, hbefore⟩ := (hlive id).mp hafter
    rw [List.mem_append, List.mem_singleton] at h
    rcases h with hold | hnew
    · exact hrecorded.deleted id hold hbefore
    · exact hne (TimerEvent.deleted.inj hnew)
  · exact hrecorded.final_append fun h => hrecorded.deleted _ h halive
  · intro id h
    rw [List.mem_append, List.mem_singleton] at h
    rcases h with hold | hnew
    · rw [Objects.in_update]
      rintro (⟨-, u, hu, -⟩ | ⟨-, hin⟩)
      · cases hu
      · exact hrecorded.inserted id hold hin
    · cases hnew
  · intro id h hout
    have hold := mem_of_append h nofun
    refine List.mem_append_left _ (hrecorded.waiting id hold fun hin => hout ?_)
    rw [Objects.in_update]
    refine .inr ⟨?_, hin⟩
    rintro rfl
    exact TimerSystem.Represents.not_in .functor hobject hplace hin

end Recorded

/-- What is in one place is not at the address of an object in another. -/
theorem Objects.in_elsewhere (place : Place) {objects : Objects} {address : Nat} {owned : Owned}
    (hobject : objects address = some owned) (hplace : owned.place ≠ place) {other : Nat}
    {condition : Timer → Prop} :
    objects.In place other condition ↔ other ≠ address ∧ objects.In place other condition := by
  refine ⟨fun hin => ⟨?_, hin⟩, fun h => h.2⟩
  rintro rfl
  exact TimerSystem.Represents.not_in place hobject hplace hin

namespace TimerSystem

open Execution

variable {q next : TimerSystem} {expired : List Entry} {objects : Objects}

namespace Represents

variable {address : Nat} {owned : Owned}

theorem pending_away (hrep : Represents q expired objects) (hobject : objects address = some owned)
    (hplace : owned.place ≠ .functor) (id : TimerId) :
    id ∈ q.pending ↔ id.timer ≠ address ∧ id ∈ q.pending := by
  rw [hrep.pending]
  exact Objects.in_elsewhere .functor hobject hplace

theorem timers_away (hrep : Represents q expired objects) (hobject : objects address = some owned)
    (hplace : owned.place ≠ .queue) (it : Entry) :
    it ∈ q.timers ↔ it.timer ≠ address ∧ it ∈ q.timers := by
  rw [hrep.timers]
  exact Objects.in_elsewhere .queue hobject hplace

theorem activeTimers_away (hrep : Represents q expired objects)
    (hobject : objects address = some owned) (hplace : owned.place ≠ .queue) (id : TimerId) :
    id ∈ q.activeTimers ↔ id.timer ≠ address ∧ id ∈ q.activeTimers := by
  rw [hrep.activeTimers]
  exact Objects.in_elsewhere .queue hobject hplace

theorem batch_away (hrep : Represents q expired objects) (hobject : objects address = some owned)
    (hplace : owned.place ≠ .batch) (it : Entry) :
    it ∈ expired ↔ it.timer ≠ address ∧ it ∈ expired := by
  rw [hrep.batch]
  exact Objects.in_elsewhere .batch hobject hplace

end Represents

/-! ## The functions -/

/-- The record goes on, and no callback is started. -/
def Quiet (log log' : List TimerEvent) : Prop :=
  ∃ extra, log' = log ++ extra ∧ ∀ round id, .ran round id ∉ extra

theorem Quiet.refl (log : List TimerEvent) : Quiet log log := ⟨[], by simp, by simp⟩

theorem Quiet.trans {log log' log'' : List TimerEvent} (hfirst : Quiet log log')
    (hsecond : Quiet log' log'') : Quiet log log'' := by
  obtain ⟨extra, rfl, hextra⟩ := hfirst
  obtain ⟨more, rfl, hmore⟩ := hsecond
  refine ⟨extra ++ more, List.append_assoc _ _ _, fun round id h => ?_⟩
  rcases List.mem_append.mp h with hin | hin
  · exact hextra round id hin
  · exact hmore round id hin

/-- The state after `insert` of a timer that a functor has brought. -/
def entered (q : TimerSystem) (id : TimerId) (timers : OrderedSet Entry)
    (activeTimers : OrderedSet ActiveTimer) : TimerSystem :=
  { q with
    pending := q.pending.erase id
    timers := timers
    activeTimers := activeTimers
    log := q.log ++ [.inserted id] }

theorem Quiet.of_append {log : List TimerEvent} {event : TimerEvent}
    (hevent : ∀ round id, event ≠ .ran round id) : Quiet log (log ++ [event]) :=
  ⟨[event], rfl, fun round id h => hevent round id (List.mem_singleton.mp h).symm⟩

theorem addTimerInLoop_spec (hrep : Represents q expired objects)
    (hrecorded : Recorded q.log q.numCreated objects) {id : TimerId} {t : Timer}
    (hobject : objects id.timer = some ⟨.functor, t⟩) (hsequence : t.sequence = id.sequence)
    (clock : Timestamp) :
    ∃ timers activeTimers,
      { q with pending := q.pending.erase id }.addTimerInLoop id.timer clock = .ok
        (if q.isEarliest t.expiration then
          (q.entered id timers activeTimers).resetTimerfd clock t.expiration
        else q.entered id timers activeTimers) ∧
      Represents (q.entered id timers activeTimers) expired
        (Function.update objects id.timer (some ⟨.queue, t⟩)) ∧
      Recorded (q.log ++ [.inserted id]) q.numCreated
        (Function.update objects id.timer (some ⟨.queue, t⟩)) := by
  have hid : (⟨id.timer, t.sequence⟩ : TimerId) = id := by rw [hsequence]
  have hheap : q.heap id.timer = some t := hrep.read hobject
  obtain ⟨timers, activeTimers, hinsert, htimers, hactive, hsizes⟩ := insert_spec
    (q := { q with pending := q.pending.erase id }) hrep.sizesAgree hheap
    (fun h => ((hrep.timers_away hobject (by simp) _).mp h).1 rfl)
    (fun h => ((hrep.activeTimers_away hobject (by simp) _).mp h).1 rfl)
  rw [hid] at hinsert
  refine ⟨timers, activeTimers, ?_, ?_, ?_⟩
  · simp only [addTimerInLoop, hinsert, bind, Except.bind]
    show (if q.isEarliest t.expiration = true then _ else _) = _
    split
    · simp only [deref, hheap]
      rfl
    · rfl
  · refine hrep.enter hobject (by simp) ?_ ?_ htimers hactive (hrep.batch_away hobject (by simp))
      (hrep.pendingNodup.erase id) hrep.batchNodup hsizes
    · exact (Function.update_eq_self_iff.mpr hheap.symm).symm
    · intro other
      show other ∈ q.pending.erase id ↔ _
      rw [hrep.pendingNodup.mem_erase_iff]
      refine and_congr_left fun hother => not_congr ?_
      exact ⟨congrArg TimerId.timer, ((hrep.pending other).mp hother).id_eq ⟨t, hobject, hsequence⟩⟩
  · exact hid ▸ hrecorded.enter hobject rfl

/-- The state after `cancelInLoop` of a timer that is in the queue. -/
def withdrawn (q : TimerSystem) (id : TimerId) (timers : OrderedSet Entry)
    (activeTimers : OrderedSet ActiveTimer) : TimerSystem :=
  { q with
    heap := Function.update q.heap id.timer none
    timers := timers
    activeTimers := activeTimers
    log := q.log ++ [.deleted id] }

theorem cancelInLoop_queued (hrep : Represents q expired objects)
    (hrecorded : Recorded q.log q.numCreated objects) {id : TimerId} {t : Timer}
    (hobject : objects id.timer = some ⟨.queue, t⟩) (hsequence : t.sequence = id.sequence) :
    ∃ timers activeTimers,
      q.cancelInLoop id = .ok (q.withdrawn id timers activeTimers) ∧
      Represents (q.withdrawn id timers activeTimers) expired
        (Function.update objects id.timer none) ∧
      Recorded (q.log ++ [.deleted id]) q.numCreated (Function.update objects id.timer none) := by
  have hheap : q.heap id.timer = some t := hrep.read hobject
  have hactive : id ∈ q.activeTimers := (hrep.activeTimers id).mpr ⟨t, hobject, hsequence⟩
  have htimer : ⟨t.expiration, id.timer⟩ ∈ q.timers := (hrep.timers _).mpr ⟨t, hobject, rfl⟩
  obtain ⟨hone, hsize⟩ := OrderedSet.erase_mem htimer
  obtain ⟨-, hactiveSize⟩ := OrderedSet.erase_mem hactive
  have hsizes : (q.timers.erase ⟨t.expiration, id.timer⟩).1.size =
      (q.activeTimers.erase id).1.size := by
    have hbefore := hrep.sizes
    omega
  refine ⟨(q.timers.erase ⟨t.expiration, id.timer⟩).1, (q.activeTimers.erase id).1, ?_, ?_, ?_⟩
  · have hagree : (q.withdrawn id (q.timers.erase ⟨t.expiration, id.timer⟩).1
        (q.activeTimers.erase id).1).sizesAgree = true := by
      simp [TimerSystem.sizesAgree, withdrawn, hsizes]
    unfold withdrawn at hagree
    simp only [cancelInLoop, delete, deref, write, record, withdrawn, hrep.sizesAgree, require_true,
      hactive, if_true, hheap, hone, beq_self_eq_true, hsequence, hagree, bind, Except.bind, pure,
      Except.pure]
  · refine hrep.discard rfl (hrep.pending_away hobject (by simp)) ?_ ?_ (hrep.batch_away hobject (by simp))
      hrep.pendingNodup hrep.batchNodup hsizes
    · intro it
      show it ∈ (q.timers.erase _).1 ↔ _
      rw [OrderedSet.mem_erase]
      refine and_congr_left fun hit => not_congr ⟨congrArg Entry.timer, ?_⟩
      exact ((hrep.timers it).mp hit).entry_eq ((hrep.timers _).mp htimer)
    · intro other
      show other ∈ (q.activeTimers.erase _).1 ↔ _
      rw [OrderedSet.mem_erase]
      refine and_congr_left fun hother => not_congr ⟨congrArg TimerId.timer, ?_⟩
      exact ((hrep.activeTimers other).mp hother).id_eq ((hrep.activeTimers id).mp hactive)
  · have hdiscard := hrecorded.discard hobject (by simp)
    rwa [show (⟨id.timer, t.sequence⟩ : TimerId) = id by rw [hsequence]] at hdiscard

/-- A timer that is not in the queue is only noted, and only while callbacks are being run. -/
theorem cancelInLoop_not_queued (hrep : Represents q expired objects) {id : TimerId}
    (hactive : id ∉ q.activeTimers) :
    q.cancelInLoop id = .ok
      (if q.callingExpiredTimers then
        { q with cancelingTimers := (q.cancelingTimers.insert id).1 } else q) := by
  have hagree := hrep.sizesAgree
  simp only [cancelInLoop, hagree, require_true, hactive, if_false, bind, Except.bind]
  split
  · have hsame : ({ q with cancelingTimers := (q.cancelingTimers.insert id).1 } :
        TimerSystem).sizesAgree = true := hagree
    simp only [pure, Except.pure, hsame, require_true]
  · simp only [pure, Except.pure, hagree, require_true]

/-- The rest of a batch is what is in it at other addresses. -/
theorem Represents.mem_rest {it : Entry} {rest : List Entry}
    (hrep : Represents q (it :: rest) objects) (other : Entry) :
    other ∈ rest ↔ other.timer ≠ it.timer ∧ other ∈ it :: rest := by
  have hnodup := List.nodup_cons.mp hrep.batchNodup
  constructor
  · intro hother
    refine ⟨fun hsame => hnodup.1 ?_, List.mem_cons_of_mem _ hother⟩
    rwa [← hrep.batch_injective (List.mem_cons_of_mem _ hother) List.mem_cons_self hsame]
  · rintro ⟨hne, hother⟩
    rcases List.mem_cons.mp hother with rfl | hrest
    · exact absurd rfl hne
    · exact hrest

/-- The state after the loop of `reset`. -/
def settled (q : TimerSystem) (heap : Nat → Option Timer) (timers : OrderedSet Entry)
    (activeTimers : OrderedSet ActiveTimer) (log : List TimerEvent) : TimerSystem :=
  { q with heap := heap, timers := timers, activeTimers := activeTimers, log := log }

/-- One timer of the batch goes back into the queue. -/
theorem restart_spec {it : Entry} {rest : List Entry} (hrep : Represents q (it :: rest) objects)
    (hrecorded : Recorded q.log q.numCreated objects) {t : Timer} (now : Timestamp)
    (hobject : objects it.timer = some ⟨.batch, t⟩) :
    ∃ earliestChanged heap timers activeTimers log,
      ((q.write it.timer (some (t.restart now))).record
        (.restarted ⟨it.timer, t.sequence⟩)).insert it.timer =
        .ok (earliestChanged, q.settled heap timers activeTimers log) ∧
      Represents (q.settled heap timers activeTimers log) rest
        (Function.update objects it.timer (some ⟨.queue, t.restart now⟩)) ∧
      Recorded log q.numCreated
        (Function.update objects it.timer (some ⟨.queue, t.restart now⟩)) ∧
      Quiet q.log log := by
  have hsequence : (t.restart now).sequence = t.sequence := by
    unfold Timer.restart
    split <;> rfl
  obtain ⟨timers, activeTimers, hinsert, htimers, hactive, hsizes⟩ := insert_spec
    (q := (q.write it.timer (some (t.restart now))).record (.restarted ⟨it.timer, t.sequence⟩))
    hrep.sizesAgree (Function.update_self ..)
    (fun h => ((hrep.timers_away hobject (by simp) _).mp h).1 rfl)
    (fun h => ((hrep.activeTimers_away hobject (by simp) _).mp h).1 rfl)
  rw [hsequence] at hinsert
  refine ⟨_, _, timers, activeTimers, _, hinsert, ?_, ?_, ?_⟩
  · exact hrep.enter hobject (by simp) rfl (hrep.pending_away hobject (by simp)) htimers hactive
      hrep.mem_rest hrep.pendingNodup (List.nodup_cons.mp hrep.batchNodup).2 hsizes
  · have hrestarted : Recorded (q.log ++ [.restarted ⟨it.timer, t.sequence⟩]) q.numCreated objects :=
      hrecorded.append ⟨_, hobject, rfl⟩ nofun nofun nofun
    exact hsequence ▸ hrestarted.enter hobject hsequence
  · refine ⟨[.restarted ⟨it.timer, t.sequence⟩, .inserted ⟨it.timer, t.sequence⟩], ?_, ?_⟩
    · exact List.append_assoc ..
    · simp

/-- One timer of the batch is deleted. -/
theorem delete_spec {it : Entry} {rest : List Entry} (hrep : Represents q (it :: rest) objects)
    (hrecorded : Recorded q.log q.numCreated objects) {t : Timer}
    (hobject : objects it.timer = some ⟨.batch, t⟩) :
    ∃ heap log, q.delete it.timer = .ok (q.settled heap q.timers q.activeTimers log) ∧
      Represents (q.settled heap q.timers q.activeTimers log) rest
        (Function.update objects it.timer none) ∧
      Recorded log q.numCreated (Function.update objects it.timer none) ∧
      Quiet q.log log := by
  refine ⟨Function.update q.heap it.timer none, q.log ++ [.deleted ⟨it.timer, t.sequence⟩],
    ?_, ?_, hrecorded.discard hobject (by simp), .of_append nofun⟩
  · simp only [delete, hrep.deref hobject, bind, Except.bind]
    rfl
  · exact hrep.discard rfl (hrep.pending_away hobject (by simp)) (hrep.timers_away hobject (by simp))
      (hrep.activeTimers_away hobject (by simp)) hrep.mem_rest hrep.pendingNodup
      (List.nodup_cons.mp hrep.batchNodup).2 hrep.sizes

/-- The loop of `reset` settles the whole batch. -/
theorem resetExpired_spec (hrep : Represents q expired objects)
    (hrecorded : Recorded q.log q.numCreated objects) (now : Timestamp) :
    ∃ heap timers activeTimers log,
      q.resetExpired now expired = .ok (q.settled heap timers activeTimers log) ∧
      Represents (q.settled heap timers activeTimers log) []
        (objects.settle q.cancelingTimers now) ∧
      Recorded log q.numCreated (objects.settle q.cancelingTimers now) ∧
      Quiet q.log log := by
  induction expired generalizing q objects with
  | nil =>
      have hempty : ∀ address condition, ¬objects.In .batch address condition := by
        rintro address condition ⟨t, ht, -⟩
        exact absurd ((hrep.batch ⟨t.expiration, address⟩).mpr ⟨t, ht, rfl⟩) List.not_mem_nil
      rw [Objects.settle_of_no_batch hempty]
      exact ⟨q.heap, q.timers, q.activeTimers, q.log, rfl, hrep, hrecorded, Quiet.refl _⟩
  | cons it rest ih =>
      obtain ⟨t, hobject, -⟩ := (hrep.batch it).mp List.mem_cons_self
      -- the loop decides on this timer as `settle` does, and goes on with the rest
      by_cases hagain : (t.repeats && !decide (⟨it.timer, t.sequence⟩ ∈ q.cancelingTimers)) = true
      · obtain ⟨earliestChanged, heap, timers, activeTimers, log, hinsert, hrep', hrecorded', hquiet⟩ :=
          restart_spec hrep hrecorded now hobject
        obtain ⟨heap', timers', activeTimers', log', hrest, hfinal, hfinalRecorded, hlater⟩ :=
          ih hrep' hrecorded'
        have hsettle := Objects.settle_update now hobject (if_pos hagain).symm
        refine ⟨heap', timers', activeTimers', log', ?_, hsettle ▸ hfinal, hsettle ▸ hfinalRecorded,
          hquiet.trans hlater⟩
        simp only [resetExpired, hrep.deref hobject, hagain, if_true, hinsert, bind, Except.bind]
        exact hrest
      · obtain ⟨heap, log, hdelete, hrep', hrecorded', hquiet⟩ := delete_spec hrep hrecorded hobject
        obtain ⟨heap', timers', activeTimers', log', hrest, hfinal, hfinalRecorded, hlater⟩ :=
          ih hrep' hrecorded'
        have hsettle := Objects.settle_update now hobject (if_neg hagain).symm
        refine ⟨heap', timers', activeTimers', log', ?_, hsettle ▸ hfinal, hsettle ▸ hfinalRecorded,
          hquiet.trans hlater⟩
        simp only [resetExpired, hrep.deref hobject, hagain, hdelete, bind, Except.bind]
        exact hrest

/-- The state after the end of `reset`. -/
def rearmed (q : TimerSystem) (clock : Timestamp) : TimerSystem :=
  match q.timers.first with
  | some it => if Timestamp.valid it.expiration then q.resetTimerfd clock it.expiration else q
  | none => q

theorem rearmed_eq (q : TimerSystem) (clock : Timestamp) :
    ∃ timerfd settings, q.rearmed clock = { q with timerfd := timerfd, settings := settings } := by
  unfold rearmed
  split
  · split
    · exact ⟨_, _, rfl⟩
    · exact ⟨_, _, rfl⟩
  · exact ⟨_, _, rfl⟩

theorem rearm_spec (hrep : Represents q expired objects) (clock : Timestamp) :
    q.rearm clock = .ok (q.rearmed clock) := by
  unfold rearm rearmed
  cases hfirst : q.timers.first with
  | none => rfl
  | some it =>
      obtain ⟨t, hobject, hexpiration⟩ := (hrep.timers it).mp (OrderedSet.first_mem hfirst)
      simp only [hrep.deref hobject, hexpiration, bind, Except.bind, pure, Except.pure]
      split <;> rfl

end TimerSystem
end Muduo
