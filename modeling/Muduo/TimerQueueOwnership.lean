import Muduo.TimerQueue

/-! Who owns the timers. Seen from above, every timer object is in one place: a functor that has still
to put it into the queue, the queue, or the batch that is being run. The two sets of the queue, the
list of the batch and the heap are views of this map, and every step of the queue is a step of it. -/

namespace Muduo

/-- Where a timer object is. -/
inductive Place where
  | functor
  | queue
  | batch
  deriving DecidableEq, Repr

/-- A timer object and its place. -/
structure Owned where
  place : Place
  timer : Timer
  deriving DecidableEq, Repr

/-- All timer objects, by address. -/
abbrev Objects := Nat → Option Owned

/-- The object with this address and sequence number exists. -/
def Objects.Live (objects : Objects) (id : TimerId) : Prop :=
  ∃ owned, objects id.timer = some owned ∧ owned.timer.sequence = id.sequence

/-- An object in the given place that meets the condition. -/
def Objects.In (objects : Objects) (place : Place) (address : Nat) (condition : Timer → Prop) : Prop :=
  ∃ t, objects address = some ⟨place, t⟩ ∧ condition t

/-- The id of the object at an address. -/
theorem Objects.In.id_eq {objects : Objects} {place place' : Place} {id other : TimerId}
    (hid : objects.In place id.timer (·.sequence = id.sequence))
    (hother : objects.In place' other.timer (·.sequence = other.sequence))
    (hsame : id.timer = other.timer) : id = other := by
  obtain ⟨t, ht, hsequence⟩ := hid
  obtain ⟨u, hu, hotherSequence⟩ := hother
  rw [← hsame, ht, Option.some.injEq, Owned.mk.injEq] at hu
  cases id
  cases other
  simp_all

/-- The entry of the object at an address. -/
theorem Objects.In.entry_eq {objects : Objects} {place place' : Place} {it other : Entry}
    (hit : objects.In place it.timer (·.expiration = it.expiration))
    (hother : objects.In place' other.timer (·.expiration = other.expiration))
    (hsame : it.timer = other.timer) : it = other := by
  obtain ⟨t, ht, hexpiration⟩ := hit
  obtain ⟨u, hu, hotherExpiration⟩ := hother
  rw [← hsame, ht, Option.some.injEq, Owned.mk.injEq] at hu
  cases it
  cases other
  simp_all

theorem Objects.in_update {objects : Objects} {place : Place} {address other : Nat}
    {owned : Option Owned} {condition : Timer → Prop} :
    Objects.In (Function.update objects address owned) place other condition ↔
      (other = address ∧ ∃ t, owned = some ⟨place, t⟩ ∧ condition t) ∨
      (other ≠ address ∧ Objects.In objects place other condition) := by
  unfold Objects.In
  by_cases hsame : other = address
  · subst hsame
    simp
  · simp [hsame]

namespace TimerSystem

open Execution

variable {q next : TimerSystem} {expired : List Entry} {objects : Objects}

/-- The state is the view of the objects. -/
structure Represents (q : TimerSystem) (expired : List Entry) (objects : Objects) : Prop where
  heap : ∀ address, q.heap address = (objects address).map Owned.timer
  pending : ∀ id, id ∈ q.pending ↔ objects.In .functor id.timer (·.sequence = id.sequence)
  timers : ∀ it, it ∈ q.timers ↔ objects.In .queue it.timer (·.expiration = it.expiration)
  activeTimers : ∀ id, id ∈ q.activeTimers ↔ objects.In .queue id.timer (·.sequence = id.sequence)
  batch : ∀ it, it ∈ expired ↔ objects.In .batch it.timer (·.expiration = it.expiration)
  pendingNodup : q.pending.Nodup
  batchNodup : expired.Nodup
  sizes : q.timers.size = q.activeTimers.size
  addresses : ∀ address, objects address ≠ none → address < UINTPTR_MAX

theorem represents_initial : Represents {} [] fun _ => none where
  heap _ := rfl
  pending := by simp [Objects.In]
  timers it := by simp [Objects.In, OrderedSet.not_mem_empty]
  activeTimers id := by simp [Objects.In, OrderedSet.not_mem_empty]
  batch := by simp [Objects.In]
  pendingNodup := List.nodup_nil
  batchNodup := List.nodup_nil
  sizes := rfl
  addresses := by simp

namespace Represents

theorem read (hrep : Represents q expired objects) {address : Nat} {place : Place} {t : Timer}
    (hobject : objects address = some ⟨place, t⟩) : q.heap address = some t := by
  rw [hrep.heap, hobject]
  rfl

theorem deref (hrep : Represents q expired objects) {address : Nat} {place : Place} {t : Timer}
    (hobject : objects address = some ⟨place, t⟩) : q.deref address = .ok t := by
  rw [TimerSystem.deref, hrep.read hobject]

theorem sizesAgree (hrep : Represents q expired objects) : q.sizesAgree = true := by
  simp [TimerSystem.sizesAgree, hrep.sizes]

/-- What is in another place is in none of the views of this one. -/
theorem not_in (place : Place) {address : Nat} {owned : Owned} {condition : Timer → Prop}
    (hobject : objects address = some owned) (hplace : owned.place ≠ place) :
    ¬objects.In place address condition := by
  rintro ⟨t, ht, -⟩
  rw [hobject, Option.some.injEq] at ht
  exact hplace (congrArg Owned.place ht)

/-- A new object, held by a functor. -/
theorem create (hrep : Represents q expired objects) {address : Nat} {t : Timer}
    (hfree : objects address = none) (haddress : address < UINTPTR_MAX)
    (hheap : next.heap = Function.update q.heap address (some t))
    (hpending : next.pending = q.pending ++ [⟨address, t.sequence⟩])
    (hqueue : next.toTimerQueue = q.toTimerQueue) :
    Represents next expired (Function.update objects address (some ⟨.functor, t⟩)) := by
  have hnone : ∀ {place : Place} {condition : Timer → Prop}, ¬objects.In place address condition := by
    rintro place condition ⟨u, hu, -⟩
    rw [hfree] at hu
    cases hu
  have hkept : ∀ place : Place, place ≠ .functor → ∀ {other : Nat} {condition : Timer → Prop},
      (Objects.In (Function.update objects address (some ⟨.functor, t⟩)) place other condition ↔
        objects.In place other condition) := by
    intro place hplace other condition
    rw [Objects.in_update]
    constructor
    · rintro (⟨-, u, hu, -⟩ | ⟨-, hin⟩)
      · exact absurd (congrArg Owned.place (Option.some.inj hu)).symm hplace
      · exact hin
    · intro hin
      refine .inr ⟨?_, hin⟩
      rintro rfl
      exact hnone hin
  have hfresh : (⟨address, t.sequence⟩ : TimerId) ∉ q.pending := by
    rw [hrep.pending]
    exact hnone
  refine ⟨?_, ?_, ?_, ?_, ?_, ?_, hrep.batchNodup, ?_, ?_⟩
  · intro other
    rw [hheap]
    by_cases hsame : other = address
    · subst hsame
      simp
    · simp [hsame, hrep.heap]
  · intro id
    rw [hpending, List.mem_append, List.mem_singleton, hrep.pending, Objects.in_update]
    constructor
    · rintro (hin | rfl)
      · refine .inr ⟨?_, hin⟩
        intro hsame
        rw [hsame] at hin
        exact hnone hin
      · exact .inl ⟨rfl, t, rfl, rfl⟩
    · rintro (⟨hsame, u, hu, hsequence⟩ | ⟨-, hin⟩)
      · obtain rfl : t = u := congrArg Owned.timer (Option.some.inj hu)
        right
        cases id
        simp_all
      · exact .inl hin
  · intro it
    rw [hqueue, hkept .queue nofun]
    exact hrep.timers it
  · intro id
    rw [hqueue, hkept .queue nofun]
    exact hrep.activeTimers id
  · intro it
    rw [hkept .batch nofun]
    exact hrep.batch it
  · rw [hpending]
    exact List.Nodup.append hrep.pendingNodup (List.nodup_singleton _) (by simpa using hfresh)
  · rw [hqueue]
    exact hrep.sizes
  · intro other hother
    by_cases hsame : other = address
    · rwa [hsame]
    · exact hrep.addresses other (by simpa [hsame] using hother)

/-- An object that is put into the queue, with its expiration set anew or not. -/
theorem enter (hrep : Represents q expired objects) {address : Nat} {owned : Owned} {t : Timer}
    (hobject : objects address = some owned) (hplace : owned.place ≠ .queue) {rest : List Entry}
    (hheap : next.heap = Function.update q.heap address (some t))
    (hpending : ∀ id, id ∈ next.pending ↔ id.timer ≠ address ∧ id ∈ q.pending)
    (htimers : ∀ it, it ∈ next.timers ↔ it = ⟨t.expiration, address⟩ ∨ it ∈ q.timers)
    (hactive : ∀ id, id ∈ next.activeTimers ↔ id = ⟨address, t.sequence⟩ ∨ id ∈ q.activeTimers)
    (hbatch : ∀ it, it ∈ rest ↔ it.timer ≠ address ∧ it ∈ expired)
    (hpendingNodup : next.pending.Nodup) (hbatchNodup : rest.Nodup)
    (hsizes : next.timers.size = next.activeTimers.size) :
    Represents next rest (Function.update objects address (some ⟨.queue, t⟩)) := by
  have hleft : ∀ place : Place, place ≠ .queue → ∀ {other : Nat} {condition : Timer → Prop},
      (Objects.In (Function.update objects address (some ⟨.queue, t⟩)) place other condition ↔
        other ≠ address ∧ objects.In place other condition) := by
    intro place hne other condition
    rw [Objects.in_update]
    constructor
    · rintro (⟨-, u, hu, -⟩ | h)
      · exact absurd (congrArg Owned.place (Option.some.inj hu)).symm hne
      · exact h
    · exact .inr
  have hentered : ∀ {other : Nat} {condition : Timer → Prop},
      (Objects.In (Function.update objects address (some ⟨.queue, t⟩)) .queue other condition ↔
        (other = address ∧ condition t) ∨ objects.In .queue other condition) := by
    intro other condition
    rw [Objects.in_update]
    constructor
    · rintro (⟨rfl, u, hu, hcondition⟩ | ⟨-, hin⟩)
      · obtain rfl : t = u := congrArg Owned.timer (Option.some.inj hu)
        exact .inl ⟨rfl, hcondition⟩
      · exact .inr hin
    · rintro (⟨rfl, hcondition⟩ | hin)
      · exact .inl ⟨rfl, t, rfl, hcondition⟩
      · refine .inr ⟨?_, hin⟩
        rintro rfl
        exact not_in .queue hobject hplace hin
  refine ⟨?_, ?_, ?_, ?_, ?_, hpendingNodup, hbatchNodup, hsizes, ?_⟩
  · intro other
    rw [hheap]
    by_cases hsame : other = address
    · subst hsame
      simp
    · simp [hsame, hrep.heap]
  · intro id
    rw [hpending, hleft .functor nofun, hrep.pending]
  · intro it
    rw [htimers, hentered, hrep.timers]
    refine or_congr ?_ Iff.rfl
    cases it
    simp [and_comm, eq_comm]
  · intro id
    rw [hactive, hentered, hrep.activeTimers]
    refine or_congr ?_ Iff.rfl
    cases id
    simp [eq_comm]
  · intro it
    rw [hbatch, hleft .batch nofun, hrep.batch]
  · intro other hother
    by_cases hsame : other = address
    · rw [hsame]
      exact hrep.addresses address (by simp [hobject])
    · exact hrep.addresses other (by simpa [hsame] using hother)

/-- An object that is deleted, out of whatever place. -/
theorem discard (hrep : Represents q expired objects) {address : Nat} {rest : List Entry}
    (hheap : next.heap = Function.update q.heap address none)
    (hpending : ∀ id, id ∈ next.pending ↔ id.timer ≠ address ∧ id ∈ q.pending)
    (htimers : ∀ it, it ∈ next.timers ↔ it.timer ≠ address ∧ it ∈ q.timers)
    (hactive : ∀ id, id ∈ next.activeTimers ↔ id.timer ≠ address ∧ id ∈ q.activeTimers)
    (hbatch : ∀ it, it ∈ rest ↔ it.timer ≠ address ∧ it ∈ expired)
    (hpendingNodup : next.pending.Nodup) (hbatchNodup : rest.Nodup)
    (hsizes : next.timers.size = next.activeTimers.size) :
    Represents next rest (Function.update objects address none) := by
  have hleft : ∀ {place : Place} {other : Nat} {condition : Timer → Prop},
      (Objects.In (Function.update objects address none) place other condition ↔
        other ≠ address ∧ objects.In place other condition) := by
    intro place other condition
    simp [Objects.in_update]
  refine ⟨?_, ?_, ?_, ?_, ?_, hpendingNodup, hbatchNodup, hsizes, ?_⟩
  · intro other
    rw [hheap]
    by_cases hsame : other = address
    · subst hsame
      simp
    · simp [hsame, hrep.heap]
  · intro id
    rw [hpending, hleft, hrep.pending]
  · intro it
    rw [htimers, hleft, hrep.timers]
  · intro id
    rw [hactive, hleft, hrep.activeTimers]
  · intro it
    rw [hbatch, hleft, hrep.batch]
  · intro other hother
    by_cases hsame : other = address
    · simp [hsame] at hother
    · exact hrep.addresses other (by simpa [hsame] using hother)

end Represents

/-! ## What the functions do to the sets -/

theorem require_true (stop : TimerStop) : require true stop = .ok () := rfl

theorem isEarliest_iff (when : Timestamp) :
    q.isEarliest when = true ↔ ∀ it ∈ q.timers, when < it.expiration := by
  unfold isEarliest
  cases hhead : q.timers.first with
  | none =>
      simp only [true_iff]
      exact fun it hit => absurd hit (OrderedSet.first_eq_none.mp hhead it)
  | some head =>
      simp only [decide_eq_true_eq]
      constructor
      · intro hlt it hit
        exact lt_of_lt_of_le hlt (Entry.expiration_le (OrderedSet.first_le hhead hit))
      · exact fun hall => hall head (OrderedSet.first_mem hhead)

/-- `insert` of a timer that is in neither set. -/
theorem insert_spec {address : Nat} {t : Timer} (hsizes : q.sizesAgree = true)
    (hobject : q.heap address = some t) (htimers : ⟨t.expiration, address⟩ ∉ q.timers)
    (hactive : ⟨address, t.sequence⟩ ∉ q.activeTimers) :
    ∃ timers activeTimers,
      q.insert address = .ok (q.isEarliest t.expiration, { q with
        timers := timers
        activeTimers := activeTimers
        log := q.log ++ [.inserted ⟨address, t.sequence⟩] }) ∧
      (∀ it, it ∈ timers ↔ it = ⟨t.expiration, address⟩ ∨ it ∈ q.timers) ∧
      (∀ id, id ∈ activeTimers ↔ id = ⟨address, t.sequence⟩ ∨ id ∈ q.activeTimers) ∧
      timers.size = activeTimers.size := by
  obtain ⟨hfirst, hfirstSize⟩ := OrderedSet.insert_fresh htimers
  obtain ⟨hsecond, hsecondSize⟩ := OrderedSet.insert_fresh hactive
  have hbefore : q.timers.size = q.activeTimers.size := by simpa [sizesAgree] using hsizes
  have hafter : (q.timers.insert ⟨t.expiration, address⟩).1.size =
      (q.activeTimers.insert ⟨address, t.sequence⟩).1.size := by
    rw [hfirstSize, hsecondSize, hbefore]
  refine ⟨(q.timers.insert ⟨t.expiration, address⟩).1,
    (q.activeTimers.insert ⟨address, t.sequence⟩).1, ?_, fun it => OrderedSet.mem_insert,
    fun id => OrderedSet.mem_insert, hafter⟩
  have hagree : ({ q with
      timers := (q.timers.insert ⟨t.expiration, address⟩).1
      activeTimers := (q.activeTimers.insert ⟨address, t.sequence⟩).1 } : TimerSystem).sizesAgree =
      true := by
    simp [sizesAgree, hafter]
  simp only [insert, deref, hobject, hsizes, hfirst, hsecond, hagree, require_true, bind, Except.bind]
  rfl

/-- The loop of `getExpired` takes the timers of the batch out of `activeTimers_`. -/
theorem eraseExpired_spec {expired : List Entry}
    (hkey : ∀ id ∈ q.activeTimers, ∀ t, q.heap id.timer = some t → t.sequence = id.sequence)
    (hactive : ∀ it ∈ expired, ∃ t, q.heap it.timer = some t ∧
      ⟨it.timer, t.sequence⟩ ∈ q.activeTimers)
    (hnodup : (expired.map Entry.timer).Nodup) :
    ∃ activeTimers, q.eraseExpired expired = .ok { q with activeTimers := activeTimers } ∧
      (∀ id, id ∈ activeTimers ↔ id ∈ q.activeTimers ∧ id.timer ∉ expired.map Entry.timer) ∧
      activeTimers.size + expired.length = q.activeTimers.size := by
  induction expired generalizing q with
  | nil => exact ⟨q.activeTimers, rfl, by simp, rfl⟩
  | cons it rest ih =>
      obtain ⟨t, hobject, hmem⟩ := hactive it List.mem_cons_self
      obtain ⟨hone, hsize⟩ := OrderedSet.erase_mem hmem
      rw [List.map_cons, List.nodup_cons] at hnodup
      have hother : ∀ id, id ∈ (q.activeTimers.erase ⟨it.timer, t.sequence⟩).1 ↔
          id ∈ q.activeTimers ∧ id.timer ≠ it.timer := by
        intro id
        rw [OrderedSet.mem_erase]
        constructor
        · rintro ⟨hne, hid⟩
          refine ⟨hid, fun hsame => hne ?_⟩
          have hsequence := hkey id hid t (hsame ▸ hobject)
          cases id
          simp_all
        · rintro ⟨hid, hne⟩
          exact ⟨fun hsame => hne (congrArg TimerId.timer hsame), hid⟩
      obtain ⟨activeTimers, heq, hin, hlength⟩ := ih
        (q := { q with activeTimers := (q.activeTimers.erase ⟨it.timer, t.sequence⟩).1 })
        (fun id hid => hkey id ((hother id).mp hid).1)
        (fun other hmemRest => by
          obtain ⟨u, hu, huActive⟩ := hactive other (List.mem_cons_of_mem _ hmemRest)
          refine ⟨u, hu, (hother _).mpr ⟨huActive, fun hsame => hnodup.1 ?_⟩⟩
          exact hsame ▸ List.mem_map_of_mem hmemRest)
        hnodup.2
      refine ⟨activeTimers, ?_, ?_, ?_⟩
      · simp only [eraseExpired, deref, hobject, hone, beq_self_eq_true, require_true, bind,
          Except.bind]
        exact heq
      · intro id
        rw [hin, hother, List.map_cons, List.mem_cons, not_or, and_assoc]
      · rw [List.length_cons]
        simp only at hlength
        omega

end TimerSystem

/-! ## The steps of the objects -/

namespace Objects

/-- Every queued timer that has expired is moved to the batch. -/
def expire (objects : Objects) (now : Timestamp) : Objects := fun address =>
  match objects address with
  | some ⟨.queue, t⟩ => if t.expiration ≤ now then some ⟨.batch, t⟩ else some ⟨.queue, t⟩
  | other => other

/-- Every timer of the batch that repeats and is not being cancelled is restarted and moved back to
the queue; the others are gone. -/
def settle (objects : Objects) (canceling : OrderedSet ActiveTimer) (now : Timestamp) : Objects :=
  fun address =>
    match objects address with
    | some ⟨.batch, t⟩ =>
        if t.repeats && !decide (⟨address, t.sequence⟩ ∈ canceling) then
          some ⟨.queue, t.restart now⟩
        else none
    | other => other

variable {objects : Objects} {now : Timestamp}

theorem in_expire_batch {address : Nat} {condition : Timer → Prop}
    (hempty : ∀ condition, ¬objects.In .batch address condition) :
    Objects.In (objects.expire now) .batch address condition ↔
      objects.In .queue address fun t => condition t ∧ t.expiration ≤ now := by
  unfold In expire
  cases hobject : objects address with
  | none => simp
  | some owned =>
      obtain ⟨place, t⟩ := owned
      cases place with
      | functor => simp
      | batch => exact absurd ⟨t, hobject, trivial⟩ (hempty fun _ => True)
      | queue =>
          by_cases hle : t.expiration ≤ now
          · simp [hle]
          · simp [hle]

theorem in_expire_queue {address : Nat} {condition : Timer → Prop} :
    Objects.In (objects.expire now) .queue address condition ↔
      objects.In .queue address fun t => condition t ∧ now < t.expiration := by
  unfold In expire
  cases hobject : objects address with
  | none => simp
  | some owned =>
      obtain ⟨place, t⟩ := owned
      cases place with
      | functor => simp
      | batch => simp
      | queue =>
          by_cases hle : t.expiration ≤ now
          · simp [hle]
          · simp [hle, not_le.mp hle]

theorem in_expire_functor {address : Nat} {condition : Timer → Prop} :
    Objects.In (objects.expire now) .functor address condition ↔
      objects.In .functor address condition := by
  unfold In expire
  cases hobject : objects address with
  | none => simp
  | some owned =>
      obtain ⟨place, t⟩ := owned
      cases place with
      | functor => simp
      | batch => simp
      | queue => by_cases hle : t.expiration ≤ now <;> simp [hle]

/-- The objects themselves stay. -/
theorem expire_timer (objects : Objects) (now : Timestamp) (address : Nat) :
    (objects.expire now address).map Owned.timer = (objects address).map Owned.timer := by
  unfold expire
  cases hobject : objects address with
  | none => rfl
  | some owned =>
      obtain ⟨place, t⟩ := owned
      cases place with
      | functor => rfl
      | batch => rfl
      | queue => by_cases hle : t.expiration ≤ now <;> simp [hle]

/-- Settling the batch one timer after the other. -/
theorem settle_update (now : Timestamp) {canceling : OrderedSet ActiveTimer} {address : Nat} {t : Timer}
    (hobject : objects address = some ⟨.batch, t⟩) {owned : Option Owned}
    (howned : owned = if t.repeats && !decide (⟨address, t.sequence⟩ ∈ canceling) then
      some ⟨.queue, t.restart now⟩ else none) :
    settle (Function.update objects address owned) canceling now = settle objects canceling now := by
  funext other
  unfold settle
  by_cases hsame : other = address
  · subst hsame
    rw [Function.update_self, hobject, howned]
    split_ifs with hsurvives
    · exact (if_pos hsurvives).symm
    · exact (if_neg hsurvives).symm
  · rw [Function.update_of_ne hsame]

theorem settle_of_no_batch {canceling : OrderedSet ActiveTimer}
    (hempty : ∀ address condition, ¬objects.In .batch address condition) :
    settle objects canceling now = objects := by
  funext address
  unfold settle
  cases hobject : objects address with
  | none => rfl
  | some owned =>
      obtain ⟨place, t⟩ := owned
      cases place with
      | functor => rfl
      | queue => rfl
      | batch => exact absurd ⟨t, hobject, trivial⟩ (hempty address fun _ => True)

end Objects

namespace TimerSystem

open Execution

variable {q next : TimerSystem} {expired : List Entry} {objects : Objects}

/-- The address of a timer in the batch determines its entry. -/
theorem Represents.batch_injective (hrep : Represents q expired objects) {it other : Entry}
    (hit : it ∈ expired) (hother : other ∈ expired) (hsame : it.timer = other.timer) : it = other :=
  ((hrep.batch it).mp hit).entry_eq ((hrep.batch other).mp hother) hsame

/-- The two sets hold the same timers, whose objects are there, none of them at the very end of the
address space. -/
structure Coherent (q : TimerSystem) : Prop where
  sizes : q.timers.size = q.activeTimers.size
  timers : ∀ it ∈ q.timers, ∃ t, q.heap it.timer = some t ∧ t.expiration = it.expiration ∧
    ⟨it.timer, t.sequence⟩ ∈ q.activeTimers
  activeTimers : ∀ id ∈ q.activeTimers, ∃ t, q.heap id.timer = some t ∧ t.sequence = id.sequence ∧
    ⟨t.expiration, id.timer⟩ ∈ q.timers
  addresses : ∀ it ∈ q.timers, it.timer < UINTPTR_MAX

namespace Coherent

/-- The address of a queued timer determines its entry. -/
theorem entry_eq (hq : Coherent q) {it other : Entry} (hit : it ∈ q.timers) (hother : other ∈ q.timers)
    (hsame : it.timer = other.timer) : it = other := by
  obtain ⟨t, ht, hexpiration, -⟩ := hq.timers it hit
  obtain ⟨u, hu, hotherExpiration, -⟩ := hq.timers other hother
  rw [← hsame, ht, Option.some.injEq] at hu
  cases it
  cases other
  simp_all

/-- No timer lives at the end of the address space, so the sentry splits by the time alone. -/
theorem lt_sentry_iff (hq : Coherent q) {it : Entry} (hit : it ∈ q.timers) (now : Timestamp) :
    it < (⟨now, UINTPTR_MAX⟩ : Entry) ↔ it.expiration ≤ now := by
  rw [Entry.lt_iff]
  constructor
  · rintro (hlt | ⟨heq, -⟩)
    · exact le_of_lt hlt
    · exact le_of_eq heq
  · intro hle
    rcases lt_or_eq_of_le hle with hlt | heq
    · exact .inl hlt
    · exact .inr ⟨heq, hq.addresses it hit⟩

theorem mem_cut_left (hq : Coherent q) (now : Timestamp) {it : Entry} :
    it ∈ (q.timers.cut ⟨now, UINTPTR_MAX⟩).1 ↔ it ∈ q.timers ∧ it.expiration ≤ now := by
  rw [OrderedSet.mem_cut_left]
  exact and_congr_right fun hit => hq.lt_sentry_iff hit now

theorem mem_cut_right (hq : Coherent q) (now : Timestamp) {it : Entry} :
    it ∈ (q.timers.cut ⟨now, UINTPTR_MAX⟩).2 ↔ it ∈ q.timers ∧ now < it.expiration := by
  rw [OrderedSet.mem_cut_right, ← not_lt]
  refine and_congr_right fun hit => ?_
  rw [hq.lt_sentry_iff hit, not_le]

/-- The timers of the batch are different ones. -/
theorem cut_timers_nodup (hq : Coherent q) (now : Timestamp) :
    ((q.timers.cut ⟨now, UINTPTR_MAX⟩).1.map Entry.timer).Nodup := by
  refine List.Nodup.map_on ?_ ((q.timers.cut_increasing _).imp ne_of_lt)
  intro it hit other hother hsame
  exact hq.entry_eq ((hq.mem_cut_left now).mp hit).1 ((hq.mem_cut_left now).mp hother).1 hsame

/-- `getExpired` cuts `timers_` at the sentry and takes what comes before it out of `activeTimers_`. -/
theorem getExpired_eq (hq : Coherent q) (now : Timestamp) :
    ∃ activeTimers,
      q.getExpired now = .ok ((q.timers.cut ⟨now, UINTPTR_MAX⟩).1,
        { q with timers := (q.timers.cut ⟨now, UINTPTR_MAX⟩).2, activeTimers := activeTimers }) ∧
      (∀ id, id ∈ activeTimers ↔ id ∈ q.activeTimers ∧
        ∀ t, q.heap id.timer = some t → now < t.expiration) ∧
      (q.timers.cut ⟨now, UINTPTR_MAX⟩).2.size = activeTimers.size := by
  have hactive : ∀ it ∈ (q.timers.cut ⟨now, UINTPTR_MAX⟩).1,
      ∃ t, q.heap it.timer = some t ∧ ⟨it.timer, t.sequence⟩ ∈ q.activeTimers := by
    intro it hit
    obtain ⟨t, ht, -, hmem⟩ := hq.timers it ((hq.mem_cut_left now).mp hit).1
    exact ⟨t, ht, hmem⟩
  have hkey : ∀ id ∈ q.activeTimers, ∀ t, q.heap id.timer = some t → t.sequence = id.sequence := by
    intro id hid t ht
    obtain ⟨u, hu, hsequence, -⟩ := hq.activeTimers id hid
    rw [hu, Option.some.injEq] at ht
    exact ht ▸ hsequence
  obtain ⟨activeTimers, herase, hin, hsize⟩ := eraseExpired_spec
    (q := { q with timers := (q.timers.cut ⟨now, UINTPTR_MAX⟩).2 }) hkey hactive
    (hq.cut_timers_nodup now)
  have hsizes : (q.timers.cut ⟨now, UINTPTR_MAX⟩).2.size = activeTimers.size := by
    have hcut := q.timers.cut_size ⟨now, UINTPTR_MAX⟩
    have hbefore := hq.sizes
    simp only at hsize
    omega
  refine ⟨activeTimers, ?_, fun id => ?_, hsizes⟩
  · have hend : ((q.timers.cut ⟨now, UINTPTR_MAX⟩).2.first.all
        fun it => decide (now < it.expiration)) = true := by
      cases hhead : (q.timers.cut ⟨now, UINTPTR_MAX⟩).2.first with
      | none => rfl
      | some it => simpa using ((hq.mem_cut_right now).mp (OrderedSet.first_mem hhead)).2
    have hagree : ({ q with
        timers := (q.timers.cut ⟨now, UINTPTR_MAX⟩).2
        activeTimers := activeTimers } : TimerSystem).sizesAgree = true := by
      simp [TimerSystem.sizesAgree, hsizes]
    have hbefore : q.sizesAgree = true := by simp [TimerSystem.sizesAgree, hq.sizes]
    simp only [getExpired, hbefore, require_true, hend, herase, hagree, bind, Except.bind]
    rfl
  · rw [hin]
    refine and_congr_right fun hid => ?_
    obtain ⟨t, ht, -, hmem⟩ := hq.activeTimers id hid
    constructor
    · intro hout u hu
      rw [ht, Option.some.injEq] at hu
      subst hu
      exact not_le.mp fun hle => hout
        (List.mem_map.mpr ⟨_, (hq.mem_cut_left now).mpr ⟨hmem, hle⟩, rfl⟩)
    · intro hlater hout
      obtain ⟨it, hit, hsame⟩ := List.mem_map.mp hout
      obtain ⟨htimer, hle⟩ := (hq.mem_cut_left now).mp hit
      rw [hq.entry_eq htimer hmem hsame] at hle
      exact absurd (hlater t ht) (not_lt.mpr hle)

end Coherent

theorem Represents.coherent (hrep : Represents q expired objects) : Coherent q where
  sizes := hrep.sizes
  timers it hit := by
    obtain ⟨t, ht, hexpiration⟩ := (hrep.timers it).mp hit
    exact ⟨t, hrep.read ht, hexpiration, (hrep.activeTimers _).mpr ⟨t, ht, rfl⟩⟩
  activeTimers id hid := by
    obtain ⟨t, ht, hsequence⟩ := (hrep.activeTimers id).mp hid
    exact ⟨t, hrep.read ht, hsequence, (hrep.timers _).mpr ⟨t, ht, rfl⟩⟩
  addresses it hit := by
    obtain ⟨t, ht, -⟩ := (hrep.timers it).mp hit
    exact hrep.addresses it.timer (by simp [ht])

theorem getExpired_spec (hrep : Represents q [] objects) (now : Timestamp) :
    ∃ expired timers activeTimers,
      q.getExpired now =
        .ok (expired, { q with timers := timers, activeTimers := activeTimers }) ∧
      (∀ it, it ∈ expired ↔ it ∈ q.timers ∧ it.expiration ≤ now) ∧
      (∀ it, it ∈ timers ↔ it ∈ q.timers ∧ now < it.expiration) ∧
      Represents { q with timers := timers, activeTimers := activeTimers } expired
        (objects.expire now) := by
  have hq := hrep.coherent
  have hempty : ∀ address condition, ¬objects.In .batch address condition := by
    rintro address condition ⟨t, ht, -⟩
    exact absurd ((hrep.batch ⟨t.expiration, address⟩).mpr ⟨t, ht, rfl⟩) List.not_mem_nil
  obtain ⟨activeTimers, heq, hin, hsizes⟩ := hq.getExpired_eq now
  refine ⟨_, _, activeTimers, heq, fun it => hq.mem_cut_left now, fun it => hq.mem_cut_right now, ?_⟩
  refine ⟨?_, ?_, ?_, ?_, ?_, hrep.pendingNodup, (q.timers.cut_increasing _).imp ne_of_lt, hsizes, ?_⟩
  · intro address
    rw [Objects.expire_timer]
    exact hrep.heap address
  · intro id
    rw [Objects.in_expire_functor]
    exact hrep.pending id
  · intro it
    rw [Objects.in_expire_queue]
    show it ∈ (q.timers.cut ⟨now, UINTPTR_MAX⟩).2 ↔ _
    rw [hq.mem_cut_right, hrep.timers]
    constructor
    · rintro ⟨⟨t, ht, hexp⟩, hlt⟩
      exact ⟨t, ht, hexp, hexp ▸ hlt⟩
    · rintro ⟨t, ht, hexp, hlt⟩
      exact ⟨⟨t, ht, hexp⟩, hexp ▸ hlt⟩
  · intro id
    rw [Objects.in_expire_queue]
    show id ∈ activeTimers ↔ _
    rw [hin, hrep.activeTimers]
    constructor
    · rintro ⟨⟨t, ht, hsequence⟩, hlater⟩
      exact ⟨t, ht, hsequence, hlater t (hrep.read ht)⟩
    · rintro ⟨t, ht, hsequence, hlt⟩
      refine ⟨⟨t, ht, hsequence⟩, fun u hu => ?_⟩
      rw [hrep.read ht, Option.some.injEq] at hu
      exact hu ▸ hlt
  · intro it
    rw [Objects.in_expire_batch (hempty it.timer), hq.mem_cut_left, hrep.timers]
    constructor
    · rintro ⟨⟨t, ht, hexp⟩, hle⟩
      exact ⟨t, ht, hexp, hexp ▸ hle⟩
    · rintro ⟨t, ht, hexp, hle⟩
      exact ⟨⟨t, ht, hexp⟩, hexp ▸ hle⟩
  · intro address hobject
    refine hrep.addresses address fun hnone => hobject ?_
    simp [Objects.expire, hnone]

end TimerSystem
end Muduo
