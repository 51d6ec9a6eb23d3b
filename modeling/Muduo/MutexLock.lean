import Mathlib.Data.Finset.Basic
import Muduo.Execution

/-! `muduo::MutexLock` and `muduo::Condition`. Beside the pthread mutex a `MutexLock` has a field `holder_`,
which is written before the mutex is released and after it is acquired, also inside `Condition::wait()`. The
two are not changed in one step, so a thread that looks at `holder_` may find any state in between. The
threads take their steps in any order; each read or write of `holder_` and each pthread call is a step. -/

namespace Muduo

open Execution

/-- `CurrentThread::tid()` of every thread: no two threads have one id, and no id is 0. -/
structure ThreadIds (ι : Type*) where
  tid : ι → Int
  tid_pos : ∀ t, 0 < tid t
  tid_injective : Function.Injective tid

/-- Where a thread is in the code of `MutexLock` and `Condition`. -/
inductive MutexPlace where
  | outside
  /-- In `lock()`, behind `pthread_mutex_lock`. -/
  | locked
  /-- Between `assignHolder()` and `unassignHolder()`: the caller's critical section. -/
  | inside
  /-- In `unlock()`, before `pthread_mutex_unlock`. -/
  | unlocking
  /-- In `wait()`, before `pthread_cond_wait` releases the mutex. -/
  | parting
  /-- Asleep in `pthread_cond_wait`. -/
  | waiting
  /-- Woken, for a reason or for none, and without the mutex. -/
  | woken
  /-- In `wait()`, behind `pthread_cond_wait`. -/
  | returned
  deriving DecidableEq, Repr

/-- The thread has the pthread mutex there. -/
def MutexPlace.owns : MutexPlace → Bool
  | .locked | .inside | .unlocking | .parting | .returned => true
  | .outside | .waiting | .woken => false

theorem MutexPlace.ne_outside {p : MutexPlace} (hp : p.owns = true) : p ≠ .outside := by
  rintro rfl
  cases hp

/-- Why a step is not taken: it is not one the thread can take now, or an assertion fails. -/
inductive MutexStop where
  | disabled
  | assertion
  deriving DecidableEq, Repr

structure MutexLock (ι : Type*) where
  /-- The thread that has the pthread mutex. -/
  owner : Option ι := none
  holder : Int := 0
  place : ι → MutexPlace := fun _ => .outside
  /-- The threads that have locked the mutex and not unlocked it, those in `pthread_cond_wait` included. -/
  users : Finset ι := ∅

namespace MutexLock

variable {ι : Type*} [DecidableEq ι] (ids : ThreadIds ι)

def isLockedByThisThread (m : MutexLock ι) (t : ι) : Bool := m.holder == ids.tid t

def assignHolder (m : MutexLock ι) (t : ι) : MutexLock ι := { m with holder := ids.tid t }

def unassignHolder (m : MutexLock ι) : MutexLock ι := { m with holder := 0 }

def arrive (m : MutexLock ι) (t : ι) (p : MutexPlace) : MutexLock ι :=
  { m with place := Function.update m.place t p }

/-- `pthread_mutex_lock`, and the end of `pthread_cond_wait`. -/
def acquire (m : MutexLock ι) (t : ι) (p : MutexPlace) : Except MutexStop (MutexLock ι) :=
  if m.owner = none then .ok ({ m with owner := some t }.arrive t p) else .error .disabled

/-- `pthread_mutex_unlock`, and the beginning of `pthread_cond_wait`. -/
def release (m : MutexLock ι) (t : ι) (p : MutexPlace) : Except MutexStop (MutexLock ι) :=
  -- MCHECK
  if m.owner = some t then .ok ({ m with owner := none }.arrive t p) else .error .assertion

/-- `~MutexLock()`. -/
def destroy (m : MutexLock ι) : Except MutexStop Unit :=
  if m.holder = 0 then
    -- MCHECK: pthread_mutex_destroy refuses a mutex that has users
    if m.users = ∅ then .ok () else .error .assertion
  else .error .assertion

inductive Label (ι : Type*) where
  /-- `lock()`: `pthread_mutex_lock`, then `assignHolder()`. -/
  | lock (t : ι)
  | assign (t : ι)
  /-- `unlock()`: `unassignHolder()`, then `pthread_mutex_unlock`. -/
  | unassign (t : ι)
  | unlock (t : ι)
  /-- `Condition::wait()`: the constructor of `UnassignGuard`, `pthread_cond_wait`, which sleeps and takes
  the mutex again, and the destructor of the guard. -/
  | wait (t : ι)
  | sleep (t : ι)
  | wake (t : ι)
  | reacquire (t : ι)
  | reassign (t : ι)
  /-- `notifyAll()`. -/
  | wakeAll
  | assertLocked (t : ι)
  deriving DecidableEq, Repr

def step (m : MutexLock ι) : Label ι → Except MutexStop (MutexLock ι)
  | .lock t =>
      if m.place t = .outside then { m with users := insert t m.users }.acquire t .locked
      else .error .disabled
  | .assign t =>
      if m.place t = .locked then .ok ((m.assignHolder ids t).arrive t .inside) else .error .disabled
  | .unassign t =>
      if m.place t = .inside then .ok (m.unassignHolder.arrive t .unlocking) else .error .disabled
  | .unlock t =>
      if m.place t = .unlocking then { m with users := m.users.erase t }.release t .outside
      else .error .disabled
  | .wait t =>
      if m.place t = .inside then .ok (m.unassignHolder.arrive t .parting) else .error .disabled
  | .sleep t => if m.place t = .parting then m.release t .waiting else .error .disabled
  | .wake t => if m.place t = .waiting then .ok (m.arrive t .woken) else .error .disabled
  | .reacquire t => if m.place t = .woken then m.acquire t .returned else .error .disabled
  | .reassign t =>
      if m.place t = .returned then .ok ((m.assignHolder ids t).arrive t .inside) else .error .disabled
  | .wakeAll => .ok { m with place := fun t => if m.place t = .waiting then .woken else m.place t }
  | .assertLocked t => if m.isLockedByThisThread ids t then .ok m else .error .assertion

/-- The thread that takes the step, and the places between which it goes. -/
def Label.passage : Label ι → Option (ι × MutexPlace × MutexPlace)
  | .lock t => some (t, .outside, .locked)
  | .assign t => some (t, .locked, .inside)
  | .unassign t => some (t, .inside, .unlocking)
  | .unlock t => some (t, .unlocking, .outside)
  | .wait t => some (t, .inside, .parting)
  | .sleep t => some (t, .parting, .waiting)
  | .wake t => some (t, .waiting, .woken)
  | .reacquire t => some (t, .woken, .returned)
  | .reassign t => some (t, .returned, .inside)
  | .wakeAll | .assertLocked _ => none

/-! ## The holder -/

/-- The pthread mutex belongs to the thread that is at a place where it has it, and `holder_` is the id of
the thread inside. The users are the threads that are not outside. -/
structure Inv (m : MutexLock ι) : Prop where
  owner_iff : ∀ t, m.owner = some t ↔ (m.place t).owns = true
  holder_iff : ∀ t, m.holder = ids.tid t ↔ m.place t = .inside
  holder_cases : m.holder = 0 ∨ ∃ t, m.holder = ids.tid t
  users_iff : ∀ t, t ∈ m.users ↔ m.place t ≠ .outside

variable {ids} {m : MutexLock ι}

omit [DecidableEq ι] in
theorem inv_new : Inv ids ({} : MutexLock ι) where
  owner_iff t := iff_of_false (fun h => by cases h) (fun h => by cases h)
  holder_iff t := iff_of_false (Int.ne_of_lt (ids.tid_pos t)) (fun h => by cases h)
  holder_cases := .inl rfl
  users_iff t := iff_of_false (Finset.notMem_empty t) (not_not_intro rfl)

namespace Inv

omit [DecidableEq ι] in
theorem exclusive (hinv : Inv ids m) {t u : ι} (ht : (m.place t).owns = true)
    (hu : (m.place u).owns = true) : t = u :=
  Option.some.inj (((hinv.owner_iff t).mpr ht).symm.trans ((hinv.owner_iff u).mpr hu))

omit [DecidableEq ι] in
/-- Nobody else is inside while a thread has the mutex. -/
theorem holder_ne (hinv : Inv ids m) {t u : ι} (ht : (m.place t).owns = true) (hne : u ≠ t) :
    m.holder ≠ ids.tid u := by
  intro hholder
  have hinside := (hinv.holder_iff u).mp hholder
  exact hne (hinv.exclusive (by rw [hinside]; rfl) ht)

omit [DecidableEq ι] in
theorem mem_users (hinv : Inv ids m) {t : ι} {p : MutexPlace} (ht : m.place t ≠ .outside) (hp : p ≠ .outside) :
    t ∈ m.users ↔ p ≠ .outside :=
  iff_of_true ((hinv.users_iff t).mpr ht) hp

/-- One thread changes its place. -/
theorem arrive (hinv : Inv ids m) {t : ι} {p : MutexPlace} {owner : Option ι} {holder : Int} {users : Finset ι}
    (howner : owner = some t ↔ p.owns = true) (hothers : ∀ u, u ≠ t → (owner = some u ↔ m.owner = some u))
    (hholder : holder = ids.tid t ↔ p = .inside)
    (hstrangers : ∀ u, u ≠ t → (holder = ids.tid u ↔ m.holder = ids.tid u))
    (hcases : holder = 0 ∨ ∃ u, holder = ids.tid u) (huser : t ∈ users ↔ p ≠ .outside)
    (hrest : ∀ u, u ≠ t → (u ∈ users ↔ u ∈ m.users)) :
    Inv ids (MutexLock.arrive ⟨owner, holder, m.place, users⟩ t p) where
  owner_iff := (Function.forall_update_iff m.place fun u q => owner = some u ↔ q.owns = true).mpr
    ⟨howner, fun u hu => (hothers u hu).trans (hinv.owner_iff u)⟩
  holder_iff := (Function.forall_update_iff m.place fun u q => holder = ids.tid u ↔ q = .inside).mpr
    ⟨hholder, fun u hu => (hstrangers u hu).trans (hinv.holder_iff u)⟩
  holder_cases := hcases
  users_iff := (Function.forall_update_iff m.place fun u q => u ∈ users ↔ q ≠ .outside).mpr
    ⟨huser, fun u hu => (hrest u hu).trans (hinv.users_iff u)⟩

/-- A thread in the condition that does not have the mutex goes on. -/
theorem stay (hinv : Inv ids m) {t : ι} {p : MutexPlace} (ht : (m.place t).owns = false)
    (hp : p.owns = false) (husers : m.place t ≠ .outside ∧ p ≠ .outside) : Inv ids (m.arrive t p) := by
  have howner : m.owner ≠ some t := fun h => by simp [(hinv.owner_iff t).mp h] at ht
  have hholder : m.holder ≠ ids.tid t := fun h => by simp [(hinv.holder_iff t).mp h, MutexPlace.owns] at ht
  refine hinv.arrive (iff_of_false howner (by simp [hp])) (fun _ _ => Iff.rfl) (iff_of_false hholder ?_)
    (fun _ _ => Iff.rfl) hinv.holder_cases (hinv.mem_users husers.1 husers.2) (fun _ _ => Iff.rfl)
  rintro rfl
  cases hp

theorem acquire (hinv : Inv ids m) {t : ι} {p : MutexPlace} {users : Finset ι} (ht : (m.place t).owns = false)
    (hp : p.owns = true) (hnot : p ≠ .inside) (huser : t ∈ users)
    (hrest : ∀ u, u ≠ t → (u ∈ users ↔ u ∈ m.users)) {next : MutexLock ι}
    (hnext : { m with users := users }.acquire t p = .ok next) : Inv ids next := by
  obtain ⟨hfree, hnext⟩ := guarded_ok.mp hnext
  cases hnext
  have hholder : m.holder ≠ ids.tid t := fun h => by simp [(hinv.holder_iff t).mp h, MutexPlace.owns] at ht
  refine hinv.arrive (iff_of_true rfl hp) (fun u hu => ?_) (iff_of_false hholder hnot)
    (fun _ _ => Iff.rfl) hinv.holder_cases (iff_of_true huser (MutexPlace.ne_outside hp)) hrest
  rw [show m.owner = none from hfree]
  exact iff_of_false (fun h => hu (Option.some.inj h).symm) (fun h => by cases h)

/-- The thread that has the mutex writes its id. -/
theorem assign (hinv : Inv ids m) {t : ι} (ht : (m.place t).owns = true) :
    Inv ids ((m.assignHolder ids t).arrive t .inside) := by
  refine hinv.arrive (iff_of_true ((hinv.owner_iff t).mpr ht) rfl) (fun _ _ => Iff.rfl)
    (iff_of_true rfl rfl) (fun u hu => ?_) (.inr ⟨t, rfl⟩)
    (hinv.mem_users (MutexPlace.ne_outside ht) (by decide)) (fun _ _ => Iff.rfl)
  exact iff_of_false (fun h => hu (ids.tid_injective h).symm) (hinv.holder_ne ht hu)

/-- The thread inside writes 0. -/
theorem unassign (hinv : Inv ids m) {t : ι} {p : MutexPlace} (ht : m.place t = .inside)
    (hp : p.owns = true) (hnot : p ≠ .inside) : Inv ids (m.unassignHolder.arrive t p) := by
  have howns : (m.place t).owns = true := by rw [ht]; rfl
  refine hinv.arrive (iff_of_true ((hinv.owner_iff t).mpr howns) hp) (fun _ _ => Iff.rfl)
    (iff_of_false (Int.ne_of_lt (ids.tid_pos t)) hnot) (fun u hu => ?_) (.inl rfl)
    (hinv.mem_users (MutexPlace.ne_outside howns) (MutexPlace.ne_outside hp)) (fun _ _ => Iff.rfl)
  exact iff_of_false (Int.ne_of_lt (ids.tid_pos u)) (hinv.holder_ne howns hu)

/-- The thread that has the mutex releases it. -/
theorem release (hinv : Inv ids m) {t : ι} {p : MutexPlace} {users : Finset ι} (hnot : m.place t ≠ .inside)
    (hp : p.owns = false) (huser : t ∈ users ↔ p ≠ .outside) (hrest : ∀ u, u ≠ t → (u ∈ users ↔ u ∈ m.users))
    {next : MutexLock ι} (hnext : { m with users := users }.release t p = .ok next) : Inv ids next := by
  obtain ⟨howner, hnext⟩ := guarded_ok.mp hnext
  cases hnext
  have hholder : m.holder ≠ ids.tid t := fun h => hnot ((hinv.holder_iff t).mp h)
  refine hinv.arrive (iff_of_false (fun h => by cases h) (by simp [hp])) (fun u hu => ?_)
    (iff_of_false hholder ?_) (fun _ _ => Iff.rfl) hinv.holder_cases huser hrest
  · rw [show m.owner = some t from howner]
    exact iff_of_false (fun h => by cases h) (fun h => hu (Option.some.inj h).symm)
  · rintro rfl
    cases hp

omit [DecidableEq ι] in
theorem wakeAll (hinv : Inv ids m) :
    Inv ids { m with place := fun t => if m.place t = .waiting then .woken else m.place t } where
  owner_iff t := by
    refine (hinv.owner_iff t).trans ?_
    by_cases hwaiting : m.place t = .waiting
    · simp [hwaiting, MutexPlace.owns]
    · simp [hwaiting]
  holder_iff t := by
    refine (hinv.holder_iff t).trans ?_
    by_cases hwaiting : m.place t = .waiting
    · simp [hwaiting]
    · simp [hwaiting]
  holder_cases := hinv.holder_cases
  users_iff t := by
    refine (hinv.users_iff t).trans ?_
    by_cases hwaiting : m.place t = .waiting
    · simp [hwaiting]
    · simp [hwaiting]

end Inv

theorem place_step {label : Label ι} {t : ι} {before after : MutexPlace} {next : MutexLock ι}
    (hpassage : label.passage = some (t, before, after)) (hstep : step ids m label = .ok next) :
    m.place t = before ∧ next.place = Function.update m.place t after := by
  have hguarded {p : MutexPlace} {attempt : Except MutexStop (MutexLock ι)}
      (hok : (if m.place t = p then attempt else .error .disabled) = .ok next)
      (hattempt : attempt = .ok next → next.place = Function.update m.place t after) :
      m.place t = p ∧ next.place = Function.update m.place t after := by
    obtain ⟨hplace, hnext⟩ := guarded_ok.mp hok
    exact ⟨hplace, hattempt hnext⟩
  cases label with
  | lock u | reacquire u | unlock u | sleep u =>
      cases hpassage
      refine hguarded hstep fun hnext => ?_
      obtain ⟨-, hnext⟩ := guarded_ok.mp hnext
      cases hnext
      rfl
  | assign u | unassign u | wait u | wake u | reassign u =>
      cases hpassage
      refine hguarded hstep fun hnext => ?_
      cases hnext
      rfl
  | wakeAll | assertLocked u => cases hpassage

/-- The calls of `assertLocked()` that are right. -/
def Right (m : MutexLock ι) : Label ι → Prop
  | .assertLocked t => m.place t = .inside
  | _ => True

omit [DecidableEq ι] in
theorem isLockedByThisThread_eq (hinv : Inv ids m) (t : ι) :
    m.isLockedByThisThread ids t = true ↔ m.place t = .inside :=
  beq_iff_eq.trans (hinv.holder_iff t)

theorem step_inv (hinv : Inv ids m) {label : Label ι} {next : MutexLock ι}
    (hstep : step ids m label = .ok next) : Inv ids next := by
  cases label with
  | lock t =>
      obtain ⟨hplace, hnext⟩ := guarded_ok.mp hstep
      refine hinv.acquire (by rw [hplace]; rfl) rfl (by decide) (Finset.mem_insert_self _ _)
        (fun u hu => ?_) hnext
      rw [Finset.mem_insert, or_iff_right hu]
  | reacquire t =>
      obtain ⟨hplace, hnext⟩ := guarded_ok.mp hstep
      exact hinv.acquire (by rw [hplace]; rfl) rfl (by decide) ((hinv.users_iff t).mpr (by rw [hplace]; decide))
        (fun _ _ => Iff.rfl) hnext
  | assign t | reassign t =>
      obtain ⟨hplace, hnext⟩ := guarded_ok.mp hstep
      cases hnext
      exact hinv.assign (by rw [hplace]; rfl)
  | unassign t | wait t =>
      obtain ⟨hplace, hnext⟩ := guarded_ok.mp hstep
      cases hnext
      exact hinv.unassign hplace rfl (by decide)
  | unlock t =>
      obtain ⟨hplace, hnext⟩ := guarded_ok.mp hstep
      refine hinv.release (by simp [hplace]) rfl (by simp) (fun u hu => ?_) hnext
      rw [Finset.mem_erase, and_iff_right hu]
  | sleep t =>
      obtain ⟨hplace, hnext⟩ := guarded_ok.mp hstep
      exact hinv.release (by simp [hplace]) rfl (hinv.mem_users (by rw [hplace]; decide) (by decide))
        (fun _ _ => Iff.rfl) hnext
  | wake t =>
      obtain ⟨hplace, hnext⟩ := guarded_ok.mp hstep
      cases hnext
      exact hinv.stay (by rw [hplace]; rfl) rfl ⟨by rw [hplace]; decide, by decide⟩
  | wakeAll =>
      cases hstep
      exact hinv.wakeAll
  | assertLocked t =>
      obtain ⟨-, hnext⟩ := guarded_ok.mp hstep
      cases hnext
      exact hinv

/-- A step is stopped by an assertion just when it is `assertLocked()` in a thread that is not inside. -/
theorem step_assertion_iff (hinv : Inv ids m) (label : Label ι) :
    (∀ reason, step ids m label = .error reason → reason = .disabled) ↔ Right m label := by
  have hrelease {t : ι} {p place : MutexPlace} {users : Finset ι} (hplace : place.owns = true)
      (reason : MutexStop)
      (hstep : (if m.place t = place then { m with users := users }.release t p else .error .disabled) =
        .error reason) : reason = .disabled := by
    split at hstep
    · rename_i ht
      rw [release, if_pos ((hinv.owner_iff t).mpr (by rw [ht]; exact hplace))] at hstep
      cases hstep
    · cases hstep
      rfl
  cases label with
  | unlock t | sleep t => exact iff_of_true (hrelease rfl) trivial
  | assertLocked t =>
      rw [Right, ← isLockedByThisThread_eq hinv, step]
      by_cases hlocked : m.isLockedByThisThread ids t = true
      · simp [hlocked]
      · simp [hlocked]
  | lock t | reacquire t =>
      refine iff_of_true (fun reason hstep => ?_) trivial
      simp only [step, acquire] at hstep
      split_ifs at hstep <;> cases hstep <;> rfl
  | assign t | unassign t | wait t | wake t | reassign t =>
      refine iff_of_true (fun reason hstep => ?_) trivial
      simp only [step] at hstep
      split_ifs at hstep
      cases hstep
      rfl
  | wakeAll => exact iff_of_true (fun reason hstep => by cases hstep) trivial

theorem destroy_ok_iff (hinv : Inv ids m) : m.destroy = .ok () ↔ ∀ t, m.place t = .outside := by
  have hfree : m.users = ∅ ↔ ∀ t, m.place t = .outside := by
    rw [Finset.eq_empty_iff_forall_notMem]
    refine forall_congr' fun t => ?_
    rw [hinv.users_iff, not_not]
  rw [destroy, guarded_ok, guarded_ok, hfree]
  constructor
  · intro hdestroy
    exact hdestroy.2.1
  · intro hnobody
    refine ⟨hinv.holder_cases.resolve_right ?_, hnobody, rfl⟩
    rintro ⟨t, ht⟩
    cases (hnobody t).symm.trans ((hinv.holder_iff t).mp ht)

/-- **The holder.** In every run of any number of threads, the only assertion that can fail is
`assertLocked()` in a thread that is not between `lock()` and `unlock()`, or is in `wait()`. In every state
in between `isLockedByThisThread()` tells the thread just whether it is inside, at most one thread has the
mutex, and the mutex can be destroyed just when no thread is in the code of the mutex or of the condition. -/
theorem holder_exact (ids : ThreadIds ι) (labels : List (Label ι)) :
    ((∀ reason, run (step ids) {} labels = .error reason → reason = .disabled) ↔
      Meets (step ids) Right {} labels) ∧
    ∀ m, run (step ids) {} labels = .ok m →
      (∀ t, m.isLockedByThisThread ids t = true ↔ m.place t = .inside) ∧
      (∀ t u, (m.place t).owns = true → (m.place u).owns = true → t = u) ∧
      (m.destroy = .ok () ↔ ∀ t, m.place t = .outside) := by
  constructor
  · refine run_harmless_iff_meets (Inv ids) (fun m label hinv => ?_) inv_new
    exact ⟨step_assertion_iff hinv label, fun next hstep => step_inv hinv hstep⟩
  · intro m hrun
    have hinv := run_preserves (Inv ids) (fun m label next hinv hstep => step_inv hinv hstep) inv_new hrun
    exact ⟨isLockedByThisThread_eq hinv, fun t u ht hu => hinv.exclusive ht hu, destroy_ok_iff hinv⟩

end MutexLock
end Muduo
