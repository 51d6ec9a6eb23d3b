import Mathlib.Data.List.Basic
import Mathlib.Tactic.Common

/-! A condition variable, with what each waiting thread waits with. A notification wakes one waiting
thread, of the system's choice, and threads may wake up for no reason. A thread that was woken takes the
mutex again some time later; others may have held it in between.

A condition variable guards a supply: so many threads could go on if they looked. It is *covered* when no
thread waits while fewer threads have been notified than could go on. The rules say which operations keep
it covered; a monitor that follows them has no lost wakeup. -/

/-- The threads inside `wait`. -/
structure CondVar (τ : Type*) where
  waiting : List τ := []
  /-- Woken by a notification. -/
  notified : List τ := []
  /-- Woken for no reason. -/
  spurious : List τ := []
  deriving DecidableEq, Repr

/-- A thread that was woken, by its place among those. -/
inductive Woken where
  | notified (index : Nat)
  | spurious (index : Nat)
  deriving DecidableEq, Repr

namespace CondVar

variable {τ : Type*}

def threads (c : CondVar τ) : List τ := c.waiting ++ c.notified ++ c.spurious

def wait (c : CondVar τ) (t : τ) : CondVar τ := { c with waiting := c.waiting ++ [t] }

/-- The waiting thread at the index is woken, if a thread waits at all. -/
def notify (c : CondVar τ) (index : Nat) : Option (CondVar τ) :=
  if c.waiting.isEmpty then some c
  else (c.waiting[index]?).map fun t =>
    { c with waiting := c.waiting.eraseIdx index, notified := c.notified ++ [t] }

def notifyAll (c : CondVar τ) : CondVar τ :=
  { c with waiting := [], notified := c.notified ++ c.waiting }

def wakeUp (c : CondVar τ) (index : Nat) : Option (CondVar τ) :=
  (c.waiting[index]?).map fun t =>
    { c with waiting := c.waiting.eraseIdx index, spurious := c.spurious ++ [t] }

/-- A woken thread has the mutex again. -/
def resume (c : CondVar τ) : Woken → Option (τ × CondVar τ)
  | .notified index => (c.notified[index]?).map fun t =>
      (t, { c with notified := c.notified.eraseIdx index })
  | .spurious index => (c.spurious[index]?).map fun t =>
      (t, { c with spurious := c.spurious.eraseIdx index })

/-- As many threads have been notified as could go on, if any still wait. -/
def Covered (c : CondVar τ) (supply : Nat) : Prop := c.waiting ≠ [] → supply ≤ c.notified.length

section Rules

variable {c c' : CondVar τ} {supply index : Nat} {t : τ}

theorem notify_cases (hnotify : c.notify index = some c') :
    (c.waiting = [] ∧ c' = c) ∨ ∃ t, c.waiting[index]? = some t ∧
      c' = { c with waiting := c.waiting.eraseIdx index, notified := c.notified ++ [t] } := by
  rw [notify] at hnotify
  split at hnotify
  · rename_i hnone
    exact .inl ⟨List.isEmpty_iff.mp hnone, (Option.some.inj hnotify).symm⟩
  · obtain ⟨t, ht, heq⟩ := Option.map_eq_some_iff.mp hnotify
    exact .inr ⟨t, ht, heq.symm⟩

theorem length_waiting_notify (hnotify : c.notify index = some c') :
    c'.waiting.length = c.waiting.length - 1 := by
  rcases notify_cases hnotify with ⟨hnone, rfl⟩ | ⟨t, ht, rfl⟩
  · rw [hnone]
    rfl
  · obtain ⟨hlt, -⟩ := List.getElem?_eq_some_iff.mp ht
    exact List.length_eraseIdx_of_lt hlt

theorem wakeUp_eq (hwake : c.wakeUp index = some c') :
    ∃ t, c.waiting[index]? = some t ∧
      c' = { c with waiting := c.waiting.eraseIdx index, spurious := c.spurious ++ [t] } := by
  obtain ⟨t, ht, heq⟩ := Option.map_eq_some_iff.mp hwake
  exact ⟨t, ht, heq.symm⟩

theorem length_waiting_wakeUp (hwake : c.wakeUp index = some c') :
    c'.waiting.length ≤ c.waiting.length := by
  obtain ⟨t, -, rfl⟩ := wakeUp_eq hwake
  exact List.length_eraseIdx_le _ _

theorem waiting_resume {woken : Woken} (hresume : c.resume woken = some (t, c')) :
    c'.waiting = c.waiting := by
  cases woken with
  | notified index | spurious index =>
      obtain ⟨u, -, heq⟩ := Option.map_eq_some_iff.mp hresume
      cases heq
      rfl

/-- At most the one thread is missing among the notified. -/
theorem length_notified_resume {woken : Woken} (hresume : c.resume woken = some (t, c')) :
    c.notified.length ≤ c'.notified.length + 1 := by
  cases woken with
  | notified index =>
      obtain ⟨u, hu, heq⟩ := Option.map_eq_some_iff.mp hresume
      obtain ⟨hlt, -⟩ := List.getElem?_eq_some_iff.mp hu
      cases heq
      rw [List.length_eraseIdx_of_lt hlt]
      omega
  | spurious index =>
      obtain ⟨u, -, heq⟩ := Option.map_eq_some_iff.mp hresume
      cases heq
      exact Nat.le_succ _

theorem covered_new (supply : Nat) : Covered ({} : CondVar τ) supply := fun hwaiting => absurd rfl hwaiting

theorem covered_zero (c : CondVar τ) : c.Covered 0 := fun _ => Nat.zero_le _

namespace Covered

theorem mono (hcovered : c.Covered supply) {less : Nat} (hle : less ≤ supply) : c.Covered less :=
  fun hwaiting => Nat.le_trans hle (hcovered hwaiting)

/-- A unit is supplied and one thread is notified. -/
theorem notify (hcovered : c.Covered supply) (hnotify : c.notify index = some c') :
    c'.Covered (supply + 1) := by
  rcases notify_cases hnotify with ⟨hnone, rfl⟩ | ⟨t, ht, rfl⟩
  · exact fun hwaiting => absurd hnone hwaiting
  · intro _
    have hwaiting : c.waiting ≠ [] := by
      intro hnone
      rw [hnone] at ht
      cases ht
    have hle := hcovered hwaiting
    rw [List.length_append, List.length_singleton]
    omega

theorem wakeUp (hcovered : c.Covered supply) (hwake : c.wakeUp index = some c') :
    c'.Covered supply := by
  obtain ⟨t, ht, rfl⟩ := wakeUp_eq hwake
  intro _
  refine hcovered fun hnone => ?_
  rw [hnone] at ht
  cases ht

/-- A woken thread takes one unit. -/
theorem resume (hcovered : c.Covered supply) {woken : Woken}
    (hresume : c.resume woken = some (t, c')) : c'.Covered (supply - 1) := by
  intro hwaiting
  rw [waiting_resume hresume] at hwaiting
  have hle := hcovered hwaiting
  have hlength := length_notified_resume hresume
  omega

/-- No thread sleeps while there is something for it and nobody was told. -/
theorem not_stuck (hcovered : c.Covered supply) :
    ¬ (0 < supply ∧ c.waiting ≠ [] ∧ c.notified = []) := by
  rintro ⟨hpos, hwaiting, hnone⟩
  have hle := hcovered hwaiting
  rw [hnone, List.length_nil] at hle
  omega

end Covered

end Rules

end CondVar
