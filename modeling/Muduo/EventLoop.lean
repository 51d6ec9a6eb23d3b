import Mathlib.Data.List.Basic
import Mathlib.Tactic.Common

/-! The functor queue of `muduo::net::EventLoop`. `queueInLoop` pushes at the back under the mutex;
`doPendingFunctors` swaps the whole vector out under the mutex and then runs the batch, during which
further functors may be pushed. -/

namespace Muduo

/-- The caller of a function that looks at `isInLoopThread()`. -/
inductive Thread where
  | loop
  | other (id : Nat)
  deriving DecidableEq, Repr

structure FunctorQueue (F : Type) where
  pendingFunctors : List F := []
  /-- What is left of the batch `doPendingFunctors` is running. -/
  functors : List F := []
  deriving DecidableEq, Repr

namespace FunctorQueue

variable {F : Type}

/-- Every functor still to be run, in the order in which they will be run. -/
def queued (q : FunctorQueue F) : List F := q.functors ++ q.pendingFunctors

def queueInLoop (q : FunctorQueue F) (f : F) : FunctorQueue F :=
  { q with pendingFunctors := q.pendingFunctors ++ [f] }

/-- `functors.swap(pendingFunctors_)`, made when no batch is being run. -/
def swap (q : FunctorQueue F) : Option (FunctorQueue F) :=
  if q.functors = [] then some { pendingFunctors := [], functors := q.pendingFunctors } else none

/-- The next functor of the batch. -/
def next (q : FunctorQueue F) : Option (F × FunctorQueue F) :=
  match q.functors with
  | [] => none
  | f :: rest => some (f, { q with functors := rest })

@[simp] theorem queued_queueInLoop (q : FunctorQueue F) (f : F) :
    (q.queueInLoop f).queued = q.queued ++ [f] := by
  simp [queued, queueInLoop]

/-- A functor that is queued was queued before, or is the one at the back. -/
theorem split_queueInLoop {q : FunctorQueue F} {f g : F} {front back : List F}
    (hsplit : (q.queueInLoop g).queued = front ++ f :: back) :
    f = g ∧ front = q.queued ∨ ∃ rest, q.queued = front ++ f :: rest := by
  rw [queued_queueInLoop] at hsplit
  rcases List.eq_nil_or_concat back with rfl | ⟨rest, last, rfl⟩
  · obtain ⟨hfront, hlast⟩ := List.append_inj' hsplit rfl
    exact .inl ⟨(List.cons.inj hlast).1.symm, hfront.symm⟩
  · rw [List.concat_eq_append, ← List.cons_append, ← List.append_assoc] at hsplit
    exact .inr ⟨rest, (List.append_inj' hsplit rfl).1⟩

theorem swap_of_empty {q : FunctorQueue F} (hempty : q.functors = []) :
    q.swap = some { pendingFunctors := [], functors := q.pendingFunctors } := by
  simp [swap, hempty]

theorem queued_swap {q swapped : FunctorQueue F} (hswap : q.swap = some swapped) :
    swapped.queued = q.queued := by
  unfold swap at hswap
  split at hswap
  · rename_i hempty
    cases hswap
    simp [queued, hempty]
  · cases hswap

theorem pendingFunctors_swap {q swapped : FunctorQueue F} (hswap : q.swap = some swapped) :
    swapped.pendingFunctors = [] := by
  unfold swap at hswap
  split at hswap <;> cases hswap
  rfl

theorem next_eq {q rest : FunctorQueue F} {f : F} (hnext : q.next = some (f, rest)) :
    q.functors = f :: rest.functors ∧ rest.pendingFunctors = q.pendingFunctors := by
  unfold next at hnext
  split at hnext
  · cases hnext
  · rename_i head tail hbatch
    cases hnext
    exact ⟨hbatch, rfl⟩

theorem queued_next {q rest : FunctorQueue F} {f : F} (hnext : q.next = some (f, rest)) :
    q.queued = f :: rest.queued := by
  obtain ⟨hbatch, hpending⟩ := next_eq hnext
  rw [queued, queued, hbatch, hpending, List.cons_append]

end FunctorQueue
end Muduo
