import Mathlib.Algebra.BigOperators.Group.List.Basic
import Mathlib.Algebra.GroupWithZero.Nat
import Muduo.Buffer
import Muduo.Execution

/-! `muduo::FileUtil::AppendFile`: a record is handed to `fwrite_unlocked`, and what was not accepted is
handed over again, until a call accepts nothing. The counter of written bytes does not depend on that. -/

namespace Muduo

open Execution

/-- The bytes that stdio has accepted, and `writtenBytes_`. -/
structure AppendFile where
  accepted : Bytes := []
  writtenBytes : Nat := 0
  deriving DecidableEq

/-- A call of `append`: the record, and how many bytes `fwrite_unlocked` is ready to accept, attempt by
attempt. -/
structure AppendCall where
  logline : Bytes
  results : Nat → Nat

namespace AppendFile

/-- `write`, which returns how many bytes were accepted. -/
def write (f : AppendFile) (logline : Bytes) (result : Nat) : Nat × AppendFile :=
  (min result logline.length, { f with accepted := f.accepted ++ logline.take result })

/-- The loop of `append` for a number of turns at most, after so many attempts that accepted `n` bytes. -/
def retry (call : AppendCall) : Nat → Nat → Nat → AppendFile → Option AppendFile
  | 0, _, n, f => if call.logline.length - n = 0 then some f else none
  | turns + 1, attempts, n, f =>
      if call.logline.length - n = 0 then some f
      else
        let (x, next) := f.write (call.logline.drop n) (call.results attempts)
        if x = 0 then some next else retry call turns (attempts + 1) (n + x) next

/-- `append`, if a number of turns of the loop suffices. -/
def append (f : AppendFile) (call : AppendCall) (turns : Nat) : Option AppendFile :=
  let (n, first) := f.write call.logline (call.results 0)
  (retry call turns 1 n first).map fun last =>
    { last with writtenBytes := last.writtenBytes + call.logline.length }

/-- Calls of `append`, one after the other. -/
def step (f : AppendFile) (call : AppendCall) : Except Unit AppendFile :=
  match f.append call call.logline.length with
  | some next => .ok next
  | none => .error ()

end AppendFile

namespace AppendCall

/-- From an attempt on, no attempt accepts nothing until so many bytes are accepted. -/
def Accepts (call : AppendCall) (attempts remain : Nat) : Prop :=
  ∃ k, (∀ i < k, call.results (attempts + i) ≠ 0) ∧
    remain ≤ ((List.range k).map fun i => call.results (attempts + i)).sum

/-- No attempt but the first one accepts nothing while bytes of the record remain. -/
def Lasting (call : AppendCall) : Prop := call.Accepts 1 (call.logline.length - call.results 0)

variable {call : AppendCall} {attempts remain : Nat}

theorem accepts_zero : call.Accepts attempts 0 := ⟨0, fun _ h => absurd h (Nat.not_lt_zero _), Nat.le_refl _⟩

/-- Nothing is accepted, or fewer bytes remain for the next attempt. -/
theorem accepts_iff (hremain : remain ≠ 0) :
    call.Accepts attempts remain ↔
      call.results attempts ≠ 0 ∧ call.Accepts (attempts + 1) (remain - call.results attempts) := by
  constructor
  · rintro ⟨k, hnonzero, hsum⟩
    cases k with
    | zero => exact absurd (Nat.le_zero.mp hsum) hremain
    | succ k =>
        rw [List.range_succ_eq_map, List.map_cons, List.sum_cons, List.map_map] at hsum
        refine ⟨hnonzero 0 (Nat.succ_pos k), k, fun i hi => ?_, ?_⟩
        · rw [Nat.add_assoc, Nat.add_comm 1]
          exact hnonzero (i + 1) (Nat.succ_lt_succ hi)
        · simp only [Nat.add_assoc, Nat.add_comm 1]
          simp only [Function.comp_def, Nat.succ_eq_add_one, Nat.add_zero] at hsum
          omega
  · rintro ⟨hfirst, k, hnonzero, hsum⟩
    refine ⟨k + 1, fun i hi => ?_, ?_⟩
    · cases i with
      | zero => exact hfirst
      | succ i =>
          have hlater := hnonzero i (Nat.lt_of_succ_lt_succ hi)
          rwa [Nat.add_assoc, Nat.add_comm 1] at hlater
    · rw [List.range_succ_eq_map, List.map_cons, List.sum_cons, List.map_map]
      simp only [Nat.add_assoc, Nat.add_comm 1] at hsum
      simp only [Function.comp_def, Nat.succ_eq_add_one, Nat.add_zero]
      omega

end AppendCall

namespace AppendFile

open AppendCall

variable {call : AppendCall}

/-- What one attempt accepts, followed by what the later ones accept. -/
theorem take_drop_append (logline : Bytes) {n x m : Nat} (hm : n + x ≤ m) :
    (logline.drop n).take x ++ (logline.take m).drop (n + x) = (logline.take m).drop n := by
  rw [List.drop_take, List.drop_take, ← List.drop_drop, ← List.take_add]
  congr 1
  omega

theorem retry_done {n : Nat} (hdone : call.logline.length - n = 0) (turns attempts : Nat) (f : AppendFile) :
    retry call turns attempts n f = some f := by
  cases turns with
  | zero => exact if_pos hdone
  | succ turns => exact if_pos hdone

/-- **The loop.** It ends, since every turn but the last one accepts something. What it accepts are the next
bytes of the record, and it accepts all of them just when no attempt accepts nothing before. -/
theorem retry_spec (call : AppendCall) {k : Nat} (attempts n : Nat) (f : AppendFile) (hn : n ≤ call.logline.length)
    (hk : call.logline.length ≤ n + k) :
    ∃ m, n ≤ m ∧ m ≤ call.logline.length ∧
      (m = call.logline.length ↔ call.Accepts attempts (call.logline.length - n)) ∧
      ∀ turns, k ≤ turns → retry call turns attempts n f =
        some { f with accepted := f.accepted ++ (call.logline.take m).drop n } := by
  induction k generalizing attempts n f with
  | zero =>
      obtain rfl : n = call.logline.length := by omega
      refine ⟨_, Nat.le_refl _, Nat.le_refl _, iff_of_true rfl ?_, fun turns _ => ?_⟩
      · rw [Nat.sub_self]
        exact accepts_zero
      · rw [retry_done (Nat.sub_self _), List.take_length, List.drop_length, List.append_nil]
  | succ k ih =>
      by_cases hdone : call.logline.length - n = 0
      · obtain ⟨m, hle, hm, hiff, hretry⟩ := ih attempts n f hn (by omega)
        exact ⟨m, hle, hm, hiff, fun turns hturns => hretry turns (Nat.le_of_succ_le hturns)⟩
      · rw [accepts_iff hdone]
        by_cases hzero : call.results attempts = 0
        · -- the error exit
          refine ⟨n, Nat.le_refl _, hn, iff_of_false (by omega) fun h => h.1 hzero, fun turns hturns => ?_⟩
          obtain ⟨turns, rfl⟩ := Nat.exists_eq_add_of_le' (show 1 ≤ turns by omega)
          rw [retry, if_neg hdone]
          simp only [write, hzero, Nat.zero_min, if_true, List.take_zero, List.drop_take, Nat.sub_self]
        · obtain ⟨m, hle, hm, hiff, hretry⟩ := ih (attempts + 1)
            (n + min (call.results attempts) (call.logline.length - n))
            { f with accepted := f.accepted ++ (call.logline.drop n).take (call.results attempts) }
            (by omega) (by omega)
          have hsome : min (call.results attempts) (call.logline.length - n) ≠ 0 := by omega
          have htaken : (call.logline.drop n).take (call.results attempts) =
              (call.logline.drop n).take (min (call.results attempts) (call.logline.length - n)) := by
            rw [← List.length_drop, List.take_eq_take_min]
          have hremain : call.logline.length - (n + min (call.results attempts) (call.logline.length - n)) =
              call.logline.length - n - call.results attempts := by omega
          refine ⟨m, by omega, hm, ?_, fun turns hturns => ?_⟩
          · rw [hiff, hremain]
            exact (and_iff_right hzero).symm
          · obtain ⟨turns, rfl⟩ := Nat.exists_eq_add_of_le' (show 1 ≤ turns by omega)
            rw [retry, if_neg hdone]
            simp only [write, List.length_drop]
            rw [if_neg hsome, hretry turns (by omega), htaken, List.append_assoc, take_drop_append _ hle]

/-- **One call.** It ends and accepts the bytes of the record from the first one on, all of them just when
no attempt but the first accepts nothing before. The counter grows by the length of the record. -/
theorem append_spec (f : AppendFile) (call : AppendCall) :
    ∃ m, m ≤ call.logline.length ∧ (m = call.logline.length ↔ call.Lasting) ∧
      ∀ turns, call.logline.length ≤ turns → f.append call turns = some
        { accepted := f.accepted ++ call.logline.take m
          writtenBytes := f.writtenBytes + call.logline.length } := by
  obtain ⟨m, hle, hm, hiff, hretry⟩ := retry_spec call (k := call.logline.length) 1
    (min (call.results 0) call.logline.length) (f.write call.logline (call.results 0)).2
    (Nat.min_le_right _ _) (Nat.le_add_left _ _)
  have hremain : call.logline.length - min (call.results 0) call.logline.length =
      call.logline.length - call.results 0 := by omega
  rw [hremain] at hiff
  refine ⟨m, hm, hiff, fun turns hturns => ?_⟩
  have hpieces := take_drop_append call.logline (n := 0) (x := min (call.results 0) call.logline.length)
    (m := m) (by omega)
  rw [Nat.zero_add, List.drop_zero, List.drop_zero, ← List.take_eq_take_min] at hpieces
  simp only [append, write] at hretry ⊢
  rw [hretry turns hturns, Option.map_some, List.append_assoc, hpieces]

/-- The counter is right. -/
def Accounted (f : AppendFile) : Prop := f.writtenBytes = f.accepted.length

/-- **Accounting.** Every call ends and has a front part of its record accepted behind all that was accepted
before, and so does every sequence of calls. The counter equals the number of accepted bytes throughout just
when in each call no attempt but the first one accepts nothing while bytes remain. -/
theorem accounting (calls : List AppendCall) :
    (∀ (f : AppendFile) (call : AppendCall), ∃ m next,
      (∀ turns, call.logline.length ≤ turns → f.append call turns = some next) ∧
        m ≤ call.logline.length ∧ next.accepted = f.accepted ++ call.logline.take m) ∧
    (∃ final, run step {} calls = .ok final) ∧
    (Throughout step Accounted {} calls ↔ Meets step (fun _ call => call.Lasting) {} calls) := by
  have hlegal : Meets step (fun _ _ => True) {} calls := meets_of_forall (fun _ _ => trivial) _
  have hstep (f : AppendFile) (call : AppendCall) : ∃ m next, step f call = .ok next ∧
      m ≤ call.logline.length ∧ (m = call.logline.length ↔ call.Lasting) ∧
      next.accepted = f.accepted ++ call.logline.take m ∧
      next.writtenBytes = f.writtenBytes + call.logline.length := by
    obtain ⟨m, hm, hiff, happend⟩ := append_spec f call
    exact ⟨m, _, by rw [step, happend _ (Nat.le_refl _)], hm, hiff, rfl, rfl⟩
  refine ⟨fun f call => ?_, ?_, ?_⟩
  · obtain ⟨m, hm, -, happend⟩ := append_spec f call
    exact ⟨m, _, happend, hm, rfl⟩
  · obtain ⟨final, hrun, -⟩ := run_of_meets (fun _ => True) (fun f call _ _ => by
      obtain ⟨m, next, hnext, -⟩ := hstep f call
      exact ⟨next, hnext, trivial⟩) trivial hlegal
    exact ⟨final, hrun⟩
  · refine throughout_iff_meets (fun _ => True) (fun f call _ haccounted _ => ?_) trivial rfl hlegal
    obtain ⟨m, next, hnext, hm, hiff, haccepted, hwritten⟩ := hstep f call
    refine ⟨next, hnext, trivial, ?_⟩
    rw [← hiff, Accounted, haccepted, hwritten, haccounted, List.length_append, List.length_take]
    omega

/-- A full disk: the counter says that the record was written. -/
theorem full_disk_counted :
    ∃ next, run step {} [⟨ascii "record\n", fun _ => 0⟩] = .ok next ∧ next.accepted = [] ∧
      next.writtenBytes = 7 := ⟨_, rfl, rfl, rfl⟩

end AppendFile
end Muduo
