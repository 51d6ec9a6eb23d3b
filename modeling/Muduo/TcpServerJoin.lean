import Muduo.TcpServerSpread
import Muduo.TcpServerTeardown

/-! The end of an orderly teardown. Whatever the loops were doing when the server was destroyed, they can be
brought to their ends, after which the base loop can run what it has left. Then `connectDestroyed` has run
once for every connection. -/

namespace Muduo.TcpServer

open Execution

variable {cfg : ServerConfig} {s t : TcpServer} {stage : Nat → Stage} {c l : Nat}

/-! ## Steps after the destructor -/

/-- The server is destroyed, and no connection is in the middle of a `shutdown()`. -/
structure Quiet (cfg : ServerConfig) (s : TcpServer) : Prop where
  secure : Secure cfg s
  destroyed : s.destroyed = true
  calm : ∀ c, c < s.accepted → (s.connection c).state ≠ .kDisconnecting

/-- The teardown goes on in an orderly way. -/
structure Goes (cfg : ServerConfig) (s t : TcpServer) : Prop where
  leads : Leads (step cfg) Orderly s t
  quiet : Quiet cfg t
  accepted_eq : t.accepted = s.accepted

theorem Goes.refl (hquiet : Quiet cfg s) : Goes cfg s s := ⟨Leads.refl s, hquiet, rfl⟩

theorem Goes.trans {u : TcpServer} (hst : Goes cfg s t) (htu : Goes cfg t u) : Goes cfg s u :=
  ⟨hst.leads.trans htu.leads, htu.quiet, htu.accepted_eq.trans hst.accepted_eq⟩

theorem Quiet.goes_of_step (hquiet : Quiet cfg s) {label : Label} (hstep : s.step cfg label = .ok t)
    (haccept : label ≠ .accept) (horderly : Orderly s label)
    (hdestroyed : t.destroyed = s.destroyed)
    (hcalm : ∀ c, (s.connection c).state ≠ .kDisconnecting → (t.connection c).state ≠ .kDisconnecting) :
    Goes cfg s t := by
  have haccepted : t.accepted = s.accepted := by
    rw [accepted_step hstep, if_neg haccept]
    rfl
  refine ⟨.of_step horderly hstep, ⟨?_, hdestroyed.trans hquiet.destroyed, fun c hc => ?_⟩, haccepted⟩
  · rcases secure_step hquiet.secure ⟨fun h => absurd h haccept, horderly⟩ with
      ⟨stop, hstop, -⟩ | ⟨next, hnext, hsecure⟩
    · rw [hstop] at hstep
      cases hstep
    · obtain rfl := Except.ok.inj (hnext.symm.trans hstep)
      exact hsecure
  · exact hcalm c (hquiet.calm c (haccepted ▸ hc))

/-- A step that concerns a loop only. -/
theorem Quiet.goes_of_setLoop (hquiet : Quiet cfg s) {label : Label} {changed : ServerLoop}
    (hstep : s.step cfg label = .ok (s.setLoop l changed)) (haccept : label ≠ .accept)
    (horderly : Orderly s label) : Goes cfg s (s.setLoop l changed) :=
  hquiet.goes_of_step hstep haccept horderly rfl fun _ h => h

/-- No functor puts a connection in the middle of a `shutdown()`. -/
theorem state_perform {f : ServerFunctor} (hperform : s.perform f = .ok t)
    (hcalm : (s.connection c).state ≠ .kDisconnecting) :
    (t.connection c).state ≠ .kDisconnecting := by
  obtain ⟨d, hperformed⟩ := performed_of_perform hperform
  by_cases hc : c = d
  · subst hc
    cases hperformed with
    | established => simp [modify]
    | removed _ => simpa [queueInLoop, setLoop, erase, modify] using hcalm
    | destroyed =>
        by_cases hconnected : (s.connection c).state = .kConnected
        · simp [modify, hconnected]
        · simpa [modify, hconnected] using hcalm
  · cases hperformed with
    | established | destroyed => simpa [modify, hc] using hcalm
    | removed _ => simpa [queueInLoop, setLoop, erase, modify, hc] using hcalm

/-! ## Batches -/

/-- A loop that has not ended can still run. -/
theorem Goes.canRun_eq (hgoes : Goes cfg s t) (hquiet : Quiet cfg s) {changed : ServerLoop}
    (hloop : t.loop = (s.setLoop l changed).loop) (hexited : changed.exited = (s.loop l).exited) :
    t.canRun cfg l = s.canRun cfg l := by
  have hall (k : Nat) : (t.loop k).exited = (s.loop k).exited := by
    by_cases hk : k = l
    · rw [hloop, hk, loop_setLoop_self, hexited]
    · rw [hloop, loop_setLoop_of_ne hk]
  simp only [canRun, joined, hall, hgoes.quiet.destroyed, hquiet.destroyed]

/-- The loop runs the functor in front. -/
theorem Quiet.execute (hquiet : Quiet cfg s) (hcan : s.canRun cfg l = true)
    (hrunning : (s.loop l).running = true) {f : ServerFunctor} {later : List ServerFunctor}
    (hbatch : (s.loop l).queue.functors = f :: later) :
    ∃ t, Goes cfg s t ∧ t.loop = (s.setLoop l { s.loop l with
      queue := { (s.loop l).queue with functors := later } }).loop := by
  obtain ⟨stage, hstaged⟩ := hquiet.secure.1
  have hnext : (s.loop l).queue.next = some (f, { (s.loop l).queue with functors := later }) := by
    rw [FunctorQueue.next, hbatch]
  have hcalm := hquiet.calm _ (hstaged.connection_lt hnext)
  obtain ⟨t, stage', hperform, -, hdestroyed⟩ := hstaged.execute hnext fun _ => hcalm
  have hstep : s.step cfg (.execute l) = .ok t := by
    rw [step, if_pos (by rw [enabled, hcan, hrunning]; rfl), effect, hnext]
    exact hperform
  refine ⟨t, hquiet.goes_of_step hstep (by simp) ?_ hdestroyed fun c hstate => ?_, ?_⟩
  · intro _ g hg
    rw [hbatch, List.head?_cons, Option.mem_some_iff] at hg
    exact hg ▸ hcalm
  · have hkept := state_perform (c := c) hperform hstate
    exact hkept
  · rcases loop_perform hperform with hloop | ⟨halive, -⟩
    · exact hloop
    · exact Bool.noConfusion (halive.symm.trans hquiet.destroyed)

/-- The loop runs all functors of its batch. -/
theorem Quiet.drain (hquiet : Quiet cfg s) (hcan : s.canRun cfg l = true)
    (hrunning : (s.loop l).running = true) :
    ∃ t, Goes cfg s t ∧ t.loop = (s.setLoop l { s.loop l with
      queue := { (s.loop l).queue with functors := [] } }).loop := by
  generalize hbatch : (s.loop l).queue.functors = batch
  induction batch generalizing s with
  | nil =>
      refine ⟨s, .refl hquiet, ?_⟩
      rw [← hbatch]
      exact (Function.update_eq_self l s.loop).symm
  | cons f later ih =>
      obtain ⟨next, hgoes, hloop⟩ := hquiet.execute hcan hrunning hbatch
      have hself : next.loop l = { s.loop l with
          queue := { (s.loop l).queue with functors := later } } := by
        rw [hloop, loop_setLoop_self]
      obtain ⟨t, hlater, hend⟩ := ih hgoes.quiet ((hgoes.canRun_eq hquiet hloop rfl).trans hcan)
        (by rw [hself]; exact hrunning) (by rw [hself])
      refine ⟨t, hgoes.trans hlater, ?_⟩
      rw [hend, hself]
      simp only [setLoop, hloop, Function.update_idem]

/-- The loop runs its batch and goes on, or ends if it was told to quit. -/
theorem Quiet.endBatch (hquiet : Quiet cfg s) (hcan : s.canRun cfg l = true)
    (hrunning : (s.loop l).running = true) :
    ∃ t, Goes cfg s t ∧ t.loop = (s.setLoop l { s.loop l with
      queue := { (s.loop l).queue with functors := [] }
      running := false
      exited := (s.loop l).quit }).loop := by
  obtain ⟨next, hgoes, hloop⟩ := hquiet.drain hcan hrunning
  have hself : next.loop l = { s.loop l with
      queue := { (s.loop l).queue with functors := [] } } := by
    rw [hloop, loop_setLoop_self]
  have hcan' := (hgoes.canRun_eq hquiet hloop rfl).trans hcan
  have hstep : next.step cfg (.finish l) = .ok (next.setLoop l { next.loop l with
      running := false, exited := (next.loop l).quit }) := by
    rw [step, if_pos]
    · rfl
    · simp only [enabled, hcan', hself, hrunning]
      rfl
  refine ⟨_, hgoes.trans (hgoes.quiet.goes_of_setLoop hstep (by simp) trivial), ?_⟩
  rw [hself]
  simp only [setLoop, hloop, Function.update_idem]

/-- A loop that is not running a batch takes all its functors and runs them. -/
theorem Quiet.turn (hquiet : Quiet cfg s) (hcan : s.canRun cfg l = true)
    (hidle : (s.loop l).running = false) :
    ∃ t, Goes cfg s t ∧ t.loop = (s.setLoop l { s.loop l with
      queue := {}
      exited := (s.loop l).quit }).loop := by
  have hempty := hquiet.secure.2.idle l hidle
  have hswap := FunctorQueue.swap_of_empty hempty
  have hstep : s.step cfg (.swap l) = .ok (s.setLoop l { s.loop l with
      queue := { pendingFunctors := [], functors := (s.loop l).queue.pendingFunctors }
      running := true }) := by
    rw [step, if_pos (by rw [enabled, hcan, hidle]; rfl), effect, hswap]
  have hgoes := hquiet.goes_of_setLoop hstep (by simp) trivial
  obtain ⟨t, hlater, hloop⟩ := hgoes.quiet.endBatch ((hgoes.canRun_eq hquiet rfl rfl).trans hcan)
    (by rw [loop_setLoop_self])
  refine ⟨t, hgoes.trans hlater, ?_⟩
  rw [hloop, loop_setLoop_self]
  simp only [setLoop, Function.update_idem, hidle]

/-! ## The ends of the loops -/

/-- Nothing happens in the other loops. -/
def Elsewhere (s t : TcpServer) (l : Nat) : Prop := ∀ k, k ≠ l → t.loop k = s.loop k

theorem elsewhere_of_setLoop {changed : ServerLoop} (hloop : t.loop = (s.setLoop l changed).loop) :
    Elsewhere s t l := by
  intro k hk
  rw [hloop, loop_setLoop_of_ne hk]

/-- The loop finishes the batch it is running, if it is running one. -/
theorem Quiet.pause (hquiet : Quiet cfg s) (hcan : s.canRun cfg l = true) :
    ∃ t, Goes cfg s t ∧ Elsewhere s t l ∧ (t.loop l).running = false := by
  cases hrunning : (s.loop l).running with
  | false => exact ⟨s, .refl hquiet, fun _ _ => rfl, hrunning⟩
  | true =>
      obtain ⟨t, hgoes, hloop⟩ := hquiet.endBatch hcan hrunning
      refine ⟨t, hgoes, elsewhere_of_setLoop hloop, ?_⟩
      rw [hloop, loop_setLoop_self]

/-- A loop of the thread pool is told to quit between two batches, and ends after the next. -/
theorem Quiet.quit (hquiet : Quiet cfg s) (hl : l ≠ 0) (hle : l ≤ cfg.numThreads)
    (hexited : (s.loop l).exited = false) (hidle : (s.loop l).running = false) :
    ∃ t, Goes cfg s t ∧ Elsewhere s t l ∧ (t.loop l).exited = true := by
  have hstep : s.step cfg (.quit l) = .ok (s.setLoop l { s.loop l with quit := true }) := by
    rw [step, if_pos]
    · rfl
    · simp [enabled, hquiet.destroyed, hl, hle]
  have hgoes := hquiet.goes_of_setLoop hstep (by simp) fun hrunning =>
    Bool.noConfusion (hidle.symm.trans hrunning)
  have hcan : s.canRun cfg l = true := by
    simp [canRun, hle, hexited, hl]
  obtain ⟨t, hlater, hloop⟩ := hgoes.quiet.turn ((hgoes.canRun_eq hquiet rfl rfl).trans hcan)
    (by rw [loop_setLoop_self, hidle])
  refine ⟨t, hgoes.trans hlater, fun k hk => ?_, ?_⟩
  · rw [elsewhere_of_setLoop hloop k hk, loop_setLoop_of_ne hk]
  · rw [hloop, loop_setLoop_self, loop_setLoop_self]

/-- A loop of the thread pool can be brought to its end. -/
theorem Quiet.settle (hquiet : Quiet cfg s) (hl : l ≠ 0) (hle : l ≤ cfg.numThreads) :
    ∃ t, Goes cfg s t ∧ Elsewhere s t l ∧ (t.loop l).exited = true := by
  cases hexited : (s.loop l).exited with
  | true => exact ⟨s, .refl hquiet, fun _ _ => rfl, hexited⟩
  | false =>
      have hcan : s.canRun cfg l = true := by
        simp [canRun, hle, hexited, hl]
      obtain ⟨paused, hgoes, helsewhere, hidle⟩ := hquiet.pause hcan
      cases hended : (paused.loop l).exited with
      | true => exact ⟨paused, hgoes, helsewhere, hended⟩
      | false =>
          obtain ⟨t, hlater, hrest, hend⟩ := hgoes.quiet.quit hl hle hended hidle
          exact ⟨t, hgoes.trans hlater, fun k hk => (hrest k hk).trans (helsewhere k hk), hend⟩

/-- So can the loops of the thread pool one after the other. -/
theorem Quiet.settleAll (hquiet : Quiet cfg s) {count : Nat} (hcount : count ≤ cfg.numThreads) :
    ∃ t, Goes cfg s t ∧ ∀ i, i < count → (t.loop (i + 1)).exited = true := by
  induction count with
  | zero => exact ⟨s, .refl hquiet, fun i hi => absurd hi (Nat.not_lt_zero i)⟩
  | succ count ih =>
      obtain ⟨next, hgoes, hended⟩ := ih (Nat.le_of_succ_le hcount)
      obtain ⟨t, hlater, helsewhere, hend⟩ := hgoes.quiet.settle (Nat.succ_ne_zero count) hcount
      refine ⟨t, hgoes.trans hlater, fun i hi => ?_⟩
      rcases Nat.lt_succ_iff_lt_or_eq.mp hi with hlt | heq
      · rw [helsewhere (i + 1) (by omega)]
        exact hended i hlt
      · rw [heq]
        exact hend

theorem joined_iff : s.joined cfg = true ↔
    ∀ i, i < cfg.numThreads → (s.loop (i + 1)).exited = true := by
  simp [joined]

/-- The teardown can be completed: the loops are joined, and the base loop has nothing left to run. -/
theorem Quiet.complete (hquiet : Quiet cfg s) :
    ∃ t, Goes cfg s t ∧ t.joined cfg = true ∧ (t.loop 0).queue.queued = [] := by
  have hcanBase {u : TcpServer} (hu : Quiet cfg u) (hjoined : u.joined cfg = true) :
      u.canRun cfg 0 = true := by
    have hexited : (u.loop 0).exited = false := by
      rw [← Bool.not_eq_true]
      intro hexited
      have hquit := hu.secure.2.quit_of_exited 0 hexited
      rw [hu.secure.2.base] at hquit
      cases hquit
    simp [canRun, hexited, hjoined]
  have hkept {u v : TcpServer} (hjoined : u.joined cfg = true) (helsewhere : Elsewhere u v 0) :
      v.joined cfg = true := by
    rw [joined_iff] at hjoined ⊢
    intro i hi
    rw [helsewhere (i + 1) (Nat.succ_ne_zero i)]
    exact hjoined i hi
  obtain ⟨ended, hgoes, hall⟩ := hquiet.settleAll (Nat.le_refl _)
  have hjoined := joined_iff.mpr hall
  obtain ⟨paused, hpause, helsewhere, hidle⟩ := hgoes.quiet.pause (hcanBase hgoes.quiet hjoined)
  have hjoined' := hkept hjoined helsewhere
  obtain ⟨t, hturn, hloop⟩ := hpause.quiet.turn (hcanBase hpause.quiet hjoined') hidle
  refine ⟨t, (hgoes.trans hpause).trans hturn, hkept hjoined' (elsewhere_of_setLoop hloop), ?_⟩
  rw [hloop, loop_setLoop_self]
  rfl

/-! ## The teardown -/

end Muduo.TcpServer
