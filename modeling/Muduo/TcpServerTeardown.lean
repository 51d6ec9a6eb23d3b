import Muduo.TcpServerRegistry

/-! The destruction of a `TcpServer`. `~TcpServer` gives each connection in its map a `connectDestroyed`, and
then the thread pool quits and joins the loops. This is safe when no connection is being closed meanwhile.
A close that is under way has queued, or will queue, a `removeConnectionInLoop` in the base loop, and the
base loop runs it when there is no server any more. -/

namespace Muduo.TcpServer

open Execution

variable {cfg : ServerConfig} {s t : TcpServer} {stage : Nat → Stage} {c : Nat}

/-- What makes a teardown orderly. When the server is destroyed no connection is being closed, and none is
closed later. `connectDestroyed` finds no connection in the middle of a `shutdown()`, whose channel would
still be reading. A loop is told to quit before it swaps its functors, or when none are pending. -/
def Orderly (s : TcpServer) : Label → Prop
  | .destroy =>
      (∀ c, c < s.accepted → (s.connection c).closing = false ∧
        ((s.connection c).loop = 0 → (s.connection c).state ≠ .kDisconnecting)) ∧
      ∀ f ∈ (s.loop 0).queue.queued, f ≠ .removeConnectionInLoop f.connection
  | .handleClose _ => s.destroyed = false
  | .execute l => s.destroyed = true →
      ∀ f ∈ (s.loop l).queue.functors.head?, (s.connection f.connection).state ≠ .kDisconnecting
  | .quit l => (s.loop l).running = true → (s.loop l).queue.pendingFunctors = []
  | _ => True

instance decidableOrderly (s : TcpServer) : ∀ label, Decidable (Orderly s label)
  | .destroy => inferInstanceAs (Decidable (_ ∧ _))
  | .handleClose _ => inferInstanceAs (Decidable (_ = _))
  | .execute _ => inferInstanceAs (Decidable (_ → _))
  | .quit _ => inferInstanceAs (Decidable (_ → _))
  | .accept => .isTrue trivial
  | .shutdown _ => .isTrue trivial
  | .closeCallback _ => .isTrue trivial
  | .swap _ => .isTrue trivial
  | .finish _ => .isTrue trivial

/-! ## The destructor -/

/-- `connectDestroyed` is given to a connection that is in the map. -/
theorem Placed.destroyOne (hplaced : Placed cfg s stage) (hc : c < s.accepted)
    (hstage : stage c = .queued ∨ stage c = .established)
    (hshut : (s.connection c).loop = 0 → (s.connection c).state ≠ .kDisconnecting) :
    ∃ t after, s.runInLoop 0 (s.connection c).loop (.connectDestroyed c) = .ok t ∧ Apart s t c ∧
      At t c after ∧ after.registered = false := by
  have hat := hplaced.at_stage c hc
  have hfunctors (k : Nat) := hat.functors_eq k
  have hapart : Apart s (s.queueInLoop (s.connection c).loop (.connectDestroyed c)) c :=
    apart_queueInLoop s _ (.connectDestroyed c)
  rw [runInLoop]
  by_cases hbase : 0 = (s.connection c).loop
  · rcases hstage with hstage | hstage
    · rw [hstage] at hat
      exact absurd hbase.symm (hat.remote rfl)
    · rw [hstage] at hat hfunctors
      rw [if_pos hbase]
      obtain ⟨t, hperform, hafter, -, hsevered⟩ := connectDestroyed_at .severed hat.record
        ⟨rfl, rfl, by simp⟩ (hshut hbase.symm) rfl rfl hfunctors
      exact ⟨t, .severed, hperform, hafter, hsevered, rfl⟩
  · rw [if_neg hbase]
    rcases hstage with hstage | hstage
    · rw [hstage] at hat hfunctors
      have hrecord := hat.record
      refine ⟨_, .abandoned, rfl, hapart, ⟨⟨hrecord.trace_eq, hrecord.up, hrecord.waiting,
        hrecord.closing_eq, hrecord.reading_eq, hrecord.added_eq⟩, hat.remote, fun k => ?_⟩, rfl⟩
      rw [functors_queueInLoop, hfunctors k, hapart.loop_eq]
      by_cases hk : k = (s.connection c).loop <;> simp [Stage.functors, ServerFunctor.connection, hk]
    · rw [hstage] at hat hfunctors
      have hrecord := hat.record
      refine ⟨_, .condemned, rfl, hapart, ⟨⟨hrecord.trace_eq, hrecord.up, hrecord.waiting,
        hrecord.closing_eq, hrecord.reading_eq, hrecord.added_eq⟩, Bool.noConfusion, fun k => ?_⟩, rfl⟩
      rw [functors_queueInLoop, hfunctors k, hapart.loop_eq]
      by_cases hk : k = (s.connection c).loop <;> simp [Stage.functors, ServerFunctor.connection, hk]

/-- The loop in `~TcpServer`, over connections none of which is being closed. -/
theorem Placed.destroyAll {entries : List (Bytes × Nat)} (hplaced : Placed cfg s stage)
    (hnodup : (entries.map Prod.snd).Nodup)
    (hentries : ∀ c ∈ entries.map Prod.snd, c < s.accepted ∧
      (stage c = .queued ∨ stage c = .established) ∧
      ((s.connection c).loop = 0 → (s.connection c).state ≠ .kDisconnecting)) :
    ∃ t stage', destroyAll s entries = .ok t ∧ Placed cfg t stage' ∧ t.destroyed = s.destroyed ∧
      ∀ c, if c ∈ entries.map Prod.snd then (stage' c).registered = false else stage' c = stage c := by
  induction entries generalizing s stage with
  | nil => exact ⟨s, stage, rfl, hplaced, rfl, fun c => by simp⟩
  | cons entry rest ih =>
      rw [List.map_cons, List.nodup_cons] at hnodup
      obtain ⟨hfresh, hnodup⟩ := hnodup
      obtain ⟨hc, hstage, hshut⟩ := hentries entry.2 List.mem_cons_self
      obtain ⟨next, after, hnext, hapart, hat, hafter⟩ := hplaced.destroyOne hc hstage hshut
      obtain ⟨t, stage', hrest, hplaced', hdestroyed, hstages⟩ :=
        ih (hplaced.move hc hapart hat) hnodup (by
          intro d hd
          have hne : d ≠ entry.2 := fun hsame => hfresh (hsame ▸ hd)
          rw [hapart.accepted_eq, hapart.other d hne, Function.update_of_ne hne]
          exact hentries d (List.mem_cons_of_mem _ hd))
      refine ⟨t, stage', ?_, hplaced', hdestroyed.trans hapart.destroyed_eq, fun d => ?_⟩
      · rw [TcpServer.destroyAll, hnext]
        exact hrest
      · have hlater := hstages d
        rw [List.map_cons]
        by_cases hd : d ∈ rest.map Prod.snd
        · rw [if_pos hd] at hlater
          rw [if_pos (List.mem_cons_of_mem _ hd)]
          exact hlater
        · rw [if_neg hd] at hlater
          by_cases hsame : d = entry.2
          · rw [hsame, if_pos List.mem_cons_self, ← hsame, hlater, hsame, Function.update_self]
            exact hafter
          · rw [if_neg (by simp [hsame, hd]), hlater, Function.update_of_ne hsame]

/-- In an orderly teardown the connections in the map are waiting or established. -/
theorem Staged.open_of_orderly (hstaged : Staged cfg s stage) (horderly : Orderly s .destroy)
    (hc : c < s.accepted) (hregistered : (stage c).registered = true) :
    stage c = .queued ∨ stage c = .established := by
  have hat := hstaged.at_stage c hc
  cases hstage : stage c with
  | queued => exact .inl rfl
  | established => exact .inr rfl
  | closing =>
      have hclosing := hat.record.closing_eq
      rw [hstage, (horderly.1 c hc).1] at hclosing
      cases hclosing
  | closed =>
      have hmem : ServerFunctor.removeConnectionInLoop c ∈ s.functors c 0 := by
        rw [hat.functors_eq 0, hstage]
        exact List.mem_singleton_self _
      exact absurd rfl (horderly.2 _ (List.mem_filter.mp hmem).1)
  | _ =>
      rw [hstage] at hregistered
      cases hregistered

theorem Staged.destroy (hstaged : Staged cfg s stage) (halive : s.destroyed = false)
    (horderly : Orderly s .destroy) :
    ∃ t stage', s.destroy = .ok t ∧ Staged cfg t stage' ∧ t.destroyed = true := by
  have hregistry := (hstaged.alive halive).2
  have hcleared : Placed cfg { s with destroyed := true, connections := [] } stage :=
    { hstaged.toPlaced with
      at_stage := fun c hc => ⟨(hstaged.at_stage c hc).record, (hstaged.at_stage c hc).remote,
        (hstaged.at_stage c hc).functors_eq⟩ }
  have hmem (d : Nat) : d ∈ s.connections.map Prod.snd ↔
      d < s.accepted ∧ (stage d).registered = true := by
    rw [List.mem_map]
    constructor
    · rintro ⟨entry, hentry, rfl⟩
      obtain ⟨hlt, -, hregistered⟩ := (hregistry.mem_iff entry).mp hentry
      exact ⟨hlt, hregistered⟩
    · intro hd
      exact ⟨((s.connection d).name, d), (hregistry.mem_iff _).mpr ⟨hd.1, rfl, hd.2⟩, rfl⟩
  have hnodup : (s.connections.map Prod.snd).Nodup := by
    refine List.Nodup.map_on (fun entry hentry other hother hsame => ?_) hregistry.nodup
    obtain ⟨-, hname, -⟩ := (hregistry.mem_iff entry).mp hentry
    obtain ⟨-, hname', -⟩ := (hregistry.mem_iff other).mp hother
    exact Prod.ext (by rw [hname, hname', hsame]) hsame
  obtain ⟨t, stage', hdestroy, hplaced, hdestroyed, hstages⟩ :=
    hcleared.destroyAll hnodup fun d hd => by
      obtain ⟨hlt, hregistered⟩ := (hmem d).mp hd
      exact ⟨hlt, hstaged.open_of_orderly horderly hlt hregistered, (horderly.1 d hlt).2⟩
  refine ⟨t, stage', hdestroy, { hplaced with alive := fun h => ?_, torn := fun _ d hd => ?_ },
    hdestroyed⟩
  · rw [hdestroyed] at h
    cases h
  · have hafter := hstages d
    rw [(Settles.destroyAll (P := fun _ => True) (fun _ _ => trivial) hdestroy).accepted] at hd
    by_cases hin : d ∈ s.connections.map Prod.snd
    · rw [if_pos hin] at hafter
      exact hafter
    · rw [if_neg hin] at hafter
      rw [hafter, ← Bool.not_eq_true]
      exact fun hregistered => hin ((hmem d).mpr ⟨hd, hregistered⟩)

/-! ## The loops -/

theorem loop_setLoop_self (s : TcpServer) (l : Nat) (changed : ServerLoop) :
    (s.setLoop l changed).loop l = changed :=
  Function.update_self _ _ _

theorem loop_setLoop_of_ne {l k : Nat} {changed : ServerLoop} (hk : k ≠ l) :
    (s.setLoop l changed).loop k = s.loop k :=
  Function.update_of_ne hk _ _

/-- A functor queues nothing, or, while the server is alive, one other functor. -/
theorem loop_perform {f : ServerFunctor} (hperform : s.perform f = .ok t) :
    t.loop = s.loop ∨ s.destroyed = false ∧ ∃ l g, t.loop = (s.queueInLoop l g).loop := by
  obtain ⟨c, hperformed⟩ := performed_of_perform hperform
  cases hperformed with
  | established => exact .inl rfl
  | removed halive => exact .inr ⟨halive, _, _, rfl⟩
  | destroyed => exact .inl rfl

/-- No loop takes a step; functors may have been queued. -/
structure Steady (s t : TcpServer) : Prop where
  functors_eq : ∀ k, (t.loop k).queue.functors = (s.loop k).queue.functors
  running_eq : ∀ k, (t.loop k).running = (s.loop k).running
  quit_eq : ∀ k, (t.loop k).quit = (s.loop k).quit
  exited_eq : ∀ k, (t.loop k).exited = (s.loop k).exited

theorem steady_of_loop_eq (hloop : t.loop = s.loop) : Steady s t := by
  constructor <;> exact fun k => by rw [hloop]

theorem Steady.trans {u : TcpServer} (hst : Steady s t) (htu : Steady t u) : Steady s u where
  functors_eq k := (htu.functors_eq k).trans (hst.functors_eq k)
  running_eq k := (htu.running_eq k).trans (hst.running_eq k)
  quit_eq k := (htu.quit_eq k).trans (hst.quit_eq k)
  exited_eq k := (htu.exited_eq k).trans (hst.exited_eq k)

theorem steady_queueInLoop (s : TcpServer) (l : Nat) (f : ServerFunctor) :
    Steady s (s.queueInLoop l f) := by
  constructor <;>
  · intro k
    by_cases hk : k = l
    · subst hk
      simp [queueInLoop, setLoop, FunctorQueue.queueInLoop]
    · simp [queueInLoop, setLoop, hk]

theorem steady_perform {f : ServerFunctor} (hperform : s.perform f = .ok t) : Steady s t := by
  rcases loop_perform hperform with hloop | ⟨-, l, g, hloop⟩
  · exact steady_of_loop_eq hloop
  · exact (steady_queueInLoop s l g).trans (steady_of_loop_eq hloop)

theorem steady_runInLoop {thread l : Nat} {f : ServerFunctor} (hrun : s.runInLoop thread l f = .ok t) :
    Steady s t := by
  rw [runInLoop] at hrun
  split at hrun
  · exact steady_perform hrun
  · cases hrun
    exact steady_queueInLoop s l f

theorem steady_destroyAll {entries : List (Bytes × Nat)} (hdestroy : destroyAll s entries = .ok t) :
    Steady s t := by
  induction entries generalizing s with
  | nil =>
      cases hdestroy
      exact steady_of_loop_eq rfl
  | cons entry rest ih =>
      rw [TcpServer.destroyAll] at hdestroy
      split at hdestroy
      · rename_i next hnext
        exact (steady_runInLoop hnext).trans (ih hdestroy)
      · cases hdestroy

/-- How the loops end. A loop that is running its last functors has none pending, and one that has ended
has none left. The base loop goes on. -/
structure Unwinding (s : TcpServer) : Prop where
  idle : ∀ k, (s.loop k).running = false → (s.loop k).queue.functors = []
  destroyed_of_quit : ∀ k, (s.loop k).quit = true → s.destroyed = true
  quit_of_exited : ∀ k, (s.loop k).exited = true → (s.loop k).quit = true
  last : ∀ k, (s.loop k).quit = true → (s.loop k).running = true →
    (s.loop k).queue.pendingFunctors = []
  drained : ∀ k, (s.loop k).exited = true → (s.loop k).queue.queued = []
  base : (s.loop 0).quit = false

/-- While the server is alive, no loop ends. -/
theorem Unwinding.of_steady (hunwinding : Unwinding s) (halive : s.destroyed = false)
    (hsteady : Steady s t) : Unwinding t := by
  have hquit (k : Nat) : (t.loop k).quit ≠ true := by
    rw [hsteady.quit_eq]
    intro hquit
    rw [hunwinding.destroyed_of_quit k hquit] at halive
    cases halive
  have hexited (k : Nat) : (t.loop k).exited ≠ true := by
    rw [hsteady.exited_eq]
    intro hexited
    exact hquit k ((hsteady.quit_eq k).trans (hunwinding.quit_of_exited k hexited))
  exact {
    idle := fun k hidle => by
      rw [hsteady.functors_eq]
      exact hunwinding.idle k ((hsteady.running_eq k).symm.trans hidle)
    destroyed_of_quit := fun k h => absurd h (hquit k)
    quit_of_exited := fun k h => absurd h (hexited k)
    last := fun k h => absurd h (hquit k)
    drained := fun k h => absurd h (hexited k)
    base := (hsteady.quit_eq 0).trans hunwinding.base }

theorem Unwinding.of_loop_eq (hunwinding : Unwinding s) (hloop : t.loop = s.loop)
    (hdestroyed : t.destroyed = s.destroyed) : Unwinding t := by
  constructor
  all_goals rw [hloop]
  · exact hunwinding.idle
  · rw [hdestroyed]
    exact hunwinding.destroyed_of_quit
  · exact hunwinding.quit_of_exited
  · exact hunwinding.last
  · exact hunwinding.drained
  · exact hunwinding.base

/-- One loop goes on. -/
theorem Unwinding.setLoop (hunwinding : Unwinding s) {l : Nat} {changed : ServerLoop}
    (hidle : changed.running = false → changed.queue.functors = [])
    (hdestroyed : changed.quit = true → l ≠ 0 ∧ s.destroyed = true)
    (hquit : changed.exited = true → changed.quit = true)
    (hlast : changed.quit = true → changed.running = true → changed.queue.pendingFunctors = [])
    (hdrained : changed.exited = true → changed.queue.queued = []) :
    Unwinding (s.setLoop l changed) := by
  have hloop (property : ServerLoop → Prop) (hthis : property changed)
      (hother : ∀ k, property (s.loop k)) (k : Nat) : property ((s.setLoop l changed).loop k) := by
    by_cases hk : k = l
    · rw [hk, loop_setLoop_self]
      exact hthis
    · rw [loop_setLoop_of_ne hk]
      exact hother k
  exact {
    idle := hloop (fun loop => loop.running = false → loop.queue.functors = []) hidle hunwinding.idle
    destroyed_of_quit := hloop (fun loop => loop.quit = true → s.destroyed = true)
      (fun h => (hdestroyed h).2) hunwinding.destroyed_of_quit
    quit_of_exited := hloop (fun loop => loop.exited = true → loop.quit = true) hquit
      hunwinding.quit_of_exited
    last := hloop (fun loop => loop.quit = true → loop.running = true →
      loop.queue.pendingFunctors = []) hlast hunwinding.last
    drained := hloop (fun loop => loop.exited = true → loop.queue.queued = []) hdrained
      hunwinding.drained
    base := by
      by_cases hl : l = 0
      · subst hl
        rw [loop_setLoop_self, ← Bool.not_eq_true]
        exact fun h => (hdestroyed h).1 rfl
      · rw [loop_setLoop_of_ne (Ne.symm hl)]
        exact hunwinding.base }

theorem Unwinding.of_quit (hunwinding : Unwinding s) {l : Nat} (hquit : (s.loop l).quit = true) :
    l ≠ 0 ∧ s.destroyed = true := by
  refine ⟨?_, hunwinding.destroyed_of_quit l hquit⟩
  rintro rfl
  rw [hunwinding.base] at hquit
  cases hquit

theorem not_exited_of_canRun {l : Nat} (hcan : s.canRun cfg l = true) : (s.loop l).exited = false := by
  simp only [canRun, Bool.and_eq_true, Bool.not_eq_true'] at hcan
  exact hcan.1.2

/-- A step of an orderly teardown. -/
theorem Unwinding.step (hunwinding : Unwinding s) (hstaged : Staged cfg s stage) {label : Label}
    (horderly : Orderly s label) (hsame : label ≠ .destroy → t.destroyed = s.destroyed)
    (hstep : s.step cfg label = .ok t) : Unwinding t := by
  rw [TcpServer.step] at hstep
  split at hstep
  swap
  · cases hstep
  rename_i henabled
  cases label with
  | accept =>
      simp only [enabled, Bool.and_eq_true, Bool.not_eq_true'] at henabled
      refine hunwinding.of_steady henabled.2 (Steady.trans ?_ (steady_runInLoop hstep))
      exact steady_of_loop_eq rfl
  | shutdown c | handleClose c =>
      cases hstep
      exact hunwinding.of_loop_eq rfl rfl
  | closeCallback c =>
      simp only [enabled, Bool.and_eq_true, decide_eq_true_iff] at henabled
      obtain ⟨⟨hc, -⟩, hclosing⟩ := henabled
      rw [(hstaged.at_stage c hc).record.closing_eq, decide_eq_true_iff] at hclosing
      have halive : s.destroyed = false := by
        by_contra hdestroyed
        have htorn := hstaged.torn (Bool.not_eq_false _ ▸ hdestroyed) c hc
        rw [hclosing] at htorn
        cases htorn
      refine hunwinding.of_steady halive (Steady.trans ?_ (steady_runInLoop hstep))
      exact steady_of_loop_eq rfl
  | swap l =>
      simp only [enabled, Bool.and_eq_true, Bool.not_eq_true'] at henabled
      have hexited := not_exited_of_canRun henabled.1
      simp only [effect] at hstep
      split at hstep
      swap
      · cases hstep
      rename_i queue hswap
      cases hstep
      refine hunwinding.setLoop Bool.noConfusion hunwinding.of_quit (hunwinding.quit_of_exited l)
        (fun _ _ => FunctorQueue.pendingFunctors_swap hswap) (fun h => ?_)
      exact Bool.noConfusion (hexited.symm.trans h)
  | execute l =>
      simp only [enabled, Bool.and_eq_true] at henabled
      have hexited := not_exited_of_canRun henabled.1
      simp only [effect] at hstep
      split at hstep
      swap
      · cases hstep
      rename_i f rest hnext
      have hpopped : Unwinding (s.setLoop l { s.loop l with queue := rest }) := by
        refine hunwinding.setLoop (fun hidle => ?_) hunwinding.of_quit (hunwinding.quit_of_exited l)
          (fun hquit hrunning => ?_) (fun h => ?_)
        · exact Bool.noConfusion (henabled.2.symm.trans hidle)
        · rw [(FunctorQueue.next_eq hnext).2]
          exact hunwinding.last l hquit hrunning
        · exact Bool.noConfusion (hexited.symm.trans h)
      rcases loop_perform hstep with hloop | ⟨halive, _, _, _⟩
      · exact hpopped.of_loop_eq hloop (hsame (by simp))
      · exact hpopped.of_steady halive (steady_perform hstep)
  | finish l =>
      simp only [enabled, Bool.and_eq_true, decide_eq_true_iff] at henabled
      obtain ⟨⟨-, hrunning⟩, hempty⟩ := henabled
      cases hstep
      refine hunwinding.setLoop (fun _ => hempty) hunwinding.of_quit id (fun _ => Bool.noConfusion)
        (fun hquit => ?_)
      have hpending := hunwinding.last l hquit hrunning
      rw [FunctorQueue.queued, hempty, hpending]
      rfl
  | destroy =>
      simp only [enabled, Bool.and_eq_true, Bool.not_eq_true'] at henabled
      refine hunwinding.of_steady henabled.2 (Steady.trans ?_ (steady_destroyAll hstep))
      exact steady_of_loop_eq rfl
  | quit l =>
      simp only [enabled, Bool.and_eq_true, bne_iff_ne] at henabled
      cases hstep
      exact hunwinding.setLoop (hunwinding.idle l) (fun _ => ⟨henabled.1.2, henabled.1.1⟩) (fun _ => rfl)
        (fun _ => horderly) (hunwinding.drained l)

/-! ## The teardown -/

/-- The connections are at their stages, and the loops are as they should be. -/
def Secure (cfg : ServerConfig) (s : TcpServer) : Prop :=
  (∃ stage, Staged cfg s stage) ∧ Unwinding s

theorem secure_step (hsecure : Secure cfg s) {label : Label} (hlabel : Few s label ∧ Orderly s label) :
    (∃ stop, s.step cfg label = .error stop ∧ stop = .disabled) ∨
      ∃ next, s.step cfg label = .ok next ∧ Secure cfg next := by
  obtain ⟨⟨stage, hstaged⟩, hunwinding⟩ := hsecure
  obtain ⟨hfew, horderly⟩ := hlabel
  by_cases hdestroy : label = .destroy
  · subst hdestroy
    by_cases henabled : s.enabled cfg .destroy = true
    swap
    · exact .inl ⟨.disabled, if_neg henabled, rfl⟩
    have halive : s.destroyed = false := by
      simp only [enabled, Bool.and_eq_true, Bool.not_eq_true'] at henabled
      exact henabled.2
    obtain ⟨next, stage', hnext, hstaged', -⟩ := hstaged.destroy halive horderly
    have hstep : s.step cfg .destroy = .ok next := (if_pos henabled).trans hnext
    exact .inr ⟨next, hstep, ⟨stage', hstaged'⟩,
      hunwinding.step hstaged horderly (absurd rfl) hstep⟩
  · have hstep := hstaged.step hdestroy hfew ?_ ?_
    · rcases hstep with hdisabled | ⟨next, stage', hnext, hstaged', hsame⟩
      · exact .inl ⟨.disabled, hdisabled, rfl⟩
      · exact .inr ⟨next, hnext, ⟨stage', hstaged'⟩,
          hunwinding.step hstaged horderly (fun _ => hsame) hnext⟩
    · intro c hclose
      subst hclose
      exact horderly
    · intro l f rest hexecute hnext hcondemned
      subst hexecute
      have hc := hstaged.connection_lt hnext
      have hdestroyed : s.destroyed = true := by
        by_contra halive
        have hdead := (hstaged.alive (Bool.not_eq_true _ ▸ halive)).1 _ hc
        rw [hcondemned] at hdead
        cases hdead
      refine horderly hdestroyed f ?_
      rw [(FunctorQueue.next_eq hnext).1]
      rfl

end Muduo.TcpServer
