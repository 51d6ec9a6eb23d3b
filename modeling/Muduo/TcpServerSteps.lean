import Muduo.TcpServerStages

/-! The steps of a `TcpServer` and its loops, but for its destruction: each functor and each event takes a
connection from its stage to the next. -/

namespace Muduo.TcpServer

open Execution

variable {cfg : ServerConfig} {s t : TcpServer} {stage : Nat → Stage} {c : Nat}

/-! ## The functors -/

/-- `connectEstablished` of a connection whose functor has been taken from the queue. -/
theorem connectEstablished_at {before : Stage} (after : Stage) (hrecord : Record before (s.connection c))
    (hwaiting : before.waiting = true) (htrace : after.trace = before.trace ++ [.established])
    (hup : after.up = true)
    (hfunctors : ∀ k, s.functors c k = after.functors c (s.connection c).loop k) :
    ∃ t, s.connectEstablished c = .ok t ∧ Apart s t c ∧ t.connections = s.connections ∧
      At t c after := by
  have hnot : after.waiting = false ∧ after.finished = false ∧ after ≠ .closing := by
    cases after <;> simp_all [Stage.up, Stage.waiting, Stage.finished]
  have hopen : before ≠ .closing := by
    rintro rfl
    cases hwaiting
  refine ⟨_, if_pos (hrecord.waiting.mpr hwaiting), apart_modify _ _ _ (fun _ => rfl) (fun _ => rfl), rfl,
    ⟨?_, ?_, ?_, ?_, ?_, ?_⟩, fun hwait => ?_, fun k => ?_⟩
  · simp [modify, hrecord.trace_eq, htrace]
  · simp [modify, isUp, hup]
  · simp [modify, hnot.1]
  · simp [modify, hrecord.closing_eq, hopen, hnot.2.2]
  · simp [modify, hup]
  · simp [modify, hnot.1, hnot.2.1]
  · rw [hnot.1] at hwait
    cases hwait
  · exact (hfunctors k).trans (by simp [modify])

/-- `connectDestroyed` of a connection whose channel is in the poller, and is not reading unless it is
connected. -/
theorem connectDestroyed_eq (hadded : (s.connection c).added = true)
    (hreading : (s.connection c).state = .kConnected ∨ (s.connection c).reading = false) :
    s.connectDestroyed c = .ok (s.modify c fun conn => { conn with
      state := if conn.state = .kConnected then .kDisconnected else conn.state
      reading := false
      added := false
      trace := conn.trace ++ [.destroyed] }) := by
  rw [connectDestroyed]
  by_cases hconnected : (s.connection c).state = .kConnected
  · rw [if_pos hconnected]
    simp [removeChannel, modify, hadded, hconnected]
  · have hquiet := hreading.resolve_left hconnected
    rw [if_neg hconnected]
    simp [removeChannel, modify, hadded, hconnected, hquiet]

/-- What a functor does when no assertion fails. -/
inductive Performed (s : TcpServer) (c : Nat) : ServerFunctor → TcpServer → Prop where
  | established : Performed s c (.connectEstablished c) (s.modify c fun conn => { conn with
      state := .kConnected
      reading := true
      added := true
      trace := conn.trace ++ [.established] })
  | removed : s.destroyed = false → Performed s c (.removeConnectionInLoop c)
      ((s.erase c).queueInLoop (s.connection c).loop (.connectDestroyed c))
  | destroyed : Performed s c (.connectDestroyed c) (s.modify c fun conn => { conn with
      state := if conn.state = .kConnected then .kDisconnected else conn.state
      reading := false
      added := false
      trace := conn.trace ++ [.destroyed] })

theorem performed_of_perform {f : ServerFunctor} (hperform : s.perform f = .ok t) :
    ∃ c, Performed s c f t := by
  cases f with
  | connectEstablished c =>
      simp only [perform, connectEstablished] at hperform
      split at hperform <;> cases hperform
      exact ⟨c, .established⟩
  | removeConnectionInLoop c =>
      simp only [perform, TcpServer.removeConnectionInLoop] at hperform
      split at hperform
      · cases hperform
      · rename_i halive
        split at hperform <;> cases hperform
        exact ⟨c, .removed (Bool.not_eq_true _ ▸ halive)⟩
  | connectDestroyed c =>
      have hpassed : (s.connection c).added = true ∧
          ((s.connection c).state = .kConnected ∨ (s.connection c).reading = false) := by
        simp only [perform, connectDestroyed, removeChannel] at hperform
        split at hperform <;> split at hperform <;> simp_all [modify]
      have heq := (connectDestroyed_eq hpassed.1 hpassed.2).symm.trans hperform
      rw [← Except.ok.inj heq]
      exact ⟨c, .destroyed⟩

/-- `connectDestroyed` of a connection that is not in the middle of `shutdown()`. -/
theorem connectDestroyed_at {before : Stage} (after : Stage) (hrecord : Record before (s.connection c))
    (hbefore : before.waiting = false ∧ before.finished = false ∧ before ≠ .closing)
    (hshut : (s.connection c).state ≠ .kDisconnecting)
    (htrace : after.trace = before.trace ++ [.destroyed]) (hfinished : after.finished = true)
    (hfunctors : ∀ k, s.functors c k = []) :
    ∃ t, s.connectDestroyed c = .ok t ∧ Apart s t c ∧ t.connections = s.connections ∧
      At t c after := by
  obtain ⟨hnotWaiting, hunfinished, hnotClosing⟩ := hbefore
  have hafter : after.up = false ∧ after.waiting = false ∧ after ≠ .closing ∧
      ∀ loop k, after.functors c loop k = [] := by
    cases after <;> simp_all [Stage.up, Stage.waiting, Stage.finished, Stage.functors]
  obtain ⟨hdown, hafterWaiting, hafterClosing, hnothing⟩ := hafter
  have hconnecting : (s.connection c).state ≠ .kConnecting := by
    intro hstate
    rw [hrecord.waiting.mp hstate] at hnotWaiting
    cases hnotWaiting
  have hadded : (s.connection c).added = true := by
    rw [hrecord.added_eq, hnotWaiting, hunfinished]
    rfl
  have hreading : (s.connection c).state = .kConnected ∨ (s.connection c).reading = false := by
    rw [hrecord.reading_eq, ← hrecord.up]
    cases hstate : (s.connection c).state <;> simp_all [isUp]
  refine ⟨_, connectDestroyed_eq hadded hreading, apart_modify _ _ _ (fun _ => rfl) (fun _ => rfl), rfl,
    ⟨?_, ?_, ?_, ?_, ?_, ?_⟩, fun hwait => ?_, fun k => ?_⟩
  · simp [modify, hrecord.trace_eq, htrace]
  · cases hstate : (s.connection c).state <;> simp_all [modify, isUp]
  · cases hstate : (s.connection c).state <;> simp_all [modify]
  · simp [modify, hrecord.closing_eq, hnotClosing, hafterClosing]
  · simp [modify, hdown]
  · simp [modify, hfinished]
  · rw [hafterWaiting] at hwait
    cases hwait
  · rw [hnothing]
    exact hfunctors k

/-- `removeConnectionInLoop` of a connection that was closed and about which nothing is queued. -/
theorem Staged.removeConnectionInLoop (hstaged : Staged cfg s stage) (hc : c < s.accepted)
    (hregistered : (stage c).registered = true) (hapart : Apart s t c)
    (hconnections : t.connections = s.connections) (hrecord : Record .closed (t.connection c))
    (hfunctors : ∀ k, t.functors c k = []) :
    ∃ u, t.removeConnectionInLoop c = .ok u ∧ Staged cfg u (Function.update stage c .removed) ∧
      u.destroyed = s.destroyed := by
  have halive : s.destroyed = false := by
    by_contra hdestroyed
    rw [hstaged.torn (Bool.not_eq_false _ ▸ hdestroyed) c hc] at hregistered
    cases hregistered
  have hregistry := (hstaged.alive halive).2
  have hone := hstaged.erase_one hregistry hc hregistered
  rw [← hconnections, ← hapart.name_eq] at hone
  have hlast : Apart s ((t.erase c).queueInLoop (t.connection c).loop (.connectDestroyed c)) c :=
    (hapart.trans (apart_erase t c)).trans (apart_queueInLoop _ _ (.connectDestroyed c))
  refine ⟨(t.erase c).queueInLoop (t.connection c).loop (.connectDestroyed c), ?_, ?_,
    hlast.destroyed_eq⟩
  · rw [TcpServer.removeConnectionInLoop, hapart.destroyed_eq, halive, if_neg Bool.false_ne_true,
      if_pos hone]
  · refine hstaged.move hc hlast ⟨?_, Bool.noConfusion, fun k => ?_⟩ (fun _ => ⟨rfl, ?_⟩) (fun _ => rfl)
    · have hsame : ((t.erase c).queueInLoop (t.connection c).loop (.connectDestroyed c)).connection c =
          { t.connection c with trace := (t.connection c).trace ++ [.removed] } := by
        simp [queueInLoop, setLoop, erase, modify]
      rw [hsame]
      exact { hrecord with trace_eq := by rw [hrecord.trace_eq]; rfl }
    · have hnothing : (t.erase c).functors c k = [] := hfunctors k
      have hloop : ((t.erase c).queueInLoop (t.connection c).loop (.connectDestroyed c)).connection c =
          (t.erase c).connection c := rfl
      rw [functors_queueInLoop, hnothing, hloop, (apart_erase t c).loop_eq]
      simp [Stage.functors, ServerFunctor.connection]
    · refine hstaged.registry_erase hregistry hc hlast ?_ rfl
      rw [← hconnections, ← hapart.name_eq]
      rfl

/-- Functors are about connections there are. -/
theorem Staged.connection_lt (hstaged : Staged cfg s stage) {l : Nat} {f : ServerFunctor}
    {rest : FunctorQueue ServerFunctor} (hnext : (s.loop l).queue.next = some (f, rest)) :
    f.connection < s.accepted := by
  by_contra hge
  have hfirst := functors_next hnext f.connection l
  rw [hstaged.unborn _ (Nat.le_of_not_lt hge)] at hfirst
  simp at hfirst

/-- The functor in front of a queue is run. No assertion fails, unless the server was destroyed while the
connection was in the middle of `shutdown()`. -/
theorem Staged.execute (hstaged : Staged cfg s stage) {l : Nat} {f : ServerFunctor}
    {rest : FunctorQueue ServerFunctor} (hnext : (s.loop l).queue.next = some (f, rest))
    (hshut : stage f.connection = .condemned →
      (s.connection f.connection).state ≠ .kDisconnecting) :
    ∃ t stage', (s.setLoop l { s.loop l with queue := rest }).perform f = .ok t ∧
      Staged cfg t stage' ∧ t.destroyed = s.destroyed := by
  have hapart := apart_next hnext
  have hc := hstaged.connection_lt hnext
  have hfront := front_of_next rfl (hstaged.at_stage _ hc) hnext
  have hrecord := (hstaged.at_stage _ hc).record
  generalize hstage : stage f.connection = before at *
  generalize hcf : f.connection = c at *
  generalize hpopped : s.setLoop l { s.loop l with queue := rest } = popped at *
  have hconnection : popped.connection = s.connection := by
    rw [← hpopped]
    rfl
  have hconnections : popped.connections = s.connections := by
    rw [← hpopped]
    rfl
  rw [← hconnection] at hrecord hfront hshut
  -- a functor that leaves the map alone
  have hkeep {after : Stage}
      (hdone : ∃ t, popped.perform f = .ok t ∧ Apart popped t c ∧ t.connections = popped.connections ∧
        At t c after)
      (hregistered : after.registered = before.registered) (hdead : after.dead = before.dead) :
      ∃ t stage', popped.perform f = .ok t ∧ Staged cfg t stage' ∧ t.destroyed = s.destroyed := by
    obtain ⟨t, hperform, hafter, hsame, hat⟩ := hdone
    subst hstage
    exact ⟨t, _, hperform, hstaged.move_keep hc (hapart.trans hafter) after hat
      (hsame.trans hconnections) hregistered hdead, (hapart.trans hafter).destroyed_eq⟩
  generalize hrest : (fun k => popped.functors c k) = behind at hfront
  cases hfront with
  | queued hl =>
      exact hkeep (connectEstablished_at .established hrecord rfl rfl rfl (congrFun hrest)) rfl rfl
  | abandoned hl =>
      exact hkeep (connectEstablished_at .condemned hrecord rfl rfl rfl (congrFun hrest)) rfl rfl
  | removed hl =>
      have hdown : (popped.connection c).state ≠ .kDisconnecting := by
        intro hstate
        have hup := hrecord.up
        rw [hstate] at hup
        cases hup
      exact hkeep (connectDestroyed_at .gone hrecord ⟨rfl, rfl, by simp⟩ hdown rfl rfl
        (congrFun hrest)) rfl rfl
  | condemned hl =>
      exact hkeep (connectDestroyed_at .severed hrecord ⟨rfl, rfl, by simp⟩ (hshut rfl) rfl rfl
        (congrFun hrest)) rfl rfl
  | closed hl =>
      obtain ⟨t, hperform, hafter, hsame⟩ := hstaged.removeConnectionInLoop hc
        (by rw [hstage]; rfl) hapart hconnections hrecord (congrFun hrest)
      exact ⟨t, _, hperform, hafter, hsame⟩

/-! ## The other steps -/

/-- A loop goes on, and its functors stay queued. -/
theorem Staged.setLoop (hstaged : Staged cfg s stage) {l : Nat} {changed : ServerLoop}
    (hqueued : changed.queue.queued = (s.loop l).queue.queued) :
    Staged cfg (s.setLoop l changed) stage := by
  have hfunctors (c k : Nat) : (s.setLoop l changed).functors c k = s.functors c k := by
    rw [functors_setLoop, hqueued]
    by_cases hk : k = l
    · rw [if_pos hk, hk]
      rfl
    · rw [if_neg hk]
  exact {
    few := hstaged.few
    at_stage := fun c hc => ⟨(hstaged.at_stage c hc).record, (hstaged.at_stage c hc).remote, fun k =>
      (hfunctors c k).trans ((hstaged.at_stage c hc).functors_eq k)⟩
    unborn := fun c hc k => (hfunctors c k).trans (hstaged.unborn c hc k)
    named := hstaged.named
    nextConnId_eq := hstaged.nextConnId_eq
    alive := fun halive => ⟨(hstaged.alive halive).1, (hstaged.alive halive).2.mem_iff,
      (hstaged.alive halive).2.nodup⟩
    torn := hstaged.torn }

/-- `shutdown` of a connection that is up. -/
theorem Staged.shutdown (hstaged : Staged cfg s stage) (hc : c < s.accepted)
    (hconnected : (s.connection c).state = .kConnected) :
    Staged cfg (s.modify c fun conn => { conn with state := .kDisconnecting })
      (Function.update stage c (stage c)) := by
  have hat := hstaged.at_stage c hc
  have hapart : Apart s (s.modify c fun conn => { conn with state := .kDisconnecting }) c :=
    apart_modify s c _ (fun _ => rfl) (fun _ => rfl)
  refine hstaged.move_keep hc hapart _ ⟨?_, ?_, fun k => ?_⟩ rfl rfl rfl
  · have hsame : (s.modify c fun conn => { conn with state := .kDisconnecting }).connection c =
        { s.connection c with state := .kDisconnecting } := by
      simp [modify]
    have hup := hat.record.up
    have hwaiting := hat.record.waiting
    rw [hconnected] at hup hwaiting
    rw [hsame]
    exact { hat.record with
      up := hup
      waiting := iff_of_false (by simp) (mt hwaiting.mpr (by simp)) }
  · rw [hapart.loop_eq]
    exact hat.remote
  · exact (hat.functors_eq k).trans (by simp [modify])

/-- The first part of `handleClose`. -/
theorem Staged.handleClose (hstaged : Staged cfg s stage) (hc : c < s.accepted)
    (hstage : stage c = .established) :
    Staged cfg (s.handleClose c) (Function.update stage c .closing) := by
  have hat := hstaged.at_stage c hc
  rw [hstage] at hat
  have hapart : Apart s (s.handleClose c) c := apart_modify s c _ (fun _ => rfl) (fun _ => rfl)
  refine hstaged.move_keep hc hapart .closing ⟨?_, Bool.noConfusion, fun k => ?_⟩ rfl (by rw [hstage]; rfl)
    (by rw [hstage]; rfl)
  · have hsame : (s.handleClose c).connection c = { s.connection c with
        state := .kDisconnected, reading := false, closing := true } := by
      simp [TcpServer.handleClose, modify]
    rw [hsame]
    exact ⟨hat.record.trace_eq, rfl, iff_of_false (by simp) Bool.noConfusion, rfl, rfl, hat.record.added_eq⟩
  · exact hat.functors_eq k

/-- The second part of `handleClose`. In the base loop the connection is removed at once. -/
theorem Staged.closeCallback (hstaged : Staged cfg s stage) (hc : c < s.accepted)
    (hstage : stage c = .closing) :
    ∃ t stage', s.closeCallback c = .ok t ∧ Staged cfg t stage' ∧ t.destroyed = s.destroyed := by
  have hat := hstaged.at_stage c hc
  rw [hstage] at hat
  have hapart := apart_modify s c
    (fun conn => { conn with closing := false, trace := conn.trace ++ [.closed] })
    (fun _ => rfl) (fun _ => rfl)
  rw [TcpServer.closeCallback]
  generalize hclosed : (s.modify c fun conn =>
    { conn with closing := false, trace := conn.trace ++ [.closed] }) = t at *
  have hconnection : t.connection c =
      { s.connection c with closing := false, trace := (s.connection c).trace ++ [.closed] } := by
    simp [← hclosed, modify]
  have hrecord : Record .closed (t.connection c) := by
    rw [hconnection]
    exact { hat.record with
      trace_eq := by rw [hat.record.trace_eq]; rfl
      closing_eq := rfl }
  have hfunctors (k : Nat) : t.functors c k = [] := by
    rw [← hclosed]
    exact hat.functors_eq k
  have hconnections : t.connections = s.connections := by
    rw [← hclosed]
    rfl
  by_cases hloop : (s.connection c).loop = 0
  · rw [runInLoop, if_pos hloop]
    obtain ⟨u, hremove, hafter, hsame⟩ := hstaged.removeConnectionInLoop hc (by rw [hstage]; rfl)
      hapart hconnections hrecord hfunctors
    exact ⟨u, _, hremove, hafter, hsame⟩
  · rw [runInLoop, if_neg hloop]
    have hlast := hapart.trans (apart_queueInLoop t 0 (.removeConnectionInLoop c))
    refine ⟨_, _, rfl, hstaged.move_keep hc hlast .closed ⟨hrecord, Bool.noConfusion, fun k => ?_⟩
      hconnections (by rw [hstage]; rfl) (by rw [hstage]; rfl), hlast.destroyed_eq⟩
    rw [functors_queueInLoop, hfunctors]
    simp [Stage.functors, ServerFunctor.connection]

theorem connection_register_self (cfg : ServerConfig) (s : TcpServer) :
    (s.register cfg).connection s.accepted =
      { name := cfg.connName s.nextConnId, loop := (getNextLoop cfg s).1 } := by
  simp [register]

theorem connection_register_of_lt (hapart : Apart (s.register cfg) t s.accepted)
    (hc : c < s.accepted) : t.connection c = s.connection c := by
  rw [hapart.other c (by omega)]
  simp [register, Nat.ne_of_lt hc]

/-- The connections that there are after one has been accepted. -/
theorem lt_accepted (hapart : Apart (s.register cfg) t s.accepted) (hc : c < t.accepted) :
    c = s.accepted ∨ c < s.accepted ∧ c ≠ s.accepted := by
  have hcount : t.accepted = s.accepted + 1 := hapart.accepted_eq
  omega

theorem Placed.accept (hplaced : Placed cfg s stage) (hfew : s.accepted + 1 < 2 ^ 31)
    (hapart : Apart (s.register cfg) t s.accepted) {after : Stage} (hat : At t s.accepted after) :
    Placed cfg t (Function.update stage s.accepted after) where
  few := by
    rw [hapart.accepted_eq]
    exact hfew
  at_stage d hd := by
    rcases lt_accepted hapart hd with rfl | ⟨hlt, hne⟩
    · rw [Function.update_self]
      exact hat
    · have hold := connection_register_of_lt hapart hlt
      rw [Function.update_of_ne hne]
      refine ⟨hold ▸ (hplaced.at_stage d hlt).record, hold ▸ (hplaced.at_stage d hlt).remote,
        fun k => ?_⟩
      rw [hapart.functors_eq d hne, hold]
      exact (hplaced.at_stage d hlt).functors_eq k
  unborn d hd k := by
    have hcount : t.accepted = s.accepted + 1 := hapart.accepted_eq
    rw [hapart.functors_eq d (by omega)]
    exact hplaced.unborn d (by omega) k
  named d hd := by
    rcases lt_accepted hapart hd with rfl | ⟨hlt, -⟩
    · rw [hapart.name_eq, connection_register_self, ← hplaced.nextConnId_eq]
    · rw [connection_register_of_lt hapart hlt]
      exact hplaced.named d hlt
  nextConnId_eq := by
    rw [hapart.nextConnId_eq, hapart.accepted_eq]
    change s.nextConnId + BitVec.ofNat 32 1 = BitVec.ofNat 32 (s.accepted + 1 + 1)
    rw [hplaced.nextConnId_eq, ← BitVec.ofNat_add]

/-- The name of a new connection is not in the map. -/
theorem Placed.name_fresh (hplaced : Placed cfg s stage) (hregistry : Registry s stage)
    (hfew : s.accepted + 1 < 2 ^ 31) {entry : Bytes × Nat} (hentry : entry ∈ s.connections) :
    entry.1 ≠ cfg.connName s.nextConnId := by
  intro hsame
  obtain ⟨hlt, hown, -⟩ := (hregistry.mem_iff entry).mp hentry
  rw [hown, hplaced.named _ hlt, hplaced.nextConnId_eq] at hsame
  have := cfg.connName_inj (by omega) (by omega) hsame
  omega

/-- The new connection is put into the map. -/
theorem Placed.registry_insert (hplaced : Placed cfg s stage) (hregistry : Registry s stage)
    (hfew : s.accepted + 1 < 2 ^ 31) (hapart : Apart (s.register cfg) t s.accepted)
    (hconnections : t.connections = (s.register cfg).connections) {after : Stage}
    (hafter : after.registered = true) :
    Registry t (Function.update stage s.accepted after) := by
  have hperm : t.connections.Perm ((cfg.connName s.nextConnId, s.accepted) :: s.connections) := by
    rw [hconnections]
    exact insertName_perm fun entry hentry => hplaced.name_fresh hregistry hfew hentry
  have hcount : t.accepted = s.accepted + 1 := hapart.accepted_eq
  have hname : (t.connection s.accepted).name = cfg.connName s.nextConnId := by
    rw [hapart.name_eq, connection_register_self]
  constructor
  · intro entry
    rw [hperm.mem_iff, List.mem_cons, hregistry.mem_iff]
    by_cases hentry : entry.2 = s.accepted
    · rw [hentry, Function.update_self, hname, hafter]
      constructor
      · rintro (rfl | ⟨hlt, -⟩)
        · exact ⟨by omega, rfl, rfl⟩
        · exact absurd hlt (Nat.lt_irrefl _)
      · rintro ⟨-, hsame, -⟩
        exact .inl (Prod.ext hsame hentry)
    · rw [Function.update_of_ne hentry]
      constructor
      · rintro (rfl | ⟨hlt, hown, hreg⟩)
        · exact absurd rfl hentry
        · refine ⟨by omega, ?_, hreg⟩
          rw [connection_register_of_lt hapart hlt]
          exact hown
      · rintro ⟨hlt, hown, hreg⟩
        have hlt : entry.2 < s.accepted := by omega
        rw [connection_register_of_lt hapart hlt] at hown
        exact .inr ⟨hlt, hown, hreg⟩
  · rw [hperm.nodup_iff, List.nodup_cons, hregistry.mem_iff]
    exact ⟨fun h => absurd h.1 (Nat.lt_irrefl _), hregistry.nodup⟩

/-- A connection is accepted. -/
theorem Staged.accept (hstaged : Staged cfg s stage) (halive : s.destroyed = false)
    (hfew : s.accepted + 1 < 2 ^ 31) (hapart : Apart (s.register cfg) t s.accepted)
    (hconnections : t.connections = (s.register cfg).connections) (after : Stage)
    (hat : At t s.accepted after) (hregistered : after.registered = true)
    (hdead : after.dead = false) : Staged cfg t (Function.update stage s.accepted after) where
  toPlaced := hstaged.toPlaced.accept hfew hapart hat
  alive _ := by
    obtain ⟨hdeads, hregistry⟩ := hstaged.alive halive
    refine ⟨fun d hd => ?_, hstaged.registry_insert hregistry hfew hapart hconnections
      hregistered⟩
    rcases lt_accepted hapart hd with rfl | ⟨hlt, hne⟩
    · rw [Function.update_self]
      exact hdead
    · rw [Function.update_of_ne hne]
      exact hdeads d hlt
  torn htorn := by
    rw [hapart.destroyed_eq] at htorn
    exact Bool.noConfusion (halive.symm.trans htorn)

theorem Staged.newConnection (hstaged : Staged cfg s stage) (halive : s.destroyed = false)
    (hfew : s.accepted + 1 < 2 ^ 31) :
    ∃ t stage', s.newConnection cfg = .ok t ∧ Staged cfg t stage' ∧ t.destroyed = s.destroyed := by
  have hrecord : Record .queued ((s.register cfg).connection s.accepted) := by
    rw [connection_register_self]
    exact ⟨rfl, rfl, iff_of_true rfl rfl, rfl, rfl, rfl⟩
  have hloop : ((s.register cfg).connection s.accepted).loop = (getNextLoop cfg s).1 := by
    rw [connection_register_self]
  have hfunctors (k : Nat) : (s.register cfg).functors s.accepted k = [] :=
    hstaged.unborn s.accepted (Nat.le_refl _) k
  rw [TcpServer.newConnection, runInLoop]
  split
  · obtain ⟨t, hperform, hapart, hconnections, hat⟩ :=
      connectEstablished_at .established hrecord rfl rfl rfl hfunctors
    exact ⟨t, _, hperform, hstaged.accept halive hfew hapart hconnections _ hat rfl rfl,
      hapart.destroyed_eq⟩
  · rename_i hother
    have hapart := apart_queueInLoop (s.register cfg) (getNextLoop cfg s).1
      (.connectEstablished s.accepted)
    have hsame : (((s.register cfg).queueInLoop (getNextLoop cfg s).1
        (.connectEstablished s.accepted)).connection s.accepted).loop = (getNextLoop cfg s).1 := hloop
    refine ⟨_, _, rfl, hstaged.accept halive hfew hapart rfl .queued
      ⟨hrecord, fun _ hbase => hother (hbase.symm.trans hsame), fun k => ?_⟩ rfl rfl, rfl⟩
    rw [functors_queueInLoop, hfunctors, hsame]
    simp [Stage.functors, ServerFunctor.connection]

/-- A step other than `~TcpServer`. A connection is not closed after it, and `connectDestroyed` does not
run in the middle of a `shutdown()`. -/
theorem Staged.step (hstaged : Staged cfg s stage) {label : Label} (hlabel : label ≠ .destroy)
    (hfew : label = .accept → s.accepted + 1 < 2 ^ 31)
    (hclose : ∀ c, label = .handleClose c → s.destroyed = false)
    (hshut : ∀ l f rest, label = .execute l → (s.loop l).queue.next = some (f, rest) →
      stage f.connection = .condemned → (s.connection f.connection).state ≠ .kDisconnecting) :
    s.step cfg label = .error .disabled ∨
      ∃ t stage', s.step cfg label = .ok t ∧ Staged cfg t stage' ∧ t.destroyed = s.destroyed := by
  by_cases henabled : s.enabled cfg label = true
  swap
  · exact .inl (if_neg henabled)
  rw [TcpServer.step, if_pos henabled]
  cases label with
  | accept =>
      simp only [enabled, Bool.and_eq_true, Bool.not_eq_true'] at henabled
      exact .inr (hstaged.newConnection henabled.2 (hfew rfl))
  | shutdown c =>
      simp only [enabled, Bool.and_eq_true, decide_eq_true_iff] at henabled
      exact .inr ⟨_, _, rfl, hstaged.shutdown henabled.1 henabled.2, rfl⟩
  | handleClose c =>
      simp only [enabled, Bool.and_eq_true, decide_eq_true_iff] at henabled
      obtain ⟨⟨hc, -⟩, hstate⟩ := henabled
      have hup := (hstaged.at_stage c hc).record.up
      have hdead := (hstaged.alive (hclose c rfl)).1 c hc
      rw [isUp, hstate] at hup
      exact .inr ⟨_, _, rfl, hstaged.handleClose hc (Stage.eq_established hup.symm hdead), rfl⟩
  | closeCallback c =>
      simp only [enabled, Bool.and_eq_true, decide_eq_true_iff] at henabled
      obtain ⟨⟨hc, -⟩, hclosing⟩ := henabled
      rw [(hstaged.at_stage c hc).record.closing_eq, decide_eq_true_iff] at hclosing
      exact .inr (hstaged.closeCallback hc hclosing)
  | swap l =>
      rw [effect]
      cases hswap : (s.loop l).queue.swap with
      | none => exact .inl rfl
      | some queue =>
          exact .inr ⟨_, _, rfl, hstaged.setLoop (FunctorQueue.queued_swap hswap), rfl⟩
  | execute l =>
      rw [effect]
      cases hnext : (s.loop l).queue.next with
      | none => exact .inl rfl
      | some pair => exact .inr (hstaged.execute hnext (hshut l pair.1 pair.2 rfl hnext))
  | finish l | quit l => exact .inr ⟨_, _, rfl, hstaged.setLoop rfl, rfl⟩
  | destroy => exact absurd rfl hlabel

/-! ## What stays where it is -/

variable {u : TcpServer} {P : Nat → Prop}

/-- The loop in whose thread a functor has to run. -/
def home (s : TcpServer) : ServerFunctor → Nat
  | .removeConnectionInLoop _ => 0
  | .connectEstablished c | .connectDestroyed c => (s.connection c).loop

/-- `next_`, and the loops of the connections. -/
def placement (s : TcpServer) : Nat × (Nat → Nat) := (s.next, fun c => (s.connection c).loop)

theorem home_eq (hplacement : t.placement = s.placement) (f : ServerFunctor) : t.home f = s.home f := by
  cases f with
  | removeConnectionInLoop c => rfl
  | connectEstablished c | connectDestroyed c => exact congrFun (congrArg Prod.snd hplacement) c

/-- What is done between two arrivals: no connection moves, the map gets no entry, and what is queued anew is
queued at home and concerns connections with the property. -/
structure Settles (P : Nat → Prop) (s t : TcpServer) : Prop where
  placement : t.placement = s.placement
  accepted : t.accepted = s.accepted
  entries : ∀ entry ∈ t.connections, entry ∈ s.connections
  queued : ∀ l, ∀ f ∈ (t.loop l).queue.queued,
    f ∈ (s.loop l).queue.queued ∨ P f.connection ∧ l = s.home f

namespace Settles

theorem refl (s : TcpServer) : Settles P s s := ⟨rfl, rfl, fun _ h => h, fun _ _ h => .inl h⟩

theorem trans (hst : Settles P s t) (htu : Settles P t u) : Settles P s u where
  placement := htu.placement.trans hst.placement
  accepted := htu.accepted.trans hst.accepted
  entries entry hentry := hst.entries entry (htu.entries entry hentry)
  queued l f hf := by
    rcases htu.queued l f hf with hold | hnew
    · exact hst.queued l f hold
    · rw [home_eq hst.placement] at hnew
      exact .inr hnew

theorem modify (s : TcpServer) (c : Nat) (change : ServedConnection → ServedConnection)
    (hloop : ∀ conn, (change conn).loop = conn.loop) : Settles P s (s.modify c change) where
  placement := by
    refine Prod.ext rfl (funext fun d => ?_)
    by_cases hd : d = c <;> simp [TcpServer.placement, TcpServer.modify, hd, hloop]
  accepted := rfl
  entries _ hentry := hentry
  queued _ _ hf := .inl hf

theorem setLoop {l : Nat} {changed : ServerLoop}
    (hqueued : ∀ f ∈ changed.queue.queued,
      f ∈ (s.loop l).queue.queued ∨ P f.connection ∧ l = s.home f) :
    Settles P s (s.setLoop l changed) where
  placement := rfl
  accepted := rfl
  entries _ hentry := hentry
  queued m f hf := by
    by_cases hm : m = l
    · subst hm
      exact hqueued f (by simpa [TcpServer.setLoop] using hf)
    · exact .inl (by simpa [TcpServer.setLoop, hm] using hf)

theorem queueInLoop {f : ServerFunctor} (hf : P f.connection) :
    Settles P s (s.queueInLoop (s.home f) f) := by
  apply setLoop
  intro g hg
  rw [FunctorQueue.queued_queueInLoop, List.mem_append, List.mem_singleton] at hg
  rcases hg with hold | rfl
  · exact .inl hold
  · exact .inr ⟨hf, rfl⟩

theorem perform {f : ServerFunctor} (hf : P f.connection) (hperform : s.perform f = .ok t) :
    Settles P s t := by
  obtain ⟨c, hperformed⟩ := performed_of_perform hperform
  cases hperformed with
  | established | destroyed => exact modify _ _ _ fun _ => rfl
  | removed _ =>
      have herase : Settles P s (s.erase c) :=
        { modify s c (fun conn => { conn with trace := conn.trace ++ [.removed] }) fun _ => rfl with
          entries := fun entry hentry => (List.mem_filter.mp hentry).1 }
      have hqueue : Settles P (s.erase c) _ := queueInLoop (f := .connectDestroyed c) hf
      rw [home_eq herase.placement] at hqueue
      exact herase.trans hqueue

theorem runInLoop {thread : Nat} {f : ServerFunctor} (hf : P f.connection)
    (hrun : s.runInLoop thread (s.home f) f = .ok t) : Settles P s t := by
  rw [TcpServer.runInLoop] at hrun
  split at hrun
  · exact perform hf hrun
  · cases hrun
    exact queueInLoop hf

theorem destroyAll {entries : List (Bytes × Nat)} (hentries : ∀ entry ∈ entries, P entry.2)
    (hdestroy : destroyAll s entries = .ok t) : Settles P s t := by
  induction entries generalizing s with
  | nil =>
      cases hdestroy
      exact refl _
  | cons entry rest ih =>
      rw [TcpServer.destroyAll] at hdestroy
      split at hdestroy
      · rename_i next hnext
        obtain ⟨hentry, hrest⟩ := List.forall_mem_cons.mp hentries
        have hfirst : Settles P s next := runInLoop (f := .connectDestroyed entry.2) hentry hnext
        exact hfirst.trans (ih hrest hdestroy)
      · cases hdestroy

end Settles

theorem settles_accept (hnew : P s.accepted) (hstep : s.step cfg .accept = .ok t) :
    Settles P (s.register cfg) t := by
  obtain ⟨-, hstep⟩ := guarded_ok.mp hstep
  have hhome : (s.register cfg).home (.connectEstablished s.accepted) = (getNextLoop cfg s).1 := by
    rw [home, connection_register_self]
  have hrun : (s.register cfg).runInLoop 0 (getNextLoop cfg s).1 (.connectEstablished s.accepted) =
      .ok t := hstep
  rw [← hhome] at hrun
  exact .runInLoop (f := .connectEstablished s.accepted) hnew hrun

theorem settles_step (hborn : ∀ c, c < s.accepted → P c) (hentries : ∀ entry ∈ s.connections, P entry.2)
    (hqueued : ∀ l, ∀ f ∈ (s.loop l).queue.queued, P f.connection) {label : Label} (hlabel : label ≠ .accept)
    (hstep : s.step cfg label = .ok t) : Settles P s t := by
  obtain ⟨henabled, hstep⟩ := guarded_ok.mp hstep
  cases label with
  | accept => exact absurd rfl hlabel
  | shutdown c | handleClose c =>
      cases hstep
      exact .modify _ _ _ fun _ => rfl
  | closeCallback c =>
      simp only [enabled, Bool.and_eq_true, decide_eq_true_eq] at henabled
      have hclosed : Settles P s _ := .modify s c
        (fun conn => { conn with closing := false, trace := conn.trace ++ [.closed] }) fun _ => rfl
      exact hclosed.trans (.runInLoop (f := .removeConnectionInLoop c) (hborn c henabled.1.1) hstep)
  | destroy =>
      have hcleared : Settles P s { s with destroyed := true, connections := [] } :=
        { Settles.refl s with entries := fun _ hentry => absurd hentry List.not_mem_nil }
      exact hcleared.trans (.destroyAll hentries hstep)
  | swap l =>
      simp only [effect] at hstep
      split at hstep <;> cases hstep
      rename_i queue hswap
      refine .setLoop fun f hf => .inl ?_
      rw [← FunctorQueue.queued_swap hswap]
      exact hf
  | execute l =>
      simp only [effect] at hstep
      split at hstep
      · rename_i f rest hnext
        have hqueue := FunctorQueue.queued_next hnext
        have hf := hqueued l f (by rw [hqueue]; exact List.mem_cons_self)
        have htaken : Settles P s (s.setLoop l { s.loop l with queue := rest }) := by
          refine .setLoop fun g hg => .inl ?_
          rw [hqueue]
          exact List.mem_cons_of_mem _ hg
        exact htaken.trans (.perform hf hstep)
      · cases hstep
  | finish l | quit l =>
      cases hstep
      exact .setLoop fun f hf => .inl hf

theorem accepted_step {label : Label} (hstep : s.step cfg label = .ok t) :
    t.accepted = s.accepted + if label = .accept then 1 else 0 := by
  by_cases hlabel : label = .accept
  · subst hlabel
    exact (settles_accept (P := fun _ => True) trivial hstep).accepted
  · rw [if_neg hlabel]
    exact (settles_step (P := fun _ => True) (fun _ _ => trivial) (fun _ _ => trivial) (fun _ _ _ => trivial)
      hlabel hstep).accepted

/-- The server accepts no more connections than there are numbers. -/
def Few (s : TcpServer) (label : Label) : Prop := label = .accept → s.accepted + 1 < 2 ^ 31

theorem meets_few {labels : List Label} (hcount : s.accepted + labels.count .accept < 2 ^ 31) :
    Meets (step cfg) Few s labels := by
  induction labels generalizing s with
  | nil => trivial
  | cons label labels ih =>
      rw [List.count_cons] at hcount
      refine ⟨fun haccept => ?_, fun next hnext => ih ?_⟩
      · subst haccept
        simp only [beq_self_eq_true, if_true] at hcount
        omega
      · rw [accepted_step hnext]
        by_cases haccept : label = .accept
        · simp only [haccept, beq_self_eq_true, if_true] at hcount ⊢
          omega
        · simp only [beq_iff_eq, haccept, if_false] at hcount ⊢
          omega

end Muduo.TcpServer
