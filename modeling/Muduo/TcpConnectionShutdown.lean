import Muduo.TcpConnectionCallbacks
import Muduo.TcpConnectionOutput

/-! Shutting a connection down behind its output. `shutdown()` half-closes the socket once the output
buffer is empty, but a message sent from another thread is not in the output buffer before its functor
has run. What follows a message from the call of `send` to the socket is the functor queue first and
then the output stream. -/

namespace Muduo.Session

open Channel Execution

variable {s next : Session}

/-! ## What a step adds to the output -/

/-- The message a step hands to `sendInLoop` of a connection that is not down. -/
def handing (s : Session) : Label → List (Nat × Bytes)
  | .call .loop (.send message) _ => if s.state = .kConnected then [(s.sends, message)] else []
  | .functor _ =>
      match s.queue.next with
      | some (.sendInLoop number message, _) =>
          if s.state = .kDisconnected then [] else [(number, message)]
      | _ => []
  | _ => []

/-- The half-close a step issues. -/
def halfClosing (s : Session) : Label → List HalfClose
  | .call .loop .shutdown _ =>
      if s.state = .kConnected then { s with state := .kDisconnecting }.halfClose else []
  | .functor _ =>
      match s.queue.next with
      | some (.shutdownInLoop, _) => s.halfClose
      | _ => []
  | .resume write _ =>
      match s.stack with
      | .event .writeCallback :: _ =>
          if s.state = .kDisconnecting ∧ s.Drains write then
            [⟨.kDisconnecting, [], s.accepted ++ s.outputBuffer.readable⟩]
          else []
      | _ => []
  | _ => []

/-- What a function adds to the output, and to the end of the queue. -/
structure Adds (s : Session) (messages : List (Nat × Bytes)) (issued : List HalfClose)
    (next : Session) : Prop where
  messages : next.messages = s.messages ++ messages
  halfCloses : next.halfCloses = s.halfCloses ++ issued
  faulted : next.faulted = false → s.faulted = false
  queue : ∃ extra, next.queue.queued = s.queue.queued ++ extra ∧
    (.shutdownInLoop ∈ extra → next.state = .kDisconnecting)

namespace Adds

theorem refl (s : Session) : Adds s [] [] s where
  messages := by simp
  halfCloses := by simp
  faulted := id
  queue := ⟨[], by simp, by simp⟩

theorem push (s : Session) {f : ConnectionFunctor}
    (hf : f = .shutdownInLoop → s.state = .kDisconnecting) : Adds s [] [] (s.queueInLoop f) :=
  { refl s with
    queue := ⟨[f], by simp [queueInLoop], by
      rw [List.mem_singleton]
      exact fun h => hf h.symm⟩ }

theorem of_notices {queue : FunctorQueue ConnectionFunctor} (hqueue : QueuesNotices s.queue queue)
    (state : StateE) : ∃ extra, queue.queued = s.queue.queued ++ extra ∧
      (.shutdownInLoop ∈ extra → state = .kDisconnecting) := by
  obtain ⟨extra, hextra, hnotice⟩ := hqueue
  exact ⟨extra, hextra, fun hmem => nomatch hnotice _ hmem⟩

theorem sendInLoop (hmirror : s.channel.Mirrored) {number : Nat} {data : Bytes}
    {write : WriteResult} (hstep : s.sendInLoop number data write = .ok next) :
    Adds s (if s.state = .kDisconnected then [] else [(number, data)]) [] next := by
  by_cases hstate : s.state = .kDisconnected
  · rw [sendInLoop_of_disconnected hstate] at hstep
    rw [if_pos hstate]
    exact Except.ok.inj hstep ▸ refl s
  · obtain ⟨queue, buffer, channel, accepted, faulted, heq, hqueue, hstream, -⟩ :=
      sendInLoop_spec hmirror hstate number data write
    obtain rfl := Except.ok.inj (heq.symm.trans hstep)
    rw [if_neg hstate]
    exact { refl s with
      messages := rfl, faulted := fun h => (hstream h).1, queue := of_notices hqueue _ }

theorem shutdownInLoop (s : Session) : Adds s [] s.halfClose s.shutdownInLoop := by
  rw [shutdownInLoop_eq]
  exact { refl s with halfCloses := rfl }

theorem handleWrite (hmirror : s.channel.Mirrored) {write : WriteResult}
    (hstep : s.handleWrite write = .ok next) :
    Adds s [] (if s.state = .kDisconnecting ∧ s.Drains write then
      [⟨.kDisconnecting, [], s.accepted ++ s.outputBuffer.readable⟩] else []) next ∧
      next.state = s.state := by
  rcases handleWrite_spec hmirror write with
    ⟨hdrains, buffer, accepted, heq, -⟩ | ⟨hdrains, queue, buffer, hqueue, -, heq⟩
  · obtain rfl := Except.ok.inj (heq.symm.trans hstep)
    rw [if_neg fun h => hdrains h.2]
    exact ⟨{ refl s with }, rfl⟩
  · obtain rfl := Except.ok.inj (heq.symm.trans hstep)
    refine ⟨{ refl s with halfCloses := ?_, queue := of_notices hqueue _ }, rfl⟩
    by_cases hstate : s.state = .kDisconnecting
    · simp [hstate, hdrains]
    · simp [hstate]

theorem handleClose (hmirror : s.channel.Mirrored) (hstep : s.handleClose = .ok next) :
    Adds s [] [] next := by
  by_cases hopen : s.IsOpen
  · rw [handleClose_eq hmirror hopen] at hstep
    obtain rfl := Except.ok.inj hstep
    exact { refl s with queue := ⟨[], by simp, by simp⟩ }
  · rw [handleClose_of_not_open hopen] at hstep
    cases hstep

theorem forceCloseInLoop (hmirror : s.channel.Mirrored) (hstep : s.forceCloseInLoop = .ok next) :
    Adds s [] [] next := by
  by_cases hopen : s.IsOpen
  · rw [forceCloseInLoop_of_open hopen] at hstep
    exact handleClose hmirror hstep
  · rw [forceCloseInLoop_of_not_open hopen] at hstep
    exact Except.ok.inj hstep ▸ refl s

theorem startReadInLoop (hmirror : s.channel.Mirrored) (hstep : s.startReadInLoop = .ok next) :
    Adds s [] [] next := by
  obtain rfl := Except.ok.inj ((startReadInLoop_eq hmirror).symm.trans hstep)
  split_ifs
  · exact { refl s with }
  · exact refl s

theorem stopReadInLoop (hmirror : s.channel.Mirrored) (hstep : s.stopReadInLoop = .ok next) :
    Adds s [] [] next := by
  obtain rfl := Except.ok.inj ((stopReadInLoop_eq hmirror).symm.trans hstep)
  split_ifs
  · exact { refl s with }
  · exact refl s

theorem connectEstablished (hmirror : s.channel.Mirrored)
    (hstep : s.connectEstablished = .ok next) : Adds s [] [] next := by
  by_cases hstate : s.state = .kConnecting
  · rw [connectEstablished_eq hmirror hstate] at hstep
    obtain rfl := Except.ok.inj hstep
    exact { refl s with queue := ⟨[], by simp, by simp⟩ }
  · rw [connectEstablished_of_not_connecting hstate] at hstep
    cases hstep

theorem connectDestroyed (hmirror : s.channel.Mirrored) (hstep : s.connectDestroyed = .ok next) :
    Adds s [] [] next := by
  by_cases hstate : s.state = .kConnected
  · rw [connectDestroyed_of_connected hmirror hstate] at hstep
    obtain rfl := Except.ok.inj hstep
    exact { refl s with queue := ⟨[], by simp, by simp⟩ }
  · rw [connectDestroyed_of_not_connected hstate] at hstep
    obtain rfl := Except.ok.inj hstep
    exact { refl s with }

theorem closeCallback (s : Session) : Adds s [] [] s.closeCallback := by
  rcases closeCallback_cases s with heq | heq <;> rw [heq]
  · exact { push s (f := .connectDestroyed) nofun with }
  · exact { refl s with }

theorem removeChannel (hmirror : s.channel.Mirrored)
    (hstep : s.withChannel s.channel.remove = .ok next) : Adds s [] [] next := by
  by_cases hnone : s.channel.events = 0#32
  · by_cases hindex : s.channel.index = .kNew
    · rw [remove_of_kNew hmirror hindex] at hstep
      cases hstep
    · rw [remove_eq hmirror hnone hindex] at hstep
      obtain rfl := Except.ok.inj hstep
      exact { refl s with }
  · rw [remove_of_events hnone] at hstep
    cases hstep

theorem forceClose (s : Session) : Adds s [] [] s.forceClose := by
  unfold Session.forceClose
  split_ifs
  · exact { push { s with state := .kDisconnecting } (f := .forceCloseInLoop) nofun with }
  · exact refl s

theorem forceCloseWithDelay (s : Session) : Adds s [] [] s.forceCloseWithDelay := by
  unfold Session.forceCloseWithDelay
  split_ifs
  · exact { refl s with queue := ⟨[], by simp [setState], by simp⟩ }
  · exact refl s

theorem send (hmirror : s.channel.Mirrored) {thread : Thread} {message : Bytes}
    {write : WriteResult} (hstep : s.send thread message write = .ok next) :
    Adds s (s.handing (.call thread (.send message) write)) [] next := by
  unfold Session.send at hstep
  cases thread with
  | loop =>
      simp only [handing]
      split_ifs at hstep ⊢ with hstate
      · have hup : s.state ≠ .kDisconnected := by rw [hstate]; decide
        have hadds := sendInLoop (s := { s with sends := s.sends + 1 }) hmirror hstep
        rw [if_neg hup] at hadds
        exact { hadds with }
      · exact Except.ok.inj hstep ▸ refl s
  | other id =>
      split_ifs at hstep
      · obtain rfl := Except.ok.inj hstep
        exact { push { s with sends := s.sends + 1 } (f := .sendInLoop s.sends message) nofun with }
      · exact Except.ok.inj hstep ▸ refl s

theorem shutdown {thread : Thread} {write : WriteResult} (hstep : s.shutdown thread = .ok next) :
    Adds s [] (s.halfClosing (.call thread .shutdown write)) next ∧
      (s.halfClosing (.call thread .shutdown write) ≠ [] → next.state = .kDisconnecting) := by
  unfold Session.shutdown at hstep
  cases thread with
  | loop =>
      simp only [halfClosing]
      split_ifs at hstep ⊢ with hstate
      · obtain rfl := Except.ok.inj hstep
        rw [shutdownInLoop_eq]
        exact ⟨{ refl s with halfCloses := rfl, queue := ⟨[], by simp [setState], by simp⟩ },
          fun _ => rfl⟩
      · exact ⟨Except.ok.inj hstep ▸ refl s, fun h => absurd rfl h⟩
  | other id =>
      refine ⟨?_, fun h => absurd rfl h⟩
      split_ifs at hstep
      · obtain rfl := Except.ok.inj hstep
        exact { push { s with state := .kDisconnecting } (f := .shutdownInLoop) (fun _ => rfl) with }
      · exact Except.ok.inj hstep ▸ refl s

theorem call (hmirror : s.channel.Mirrored) {thread : Thread} {c : Call} {write : WriteResult}
    (hstep : s.call thread write c = .ok next) :
    Adds s (s.handing (.call thread c write)) (s.halfClosing (.call thread c write)) next ∧
      (s.halfClosing (.call thread c write) ≠ [] → next.state = .kDisconnecting) := by
  cases c with
  | send message =>
      have hnone : s.halfClosing (.call thread (.send message) write) = [] := by cases thread <;> rfl
      rw [hnone]
      exact ⟨send hmirror hstep, fun h => absurd rfl h⟩
  | shutdown =>
      have hnone : s.handing (.call thread .shutdown write) = [] := by cases thread <;> rfl
      rw [hnone]
      exact shutdown hstep
  | forceClose =>
      obtain rfl := Except.ok.inj hstep
      cases thread <;> exact ⟨forceClose s, fun h => absurd rfl h⟩
  | forceCloseWithDelay =>
      obtain rfl := Except.ok.inj hstep
      cases thread <;> exact ⟨forceCloseWithDelay s, fun h => absurd rfl h⟩
  | startRead =>
      cases thread with
      | loop => exact ⟨startReadInLoop hmirror hstep, fun h => absurd rfl h⟩
      | other id => exact ⟨Except.ok.inj hstep ▸ push s nofun, fun h => absurd rfl h⟩
  | stopRead =>
      cases thread with
      | loop => exact ⟨stopReadInLoop hmirror hstep, fun h => absurd rfl h⟩
      | other id => exact ⟨Except.ok.inj hstep ▸ push s nofun, fun h => absurd rfl h⟩

theorem runFrame (hmirror : s.channel.Mirrored) {f : Frame} {rest : List Frame}
    {write : WriteResult} {read : ReadResult} (hstack : s.stack = f :: rest)
    (hstep : { s with stack := rest }.runFrame write read f = .ok next) :
    Adds { s with stack := rest } [] (s.halfClosing (.resume write read)) next ∧
      (s.halfClosing (.resume write read) ≠ [] → next.state = .kDisconnecting) := by
  simp only [halfClosing, hstack]
  cases f with
  | event callback =>
      cases callback with
      | closeCallback =>
          exact ⟨handleClose (s := { s with stack := rest }) hmirror hstep, fun h => absurd rfl h⟩
      | errorCallback => exact ⟨Except.ok.inj hstep ▸ refl _, fun h => absurd rfl h⟩
      | readCallback =>
          refine ⟨?_, fun h => absurd rfl h⟩
          cases read with
          | fails errno => exact Except.ok.inj hstep ▸ refl _
          | received count =>
              simp only [Session.runFrame, handleRead] at hstep
              split_ifs at hstep
              · exact Except.ok.inj hstep ▸ { refl { s with stack := rest } with }
              · exact handleClose (s := { s with stack := rest }) hmirror hstep
      | writeCallback =>
          obtain ⟨hadds, hstate⟩ := handleWrite (s := { s with stack := rest }) hmirror hstep
          refine ⟨hadds, fun hissued => ?_⟩
          simp only at hissued
          split_ifs at hissued with h
          · exact hstate.trans h.1
          · exact absurd rfl hissued
  | closeCallback =>
      exact ⟨Except.ok.inj hstep ▸ closeCallback { s with stack := rest }, fun h => absurd rfl h⟩
  | removeChannel =>
      exact ⟨removeChannel (s := { s with stack := rest }) hmirror hstep, fun h => absurd rfl h⟩

theorem runFunctor (hmirror : s.channel.Mirrored) {f : ConnectionFunctor}
    {queue : FunctorQueue ConnectionFunctor} {write : WriteResult}
    (hnext : s.queue.next = some (f, queue))
    (hstep : { s with queue := queue }.runFunctor write f = .ok next) :
    Adds { s with queue := queue } (s.handing (.functor write)) (s.halfClosing (.functor write))
      next := by
  simp only [handing, halfClosing, hnext]
  cases f with
  | connectEstablished => exact connectEstablished (s := { s with queue := queue }) hmirror hstep
  | connectDestroyed => exact connectDestroyed (s := { s with queue := queue }) hmirror hstep
  | sendInLoop number message => exact sendInLoop (s := { s with queue := queue }) hmirror hstep
  | shutdownInLoop => exact Except.ok.inj hstep ▸ shutdownInLoop { s with queue := queue }
  | forceCloseInLoop => exact forceCloseInLoop (s := { s with queue := queue }) hmirror hstep
  | startReadInLoop => exact startReadInLoop (s := { s with queue := queue }) hmirror hstep
  | stopReadInLoop => exact stopReadInLoop (s := { s with queue := queue }) hmirror hstep
  | writeCompleteCallback | highWaterMarkCallback length => exact Except.ok.inj hstep ▸ refl _

end Adds

/-- What a step takes off the front of the queue. -/
def taken (s : Session) : Label → List ConnectionFunctor
  | .functor _ =>
      match s.queue.next with
      | some (f, _) => [f]
      | none => []
  | _ => []

/-- One step of the loop, as far as the output is concerned. -/
structure Outputs (s : Session) (label : Label) (next : Session) : Prop where
  messages : next.messages = s.messages ++ s.handing label
  halfCloses : next.halfCloses = s.halfCloses ++ s.halfClosing label
  faulted : next.faulted = false → s.faulted = false
  queue : ∃ kept extra, s.queue.queued = s.taken label ++ kept ∧
    next.queue.queued = kept ++ extra ∧ (.shutdownInLoop ∈ extra → next.state = .kDisconnecting)
  /-- Only what heads the queue half-closes without a look at the state. -/
  issued : s.halfClosing label ≠ [] →
    ConnectionFunctor.shutdownInLoop ∈ s.taken label ∨ next.state = .kDisconnecting

theorem Outputs.of_adds (base : Session) {label : Label} (hmessages : base.messages = s.messages)
    (hhalfCloses : base.halfCloses = s.halfCloses) (hfaulted : base.faulted = s.faulted)
    (hqueue : s.queue.queued = s.taken label ++ base.queue.queued)
    (hadds : Adds base (s.handing label) (s.halfClosing label) next)
    (hissued : s.halfClosing label ≠ [] →
      ConnectionFunctor.shutdownInLoop ∈ s.taken label ∨ next.state = .kDisconnecting) :
    Outputs s label next where
  messages := hmessages ▸ hadds.messages
  halfCloses := hhalfCloses ▸ hadds.halfCloses
  faulted h := hfaulted ▸ hadds.faulted h
  queue := by
    obtain ⟨extra, hextra, hshutdown⟩ := hadds.queue
    exact ⟨base.queue.queued, extra, hqueue, hextra, hshutdown⟩
  issued := hissued

theorem step_outputs (hmirror : s.channel.Mirrored) {label : Label}
    (hstep : s.step label = .ok next) : Outputs s label next := by
  cases took hstep with
  | call hcall =>
      obtain ⟨hadds, hissued⟩ := Adds.call hmirror hcall
      exact .of_adds s rfl rfl rfl rfl hadds fun h => .inr (hissued h)
  | handleEvent _ _ _ =>
      exact .of_adds s rfl rfl rfl rfl { Adds.refl s with } fun h => absurd rfl h
  | @resume f rest write read _ hstack hframe =>
      obtain ⟨hadds, hissued⟩ := Adds.runFrame hmirror hstack hframe
      exact .of_adds { s with stack := rest } rfl rfl rfl rfl hadds
        fun h => .inr (hissued h)
  | doPendingFunctors _ hswap =>
      have hqueued := FunctorQueue.queued_swap hswap
      refine .of_adds s rfl rfl rfl rfl ?_ fun h => absurd rfl h
      exact { Adds.refl s with queue := ⟨[], by simp [hqueued], by simp⟩ }
  | @functor f queue write _ _ hnext hfunctor =>
      have htaken : s.taken (.functor write) = [f] := by simp only [taken, hnext]
      refine .of_adds { s with queue := queue } rfl rfl rfl ?_
        (Adds.runFunctor hmirror hnext hfunctor) ?_
      · rw [htaken]
        exact FunctorQueue.queued_next hnext
      · intro hissued
        rw [htaken, List.mem_singleton]
        simp only [halfClosing, hnext] at hissued
        split at hissued
        · rename_i hsome
          simp only [Option.some.injEq, Prod.mk.injEq] at hsome
          exact .inl hsome.1.symm
        · exact absurd rfl hissued
  | delayedForceClose _ _ =>
      exact .of_adds { s with delayedCloses := s.delayedCloses - 1 } rfl rfl rfl rfl
        (Adds.forceClose _) fun h => absurd rfl h
  | removeConnectionInLoop _ =>
      exact .of_adds { s with removals := s.removals - 1 } rfl rfl rfl rfl
        (Adds.push _ nofun) fun h => absurd rfl h

/-- A half-close issued while the connection is up finds everything handed over so far accepted. -/
theorem halfClosing_accepted (hinv : s.OutputInv) (hup : s.state ≠ .kDisconnected)
    (hfaulted : s.faulted = false) {label : Label} {h : HalfClose} (hmem : h ∈ s.halfClosing label) :
    h.accepted = s.handed := by
  have hstream := hinv.stream hfaulted
  have hidle : s.channel.isWriting = false → s.accepted = s.handed := by
    intro hwriting
    have hempty : s.outputBuffer.readable = [] := by
      by_contra hne
      rw [(hinv.writing hup).mpr hne] at hwriting
      cases hwriting
    rw [← hstream, hempty, List.append_nil]
  have hissued : ∀ state : StateE, h ∈ { s with state := state }.halfClose →
      h.accepted = s.handed := by
    intro state hh
    unfold halfClose at hh
    split_ifs at hh with hwriting
    · cases hh
    · rw [List.mem_singleton.mp hh]
      exact hidle (by simpa using hwriting)
  cases label with
  | call thread c write =>
      cases thread with
      | loop =>
          cases c with
          | shutdown =>
              simp only [halfClosing] at hmem
              split_ifs at hmem
              · exact hissued _ hmem
              · cases hmem
          | send message | forceClose | forceCloseWithDelay | startRead | stopRead => cases hmem
      | other id => cases c <;> cases hmem
  | functor write =>
      simp only [halfClosing] at hmem
      split at hmem
      · exact hissued s.state hmem
      · cases hmem
  | resume write read =>
      simp only [halfClosing] at hmem
      split at hmem
      · split_ifs at hmem
        · rw [List.mem_singleton.mp hmem]
          exact hstream
        · cases hmem
      · cases hmem
  | handleEvent revents | doPendingFunctors | delayedForceClose | removeConnectionInLoop =>
      cases hmem

/-! ## Before the shutdown -/

/-- Nothing has been half-closed, and nothing will be, without a `shutdown()`. -/
def Unshut (s : Session) : Prop :=
  s.state = .kConnecting ∨ s.state = .kConnected →
    s.halfCloses = [] ∧ ConnectionFunctor.shutdownInLoop ∉ s.queue.queued

theorem unshut_new (setup : Setup) : Unshut (new setup) := by
  simp [Unshut, new, FunctorQueue.queued]

theorem rank_le_kConnected {state : StateE} :
    rank state ≤ 1 ↔ state = .kConnecting ∨ state = .kConnected := by
  cases state <;> decide

theorem Unshut.step (hunshut : s.Unshut) (hmirror : s.channel.Mirrored) {label : Label}
    (hstep : s.step label = .ok next) : next.Unshut := by
  intro hup
  have hrank := rank_step hmirror hstep
  have hoff : next.state ≠ .kDisconnecting := by rcases hup with h | h <;> rw [h] <;> decide
  obtain ⟨hnone, hqueue⟩ :=
    hunshut (rank_le_kConnected.mp (Nat.le_trans hrank (rank_le_kConnected.mpr hup)))
  have houtputs := step_outputs hmirror hstep
  obtain ⟨kept, extra, hqueued, hnext, hshutdown⟩ := houtputs.queue
  rw [hqueued, List.mem_append, not_or] at hqueue
  constructor
  · have hissued : s.halfClosing label = [] := by
      by_contra hissued
      rcases houtputs.issued hissued with h | h
      · exact hqueue.1 h
      · exact hoff h
    rw [houtputs.halfCloses, hnone, hissued, List.append_nil]
  · rw [hnext, List.mem_append, not_or]
    exact ⟨hqueue.2, fun h => hoff (hshutdown h)⟩

/-! ## The way of a message -/

section Message

variable (earlier : List (Nat × Bytes)) (number : Nat) (message : Bytes)

/-- The message is in the queue, and nothing in front of it half-closes. -/
def Waiting (s : Session) : Prop :=
  ∃ front back, s.queue.queued = front ++ .sendInLoop number message :: back ∧
    ConnectionFunctor.shutdownInLoop ∉ front ∧ s.halfCloses = [] ∧ earlier <+: s.messages

/-- The message has been handed over behind the earlier ones, and no half-close was issued before it
had been accepted in full. -/
def HandedOver (s : Session) : Prop :=
  ∃ front back, s.messages = front ++ (number, message) :: back ∧ earlier <+: front ∧
    ∀ h ∈ s.halfCloses, front.flatMap Prod.snd ++ message <+: h.accepted

/-- No step but one from the queue half-closes while the message waits in the queue: neither
`shutdown()` called by the loop thread, nor `handleWrite` when it has drained an older backlog. -/
def Patient (s : Session) (label : Label) : Prop :=
  ConnectionFunctor.sendInLoop number message ∈ s.queue.queued → s.taken label = [] →
    s.halfClosing label = []

instance (s : Session) (label : Label) : Decidable (Patient number message s label) :=
  inferInstanceAs (Decidable (_ → _ → _))

variable {earlier number message}

theorem HandedOver.step (hhanded : HandedOver earlier number message s) (hinv : s.OutputInv)
    (hup : s.state ≠ .kDisconnected) (hfaulted : s.faulted = false) {label : Label}
    (hstep : s.step label = .ok next) : HandedOver earlier number message next := by
  obtain ⟨front, back, hmessages, hearlier, haccepted⟩ := hhanded
  have houtputs := step_outputs hinv.mirrored hstep
  refine ⟨front, back ++ s.handing label, ?_, hearlier, ?_⟩
  · rw [houtputs.messages, hmessages, List.append_assoc, List.cons_append]
  · intro h hmem
    rw [houtputs.halfCloses, List.mem_append] at hmem
    rcases hmem with hold | hnew
    · exact haccepted h hold
    · rw [halfClosing_accepted hinv hup hfaulted hnew, handed, hmessages]
      simp

theorem Waiting.step (hwaiting : Waiting earlier number message s) (hmirror : s.channel.Mirrored)
    (hup : s.state ≠ .kDisconnected) {label : Label} (hpatient : Patient number message s label)
    (hstep : s.step label = .ok next) :
    Waiting earlier number message next ∨ HandedOver earlier number message next := by
  obtain ⟨front, back, hqueued, hfront, hnone, hearlier⟩ := hwaiting
  have houtputs := step_outputs hmirror hstep
  have hmem : ConnectionFunctor.sendInLoop number message ∈ s.queue.queued := by simp [hqueued]
  have hgrown : earlier <+: next.messages := by
    rw [houtputs.messages]
    exact hearlier.trans (List.prefix_append _ _)
  obtain ⟨kept, extra, htaken, hnext, -⟩ := houtputs.queue
  rw [hqueued] at htaken
  cases hpop : s.taken label with
  | nil =>
      rw [hpop, List.nil_append] at htaken
      refine .inl ⟨front, back ++ extra, ?_, hfront, ?_, hgrown⟩
      · rw [hnext, ← htaken, List.append_assoc, List.cons_append]
      · rw [houtputs.halfCloses, hnone, hpatient hmem hpop, List.append_nil]
  | cons f others =>
      have hlabel : ∃ write queue, label = .functor write ∧ s.queue.next = some (f, queue) ∧
          others = [] := by
        cases label with
        | functor write =>
            simp only [taken] at hpop
            split at hpop
            · rename_i g queue hsome
              obtain ⟨rfl, hothers⟩ := List.cons.inj hpop
              exact ⟨write, queue, rfl, hsome, hothers.symm⟩
            · cases hpop
        | call thread c write | handleEvent revents | resume write read | doPendingFunctors
        | delayedForceClose | removeConnectionInLoop => cases hpop
      obtain ⟨write, queue, rfl, hsome, rfl⟩ := hlabel
      rw [hpop, List.singleton_append] at htaken
      cases front with
      | nil =>
          -- the message itself is taken
          obtain ⟨rfl, -⟩ := List.cons.inj htaken
          have hissued : s.halfClosing (.functor write) = [] := by simp only [halfClosing, hsome]
          have hhanding : s.handing (.functor write) = [(number, message)] := by
            simp only [handing, hsome, if_neg hup]
          refine .inr ⟨s.messages, [], ?_, hearlier, ?_⟩
          · rw [houtputs.messages, hhanding]
          · rw [houtputs.halfCloses, hnone, hissued]
            nofun
      | cons g rest =>
          rw [List.cons_append, List.cons.injEq] at htaken
          obtain ⟨rfl, hkept⟩ := htaken
          rw [List.mem_cons, not_or] at hfront
          refine .inl ⟨rest, back ++ extra, ?_, hfront.2, ?_, hgrown⟩
          · rw [hnext, ← hkept, List.append_assoc, List.cons_append]
          · have hissued : s.halfClosing (.functor write) = [] := by
              by_contra hissued
              simp only [halfClosing, hsome] at hissued
              split at hissued
              · rename_i hshutdown
                simp only [Option.some.injEq, Prod.mk.injEq] at hshutdown
                exact hfront.1 hshutdown.1.symm
              · exact hissued rfl
            rw [houtputs.halfCloses, hnone, hissued, List.append_nil]

/-- The call of `send` puts the message on its way. -/
theorem send_on_its_way (hinv : s.OutputInv) (hunshut : s.Unshut) (hstate : s.state = .kConnected)
    {thread : Thread} {write : WriteResult}
    (hstep : s.step (.call thread (.send message) write) = .ok next) :
    if thread = .loop then HandedOver s.messages s.sends message next
    else Waiting s.messages s.sends message next := by
  obtain ⟨hnone, hqueue⟩ := hunshut (.inr hstate)
  have houtputs := step_outputs hinv.mirrored hstep
  cases thread with
  | loop =>
      have hhanding : s.handing (.call .loop (.send message) write) = [(s.sends, message)] := by
        simp only [handing, if_pos hstate]
      refine ⟨s.messages, [], ?_, List.prefix_refl _, ?_⟩
      · rw [houtputs.messages, hhanding]
      · rw [houtputs.halfCloses, hnone]
        nofun
  | other id =>
      simp only [step, perform, call, send, if_pos hstate] at hstep
      obtain rfl := Except.ok.inj hstep
      refine ⟨s.queue.queued, [], ?_, hqueue, hnone, List.prefix_refl _⟩
      simp [queueInLoop]

end Message

/-- Where the message is, unless the connection is down or has found the peer gone. -/
structure Tracked (place : Session → Prop) (s : Session) : Prop where
  output : s.OutputInv
  placed : s.state ≠ .kDisconnected → s.faulted = false → place s

theorem Tracked.step {place place' : Session → Prop} (htracked : Tracked place s) {label : Label}
    (hstep : s.step label = .ok next)
    (hplace : s.state ≠ .kDisconnected → s.faulted = false → place s → place' next) :
    Tracked place' next where
  output := htracked.output.step hstep
  placed hup hfaulted := by
    have hmirror := htracked.output.mirrored
    have hbefore : s.state ≠ .kDisconnected := by
      intro hdown
      have hrank := rank_step hmirror hstep
      rw [hdown] at hrank
      exact hup (rank_injective (Nat.le_antisymm (rank_le_kDisconnected _) hrank))
    have hsound := (step_outputs hmirror hstep).faulted hfaulted
    exact hplace hbefore hsound (htracked.placed hbefore hsound)

/-- Another thread passes its message on in a `StringPiece`, whose length is an `int`. -/
def short : Label → Bool
  | .call (.other _) (.send message) _ => message.length < 2 ^ 31
  | _ => true

/-- **Shutting down loses nothing that was handed over.** A message sent while the connection is up
is handed over behind all earlier ones, and every half-close comes after `write(2)` has accepted the
message in full, as long as no direct write finds the peer gone and the connection is not closed,
provided that the loop thread itself has sent the message, or that nothing half-closes past the queue
while the message waits in it, and that other threads send less than 2 GiB at once. -/
theorem shutdown_loses_nothing (setup : Setup) (before after : List {label // short label = true})
    (s sent final : Session) (thread : Thread) (write : WriteResult)
    (message : {m // short (.call thread (.send m) write) = true})
    (hbefore : run step (new setup) (before.map Subtype.val) = .ok s) (hstate : s.state = .kConnected)
    (hsend : s.step (.call thread (.send message) write) = .ok sent)
    (hafter : run step sent (after.map Subtype.val) = .ok final)
    (hpatient : thread = .loop ∨ Meets step (Patient s.sends message) sent (after.map Subtype.val))
    (hfaulted : final.faulted = false) (hup : final.state ≠ .kDisconnected) :
    ∀ h ∈ final.halfCloses, ∃ front back,
      final.messages = front ++ (s.sends, message.1) :: back ∧ s.messages <+: front ∧
        front.flatMap Prod.snd ++ message.1 <+: h.accepted := by
  have hstart : s.OutputInv ∧ s.Unshut := by
    refine run_preserves (fun s => s.OutputInv ∧ s.Unshut) ?_
      ⟨outputInv_new setup, unshut_new setup⟩ hbefore
    rintro state label next ⟨hinv, hunshut⟩ hstep
    exact ⟨hinv.step hstep, hunshut.step hinv.mirrored hstep⟩
  obtain ⟨hinv, hunshut⟩ := hstart
  have hway := send_on_its_way hinv hunshut hstate hsend
  have hfinal : Tracked (fun s' => Waiting s.messages s.sends message s' ∨
      HandedOver s.messages s.sends message s') final := by
    rcases hpatient with rfl | hmeets
    · have hhanded : Tracked (HandedOver s.messages s.sends message) final := by
        refine run_preserves (Tracked (HandedOver s.messages s.sends message)) ?_
          ⟨hinv.step hsend, fun _ _ => hway⟩ hafter
        intro state label next htracked hstep
        exact htracked.step hstep fun hup hsound hplace =>
          hplace.step htracked.output hup hsound hstep
      exact ⟨hhanded.output, fun hup hsound => .inr (hhanded.placed hup hsound)⟩
    · refine run_preserves_of_meets (Tracked _) ?_ ⟨hinv.step hsend, fun _ _ => ?_⟩ hmeets hafter
      · intro state label next htracked hcondition hstep
        refine htracked.step hstep fun hup hsound hplace => ?_
        rcases hplace with hwaiting | hhanded
        · exact hwaiting.step htracked.output.mirrored hup hcondition hstep
        · exact .inr (hhanded.step htracked.output hup hsound hstep)
      · split_ifs at hway
        · exact .inr hway
        · exact .inl hway
  intro h hmem
  rcases hfinal.placed hup hfaulted with ⟨_, _, _, _, hnone, _⟩ | ⟨front, back, hmessages, hfront, hall⟩
  · rw [hnone] at hmem
    cases hmem
  · exact ⟨front, back, hmessages, hfront, hall h hmem⟩

/-- The backlog of an earlier message is drained, and only then the queued message is sent. -/
def drainThenSend : List Label :=
  [.handleEvent POLLOUT, .resume (.accepts 5) (.received 0), .doPendingFunctors,
    .functor (.accepts 1), .call (.other 1) .shutdown (.accepts 0), .doPendingFunctors,
    .functor (.accepts 0)]

/-- A message of which the direct write accepts the first byte only. -/
def sendWithBacklog : List Label := establishing ++ [.call .loop (.send [1, 2]) (.accepts 1)]

theorem shutdown_loses_nothing_drainThenSend :
    ∃ s sent final, run step (new {}) sendWithBacklog = .ok s ∧ s.state = .kConnected ∧
      s.step (.call (.other 1) (.send [7]) (.accepts 0)) = .ok sent ∧
      run step sent drainThenSend = .ok final ∧
      ∃ h ∈ final.halfCloses, ∃ front back,
        final.messages = front ++ (s.sends, [7]) :: back ∧ s.messages <+: front ∧
          front.flatMap Prod.snd ++ [7] <+: h.accepted := by
  obtain ⟨s, hrun, hcheck⟩ := exists_of_outcome step (new {}) sendWithBacklog
    (fun s => s.state == .kConnected && outcome step s [.call (.other 1) (.send [7]) (.accepts 0)]
      fun sent => decide (Meets step (Patient s.sends [7]) sent drainThenSend) &&
        outcome step sent drainThenSend fun final =>
          !final.faulted && final.state == .kDisconnecting && !final.halfCloses.isEmpty)
    (by decide +kernel)
  rw [Bool.and_eq_true, beq_iff_eq] at hcheck
  obtain ⟨hstate, houtcome⟩ := hcheck
  obtain ⟨sent, hsend, hcheck⟩ := exists_of_outcome _ _ _ _ houtcome
  rw [run_singleton_ok] at hsend
  rw [Bool.and_eq_true, decide_eq_true_eq] at hcheck
  obtain ⟨hpatient, houtcome⟩ := hcheck
  obtain ⟨final, hafter, hcheck⟩ := exists_of_outcome _ _ _ _ houtcome
  simp only [Bool.and_eq_true, Bool.not_eq_true', beq_iff_eq] at hcheck
  obtain ⟨⟨hfaulted, hfinal⟩, hissued⟩ := hcheck
  obtain ⟨h, hmem⟩ := List.exists_mem_of_ne_nil _ (by simpa using hissued)
  have hup : final.state ≠ .kDisconnected := by rw [hfinal]; decide
  exact ⟨s, sent, final, hrun, hstate, hsend, hafter, h, hmem,
    shutdown_loses_nothing {} (sendWithBacklog.attachWith _ (by decide)) (drainThenSend.attachWith _ (by decide))
      s sent final (.other 1) (.accepts 0) ⟨[7], rfl⟩ (by simpa using hrun) hstate hsend (by simpa using hafter)
      (.inr (by simpa using hpatient)) hfaulted hup h hmem⟩

/-- A thread sends and then shuts down while an older backlog is pending: `handleWrite` drains the
backlog and half-closes before the functor of the message has run. -/
def shutdownPastQueue : List Label :=
  sendWithBacklog ++ [.call (.other 1) (.send [7]) (.accepts 0),
    .call (.other 1) .shutdown (.accepts 0), .handleEvent POLLOUT,
    .resume (.accepts 5) (.received 0)]

theorem shutdown_loses_queued_message :
    ∃ s, run step (new {}) shutdownPastQueue = .ok s ∧ s.faulted = false ∧
      s.state = .kDisconnecting ∧ ConnectionFunctor.sendInLoop 1 [7] ∈ s.queue.queued ∧
      s.halfCloses = [⟨.kDisconnecting, [], [1, 2]⟩] := by
  obtain ⟨s, hrun, hcheck⟩ := exists_of_outcome step (new {}) shutdownPastQueue
    (fun s => !s.faulted && s.state == .kDisconnecting &&
      s.queue.queued.contains (.sendInLoop 1 [7]) &&
      s.halfCloses == [⟨.kDisconnecting, [], [1, 2]⟩]) (by decide +kernel)
  simp only [Bool.and_eq_true, Bool.not_eq_true', beq_iff_eq, List.contains_iff_mem] at hcheck
  obtain ⟨⟨⟨hfaulted, hstate⟩, hqueued⟩, hissued⟩ := hcheck
  exact ⟨s, hrun, hfaulted, hstate, hqueued, hissued⟩

end Muduo.Session
