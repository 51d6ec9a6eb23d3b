import Muduo.TcpConnectionEffects

/-! The output side of a connection. Two paths write to the socket, the direct write of `sendInLoop`
and the drain in `handleWrite`; the invariant below ties the bytes the kernel has accepted, the
content of the output buffer and the write interest of the channel together, and every function of
the connection keeps it, in whatever order they are invoked. -/

namespace Muduo.Session

open Channel Execution

/-- The output invariant. -/
structure OutputInv (s : Session) : Prop where
  mirrored : s.channel.Mirrored
  stream : s.faulted = false → s.accepted ++ s.outputBuffer.readable = s.handed
  writing : s.state ≠ .kDisconnected →
    (s.channel.isWriting = true ↔ s.outputBuffer.readable ≠ [])
  halfCloses : ∀ h ∈ s.halfCloses, h.state ≠ .kDisconnected → h.backlog = []
  requested : s.shutdownRequested = true → s.state = .kDisconnecting ∨ s.state = .kDisconnected
  served_requested : s.shutdownServed = true → s.shutdownRequested = true
  served : s.shutdownServed = true → s.state = .kDisconnecting → s.outputBuffer.readable = [] →
    ∃ h ∈ s.halfCloses, h.state = .kDisconnecting

variable {s next : Session}

theorem outputInv_new (setup : Setup) : OutputInv (new setup) where
  mirrored := mirrored_initial
  stream _ := Buffer.readable_new _
  writing _ := by
    rw [show (new setup).outputBuffer.readable = [] from Buffer.readable_new _]
    simp [new, isWriting]
  halfCloses := by simp [new]
  requested := by simp [new]
  served_requested := by simp [new]
  served := by simp [new]

namespace OutputInv

theorem queueInLoop (hinv : s.OutputInv) (f : ConnectionFunctor) : (s.queueInLoop f).OutputInv :=
  { hinv with }

theorem notify (hinv : s.OutputInv) (notice : Notice) : (s.notify notice).OutputInv :=
  { hinv with }

/-- A change of the read interest leaves the write interest alone. -/
theorem readInterest (hinv : s.OutputInv) {events : EventMask}
    (hwriting : (s.channel.refreshed events).isWriting = s.channel.isWriting) (reading : Bool) :
    OutputInv { s with channel := s.channel.refreshed events, reading := reading } :=
  { hinv with
    mirrored := refreshed_mirrored _ _
    writing := fun hstate => by
      rw [show (s.channel.refreshed events).isWriting = s.channel.isWriting from hwriting]
      exact hinv.writing hstate }

theorem shutdownInLoop (hinv : s.OutputInv) : s.shutdownInLoop.OutputInv := by
  rw [shutdownInLoop_eq]
  have hissued : ∀ h ∈ s.halfClose, h = ⟨s.state, s.outputBuffer.readable, s.accepted⟩ ∧
      s.channel.isWriting = false := by
    intro h hmem
    unfold halfClose at hmem
    split_ifs at hmem with hwriting
    · simp at hmem
    · exact ⟨List.mem_singleton.mp hmem, by simpa using hwriting⟩
  refine { hinv with halfCloses := ?_, served_requested := ?_, served := ?_ }
  · intro h hmem hstate
    rcases List.mem_append.mp hmem with hold | hnew
    · exact hinv.halfCloses h hold hstate
    · obtain ⟨rfl, hwriting⟩ := hissued h hnew
      by_contra hbacklog
      have := (hinv.writing hstate).mpr hbacklog
      rw [hwriting] at this
      cases this
  · intro hserved
    rcases (Bool.or_eq_true _ _).mp hserved with h | h
    · exact hinv.served_requested h
    · exact h
  · intro _ hstate hempty
    have hwriting : s.channel.isWriting = false := by
      cases hw : s.channel.isWriting with
      | false => rfl
      | true => exact absurd hempty ((hinv.writing (by rw [hstate]; decide)).mp hw)
    refine ⟨⟨s.state, s.outputBuffer.readable, s.accepted⟩, ?_, hstate⟩
    exact List.mem_append_right _ (by simp [halfClose, hwriting])

theorem sendInLoop (hinv : s.OutputInv) {number : Nat} {data : Bytes} {write : WriteResult}
    (hstep : s.sendInLoop number data write = .ok next) : next.OutputInv := by
  by_cases hstate : s.state = .kDisconnected
  · rw [sendInLoop_of_disconnected hstate, Except.ok.injEq] at hstep
    exact hstep ▸ hinv
  obtain ⟨queue, buffer, channel, accepted, faulted, heq, -, hstream, hchannel⟩ :=
    sendInLoop_spec hinv.mirrored hstate number data write
  rw [heq, Except.ok.injEq] at hstep
  subst hstep
  have hwriting := hinv.writing hstate
  refine { hinv with mirrored := ?_, stream := ?_, writing := ?_, served := ?_ }
  · rcases hchannel with ⟨rfl, -⟩ | ⟨rfl, -⟩
    · exact hinv.mirrored
    · exact refreshed_mirrored _ _
  · intro hfaulted
    obtain ⟨hbefore, hnew⟩ := hstream hfaulted
    have hold := hinv.stream hbefore
    simp only [handed] at hold ⊢
    rw [hnew, hold]
    simp
  · intro _
    rcases hchannel with ⟨rfl, hsame | ⟨hyes, hkept⟩⟩ | ⟨rfl, hne⟩
    · simp only [hsame]
      exact hwriting
    · exact ⟨fun _ => hkept (hwriting.mp hyes), fun _ => hyes⟩
    · simp [hne]
  · intro hserved hdisconnecting hempty
    refine hinv.served hserved hdisconnecting ?_
    rcases hchannel with ⟨rfl, hsame | ⟨hyes, hkept⟩⟩ | ⟨rfl, hne⟩
    · rw [← hsame]
      exact hempty
    · exact absurd hempty (hkept (hwriting.mp hyes))
    · exact absurd hempty hne

theorem handleWrite (hinv : s.OutputInv) {write : WriteResult}
    (hstep : s.handleWrite write = .ok next) : next.OutputInv := by
  rcases handleWrite_spec hinv.mirrored write with
    ⟨-, buffer, accepted, heq, hstream, hempty⟩ | ⟨-, queue, buffer, -, hempty, heq⟩
  · rw [heq, Except.ok.injEq] at hstep
    subst hstep
    refine { hinv with stream := ?_, writing := ?_, served := ?_ }
    · intro hfaulted
      rw [hstream]
      exact hinv.stream hfaulted
    · intro hstate
      rw [Ne, hempty]
      exact hinv.writing hstate
    · intro hserved hstate hnone
      exact hinv.served hserved hstate (hempty.mp hnone)
  · rw [heq, Except.ok.injEq] at hstep
    subst hstep
    refine { hinv with
      mirrored := refreshed_mirrored _ _, stream := ?_, writing := ?_, halfCloses := ?_,
      served_requested := ?_, served := ?_ }
    · intro hfaulted
      rw [hempty, List.append_nil]
      exact hinv.stream hfaulted
    · intro _
      simp [hempty]
    · intro h hmem hstate
      rcases List.mem_append.mp hmem with hold | hnew
      · exact hinv.halfCloses h hold hstate
      · split_ifs at hnew
        · rw [List.mem_singleton.mp hnew]
        · simp at hnew
    · intro hserved
      rcases (Bool.or_eq_true _ _).mp hserved with h | h
      · exact hinv.served_requested h
      · exact ((Bool.and_eq_true _ _).mp h).2
    · intro _ hstate _
      rw [if_pos hstate]
      exact ⟨_, List.mem_append_right _ (List.mem_singleton.mpr rfl), hstate⟩

/-- A connection that is down may hold back output and keep a dead write interest. -/
theorem disconnected (hinv : s.OutputInv) {channel : Channel} (hmirror : channel.Mirrored)
    (notices : List Notice) (stack : List Frame) (destroyed : Bool) :
    OutputInv { s with state := .kDisconnected, channel := channel, notices := notices,
                       stack := stack, destroyed := destroyed } :=
  { hinv with
    mirrored := hmirror
    writing := fun h => absurd rfl h
    requested := fun _ => .inr rfl
    served := nofun }

theorem handleClose (hinv : s.OutputInv) (hstep : s.handleClose = .ok next) : next.OutputInv := by
  by_cases hopen : s.IsOpen
  · rw [handleClose_eq hinv.mirrored hopen, Except.ok.injEq] at hstep
    subst hstep
    exact hinv.disconnected (refreshed_mirrored _ _) _ _ _
  · rw [handleClose_of_not_open hopen] at hstep
    cases hstep

theorem forceCloseInLoop (hinv : s.OutputInv) (hstep : s.forceCloseInLoop = .ok next) :
    next.OutputInv := by
  by_cases hopen : s.IsOpen
  · rw [forceCloseInLoop_of_open hopen] at hstep
    exact hinv.handleClose hstep
  · rw [forceCloseInLoop_of_not_open hopen, Except.ok.injEq] at hstep
    exact hstep ▸ hinv

theorem startReadInLoop (hinv : s.OutputInv) (hstep : s.startReadInLoop = .ok next) :
    next.OutputInv := by
  rw [startReadInLoop_eq hinv.mirrored, Except.ok.injEq] at hstep
  subst hstep
  split_ifs
  · exact hinv.readInterest (isWriting_refreshed_enableReading _) _
  · exact hinv

theorem stopReadInLoop (hinv : s.OutputInv) (hstep : s.stopReadInLoop = .ok next) :
    next.OutputInv := by
  rw [stopReadInLoop_eq hinv.mirrored, Except.ok.injEq] at hstep
  subst hstep
  split_ifs
  · exact hinv.readInterest (isWriting_refreshed_disableReading _) _
  · exact hinv

theorem connectEstablished (hinv : s.OutputInv) (hstep : s.connectEstablished = .ok next) :
    next.OutputInv := by
  by_cases hstate : s.state = .kConnecting
  · rw [connectEstablished_eq hinv.mirrored hstate, Except.ok.injEq] at hstep
    subst hstep
    refine { hinv with
      mirrored := refreshed_mirrored _ _, writing := ?_, requested := ?_, served := nofun }
    · intro _
      rw [isWriting_refreshed_enableReading]
      exact hinv.writing (by rw [hstate]; decide)
    · intro hrequested
      rcases hinv.requested hrequested with h | h <;> rw [hstate] at h <;> cases h
  · rw [connectEstablished_of_not_connecting hstate] at hstep
    cases hstep

theorem connectDestroyed (hinv : s.OutputInv) (hstep : s.connectDestroyed = .ok next) :
    next.OutputInv := by
  by_cases hstate : s.state = .kConnected
  · rw [connectDestroyed_of_connected hinv.mirrored hstate, Except.ok.injEq] at hstep
    subst hstep
    exact hinv.disconnected (refreshed_mirrored _ _) _ _ _
  · rw [connectDestroyed_of_not_connected hstate, Except.ok.injEq] at hstep
    subst hstep
    exact { hinv with }

/-- Removing the channel ends its write interest: the channel has none left. -/
theorem removeChannel (hinv : s.OutputInv)
    (hstep : s.withChannel s.channel.remove = .ok next) : next.OutputInv := by
  by_cases hnone : s.channel.events = 0#32
  · by_cases hindex : s.channel.index = .kNew
    · rw [remove_of_kNew hinv.mirrored hindex] at hstep
      cases hstep
    · rw [remove_eq hinv.mirrored hnone hindex] at hstep
      obtain rfl := Except.ok.inj hstep
      refine { hinv with mirrored := mirrored_initial, writing := ?_ }
      intro hstate
      rw [← hinv.writing hstate]
      simp [isWriting, hnone]
  · rw [remove_of_events hnone] at hstep
    cases hstep

theorem runInLoop (hinv : s.OutputInv) {thread : Thread} {f : ConnectionFunctor}
    {body : Session → Except Stop Session}
    (hbody : ∀ {next}, body s = .ok next → next.OutputInv)
    (hstep : s.runInLoop thread f body = .ok next) : next.OutputInv := by
  cases thread with
  | loop => exact hbody hstep
  | other id =>
      obtain rfl := Except.ok.inj hstep
      exact hinv.queueInLoop f

/-- A call that only moves an open connection on to `kDisconnecting`. -/
theorem disconnecting (hinv : s.OutputInv) (hopen : s.IsOpen) :
    OutputInv { s with state := .kDisconnecting } := by
  refine { hinv with writing := ?_, requested := fun _ => .inl rfl, served := ?_ }
  · intro _
    refine hinv.writing ?_
    rcases hopen with h | h <;> rw [h] <;> decide
  · intro hserved _ hempty
    rcases hinv.requested (hinv.served_requested hserved) with hstate | hstate
    · exact hinv.served hserved hstate hempty
    · rcases hopen with h | h <;> rw [h] at hstate <;> cases hstate

theorem send (hinv : s.OutputInv) {thread : Thread} {message : Bytes} {write : WriteResult}
    (hstep : s.send thread message write = .ok next) : next.OutputInv := by
  unfold Session.send at hstep
  split_ifs at hstep with hstate
  · have hnumbered : OutputInv { s with sends := s.sends + 1 } := { hinv with }
    exact hnumbered.runInLoop hnumbered.sendInLoop hstep
  · obtain rfl := Except.ok.inj hstep
    exact hinv

theorem shutdown (hinv : s.OutputInv) {thread : Thread} (hstep : s.shutdown thread = .ok next) :
    next.OutputInv := by
  unfold Session.shutdown at hstep
  split_ifs at hstep with hstate
  · have hrequested : OutputInv { s.setState .kDisconnecting with shutdownRequested := true } := by
      exact { hinv.disconnecting (.inl hstate) with
        requested := fun _ => .inl rfl, served_requested := fun _ => rfl }
    refine hrequested.runInLoop ?_ hstep
    intro next hnext
    obtain rfl := Except.ok.inj hnext
    exact hrequested.shutdownInLoop
  · obtain rfl := Except.ok.inj hstep
    exact hinv

theorem forceClose (hinv : s.OutputInv) : s.forceClose.OutputInv := by
  unfold Session.forceClose
  split_ifs with hopen
  · exact (hinv.disconnecting hopen).queueInLoop _
  · exact hinv

theorem forceCloseWithDelay (hinv : s.OutputInv) : s.forceCloseWithDelay.OutputInv := by
  unfold Session.forceCloseWithDelay
  split_ifs with hopen
  · exact { hinv.disconnecting hopen with }
  · exact hinv

theorem closeCallback (hinv : s.OutputInv) : s.closeCallback.OutputInv := by
  rcases closeCallback_cases s with heq | heq <;> rw [heq]
  · exact { hinv with }
  · exact { hinv with }

theorem call (hinv : s.OutputInv) {thread : Thread} {write : WriteResult} {c : Call}
    (hstep : s.call thread write c = .ok next) : next.OutputInv := by
  cases c with
  | send message => exact hinv.send hstep
  | shutdown => exact hinv.shutdown hstep
  | forceClose => exact Except.ok.inj hstep ▸ hinv.forceClose
  | forceCloseWithDelay => exact Except.ok.inj hstep ▸ hinv.forceCloseWithDelay
  | startRead => exact hinv.runInLoop hinv.startReadInLoop hstep
  | stopRead => exact hinv.runInLoop hinv.stopReadInLoop hstep

theorem runFunctor (hinv : s.OutputInv) {write : WriteResult} {f : ConnectionFunctor}
    (hstep : s.runFunctor write f = .ok next) : next.OutputInv := by
  cases f with
  | connectEstablished => exact hinv.connectEstablished hstep
  | connectDestroyed => exact hinv.connectDestroyed hstep
  | sendInLoop number message => exact hinv.sendInLoop hstep
  | shutdownInLoop => exact Except.ok.inj hstep ▸ hinv.shutdownInLoop
  | forceCloseInLoop => exact hinv.forceCloseInLoop hstep
  | startReadInLoop => exact hinv.startReadInLoop hstep
  | stopReadInLoop => exact hinv.stopReadInLoop hstep
  | writeCompleteCallback | highWaterMarkCallback length => exact Except.ok.inj hstep ▸ hinv

theorem runFrame (hinv : s.OutputInv) {write : WriteResult} {read : ReadResult} {f : Frame}
    (hstep : s.runFrame write read f = .ok next) : next.OutputInv := by
  cases f with
  | event callback =>
      cases callback with
      | closeCallback => exact hinv.handleClose hstep
      | errorCallback => exact Except.ok.inj hstep ▸ hinv
      | writeCallback => exact hinv.handleWrite hstep
      | readCallback =>
          cases read with
          | fails errno => exact Except.ok.inj hstep ▸ hinv
          | received count =>
              simp only [Session.runFrame, handleRead] at hstep
              split_ifs at hstep
              · exact Except.ok.inj hstep ▸ hinv.notify _
              · exact hinv.handleClose hstep
  | closeCallback => exact Except.ok.inj hstep ▸ hinv.closeCallback
  | removeChannel => exact hinv.removeChannel hstep

/-- Every function keeps the output invariant. -/
theorem perform (hinv : s.OutputInv) {op : Op} (hstep : s.perform op = .ok next) :
    next.OutputInv := by
  cases op with
  | call thread c write => exact hinv.call hstep
  | functor f write => exact hinv.runFunctor hstep
  | frame f write read => exact hinv.runFrame hstep

/-- So does every step of the loop, which only takes the function off the queue or the stack. -/
theorem step (hinv : s.OutputInv) {label : Label} (hstep : s.step label = .ok next) :
    next.OutputInv := by
  cases took hstep with
  | call hcall => exact hinv.call hcall
  | handleEvent _ _ _ | doPendingFunctors _ _ | removeConnectionInLoop _ => exact { hinv with }
  | @resume f rest _ _ _ _ hframe =>
      have hpopped : OutputInv { s with stack := rest } := { hinv with }
      exact hpopped.runFrame hframe
  | @functor f queue _ _ _ _ hfunctor =>
      have hpopped : OutputInv { s with queue := queue } := { hinv with }
      exact hpopped.runFunctor hfunctor
  | delayedForceClose _ _ =>
      have hfired : OutputInv { s with delayedCloses := s.delayedCloses - 1 } := { hinv with }
      exact hfired.forceClose

end OutputInv

theorem run_outputInv {setup : Setup} {ops : List Op}
    (hrun : run perform (new setup) ops = .ok s) : s.OutputInv :=
  run_preserves OutputInv (fun _ _ _ hinv hstep => hinv.perform hstep) (outputInv_new setup) hrun

/-- **Write interest and half-close.** After any sequence of invocations: while the connection is up
the channel has write interest exactly when the output buffer has content; no half-close issued
while it was up had output left; and once `shutdownInLoop` has run for a `shutdown()` request, a
connection that is being shut down and has nothing left to write has been half-closed. -/
theorem write_interest_invariant (setup : Setup) (ops : List Op) (s : Session)
    (hrun : run perform (new setup) ops = .ok s) :
    (s.state = .kConnected ∨ s.state = .kDisconnecting →
      (s.channel.isWriting = true ↔ 0 < s.outputBuffer.readableBytes)) ∧
    (∀ h ∈ s.halfCloses, h.state = .kConnected ∨ h.state = .kDisconnecting → h.backlog = []) ∧
    (s.shutdownServed = true → s.state = .kDisconnecting → s.outputBuffer.readableBytes = 0 →
      ∃ h ∈ s.halfCloses, h.state = .kDisconnecting) := by
  have hinv := run_outputInv hrun
  have hup : ∀ {state : StateE}, state = .kConnected ∨ state = .kDisconnecting →
      state ≠ .kDisconnected := by
    rintro state (h | h) <;> rw [h] <;> decide
  refine ⟨?_, ?_, ?_⟩
  · intro hopen
    rw [hinv.writing (hup hopen), Ne, ← Buffer.readableBytes_eq_zero, Nat.pos_iff_ne_zero]
  · exact fun h hmem hopen => hinv.halfCloses h hmem (hup hopen)
  · exact fun hserved hstate hempty =>
      hinv.served hserved hstate ((Buffer.readableBytes_eq_zero _).mp hempty)

/-- A shutdown requested while output is pending, and the drain that completes it. -/
def shutdownWithBacklog : List Op :=
  [.functor .connectEstablished (.accepts 0), .functor (.sendInLoop 0 [1, 2, 3]) (.accepts 1),
    .call .loop .shutdown (.accepts 0), .frame (.event .writeCallback) (.accepts 5) (.received 0)]

theorem write_interest_invariant_shutdownWithBacklog :
    ∃ s, run perform (new {}) shutdownWithBacklog = .ok s ∧ s.state = .kDisconnecting ∧
      (s.channel.isWriting = true ↔ 0 < s.outputBuffer.readableBytes) ∧
      ∃ h ∈ s.halfCloses, h.state = .kDisconnecting := by
  obtain ⟨s, hrun, hcheck⟩ := exists_of_outcome perform (new {}) shutdownWithBacklog
    (fun s => s.shutdownServed && s.state == .kDisconnecting && s.outputBuffer.readableBytes == 0)
    (by decide +kernel)
  simp only [Bool.and_eq_true, beq_iff_eq] at hcheck
  obtain ⟨⟨hserved, hstate⟩, hempty⟩ := hcheck
  obtain ⟨hwriting, -, hissued⟩ := write_interest_invariant {} shutdownWithBacklog s hrun
  exact ⟨s, hrun, hstate, hwriting (.inr hstate), hissued hserved hstate hempty⟩

end Muduo.Session
