import Muduo.TcpConnectionTurns

/-! The end of a connection. `handleClose` and `connectDestroyed` both take the connection down and
give up the events of its channel; the owner then removes the channel from the poller, which asserts
that it has no events left. -/

namespace Muduo.Session

open Channel Execution

variable {s next : Session}

/-! ## The life of a connection in any run of the loop -/

structure LifeInv (s : Session) : Prop where
  mirrored : s.channel.Mirrored
  /-- DOWN has been reported exactly if the connection is down. -/
  downs : s.notices.count (.connection false) = if s.state = .kDisconnected then 1 else 0
  registered : s.channel.index = .kNew → s.state = .kConnecting ∨ s.destroyed = true
  removing : Frame.removeChannel ∈ s.stack → s.destroyed = true
  /-- No write interest outlives the connection. -/
  readOnly : s.state = .kDisconnected → s.channel.events = 0#32 ∨ s.channel.events = kReadEvent

theorem lifeInv_new (setup : Setup) : LifeInv (new setup) where
  mirrored := mirrored_initial
  downs := rfl
  registered _ := .inl rfl
  removing := nofun
  readOnly := nofun

theorem IsOpen.ne_kDisconnected (hopen : s.IsOpen) : s.state ≠ .kDisconnected := by
  rcases hopen with h | h <;> rw [h] <;> decide

/-- On a channel without write interest nothing but the read interest can move. -/
theorem ChannelMove.readOnly {reading : Bool} {c moved : Channel} {toggle : Toggle}
    (hmove : ChannelMove .kDisconnected reading c toggle moved) {armed : Bool}
    (hevents : c.events = if armed then kReadEvent else 0#32) :
    moved.events = if toggle.apply armed then kReadEvent else 0#32 := by
  cases hmove with
  | same hkept =>
      rw [hevents]
      simp only [isReading, hevents] at hkept
      cases toggle <;> cases armed <;> first | rfl | cases hkept
  | enableWriting hstate => exact absurd rfl hstate
  | disableWriting hwriting =>
      rw [isWriting, hevents] at hwriting
      cases armed <;> cases hwriting
  | enableReading | disableReading _ =>
      rw [refreshed_events, hevents]
      cases armed <;> rfl

theorem Quiet.state_of_disconnected {toggle : Toggle} (hquiet : Quiet s toggle next) :
    next.state = .kDisconnected ↔ s.state = .kDisconnected := by
  rcases hquiet.state with h | ⟨hopen, h⟩
  · rw [h]
  · rw [h]
    exact ⟨nofun, fun hdown => absurd hdown hopen.ne_kDisconnected⟩

theorem Quiet.mem_stack {toggle : Toggle} (hquiet : Quiet s toggle next) {f : Frame}
    (hmem : f ∈ next.stack) : f ∈ s.stack := by
  rcases hquiet.stack with h | ⟨callback, h⟩
  · exact h ▸ hmem
  · exact h ▸ List.mem_cons_of_mem _ hmem

namespace LifeInv

theorem quiet (hinv : s.LifeInv) {toggle : Toggle} (hquiet : Quiet s toggle next) :
    next.LifeInv where
  mirrored := hquiet.channel.mirrored hinv.mirrored
  downs := by
    rw [hquiet.notices, hinv.downs]
    simp only [hquiet.state_of_disconnected]
  registered hnew := by
    by_cases hindex : s.channel.index = .kNew
    · rw [hquiet.destroyed]
      rcases hinv.registered hindex with hstate | hdestroyed
      · rcases hquiet.state with h | ⟨hopen, -⟩
        · exact .inl (h.trans hstate)
        · rcases hopen with h | h <;> rw [h] at hstate <;> cases hstate
      · exact .inr hdestroyed
    · exact absurd hnew (hquiet.channel.index_ne_kNew hindex)
  removing hmem := hquiet.destroyed ▸ hinv.removing (hquiet.mem_stack hmem)
  readOnly hdown := by
    have hstate := hquiet.state_of_disconnected.mp hdown
    have hmove := hquiet.channel
    rw [hstate] at hmove
    have hevents : ∃ armed : Bool, s.channel.events = if armed then kReadEvent else 0#32 := by
      rcases hinv.readOnly hstate with h | h
      · exact ⟨false, h⟩
      · exact ⟨true, h⟩
    obtain ⟨armed, harmed⟩ := hevents
    rw [hmove.readOnly harmed]
    split_ifs
    · exact .inr rfl
    · exact .inl rfl

/-- An open connection goes down and reports it. -/
theorem down (hinv : s.LifeInv) (hopen : s.IsOpen) {stack : List Frame}
    (hstack : Frame.removeChannel ∈ stack → s.destroyed = true)
    (queue : FunctorQueue ConnectionFunctor) :
    LifeInv { s with
      state := .kDisconnected
      channel := s.channel.refreshed kNoneEvent
      notices := s.notices ++ [.connection false]
      stack := stack
      queue := queue } where
  mirrored := refreshed_mirrored _ _
  downs := by
    simp [hinv.downs, hopen.ne_kDisconnected]
  registered hnew := absurd hnew (refreshed_index_ne_kNew _ _)
  removing := hstack
  readOnly _ := .inl rfl

theorem connectDestroyed (hinv : s.LifeInv) (hstep : s.connectDestroyed = .ok next) :
    next.LifeInv := by
  by_cases hstate : s.state = .kConnected
  · rw [connectDestroyed_of_connected hinv.mirrored hstate] at hstep
    obtain rfl := Except.ok.inj hstep
    have hdown := hinv.down (.inl hstate) hinv.removing s.queue
    exact { hdown with
      registered := fun h => absurd h (refreshed_index_ne_kNew _ _), removing := fun _ => rfl }
  · rw [connectDestroyed_of_not_connected hstate] at hstep
    obtain rfl := Except.ok.inj hstep
    exact { hinv with registered := fun _ => .inr rfl, removing := fun _ => rfl }

theorem step (hinv : s.LifeInv) {label : Label} (hstep : s.step label = .ok next) :
    next.LifeInv := by
  cases turn hinv.mirrored hstep with
  | quiet hquiet => exact hinv.quiet hquiet
  | handleEvent _ _ => exact { hinv with removing := by simp }
  | message hstack =>
      refine { hinv with downs := ?_, removing := ?_ }
      · simpa using hinv.downs
      · exact fun hmem => hinv.removing (hstack ▸ List.mem_cons_of_mem _ hmem)
  | closeOnEvent hstack _ _ hopen =>
      refine hinv.down hopen ?_ s.queue
      intro hmem
      rw [List.mem_cons] at hmem
      rcases hmem with h | h
      · cases h
      · exact hinv.removing (hstack ▸ List.mem_cons_of_mem _ h)
  | closeOnRequest _ _ _ hopen => exact hinv.down hopen (by simp) _
  | established _ _ hstate =>
      refine { hinv with
        mirrored := refreshed_mirrored _ _, downs := ?_, registered := ?_, readOnly := nofun }
      · have hdowns := hinv.downs
        rw [hstate] at hdowns
        simpa using hdowns
      · exact fun h => absurd h (refreshed_index_ne_kNew _ _)
  | @destroyed queue _ _ _ _ hdestroyed =>
      have hpopped : LifeInv { s with queue := queue } := { hinv with }
      exact hpopped.connectDestroyed hdestroyed
  | @closed rest _ _ hstack =>
      have hdowns : (s.notices ++ [Notice.close]).count (.connection false) =
          if s.state = .kDisconnected then 1 else 0 := by
        simpa using hinv.downs
      have hremoving : Frame.removeChannel ∈ rest → s.destroyed = true :=
        fun hmem => hinv.removing (hstack ▸ List.mem_cons_of_mem _ hmem)
      rcases closeCallback_cases { s with stack := rest } with heq | heq <;> rw [heq]
      · exact { hinv with downs := hdowns, removing := hremoving }
      · exact { hinv with downs := hdowns, removing := hremoving }
  | removed hstack _ _ =>
      have hdestroyed : s.destroyed = true := hinv.removing (hstack ▸ List.mem_cons_self)
      exact { hinv with
        mirrored := mirrored_initial
        registered := fun _ => .inr hdestroyed
        removing := fun _ => hdestroyed
        readOnly := fun _ => .inl rfl }
  | removal _ => exact { hinv with }

end LifeInv

theorem reachable_lifeInv {setup : Setup} (hreach : Reachable step (new setup) s) : s.LifeInv :=
  hreach.preserves LifeInv (fun _ _ _ hinv hstep => hinv.step hstep) (lifeInv_new setup)

/-! ## `connectDestroyed` from beginning to end

Between the report of DOWN and the removal of the channel the user's callback runs. -/

/-- A call of the user with the thread that makes it and what a direct write gets. -/
abbrev UserCall := Thread × Call × WriteResult

def UserCall.label (c : UserCall) : Label := .call c.1 c.2.1 c.2.2

/-- The read interest after a call, on a connection that is down. -/
def rearm (armed : Bool) (c : UserCall) : Bool := (toggleOf c.1 c.2.1).apply armed

/-- The last change of the read interest among the calls, if any, turns it on. -/
def rearms (calls : List UserCall) : Bool := calls.foldl rearm false

theorem call_ok (hmirror : s.channel.Mirrored) (thread : Thread) (write : WriteResult) (c : Call) :
    ∃ next, s.call thread write c = .ok next := by
  cases c with
  | send message =>
      simp only [call, send]
      split_ifs with hstate
      · cases thread with
        | loop =>
            have hopen : ({ s with sends := s.sends + 1 } : Session).state ≠ .kDisconnected := by
              rw [hstate]
              decide
            obtain ⟨queue, buffer, channel, accepted, faulted, heq, -⟩ :=
              sendInLoop_spec (s := { s with sends := s.sends + 1 }) hmirror hopen s.sends message write
            exact ⟨_, heq⟩
        | other id => exact ⟨_, rfl⟩
      · exact ⟨s, rfl⟩
  | shutdown =>
      simp only [call, shutdown]
      split_ifs
      · cases thread with
        | loop => exact ⟨_, rfl⟩
        | other id => exact ⟨_, rfl⟩
      · exact ⟨s, rfl⟩
  | forceClose => exact ⟨_, rfl⟩
  | forceCloseWithDelay => exact ⟨_, rfl⟩
  | startRead =>
      cases thread with
      | loop => exact ⟨_, startReadInLoop_eq hmirror⟩
      | other id => exact ⟨_, rfl⟩
  | stopRead =>
      cases thread with
      | loop => exact ⟨_, stopReadInLoop_eq hmirror⟩
      | other id => exact ⟨_, rfl⟩

/-- What calls leave alone, and what they make of the read interest of a connection that is down. -/
structure AfterCalls (s : Session) (calls : List UserCall) (after : Session) : Prop where
  stack : after.stack = s.stack
  notices : after.notices = s.notices
  mirrored : after.channel.Mirrored
  registered : s.channel.index ≠ .kNew → after.channel.index ≠ .kNew
  disconnecting : s.state = .kDisconnecting → after.state = .kDisconnecting
  disconnected : s.state = .kDisconnected → after.state = .kDisconnected
  events : s.state = .kDisconnected → ∀ armed : Bool,
    s.channel.events = (if armed then kReadEvent else 0#32) →
    after.channel.events = if calls.foldl rearm armed then kReadEvent else 0#32

/-- No call stops the program, whatever the state. -/
theorem run_calls (hmirror : s.channel.Mirrored) (calls : List UserCall) :
    ∃ after, run step s (calls.map UserCall.label) = .ok after ∧ AfterCalls s calls after := by
  induction calls generalizing s with
  | nil =>
      exact ⟨s, rfl, rfl, rfl, hmirror, id, id, id, fun _ _ h => h⟩
  | cons c calls ih =>
      obtain ⟨next, hnext⟩ := call_ok hmirror c.1 c.2.2 c.2.1
      have hmild := call_mild hmirror hnext
      obtain ⟨after, hrun, hafter⟩ := ih (hmild.channel.mirrored hmirror)
      refine ⟨after, run_cons_ok.mpr ⟨next, hnext, hrun⟩, ?_⟩
      have hdown : s.state = .kDisconnected → next.state = .kDisconnected := by
        intro hstate
        rcases hmild.state with h | ⟨hopen, -⟩
        · rw [h, hstate]
        · exact absurd hstate hopen.ne_kDisconnected
      exact {
        stack := hafter.stack.trans hmild.stack
        notices := hafter.notices.trans hmild.notices
        mirrored := hafter.mirrored
        registered := fun hindex => hafter.registered (hmild.channel.index_ne_kNew hindex)
        disconnecting := fun hstate => hafter.disconnecting (by
          rcases hmild.state with h | ⟨-, h⟩
          · rw [h, hstate]
          · exact h)
        disconnected := fun hstate => hafter.disconnected (hdown hstate)
        events := fun hstate armed harmed => by
          have hmove := hmild.channel
          rw [hstate] at hmove
          exact hafter.events (hdown hstate) (rearm armed c) (hmove.readOnly harmed) }

theorem foldl_rearm_of_other {calls : List UserCall} (hother : ∀ c ∈ calls, c.1 ≠ .loop)
    (armed : Bool) : calls.foldl rearm armed = armed := by
  induction calls generalizing armed with
  | nil => rfl
  | cons c calls ih =>
      have hkept : rearm armed c = armed := by
        obtain ⟨thread, call, write⟩ := c
        cases thread with
        | loop => exact absurd rfl (hother _ List.mem_cons_self)
        | other id => cases call <;> rfl
      rw [List.foldl_cons, hkept]
      exact ih (fun c hc => hother c (List.mem_cons_of_mem _ hc)) armed

/-- `connectDestroyed` does what the owner and the destructor rely on: the channel has no events when
it is removed, and in the end the connection is down and has reported so exactly once. The calls are
those of the user's callback, and of other threads meanwhile. -/
def DestroysCleanly (s : Session) (calls : List UserCall) : Prop :=
  ∃ entered asserted final, s.connectDestroyed = .ok entered ∧
    run step entered (calls.map UserCall.label) = .ok asserted ∧
    asserted.channel.isNoneEvent = true ∧
    asserted.step (.resume (.accepts 0) (.received 0)) = .ok final ∧
    final.state = .kDisconnected ∧ final.notices.count (.connection false) = 1

theorem isNoneEvent_iff (c : Channel) : c.isNoneEvent = true ↔ c.events = 0#32 := by
  simp [isNoneEvent, kNoneEvent]

/-- The last line of `connectDestroyed`. -/
theorem step_removeChannel {stack : List Frame} {write : WriteResult} {read : ReadResult}
    (hmirror : s.channel.Mirrored) (hstack : s.stack = .removeChannel :: stack)
    (hnone : s.channel.events = 0#32) (hindex : s.channel.index ≠ .kNew) :
    s.step (.resume write read) = .ok { s with stack := stack, channel := {} } := by
  simp only [step, hstack, perform, runFrame, remove_eq hmirror hnone hindex]
  rfl

/-- A connection that is down is destroyed cleanly exactly if the calls leave its channel without
events. -/
theorem destroysCleanly_of_down {calls : List UserCall} {entered : Session} (armed : Bool)
    (hentered : s.connectDestroyed = .ok entered) (hinv : entered.LifeInv)
    (hdown : entered.state = .kDisconnected) (hindex : entered.channel.index ≠ .kNew)
    (hstack : entered.stack = .removeChannel :: s.stack)
    (hevents : entered.channel.events = if armed then kReadEvent else 0#32) :
    s.DestroysCleanly calls ↔ calls.foldl rearm armed = false := by
  obtain ⟨asserted, hrun, hafter⟩ := run_calls hinv.mirrored calls
  have hmask := hafter.events hdown armed hevents
  constructor
  · rintro ⟨entered', asserted', final, hentered', hrun', hnone, -⟩
    obtain rfl := Except.ok.inj (hentered.symm.trans hentered')
    obtain rfl := Except.ok.inj (hrun.symm.trans hrun')
    rw [isNoneEvent_iff, hmask] at hnone
    cases hlast : calls.foldl rearm armed with
    | false => rfl
    | true =>
        rw [hlast] at hnone
        cases hnone
  · intro hlast
    rw [hlast] at hmask
    refine ⟨entered, asserted, _, hentered, hrun, (isNoneEvent_iff _).mpr hmask,
      step_removeChannel hafter.mirrored (hafter.stack.trans hstack) hmask
        (hafter.registered hindex), hafter.disconnected hdown, ?_⟩
    show asserted.notices.count _ = 1
    rw [hafter.notices, hinv.downs, if_pos hdown]

/-- **When `connectDestroyed` is safe.** The owner destroys an established connection once, in any
state the loop can bring it to; the loop thread makes calls meanwhile only from the callback that
reports DOWN. This goes well exactly for a connection in `kConnected` whose callback does not turn
reading on again, and for one that is down with no events on its channel. In `kDisconnecting` it
never goes well. -/
theorem connectDestroyed_safe_iff (setup : Setup) (s : Session)
    (hreach : Reachable step (new setup) s) (hestablished : s.state ≠ .kConnecting)
    (honce : s.destroyed = false) (calls : List UserCall)
    (hcallback : s.state ≠ .kConnected → ∀ c ∈ calls, c.1 ≠ .loop) :
    s.DestroysCleanly calls ↔
      (s.state = .kConnected ∧ rearms calls = false) ∨
      (s.state = .kDisconnected ∧ s.channel.isNoneEvent = true) := by
  have hinv := reachable_lifeInv hreach
  have hindex : s.channel.index ≠ .kNew := by
    intro hnew
    rcases hinv.registered hnew with h | h
    · exact hestablished h
    · rw [honce] at h
      cases h
  by_cases hconnected : s.state = .kConnected
  · have hentered := connectDestroyed_of_connected hinv.mirrored hconnected
    rw [destroysCleanly_of_down false hentered (hinv.connectDestroyed hentered) rfl
      (refreshed_index_ne_kNew _ _) rfl rfl]
    simp [hconnected, rearms]
  have hentered := connectDestroyed_of_not_connected hconnected
  have hdestroyed := hinv.connectDestroyed hentered
  by_cases hdown : s.state = .kDisconnected
  · have hother := hcallback hconnected
    rcases hinv.readOnly hdown with hnone | hreading
    · rw [destroysCleanly_of_down false hentered hdestroyed hdown hindex rfl hnone,
        foldl_rearm_of_other hother]
      simp [hdown, isNoneEvent_iff, hnone]
    · rw [destroysCleanly_of_down true hentered hdestroyed hdown hindex rfl hreading,
        foldl_rearm_of_other hother]
      simp [hdown, isNoneEvent_iff, hreading, kReadEvent, POLLIN, POLLPRI]
  · -- what is left is `kDisconnecting`, where nothing takes the connection down
    have hstate : s.state = .kDisconnecting := by
      cases hs : s.state with
      | kDisconnected => exact absurd hs hdown
      | kConnecting => exact absurd hs hestablished
      | kConnected => exact absurd hs hconnected
      | kDisconnecting => rfl
    simp only [hconnected, hdown, false_and, or_self, iff_false]
    rintro ⟨entered, asserted, final, hentered', hrun, hnone, hfinal, hfinalState, -⟩
    obtain rfl := Except.ok.inj (hentered.symm.trans hentered')
    obtain ⟨asserted', hrun', hafter⟩ := run_calls hdestroyed.mirrored calls
    obtain rfl := Except.ok.inj (hrun'.symm.trans hrun)
    rw [step_removeChannel hafter.mirrored hafter.stack ((isNoneEvent_iff _).mp hnone)
      (hafter.registered hindex)] at hfinal
    obtain rfl := Except.ok.inj hfinal
    have hkept := hafter.disconnecting hstate
    rw [show asserted'.state = .kDisconnected from hfinalState] at hkept
    cases hkept

/-- The loop establishes the connection. -/
def establishing : List Label := [.doPendingFunctors, .functor (.accepts 0)]

/-- The callback that reports DOWN turns reading on and off again, and another thread turns it on,
which only queues a functor. -/
def callsWhileDestroyed : List UserCall :=
  [(.loop, .startRead, .accepts 0), (.loop, .stopRead, .accepts 0),
    (.other 1, .startRead, .accepts 0)]

theorem connectDestroyed_safe_whileConnected :
    ∃ s, Reachable step (new {}) s ∧ s.state = .kConnected ∧ s.destroyed = false ∧
      s.DestroysCleanly callsWhileDestroyed := by
  obtain ⟨s, hrun, hcheck⟩ := exists_of_outcome step (new {}) establishing
    (fun s => s.state == .kConnected && !s.destroyed) (by decide +kernel)
  simp only [Bool.and_eq_true, Bool.not_eq_true', beq_iff_eq] at hcheck
  obtain ⟨hstate, honce⟩ := hcheck
  have hestablished : s.state ≠ .kConnecting := by rw [hstate]; decide
  have hiff := connectDestroyed_safe_iff {} s ⟨establishing, hrun⟩ hestablished honce
    callsWhileDestroyed (fun h => absurd hstate h)
  exact ⟨s, ⟨establishing, hrun⟩, hstate, honce, hiff.mpr (.inl ⟨hstate, by decide⟩)⟩

/-- A connection the user has shut down, destroyed by its owner before the peer has closed: the
channel still has its read event, DOWN is not reported, and the connection stays in
`kDisconnecting`. -/
theorem connectDestroyed_unsafe_whileDisconnecting :
    ∃ s entered, Reachable step (new {}) s ∧ s.state = .kDisconnecting ∧ s.destroyed = false ∧
      s.connectDestroyed = .ok entered ∧ entered.state = .kDisconnecting ∧
      entered.notices.count (.connection false) = 0 ∧
      entered.step (.resume (.accepts 0) (.received 0)) = .error (.channel .notNoneEvent) := by
  obtain ⟨s, hrun, hcheck⟩ := exists_of_outcome step (new {})
    (establishing ++ [.call .loop .shutdown (.accepts 0)])
    (fun s => s.state == .kDisconnecting && !s.destroyed && s.channel.events != 0#32 &&
      s.notices.count (.connection false) == 0) (by decide +kernel)
  simp only [Bool.and_eq_true, Bool.not_eq_true', beq_iff_eq, bne_iff_ne] at hcheck
  obtain ⟨⟨⟨hstate, honce⟩, hevents⟩, hdowns⟩ := hcheck
  have hconnected : s.state ≠ .kConnected := by rw [hstate]; decide
  refine ⟨s, _, ⟨_, hrun⟩, hstate, honce, connectDestroyed_of_not_connected hconnected, hstate,
    hdowns, ?_⟩
  simp only [step, perform, runFrame, remove_of_events hevents]
  rfl

/-! ## After `handleClose` -/

/-- The kernel reports a hang-up without readable input with no other kind of input either. -/
def KernelMask : Label → Prop
  | .handleEvent revents =>
      revents &&& POLLHUP ≠ 0#32 → revents &&& POLLIN = 0#32 →
        revents &&& (POLLPRI ||| POLLRDHUP) = 0#32
  | _ => True

instance : DecidablePred KernelMask
  | .handleEvent _ => inferInstanceAs (Decidable (_ → _ → _))
  | .call .. | .resume .. | .doPendingFunctors | .functor _ | .delayedForceClose
  | .removeConnectionInLoop => inferInstanceAs (Decidable True)

/-- Then `handleEvent` has one callback at most that looks at the input. -/
theorem handleEvent_inputs {revents : EventMask} (hmask : KernelMask (.handleEvent revents)) :
    ((handleEventWithGuard revents).map Frame.event).countP isInput ≤ 1 := by
  by_cases hhup : revents &&& POLLHUP ≠ 0#32 ∧ revents &&& POLLIN = 0#32
  · have hread : revents &&& (POLLIN ||| POLLPRI ||| POLLRDHUP) = 0#32 := by
      rw [BitVec.or_assoc, BitVec.and_or_distrib_left, hhup.2, hmask hhup.1 hhup.2, BitVec.or_zero]
    simp only [handleEventWithGuard, if_pos hhup, if_neg (not_not_intro hread)]
    split_ifs <;> decide
  · simp only [handleEventWithGuard, if_neg hhup]
    split_ifs <;> decide

/-- What a step must not do for the end of a connection to stay orderly: reading is not turned on
after the close, nor turned off if it had not been before; and the channel has events when the
connection is closed. -/
structure Orderly (s : Session) (label : Label) : Prop where
  kernel : KernelMask label
  watched : s.closes label = true → s.channel.isNoneEvent = false
  start : s.state = .kDisconnected → s.stepToggle label ≠ .start
  stop : s.state = .kDisconnected → s.stepToggle label = .stop → s.reading = false

instance (s : Session) (label : Label) : Decidable (Orderly s label) :=
  decidable_of_iff
    (KernelMask label ∧ (s.closes label = true → s.channel.isNoneEvent = false) ∧
      (s.state = .kDisconnected → s.stepToggle label ≠ .start) ∧
      (s.state = .kDisconnected → s.stepToggle label = .stop → s.reading = false))
    ⟨fun ⟨h₁, h₂, h₃, h₄⟩ => ⟨h₁, h₂, h₃, h₄⟩, fun ⟨h₁, h₂, h₃, h₄⟩ => ⟨h₁, h₂, h₃, h₄⟩⟩

structure ClosedInv (s : Session) : Prop where
  mirrored : s.channel.Mirrored
  inputs : s.stack.countP isInput ≤ 1
  /-- Once closed, the channel has no events, the poller does not watch it, and no callback is left
  that would look at the input. -/
  closed : s.state = .kDisconnected →
    s.channel.events = 0#32 ∧ s.channel.interest = none ∧ s.stack.countP isInput = 0
  scheduled : (Frame.closeCallback ∈ s.stack ∨ 0 < s.removals ∨
    ConnectionFunctor.connectDestroyed ∈ s.queue.queued) → s.state = .kDisconnected

theorem closedInv_new (setup : Setup) : ClosedInv (new setup) where
  mirrored := mirrored_initial
  inputs := Nat.zero_le _
  closed := nofun
  scheduled := by simp [new, FunctorQueue.queued]

namespace ClosedInv

/-- Nothing but a change of the read interest touches the channel of a closed connection. -/
theorem channel_kept (hinv : s.ClosedInv) {toggle : Toggle} (hquiet : Quiet s toggle next)
    (hdown : s.state = .kDisconnected) (hstart : toggle ≠ .start)
    (hstop : toggle = .stop → s.reading = false) : next.channel = s.channel := by
  obtain ⟨hevents, -, -⟩ := hinv.closed hdown
  have hmove := hquiet.channel
  generalize next.channel = moved at hmove
  cases hmove with
  | same _ => rfl
  | enableWriting hopen => exact absurd hdown hopen
  | disableWriting hwriting => simp [isWriting, hevents] at hwriting
  | enableReading => exact absurd rfl hstart
  | disableReading hreading =>
      rw [hstop rfl] at hreading
      simp [isReading, hevents] at hreading

theorem quiet (hinv : s.ClosedInv) {toggle : Toggle} (hquiet : Quiet s toggle next)
    (hstart : s.state = .kDisconnected → toggle ≠ .start)
    (hstop : s.state = .kDisconnected → toggle = .stop → s.reading = false) :
    next.ClosedInv := by
  have hcount : next.stack.countP isInput ≤ s.stack.countP isInput := by
    rcases hquiet.stack with h | ⟨callback, h⟩
    · exact Nat.le_of_eq (by rw [h])
    · rw [h]
      exact (List.sublist_cons_self _ _).countP_le
  refine ⟨hquiet.channel.mirrored hinv.mirrored, Nat.le_trans hcount hinv.inputs, ?_, ?_⟩
  · intro hdown
    have hstate := hquiet.state_of_disconnected.mp hdown
    obtain ⟨hevents, hinterest, hinputs⟩ := hinv.closed hstate
    have hkept := hinv.channel_kept hquiet hstate (hstart hstate) (hstop hstate)
    rw [hkept]
    exact ⟨hevents, hinterest, Nat.le_zero.mp (hinputs ▸ hcount)⟩
  · intro hpending
    refine hquiet.state_of_disconnected.mpr (hinv.scheduled ?_)
    rcases hpending with h | h | h
    · exact .inl (hquiet.mem_stack h)
    · exact .inr (.inl (hquiet.removals ▸ h))
    · rw [← List.count_pos_iff, hquiet.count rfl, List.count_pos_iff] at h
      exact .inr (.inr h)

/-- The close gives up the events, and as the channel had some, the poller drops it. -/
theorem down (hinv : s.ClosedInv) (hwatched : s.channel.isNoneEvent = false)
    {stack : List Frame} (hinputs : stack.countP isInput = 0)
    (queue : FunctorQueue ConnectionFunctor) (notices : List Notice) :
    ClosedInv { s with
      state := .kDisconnected
      channel := s.channel.refreshed kNoneEvent
      notices := notices
      stack := stack
      queue := queue } where
  mirrored := refreshed_mirrored _ _
  inputs := by
    rw [hinputs]
    decide
  closed _ := by
    have hindex : s.channel.index = .kAdded := by
      by_contra hindex
      rw [(isNoneEvent_iff _).mpr (hinv.mirrored.idle hindex)] at hwatched
      cases hwatched
    exact ⟨rfl, (refreshed_kNoneEvent_of_kAdded hindex).2, hinputs⟩
  scheduled _ := rfl

/-- A step that leaves the state and the channel alone. -/
theorem step_down (hinv : s.ClosedInv) (hdown : s.state = .kDisconnected) {stack : List Frame}
    (hinputs : stack.countP isInput ≤ s.stack.countP isInput) :
    s.channel.events = 0#32 ∧ s.channel.interest = none ∧ stack.countP isInput = 0 := by
  obtain ⟨hevents, hinterest, hnone⟩ := hinv.closed hdown
  exact ⟨hevents, hinterest, Nat.le_zero.mp (hnone ▸ hinputs)⟩

theorem step (hinv : s.ClosedInv) {label : Label} (horderly : Orderly s label)
    (hstep : s.step label = .ok next) : next.ClosedInv := by
  have hpop : ∀ {f : Frame} {rest : List Frame}, s.stack = f :: rest →
      rest.countP isInput ≤ s.stack.countP isInput :=
    fun h => h ▸ (List.sublist_cons_self _ _).countP_le
  cases turn hinv.mirrored hstep with
  | quiet hquiet => exact hinv.quiet hquiet horderly.start horderly.stop
  | handleEvent hidle hwatched =>
      refine ⟨hinv.mirrored, handleEvent_inputs horderly.kernel, ?_, ?_⟩
      · intro hdown
        rw [(hinv.closed hdown).2.1] at hwatched
        cases hwatched
      · intro hpending
        refine hinv.scheduled ?_
        rcases hpending with h | h
        · simp at h
        · exact .inr h
  | message hstack =>
      refine ⟨hinv.mirrored, Nat.le_trans (hpop hstack) hinv.inputs,
        fun hdown => hinv.step_down hdown (hpop hstack), fun hpending => hinv.scheduled ?_⟩
      exact hpending.imp_left fun h => hstack ▸ List.mem_cons_of_mem _ h
  | @closeOnEvent f rest _ _ hstack hinput hcloses hopen =>
      have hinputs : rest.countP isInput = 0 := by
        have hle := hinv.inputs
        rw [hstack, List.countP_cons_of_pos hinput] at hle
        omega
      exact hinv.down (horderly.watched hcloses) (by simpa [isInput] using hinputs) s.queue _
  | closeOnRequest hidle _ hcloses hopen =>
      exact hinv.down (horderly.watched hcloses) rfl _ _
  | @established queue _ hidle hnext hstate =>
      refine ⟨refreshed_mirrored _ _, hinv.inputs, nofun, fun hpending => ?_⟩
      have hdown := hinv.scheduled (hpending.imp_right fun h => h.imp_right fun h => by
        rw [FunctorQueue.queued_next hnext]
        exact List.mem_cons_of_mem _ h)
      rw [hstate] at hdown
      cases hdown
  | @destroyed queue _ _ hidle hnext hdestroyed =>
      have hdown : s.state = .kDisconnected :=
        hinv.scheduled (.inr (.inr (FunctorQueue.queued_next hnext ▸ List.mem_cons_self)))
      have hconnected : s.state ≠ .kConnected := by rw [hdown]; decide
      rw [connectDestroyed_of_not_connected (s := { s with queue := queue }) hconnected] at hdestroyed
      obtain rfl := Except.ok.inj hdestroyed
      refine ⟨hinv.mirrored, ?_, fun _ => hinv.step_down hdown ?_, fun _ => hdown⟩
      · simpa [isInput] using hinv.inputs
      · simp [isInput]
  | @closed rest _ _ hstack =>
      have hdown : s.state = .kDisconnected := hinv.scheduled (.inl (hstack ▸ List.mem_cons_self))
      have hkept := hinv.step_down hdown (hpop hstack)
      have hinputs := Nat.le_trans (hpop hstack) hinv.inputs
      rcases closeCallback_cases { s with stack := rest } with heq | heq <;> rw [heq]
      · exact ⟨hinv.mirrored, hinputs, fun _ => hkept, fun _ => hdown⟩
      · exact ⟨hinv.mirrored, hinputs, fun _ => hkept, fun _ => hdown⟩
  | removed hstack _ _ =>
      refine ⟨mirrored_initial, Nat.le_trans (hpop hstack) hinv.inputs, fun hdown => ?_,
        fun hpending => hinv.scheduled ?_⟩
      · exact ⟨rfl, rfl, (hinv.step_down hdown (hpop hstack)).2.2⟩
      · exact hpending.imp_left fun h => hstack ▸ List.mem_cons_of_mem _ h
  | removal hpending =>
      have hdown := hinv.scheduled (.inr (.inl hpending))
      exact { hinv with scheduled := fun _ => hdown }

end ClosedInv

/-- **No registration after the close.** In every run of orderly steps a connection that is down has
no events on its channel and the poller does not watch it, so that the assertion of `Channel::remove`
holds; no callback that looks at the input is left to be invoked, and the loop has no event to
dispatch. -/
theorem no_registration_after_close (setup : Setup) (labels : List Label) (s : Session)
    (horderly : Meets step Orderly (new setup) labels)
    (hrun : run step (new setup) labels = .ok s) (hdown : s.state = .kDisconnected) :
    s.channel.isNoneEvent = true ∧ s.channel.interest = none ∧
      s.channel.remove ≠ .error .notNoneEvent ∧
      (∀ callback, Frame.event callback ∈ s.stack →
        callback = .errorCallback ∨ callback = .writeCallback) ∧
      ∀ revents, s.step (.handleEvent revents) = .error .disabled := by
  have hinv : s.ClosedInv := run_preserves_of_meets ClosedInv
    (fun _ _ _ hinv hcondition hstep => hinv.step hcondition hstep) (closedInv_new setup)
    horderly hrun
  obtain ⟨hevents, hinterest, hinputs⟩ := hinv.closed hdown
  refine ⟨(isNoneEvent_iff _).mpr hevents, hinterest, ?_, ?_, ?_⟩
  · by_cases hindex : s.channel.index = .kNew
    · rw [remove_of_kNew hinv.mirrored hindex]
      nofun
    · rw [remove_eq hinv.mirrored hevents hindex]
      nofun
  · intro callback hmem
    have hnot := List.countP_eq_zero.mp hinputs _ hmem
    cases callback with
    | closeCallback | readCallback => exact absurd rfl hnot
    | errorCallback => exact .inl rfl
    | writeCallback => exact .inr rfl
  · intro revents
    simp [step, hinterest]

/-- The peer closes; the owner is told and destroys the connection. -/
def peerClosing : List Label :=
  establishing ++ [.handleEvent POLLIN, .resume (.accepts 0) (.received 0),
    .resume (.accepts 0) (.received 0)]

theorem no_registration_after_peerClosing :
    ∃ s, run step (new {}) peerClosing = .ok s ∧ s.state = .kDisconnected ∧
      s.channel.isNoneEvent = true ∧ s.channel.interest = none := by
  obtain ⟨s, hrun, hcheck⟩ := exists_of_outcome step (new {}) peerClosing
    (fun s => s.state == .kDisconnected) (by decide +kernel)
  have hdown : s.state = .kDisconnected := by simpa using hcheck
  have horderly : Meets step Orderly (new {}) peerClosing := by decide +kernel
  obtain ⟨hnone, hinterest, -⟩ := no_registration_after_close {} peerClosing s horderly hrun hdown
  exact ⟨s, hrun, hdown, hnone, hinterest⟩

/-- Another thread calls `startRead` while the loop handles the close by the peer. The functor runs
before `connectDestroyed` and registers the channel again, so that its removal fails the assertion. -/
def startReadBehindClose : List Label :=
  establishing ++ [.handleEvent POLLIN, .call (.other 1) .startRead (.accepts 0),
    .resume (.accepts 0) (.received 0), .resume (.accepts 0) (.received 0),
    .doPendingFunctors, .functor (.accepts 0), .functor (.accepts 0)]

theorem registration_after_close :
    ∃ s, run step (new {}) startReadBehindClose = .ok s ∧ s.state = .kDisconnected ∧
      Notice.close ∈ s.notices ∧ s.channel.interest = some kReadEvent ∧
      s.step (.resume (.accepts 0) (.received 0)) = .error (.channel .notNoneEvent) := by
  obtain ⟨s, hrun, hcheck⟩ := exists_of_outcome step (new {}) startReadBehindClose
    (fun s => s.state == .kDisconnected && s.notices.contains .close &&
      s.channel.interest == some kReadEvent && s.channel.events != 0#32 &&
      s.stack == [.removeChannel]) (by decide +kernel)
  simp only [Bool.and_eq_true, beq_iff_eq, bne_iff_ne, List.contains_iff_mem] at hcheck
  obtain ⟨⟨⟨⟨hdown, hclose⟩, hinterest⟩, hevents⟩, hstack⟩ := hcheck
  refine ⟨s, hrun, hdown, hclose, hinterest, ?_⟩
  simp only [step, hstack, perform, runFrame, remove_of_events hevents]
  rfl

end Muduo.Session
