import Muduo.TcpConnectionEffects

/-! The life of a connection: what one step of the loop does to the state, the channel, the callbacks
made and the functors that establish and destroy the connection. Most steps do nothing to it; the
others establish, close, or destroy the connection, or report a message. -/

namespace Muduo

namespace ConnectionFunctor

/-- A functor that establishes or destroys the connection. -/
def isLifecycle : ConnectionFunctor → Bool
  | .connectEstablished => true
  | .connectDestroyed => true
  | _ => false

/-- A functor that changes the read interest. -/
def isToggle : ConnectionFunctor → Bool
  | .startReadInLoop => true
  | .stopReadInLoop => true
  | _ => false

end ConnectionFunctor

theorem QueuesNotices.tame {before after : FunctorQueue ConnectionFunctor}
    (hqueue : QueuesNotices before after) :
    ∃ extra, after.queued = before.queued ++ extra ∧
      ∀ f ∈ extra, f.isLifecycle = false ∧ f.isToggle = false := by
  obtain ⟨extra, hextra, hnotice⟩ := hqueue
  refine ⟨extra, hextra, fun f hf => ?_⟩
  have hkind := hnotice f hf
  cases f <;> first | exact ⟨rfl, rfl⟩ | cases hkind

namespace Session

open Channel

variable {s : Session}

/-- The read interest a function is out to change. -/
inductive Toggle where
  | none
  | start
  | stop
  /-- It queues the change. -/
  | deferred
  deriving DecidableEq

/-- The read interest after the change. -/
def Toggle.apply : Toggle → Bool → Bool
  | .start, _ => true
  | .stop, _ => false
  | _, reading => reading

/-- The change is already made. -/
def Toggle.AgreesWith : Toggle → Bool → Prop
  | .start, reading => reading = true
  | .stop, reading => reading = false
  | _, _ => True

/-- What a function may do to the channel. -/
inductive ChannelMove (state : StateE) (reading : Bool) (c : Channel) : Toggle → Channel → Prop where
  | same {toggle : Toggle} (hkept : toggle.AgreesWith c.isReading) :
      ChannelMove state reading c toggle c
  | enableWriting (hstate : state ≠ .kDisconnected) :
      ChannelMove state reading c .none (c.refreshed (c.events ||| kWriteEvent))
  | disableWriting (hwriting : c.isWriting = true) :
      ChannelMove state reading c .none (c.refreshed (c.events &&& ~~~kWriteEvent))
  | enableReading : ChannelMove state reading c .start (c.refreshed (c.events ||| kReadEvent))
  | disableReading (hreading : reading = true ∨ c.isReading = true) :
      ChannelMove state reading c .stop (c.refreshed (c.events &&& ~~~kReadEvent))

namespace ChannelMove

variable {state : StateE} {reading : Bool} {c moved : Channel} {toggle : Toggle}

theorem mirrored (hmove : ChannelMove state reading c toggle moved) (hmirror : c.Mirrored) :
    moved.Mirrored := by
  cases hmove with
  | same _ => exact hmirror
  | enableWriting _ | disableWriting _ | enableReading | disableReading _ =>
      exact refreshed_mirrored _ _

theorem index_ne_kNew (hmove : ChannelMove state reading c toggle moved) (hindex : c.index ≠ .kNew) :
    moved.index ≠ .kNew := by
  cases hmove with
  | same _ => exact hindex
  | enableWriting _ | disableWriting _ | enableReading | disableReading _ =>
      exact refreshed_index_ne_kNew _ _

end ChannelMove

/-- A function that runs no callback, adds nothing to the stack, and neither asks for the connection
to be destroyed nor destroys it. It moves the state at most from open to `kDisconnecting`. -/
structure Mild (s : Session) (toggle : Toggle) (next : Session) : Prop where
  stack : next.stack = s.stack
  notices : next.notices = s.notices
  destroyed : next.destroyed = s.destroyed
  removals : next.removals = s.removals
  state : next.state = s.state ∨ s.IsOpen ∧ next.state = .kDisconnecting
  queue : ∃ extra, next.queue.queued = s.queue.queued ++ extra ∧
    ∀ f ∈ extra, f.isLifecycle = false ∧ (f.isToggle = true → toggle = .deferred)
  channel : ChannelMove s.state s.reading s.channel toggle next.channel

namespace Mild

theorem stay (s : Session) (toggle : Toggle) (hkept : toggle.AgreesWith s.channel.isReading) :
    Mild s toggle s where
  stack := rfl
  notices := rfl
  destroyed := rfl
  removals := rfl
  state := .inl rfl
  queue := ⟨[], by simp, by simp⟩
  channel := .same hkept

theorem refl (s : Session) : Mild s .none s := stay s .none trivial

theorem push (s : Session) {f : ConnectionFunctor} (hlife : f.isLifecycle = false)
    (htoggle : f.isToggle = false) : Mild s .none (s.queueInLoop f) :=
  { refl s with queue := ⟨[f], by simp [queueInLoop], by simp [hlife, htoggle]⟩ }

theorem defer (s : Session) {f : ConnectionFunctor} (hlife : f.isLifecycle = false) :
    Mild s .deferred (s.queueInLoop f) :=
  { stay s .deferred trivial with queue := ⟨[f], by simp [queueInLoop], by simp [hlife]⟩ }

theorem notices_tame {queue : FunctorQueue ConnectionFunctor} (hqueue : QueuesNotices s.queue queue)
    (toggle : Toggle) : ∃ extra, queue.queued = s.queue.queued ++ extra ∧
      ∀ f ∈ extra, f.isLifecycle = false ∧ (f.isToggle = true → toggle = .deferred) := by
  obtain ⟨extra, hextra, hkind⟩ := hqueue.tame
  exact ⟨extra, hextra, fun f hf => ⟨(hkind f hf).1, fun h => by
    rw [(hkind f hf).2] at h
    cases h⟩⟩

theorem sendInLoop {next : Session} (hmirror : s.channel.Mirrored) {number : Nat} {data : Bytes}
    {write : WriteResult} (hstep : s.sendInLoop number data write = .ok next) :
    Mild s .none next := by
  by_cases hstate : s.state = .kDisconnected
  · rw [sendInLoop_of_disconnected hstate, Except.ok.injEq] at hstep
    exact hstep ▸ refl s
  obtain ⟨queue, buffer, channel, accepted, faulted, heq, hqueue, -, hchannel⟩ :=
    sendInLoop_spec hmirror hstate number data write
  obtain rfl := Except.ok.inj (heq.symm.trans hstep)
  refine { refl s with queue := notices_tame hqueue _, channel := ?_ }
  rcases hchannel with ⟨rfl, -⟩ | ⟨rfl, -⟩
  · exact .same trivial
  · exact .enableWriting hstate

theorem shutdownInLoop (s : Session) : Mild s .none s.shutdownInLoop := by
  rw [shutdownInLoop_eq]
  exact { refl s with }

theorem handleWrite {next : Session} (hmirror : s.channel.Mirrored) {write : WriteResult}
    (hstep : s.handleWrite write = .ok next) : Mild s .none next := by
  rcases handleWrite_spec hmirror write with
    ⟨-, buffer, accepted, heq, -⟩ | ⟨hdrains, queue, buffer, hqueue, -, heq⟩
  · obtain rfl := Except.ok.inj (heq.symm.trans hstep)
    exact { refl s with }
  · obtain rfl := Except.ok.inj (heq.symm.trans hstep)
    exact { refl s with
      queue := notices_tame hqueue _, channel := .disableWriting hdrains.isWriting }

theorem startReadInLoop {next : Session} (hmirror : s.channel.Mirrored)
    (hstep : s.startReadInLoop = .ok next) : Mild s .start next := by
  obtain rfl := Except.ok.inj ((startReadInLoop_eq hmirror).symm.trans hstep)
  split_ifs with hreading
  · exact { refl s with queue := ⟨[], by simp, by simp⟩, channel := .enableReading }
  · refine stay s _ ?_
    simp only [Bool.or_eq_true, Bool.not_eq_true', not_or, Bool.not_eq_false] at hreading
    exact hreading.2

theorem stopReadInLoop {next : Session} (hmirror : s.channel.Mirrored)
    (hstep : s.stopReadInLoop = .ok next) : Mild s .stop next := by
  obtain rfl := Except.ok.inj ((stopReadInLoop_eq hmirror).symm.trans hstep)
  split_ifs with hreading
  · exact { refl s with
      queue := ⟨[], by simp, by simp⟩
      channel := .disableReading ((Bool.or_eq_true _ _).mp hreading) }
  · refine stay s _ ?_
    simp only [Bool.or_eq_true, not_or, Bool.not_eq_true] at hreading
    exact hreading.2

/-- A call that moves an open connection on to `kDisconnecting`. -/
theorem disconnecting {next : Session} (hopen : s.IsOpen)
    (hmild : Mild { s with state := .kDisconnecting } .none next)
    (hchannel : next.channel = s.channel) : Mild s .none next := by
  refine { hmild with state := .inr ⟨hopen, ?_⟩, channel := hchannel ▸ .same trivial }
  rcases hmild.state with h | h
  · exact h
  · exact h.2

theorem send {next : Session} (hmirror : s.channel.Mirrored) {thread : Thread} {message : Bytes}
    {write : WriteResult} (hstep : s.send thread message write = .ok next) : Mild s .none next := by
  unfold Session.send at hstep
  split_ifs at hstep
  · have hnumbered : Mild { s with sends := s.sends + 1 } .none next := by
      cases thread with
      | loop => exact sendInLoop hmirror hstep
      | other id =>
          obtain rfl := Except.ok.inj hstep
          exact push _ rfl rfl
    exact { hnumbered with }
  · exact Except.ok.inj hstep ▸ refl s

theorem shutdown {next : Session} {thread : Thread} (hstep : s.shutdown thread = .ok next) :
    Mild s .none next := by
  unfold Session.shutdown at hstep
  split_ifs at hstep with hstate
  · cases thread with
    | loop =>
        obtain rfl := Except.ok.inj hstep
        rw [shutdownInLoop_eq]
        exact disconnecting (.inl hstate) { refl { s with state := .kDisconnecting } with } rfl
    | other id =>
        obtain rfl := Except.ok.inj hstep
        exact disconnecting (.inl hstate)
          { push { s with state := .kDisconnecting } (f := .shutdownInLoop) rfl rfl with } rfl
  · exact Except.ok.inj hstep ▸ refl s

theorem forceClose (s : Session) : Mild s .none s.forceClose := by
  unfold Session.forceClose
  split_ifs with hopen
  · exact disconnecting hopen (push _ rfl rfl) rfl
  · exact refl s

theorem forceCloseWithDelay (s : Session) : Mild s .none s.forceCloseWithDelay := by
  unfold Session.forceCloseWithDelay
  split_ifs with hopen
  · exact disconnecting hopen { refl { s with state := .kDisconnecting } with } rfl
  · exact refl s

end Mild

/-- The change of the read interest a call makes. -/
def toggleOf (thread : Thread) (c : Call) : Toggle :=
  match c, thread with
  | .startRead, .loop => .start
  | .stopRead, .loop => .stop
  | .startRead, .other _ => .deferred
  | .stopRead, .other _ => .deferred
  | _, _ => .none

/-- Every call of the user is mild. -/
theorem call_mild {next : Session} (hmirror : s.channel.Mirrored) {thread : Thread}
    {write : WriteResult} {c : Call} (hstep : s.call thread write c = .ok next) :
    Mild s (toggleOf thread c) next := by
  cases c with
  | send message => exact Mild.send hmirror hstep
  | shutdown => exact Mild.shutdown hstep
  | forceClose => exact Except.ok.inj hstep ▸ Mild.forceClose s
  | forceCloseWithDelay => exact Except.ok.inj hstep ▸ Mild.forceCloseWithDelay s
  | startRead =>
      cases thread with
      | loop => exact Mild.startReadInLoop hmirror hstep
      | other id => exact Except.ok.inj hstep ▸ Mild.defer s rfl
  | stopRead =>
      cases thread with
      | loop => exact Mild.stopReadInLoop hmirror hstep
      | other id => exact Except.ok.inj hstep ▸ Mild.defer s rfl

/-! ## The turns of a connection -/

/-- The change of the read interest a step makes. -/
def stepToggle (s : Session) : Label → Toggle
  | .call thread c _ => toggleOf thread c
  | .functor _ =>
      match s.queue.next with
      | some (.startReadInLoop, _) => .start
      | some (.stopReadInLoop, _) => .stop
      | _ => .none
  | _ => .none

/-- A step that runs no callback and takes at most an event off the stack and at most one functor
off the queue. -/
structure Quiet (s : Session) (toggle : Toggle) (next : Session) : Prop where
  stack : next.stack = s.stack ∨ ∃ callback, s.stack = .event callback :: next.stack
  notices : next.notices = s.notices
  destroyed : next.destroyed = s.destroyed
  removals : next.removals = s.removals
  state : next.state = s.state ∨ s.IsOpen ∧ next.state = .kDisconnecting
  queue : ∃ kept extra, next.queue.queued = kept ++ extra ∧
    (s.queue.queued = kept ∨ ∃ f, f.isLifecycle = false ∧ s.queue.queued = f :: kept) ∧
    ∀ f ∈ extra, f.isLifecycle = false ∧ (f.isToggle = true → toggle = .deferred)
  channel : ChannelMove s.state s.reading s.channel toggle next.channel

/-- What a callback of `handleEvent` may report to the user: input, or the end of it. -/
def isInput : Frame → Bool
  | .event .readCallback => true
  | .event .closeCallback => true
  | _ => false

/-- The step calls `handleClose`. -/
def closes (s : Session) : Label → Bool
  | .resume _ read =>
      match s.stack with
      | .event .closeCallback :: _ => true
      | .event .readCallback :: _ => read == .received 0
      | _ => false
  | .functor _ =>
      match s.queue.next with
      | some (.forceCloseInLoop, _) => s.IsOpen
      | _ => false
  | _ => false

/-- Everything a step can do to the life of a connection. -/
inductive Turn (s : Session) : Label → Session → Prop where
  | quiet {label next} (hquiet : Quiet s (s.stepToggle label) next) : Turn s label next
  | handleEvent {revents} (hidle : s.stack = []) (hwatched : s.channel.interest.isSome = true) :
      Turn s (.handleEvent revents) { s with stack := (handleEventWithGuard revents).map .event }
  | message {rest write read} (hstack : s.stack = .event .readCallback :: rest) :
      Turn s (.resume write read)
        { s with stack := rest, notices := s.notices ++ [.message] }
  | closeOnEvent {f rest write read} (hstack : s.stack = f :: rest) (hinput : isInput f = true)
      (hcloses : s.closes (.resume write read) = true) (hopen : s.IsOpen) :
      Turn s (.resume write read) { s with
        state := .kDisconnected
        channel := s.channel.refreshed kNoneEvent
        notices := s.notices ++ [.connection false]
        stack := .closeCallback :: rest }
  | closeOnRequest {queue write} (hidle : s.stack = [])
      (hnext : s.queue.next = some (.forceCloseInLoop, queue))
      (hcloses : s.closes (.functor write) = true) (hopen : s.IsOpen) :
      Turn s (.functor write) { s with
        state := .kDisconnected
        channel := s.channel.refreshed kNoneEvent
        notices := s.notices ++ [.connection false]
        stack := [.closeCallback]
        queue := queue }
  | established {queue write} (hidle : s.stack = [])
      (hnext : s.queue.next = some (.connectEstablished, queue)) (hstate : s.state = .kConnecting) :
      Turn s (.functor write) { s with
        state := .kConnected
        channel := s.channel.refreshed (s.channel.events ||| kReadEvent)
        notices := s.notices ++ [.connection true]
        queue := queue }
  | destroyed {queue write next} (hidle : s.stack = [])
      (hnext : s.queue.next = some (.connectDestroyed, queue))
      (hdestroyed : { s with queue := queue }.connectDestroyed = .ok next) :
      Turn s (.functor write) next
  | closed {rest write read} (hstack : s.stack = .closeCallback :: rest) :
      Turn s (.resume write read) { s with stack := rest }.closeCallback
  | removed {rest write read} (hstack : s.stack = .removeChannel :: rest)
      (hnone : s.channel.events = 0#32) (hindex : s.channel.index ≠ .kNew) :
      Turn s (.resume write read) { s with stack := rest, channel := {} }
  | removal (hpending : 0 < s.removals) :
      Turn s .removeConnectionInLoop
        ({ s with removals := s.removals - 1 }.queueInLoop .connectDestroyed)

namespace Quiet

variable {next : Session} {toggle : Toggle}

theorem of_mild (hmild : Mild s toggle next) : Quiet s toggle next := by
  obtain ⟨extra, hqueue, hextra⟩ := hmild.queue
  exact { hmild with
    stack := .inl hmild.stack, queue := ⟨_, extra, hqueue, .inl rfl, hextra⟩ }

theorem of_frame {callback : Callback} {rest : List Frame}
    (hstack : s.stack = .event callback :: rest) (hmild : Mild { s with stack := rest } toggle next) :
    Quiet s toggle next := by
  have hquiet : Quiet { s with stack := rest } toggle next := of_mild hmild
  exact { hquiet with stack := .inr ⟨callback, by rw [hstack, hmild.stack]⟩ }

theorem of_functor {f : ConnectionFunctor} {queue : FunctorQueue ConnectionFunctor}
    (hnext : s.queue.next = some (f, queue)) (hlife : f.isLifecycle = false)
    (hmild : Mild { s with queue := queue } toggle next) : Quiet s toggle next := by
  obtain ⟨extra, hqueue, hextra⟩ := hmild.queue
  exact { hmild with
    stack := .inl hmild.stack
    queue := ⟨_, extra, hqueue, .inr ⟨f, hlife, FunctorQueue.queued_next hnext⟩, hextra⟩ }

/-- The functors that establish and destroy the connection stay as they are. -/
theorem count (hquiet : Quiet s toggle next) {f : ConnectionFunctor} (hlife : f.isLifecycle = true) :
    next.queue.queued.count f = s.queue.queued.count f := by
  obtain ⟨kept, extra, hnext, hkept, hextra⟩ := hquiet.queue
  have hnone : extra.count f = 0 := List.count_eq_zero.mpr fun h => by
    rw [(hextra f h).1] at hlife
    cases hlife
  rw [hnext, List.count_append, hnone, Nat.add_zero]
  rcases hkept with hsame | ⟨g, hg, hdropped⟩
  · rw [hsame]
  · have hne : g ≠ f := by
      rintro rfl
      rw [hlife] at hg
      cases hg
    rw [hdropped, List.count_cons_of_ne hne]

theorem mem_queued (hquiet : Quiet s toggle next) {f : ConnectionFunctor}
    (hmem : f ∈ next.queue.queued) : f ∈ s.queue.queued ∨
      (f.isLifecycle = false ∧ (f.isToggle = true → toggle = .deferred)) := by
  obtain ⟨kept, extra, hnext, hkept, hextra⟩ := hquiet.queue
  rw [hnext, List.mem_append] at hmem
  rcases hmem with hold | hnew
  · rcases hkept with hsame | ⟨g, -, hdropped⟩
    · exact .inl (hsame ▸ hold)
    · exact .inl (hdropped ▸ List.mem_cons_of_mem _ hold)
  · exact .inr (hextra f hnew)

end Quiet

theorem turn_of_runFrame {f : Frame} {rest : List Frame} {write : WriteResult} {read : ReadResult}
    {next : Session} (hmirror : s.channel.Mirrored) (hstack : s.stack = f :: rest)
    (hframe : { s with stack := rest }.runFrame write read f = .ok next) :
    Turn s (.resume write read) next := by
  have hclose : isInput f = true → s.closes (.resume write read) = true →
      { s with stack := rest }.handleClose = .ok next →
      Turn s (.resume write read) next := by
    intro hinput hcloses hnext
    by_cases hopen : s.IsOpen
    · rw [handleClose_eq (s := { s with stack := rest }) hmirror hopen] at hnext
      obtain rfl := Except.ok.inj hnext
      exact .closeOnEvent hstack hinput hcloses hopen
    · rw [handleClose_of_not_open (s := { s with stack := rest }) hopen] at hnext
      cases hnext
  cases f with
  | event callback =>
      cases callback with
      | closeCallback => exact hclose rfl (by simp [closes, hstack]) hframe
      | errorCallback =>
          obtain rfl := Except.ok.inj hframe
          exact .quiet (.of_frame hstack (.refl _))
      | writeCallback => exact .quiet (.of_frame hstack (.handleWrite hmirror hframe))
      | readCallback =>
          cases read with
          | fails errno =>
              obtain rfl := Except.ok.inj hframe
              exact .quiet (.of_frame hstack (.refl _))
          | received count =>
              simp only [runFrame, handleRead] at hframe
              split_ifs at hframe with hcount
              · obtain rfl := Except.ok.inj hframe
                exact .message hstack
              · obtain rfl : count = 0 := Nat.eq_zero_of_not_pos hcount
                exact hclose rfl (by simp [closes, hstack]) hframe
  | closeCallback =>
      obtain rfl := Except.ok.inj hframe
      exact .closed hstack
  | removeChannel =>
      by_cases hnone : s.channel.events = 0#32
      · by_cases hindex : s.channel.index = .kNew
        · simp only [runFrame, remove_of_kNew hmirror hindex] at hframe
          cases hframe
        · simp only [runFrame, remove_eq hmirror hnone hindex] at hframe
          obtain rfl := Except.ok.inj hframe
          exact .removed hstack hnone hindex
      · simp only [runFrame, remove_of_events hnone] at hframe
        cases hframe

theorem turn_of_runFunctor {f : ConnectionFunctor} {queue : FunctorQueue ConnectionFunctor}
    {write : WriteResult} {next : Session} (hmirror : s.channel.Mirrored) (hidle : s.stack = [])
    (hnext : s.queue.next = some (f, queue))
    (hfunctor : { s with queue := queue }.runFunctor write f = .ok next) :
    Turn s (.functor write) next := by
  have hquiet : f.isLifecycle = false → Mild { s with queue := queue } (s.stepToggle (.functor write)) next →
      Turn s (.functor write) next := fun hlife hmild => .quiet (.of_functor hnext hlife hmild)
  simp only [stepToggle, hnext] at hquiet
  cases f with
  | connectEstablished =>
      by_cases hstate : s.state = .kConnecting
      · simp only [runFunctor,
          connectEstablished_eq (s := { s with queue := queue }) hmirror hstate] at hfunctor
        obtain rfl := Except.ok.inj hfunctor
        exact .established hidle hnext hstate
      · simp only [runFunctor, connectEstablished_of_not_connecting
          (s := { s with queue := queue }) hstate] at hfunctor
        cases hfunctor
  | connectDestroyed => exact .destroyed hidle hnext hfunctor
  | sendInLoop number message =>
      exact hquiet rfl (.sendInLoop hmirror hfunctor)
  | shutdownInLoop =>
      obtain rfl := Except.ok.inj hfunctor
      exact hquiet rfl (.shutdownInLoop _)
  | forceCloseInLoop =>
      by_cases hopen : s.IsOpen
      · simp only [runFunctor, forceCloseInLoop_of_open (s := { s with queue := queue }) hopen,
          handleClose_eq (s := { s with queue := queue }) hmirror hopen] at hfunctor
        obtain rfl := Except.ok.inj hfunctor
        simp only [hidle]
        exact .closeOnRequest hidle hnext (by simpa [closes, hnext] using hopen) hopen
      · simp only [runFunctor,
          forceCloseInLoop_of_not_open (s := { s with queue := queue }) hopen] at hfunctor
        obtain rfl := Except.ok.inj hfunctor
        exact hquiet rfl (.refl _)
  | startReadInLoop =>
      exact hquiet rfl (.startReadInLoop hmirror hfunctor)
  | stopReadInLoop =>
      exact hquiet rfl (.stopReadInLoop hmirror hfunctor)
  | writeCompleteCallback | highWaterMarkCallback length =>
      obtain rfl := Except.ok.inj hfunctor
      exact hquiet rfl (.refl _)

/-- Every step is one of the turns. -/
theorem turn {label : Label} {next : Session} (hmirror : s.channel.Mirrored)
    (hstep : s.step label = .ok next) : Turn s label next := by
  cases took hstep with
  | call hcall => exact .quiet (.of_mild (call_mild hmirror hcall))
  | handleEvent hidle _ hwatched => exact .handleEvent hidle hwatched
  | resume hstack hframe => exact turn_of_runFrame hmirror hstack hframe
  | doPendingFunctors _ hswap =>
      refine .quiet { Quiet.of_mild (.refl s) with queue := ?_ }
      exact ⟨s.queue.queued, [], by simp [FunctorQueue.queued_swap hswap], .inl rfl, by simp⟩
  | functor hidle hnext hfunctor => exact turn_of_runFunctor hmirror hidle hnext hfunctor
  | delayedForceClose _ _ =>
      have hmild := Mild.forceClose { s with delayedCloses := s.delayedCloses - 1 }
      exact .quiet (.of_mild { hmild with })
  | removeConnectionInLoop hpending => exact .removal hpending

end Session
end Muduo
