import Muduo.TcpConnectionTeardown

/-! The callbacks of a connection whose reading is never stopped. A run has three phases: the owner
has set the connection up and nothing has happened yet; the connection is open and its channel
watched for input; the connection is down and exactly one thing is on its way to removing the channel
from the poller. -/

namespace Muduo.Session

open Channel Execution

variable {s next : Session}

/-! ## What the user and the kernel may do -/

def togglesReading : Label → Bool
  | .call _ .startRead _ => true
  | .call _ .stopRead _ => true
  | _ => false

/-- `startRead` and `stopRead` are not used, and hang-ups come as the kernel reports them. -/
def Admissible (label : Label) : Prop := KernelMask label ∧ togglesReading label = false

instance : DecidablePred Admissible := fun label =>
  inferInstanceAs (Decidable (KernelMask label ∧ togglesReading label = false))

theorem toggleOf_of_admissible {thread : Thread} {c : Call} {write : WriteResult}
    (hadmissible : Admissible (.call thread c write)) : toggleOf thread c = .none := by
  have htoggles := hadmissible.2
  cases c <;> first | rfl | cases htoggles

theorem stepToggle_of_admissible {label : Label} (hadmissible : Admissible label)
    (hcalm : ∀ f ∈ s.queue.queued, f.isToggle = false) : s.stepToggle label = .none := by
  cases label with
  | call thread c write => exact toggleOf_of_admissible hadmissible
  | functor write =>
      unfold stepToggle
      cases hnext : s.queue.next with
      | none => rfl
      | some front =>
          obtain ⟨f, rest⟩ := front
          have hkind : f.isToggle = false :=
            hcalm f (FunctorQueue.queued_next hnext ▸ List.mem_cons_self)
          cases f <;> first | rfl | cases hkind
  | handleEvent revents | resume write read | doPendingFunctors | delayedForceClose
  | removeConnectionInLoop => rfl

/-! ## The first phase -/

/-- Nothing has happened to the connection since it was set up. -/
structure Fresh (s : Session) : Prop where
  state : s.state = .kConnecting
  stack : s.stack = []
  channel : s.channel = {}
  queued : s.queue.queued = [.connectEstablished]
  delayedCloses : s.delayedCloses = 0
  removals : s.removals = 0
  notices : s.notices = []

theorem fresh_new (setup : Setup) : Fresh (new setup) where
  state := rfl
  stack := rfl
  channel := rfl
  queued := rfl
  delayedCloses := rfl
  removals := rfl
  notices := rfl

/-- The calls that do not toggle reading look at the state first. -/
theorem call_of_connecting (hstate : s.state = .kConnecting) {thread : Thread} {c : Call}
    {write : WriteResult} (hadmissible : Admissible (.call thread c write)) :
    s.call thread write c = .ok s := by
  have htoggles := hadmissible.2
  cases c with
  | send message => simp [call, send, hstate]
  | shutdown => simp [call, shutdown, hstate]
  | forceClose => simp [call, forceClose, hstate]
  | forceCloseWithDelay => simp [call, forceCloseWithDelay, hstate]
  | startRead => cases htoggles
  | stopRead => cases htoggles

/-- What `connectEstablished` makes of a fresh connection. -/
structure JustEstablished (s : Session) : Prop where
  state : s.state = .kConnected
  stack : s.stack = []
  mirrored : s.channel.Mirrored
  registered : s.channel.index ≠ .kNew
  reading : s.channel.isReading = true
  queued : s.queue.queued = []
  removals : s.removals = 0
  notices : s.notices = [.connection true]

theorem Fresh.step (hfresh : s.Fresh) {label : Label} (hadmissible : Admissible label)
    (hstep : s.step label = .ok next) : next.Fresh ∨ next.JustEstablished := by
  cases took hstep with
  | call hcall =>
      rw [call_of_connecting hfresh.state hadmissible] at hcall
      exact .inl (Except.ok.inj hcall ▸ hfresh)
  | handleEvent _ _ hwatched =>
      rw [hfresh.channel] at hwatched
      cases hwatched
  | resume hstack _ =>
      rw [hfresh.stack] at hstack
      cases hstack
  | doPendingFunctors _ hswap =>
      exact .inl { hfresh with queued := (FunctorQueue.queued_swap hswap).trans hfresh.queued }
  | @functor f queue write _ _ hnext hfunctor =>
      have hqueued := FunctorQueue.queued_next hnext
      rw [hfresh.queued, List.cons.injEq] at hqueued
      obtain ⟨rfl, hrest⟩ := hqueued
      have hmirror : s.channel.Mirrored := hfresh.channel ▸ mirrored_initial
      simp only [runFunctor, connectEstablished_eq (s := { s with queue := queue }) hmirror
        hfresh.state] at hfunctor
      obtain rfl := Except.ok.inj hfunctor
      exact .inr {
        state := rfl
        stack := hfresh.stack
        mirrored := refreshed_mirrored _ _
        registered := refreshed_index_ne_kNew _ _
        reading := isReading_refreshed_enableReading _
        queued := hrest.symm
        removals := hfresh.removals
        notices := by simp [hfresh.notices] }
  | delayedForceClose _ hpending =>
      rw [hfresh.delayedCloses] at hpending
      cases hpending
  | removeConnectionInLoop hpending =>
      rw [hfresh.removals] at hpending
      cases hpending

/-! ## The other phases -/

/-- UP, and then messages. -/
def upTo (messages : Nat) : List Notice := .connection true :: List.replicate messages .message

theorem upTo_message (messages : Nat) : upTo messages ++ [.message] = upTo (messages + 1) := by
  rw [upTo, List.cons_append, ← List.replicate_succ']
  rfl

/-- One if the poller does not have the channel. -/
def unregistered (c : Channel) : Nat := if c.index = .kNew then 1 else 0

theorem unregistered_eq_zero {c : Channel} : unregistered c = 0 ↔ c.index ≠ .kNew := by
  simp [unregistered]

/-- What is on its way to removing the channel, or has removed it. -/
def teardowns (s : Session) : Nat :=
  s.stack.count .closeCallback + s.removals + s.queue.queued.count .connectDestroyed +
    s.stack.count .removeChannel + unregistered s.channel

structure LiveInv (s : Session) : Prop where
  closed : s.ClosedInv
  established : s.state ≠ .kConnecting
  calm : ∀ f ∈ s.queue.queued, f.isToggle = false ∧ f ≠ .connectEstablished
  reading : s.IsOpen → s.channel.isReading = true
  teardown : s.teardowns = if s.state = .kDisconnected then 1 else 0
  told : s.IsOpen → ∃ messages, s.notices = upTo messages
  toldDown : s.state = .kDisconnected → ∃ messages,
    s.notices = upTo messages ++ .connection false ::
      if Frame.closeCallback ∈ s.stack then [] else [.close]

theorem isOpen_of_ne (hestablished : s.state ≠ .kConnecting) (hup : s.state ≠ .kDisconnected) :
    s.IsOpen := by
  cases hstate : s.state with
  | kDisconnected => exact absurd hstate hup
  | kConnecting => exact absurd hstate hestablished
  | kConnected => exact .inl hstate
  | kDisconnecting => exact .inr hstate

theorem JustEstablished.liveInv (hup : s.JustEstablished) : s.LiveInv where
  closed := by
    refine ⟨hup.mirrored, ?_, ?_, ?_⟩
    · simp [hup.stack]
    · simp [hup.state]
    · simp [hup.stack, hup.removals, hup.queued]
  established := by simp [hup.state]
  calm := by simp [hup.queued]
  reading _ := hup.reading
  teardown := by
    simp [teardowns, hup.stack, hup.removals, hup.queued, hup.state,
      unregistered_eq_zero.mpr hup.registered]
  told _ := ⟨0, hup.notices⟩
  toldDown := by simp [hup.state]

namespace LiveInv

/-- Input is only handled while the connection is open. -/
theorem isOpen_of_input (hinv : s.LiveInv) {f : Frame} (hinput : isInput f = true)
    (hmem : f ∈ s.stack) : s.IsOpen := by
  refine isOpen_of_ne hinv.established ?_
  intro hdown
  exact List.countP_eq_zero.mp (hinv.closed.closed hdown).2.2 f hmem hinput

theorem isOpen_of_closes (hinv : s.LiveInv) {label : Label} (hcloses : s.closes label = true) :
    s.IsOpen := by
  cases label with
  | resume write read =>
      simp only [closes] at hcloses
      split at hcloses
      · rename_i hstack
        exact hinv.isOpen_of_input (f := .event .closeCallback) rfl (by simp [hstack])
      · rename_i hstack
        exact hinv.isOpen_of_input (f := .event .readCallback) rfl (by simp [hstack])
      · cases hcloses
  | functor write =>
      simp only [closes] at hcloses
      split at hcloses
      · exact of_decide_eq_true hcloses
      · cases hcloses
  | call thread c write | handleEvent revents | doPendingFunctors | delayedForceClose
  | removeConnectionInLoop => cases hcloses

theorem stepToggle (hinv : s.LiveInv) {label : Label} (hadmissible : Admissible label) :
    s.stepToggle label = .none :=
  stepToggle_of_admissible hadmissible fun f hf => (hinv.calm f hf).1

theorem orderly (hinv : s.LiveInv) {label : Label} (hadmissible : Admissible label) :
    Orderly s label where
  kernel := hadmissible.1
  watched hcloses := isNoneEvent_of_isReading (hinv.reading (hinv.isOpen_of_closes hcloses))
  start _ := by
    rw [hinv.stepToggle hadmissible]
    nofun
  stop _ hstop := by
    rw [hinv.stepToggle hadmissible] at hstop
    cases hstop

theorem registered (hinv : s.LiveInv) (hopen : s.IsOpen) : s.channel.index ≠ .kNew := by
  have hcount := hinv.teardown
  rw [teardowns, if_neg hopen.ne_kDisconnected] at hcount
  exact unregistered_eq_zero.mp (by omega)

theorem quiet (hinv : s.LiveInv) (hclosed : next.ClosedInv) (hquiet : Quiet s .none next) :
    next.LiveInv := by
  have hcloses : next.stack.count .closeCallback = s.stack.count .closeCallback ∧
      next.stack.count .removeChannel = s.stack.count .removeChannel := by
    rcases hquiet.stack with h | ⟨callback, h⟩
    · simp [h]
    · simp [h]
  have hopen : next.IsOpen → s.IsOpen := by
    intro hopen
    refine isOpen_of_ne hinv.established fun hdown => ?_
    exact hopen.ne_kDisconnected (hquiet.state_of_disconnected.mpr hdown)
  have hindex : unregistered next.channel = unregistered s.channel := by
    by_cases hdown : s.state = .kDisconnected
    · rw [hinv.closed.channel_kept hquiet hdown nofun nofun]
    · have hbefore := hinv.registered (isOpen_of_ne hinv.established hdown)
      rw [unregistered_eq_zero.mpr hbefore,
        unregistered_eq_zero.mpr (hquiet.channel.index_ne_kNew hbefore)]
  refine ⟨hclosed, ?_, ?_, ?_, ?_, ?_, ?_⟩
  · rcases hquiet.state with h | ⟨-, h⟩ <;> rw [h]
    · exact hinv.established
    · decide
  · intro f hf
    rcases hquiet.mem_queued hf with hold | ⟨hlife, htoggle⟩
    · exact hinv.calm f hold
    · constructor
      · cases hkind : f.isToggle with
        | false => rfl
        | true => exact nomatch htoggle hkind
      · rintro rfl
        cases hlife
  · intro hnext
    have hreading := hinv.reading (hopen hnext)
    have hmove := hquiet.channel
    generalize next.channel = moved at hmove
    cases hmove with
    | same _ => exact hreading
    | enableWriting _ => rw [isReading_refreshed_enableWriting, hreading]
    | disableWriting _ => rw [isReading_refreshed_disableWriting, hreading]
  · have hcount := hinv.teardown
    simp only [teardowns, hcloses.1, hcloses.2, hquiet.removals, hquiet.count (f := .connectDestroyed) rfl,
      hindex,
      hquiet.state_of_disconnected] at hcount ⊢
    exact hcount
  · intro hnext
    rw [hquiet.notices]
    exact hinv.told (hopen hnext)
  · intro hdown
    have hmem : Frame.closeCallback ∈ next.stack ↔ Frame.closeCallback ∈ s.stack := by
      rw [← List.count_pos_iff, hcloses.1, List.count_pos_iff]
    rw [hquiet.notices]
    simp only [hmem]
    exact hinv.toldDown (hquiet.state_of_disconnected.mp hdown)

/-- The close, whether the input has ended or the close was requested. -/
theorem down (hinv : s.LiveInv) (hopen : s.IsOpen) {rest : List Frame}
    {queue : FunctorQueue ConnectionFunctor}
    (hrest : rest.count .closeCallback = s.stack.count .closeCallback ∧
      rest.count .removeChannel = s.stack.count .removeChannel)
    (hqueue : queue.queued.count .connectDestroyed = s.queue.queued.count .connectDestroyed)
    (hsub : ∀ f ∈ queue.queued, f ∈ s.queue.queued)
    (hclosed : ClosedInv { s with
      state := .kDisconnected
      channel := s.channel.refreshed kNoneEvent
      notices := s.notices ++ [.connection false]
      stack := .closeCallback :: rest
      queue := queue }) :
    LiveInv { s with
      state := .kDisconnected
      channel := s.channel.refreshed kNoneEvent
      notices := s.notices ++ [.connection false]
      stack := .closeCallback :: rest
      queue := queue } where
  closed := hclosed
  established := nofun
  calm f hf := hinv.calm f (hsub f hf)
  reading hopen := absurd rfl hopen.ne_kDisconnected
  teardown := by
    have hcount := hinv.teardown
    have hremove : (Frame.closeCallback :: rest).count .removeChannel = rest.count .removeChannel := by
      simp
    rw [teardowns, if_neg hopen.ne_kDisconnected] at hcount
    simp only [teardowns, List.count_cons_self, hremove, hrest.1, hrest.2, hqueue,
      unregistered_eq_zero.mpr (refreshed_index_ne_kNew _ _), if_true]
    omega
  told hopen := absurd rfl hopen.ne_kDisconnected
  toldDown _ := by
    obtain ⟨messages, hnotices⟩ := hinv.told hopen
    refine ⟨messages, ?_⟩
    simp [hnotices]

/-- `connectDestroyed` is queued. -/
theorem calm_destroyed (hinv : s.LiveInv) :
    ∀ f ∈ (s.queue.queueInLoop .connectDestroyed).queued, f.isToggle = false ∧ f ≠ .connectEstablished := by
  intro f hf
  rw [FunctorQueue.queued_queueInLoop, List.mem_append, List.mem_singleton] at hf
  rcases hf with hf | rfl
  · exact hinv.calm f hf
  · exact ⟨rfl, fun h => by cases h⟩

/-- The close is reported, and the removal is on its way: in the queue of the loop, or to it. -/
theorem closeCallback (hinv : s.LiveInv) {rest : List Frame} (hstack : s.stack = .closeCallback :: rest)
    (hclosed : ClosedInv { s with stack := rest }.closeCallback) :
    LiveInv { s with stack := rest }.closeCallback := by
  have hdown : s.state = .kDisconnected := hinv.closed.scheduled (.inl (hstack ▸ List.mem_cons_self))
  have hcount := hinv.teardown
  have hlast : Frame.closeCallback ∉ rest := by
    rw [← List.count_eq_zero]
    rw [teardowns, hstack, List.count_cons_self, if_pos hdown] at hcount
    omega
  obtain ⟨messages, hnotices⟩ := hinv.toldDown hdown
  have htold : ∃ messages, s.notices ++ [Notice.close] = upTo messages ++
      .connection false :: if Frame.closeCallback ∈ rest then [] else [.close] :=
    ⟨messages, by simp [hnotices, hstack, hlast]⟩
  rcases closeCallback_cases { s with stack := rest } with heq | heq <;> rw [heq] at hclosed ⊢
  · refine { hinv with
      closed := hclosed, calm := hinv.calm_destroyed, teardown := ?_, toldDown := fun _ => htold
      told := fun h => absurd hdown h.ne_kDisconnected }
    simp [teardowns, hstack] at hcount ⊢
    omega
  · refine { hinv with
      closed := hclosed, teardown := ?_, toldDown := fun _ => htold
      told := fun h => absurd hdown h.ne_kDisconnected }
    simp [teardowns, hstack] at hcount ⊢
    omega

theorem step (hinv : s.LiveInv) {label : Label} (hadmissible : Admissible label)
    (hstep : s.step label = .ok next) : next.LiveInv := by
  have hclosed := hinv.closed.step (hinv.orderly hadmissible) hstep
  cases turn hinv.closed.mirrored hstep with
  | quiet hquiet => exact hinv.quiet hclosed (hinv.stepToggle hadmissible ▸ hquiet)
  | @handleEvent revents hidle hwatched =>
      have hup : s.state ≠ .kDisconnected := by
        intro hdown
        rw [(hinv.closed.closed hdown).2.1] at hwatched
        cases hwatched
      have hcount := hinv.teardown
      refine { hinv with closed := hclosed, teardown := ?_, toldDown := fun h => absurd h hup }
      simp only [teardowns, hidle, List.count_nil] at hcount ⊢
      rw [← hcount]
      congr 4
      · exact List.count_eq_zero.mpr (by simp)
      · exact List.count_eq_zero.mpr (by simp)
  | @message rest write read hstack =>
      have hopen := hinv.isOpen_of_input (f := .event .readCallback) rfl (by simp [hstack])
      have hcount := hinv.teardown
      refine { hinv with
        closed := hclosed, teardown := ?_, told := ?_,
        toldDown := fun h => absurd h hopen.ne_kDisconnected }
      · simpa [teardowns, hstack] using hcount
      · intro _
        obtain ⟨messages, hnotices⟩ := hinv.told hopen
        exact ⟨messages + 1, by rw [← upTo_message, ← hnotices]⟩
  | @closeOnEvent f rest write read hstack hinput hcloses hopen =>
      refine hinv.down hopen ?_ rfl (fun f hf => hf) hclosed
      cases f with
      | event callback => simp [hstack]
      | closeCallback => cases hinput
      | removeChannel => cases hinput
  | @closeOnRequest queue write hidle hnext hcloses hopen =>
      have hqueued := FunctorQueue.queued_next hnext
      refine hinv.down hopen ?_ ?_ ?_ hclosed
      · simp [hidle]
      · simp [hqueued]
      · exact fun f hf => hqueued ▸ List.mem_cons_of_mem _ hf
  | established _ _ hstate => exact absurd hstate hinv.established
  | @destroyed queue write _ hidle hnext hdestroyed =>
      have hqueued := FunctorQueue.queued_next hnext
      have hdown : s.state = .kDisconnected :=
        hinv.closed.scheduled (.inr (.inr (hqueued ▸ List.mem_cons_self)))
      have hconnected : s.state ≠ .kConnected := by rw [hdown]; decide
      rw [connectDestroyed_of_not_connected (s := { s with queue := queue }) hconnected] at hdestroyed
      obtain rfl := Except.ok.inj hdestroyed
      have hcount := hinv.teardown
      refine { hinv with closed := hclosed, calm := ?_, teardown := ?_, toldDown := ?_ }
      · exact fun f hf => hinv.calm f (hqueued ▸ List.mem_cons_of_mem _ hf)
      · simp [teardowns, hidle, hqueued] at hcount ⊢
        omega
      · intro _
        simpa using hinv.toldDown hdown
  | closed hstack => exact hinv.closeCallback hstack hclosed
  | @removed rest write read hstack hnone hindex =>
      have hcount := hinv.teardown
      have hup : ¬s.IsOpen := by
        intro hopen
        rw [teardowns, hstack, List.count_cons_self, if_neg hopen.ne_kDisconnected] at hcount
        omega
      refine { hinv with
        closed := hclosed, reading := fun h => absurd h hup, teardown := ?_, toldDown := ?_ }
      · have hnew : unregistered {} = 1 := rfl
        simp [teardowns, hstack, unregistered_eq_zero.mpr hindex, hnew] at hcount ⊢
        omega
      · intro hdown
        simpa [hstack] using hinv.toldDown hdown
  | removal hpending =>
      have hcount := hinv.teardown
      refine { hinv with closed := hclosed, calm := hinv.calm_destroyed, teardown := ?_ }
      refine Eq.trans ?_ hcount
      simp only [teardowns, queueInLoop, FunctorQueue.queued_queueInLoop, List.count_append,
        List.count_singleton_self]
      omega

/-- What stands on the stack or heads the queue runs without failing an assertion. -/
theorem runFrame_ok (hinv : s.LiveInv) {f : Frame} {rest : List Frame} (hstack : s.stack = f :: rest)
    (write : WriteResult) (read : ReadResult) :
    ∃ next, { s with stack := rest }.runFrame write read f = .ok next := by
  have hmirror := hinv.closed.mirrored
  have hclose : isInput f = true → ∃ next, { s with stack := rest }.handleClose = .ok next := by
    intro hinput
    have hopen := hinv.isOpen_of_input hinput (by simp [hstack])
    exact ⟨_, handleClose_eq (s := { s with stack := rest }) hmirror hopen⟩
  cases f with
  | event callback =>
      cases callback with
      | closeCallback => exact hclose rfl
      | errorCallback => exact ⟨_, rfl⟩
      | readCallback =>
          cases read with
          | fails errno => exact ⟨_, rfl⟩
          | received count =>
              simp only [runFrame, handleRead]
              split_ifs
              · exact ⟨_, rfl⟩
              · exact hclose rfl
      | writeCallback =>
          rcases handleWrite_spec (s := { s with stack := rest }) hmirror write with
            ⟨-, _, _, heq, -⟩ | ⟨-, _, _, -, -, heq⟩
          · exact ⟨_, heq⟩
          · exact ⟨_, heq⟩
  | closeCallback => exact ⟨_, rfl⟩
  | removeChannel =>
      have hcount := hinv.teardown
      rw [teardowns, hstack, List.count_cons_self] at hcount
      have hdown : s.state = .kDisconnected := by
        by_contra hup
        rw [if_neg hup] at hcount
        omega
      rw [if_pos hdown] at hcount
      have hindex : s.channel.index ≠ .kNew := unregistered_eq_zero.mp (by omega)
      refine ⟨{ s with stack := rest, channel := {} }, ?_⟩
      simp only [runFrame, remove_eq hmirror (hinv.closed.closed hdown).1 hindex]
      rfl

theorem runFunctor_ok (hinv : s.LiveInv) {f : ConnectionFunctor}
    {queue : FunctorQueue ConnectionFunctor} (hnext : s.queue.next = some (f, queue))
    (write : WriteResult) : ∃ next, { s with queue := queue }.runFunctor write f = .ok next := by
  have hmirror := hinv.closed.mirrored
  have hcalm := hinv.calm f (FunctorQueue.queued_next hnext ▸ List.mem_cons_self)
  cases f with
  | connectEstablished => exact absurd rfl hcalm.2
  | connectDestroyed =>
      by_cases hstate : s.state = .kConnected
      · exact ⟨_, connectDestroyed_of_connected (s := { s with queue := queue }) hmirror hstate⟩
      · exact ⟨_, connectDestroyed_of_not_connected (s := { s with queue := queue }) hstate⟩
  | sendInLoop number message =>
      by_cases hstate : s.state = .kDisconnected
      · exact ⟨_, sendInLoop_of_disconnected (s := { s with queue := queue }) hstate _ _ _⟩
      · obtain ⟨_, _, _, _, _, heq, -⟩ :=
          sendInLoop_spec (s := { s with queue := queue }) hmirror hstate number message write
        exact ⟨_, heq⟩
  | shutdownInLoop | writeCompleteCallback | highWaterMarkCallback length => exact ⟨_, rfl⟩
  | forceCloseInLoop =>
      by_cases hopen : s.IsOpen
      · exact ⟨_, (forceCloseInLoop_of_open (s := { s with queue := queue }) hopen).trans
          (handleClose_eq (s := { s with queue := queue }) hmirror hopen)⟩
      · exact ⟨_, forceCloseInLoop_of_not_open (s := { s with queue := queue }) hopen⟩
  | startReadInLoop => cases hcalm.1
  | stopReadInLoop => cases hcalm.1

/-- No assertion fails. -/
theorem no_failure (hinv : s.LiveInv) {label : Label} {stop : Stop}
    (hstep : s.step label = .error stop) : stop = .disabled := by
  cases halted hstep with
  | disabled => rfl
  | @call thread c write _ hcall =>
      obtain ⟨next, hnext⟩ := call_ok hinv.closed.mirrored thread write c
      rw [hnext] at hcall
      cases hcall
  | @resume f rest write read _ hstack hframe =>
      obtain ⟨next, hnext⟩ := hinv.runFrame_ok hstack write read
      rw [hnext] at hframe
      cases hframe
  | @functor f queue write _ hnext hfunctor =>
      obtain ⟨next, heq⟩ := hinv.runFunctor_ok hnext write
      rw [heq] at hfunctor
      cases hfunctor

end LiveInv

theorem Fresh.no_failure (hfresh : s.Fresh) {label : Label} (hadmissible : Admissible label)
    {stop : Stop} (hstep : s.step label = .error stop) : stop = .disabled := by
  cases halted hstep with
  | disabled => rfl
  | call hcall =>
      rw [call_of_connecting hfresh.state hadmissible] at hcall
      cases hcall
  | resume hstack _ =>
      rw [hfresh.stack] at hstack
      cases hstack
  | @functor f queue write _ hnext hfunctor =>
      have hqueued := FunctorQueue.queued_next hnext
      rw [hfresh.queued, List.cons.injEq] at hqueued
      obtain ⟨rfl, -⟩ := hqueued
      have hmirror : s.channel.Mirrored := hfresh.channel ▸ mirrored_initial
      rw [runFunctor, connectEstablished_eq (s := { s with queue := queue }) hmirror
        hfresh.state] at hfunctor
      cases hfunctor

/-! ## Whole runs -/

/-- The order in which a connection goes through its states. -/
def rank : StateE → Nat
  | .kConnecting => 0
  | .kConnected => 1
  | .kDisconnecting => 2
  | .kDisconnected => 3

theorem rank_injective {first second : StateE} (heq : rank first = rank second) :
    first = second := by
  cases first <;> cases second <;> first | rfl | cases heq

theorem rank_le_kDisconnected (state : StateE) : rank state ≤ rank .kDisconnected := by
  cases state <;> decide

/-- No step takes the state back. -/
theorem rank_step (hmirror : s.channel.Mirrored) {label : Label} (hstep : s.step label = .ok next) :
    rank s.state ≤ rank next.state := by
  cases turn hmirror hstep with
  | quiet hquiet =>
      rcases hquiet.state with h | ⟨hopen, h⟩
      · exact Nat.le_of_eq (congrArg rank h.symm)
      · rcases hopen with hstate | hstate
        · simp [h, hstate, rank]
        · simp [h, hstate, rank]
  | handleEvent _ _ | message _ | removed _ _ _ | removal _ => exact Nat.le_refl _
  | closeOnEvent _ _ _ _ => exact rank_le_kDisconnected _
  | closeOnRequest _ _ _ _ => exact rank_le_kDisconnected _
  | established _ _ hstate =>
      rw [hstate]
      exact Nat.zero_le _
  | @destroyed queue _ _ _ _ hdestroyed =>
      by_cases hstate : s.state = .kConnected
      · rw [connectDestroyed_of_connected (s := { s with queue := queue }) hmirror hstate]
          at hdestroyed
        obtain rfl := Except.ok.inj hdestroyed
        exact rank_le_kDisconnected _
      · rw [connectDestroyed_of_not_connected (s := { s with queue := queue }) hstate]
          at hdestroyed
        obtain rfl := Except.ok.inj hdestroyed
        exact Nat.le_refl _
  | @closed rest _ _ _ =>
      rcases closeCallback_cases { s with stack := rest } with heq | heq
      · exact Nat.le_of_eq (by rw [heq])
      · exact Nat.le_of_eq (by rw [heq])

/-- One of the three phases. -/
def CallbackInv (s : Session) : Prop := s.Fresh ∨ s.LiveInv

theorem CallbackInv.step (hinv : s.CallbackInv) {label : Label} (hadmissible : Admissible label)
    (hstep : s.step label = .ok next) : next.CallbackInv := by
  rcases hinv with hfresh | hlive
  · rcases hfresh.step hadmissible hstep with h | h
    · exact .inl h
    · exact .inr h.liveInv
  · exact .inr (hlive.step hadmissible hstep)

theorem run_callbackInv {setup : Setup} {labels : List Label}
    (hadmissible : ∀ label ∈ labels, Admissible label)
    (hrun : run step (new setup) labels = .ok s) : s.CallbackInv := by
  have hmeets : Meets step (fun _ label => Admissible label) (new setup) labels :=
    meets_of_forall hadmissible _
  exact run_preserves_of_meets CallbackInv
    (fun _ _ _ hinv hcondition hstep => hinv.step hcondition hstep) (.inl (fresh_new setup))
    hmeets hrun

/-- **The discipline of the callbacks.** In every admissible run, nothing has been reported while the
connection is being set up; while it is open, UP has been reported once and first, and then messages;
once it is down, DOWN has been reported once after that, and then at most the close to the owner. No
admissible step fails an assertion, and none takes the state back. -/
theorem connection_callback_discipline (setup : Setup) (labels : List Label) (s : Session)
    (hadmissible : ∀ label ∈ labels, Admissible label)
    (hrun : run step (new setup) labels = .ok s) :
    ((s.state = .kConnecting ∧ s.notices = []) ∨
      ((s.state = .kConnected ∨ s.state = .kDisconnecting) ∧
        ∃ messages, s.notices = .connection true :: List.replicate messages .message) ∨
      (s.state = .kDisconnected ∧ ∃ messages,
        s.notices = .connection true :: List.replicate messages .message ++ [.connection false] ∨
        s.notices =
          .connection true :: List.replicate messages .message ++ [.connection false, .close])) ∧
    ∀ label, Admissible label →
      (∀ stop, s.step label = .error stop → stop = .disabled) ∧
      ∀ next, s.step label = .ok next → rank s.state ≤ rank next.state := by
  have hinv := run_callbackInv hadmissible hrun
  refine ⟨?_, fun label hlabel => ⟨?_, ?_⟩⟩
  · rcases hinv with hfresh | hlive
    · exact .inl ⟨hfresh.state, hfresh.notices⟩
    · by_cases hdown : s.state = .kDisconnected
      · obtain ⟨messages, hnotices⟩ := hlive.toldDown hdown
        refine .inr (.inr ⟨hdown, messages, ?_⟩)
        split_ifs at hnotices
        · exact .inl hnotices
        · exact .inr hnotices
      · have hopen := isOpen_of_ne hlive.established hdown
        exact .inr (.inl ⟨hopen, hlive.told hopen⟩)
  · intro stop hstep
    rcases hinv with hfresh | hlive
    · exact hfresh.no_failure hlabel hstep
    · exact hlive.no_failure hstep
  · intro next hstep
    refine rank_step ?_ hstep
    rcases hinv with hfresh | hlive
    · exact hfresh.channel ▸ mirrored_initial
    · exact hlive.closed.mirrored

/-- A message, the end of the input, and everything up to the removal of the channel. -/
def messageThenClose : List Label :=
  establishing ++ [.handleEvent POLLIN, .resume (.accepts 0) (.received 3),
    .handleEvent (POLLIN ||| POLLOUT), .resume (.accepts 0) (.received 0),
    .resume (.accepts 0) (.received 0), .resume (.accepts 0) (.received 0),
    .doPendingFunctors, .functor (.accepts 0), .resume (.accepts 0) (.received 0)]

theorem connection_callback_discipline_messageThenClose :
    ∃ s, run step (new {}) messageThenClose = .ok s ∧
      s.notices = [.connection true, .message, .connection false, .close] ∧
      ∀ label, Admissible label →
        (∀ stop, s.step label = .error stop → stop = .disabled) ∧
        ∀ next, s.step label = .ok next → rank s.state ≤ rank next.state := by
  obtain ⟨s, hrun, hcheck⟩ := exists_of_outcome step (new {}) messageThenClose
    (fun s => s.notices == [.connection true, .message, .connection false, .close])
    (by decide +kernel)
  have hadmissible : ∀ label ∈ messageThenClose, Admissible label := by decide
  exact ⟨s, hrun, by simpa using hcheck,
    (connection_callback_discipline {} messageThenClose s hadmissible hrun).2⟩

end Muduo.Session
