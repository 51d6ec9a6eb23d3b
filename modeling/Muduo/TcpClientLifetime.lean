import Muduo.ConnectorAttempts
import Muduo.TcpClient

/-! What is left when a `TcpClient` is destroyed in its loop thread. The callbacks of connections are
turned away from the client at once. The connector is another matter: three of its functors hold a
raw pointer to it. Without a connection `~TcpClient` keeps it alive for a second, which is meant to
be long enough for them; with a connection nothing keeps it, although the functor that resets the
channel of the very attempt that led to the connection may still be queued. -/

namespace Muduo

open Execution

/-- The functor holds the raw pointer to the connector. -/
def ConnectorFunctor.raw {G : Type} : ConnectorFunctor G → Bool
  | .other _ => false
  | _ => true

namespace Connector

section Unreferenced

variable {G : Type} {s next : Connector G}

/-- No queued functor holds the raw pointer. -/
def unreferenced (s : Connector G) : Bool := s.queue.queued.all fun functor => !functor.raw

theorem unreferenced_iff :
    s.unreferenced = true ↔ ∀ functor : ConnectorFunctor G, functor.raw = true →
      functor ∉ s.queue.queued := by
  simp only [unreferenced, List.all_eq_true, Bool.not_eq_true']
  constructor
  · intro hall functor hraw hmem
    simp [hall functor hmem] at hraw
  · intro hall functor hmem
    exact eq_false_of_ne_true fun hraw => hall functor hraw hmem

end Unreferenced

variable {G : Type} [DecidableEq G] {s next : Connector G}

/-- Outside of an attempt, with no functor left to reset it, there is no channel. -/
theorem Sound.channel_eq_none (hs : Sound s) (hstate : s.state ≠ .kConnecting)
    (hfree : s.unreferenced = true) : s.channel = none := by
  obtain ⟨held, hholding, -⟩ := hs.held
  have hresets : s.resets = 0 :=
    List.count_eq_zero.mpr (unreferenced_iff.mp hfree _ rfl)
  rw [hresets] at hholding
  generalize s.state = state, s.channel = channel at hholding hstate ⊢
  cases hholding with
  | idle => rfl
  | connecting => exact absurd rfl hstate

/-- A retry timer that fires, whatever has become of the channel. -/
theorem Sole.fire (hs : Sole s) (index : Nat) (errno : ConnectErrno) :
    (∃ reason, s.fire index errno = .error reason ∧ Tolerated reason) ∨
      ∃ next, s.fire index errno = .ok next ∧ Sole next ∧ s.timers ≠ [] ∧ s.state = .kDisconnected ∧
        Begun { s with timers := s.timers.eraseIdx index } next := by
  unfold Connector.fire
  split
  · rename_i hfires
    have hfired : Sound { s with timers := s.timers.eraseIdx index } :=
      ⟨hs.sound.held, hs.sound.active⟩
    have hfew := hs.alone.few
    have hlength := List.length_eraseIdx_of_lt hfires.2
    rcases startInLoop_spec { s with timers := s.timers.eraseIdx index } errno with
      ⟨hstop, -⟩ | ⟨hstop, -⟩ | ⟨next, hnext, hstate, hbegun⟩
    · exact .inl ⟨_, hstop, .inr (.inl rfl)⟩
    · exact .inl ⟨_, hstop, .inr (.inr rfl)⟩
    · refine .inr ⟨next, hnext, .begun hfired ?_ hstate hbegun, ?_, hstate, hbegun⟩
      · show s.starting + s.starts + (s.timers.eraseIdx index).length = 0
        omega
      · exact List.ne_nil_of_length_pos (by omega)
  · exact .inl ⟨_, rfl, .inl rfl⟩

theorem Sole.restart (hs : Sole s) (hstate : s.state = .kConnected) (errno : ConnectErrno) :
    (∃ reason, s.restart errno = .error reason ∧ Tolerated reason) ∨
      ∃ next, s.restart errno = .ok next ∧ Sole next := by
  have hready := hs.sound.restarting hstate
  have hnone := hs.alone.none_of_ne (by simp [hstate])
  rcases startInLoop_spec { s with
      state := .kDisconnected, retryDelayMs := kInitRetryDelayMs, connect_ := true } errno with
    ⟨hstop, -⟩ | ⟨hstop, -⟩ | ⟨next, hnext, -, hbegun⟩
  · exact .inl ⟨_, hstop, .inr (.inl rfl)⟩
  · exact .inl ⟨_, hstop, .inr (.inr rfl)⟩
  · exact .inr ⟨next, hnext, .begun hready hnone rfl hbegun⟩

end Connector

namespace TcpClient

open Connector

variable {s next : TcpClient} {connects : Nat} {connector connector' : Connector ClientFunctor}
  {detached up : List Nat} {connection : Option Nat}

/-- `connect()` is called once. -/
def once (s : TcpClient) : TcpClientLabel → Bool
  | .connect _ => s.connects = 0
  | .beginConnect => s.connects = 0
  | _ => true

/-- The client is destroyed while it has a connection, and the timer of one second fires, only when no
queued functor holds the raw pointer to the connector. -/
def orderly (s : TcpClient) : TcpClientLabel → Bool
  | .destroy _ => s.connection.isNone || s.connector.unreferenced
  | .removeConnector => s.connector.unreferenced
  | _ => true

/-! ## The three lifetimes -/

/-- A client that is alive. -/
structure Serving (connects : Nat) (connector : Connector ClientFunctor) (detached up : List Nat)
    (connection : Option Nat) : Prop where
  fresh : connects = 0 → connector.state = .kDisconnected ∧ connector.channel = none ∧
    connector.starting + connector.starts + connector.timers.length = 0
  detached : detached = []
  attached : ∀ c ∈ up, connection = some c
  established : connection ≠ none → connector.state = .kConnected

/-- A client that is destroyed, with a connector that is still there. -/
structure Leaving (removal : Bool) (connector : Connector ClientFunctor) (detached up : List Nat) :
    Prop where
  detached : ∀ c ∈ up, c ∈ detached
  threads : connector.starting = 0 ∧ connector.stopping = 0
  unwanted : connector.connect_ = false
  stopped : .stopInLoop ∈ connector.queue.queued ∨ connector.state ≠ .kConnecting
  unreferenced : removal = false → connector.unreferenced = true

/-- Both are destroyed. -/
structure Gone (connector : Connector ClientFunctor) (detached up : List Nat) : Prop where
  detached : ∀ c ∈ up, c ∈ detached
  threads : connector.starting = 0 ∧ connector.stopping = 0
  channel : connector.channel = none
  timers : connector.timers = []
  unreferenced : connector.unreferenced = true

inductive Kept (s : TcpClient) : Prop where
  | alive (hlife : s.lifetime = .alive) (hsole : Sole s.connector)
      (hserving : Serving s.connects s.connector s.detached s.up s.connection)
  | orphaned (removal : Bool) (hlife : s.lifetime = .orphaned removal) (hsole : Sole s.connector)
      (hleaving : Leaving removal s.connector s.detached s.up)
  | released (hlife : s.lifetime = .released) (hsole : Sole s.connector)
      (hgone : Gone s.connector s.detached s.up)

theorem kept_initial : Kept {} := by
  refine .alive rfl sole_initial ⟨fun _ => ⟨rfl, rfl, rfl⟩, rfl, ?_, ?_⟩
  · intro c hmem
    cases hmem
  · intro hsome
    exact absurd rfl hsome

/-- The stops that are not ruled out. -/
def Harmless (reason : TcpClientStop) : Prop :=
  reason = .disabled ∨ ∃ tolerated, reason = .connector tolerated ∧ Tolerated tolerated

/-- The step is stopped for one of these reasons or leaves everything in order. -/
def Tended (result : Except TcpClientStop TcpClient) : Prop :=
  (∃ reason, result = .error reason ∧ Harmless reason) ∨ ∃ next, result = .ok next ∧ Kept next

theorem tended_disabled : Tended (.error .disabled) := .inl ⟨_, rfl, .inl rfl⟩

theorem Kept.tended (hs : Kept s) : Tended (.ok s) := .inr ⟨s, rfl, hs⟩

theorem tended_of_tolerated {reason : ConnectorStop} (hreason : Tolerated reason) :
    Tended (.error (.connector reason)) :=
  .inl ⟨_, rfl, .inr ⟨reason, rfl, hreason⟩⟩

theorem tended_withConnector {result : Except ConnectorStop (Connector ClientFunctor)}
    (hresult : (∃ reason, result = .error reason ∧ Tolerated reason) ∨
      ∃ connector, result = .ok connector ∧ Kept { s with connector := connector }) :
    Tended (s.withConnector result) := by
  rcases hresult with ⟨reason, rfl, hreason⟩ | ⟨connector, rfl, hkept⟩
  · exact tended_of_tolerated hreason
  · exact hkept.tended

theorem Serving.connection_eq_none (hs : Serving connects connector detached up connection)
    (hstate : connector.state ≠ .kConnected) : connection = none := by
  by_contra hsome
  exact hstate (hs.established hsome)

theorem Serving.connects_ne_zero (hs : Serving connects connector detached up connection)
    (hstate : connector.state ≠ .kDisconnected) : connects ≠ 0 :=
  fun hzero => hstate (hs.fresh hzero).1

/-- Once `connect()` has been called and as long as there is no connection, the connector may do what
it likes. -/
theorem Serving.unconnected (hs : Serving connects connector detached up connection)
    (hstate : connector.state ≠ .kConnected) (hconnects : connects ≠ 0) :
    Serving connects connector' detached up connection where
  fresh hzero := absurd hzero hconnects
  detached := hs.detached
  attached := hs.attached
  established hsome := absurd (hs.established hsome) hstate

theorem Serving.reconnector (hs : Serving connects connector detached up connection)
    (hstate : connector'.state = connector.state)
    (hchannel : connector'.channel = connector.channel ∨ connector'.channel = none)
    (hannounced : connector'.starting + connector'.starts + connector'.timers.length =
      connector.starting + connector.starts + connector.timers.length) :
    Serving connects connector' detached up connection where
  fresh hzero := by
    obtain ⟨hdisconnected, hnone, hzero⟩ := hs.fresh hzero
    rw [hstate, hannounced]
    refine ⟨hdisconnected, ?_, hzero⟩
    rcases hchannel with hsame | hreset
    · rw [hsame, hnone]
    · exact hreset
  detached := hs.detached
  attached := hs.attached
  established := by
    rw [hstate]
    exact hs.established

/-! ## Steps that concern the loop only -/

theorem Kept.sole (hs : Kept s) : Sole s.connector := by
  cases hs with
  | alive _ hsole | orphaned _ _ hsole | released _ hsole => exact hsole

theorem Kept.sound (hs : Kept s) : Sound s.connector := hs.sole.sound

/-- The queue may change as long as the functors with the raw pointer stay. -/
theorem Kept.turned (hs : Kept s) {queue : FunctorQueue (ConnectorFunctor ClientFunctor)}
    {stage : LoopStage} {active : Bool}
    (hsound : Sound { s.connector with queue := queue, stage := stage, active := active })
    (hraw : ∀ functor : ConnectorFunctor ClientFunctor, functor.raw = true →
      queue.queued.count functor = s.connector.queue.queued.count functor) :
    Kept { s with connector := { s.connector with queue := queue, stage := stage, active := active } } := by
  have hstarts : queue.queued.count .startInLoop = s.connector.starts := hraw _ rfl
  have hsole : Sole { s.connector with queue := queue, stage := stage, active := active } := by
    refine hs.sole.of_sound hsound ?_ rfl rfl (.inl rfl)
    exact congrArg (s.connector.starting + ·) hstarts
  have hmem (functor : ConnectorFunctor ClientFunctor) (hfunctor : functor.raw = true) :
      functor ∈ queue.queued ↔ functor ∈ s.connector.queue.queued := by
    rw [← List.count_pos_iff, hraw functor hfunctor, List.count_pos_iff]
  have hfree (hfree : s.connector.unreferenced = true) :
      { s.connector with queue := queue, stage := stage, active := active }.unreferenced = true := by
    refine unreferenced_iff.mpr fun functor hfunctor => ?_
    show functor ∉ queue.queued
    rw [hmem functor hfunctor]
    exact unreferenced_iff.mp hfree functor hfunctor
  cases hs with
  | alive hlife _ hserving =>
      refine .alive hlife hsole (hserving.reconnector rfl (.inl rfl) ?_)
      show s.connector.starting + queue.queued.count .startInLoop + _ = _
      rw [hstarts]
  | orphaned removal hlife _ hleaving =>
      obtain ⟨hdetached, hthreads, hunwanted, hstopped, hunreferenced⟩ := hleaving
      refine .orphaned removal hlife hsole
        ⟨hdetached, hthreads, hunwanted, ?_, fun hremoval => hfree (hunreferenced hremoval)⟩
      exact hstopped.imp_left (hmem _ rfl).mpr
  | released hlife _ hgone =>
      exact .released hlife hsole
        ⟨hgone.detached, hgone.threads, hgone.channel, hgone.timers, hfree hgone.unreferenced⟩

theorem Kept.serving (hs : Kept s) (hlife : s.lifetime = .alive) :
    Sole s.connector ∧ Serving s.connects s.connector s.detached s.up s.connection := by
  cases hs with
  | alive _ hsole hserving => exact ⟨hsole, hserving⟩
  | orphaned _ horphaned => simp [hlife] at horphaned
  | released hreleased => simp [hlife] at hreleased

theorem Kept.leaving (hs : Kept s) {removal : Bool} (hlife : s.lifetime = .orphaned removal) :
    Sole s.connector ∧ Leaving removal s.connector s.detached s.up := by
  cases hs with
  | alive halive => simp [hlife] at halive
  | orphaned other horphaned hsole hleaving =>
      obtain rfl : removal = other := by simpa [hlife] using horphaned
      exact ⟨hsole, hleaving⟩
  | released hreleased => simp [hlife] at hreleased

theorem Kept.queueInLoop (hs : Kept s) (functor : ClientFunctor) : Kept (s.queueInLoop functor) := by
  refine hs.turned (hs.sound.queueInLoop (by simp)) fun other hraw => ?_
  have hne : other ≠ .other functor := by
    rintro rfl
    cases hraw
  simp [hne.symm]

theorem Kept.forceClose (hs : Kept s) (connection : Nat) : Kept (s.forceClose connection) := by
  unfold TcpClient.forceClose
  split
  · exact hs.queueInLoop _
  · exact hs

theorem Kept.poll (hs : Kept s) (ready : Bool) : Tended (s.step (.poll ready)) := by
  have hrepolled : Kept { s with polled := s.up } := by
    cases hs with
    | alive hlife hsole hserving => exact .alive hlife hsole hserving
    | orphaned removal hlife hsole hleaving => exact .orphaned removal hlife hsole hleaving
    | released hlife hsole hgone => exact .released hlife hsole hgone
  refine tended_withConnector ?_
  rcases hs.sound.poll ready with hdisabled | ⟨active, hpoll, hpolled⟩
  · exact .inl ⟨_, hdisabled, .inl rfl⟩
  · exact .inr ⟨_, hpoll, hrepolled.turned hpolled fun _ _ => rfl⟩

theorem Kept.beginFunctors (hs : Kept s) : Tended (s.step .beginFunctors) := by
  refine tended_withConnector ?_
  rcases hs.sound.beginFunctors with hdisabled | ⟨queue, hqueue, hbegin, hbegun⟩
  · exact .inl ⟨_, hdisabled, .inl rfl⟩
  · exact .inr ⟨_, hbegin, hs.turned hbegun fun functor _ => by rw [hqueue]⟩

/-- A functor of a connection is taken out of the batch. -/
theorem Kept.popped (hs : Kept s) {functor : ClientFunctor}
    (hpopped : s.connector.nextFunctor = some (.other functor, connector)) :
    Kept { s with connector := connector } := by
  obtain ⟨-, queue, rfl, hqueue⟩ := nextFunctor_spec hpopped
  refine hs.turned (hs.sound.popped hqueue (by simp)) fun other hraw => ?_
  have hne : ConnectorFunctor.other functor ≠ other := by
    rintro rfl
    cases hraw
  simp [hqueue, hne]

/-! ## Connections that are closed -/

theorem Kept.dropped (hs : Kept s) (connection : Nat) :
    Kept { s with up := s.up.filter (· ≠ connection) } := by
  have hsub (c : Nat) (hmem : c ∈ s.up.filter (· ≠ connection)) : c ∈ s.up :=
    (List.mem_filter.mp hmem).1
  cases hs with
  | alive hlife hsole hserving =>
      exact .alive hlife hsole
        { hserving with attached := fun c hmem => hserving.attached c (hsub c hmem) }
  | orphaned removal hlife hsole hleaving =>
      exact .orphaned removal hlife hsole
        { hleaving with detached := fun c hmem => hleaving.detached c (hsub c hmem) }
  | released hlife hsole hgone =>
      exact .released hlife hsole
        { hgone with detached := fun c hmem => hgone.detached c (hsub c hmem) }

/-- After the destructor `handleClose` calls `detail::removeConnection`. -/
theorem Kept.handleClose_detached (hs : Kept s) {connection : Nat} (hmem : connection ∈ s.detached)
    (errno : ConnectErrno) : Tended (s.handleClose connection errno) := by
  have hclose : s.handleClose connection errno =
      .ok ({ s with up := s.up.filter (· ≠ connection) }.queueInLoop (.connectDestroyed connection)) :=
    if_pos hmem
  rw [hclose]
  exact ((hs.dropped connection).queueInLoop _).tended

/-- Before it, `removeConnection` finds the connection it is called for. -/
theorem Serving.handleClose (hlife : s.lifetime = .alive) (hsole : Sole s.connector)
    (hserving : Serving s.connects s.connector s.detached s.up s.connection) {connection : Nat}
    (hmem : connection ∈ s.up) (errno : ConnectErrno) : Tended (s.handleClose connection errno) := by
  have hconnection := hserving.attached connection hmem
  have hstate := hserving.established (by simp [hconnection])
  have hconnects := hserving.connects_ne_zero (by simp [hstate])
  have hdown : s.up.filter (· ≠ connection) = [] := by
    refine List.filter_eq_nil_iff.mpr fun c hc => ?_
    have hsame : c = connection := by simpa [hconnection, eq_comm] using hserving.attached c hc
    simp [hsame]
  have hsole' : Sole { s.connector with
      queue := s.connector.queue.queueInLoop (.other (.connectDestroyed connection)) } :=
    hsole.queueInLoop (by simp) (by simp)
  have hserving' (connector' : Connector ClientFunctor) :
      Serving s.connects connector' s.detached (s.up.filter (· ≠ connection)) none := by
    refine ⟨fun hzero => absurd hzero hconnects, hserving.detached, ?_, fun hsome => absurd rfl hsome⟩
    rw [hdown]
    simp
  have hclose : s.handleClose connection errno =
      { s with up := s.up.filter (· ≠ connection) }.removeConnection connection errno :=
    if_neg (by simp [hserving.detached])
  rw [hclose, removeConnection, if_neg (not_not_intro hlife), if_neg (not_not_intro hconnection)]
  show Tended (if s.retry && s.connect_ then _ else _)
  split
  · refine tended_withConnector ?_
    rcases hsole'.restart hstate errno with hstops | ⟨next, hnext, hrestarted⟩
    · exact .inl hstops
    · exact .inr ⟨next, hnext, .alive hlife hrestarted (hserving' next)⟩
  · exact Kept.tended (.alive hlife hsole' (hserving' _))

/-! ## The attempts of the connector -/

theorem Serving.ended (hlife : s.lifetime = .alive) (hsole : Sole connector)
    (hserving : Serving s.connects s.connector s.detached s.up s.connection)
    (hstate : s.connector.state = .kConnecting) {handed : Option Nat} {sockfd : Nat}
    (hended : Ended { s.connector with active := false } sockfd 0 handed connector) :
    Tended ({ s with connector := connector }.newConnectionCallback handed) := by
  have hnone := hserving.connection_eq_none (by simp [hstate])
  have hconnects := hserving.connects_ne_zero (by simp [hstate])
  cases handed with
  | none =>
      exact Kept.tended (.alive hlife hsole (hserving.unconnected (by simp [hstate]) hconnects))
  | some sockfd =>
      have hnew : { s with connector := connector }.newConnectionCallback (some sockfd) = .ok { s with
          connector := connector, connection := some sockfd, up := sockfd :: s.up } := if_pos hlife
      rw [hnew]
      refine Kept.tended (.alive hlife hsole ⟨fun hzero => absurd hzero hconnects,
        hserving.detached, fun c hmem => ?_, fun _ => hended.of_handed.2⟩)
      rcases List.mem_cons.mp hmem with rfl | hold
      · rfl
      · exact absurd (hserving.attached c hold) (by simp [hnone])

/-- While an attempt is still being made after the destructor, `stopInLoop` is queued and the timer of
one second is pending. -/
theorem Leaving.removal_eq {removal : Bool} (hleaving : Leaving removal connector detached up)
    (hstate : connector.state = .kConnecting) : removal = true := by
  have hstop := hleaving.stopped.resolve_right (not_not_intro hstate)
  cases removal with
  | true => rfl
  | false => exact absurd hstop (unreferenced_iff.mp (hleaving.unreferenced rfl) _ rfl)

theorem Kept.handleEvent (hs : Kept s) (revents : EventMask) (status : SocketStatus) :
    Tended (s.step (.handleEvent revents status)) := by
  have hsound := hs.sound
  cases hactive : s.connector.active with
  | false =>
      have hdisabled : s.connector.handleEvent revents status 0 = .error .disabled := by
        simp [Connector.handleEvent, hactive]
      simp only [step, hdisabled]
      exact tended_of_tolerated (.inl rfl)
  | true =>
      obtain ⟨hstate, -⟩ := hsound.active hactive
      obtain ⟨sockfd, hchannel, -⟩ := hsound.attempt hstate
      have hhandling : Sound { s.connector with active := false } :=
        ⟨hsound.held, by simp⟩
      have hexists : s.lifetime ≠ .released := by
        cases hs with
        | alive hlife => simp [hlife]
        | orphaned _ hlife => simp [hlife]
        | released _ _ hgone => exact absurd (hgone.channel.symm.trans hchannel) (by simp)
      rcases handleEvent_connecting hactive hstate hchannel revents status 0 with
        hsame | ⟨handed, connector, hnext, hended⟩
      · simp only [step, hsame]
        rw [if_neg hexists]
        exact (hs.turned hhandling fun _ _ => rfl).tended
      · simp only [step, hnext]
        rw [if_neg hexists]
        have hsole : Sole connector :=
          Sole.ended ⟨hhandling, hs.sole.alone⟩ rfl hstate hchannel hended
        cases hs with
        | alive hlife _ hserving => exact hserving.ended hlife hsole hstate hended
        | orphaned removal hlife _ hleaving =>
            obtain ⟨hsettled, hconnect, hstarting, hstopping, -⟩ := hended.frame
            obtain rfl := hleaving.removal_eq hstate
            have hleaving' : Leaving true connector s.detached s.up :=
              ⟨hleaving.detached, by rw [hstarting, hstopping]; exact hleaving.threads,
                by rw [hconnect]; exact hleaving.unwanted, .inr hsettled, by simp⟩
            cases handed with
            | none => exact Kept.tended (.orphaned true hlife hsole hleaving')
            | some handed =>
                exact absurd (hleaving.unwanted.symm.trans hended.of_handed.1) (by simp)
        | released hlife => exact absurd hlife hexists

/-- `~Connector`, when it comes to that. -/
theorem Leaving.releaseConnector {removal : Bool} (hlife : s.lifetime = .orphaned removal)
    (hsole : Sole s.connector) (hleaving : Leaving removal s.connector s.detached s.up) :
    Tended s.releaseConnector := by
  unfold TcpClient.releaseConnector
  split
  · rename_i hlast
    obtain rfl : removal = false := by simpa [hlife] using hlast.1
    have hfree := hleaving.unreferenced rfl
    have hstate : s.connector.state ≠ .kConnecting := by
      intro hconnecting
      exact absurd (hleaving.removal_eq hconnecting) (by simp)
    have hchannel := hsole.sound.channel_eq_none hstate hfree
    rw [if_neg (by simp [hchannel])]
    exact Kept.tended (.released rfl hsole
      ⟨hleaving.detached, hleaving.threads, hchannel, List.isEmpty_iff.mp hlast.2, hfree⟩)
  · exact Kept.tended (.orphaned removal hlife hsole hleaving)

theorem Kept.fire (hs : Kept s) (index : Nat) (errno : ConnectErrno) :
    Tended (s.step (.fire index errno)) := by
  rcases hs.sole.fire index errno with ⟨reason, hstop, hreason⟩ |
    ⟨connector, hnext, hfired, htimers, hstate, hbegun⟩
  · simp only [step, hstop]
    exact tended_of_tolerated hreason
  · simp only [step, hnext]
    cases hs with
    | alive hlife _ hserving =>
        have hconnects : s.connects ≠ 0 := by
          intro hzero
          have hannounced := (hserving.fresh hzero).2.2
          have hlength : 0 < s.connector.timers.length := List.length_pos_iff.mpr htimers
          omega
        have hkept : Kept { s with connector := connector } :=
          .alive hlife hfired (hserving.unconnected (by simp [hstate]) hconnects)
        have hrelease : { s with connector := connector }.releaseConnector =
            .ok { s with connector := connector } := if_neg (by simp [hlife])
        rw [hrelease]
        exact hkept.tended
    | orphaned removal hlife _ hleaving =>
        -- `connect_` is cleared, so `startInLoop` does nothing
        obtain rfl := hbegun.eq_of_unwanted hleaving.unwanted
        exact Leaving.releaseConnector hlife hfired { hleaving with }
    | released _ _ hgone => exact absurd hgone.timers htimers

/-! ## The functors -/

theorem execute_raw {functor : ConnectorFunctor ClientFunctor}
    (hpopped : s.connector.nextFunctor = some (functor, connector)) (hraw : functor.raw = true)
    (errno : ConnectErrno) :
    s.execute errno =
      if s.lifetime = .released then .error .connectorDestroyed
      else { s with connector := connector }.withConnector (connector.runFunctor errno functor) := by
  cases functor with
  | startInLoop | stopInLoop | resetChannel => simp only [execute, hpopped]
  | other => cases hraw

theorem Serving.ran (hserving : Serving connects connector detached up connection)
    {functor : ConnectorFunctor ClientFunctor} {queue : FunctorQueue (ConnectorFunctor ClientFunctor)}
    (hqueue : connector.queue.queued = functor :: queue.queued)
    (hran : Ran { connector with queue := queue } functor connector') :
    Serving connects connector' detached up connection := by
  have hstarts (hfunctor : functor ≠ .startInLoop) :
      queue.queued.count .startInLoop = connector.starts := by
    simp [starts, hqueue, hfunctor]
  cases hran with
  | began hstate =>
      have hdisconnected : connector.state = .kDisconnected := hstate
      refine hserving.unconnected (by simp [hdisconnected]) fun hzero => ?_
      have hannounced := (hserving.fresh hzero).2.2
      have hqueued : 0 < connector.starts := List.count_pos_iff.mpr (by simp [hqueue])
      omega
  | gaveUp hstate =>
      have hconnecting : connector.state = .kConnecting := hstate
      exact hserving.unconnected (by simp [hconnecting])
        (hserving.connects_ne_zero (by simp [hconnecting]))
  | idle | other =>
      refine hserving.reconnector rfl (.inl rfl) ?_
      show connector.starting + queue.queued.count .startInLoop + _ = _
      rw [hstarts (by simp)]
  | reset =>
      refine hserving.reconnector rfl (.inr rfl) ?_
      show connector.starting + queue.queued.count .startInLoop + _ = _
      rw [hstarts (by simp)]

theorem Leaving.ran {removal : Bool} (hleaving : Leaving removal connector detached up)
    {functor : ConnectorFunctor ClientFunctor} (hraw : functor.raw = true)
    {queue : FunctorQueue (ConnectorFunctor ClientFunctor)}
    (hqueue : connector.queue.queued = functor :: queue.queued)
    (hran : Ran { connector with queue := queue } functor connector') :
    Leaving removal connector' detached up := by
  -- a functor with the raw pointer was queued, so the timer of one second is pending
  obtain rfl : removal = true := by
    cases removal with
    | true => rfl
    | false =>
        have hfree := unreferenced_iff.mp (hleaving.unreferenced rfl) functor hraw
        simp [hqueue] at hfree
  obtain ⟨hdetached, hthreads, hunwanted, hstopped, -⟩ := hleaving
  have hstill (hfunctor : functor ≠ .stopInLoop) :
      .stopInLoop ∈ queue.queued ∨ connector.state ≠ .kConnecting := by
    rw [hqueue, List.mem_cons] at hstopped
    simpa [hfunctor.symm] using hstopped
  cases hran with
  | began _ hbegun =>
      obtain rfl := hbegun.eq_of_unwanted hunwanted
      exact ⟨hdetached, hthreads, hunwanted, hstill (by simp), by simp⟩
  | gaveUp _ hended =>
      obtain ⟨hsettled, hconnect, hstarting, hstopping, -⟩ := hended.frame
      refine ⟨hdetached, ?_, hconnect.trans hunwanted, .inr hsettled, by simp⟩
      rw [hstarting, hstopping]
      exact hthreads
  | idle hstate => exact ⟨hdetached, hthreads, hunwanted, .inr hstate, by simp⟩
  | reset => exact ⟨hdetached, hthreads, hunwanted, hstill (by simp), by simp⟩
  | other => cases hraw

theorem Kept.handleClose (hs : Kept s) {connection : Nat} (hmem : connection ∈ s.up)
    (errno : ConnectErrno) : Tended (s.handleClose connection errno) := by
  cases hs with
  | alive hlife hsole hserving => exact hserving.handleClose hlife hsole hmem errno
  | orphaned removal hlife hsole hleaving =>
      exact (Kept.orphaned removal hlife hsole hleaving).handleClose_detached
        (hleaving.detached _ hmem) errno
  | released hlife hsole hgone =>
      exact (Kept.released hlife hsole hgone).handleClose_detached (hgone.detached _ hmem) errno

theorem Kept.execute (hs : Kept s) (errno : ConnectErrno) : Tended (s.execute errno) := by
  cases hpopped : s.connector.nextFunctor with
  | none =>
      simp only [TcpClient.execute, hpopped]
      exact tended_disabled
  | some popped =>
      obtain ⟨functor, connector⟩ := popped
      cases hraw : functor.raw with
      | true =>
          rw [execute_raw hpopped hraw]
          obtain ⟨-, queue, rfl, hqueue⟩ := nextFunctor_spec hpopped
          cases hs with
          | alive hlife hsole hserving =>
              obtain ⟨next, hrun, hnext⟩ := hsole.runFunctor hpopped errno
              have hran := hsole.sound.ran hpopped hrun
              rw [if_neg (by simp [hlife]), hrun]
              exact Kept.tended (.alive hlife hnext (hserving.ran hqueue hran))
          | orphaned removal hlife hsole hleaving =>
              obtain ⟨next, hrun, hnext⟩ := hsole.runFunctor hpopped errno
              have hran := hsole.sound.ran hpopped hrun
              rw [if_neg (by simp [hlife]), hrun]
              exact Kept.tended (.orphaned removal hlife hnext (hleaving.ran hraw hqueue hran))
          | released _ _ hgone =>
              have hfree := unreferenced_iff.mp hgone.unreferenced functor hraw
              simp [hqueue] at hfree
      | false =>
          cases functor with
          | other functor =>
              have hkept := hs.popped hpopped
              simp only [TcpClient.execute, hpopped]
              cases functor with
              | forceCloseInLoop connection =>
                  show Tended (if connection ∈ s.up then _ else _)
                  split
                  · rename_i hmem
                    exact hkept.handleClose hmem errno
                  · exact hkept.tended
              | connectDestroyed => exact hkept.tended
          | startInLoop | stopInLoop | resetChannel => cases hraw

/-! ## Calls of the client's own functions -/

/-- `connect()` is called for the first time. -/
theorem Serving.connect (hlife : s.lifetime = .alive) (hsole : Sole s.connector)
    (hserving : Serving s.connects s.connector s.detached s.up s.connection)
    (hfirst : s.connects = 0) (errno : ConnectErrno) :
    Tended ({ s with connect_ := true, connects := s.connects + 1 }.withConnector
      (s.connector.start errno)) := by
  obtain ⟨hstate, hchannel, hnone⟩ := hserving.fresh hfirst
  have hwanted : Sound { s.connector with connect_ := true } :=
    ⟨hsole.sound.held, hsole.sound.active⟩
  obtain ⟨connector, hstart, hstarted⟩ := Sole.startInLoop hwanted hnone hstate hchannel errno
  refine tended_withConnector (.inr ⟨connector, hstart, .alive hlife hstarted ?_⟩)
  exact { hserving with
    fresh := fun hzero => absurd hzero (Nat.succ_ne_zero _)
    established := fun hsome => absurd (hserving.connection_eq_none (by simp [hstate])) hsome }

theorem Serving.beginConnect (hlife : s.lifetime = .alive) (hsole : Sole s.connector)
    (hserving : Serving s.connects s.connector s.detached s.up s.connection)
    (hfirst : s.connects = 0) :
    Tended ({ s with connect_ := true, connects := s.connects + 1 }.withConnector
      (s.connector.step .beginStart)) := by
  obtain ⟨hstate, hchannel, hnone⟩ := hserving.fresh hfirst
  refine tended_withConnector (.inr ⟨_, rfl, .alive hlife
    (.beginStart hsole.sound hstate hchannel hnone) ?_⟩)
  exact { hserving with fresh := fun hzero => absurd hzero (Nat.succ_ne_zero _) }

theorem Kept.endConnect (hs : Kept s) : Tended (s.step .endConnect) := by
  refine tended_withConnector ?_
  by_cases hstarting : s.connector.starting = 0
  · exact .inl ⟨.disabled, by simp [Connector.step, hstarting], .inl rfl⟩
  · refine .inr ⟨_, if_neg hstarting, ?_⟩
    cases hs with
    | alive hlife hsole hserving =>
        refine .alive hlife (hsole.endStart hstarting) (hserving.reconnector rfl (.inl rfl) ?_)
        show s.connector.starting - 1 +
          (s.connector.queue.queueInLoop .startInLoop).queued.count .startInLoop +
            s.connector.timers.length = _
        have hqueued : (s.connector.queue.queueInLoop .startInLoop).queued.count .startInLoop =
            s.connector.starts + 1 := by simp [starts]
        omega
    | orphaned _ _ _ hleaving => exact absurd hleaving.threads.1 hstarting
    | released _ _ hgone => exact absurd hgone.threads.1 hstarting

/-- `stop()` leaves a functor behind, in the loop thread and in any other. -/
theorem Serving.stopping (hlife : s.lifetime = .alive) (hsole : Sole s.connector)
    (hserving : Serving s.connects s.connector s.detached s.up s.connection)
    (wanted connect_ : Bool) (stopping : Nat) :
    Kept { s with
      connect_ := wanted
      connector := { s.connector with
        connect_ := connect_
        stopping := stopping
        queue := s.connector.queue.queueInLoop .stopInLoop } } := by
  refine .alive hlife ((hsole.flagged connect_ stopping).queueInLoop (by simp) (by simp))
    (hserving.reconnector rfl (.inl rfl) ?_)
  show s.connector.starting + (s.connector.queue.queueInLoop .stopInLoop).queued.count .startInLoop +
    _ = _
  simp [starts]

theorem Kept.endStop (hs : Kept s) : Tended (s.step .endStop) := by
  refine tended_withConnector ?_
  by_cases hstopping : s.connector.stopping = 0
  · exact .inl ⟨.disabled, by simp [Connector.step, hstopping], .inl rfl⟩
  · refine .inr ⟨_, if_neg hstopping, ?_⟩
    cases hs with
    | alive hlife hsole hserving => exact hserving.stopping hlife hsole _ _ _
    | orphaned _ _ _ hleaving => exact absurd hleaving.threads.2 hstopping
    | released _ _ hgone => exact absurd hgone.threads.2 hstopping

/-! ## The destructor -/

/-- The last owner lets go of a connector without a channel. -/
theorem tended_releaseConnector (hlife : s.lifetime = .orphaned false)
    (htimers : s.connector.timers = []) (hchannel : s.connector.channel = none)
    (hkept : Kept { s with lifetime := .released }) : Tended s.releaseConnector := by
  have hrelease : s.releaseConnector = .ok { s with lifetime := .released } := by
    simp [releaseConnector, hlife, htimers, hchannel]
  rw [hrelease]
  exact hkept.tended

/-- With a connection, the connector goes with the client; without one it stays until the timer of one
second has fired. -/
theorem Serving.destroy (hsole : Sole s.connector)
    (hserving : Serving s.connects s.connector s.detached s.up s.connection)
    (hthreads : s.connector.starting = 0 ∧ s.connector.stopping = 0)
    (hfree : s.connection = none ∨ s.connector.unreferenced = true) (unique : Bool) :
    Tended (s.destroy unique) := by
  unfold TcpClient.destroy
  split
  · rename_i connection hconnection
    have hfree := hfree.resolve_left (by simp [hconnection])
    have hstate := hserving.established (by simp [hconnection])
    have htimers : s.connector.timers = [] := by
      have hnone := hsole.alone.none_of_ne (by simp [hstate])
      exact List.length_eq_zero_iff.mp (by omega)
    have hchannel := hsole.sound.channel_eq_none (by simp [hstate]) hfree
    have hreleased : Kept { s with detached := connection :: s.detached, lifetime := .released } := by
      refine .released rfl hsole ⟨fun c hmem => ?_, hthreads, hchannel, htimers, hfree⟩
      have hsame : c = connection := by simpa [hconnection, eq_comm] using hserving.attached c hmem
      exact hsame ▸ List.mem_cons_self
    have hdeparts := tended_releaseConnector
      (s := { s with detached := connection :: s.detached, lifetime := .orphaned false }) rfl htimers
      hchannel hreleased
    show Tended (releaseConnector (if unique then _ else _))
    split
    · unfold TcpClient.forceClose
      split
      · exact tended_releaseConnector rfl htimers hchannel (hreleased.queueInLoop _)
      · exact hdeparts
    · exact hdeparts
  · rename_i hconnection
    refine Leaving.releaseConnector (s := { s with
      connector := s.connector.stop, lifetime := .orphaned true }) rfl
      ((hsole.flagged false _).queueInLoop (by simp) (by simp))
      ⟨fun c hmem => ?_, hthreads, rfl, .inl ?_, by simp⟩
    · exact absurd (hserving.attached c hmem) (by simp [hconnection])
    · show .stopInLoop ∈ (s.connector.queue.queueInLoop .stopInLoop).queued
      simp

/-- **The step.** A step of a client that calls `connect()` once and lets go of the connector in order. -/
theorem Kept.step (hs : Kept s) {label : TcpClientLabel} (honce : s.once label = true)
    (horderly : s.orderly label = true) : Tended (s.step label) := by
  -- what only a client that is alive can be asked for
  have hcall {result : Except TcpClientStop TcpClient}
      (halive : s.lifetime = .alive → Sole s.connector →
        Serving s.connects s.connector s.detached s.up s.connection → Tended result) :
      Tended (if s.lifetime = .alive then result else .error .disabled) := by
    split
    · rename_i hlife
      obtain ⟨hsole, hserving⟩ := hs.serving hlife
      exact halive hlife hsole hserving
    · exact tended_disabled
  cases label with
  | connect errno =>
      have hfirst : s.connects = 0 := of_decide_eq_true honce
      exact hcall fun hlife hsole hserving => hserving.connect hlife hsole hfirst errno
  | stop =>
      exact hcall fun hlife hsole hserving =>
        (hserving.stopping hlife hsole false false s.connector.stopping).tended
  | disconnect | enableRetry =>
      exact hcall fun hlife hsole hserving => Kept.tended (.alive hlife hsole hserving)
  | beginConnect =>
      have hfirst : s.connects = 0 := of_decide_eq_true honce
      exact hcall fun hlife hsole hserving => hserving.beginConnect hlife hsole hfirst
  | endConnect => exact hs.endConnect
  | beginStop =>
      refine hcall fun hlife hsole hserving => tended_withConnector (.inr ⟨_, rfl, ?_⟩)
      exact .alive hlife (hsole.flagged false _) (hserving.reconnector rfl (.inl rfl) rfl)
  | endStop => exact hs.endStop
  | forceClose connection => exact (hs.forceClose connection).tended
  | poll ready => exact hs.poll ready
  | handleEvent revents status => exact hs.handleEvent revents status
  | handleClose connection errno =>
      rw [TcpClient.step]
      split
      · rename_i hready
        exact hs.handleClose hready.2.2 errno
      · exact tended_disabled
  | fire index errno => exact hs.fire index errno
  | beginFunctors => exact hs.beginFunctors
  | execute errno => exact hs.execute errno
  | destroy unique =>
      rw [TcpClient.step]
      split
      · rename_i hready
        obtain ⟨hsole, hserving⟩ := hs.serving hready.1
        refine hserving.destroy hsole hready.2 ?_ unique
        simpa [orderly] using horderly
      · exact tended_disabled
  | removeConnector =>
      rw [TcpClient.step]
      split
      · rename_i hready
        obtain ⟨hsole, hleaving⟩ := hs.leaving hready.1
        exact Leaving.releaseConnector (s := { s with lifetime := .orphaned false }) rfl hsole
          { hleaving with unreferenced := fun _ => horderly }
      · exact tended_disabled

/-- **The destructor in the loop thread.** In every run that calls `connect()` once and in which the
connector is let go of only when no queued functor holds its raw pointer, nothing runs on a
destroyed object, `removeConnection` finds its connection, and `~Connector` finds no channel: a
run is stopped only by a label that does not apply or by one of the two assertions at the
beginning of an attempt. -/
theorem destroy_safe {labels : List TcpClientLabel}
    (honce : Meets step (fun s label => s.once label = true) {} labels)
    (horderly : Meets step (fun s label => s.orderly label = true) {} labels) :
    ∀ reason, run step {} labels = .error reason → Harmless reason :=
  (run_safe_of_meets Kept (fun _ _ hs hlabel => hs.step hlabel.1 hlabel.2) kept_initial
    (honce.and horderly)).1

/-- The client is destroyed with a connection that no one else holds, one iteration after it was
established; the connection is closed and destroyed, and so is the connector. -/
def destroyConnected : List TcpClientLabel :=
  [.connect .EINPROGRESS, .poll true, .handleEvent POLLOUT {}, .beginFunctors, .execute .zero,
    .destroy true, .poll false, .beginFunctors, .execute .zero, .poll false, .beginFunctors,
    .execute .zero]

/-- The client is destroyed while the connector is connecting; the timer fires once the channel has
been reset. -/
def destroyConnecting : List TcpClientLabel :=
  [.enableRetry, .connect .EINPROGRESS, .poll true, .destroy false, .handleEvent POLLOUT {},
    .beginFunctors, .execute .zero, .execute .zero, .poll false, .removeConnector]

theorem destroy_safe_connected_connecting :
    (∃ final, run step {} destroyConnected = .ok final ∧ final.lifetime = .released) ∧
      (∃ final, run step {} destroyConnecting = .ok final ∧ final.lifetime = .released) ∧
      ∀ reason, run step {} destroyConnecting = .error reason → Harmless reason := by
  refine ⟨?_, ?_, destroy_safe (by decide +kernel) (by decide +kernel)⟩
  · obtain ⟨final, hrun, hfinal⟩ := exists_of_outcome step {} destroyConnected
      (fun s => s.lifetime = .released) (by decide +kernel)
    exact ⟨final, hrun, of_decide_eq_true hfinal⟩
  · obtain ⟨final, hrun, hfinal⟩ := exists_of_outcome step {} destroyConnecting
      (fun s => s.lifetime = .released) (by decide +kernel)
    exact ⟨final, hrun, of_decide_eq_true hfinal⟩

/-- The client is destroyed in another handler of the iteration that established the connection: the
channel of the attempt is still to be reset. Or it is destroyed after a call of `stop()`, whose
functor then runs on the destroyed connector. -/
theorem destroy_leaves_functor :
    run step {} [.connect .EINPROGRESS, .poll true, .handleEvent POLLOUT {}, .destroy true] =
        .error .connectorChannel ∧
      run step {} [.connect .EINPROGRESS, .poll true, .handleEvent POLLOUT {}, .beginFunctors,
        .execute .zero, .stop, .destroy true, .poll false, .beginFunctors, .execute .zero] =
        .error .connectorDestroyed :=
  ⟨error_of_failsWith _ _ _ _ (by decide +kernel), error_of_failsWith _ _ _ _ (by decide +kernel)⟩

end TcpClient
end Muduo
