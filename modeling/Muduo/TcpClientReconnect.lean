import Muduo.ConnectorSockets
import Muduo.TcpClient

/-! Calling `TcpClient::connect` again. A client drives its connector by the connector's own operations,
and without `enableRetry()` it never calls `restart`. But nothing else takes a connector out of
`kConnected`, so once a connection has been established no further attempt can begin. -/

namespace Muduo

open Execution

namespace Connector

variable {G : Type} [DecidableEq G] {s next : Connector G} {sockfd : Nat}

/-- A connector that has handed over a socket is in `kConnected`; so is one that was so before. -/
structure Lasting (before : Prop) (s : Connector G) : Prop where
  sound : Sound s
  lasting : before ∨ (∃ sockfd connect_, .handed sockfd connect_ ∈ s.log) → s.state = .kConnected

theorem lasting_initial : Lasting False ({} : Connector G) where
  sound := sound_initial
  lasting := by simp

variable {before : Prop}

theorem Lasting.of_sound (hs : Lasting before s) (hsound : Sound next) (hlog : next.log = s.log)
    (hstate : next.state = s.state) : Lasting before next where
  sound := hsound
  lasting := by
    rw [hlog, hstate]
    exact hs.lasting

/-- Outside of `kConnected` no socket has been handed over; this stays so when the log grows by another
event. -/
theorem Lasting.not_handed (hs : Lasting before s) (hstate : s.state ≠ .kConnected) :
    ¬before ∧ ∀ sockfd connect_, .handed sockfd connect_ ∉ s.log :=
  ⟨fun hbefore => hstate (hs.lasting (.inl hbefore)),
    fun sockfd connect_ hmem => hstate (hs.lasting (.inr ⟨sockfd, connect_, hmem⟩))⟩

/-- Every operation but `restart` leaves a connector in `kConnected` where it is. -/
theorem Lasting.step (hs : Lasting before s) {label : ConnectorLabel}
    (hlabel : ∀ errno, label ≠ .restart errno) (hstep : s.step label = .ok next) :
    Lasting before next := by
  obtain ⟨hsound, hmoved⟩ := hs.sound.of_step hstep
  cases hmoved with
  | kept hlog hstate => exact hs.of_sound hsound hlog hstate
  | begun hbegun hlog hstate =>
      have hdisconnected := hstate.resolve_right fun ⟨errno, hrestart⟩ => hlabel errno hrestart
      obtain ⟨hfresh, hnone⟩ := hs.not_handed (by simp [hdisconnected])
      refine ⟨hsound, fun hestablished => ?_⟩
      obtain ⟨sockfd, connect_, hmem⟩ := hestablished.resolve_left hfresh
      exact absurd (hlog ▸ hbegun.handed_mem hmem) (hnone sockfd connect_)
  | ended hended hlog _ hstate =>
      obtain ⟨hfresh, hnone⟩ := hs.not_handed (by simp [hstate])
      refine ⟨hsound, fun hestablished => ?_⟩
      obtain ⟨sockfd, connect_, hmem⟩ := hestablished.resolve_left hfresh
      rcases hended.handed_mem hmem with hold | ⟨-, hconnected⟩
      · exact absurd (hlog ▸ hold) (hnone sockfd connect_)
      · exact hconnected

end Connector

namespace TcpClient

open Connector

variable {s next : TcpClient} {connector : Connector ClientFunctor}

/-! ## A client drives its connector by the connector's own operations -/

/-- What a client may do to its connector; `restart` is for clients with `retry_`. Between the connector's
own steps the functors of connections are queued. -/
inductive Moves (retry : Bool) (origin : Connector ClientFunctor) : Connector ClientFunctor → Prop where
  | refl : Moves retry origin origin
  | step {before after : Connector ClientFunctor} {label : ConnectorLabel}
      (hmoves : Moves retry origin before) (hlabel : ∀ errno, label ≠ .restart errno)
      (hstep : before.step label = .ok after) : Moves retry origin after
  | queueInLoop {before : Connector ClientFunctor} (hmoves : Moves retry origin before)
      (functor : ClientFunctor) :
      Moves retry origin { before with queue := before.queue.queueInLoop (.other functor) }
  | restart {before after : Connector ClientFunctor} {errno : ConnectErrno} (hretry : retry = true)
      (hmoves : Moves retry origin before) (hrestart : before.restart errno = .ok after) :
      Moves retry origin after

theorem Moves.trans {retry : Bool} {origin middle final : Connector ClientFunctor}
    (hfirst : Moves retry origin middle) (hsecond : Moves retry middle final) :
    Moves retry origin final := by
  induction hsecond with
  | refl => exact hfirst
  | step _ hlabel hstep ih => exact .step ih hlabel hstep
  | queueInLoop _ functor ih => exact .queueInLoop ih functor
  | restart hretry _ hrestart ih => exact .restart hretry ih hrestart

/-- The client moves its connector and keeps `retry_`. -/
structure Advances (s next : TcpClient) : Prop where
  connector : Moves s.retry s.connector next.connector
  retry : next.retry = s.retry

theorem Advances.of_step (label : ConnectorLabel) (hlabel : ∀ errno, label ≠ .restart errno)
    (hstep : s.connector.step label = .ok next.connector) (hretry : next.retry = s.retry) :
    Advances s next :=
  ⟨.step .refl hlabel hstep, hretry⟩

theorem withConnector_ok {result : Except ConnectorStop (Connector ClientFunctor)}
    (hresult : s.withConnector result = .ok next) :
    ∃ connector, result = .ok connector ∧ next = { s with connector := connector } := by
  cases result with
  | error reason => cases hresult
  | ok connector =>
      cases hresult
      exact ⟨connector, rfl, rfl⟩

theorem releaseConnector_ok (hrelease : s.releaseConnector = .ok next) :
    next.connector = s.connector ∧ next.retry = s.retry := by
  unfold releaseConnector at hrelease
  split at hrelease
  · split at hrelease
    · cases hrelease
    · cases hrelease
      exact ⟨rfl, rfl⟩
  · cases hrelease
    exact ⟨rfl, rfl⟩

theorem advances_queueInLoop (s : TcpClient) (functor : ClientFunctor) :
    Advances s (s.queueInLoop functor) :=
  ⟨.queueInLoop .refl functor, rfl⟩

theorem advances_forceClose (s : TcpClient) (connection : Nat) :
    Advances s (s.forceClose connection) := by
  unfold forceClose
  split
  · exact advances_queueInLoop s _
  · exact ⟨.refl, rfl⟩

theorem removeConnection_advances {connection : Nat} {errno : ConnectErrno}
    (hremove : s.removeConnection connection errno = .ok next) : Advances s next := by
  simp only [removeConnection] at hremove
  split at hremove
  · cases hremove
  split at hremove
  · cases hremove
  split at hremove
  · rename_i hagain
    obtain ⟨connector, hrestart, rfl⟩ := withConnector_ok hremove
    exact ⟨.restart (Bool.and_eq_true_iff.mp hagain).1 (.queueInLoop .refl _) hrestart, rfl⟩
  · cases hremove
    exact ⟨.queueInLoop .refl _, rfl⟩

theorem handleClose_advances {connection : Nat} {errno : ConnectErrno}
    (hclose : s.handleClose connection errno = .ok next) : Advances s next := by
  simp only [handleClose] at hclose
  split at hclose
  · cases hclose
    exact ⟨.queueInLoop .refl _, rfl⟩
  · have hadvances := removeConnection_advances hclose
    exact ⟨hadvances.connector, hadvances.retry⟩

theorem newConnectionCallback_ok {handed : Option Nat}
    (hcallback : s.newConnectionCallback handed = .ok next) :
    next.connector = s.connector ∧ next.retry = s.retry := by
  cases handed with
  | none =>
      cases hcallback
      exact ⟨rfl, rfl⟩
  | some sockfd =>
      simp only [newConnectionCallback, newConnection] at hcallback
      split at hcallback
      · cases hcallback
        exact ⟨rfl, rfl⟩
      · cases hcallback

theorem execute_advances {errno : ConnectErrno} (hexecute : s.execute errno = .ok next) :
    Advances s next := by
  cases hpopped : s.connector.nextFunctor with
  | none => simp [execute, hpopped] at hexecute
  | some popped =>
      obtain ⟨functor, connector⟩ := popped
      have hraw (hrun : (if s.lifetime = .released then .error .connectorDestroyed
          else { s with connector := connector }.withConnector (connector.runFunctor errno functor)) =
            Except.ok next) : Advances s next := by
        split at hrun
        · cases hrun
        · obtain ⟨after, hafter, rfl⟩ := withConnector_ok hrun
          refine .of_step (.execute errno) (by simp) ?_ rfl
          simp only [Connector.step, hpopped]
          exact hafter
      have hother (hfunctor : ∃ client, functor = .other client) :
          Moves s.retry s.connector connector := by
        obtain ⟨client, rfl⟩ := hfunctor
        have hstep : s.connector.step (.execute errno) = .ok connector := by
          simp only [Connector.step, hpopped]
          rfl
        exact .step .refl (by simp) hstep
      simp only [execute, hpopped] at hexecute
      cases functor with
      | startInLoop | stopInLoop | resetChannel => exact hraw hexecute
      | other functor =>
          have hmoves := hother ⟨functor, rfl⟩
          cases functor with
          | forceCloseInLoop connection =>
              simp only at hexecute
              split at hexecute
              · have hadvances := handleClose_advances hexecute
                exact ⟨hmoves.trans hadvances.connector, hadvances.retry⟩
              · cases hexecute
                exact ⟨hmoves, rfl⟩
          | connectDestroyed =>
              cases hexecute
              exact ⟨hmoves, rfl⟩

theorem destroy_advances {unique : Bool} (hdestroy : s.destroy unique = .ok next) :
    Advances s next := by
  unfold destroy at hdestroy
  split at hdestroy
  · rename_i connection hconnection
    obtain ⟨hconnector, hretry⟩ := releaseConnector_ok hdestroy
    cases unique with
    | true =>
        have hadvances := advances_forceClose
          { s with detached := connection :: s.detached, lifetime := .orphaned false } connection
        exact ⟨hconnector ▸ hadvances.connector, hretry.trans hadvances.retry⟩
    | false => exact ⟨hconnector ▸ .refl, hretry⟩
  · obtain ⟨hconnector, hretry⟩ := releaseConnector_ok hdestroy
    exact .of_step .stop (by simp) (by rw [hconnector]; rfl) hretry

/-- **The layers agree.** Every step of a client is made of steps of its connector. -/
theorem step_advances {label : TcpClientLabel} (hlabel : label ≠ .enableRetry)
    (hstep : s.step label = .ok next) : Advances s next := by
  have hcall {result : Except TcpClientStop TcpClient} (hresult : result = .ok next → Advances s next)
      (hif : (if s.lifetime = .alive then result else .error .disabled) = .ok next) :
      Advances s next := by
    split at hif
    · exact hresult hif
    · cases hif
  cases label with
  | connect errno =>
      refine hcall (fun hresult => ?_) hstep
      obtain ⟨connector, hstart, rfl⟩ := withConnector_ok hresult
      exact .of_step (.start errno) (by simp) hstart rfl
  | stop =>
      refine hcall (fun hresult => ?_) hstep
      cases hresult
      exact .of_step .stop (by simp) rfl rfl
  | disconnect =>
      refine hcall (fun hresult => ?_) hstep
      cases hresult
      exact ⟨.refl, rfl⟩
  | enableRetry => exact absurd rfl hlabel
  | beginConnect | beginStop =>
      refine hcall (fun hresult => ?_) hstep
      obtain ⟨connector, hbegin, rfl⟩ := withConnector_ok hresult
      exact .of_step _ (by simp) hbegin rfl
  | endConnect =>
      obtain ⟨connector, hend, rfl⟩ := withConnector_ok hstep
      exact .of_step _ (by simp) hend rfl
  | endStop =>
      obtain ⟨connector, hend, rfl⟩ := withConnector_ok hstep
      exact .of_step _ (by simp) hend rfl
  | forceClose connection =>
      cases hstep
      exact advances_forceClose s connection
  | poll ready =>
      obtain ⟨connector, hpoll, rfl⟩ := withConnector_ok hstep
      exact .of_step (.poll ready) (by simp) hpoll rfl
  | handleEvent revents status =>
      simp only [step] at hstep
      split at hstep
      · cases hstep
      · rename_i handed connector hevent
        split at hstep
        · cases hstep
        · obtain ⟨hconnector, hretry⟩ := newConnectionCallback_ok hstep
          refine .of_step (.handleEvent revents status 0) (by simp) ?_ hretry
          simp [Connector.step, hevent, hconnector, Except.map]
  | handleClose connection errno =>
      obtain ⟨-, hstep⟩ := guarded_ok.mp hstep
      exact handleClose_advances hstep
  | fire index errno =>
      simp only [step] at hstep
      split at hstep
      · cases hstep
      · rename_i connector hfire
        obtain ⟨hconnector, hretry⟩ := releaseConnector_ok hstep
        refine .of_step (.fire index errno) (by simp) ?_ hretry
        rw [hconnector]
        exact hfire
  | beginFunctors =>
      obtain ⟨connector, hbegin, rfl⟩ := withConnector_ok hstep
      exact .of_step .beginFunctors (by simp) hbegin rfl
  | execute errno => exact execute_advances hstep
  | destroy unique =>
      obtain ⟨-, hstep⟩ := guarded_ok.mp hstep
      exact destroy_advances hstep
  | removeConnector =>
      obtain ⟨-, hstep⟩ := guarded_ok.mp hstep
      obtain ⟨hconnector, hretry⟩ := releaseConnector_ok hstep
      exact ⟨hconnector ▸ .refl, hretry⟩

/-! ## A client without `enableRetry()` -/

variable {before : Prop} {labels : List TcpClientLabel}

theorem Moves.lasting {origin final : Connector ClientFunctor} (hmoves : Moves false origin final)
    (horigin : Lasting before origin) : Lasting before final := by
  induction hmoves with
  | refl => exact horigin
  | step _ hlabel hstep ih => exact ih.step hlabel hstep
  | queueInLoop _ functor ih => exact ih.of_sound (ih.sound.queueInLoop (by simp)) rfl rfl
  | restart hretry => cases hretry

theorem run_lasting (hretry : .enableRetry ∉ labels) {final : TcpClient}
    (hinit : s.retry = false ∧ Lasting before s.connector) (hrun : run step s labels = .ok final) :
    final.retry = false ∧ Lasting before final.connector := by
  have hlabels : ∀ label ∈ labels, label ≠ .enableRetry :=
    fun label hmem heq => hretry (heq ▸ hmem)
  refine run_preserves_of_meets (fun s => s.retry = false ∧ Lasting before s.connector) ?_ hinit
    (meets_of_forall hlabels s) hrun
  intro state label next hstate hlabel hstep
  obtain ⟨hmoves, hkept⟩ := step_advances hlabel hstep
  rw [hstate.1] at hmoves
  exact ⟨hkept.trans hstate.1, hmoves.lasting hstate.2⟩

/-- **A client connects once.** In a run without `enableRetry()` in which a connection has been
established, whatever has become of it, a further `connect()` fails the assertion of `startInLoop`:
at once in the loop thread, and for one that another thread makes or has made, when the functor
runs. -/
theorem reconnect_fails (hretry : .enableRetry ∉ labels) (hrun : run step {} labels = .ok s)
    {sockfd : Nat} {connect_ : Bool} (hestablished : .handed sockfd connect_ ∈ s.connector.log) :
    (s.lifetime = .alive → ∀ errno, s.step (.connect errno) = .error (.connector .notDisconnected)) ∧
      ∀ more later, .enableRetry ∉ more → run step s more = .ok later → later.lifetime ≠ .released →
        ∀ popped, later.connector.nextFunctor = some (.startInLoop, popped) →
          ∀ errno, later.step (.execute errno) = .error (.connector .notDisconnected) := by
  have hfinal : s.retry = false ∧ Lasting False s.connector :=
    run_lasting hretry ⟨rfl, lasting_initial⟩ hrun
  obtain ⟨hoff, hs⟩ := hfinal
  have hstate := hs.lasting (.inr ⟨sockfd, connect_, hestablished⟩)
  refine ⟨fun halive errno => ?_, fun more later hmore hlater hexists popped hpopped errno => ?_⟩
  · simp [step, halive, Connector.start, startInLoop, hstate, withConnector]
  · have hstuck : Lasting True s.connector := ⟨hs.sound, fun _ => hstate⟩
    have hlasts := (run_lasting hmore ⟨hoff, hstuck⟩ hlater).2.lasting (.inl trivial)
    obtain ⟨-, queue, rfl, -⟩ := nextFunctor_spec hpopped
    simp [step, execute, hpopped, hexists, runFunctor, startInLoop, hlasts, withConnector]

/-- A connection is established, closed by the peer and removed. -/
def cycle : List TcpClientLabel :=
  [.connect .EINPROGRESS, .poll true, .handleEvent POLLOUT {}, .beginFunctors, .execute .zero,
    .poll false, .handleClose 0 .zero, .beginFunctors, .execute .zero]

theorem reconnect_fails_cycle : ∃ final, run step {} cycle = .ok final ∧ final.connection = none ∧
    ∀ errno, final.step (.connect errno) = .error (.connector .notDisconnected) := by
  obtain ⟨final, hrun, hfinal⟩ := exists_of_outcome step {} cycle
    (fun s => s.connection = none ∧ s.lifetime = .alive ∧ .handed 0 true ∈ s.connector.log)
    (by decide +kernel)
  obtain ⟨hconnection, hlife, hestablished⟩ := of_decide_eq_true hfinal
  exact ⟨final, hrun, hconnection,
    (reconnect_fails (by decide) hrun hestablished).1 hlife⟩

/-- After one cycle `connect()` fails, in the loop thread and in another. -/
theorem connect_twice :
    run step {} (cycle ++ [.connect .EINPROGRESS]) = .error (.connector .notDisconnected) ∧
      run step {} (cycle ++ [.beginConnect, .endConnect, .poll false, .beginFunctors,
        .execute .EINPROGRESS]) = .error (.connector .notDisconnected) :=
  ⟨error_of_failsWith _ _ _ _ (by decide +kernel), error_of_failsWith _ _ _ _ (by decide +kernel)⟩

end TcpClient
end Muduo
