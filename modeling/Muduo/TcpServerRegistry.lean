import Muduo.TcpServerSteps

/-! A `TcpServer` that is alive: its map has the connections that were accepted and not removed, under
different names, and to each connection things happen in one order. -/

namespace Muduo.TcpServer

open Execution

variable {cfg : ServerConfig} {s : TcpServer}

/-- The server is alive and its connections are at their stages. -/
def Serving (cfg : ServerConfig) (s : TcpServer) : Prop :=
  s.destroyed = false ∧ ∃ stage, Staged cfg s stage

theorem serving_step (hserving : Serving cfg s) {label : Label}
    (hlabel : Few s label ∧ label ≠ .destroy) :
    (∃ stop, s.step cfg label = .error stop ∧ stop = .disabled) ∨
      ∃ next, s.step cfg label = .ok next ∧ Serving cfg next := by
  obtain ⟨halive, stage, hstaged⟩ := hserving
  have hstep := hstaged.step hlabel.2 hlabel.1 (fun _ _ => halive) ?_
  · rcases hstep with hdisabled | ⟨next, stage', hnext, hstaged', hsame⟩
    · exact .inl ⟨.disabled, hdisabled, rfl⟩
    · exact .inr ⟨next, hnext, hsame.trans halive, stage', hstaged'⟩
  · -- nothing is condemned before the server is destroyed
    intro l f rest _ hnext hcondemned
    have hdead := (hstaged.alive halive).1 f.connection (hstaged.connection_lt hnext)
    rw [hcondemned] at hdead
    cases hdead

/-- In its life a connection is established, closed, removed and destroyed. -/
def lifetime : List LifeEvent := [.established, .closed, .removed, .destroyed]

theorem trace_prefix {stage : Stage} (hdead : stage.dead = false) : stage.trace <+: lifetime := by
  revert hdead
  cases stage <;> decide

theorem registered_iff {stage : Stage} (hdead : stage.dead = false) :
    stage.registered = true ↔ LifeEvent.removed ∉ stage.trace := by
  revert hdead
  cases stage <;> decide

/-- **The registry.** While the server is alive and has accepted fewer than 2^31 connections, no assertion
fails; the names of the connections are different; the map has exactly the connections that were accepted
and not removed, under their names and once each; and a connection is established, closed, removed and
destroyed at most once each and in this order. -/
theorem registry_exact (cfg : ServerConfig) (labels : List Label)
    (hcount : labels.count .accept < 2 ^ 31) (halive : Label.destroy ∉ labels) :
    (∀ stop, run (step cfg) {} labels = .error stop → stop = .disabled) ∧
      ∀ s, run (step cfg) {} labels = .ok s →
        (∀ c d, c < s.accepted → d < s.accepted →
          (s.connection c).name = (s.connection d).name → c = d) ∧
        (∀ name c, (name, c) ∈ s.connections ↔
          c < s.accepted ∧ name = (s.connection c).name ∧ .removed ∉ (s.connection c).trace) ∧
        s.connections.Nodup ∧ ∀ c, c < s.accepted → (s.connection c).trace <+: lifetime := by
  have hmeets : Meets (step cfg) (fun s label => Few s label ∧ label ≠ .destroy) {} labels := by
    refine (meets_few ?_).and (meets_of_forall ?_ _)
    · rw [Nat.zero_add]
      exact hcount
    · intro label hlabel hdestroy
      exact halive (hdestroy ▸ hlabel)
  obtain ⟨hharmless, hserving⟩ := run_safe_of_meets (Serving cfg)
    (fun s label hserving hlabel => serving_step hserving hlabel) ⟨rfl, _, staged_new cfg⟩ hmeets
  refine ⟨hharmless, fun s hs => ?_⟩
  obtain ⟨hdestroyed, stage, hstaged⟩ := hserving s hs
  obtain ⟨hdead, hregistry⟩ := hstaged.alive hdestroyed
  refine ⟨fun c d hc hd hname => hstaged.name_inj hc hd hname, fun name c => ?_, hregistry.nodup,
    fun c hc => ?_⟩
  · rw [hregistry.mem_iff]
    refine and_congr_right fun hc => and_congr_right fun _ => ?_
    rw [(hstaged.at_stage c hc).record.trace_eq, registered_iff (hdead c hc)]
  · rw [(hstaged.at_stage c hc).record.trace_eq]
    exact trace_prefix (hdead c hc)

/-- A server with one thread, at `127.0.0.1:80`. -/
def oneThread : ServerConfig where
  name := ascii "http"
  listenAddr := ⟨ascii "127.0.0.1", 80, by decide⟩
  numThreads := 1

/-- Two connections are accepted, and the first is closed and removed. -/
def oneRemoved : List Label := [.accept, .accept, .swap 1, .execute 1, .execute 1, .finish 1,
  .handleClose 0, .closeCallback 0, .swap 0, .execute 0]

theorem registry_exact_removed :
    ∃ s, run (step oneThread) {} oneRemoved = .ok s ∧
      s.connections = [(ascii "http-127.0.0.1:80#2", 1)] ∧
      (s.connection 0).trace <+: lifetime ∧ (s.connection 1).trace <+: lifetime := by
  obtain ⟨s, hrun, hcheck⟩ := exists_of_outcome (step oneThread) {} oneRemoved
    (fun s => s.accepted = 2 ∧ s.connections = [(ascii "http-127.0.0.1:80#2", 1)])
    (by decide +kernel)
  obtain ⟨haccepted, hconnections⟩ := of_decide_eq_true hcheck
  obtain ⟨-, hall⟩ := registry_exact oneThread oneRemoved (by decide) (by decide)
  obtain ⟨-, -, -, htrace⟩ := hall s hrun
  exact ⟨s, hrun, hconnections, htrace 0 (by omega), htrace 1 (by omega)⟩

end Muduo.TcpServer
