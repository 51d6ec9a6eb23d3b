import Muduo.HttpServer
import Muduo.TcpConnectionOutput

/-! `HttpServer` on a `TcpConnection`. The server parses whatever arrives, also when it has decided to
close the connection: `shutdown` only closes the direction of the responses. `send` drops what it is
given unless the connection is `kConnected`. -/

namespace Muduo

open Execution Framing

/-! ## The connection under the server -/

namespace Session

/-- The bytes that the connection has taken over for transmission. -/
def transmitted (s : Session) : Bytes := s.accepted ++ s.outputBuffer.readable

/-- A connection that no socket error and no end of the stream has touched. -/
structure Intact (s : Session) : Prop where
  output : s.OutputInv
  sound : s.faulted = false
  isOpen : s.IsOpen

variable {s next : Session}

theorem Intact.transmitted_eq (hintact : s.Intact) : s.transmitted = s.handed := hintact.output.stream hintact.sound

/-- The connection has taken over more bytes and may have moved to another state. -/
structure Takes (s next : Session) (bytes : Bytes) (state : StateE) : Prop where
  intact : next.Intact
  transmitted : next.transmitted = s.transmitted ++ bytes
  state_eq : next.state = state

theorem Takes.trans {middle : Session} {front back : Bytes} {first second : StateE}
    (hfirst : Takes s middle front first) (hsecond : Takes middle next back second) :
    Takes s next (front ++ back) second where
  intact := hsecond.intact
  transmitted := by rw [hsecond.transmitted, hfirst.transmitted, List.append_assoc]
  state_eq := hsecond.state_eq

/-- What `write(2)` does when the peer is there. -/
abbrev SoundWrite := { write : WriteResult // write ≠ .fails .EPIPE ∧ write ≠ .fails .ECONNRESET }

theorem Intact.send (hintact : s.Intact) (hstate : s.state = .kConnected) (bytes : Bytes)
    (write : SoundWrite) :
    ∃ next, s.send .loop bytes write = .ok next ∧ Takes s next bytes .kConnected := by
  have hup : s.state ≠ .kDisconnected := by rw [hstate]; decide
  have hsend : s.send .loop bytes write =
      { s with sends := s.sends + 1 }.sendInLoop s.sends bytes write := if_pos hstate
  obtain ⟨queue, buffer, channel, accepted, faulted, heq, -⟩ :=
    sendInLoop_spec (s := { s with sends := s.sends + 1 }) hintact.output.mirrored hup s.sends bytes write
  have hnext := hsend.trans heq
  have hfaulted : faulted = false :=
    (sendInLoop_faulted (s := { s with sends := s.sends + 1 }) hintact.output.mirrored
      write.2.1 write.2.2 heq).trans hintact.sound
  have hintact' : Intact _ := ⟨hintact.output.send hnext, hfaulted, hintact.isOpen⟩
  refine ⟨_, hnext, hintact', ?_, hstate⟩
  rw [hintact'.transmitted_eq, hintact.transmitted_eq, handed, List.flatMap_append]
  exact congrArg (s.handed ++ ·) (List.append_nil bytes)

theorem Intact.shutdown (hintact : s.Intact) (hstate : s.state = .kConnected) :
    ∃ next, s.shutdown .loop = .ok next ∧ Takes s next [] .kDisconnecting := by
  have hshutdown : s.shutdown .loop =
      .ok { s.setState .kDisconnecting with shutdownRequested := true }.shutdownInLoop := if_pos hstate
  have houtput := hintact.output.shutdown hshutdown
  rw [shutdownInLoop_eq] at hshutdown houtput
  exact ⟨_, hshutdown, ⟨houtput, hintact.sound, .inr rfl⟩, (List.append_nil s.transmitted).symm, rfl⟩

theorem send_of_disconnecting (hstate : s.state = .kDisconnecting) (bytes : Bytes)
    (write : WriteResult) : s.send .loop bytes write = .ok s := by
  apply if_neg
  rw [hstate]
  decide

theorem shutdown_of_disconnecting (hstate : s.state = .kDisconnecting) : s.shutdown .loop = .ok s := by
  apply if_neg
  rw [hstate]
  decide

theorem Intact.handleWrite (hintact : s.Intact) (write : WriteResult) :
    ∃ next, s.handleWrite write = .ok next ∧ Takes s next [] s.state := by
  rcases handleWrite_spec hintact.output.mirrored write with
    ⟨-, buffer, accepted, heq, hstream, -⟩ | ⟨-, queue, buffer, -, hempty, heq⟩
  · refine ⟨_, heq, ⟨hintact.output.handleWrite heq, hintact.sound, hintact.isOpen⟩, ?_, rfl⟩
    rw [List.append_nil]
    exact hstream
  · refine ⟨_, heq, ⟨hintact.output.handleWrite heq, hintact.sound, hintact.isOpen⟩, ?_, rfl⟩
    rw [List.append_nil, transmitted, hempty, List.append_nil]
    rfl

theorem connectEstablished_intact (setup : Setup) :
    ∃ s, (new setup).connectEstablished = .ok s ∧ s.Intact ∧ s.state = .kConnected ∧ s.transmitted = [] := by
  have heq := connectEstablished_eq (outputInv_new setup).mirrored rfl
  refine ⟨_, heq, ⟨(outputInv_new setup).connectEstablished heq, rfl, .inl rfl⟩, rfl, ?_⟩
  exact Buffer.readable_new _

end Session

/-! ## The exchange -/

/-- A connection of the server with its transport, and a record of what has happened on it. -/
structure HttpExchange where
  /-- The actions are those of the last chunk. -/
  connection : HttpConnection := {}
  session : Session
  /-- The requests passed to the callback, with the state of the connection then. -/
  executed : List (HttpRequest × StateE) := []
  /-- A malformed request has been found. -/
  malformed : Bool := false

namespace HttpExchange

inductive Stop where
  | server (stop : HttpStop)
  | connection (stop : Muduo.Stop)
  deriving DecidableEq, Repr

/-- The connection before it is told what to do about the next chunk. -/
def cleared (c : HttpConnection) : HttpConnection := { c with actions := [] }

/-- An action of the server; the write result is what a direct write gets. -/
def act (write : Session.SoundWrite) (x : HttpExchange) : HttpAction → Except Stop HttpExchange
  | .callback request => .ok { x with executed := x.executed ++ [(request, x.session.state)] }
  | .send bytes =>
      match x.session.send .loop bytes write with
      | .ok session => .ok { x with session := session }
      | .error stop => .error (.connection stop)
  | .shutdown =>
      match x.session.shutdown .loop with
      | .ok session => .ok { x with session := session }
      | .error stop => .error (.connection stop)

/-- The server answers a chunk without having executed a request. -/
def refuses : List HttpAction → Bool
  | .send _ :: _ => true
  | _ => false

inductive Event where
  /-- `handleRead` has read a chunk and calls `onMessage`. -/
  | chunk (bytes : Bytes) (receiveTime : Timestamp) (write : Session.SoundWrite)
  /-- The socket has become writable. -/
  | writable (write : WriteResult)

variable (httpCallback : HttpCallback)

def step (x : HttpExchange) : Event → Except Stop HttpExchange
  | .chunk bytes receiveTime write =>
      match (cleared x.connection).step httpCallback (bytes, receiveTime) with
      | .ok connection =>
          run (act write)
            { x with connection := connection
                     malformed := x.malformed || refuses connection.actions }
            connection.actions
      | .error stop => .error (.server stop)
  | .writable write =>
      match x.session.handleWrite write with
      | .ok session => .ok { x with session := session }
      | .error stop => .error (.connection stop)

/-- The connection has been established. -/
def start (setup : Session.Setup) : Except Stop HttpExchange :=
  match (Session.new setup).connectEstablished with
  | .ok session => .ok { session := session }
  | .error stop => .error (.connection stop)

/-- The response to a malformed request. -/
def refusal : Bytes := ascii "HTTP/1.1 400 Bad Request\r\n\r\n"

/-- One response for each request in order, and one for the malformed request at the end. -/
def answers (x : HttpExchange) : Bytes :=
  x.executed.flatMap (fun e => (httpCallback e.1 (HttpServer.close e.1)).1) ++
    if x.malformed then refusal else []

/-- The connection has taken over the answers, and no request was executed after the server had decided to
close it. -/
def Answered (x : HttpExchange) : Prop :=
  x.session.transmitted = x.answers httpCallback ∧ ∀ e ∈ x.executed, e.2 = .kConnected

/-- What the parser makes of the input with the chunk. -/
def verdict (x : HttpExchange) (bytes : Bytes) : Verdict :=
  (HttpContext.parse x.connection.context.sansTime
    (x.connection.inputBuffer.readable ++ bytes)).verdict

/-- A chunk that completes a request, or the first one that shows it to be malformed, finds the connection
`kConnected`. -/
def Timely (x : HttpExchange) : Event → Prop
  | .chunk bytes _ _ => x.session.state = .kConnected ∨ x.verdict bytes = .hungry ∨
      x.malformed = true ∧ x.verdict bytes = .refused
  | .writable _ => True

instance (x : HttpExchange) : DecidablePred x.Timely
  | .chunk _ _ _ => inferInstanceAs (Decidable (_ ∨ _ ∨ _ ∧ _))
  | .writable _ => inferInstanceAs (Decidable True)

/-! ## What the server does with the connection -/

section Actions

variable {x : HttpExchange} (write : Session.SoundWrite)

theorem act_send (bytes : Bytes) {session : Session}
    (hsend : x.session.send .loop bytes write = .ok session) :
    x.act write (.send bytes) = .ok { x with session := session } := by
  rw [act, hsend]

theorem act_shutdown {session : Session} (hshutdown : x.session.shutdown .loop = .ok session) :
    x.act write .shutdown = .ok { x with session := session } := by
  rw [act, hshutdown]

theorem refuse_connected (hintact : x.session.Intact) (hstate : x.session.state = .kConnected) :
    ∃ session, run (act write) x HttpServer.badRequest = .ok { x with session := session } ∧
      x.session.Takes session refusal .kDisconnecting := by
  obtain ⟨sent, hsend, htakes⟩ := hintact.send hstate refusal write
  obtain ⟨session, hshutdown, hlast⟩ := htakes.intact.shutdown htakes.state_eq
  refine ⟨session, ?_, ?_⟩
  · refine run_cons_ok.mpr ⟨_, act_send write refusal hsend, run_singleton_ok.mpr ?_⟩
    exact act_shutdown (x := { x with session := sent }) write hshutdown
  · have hboth := htakes.trans hlast
    rwa [List.append_nil] at hboth

theorem refuse_disconnecting (hstate : x.session.state = .kDisconnecting) :
    run (act write) x HttpServer.badRequest = .ok x := by
  have hsend := Session.send_of_disconnecting hstate refusal write
  have hshutdown := Session.shutdown_of_disconnecting hstate
  refine run_cons_ok.mpr ⟨x, act_send write refusal hsend, run_singleton_ok.mpr ?_⟩
  exact act_shutdown write hshutdown

/-- The state of the connection behind a response. -/
def stateAfter (close : Bool) : StateE := if close then .kDisconnecting else .kConnected

theorem serve_connected (hintact : x.session.Intact) (hstate : x.session.state = .kConnected)
    (request : HttpRequest) :
    ∃ session, run (act write) x (HttpServer.onRequest httpCallback request) =
        .ok { x with session := session, executed := x.executed ++ [(request, .kConnected)] } ∧
      x.session.Takes session (httpCallback request (HttpServer.close request)).1
        (stateAfter (httpCallback request (HttpServer.close request)).2) := by
  rw [HttpServer.onRequest]
  obtain ⟨bytes, close⟩ := httpCallback request (HttpServer.close request)
  obtain ⟨sent, hsend, htakes⟩ := hintact.send hstate bytes write
  have hcallback : x.act write (.callback request) =
      .ok { x with executed := x.executed ++ [(request, .kConnected)] } := by
    rw [act, hstate]
  have hsent := act_send (x := { x with executed := x.executed ++ [(request, .kConnected)] })
    write bytes hsend
  cases close with
  | false =>
      refine ⟨sent, ?_, htakes⟩
      exact run_cons_ok.mpr ⟨_, hcallback, run_cons_ok.mpr ⟨_, hsent, rfl⟩⟩
  | true =>
      obtain ⟨session, hshutdown, hlast⟩ := htakes.intact.shutdown htakes.state_eq
      have hboth := htakes.trans hlast
      rw [List.append_nil] at hboth
      refine ⟨session, ?_, hboth⟩
      refine run_cons_ok.mpr ⟨_, hcallback, run_cons_ok.mpr ⟨_, hsent, run_singleton_ok.mpr ?_⟩⟩
      exact act_shutdown (x := { x with session := sent, executed := _ }) write hshutdown

/-- The request is executed all the same, and its response is dropped. -/
theorem serve_disconnecting (hstate : x.session.state = .kDisconnecting) (request : HttpRequest) :
    run (act write) x (HttpServer.onRequest httpCallback request) =
      .ok { x with executed := x.executed ++ [(request, .kDisconnecting)] } := by
  rw [HttpServer.onRequest]
  obtain ⟨bytes, close⟩ := httpCallback request (HttpServer.close request)
  have hcallback : x.act write (.callback request) =
      .ok { x with executed := x.executed ++ [(request, .kDisconnecting)] } := by
    rw [act, hstate]
  have hsent := act_send (x := { x with executed := x.executed ++ [(request, .kDisconnecting)] })
    write bytes (Session.send_of_disconnecting hstate bytes write)
  cases close with
  | false => exact run_cons_ok.mpr ⟨_, hcallback, run_cons_ok.mpr ⟨_, hsent, rfl⟩⟩
  | true =>
      refine run_cons_ok.mpr ⟨_, hcallback, run_cons_ok.mpr ⟨_, hsent, run_singleton_ok.mpr ?_⟩⟩
      exact act_shutdown (x := { x with executed := _ }) write
        (Session.shutdown_of_disconnecting hstate)

end Actions

/-! ## Whole exchanges -/

/-- The server can go on or stands before the line it refused, and it has closed the connection behind
that. -/
structure Inv (x : HttpExchange) : Prop where
  standing : x.connection.Standing
  intact : x.session.Intact
  closing : x.malformed = true → x.session.state = .kDisconnecting
  halfRead : HttpConnection.HalfRead x.connection.context → x.malformed = true

variable {x : HttpExchange}

theorem Inv.state_cases (hinv : x.Inv) :
    x.session.state = .kConnected ∨ x.session.state = .kDisconnecting := hinv.intact.isOpen

theorem Inv.malformed_eq_false (hinv : x.Inv) (hstate : x.session.state = .kConnected) :
    x.malformed = false := by
  cases hmalformed : x.malformed with
  | false => rfl
  | true =>
      have hclosing := hinv.closing hmalformed
      rw [hstate] at hclosing
      cases hclosing

/-- A line that was refused behind its method is refused again. -/
theorem verdict_halfRead (hhalf : HttpConnection.HalfRead x.connection.context) {line later : Bytes}
    (hcontent : x.connection.inputBuffer.readable = line ++ Buffer.kCR :: Buffer.kLF :: later)
    (hplain : ¬ CRLF <:+: line) (hspace : HttpRequest.space ∈ line) (bytes : Bytes) :
    x.verdict bytes = .refused := by
  have hlook : HttpContext.lines.look (x.connection.inputBuffer.readable ++ bytes) =
      .frame line (line.length + 2) := by
    rw [hcontent, List.append_assoc]
    exact Lines.look_line (by decide) hplain (later ++ bytes)
  have hmethod : x.connection.context.sansTime.request.method ≠ .kInvalid := hhalf.2
  have hmove : HttpContext.move .invalid x.connection.context.sansTime line =
      .refuse x.connection.context.sansTime := by
    rw [HttpContext.move, show x.connection.context.sansTime.state = _ from hhalf.1]
    simp only [HttpRequest.processRequestLine_assertion hmethod hspace]
  rw [verdict, HttpContext.parse, drive_frame hlook, hmove]

/-- The answers with one more request executed. -/
theorem answers_executed (session : Session) (request : HttpRequest) (state : StateE)
    (hmalformed : x.malformed = false) :
    answers httpCallback { x with session := session, executed := x.executed ++ [(request, state)] } =
      x.answers httpCallback ++ (httpCallback request (HttpServer.close request)).1 := by
  simp [answers, hmalformed]

/-- The answers with the one for the malformed request. -/
theorem answers_malformed (connection : HttpConnection) (session : Session)
    (hmalformed : x.malformed = false) :
    answers httpCallback { x with connection := connection, session := session, malformed := true } =
      x.answers httpCallback ++ refusal := by
  simp [answers, hmalformed]

/-- What a chunk leads to, by what the server does on account of it. -/
def Settles (x : HttpExchange) (write : Session.SoundWrite) (actions : List HttpAction)
    (timely : Prop) : Prop :=
  ∃ next, run (act write) x actions = .ok next ∧ next.Inv ∧ (next.Answered httpCallback ↔ timely)

theorem settles_request (hinv : x.Inv) (hanswered : x.Answered httpCallback)
    (write : Session.SoundWrite) (request : HttpRequest) :
    x.Settles httpCallback write (HttpServer.onRequest httpCallback request)
      (x.session.state = .kConnected) := by
  rcases hinv.state_cases with hstate | hstate
  · obtain ⟨session, hrun, htakes⟩ := serve_connected httpCallback write hinv.intact hstate request
    have hmalformed := hinv.malformed_eq_false hstate
    refine ⟨_, hrun, { hinv with intact := htakes.intact, closing := ?_ }, iff_of_true ⟨?_, ?_⟩ hstate⟩
    · intro htrue
      rw [hmalformed] at htrue
      cases htrue
    · rw [answers_executed httpCallback session request StateE.kConnected hmalformed, ← hanswered.1]
      exact htakes.transmitted
    · intro e he
      rcases List.mem_append.mp he with hold | hnew
      · exact hanswered.2 e hold
      · rw [List.mem_singleton.mp hnew]
  · refine ⟨_, serve_disconnecting httpCallback write hstate request, { hinv with }, iff_of_false ?_ ?_⟩
    · intro hlate
      have hnever := hlate.2 (request, StateE.kDisconnecting)
        (List.mem_append_right _ (List.mem_singleton.mpr rfl))
      cases hnever
    · rw [hstate]
      decide

theorem settles_refusal (hinv : x.Inv) (hanswered : x.Answered httpCallback)
    {connection : HttpConnection} (hstanding : connection.Standing) (write : Session.SoundWrite) :
    { x with connection := connection, malformed := true }.Settles httpCallback write
      HttpServer.badRequest (x.session.state = StateE.kConnected ∨ x.malformed = true) := by
  rcases hinv.state_cases with hstate | hstate
  · obtain ⟨session, hrun, htakes⟩ := refuse_connected
      (x := { x with connection := connection, malformed := true }) write hinv.intact hstate
    have hmalformed := hinv.malformed_eq_false hstate
    refine ⟨_, hrun, ⟨hstanding, htakes.intact, fun _ => htakes.state_eq, fun _ => rfl⟩,
      iff_of_true ⟨?_, hanswered.2⟩ (.inl hstate)⟩
    rw [answers_malformed httpCallback connection session hmalformed, ← hanswered.1]
    exact htakes.transmitted
  · refine ⟨_, refuse_disconnecting (x := { x with connection := connection, malformed := true })
      write hstate, ⟨hstanding, hinv.intact, fun _ => hstate, fun _ => rfl⟩, ?_⟩
    cases hmalformed : x.malformed with
    | true =>
        have hsame := hanswered.1
        rw [answers, hmalformed] at hsame
        exact iff_of_true ⟨hsame, hanswered.2⟩ (.inr rfl)
    | false =>
        refine iff_of_false (fun hlate => ?_) (by rw [hstate]; decide)
        -- the response was dropped
        have hlong := hlate.1
        rw [answers_malformed httpCallback connection x.session hmalformed] at hlong
        have hlength := congrArg List.length (hanswered.1.symm.trans hlong)
        rw [List.length_append] at hlength
        have hpositive : 0 < refusal.length := by decide
        omega

/-- A chunk is stopped at the assertion of the parser, or leads to answers just when it is timely. -/
theorem answered_chunk (hinv : x.Inv) (hanswered : x.Answered httpCallback) (bytes : Bytes)
    (receiveTime : Timestamp) (write : Session.SoundWrite) :
    (∃ stop, x.step httpCallback (.chunk bytes receiveTime write) = .error stop ∧
        x.Timely (.chunk bytes receiveTime write)) ∨
      ∃ next, x.step httpCallback (.chunk bytes receiveTime write) = .ok next ∧ next.Inv ∧
        (next.Answered httpCallback ↔ x.Timely (.chunk bytes receiveTime write)) := by
  have hstanding : (cleared x.connection).Standing := hinv.standing
  rcases id hstanding with hready | ⟨hhalf, line, later, hcontent, hplain, hspace⟩
  · right
    obtain ⟨connection, hstep, hnext⟩ := HttpConnection.step_actions httpCallback hready bytes receiveTime
    have hstands := (HttpConnection.standing_step httpCallback hstanding (bytes, receiveTime)).2.2
      connection hstep
    have hverdict : x.verdict bytes = (HttpContext.parse (cleared x.connection).context.sansTime
      ((cleared x.connection).inputBuffer.readable ++ bytes)).verdict := rfl
    rw [step, hstep]
    simp only [Timely]
    split at hnext
    · rename_i state rest hparse
      obtain ⟨hready, -, -, hactions⟩ := hnext
      rw [hparse] at hverdict
      have hactions : connection.actions = [] := hactions
      rw [hactions]
      refine ⟨{ x with connection := connection }, ?_, ?_, iff_of_true hanswered (.inr (.inl hverdict))⟩
      · rw [refuses, Bool.or_false]
        · rfl
        · intro _ _ hnever
          cases hnever
      · exact { hinv with
          standing := hstands
          halfRead := fun hhalf => absurd hhalf (HttpConnection.not_halfRead_of_ready hready) }
    · rename_i state rest hparse
      obtain ⟨hcontext, -, request, -, hactions⟩ := hnext
      rw [hparse] at hverdict
      have hactions : connection.actions = HttpServer.onRequest httpCallback request := hactions
      have hkept : refuses (HttpServer.onRequest httpCallback request) = false := rfl
      have hinv' : Inv { x with connection := connection } :=
        { hinv with
          standing := hstands
          halfRead := fun hhalf => by
            rw [hcontext] at hhalf
            exact absurd hhalf (HttpConnection.not_halfRead_of_ready HttpContext.ready_new) }
      rw [hactions, hkept, Bool.or_false, hverdict]
      obtain ⟨next, hrun, hnext, hiff⟩ := settles_request httpCallback hinv' hanswered write request
      refine ⟨next, hrun, hnext, hiff.trans ?_⟩
      simp
    · rename_i state rest hparse
      obtain ⟨-, -, hactions⟩ := hnext
      rw [hparse] at hverdict
      have hactions : connection.actions = HttpServer.badRequest := hactions
      have hfound : refuses HttpServer.badRequest = true := rfl
      rw [hactions, hfound, Bool.or_true, hverdict]
      obtain ⟨next, hrun, hnext, hiff⟩ := settles_refusal httpCallback hinv hanswered hstands write
      refine ⟨next, hrun, hnext, hiff.trans ?_⟩
      simp
  · left
    refine ⟨.server .method, ?_, .inr (.inr ⟨hinv.halfRead hhalf, ?_⟩)⟩
    · rw [step, HttpConnection.step_halfRead httpCallback hhalf hcontent hplain hspace]
    · exact verdict_halfRead hhalf hcontent hplain hspace bytes

theorem answered_writable (hinv : x.Inv) (hanswered : x.Answered httpCallback) (write : WriteResult) :
    ∃ next, x.step httpCallback (.writable write) = .ok next ∧ next.Inv ∧ next.Answered httpCallback := by
  obtain ⟨session, hwrite, htakes⟩ := hinv.intact.handleWrite write
  refine ⟨{ x with session := session }, by rw [step, hwrite], ?_, ?_, hanswered.2⟩
  · refine { hinv with intact := htakes.intact, closing := fun hmalformed => ?_ }
    rw [htakes.state_eq]
    exact hinv.closing hmalformed
  · rw [htakes.transmitted, List.append_nil]
    exact hanswered.1

/-- **Execution and answering.** Through all the chunks and writes the connection has taken over one
response for each request that was executed, in order, and the one for a malformed request behind them, and
no request was executed after the decision to close, just when every chunk that completes a request or
first shows one to be malformed finds the connection `kConnected`. -/
theorem answered_throughout_iff (httpCallback : HttpCallback) (setup : Session.Setup)
    (events : List Event) :
    ∃ x, start setup = .ok x ∧
      (Throughout (step httpCallback) (Answered httpCallback) x events ↔
        Meets (step httpCallback) Timely x events) := by
  obtain ⟨session, hestablished, hintact, hstate, htransmitted⟩ := Session.connectEstablished_intact setup
  refine ⟨{ session := session }, by rw [start, hestablished], ?_⟩
  have hinv : Inv { session := session } := by
    refine ⟨.inl HttpContext.ready_new, hintact, fun hmalformed => ?_, fun hhalf => ?_⟩
    · cases hmalformed
    · exact absurd hhalf (HttpConnection.not_halfRead_of_ready HttpContext.ready_new)
  have hanswered : Answered httpCallback { session := session } :=
    ⟨htransmitted, fun e he => absurd he List.not_mem_nil⟩
  have hlegal : Meets (step httpCallback) (fun _ _ => True) { session := session } events :=
    meets_of_forall (fun _ _ => trivial) _
  refine throughout_iff_meets_of_stops Inv ?_ hinv hanswered hlegal
  intro x event hinv hanswered _
  cases event with
  | chunk bytes receiveTime write =>
      exact answered_chunk httpCallback hinv hanswered bytes receiveTime write
  | writable write =>
      obtain ⟨next, hstep, hnext, hnextAnswered⟩ := answered_writable httpCallback hinv hanswered write
      exact .inr ⟨next, hstep, hnext, iff_of_true hnextAnswered trivial⟩

/-- The first request asks for the connection to be closed. -/
def closesFirst : List Event :=
  [.chunk (ascii "GET / HTTP/1.1\r\nConnection: close\r\n\r\n") .invalid ⟨.accepts 6, by decide⟩,
    .chunk (ascii "DELETE /all HTTP/1.1\r\n\r\n") .invalid ⟨.accepts 6, by decide⟩]

/-- It is answered. The second one is executed as well, and its response is dropped. -/
theorem late_request_unanswered :
    ∃ x final, start {} = .ok x ∧
      run (step fun _ close => (ascii "answer", close)) x closesFirst = .ok final ∧
      final.executed.map (fun e => (e.1.method, e.2)) =
        [(.kGet, .kConnected), (.kDelete, .kDisconnecting)] ∧
      final.session.transmitted = ascii "answer" ∧
      ¬ final.Answered fun _ close => (ascii "answer", close) := by
  have houtcome : (match start {} with
      | .ok x => outcome (step fun _ close => (ascii "answer", close)) x closesFirst fun final =>
          final.executed.map (fun e => (e.1.method, e.2)) =
            [(.kGet, .kConnected), (.kDelete, .kDisconnecting)] && final.session.transmitted = ascii "answer"
      | .error _ => false) = true := by decide +kernel
  cases hstart : start {} with
  | error stop =>
      rw [hstart] at houtcome
      cases houtcome
  | ok x =>
      rw [hstart] at houtcome
      obtain ⟨final, hrun, hfinal⟩ := exists_of_outcome _ _ _ _ houtcome
      simp only [Bool.and_eq_true, decide_eq_true_eq] at hfinal
      refine ⟨x, final, rfl, hrun, hfinal.1, hfinal.2, fun hanswered => ?_⟩
      have hlate : (HttpRequest.Method.kDelete, StateE.kDisconnecting) ∈
          final.executed.map fun e => (e.1.method, e.2) := by
        rw [hfinal.1]
        exact List.mem_cons_of_mem _ List.mem_cons_self
      obtain ⟨e, he, heq⟩ := List.mem_map.mp hlate
      have hconnected := hanswered.2 e he
      rw [congrArg Prod.snd heq] at hconnected
      cases hconnected

end HttpExchange
end Muduo
