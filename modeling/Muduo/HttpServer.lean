import Muduo.Execution
import Muduo.HttpGrammar

/-! `muduo::net::HttpServer` on one connection. `onMessage` calls the parser once and serves at most one
request; what is behind the request stays in the buffer until the next chunk arrives. -/

namespace Muduo

open Execution Framing

/-- What the server does with the connection. -/
inductive HttpAction where
  | callback (request : HttpRequest)
  | send (bytes : Bytes)
  | shutdown

def HttpAction.request? : HttpAction → Option HttpRequest
  | .callback request => some request
  | _ => none

/-- `httpCallback_` and `HttpResponse::appendToBuffer`: the bytes of the response to a request and whether
the response closes the connection, which is proposed to the callback. -/
abbrev HttpCallback := HttpRequest → Bool → Bytes × Bool

namespace HttpServer

/-- Whether the client wants the connection to be closed behind the response. -/
def close (req : HttpRequest) : Bool :=
  req.getHeader (ascii "Connection") = ascii "close" ||
    (req.version = .kHttp10 && req.getHeader (ascii "Connection") ≠ ascii "Keep-Alive")

def onRequest (httpCallback : HttpCallback) (req : HttpRequest) : List HttpAction :=
  let response := httpCallback req (close req)
  [.callback req, .send response.1] ++ if response.2 then [.shutdown] else []

theorem filterMap_onRequest (httpCallback : HttpCallback) (req : HttpRequest) :
    (onRequest httpCallback req).filterMap HttpAction.request? = [req] := by
  simp only [onRequest]
  split <;> rfl

def badRequest : List HttpAction := [.send (ascii "HTTP/1.1 400 Bad Request\r\n\r\n"), .shutdown]

def onMessage (httpCallback : HttpCallback) (context : HttpContext) (buf : Buffer)
    (receiveTime : Timestamp) : Except HttpStop (List HttpAction × HttpContext × Buffer) :=
  match context.parseRequest buf receiveTime with
  | .ok (ok, context, buf) =>
      if context.gotAll then
        .ok ((if ok then [] else badRequest) ++ onRequest httpCallback context.request,
          context.reset, buf)
      else .ok (if ok then [] else badRequest, context, buf)
  | .error stop => .error stop

end HttpServer

/-- A connection of the server: its context, its input buffer, and what was done so far. -/
structure HttpConnection where
  context : HttpContext := {}
  inputBuffer : Buffer := Buffer.new Buffer.kInitialSize
  actions : List HttpAction := []

namespace HttpConnection

open HttpContext

/-- A chunk arrives. -/
def step (httpCallback : HttpCallback) (c : HttpConnection) (label : Bytes × Timestamp) :
    Except HttpStop HttpConnection :=
  match c.inputBuffer.append label.1 with
  | some full =>
      match HttpServer.onMessage httpCallback c.context full label.2 with
      | .ok (actions, context, rest) => .ok ⟨context, rest, c.actions ++ actions⟩
      | .error stop => .error stop
  | none => .error .buffer

/-- The requests passed to the callback. -/
def served (c : HttpConnection) : List HttpRequest :=
  c.actions.filterMap HttpAction.request?

variable (httpCallback : HttpCallback) {c : HttpConnection}

/-- A step where the parser can be called, by what the machine makes of the content: what is done. -/
theorem step_actions (hready : Ready c.context) (chunk : Bytes) (receiveTime : Timestamp) :
    ∃ next, step httpCallback c (chunk, receiveTime) = .ok next ∧
      match parse c.context.sansTime (c.inputBuffer.readable ++ chunk) with
      | ⟨state, rest, .hungry⟩ =>
          Ready next.context ∧ next.context.sansTime = state ∧ next.inputBuffer.readable = rest ∧
            next.actions = c.actions
      | ⟨state, rest, .halted⟩ =>
          next.context = {} ∧ next.inputBuffer.readable = rest ∧
            ∃ request : HttpRequest, request.sansTime = state.request ∧
              next.actions = c.actions ++ HttpServer.onRequest httpCallback request
      | ⟨state, rest, .refused⟩ =>
          next.context.sansTime = state ∧ next.inputBuffer.readable = rest ∧
            next.actions = c.actions ++ HttpServer.badRequest := by
  obtain ⟨full, hfull, hreadable⟩ := c.inputBuffer.append_readable chunk
  obtain ⟨context, rest, hparse, hstate, hrest, hgot, hnext⟩ :=
    parseRequest_eq hready full receiveTime
  rw [hreadable] at hparse hstate hrest hgot hnext
  simp only [step, hfull, HttpServer.onMessage, hparse]
  generalize parse c.context.sansTime (c.inputBuffer.readable ++ chunk) = p at *
  obtain ⟨state, left, verdict⟩ := p
  cases verdict with
  | hungry =>
      have hgot : context.gotAll = false := hgot
      simp only [hgot]
      exact ⟨_, rfl, hnext rfl, hstate, hrest, List.append_nil _⟩
  | halted =>
      have hgot : context.gotAll = true := hgot
      simp only [hgot]
      have hrequest : context.request.sansTime = state.request := congrArg request hstate
      exact ⟨_, rfl, rfl, hrest, context.request, hrequest, rfl⟩
  | refused =>
      have hgot : context.gotAll = false := hgot
      simp only [hgot]
      exact ⟨_, rfl, hstate, hrest, rfl⟩

/-- The same: what is served. -/
theorem step_ready (hready : Ready c.context) (chunk : Bytes) (receiveTime : Timestamp) :
    ∃ next, step httpCallback c (chunk, receiveTime) = .ok next ∧
      match parse c.context.sansTime (c.inputBuffer.readable ++ chunk) with
      | ⟨state, rest, .hungry⟩ =>
          Ready next.context ∧ next.context.sansTime = state ∧ next.inputBuffer.readable = rest ∧
            next.served = c.served
      | ⟨state, rest, .halted⟩ =>
          next.context = {} ∧ next.inputBuffer.readable = rest ∧
            next.served.map HttpRequest.sansTime =
              c.served.map HttpRequest.sansTime ++ [state.request]
      | ⟨state, rest, .refused⟩ =>
          next.context.sansTime = state ∧ next.inputBuffer.readable = rest ∧
            next.served = c.served := by
  obtain ⟨next, hstep, hnext⟩ := step_actions httpCallback hready chunk receiveTime
  refine ⟨next, hstep, ?_⟩
  generalize parse c.context.sansTime (c.inputBuffer.readable ++ chunk) = p at *
  obtain ⟨state, left, verdict⟩ := p
  cases verdict with
  | hungry =>
      obtain ⟨hready, hstate, hrest, hactions⟩ := hnext
      exact ⟨hready, hstate, hrest, by rw [served, hactions, served]⟩
  | halted =>
      obtain ⟨hcontext, hrest, request, hrequest, hactions⟩ := hnext
      refine ⟨hcontext, hrest, ?_⟩
      rw [served, hactions, List.filterMap_append, HttpServer.filterMap_onRequest, List.map_append,
        ← hrequest]
      rfl
  | refused =>
      obtain ⟨hstate, hrest, hactions⟩ := hnext
      refine ⟨hstate, hrest, ?_⟩
      rw [served, hactions, List.filterMap_append]
      exact List.append_nil _

/-! ## Assertions -/

/-- A request line was refused behind its method, and the method was kept. -/
def HalfRead (context : HttpContext) : Prop :=
  context.state = .kExpectRequestLine ∧ context.request.method ≠ .kInvalid

instance (context : HttpContext) : Decidable (HalfRead context) := instDecidableAnd

/-- The parser can be called, or the line it refused is still at the front. -/
def Standing (c : HttpConnection) : Prop :=
  Ready c.context ∨
    HalfRead c.context ∧ ∃ line later,
      c.inputBuffer.readable = line ++ Buffer.kCR :: Buffer.kLF :: later ∧ ¬ CRLF <:+: line ∧
        HttpRequest.space ∈ line

theorem not_halfRead_of_ready {context : HttpContext} (hready : Ready context) :
    ¬ HalfRead context := by
  rintro ⟨hstate, hmethod⟩
  rcases hready with ⟨-, hinvalid⟩ | hheaders
  · exact hmethod hinvalid
  · rw [hstate] at hheaders
    cases hheaders

/-- Header lines are never refused. -/
theorem parse_headers_not_refused (request : HttpRequest) (stream : Bytes) :
    (parse ⟨.kExpectHeaders, request⟩ stream).verdict ≠ .refused := by
  generalize hcontext : HttpContext.mk .kExpectHeaders request = context
  rw [parse]
  induction context, stream using drive_induction lines (move .invalid)
    generalizing request with
  | hmore context stream hlook =>
      rw [drive_more hlook]
      intro hrefused
      cases hrefused
  | hframe context stream line length hlook ih =>
      subst hcontext
      rw [drive_frame hlook]
      cases hcut : Lines.cut HttpRequest.colon line with
      | none =>
          simp only [move, hcut]
          intro hrefused
          cases hrefused
      | some parts =>
          have hmove : move .invalid ⟨.kExpectHeaders, request⟩ line =
              .go ⟨.kExpectHeaders, request.addHeader parts.1 parts.2⟩ := by
            simp only [move, hcut]
          rw [hmove]
          exact ih _ hmove _ rfl

/-- What is refused is the request line at the front. The method is kept only if it was cut off. -/
theorem parse_refused {context : HttpContext} (hready : Ready context) (stream : Bytes)
    (hrefused : (parse context stream).verdict = .refused) :
    (parse context stream).rest = stream ∧
      (parse context stream).state.state = .kExpectRequestLine ∧
      ∃ line later, stream = line ++ Buffer.kCR :: Buffer.kLF :: later ∧ ¬ CRLF <:+: line ∧
        ((parse context stream).state.request.method ≠ .kInvalid → HttpRequest.space ∈ line) := by
  rcases look_cases lines stream with hlook | ⟨line, length, hlook⟩
  · rw [parse, drive_more hlook] at hrefused
    cases hrefused
  · obtain ⟨later, rfl, rfl, hplain⟩ := Lines.look_eq_frame hlook
    obtain ⟨state, request⟩ := context
    rcases hready with ⟨rfl, hmethod⟩ | rfl
    · obtain ⟨ok, request', hline⟩ := HttpRequest.processRequestLine_ok hmethod line
      rw [parse, drive_frame hlook] at hrefused ⊢
      cases ok with
      | true =>
          simp only [move, hline] at hrefused
          exact absurd hrefused (parse_headers_not_refused _ _)
      | false =>
          simp only [move, hline]
          refine ⟨trivial, trivial, line, later, rfl, hplain, fun hkept => ?_⟩
          by_contra hspace
          rw [HttpRequest.processRequestLine, Lines.cut_eq_none.mpr hspace] at hline
          cases hline
          exact hkept hmethod
    · exact absurd hrefused (parse_headers_not_refused request _)

/-- A chunk that arrives while the method is kept fails the assertion of `setMethod`. -/
theorem step_halfRead (hhalf : HalfRead c.context) {line later : Bytes}
    (hcontent : c.inputBuffer.readable = line ++ Buffer.kCR :: Buffer.kLF :: later)
    (hplain : ¬ CRLF <:+: line) (hspace : HttpRequest.space ∈ line) (label : Bytes × Timestamp) :
    step httpCallback c label = .error .method := by
  obtain ⟨full, hfull, hreadable⟩ := c.inputBuffer.append_readable label.1
  rw [hcontent, List.append_assoc, List.cons_append, List.cons_append] at hreadable
  obtain ⟨hfind, htake⟩ := findCRLF_eq hreadable hplain
  simp only [step, hfull, HttpServer.onMessage, parseRequest, parseLoop, hhalf.1, hfind, htake,
    HttpRequest.processRequestLine_assertion hhalf.2 hspace]

theorem standing_step (hstanding : Standing c) (label : Bytes × Timestamp) :
    (∀ stop, step httpCallback c label = .error stop → stop = .method) ∧
      ((∀ stop, step httpCallback c label ≠ .error stop) ↔ ¬ HalfRead c.context) ∧
      ∀ next, step httpCallback c label = .ok next → Standing next := by
  rcases hstanding with hready | ⟨hhalf, line, later, hcontent, hplain, hspace⟩
  · obtain ⟨next, hstep, hnext⟩ := step_ready httpCallback hready label.1 label.2
    rw [hstep]
    refine ⟨nofun, iff_of_true nofun (not_halfRead_of_ready hready), fun other hother => ?_⟩
    obtain rfl := Except.ok.inj hother
    have hsans : Ready c.context.sansTime := hready
    have hrefused := parse_refused hsans (c.inputBuffer.readable ++ label.1)
    split at hnext
    · exact .inl hnext.1
    · rw [Standing, hnext.1]
      exact .inl ready_new
    · rename_i state rest hparse
      rw [hparse] at hrefused
      obtain ⟨hrest, hstate, line, later, hcontent, hplain, hspace⟩ := hrefused rfl
      obtain ⟨rfl, hreadable, -⟩ := hnext
      by_cases hmethod : next.context.request.method = .kInvalid
      · exact .inl (.inl ⟨hstate, hmethod⟩)
      · refine .inr ⟨⟨hstate, hmethod⟩, line, later, ?_, hplain, hspace hmethod⟩
        rw [hreadable, ← hcontent]
        exact hrest
  · rw [step_halfRead httpCallback hhalf hcontent hplain hspace]
    refine ⟨fun stop hstop => (Except.error.inj hstop).symm, ?_, nofun⟩
    exact iff_of_false (fun hnone => hnone _ rfl) (not_not_intro hhalf)

/-- **Assertions and the input.** The assertions of `Buffer` hold on every input. The assertion that no
method is set holds just when no chunk arrives after a request line was refused behind its method. -/
theorem assertions_hold_iff (httpCallback : HttpCallback) (chunks : List (Bytes × Timestamp)) :
    (∀ stop, run (step httpCallback) {} chunks = .error stop → stop = .method) ∧
      ((∀ stop, run (step httpCallback) {} chunks ≠ .error stop) ↔
        Meets (step httpCallback) (fun c _ => ¬ HalfRead c.context) {} chunks) := by
  have hstanding : Standing {} := .inl ready_new
  constructor
  · have honly : (∀ stop, run (step httpCallback) {} chunks = .error stop → stop = .method) ↔
        Meets (step httpCallback) (fun _ _ => True) {} chunks := by
      refine run_harmless_iff_meets Standing (fun c label hc => ?_) hstanding
      obtain ⟨honly, -, hnext⟩ := standing_step httpCallback hc label
      exact ⟨iff_of_true honly trivial, hnext⟩
    exact honly.mpr (meets_of_forall (fun _ _ => trivial) _)
  · refine run_harmless_iff_meets Standing (fun c label hc => ?_) hstanding
    exact (standing_step httpCallback hc label).2

/-- The line is answered with 400 and stays in the buffer, and so does its method in the context: the next
chunk fails the assertion. -/
theorem chunk_after_bad_request_asserts :
    run (step fun _ close => ([], close)) {} [(ascii "GET / HTTP/2.0\r\n", .invalid),
      (ascii "\r\n", .invalid)] = .error .method :=
  error_of_failsWith _ _ _ _ (by decide +kernel)

/-! ## Pipelined requests -/

/-- How many of the requests end within so many bytes of the stream. -/
def completed : List HttpMessage → Nat → Nat
  | [], _ => 0
  | m :: later, count =>
      if m.text.length ≤ count then completed later (count - m.text.length) + 1 else 0

/-- The stream of the requests. -/
def stream (messages : List HttpMessage) : Bytes := messages.flatMap HttpMessage.text

/-- The part of a request that lacks its end leaves the parser hungry. -/
theorem parse_hungry {m : HttpMessage} {front : Bytes} (hfront : front <+: m.text)
    (hlength : front.length < m.text.length) : (parse {} front).verdict = .hungry := by
  obtain ⟨back, hback⟩ := hfront
  have hwhole := parse_text m []
  rw [List.append_nil, ← hback, parse_append] at hwhole
  by_contra hstopped
  rw [resume_stopped hstopped, Driven.mk.injEq] at hwhole
  have hnil := (List.append_eq_nil_iff.mp hwhole.2.1).2
  rw [← hback, hnil, List.append_nil] at hlength
  exact Nat.lt_irrefl _ hlength

/-- The connection has the bytes of the requests that it has not served, and nothing else was read. -/
structure Serving (c : HttpConnection) (sofar : Bytes) : Prop where
  ready : Ready c.context
  resumes : ∀ later, parse c.context.sansTime (c.inputBuffer.readable ++ later) =
    parse {} (sofar ++ later)

theorem serving_new : Serving {} [] where
  ready := ready_new
  resumes later := by
    rw [Buffer.readable_new]
    rfl

/-- A chunk that completes the next request: it is served, and what is behind it stays. -/
theorem Serving.serve {sofar chunk : Bytes} (hserving : Serving c sofar) {m : HttpMessage}
    (hm : m.text <+: sofar ++ chunk) (receiveTime : Timestamp) :
    ∃ next, step httpCallback c (chunk, receiveTime) = .ok next ∧
      Serving next ((sofar ++ chunk).drop m.text.length) ∧
      next.served.map HttpRequest.sansTime = c.served.map HttpRequest.sansTime ++ [m.meaning] := by
  obtain ⟨next, hstep, hnext⟩ :=
    step_ready httpCallback hserving.ready chunk receiveTime
  obtain ⟨later, hlater⟩ := hm
  rw [hserving.resumes, ← hlater, parse_text] at hnext
  obtain ⟨hcontext, hrest, hserved⟩ := hnext
  refine ⟨next, hstep, ⟨?_, fun after => ?_⟩, hserved⟩
  · rw [hcontext]
    exact ready_new
  · rw [hcontext, hrest, ← hlater, List.drop_left]
    rfl

/-- A chunk that does not complete it: nothing is served. -/
theorem Serving.wait {sofar chunk : Bytes} (hserving : Serving c sofar)
    (hhungry : (parse {} (sofar ++ chunk)).verdict = .hungry) (receiveTime : Timestamp) :
    ∃ next, step httpCallback c (chunk, receiveTime) = .ok next ∧ Serving next (sofar ++ chunk) ∧
      next.served = c.served := by
  obtain ⟨next, hstep, hnext⟩ :=
    step_ready httpCallback hserving.ready chunk receiveTime
  rw [hserving.resumes] at hnext
  have happend (after : Bytes) := parse_append {} (sofar ++ chunk) after
  generalize parse {} (sofar ++ chunk) = p at *
  obtain ⟨state, rest, verdict⟩ := p
  subst hhungry
  obtain ⟨hready, hstate, hrest, hserved⟩ := hnext
  refine ⟨next, hstep, ⟨hready, fun after => ?_⟩, hserved⟩
  rw [hstate, hrest, happend]
  rfl

/-- After every part of the chunks, as many chunks are still to come as there are requests that are not
complete. The bytes of the connection, which are not served yet, come before the chunks. -/
def EnoughChunks (messages : List HttpMessage) (sofar : Nat) (chunks : List Bytes) : Prop :=
  messages.length ≤ chunks.length ∧
    ∀ front back, chunks = front ++ back → front ≠ [] →
      messages.length ≤ completed messages (sofar + front.flatten.length) + back.length

theorem enoughChunks_cons {messages : List HttpMessage} {sofar : Nat} {chunk : Bytes}
    {chunks : List Bytes} :
    EnoughChunks messages sofar (chunk :: chunks) ↔
      messages.length ≤ chunks.length + 1 ∧
      messages.length ≤ completed messages (sofar + chunk.length) + chunks.length ∧
      ∀ front back, chunks = front ++ back → front ≠ [] →
        messages.length ≤
          completed messages (sofar + chunk.length + front.flatten.length) + back.length := by
  rw [EnoughChunks, List.length_cons]
  refine and_congr_right fun _ => ⟨fun hall => ⟨?_, fun front back hsplit _ => ?_⟩, ?_⟩
  · have hfirst := hall [chunk] chunks rfl (List.cons_ne_nil _ _)
    rwa [List.flatten_singleton] at hfirst
  · have hlater := hall (chunk :: front) back (by rw [hsplit]; rfl) (List.cons_ne_nil _ _)
    rwa [List.flatten_cons, List.length_append, ← Nat.add_assoc] at hlater
  · rintro ⟨hfirst, hlater⟩ front back hsplit hne
    cases front with
    | nil => exact absurd rfl hne
    | cons c front =>
        rw [List.cons_append, List.cons.injEq] at hsplit
        obtain ⟨rfl, hsplit⟩ := hsplit
        rw [List.flatten_cons, List.length_append, ← Nat.add_assoc]
        by_cases hfront : front = []
        · subst hfront
          rw [List.nil_append] at hsplit
          rw [← hsplit]
          exact hfirst
        · exact hlater front back hsplit hfront

/-- A chunk that completes the next request. -/
theorem enoughChunks_serve {m : HttpMessage} {messages : List HttpMessage} {sofar : Nat}
    {chunk : Bytes} {chunks : List Bytes} (hm : m.text.length ≤ sofar + chunk.length) :
    EnoughChunks (m :: messages) sofar (chunk :: chunks) ↔
      EnoughChunks messages (sofar + chunk.length - m.text.length) chunks := by
  have hcompleted (more : Nat) : completed (m :: messages) (sofar + chunk.length + more) =
      completed messages (sofar + chunk.length - m.text.length + more) + 1 := by
    rw [completed, if_pos (by omega), Nat.sub_add_comm hm]
  have hfirst := hcompleted 0
  rw [Nat.add_zero, Nat.add_zero] at hfirst
  rw [enoughChunks_cons, EnoughChunks, hfirst]
  simp only [hcompleted, List.length_cons]
  constructor
  · rintro ⟨hcount, -, hlater⟩
    refine ⟨by omega, fun front back hsplit hne => ?_⟩
    have := hlater front back hsplit hne
    omega
  · rintro ⟨hcount, hlater⟩
    refine ⟨by omega, by omega, fun front back hsplit hne => ?_⟩
    have := hlater front back hsplit hne
    omega

/-- A chunk that does not. -/
theorem enoughChunks_wait {messages : List HttpMessage} {sofar : Nat} {chunk : Bytes}
    {chunks : List Bytes} (hnone : completed messages (sofar + chunk.length) = 0) :
    EnoughChunks messages sofar (chunk :: chunks) ↔
      EnoughChunks messages (sofar + chunk.length) chunks := by
  rw [enoughChunks_cons, EnoughChunks, hnone, Nat.zero_add]
  exact ⟨fun h => h.2, fun h => ⟨Nat.le_succ_of_le h.1, h⟩⟩

/-- The rest of the stream arrives. -/
theorem Serving.run {messages : List HttpMessage} {sofar : Bytes} (hserving : Serving c sofar)
    (chunks : List (Bytes × Timestamp))
    (hstream : sofar ++ (chunks.map Prod.fst).flatten = stream messages) :
    ∃ final count, Execution.run (step httpCallback) c chunks = .ok final ∧
      final.served.map HttpRequest.sansTime =
        c.served.map HttpRequest.sansTime ++ (messages.take count).map HttpMessage.meaning ∧
      (messages.length ≤ count ↔ EnoughChunks messages sofar.length (chunks.map Prod.fst)) := by
  induction chunks generalizing c messages sofar with
  | nil =>
      refine ⟨c, 0, rfl, by simp, ?_⟩
      simp [EnoughChunks]
  | cons label chunks ih =>
      obtain ⟨chunk, receiveTime⟩ := label
      rw [List.map_cons, List.flatten_cons, ← List.append_assoc] at hstream
      rw [List.map_cons]
      by_cases hnone : completed messages (sofar.length + chunk.length) = 0
      · -- nothing is complete, so that the parser wants more
        have hhungry : (parse {} (sofar ++ chunk)).verdict = .hungry := by
          cases messages with
          | nil =>
              rw [(List.append_eq_nil_iff.mp hstream).1, parse_nil]
          | cons m messages =>
              rw [completed] at hnone
              have hlength : (sofar ++ chunk).length < m.text.length := by
                rw [List.length_append]
                by_contra hle
                simp [Nat.le_of_not_lt hle] at hnone
              refine parse_hungry ?_ hlength
              have hsofar : sofar ++ chunk <+: stream (m :: messages) := ⟨_, hstream⟩
              have hm : m.text <+: stream (m :: messages) := List.prefix_append _ _
              exact List.prefix_of_prefix_length_le hsofar hm (Nat.le_of_lt hlength)
        obtain ⟨next, hstep, hnext, hserved⟩ :=
          hserving.wait httpCallback hhungry receiveTime
        obtain ⟨final, count, hrun, hfinal, hcount⟩ := ih hnext hstream
        refine ⟨final, count, run_cons_ok.mpr ⟨next, hstep, hrun⟩, ?_, ?_⟩
        · rw [hfinal, hserved]
        · rw [hcount, enoughChunks_wait hnone, List.length_append]
      · cases messages with
        | nil => exact absurd rfl hnone
        | cons m messages =>
            have hle : m.text.length ≤ sofar.length + chunk.length := by
              by_contra hlt
              rw [completed, if_neg hlt] at hnone
              exact hnone rfl
            have hprefix : m.text <+: sofar ++ chunk := by
              have hsofar : sofar ++ chunk <+: stream (m :: messages) := ⟨_, hstream⟩
              have hm : m.text <+: stream (m :: messages) := List.prefix_append _ _
              refine List.prefix_of_prefix_length_le hm hsofar ?_
              rw [List.length_append]
              exact hle
            obtain ⟨next, hstep, hnext, hserved⟩ :=
              hserving.serve httpCallback hprefix receiveTime
            have hrest : (sofar ++ chunk).drop m.text.length ++ (chunks.map Prod.fst).flatten =
                stream messages := by
              rw [← List.drop_append_of_le_length (by rw [List.length_append]; exact hle), hstream,
                stream, List.flatMap_cons, List.drop_left]
              rfl
            obtain ⟨final, count, hrun, hfinal, hcount⟩ := ih hnext hrest
            refine ⟨final, count + 1, run_cons_ok.mpr ⟨next, hstep, hrun⟩, ?_, ?_⟩
            · rw [hfinal, hserved]
              simp
            · rw [enoughChunks_serve hle, List.length_cons, Nat.succ_le_succ_iff, hcount,
                List.length_drop, List.length_append]

/-- **Requests and packet boundaries.** However the stream of some requests is cut, the server passes the
first of them to the callback, in order. It has passed all of them when the whole stream has arrived just
when, after every part of the chunks, as many chunks were still to come as there were requests that were
not complete. -/
theorem served_all_iff (httpCallback : HttpCallback) (messages : List HttpMessage)
    (chunks : List (Bytes × Timestamp))
    (hstream : (chunks.map Prod.fst).flatten = stream messages) :
    ∃ final, run (step httpCallback) {} chunks = .ok final ∧
      final.served.map HttpRequest.sansTime <+: messages.map HttpMessage.meaning ∧
      (final.served.map HttpRequest.sansTime = messages.map HttpMessage.meaning ↔
        ∀ front back, chunks.map Prod.fst = front ++ back →
          messages.length ≤ completed messages front.flatten.length + back.length) := by
  obtain ⟨final, count, hrun, hserved, hcount⟩ :=
    serving_new.run httpCallback chunks (by simpa using hstream)
  replace hserved : final.served.map HttpRequest.sansTime =
      (messages.take count).map HttpMessage.meaning := by
    rw [hserved]
    rfl
  refine ⟨final, hrun, ?_, ?_⟩
  · rw [hserved]
    exact (List.take_prefix count messages).map _
  · have hall : final.served.map HttpRequest.sansTime = messages.map HttpMessage.meaning ↔
        messages.length ≤ count := by
      rw [hserved]
      constructor
      · intro hsame
        have hlength := congrArg List.length hsame
        rw [List.length_map, List.length_map, List.length_take] at hlength
        omega
      · intro hle
        rw [List.take_of_length_le hle]
    simp only [hall, hcount, EnoughChunks, List.length_nil, Nat.zero_add]
    constructor
    · rintro ⟨hmany, hlater⟩ front back hsplit
      by_cases hfront : front = []
      · subst hfront
        rw [List.nil_append] at hsplit
        rw [← hsplit]
        exact Nat.le_add_left_of_le hmany
      · exact hlater front back hsplit hfront
    · intro hparts
      have hnone : completed messages 0 = 0 := by
        cases messages with
        | nil => rfl
        | cons m messages => simp [completed, HttpMessage.text, CRLF]
      refine ⟨?_, fun front back hsplit _ => hparts front back hsplit⟩
      have hfirst := hparts [] (chunks.map Prod.fst) rfl
      rwa [List.flatten_nil, List.length_nil, hnone, Nat.zero_add] at hfirst

/-- A request without headers. -/
def get (target : Bytes) (hword : HttpRequest.space ∉ target)
    (hplain : ¬ CRLF <:+: ascii "GET" ++ HttpRequest.space ::
      (target ++ HttpRequest.space :: ascii "HTTP/1.1")) : HttpMessage where
  method := .kGet
  target := target
  version := .kHttp11
  headers := []
  method_valid := by decide
  version_known := by decide
  target_word := hword
  line_plain := hplain
  names_plain := by simp
  headers_plain := by simp

def index : HttpMessage := get (ascii "/") (by decide) (by decide)

def icon : HttpMessage := get (ascii "/favicon.ico?v=2") (by decide) (by decide)

/-- Keep the connection, unless the client wants it to be closed. -/
def keepAlive : HttpCallback := fun _ close => (ascii "HTTP/1.1 200 OK\r\n\r\n", close)

/-- Two requests, the second of which is cut in the middle of its method. -/
theorem served_all_cut :
    ∃ final, run (step keepAlive) {} [(index.text ++ ascii "GE", .invalid),
        (icon.text.drop 2, .invalid)] = .ok final ∧
      final.served.map HttpRequest.sansTime = [index.meaning, icon.meaning] := by
  obtain ⟨final, hrun, -, hall⟩ := served_all_iff keepAlive [index, icon]
    [(index.text ++ ascii "GE", .invalid), (icon.text.drop 2, .invalid)] (by decide)
  refine ⟨final, hrun, hall.mpr ?_⟩
  intro front back hsplit
  rcases front with _ | ⟨first, _ | ⟨second, later⟩⟩
  · rw [List.nil_append] at hsplit
    rw [← hsplit]
    decide
  · obtain ⟨rfl, hback⟩ := List.cons.inj hsplit
    change _ = back at hback
    rw [← hback]
    decide
  · obtain ⟨rfl, hlater⟩ := List.cons.inj hsplit
    obtain ⟨rfl, hback⟩ := List.cons.inj hlater
    obtain ⟨rfl, rfl⟩ := List.append_eq_nil_iff.mp hback.symm
    decide

/-- Two requests in one chunk: the second is not served. In a chunk each, both are. -/
theorem coalesced_request_waits :
    ∃ together apart,
      run (step keepAlive) {} [(index.text ++ icon.text, .invalid)] = .ok together ∧
      run (step keepAlive) {} [(index.text, .invalid), (icon.text, .invalid)] = .ok apart ∧
      together.served.length = 1 ∧ apart.served.length = 2 := by
  obtain ⟨together, htogether, hone⟩ := exists_of_outcome (step keepAlive) {}
    [(index.text ++ icon.text, .invalid)] (fun c => c.served.length = 1) (by decide +kernel)
  obtain ⟨apart, hapart, htwo⟩ := exists_of_outcome (step keepAlive) {}
    [(index.text, .invalid), (icon.text, .invalid)] (fun c => c.served.length = 2)
    (by decide +kernel)
  exact ⟨together, apart, htogether, hapart, of_decide_eq_true hone, of_decide_eq_true htwo⟩

end HttpConnection
end Muduo
