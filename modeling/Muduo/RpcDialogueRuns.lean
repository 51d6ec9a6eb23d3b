import Mathlib.Data.List.Nodup
import Muduo.RpcDialogue

/-! What holds in every run of a dialogue. Every message on its way is at the stage of its id and says
what is true of its call, so that a reply can only be the answer to the call that it is given to. -/

namespace Muduo
namespace Dialogue

open Execution

variable {Req Resp : Type} {stage : Nat → Stage} {n : Nat} {next : Stage}

/-! ## The callee -/

theorem ids_nodup_concat {messages : List RpcMessage} {message : RpcMessage}
    (hnodup : (messages.map RpcMessage.id).Nodup)
    (hfirst : ∀ earlier ∈ messages, earlier.id ≠ message.id) :
    ((messages ++ [message]).map RpcMessage.id).Nodup := by
  rw [List.map_append, List.nodup_append]
  refine ⟨hnodup, List.nodup_singleton _, ?_⟩
  intro id hid other hother
  obtain ⟨earlier, hearlier, rfl⟩ := List.mem_map.mp hid
  rw [List.mem_singleton.mp hother]
  exact hfirst earlier hearlier

/-- What the reply to a request can be. -/
inductive Settles (format : ResponseFormat Resp) (e : Callee Req Resp) (request : RpcMessage) :
    RpcMessage → Prop where
  | reply {j : Nat} {invocation : Invocation Req Resp} {response : Resp}
      (hinvocation : e.invocations j = some invocation) (hmessage : invocation.message = request)
      (hresolve : Callee.resolve e.services request = .ok invocation.request)
      (hproduced : invocation.produced = some response) :
      Settles format e request (Callee.reply format request.id response)
  | refusal {error : RpcErrorCode} (hresolve : Callee.resolve e.services request = .error error) :
      Settles format e request (Callee.refusal request.id error)

def IsReply (format : ResponseFormat Resp) (c : Caller Resp) (e : Callee Req Resp)
    (message : RpcMessage) : Prop :=
  ∃ request, IsRequest c request ∧ message.id = request.id ∧ Settles format e request message

/-- The services stay, and so do the methods that have produced their response. -/
def KeepsProduced (e e' : Callee Req Resp) : Prop :=
  e'.services = e.services ∧ ∀ j invocation, e.invocations j = some invocation →
    invocation.produced ≠ none → e'.invocations j = some invocation

theorem KeepsProduced.refl (e : Callee Req Resp) : KeepsProduced e e := ⟨rfl, fun _ _ h _ => h⟩

theorem KeepsProduced.isReply {format : ResponseFormat Resp} {c c' : Caller Resp}
    {e e' : Callee Req Resp} (hcalls : KeepsCalls c c') (hproduced : KeepsProduced e e')
    {message : RpcMessage} (hreply : IsReply format c e message) : IsReply format c' e' message := by
  obtain ⟨request, hrequest, hid, hsettles⟩ := hreply
  refine ⟨request, hcalls.isRequest hrequest, hid, ?_⟩
  cases hsettles with
  | reply hinvocation hmessage hresolve hresponse =>
      exact .reply (hproduced.2 _ _ hinvocation (by rw [hresponse]; simp)) hmessage
        (hproduced.1 ▸ hresolve) hresponse
  | refusal hresolve => exact .refusal (hproduced.1 ▸ hresolve)

/-- The methods that were called and the replies that were sent. A method runs as long as its id is at
the stage that names it, and no id is handled or replied to again. -/
structure Records (c : Caller Resp) (e : Callee Req Resp) (stage : Nat → Stage) : Prop where
  invocation : ∀ {j invocation}, e.invocations j = some invocation →
    IsRequest c invocation.message ∧
      Callee.resolve e.services invocation.message = .ok invocation.request ∧
      invocation.message ∈ e.handled
  running : ∀ {j invocation}, e.invocations j = some invocation → invocation.produced = none →
    stage invocation.message.id = .serving j
  produced : ∀ {j invocation}, e.invocations j = some invocation → invocation.produced ≠ none →
    4 ≤ (stage invocation.message.id).rank
  invocation_inj : ∀ {j l invocation other}, e.invocations j = some invocation →
    e.invocations l = some other → invocation.message.id = other.message.id → j = l
  handled : ∀ message ∈ e.handled, message.type = .REQUEST ∧ 3 ≤ (stage message.id).rank
  handled_nodup : (e.handled.map RpcMessage.id).Nodup
  emitted : ∀ message ∈ e.emitted,
    4 ≤ (stage message.id).rank ∧ ∃ request ∈ e.handled, request.id = message.id
  emitted_nodup : (e.emitted.map RpcMessage.id).Nodup

namespace Records

variable {c c' : Caller Resp} {e e' : Callee Req Resp}

theorem extend (hrecords : Records c e stage) (hcalls : KeepsCalls c c') : Records c' e stage :=
  { hrecords with
    invocation := fun hinvocation =>
      ⟨hcalls.isRequest (hrecords.invocation hinvocation).1, (hrecords.invocation hinvocation).2⟩ }

/-- An id that no method runs for advances. -/
theorem move (hrecords : Records c e stage) (hforward : (stage n).rank ≤ next.rank)
    (hidle : ∀ j, stage n ≠ .serving j) : Records c e (Function.update stage n next) :=
  { hrecords with
    running := fun hinvocation hrunning =>
      stage_stays (hrecords.running hinvocation hrunning) (hidle _)
    produced := fun hinvocation hproduced =>
      le_rank_update hforward (hrecords.produced hinvocation hproduced)
    handled := fun message hmem =>
      ⟨(hrecords.handled message hmem).1, le_rank_update hforward (hrecords.handled message hmem).2⟩
    emitted := fun message hmem =>
      ⟨le_rank_update hforward (hrecords.emitted message hmem).1,
        (hrecords.emitted message hmem).2⟩ }

theorem serving_le (hrecords : Records c e stage) {j : Nat} {invocation : Invocation Req Resp}
    (hinvocation : e.invocations j = some invocation) :
    3 ≤ (stage invocation.message.id).rank := by
  cases hproduced : invocation.produced with
  | none =>
      rw [hrecords.running hinvocation hproduced]
      exact Nat.le_refl _
  | some response =>
      have := hrecords.produced hinvocation (by rw [hproduced]; simp)
      omega

/-- A request that has arrived is handled for the first time. -/
theorem handle (hrecords : Records c e stage) {message : RpcMessage} (htype : message.type = .REQUEST)
    (harrived : stage message.id = .arrived) (hnext : 3 ≤ next.rank) :
    Records c { e with handled := e.handled ++ [message] }
      (Function.update stage message.id next) := by
  have hforward : (stage message.id).rank ≤ next.rank := by
    rw [harrived]
    exact Nat.le_trans (by decide) hnext
  have hmoved := hrecords.move hforward (by simp [harrived])
  refine { hmoved with invocation := ?_, handled := ?_, handled_nodup := ?_, emitted := ?_ }
  · intro j invocation hinvocation
    obtain ⟨hrequest, hresolve, hhandled⟩ := hrecords.invocation hinvocation
    exact ⟨hrequest, hresolve, List.mem_append_left _ hhandled⟩
  · intro other hmem
    rcases List.mem_append.mp hmem with hmem | hmem
    · exact hmoved.handled other hmem
    · rw [List.mem_singleton.mp hmem, Function.update_self]
      exact ⟨htype, hnext⟩
  · apply ids_nodup_concat hrecords.handled_nodup
    intro earlier hmem heq
    have hrank := (hrecords.handled earlier hmem).2
    rw [heq, harrived] at hrank
    exact absurd hrank (by decide)
  · intro other hmem
    obtain ⟨hrank, request, hrequest, hid⟩ := hmoved.emitted other hmem
    exact ⟨hrank, request, List.mem_append_left _ hrequest, hid⟩

/-- A reply is sent for an id that none was sent for. -/
theorem emit (hrecords : Records c e stage) {message request : RpcMessage}
    (hrank : 4 ≤ (stage message.id).rank) (hrequest : request ∈ e.handled)
    (hid : request.id = message.id) (hfirst : ∀ other ∈ e.emitted, other.id ≠ message.id) :
    Records c { e with emitted := e.emitted ++ [message] } stage := by
  refine { hrecords with emitted := ?_, emitted_nodup := ?_ }
  · intro other hmem
    rcases List.mem_append.mp hmem with hmem | hmem
    · exact hrecords.emitted other hmem
    · rw [List.mem_singleton.mp hmem]
      exact ⟨hrank, request, hrequest, hid⟩
  · exact ids_nodup_concat hrecords.emitted_nodup hfirst

/-- A method is called for a request that has been handled. -/
theorem invoke (hrecords : Records c e stage) {j : Nat} {message : RpcMessage} {request : Req}
    (hfree : e.invocations j = none) (hstage : stage message.id = .serving j)
    (hrequest : IsRequest c message) (hresolve : Callee.resolve e.services message = .ok request)
    (hhandled : message ∈ e.handled)
    (hfirst : ∀ l other, e.invocations l = some other → other.message.id ≠ message.id) :
    Records c
      { e with invocations := Function.update e.invocations j (some { message, request }) }
      stage := by
  refine { hrecords with invocation := ?_, running := ?_, produced := ?_, invocation_inj := ?_ }
  · intro l other hother
    rcases update_eq_some.mp hother with ⟨-, rfl⟩ | ⟨-, hold⟩
    · exact ⟨hrequest, hresolve, hhandled⟩
    · exact hrecords.invocation hold
  · intro l other hother hrunning
    rcases update_eq_some.mp hother with ⟨rfl, rfl⟩ | ⟨-, hold⟩
    · exact hstage
    · exact hrecords.running hold hrunning
  · intro l other hother hproduced
    rcases update_eq_some.mp hother with ⟨-, rfl⟩ | ⟨-, hold⟩
    · exact absurd rfl hproduced
    · exact hrecords.produced hold hproduced
  · intro l l' left right hleft hright hid
    rcases update_eq_some.mp hleft with ⟨hl, rfl⟩ | ⟨-, hold⟩ <;>
      rcases update_eq_some.mp hright with ⟨hl', rfl⟩ | ⟨-, hold'⟩
    · rw [hl, hl']
    · exact absurd hid.symm (hfirst l' right hold')
    · exact absurd hid (hfirst l left hold)
    · exact hrecords.invocation_inj hold hold' hid

/-- A method produces its response. -/
theorem produce (hrecords : Records c e stage) {j : Nat} {message : RpcMessage} {request : Req}
    (hinvocation : e.invocations j = some ⟨message, request, none⟩) (response : Resp) :
    Records c
      { e with invocations :=
          Function.update e.invocations j (some ⟨message, request, some response⟩) }
      (Function.update stage message.id .replied) := by
  have hstage : stage message.id = .serving j := hrecords.running hinvocation rfl
  have hforward : (stage message.id).rank ≤ Stage.replied.rank := by
    rw [hstage]
    exact Nat.le_succ 3
  have hsame := hrecords.invocation hinvocation
  refine { hrecords with
    invocation := ?_, running := ?_, produced := ?_, invocation_inj := ?_, handled := ?_
    emitted := ?_ }
  · intro l other hother
    rcases update_eq_some.mp hother with ⟨-, rfl⟩ | ⟨-, hold⟩
    · exact hsame
    · exact hrecords.invocation hold
  · intro l other hother hrunning
    rcases update_eq_some.mp hother with ⟨-, rfl⟩ | ⟨hl, hold⟩
    · cases hrunning
    · apply stage_stays (hrecords.running hold hrunning)
      rw [hstage]
      exact fun heq => hl (Stage.serving.inj heq).symm
  · intro l other hother hproduced
    rcases update_eq_some.mp hother with ⟨-, rfl⟩ | ⟨-, hold⟩
    · rw [Function.update_self]
      exact Nat.le_refl _
    · exact le_rank_update hforward (hrecords.produced hold hproduced)
  · intro l l' left right hleft hright hid
    rcases update_eq_some.mp hleft with ⟨hl, rfl⟩ | ⟨-, hold⟩ <;>
      rcases update_eq_some.mp hright with ⟨hl', rfl⟩ | ⟨-, hold'⟩
    · rw [hl, hl']
    · rw [hl]
      exact hrecords.invocation_inj hinvocation hold' hid
    · rw [hl']
      exact hrecords.invocation_inj hold hinvocation hid
    · exact hrecords.invocation_inj hold hold' hid
  · intro other hmem
    exact ⟨(hrecords.handled other hmem).1, le_rank_update hforward (hrecords.handled other hmem).2⟩
  · intro other hmem
    exact ⟨le_rank_update hforward (hrecords.emitted other hmem).1, (hrecords.emitted other hmem).2⟩

end Records

/-! ## Messages on their way -/

/-- A stream whose messages are at one stage, each with an id of its own. -/
def Queue (content : RpcMessage → Prop) (stage : Nat → Stage) (here : Stage)
    (queue : List RpcMessage) : Prop :=
  (queue.map RpcMessage.id).Nodup ∧ ∀ message ∈ queue, content message ∧ stage message.id = here

namespace Queue

variable {content content' : RpcMessage → Prop} {here : Stage} {queue : List RpcMessage}

theorem mono (hqueue : Queue content stage here queue)
    (himp : ∀ message, content message → content' message) : Queue content' stage here queue :=
  ⟨hqueue.1, fun message hmem =>
    ⟨himp message (hqueue.2 message hmem).1, (hqueue.2 message hmem).2⟩⟩

theorem stays (hqueue : Queue content stage here queue) (hother : stage n ≠ here) :
    Queue content (Function.update stage n next) here queue :=
  ⟨hqueue.1, fun message hmem =>
    ⟨(hqueue.2 message hmem).1, stage_stays (hqueue.2 message hmem).2 hother⟩⟩

/-- A message whose id comes to the stage of the stream goes into the stream. -/
theorem push (hqueue : Queue content stage here queue) {message : RpcMessage}
    (hcontent : content message) (hother : stage message.id ≠ here) :
    Queue content (Function.update stage message.id here) here (queue ++ [message]) := by
  refine ⟨?_, ?_⟩
  · apply ids_nodup_concat hqueue.1
    intro earlier hearlier heq
    exact hother (heq ▸ (hqueue.2 earlier hearlier).2)
  · intro other hmem
    rcases List.mem_append.mp hmem with hmem | hmem
    · exact (hqueue.stays hother).2 other hmem
    · rw [List.mem_singleton.mp hmem, Function.update_self]
      exact ⟨hcontent, rfl⟩

/-- The first message leaves the stream and its id the stage. -/
theorem pop {message : RpcMessage} (hqueue : Queue content stage here (message :: queue))
    (next : Stage) :
    content message ∧ stage message.id = here ∧
      Queue content (Function.update stage message.id next) here queue := by
  obtain ⟨hnodup, hall⟩ := hqueue
  obtain ⟨hfirst, hrest⟩ := List.nodup_cons.mp hnodup
  refine ⟨(hall message (by simp)).1, (hall message (by simp)).2, hrest, ?_⟩
  intro other hmem
  have hne : other.id ≠ message.id := fun heq => hfirst (heq ▸ List.mem_map_of_mem hmem)
  obtain ⟨hcontent, hstage⟩ := hall other (List.mem_cons_of_mem _ hmem)
  exact ⟨hcontent, by rw [Function.update_of_ne hne, hstage]⟩

end Queue

/-! ## Answers -/

/-- What the response object of a call holds when its closure is run: what the method that its own request names
has produced, called with what it parses of the bytes of the request, or nothing when the request was refused. -/
inductive Answer (e : Callee Req Resp) (call : RpcCall) : Content Resp → Prop where
  | response {j : Nat} {invocation : Invocation Req Resp} {response : Resp}
      (hinvocation : e.invocations j = some invocation)
      (hmessage : invocation.message = call.message)
      (hrequest : Callee.Parses e.services call.arguments invocation.request)
      (hproduced : invocation.produced = some response) : Answer e call (.parsed response)
  | refused {error : RpcErrorCode}
      (hresolve : Callee.resolve e.services call.message = .error error) : Answer e call .unmodified

/-- The closures that were run. -/
structure Answers (c : Caller Resp) (e : Callee Req Resp) : Prop where
  once : ∀ k, (c.runs k).length ≤ 1
  answer : ∀ {k content}, content ∈ c.runs k →
    ∃ call, c.calls k = some call ∧ Answer e call content

theorem Answer.keep {e e' : Callee Req Resp} (hproduced : KeepsProduced e e') {call call' : RpcCall}
    (hmessage : call'.message = call.message) (harguments : call'.arguments = call.arguments)
    {content : Content Resp} (hanswer : Answer e call content) : Answer e' call' content := by
  cases hanswer with
  | response hinvocation hsame hrequest hresponse =>
      refine .response (hproduced.2 _ _ hinvocation (by rw [hresponse]; simp))
        (hsame.trans hmessage.symm) ?_ hresponse
      rw [hproduced.1, harguments]
      exact hrequest
  | refused hresolve => exact .refused (by rw [hproduced.1, hmessage, hresolve])

theorem Answers.keep {c c' : Caller Resp} {e e' : Callee Req Resp} (hanswers : Answers c e)
    (hcalls : KeepsCalls c c') (hruns : c'.runs = c.runs) (hproduced : KeepsProduced e e') :
    Answers c' e' := by
  refine ⟨by rw [hruns]; exact hanswers.once, ?_⟩
  intro k content hmem
  rw [hruns] at hmem
  obtain ⟨call, hcall, hanswer⟩ := hanswers.answer hmem
  obtain ⟨call', hcall', hid, harguments⟩ := hcalls k call hcall
  refine ⟨call', hcall', hanswer.keep hproduced ?_ harguments⟩
  rw [RpcCall.message, RpcCall.message, hid, harguments]

/-- The reply to its own request fills the response object of a call with the answer. -/
theorem fill_answer {format : ResponseFormat Resp}
    (hformat : ∀ response, format.parseFromString (format.serializeAsString response) = some response)
    {e : Callee Req Resp} {call : RpcCall} {message : RpcMessage}
    (hsettles : Settles format e call.message message) :
    Answer e call (Caller.fill format .unmodified message) := by
  cases hsettles with
  | reply hinvocation hmessage hresolve hproduced =>
      simp only [Caller.fill, Callee.reply, hformat]
      exact .response hinvocation hmessage (Callee.parses_of_resolve hresolve) hproduced
  | refusal hresolve => exact .refused hresolve

theorem Answers.finish {format : ResponseFormat Resp}
    (hformat : ∀ response, format.parseFromString (format.serializeAsString response) = some response)
    {c : Caller Resp} {e : Callee Req Resp} (hanswers : Answers c e) {k : Nat} {call : RpcCall}
    {message : RpcMessage} (hcall : c.calls k = some call)
    (hquiet : c.content k = .unmodified ∧ c.runs k = [])
    (hsettles : Settles format e call.message message) :
    Answers (c.finish format (call.out k) message) e := by
  have hruns := c.finish_runs format call message k
  rw [hquiet.1, hquiet.2, List.nil_append] at hruns
  refine ⟨?_, ?_⟩
  · intro l
    by_cases hl : l = k
    · subst hl
      rw [hruns]
      cases call.arguments.response && call.arguments.done <;> simp
    · rw [(c.finish_other format call message hl).2]
      exact hanswers.once l
  · intro l content hmem
    rw [Caller.finish_calls]
    by_cases hl : l = k
    · subst hl
      rw [hruns] at hmem
      cases hboth : call.arguments.response && call.arguments.done with
      | false => rw [hboth] at hmem; cases hmem
      | true =>
          rw [hboth] at hmem
          rw [List.mem_singleton.mp hmem]
          exact ⟨call, hcall, fill_answer hformat hsettles⟩
    · rw [(c.finish_other format call message hl).2] at hmem
      exact hanswers.answer hmem

/-! ## Runs -/

/-- The reply that the caller's loop thread has before it. -/
def AnswerInHand (format : ResponseFormat Resp) (c : Caller Resp) (e : Callee Req Resp)
    (stage : Nat → Stage) : Answering → Prop
  | .idle => True
  | .delivered message => IsReply format c e message ∧ stage message.id = .delivered
  | .found out message => IsReply format c e message ∧ stage message.id = .found ∧
      ∃ k call, c.calls k = some call ∧ call.id = message.id ∧ out = call.out k

/-- Every message is at the stage of its id, and what it says is true. -/
structure Tracked (format : ResponseFormat Resp) (d : Dialogue Req Resp) (stage : Nat → Stage) :
    Prop where
  calls : Calls d.caller stage
  records : Records d.caller d.callee stage
  answers : Answers d.caller d.callee
  requests : Queue (IsRequest d.caller) stage .requested d.requests
  serving : ∀ message, d.serving = some message →
    IsRequest d.caller message ∧ stage message.id = .arrived
  replies : Queue (IsReply format d.caller d.callee) stage .replied d.replies
  answering : AnswerInHand format d.caller d.callee stage d.answering

theorem AnswerInHand.keep {format : ResponseFormat Resp} {c c' : Caller Resp} {e e' : Callee Req Resp}
    (hcalls : KeepsCalls c c') (hproduced : KeepsProduced e e') {answering : Answering}
    (hanswering : AnswerInHand format c e stage answering) :
    AnswerInHand format c' e' stage answering := by
  cases answering with
  | idle => trivial
  | delivered message => exact ⟨KeepsProduced.isReply hcalls hproduced hanswering.1, hanswering.2⟩
  | found out message =>
      obtain ⟨hreply, hstage, k, call, hcall, hid, hout⟩ := hanswering
      obtain ⟨call', hcall', hid', harguments⟩ := hcalls k call hcall
      refine ⟨KeepsProduced.isReply hcalls hproduced hreply, hstage, k, call', hcall',
        hid'.trans hid, ?_⟩
      rw [hout, RpcCall.out, RpcCall.out, harguments]

theorem AnswerInHand.stays {format : ResponseFormat Resp} {c : Caller Resp} {e : Callee Req Resp}
    {answering : Answering} (hanswering : AnswerInHand format c e stage answering)
    (hdelivered : stage n ≠ .delivered) (hfound : stage n ≠ .found) :
    AnswerInHand format c e (Function.update stage n next) answering := by
  cases answering with
  | idle => trivial
  | delivered message => exact ⟨hanswering.1, stage_stays hanswering.2 hdelivered⟩
  | found out message =>
      exact ⟨hanswering.1, stage_stays hanswering.2.1 hfound, hanswering.2.2⟩

namespace Tracked

variable {format : ResponseFormat Resp} {d : Dialogue Req Resp}

/-- A step of the caller that advances no id. -/
theorem keep (htracked : Tracked format d stage) {c : Caller Resp} (hcalls : Calls c stage)
    (hkeeps : KeepsCalls d.caller c) (hruns : c.runs = d.caller.runs) :
    Tracked format { d with caller := c } stage where
  calls := hcalls
  records := htracked.records.extend hkeeps
  answers := htracked.answers.keep hkeeps hruns (.refl _)
  requests := htracked.requests.mono fun _ => hkeeps.isRequest
  serving message hserving :=
    ⟨hkeeps.isRequest (htracked.serving message hserving).1, (htracked.serving message hserving).2⟩
  replies := htracked.replies.mono fun _ => KeepsProduced.isReply hkeeps (.refl _)
  answering := htracked.answering.keep hkeeps (.refl _)

theorem number (htracked : Tracked format d stage) {k : Nat} {arguments : CallArguments}
    {c : Caller Resp} (hnumber : d.caller.number k arguments = some c) :
    Tracked format { d with caller := c } stage := by
  have hcalls := htracked.calls.number hnumber
  rw [Caller.number] at hnumber
  split at hnumber
  · rename_i hfree
    cases hnumber
    refine htracked.keep hcalls ?_ rfl
    intro l call hcall
    exact ⟨call, update_eq_some.mpr (.inr ⟨ne_of_lookup hfree hcall, hcall⟩), rfl, rfl⟩
  · cases hnumber

theorem register (htracked : Tracked format d stage) {k : Nat} {c : Caller Resp}
    (hregister : d.caller.register k = some c) : Tracked format { d with caller := c } stage := by
  have hcalls := htracked.calls.register hregister
  rw [Caller.register] at hregister
  split at hregister
  · rename_i id arguments hcall
    cases hregister
    exact htracked.keep hcalls (keepsCalls_rephase .registered hcall) rfl
  · cases hregister

/-! Where an id advances, the messages of the other ids stay where they are. -/

section Advance

variable {c : Caller Resp} {e : Callee Req Resp}

theorem requests_stay (htracked : Tracked format d stage) (hcalls : KeepsCalls d.caller c)
    (hother : stage n ≠ .requested) :
    Queue (IsRequest c) (Function.update stage n next) .requested d.requests :=
  (htracked.requests.mono fun _ => hcalls.isRequest).stays hother

theorem serving_stay (htracked : Tracked format d stage) (hcalls : KeepsCalls d.caller c)
    (hother : stage n ≠ .arrived) (message : RpcMessage) (hserving : d.serving = some message) :
    IsRequest c message ∧ Function.update stage n next message.id = .arrived :=
  ⟨hcalls.isRequest (htracked.serving message hserving).1,
    stage_stays (htracked.serving message hserving).2 hother⟩

theorem replies_stay (htracked : Tracked format d stage) (hcalls : KeepsCalls d.caller c)
    (hproduced : KeepsProduced d.callee e) (hother : stage n ≠ .replied) :
    Queue (IsReply format c e) (Function.update stage n next) .replied d.replies :=
  (htracked.replies.mono fun _ => KeepsProduced.isReply hcalls hproduced).stays hother

theorem answering_stay (htracked : Tracked format d stage) (hcalls : KeepsCalls d.caller c)
    (hproduced : KeepsProduced d.callee e) (hdelivered : stage n ≠ .delivered)
    (hfound : stage n ≠ .found) :
    AnswerInHand format c e (Function.update stage n next) d.answering :=
  (htracked.answering.keep hcalls hproduced).stays hdelivered hfound

end Advance

theorem send (htracked : Tracked format d stage) {k : Nat} {c : Caller Resp} {message : RpcMessage}
    (hsend : d.caller.send k = some (c, message)) :
    Tracked format { d with caller := c, requests := d.requests ++ [message] }
      (Function.update stage message.id .requested) := by
  obtain ⟨hstage, hcalls⟩ := htracked.calls.send hsend
  rw [Caller.send] at hsend
  split at hsend
  · rename_i id arguments hcall
    cases hsend
    have hkeeps := keepsCalls_rephase .sent hcall
    have hrequest : IsRequest
        { d.caller with calls := Function.update d.caller.calls k (some ⟨id, arguments, .sent⟩) }
        (RpcCall.message ⟨id, arguments, .sent⟩) :=
      ⟨k, ⟨id, arguments, .sent⟩, Function.update_self _ _ _, rfl⟩
    exact {
      calls := hcalls
      records := (htracked.records.extend hkeeps).move (by rw [hstage]; decide) (by simp [hstage])
      answers := htracked.answers.keep hkeeps rfl (.refl _)
      requests := (htracked.requests.mono fun _ => hkeeps.isRequest).push hrequest (by simp [hstage])
      serving := htracked.serving_stay hkeeps (by simp [hstage])
      replies := htracked.replies_stay hkeeps (.refl _) (by simp [hstage])
      answering := htracked.answering_stay hkeeps (.refl _) (by simp [hstage]) (by simp [hstage]) }
  · cases hsend

theorem serve (htracked : Tracked format d stage) {message : RpcMessage} {requests : List RpcMessage}
    (hrequests : d.requests = message :: requests) :
    Tracked format { d with requests := requests, serving := some message }
      (Function.update stage message.id .arrived) := by
  have hqueue := htracked.requests
  rw [hrequests] at hqueue
  obtain ⟨hrequest, hstage, hrest⟩ := hqueue.pop .arrived
  have hkeeps : KeepsCalls d.caller d.caller := keepsCalls_of_eq rfl
  exact {
    calls := htracked.calls.move (by rw [hstage]; decide) (by rw [hstage]; decide) (by decide)
    records := htracked.records.move (by rw [hstage]; decide) (by simp [hstage])
    answers := htracked.answers
    requests := hrest
    serving := fun other hother => by
      cases hother
      exact ⟨hrequest, Function.update_self _ _ _⟩
    replies := htracked.replies_stay hkeeps (.refl _) (by simp [hstage])
    answering := htracked.answering_stay hkeeps (.refl _) (by simp [hstage]) (by simp [hstage]) }

theorem deliver (htracked : Tracked format d stage) {message : RpcMessage} {replies : List RpcMessage}
    (hreplies : d.replies = message :: replies) :
    Tracked format { d with replies := replies, answering := .delivered message }
      (Function.update stage message.id .delivered) := by
  have hqueue := htracked.replies
  rw [hreplies] at hqueue
  obtain ⟨hreply, hstage, hrest⟩ := hqueue.pop .delivered
  have hkeeps : KeepsCalls d.caller d.caller := keepsCalls_of_eq rfl
  exact {
    calls := htracked.calls.move (by rw [hstage]; decide) (by rw [hstage]; decide) (by decide)
    records := htracked.records.move (by rw [hstage]; decide) (by simp [hstage])
    answers := htracked.answers
    requests := htracked.requests_stay hkeeps (by simp [hstage])
    serving := htracked.serving_stay hkeeps (by simp [hstage])
    replies := hrest
    answering := ⟨hreply, Function.update_self _ _ _⟩ }

theorem find (htracked : Tracked format d stage) {message : RpcMessage}
    (hanswering : d.answering = .delivered message) :
    Tracked format
      { d with
        caller := (d.caller.find message.id).1
        answering := .found (d.caller.find message.id).2 message }
      (Function.update stage message.id .found) := by
  have hhand := htracked.answering
  rw [hanswering] at hhand
  obtain ⟨hreply, hstage⟩ := hhand
  obtain ⟨hcalls, k, call, hcall, hid, hout⟩ := htracked.calls.find hstage
  have hkeeps : KeepsCalls d.caller (d.caller.find message.id).1 := keepsCalls_of_eq rfl
  exact {
    calls := hcalls
    records := (htracked.records.extend hkeeps).move (by rw [hstage]; decide) (by simp [hstage])
    answers := htracked.answers.keep hkeeps rfl (.refl _)
    requests := htracked.requests_stay hkeeps (by simp [hstage])
    serving := htracked.serving_stay hkeeps (by simp [hstage])
    replies := htracked.replies_stay hkeeps (.refl _) (by simp [hstage])
    answering := ⟨KeepsProduced.isReply hkeeps (.refl _) hreply, Function.update_self _ _ _, k, call,
      hcall, hid, hout⟩ }

theorem finish (htracked : Tracked format d stage)
    (hformat : ∀ response, format.parseFromString (format.serializeAsString response) = some response)
    {out : OutstandingCall} {message : RpcMessage} (hanswering : d.answering = .found out message) :
    Tracked format
      { d with caller := d.caller.finish format out message, answering := .idle }
      (Function.update stage message.id .answered) := by
  have hhand := htracked.answering
  rw [hanswering] at hhand
  obtain ⟨⟨request, hrequest, hreply, hsettles⟩, hstage, k, call, hcall, hid, rfl⟩ := hhand
  -- the reply is to the request of the call whose entry was found
  obtain rfl : request = call.message :=
    htracked.calls.request_inj hrequest ⟨k, call, hcall, rfl⟩ (hreply.symm.trans hid.symm)
  rw [← hid] at hstage ⊢
  have hquiet : d.caller.content k = .unmodified ∧ d.caller.runs k = [] := by
    apply htracked.calls.quiet
    intro other hother
    rw [hcall, Option.some.injEq] at hother
    rw [← hother, hstage]
    decide
  have hkeeps : KeepsCalls d.caller (d.caller.finish format (call.out k) message) :=
    keepsCalls_of_eq (d.caller.finish_calls format _ _)
  exact {
    calls := htracked.calls.finish hcall hstage
    records := (htracked.records.extend hkeeps).move (by rw [hstage]; decide) (by simp [hstage])
    answers := htracked.answers.finish hformat hcall hquiet hsettles
    requests := htracked.requests_stay hkeeps (by simp [hstage])
    serving := htracked.serving_stay hkeeps (by simp [hstage])
    replies := htracked.replies_stay hkeeps (.refl _) (by simp [hstage])
    answering := trivial }

/-- A request is handled: its id comes to the stage of the method that is called, or its refusal is on
its way. -/
theorem dispatch (htracked : Tracked format d stage) {j : Nat} {message : RpcMessage}
    {e : Callee Req Resp} {reply : Option RpcMessage} (hserving : d.serving = some message)
    (hdispatch : d.callee.dispatch j message = some (e, reply)) :
    ∃ next, Tracked format
      { d with callee := e, serving := none, replies := d.replies ++ reply.toList }
      (Function.update stage message.id next) := by
  obtain ⟨hrequest, hstage⟩ := htracked.serving message hserving
  have htype : message.type = .REQUEST := by
    obtain ⟨k, call, -, rfl⟩ := hrequest
    rfl
  have hkeeps : KeepsCalls d.caller d.caller := keepsCalls_of_eq rfl
  rw [Callee.dispatch] at hdispatch
  split at hdispatch
  · rename_i request hresolve hfree
    cases hdispatch
    refine ⟨.serving j, ?_⟩
    have hhandled : Records d.caller { d.callee with handled := d.callee.handled ++ [message] }
        (Function.update stage message.id (.serving j)) :=
      htracked.records.handle htype hstage (Nat.le_refl 3)
    have hproduced : KeepsProduced d.callee
        { d.callee with
          invocations := Function.update d.callee.invocations j (some { message, request })
          handled := d.callee.handled ++ [message] } :=
      ⟨rfl, fun l other hother _ =>
        update_eq_some.mpr (.inr ⟨ne_of_lookup hfree hother, hother⟩)⟩
    exact {
      calls := htracked.calls.move (by rw [hstage]; decide) (by rw [hstage]; exact Nat.le_succ 2)
        (by exact Nat.lt_of_lt_of_le (Nat.lt_succ_self 3) (by decide))
      records := hhandled.invoke hfree (Function.update_self _ _ _) hrequest hresolve
        (List.mem_append_right _ (List.mem_singleton_self _)) (by
          intro l other hother hid
          have hle := htracked.records.serving_le hother
          rw [hid, hstage] at hle
          exact absurd hle (by decide))
      answers := htracked.answers.keep hkeeps rfl hproduced
      requests := htracked.requests_stay hkeeps (by simp [hstage])
      serving := nofun
      replies := by
        rw [Option.toList_none, List.append_nil]
        exact htracked.replies_stay hkeeps hproduced (by simp [hstage])
      answering := htracked.answering_stay hkeeps hproduced (by simp [hstage]) (by simp [hstage]) }
  · cases hdispatch
  · rename_i error hresolve
    cases hdispatch
    refine ⟨.replied, ?_⟩
    have hhandled : Records d.caller { d.callee with handled := d.callee.handled ++ [message] }
        (Function.update stage message.id .replied) :=
      htracked.records.handle htype hstage (by decide)
    have hproduced : KeepsProduced d.callee
        { d.callee with
          handled := d.callee.handled ++ [message]
          emitted := d.callee.emitted ++ [Callee.refusal message.id error] } :=
      ⟨rfl, fun _ _ hother _ => hother⟩
    have hrefusal : IsReply format d.caller
        { d.callee with
          handled := d.callee.handled ++ [message]
          emitted := d.callee.emitted ++ [Callee.refusal message.id error] }
        (Callee.refusal message.id error) :=
      ⟨message, hrequest, rfl, .refusal hresolve⟩
    have hpush := (htracked.replies.mono fun _ => KeepsProduced.isReply hkeeps hproduced).push hrefusal
      (show stage message.id ≠ .replied by simp [hstage])
    exact {
      calls := htracked.calls.move (by rw [hstage]; decide) (by rw [hstage]; decide) (by decide)
      records := hhandled.emit (by rw [Callee.refusal, Function.update_self]; decide)
        (List.mem_append_right _ (List.mem_singleton_self message)) rfl (by
          intro other hother hid
          have hle := (htracked.records.emitted other hother).1
          rw [hid, Callee.refusal, hstage] at hle
          exact absurd hle (by decide))
      answers := htracked.answers.keep hkeeps rfl hproduced
      requests := htracked.requests_stay hkeeps (by simp [hstage])
      serving := nofun
      replies := hpush
      answering := htracked.answering_stay hkeeps hproduced (by simp [hstage]) (by simp [hstage]) }

theorem complete (htracked : Tracked format d stage) {j : Nat} {response : Resp}
    {e : Callee Req Resp} {reply : RpcMessage}
    (hcomplete : d.callee.complete format j response = some (e, reply)) :
    Tracked format { d with callee := e, replies := d.replies ++ [reply] }
      (Function.update stage reply.id .replied) := by
  have hkeeps : KeepsCalls d.caller d.caller := keepsCalls_of_eq rfl
  rw [Callee.complete] at hcomplete
  split at hcomplete
  · rename_i message request hinvocation
    cases hcomplete
    obtain ⟨hrequest, hresolve, hhandled⟩ := htracked.records.invocation hinvocation
    have hstage : stage message.id = .serving j := htracked.records.running hinvocation rfl
    have hproduced : KeepsProduced d.callee
        { d.callee with
          invocations :=
            Function.update d.callee.invocations j (some ⟨message, request, some response⟩)
          emitted := d.callee.emitted ++ [Callee.reply format message.id response] } := by
      refine ⟨rfl, fun l other hother hdone => update_eq_some.mpr (.inr ⟨?_, hother⟩)⟩
      intro hl
      rw [hl, hinvocation, Option.some.injEq] at hother
      rw [← hother] at hdone
      exact hdone rfl
    have hreply : IsReply format d.caller
        { d.callee with
          invocations :=
            Function.update d.callee.invocations j (some ⟨message, request, some response⟩)
          emitted := d.callee.emitted ++ [Callee.reply format message.id response] }
        (Callee.reply format message.id response) :=
      ⟨message, hrequest, rfl, .reply (Function.update_self _ _ _) rfl hresolve rfl⟩
    have hpush := (htracked.replies.mono fun _ => KeepsProduced.isReply hkeeps hproduced).push hreply
      (show stage message.id ≠ .replied by simp [hstage])
    change Tracked format _ (Function.update stage message.id .replied)
    exact {
      calls := htracked.calls.move (by rw [hstage]; exact Nat.le_add_left 1 2)
        (by rw [hstage]; exact Nat.le_succ 3) (by decide)
      records := (htracked.records.produce hinvocation response).emit
        (by rw [Callee.reply, Function.update_self]; decide) hhandled rfl (by
          intro other hother hid
          have hle := (htracked.records.emitted other hother).1
          rw [hid, Callee.reply, hstage] at hle
          exact absurd hle (Nat.not_succ_le_self 3))
      answers := htracked.answers.keep hkeeps rfl hproduced
      requests := htracked.requests_stay hkeeps (by simp [hstage])
      serving := htracked.serving_stay hkeeps (by simp [hstage])
      replies := hpush
      answering := htracked.answering_stay hkeeps hproduced (by simp [hstage]) (by simp [hstage]) }
  · cases hcomplete

end Tracked

theorem step_tracked {format : ResponseFormat Resp}
    (hformat : ∀ response, format.parseFromString (format.serializeAsString response) = some response)
    {d next : Dialogue Req Resp} {label : Label Resp} (htracked : ∃ stage, Tracked format d stage)
    (hstep : step format d label = .ok next) : ∃ stage, Tracked format next stage := by
  obtain ⟨stage, htracked⟩ := htracked
  cases label with
  | number k arguments =>
      simp only [step] at hstep
      split at hstep
      · rename_i caller hcaller
        cases hstep
        exact ⟨_, htracked.number hcaller⟩
      · cases hstep
  | register k =>
      simp only [step] at hstep
      split at hstep
      · rename_i caller hcaller
        cases hstep
        exact ⟨_, htracked.register hcaller⟩
      · cases hstep
  | send k =>
      simp only [step] at hstep
      split at hstep
      · rename_i caller message hcaller
        cases hstep
        exact ⟨_, htracked.send hcaller⟩
      · cases hstep
  | serve =>
      simp only [step] at hstep
      split at hstep
      · rename_i message requests _ hrequests
        cases hstep
        exact ⟨_, htracked.serve hrequests⟩
      · cases hstep
  | dispatch j =>
      simp only [step] at hstep
      split at hstep
      · rename_i message hserving
        split at hstep
        · rename_i callee reply hcallee
          cases hstep
          exact (htracked.dispatch hserving hcallee).imp' _ fun _ => id
        · cases hstep
      · cases hstep
  | complete j response =>
      simp only [step] at hstep
      split at hstep
      · rename_i callee reply hcallee
        cases hstep
        exact ⟨_, htracked.complete hcallee⟩
      · cases hstep
  | deliver =>
      simp only [step] at hstep
      split at hstep
      · rename_i message replies _ hreplies
        cases hstep
        exact ⟨_, htracked.deliver hreplies⟩
      · cases hstep
  | find =>
      simp only [step] at hstep
      split at hstep
      · rename_i message hanswering
        cases hstep
        exact ⟨_, htracked.find hanswering⟩
      · cases hstep
  | finish =>
      simp only [step] at hstep
      split at hstep
      · rename_i out message hanswering
        cases hstep
        exact ⟨_, htracked.finish hformat hanswering⟩
      · cases hstep

/-- What a caller and a callee can rely on. -/
structure Agreement (c : Caller Resp) (e : Callee Req Resp) : Prop where
  /-- Every closure is run at most once. -/
  once : ∀ k, (c.runs k).length ≤ 1
  /-- It is run with the answer to its own call. -/
  answer : ∀ {k content}, content ∈ c.runs k → ∃ call, c.calls k = some call ∧ Answer e call content
  /-- A request belongs to one call, and one method is called for it. -/
  request_inj : ∀ {k l call other}, c.calls k = some call → c.calls l = some other →
    call.message = other.message → k = l
  invocation_inj : ∀ {j l invocation other}, e.invocations j = some invocation →
    e.invocations l = some other → invocation.message = other.message → j = l
  /-- At most one response is sent for a request, with its id. -/
  emitted_nodup : (e.emitted.map RpcMessage.id).Nodup
  emitted_handled : ∀ message ∈ e.emitted, ∃ request ∈ e.handled,
    request.type = .REQUEST ∧ request.id = message.id

theorem Tracked.agreement {format : ResponseFormat Resp} {d : Dialogue Req Resp}
    (htracked : Tracked format d stage) : Agreement d.caller d.callee where
  once := htracked.answers.once
  answer := htracked.answers.answer
  request_inj hcall hother hmessage :=
    htracked.calls.id_inj hcall hother (congrArg RpcMessage.id hmessage)
  invocation_inj hinvocation hother hmessage :=
    htracked.records.invocation_inj hinvocation hother (congrArg RpcMessage.id hmessage)
  emitted_nodup := htracked.records.emitted_nodup
  emitted_handled message hmem := by
    obtain ⟨-, request, hrequest, hid⟩ := htracked.records.emitted message hmem
    exact ⟨request, hrequest, (htracked.records.handled request hrequest).1, hid⟩

/-- Nothing has happened yet. -/
def new (services : Option (Bytes → Option (Service Req))) : Dialogue Req Resp where
  caller := {}
  callee := { services := services }
  requests := []
  serving := none
  replies := []
  answering := .idle

theorem tracked_new (format : ResponseFormat Resp) (services : Option (Bytes → Option (Service Req))) :
    Tracked format (new services) fun _ => .unsent where
  calls := {
    id_le := by simp [new]
    id_inj := by simp [new]
    sent_iff := by simp [new]
    known := by simp [Stage.rank]
    outstanding := by simp [new]
    quiet := by simp [new] }
  records := {
    invocation := by simp [new]
    running := by simp [new]
    produced := by simp [new]
    invocation_inj := by simp [new]
    handled := by simp [new]
    handled_nodup := List.nodup_nil
    emitted := by simp [new]
    emitted_nodup := List.nodup_nil }
  answers := ⟨by simp [new], by simp [new]⟩
  requests := ⟨List.nodup_nil, by simp [new]⟩
  serving := by simp [new]
  replies := ⟨List.nodup_nil, by simp [new]⟩
  answering := trivial

/-- Caller and callee agree in every run. -/
theorem run_agreement {format : ResponseFormat Resp}
    (hformat : ∀ response, format.parseFromString (format.serializeAsString response) = some response)
    {services : Option (Bytes → Option (Service Req))} {final : Dialogue Req Resp}
    (hreachable : Reachable (step format) (new services) final) :
    Agreement final.caller final.callee := by
  obtain ⟨stage, htracked⟩ := Reachable.preserves (fun d => ∃ stage, Tracked format d stage)
    (fun _ _ _ => step_tracked hformat) ⟨_, tracked_new format services⟩ hreachable
  exact htracked.agreement

end Dialogue
end Muduo
