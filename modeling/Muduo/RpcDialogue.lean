import Muduo.RpcChannel

/-! The calls of one channel and the services of the other, on streams of messages. Every id goes through
the same stages: the call sends its request, the request arrives, it is refused or a method runs for it,
the reply arrives, the entry of the call is taken out, and the call is answered. There is always exactly
one place where the stage of an id can advance, and that determines what a reply can be about. -/

namespace Muduo

open Execution

variable {Req Resp : Type}

/-- What the caller's loop thread is doing about replies. -/
inductive Answering where
  | idle
  | delivered (message : RpcMessage)
  | found (out : OutstandingCall) (message : RpcMessage)
  deriving DecidableEq, Repr

/-- The caller's half of one channel and the callee's half of the other. -/
structure Dialogue (Req Resp : Type) where
  caller : Caller Resp
  callee : Callee Req Resp
  /-- The requests that the callee has not decoded, and the one it is handling. -/
  requests : List RpcMessage
  serving : Option RpcMessage
  /-- The replies that the caller has not decoded, and the one it is handling. -/
  replies : List RpcMessage
  answering : Answering

namespace Dialogue

inductive Label (Resp : Type) where
  | number (k : Nat) (arguments : CallArguments)
  | register (k : Nat)
  | send (k : Nat)
  | serve
  | dispatch (j : Nat)
  | complete (j : Nat) (response : Resp)
  | deliver
  | find
  | finish

def step (format : ResponseFormat Resp) (d : Dialogue Req Resp) :
    Label Resp → Except Unit (Dialogue Req Resp)
  | .number k arguments =>
      match d.caller.number k arguments with
      | some caller => .ok { d with caller := caller }
      | none => .error ()
  | .register k =>
      match d.caller.register k with
      | some caller => .ok { d with caller := caller }
      | none => .error ()
  | .send k =>
      match d.caller.send k with
      | some (caller, message) => .ok { d with caller := caller, requests := d.requests ++ [message] }
      | none => .error ()
  | .serve =>
      match d.serving, d.requests with
      | none, message :: requests => .ok { d with requests := requests, serving := some message }
      | _, _ => .error ()
  | .dispatch j =>
      match d.serving with
      | some message =>
          match d.callee.dispatch j message with
          | some (callee, reply) =>
              .ok { d with callee := callee, serving := none, replies := d.replies ++ reply.toList }
          | none => .error ()
      | none => .error ()
  | .complete j response =>
      match d.callee.complete format j response with
      | some (callee, reply) => .ok { d with callee := callee, replies := d.replies ++ [reply] }
      | none => .error ()
  | .deliver =>
      match d.answering, d.replies with
      | .idle, message :: replies =>
          .ok { d with replies := replies, answering := .delivered message }
      | _, _ => .error ()
  | .find =>
      match d.answering with
      | .delivered message =>
          let found := d.caller.find message.id
          .ok { d with caller := found.1, answering := .found found.2 message }
      | _ => .error ()
  | .finish =>
      match d.answering with
      | .found out message =>
          .ok { d with caller := d.caller.finish format out message, answering := .idle }
      | _ => .error ()

/-! ## Stages -/

/-- How far an id has come. -/
inductive Stage where
  | unsent
  | requested
  | arrived
  | serving (j : Nat)
  | replied
  | delivered
  | found
  | answered
  deriving DecidableEq, Repr

def Stage.rank : Stage → Nat
  | .unsent => 0
  | .requested => 1
  | .arrived => 2
  | .serving _ => 3
  | .replied => 4
  | .delivered => 5
  | .found => 6
  | .answered => 7

variable {stage : Nat → Stage} {n : Nat} {next : Stage}

/-- An id at another stage does not notice that `n` advances. -/
theorem stage_stays {i : Nat} {here : Stage} (hstage : stage i = here) (hother : stage n ≠ here) :
    Function.update stage n next i = here := by
  rw [Function.update_of_ne, hstage]
  intro heq
  exact hother (heq ▸ hstage)

/-- What is behind an id stays behind it. -/
theorem le_rank_update (hforward : (stage n).rank ≤ next.rank) {i bound : Nat}
    (hbound : bound ≤ (stage i).rank) : bound ≤ (Function.update stage n next i).rank := by
  by_cases heq : i = n
  · subst heq
    rw [Function.update_self]
    exact Nat.le_trans hbound hforward
  · rwa [Function.update_of_ne heq]

/-- An id that advances on one side of a bound does not change which ids are on that side. -/
theorem rank_update_lt {bound : Nat} (hhere : (stage n).rank < bound) (hnext : next.rank < bound)
    (i : Nat) : (Function.update stage n next i).rank < bound ↔ (stage i).rank < bound := by
  by_cases heq : i = n
  · subst heq
    rw [Function.update_self]
    exact iff_of_true hnext hhere
  · rw [Function.update_of_ne heq]

theorem le_rank_update_iff {bound : Nat} (hhere : bound ≤ (stage n).rank) (hnext : bound ≤ next.rank)
    (i : Nat) : bound ≤ (Function.update stage n next i).rank ↔ bound ≤ (stage i).rank := by
  by_cases heq : i = n
  · subst heq
    rw [Function.update_self]
    exact iff_of_true hnext hhere
  · rw [Function.update_of_ne heq]

/-! ## The caller -/

theorem update_eq_some {α : Type} {f : Nat → Option α} {k l : Nat} {value other : α} :
    Function.update f k (some value) l = some other ↔
      (l = k ∧ other = value) ∨ (l ≠ k ∧ f l = some other) := by
  by_cases heq : l = k
  · subst heq
    simp [eq_comm]
  · simp [heq]

theorem ne_of_lookup {α : Type} {f : Nat → Option α} {k l : Nat} {value : α} (hfree : f k = none)
    (hlookup : f l = some value) : l ≠ k := by
  intro heq
  rw [heq, hfree] at hlookup
  cases hlookup

/-- The message is the request of one of the calls. -/
def IsRequest (c : Caller Resp) (message : RpcMessage) : Prop :=
  ∃ k call, c.calls k = some call ∧ call.message = message

/-- No call is lost or changed but for its phase. -/
def KeepsCalls (c c' : Caller Resp) : Prop :=
  ∀ k call, c.calls k = some call →
    ∃ call', c'.calls k = some call' ∧ call'.id = call.id ∧ call'.arguments = call.arguments

theorem KeepsCalls.isRequest {c c' : Caller Resp} (hkeeps : KeepsCalls c c') {message : RpcMessage}
    (hrequest : IsRequest c message) : IsRequest c' message := by
  obtain ⟨k, call, hcall, rfl⟩ := hrequest
  obtain ⟨call', hcall', hid, harguments⟩ := hkeeps k call hcall
  refine ⟨k, call', hcall', ?_⟩
  rw [RpcCall.message, RpcCall.message, hid, harguments]

theorem keepsCalls_of_eq {c c' : Caller Resp} (hcalls : c'.calls = c.calls) : KeepsCalls c c' :=
  fun _ call hcall => ⟨call, hcalls ▸ hcall, rfl, rfl⟩

theorem keepsCalls_rephase {c : Caller Resp} {k : Nat} {call : RpcCall} (phase : CallPhase)
    (hcall : c.calls k = some call) :
    KeepsCalls c
      { c with calls := Function.update c.calls k (some { call with phase := phase }) } := by
  intro l before hbefore
  by_cases hl : l = k
  · subst hl
    rw [hcall, Option.some.injEq] at hbefore
    exact ⟨{ call with phase := phase }, Function.update_self _ _ _, by rw [← hbefore], by
      rw [← hbefore]⟩
  · exact ⟨before, by rw [← hbefore]; exact Function.update_of_ne hl _ _, rfl, rfl⟩

/-- A call that comes into its next phase is the call it was. -/
theorem calls_rephase {c : Caller Resp} {k l : Nat} {call other : RpcCall} {phase : CallPhase}
    (hcall : c.calls k = some call)
    (hother : Function.update c.calls k (some { call with phase := phase }) l = some other) :
    ∃ before, c.calls l = some before ∧ other.id = before.id ∧
      other.arguments = before.arguments := by
  rcases update_eq_some.mp hother with ⟨rfl, rfl⟩ | ⟨-, hold⟩
  · exact ⟨call, hcall, rfl, rfl⟩
  · exact ⟨other, hold, rfl, rfl⟩

theorem id_le_rephase {c : Caller Resp} (hle : ∀ {l other}, c.calls l = some other → other.id ≤ c.id)
    {k l : Nat} {call other : RpcCall} {phase : CallPhase} (hcall : c.calls k = some call)
    (hother : Function.update c.calls k (some { call with phase := phase }) l = some other) :
    other.id ≤ c.id := by
  obtain ⟨before, hold, hid, -⟩ := calls_rephase hcall hother
  exact hid ▸ hle hold

theorem id_inj_rephase {c : Caller Resp}
    (hinj : ∀ {l l' left right}, c.calls l = some left → c.calls l' = some right →
      left.id = right.id → l = l')
    {k l l' : Nat} {call left right : RpcCall} {phase : CallPhase} (hcall : c.calls k = some call)
    (hleft : Function.update c.calls k (some { call with phase := phase }) l = some left)
    (hright : Function.update c.calls k (some { call with phase := phase }) l' = some right)
    (hid : left.id = right.id) : l = l' := by
  obtain ⟨before, hold, hsame, -⟩ := calls_rephase hcall hleft
  obtain ⟨before', hold', hsame', -⟩ := calls_rephase hcall hright
  rw [hsame, hsame'] at hid
  exact hinj hold hold' hid

/-- The calls and the entries of the caller. An id has an entry from when its call is registered until its
entry is found, and nothing has happened to the response object until the call is answered. -/
structure Calls (c : Caller Resp) (stage : Nat → Stage) : Prop where
  id_le : ∀ {k call}, c.calls k = some call → call.id ≤ c.id
  id_inj : ∀ {k l call other}, c.calls k = some call → c.calls l = some other →
    call.id = other.id → k = l
  sent_iff : ∀ {k call}, c.calls k = some call → (call.phase = .sent ↔ 1 ≤ (stage call.id).rank)
  known : ∀ {i}, 1 ≤ (stage i).rank → ∃ k call, c.calls k = some call ∧ call.id = i
  outstanding : ∀ {k call}, c.calls k = some call → call.phase ≠ .numbered →
    (stage call.id).rank < 6 → c.outstandings call.id = some (call.out k)
  quiet : ∀ {k}, (∀ call, c.calls k = some call → (stage call.id).rank < 7) →
    c.content k = .unmodified ∧ c.runs k = []

namespace Calls

variable {c : Caller Resp}

theorem request_inj (hcalls : Calls c stage) {left right : RpcMessage} (hleft : IsRequest c left)
    (hright : IsRequest c right) (hid : left.id = right.id) : left = right := by
  obtain ⟨k, call, hcall, rfl⟩ := hleft
  obtain ⟨l, other, hother, rfl⟩ := hright
  obtain rfl := hcalls.id_inj hcall hother hid
  rw [hcall, Option.some.injEq] at hother
  rw [hother]

/-- The id of a request advances while its entry is outstanding. -/
theorem move (hcalls : Calls c stage) (hsent : 1 ≤ (stage n).rank)
    (hforward : (stage n).rank ≤ next.rank) (hnext : next.rank < 6) :
    Calls c (Function.update stage n next) := by
  have hsame := le_rank_update_iff hsent (Nat.le_trans hsent hforward)
  refine { hcalls with sent_iff := ?_, known := ?_, outstanding := ?_, quiet := ?_ }
  · intro k call hcall
    rw [hsame]
    exact hcalls.sent_iff hcall
  · intro i hi
    exact hcalls.known ((hsame i).mp hi)
  · intro k call hcall hphase hrank
    exact hcalls.outstanding hcall hphase ((rank_update_lt (by omega) hnext _).mp hrank)
  · intro k hrank
    apply hcalls.quiet
    intro call hcall
    exact (rank_update_lt (by omega) (by omega) _).mp (hrank call hcall)

theorem number (hcalls : Calls c stage) {c' : Caller Resp} {k : Nat} {arguments : CallArguments}
    (hnumber : c.number k arguments = some c') : Calls c' stage := by
  rw [Caller.number] at hnumber
  split at hnumber
  · rename_i hfree
    cases hnumber
    -- the new id is above all the ids that have been used
    have hunsent : (stage (c.id + 1)).rank = 0 := by
      by_contra hpos
      obtain ⟨l, call, hcall, hid⟩ := hcalls.known (Nat.one_le_iff_ne_zero.mpr hpos)
      have := hcalls.id_le hcall
      omega
    refine { id_le := ?_, id_inj := ?_, sent_iff := ?_, known := ?_, outstanding := ?_, quiet := ?_ }
    · intro l call hcall
      rcases update_eq_some.mp hcall with ⟨-, rfl⟩ | ⟨-, hold⟩
      · exact Nat.le_refl _
      · exact Nat.le_succ_of_le (hcalls.id_le hold)
    · intro l l' call other hcall hother hid
      rcases update_eq_some.mp hcall with ⟨hl, rfl⟩ | ⟨-, hold⟩ <;>
        rcases update_eq_some.mp hother with ⟨hl', rfl⟩ | ⟨-, hold'⟩
      · rw [hl, hl']
      · exact absurd (hcalls.id_le hold') (by simp only at hid; omega)
      · exact absurd (hcalls.id_le hold) (by simp only at hid; omega)
      · exact hcalls.id_inj hold hold' hid
    · intro l call hcall
      rcases update_eq_some.mp hcall with ⟨-, rfl⟩ | ⟨-, hold⟩
      · simp [hunsent]
      · exact hcalls.sent_iff hold
    · intro i hi
      obtain ⟨l, call, hcall, hid⟩ := hcalls.known hi
      exact ⟨l, call, update_eq_some.mpr (.inr ⟨ne_of_lookup hfree hcall, hcall⟩), hid⟩
    · intro l call hcall hphase hrank
      rcases update_eq_some.mp hcall with ⟨-, rfl⟩ | ⟨-, hold⟩
      · exact absurd rfl hphase
      · exact hcalls.outstanding hold hphase hrank
    · intro l hrank
      apply hcalls.quiet
      intro call hcall
      exact hrank call (update_eq_some.mpr (.inr ⟨ne_of_lookup hfree hcall, hcall⟩))
  · cases hnumber

theorem register (hcalls : Calls c stage) {c' : Caller Resp} {k : Nat}
    (hregister : c.register k = some c') : Calls c' stage := by
  rw [Caller.register] at hregister
  split at hregister
  · rename_i id arguments hcall
    cases hregister
    have hunsent := hcalls.sent_iff hcall
    refine { id_le := ?_, id_inj := ?_, sent_iff := ?_, known := ?_, outstanding := ?_, quiet := ?_ }
    · exact id_le_rephase hcalls.id_le hcall
    · exact id_inj_rephase hcalls.id_inj hcall
    · intro l other hother
      rcases update_eq_some.mp hother with ⟨-, rfl⟩ | ⟨-, hold⟩
      · simpa using hunsent
      · exact hcalls.sent_iff hold
    · intro i hi
      obtain ⟨l, before, hbefore, hid⟩ := hcalls.known hi
      obtain ⟨other, hother, hsame, -⟩ := keepsCalls_rephase .registered hcall l before hbefore
      exact ⟨l, other, hother, hsame.trans hid⟩
    · intro l other hother hphase hrank
      rcases update_eq_some.mp hother with ⟨rfl, rfl⟩ | ⟨hl, hold⟩
      · exact Function.update_self _ _ _
      · have hne : other.id ≠ id := fun hid => hl (hcalls.id_inj hold hcall hid)
        exact (Function.update_of_ne hne _ _).trans (hcalls.outstanding hold hphase hrank)
    · intro l hrank
      apply hcalls.quiet
      intro before hbefore
      obtain ⟨other, hother, hsame, -⟩ := keepsCalls_rephase .registered hcall l before hbefore
      exact hsame ▸ hrank other hother
  · cases hregister

/-- The call that sends leaves the first stage. -/
theorem send (hcalls : Calls c stage) {c' : Caller Resp} {k : Nat} {message : RpcMessage}
    (hsend : c.send k = some (c', message)) :
    stage message.id = .unsent ∧ Calls c' (Function.update stage message.id .requested) := by
  rw [Caller.send] at hsend
  split at hsend
  · rename_i id arguments hcall
    cases hsend
    have hunsent : stage id = .unsent := by
      have hzero := (not_congr (hcalls.sent_iff hcall)).mp (by simp)
      cases hstage : stage id <;> simp_all [Stage.rank]
    have hother {l : Nat} {other : RpcCall} (hl : l ≠ k) (hold : c.calls l = some other) :
        Function.update stage id .requested other.id = stage other.id :=
      Function.update_of_ne (fun hid => hl (hcalls.id_inj hold hcall hid)) _ _
    refine ⟨hunsent, ?_⟩
    change Calls _ (Function.update stage id .requested)
    refine { id_le := ?_, id_inj := ?_, sent_iff := ?_, known := ?_, outstanding := ?_, quiet := ?_ }
    · exact id_le_rephase hcalls.id_le hcall
    · exact id_inj_rephase hcalls.id_inj hcall
    · intro l call hcall'
      rcases update_eq_some.mp hcall' with ⟨-, rfl⟩ | ⟨hl, hold⟩
      · simp [Stage.rank]
      · rw [hother hl hold]
        exact hcalls.sent_iff hold
    · intro i hi
      by_cases heq : i = id
      · exact ⟨k, ⟨id, arguments, .sent⟩, Function.update_self _ _ _, heq.symm⟩
      · rw [Function.update_of_ne heq] at hi
        obtain ⟨l, before, hbefore, hid⟩ := hcalls.known hi
        obtain ⟨call, hcall', hsame, -⟩ := keepsCalls_rephase .sent hcall l before hbefore
        exact ⟨l, call, hcall', hsame.trans hid⟩
    · intro l call hcall' hphase hrank
      rcases update_eq_some.mp hcall' with ⟨rfl, rfl⟩ | ⟨hl, hold⟩
      · have hentry := hcalls.outstanding hcall (by simp) (by rw [hunsent]; decide)
        exact hentry
      · rw [hother hl hold] at hrank
        exact hcalls.outstanding hold hphase hrank
    · intro l hrank
      apply hcalls.quiet
      intro before hbefore
      by_cases hid : before.id = id
      · rw [hid, hunsent]
        decide
      · obtain ⟨call, hcall', hsame, -⟩ := keepsCalls_rephase .sent hcall l before hbefore
        have hlt := hrank call hcall'
        rwa [hsame, Function.update_of_ne hid] at hlt
  · cases hsend

/-- The entry of a delivered id is that of its call. It is taken out. -/
theorem find (hcalls : Calls c stage) (hstage : stage n = .delivered) :
    Calls (c.find n).1 (Function.update stage n .found) ∧
      ∃ k call, c.calls k = some call ∧ call.id = n ∧ (c.find n).2 = call.out k := by
  obtain ⟨k, call, hcall, rfl⟩ := hcalls.known (i := n) (by rw [hstage]; decide)
  have hsent : call.phase = .sent := (hcalls.sent_iff hcall).mpr (by rw [hstage]; decide)
  have hentry := hcalls.outstanding hcall (by rw [hsent]; decide) (by rw [hstage]; decide)
  have hhere : 1 ≤ (stage call.id).rank := by
    rw [hstage]
    decide
  have hsame := le_rank_update_iff hhere (show 1 ≤ Stage.found.rank by decide)
  refine ⟨{ hcalls with sent_iff := ?_, known := ?_, outstanding := ?_, quiet := ?_ }, k, call, hcall,
    rfl, by rw [Caller.find, hentry]; rfl⟩
  · intro l other hother
    rw [hsame]
    exact hcalls.sent_iff hother
  · exact fun hi => hcalls.known ((hsame _).mp hi)
  · intro l other hother hphase hrank
    by_cases hid : other.id = call.id
    · rw [hid, Function.update_self] at hrank
      exact absurd hrank (by decide)
    · rw [Function.update_of_ne hid] at hrank
      exact (Function.update_of_ne hid _ _).trans (hcalls.outstanding hother hphase hrank)
  · intro l hrank
    apply hcalls.quiet
    intro other hother
    exact (rank_update_lt (by rw [hstage]; decide) (by decide) _).mp (hrank other hother)

/-- The call of the entry is answered. Nothing happens to the other calls. -/
theorem finish (hcalls : Calls c stage) {format : ResponseFormat Resp} {message : RpcMessage} {k : Nat}
    {call : RpcCall} (hcall : c.calls k = some call) (hstage : stage call.id = .found) :
    Calls (c.finish format (call.out k) message) (Function.update stage call.id .answered) := by
  have hhere : 1 ≤ (stage call.id).rank := by
    rw [hstage]
    decide
  have hsame := le_rank_update_iff hhere (show 1 ≤ Stage.answered.rank by decide)
  refine { id_le := ?_, id_inj := ?_, sent_iff := ?_, known := ?_, outstanding := ?_, quiet := ?_ }
  · rw [Caller.finish_calls, Caller.finish_id]
    exact hcalls.id_le
  · rw [Caller.finish_calls]
    exact hcalls.id_inj
  · rw [Caller.finish_calls]
    intro l other hother
    rw [hsame]
    exact hcalls.sent_iff hother
  · rw [Caller.finish_calls]
    exact fun hi => hcalls.known ((hsame _).mp hi)
  · rw [Caller.finish_calls, Caller.finish_outstandings]
    intro l other hother hphase hrank
    by_cases hid : other.id = call.id
    · rw [hid, Function.update_self] at hrank
      exact absurd hrank (by decide)
    · rw [Function.update_of_ne hid] at hrank
      exact hcalls.outstanding hother hphase hrank
  · rw [Caller.finish_calls]
    intro l hrank
    have hl : l ≠ k := by
      intro heq
      have hlt := hrank call (heq ▸ hcall)
      rw [Function.update_self] at hlt
      exact absurd hlt (by decide)
    obtain ⟨hcontent, hruns⟩ := c.finish_other format call message hl
    rw [hcontent, hruns]
    apply hcalls.quiet
    intro other hother
    have hid : other.id ≠ call.id := fun heq => hl (hcalls.id_inj hother hcall heq)
    have hlt := hrank other hother
    rwa [Function.update_of_ne hid] at hlt

end Calls

end Dialogue
end Muduo
