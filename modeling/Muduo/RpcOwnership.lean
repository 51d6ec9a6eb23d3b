import Mathlib.Data.List.Nodup
import Muduo.RpcDialogue

/-! A channel against a peer that sends what it likes. The response object and the closure of a call
belong to the entry in `outstandings_`, then to the `onRpcMessage` that has taken the entry out, and are
given up by it; what is still in `outstandings_` is given up by the destructor. -/

namespace Muduo

open Execution

variable {Req Resp : Type}

/-- What the critical sections of `mutex_` have done: a call has been entered, or a response has been
looked up. -/
inductive RpcEvent where
  | issued (k id : Nat)
  | response (id : Nat)
  deriving DecidableEq, Repr

/-- A channel with the record of its critical sections. -/
structure RpcClient (Req Resp : Type) where
  channel : RpcChannel Req Resp
  log : List RpcEvent := []
  /-- How often the closure of each call has been deleted by the destructor. -/
  discarded : Nat → Nat := fun _ => 0
  destroyed : Bool := false

/-- `delete` of a pointer, which may be null. -/
def tally (counts : Nat → Nat) : Option Nat → Nat → Nat
  | some k => Function.update counts k (counts k + 1)
  | none => counts

/-- The entries of `outstandings_`, by their keys. No other id has been given out. -/
def Caller.entries (c : Caller Resp) : List OutstandingCall :=
  (List.range (c.id + 1)).filterMap c.outstandings

namespace RpcClient

/-- The critical section that an action executes. -/
def section? (channel : RpcChannel Req Resp) : RpcChannel.Action Resp → Option RpcEvent
  | .register k => (channel.caller.calls k).map fun call => .issued k call.id
  | .find =>
      match channel.io with
      | .handling message => some (.response message.id)
      | _ => none
  | _ => none

/-- `~RpcChannel`. -/
def destroy (s : RpcClient Req Resp) : RpcClient Req Resp where
  channel := { s.channel with
    caller := { s.channel.caller with
      deleted := (s.channel.caller.entries.map OutstandingCall.response).foldl tally
        s.channel.caller.deleted } }
  log := s.log
  discarded := (s.channel.caller.entries.map OutstandingCall.done).foldl tally s.discarded
  destroyed := true

/-- The peer may send any message, at any time. -/
inductive Label (Resp : Type) where
  | action (action : RpcChannel.Action Resp)
  | arrive
  | receive (message : RpcMessage)
  | leave
  | destroy
  deriving DecidableEq, Repr

/-- A step of a channel that exists. -/
def advance (format : ResponseFormat Resp) (s : RpcClient Req Resp) :
    Label Resp → Except RpcStop (RpcClient Req Resp)
  | .action action =>
      match s.channel.act format action with
      | .ok (channel, _) =>
          .ok { s with channel := channel, log := s.log ++ (section? s.channel action).toList }
      | .error reason => .error reason
  | .arrive =>
      match s.channel.io with
      | .waiting => .ok { s with channel := { s.channel with io := .parsing } }
      | _ => .error .disabled
  | .receive message =>
      match s.channel.io with
      | .parsing => .ok { s with channel := { s.channel with io := .handling message } }
      | _ => .error .disabled
  | .leave =>
      match s.channel.io with
      | .parsing => .ok { s with channel := { s.channel with io := .waiting } }
      | _ => .error .disabled
  | .destroy =>
      match s.channel.io with
      | .waiting => .ok s.destroy
      | _ => .error .disabled

def step (format : ResponseFormat Resp) (s : RpcClient Req Resp) (label : Label Resp) :
    Except RpcStop (RpcClient Req Resp) :=
  if s.destroyed then .error .disabled else s.advance format label

/-- A new channel with the services it offers. -/
def new (services : Option (Bytes → Option (Service Req))) : RpcClient Req Resp where
  channel := { callee := { services := services } }

/-- A response has a `response` or an `error`. -/
def Carries (message : RpcMessage) : Prop :=
  message.type = .RESPONSE → message.response.isSome = true ∨ message.error.isSome = true

/-- The calls come with a response object and a closure, and responses carry something. -/
def Admissible : Label Resp → Prop
  | .action (.number _ arguments) => arguments.response = true ∧ arguments.done = true
  | .receive message => Carries message
  | _ => True

/-! ## The record -/

/-- The call has been entered, and no response with its id has been looked up since. -/
def Outstanding (log : List RpcEvent) (k id : Nat) : Prop :=
  ∃ front back, log = front ++ .issued k id :: back ∧ .response id ∉ back

variable {log : List RpcEvent} {k id : Nat}

theorem Outstanding.issued (h : Outstanding log k id) : .issued k id ∈ log := by
  obtain ⟨front, back, rfl, -⟩ := h
  exact List.mem_append_right _ List.mem_cons_self

theorem outstanding_concat_self (log : List RpcEvent) (k id : Nat) :
    Outstanding (log ++ [.issued k id]) k id := ⟨log, [], rfl, List.not_mem_nil⟩

/-- One more event in the record, of another call. -/
theorem outstanding_concat {event : RpcEvent} (hother : event ≠ .issued k id) :
    Outstanding (log ++ [event]) k id ↔ Outstanding log k id ∧ event ≠ .response id := by
  constructor
  · rintro ⟨front, back, hlog, hback⟩
    rcases List.eq_nil_or_concat back with rfl | ⟨rest, last, rfl⟩
    · exact absurd (List.cons.inj (List.append_inj' hlog rfl).2).1 hother
    · rw [List.concat_eq_append, ← List.cons_append, ← List.append_assoc] at hlog
      obtain ⟨hfront, hlast⟩ := List.append_inj' hlog rfl
      obtain rfl := (List.cons.inj hlast).1
      rw [List.concat_eq_append, List.mem_append, List.mem_singleton, not_or] at hback
      exact ⟨⟨front, rest, hfront, hback.1⟩, fun heq => hback.2 heq.symm⟩
  · rintro ⟨⟨front, back, rfl, hback⟩, hevent⟩
    refine ⟨front, back ++ [event], by rw [List.append_assoc, List.cons_append], ?_⟩
    rw [List.mem_append, List.mem_singleton, not_or]
    exact ⟨hback, fun heq => hevent heq.symm⟩

/-! ## Who owns the objects of a call -/

/-- The running `onRpcMessage` has taken out the entry of the call. -/
def Held (io : IoPhase) (k : Nat) : Prop := ∃ message, io = .found ⟨some k, some k⟩ message

/-- The objects of call `k`, once it has been entered: they belong to the entry, to the running
`onRpcMessage`, or to nobody. -/
inductive Owned (c : Caller Resp) (io : IoPhase) (log : List RpcEvent) (k id : Nat) : Prop where
  | entry (hentry : c.outstandings id = some ⟨some k, some k⟩) (hlog : Outstanding log k id)
      (hio : ¬ Held io k) (hdeleted : c.deleted k = 0) (hruns : c.runs k = [])
  | handler (hentry : c.outstandings id = none) (hlog : ¬ Outstanding log k id)
      (hio : Held io k) (hdeleted : c.deleted k = 0) (hruns : c.runs k = [])
  | released (hentry : c.outstandings id = none) (hlog : ¬ Outstanding log k id)
      (hio : ¬ Held io k) (hdeleted : c.deleted k = 1) (hruns : (c.runs k).length = 1)

theorem Owned.congr {c c' : Caller Resp} {io io' : IoPhase} {log' : List RpcEvent}
    (h : Owned c io log k id) (hentry : c'.outstandings id = c.outstandings id)
    (hlog : Outstanding log' k id ↔ Outstanding log k id) (hio : Held io' k ↔ Held io k)
    (hdeleted : c'.deleted k = c.deleted k) (hruns : c'.runs k = c.runs k) :
    Owned c' io' log' k id := by
  cases h with
  | entry h1 h2 h3 h4 h5 =>
      exact .entry (hentry.trans h1) (hlog.mpr h2) (mt hio.mp h3) (hdeleted.trans h4) (hruns.trans h5)
  | handler h1 h2 h3 h4 h5 =>
      exact .handler (hentry.trans h1) (mt hlog.mp h2) (hio.mpr h3) (hdeleted.trans h4)
        (hruns.trans h5)
  | released h1 h2 h3 h4 h5 =>
      exact .released (hentry.trans h1) (mt hlog.mp h2) (mt hio.mp h3) (hdeleted.trans h4)
        (hruns ▸ h5)

/-- Call `k` has been entered under `id`. -/
def Entered (c : Caller Resp) (k id : Nat) : Prop :=
  ∃ call, c.calls k = some call ∧ call.phase ≠ .numbered ∧ call.id = id

/-- The books of a channel that has not been destroyed. -/
structure Books (c : Caller Resp) (io : IoPhase) (log : List RpcEvent) : Prop where
  id_le : ∀ {k call}, c.calls k = some call → call.id ≤ c.id
  id_inj : ∀ {k l call other}, c.calls k = some call → c.calls l = some other →
    call.id = other.id → k = l
  pointers : ∀ {k call}, c.calls k = some call →
    call.arguments.response = true ∧ call.arguments.done = true
  owned : ∀ {k id}, Entered c k id → Owned c io log k id
  fresh : ∀ {k}, (∀ id, ¬ Entered c k id) → c.deleted k = 0 ∧ c.runs k = []
  entered : ∀ {id out}, c.outstandings id = some out → ∃ k, Entered c k id
  issued : ∀ {k id}, .issued k id ∈ log ↔ Entered c k id
  found : ∀ {out message}, io = .found out message →
    out = ⟨none, none⟩ ∨ ∃ k id, Entered c k id ∧ out = ⟨some k, some k⟩
  carries : ∀ {message}, io = .handling message → Carries message

theorem books_new : Books ({} : Caller Resp) .waiting [] where
  id_le hcall := by cases hcall
  id_inj hcall := by cases hcall
  pointers hcall := by cases hcall
  owned hentered := by
    obtain ⟨call, hcall, -⟩ := hentered
    cases hcall
  fresh _ := ⟨rfl, rfl⟩
  entered hentry := by cases hentry
  issued := ⟨fun hmem => absurd hmem List.not_mem_nil, fun ⟨_, hcall, _⟩ => by cases hcall⟩
  found hio := by cases hio
  carries hio := by cases hio

namespace Books

variable {c : Caller Resp} {io : IoPhase}

theorem entered_inj (h : Books c io log) {k l id : Nat} (hleft : Entered c k id)
    (hright : Entered c l id) : k = l := by
  obtain ⟨call, hcall, -, hid⟩ := hleft
  obtain ⟨other, hother, -, hid'⟩ := hright
  exact h.id_inj hcall hother (hid.trans hid'.symm)

theorem id_unique {k id id' : Nat} (hleft : Entered c k id) (hright : Entered c k id') : id = id' := by
  obtain ⟨call, hcall, -, rfl⟩ := hleft
  obtain ⟨other, hother, -, rfl⟩ := hright
  rw [hcall, Option.some.injEq] at hother
  rw [hother]

/-- An entry is that of the call that was entered under its id. -/
theorem entry_eq (h : Books c io log) {id : Nat} {out : OutstandingCall}
    (hentry : c.outstandings id = some out) :
    ∃ k, Entered c k id ∧ out = ⟨some k, some k⟩ := by
  obtain ⟨k, hentered⟩ := h.entered hentry
  refine ⟨k, hentered, ?_⟩
  cases h.owned hentered with
  | entry heq => exact (Option.some.inj (hentry.symm.trans heq))
  | handler heq | released heq => rw [heq] at hentry; cases hentry

/-- `outstandings_` has the calls that are outstanding. -/
theorem outstanding_iff (h : Books c io log) {id : Nat} {out : OutstandingCall} :
    c.outstandings id = some out ↔ ∃ k, Outstanding log k id ∧ out = ⟨some k, some k⟩ := by
  constructor
  · intro hentry
    obtain ⟨k, hentered, rfl⟩ := h.entry_eq hentry
    refine ⟨k, ?_, rfl⟩
    cases h.owned hentered with
    | entry _ hlog => exact hlog
    | handler heq | released heq => rw [heq] at hentry; cases hentry
  · rintro ⟨k, hlog, rfl⟩
    cases h.owned (h.issued.mp hlog.issued) with
    | entry heq => exact heq
    | handler _ hnot | released _ hnot => exact absurd hlog hnot

theorem counts_le (h : Books c io log) (k : Nat) : c.deleted k ≤ 1 ∧ (c.runs k).length ≤ 1 := by
  by_cases hentered : ∃ id, Entered c k id
  · obtain ⟨id, hentered⟩ := hentered
    cases h.owned hentered with
    | entry _ _ _ hdeleted hruns | handler _ _ _ hdeleted hruns | released _ _ _ hdeleted hruns =>
        simp [hdeleted, hruns]
  · obtain ⟨hdeleted, hruns⟩ := h.fresh (fun id hid => hentered ⟨id, hid⟩)
    simp [hdeleted, hruns]

/-! ## The steps -/

/-- The loop thread moves on and takes no entry with it. -/
theorem move (h : Books c io log) {io' : IoPhase} (hheld : ∀ k, ¬ Held io k)
    (hfound : ∀ out message, io' ≠ .found out message)
    (hcarries : ∀ message, io' = .handling message → Carries message) : Books c io' log := by
  refine { h with owned := ?_, found := ?_, carries := fun heq => hcarries _ heq }
  · intro k id hentered
    refine (h.owned hentered).congr rfl Iff.rfl ?_ rfl rfl
    exact ⟨fun ⟨message, heq⟩ => absurd heq (hfound _ message), fun hhere => absurd hhere (hheld k)⟩
  · exact fun heq => absurd heq (hfound _ _)

/-- The calls change, but not which of them have been entered. -/
theorem of_calls (h : Books c io log) {c' : Caller Resp}
    (hentered : ∀ {l id}, Entered c' l id ↔ Entered c l id)
    (hentries : c'.outstandings = c.outstandings) (hdeleted : c'.deleted = c.deleted)
    (hruns : c'.runs = c.runs) (hle : ∀ {l call}, c'.calls l = some call → call.id ≤ c'.id)
    (hinj : ∀ {l l' call other}, c'.calls l = some call → c'.calls l' = some other →
      call.id = other.id → l = l')
    (hpointers : ∀ {l call}, c'.calls l = some call →
      call.arguments.response = true ∧ call.arguments.done = true) : Books c' io log where
  id_le := hle
  id_inj := hinj
  pointers := hpointers
  owned hhere := (h.owned (hentered.mp hhere)).congr (congrFun hentries _) Iff.rfl Iff.rfl
    (congrFun hdeleted _) (congrFun hruns _)
  fresh hnone := by
    rw [hdeleted, hruns]
    exact h.fresh (fun id hid => hnone id (hentered.mpr hid))
  entered hentry := by
    rw [hentries] at hentry
    exact (h.entered hentry).imp fun l hl => hentered.mpr hl
  issued := h.issued.trans hentered.symm
  found hio := by
    refine (h.found hio).imp_right ?_
    rintro ⟨l, id, hl, hout⟩
    exact ⟨l, id, hentered.mpr hl, hout⟩
  carries := h.carries

theorem number (h : Books c io log) {c' : Caller Resp} {k : Nat} {arguments : CallArguments}
    (hnonnull : arguments.response = true ∧ arguments.done = true)
    (hnumber : c.number k arguments = some c') : Books c' io log := by
  rw [Caller.number] at hnumber
  split at hnumber
  · rename_i hfree
    cases hnumber
    refine h.of_calls ?_ rfl rfl rfl ?_ ?_ ?_
    · -- a call that only has its id has not been entered
      intro l id
      constructor
      · rintro ⟨call, hcall, hphase, hid⟩
        rcases Dialogue.update_eq_some.mp hcall with ⟨-, rfl⟩ | ⟨-, hold⟩
        · exact absurd rfl hphase
        · exact ⟨call, hold, hphase, hid⟩
      · rintro ⟨call, hcall, hphase, hid⟩
        have hne := Dialogue.ne_of_lookup hfree hcall
        exact ⟨call, Dialogue.update_eq_some.mpr (.inr ⟨hne, hcall⟩), hphase, hid⟩
    · intro l call hcall
      rcases Dialogue.update_eq_some.mp hcall with ⟨-, rfl⟩ | ⟨-, hold⟩
      · exact Nat.le_refl _
      · exact Nat.le_succ_of_le (h.id_le hold)
    · intro l l' call other hcall hother hid
      rcases Dialogue.update_eq_some.mp hcall with ⟨hl, rfl⟩ | ⟨-, hold⟩ <;>
        rcases Dialogue.update_eq_some.mp hother with ⟨hl', rfl⟩ | ⟨-, hold'⟩
      · rw [hl, hl']
      · exact absurd (h.id_le hold') (by simp only at hid; omega)
      · exact absurd (h.id_le hold) (by simp only at hid; omega)
      · exact h.id_inj hold hold' hid
    · intro l call hcall
      rcases Dialogue.update_eq_some.mp hcall with ⟨-, rfl⟩ | ⟨-, hold⟩
      · exact hnonnull
      · exact h.pointers hold
  · cases hnumber

theorem pointers_rephase (h : Books c io log) {k l : Nat} {call other : RpcCall} {phase : CallPhase}
    (hcall : c.calls k = some call)
    (hother : Function.update c.calls k (some { call with phase := phase }) l = some other) :
    other.arguments.response = true ∧ other.arguments.done = true := by
  obtain ⟨before, hold, -, hsame⟩ := Dialogue.calls_rephase hcall hother
  exact hsame ▸ h.pointers hold

/-- A call in its next phase has been entered. -/
theorem entered_rephase {c' : Caller Resp} (k : Nat) (call : RpcCall) (phase : CallPhase)
    (hcalls : c'.calls = Function.update c.calls k (some { call with phase := phase }))
    (hphase : phase ≠ .numbered) {l id : Nat} :
    Entered c' l id ↔ (l = k ∧ id = call.id) ∨ (l ≠ k ∧ Entered c l id) := by
  rw [Entered, hcalls]
  constructor
  · rintro ⟨other, hother, hentered, hid⟩
    rcases Dialogue.update_eq_some.mp hother with ⟨hl, rfl⟩ | ⟨hl, hold⟩
    · exact .inl ⟨hl, hid.symm⟩
    · exact .inr ⟨hl, other, hold, hentered, hid⟩
  · rintro (⟨rfl, rfl⟩ | ⟨hl, other, hold, hentered, hid⟩)
    · exact ⟨_, Function.update_self _ _ _, hphase, rfl⟩
    · exact ⟨other, Dialogue.update_eq_some.mpr (.inr ⟨hl, hold⟩), hentered, hid⟩

theorem send (h : Books c io log) {c' : Caller Resp} {k : Nat} {message : RpcMessage}
    (hsend : c.send k = some (c', message)) : Books c' io log := by
  rw [Caller.send] at hsend
  split at hsend
  · rename_i id arguments hcall
    cases hsend
    refine h.of_calls ?_ rfl rfl rfl (Dialogue.id_le_rephase h.id_le hcall)
      (Dialogue.id_inj_rephase h.id_inj hcall) (h.pointers_rephase hcall)
    intro l id'
    rw [entered_rephase (c := c) k ⟨id, arguments, .registered⟩ .sent rfl (by simp)]
    have hself : Entered c k id := ⟨_, hcall, by simp, rfl⟩
    by_cases hl : l = k
    · subst hl
      simp only [true_and, ne_eq, not_true_eq_false, false_and, or_false]
      exact ⟨fun heq => heq ▸ hself, fun hhere => id_unique hhere hself⟩
    · simp [hl]
  · cases hsend

/-- The call is entered: its objects belong to the new entry. -/
theorem register (h : Books c io log) {c' : Caller Resp} {k : Nat} {call : RpcCall}
    (hcall : c.calls k = some call) (hregister : c.register k = some c') :
    Books c' io (log ++ [.issued k call.id]) := by
  rw [Caller.register] at hregister
  split at hregister
  · rename_i id arguments hnumbered
    rw [hnumbered, Option.some.injEq] at hcall
    subst hcall
    cases hregister
    have hnot : ∀ id', ¬ Entered c k id' := by
      rintro id' ⟨other, hother, hphase, -⟩
      rw [hnumbered, Option.some.injEq] at hother
      exact hphase (hother ▸ rfl)
    have hout : RpcCall.out ⟨id, arguments, .registered⟩ k = ⟨some k, some k⟩ := by
      obtain ⟨hresponse, hdone⟩ := h.pointers hnumbered
      simp only [RpcCall.out]
      rw [hresponse, hdone]
      rfl
    obtain ⟨hdeleted, hruns⟩ := h.fresh hnot
    have hheld : ¬ Held io k := by
      rintro ⟨message, hio⟩
      rcases h.found hio with hnone | ⟨l, id', hl, hsame⟩
      · simp at hnone
      · obtain rfl : k = l := by simpa using hsame
        exact hnot _ hl
    have hother {l id' : Nat} (hl : l ≠ k) (hentered : Entered c l id') : id' ≠ id := by
      obtain ⟨other, hother, -, rfl⟩ := hentered
      exact fun hid => hl (h.id_inj hother hnumbered hid)
    rw [hout]
    have hentered : ∀ {l id'}, Entered { c with
          outstandings := Function.update c.outstandings id (some ⟨some k, some k⟩)
          calls := Function.update c.calls k (some ⟨id, arguments, .registered⟩) } l id' ↔
        (l = k ∧ id' = id) ∨ (l ≠ k ∧ Entered c l id') :=
      entered_rephase k ⟨id, arguments, .numbered⟩ .registered rfl (by simp)
    refine { id_le := Dialogue.id_le_rephase h.id_le hnumbered,
             id_inj := Dialogue.id_inj_rephase h.id_inj hnumbered,
             pointers := h.pointers_rephase hnumbered, owned := ?_, fresh := ?_, entered := ?_,
             issued := ?_, found := ?_, carries := h.carries }
    · intro l id' hl'
      rcases hentered.mp hl' with ⟨rfl, rfl⟩ | ⟨hl, hold⟩
      · exact .entry (Function.update_self _ _ _) (outstanding_concat_self _ _ _) hheld hdeleted hruns
      · refine (h.owned hold).congr (Function.update_of_ne (hother hl hold) _ _) ?_ Iff.rfl rfl rfl
        rw [outstanding_concat (by simp [Ne.symm hl])]
        simp
    · intro l hnone
      apply h.fresh
      intro id' hold
      have hl : l ≠ k := fun heq => hnot id' (heq ▸ hold)
      exact hnone id' (hentered.mpr (.inr ⟨hl, hold⟩))
    · intro id' out hentry
      by_cases hid : id' = id
      · exact ⟨k, hentered.mpr (.inl ⟨rfl, hid⟩)⟩
      · obtain ⟨l, hl⟩ := h.entered ((Function.update_of_ne hid _ _).symm.trans hentry)
        have hne : l ≠ k := fun heq => hnot id' (heq ▸ hl)
        exact ⟨l, hentered.mpr (.inr ⟨hne, hl⟩)⟩
    · intro l id'
      rw [List.mem_append, List.mem_singleton, h.issued, hentered]
      constructor
      · rintro (hold | heq)
        · exact .inr ⟨fun heq => hnot id' (heq ▸ hold), hold⟩
        · exact .inl (by simpa using heq)
      · rintro (⟨rfl, rfl⟩ | ⟨-, hold⟩)
        · exact .inr rfl
        · exact .inl hold
    · intro out message hio
      refine (h.found hio).imp_right ?_
      rintro ⟨l, id', hl, hsame⟩
      have hne : l ≠ k := fun heq => hnot id' (heq ▸ hl)
      exact ⟨l, id', hentered.mpr (.inr ⟨hne, hl⟩), hsame⟩
  · cases hregister

/-- A response with an id that has no entry changes nothing. -/
theorem find_unknown {n : Nat} (hnone : c.outstandings n = none) : c.find n = (c, ⟨none, none⟩) := by
  have hsame : Function.update c.outstandings n none = c.outstandings := by
    rw [← hnone, Function.update_eq_self]
  rw [Caller.find, hsame, hnone]
  rfl

/-- The entry is taken out: the objects of its call belong to the handler. -/
theorem find (h : Books c io log) {message : RpcMessage} (hio : io = .handling message) :
    Books (c.find message.id).1 (.found (c.find message.id).2 message)
      (log ++ [.response message.id]) := by
  have hheld : ∀ k, ¬ Held io k := by
    rintro k ⟨other, heq⟩
    rw [hio] at heq
    cases heq
  have hissued : ∀ {l id}, .issued l id ∈ log ++ [.response message.id] ↔ Entered c l id := by
    intro l id
    rw [List.mem_append, List.mem_singleton, h.issued]
    simp
  cases hentry : c.outstandings message.id with
  | none =>
      rw [find_unknown hentry]
      refine { h with owned := ?_, issued := hissued, found := ?_, carries := by simp }
      · intro l id hl
        refine (h.owned hl).congr rfl ?_ ?_ rfl rfl
        · rw [outstanding_concat (by simp), and_iff_left_iff_imp]
          intro hlog heq
          obtain rfl : message.id = id := by simpa using heq
          have hsome := h.outstanding_iff.mpr ⟨l, hlog, rfl⟩
          rw [hentry] at hsome
          cases hsome
        · refine iff_of_false ?_ (hheld l)
          rintro ⟨_, heq⟩
          simp at heq
      · intro out other heq
        exact .inl (IoPhase.found.inj heq).1.symm
  | some out =>
      obtain ⟨k, hentered, rfl⟩ := h.entry_eq hentry
      rw [Caller.find, hentry, Option.getD_some]
      refine { h with owned := ?_, entered := ?_, issued := hissued, found := ?_, carries := by simp }
      · intro l id hl
        by_cases hsame : l = k
        · subst hsame
          obtain rfl := id_unique hentered hl
          cases h.owned hl with
          | entry _ hlog _ hdeleted hruns =>
              refine .handler (Function.update_self _ _ _) ?_ ⟨message, rfl⟩ hdeleted hruns
              rw [outstanding_concat (by simp)]
              simp
          | handler hnone | released hnone => rw [hnone] at hentry; cases hentry
        · have hid : id ≠ message.id := fun heq => hsame (h.entered_inj (heq ▸ hl) hentered)
          refine (h.owned hl).congr (Function.update_of_ne hid _ _) ?_ ?_ rfl rfl
          · rw [outstanding_concat (by simp), and_iff_left]
            simpa using hid.symm
          · refine iff_of_false ?_ (hheld l)
            rintro ⟨_, heq⟩
            have : k = l := by simpa using (IoPhase.found.inj heq).1
            exact absurd this.symm hsame
      · intro id out hout
        by_cases hid : id = message.id
        · subst hid
          simp at hout
        · exact h.entered ((Function.update_of_ne hid _ _).symm.trans hout)
      · intro out other heq
        exact .inr ⟨k, message.id, hentered, (IoPhase.found.inj heq).1.symm⟩

/-- The handler runs the closure and deletes the response object. -/
theorem finish (h : Books c io log) (format : ResponseFormat Resp) {out : OutstandingCall}
    {message : RpcMessage} (hio : io = .found out message) :
    Books (c.finish format out message) .parsing log := by
  have hnotHeld : ∀ k, ¬ Held .parsing k := by
    rintro k ⟨other, heq⟩
    cases heq
  rcases h.found hio with rfl | ⟨k, id, hentered, rfl⟩
  · refine h.move ?_ (by simp) (by simp)
    rintro k ⟨other, heq⟩
    rw [hio] at heq
    simp at heq
  · have hheld : Held io k := ⟨message, hio⟩
    have hsame {l id' : Nat} :
        Entered (c.finish format ⟨some k, some k⟩ message) l id' ↔ Entered c l id' := by
      rw [Entered, Caller.finish_calls]
      exact Iff.rfl
    have hother {l : Nat} (hl : l ≠ k) :
        (c.finish format ⟨some k, some k⟩ message).deleted l = c.deleted l ∧
          (c.finish format ⟨some k, some k⟩ message).runs l = c.runs l := by
      simp [Caller.finish, Function.update_of_ne hl]
    refine { id_le := ?_, id_inj := ?_, pointers := ?_, owned := ?_, fresh := ?_, entered := ?_,
             issued := h.issued.trans hsame.symm, found := by simp, carries := by simp }
    · rw [Caller.finish_calls, Caller.finish_id]
      exact h.id_le
    · rw [Caller.finish_calls]
      exact h.id_inj
    · rw [Caller.finish_calls]
      exact h.pointers
    · intro l id' hl
      rw [hsame] at hl
      have hentries := congrFun (c.finish_outstandings format ⟨some k, some k⟩ message) id'
      by_cases heq : l = k
      · subst heq
        cases h.owned hl with
        | entry _ _ hnot | released _ _ hnot => exact absurd hheld hnot
        | handler hnone hlog _ hdeleted hruns =>
            refine .released (hentries.trans hnone) hlog (hnotHeld l) ?_ ?_
            · simp [Caller.finish, hdeleted]
            · simp [Caller.finish, hruns]
      · obtain ⟨hdeleted, hruns⟩ := hother heq
        refine (h.owned hl).congr hentries Iff.rfl ?_ hdeleted hruns
        refine iff_of_false (hnotHeld l) ?_
        rintro ⟨other, hfound⟩
        rw [hio] at hfound
        have : k = l := by simpa using (IoPhase.found.inj hfound).1
        exact absurd this.symm heq
    · intro l hnone
      have hl : l ≠ k := fun heq => hnone id (hsame.mpr (heq ▸ hentered))
      obtain ⟨hdeleted, hruns⟩ := hother hl
      rw [hdeleted, hruns]
      exact h.fresh (fun id' hid => hnone id' (hsame.mpr hid))
    · intro id' out hout
      rw [Caller.finish_outstandings] at hout
      exact (h.entered hout).imp fun l hl => hsame.mpr hl

/-! ## The destructor -/

theorem mem_entries (h : Books c io log) {out : OutstandingCall} :
    out ∈ c.entries ↔ ∃ k id, Outstanding log k id ∧ out = ⟨some k, some k⟩ := by
  rw [Caller.entries, List.mem_filterMap]
  constructor
  · rintro ⟨id, -, hentry⟩
    obtain ⟨k, hlog, rfl⟩ := h.outstanding_iff.mp hentry
    exact ⟨k, id, hlog, rfl⟩
  · rintro ⟨k, id, hlog, rfl⟩
    obtain ⟨call, hcall, -, rfl⟩ := h.issued.mp hlog.issued
    refine ⟨call.id, ?_, h.outstanding_iff.mpr ⟨k, hlog, rfl⟩⟩
    rw [List.mem_range]
    exact Nat.lt_succ_of_le (h.id_le hcall)

/-- The entries of different ids name different objects. -/
theorem entries_nodup (h : Books c io log) {pointer : OutstandingCall → Option Nat}
    (hpointer : ∀ k, pointer ⟨some k, some k⟩ = some k) : (c.entries.map pointer).Nodup := by
  rw [Caller.entries, List.map_filterMap]
  refine List.Nodup.filterMap ?_ List.nodup_range
  intro id id' value hvalue hvalue'
  obtain ⟨out, hentry, rfl⟩ := Option.map_eq_some_iff.mp hvalue
  obtain ⟨out', hentry', hsame⟩ := Option.map_eq_some_iff.mp hvalue'
  obtain ⟨k, hentered, rfl⟩ := h.entry_eq hentry
  obtain ⟨k', hentered', rfl⟩ := h.entry_eq hentry'
  rw [hpointer, hpointer, Option.some.injEq] at hsame
  exact id_unique hentered (hsame ▸ hentered')

theorem mem_entries_map (h : Books c io log) {pointer : OutstandingCall → Option Nat}
    (hpointer : ∀ k, pointer ⟨some k, some k⟩ = some k) {k : Nat} :
    some k ∈ c.entries.map pointer ↔ ∃ id, Outstanding log k id := by
  rw [List.mem_map]
  constructor
  · rintro ⟨out, hout, hsame⟩
    obtain ⟨l, id, hlog, rfl⟩ := h.mem_entries.mp hout
    rw [hpointer, Option.some.injEq] at hsame
    exact ⟨id, hsame ▸ hlog⟩
  · rintro ⟨id, hlog⟩
    exact ⟨_, h.mem_entries.mpr ⟨k, id, hlog, rfl⟩, hpointer k⟩

end Books

theorem foldl_tally (pointers : List (Option Nat)) (counts : Nat → Nat) (k : Nat) :
    pointers.foldl tally counts k = counts k + pointers.count (some k) := by
  induction pointers generalizing counts with
  | nil => rfl
  | cons pointer pointers ih =>
      rw [List.foldl_cons, ih, List.count_cons]
      cases pointer with
      | none => rfl
      | some l =>
          by_cases hl : l = k
          · subst hl
            simp only [tally, Function.update_self, beq_self_eq_true, if_true]
            omega
          · have hne : (some l == some k) = false := by simpa using hl
            simp only [tally, Function.update_of_ne (Ne.symm hl), hne]
            simp

/-- What the destructor has deleted of the objects of a call. -/
theorem Books.tally_entries {c : Caller Resp} {io : IoPhase} (h : Books c io log)
    (pointer : OutstandingCall → Option Nat) (hpointer : ∀ k, pointer ⟨some k, some k⟩ = some k)
    (counts : Nat → Nat) (k : Nat) :
    ((∃ id, Outstanding log k id) → (c.entries.map pointer).foldl tally counts k = counts k + 1) ∧
      ((¬ ∃ id, Outstanding log k id) → (c.entries.map pointer).foldl tally counts k = counts k) := by
  rw [foldl_tally]
  constructor
  · intro hlog
    rw [List.count_eq_one_of_mem (h.entries_nodup hpointer) ((h.mem_entries_map hpointer).mpr hlog)]
  · intro hnone
    rw [List.count_eq_zero_of_not_mem (mt (h.mem_entries_map hpointer).mp hnone), Nat.add_zero]

/-! ## Whole runs -/

/-- The channel has not been destroyed, and its books are in order. -/
structure Alive (s : RpcClient Req Resp) : Prop where
  exists_ : s.destroyed = false
  discarded : ∀ k, s.discarded k = 0
  books : Books s.channel.caller s.channel.io s.log

theorem alive_new (services : Option (Bytes → Option (Service Req))) :
    Alive (new services : RpcClient Req Resp) where
  exists_ := rfl
  discarded _ := rfl
  books := books_new

variable {format : ResponseFormat Resp} {s next : RpcClient Req Resp} {label : Label Resp}

theorem Alive.step_eq (h : Alive s) (label : Label Resp) :
    RpcClient.step format s label = s.advance format label := by
  rw [RpcClient.step, h.exists_]
  rfl

theorem step_destroy (s : RpcClient Req Resp) (label : Label Resp) :
    step format s.destroy label = .error .disabled := rfl

theorem Alive.action (h : Alive s) {action : RpcChannel.Action Resp}
    (hadmissible : Admissible (.action action)) {channel : RpcChannel Req Resp}
    {message : Option RpcMessage} (hact : s.channel.act format action = .ok (channel, message)) :
    Books channel.caller channel.io (s.log ++ (section? s.channel action).toList) := by
  have hbooks := h.books
  have hmove {io : IoPhase} (hio : ∀ k, ¬ Held s.channel.io k)
      (hplain : io = .parsing) : Books s.channel.caller io s.log :=
    hbooks.move hio (by simp [hplain]) (by simp [hplain])
  cases RpcChannel.acted hact with
  | number hcaller =>
      simp only [section?, Option.toList_none, List.append_nil]
      exact hbooks.number hadmissible hcaller
  | @register k caller hcaller =>
      obtain ⟨call, hcall⟩ : ∃ call, s.channel.caller.calls k = some call := by
        rw [Caller.register] at hcaller
        split at hcaller
        · exact ⟨_, ‹_›⟩
        · cases hcaller
      rw [section?, hcall]
      exact hbooks.register hcall hcaller
  | send hcaller =>
      simp only [section?, Option.toList_none, List.append_nil]
      exact hbooks.send hcaller
  | find hio htype =>
      simp only [section?, hio]
      exact hbooks.find hio
  | finish hio =>
      simp only [section?, Option.toList_none, List.append_nil]
      exact hbooks.finish format hio
  | dispatch hio htype hcallee | ignore hio htype =>
      simp only [section?, Option.toList_none, List.append_nil]
      exact hmove (by rintro k ⟨other, heq⟩; rw [hio] at heq; cases heq) rfl
  | complete hcallee =>
      simp only [section?, Option.toList_none, List.append_nil]
      exact hbooks

/-- A step keeps the books in order, or is the destructor. -/
theorem Alive.step (h : Alive s) (hadmissible : Admissible label)
    (hstep : step format s label = .ok next) :
    Alive next ∨ s.channel.io = .waiting ∧ next = s.destroy := by
  rw [h.step_eq] at hstep
  have hbooks := h.books
  have hnotHeld {io : IoPhase} (hio : s.channel.io = io) (hplain : io = .waiting ∨ io = .parsing)
      (k : Nat) : ¬ Held s.channel.io k := by
    rintro ⟨message, heq⟩
    rw [hio] at heq
    rcases hplain with rfl | rfl <;> cases heq
  cases label with
  | action action =>
      simp only [advance] at hstep
      split at hstep
      · rename_i channel message hact
        cases hstep
        exact .inl ⟨h.exists_, h.discarded, h.action hadmissible hact⟩
      · cases hstep
  | arrive =>
      simp only [advance] at hstep
      split at hstep
      · rename_i hio
        cases hstep
        exact .inl ⟨h.exists_, h.discarded,
          hbooks.move (hnotHeld hio (.inl rfl)) (by simp) (by simp)⟩
      · cases hstep
  | receive message =>
      simp only [advance] at hstep
      split at hstep
      · rename_i hio
        cases hstep
        refine .inl ⟨h.exists_, h.discarded, hbooks.move (hnotHeld hio (.inr rfl)) (by simp) ?_⟩
        intro other heq
        obtain rfl := IoPhase.handling.inj heq
        exact hadmissible
      · cases hstep
  | leave =>
      simp only [advance] at hstep
      split at hstep
      · rename_i hio
        cases hstep
        exact .inl ⟨h.exists_, h.discarded,
          hbooks.move (hnotHeld hio (.inr rfl)) (by simp) (by simp)⟩
      · cases hstep
  | destroy =>
      simp only [advance] at hstep
      split at hstep
      · rename_i hio
        cases hstep
        exact .inr ⟨hio, rfl⟩
      · cases hstep

/-- The books at any moment. -/
def InOrder (s : RpcClient Req Resp) : Prop :=
  Alive s ∨ ∃ before, Alive before ∧ before.channel.io = .waiting ∧ s = before.destroy

theorem InOrder.step (h : InOrder s) (hadmissible : Admissible label)
    (hstep : RpcClient.step format s label = .ok next) : InOrder next := by
  rcases h with halive | ⟨before, -, -, rfl⟩
  · rcases halive.step hadmissible hstep with hnext | ⟨hio, rfl⟩
    · exact .inl hnext
    · exact .inr ⟨s, halive, hio, rfl⟩
  · rw [step_destroy] at hstep
    cases hstep

/-- What the channel makes of the objects of its calls. -/
structure Bookkeeping (s : RpcClient Req Resp) : Prop where
  /-- `outstandings_` contains exactly the calls that were issued and not answered. -/
  outstanding : ∀ id out, s.channel.caller.outstandings id = some out ↔
    ∃ k, Outstanding s.log k id ∧ out = ⟨some k, some k⟩
  runs : ∀ k, (s.channel.caller.runs k).length ≤ 1
  deleted : ∀ k, s.channel.caller.deleted k ≤ 1
  /-- Before the destructor, a response object is deleted by the first response to its call, at the end
  of `onRpcMessage`. -/
  answered : s.destroyed = false → ∀ k id, .issued k id ∈ s.log →
    (s.channel.caller.deleted k = 1 ↔ ¬ Outstanding s.log k id ∧ ¬ Held s.channel.io k)
  /-- After the destructor, every response object has been deleted once, and every closure has been run
  or deleted. -/
  destroyed : s.destroyed = true → ∀ k id, .issued k id ∈ s.log →
    s.channel.caller.deleted k = 1 ∧ (s.channel.caller.runs k).length + s.discarded k = 1

theorem Alive.bookkeeping (h : Alive s) : Bookkeeping s where
  outstanding id out := h.books.outstanding_iff
  runs k := (h.books.counts_le k).2
  deleted k := (h.books.counts_le k).1
  answered _ k id hissued := by
    cases h.books.owned (h.books.issued.mp hissued) with
    | entry _ hlog _ hdeleted => simp [hlog, hdeleted]
    | handler _ _ hio hdeleted => simp [hio, hdeleted]
    | released _ hlog hio hdeleted => simp [hlog, hio, hdeleted]
  destroyed hdestroyed := by
    rw [h.exists_] at hdestroyed
    cases hdestroyed

theorem Alive.bookkeeping_destroy (h : Alive s) (hwaiting : s.channel.io = .waiting) :
    Bookkeeping s.destroy := by
  have hbooks := h.books
  have hlonely : ∀ {k id}, .issued k id ∈ s.log → ¬ Outstanding s.log k id →
      ¬ ∃ other, Outstanding s.log k other := by
    rintro k id hissued hnot ⟨other, hother⟩
    exact hnot (Books.id_unique (hbooks.issued.mp hother.issued) (hbooks.issued.mp hissued) ▸ hother)
  have hobjects : ∀ {k id}, .issued k id ∈ s.log →
      s.destroy.channel.caller.deleted k = 1 ∧
        (s.destroy.channel.caller.runs k).length + s.destroy.discarded k = 1 := by
    intro k id hissued
    obtain ⟨hentry, hnone⟩ :=
      hbooks.tally_entries OutstandingCall.response (fun _ => rfl) s.channel.caller.deleted k
    obtain ⟨hentry', hnone'⟩ :=
      hbooks.tally_entries OutstandingCall.done (fun _ => rfl) s.discarded k
    simp only [destroy]
    cases hbooks.owned (hbooks.issued.mp hissued) with
    | entry _ hlog _ hdeleted hruns =>
        rw [hentry ⟨id, hlog⟩, hentry' ⟨id, hlog⟩, hdeleted, hruns, h.discarded]
        exact ⟨rfl, rfl⟩
    | handler _ _ hio =>
        obtain ⟨message, heq⟩ := hio
        rw [hwaiting] at heq
        cases heq
    | released _ hlog _ hdeleted hruns =>
        rw [hnone (hlonely hissued hlog), hnone' (hlonely hissued hlog), hdeleted, hruns, h.discarded]
        exact ⟨rfl, rfl⟩
  refine { outstanding := fun id out => hbooks.outstanding_iff,
           runs := fun k => (hbooks.counts_le k).2, deleted := fun k => ?_,
           answered := fun hnot => absurd hnot (by simp [destroy]),
           destroyed := fun _ k id => hobjects }
  by_cases hissued : ∃ id, .issued k id ∈ s.log
  · obtain ⟨id, hissued⟩ := hissued
    exact Nat.le_of_eq (hobjects hissued).1
  · obtain ⟨-, hnone⟩ :=
      hbooks.tally_entries OutstandingCall.response (fun _ => rfl) s.channel.caller.deleted k
    have hsame := hnone (fun ⟨id, hlog⟩ => hissued ⟨id, hlog.issued⟩)
    simp only [destroy]
    rw [hsame]
    exact (hbooks.counts_le k).1

/-- Nothing that the channel keeps for its calls or for those of its peer has changed. -/
def Unchanged (s next : RpcClient Req Resp) : Prop :=
  next.channel.caller = s.channel.caller ∧ next.channel.callee = s.channel.callee

theorem Alive.find_unknown (h : Alive s) {message : RpcMessage}
    (hio : s.channel.io = .handling message) (hunknown : ∀ k, ¬ Outstanding s.log k message.id)
    (hstep : RpcClient.step format s (.action .find) = .ok next) :
    Unchanged s next ∧ next.channel.io = .found ⟨none, none⟩ message := by
  have hnone : s.channel.caller.outstandings message.id = none := by
    rw [Option.eq_none_iff_forall_not_mem]
    intro out hout
    obtain ⟨k, hlog, -⟩ := h.books.outstanding_iff.mp hout
    exact hunknown k hlog
  rw [h.step_eq] at hstep
  simp only [advance] at hstep
  split at hstep
  · rename_i channel reply hact
    cases hstep
    cases RpcChannel.acted hact with
    | find hhere htype =>
        rw [hio] at hhere
        obtain rfl := IoPhase.handling.inj hhere
        rw [Unchanged, Books.find_unknown hnone]
        exact ⟨⟨rfl, rfl⟩, rfl⟩
  · cases hstep

theorem finish_unknown {message : RpcMessage} (hio : s.channel.io = .found ⟨none, none⟩ message)
    (hstep : step format s (.action .finish) = .ok next) : Unchanged s next := by
  rw [step] at hstep
  split at hstep
  · cases hstep
  · simp only [advance, RpcChannel.act, hio] at hstep
    cases hstep
    exact ⟨rfl, rfl⟩

theorem Alive.step_ne_assertion (h : Alive s) :
    RpcClient.step format s label ≠ .error .assertion := by
  intro hstep
  rw [h.step_eq] at hstep
  cases label with
  | action action =>
      simp only [advance] at hstep
      split at hstep
      · cases hstep
      · rename_i hact
        cases hstep
        obtain ⟨-, message, hio, htype, hresponse, herror⟩ := RpcChannel.act_assertion.mp hact
        have := h.books.carries hio htype
        simp [hresponse, herror] at this
  | arrive | receive message | leave | destroy =>
      simp only [advance] at hstep; split at hstep <;> cases hstep

/-- **Bookkeeping against any peer.** However calls and messages interleave, `outstandings_` has the calls
that were issued and not answered, no closure is run twice, and every response object is deleted exactly
once by the end of the destructor. A response with an id that is not outstanding changes nothing, and no
assertion fails. -/
theorem client_bookkeeping (format : ResponseFormat Resp)
    (services : Option (Bytes → Option (Service Req))) {labels : List (Label Resp)}
    {final : RpcClient Req Resp} (hadmissible : ∀ label ∈ labels, Admissible label)
    (hrun : run (step format) (new services) labels = .ok final) :
    Bookkeeping final ∧
      (∀ message next, final.channel.io = .handling message →
        (∀ k, ¬ Outstanding final.log k message.id) →
        step format final (.action .find) = .ok next →
        Unchanged final next ∧ next.channel.io = .found ⟨none, none⟩ message) ∧
      (∀ message next, final.channel.io = .found ⟨none, none⟩ message →
        step format final (.action .finish) = .ok next → Unchanged final next) ∧
      ∀ label, step format final label ≠ .error .assertion := by
  have horder : InOrder final :=
    run_preserves_of_meets InOrder (fun _ _ _ h hlabel hstep => h.step hlabel hstep)
      (.inl (alive_new services)) (meets_of_forall hadmissible _) hrun
  refine ⟨?_, ?_, fun message next => finish_unknown, ?_⟩
  · rcases horder with halive | ⟨before, halive, hio, rfl⟩
    · exact halive.bookkeeping
    · exact halive.bookkeeping_destroy hio
  · intro message next hio hunknown hstep
    rcases horder with halive | ⟨before, -, hwaiting, rfl⟩
    · exact halive.find_unknown hio hunknown hstep
    · rw [destroy, hwaiting] at hio
      cases hio
  · intro label
    rcases horder with halive | ⟨before, -, -, rfl⟩
    · exact halive.step_ne_assertion
    · rw [step_destroy]
      simp

/-- Two calls. The peer answers the first one twice and an id that was never issued, and leaves the second
one to the destructor. -/
def replayed : List (Label Bytes) :=
  let arguments : CallArguments := { service := [1], method := [2], request := [3] }
  let answer (id : Nat) : RpcMessage := { type := .RESPONSE, id := id, response := some [5] }
  [.action (.number 7 arguments), .action (.number 8 arguments), .action (.register 7),
    .action (.register 8), .action (.send 7), .arrive, .receive (answer 1), .action .find,
    .action .finish, .receive (answer 1), .action .find, .action .finish, .receive (answer 9),
    .action .find, .action .finish, .leave, .destroy]

theorem client_bookkeeping_replayed :
    ∃ final : RpcClient Unit Bytes, run (step plainFormat) (new none) replayed = .ok final ∧
      final.log = [.issued 7 1, .issued 8 2, .response 1, .response 1, .response 9] ∧
      final.channel.caller.runs 7 = [.parsed [5]] ∧
      final.channel.caller.deleted 7 = 1 ∧ final.channel.caller.deleted 8 = 1 := by
  obtain ⟨final, hrun, hcheck⟩ := exists_of_outcome (step plainFormat) (new none : RpcClient Unit Bytes)
    replayed
    (fun s => s.destroyed && s.channel.caller.runs 7 == [.parsed [5]] &&
      s.log == [.issued 7 1, .issued 8 2, .response 1, .response 1, .response 9])
    (by decide +kernel)
  simp only [Bool.and_eq_true, beq_iff_eq] at hcheck
  obtain ⟨⟨hdestroyed, hruns⟩, hlog⟩ := hcheck
  have hadmissible : ∀ label ∈ replayed, Admissible label := by
    simp [replayed, Admissible, Carries]
  have hobjects := (client_bookkeeping plainFormat none hadmissible hrun).1.destroyed hdestroyed
  exact ⟨final, hrun, hlog, hruns, (hobjects 7 1 (by simp [hlog])).1, (hobjects 8 2 (by simp [hlog])).1⟩

end RpcClient
end Muduo
