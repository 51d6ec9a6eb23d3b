import Muduo.TcpConnectionOutput

/-! The notifications about the output of a connection: `writeCompleteCallback_` when the last byte has
been accepted, on the direct path or after a drain, and `highWaterMarkCallback_` when the backlog rises to
the mark. What a function does to the output is one of a few things, and each of them determines which of
the callbacks is queued. -/

namespace Muduo.Session

open Channel Execution

/-- What has been handed over and is still to be written. -/
def backlog (s : Session) : Bytes := s.outputBuffer.readable

/-- The callbacks of the user that have been queued, in order. A free run takes nothing from the queue. -/
def announced (s : Session) : List ConnectionFunctor :=
  s.queue.queued.filter ConnectionFunctor.isNotice

/-- No direct write has found the peer gone, and no empty message was handed over. -/
def Sound (s : Session) : Prop := s.faulted = false ∧ ∀ m ∈ s.messages, m.2 ≠ []

/-- The callback for a backlog that has grown. -/
def rising (mark before after : Nat) : List ConnectionFunctor :=
  if before < mark ∧ mark ≤ after then [.highWaterMarkCallback after] else []

/-- What a function can do to the output, and what it announces. -/
inductive Flow (mark : Nat) (s next : Session) : Prop where
  /-- The output is left alone. -/
  | still (haccepted : next.accepted = s.accepted) (hbacklog : next.backlog = s.backlog)
      (hmessages : next.messages = s.messages) (hannounced : next.announced = s.announced)
  /-- The direct write takes a whole message. -/
  | written (hempty : s.backlog = []) (hdone : next.backlog = [])
      (hannounced : next.announced = s.announced ++ [.writeCompleteCallback])
  /-- Some of a message is added to the backlog. -/
  | buffered (rest : Bytes) (hrest : rest ≠ []) (hbacklog : next.backlog = s.backlog ++ rest)
      (hannounced : next.announced =
        s.announced ++ rising mark s.backlog.length next.backlog.length)
  /-- Some of the backlog is written, and some is left. -/
  | flushed (hleft : next.backlog ≠ []) (hfewer : next.backlog.length ≤ s.backlog.length)
      (hannounced : next.announced = s.announced)
  /-- The rest of the backlog is written. -/
  | drained (hdone : next.backlog = [])
      (hannounced : next.announced = s.announced ++ [.writeCompleteCallback])

variable {s next : Session} {mark : Nat}

theorem announced_queueInLoop (s : Session) (f : ConnectionFunctor) :
    (s.queueInLoop f).announced = s.announced ++ if f.isNotice then [f] else [] := by
  simp only [announced, queueInLoop, FunctorQueue.queued_queueInLoop, List.filter_append]
  cases hnotice : f.isNotice <;> simp [hnotice]

/-- Only members that have nothing to do with the output have changed. -/
structure Silent (s next : Session) : Prop where
  outputBuffer : next.outputBuffer = s.outputBuffer
  accepted : next.accepted = s.accepted
  messages : next.messages = s.messages
  faulted : next.faulted = s.faulted
  announced : next.announced = s.announced
  writeComplete : next.writeCompleteCallback = s.writeCompleteCallback
  highWater : next.highWaterMarkCallback = s.highWaterMarkCallback
  mark : next.highWaterMark = s.highWaterMark

namespace Silent

theorem refl (s : Session) : Silent s s := ⟨rfl, rfl, rfl, rfl, rfl, rfl, rfl, rfl⟩

theorem queueInLoop (s : Session) {f : ConnectionFunctor} (hf : f.isNotice = false) :
    Silent s (s.queueInLoop f) where
  outputBuffer := rfl
  accepted := rfl
  messages := rfl
  faulted := rfl
  announced := by rw [announced_queueInLoop, hf]; simp
  writeComplete := rfl
  highWater := rfl
  mark := rfl

theorem sound (hquiet : Silent s next) (hsound : next.Sound) : s.Sound := by
  rw [Sound, ← hquiet.faulted, ← hquiet.messages]
  exact hsound

end Silent

/-! ## The two paths that write -/

/-- The callback was queued between the two states. -/
def QueuesComplete (before after : Session) : Prop :=
  before.announced.count .writeCompleteCallback < after.announced.count .writeCompleteCallback

/-- A function after which nothing is left to write has queued the callback, or has found things so. -/
theorem Flow.done (hflow : Flow mark s next) (hdone : next.backlog = []) :
    QueuesComplete s next ∨
      s.backlog = [] ∧ next.messages = s.messages ∧ next.accepted = s.accepted := by
  have hqueues (hannounced : next.announced = s.announced ++ [.writeCompleteCallback]) :
      QueuesComplete s next := by
    rw [QueuesComplete, hannounced, List.count_append]
    exact Nat.lt_succ_self _
  cases hflow with
  | still haccepted hbacklog hmessages hannounced =>
      exact .inr ⟨hbacklog ▸ hdone, hmessages, haccepted⟩
  | written hempty _ hannounced | drained _ hannounced => exact .inl (hqueues hannounced)
  | buffered rest hrest hbacklog hannounced =>
      rw [hbacklog] at hdone
      exact absurd (List.append_eq_nil_iff.mp hdone).2 hrest
  | flushed hleft hfewer hannounced => exact absurd hdone hleft

end Muduo.Session
