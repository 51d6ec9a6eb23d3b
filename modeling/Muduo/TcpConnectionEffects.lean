import Muduo.TcpConnection

/-! What each function of a connection does to it, stated once. As long as the poller mirrors the
channel no assertion of the channel or of the buffer fails in them, and every function leaves all
members alone that its equation does not name. -/

namespace Muduo

/-- A functor that invokes a callback of the user. -/
def ConnectionFunctor.isNotice : ConnectionFunctor → Bool
  | .writeCompleteCallback => true
  | .highWaterMarkCallback _ => true
  | _ => false

/-- Nothing but callbacks of the user has been queued. -/
def QueuesNotices (before after : FunctorQueue ConnectionFunctor) : Prop :=
  ∃ extra, after.queued = before.queued ++ extra ∧ ∀ f ∈ extra, f.isNotice = true

namespace QueuesNotices

theorem refl (queue : FunctorQueue ConnectionFunctor) : QueuesNotices queue queue :=
  ⟨[], by simp, by simp⟩

theorem push (queue : FunctorQueue ConnectionFunctor) {f : ConnectionFunctor}
    (hnotice : f.isNotice = true) : QueuesNotices queue (queue.queueInLoop f) :=
  ⟨[f], by simp, by simpa using hnotice⟩

theorem trans {first second third : FunctorQueue ConnectionFunctor}
    (hleft : QueuesNotices first second) (hright : QueuesNotices second third) :
    QueuesNotices first third := by
  obtain ⟨front, hfront, hfrontNotice⟩ := hleft
  obtain ⟨back, hback, hbackNotice⟩ := hright
  refine ⟨front ++ back, by rw [hback, hfront, List.append_assoc], ?_⟩
  intro f hf
  rcases List.mem_append.mp hf with h | h
  · exact hfrontNotice f h
  · exact hbackNotice f h

end QueuesNotices

namespace Session

open Channel

variable {s : Session}

theorem withChannel_setEvents (hmirror : s.channel.Mirrored) (events : EventMask) :
    s.withChannel (s.channel.setEvents events) =
      .ok { s with channel := s.channel.refreshed events } := by
  rw [setEvents_eq hmirror]
  rfl

/-- The half-close `shutdownInLoop` may issue. -/
def halfClose (s : Session) : List HalfClose :=
  if s.channel.isWriting then [] else [⟨s.state, s.outputBuffer.readable, s.accepted⟩]

theorem shutdownInLoop_eq (s : Session) :
    s.shutdownInLoop = { s with
      shutdownServed := s.shutdownServed || s.shutdownRequested
      halfCloses := s.halfCloses ++ s.halfClose } := by
  unfold shutdownInLoop halfClose
  cases hwriting : s.channel.isWriting <;> simp [shutdownWrite, hwriting]

/-- The queue once the output that is left over has been checked against the high-water mark. -/
def marked (s : Session) (remaining : Bytes) : FunctorQueue ConnectionFunctor :=
  if s.highWaterMark ≤ s.outputBuffer.readableBytes + remaining.length ∧
      s.outputBuffer.readableBytes < s.highWaterMark ∧ s.highWaterMarkCallback then
    s.queue.queueInLoop (.highWaterMarkCallback (s.outputBuffer.readableBytes + remaining.length))
  else s.queue

/-- The queue once the last byte has been accepted. -/
def completed (s : Session) : FunctorQueue ConnectionFunctor :=
  if s.writeCompleteCallback then s.queue.queueInLoop .writeCompleteCallback else s.queue

theorem queuesNotices_marked (s : Session) (remaining : Bytes) :
    QueuesNotices s.queue (s.marked remaining) := by
  unfold marked
  split_ifs
  · exact .push _ rfl
  · exact .refl _

theorem queuesNotices_completed (s : Session) : QueuesNotices s.queue s.completed := by
  unfold completed
  split_ifs
  · exact .push _ rfl
  · exact .refl _

theorem appendRemaining_spec (hmirror : s.channel.Mirrored) (remaining : Bytes) :
    ∃ buffer channel,
      s.appendRemaining remaining =
        .ok { s with queue := s.marked remaining, outputBuffer := buffer, channel := channel } ∧
      buffer.readable = s.outputBuffer.readable ++ remaining ∧
      ((channel = s.channel ∧ (remaining = [] ∨ s.channel.isWriting = true)) ∨
        (remaining ≠ [] ∧ channel = s.channel.refreshed (s.channel.events ||| kWriteEvent))) := by
  by_cases hempty : remaining = []
  · subst hempty
    have hqueue : s.marked [] = s.queue := by
      apply if_neg
      rintro ⟨habove, hbelow, -⟩
      exact Nat.not_lt_of_le habove hbelow
    exact ⟨s.outputBuffer, s.channel, by rw [hqueue]; rfl, by simp, .inl ⟨rfl, .inl rfl⟩⟩
  · have hpos : 0 < remaining.length := List.length_pos_iff.mpr hempty
    obtain ⟨longer, happend, hcontent⟩ := s.outputBuffer.append_readable remaining
    have hstate :
        (if s.highWaterMark ≤ s.outputBuffer.readableBytes + remaining.length ∧
            s.outputBuffer.readableBytes < s.highWaterMark ∧ s.highWaterMarkCallback then
          s.queueInLoop (.highWaterMarkCallback (s.outputBuffer.readableBytes + remaining.length))
        else s) = { s with queue := s.marked remaining } := by
      unfold marked
      split_ifs <;> rfl
    simp only [appendRemaining, if_pos hpos, hstate, happend]
    cases hwriting : s.channel.isWriting with
    | true => exact ⟨longer, s.channel, rfl, hcontent, .inl ⟨rfl, .inr rfl⟩⟩
    | false =>
        refine ⟨longer, _, ?_, hcontent, .inr ⟨hempty, rfl⟩⟩
        rw [enableWriting]
        exact withChannel_setEvents
          (s := { s with queue := s.marked remaining, outputBuffer := longer }) hmirror _

theorem sendInLoop_of_disconnected (hstate : s.state = .kDisconnected) (number : Nat) (data : Bytes)
    (write : WriteResult) : s.sendInLoop number data write = .ok s := by
  rw [sendInLoop, if_pos hstate]

/-- The two paths of `sendInLoop` together: unless the direct write reports that the peer is gone,
the message is behind everything taken over before, in part accepted and in part buffered. -/
theorem sendInLoop_spec (hmirror : s.channel.Mirrored) (hstate : s.state ≠ .kDisconnected)
    (number : Nat) (data : Bytes) (write : WriteResult) :
    ∃ queue buffer channel accepted faulted,
      s.sendInLoop number data write =
        .ok { s with queue := queue, outputBuffer := buffer, channel := channel,
                     messages := s.messages ++ [(number, data)], accepted := accepted,
                     faulted := faulted } ∧
      QueuesNotices s.queue queue ∧
      (faulted = false → s.faulted = false ∧
        accepted ++ buffer.readable = s.accepted ++ s.outputBuffer.readable ++ data) ∧
      ((channel = s.channel ∧
          (buffer.readable = s.outputBuffer.readable ∨
            s.channel.isWriting = true ∧ (s.outputBuffer.readable ≠ [] → buffer.readable ≠ []))) ∨
        (channel = s.channel.refreshed (s.channel.events ||| kWriteEvent) ∧
          buffer.readable ≠ [])) := by
  rw [sendInLoop, if_neg hstate]
  -- whatever is left over is appended, with `accepted` and the queue as the direct write left them
  have happend : ∀ (queue : FunctorQueue ConnectionFunctor) (accepted remaining : Bytes),
      QueuesNotices s.queue queue →
      accepted ++ s.outputBuffer.readable ++ remaining =
        s.accepted ++ s.outputBuffer.readable ++ data →
      ∃ queue' buffer channel,
        { s with queue := queue, messages := s.messages ++ [(number, data)],
                 accepted := accepted }.appendRemaining remaining =
          .ok { s with queue := queue', outputBuffer := buffer, channel := channel,
                       messages := s.messages ++ [(number, data)], accepted := accepted } ∧
        QueuesNotices s.queue queue' ∧
        accepted ++ buffer.readable = s.accepted ++ s.outputBuffer.readable ++ data ∧
        ((channel = s.channel ∧
            (buffer.readable = s.outputBuffer.readable ∨
              s.channel.isWriting = true ∧ (s.outputBuffer.readable ≠ [] → buffer.readable ≠ []))) ∨
          (channel = s.channel.refreshed (s.channel.events ||| kWriteEvent) ∧
            buffer.readable ≠ [])) := by
    intro queue accepted remaining hqueue hstream
    obtain ⟨buffer, channel, heq, hcontent, hchannel⟩ :=
      appendRemaining_spec (s := { s with
        queue := queue, messages := s.messages ++ [(number, data)], accepted := accepted })
        hmirror remaining
    refine ⟨_, buffer, channel, heq, hqueue.trans (queuesNotices_marked _ remaining), ?_, ?_⟩
    · rw [hcontent, ← List.append_assoc]
      exact hstream
    · rcases hchannel with ⟨rfl, rfl | hwriting⟩ | ⟨hremaining, rfl⟩
      · exact .inl ⟨rfl, .inl (by rw [hcontent, List.append_nil])⟩
      · exact .inl ⟨rfl, .inr ⟨hwriting, fun hne => by simp [hcontent, hne]⟩⟩
      · exact .inr ⟨rfl, by simp [hcontent, hremaining]⟩
  by_cases hdirect : (!s.channel.isWriting && s.outputBuffer.readableBytes == 0) = true
  · have hempty : s.outputBuffer.readable = [] := by
      rw [← Buffer.readableBytes_eq_zero]
      simp only [Bool.and_eq_true, beq_iff_eq] at hdirect
      exact hdirect.2
    simp only [hdirect, if_true]
    cases write with
    | accepts count =>
        have hstream : s.accepted ++ data.take count ++ s.outputBuffer.readable ++ data.drop count =
            s.accepted ++ s.outputBuffer.readable ++ data := by
          rw [hempty, List.append_nil, List.append_nil, List.append_assoc, List.take_append_drop]
        simp only
        split_ifs
        · obtain ⟨queue, buffer, channel, heq, hqueue, hnew, hchannel⟩ :=
            happend _ _ _ (.push s.queue (f := .writeCompleteCallback) rfl) hstream
          exact ⟨queue, buffer, channel, _, s.faulted, heq, hqueue, fun h => ⟨h, hnew⟩, hchannel⟩
        · obtain ⟨queue, buffer, channel, heq, hqueue, hnew, hchannel⟩ :=
            happend _ _ _ (.refl s.queue) hstream
          exact ⟨queue, buffer, channel, _, s.faulted, heq, hqueue, fun h => ⟨h, hnew⟩, hchannel⟩
    | fails errno =>
        simp only
        split_ifs
        · exact ⟨s.queue, s.outputBuffer, s.channel, s.accepted, true, rfl, .refl _, nofun,
            .inl ⟨rfl, .inl rfl⟩⟩
        · obtain ⟨queue, buffer, channel, heq, hqueue, hnew, hchannel⟩ :=
            happend _ _ _ (.refl s.queue) rfl
          exact ⟨queue, buffer, channel, _, s.faulted, heq, hqueue, fun h => ⟨h, hnew⟩, hchannel⟩
  · simp only [hdirect, if_false, Bool.false_eq_true]
    obtain ⟨queue, buffer, channel, heq, hqueue, hnew, hchannel⟩ :=
      happend _ _ _ (.refl s.queue) rfl
    exact ⟨queue, buffer, channel, _, s.faulted, heq, hqueue, fun h => ⟨h, hnew⟩, hchannel⟩

/-- Only a direct write that reports that the peer is gone makes the connection faulted. -/
theorem sendInLoop_faulted {next : Session} (hmirror : s.channel.Mirrored) {number : Nat} {data : Bytes}
    {write : WriteResult} (hpipe : write ≠ .fails .EPIPE) (hreset : write ≠ .fails .ECONNRESET)
    (hstep : s.sendInLoop number data write = .ok next) : next.faulted = s.faulted := by
  have happend {t : Session} {remaining : Bytes} (hrest : t.appendRemaining remaining = .ok next)
      (hmirrored : t.channel.Mirrored) (hfaulted : t.faulted = s.faulted) :
      next.faulted = s.faulted := by
    obtain ⟨buffer, channel, heq, -⟩ := appendRemaining_spec hmirrored remaining
    obtain rfl := Except.ok.inj (heq.symm.trans hrest)
    exact hfaulted
  by_cases hstate : s.state = .kDisconnected
  · rw [sendInLoop_of_disconnected hstate] at hstep
    exact congrArg faulted (Except.ok.inj hstep).symm
  · simp only [sendInLoop, if_neg hstate] at hstep
    split_ifs at hstep
    · cases write with
      | accepts count =>
          simp only at hstep
          split_ifs at hstep
          · exact happend hstep hmirror rfl
          · exact happend hstep hmirror rfl
      | fails errno =>
          have hother : ¬(errno = .EPIPE ∨ errno = .ECONNRESET) := by
            rintro (rfl | rfl)
            · exact hpipe rfl
            · exact hreset rfl
          simp only [if_neg hother] at hstep
          exact happend hstep hmirror rfl
    · exact happend hstep hmirror rfl

/-- The kernel takes everything `handleWrite` offers. -/
def Drains (s : Session) : WriteResult → Prop
  | .accepts count => s.channel.isWriting = true ∧ s.outputBuffer.readable ≠ [] ∧
      s.outputBuffer.readable.length ≤ count
  | .fails _ => False

instance (s : Session) : DecidablePred s.Drains
  | .accepts _ => inferInstanceAs (Decidable (_ ∧ _ ∧ _))
  | .fails _ => inferInstanceAs (Decidable False)

theorem Drains.isWriting {write : WriteResult} (hdrains : s.Drains write) :
    s.channel.isWriting = true := by
  cases write with
  | accepts count => exact hdrains.1
  | fails errno => exact hdrains.elim

theorem drained_eq (hmirror : s.channel.Mirrored) :
    s.drained = .ok { s with
      queue := s.completed
      channel := s.channel.refreshed (s.channel.events &&& ~~~kWriteEvent)
      shutdownServed := s.shutdownServed || (s.state == .kDisconnecting && s.shutdownRequested)
      halfCloses := s.halfCloses ++
        if s.state = .kDisconnecting then [⟨s.state, s.outputBuffer.readable, s.accepted⟩]
        else [] } := by
  unfold drained disableWriting completed
  rw [withChannel_setEvents hmirror]
  simp only
  cases hcallback : s.writeCompleteCallback <;> by_cases hstate : s.state = .kDisconnecting
  · simp [hstate, shutdownInLoop_eq, halfClose]
  · simp [hstate]
  · simp [hstate, shutdownInLoop_eq, halfClose, queueInLoop]
  · simp [hstate, queueInLoop]

theorem handleWrite_accepts {count : Nat} {rest : Buffer} (hwriting : s.channel.isWriting = true)
    (hsome : (s.outputBuffer.readable.take count).length ≠ 0)
    (hretrieve : s.outputBuffer.retrieve (s.outputBuffer.readable.take count).length = some rest) :
    s.handleWrite (.accepts count) =
      if rest.readableBytes = 0 then
        { s with accepted := s.accepted ++ s.outputBuffer.readable.take count,
                 outputBuffer := rest }.drained
      else .ok { s with accepted := s.accepted ++ s.outputBuffer.readable.take count,
                        outputBuffer := rest } := by
  simp only [handleWrite, hwriting, if_true, if_pos (Nat.pos_of_ne_zero hsome), hretrieve]

/-- `handleWrite` moves bytes from the front of the output buffer to the kernel, and when the buffer
is drained gives up the write interest and completes a requested shutdown. -/
theorem handleWrite_spec (hmirror : s.channel.Mirrored) (write : WriteResult) :
    (¬s.Drains write ∧ ∃ buffer accepted,
      s.handleWrite write = .ok { s with outputBuffer := buffer, accepted := accepted } ∧
      accepted ++ buffer.readable = s.accepted ++ s.outputBuffer.readable ∧
      (buffer.readable = [] ↔ s.outputBuffer.readable = [])) ∨
    (s.Drains write ∧ ∃ queue buffer, QueuesNotices s.queue queue ∧ buffer.readable = [] ∧
      s.handleWrite write = .ok { s with
        queue := queue
        outputBuffer := buffer
        accepted := s.accepted ++ s.outputBuffer.readable
        channel := s.channel.refreshed (s.channel.events &&& ~~~kWriteEvent)
        shutdownServed := s.shutdownServed || (s.state == .kDisconnecting && s.shutdownRequested)
        halfCloses := s.halfCloses ++
          if s.state = .kDisconnecting then [⟨s.state, [], s.accepted ++ s.outputBuffer.readable⟩]
          else [] }) := by
  have hstay : ¬s.Drains write → s.handleWrite write = .ok s →
      ¬s.Drains write ∧ ∃ buffer accepted,
        s.handleWrite write = .ok { s with outputBuffer := buffer, accepted := accepted } ∧
        accepted ++ buffer.readable = s.accepted ++ s.outputBuffer.readable ∧
        (buffer.readable = [] ↔ s.outputBuffer.readable = []) :=
    fun hdrains h => ⟨hdrains, s.outputBuffer, s.accepted, h, rfl, Iff.rfl⟩
  cases write with
  | fails errno =>
      refine .inl (hstay id ?_)
      cases hwriting : s.channel.isWriting <;> simp [handleWrite, hwriting]
  | accepts count =>
      cases hwriting : s.channel.isWriting with
      | false =>
          refine .inl (hstay ?_ (by simp [handleWrite, hwriting]))
          rintro ⟨h, -⟩
          rw [hwriting] at h
          cases h
      | true =>
          by_cases hnone : (s.outputBuffer.readable.take count).length = 0
          · refine .inl (hstay ?_ (by
              simp only [handleWrite, hwriting, if_true, hnone, Nat.lt_irrefl, if_false]))
            rintro ⟨-, hne, hcount⟩
            rw [List.take_of_length_le hcount] at hnone
            exact hne (List.eq_nil_of_length_eq_zero hnone)
          · have hle : (s.outputBuffer.readable.take count).length ≤ s.outputBuffer.readableBytes := by
              rw [← Buffer.readable_length]
              exact List.length_take_le' _ _
            obtain ⟨rest, hretrieve, hrest⟩ := Buffer.retrieve_readable hle
            rw [List.length_take] at hrest
            by_cases hdrained : rest.readable = []
            · have hcount : s.outputBuffer.readable.length ≤ count := by
                rw [hrest, List.drop_eq_nil_iff] at hdrained
                omega
              have heq := drained_eq (s := { s with
                outputBuffer := rest, accepted := s.accepted ++ s.outputBuffer.readable }) hmirror
              refine .inr ⟨⟨hwriting, ?_, hcount⟩, s.completed, rest, queuesNotices_completed s, hdrained, ?_⟩
              · intro hempty
                simp [hempty] at hnone
              · rw [handleWrite_accepts hwriting hnone hretrieve,
                  if_pos ((Buffer.readableBytes_eq_zero rest).mpr hdrained),
                  List.take_of_length_le hcount, heq]
                simp only [hdrained]
                rfl
            · have hlt : count < s.outputBuffer.readable.length := by
                rw [hrest, List.drop_eq_nil_iff] at hdrained
                omega
              refine .inl ⟨fun hdrains => absurd hdrains.2.2 (Nat.not_le_of_lt hlt), rest,
                s.accepted ++ s.outputBuffer.readable.take count, ?_, ?_, ?_⟩
              · have hleft : rest.readableBytes ≠ 0 := by
                  rwa [Ne, Buffer.readableBytes_eq_zero]
                rw [handleWrite_accepts hwriting hnone hretrieve, if_neg hleft]
              · rw [hrest, Nat.min_eq_left (Nat.le_of_lt hlt), List.append_assoc,
                  List.take_append_drop]
              · constructor
                · exact fun h => absurd h hdrained
                · intro hempty
                  simp [hempty] at hnone

/-- The states in which `handleClose` may be called. -/
def IsOpen (s : Session) : Prop := s.state = .kConnected ∨ s.state = .kDisconnecting

instance (s : Session) : Decidable s.IsOpen :=
  inferInstanceAs (Decidable (s.state = .kConnected ∨ s.state = .kDisconnecting))

theorem handleClose_eq (hmirror : s.channel.Mirrored) (hopen : s.IsOpen) :
    s.handleClose = .ok { s with
      state := .kDisconnected
      channel := s.channel.refreshed kNoneEvent
      notices := s.notices ++ [.connection false]
      stack := .closeCallback :: s.stack } := by
  unfold handleClose disableAll
  rw [IsOpen] at hopen
  rw [if_pos hopen]
  have hchannel := withChannel_setEvents (s := s.setState .kDisconnected) hmirror kNoneEvent
  simp only [hchannel]
  rfl

theorem handleClose_of_not_open (hopen : ¬s.IsOpen) : s.handleClose = .error .notOpen := by
  unfold handleClose
  exact if_neg hopen

theorem forceCloseInLoop_of_not_open (hopen : ¬s.IsOpen) : s.forceCloseInLoop = .ok s := by
  unfold forceCloseInLoop
  exact if_neg hopen

theorem forceCloseInLoop_of_open (hopen : s.IsOpen) : s.forceCloseInLoop = s.handleClose := by
  unfold forceCloseInLoop
  exact if_pos hopen

theorem startReadInLoop_eq (hmirror : s.channel.Mirrored) :
    s.startReadInLoop = .ok (if !s.reading || !s.channel.isReading then
      { s with channel := s.channel.refreshed (s.channel.events ||| kReadEvent), reading := true }
    else s) := by
  unfold startReadInLoop enableReading
  rw [withChannel_setEvents hmirror]
  split_ifs <;> rfl

theorem stopReadInLoop_eq (hmirror : s.channel.Mirrored) :
    s.stopReadInLoop = .ok (if s.reading || s.channel.isReading then
      { s with channel := s.channel.refreshed (s.channel.events &&& ~~~kReadEvent), reading := false }
    else s) := by
  unfold stopReadInLoop disableReading
  rw [withChannel_setEvents hmirror]
  split_ifs <;> rfl

theorem connectEstablished_eq (hmirror : s.channel.Mirrored) (hstate : s.state = .kConnecting) :
    s.connectEstablished = .ok { s with
      state := .kConnected
      channel := s.channel.refreshed (s.channel.events ||| kReadEvent)
      notices := s.notices ++ [.connection true] } := by
  unfold connectEstablished enableReading
  rw [if_pos hstate]
  have hchannel := withChannel_setEvents (s := s.setState .kConnected) hmirror
    (s.channel.events ||| kReadEvent)
  simp only [setState] at hchannel ⊢
  rw [hchannel]
  rfl

theorem connectEstablished_of_not_connecting (hstate : s.state ≠ .kConnecting) :
    s.connectEstablished = .error .notConnecting := by
  unfold connectEstablished
  exact if_neg hstate

theorem connectDestroyed_of_connected (hmirror : s.channel.Mirrored)
    (hstate : s.state = .kConnected) :
    s.connectDestroyed = .ok { s with
      state := .kDisconnected
      destroyed := true
      channel := s.channel.refreshed kNoneEvent
      notices := s.notices ++ [.connection false]
      stack := .removeChannel :: s.stack } := by
  unfold connectDestroyed disableAll
  simp only [hstate, if_true]
  have hchannel := withChannel_setEvents
    (s := { s with state := .kDisconnected, destroyed := true }) hmirror kNoneEvent
  simp only [setState]
  rw [hchannel]
  rfl

theorem connectDestroyed_of_not_connected (hstate : s.state ≠ .kConnected) :
    s.connectDestroyed = .ok { s with
      destroyed := true
      stack := .removeChannel :: s.stack } := by
  unfold connectDestroyed
  simp only [hstate, if_false]

theorem closeCallback_cases (s : Session) :
    s.closeCallback = { s with
        notices := s.notices ++ [.close], queue := s.queue.queueInLoop .connectDestroyed } ∨
      s.closeCallback = { s with
        notices := s.notices ++ [.close], removals := s.removals + 1 } := by
  unfold closeCallback
  cases hOwner : s.ownerInLoop
  · exact .inr (by simp [notify, hOwner])
  · exact .inl (by simp [notify, queueInLoop, hOwner])

/-- Everything a step of the loop can be. -/
inductive Took (s : Session) : Label → Session → Prop where
  | call {thread c write next} (hcall : s.call thread write c = .ok next) :
      Took s (.call thread c write) next
  | handleEvent {revents} (hidle : s.stack = []) (hbatch : s.queue.functors = [])
      (hwatched : s.channel.interest.isSome = true) :
      Took s (.handleEvent revents)
        { s with stack := (handleEventWithGuard revents).map .event }
  | resume {f rest write read next} (hstack : s.stack = f :: rest)
      (hframe : { s with stack := rest }.runFrame write read f = .ok next) :
      Took s (.resume write read) next
  | doPendingFunctors {queue} (hidle : s.stack = []) (hswap : s.queue.swap = some queue) :
      Took s .doPendingFunctors { s with queue := queue }
  | functor {f queue write next} (hidle : s.stack = []) (hnext : s.queue.next = some (f, queue))
      (hfunctor : { s with queue := queue }.runFunctor write f = .ok next) :
      Took s (.functor write) next
  | delayedForceClose (hidle : s.stack = []) (hpending : 0 < s.delayedCloses) :
      Took s .delayedForceClose { s with delayedCloses := s.delayedCloses - 1 }.forceClose
  | removeConnectionInLoop (hpending : 0 < s.removals) :
      Took s .removeConnectionInLoop
        ({ s with removals := s.removals - 1 }.queueInLoop .connectDestroyed)

theorem took {label : Label} {next : Session} (hstep : s.step label = .ok next) :
    Took s label next := by
  cases label with
  | call thread c write => exact .call hstep
  | handleEvent revents =>
      simp only [step] at hstep
      split_ifs at hstep with hguard
      obtain rfl := Except.ok.inj hstep
      exact .handleEvent hguard.1 hguard.2.1 hguard.2.2
  | resume write read =>
      simp only [step] at hstep
      split at hstep
      · cases hstep
      · rename_i f rest hstack
        exact .resume hstack hstep
  | doPendingFunctors =>
      simp only [step] at hstep
      split_ifs at hstep with hidle
      split at hstep
      · cases hstep
      · rename_i queue hswap
        obtain rfl := Except.ok.inj hstep
        exact .doPendingFunctors hidle hswap
  | functor write =>
      simp only [step] at hstep
      split_ifs at hstep with hidle
      split at hstep
      · cases hstep
      · rename_i f queue hnext
        exact .functor hidle hnext hstep
  | delayedForceClose =>
      simp only [step] at hstep
      split_ifs at hstep with hguard
      obtain rfl := Except.ok.inj hstep
      exact .delayedForceClose hguard.1 hguard.2.2
  | removeConnectionInLoop =>
      simp only [step] at hstep
      split_ifs at hstep with hpending
      obtain rfl := Except.ok.inj hstep
      exact .removeConnectionInLoop hpending

/-- Everything a step of the loop can stop at. -/
inductive Halted (s : Session) : Label → Stop → Prop where
  | disabled {label} : Halted s label .disabled
  | call {thread c write stop} (hcall : s.call thread write c = .error stop) :
      Halted s (.call thread c write) stop
  | resume {f rest write read stop} (hstack : s.stack = f :: rest)
      (hframe : { s with stack := rest }.runFrame write read f = .error stop) :
      Halted s (.resume write read) stop
  | functor {f queue write stop} (hnext : s.queue.next = some (f, queue))
      (hfunctor : { s with queue := queue }.runFunctor write f = .error stop) :
      Halted s (.functor write) stop

theorem halted {label : Label} {stop : Stop} (hstep : s.step label = .error stop) :
    Halted s label stop := by
  cases label with
  | call thread c write => exact .call hstep
  | handleEvent revents | removeConnectionInLoop =>
      simp only [step] at hstep
      split_ifs at hstep
      exact Except.error.inj hstep ▸ .disabled
  | resume write read =>
      simp only [step] at hstep
      split at hstep
      · exact Except.error.inj hstep ▸ .disabled
      · rename_i f rest hstack
        exact .resume hstack hstep
  | doPendingFunctors =>
      simp only [step] at hstep
      split_ifs at hstep
      · split at hstep
        · exact Except.error.inj hstep ▸ .disabled
        · cases hstep
      · exact Except.error.inj hstep ▸ .disabled
  | functor write =>
      simp only [step] at hstep
      split_ifs at hstep
      · split at hstep
        · exact Except.error.inj hstep ▸ .disabled
        · rename_i f queue hnext
          exact .functor hnext hstep
      · exact Except.error.inj hstep ▸ .disabled
  | delayedForceClose =>
      simp only [step] at hstep
      split_ifs at hstep
      · cases hstep
      · exact Except.error.inj hstep ▸ .disabled

end Session
end Muduo
