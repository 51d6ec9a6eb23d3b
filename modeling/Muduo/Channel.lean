import Mathlib.Data.List.Basic
import Mathlib.Tactic.Common

/-! `muduo::net::Channel` and what `EPollPoller` keeps for it. The poller's map `channels_` and the
kernel's interest set are keyed by the file descriptor and every poller operation on a channel
touches the entries of its own descriptor only, so the share of one channel is kept beside the
channel: whether `channels_` holds it, and the mask the kernel watches for, if any. -/

namespace Muduo

/-- The `int` of `events_` and `revents_`. -/
abbrev EventMask := BitVec 32

def POLLIN : EventMask := 0x0001
def POLLPRI : EventMask := 0x0002
def POLLOUT : EventMask := 0x0004
def POLLERR : EventMask := 0x0008
def POLLHUP : EventMask := 0x0010
def POLLNVAL : EventMask := 0x0020
def POLLRDHUP : EventMask := 0x2000

/-- `index_` as `EPollPoller` uses it. -/
inductive ChannelIndex where
  | kNew
  | kAdded
  | kDeleted
  deriving DecidableEq, Repr

structure Channel where
  events : EventMask := 0#32
  index : ChannelIndex := .kNew
  addedToLoop : Bool := false
  /-- `channels_` maps the descriptor to this channel. -/
  inChannels : Bool := false
  /-- The kernel's entry of the descriptor in the epoll interest set. -/
  interest : Option EventMask := none
  deriving DecidableEq, Repr

/-- What stops the program inside a channel operation: a failed assertion or `LOG_SYSFATAL`. -/
inductive ChannelFailure where
  /-- `assert(isNoneEvent())` in `Channel::remove` and `EPollPoller::removeChannel`. -/
  | notNoneEvent
  /-- `assert(channels_.find(fd) == channels_.end())`. -/
  | alreadyInChannels
  /-- `assert(channels_.find(fd) != channels_.end())` and `assert(channels_[fd] == channel)`. -/
  | notInChannels
  /-- `assert(index == kAdded || index == kDeleted)` in `EPollPoller::removeChannel`. -/
  | badIndex
  /-- `epoll_ctl` failed with `EPOLL_CTL_ADD` or `EPOLL_CTL_MOD`. -/
  | epollCtl
  deriving DecidableEq, Repr

inductive EpollOperation where
  | EPOLL_CTL_ADD
  | EPOLL_CTL_MOD
  | EPOLL_CTL_DEL
  deriving DecidableEq, Repr

/-- The kernel's `epoll_ctl` on the entry of one descriptor; `none` when the call fails. -/
def epoll_ctl (entry : Option EventMask) (mask : EventMask) :
    EpollOperation → Option (Option EventMask)
  | .EPOLL_CTL_ADD => if entry.isNone then some (some mask) else none
  | .EPOLL_CTL_MOD => if entry.isSome then some (some mask) else none
  | .EPOLL_CTL_DEL => if entry.isSome then some none else none

namespace EPollPoller

def update (operation : EpollOperation) (c : Channel) : Except ChannelFailure Channel :=
  match epoll_ctl c.interest c.events operation with
  | some entry => .ok { c with interest := entry }
  -- A failed deletion is only logged.
  | none => if operation = .EPOLL_CTL_DEL then .ok c else .error .epollCtl

def updateChannel (c : Channel) : Except ChannelFailure Channel :=
  match c.index with
  | .kNew =>
      if c.inChannels then .error .alreadyInChannels
      else update .EPOLL_CTL_ADD { c with inChannels := true, index := .kAdded }
  | .kDeleted =>
      if c.inChannels then update .EPOLL_CTL_ADD { c with index := .kAdded }
      else .error .notInChannels
  | .kAdded =>
      if !c.inChannels then .error .notInChannels
      else if c.events = 0#32 then
        (update .EPOLL_CTL_DEL c).map fun c => { c with index := .kDeleted }
      else update .EPOLL_CTL_MOD c

def removeChannel (c : Channel) : Except ChannelFailure Channel :=
  if !c.inChannels then .error .notInChannels
  else if c.events ≠ 0#32 then .error .notNoneEvent
  else
    match c.index with
    | .kNew => .error .badIndex
    | .kAdded =>
        (update .EPOLL_CTL_DEL { c with inChannels := false }).map fun c => { c with index := .kNew }
    | .kDeleted => .ok { c with inChannels := false, index := .kNew }

end EPollPoller

namespace Channel

def kNoneEvent : EventMask := 0#32
def kReadEvent : EventMask := POLLIN ||| POLLPRI
def kWriteEvent : EventMask := POLLOUT

def isNoneEvent (c : Channel) : Bool := c.events == kNoneEvent
def isWriting (c : Channel) : Bool := c.events &&& kWriteEvent != 0#32
def isReading (c : Channel) : Bool := c.events &&& kReadEvent != 0#32

def update (c : Channel) : Except ChannelFailure Channel :=
  EPollPoller.updateChannel { c with addedToLoop := true }

def setEvents (c : Channel) (events : EventMask) : Except ChannelFailure Channel :=
  update { c with events := events }

def enableReading (c : Channel) := c.setEvents (c.events ||| kReadEvent)
def disableReading (c : Channel) := c.setEvents (c.events &&& ~~~kReadEvent)
def enableWriting (c : Channel) := c.setEvents (c.events ||| kWriteEvent)
def disableWriting (c : Channel) := c.setEvents (c.events &&& ~~~kWriteEvent)
def disableAll (c : Channel) := c.setEvents kNoneEvent

def remove (c : Channel) : Except ChannelFailure Channel :=
  if c.isNoneEvent then EPollPoller.removeChannel { c with addedToLoop := false }
  else .error .notNoneEvent

/-- The callbacks a channel invokes. -/
inductive Callback where
  | closeCallback
  | errorCallback
  | readCallback
  | writeCallback
  deriving DecidableEq, Repr

/-- `handleEventWithGuard`: the callbacks invoked one after the other for the received events.
`revents_` is only set by the poller, so no callback changes which ones follow. -/
def handleEventWithGuard (revents : EventMask) : List Callback :=
  (if revents &&& POLLHUP ≠ 0#32 ∧ revents &&& POLLIN = 0#32 then [.closeCallback] else []) ++
  (if revents &&& (POLLERR ||| POLLNVAL) ≠ 0#32 then [.errorCallback] else []) ++
  (if revents &&& (POLLIN ||| POLLPRI ||| POLLRDHUP) ≠ 0#32 then [.readCallback] else []) ++
  (if revents &&& POLLOUT ≠ 0#32 then [.writeCallback] else [])

/-! ## The poller mirrors the channel -/

/-- `channels_` and the interest set agree with the channel's index, and a channel with events is
watched with exactly these events. -/
structure Mirrored (c : Channel) : Prop where
  inChannels : c.inChannels = decide (c.index ≠ .kNew)
  interest : c.interest = if c.index = .kAdded then some c.events else none
  idle : c.index ≠ .kAdded → c.events = 0#32

theorem mirrored_initial : Mirrored {} where
  inChannels := rfl
  interest := rfl
  idle _ := rfl

/-- The channel after an update with the given events. An update of a channel the poller does not
watch adds it, also with no events at all. -/
def refreshed (c : Channel) (events : EventMask) : Channel :=
  let index := if c.index = .kAdded ∧ events = 0#32 then ChannelIndex.kDeleted else .kAdded
  { events := events, index := index, addedToLoop := true, inChannels := true,
    interest := if index = .kAdded then some events else none }

@[simp] theorem refreshed_events (c : Channel) (events : EventMask) :
    (c.refreshed events).events = events := rfl

theorem refreshed_mirrored (c : Channel) (events : EventMask) : (c.refreshed events).Mirrored where
  inChannels := by
    simp only [refreshed]
    split_ifs <;> rfl
  interest := rfl
  idle := by
    simp only [refreshed]
    split_ifs with hdeleted
    · exact fun _ => hdeleted.2
    · exact fun hindex => absurd rfl hindex

/-- No update of a mirrored channel fails an assertion or an `epoll_ctl` call. -/
theorem setEvents_eq {c : Channel} (hmirror : c.Mirrored) (events : EventMask) :
    c.setEvents events = .ok (c.refreshed events) := by
  obtain ⟨hchannels, hinterest, -⟩ := hmirror
  rcases c with ⟨old, index, added, inChannels, interest⟩
  cases index with
  | kNew =>
      obtain rfl : inChannels = false := hchannels
      obtain rfl : interest = none := hinterest
      rfl
  | kDeleted =>
      obtain rfl : inChannels = true := hchannels
      obtain rfl : interest = none := hinterest
      rfl
  | kAdded =>
      obtain rfl : inChannels = true := hchannels
      obtain rfl : interest = some old := hinterest
      by_cases hnone : events = 0#32
      · subst hnone
        rfl
      · simp [setEvents, update, EPollPoller.updateChannel, EPollPoller.update, epoll_ctl,
          refreshed, hnone]

theorem refreshed_index_ne_kNew (c : Channel) (events : EventMask) :
    (c.refreshed events).index ≠ .kNew := by
  simp only [refreshed]
  split_ifs <;> decide

theorem refreshed_kNoneEvent_of_kAdded {c : Channel} (hindex : c.index = .kAdded) :
    (c.refreshed kNoneEvent).index = .kDeleted ∧ (c.refreshed kNoneEvent).interest = none := by
  simp [refreshed, hindex, kNoneEvent]

/-- Removing a mirrored channel without events that the poller has registered. -/
theorem remove_eq {c : Channel} (hmirror : c.Mirrored) (hnone : c.events = 0#32)
    (hindex : c.index ≠ .kNew) : c.remove = .ok {} := by
  obtain ⟨hchannels, hinterest, -⟩ := hmirror
  rcases c with ⟨events, index, added, inChannels, interest⟩
  obtain rfl : events = 0#32 := hnone
  cases index with
  | kNew => exact absurd rfl hindex
  | kDeleted =>
      obtain rfl : inChannels = true := hchannels
      obtain rfl : interest = none := hinterest
      rfl
  | kAdded =>
      obtain rfl : inChannels = true := hchannels
      obtain rfl : interest = some 0#32 := hinterest
      rfl

theorem remove_of_events {c : Channel} (hevents : c.events ≠ 0#32) :
    c.remove = .error .notNoneEvent := by
  simp [remove, isNoneEvent, kNoneEvent, hevents]

theorem remove_of_kNew {c : Channel} (hmirror : c.Mirrored) (hindex : c.index = .kNew) :
    c.remove = .error .notInChannels := by
  have hnone : c.events = 0#32 := hmirror.idle (by rw [hindex]; decide)
  have hchannels : c.inChannels = false := by rw [hmirror.inChannels, hindex]; rfl
  simp [remove, isNoneEvent, kNoneEvent, hnone, EPollPoller.removeChannel, hchannels]

/-! ## The two interests share one mask -/

theorem read_write_disjoint : kReadEvent &&& kWriteEvent = 0#32 := by decide

@[simp] theorem isWriting_refreshed_enableReading (c : Channel) :
    (c.refreshed (c.events ||| kReadEvent)).isWriting = c.isWriting := by
  rw [isWriting, refreshed_events, BitVec.and_or_distrib_right, read_write_disjoint, BitVec.or_zero]
  rfl

@[simp] theorem isWriting_refreshed_disableReading (c : Channel) :
    (c.refreshed (c.events &&& ~~~kReadEvent)).isWriting = c.isWriting := by
  rw [isWriting, refreshed_events, BitVec.and_assoc]
  rfl

@[simp] theorem isWriting_refreshed_enableWriting (c : Channel) :
    (c.refreshed (c.events ||| kWriteEvent)).isWriting = true := by
  have hmask : (c.events ||| kWriteEvent) &&& kWriteEvent = kWriteEvent := by
    ext i
    simp
    grind
  rw [isWriting, refreshed_events, hmask]
  rfl

@[simp] theorem isWriting_refreshed_disableWriting (c : Channel) :
    (c.refreshed (c.events &&& ~~~kWriteEvent)).isWriting = false := by
  have hmask : ~~~kWriteEvent &&& kWriteEvent = 0#32 := by decide
  rw [isWriting, refreshed_events, BitVec.and_assoc, hmask, BitVec.and_zero]
  rfl

@[simp] theorem isReading_refreshed_enableWriting (c : Channel) :
    (c.refreshed (c.events ||| kWriteEvent)).isReading = c.isReading := by
  have hmask : kWriteEvent &&& kReadEvent = 0#32 := by decide
  rw [isReading, refreshed_events, BitVec.and_or_distrib_right, hmask, BitVec.or_zero]
  rfl

@[simp] theorem isReading_refreshed_disableWriting (c : Channel) :
    (c.refreshed (c.events &&& ~~~kWriteEvent)).isReading = c.isReading := by
  rw [isReading, refreshed_events, BitVec.and_assoc]
  rfl

@[simp] theorem isReading_refreshed_enableReading (c : Channel) :
    (c.refreshed (c.events ||| kReadEvent)).isReading = true := by
  have hmask : (c.events ||| kReadEvent) &&& kReadEvent = kReadEvent := by
    ext i
    simp
    grind
  rw [isReading, refreshed_events, hmask]
  rfl

theorem isNoneEvent_of_isReading {c : Channel} (hreading : c.isReading = true) :
    c.isNoneEvent = false := by
  cases hnone : c.isNoneEvent with
  | false => rfl
  | true =>
      rw [isNoneEvent, beq_iff_eq] at hnone
      rw [isReading, hnone] at hreading
      cases hreading

end Channel
end Muduo
