import Mathlib.Logic.Function.Basic
import Muduo.Channel
import Muduo.Execution

/-! The pollers with all their channels. A `Poller` maps descriptors to channels in `channels_`; what
it keeps in a channel's `index_` is its own affair. `EPollPoller` also has the kernel's interest set,
which `epoll_ctl` changes. On the share of one channel it does what the model of a single channel
does, and it leaves the shares of the others alone. -/

namespace Muduo

open Execution

/-- The fields of a channel that its poller reads and writes. -/
structure ChannelFields (Index : Type) where
  events : EventMask := 0#32
  index : Index
  addedToLoop : Bool := false
  deriving DecidableEq, Repr

/-- The channels of type `ι`, and `channels_`. -/
structure Poller (ι Index : Type) where
  fields : ι → ChannelFields Index
  channels : Nat → Option ι := fun _ => none

def Poller.hasChannel {ι Index : Type} [DecidableEq ι] (fd : ι → Nat) (p : Poller ι Index) (c : ι) :
    Bool :=
  p.channels (fd c) = some c

/-- The functions of a channel that change its events. -/
inductive ChannelUpdate where
  | enableReading
  | disableReading
  | enableWriting
  | disableWriting
  | disableAll
  deriving DecidableEq, Repr

def ChannelUpdate.apply : ChannelUpdate → EventMask → EventMask
  | .enableReading, events => events ||| Channel.kReadEvent
  | .disableReading, events => events &&& ~~~Channel.kReadEvent
  | .enableWriting, events => events ||| Channel.kWriteEvent
  | .disableWriting, events => events &&& ~~~Channel.kWriteEvent
  | .disableAll, _ => Channel.kNoneEvent

/-- The fields of the channel when its poller is called. -/
def ChannelUpdate.change {Index : Type} (operation : ChannelUpdate) (channel : ChannelFields Index) :
    ChannelFields Index :=
  { channel with events := operation.apply channel.events, addedToLoop := true }

/-- An operation on one of the channels. -/
inductive ChannelLabel (ι : Type) where
  | update (channel : ι) (operation : ChannelUpdate)
  | remove (channel : ι)
  deriving DecidableEq, Repr

def ChannelLabel.channel {ι : Type} : ChannelLabel ι → ι
  | .update c _ => c
  | .remove c => c

namespace EPollPoller

structure State (ι : Type) extends Poller ι ChannelIndex where
  fields := fun _ => { index := .kNew }
  /-- The kernel's interest set. -/
  kernel : Nat → Option EventMask := fun _ => none
  /-- The `epoll_ctl` calls that have failed and were only logged. -/
  failures : Nat := 0

namespace State

variable {ι : Type} [DecidableEq ι]

/-- The fields of one channel are changed. -/
def modify (s : State ι) (c : ι)
    (change : ChannelFields ChannelIndex → ChannelFields ChannelIndex) : State ι :=
  { s with fields := Function.update s.fields c (change (s.fields c)) }

def set_index (s : State ι) (c : ι) (index : ChannelIndex) : State ι :=
  s.modify c fun channel => { channel with index := index }

variable (fd : ι → Nat)

def update (s : State ι) (operation : EpollOperation) (c : ι) : Except ChannelFailure (State ι) :=
  match epoll_ctl (s.kernel (fd c)) (s.fields c).events operation with
  | some entry => .ok { s with kernel := Function.update s.kernel (fd c) entry }
  | none =>
      if operation = .EPOLL_CTL_DEL then .ok { s with failures := s.failures + 1 }
      else .error .epollCtl

def updateChannel (s : State ι) (c : ι) : Except ChannelFailure (State ι) :=
  match (s.fields c).index with
  | .kNew =>
      if (s.channels (fd c)).isSome then .error .alreadyInChannels
      else
        ({ s with channels := Function.update s.channels (fd c) (some c) }.set_index c .kAdded).update
          fd .EPOLL_CTL_ADD c
  | .kDeleted =>
      if s.hasChannel fd c then (s.set_index c .kAdded).update fd .EPOLL_CTL_ADD c
      else .error .notInChannels
  | .kAdded =>
      if !s.hasChannel fd c then .error .notInChannels
      else if (s.fields c).events = 0#32 then
        (s.update fd .EPOLL_CTL_DEL c).map fun s => s.set_index c .kDeleted
      else s.update fd .EPOLL_CTL_MOD c

def removeChannel (s : State ι) (c : ι) : Except ChannelFailure (State ι) :=
  if !s.hasChannel fd c then .error .notInChannels
  else if (s.fields c).events ≠ 0#32 then .error .notNoneEvent
  else
    let erased := { s with channels := Function.update s.channels (fd c) none }
    match (s.fields c).index with
    | .kNew => .error .badIndex
    | .kAdded => (erased.update fd .EPOLL_CTL_DEL c).map fun s => s.set_index c .kNew
    | .kDeleted => .ok (erased.set_index c .kNew)

/-- `Channel::update` and `Channel::remove`. -/
def step (s : State ι) : ChannelLabel ι → Except ChannelFailure (State ι)
  | .update c operation => (s.modify c operation.change).updateChannel fd c
  | .remove c =>
      if (s.fields c).events = 0#32 then
        (s.modify c fun channel => { channel with addedToLoop := false }).removeChannel fd c
      else .error .notNoneEvent

/-! ## One channel at a time -/

/-- What the poller keeps for one of its channels. -/
def view (s : State ι) (c : ι) : Channel :=
  { events := (s.fields c).events
    index := (s.fields c).index
    addedToLoop := (s.fields c).addedToLoop
    inChannels := s.hasChannel fd c
    interest := s.kernel (fd c) }

/-- The share of the channel is replaced. -/
def put (s : State ι) (c : ι) (share : Channel) : State ι :=
  { s with
    fields := Function.update s.fields c
      { events := share.events, index := share.index, addedToLoop := share.addedToLoop }
    channels := Function.update s.channels (fd c) (bif share.inChannels then some c else none)
    kernel := Function.update s.kernel (fd c) share.interest }

variable {fd} {s next : State ι} {c : ι}

@[simp] theorem view_put_self (s : State ι) (c : ι) (share : Channel) :
    (s.put fd c share).view fd c = share := by
  rcases share with ⟨events, index, added, inChannels, interest⟩
  cases inChannels with
  | true | false => simp [view, put, Poller.hasChannel]

theorem view_put_ne (hfd : Function.Injective fd) {d : ι} (hne : d ≠ c) (share : Channel) :
    (s.put fd c share).view fd d = s.view fd d := by
  have hkey : fd d ≠ fd c := fun heq => hne (hfd heq)
  simp [view, put, Poller.hasChannel, Function.update_of_ne hne, Function.update_of_ne hkey]

theorem put_put (s : State ι) (c : ι) (share : Channel) :
    (s.put fd c share).put fd c = s.put fd c := by
  funext other
  simp [put]

/-- The entry of the channel's descriptor in `channels_`, if any, is the channel. -/
def KeyedAt (fd : ι → Nat) (s : State ι) (c : ι) : Prop :=
  s.channels (fd c) = bif s.hasChannel fd c then some c else none

theorem keyedAt_of_none (hnone : s.channels (fd c) = none) : s.KeyedAt fd c := by
  simp [KeyedAt, Poller.hasChannel, hnone]

theorem keyedAt_of_hasChannel (hhas : s.hasChannel fd c = true) : s.KeyedAt fd c := by
  rw [KeyedAt, hhas]
  simpa [Poller.hasChannel] using hhas

theorem keyedAt_put (s : State ι) (c : ι) (share : Channel) : (s.put fd c share).KeyedAt fd c := by
  have hhas : ((s.put fd c share).view fd c).inChannels = share.inChannels := by rw [view_put_self]
  rw [KeyedAt, show (s.put fd c share).hasChannel fd c = share.inChannels from hhas]
  simp [put]

/-- What an operation does to the entry in the interest set alone. -/
theorem put_interest (hkeyed : s.KeyedAt fd c) (entry : Option EventMask) :
    { s with kernel := Function.update s.kernel (fd c) entry } =
      s.put fd c { s.view fd c with interest := entry } := by
  simp [put, view, ← show s.channels (fd c) = _ from hkeyed]

theorem modify_eq (hkeyed : s.KeyedAt fd c)
    (change : ChannelFields ChannelIndex → ChannelFields ChannelIndex) :
    s.modify c change = s.put fd c { s.view fd c with
      events := (change (s.fields c)).events
      index := (change (s.fields c)).index
      addedToLoop := (change (s.fields c)).addedToLoop } := by
  simp [put, view, modify, ← show s.channels (fd c) = _ from hkeyed]

/-- `epoll_ctl` on the entry of a channel, where a deletion finds the entry. -/
theorem update_eq (hkeyed : s.KeyedAt fd c) {operation : EpollOperation}
    (hfound : operation = .EPOLL_CTL_DEL → (s.kernel (fd c)).isSome) :
    s.update fd operation c = (EPollPoller.update operation (s.view fd c)).map (s.put fd c) := by
  have hentry := put_interest hkeyed
  unfold update EPollPoller.update
  simp only [view] at hentry ⊢
  cases hctl : epoll_ctl (s.kernel (fd c)) (s.fields c).events operation with
  | some entry => simp only [hentry, Except.map]
  | none =>
      have hnot : operation ≠ .EPOLL_CTL_DEL := by
        rintro rfl
        simp [epoll_ctl, hfound rfl] at hctl
      simp [hnot, Except.map]

theorem update_put (s : State ι) (c : ι) (share : Channel) {operation : EpollOperation}
    (hfound : operation = .EPOLL_CTL_DEL → share.interest.isSome) :
    (s.put fd c share).update fd operation c = (EPollPoller.update operation share).map (s.put fd c) := by
  rw [update_eq (keyedAt_put s c share) (by simpa [put] using hfound), view_put_self, put_put]

@[simp] theorem set_index_put (s : State ι) (c : ι) (share : Channel) (index : ChannelIndex) :
    (s.put fd c share).set_index c index = s.put fd c { share with index := index } := by
  simp [put, set_index, modify]

/-- A deletion, after which the index is set. -/
theorem map_set_index (s : State ι) (c : ι) (index : ChannelIndex)
    (result : Except ChannelFailure Channel) :
    ((result.map (s.put fd c)).map fun s => s.set_index c index) =
      (result.map fun share => { share with index := index }).map (s.put fd c) := by
  cases result with
  | ok share => simp [Except.map]
  | error failure => rfl

/-- `updateChannel` works on the share of the channel. A descriptor that a new channel comes with is
not in `channels_`, and one that is added is in the interest set. -/
theorem updateChannel_eq (hkeyed : s.KeyedAt fd c)
    (hadded : (s.fields c).index = .kAdded → (s.kernel (fd c)).isSome) :
    s.updateChannel fd c = (EPollPoller.updateChannel (s.view fd c)).map (s.put fd c) := by
  have hhas : s.hasChannel fd c = (s.view fd c).inChannels := rfl
  have hindex : (s.fields c).index = (s.view fd c).index := rfl
  have hevents : (s.fields c).events = (s.view fd c).events := rfl
  unfold updateChannel EPollPoller.updateChannel
  rw [hhas, hindex, hevents]
  cases hcase : (s.view fd c).index with
  | kNew =>
      cases hchannel : (s.view fd c).inChannels with
      | true =>
          have hsome : s.channels (fd c) = some c := by rw [hkeyed, hhas, hchannel]; rfl
          simp [hsome, Except.map]
      | false =>
          have hnone : s.channels (fd c) = none := by rw [hkeyed, hhas, hchannel]; rfl
          have hput : ({ s with channels := Function.update s.channels (fd c) (some c) } : State ι).set_index
              c .kAdded = s.put fd c { s.view fd c with inChannels := true, index := .kAdded } := by
            simp [put, view, set_index, modify]
          simp only [hnone, hput]
          exact update_put s c _ (by simp)
  | kDeleted =>
      cases hchannel : (s.view fd c).inChannels with
      | true =>
          have hput : s.set_index c .kAdded = s.put fd c { s.view fd c with index := .kAdded } :=
            modify_eq hkeyed _
          simp only [if_true, hput, hchannel]
          exact update_put s c _ (by simp)
      | false => rfl
  | kAdded =>
      cases hchannel : (s.view fd c).inChannels with
      | true =>
          by_cases hnone : (s.view fd c).events = 0#32
          · simp only [Bool.not_true, Bool.false_eq_true, if_false, if_pos hnone]
            rw [update_eq hkeyed (fun _ => hadded hcase), map_set_index]
          · simp only [Bool.not_true, Bool.false_eq_true, if_false, if_neg hnone]
            exact update_eq hkeyed (by simp)
      | false => rfl

theorem removeChannel_eq (hadded : (s.fields c).index = .kAdded → (s.kernel (fd c)).isSome) :
    s.removeChannel fd c = (EPollPoller.removeChannel (s.view fd c)).map (s.put fd c) := by
  have hhas : s.hasChannel fd c = (s.view fd c).inChannels := rfl
  have hindex : (s.fields c).index = (s.view fd c).index := rfl
  have hevents : (s.fields c).events = (s.view fd c).events := rfl
  have hput : ({ s with channels := Function.update s.channels (fd c) none } : State ι) =
      s.put fd c { s.view fd c with inChannels := false } := by
    simp [put, view]
  unfold removeChannel EPollPoller.removeChannel
  rw [hhas, hindex, hevents, hput]
  cases hchannel : (s.view fd c).inChannels with
  | false => rfl
  | true =>
      by_cases hnone : (s.view fd c).events = 0#32
      · rw [if_neg (by simp), if_neg (by simpa using hnone), if_neg (by simp),
          if_neg (by simpa using hnone)]
        cases hcase : (s.view fd c).index with
        | kNew => rfl
        | kAdded =>
            dsimp only
            rw [update_put s c _ (fun _ => hadded hcase), map_set_index, hcase]
        | kDeleted => exact congrArg Except.ok (set_index_put s c _ .kNew)
      · simp [hnone, Except.map]

theorem updateChannel_put (s : State ι) (c : ι) (share : Channel)
    (hadded : share.index = .kAdded → share.interest.isSome) :
    (s.put fd c share).updateChannel fd c = (EPollPoller.updateChannel share).map (s.put fd c) := by
  rw [updateChannel_eq (keyedAt_put s c share) (by simpa [put] using hadded), view_put_self,
    put_put]

theorem removeChannel_put (s : State ι) (c : ι) (share : Channel)
    (hadded : share.index = .kAdded → share.interest.isSome) :
    (s.put fd c share).removeChannel fd c = (EPollPoller.removeChannel share).map (s.put fd c) := by
  rw [removeChannel_eq (by simpa [put] using hadded), view_put_self, put_put]

/-- The operation of a single channel that a step is. -/
def shareStep (fd : ι → Nat) (s : State ι) : ChannelLabel ι → Except ChannelFailure Channel
  | .update c operation => (s.view fd c).setEvents (operation.apply (s.fields c).events)
  | .remove c => (s.view fd c).remove

/-! ## The poller mirrors its channels -/

/-- `channels_` holds channels under their own descriptors, the poller mirrors every channel, and the
interest set holds no other descriptor. -/
structure Consistent (fd : ι → Nat) (s : State ι) : Prop where
  keyed : ∀ key c, s.channels key = some c → fd c = key
  mirrored : ∀ c, (s.view fd c).Mirrored
  others : ∀ key, s.channels key = none → s.kernel key = none
  failures : s.failures = 0

theorem consistent_initial : Consistent fd ({} : State ι) where
  keyed key c h := by cases h
  mirrored c := Channel.mirrored_initial
  others _ _ := rfl
  failures := rfl

theorem Consistent.keyedAt (h : Consistent fd s) (hfd : Function.Injective fd) (c : ι) :
    s.KeyedAt fd c := by
  cases hchannel : s.channels (fd c) with
  | none => exact keyedAt_of_none hchannel
  | some d =>
      obtain rfl := hfd (h.keyed _ _ hchannel)
      exact keyedAt_of_hasChannel (by simpa [Poller.hasChannel] using hchannel)

theorem Consistent.kernel_of_kAdded (h : Consistent fd s) (hindex : (s.fields c).index = .kAdded) :
    s.kernel (fd c) = some (s.fields c).events := by
  have hinterest := (h.mirrored c).interest
  rwa [show (s.view fd c).index = .kAdded from hindex, if_pos rfl] at hinterest

theorem Consistent.interest (h : Consistent fd s) (hindex : (s.fields c).index = .kAdded) :
    (s.kernel (fd c)).isSome := by
  rw [h.kernel_of_kAdded hindex]
  rfl

/-- **The share of a channel is all a step works on.** -/
theorem step_eq (h : Consistent fd s) (hfd : Function.Injective fd) (label : ChannelLabel ι) :
    s.step fd label = (s.shareStep fd label).map (s.put fd label.channel) := by
  cases label with
  | update c operation =>
      rw [step, modify_eq (h.keyedAt hfd c)]
      exact updateChannel_put s c _ h.interest
  | remove c =>
      rw [step, shareStep, Channel.remove]
      by_cases hnone : (s.fields c).events = 0#32
      · rw [if_pos hnone, if_pos (by simpa [view, Channel.isNoneEvent, Channel.kNoneEvent] using hnone),
          modify_eq (h.keyedAt hfd c)]
        exact removeChannel_put s c _ h.interest
      · rw [if_neg hnone, if_neg (by simpa [view, Channel.isNoneEvent, Channel.kNoneEvent] using hnone)]
        rfl

theorem Consistent.put (h : Consistent fd s) (hfd : Function.Injective fd) {share : Channel}
    (hshare : share.Mirrored) : Consistent fd (s.put fd c share) where
  keyed key d hd := by
    by_cases hkey : key = fd c
    · subst hkey
      rw [show (s.put fd c share).channels (fd c) = bif share.inChannels then some c else none by
        simp [State.put]] at hd
      cases hin : share.inChannels with
      | true => simp_all
      | false => simp [hin] at hd
    · exact h.keyed key d (by simpa [State.put, Function.update_of_ne hkey] using hd)
  mirrored d := by
    by_cases hne : d = c
    · subst hne
      rw [view_put_self]
      exact hshare
    · rw [view_put_ne hfd hne]
      exact h.mirrored d
  others key hnone := by
    by_cases hkey : key = fd c
    · subst hkey
      have hout : share.inChannels = false := by
        cases hin : share.inChannels with
        | true => simp [State.put, hin] at hnone
        | false => rfl
      have hindex : share.index = .kNew := by simpa [hout] using hshare.inChannels
      simp [State.put, hshare.interest, hindex]
    · simp only [State.put, Function.update_of_ne hkey] at hnone ⊢
      exact h.others key hnone
  failures := h.failures

/-- No update of a channel fails. -/
theorem step_update (h : Consistent fd s) (hfd : Function.Injective fd) (c : ι)
    (operation : ChannelUpdate) :
    s.step fd (.update c operation) =
      .ok (s.put fd c ((s.view fd c).refreshed (operation.apply (s.fields c).events))) := by
  rw [step_eq h hfd, shareStep, Channel.setEvents_eq (h.mirrored c)]
  rfl

/-- A registered channel without events is removed. -/
theorem step_remove (h : Consistent fd s) (hfd : Function.Injective fd)
    (hnone : (s.fields c).events = 0#32) (hhas : s.hasChannel fd c = true) :
    s.step fd (.remove c) = .ok (s.put fd c {}) := by
  have hindex : (s.view fd c).index ≠ .kNew := by
    have hin := (h.mirrored c).inChannels
    rw [show (s.view fd c).inChannels = true from hhas] at hin
    simpa using hin.symm
  rw [step_eq h hfd, shareStep, Channel.remove_eq (h.mirrored c) hnone hindex]
  rfl

/-- `remove` is called on a registered channel without events. -/
def Removable (fd : ι → Nat) (s : State ι) : ChannelLabel ι → Prop
  | .update _ _ => True
  | .remove c => (s.fields c).events = 0#32 ∧ s.hasChannel fd c = true

/-- The interest set is what the registered channels ask for. -/
def Exact (s : State ι) : Prop :=
  ∀ key mask, s.kernel key = some mask ↔
    mask ≠ 0#32 ∧ ∃ c, s.channels key = some c ∧ (s.fields c).events = mask

/-- A channel that the poller does not watch is not updated to have no events. -/
def AddsEvents (s : State ι) : ChannelLabel ι → Prop
  | .update c operation =>
      (s.fields c).index = .kAdded ∨ operation.apply (s.fields c).events ≠ 0#32
  | .remove _ => True

instance (fd : ι → Nat) (s : State ι) : (label : ChannelLabel ι) → Decidable (s.Removable fd label)
  | .update _ _ => isTrue trivial
  | .remove _ => inferInstanceAs (Decidable (_ ∧ _))

instance (s : State ι) : (label : ChannelLabel ι) → Decidable (s.AddsEvents label)
  | .update _ _ => inferInstanceAs (Decidable (_ ∨ _))
  | .remove _ => isTrue trivial

/-- The entries that the kernel has for a channel without events are all that can be wrong. -/
theorem Consistent.exact_iff (h : Consistent fd s) :
    s.Exact ↔ ∀ c, (s.fields c).index = .kAdded → (s.fields c).events ≠ 0#32 := by
  constructor
  · intro hexact c hindex
    exact ((hexact _ _).mp (h.kernel_of_kAdded hindex)).1
  · intro hevents key mask
    constructor
    · intro hkernel
      obtain ⟨c, hchannel⟩ : ∃ c, s.channels key = some c := by
        cases hchannel : s.channels key with
        | none => simp [h.others key hchannel] at hkernel
        | some c => exact ⟨c, rfl⟩
      obtain rfl := h.keyed key c hchannel
      have hindex : (s.fields c).index = .kAdded := by
        by_contra hnot
        have hinterest := (h.mirrored c).interest
        rw [if_neg (show (s.view fd c).index ≠ .kAdded from hnot),
          show (s.view fd c).interest = some mask from hkernel] at hinterest
        cases hinterest
      have hmask := Option.some.inj ((h.kernel_of_kAdded hindex).symm.trans hkernel)
      exact ⟨hmask ▸ hevents c hindex, c, hchannel, hmask⟩
    · rintro ⟨hmask, c, hchannel, rfl⟩
      obtain rfl := h.keyed key c hchannel
      have hindex : (s.fields c).index = .kAdded := by
        by_contra hnot
        exact hmask ((h.mirrored c).idle hnot)
      exact h.kernel_of_kAdded hindex

/-- After a step only the channel it is about has to be looked at. -/
theorem Consistent.exact_put (h : Consistent fd s) (hfd : Function.Injective fd) (hexact : s.Exact)
    {share : Channel} (hshare : share.Mirrored) :
    (s.put fd c share).Exact ↔ (share.index = .kAdded → share.events ≠ 0#32) := by
  rw [(h.put hfd hshare).exact_iff]
  constructor
  · intro hall
    simpa [State.put] using hall c
  · intro hhere d
    by_cases hne : d = c
    · subst hne
      simpa [State.put] using hhere
    · simpa [State.put, Function.update_of_ne hne] using h.exact_iff.mp hexact d

theorem step_exact (h : Consistent fd s) (hfd : Function.Injective fd) (hexact : s.Exact)
    {label : ChannelLabel ι} (hremovable : s.Removable fd label) :
    ∃ next, s.step fd label = .ok next ∧ Consistent fd next ∧ (next.Exact ↔ s.AddsEvents label) := by
  cases label with
  | update c operation =>
      have hshare := Channel.refreshed_mirrored (s.view fd c) (operation.apply (s.fields c).events)
      refine ⟨_, step_update h hfd c operation, h.put hfd hshare, ?_⟩
      rw [h.exact_put hfd hexact hshare]
      have hindex : (s.view fd c).index = (s.fields c).index := rfl
      by_cases hadded : (s.fields c).index = .kAdded
      · simp [AddsEvents, Channel.refreshed, hindex, hadded]
      · simp [AddsEvents, Channel.refreshed, hindex, hadded]
  | remove c =>
      obtain ⟨hnone, hhas⟩ := hremovable
      refine ⟨_, step_remove h hfd hnone hhas, h.put hfd Channel.mirrored_initial, ?_⟩
      rw [h.exact_put hfd hexact Channel.mirrored_initial]
      simp [AddsEvents]

/-- No step on a consistent poller fails. -/
theorem step_consistent (h : Consistent fd s) (hfd : Function.Injective fd) {label : ChannelLabel ι}
    (hremovable : s.Removable fd label) : ∃ next, s.step fd label = .ok next ∧ Consistent fd next := by
  cases label with
  | update c operation =>
      exact ⟨_, step_update h hfd c operation, h.put hfd (Channel.refreshed_mirrored _ _)⟩
  | remove c =>
      exact ⟨_, step_remove h hfd hremovable.1 hremovable.2, h.put hfd Channel.mirrored_initial⟩

/-- **`EPollPoller` mirrors the interest of its channels, up to empty masks.** Whatever is done to
channels with distinct descriptors, no assertion and no `epoll_ctl` call fails. The interest set is
what the registered channels ask for after every operation just when no channel that is not watched
is updated to have no events: that update adds its descriptor with an empty mask. -/
theorem interest_exact_iff (fd : ι → Nat) (hfd : Function.Injective fd) (labels : List (ChannelLabel ι))
    (hremovable : Meets (step fd) (Removable fd) {} labels) :
    (∃ final, run (step fd) {} labels = .ok final ∧ final.failures = 0) ∧
      (Throughout (step fd) Exact {} labels ↔ Meets (step fd) AddsEvents {} labels) := by
  constructor
  · obtain ⟨final, hrun, hfinal⟩ := run_of_meets (Consistent fd)
      (fun _ _ h hlegal => step_consistent h hfd hlegal) consistent_initial hremovable
    exact ⟨final, hrun, hfinal.failures⟩
  · have hinitial : Consistent fd ({} : State ι) := consistent_initial
    exact throughout_iff_meets (Consistent fd)
      (fun _ _ h hexact hlegal => step_exact h hfd hexact hlegal) hinitial
      (hinitial.exact_iff.mpr (by simp)) hremovable

/-- A channel is watched, ignored, watched again and removed, with another one beside it. -/
def watched : List (ChannelLabel Nat) :=
  [.update 5 .enableReading, .update 6 .enableWriting, .update 5 .disableAll, .update 5 .enableWriting,
    .update 5 .disableWriting, .remove 5]

theorem interest_exact_iff_watched :
    Meets (step id) (Removable id) {} watched ∧ Meets (step id) AddsEvents {} watched ∧
      Throughout (step id) Exact {} watched := by
  have hremovable : Meets (step id) (Removable id) {} watched := by decide +kernel
  have hadds : Meets (step id) AddsEvents {} watched := by decide +kernel
  exact ⟨hremovable, hadds,
    (interest_exact_iff id Function.injective_id watched hremovable).2.mpr hadds⟩

/-- A channel that was never enabled, or that is disabled for a second time, is put into the interest
set with an empty mask. -/
theorem empty_mask_added :
    (∃ final : State Nat, run (step id) {} [.update 5 .disableAll] = .ok final ∧
      final.kernel 5 = some 0#32 ∧ ¬ final.Exact) ∧
    ∃ final : State Nat,
      run (step id) {} [.update 5 .enableReading, .update 5 .disableAll, .update 5 .disableReading] =
        .ok final ∧ final.kernel 5 = some 0#32 ∧ ¬ final.Exact := by
  have hwrong {s : State Nat} (hkernel : s.kernel 5 = some 0#32) : ¬ s.Exact :=
    fun hexact => ((hexact _ _).mp hkernel).1 rfl
  constructor
  · obtain ⟨final, hrun, hcheck⟩ := exists_of_outcome (step id) ({} : State Nat)
      [.update 5 .disableAll] (fun s => s.kernel 5 == some 0#32) (by decide +kernel)
    exact ⟨final, hrun, beq_iff_eq.mp hcheck, hwrong (beq_iff_eq.mp hcheck)⟩
  · obtain ⟨final, hrun, hcheck⟩ := exists_of_outcome (step id) ({} : State Nat)
      [.update 5 .enableReading, .update 5 .disableAll, .update 5 .disableReading]
      (fun s => s.kernel 5 == some 0#32) (by decide +kernel)
    exact ⟨final, hrun, beq_iff_eq.mp hcheck, hwrong (beq_iff_eq.mp hcheck)⟩

end State
end EPollPoller
end Muduo
