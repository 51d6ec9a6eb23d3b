import Mathlib.Data.Int.Order.Basic
import Muduo.Poller
import Muduo.SlotTable

/-! `PollPoller` with all its channels. `pollfds_` holds one `pollfd` for each registered channel, at the
position the channel keeps in `index_`; a channel without events is ignored by negating the descriptor
of its slot. Removal puts the last slot in place of the removed one and reads from it, through the
possible negation, which channel has to be told. -/

namespace Muduo

open Execution

structure PollFd where
  fd : Int
  events : BitVec 16
  revents : BitVec 16
  deriving DecidableEq, Repr

/-- The assertions of `PollPoller`, and the null pointer that `channels_[fd]` makes for an unknown
descriptor. -/
inductive PollFailure where
  | notNoneEvent
  | alreadyInChannels
  | notInChannels
  /-- `assert(0 <= idx && idx < static_cast<int>(pollfds_.size()))`. -/
  | badIndex
  /-- The slot at the index is not the channel's, or not as `removeChannel` expects it. -/
  | wrongSlot
  | nullChannel
  deriving DecidableEq, Repr

/-- `-fd-1`, the descriptor of a slot that `poll` ignores. -/
def ignored (fd : Int) : Int := -fd - 1

/-- The events that a channel can have. -/
def ChannelMask (events : EventMask) : Prop :=
  events = 0#32 ∨ events = 3#32 ∨ events = 4#32 ∨ events = 7#32

instance (events : EventMask) : Decidable (ChannelMask events) :=
  inferInstanceAs (Decidable (_ ∨ _ ∨ _ ∨ _))

theorem ChannelMask.apply {events : EventMask} (h : ChannelMask events) (operation : ChannelUpdate) :
    ChannelMask (operation.apply events) := by
  rcases h with rfl | rfl | rfl | rfl <;> cases operation <;> decide

/-- They fit the `short` of a `pollfd`. -/
theorem ChannelMask.signExtend {events : EventMask} (h : ChannelMask events) :
    (events.setWidth 16).signExtend 32 = events := by
  rcases h with rfl | rfl | rfl | rfl <;> decide

namespace PollPoller

structure State (ι : Type) extends Poller ι Int where
  fields := fun _ => { index := -1 }
  pollfds : List PollFd := []
  /-- How often a channel has been updated. -/
  updates : ι → Nat := fun _ => 0
  /-- Which channels have been removed. -/
  removed : ι → Bool := fun _ => false

namespace State

variable {ι : Type} [DecidableEq ι]

/-- The fields of one channel are changed. -/
def modify (s : State ι) (c : ι) (change : ChannelFields Int → ChannelFields Int) : State ι :=
  { s with fields := Function.update s.fields c (change (s.fields c)) }

def set_index (s : State ι) (c : ι) (index : Int) : State ι :=
  s.modify c fun channel => { channel with index := index }

/-- `Channel::remove` before it calls the poller. -/
def unlinked (s : State ι) (c : ι) : State ι :=
  s.modify c fun channel => { channel with addedToLoop := false }

/-- The `pollfd` of the channel. -/
def slot (s : State ι) (c : ι) : Option PollFd := s.pollfds[(s.fields c).index.toNat]?

section

variable (fd : ι → Nat)

/-- The branch of `updateChannel` for a new channel. -/
def register (s : State ι) (c : ι) : State ι :=
  let pfd : PollFd := { fd := fd c, events := (s.fields c).events.setWidth 16, revents := 0#16 }
  { s.set_index c s.pollfds.length with
    pollfds := s.pollfds ++ [pfd]
    channels := Function.update s.channels (fd c) (some c)
    updates := Function.update s.updates c (s.updates c + 1) }

/-- The branch of `updateChannel` for a channel that has a slot. -/
def refresh (s : State ι) (c : ι) : State ι :=
  let pfd : PollFd :=
    { fd := if (s.fields c).events = 0#32 then ignored (fd c) else fd c
      events := (s.fields c).events.setWidth 16
      revents := 0#16 }
  { s with
    pollfds := s.pollfds.set (s.fields c).index.toNat pfd
    updates := Function.update s.updates c (s.updates c + 1) }

def updateChannel (s : State ι) (c : ι) : Except PollFailure (State ι) :=
  if (s.fields c).index < 0 then
    if (s.channels (fd c)).isSome then .error .alreadyInChannels else .ok (s.register fd c)
  else if !s.hasChannel fd c then .error .notInChannels
  else
    match s.slot c with
    | none => .error .badIndex
    | some pfd =>
        if pfd.fd = fd c ∨ pfd.fd = ignored (fd c) then .ok (s.refresh fd c) else .error .wrongSlot

/-- `iter_swap(pollfds_.begin()+idx, pollfds_.end()-1)` and `pop_back()`. -/
def swapPop (pollfds : List PollFd) (idx : Nat) : List PollFd :=
  match pollfds[idx]?, pollfds.getLast? with
  | some pfd, some back => ((pollfds.set idx back).set (pollfds.length - 1) pfd).dropLast
  | _, _ => pollfds

/-- The channel whose slot moves, which is found by the descriptor of the slot. -/
def channelAtEnd (s : State ι) (back : PollFd) : Option ι :=
  s.channels (if back.fd < 0 then -back.fd - 1 else back.fd).toNat

/-- What `removeChannel` does after its assertions; `back` is `pollfds_.back()`. -/
def eraseSlot (s : State ι) (c : ι) (back : PollFd) : Except PollFailure (State ι) :=
  let idx := (s.fields c).index
  let erased := { s with
    channels := Function.update s.channels (fd c) none
    removed := Function.update s.removed c true }
  if idx.toNat = s.pollfds.length - 1 then .ok { erased with pollfds := s.pollfds.dropLast }
  else
    match erased.channelAtEnd back with
    | some last => .ok { erased.set_index last idx with pollfds := swapPop s.pollfds idx.toNat }
    | none => .error .nullChannel

def removeChannel (s : State ι) (c : ι) : Except PollFailure (State ι) :=
  if !s.hasChannel fd c then .error .notInChannels
  else if (s.fields c).events ≠ 0#32 then .error .notNoneEvent
  else if (s.fields c).index < 0 then .error .badIndex
  else
    match s.slot c, s.pollfds.getLast? with
    | some pfd, some back =>
        if pfd.fd = ignored (fd c) ∧ pfd.events.signExtend 32 = (s.fields c).events then
          s.eraseSlot fd c back
        else .error .wrongSlot
    | _, _ => .error .badIndex

/-- `pollfds` is `pollfds_` with the `revents` that `poll` has filled in. -/
def fillActiveChannels (s : State ι) : Nat → List PollFd → Except PollFailure (List (ι × EventMask))
  | 0, _ => .ok []
  | _ + 1, [] => .ok []
  | numEvents + 1, pfd :: pollfds =>
      if 0 < pfd.revents.toInt then
        match if pfd.fd < 0 then none else s.channels pfd.fd.toNat with
        | none => .error .notInChannels
        | some c =>
            if fd c = pfd.fd then
              (s.fillActiveChannels numEvents pollfds).map ((c, pfd.revents.signExtend 32) :: ·)
            else .error .wrongSlot
      else s.fillActiveChannels (numEvents + 1) pollfds

/-- `Channel::update` and `Channel::remove`. -/
def step (s : State ι) : ChannelLabel ι → Except PollFailure (State ι)
  | .update c operation => (s.modify c operation.change).updateChannel fd c
  | .remove c =>
      if (s.fields c).events = 0#32 then (s.unlinked c).removeChannel fd c else .error .notNoneEvent

end

/-! ## The table of slots -/

/-- The slot is one of the channel's, watched or ignored. -/
def Owns (fd : ι → Nat) (c : ι) (pfd : PollFd) : Prop := pfd.fd = fd c ∨ pfd.fd = ignored (fd c)

omit [DecidableEq ι] in
theorem owns_unique {fd : ι → Nat} (hfd : Function.Injective fd) (c d : ι) (pfd : PollFd)
    (hc : Owns fd c pfd) (hd : Owns fd d pfd) : c = d := by
  apply hfd
  unfold Owns ignored at hc hd
  omega

/-- What the slot of a channel holds after the channel's updates. -/
structure HoldsEvents (fd : ι → Nat) (s : State ι) (c : ι) (pfd : PollFd) : Prop where
  events : pfd.events.signExtend 32 = (s.fields c).events
  /-- The first update does not look whether there are any events. -/
  once : s.updates c = 1 → pfd.fd = fd c
  twice : 2 ≤ s.updates c →
    pfd.fd = if (s.fields c).events = 0#32 then ignored (fd c) else fd c

/-- What a channel has to fulfil by itself. -/
structure RepresentedAt (fd : ι → Nat) (s : State ι) (c : ι) : Prop where
  known : 0 ≤ (s.fields c).index ↔ s.hasChannel fd c = true ∨ s.removed c = true
  apart : s.removed c = true → s.hasChannel fd c = false
  counted : s.updates c = 0 ↔ (s.fields c).index < 0
  mask : ChannelMask (s.fields c).events
  slots : ∀ pfd, s.hasChannel fd c = true → s.slot c = some pfd → HoldsEvents fd s c pfd

structure Represented (fd : ι → Nat) (s : State ι) : Prop where
  table : SlotTable.Represents (Owns fd) (fun c => s.hasChannel fd c = true)
    (fun c => (s.fields c).index.toNat) s.pollfds
  keyed : ∀ key c, s.channels key = some c → fd c = key
  each : ∀ c, RepresentedAt fd s c

variable {fd : ι → Nat} {s next : State ι} {c : ι}

theorem represented_initial : Represented fd ({} : State ι) where
  table := {
    slot := fun c hc => by simp [Poller.hasChannel] at hc
    onto := fun i hi => by simp at hi }
  keyed key c h := by cases h
  each c := {
    known := by simp [Poller.hasChannel]
    apart := fun h => by simp at h
    counted := by simp
    mask := .inl rfl
    slots := fun pfd hc => by simp [Poller.hasChannel] at hc }

/-- The slot of a registered channel. -/
theorem Represented.slot (h : Represented fd s) (hc : s.hasChannel fd c = true) :
    ∃ pfd, s.slot c = some pfd ∧ Owns fd c pfd ∧ HoldsEvents fd s c pfd := by
  obtain ⟨pfd, hslot, howns⟩ := h.table.slot c hc
  exact ⟨pfd, hslot, howns, (h.each c).slots pfd hc hslot⟩

/-- A channel that was never updated comes with a descriptor that is not in `channels_`. -/
theorem Represented.free (h : Represented fd s) (hfd : Function.Injective fd)
    (hindex : (s.fields c).index < 0) : s.channels (fd c) = none := by
  cases hchannel : s.channels (fd c) with
  | none => rfl
  | some d =>
      obtain rfl := hfd (h.keyed _ _ hchannel)
      have hknown := (h.each d).known.mpr (.inl (by simpa [Poller.hasChannel] using hchannel))
      omega

theorem hasChannel_some (hfd : Function.Injective fd) (hchannels : next.channels =
    Function.update s.channels (fd c) (some c)) (d : ι) :
    next.hasChannel fd d = true ↔ d = c ∨ s.hasChannel fd d = true := by
  rw [Poller.hasChannel, hchannels]
  by_cases hd : d = c
  · subst hd
    simp
  · have hkey : fd d ≠ fd c := fun heq => hd (hfd heq)
    simp [Poller.hasChannel, Function.update_of_ne hkey, hd]

theorem hasChannel_none (hfd : Function.Injective fd) (hchannels : next.channels =
    Function.update s.channels (fd c) none) (d : ι) :
    next.hasChannel fd d = true ↔ d ≠ c ∧ s.hasChannel fd d = true := by
  rw [Poller.hasChannel, hchannels]
  by_cases hd : d = c
  · subst hd
    simp
  · have hkey : fd d ≠ fd c := fun heq => hd (hfd heq)
    simp [Poller.hasChannel, Function.update_of_ne hkey, hd]

/-- What a step on one channel leaves as it is for the others. -/
structure Beside (fd : ι → Nat) (c : ι) (s next : State ι) : Prop where
  events : ∀ d, d ≠ c → (next.fields d).events = (s.fields d).events
  index : ∀ d, d ≠ c → (0 ≤ (next.fields d).index ↔ 0 ≤ (s.fields d).index)
  updates : ∀ d, d ≠ c → next.updates d = s.updates d
  removed : ∀ d, d ≠ c → next.removed d = s.removed d
  hasChannel : ∀ d, d ≠ c → next.hasChannel fd d = s.hasChannel fd d
  slot : ∀ d, d ≠ c → s.hasChannel fd d = true → next.slot d = s.slot d

theorem HoldsEvents.beside {d : ι} (h : Beside fd c s next) (hd : d ≠ c) {pfd : PollFd}
    (hholds : HoldsEvents fd s d pfd) : HoldsEvents fd next d pfd where
  events := by rw [h.events d hd, hholds.events]
  once := by
    rw [h.updates d hd]
    exact hholds.once
  twice := by
    rw [h.updates d hd, h.events d hd]
    exact hholds.twice

theorem RepresentedAt.beside {d : ι} (h : Beside fd c s next) (hd : d ≠ c)
    (hat : RepresentedAt fd s d) : RepresentedAt fd next d where
  known := by
    rw [h.index d hd, h.hasChannel d hd, h.removed d hd]
    exact hat.known
  apart := by
    rw [h.hasChannel d hd, h.removed d hd]
    exact hat.apart
  counted := by
    have hindex := h.index d hd
    have hcounted := hat.counted
    rw [h.updates d hd]
    omega
  mask := by
    rw [h.events d hd]
    exact hat.mask
  slots pfd hhas hslot := by
    rw [h.hasChannel d hd] at hhas
    rw [h.slot d hd hhas] at hslot
    exact (hat.slots pfd hhas hslot).beside h hd

theorem Represented.of_beside (h : Represented fd s) (hbeside : Beside fd c s next)
    (htable : SlotTable.Represents (Owns fd) (fun d => next.hasChannel fd d = true)
      (fun d => (next.fields d).index.toNat) next.pollfds)
    (hkeyed : ∀ key d, next.channels key = some d → fd d = key) (hat : RepresentedAt fd next c) :
    Represented fd next where
  table := htable
  keyed := hkeyed
  each d := by
    by_cases hd : d = c
    · exact hd ▸ hat
    · exact (h.each d).beside hbeside hd

/-! ## The first update of a channel -/

section Register

variable (hfd : Function.Injective fd) (operation : ChannelUpdate)

theorem register_self : ((s.modify c operation.change).register fd c).fields c =
    { events := operation.apply (s.fields c).events, index := s.pollfds.length, addedToLoop := true } := by
  simp [register, set_index, modify, ChannelUpdate.change]

theorem register_ne {d : ι} (hd : d ≠ c) :
    ((s.modify c operation.change).register fd c).fields d = s.fields d := by
  simp [register, set_index, modify, Function.update_of_ne hd]

theorem register_pollfds : ((s.modify c operation.change).register fd c).pollfds =
    s.pollfds ++ [⟨fd c, (operation.apply (s.fields c).events).setWidth 16, 0#16⟩] := by
  simp [register, modify, ChannelUpdate.change]

include hfd

theorem hasChannel_register (d : ι) :
    ((s.modify c operation.change).register fd c).hasChannel fd d = true ↔
      d = c ∨ s.hasChannel fd d = true :=
  hasChannel_some hfd rfl d

theorem Represented.beside_register (h : Represented fd s) :
    Beside fd c s ((s.modify c operation.change).register fd c) where
  events d hd := by rw [register_ne operation hd]
  index d hd := by rw [register_ne operation hd]
  updates d hd := Function.update_of_ne hd _ _
  removed d hd := rfl
  hasChannel d hd := by
    rw [Bool.eq_iff_iff, hasChannel_register hfd, or_iff_right hd]
  slot d hd hhas := by
    rw [State.slot, register_ne operation hd, register_pollfds]
    exact List.getElem?_append_left (h.table.index_lt hhas)

theorem Represented.register (h : Represented fd s) (hindex : (s.fields c).index < 0) :
    Represented fd ((s.modify c operation.change).register fd c) := by
  have hnone := h.free hfd hindex
  have hnew : ¬ s.hasChannel fd c = true := by simp [Poller.hasChannel, hnone]
  have hupdates : ((s.modify c operation.change).register fd c).updates c = 1 := by
    have hzero := (h.each c).counted.mpr hindex
    simp [State.register, modify, hzero]
  refine h.of_beside (h.beside_register hfd operation) ?_ ?_ ?_
  · rw [register_pollfds]
    refine (h.table.push hnew (.inl rfl)).congr (hasChannel_register hfd operation) (fun d _ => ?_)
    by_cases hd : d = c
    · subst hd
      simp [register_self]
    · rw [register_ne operation hd, Function.update_of_ne hd]
  · intro key d hchannel
    by_cases hkey : key = fd c
    · rw [show ((s.modify c operation.change).register fd c).channels key = some c by
        simp [State.register, hkey]] at hchannel
      rw [← Option.some.inj hchannel, hkey]
    · exact h.keyed key d (by simpa [State.register, modify, set_index, Function.update_of_ne hkey] using hchannel)
  · have hhas := (hasChannel_register (s := s) hfd operation c).mpr (.inl rfl)
    have hremoved : ((s.modify c operation.change).register fd c).removed c = false := by
      by_contra hgone
      have hknown := (h.each c).known.mpr (.inr (by simpa [State.register, modify, set_index] using hgone))
      omega
    exact {
      known := by simp [register_self, hhas]
      apart := by simp [hremoved]
      counted := by
        rw [hupdates, register_self]
        simp
      mask := by
        rw [register_self]
        exact (h.each c).mask.apply operation
      slots := fun pfd _ hslot => by
        rw [State.slot, register_self, register_pollfds] at hslot
        obtain rfl : _ = pfd := by simpa using hslot
        exact {
          events := by
            rw [register_self]
            exact ((h.each c).mask.apply operation).signExtend
          once := fun _ => rfl
          twice := fun htwice => by omega } }

end Register

/-! ## A later update -/

section Refresh

variable (operation : ChannelUpdate)

/-- The slot that a later update writes. -/
def refreshedSlot (fd : ι → Nat) (c : ι) (events : EventMask) : PollFd :=
  { fd := if events = 0#32 then ignored (fd c) else fd c, events := events.setWidth 16, revents := 0#16 }

theorem refresh_self : ((s.modify c operation.change).refresh fd c).fields c =
    operation.change (s.fields c) := by
  simp [refresh, modify]

theorem refresh_ne {d : ι} (hd : d ≠ c) :
    ((s.modify c operation.change).refresh fd c).fields d = s.fields d := by
  simp [refresh, modify, Function.update_of_ne hd]

theorem refresh_index (d : ι) :
    (((s.modify c operation.change).refresh fd c).fields d).index = (s.fields d).index := by
  by_cases hd : d = c
  · rw [hd, refresh_self]
    rfl
  · rw [refresh_ne operation hd]

theorem refresh_pollfds : ((s.modify c operation.change).refresh fd c).pollfds =
    s.pollfds.set (s.fields c).index.toNat
      (refreshedSlot fd c (operation.apply (s.fields c).events)) := by
  simp [refresh, modify, ChannelUpdate.change, refreshedSlot]

theorem Represented.beside_refresh (h : Represented fd s) (hfd : Function.Injective fd)
    (hc : s.hasChannel fd c = true) : Beside fd c s ((s.modify c operation.change).refresh fd c) where
  events d hd := by rw [refresh_ne operation hd]
  index d hd := by rw [refresh_ne operation hd]
  updates d hd := Function.update_of_ne hd _ _
  removed d hd := rfl
  hasChannel d hd := rfl
  slot d hd hhas := by
    have hne : (s.fields c).index.toNat ≠ (s.fields d).index.toNat := fun hindex =>
      hd (h.table.index_inj (owns_unique hfd) hhas hc hindex.symm)
    rw [State.slot, refresh_ne operation hd, refresh_pollfds, List.getElem?_set_ne hne]
    rfl

theorem Represented.refresh (h : Represented fd s) (hfd : Function.Injective fd)
    (hc : s.hasChannel fd c = true) :
    Represented fd ((s.modify c operation.change).refresh fd c) := by
  have hat := h.each c
  have hindex := hat.known.mpr (.inl hc)
  have hupdates : ((s.modify c operation.change).refresh fd c).updates c = s.updates c + 1 := by
    simp [State.refresh, modify]
  refine h.of_beside (h.beside_refresh operation hfd hc) ?_ h.keyed ?_
  · rw [refresh_pollfds]
    refine (h.table.set (owns_unique hfd) hc ?_).congr (fun d => Iff.rfl) (fun d _ => ?_)
    · unfold Owns refreshedSlot
      split
      · exact .inr rfl
      · exact .inl rfl
    · rw [refresh_index]
  · exact {
      known := by
        rw [refresh_index]
        exact hat.known
      apart := hat.apart
      counted := by
        rw [refresh_index, hupdates]
        omega
      mask := by
        rw [refresh_self]
        exact hat.mask.apply operation
      slots := fun pfd _ hslot => by
        rw [State.slot, refresh_index, refresh_pollfds,
          List.getElem?_set_self (h.table.index_lt hc)] at hslot
        cases hslot
        exact {
          events := by
            rw [refresh_self]
            exact (hat.mask.apply operation).signExtend
          once := fun honce => by
            have hcounted := hat.counted
            omega
          twice := fun _ => by
            rw [refresh_self]
            rfl } }

end Refresh

/-! ## Removal -/

/-- What removing the channel leads to, where `last` is the channel of the last slot. -/
structure Removal (fd : ι → Nat) (s : State ι) (c last : ι) (next : State ι) : Prop where
  registered : s.hasChannel fd last = true
  position : (s.fields last).index.toNat + 1 = s.pollfds.length
  pollfds : next.pollfds = SlotTable.swapRemove s.pollfds (s.fields c).index.toNat
  channels : next.channels = Function.update s.channels (fd c) none
  removed : next.removed = Function.update s.removed c true
  updates : next.updates = s.updates
  events : ∀ d, (next.fields d).events = (s.fields d).events
  index : ∀ d, (next.fields d).index =
    Function.update (fun d => (s.fields d).index) last (s.fields c).index d

omit [DecidableEq ι] in
/-- The descriptor of a slot tells the channel. -/
theorem channelAtEnd_eq {back : PollFd} (hback : Owns fd c back) :
    s.channelAtEnd back = s.channels (fd c) := by
  unfold channelAtEnd
  congr 1
  unfold Owns ignored at hback
  split <;> omega

theorem Represented.eraseSlot (h : Represented fd s) (hfd : Function.Injective fd)
    (hc : s.hasChannel fd c = true) {last : ι} (hlast : s.hasChannel fd last = true)
    (hposition : (s.fields last).index.toNat + 1 = s.pollfds.length) {back : PollFd}
    (hback : s.slot last = some back) :
    ∃ next, s.eraseSlot fd c back = .ok next ∧ Removal fd s c last next := by
  have hlt := h.table.index_lt hc
  unfold State.eraseSlot
  by_cases hend : (s.fields c).index.toNat = s.pollfds.length - 1
  · obtain rfl : last = c := h.table.index_inj (owns_unique hfd) hlast hc (by omega)
    refine ⟨_, if_pos hend, ?_⟩
    exact {
      registered := hlast
      position := hposition
      pollfds := (SlotTable.swapRemove_last hposition).symm
      channels := rfl
      removed := rfl
      updates := rfl
      events := fun _ => rfl
      index := fun d => by simp }
  · have hne : last ≠ c := by
      rintro rfl
      omega
    have hgetLast : s.pollfds.getLast? = some back := by
      rw [List.getLast?_eq_getElem?, ← hback, State.slot]
      congr 1
      omega
    obtain ⟨pfd, hslot, -⟩ := h.slot hc
    obtain ⟨entry, hentry, howns⟩ := h.table.slot last hlast
    obtain rfl : entry = back := Option.some.inj (hentry.symm.trans hback)
    -- The channel of the last slot is still in `channels_`, since it is another one.
    have hkey : fd last ≠ fd c := fun heq => hne (hfd heq)
    have hfound : Function.update s.channels (fd c) none (fd last) = some last := by
      rw [Function.update_of_ne hkey]
      simpa [Poller.hasChannel] using hlast
    rw [if_neg hend, channelAtEnd_eq howns]
    simp only [hfound]
    refine ⟨_, rfl, ?_⟩
    exact {
      registered := hlast
      position := hposition
      pollfds := by
        have hswap := SlotTable.dropLast_swap (i := (s.fields c).index.toNat) (by omega) hgetLast pfd
        rw [← hswap, swapPop, show s.pollfds[(s.fields c).index.toNat]? = some pfd from hslot, hgetLast]
      channels := rfl
      removed := rfl
      updates := rfl
      events := fun d => by
        by_cases hd : d = last
        · subst hd
          simp [set_index, modify]
        · simp [set_index, modify, Function.update_of_ne hd]
      index := fun d => by
        by_cases hd : d = last
        · subst hd
          simp [set_index, modify]
        · simp [set_index, modify, Function.update_of_ne hd] }

/-- A registered channel without events is removed if it was updated at least twice; otherwise its
slot is not marked as ignored. -/
theorem Represented.removeChannel (h : Represented fd s) (hfd : Function.Injective fd)
    (hc : s.hasChannel fd c = true) (hnone : (s.fields c).events = 0#32) :
    (2 ≤ s.updates c → ∃ last next, s.removeChannel fd c = .ok next ∧ Removal fd s c last next) ∧
      (s.updates c < 2 → s.removeChannel fd c = .error .wrongSlot) := by
  obtain ⟨pfd, hslot, -, hholds⟩ := h.slot hc
  have hindex := (h.each c).known.mpr (.inl hc)
  have hlt := h.table.index_lt hc
  obtain ⟨last, hlast, hposition⟩ := h.table.onto (s.pollfds.length - 1) (by omega)
  obtain ⟨back, hback, -⟩ := h.table.slot last hlast
  have hgetLast : s.pollfds.getLast? = some back := by
    rw [List.getLast?_eq_getElem?, ← hposition, hback]
  have hassert : s.removeChannel fd c =
      if pfd.fd = ignored (fd c) ∧ pfd.events.signExtend 32 = (s.fields c).events then
        s.eraseSlot fd c back else .error .wrongSlot := by
    unfold State.removeChannel
    rw [if_neg (by simp [hc]), if_neg (by simp [hnone]), if_neg (by omega), hslot, hgetLast]
  constructor
  · intro htwice
    have hignored : pfd.fd = ignored (fd c) := by rw [hholds.twice htwice, if_pos hnone]
    rw [hassert, if_pos ⟨hignored, hholds.events⟩]
    exact ⟨last, h.eraseSlot hfd hc hlast (by omega) hback⟩
  · intro honce
    have hcounted := (h.each c).counted
    have hfirst : pfd.fd = fd c := hholds.once (by omega)
    rw [hassert, if_neg]
    unfold ignored
    omega

section Removed

variable {last : ι} (hremoval : Removal fd s c last next)

include hremoval

theorem Removal.toNat_index (d : ι) : (next.fields d).index.toNat =
    Function.update (fun d => (s.fields d).index.toNat) last (s.fields c).index.toNat d := by
  rw [hremoval.index]
  by_cases hd : d = last
  · rw [hd, Function.update_self, Function.update_self]
  · rw [Function.update_of_ne hd, Function.update_of_ne hd]

theorem Removal.hasChannel (hfd : Function.Injective fd) (d : ι) :
    next.hasChannel fd d = true ↔ d ≠ c ∧ s.hasChannel fd d = true :=
  hasChannel_none hfd hremoval.channels d

/-- The sign of an index does not change. -/
theorem Removal.index_nonneg (h : Represented fd s) (hc : s.hasChannel fd c = true) (d : ι) :
    0 ≤ (next.fields d).index ↔ 0 ≤ (s.fields d).index := by
  rw [hremoval.index]
  by_cases hd : d = last
  · have hlast := (h.each last).known.mpr (.inl hremoval.registered)
    have hindex := (h.each c).known.mpr (.inl hc)
    rw [hd, Function.update_self]
    exact ⟨fun _ => hlast, fun _ => hindex⟩
  · rw [Function.update_of_ne hd]

theorem Removal.beside (h : Represented fd s) (hfd : Function.Injective fd)
    (hc : s.hasChannel fd c = true) : Beside fd c s next where
  events d _ := hremoval.events d
  index d _ := hremoval.index_nonneg h hc d
  updates d _ := by rw [hremoval.updates]
  removed d hd := by rw [hremoval.removed, Function.update_of_ne hd]
  hasChannel d hd := by rw [Bool.eq_iff_iff, hremoval.hasChannel hfd, and_iff_right hd]
  slot d hd hhas := by
    rw [slot, hremoval.pollfds, hremoval.toNat_index]
    exact h.table.getElem?_move (owns_unique hfd) hc hremoval.registered hremoval.position hhas hd

theorem Removal.represented (h : Represented fd s) (hfd : Function.Injective fd)
    (hc : s.hasChannel fd c = true) : Represented fd next := by
  refine h.of_beside (hremoval.beside h hfd hc) ?_ ?_ ?_
  · rw [hremoval.pollfds]
    exact (h.table.swapRemove (owns_unique hfd) hc hremoval.registered hremoval.position).congr
      (hremoval.hasChannel hfd) (fun d _ => hremoval.toNat_index d)
  · intro key d hchannel
    rw [hremoval.channels] at hchannel
    by_cases hkey : key = fd c
    · rw [hkey, Function.update_self] at hchannel
      cases hchannel
    · rw [Function.update_of_ne hkey] at hchannel
      exact h.keyed key d hchannel
  · have hgone : ¬ next.hasChannel fd c = true := fun hhas => ((hremoval.hasChannel hfd c).mp hhas).1 rfl
    have hremoved : next.removed c = true := by rw [hremoval.removed, Function.update_self]
    have hindex := hremoval.index_nonneg h hc c
    have hat := h.each c
    exact {
      known := by
        rw [hindex, hat.known]
        simp [hc, hremoved]
      apart := fun _ => by simpa using hgone
      counted := by
        have hcounted := hat.counted
        rw [hremoval.updates]
        omega
      mask := by
        rw [hremoval.events]
        exact hat.mask
      slots := fun pfd hhas => absurd hhas hgone }

end Removed

/-! ## What a step does -/

@[simp] theorem events_unlinked (d : ι) : ((s.unlinked c).fields d).events = (s.fields d).events := by
  by_cases hd : d = c
  · subst hd
    simp [unlinked, modify]
  · simp [unlinked, modify, Function.update_of_ne hd]

@[simp] theorem index_unlinked (d : ι) : ((s.unlinked c).fields d).index = (s.fields d).index := by
  by_cases hd : d = c
  · subst hd
    simp [unlinked, modify]
  · simp [unlinked, modify, Function.update_of_ne hd]

@[simp] theorem slot_unlinked (d : ι) : (s.unlinked c).slot d = s.slot d := by
  rw [slot, index_unlinked]
  rfl

theorem Represented.unlinked (h : Represented fd s) (c : ι) : Represented fd (s.unlinked c) where
  table := h.table.congr (fun d => Iff.rfl) (fun d _ => by rw [index_unlinked])
  keyed := h.keyed
  each d := {
    known := by
      rw [index_unlinked]
      exact (h.each d).known
    apart := (h.each d).apart
    counted := by
      rw [index_unlinked]
      exact (h.each d).counted
    mask := by
      rw [events_unlinked]
      exact (h.each d).mask
    slots := fun pfd hhas hslot => by
      rw [slot_unlinked] at hslot
      have hholds := (h.each d).slots pfd hhas hslot
      exact {
        events := by rw [events_unlinked, hholds.events]
        once := hholds.once
        twice := by
          rw [events_unlinked]
          exact hholds.twice } }

theorem Removal.of_unlinked {last : ι} (hremoval : Removal fd (s.unlinked c) c last next) :
    Removal fd s c last next where
  registered := hremoval.registered
  position := by
    rw [← index_unlinked]
    exact hremoval.position
  pollfds := by
    rw [← index_unlinked]
    exact hremoval.pollfds
  channels := hremoval.channels
  removed := hremoval.removed
  updates := hremoval.updates
  events d := by simpa using hremoval.events d
  index d := by simpa using hremoval.index d

/-- What a step does. -/
inductive Turn (fd : ι → Nat) (s : State ι) : ChannelLabel ι → State ι → Prop
  | register {c : ι} {operation : ChannelUpdate} (hindex : (s.fields c).index < 0) :
      Turn fd s (.update c operation) ((s.modify c operation.change).register fd c)
  | refresh {c : ι} {operation : ChannelUpdate} (hc : s.hasChannel fd c = true) :
      Turn fd s (.update c operation) ((s.modify c operation.change).refresh fd c)
  | remove {c last : ι} {next : State ι} (hc : s.hasChannel fd c = true)
      (hnone : (s.fields c).events = 0#32) (htwice : 2 ≤ s.updates c)
      (hremoval : Removal fd s c last next) : Turn fd s (.remove c) next

/-- A channel that has not been removed can be updated. -/
theorem Represented.step_update (h : Represented fd s) (hfd : Function.Injective fd)
    (hremoved : s.removed c = false) (operation : ChannelUpdate) :
    ∃ next, s.step fd (.update c operation) = .ok next ∧ Turn fd s (.update c operation) next := by
  have hindex : ((s.modify c operation.change).fields c).index = (s.fields c).index := by
    simp [modify, ChannelUpdate.change]
  rw [step, updateChannel, hindex]
  by_cases hnew : (s.fields c).index < 0
  · have hfree := h.free hfd hnew
    rw [if_pos hnew, show (s.modify c operation.change).channels (fd c) = none from hfree]
    exact ⟨_, rfl, .register hnew⟩
  · have hc : s.hasChannel fd c = true := by
      simpa [hremoved] using (h.each c).known.mp (by omega)
    obtain ⟨pfd, hslot, howns, -⟩ := h.slot hc
    have hmodified : (s.modify c operation.change).slot c = some pfd := by
      rw [State.slot, hindex]
      exact hslot
    rw [if_neg hnew, show (s.modify c operation.change).hasChannel fd c = true from hc, hmodified]
    exact ⟨_, if_pos howns, .refresh hc⟩

/-- The index of a removed channel is still that of the slot it had. -/
theorem Represented.step_update_removed (h : Represented fd s) (hremoved : s.removed c = true)
    (operation : ChannelUpdate) : s.step fd (.update c operation) = .error .notInChannels := by
  have hindex : ((s.modify c operation.change).fields c).index = (s.fields c).index := by
    simp [modify, ChannelUpdate.change]
  have hknown := (h.each c).known.mpr (.inr hremoved)
  have hgone : (s.modify c operation.change).hasChannel fd c = false := (h.each c).apart hremoved
  rw [step, updateChannel, hindex, if_neg (by omega), hgone]
  rfl

theorem Represented.step_remove (h : Represented fd s) (hfd : Function.Injective fd)
    (hc : s.hasChannel fd c = true) (hnone : (s.fields c).events = 0#32) :
    (2 ≤ s.updates c → ∃ next, s.step fd (.remove c) = .ok next ∧ Turn fd s (.remove c) next) ∧
      (s.updates c < 2 → s.step fd (.remove c) = .error .wrongSlot) := by
  have hspec := (h.unlinked c).removeChannel hfd hc (by simpa using hnone)
  rw [step, if_pos hnone]
  refine ⟨fun htwice => ?_, hspec.2⟩
  obtain ⟨last, next, hnext, hremoval⟩ := hspec.1 htwice
  exact ⟨next, hnext, .remove hc hnone htwice hremoval.of_unlinked⟩

theorem step_remove_disabled (hbad : s.hasChannel fd c = false ∨ (s.fields c).events ≠ 0#32) :
    ∃ failure, s.step fd (.remove c) = .error failure := by
  rw [step]
  by_cases hnone : (s.fields c).events = 0#32
  · have hgone : (s.unlinked c).hasChannel fd c = false := hbad.resolve_right (not_not.mpr hnone)
    refine ⟨.notInChannels, ?_⟩
    rw [if_pos hnone]
    exact if_pos (by rw [hgone]; rfl)
  · exact ⟨_, if_neg hnone⟩

/-- **Every step is one of three.** -/
theorem Represented.step_turn (h : Represented fd s) (hfd : Function.Injective fd)
    {label : ChannelLabel ι} (hstep : s.step fd label = .ok next) : Turn fd s label next := by
  cases label with
  | update c operation =>
      cases hremoved : s.removed c with
      | true =>
          rw [h.step_update_removed hremoved] at hstep
          cases hstep
      | false =>
          obtain ⟨other, hother, hturn⟩ := h.step_update hfd hremoved operation
          obtain rfl := Except.ok.inj (hother.symm.trans hstep)
          exact hturn
  | remove c =>
      by_cases hlegal : s.hasChannel fd c = true ∧ (s.fields c).events = 0#32
      · obtain ⟨hok, hfails⟩ := h.step_remove hfd hlegal.1 hlegal.2
        by_cases htwice : 2 ≤ s.updates c
        · obtain ⟨other, hother, hturn⟩ := hok htwice
          obtain rfl := Except.ok.inj (hother.symm.trans hstep)
          exact hturn
        · rw [hfails (by omega)] at hstep
          cases hstep
      · rw [not_and_or, Bool.not_eq_true] at hlegal
        obtain ⟨failure, hfails⟩ := step_remove_disabled hlegal
        rw [hfails] at hstep
        cases hstep

theorem Turn.represented (h : Represented fd s) (hfd : Function.Injective fd) {label : ChannelLabel ι}
    (hturn : Turn fd s label next) : Represented fd next := by
  cases hturn with
  | register hindex => exact h.register hfd _ hindex
  | refresh hc => exact h.refresh _ hfd hc
  | remove hc hnone htwice hremoval => exact hremoval.represented h hfd hc

theorem represented_of_run (hfd : Function.Injective fd) {labels : List (ChannelLabel ι)}
    (hrun : run (step fd) {} labels = .ok s) : Represented fd s :=
  run_preserves (Represented fd)
    (fun _ _ _ h hstep => Turn.represented h hfd (h.step_turn hfd hstep)) represented_initial hrun

/-! ## The representation -/

/-- `channels_` and `pollfds_` are in one-to-one correspondence, the slot of a channel holds what the
channel asks for, and removing a channel does not touch the slots of the others. -/
structure Registration (fd : ι → Nat) (s : State ι) : Prop where
  keyed : ∀ key c, s.channels key = some c → fd c = key
  slot : ∀ c, s.hasChannel fd c = true → 0 ≤ (s.fields c).index ∧
    ∃ pfd, s.slot c = some pfd ∧ (pfd.fd = fd c ∨ pfd.fd = -(fd c : Int) - 1)
  onto : ∀ i : Nat, i < s.pollfds.length → ∃ c, s.hasChannel fd c = true ∧ (s.fields c).index = i
  distinct : ∀ c d, s.hasChannel fd c = true → s.hasChannel fd d = true →
    (s.fields c).index = (s.fields d).index → c = d
  twice : ∀ c, s.hasChannel fd c = true → 2 ≤ s.updates c →
    ∃ pfd, s.slot c = some pfd ∧ pfd.events.signExtend 32 = (s.fields c).events ∧
      pfd.fd = if (s.fields c).events = 0#32 then -(fd c : Int) - 1 else fd c
  removal : ∀ c next, s.step fd (.remove c) = .ok next → ∀ d, d ≠ c →
    next.hasChannel fd d = s.hasChannel fd d ∧ (next.fields d).events = (s.fields d).events ∧
      (s.hasChannel fd d = true → next.slot d = s.slot d)

theorem Represented.registration (h : Represented fd s) (hfd : Function.Injective fd) :
    Registration fd s where
  keyed := h.keyed
  slot c hc := by
    obtain ⟨pfd, hslot, howns, -⟩ := h.slot hc
    exact ⟨(h.each c).known.mpr (.inl hc), pfd, hslot, howns⟩
  onto i hi := by
    obtain ⟨c, hc, hindex⟩ := h.table.onto i hi
    have hknown := (h.each c).known.mpr (.inl hc)
    exact ⟨c, hc, by omega⟩
  distinct c d hc hd hindex := h.table.index_inj (owns_unique hfd) hc hd (by rw [hindex])
  twice c hc htwice := by
    obtain ⟨pfd, hslot, -, hholds⟩ := h.slot hc
    exact ⟨pfd, hslot, hholds.events, hholds.twice htwice⟩
  removal c next hstep d hd := by
    cases h.step_turn hfd hstep with
    | remove hc hnone htwice hremoval =>
        have hbeside := hremoval.beside h hfd hc
        exact ⟨hbeside.hasChannel d hd, hbeside.events d hd, hbeside.slot d hd⟩

/-- **The representation of `PollPoller`.** After every sequence of channel operations on channels with
distinct descriptors that no assertion stops. -/
theorem poll_representation (fd : ι → Nat) (hfd : Function.Injective fd)
    (labels : List (ChannelLabel ι)) (final : State ι) (hrun : run (step fd) {} labels = .ok final) :
    Registration fd final :=
  (represented_of_run hfd hrun).registration hfd

/-- Three channels, the second of them ignored, of which the first is removed. -/
def removesFirst : List (ChannelLabel Nat) :=
  [.update 5 .enableReading, .update 6 .enableReading, .update 7 .enableWriting, .update 7 .disableAll,
    .update 5 .disableAll, .remove 5]

theorem poll_representation_removesFirst :
    ∃ final : State Nat, run (step id) {} removesFirst = .ok final ∧
      final.pollfds = [⟨-8, 0#16, 0#16⟩, ⟨6, 3#16, 0#16⟩] ∧ Registration id final := by
  obtain ⟨final, hrun, hcheck⟩ := exists_of_outcome (step id) ({} : State Nat) removesFirst
    (fun s => s.pollfds == [⟨-8, 0#16, 0#16⟩, ⟨6, 3#16, 0#16⟩]) (by decide +kernel)
  exact ⟨final, hrun, beq_iff_eq.mp hcheck,
    poll_representation id Function.injective_id removesFirst final hrun⟩

/-- `fillActiveChannels` finds the channel of every slot that `poll` reports: these are the slots that
are not ignored. -/
theorem Represented.fillActiveChannels (h : Represented fd s) (numEvents : Nat) (pollfds : List PollFd)
    (hslots : ∀ pfd ∈ pollfds, 0 < pfd.revents.toInt → 0 ≤ pfd.fd ∧ ∃ old ∈ s.pollfds, old.fd = pfd.fd) :
    ∃ active, s.fillActiveChannels fd numEvents pollfds = .ok active ∧
      ∀ entry ∈ active, s.hasChannel fd entry.1 = true := by
  induction pollfds generalizing numEvents with
  | nil =>
      cases numEvents with
      | zero | succ numEvents => exact ⟨[], rfl, by simp⟩
  | cons pfd pollfds ih =>
      have hrest := fun later hlater => hslots later (List.mem_cons_of_mem _ hlater)
      cases numEvents with
      | zero => exact ⟨[], rfl, by simp⟩
      | succ numEvents =>
          by_cases hactive : 0 < pfd.revents.toInt
          · obtain ⟨hwatched, old, hold, hsame⟩ := hslots pfd List.mem_cons_self hactive
            obtain ⟨active, hfilled, hactives⟩ := ih numEvents hrest
            obtain ⟨i, hi, rfl⟩ := List.mem_iff_getElem.mp hold
            obtain ⟨c, hc, hindex⟩ := h.table.onto i hi
            obtain ⟨slot, hslot, howns, -⟩ := h.slot hc
            have hfound : slot = s.pollfds[i] := by
              rw [State.slot, hindex, List.getElem?_eq_getElem hi] at hslot
              exact (Option.some.inj hslot).symm
            have hfd : (fd c : Int) = pfd.fd := by
              rw [hfound] at howns
              unfold Owns ignored at howns
              omega
            have hchannel : s.channels pfd.fd.toNat = some c := by
              rw [← hfd, Int.toNat_natCast]
              simpa [Poller.hasChannel] using hc
            refine ⟨(c, pfd.revents.signExtend 32) :: active, ?_, ?_⟩
            · rw [State.fillActiveChannels, if_pos hactive, if_neg (by omega), hchannel]
              simp [hfd, hfilled, Except.map]
            · intro entry hentry
              rcases List.mem_cons.mp hentry with rfl | hlater
              · exact hc
              · exact hactives entry hlater
          · rw [State.fillActiveChannels, if_neg hactive]
            exact ih (numEvents + 1) hrest

end State
end PollPoller
end Muduo
