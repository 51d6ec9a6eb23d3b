import Mathlib.Data.List.Nodup
import Muduo.Poller

/-! The dispatch of events in `EventLoop::loop`. The active channels are a list of pointers that was made
before the first handler ran; handlers update and remove channels, also ones that are still in the list.
What keeps the list from going stale is the assertion in `EventLoop::removeChannel`. -/

namespace Muduo

open Execution

/-- Why the loop stops. -/
inductive DispatchStop where
  | disabled
  /-- `assert(it != channels_.end())` and `assert(it->second == channel)` in `fillActiveChannels`. -/
  | staleEvent
  /-- The assertion in `EventLoop::removeChannel`. -/
  | activeChannel
  /-- The poller or the channel fails. -/
  | channel (failure : ChannelFailure)
  deriving DecidableEq, Repr

/-- A call of `handleEvent`. -/
structure HandleEvent (ι : Type) where
  channel : ι
  /-- The poller had the channel when the call was made. -/
  registered : Bool
  /-- The channel had been removed after the events were polled. -/
  removed : Bool
  deriving DecidableEq, Repr

structure DispatchLoop (ι : Type) where
  poller : EPollPoller.State ι := {}
  /-- `data.ptr` of the entries in the kernel's interest set. -/
  pointers : Nat → Option ι := fun _ => none
  eventHandling : Bool := false
  activeChannels : List ι := []
  currentActiveChannel : Option ι := none
  /-- The active channels that the loop has not come to. -/
  rest : List ι := []
  /-- The channels removed since the last poll. -/
  removed : List ι := []
  calls : List (HandleEvent ι) := []

/-- A step of the loop, or of a handler or functor that it calls. -/
inductive DispatchLabel (ι : Type) where
  /-- `epoll_wait` reports events for the descriptors. -/
  | poll (ready : List Nat)
  /-- The next turn of the loop over the active channels. -/
  | handleEvent
  /-- The end of that loop. -/
  | finish
  | operate (operation : ChannelLabel ι)
  deriving DecidableEq, Repr

namespace EPollPoller.State

variable {ι : Type} [DecidableEq ι]

/-- The `epoll_ctl` that an operation on a channel calls. -/
def control (s : State ι) : ChannelLabel ι → Option EpollOperation
  | .update c operation =>
      match (s.fields c).index with
      | .kNew | .kDeleted => some .EPOLL_CTL_ADD
      | .kAdded =>
          if operation.apply (s.fields c).events = 0#32 then some .EPOLL_CTL_DEL
          else some .EPOLL_CTL_MOD
  | .remove c =>
      match (s.fields c).index with
      | .kAdded => some .EPOLL_CTL_DEL
      | .kNew | .kDeleted => none

end EPollPoller.State

/-- What a successful `epoll_ctl` leaves as the pointer of the entry. -/
def EpollOperation.pointer {ι : Type} (channel : ι) : EpollOperation → Option ι
  | .EPOLL_CTL_ADD => some channel
  | .EPOLL_CTL_MOD => some channel
  | .EPOLL_CTL_DEL => none

/-- The pointers when `epoll_ctl` was called for the descriptor, if it was. -/
def repoint {ι : Type} (pointers : Nat → Option ι) (descriptor : Nat) (channel : ι) :
    Option EpollOperation → Nat → Option ι
  | some call => Function.update pointers descriptor (call.pointer channel)
  | none => pointers

namespace DispatchLoop

variable {ι : Type} [DecidableEq ι] (fd : ι → Nat)

/-- The assertions of `fillActiveChannels` for one event. -/
def upToDate (s : DispatchLoop ι) (descriptor : Nat) : Bool :=
  match s.pointers descriptor with
  | some c => s.poller.hasChannel fd c
  | none => false

/-- `Poller::poll` and the beginning of the loop. The kernel reports entries of the interest set, each of
them once. -/
def poll (s : DispatchLoop ι) (ready : List Nat) : Except DispatchStop (DispatchLoop ι) :=
  if !s.eventHandling && ready.Nodup && ready.all fun f => (s.poller.kernel f).isSome then
    if ready.all (s.upToDate fd) then
      let activeChannels := ready.filterMap s.pointers
      .ok { s with
        activeChannels := activeChannels
        rest := activeChannels
        eventHandling := true
        removed := [] }
    else .error .staleEvent
  else .error .disabled

/-- `currentActiveChannel_->handleEvent(pollReturnTime_)`. -/
def handleEvent (s : DispatchLoop ι) : Except DispatchStop (DispatchLoop ι) :=
  match s.rest with
  | channel :: rest =>
      .ok { s with
        currentActiveChannel := some channel
        rest := rest
        calls := s.calls ++
          [⟨channel, s.poller.hasChannel fd channel, decide (channel ∈ s.removed)⟩] }
  | [] => .error .disabled

def finish (s : DispatchLoop ι) : Except DispatchStop (DispatchLoop ι) :=
  if s.eventHandling && s.rest.isEmpty then
    .ok { s with currentActiveChannel := none, eventHandling := false }
  else .error .disabled

/-- The assertion in `EventLoop::removeChannel`. -/
def mayRemove (s : DispatchLoop ι) (channel : ι) : Bool :=
  !s.eventHandling || s.currentActiveChannel = some channel || channel ∉ s.activeChannels

/-- The poller is called for the channel, which calls the kernel. -/
def callPoller (s : DispatchLoop ι) (operation : ChannelLabel ι) :
    Except DispatchStop (DispatchLoop ι) :=
  match s.poller.step fd operation with
  | .ok poller =>
      .ok { s with
        poller := poller
        pointers := repoint s.pointers (fd operation.channel) operation.channel
          (s.poller.control operation) }
  | .error failure => .error (.channel failure)

/-- `Channel::update` or `Channel::remove`, in a handler or in a functor. -/
def operate (s : DispatchLoop ι) (operation : ChannelLabel ι) : Except DispatchStop (DispatchLoop ι) :=
  if s.eventHandling && s.currentActiveChannel.isNone then .error .disabled
  else
    match operation with
    | .update _ _ => s.callPoller fd operation
    | .remove c =>
        if s.mayRemove c then
          (s.callPoller fd operation).map fun s => { s with removed := c :: s.removed }
        else .error .activeChannel

def step (s : DispatchLoop ι) : DispatchLabel ι → Except DispatchStop (DispatchLoop ι)
  | .poll ready => s.poll fd ready
  | .handleEvent => s.handleEvent fd
  | .finish => s.finish
  | .operate operation => s.operate fd operation

end DispatchLoop

/-! ## The poller's map under one operation -/

namespace EPollPoller.State

variable {ι : Type} [DecidableEq ι] {fd : ι → Nat} {s next : State ι} {c d : ι}

/-- `epoll_ctl` was called for the descriptor: there is an entry then, unless it was to be deleted. -/
structure Called (f : Nat) (operation : EpollOperation) (kernel kernel' : Nat → Option EventMask) :
    Prop where
  entry : (kernel' f).isSome = decide (operation ≠ .EPOLL_CTL_DEL)
  others : ∀ other, other ≠ f → kernel' other = kernel other

theorem epoll_ctl_isSome {entry entry' : Option EventMask} {mask : EventMask}
    {operation : EpollOperation} (hcall : epoll_ctl entry mask operation = some entry') :
    entry'.isSome = decide (operation ≠ .EPOLL_CTL_DEL) := by
  cases operation with
  | EPOLL_CTL_ADD | EPOLL_CTL_MOD | EPOLL_CTL_DEL =>
      simp only [epoll_ctl] at hcall
      split at hcall
      · cases hcall
        rfl
      · cases hcall

omit [DecidableEq ι] in
theorem update_ok {operation : EpollOperation} (hupdate : s.update fd operation c = .ok next) :
    next.channels = s.channels ∧ next.fields = s.fields ∧
      Called (fd c) operation s.kernel next.kernel := by
  rw [update] at hupdate
  split at hupdate
  · rename_i entry hcall
    cases hupdate
    refine ⟨rfl, rfl, ?_, fun other hother => Function.update_of_ne hother _ _⟩
    show (Function.update s.kernel (fd c) entry (fd c)).isSome = _
    rw [Function.update_self]
    exact epoll_ctl_isSome hcall
  · rename_i hcall
    split at hupdate
    · -- there was nothing to delete
      rename_i hdelete
      cases hupdate
      refine ⟨rfl, rfl, ?_, fun other hother => rfl⟩
      subst hdelete
      cases hentry : s.kernel (fd c) with
      | none => rfl
      | some mask => simp [epoll_ctl, hentry] at hcall
    · cases hupdate

theorem map_update_ok {operation : EpollOperation} {index : ChannelIndex}
    (hupdate : ((s.update fd operation c).map fun s => s.set_index c index) = .ok next) :
    next.channels = s.channels ∧ next.fields = (s.set_index c index).fields ∧
      Called (fd c) operation s.kernel next.kernel := by
  cases hcall : s.update fd operation c with
  | error failure =>
      rw [hcall] at hupdate
      cases hupdate
  | ok after =>
      rw [hcall] at hupdate
      obtain ⟨hchannels, hfields, hkernel⟩ := update_ok hcall
      cases hupdate
      exact ⟨hchannels, by simp [set_index, modify, hfields], hkernel⟩

theorem hasChannel_iff : s.hasChannel fd c = true ↔ s.channels (fd c) = some c := by
  simp [Poller.hasChannel]

/-- An update that goes through: the channel is in `channels_` then, as it was or instead of nothing, and
its index says whether the entry in the interest set was deleted. -/
structure Updated (fd : ι → Nat) (s : State ι) (c : ι) (change : ChannelUpdate) (next : State ι) :
    Prop where
  found : s.channels (fd c) = none ∨ s.channels (fd c) = some c
  channels : next.channels = Function.update s.channels (fd c) (some c)
  fields : ∀ d, d ≠ c → next.fields d = s.fields d
  control : ∃ call, s.control (.update c change) = some call ∧
    Called (fd c) call s.kernel next.kernel ∧
    ((next.fields c).index = .kDeleted → call = .EPOLL_CTL_DEL)

theorem updated_of_step {change : ChannelUpdate} (hstep : s.step fd (.update c change) = .ok next) :
    Updated fd s c change next := by
  have hself (hhas : s.channels (fd c) = some c) :
      s.channels = Function.update s.channels (fd c) (some c) := by
    rw [← hhas, Function.update_eq_self]
  have hindex : ((s.modify c change.change).fields c).index = (s.fields c).index := by
    simp [modify, ChannelUpdate.change]
  have hevents : ((s.modify c change.change).fields c).events = change.apply (s.fields c).events := by
    simp [modify, ChannelUpdate.change]
  rw [step, updateChannel, hindex, hevents] at hstep
  have hhasChannel : (s.modify c change.change).hasChannel fd c = s.hasChannel fd c := rfl
  rw [hhasChannel] at hstep
  cases hcase : (s.fields c).index with
  | kNew =>
      simp only [hcase] at hstep
      split at hstep
      · cases hstep
      · rename_i hnone
        obtain ⟨hchannels, hfields, hkernel⟩ := update_ok hstep
        refine ⟨.inl (by simpa [modify] using hnone), by rw [hchannels]; rfl, fun d hd => ?_,
          _, by simp [control, hcase], hkernel, ?_⟩
        · rw [hfields]
          simp [set_index, modify, hd]
        · rw [hfields]
          simp [set_index, modify]
  | kDeleted =>
      simp only [hcase] at hstep
      split at hstep
      · rename_i hhas
        rw [hasChannel_iff] at hhas
        obtain ⟨hchannels, hfields, hkernel⟩ := update_ok hstep
        refine ⟨.inr hhas, by rw [hchannels, ← hself hhas]; rfl, fun d hd => ?_,
          _, by simp [control, hcase], hkernel, ?_⟩
        · rw [hfields]
          simp [set_index, modify, hd]
        · rw [hfields]
          simp [set_index, modify]
      · cases hstep
  | kAdded =>
      simp only [hcase] at hstep
      split at hstep
      · cases hstep
      · rename_i hhas
        rw [Bool.not_eq_true', Bool.not_eq_false, hasChannel_iff] at hhas
        split at hstep
        · rename_i hzero
          obtain ⟨hchannels, hfields, hkernel⟩ := map_update_ok hstep
          refine ⟨.inr hhas, by rw [hchannels, ← hself hhas]; rfl, fun d hd => ?_,
            _, by simp [control, hcase, hzero], hkernel, fun _ => rfl⟩
          rw [hfields]
          simp [set_index, modify, hd]
        · rename_i hnonzero
          obtain ⟨hchannels, hfields, hkernel⟩ := update_ok hstep
          refine ⟨.inr hhas, by rw [hchannels, ← hself hhas]; rfl, fun d hd => ?_,
            _, by simp [control, hcase, hnonzero], hkernel, ?_⟩
          · rw [hfields]
            simp [modify, hd]
          · rw [hfields, hindex, hcase]
            simp

/-- A removal that goes through. -/
structure Removed (fd : ι → Nat) (s : State ι) (c : ι) (next : State ι) : Prop where
  found : s.channels (fd c) = some c
  channels : next.channels = Function.update s.channels (fd c) none
  fields : ∀ d, d ≠ c → next.fields d = s.fields d
  control : s.control (.remove c) = some .EPOLL_CTL_DEL ∧
      Called (fd c) .EPOLL_CTL_DEL s.kernel next.kernel ∨
    s.control (.remove c) = none ∧ (s.fields c).index = .kDeleted ∧ next.kernel = s.kernel

theorem removed_of_step (hstep : s.step fd (.remove c) = .ok next) : Removed fd s c next := by
  rw [step] at hstep
  split at hstep
  · have hindex : ((s.modify c fun channel => { channel with addedToLoop := false }).fields c).index =
        (s.fields c).index := by
      simp [modify]
    rw [removeChannel, hindex] at hstep
    split at hstep
    · cases hstep
    · rename_i hhas
      rw [Bool.not_eq_true', Bool.not_eq_false, hasChannel_iff] at hhas
      split at hstep
      · cases hstep
      · cases hcase : (s.fields c).index with
        | kNew =>
            simp only [hcase] at hstep
            cases hstep
        | kAdded =>
            simp only [hcase] at hstep
            obtain ⟨hchannels, hfields, hkernel⟩ := map_update_ok hstep
            refine ⟨hhas, hchannels, fun d hd => ?_, .inl ⟨by simp [control, hcase], hkernel⟩⟩
            rw [hfields]
            simp [set_index, modify, hd]
        | kDeleted =>
            simp only [hcase] at hstep
            cases hstep
            refine ⟨hhas, rfl, fun d hd => ?_, .inr ⟨by simp [control, hcase], hcase, rfl⟩⟩
            simp [set_index, modify, hd]
  · cases hstep

/-- The pointers in the interest set are those of channels in `channels_`, and a channel whose entry was
deleted has none. -/
structure Wired (fd : ι → Nat) (s : State ι) (pointers : Nat → Option ι) : Prop where
  entries : ∀ f, (s.kernel f).isSome = (pointers f).isSome
  channels : ∀ f c, pointers f = some c → fd c = f ∧ s.channels f = some c
  deleted : ∀ c, s.channels (fd c) = some c → (s.fields c).index = .kDeleted → pointers (fd c) = none

variable {pointers : Nat → Option ι}

omit [DecidableEq ι] in
theorem Called.entries {f : Nat} {call : EpollOperation} {kernel : Nat → Option EventMask}
    (hcalled : Called f call s.kernel kernel) (c : ι)
    (hentries : ∀ f, (s.kernel f).isSome = (pointers f).isSome) (other : Nat) :
    (kernel other).isSome = (Function.update pointers f (call.pointer c) other).isSome := by
  by_cases hother : other = f
  · subst hother
    rw [hcalled.entry, Function.update_self]
    cases call <;> rfl
  · rw [hcalled.others other hother, Function.update_of_ne hother]
    exact hentries other

omit [DecidableEq ι] in
/-- A channel that has its descriptor's place in `channels_` is the only one that does. -/
theorem eq_of_found {d : ι} (hfound : s.channels (fd c) = none ∨ s.channels (fd c) = some c)
    (hd : s.channels (fd d) = some d) (hsame : fd d = fd c) : d = c := by
  rw [hsame] at hd
  rcases hfound with hnone | hself
  · rw [hnone] at hd
    cases hd
  · rw [hself, Option.some.injEq] at hd
    exact hd.symm

theorem Updated.wired {change : ChannelUpdate} (hupdated : Updated fd s c change next)
    (hwired : Wired fd s pointers) :
    Wired fd next (repoint pointers (fd c) c (s.control (.update c change))) := by
  obtain ⟨-, hchannels, hfields, call, hcontrol, hcalled, hdeleted⟩ := hupdated
  rw [hcontrol, repoint]
  refine ⟨hcalled.entries c hwired.entries, fun f d hpointer => ?_, fun d hd hindex => ?_⟩
  · rw [hchannels]
    by_cases hf : f = fd c
    · subst hf
      rw [Function.update_self] at hpointer ⊢
      cases call <;> cases hpointer <;> exact ⟨rfl, rfl⟩
    · rw [Function.update_of_ne hf] at hpointer ⊢
      exact hwired.channels f d hpointer
  · by_cases hsame : d = c
    · subst hsame
      rw [hdeleted hindex, Function.update_self]
      rfl
    · rw [hfields d hsame] at hindex
      rw [hchannels] at hd
      by_cases hf : fd d = fd c
      · rw [hf, Function.update_self, Option.some.injEq] at hd
        exact absurd hd.symm hsame
      · rw [Function.update_of_ne hf] at hd ⊢
        exact hwired.deleted d hd hindex

omit [DecidableEq ι] in
theorem Removed.wired (hremoved : Removed fd s c next) (hwired : Wired fd s pointers) :
    Wired fd next (repoint pointers (fd c) c (s.control (.remove c))) := by
  obtain ⟨hfound, hchannels, hfields, hcontrol⟩ := hremoved
  have hnext : ∀ d, next.channels (fd d) = some d → fd d ≠ fd c ∧ d ≠ c ∧
      s.channels (fd d) = some d := by
    intro d hd
    rw [hchannels] at hd
    have hf : fd d ≠ fd c := by
      intro hf
      rw [hf, Function.update_self] at hd
      cases hd
    rw [Function.update_of_ne hf] at hd
    exact ⟨hf, fun hsame => hf (congrArg fd hsame), hd⟩
  rcases hcontrol with ⟨hdelete, hcalled⟩ | ⟨hnone, hindex, hkernel⟩
  · rw [hdelete, repoint]
    refine ⟨hcalled.entries c hwired.entries, fun f d hpointer => ?_, fun d hd hdeleted => ?_⟩
    · have hf : f ≠ fd c := by
        rintro rfl
        rw [Function.update_self] at hpointer
        cases hpointer
      rw [Function.update_of_ne hf] at hpointer
      rw [hchannels, Function.update_of_ne hf]
      exact hwired.channels f d hpointer
    · obtain ⟨hf, hne, hbefore⟩ := hnext d hd
      rw [hfields d hne] at hdeleted
      rw [Function.update_of_ne hf]
      exact hwired.deleted d hbefore hdeleted
  · -- the entry was deleted when the channel lost its last event
    rw [hnone, repoint]
    have hempty := hwired.deleted c hfound hindex
    refine ⟨by rw [hkernel]; exact hwired.entries, fun f d hpointer => ?_, fun d hd hdeleted => ?_⟩
    · have hf : f ≠ fd c := by
        rintro rfl
        rw [hempty] at hpointer
        cases hpointer
      rw [hchannels, Function.update_of_ne hf]
      exact hwired.channels f d hpointer
    · obtain ⟨-, hne, hbefore⟩ := hnext d hd
      rw [hfields d hne] at hdeleted
      exact hwired.deleted d hbefore hdeleted

end EPollPoller.State

/-! ## The active channels -/

namespace DispatchLoop

open EPollPoller.State

variable {ι : Type} [DecidableEq ι] {fd : ι → Nat} {s next : DispatchLoop ι}

/-- The channels that the loop has not come to are registered, and have not been removed. -/
structure Fresh (fd : ι → Nat) (s : DispatchLoop ι) : Prop where
  wired : Wired fd s.poller s.pointers
  nodup : s.activeChannels.Nodup
  idle : s.eventHandling = false → s.rest = [] ∧ s.currentActiveChannel = none
  /-- What the loop has come to, the last of them being handled now, and the rest. -/
  split : s.eventHandling = true →
    ∃ front, s.activeChannels = front ++ s.currentActiveChannel.toList ++ s.rest
  registered : ∀ c ∈ s.rest, s.poller.channels (fd c) = some c
  removed : ∀ c ∈ s.rest, c ∉ s.removed
  calls : ∀ call ∈ s.calls, call.registered = true ∧ call.removed = false

omit [DecidableEq ι] in
theorem fresh_new : Fresh fd ({} : DispatchLoop ι) where
  wired := ⟨fun _ => rfl, by simp, by simp⟩
  nodup := List.nodup_nil
  idle _ := ⟨rfl, rfl⟩
  split := by simp
  registered := by simp
  removed := by simp
  calls := by simp

/-- A channel that may be removed is not one that the loop has still to come to. -/
theorem not_mem_rest (hs : Fresh fd s) {c : ι} (hmay : s.mayRemove c = true) : c ∉ s.rest := by
  cases hhandling : s.eventHandling with
  | false =>
      rw [(hs.idle hhandling).1]
      exact List.not_mem_nil
  | true =>
      obtain ⟨front, hsplit⟩ := hs.split hhandling
      simp only [mayRemove, hhandling, Bool.not_true, Bool.false_or, Bool.or_eq_true,
        decide_eq_true_eq] at hmay
      rcases hmay with hcurrent | habsent
      · have hnodup := hs.nodup
        rw [hsplit, hcurrent, Option.toList_some] at hnodup
        have hdisjoint := List.disjoint_of_nodup_append hnodup
        exact fun hrest => hdisjoint (List.mem_append_right _ (List.mem_singleton.mpr rfl)) hrest
      · intro hrest
        rw [hsplit] at habsent
        exact habsent (List.mem_append_right _ hrest)

omit [DecidableEq ι] in
theorem mem_filterMap_pointers (hs : Fresh fd s) {ready : List Nat} {c : ι}
    (hc : c ∈ ready.filterMap s.pointers) : s.poller.channels (fd c) = some c := by
  obtain ⟨f, -, hpointer⟩ := List.mem_filterMap.mp hc
  obtain ⟨rfl, hchannels⟩ := hs.wired.channels f c hpointer
  exact hchannels

theorem fresh_poll (hs : Fresh fd s) (ready : List Nat) :
    s.poll fd ready = .error .disabled ∨ ∃ next, s.poll fd ready = .ok next ∧ Fresh fd next := by
  rw [poll]
  split
  · rename_i hready
    simp only [Bool.and_eq_true, decide_eq_true_eq, List.all_eq_true] at hready
    obtain ⟨⟨hidle, hnodup⟩, hkernel⟩ := hready
    have hnone := (hs.idle (by simpa using hidle)).2
    have hcurrent : ready.all (s.upToDate fd) = true := by
      rw [List.all_eq_true]
      intro f hf
      have hsome := hkernel f hf
      rw [hs.wired.entries] at hsome
      obtain ⟨c, hc⟩ := Option.isSome_iff_exists.mp hsome
      obtain ⟨rfl, hchannels⟩ := hs.wired.channels f c hc
      rw [upToDate, hc]
      exact hasChannel_iff.mpr hchannels
    rw [if_pos hcurrent]
    refine .inr ⟨_, rfl, ?_⟩
    exact {
      wired := hs.wired
      nodup := by
        refine List.Nodup.filterMap (fun f f' c hf hf' => ?_) hnodup
        rw [← (hs.wired.channels f c hf).1, ← (hs.wired.channels f' c hf').1]
      idle := by simp
      split := fun _ => ⟨[], by rw [hnone]; rfl⟩
      registered := fun c hc => mem_filterMap_pointers hs hc
      removed := by simp
      calls := hs.calls }
  · exact .inl rfl

theorem fresh_handleEvent (hs : Fresh fd s) (hstep : s.handleEvent fd = .ok next) : Fresh fd next := by
  rw [handleEvent] at hstep
  split at hstep
  · rename_i c rest hrest
    have hhandling : s.eventHandling = true := by
      by_contra hidle
      rw [Bool.not_eq_true] at hidle
      rw [(hs.idle hidle).1] at hrest
      cases hrest
    cases hstep
    have hregistered := hs.registered
    have hremoved := hs.removed
    rw [hrest] at hregistered hremoved
    exact {
      wired := hs.wired
      nodup := hs.nodup
      idle := by simp [hhandling]
      split := fun _ => by
        obtain ⟨front, hsplit⟩ := hs.split hhandling
        refine ⟨front ++ s.currentActiveChannel.toList, ?_⟩
        rw [hsplit, hrest, Option.toList_some, List.append_assoc _ [c], List.singleton_append]
      registered := fun d hd => hregistered d (List.mem_cons_of_mem _ hd)
      removed := fun d hd => hremoved d (List.mem_cons_of_mem _ hd)
      calls := by
        intro call hcall
        rcases List.mem_append.mp hcall with hold | hnew
        · exact hs.calls call hold
        · rw [List.mem_singleton.mp hnew]
          exact ⟨hasChannel_iff.mpr (hregistered c List.mem_cons_self),
            decide_eq_false (hremoved c List.mem_cons_self)⟩ }
  · cases hstep

omit [DecidableEq ι] in
theorem fresh_finish (hs : Fresh fd s) (hstep : s.finish = .ok next) : Fresh fd next := by
  rw [finish] at hstep
  split at hstep
  · rename_i hend
    rw [Bool.and_eq_true, List.isEmpty_iff] at hend
    cases hstep
    exact { hs with idle := fun _ => ⟨hend.2, rfl⟩, split := by simp }
  · cases hstep

/-- The poller was called for a channel other than those the loop has still to come to, or for an update. -/
theorem fresh_callPoller (hs : Fresh fd s) {operation : ChannelLabel ι}
    (hremove : ∀ c, operation = .remove c → c ∉ s.rest)
    (hstep : s.callPoller fd operation = .ok next) :
    Fresh fd next ∧ next.rest = s.rest ∧ next.removed = s.removed := by
  rw [callPoller] at hstep
  split at hstep
  · rename_i poller hpoller
    cases hstep
    refine ⟨?_, rfl, rfl⟩
    cases operation with
    | update c change =>
        have hupdated := updated_of_step hpoller
        refine { hs with wired := hupdated.wired hs.wired, registered := fun d hd => ?_ }
        have hbefore := hs.registered d hd
        show poller.channels (fd d) = some d
        rw [hupdated.channels]
        by_cases hf : fd d = fd c
        · rw [eq_of_found hupdated.found hbefore hf, Function.update_self]
        · rw [Function.update_of_ne hf]
          exact hbefore
    | remove c =>
        have hremoved := removed_of_step hpoller
        refine { hs with wired := hremoved.wired hs.wired, registered := fun d hd => ?_ }
        have hbefore := hs.registered d hd
        have hf : fd d ≠ fd c := by
          intro hf
          rw [eq_of_found (.inr hremoved.found) hbefore hf] at hd
          exact hremove c rfl hd
        show poller.channels (fd d) = some d
        rw [hremoved.channels, Function.update_of_ne hf]
        exact hbefore
  · cases hstep

theorem fresh_operate (hs : Fresh fd s) {operation : ChannelLabel ι}
    (hstep : s.operate fd operation = .ok next) : Fresh fd next := by
  cases operation with
  | update c change =>
      simp only [operate] at hstep
      split at hstep
      · cases hstep
      · exact (fresh_callPoller hs (by simp) hstep).1
  | remove c =>
      simp only [operate] at hstep
      split at hstep
      · cases hstep
      · split at hstep
        · rename_i hmay
          have habsent := not_mem_rest hs hmay
          cases hcall : s.callPoller fd (.remove c) with
          | error reason =>
              rw [hcall] at hstep
              cases hstep
          | ok after =>
              rw [hcall] at hstep
              obtain ⟨hafter, hrest, hremoved⟩ := fresh_callPoller hs
                (fun d hd => by cases hd; exact habsent) hcall
              cases hstep
              refine { hafter with removed := fun d hd => ?_ }
              show d ∉ c :: after.removed
              rw [hrest] at hd
              rw [hremoved, List.mem_cons, not_or]
              exact ⟨fun hsame => habsent (hsame ▸ hd), hs.removed d hd⟩
        · cases hstep

theorem callPoller_ne_staleEvent (operation : ChannelLabel ι) :
    s.callPoller fd operation ≠ .error .staleEvent := by
  rw [callPoller]
  split <;> simp

theorem operate_ne_staleEvent (operation : ChannelLabel ι) :
    s.operate fd operation ≠ .error .staleEvent := by
  cases operation with
  | update c change =>
      simp only [operate]
      split
      · simp
      · exact callPoller_ne_staleEvent _
  | remove c =>
      simp only [operate]
      split
      · simp
      · split
        · have hne : s.callPoller fd (.remove c) ≠ .error .staleEvent := callPoller_ne_staleEvent _
          cases hcall : s.callPoller fd (.remove c) with
          | ok after => simp [Except.map]
          | error reason => simpa [Except.map, hcall] using hne
        · simp

/-- A step keeps the channels fresh; the assertions of `fillActiveChannels` do not fail. -/
theorem fresh_step (hs : Fresh fd s) (label : DispatchLabel ι) :
    (∃ reason, s.step fd label = .error reason ∧ reason ≠ .staleEvent) ∨
      ∃ next, s.step fd label = .ok next ∧ Fresh fd next := by
  have hcases (result : Except DispatchStop (DispatchLoop ι)) (hstale : result ≠ .error .staleEvent)
      (hfresh : ∀ next, result = .ok next → Fresh fd next) :
      (∃ reason, result = .error reason ∧ reason ≠ .staleEvent) ∨
        ∃ next, result = .ok next ∧ Fresh fd next := by
    cases result with
    | error reason => exact .inl ⟨reason, rfl, fun heq => hstale (by rw [heq])⟩
    | ok next => exact .inr ⟨next, rfl, hfresh next rfl⟩
  cases label with
  | poll ready =>
      rcases fresh_poll hs ready with hstops | hgoes
      · exact .inl ⟨.disabled, hstops, by simp⟩
      · exact .inr hgoes
  | handleEvent =>
      refine hcases _ ?_ fun next hstep => fresh_handleEvent hs hstep
      simp only [step, handleEvent]
      split <;> simp
  | finish =>
      refine hcases _ ?_ fun next hstep => fresh_finish hs hstep
      simp only [step, finish]
      split <;> simp
  | operate operation =>
      exact hcases _ (operate_ne_staleEvent operation) fun next hstep => fresh_operate hs hstep

/-- **No stale channel is dispatched.** Whatever handlers and functors do to channels, as long as the
assertion in `removeChannel` holds: the assertions of `fillActiveChannels` never fail, every channel is
registered with the poller when its `handleEvent` is called, and none is called that was removed in this
iteration. -/
theorem dispatched_registered (fd : ι → Nat) (labels : List (DispatchLabel ι)) :
    run (step fd) {} labels ≠ .error .staleEvent ∧
      ∀ s, run (step fd) {} labels = .ok s →
        ∀ call ∈ s.calls, call.registered = true ∧ call.removed = false := by
  have hmeets : Meets (step fd) (fun _ _ => True) ({} : DispatchLoop ι) labels :=
    meets_of_forall (fun _ _ => trivial) _
  obtain ⟨hsafe, hfresh⟩ := run_safe_of_meets (Fresh fd)
    (fun s label hs _ => fresh_step hs label) fresh_new hmeets
  exact ⟨fun hstale => hsafe _ hstale rfl, fun s hrun => (hfresh s hrun).calls⟩

/-- The handler of the first of two active channels removes its own channel and makes the other one watch
for nothing. -/
def removeSelf : List (DispatchLabel Nat) :=
  [.operate (.update 3 .enableReading), .operate (.update 4 .enableReading), .poll [3, 4], .handleEvent,
    .operate (.update 3 .disableAll), .operate (.remove 3), .operate (.update 4 .disableAll),
    .handleEvent, .finish]

/-- The other channel is handled all the same, and is registered then. -/
theorem dispatched_registered_removeSelf :
    ∃ s : DispatchLoop Nat, run (step id) {} removeSelf = .ok s ∧
      s.calls.map HandleEvent.channel = [3, 4] ∧
      ∀ call ∈ s.calls, call.registered = true ∧ call.removed = false := by
  obtain ⟨s, hrun, hcheck⟩ := exists_of_outcome (step id) {} removeSelf
    (fun s => s.calls.map HandleEvent.channel = [3, 4]) (by decide +kernel)
  exact ⟨s, hrun, of_decide_eq_true hcheck, (dispatched_registered id removeSelf).2 s hrun⟩

end DispatchLoop
end Muduo
