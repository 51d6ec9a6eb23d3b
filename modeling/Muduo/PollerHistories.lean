import Muduo.PollPoller

/-! `EPollPoller` and `PollPoller` under one history of channel operations. Both are to keep the same
thing, which channels are registered and what they ask for. But `PollPoller` does not reset `index_`
when it removes a channel and does not look at the events of a first update, and its assertions notice
both. -/

namespace Muduo

open Execution

variable {ι Index : Type} [DecidableEq ι] {fd : ι → Nat}

/-! ## What a poller is for -/

/-- The registered channels, by their descriptors, and the events of all channels. -/
@[ext] structure Registry (ι : Type) where
  channels : Nat → Option ι
  events : ι → EventMask

def Registry.apply (fd : ι → Nat) (r : Registry ι) : ChannelLabel ι → Registry ι
  | .update c operation =>
      { channels := Function.update r.channels (fd c) (some c)
        events := Function.update r.events c (operation.apply (r.events c)) }
  | .remove c => { r with channels := Function.update r.channels (fd c) none }

def Poller.registry (p : Poller ι Index) : Registry ι :=
  { channels := p.channels, events := fun c => (p.fields c).events }

theorem Poller.hasChannel_of_registry {Index' : Type} {p : Poller ι Index} {q : Poller ι Index'}
    (h : p.registry = q.registry) (c : ι) : p.hasChannel fd c = q.hasChannel fd c := by
  have hchannels : p.channels = q.channels := congrArg Registry.channels h
  rw [Poller.hasChannel, Poller.hasChannel, hchannels]

namespace EPollPoller.State

variable {s next : State ι} {label : ChannelLabel ι}

/-- `EPollPoller` removes registered channels without events only. -/
theorem Consistent.removable_of_step (h : s.Consistent fd) (hfd : Function.Injective fd)
    (hstep : s.step fd label = .ok next) : s.Removable fd label := by
  cases label with
  | update c operation => trivial
  | remove c =>
      rw [step_eq h hfd, shareStep] at hstep
      by_cases hnone : (s.fields c).events = 0#32
      · refine ⟨hnone, ?_⟩
        by_contra hgone
        have hindex : (s.view fd c).index = .kNew := by
          have hin := (h.mirrored c).inChannels
          rw [show (s.view fd c).inChannels = false from (Bool.not_eq_true _).mp hgone] at hin
          simpa using hin
        rw [Channel.remove_of_kNew (h.mirrored c) hindex] at hstep
        cases hstep
      · rw [Channel.remove_of_events hnone] at hstep
        cases hstep

theorem events_put (s : State ι) (c : ι) (share : Channel) :
    (s.put fd c share).registry.events = Function.update s.registry.events c share.events := by
  funext d
  by_cases hd : d = c
  · subst hd
    simp [Poller.registry, put]
  · simp [Poller.registry, put, Function.update_of_ne hd]

/-- A step of `EPollPoller` is a step of what it keeps. -/
theorem Consistent.registry_step (h : s.Consistent fd) (hfd : Function.Injective fd)
    (hstep : s.step fd label = .ok next) :
    next.Consistent fd ∧ next.registry = s.registry.apply fd label := by
  have hremovable := h.removable_of_step hfd hstep
  cases label with
  | update c operation =>
      rw [step_update h hfd] at hstep
      cases hstep
      refine ⟨h.put hfd (Channel.refreshed_mirrored _ _), ?_⟩
      apply Registry.ext
      · rfl
      · exact events_put s c _
  | remove c =>
      obtain ⟨hnone, hhas⟩ := hremovable
      rw [step_remove h hfd hnone hhas] at hstep
      cases hstep
      refine ⟨h.put hfd Channel.mirrored_initial, ?_⟩
      apply Registry.ext
      · rfl
      · refine (events_put s c _).trans ?_
        exact Function.update_eq_self_iff.mpr hnone.symm

end EPollPoller.State

namespace PollPoller.State

variable {s next : State ι} {label : ChannelLabel ι}

/-- A step of `PollPoller` is a step of what it keeps. -/
theorem Turn.registry (hturn : Turn fd s label next) : next.registry = s.registry.apply fd label := by
  cases hturn with
  | @register c operation hindex =>
      apply Registry.ext
      · rfl
      · funext d
        by_cases hd : d = c
        · subst hd
          simp [Poller.registry, Registry.apply, register_self]
        · simp [Poller.registry, Registry.apply, register_ne operation hd, Function.update_of_ne hd]
  | @refresh c operation hc =>
      apply Registry.ext
      · have hsome : s.channels (fd c) = some c := by simpa [Poller.hasChannel] using hc
        exact (Function.update_eq_self_iff.mpr hsome.symm).symm
      · funext d
        by_cases hd : d = c
        · subst hd
          simp [Poller.registry, Registry.apply, refresh_self, ChannelUpdate.change]
        · simp [Poller.registry, Registry.apply, refresh_ne operation hd, Function.update_of_ne hd]
  | remove hc hnone htwice hremoval =>
      apply Registry.ext
      · exact hremoval.channels
      · funext d
        exact hremoval.events d

/-- A removed channel is not used again, and a channel is only removed after a second update. -/
def UsedOnce (p : State ι) : ChannelLabel ι → Prop
  | .update c _ => p.removed c = false
  | .remove c => 2 ≤ p.updates c

instance (p : State ι) : (label : ChannelLabel ι) → Decidable (p.UsedOnce label)
  | .update _ _ => inferInstanceAs (Decidable (_ = _))
  | .remove _ => inferInstanceAs (Decidable (_ ≤ _))

/-- `PollPoller` takes the steps that `EPollPoller` takes just when they use channels once. -/
theorem Represented.accepts_iff (h : Represented fd s) (hfd : Function.Injective fd)
    (hremovable : ∀ c, label = .remove c → (s.fields c).events = 0#32 ∧ s.hasChannel fd c = true) :
    (∃ next, s.step fd label = .ok next) ↔ s.UsedOnce label := by
  cases label with
  | update c operation =>
      rw [UsedOnce]
      constructor
      · rintro ⟨next, hstep⟩
        by_contra hremoved
        rw [h.step_update_removed (by simpa using hremoved)] at hstep
        cases hstep
      · intro hremoved
        obtain ⟨next, hstep, -⟩ := h.step_update hfd hremoved operation
        exact ⟨next, hstep⟩
  | remove c =>
      obtain ⟨hnone, hc⟩ := hremovable c rfl
      obtain ⟨hok, hfails⟩ := h.step_remove hfd hc hnone
      constructor
      · rintro ⟨next, hstep⟩
        by_contra htwice
        rw [hfails (Nat.lt_of_not_le htwice)] at hstep
        cases hstep
      · intro htwice
        obtain ⟨next, hstep, -⟩ := hok htwice
        exact ⟨next, hstep⟩

end PollPoller.State

/-! ## One history, two pollers -/

/-- The two pollers have been driven by the same operations. -/
structure SamePollers (fd : ι → Nat) (e : EPollPoller.State ι) (p : PollPoller.State ι) : Prop where
  consistent : e.Consistent fd
  represented : p.Represented fd
  registry : e.registry = p.registry

theorem samePollers_initial :
    SamePollers fd ({} : EPollPoller.State ι) ({} : PollPoller.State ι) where
  consistent := EPollPoller.State.consistent_initial
  represented := PollPoller.State.represented_initial
  registry := rfl

theorem SamePollers.step {e e' : EPollPoller.State ι} {p : PollPoller.State ι}
    {label : ChannelLabel ι} (h : SamePollers fd e p) (hfd : Function.Injective fd)
    (hstep : e.step fd label = .ok e') :
    (p.UsedOnce label → ∃ p', p.step fd label = .ok p') ∧
      ∀ p', p.step fd label = .ok p' → p.UsedOnce label ∧ SamePollers fd e' p' := by
  obtain ⟨hconsistent, hregistry⟩ := h.consistent.registry_step hfd hstep
  have haccepts : (∃ p', p.step fd label = .ok p') ↔ p.UsedOnce label := by
    apply h.represented.accepts_iff hfd
    rintro c rfl
    obtain ⟨hnone, hhas⟩ := h.consistent.removable_of_step hfd hstep
    have hevents : (e.fields c).events = (p.fields c).events :=
      congrFun (congrArg Registry.events h.registry) c
    rw [Poller.hasChannel_of_registry h.registry] at hhas
    exact ⟨hevents ▸ hnone, hhas⟩
  refine ⟨haccepts.mpr, fun p' hp' => ⟨haccepts.mp ⟨p', hp'⟩, ?_⟩⟩
  have hturn := h.represented.step_turn hfd hp'
  exact {
    consistent := hconsistent
    represented := hturn.represented h.represented hfd
    registry := by rw [hregistry, hturn.registry, h.registry] }

/-- **The histories `PollPoller` accepts.** A history that `EPollPoller` executes is executed by
`PollPoller`, with the same registered channels in the end, just when no channel is updated after its
removal and none is removed after a single update. -/
theorem same_histories_iff (fd : ι → Nat) (hfd : Function.Injective fd)
    (labels : List (ChannelLabel ι)) (e : EPollPoller.State ι)
    (hrun : run (EPollPoller.State.step fd) {} labels = .ok e) :
    (∃ p, run (PollPoller.State.step fd) {} labels = .ok p ∧
        ∀ c, p.hasChannel fd c = e.hasChannel fd c) ↔
      Meets (PollPoller.State.step fd) PollPoller.State.UsedOnce {} labels := by
  obtain ⟨hexecutes, hsame⟩ := run_lockstep (SamePollers fd) samePollers_initial hrun
    (fun _ _ _ _ h hstep => h.step hfd hstep)
  rw [← hexecutes]
  constructor
  · rintro ⟨p, hp, -⟩
    exact ⟨p, hp⟩
  · rintro ⟨p, hp⟩
    exact ⟨p, hp, fun c => (Poller.hasChannel_of_registry (hsame p hp).registry c).symm⟩

/-- A connection's channel beside an acceptor's, both removed. -/
def accepted : List (ChannelLabel Nat) :=
  [.update 3 .enableReading, .update 5 .enableReading, .update 5 .enableWriting, .update 5 .disableAll,
    .remove 5, .update 3 .disableAll, .remove 3]

theorem same_histories_iff_accepted :
    ∃ (e : EPollPoller.State Nat) (p : PollPoller.State Nat),
      run (EPollPoller.State.step id) {} accepted = .ok e ∧
      run (PollPoller.State.step id) {} accepted = .ok p ∧
      ∀ c, p.hasChannel id c = e.hasChannel id c := by
  obtain ⟨e, he, -⟩ := exists_of_outcome (EPollPoller.State.step id) ({} : EPollPoller.State Nat)
    accepted (fun _ => true) (by decide +kernel)
  obtain ⟨p, hp, hsame⟩ := (same_histories_iff id Function.injective_id accepted e he).mpr
    (by decide +kernel)
  exact ⟨e, p, he, hp, hsame⟩

/-- The destructor of an acceptor that has never listened, and a channel that is enabled again after
its removal: `EPollPoller` executes both, `PollPoller` fails an assertion. -/
theorem histories_differ :
    (∃ e, run (EPollPoller.State.step id) {} [.update 3 .disableAll, .remove 3] = .ok e) ∧
    run (PollPoller.State.step id) {} [.update 3 .disableAll, .remove 3] = .error .wrongSlot ∧
    (∃ e, run (EPollPoller.State.step id) {}
      [.update 3 .enableReading, .update 3 .disableAll, .remove 3, .update 3 .enableReading] = .ok e) ∧
    run (PollPoller.State.step id) {}
      [.update 3 .enableReading, .update 3 .disableAll, .remove 3, .update 3 .enableReading] =
        .error .notInChannels := by
  refine ⟨⟨_, rfl⟩, rfl, ⟨_, rfl⟩, rfl⟩

end Muduo
