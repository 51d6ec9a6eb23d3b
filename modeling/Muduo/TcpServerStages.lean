import Mathlib.Data.List.Nodup
import Muduo.TcpServer

/-! The stages of the connections of a `TcpServer`. The stage of a connection says what is queued about it,
and in which loop, and whether it is in the map of the server. Each function of the source takes one
connection from one stage to another and leaves the others where they are. -/

namespace Muduo

/-! ## Names -/

theorem InetAddress.length_toIpPort_le (a : InetAddress) : a.toIpPort.length ≤ 51 := by
  have hport : (Decimal.print a.port.toNat).length ≤ 5 :=
    Decimal.length_print_le (by decide) (Nat.lt_trans a.port.toNat_lt (by decide))
  have hip := a.ip_length
  have hcolon : (ascii ":").length = 1 := rfl
  rw [toIpPort, List.length_append, List.length_take, List.length_append]
  omega

namespace ServerConfig

/-- The buffer is large enough for all numbers below 2^31. -/
theorem connName_eq (cfg : ServerConfig) {id : Nat} (hid : id < 2 ^ 31) :
    cfg.connName (BitVec.ofNat 32 id) =
      cfg.name ++ (ascii "-" ++ cfg.listenAddr.toIpPort ++ ascii "#" ++ Decimal.print id) := by
  have hint : (BitVec.ofNat 32 id).toInt = id := by
    rw [BitVec.toInt_eq_toNat_of_lt (by rw [BitVec.toNat_ofNat]; omega), BitVec.toNat_ofNat,
      Nat.mod_eq_of_lt (by omega)]
  have hnumber : (Decimal.print id).length ≤ 10 :=
    Decimal.length_print_le (by decide) (Nat.lt_trans hid (by decide))
  have haddress := cfg.listenAddr.length_toIpPort_le
  have hdash : (ascii "-").length = 1 := rfl
  have hhash : (ascii "#").length = 1 := rfl
  have hprint : Decimal.printInt (id : Int) = Decimal.print id := rfl
  rw [connName, hint, hprint, List.take_of_length_le]
  rw [List.length_append, List.length_append, List.length_append]
  omega

theorem connName_inj (cfg : ServerConfig) {id id' : Nat} (hid : id < 2 ^ 31) (hid' : id' < 2 ^ 31)
    (hsame : cfg.connName (BitVec.ofNat 32 id) = cfg.connName (BitVec.ofNat 32 id')) : id = id' := by
  rw [cfg.connName_eq hid, cfg.connName_eq hid'] at hsame
  exact Decimal.print_injective (List.append_cancel_left (List.append_cancel_left hsame))

end ServerConfig

/-- A new name makes a new entry. -/
theorem insertName_perm {name : Bytes} {c : Nat} {entries : List (Bytes × Nat)}
    (hnew : ∀ entry ∈ entries, entry.1 ≠ name) :
    (insertName name c entries).Perm ((name, c) :: entries) := by
  induction entries with
  | nil => exact List.Perm.refl _
  | cons entry rest ih =>
      rw [List.forall_mem_cons] at hnew
      rw [insertName]
      split
      · exact List.Perm.refl _
      · rw [if_neg (Ne.symm hnew.1)]
        exact ((ih hnew.2).cons entry).trans (List.Perm.swap _ _ _)

namespace TcpServer

/-! ## What the functions leave alone -/

/-- The functors about a connection that wait in a loop. -/
def functors (s : TcpServer) (c k : Nat) : List ServerFunctor :=
  (s.loop k).queue.queued.filter fun f => f.connection = c

theorem functors_setLoop (s : TcpServer) (l : Nat) (changed : ServerLoop) (c k : Nat) :
    (s.setLoop l changed).functors c k =
      if k = l then changed.queue.queued.filter fun f => f.connection = c else s.functors c k := by
  by_cases hk : k = l
  · subst hk
    simp [functors, setLoop]
  · simp [functors, setLoop, hk]

theorem functors_queueInLoop (s : TcpServer) (l : Nat) (f : ServerFunctor) (c k : Nat) :
    (s.queueInLoop l f).functors c k =
      s.functors c k ++ if k = l ∧ f.connection = c then [f] else [] := by
  rw [queueInLoop, functors_setLoop, FunctorQueue.queued_queueInLoop]
  by_cases hk : k = l
  · subst hk
    by_cases hc : f.connection = c <;> simp [functors, hc]
  · simp [hk]

/-- The functor that is run next waits in front. -/
theorem functors_next {s : TcpServer} {l : Nat} {f : ServerFunctor} {rest : FunctorQueue ServerFunctor}
    (hnext : (s.loop l).queue.next = some (f, rest)) (c k : Nat) :
    s.functors c k = (if k = l ∧ f.connection = c then [f] else []) ++
      (s.setLoop l { s.loop l with queue := rest }).functors c k := by
  rw [functors_setLoop]
  by_cases hk : k = l
  · subst hk
    rw [functors, FunctorQueue.queued_next hnext]
    by_cases hc : f.connection = c <;> simp [hc]
  · simp [hk]

/-- The second state differs from the first in what concerns one connection. -/
structure Apart (s t : TcpServer) (c : Nat) : Prop where
  accepted_eq : t.accepted = s.accepted
  nextConnId_eq : t.nextConnId = s.nextConnId
  destroyed_eq : t.destroyed = s.destroyed
  name_eq : (t.connection c).name = (s.connection c).name
  loop_eq : (t.connection c).loop = (s.connection c).loop
  other : ∀ d, d ≠ c → t.connection d = s.connection d
  functors_eq : ∀ d, d ≠ c → ∀ k, t.functors d k = s.functors d k

theorem Apart.trans {s t u : TcpServer} {c : Nat} (hst : Apart s t c) (htu : Apart t u c) :
    Apart s u c where
  accepted_eq := htu.accepted_eq.trans hst.accepted_eq
  nextConnId_eq := htu.nextConnId_eq.trans hst.nextConnId_eq
  destroyed_eq := htu.destroyed_eq.trans hst.destroyed_eq
  name_eq := htu.name_eq.trans hst.name_eq
  loop_eq := htu.loop_eq.trans hst.loop_eq
  other d hd := (htu.other d hd).trans (hst.other d hd)
  functors_eq d hd k := (htu.functors_eq d hd k).trans (hst.functors_eq d hd k)

theorem apart_modify (s : TcpServer) (c : Nat) (change : ServedConnection → ServedConnection)
    (hname : ∀ conn, (change conn).name = conn.name) (hloop : ∀ conn, (change conn).loop = conn.loop) :
    Apart s (s.modify c change) c where
  accepted_eq := rfl
  nextConnId_eq := rfl
  destroyed_eq := rfl
  name_eq := by simp [modify, hname]
  loop_eq := by simp [modify, hloop]
  other d hd := by simp [modify, hd]
  functors_eq _ _ _ := rfl

theorem apart_queueInLoop (s : TcpServer) (l : Nat) (f : ServerFunctor) :
    Apart s (s.queueInLoop l f) f.connection where
  accepted_eq := rfl
  nextConnId_eq := rfl
  destroyed_eq := rfl
  name_eq := rfl
  loop_eq := rfl
  other _ _ := rfl
  functors_eq d hd k := by
    rw [functors_queueInLoop, if_neg (fun h => hd h.2.symm), List.append_nil]

theorem apart_next {s : TcpServer} {l : Nat} {f : ServerFunctor} {rest : FunctorQueue ServerFunctor}
    (hnext : (s.loop l).queue.next = some (f, rest)) :
    Apart s (s.setLoop l { s.loop l with queue := rest }) f.connection where
  accepted_eq := rfl
  nextConnId_eq := rfl
  destroyed_eq := rfl
  name_eq := rfl
  loop_eq := rfl
  other _ _ := rfl
  functors_eq d hd k := by
    rw [functors_next hnext d k, if_neg (fun h => hd h.2.symm), List.nil_append]

theorem apart_erase (s : TcpServer) (c : Nat) : Apart s (s.erase c) c where
  accepted_eq := rfl
  nextConnId_eq := rfl
  destroyed_eq := rfl
  name_eq := by simp [erase, modify]
  loop_eq := by simp [erase, modify]
  other d hd := by simp [erase, modify, hd]
  functors_eq _ _ _ := rfl

/-! ## Stages -/

/-- The stages of a connection. Those after the first six are the stages of connections that
`~TcpServer` has found in the map. -/
inductive Stage where
  /-- `connectEstablished` is queued. -/
  | queued
  | established
  /-- In the middle of `handleClose`. -/
  | closing
  /-- `removeConnectionInLoop` is queued. -/
  | closed
  /-- Out of the map; `connectDestroyed` is queued. -/
  | removed
  | gone
  /-- `connectEstablished` and `connectDestroyed` are queued. -/
  | abandoned
  /-- Established, and `connectDestroyed` is queued. -/
  | condemned
  /-- Destroyed without having been closed. -/
  | severed
  deriving DecidableEq, Repr

namespace Stage

/-- What is queued about the connection, by loops. -/
def functors (c loop : Nat) : Stage → Nat → List ServerFunctor
  | queued, k => if k = loop then [.connectEstablished c] else []
  | closed, k => if k = 0 then [.removeConnectionInLoop c] else []
  | removed, k => if k = loop then [.connectDestroyed c] else []
  | abandoned, k => if k = loop then [.connectEstablished c, .connectDestroyed c] else []
  | condemned, k => if k = loop then [.connectDestroyed c] else []
  | _, _ => []

def trace : Stage → List LifeEvent
  | queued => []
  | established => [.established]
  | closing => [.established]
  | closed => [.established, .closed]
  | removed => [.established, .closed, .removed]
  | gone => [.established, .closed, .removed, .destroyed]
  | abandoned => []
  | condemned => [.established]
  | severed => [.established, .destroyed]

/-- The connection is up. -/
def up : Stage → Bool
  | established => true
  | condemned => true
  | _ => false

/-- `connectEstablished` has not run. -/
def waiting : Stage → Bool
  | queued => true
  | abandoned => true
  | _ => false

/-- `connectDestroyed` has run. -/
def finished : Stage → Bool
  | gone => true
  | severed => true
  | _ => false

/-- The connection is in the map, if there is one. -/
def registered : Stage → Bool
  | queued => true
  | established => true
  | closing => true
  | closed => true
  | _ => false

/-- The stages that `~TcpServer` leads to. -/
def dead : Stage → Bool
  | abandoned => true
  | condemned => true
  | severed => true
  | _ => false

theorem eq_established {stage : Stage} (hup : stage.up = true) (hdead : stage.dead = false) :
    stage = .established := by
  cases stage <;> simp_all [up, dead]

end Stage

/-- The state of a connection that is up. -/
def isUp (state : StateE) : Bool := state = .kConnected || state = .kDisconnecting

/-- What the connection itself has at a stage. -/
structure Record (stage : Stage) (conn : ServedConnection) : Prop where
  trace_eq : conn.trace = stage.trace
  up : isUp conn.state = stage.up
  waiting : conn.state = .kConnecting ↔ stage.waiting = true
  closing_eq : conn.closing = decide (stage = .closing)
  reading_eq : conn.reading = stage.up
  added_eq : conn.added = (!stage.waiting && !stage.finished)

/-- A connection at a stage. -/
structure At (s : TcpServer) (c : Nat) (stage : Stage) : Prop where
  record : Record stage (s.connection c)
  /-- In the base loop a connection is established at once. -/
  remote : stage.waiting = true → (s.connection c).loop ≠ 0
  functors_eq : ∀ k, s.functors c k = stage.functors c (s.connection c).loop k

theorem At.frame {s t : TcpServer} {c d : Nat} {stage : Stage} (hat : At s d stage)
    (hapart : Apart s t c) (hd : d ≠ c) : At t d stage := by
  have hsame := hapart.other d hd
  refine ⟨hsame ▸ hat.record, hsame ▸ hat.remote, fun k => ?_⟩
  rw [hapart.functors_eq d hd, hat.functors_eq k, hsame]

/-- What can be in front of a queue, by the stage of the connection, and what is queued behind it. -/
inductive Front (c loop l : Nat) : Stage → ServerFunctor → (Nat → List ServerFunctor) → Prop where
  | queued : l = loop → Front c loop l .queued (.connectEstablished c) fun _ => []
  | closed : l = 0 → Front c loop l .closed (.removeConnectionInLoop c) fun _ => []
  | removed : l = loop → Front c loop l .removed (.connectDestroyed c) fun _ => []
  | abandoned : l = loop → Front c loop l .abandoned (.connectEstablished c) fun k =>
      if k = loop then [.connectDestroyed c] else []
  | condemned : l = loop → Front c loop l .condemned (.connectDestroyed c) fun _ => []

/-- Taking the functor in front of one queue, when another queue is known to hold all there are. -/
theorem pop_eq {f g : ServerFunctor} {later : List ServerFunctor} {l loop : Nat}
    {rest : Nat → List ServerFunctor}
    (hpop : ∀ k, (if k = loop then g :: later else []) = (if k = l then [f] else []) ++ rest k) :
    l = loop ∧ f = g ∧ rest = fun k => if k = loop then later else [] := by
  have hfront := hpop l
  rw [if_pos rfl] at hfront
  by_cases hl : l = loop
  · subst hl
    rw [if_pos rfl, List.singleton_append, List.cons.injEq] at hfront
    refine ⟨rfl, hfront.1.symm, funext fun k => ?_⟩
    by_cases hk : k = l
    · rw [hk, if_pos rfl, hfront.2]
    · have hother := hpop k
      rw [if_neg hk, if_neg hk, List.nil_append] at hother
      rw [if_neg hk, hother]
  · rw [if_neg hl] at hfront
    cases hfront

theorem front_of_next {s : TcpServer} {l c : Nat} {f : ServerFunctor}
    {rest : FunctorQueue ServerFunctor} {stage : Stage} (hc : f.connection = c) (hat : At s c stage)
    (hnext : (s.loop l).queue.next = some (f, rest)) :
    Front c (s.connection c).loop l stage f
      fun k => (s.setLoop l { s.loop l with queue := rest }).functors c k := by
  have hpop (k : Nat) : stage.functors c (s.connection c).loop k = (if k = l then [f] else []) ++
      (s.setLoop l { s.loop l with queue := rest }).functors c k := by
    rw [← hat.functors_eq k, functors_next hnext c k]
    simp only [hc, and_true]
  have hnone (h : ∀ k, ([] : List ServerFunctor) = (if k = l then [f] else []) ++
      (s.setLoop l { s.loop l with queue := rest }).functors c k) : False := by
    have hl := h l
    rw [if_pos rfl] at hl
    cases hl
  cases stage with
  | queued =>
      obtain ⟨hl, rfl, hrest⟩ := pop_eq hpop
      simp only [ite_self] at hrest
      rw [hrest]
      exact .queued hl
  | established | closing | gone | severed => exact (hnone hpop).elim
  | closed =>
      obtain ⟨hl, rfl, hrest⟩ := pop_eq hpop
      simp only [ite_self] at hrest
      rw [hrest]
      exact .closed hl
  | removed =>
      obtain ⟨hl, rfl, hrest⟩ := pop_eq hpop
      simp only [ite_self] at hrest
      rw [hrest]
      exact .removed hl
  | abandoned =>
      obtain ⟨hl, rfl, hrest⟩ := pop_eq hpop
      rw [hrest]
      exact .abandoned hl
  | condemned =>
      obtain ⟨hl, rfl, hrest⟩ := pop_eq hpop
      simp only [ite_self] at hrest
      rw [hrest]
      exact .condemned hl

/-! ## The invariant -/

/-- The map has the connections that are registered by their stage, each once. -/
structure Registry (s : TcpServer) (stage : Nat → Stage) : Prop where
  mem_iff : ∀ entry, entry ∈ s.connections ↔
    entry.2 < s.accepted ∧ entry.1 = (s.connection entry.2).name ∧ (stage entry.2).registered = true
  nodup : s.connections.Nodup

/-- Every connection is at its stage. -/
structure Placed (cfg : ServerConfig) (s : TcpServer) (stage : Nat → Stage) : Prop where
  few : s.accepted < 2 ^ 31
  at_stage : ∀ c, c < s.accepted → At s c (stage c)
  unborn : ∀ c, s.accepted ≤ c → ∀ k, s.functors c k = []
  named : ∀ c, c < s.accepted → (s.connection c).name = cfg.connName (BitVec.ofNat 32 (c + 1))
  nextConnId_eq : s.nextConnId = BitVec.ofNat 32 (s.accepted + 1)

/-- The stages are those of a server that is alive, or of one that is destroyed. -/
structure Staged (cfg : ServerConfig) (s : TcpServer) (stage : Nat → Stage) : Prop
    extends Placed cfg s stage where
  alive : s.destroyed = false →
    (∀ c, c < s.accepted → (stage c).dead = false) ∧ Registry s stage
  torn : s.destroyed = true → ∀ c, c < s.accepted → (stage c).registered = false

variable {cfg : ServerConfig} {s t : TcpServer} {stage : Nat → Stage} {c : Nat}

theorem staged_new (cfg : ServerConfig) : Staged cfg {} fun _ => .queued where
  few := by decide
  at_stage c hc := absurd hc (Nat.not_lt_zero c)
  unborn _ _ _ := rfl
  named c hc := absurd hc (Nat.not_lt_zero c)
  nextConnId_eq := rfl
  alive _ := by
    refine ⟨fun c hc => absurd hc (Nat.not_lt_zero c), fun entry => ?_, List.nodup_nil⟩
    simp
  torn h := Bool.noConfusion h

/-- Names tell connections apart. -/
theorem Placed.name_inj (hstaged : Placed cfg s stage) {c d : Nat} (hc : c < s.accepted)
    (hd : d < s.accepted) (hname : (s.connection c).name = (s.connection d).name) : c = d := by
  have hfew := hstaged.few
  rw [hstaged.named c hc, hstaged.named d hd] at hname
  have := cfg.connName_inj (by omega) (by omega) hname
  omega

/-- One connection goes to another stage. -/
theorem Placed.move (hplaced : Placed cfg s stage) (hc : c < s.accepted) (hapart : Apart s t c)
    {after : Stage} (hat : At t c after) : Placed cfg t (Function.update stage c after) where
  few := by
    rw [hapart.accepted_eq]
    exact hplaced.few
  at_stage d hd := by
    rw [hapart.accepted_eq] at hd
    by_cases hdc : d = c
    · subst hdc
      rw [Function.update_self]
      exact hat
    · rw [Function.update_of_ne hdc]
      exact (hplaced.at_stage d hd).frame hapart hdc
  unborn d hd k := by
    rw [hapart.accepted_eq] at hd
    rw [hapart.functors_eq d (by omega), hplaced.unborn d hd]
  named d hd := by
    rw [hapart.accepted_eq] at hd
    by_cases hdc : d = c
    · subst hdc
      rw [hapart.name_eq, hplaced.named d hd]
    · rw [hapart.other d hdc, hplaced.named d hd]
  nextConnId_eq := by
    rw [hapart.nextConnId_eq, hapart.accepted_eq, hplaced.nextConnId_eq]

theorem Staged.move (hstaged : Staged cfg s stage) (hc : c < s.accepted) (hapart : Apart s t c)
    {after : Stage} (hat : At t c after)
    (halive : t.destroyed = false →
      after.dead = false ∧ Registry t (Function.update stage c after))
    (htorn : t.destroyed = true → after.registered = false) :
    Staged cfg t (Function.update stage c after) where
  toPlaced := hstaged.toPlaced.move hc hapart hat
  alive hdestroyed := by
    obtain ⟨hdead, hregistry⟩ := halive hdestroyed
    refine ⟨fun d hd => ?_, hregistry⟩
    rw [hapart.accepted_eq] at hd
    by_cases hdc : d = c
    · rw [hdc, Function.update_self]
      exact hdead
    · rw [Function.update_of_ne hdc]
      exact (hstaged.alive (hapart.destroyed_eq ▸ hdestroyed)).1 d hd
  torn hdestroyed d hd := by
    rw [hapart.accepted_eq] at hd
    by_cases hdc : d = c
    · rw [hdc, Function.update_self]
      exact htorn hdestroyed
    · rw [Function.update_of_ne hdc]
      exact hstaged.torn (hapart.destroyed_eq ▸ hdestroyed) d hd

theorem Registry.keep (hregistry : Registry s stage) (hapart : Apart s t c)
    (hconnections : t.connections = s.connections) {after : Stage}
    (hsame : after.registered = (stage c).registered) :
    Registry t (Function.update stage c after) where
  mem_iff entry := by
    rw [hconnections, hregistry.mem_iff, hapart.accepted_eq]
    by_cases hentry : entry.2 = c
    · rw [hentry, Function.update_self, hapart.name_eq, hsame]
    · rw [Function.update_of_ne hentry, hapart.other _ hentry]
  nodup := by
    rw [hconnections]
    exact hregistry.nodup

/-- A connection is erased from the map. -/
theorem Staged.registry_erase (hstaged : Staged cfg s stage) (hregistry : Registry s stage)
    (hc : c < s.accepted) (hapart : Apart s t c)
    (hconnections : t.connections =
      s.connections.filter fun entry => entry.1 ≠ (s.connection c).name)
    {after : Stage} (hafter : after.registered = false) :
    Registry t (Function.update stage c after) where
  mem_iff entry := by
    rw [hconnections, List.mem_filter, hregistry.mem_iff, hapart.accepted_eq]
    by_cases hentry : entry.2 = c
    · rw [hentry, Function.update_self, hafter]
      constructor
      · rintro ⟨⟨-, hname, -⟩, hne⟩
        exact absurd hname (of_decide_eq_true hne)
      · rintro ⟨-, -, hnot⟩
        cases hnot
    · rw [Function.update_of_ne hentry, hapart.other _ hentry]
      constructor
      · intro h
        exact h.1
      · rintro ⟨hlt, hname, hreg⟩
        refine ⟨⟨hlt, hname, hreg⟩, ?_⟩
        rw [decide_eq_true_iff, hname]
        exact fun hsame => hentry (hstaged.name_inj hlt hc hsame)
  nodup := by
    rw [hconnections]
    exact hregistry.nodup.filter _

/-- `erase` finds a registered connection, and nothing else. -/
theorem Staged.erase_one (hstaged : Staged cfg s stage) (hregistry : Registry s stage)
    (hc : c < s.accepted) (hregistered : (stage c).registered = true) :
    (s.connections.filter fun entry => entry.1 = (s.connection c).name).length = 1 := by
  have hmem : ((s.connection c).name, c) ∈
      s.connections.filter fun entry => entry.1 = (s.connection c).name := by
    rw [List.mem_filter, hregistry.mem_iff]
    exact ⟨⟨hc, rfl, hregistered⟩, by simp⟩
  have hall : ∀ entry ∈ s.connections.filter (fun entry => entry.1 = (s.connection c).name),
      entry = ((s.connection c).name, c) := by
    intro entry hentry
    rw [List.mem_filter, hregistry.mem_iff, decide_eq_true_iff] at hentry
    obtain ⟨⟨hlt, hown, -⟩, hname⟩ := hentry
    exact Prod.ext hname (hstaged.name_inj hlt hc (hown.symm.trans hname))
  have hnodup := hregistry.nodup.filter fun entry => entry.1 = (s.connection c).name
  generalize s.connections.filter (fun entry => entry.1 = (s.connection c).name) = found at *
  rcases found with _ | ⟨first, _ | ⟨second, later⟩⟩
  · cases hmem
  · rfl
  · have hfirst := hall first List.mem_cons_self
    have hsecond := hall second (List.mem_cons_of_mem _ List.mem_cons_self)
    rw [hfirst, hsecond] at hnodup
    exact absurd List.mem_cons_self (List.nodup_cons.mp hnodup).1

/-- The connection stays in the map, or out of it. -/
theorem Staged.move_keep (hstaged : Staged cfg s stage) (hc : c < s.accepted) (hapart : Apart s t c)
    (after : Stage) (hat : At t c after) (hconnections : t.connections = s.connections)
    (hregistered : after.registered = (stage c).registered) (hdead : after.dead = (stage c).dead) :
    Staged cfg t (Function.update stage c after) := by
  refine hstaged.move hc hapart hat (fun hdestroyed => ?_) (fun hdestroyed => ?_)
  · obtain ⟨halive, hregistry⟩ := hstaged.alive (hapart.destroyed_eq ▸ hdestroyed)
    exact ⟨hdead.trans (halive c hc), hregistry.keep hapart hconnections hregistered⟩
  · exact hregistered.trans (hstaged.torn (hapart.destroyed_eq ▸ hdestroyed) c hc)

end TcpServer
end Muduo
