import Mathlib.Data.Int.CardIntervalMod
import Muduo.TcpServerRegistry

/-! How a `TcpServer` spreads its connections over the loops of its thread pool. A connection stays in the
loop that `getNextLoop` gave it to, and all but its removal from the map is queued there. -/

namespace Muduo.TcpServer

open Execution

variable {cfg : ServerConfig} {s t : TcpServer}

/-- The loop of a connection, by its number. -/
def loopOf (cfg : ServerConfig) (c : Nat) : Nat :=
  if cfg.numThreads = 0 then 0 else c % cfg.numThreads + 1

/-- How many connections a loop was given. -/
def load (s : TcpServer) (l : Nat) : Nat := Nat.count (fun c => (s.connection c).loop = l) s.accepted

/-! ## The loops in turn -/

structure Spread (cfg : ServerConfig) (s : TcpServer) : Prop where
  next_eq : cfg.numThreads ≠ 0 → s.placement.1 = s.accepted % cfg.numThreads
  loop_eq : ∀ c, c < s.accepted → s.placement.2 c = loopOf cfg c
  entries : ∀ entry ∈ s.connections, entry.2 < s.accepted
  queued : ∀ l, ∀ f ∈ (s.loop l).queue.queued, f.connection < s.accepted ∧ l = s.home f

theorem spread_new (cfg : ServerConfig) : Spread cfg {} where
  next_eq _ := (Nat.zero_mod cfg.numThreads).symm
  loop_eq c hc := absurd hc (Nat.not_lt_zero c)
  entries _ hentry := absurd hentry List.not_mem_nil
  queued _ _ hf := absurd hf List.not_mem_nil

theorem Spread.settles (hspread : Spread cfg s) (hsettles : Settles (· < s.accepted) s t) : Spread cfg t := by
  obtain ⟨hplacement, haccepted, hentries, hqueued⟩ := hsettles
  refine ⟨?_, ?_, fun entry hentry => ?_, fun l f hf => ?_⟩ <;> rw [haccepted]
  · rw [hplacement]
    exact hspread.next_eq
  · rw [hplacement]
    exact hspread.loop_eq
  · exact hspread.entries entry (hentries entry hentry)
  · rw [home_eq hplacement]
    exact (hqueued l f hf).elim (hspread.queued l f) id

theorem mem_insertName {name : Bytes} {c : Nat} {entries : List (Bytes × Nat)} {entry : Bytes × Nat}
    (hentry : entry ∈ insertName name c entries) : entry.2 = c ∨ entry ∈ entries := by
  induction entries with
  | nil => exact .inl (by rw [List.mem_singleton.mp hentry])
  | cons first rest ih =>
      rw [insertName] at hentry
      split_ifs at hentry
      · rcases List.mem_cons.mp hentry with rfl | hold
        · exact .inl rfl
        · exact .inr hold
      · rcases List.mem_cons.mp hentry with rfl | hold
        · exact .inl rfl
        · exact .inr (List.mem_cons_of_mem _ hold)
      · rcases List.mem_cons.mp hentry with rfl | hold
        · exact .inr List.mem_cons_self
        · exact (ih hold).imp_right (List.mem_cons_of_mem _)

theorem Spread.register (hspread : Spread cfg s) : Spread cfg (s.register cfg) where
  next_eq hsome := by
    -- `getNextLoop` wraps around
    have hnext : s.next = s.accepted % cfg.numThreads := hspread.next_eq hsome
    have hlt := Nat.mod_lt s.accepted (Nat.pos_of_ne_zero hsome)
    simp only [TcpServer.register, getNextLoop, placement, hsome, if_false]
    rw [← Nat.mod_add_mod, ← hnext]
    split
    · rw [show s.next + 1 = cfg.numThreads by omega, Nat.mod_self]
    · exact (Nat.mod_eq_of_lt (by omega)).symm
  loop_eq c hc := by
    by_cases hnew : c = s.accepted
    · by_cases hnone : cfg.numThreads = 0
      · simp [TcpServer.register, getNextLoop, placement, hnew, loopOf, hnone]
      · have hnext : s.next = s.accepted % cfg.numThreads := hspread.next_eq hnone
        simp [TcpServer.register, getNextLoop, placement, hnew, loopOf, hnone, hnext]
    · have hold : s.placement.2 c = loopOf cfg c :=
        hspread.loop_eq c (Nat.lt_of_le_of_ne (Nat.le_of_lt_succ hc) hnew)
      simpa [TcpServer.register, placement, hnew] using hold
  entries entry hentry := by
    rcases mem_insertName hentry with hnew | hold
    · rw [hnew]
      exact Nat.lt_succ_self _
    · exact Nat.lt_succ_of_lt (hspread.entries entry hold)
  queued l f hf := by
    obtain ⟨hborn, hhome⟩ := hspread.queued l f hf
    refine ⟨Nat.lt_succ_of_lt hborn, hhome.trans ?_⟩
    cases f with
    | removeConnectionInLoop c => rfl
    | connectEstablished c | connectDestroyed c =>
        have hne : c ≠ s.accepted := Nat.ne_of_lt hborn
        simp [home, TcpServer.register, hne]

theorem spread_step (hspread : Spread cfg s) {label : Label} (hstep : s.step cfg label = .ok t) :
    Spread cfg t := by
  by_cases hlabel : label = .accept
  · subst hlabel
    exact hspread.register.settles (settles_accept (Nat.lt_succ_self s.accepted) hstep)
  · exact hspread.settles (settles_step (fun _ hc => hc) hspread.entries
      (fun l f hf => (hspread.queued l f hf).1) hlabel hstep)

theorem spread_run (hspread : Spread cfg s) {labels : List Label} (hrun : run (step cfg) s labels = .ok t) :
    Spread cfg t :=
  run_preserves (Spread cfg) (fun _ _ _ hspread hstep => spread_step hspread hstep) hspread hrun

/-- The connections of a loop are those of one residue. -/
theorem load_eq (hspread : Spread cfg s) {l : Nat} (hl : l < cfg.numThreads) :
    s.load (l + 1) = s.accepted / cfg.numThreads + if l < s.accepted % cfg.numThreads then 1 else 0 := by
  have hsome : cfg.numThreads ≠ 0 := by omega
  calc s.load (l + 1) = Nat.count (fun c => c ≡ l [MOD cfg.numThreads]) s.accepted := by
        rw [load, Nat.count_eq_card_filter_range, Nat.count_eq_card_filter_range]
        congr 1
        refine Finset.filter_congr fun c hc => ?_
        have hloop : (s.connection c).loop = loopOf cfg c := hspread.loop_eq c (Finset.mem_range.mp hc)
        rw [hloop, loopOf, if_neg hsome, Nat.ModEq, Nat.mod_eq_of_lt hl]
        exact Nat.add_right_cancel_iff
    _ = s.accepted / cfg.numThreads + if l % cfg.numThreads < s.accepted % cfg.numThreads then 1 else 0 :=
        Nat.count_modEq_card s.accepted (Nat.pos_of_ne_zero hsome) l
    _ = _ := by rw [Nat.mod_eq_of_lt hl]

/-- **One loop for a connection.** In every run the connections are given to the loops of the pool in turn and
stay where they are, so the numbers of connections that two loops were given differ by at most one.
`connectEstablished` and `connectDestroyed` are queued only in the loop of the connection, and
`removeConnectionInLoop` only in the base loop. -/
theorem spread_evenly (cfg : ServerConfig) (labels : List Label) (hrun : run (step cfg) {} labels = .ok s) :
    (∀ c, c < s.accepted → (s.connection c).loop = loopOf cfg c) ∧
    (∀ l, l < cfg.numThreads →
      s.accepted / cfg.numThreads ≤ s.load (l + 1) ∧ s.load (l + 1) ≤ s.accepted / cfg.numThreads + 1) ∧
    ∀ l f, f ∈ (s.loop l).queue.queued → l = s.home f := by
  have hspread := spread_run (spread_new cfg) hrun
  refine ⟨hspread.loop_eq, fun l hl => ?_, fun l f hf => (hspread.queued l f hf).2⟩
  rw [load_eq hspread hl]
  split <;> omega

/-- Three connections for the two loops of a pool, and `~TcpServer`. -/
theorem spread_evenly_two_threads :
    ∃ s, run (step { oneThread with numThreads := 2 }) {} [.accept, .accept, .accept, .destroy] = .ok s ∧
      (s.connection 2).loop = 1 ∧ 1 ≤ s.load 2 ∧
      .connectDestroyed 1 ∈ (s.loop 2).queue.queued ∧ .connectDestroyed 1 ∉ (s.loop 1).queue.queued := by
  obtain ⟨s, hrun, hcheck⟩ := exists_of_outcome (step { oneThread with numThreads := 2 }) {}
    [.accept, .accept, .accept, .destroy]
    (fun s => s.accepted = 3 ∧ .connectDestroyed 1 ∈ (s.loop 2).queue.queued) (by decide +kernel)
  obtain ⟨haccepted, hqueued⟩ := of_decide_eq_true hcheck
  obtain ⟨hloop, hload, hhome⟩ := spread_evenly _ _ hrun
  have hsecond := (hload 1 (by decide)).1
  rw [haccepted] at hsecond
  refine ⟨s, hrun, hloop 2 (by omega), hsecond, hqueued, fun hfirst => ?_⟩
  exact absurd ((hhome 1 _ hfirst).trans (hhome 2 _ hqueued).symm) (by decide)

end Muduo.TcpServer
