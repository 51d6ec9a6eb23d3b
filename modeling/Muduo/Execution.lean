import Mathlib.Data.List.Basic
import Mathlib.Data.List.Induction
import Mathlib.Tactic.Common

/-! Runs of a labelled system whose step is a partial function. A step either yields the next state
or stops the run with a reason; a run executes its labels from left to right. The rules below carry
an invariant along a run, carry one along a run whose steps all meet a condition, and transport
runs of one system to runs of another. Nothing here depends on what the system is. -/

namespace Execution

variable {σ τ ℓ κ ε δ : Type*}

/-- Execute the labels from left to right, stopping at the first step that stops. -/
def run (step : σ → ℓ → Except ε σ) : σ → List ℓ → Except ε σ
  | state, [] => .ok state
  | state, label :: labels =>
      match step state label with
      | .ok next => run step next labels
      | .error reason => .error reason

/-- Every step the labels execute meets the condition in the state it starts from. -/
def Meets (step : σ → ℓ → Except ε σ) (condition : σ → ℓ → Prop) : σ → List ℓ → Prop
  | _, [] => True
  | state, label :: labels =>
      condition state label ∧ ∀ next, step state label = .ok next → Meets step condition next labels

instance decidableMeets (step : σ → ℓ → Except ε σ) (condition : σ → ℓ → Prop)
    [∀ state label, Decidable (condition state label)] :
    ∀ state labels, Decidable (Meets step condition state labels)
  | _, [] => isTrue trivial
  | state, label :: labels =>
      match hstep : step state label with
      | .ok next =>
          have := decidableMeets step condition next labels
          decidable_of_iff (condition state label ∧ Meets step condition next labels) (by
            simp [Meets, hstep])
      | .error reason => decidable_of_iff (condition state label) (by simp [Meets, hstep])

/-- The property holds in every state that executing the labels goes through. -/
def Throughout (step : σ → ℓ → Except ε σ) (property : σ → Prop) : σ → List ℓ → Prop
  | state, [] => property state
  | state, label :: labels =>
      property state ∧ ∀ next, step state label = .ok next → Throughout step property next labels

/-- The states some run leads to. -/
def Reachable (step : σ → ℓ → Except ε σ) (initial state : σ) : Prop :=
  ∃ labels, run step initial labels = .ok state

/-- A step under a guard. -/
theorem guarded_ok {guard : Prop} [Decidable guard] {attempt : Except ε σ} {reason : ε} {next : σ} :
    (if guard then attempt else .error reason) = .ok next ↔ guard ∧ attempt = .ok next := by
  by_cases hguard : guard
  · rw [if_pos hguard]
    exact (and_iff_right hguard).symm
  · rw [if_neg hguard]
    exact iff_of_false (fun herror => by cases herror) fun h => hguard h.1

section Run

variable {step : σ → ℓ → Except ε σ}

@[simp] theorem run_nil (state : σ) : run step state [] = .ok state := rfl

theorem run_cons_ok {state final : σ} {label : ℓ} {labels : List ℓ} :
    run step state (label :: labels) = .ok final ↔
      ∃ next, step state label = .ok next ∧ run step next labels = .ok final := by
  rw [run]
  cases hstep : step state label with
  | ok next => simp
  | error reason => simp

theorem run_append_ok {state final : σ} {front back : List ℓ} :
    run step state (front ++ back) = .ok final ↔
      ∃ middle, run step state front = .ok middle ∧ run step middle back = .ok final := by
  induction front generalizing state with
  | nil => simp
  | cons label labels ih =>
      rw [List.cons_append, run_cons_ok]
      constructor
      · rintro ⟨next, hstep, hrun⟩
        obtain ⟨middle, hfront, hback⟩ := ih.mp hrun
        exact ⟨middle, run_cons_ok.mpr ⟨next, hstep, hfront⟩, hback⟩
      · rintro ⟨middle, hfront, hback⟩
        obtain ⟨next, hstep, hrest⟩ := run_cons_ok.mp hfront
        exact ⟨next, hstep, ih.mpr ⟨middle, hrest, hback⟩⟩

theorem run_singleton_ok {state final : σ} {label : ℓ} :
    run step state [label] = .ok final ↔ step state label = .ok final := by
  simp [run_cons_ok]

theorem run_map {κ : Type*} (f : κ → ℓ) (state : σ) (labels : List κ) :
    run step state (labels.map f) = run (fun state label => step state (f label)) state labels := by
  induction labels generalizing state with
  | nil => rfl
  | cons label labels ih =>
      rw [List.map_cons, run, run]
      cases hstep : step state (f label) with
      | ok next => exact ih next
      | error reason => rfl

theorem meets_of_forall {condition : ℓ → Prop} {labels : List ℓ}
    (hall : ∀ label ∈ labels, condition label) (state : σ) :
    Meets step (fun _ label => condition label) state labels := by
  induction labels generalizing state with
  | nil => trivial
  | cons label labels ih =>
      refine ⟨hall label List.mem_cons_self, fun next _ => ?_⟩
      exact ih (fun later hlater => hall later (List.mem_cons_of_mem _ hlater)) next

/-- **The conditional invariant rule.** What every step that meets the condition preserves holds at
the end of every run all of whose steps meet it. -/
theorem run_preserves_of_meets (invariant : σ → Prop) {condition : σ → ℓ → Prop}
    (hstep : ∀ state label next, invariant state → condition state label →
      step state label = .ok next → invariant next)
    {state final : σ} {labels : List ℓ} (hinit : invariant state)
    (hmeets : Meets step condition state labels)
    (hrun : run step state labels = .ok final) : invariant final := by
  induction labels generalizing state with
  | nil =>
      rw [run_nil, Except.ok.injEq] at hrun
      exact hrun ▸ hinit
  | cons label labels ih =>
      obtain ⟨next, hnext, hrest⟩ := run_cons_ok.mp hrun
      obtain ⟨hcondition, hlater⟩ := hmeets
      exact ih (hstep state label next hinit hcondition hnext) (hlater next hnext) hrest

/-- **The invariant rule.** What every step preserves holds at the end of every run. -/
theorem run_preserves (invariant : σ → Prop)
    (hstep : ∀ state label next, invariant state → step state label = .ok next → invariant next)
    {state final : σ} {labels : List ℓ} (hinit : invariant state)
    (hrun : run step state labels = .ok final) : invariant final :=
  run_preserves_of_meets invariant (fun state label next hinvariant _ => hstep state label next hinvariant) hinit
    (meets_of_forall (fun _ _ => trivial) state) hrun

/-- **The exact condition, with stops.** When a legal step from a state with the property meets the
condition and is stopped, or leads to a state with the property just when it meets the condition, a legal
run keeps the property throughout just when all its steps meet the condition. -/
theorem throughout_iff_meets_of_stops (invariant : σ → Prop) {property : σ → Prop}
    {legal condition : σ → ℓ → Prop}
    (hstep : ∀ state label, invariant state → property state → legal state label →
      (∃ reason, step state label = .error reason ∧ condition state label) ∨
        ∃ next, step state label = .ok next ∧ invariant next ∧
          (property next ↔ condition state label))
    {state : σ} {labels : List ℓ} (hinit : invariant state) (hproperty : property state)
    (hlegal : Meets step legal state labels) :
    Throughout step property state labels ↔ Meets step condition state labels := by
  induction labels generalizing state with
  | nil => exact ⟨fun _ => trivial, fun _ => hproperty⟩
  | cons label labels ih =>
      rcases hstep state label hinit hproperty hlegal.1 with
        ⟨reason, hstops, hcondition⟩ | ⟨next, hnext, hinvariant, hiff⟩
      · rw [Throughout, Meets, hstops]
        simp [hproperty, hcondition]
      · have hlater (hhere : property next) := ih hinvariant hhere (hlegal.2 next hnext)
        constructor
        · rintro ⟨-, hall⟩
          have hrest := hall next hnext
          have hhere : property next := by
            cases labels with
            | nil => exact hrest
            | cons _ _ => exact hrest.1
          refine ⟨hiff.mp hhere, fun other hother => ?_⟩
          obtain rfl := Except.ok.inj (hnext.symm.trans hother)
          exact (hlater hhere).mp hrest
        · rintro ⟨hcondition, hall⟩
          refine ⟨hproperty, fun other hother => ?_⟩
          obtain rfl := Except.ok.inj (hnext.symm.trans hother)
          exact (hlater (hiff.mpr hcondition)).mpr (hall next hnext)

/-- **The exact condition.** When a legal step from a state with the property leads to one just when it
meets the condition, a legal run keeps the property throughout just when all its steps meet it. -/
theorem throughout_iff_meets (invariant : σ → Prop) {property : σ → Prop}
    {legal condition : σ → ℓ → Prop}
    (hstep : ∀ state label, invariant state → property state → legal state label →
      ∃ next, step state label = .ok next ∧ invariant next ∧ (property next ↔ condition state label))
    {state : σ} {labels : List ℓ} (hinit : invariant state) (hproperty : property state)
    (hlegal : Meets step legal state labels) :
    Throughout step property state labels ↔ Meets step condition state labels :=
  throughout_iff_meets_of_stops invariant
    (fun state label hinvariant hhere hlegal => .inr (hstep state label hinvariant hhere hlegal))
    hinit hproperty hlegal

/-- **Progress.** When every legal step can be taken, so can every legal run. -/
theorem run_of_meets (invariant : σ → Prop) {legal : σ → ℓ → Prop}
    (hstep : ∀ state label, invariant state → legal state label →
      ∃ next, step state label = .ok next ∧ invariant next)
    {state : σ} {labels : List ℓ} (hinit : invariant state)
    (hlegal : Meets step legal state labels) :
    ∃ final, run step state labels = .ok final ∧ invariant final := by
  induction labels generalizing state with
  | nil => exact ⟨state, rfl, hinit⟩
  | cons label labels ih =>
      obtain ⟨next, hnext, hinvariant⟩ := hstep state label hinit hlegal.1
      obtain ⟨final, hrun, hfinal⟩ := ih hinvariant (hlegal.2 next hnext)
      exact ⟨final, run_cons_ok.mpr ⟨next, hnext, hrun⟩, hfinal⟩

/-- **The invariant rule with a history.** The labels of a run are the history that the invariant is about. -/
theorem run_history (invariant : List ℓ → σ → Prop)
    (hstep : ∀ history state label next, invariant history state → step state label = .ok next →
      invariant (history ++ [label]) next)
    {state final : σ} {labels : List ℓ} (hinit : invariant [] state)
    (hrun : run step state labels = .ok final) : invariant labels final := by
  induction labels using List.reverseRecOn generalizing final with
  | nil =>
      obtain rfl := Except.ok.inj hrun
      exact hinit
  | append_singleton labels label ih =>
      obtain ⟨middle, hmiddle, hlast⟩ := run_append_ok.mp hrun
      exact hstep labels middle label final (ih hmiddle) (run_singleton_ok.mp hlast)

/-- **Progress with a history.** When every step that is legal after the labels before it can be taken, and
adds its label to the history that the invariant is about, so can a run of such steps. -/
theorem run_of_legal_history (invariant : List ℓ → σ → Prop) {legal : List ℓ → ℓ → Prop}
    (hstep : ∀ history state label, invariant history state → legal history label →
      ∃ next, step state label = .ok next ∧ invariant (history ++ [label]) next)
    {state : σ} {labels : List ℓ} (hinit : invariant [] state)
    (hlegal : ∀ front label back, labels = front ++ label :: back → legal front label) :
    ∃ final, run step state labels = .ok final ∧ invariant labels final := by
  induction labels using List.reverseRecOn with
  | nil => exact ⟨state, rfl, hinit⟩
  | append_singleton labels label ih =>
      obtain ⟨middle, hrun, hmiddle⟩ := ih fun front other back heq =>
        hlegal front other (back ++ [label]) (by rw [heq, List.append_assoc, List.cons_append])
      obtain ⟨final, hfinal, hinvariant⟩ := hstep labels middle label hmiddle (hlegal labels label [] rfl)
      exact ⟨final, run_append_ok.mpr ⟨middle, hrun, run_singleton_ok.mpr hfinal⟩, hinvariant⟩

theorem run_of_history (invariant : List ℓ → σ → Prop) {legal : ℓ → Prop}
    (hstep : ∀ history state label, invariant history state → legal label →
      ∃ next, step state label = .ok next ∧ invariant (history ++ [label]) next)
    {state : σ} {labels : List ℓ} (hinit : invariant [] state) (hlegal : ∀ label ∈ labels, legal label) :
    ∃ final, run step state labels = .ok final ∧ invariant labels final :=
  run_of_legal_history invariant hstep hinit fun front label back heq =>
    hlegal label (by rw [heq]; exact List.mem_append_right _ List.mem_cons_self)

/-- **The exact condition on a run.** When a step is stopped for a harmless reason or not at all just when
it meets the condition, so is a run just when all its steps meet it. -/
theorem run_harmless_iff_meets (invariant : σ → Prop) {harmless : ε → Prop}
    {condition : σ → ℓ → Prop}
    (hstep : ∀ state label, invariant state →
      ((∀ reason, step state label = .error reason → harmless reason) ↔ condition state label) ∧
        ∀ next, step state label = .ok next → invariant next)
    {state : σ} {labels : List ℓ} (hinit : invariant state) :
    (∀ reason, run step state labels = .error reason → harmless reason) ↔
      Meets step condition state labels := by
  induction labels generalizing state with
  | nil => simp [Meets]
  | cons label labels ih =>
      obtain ⟨hiff, hnext⟩ := hstep state label hinit
      rw [Meets, ← hiff, run]
      cases hresult : step state label with
      | ok next => simpa using ih (hnext next hresult)
      | error reason => simp

/-- **The safety rule.** When every step that meets the condition keeps the invariant or is stopped for a
harmless reason, so does every run all of whose steps meet it. -/
theorem run_safe_of_meets (invariant : σ → Prop) {harmless : ε → Prop} {condition : σ → ℓ → Prop}
    (hstep : ∀ state label, invariant state → condition state label →
      (∃ reason, step state label = .error reason ∧ harmless reason) ∨
        ∃ next, step state label = .ok next ∧ invariant next)
    {state : σ} {labels : List ℓ} (hinit : invariant state)
    (hmeets : Meets step condition state labels) :
    (∀ reason, run step state labels = .error reason → harmless reason) ∧
      ∀ final, run step state labels = .ok final → invariant final := by
  induction labels generalizing state with
  | nil => simpa using hinit
  | cons label labels ih =>
      rw [run]
      rcases hstep state label hinit hmeets.1 with ⟨reason, hreason, hharmless⟩ | ⟨next, hnext, hinvariant⟩
      · rw [hreason]
        simpa using hharmless
      · have hlater := ih hinvariant (hmeets.2 next hnext)
        rw [hnext]
        exact hlater

theorem Meets.and {condition condition' : σ → ℓ → Prop} {state : σ} {labels : List ℓ}
    (hmeets : Meets step condition state labels) (hmeets' : Meets step condition' state labels) :
    Meets step (fun state label => condition state label ∧ condition' state label) state labels := by
  induction labels generalizing state with
  | nil => trivial
  | cons label labels ih =>
      exact ⟨⟨hmeets.1, hmeets'.1⟩, fun next hnext => ih (hmeets.2 next hnext) (hmeets'.2 next hnext)⟩

/-- **The unconditional safety rule.** When every step keeps the invariant or is stopped for the one
reason, so does every run. -/
theorem run_safe (invariant : σ → Prop) {harmless : ε}
    (hstep : ∀ state label, invariant state →
      step state label = .error harmless ∨ ∃ next, step state label = .ok next ∧ invariant next)
    {state : σ} (hinit : invariant state) (labels : List ℓ) :
    (∀ reason, run step state labels = .error reason → reason = harmless) ∧
      ∀ final, run step state labels = .ok final → invariant final := by
  refine run_safe_of_meets invariant ?_ hinit (meets_of_forall (fun _ _ => trivial) state)
  intro state label hinvariant _
  rcases hstep state label hinvariant with hstops | hgoes
  · exact .inl ⟨harmless, hstops, rfl⟩
  · exact .inr hgoes

/-- A run whose steps all meet the condition leads from the one state to the other. -/
def Leads (step : σ → ℓ → Except ε σ) (condition : σ → ℓ → Prop) (state final : σ) : Prop :=
  ∃ labels, Meets step condition state labels ∧ run step state labels = .ok final

theorem Leads.refl {condition : σ → ℓ → Prop} (state : σ) : Leads step condition state state :=
  ⟨[], trivial, rfl⟩

theorem Leads.of_step {condition : σ → ℓ → Prop} {state next : σ} {label : ℓ}
    (hcondition : condition state label) (hstep : step state label = .ok next) :
    Leads step condition state next :=
  ⟨[label], ⟨hcondition, fun _ _ => trivial⟩, run_singleton_ok.mpr hstep⟩

theorem Leads.trans {condition : σ → ℓ → Prop} {state middle final : σ}
    (hfirst : Leads step condition state middle) (hsecond : Leads step condition middle final) :
    Leads step condition state final := by
  obtain ⟨front, hmeets, hfront⟩ := hfirst
  induction front generalizing state with
  | nil =>
      cases hfront
      exact hsecond
  | cons label labels ih =>
      obtain ⟨next, hnext, hrest⟩ := run_cons_ok.mp hfront
      obtain ⟨later, hlater, hrun⟩ := ih (hmeets.2 next hnext) hrest
      refine ⟨label :: later, ⟨hmeets.1, fun other hother => ?_⟩, run_cons_ok.mpr ⟨next, hnext, hrun⟩⟩
      obtain rfl := Except.ok.inj (hnext.symm.trans hother)
      exact hlater

/-- A run on concrete labels, evaluated: it goes through and its final state passes the check. -/
def outcome (step : σ → ℓ → Except ε σ) (state : σ) (labels : List ℓ) (check : σ → Bool) : Bool :=
  match run step state labels with
  | .ok final => check final
  | .error _ => false

theorem exists_of_outcome (step : σ → ℓ → Except ε σ) (state : σ) (labels : List ℓ)
    (check : σ → Bool) (houtcome : outcome step state labels check = true) :
    ∃ final, run step state labels = .ok final ∧ check final = true := by
  unfold outcome at houtcome
  cases hrun : run step state labels with
  | ok final => exact ⟨final, rfl, by simpa only [hrun] using houtcome⟩
  | error reason => simp [hrun] at houtcome

/-- A run on concrete labels, evaluated: it stops for the reason. -/
def failsWith [DecidableEq ε] (step : σ → ℓ → Except ε σ) (state : σ) (labels : List ℓ) (reason : ε) :
    Bool :=
  match run step state labels with
  | .ok _ => false
  | .error other => other = reason

theorem error_of_failsWith [DecidableEq ε] (step : σ → ℓ → Except ε σ) (state : σ) (labels : List ℓ)
    (reason : ε) (hfails : failsWith step state labels reason = true) :
    run step state labels = .error reason := by
  unfold failsWith at hfails
  cases hrun : run step state labels with
  | ok final => simp [hrun] at hfails
  | error other =>
      rw [hrun, decide_eq_true_iff] at hfails
      rw [hfails]

theorem Reachable.refl (state : σ) : Reachable step state state := ⟨[], rfl⟩

theorem Reachable.of_step {initial state next : σ} {label : ℓ}
    (hreach : Reachable step initial state) (hstep : step state label = .ok next) :
    Reachable step initial next := by
  obtain ⟨labels, hrun⟩ := hreach
  exact ⟨labels ++ [label], run_append_ok.mpr ⟨state, hrun, run_singleton_ok.mpr hstep⟩⟩

theorem Reachable.preserves (invariant : σ → Prop)
    (hstep : ∀ state label next, invariant state → step state label = .ok next → invariant next)
    {initial state : σ} (hinit : invariant initial) (hreach : Reachable step initial state) :
    invariant state := by
  obtain ⟨labels, hrun⟩ := hreach
  exact run_preserves invariant hstep hinit hrun

/-- Executing the labels takes the step from the one state to the other. -/
def Passes (step : σ → ℓ → Except ε σ) (initial : σ) (labels : List ℓ) (before after : σ) : Prop :=
  ∃ front label back, labels = front ++ label :: back ∧ run step initial front = .ok before ∧
    step before label = .ok after

theorem Passes.last {initial before after : σ} {labels : List ℓ} {label : ℓ}
    (hrun : run step initial labels = .ok before) (hstep : step before label = .ok after) :
    Passes step initial (labels ++ [label]) before after :=
  ⟨labels, label, [], rfl, hrun, hstep⟩

theorem Passes.append {initial before after : σ} {labels : List ℓ}
    (hpasses : Passes step initial labels before after) (later : List ℓ) :
    Passes step initial (labels ++ later) before after := by
  obtain ⟨front, label, back, rfl, hrun, hstep⟩ := hpasses
  exact ⟨front, label, back ++ later, by simp, hrun, hstep⟩

end Run

/-- **The simulation rule.** When every step of one system is matched, through a map of states, by a
run of another, so is every run. -/
theorem run_simulates {step : σ → ℓ → Except ε σ} {other : τ → κ → Except δ τ} (view : σ → τ)
    (hstep : ∀ state label next, step state label = .ok next →
      Reachable other (view state) (view next))
    {state final : σ} {labels : List ℓ} (hrun : run step state labels = .ok final) :
    Reachable other (view state) (view final) := by
  refine run_preserves (fun current => Reachable other (view state) (view current)) ?_
    (Reachable.refl _) hrun
  intro current label next hcurrent hnext
  obtain ⟨front, hfront⟩ := hcurrent
  obtain ⟨back, hback⟩ := hstep current label next hnext
  exact ⟨front ++ back, run_append_ok.mpr ⟨view current, hfront, hback⟩⟩

/-- **The matching rule.** When a second system can always match the steps of the first with the same
labels and stay related to it, it can execute every run of the first. -/
theorem run_matched {step : σ → ℓ → Except ε σ} {other : τ → ℓ → Except δ τ}
    (related : σ → τ → Prop) {state final : σ} {twin : τ} {labels : List ℓ}
    (hinit : related state twin) (hrun : run step state labels = .ok final)
    (hstep : ∀ state twin label next, related state twin → step state label = .ok next →
      ∃ twin', other twin label = .ok twin' ∧ related next twin') :
    ∃ twin', run other twin labels = .ok twin' ∧ related final twin' := by
  induction labels generalizing state twin with
  | nil =>
      cases hrun
      exact ⟨twin, rfl, hinit⟩
  | cons label labels ih =>
      obtain ⟨next, hnext, hrest⟩ := run_cons_ok.mp hrun
      obtain ⟨middle, hmiddle, hrelated⟩ := hstep state twin label next hinit hnext
      obtain ⟨last, hlast, hfinal⟩ := ih hrelated hrest
      exact ⟨last, run_cons_ok.mpr ⟨middle, hmiddle, hlast⟩, hfinal⟩

/-- **The lockstep rule.** Two systems are driven by the same labels. When the second takes the steps of
the first just when they meet a condition, and stays related to it then, it executes a run of the first
just when all the steps meet the condition. -/
theorem run_lockstep {step : σ → ℓ → Except ε σ} {other : τ → ℓ → Except δ τ}
    (related : σ → τ → Prop) {condition : τ → ℓ → Prop} {state final : σ} {twin : τ} {labels : List ℓ}
    (hinit : related state twin) (hrun : run step state labels = .ok final)
    (hstep : ∀ state twin label next, related state twin → step state label = .ok next →
      (condition twin label → ∃ twin', other twin label = .ok twin') ∧
      ∀ twin', other twin label = .ok twin' → condition twin label ∧ related next twin') :
    ((∃ twin', run other twin labels = .ok twin') ↔ Meets other condition twin labels) ∧
      ∀ twin', run other twin labels = .ok twin' → related final twin' := by
  induction labels generalizing state twin with
  | nil =>
      cases hrun
      refine ⟨⟨fun _ => trivial, fun _ => ⟨twin, rfl⟩⟩, fun twin' htwin => ?_⟩
      cases htwin
      exact hinit
  | cons label labels ih =>
      obtain ⟨next, hnext, hrest⟩ := run_cons_ok.mp hrun
      obtain ⟨haccept, hrelated⟩ := hstep state twin label next hinit hnext
      refine ⟨⟨?_, ?_⟩, ?_⟩
      · rintro ⟨last, hlast⟩
        obtain ⟨twin', htwin, hlater⟩ := run_cons_ok.mp hlast
        obtain ⟨hcondition, hstays⟩ := hrelated twin' htwin
        refine ⟨hcondition, fun twin'' htwin'' => ?_⟩
        obtain rfl := Except.ok.inj (htwin.symm.trans htwin'')
        exact (ih hstays hrest).1.mp ⟨last, hlater⟩
      · rintro ⟨hcondition, hmeets⟩
        obtain ⟨twin', htwin⟩ := haccept hcondition
        obtain ⟨last, hlast⟩ := (ih (hrelated twin' htwin).2 hrest).1.mpr (hmeets twin' htwin)
        exact ⟨last, run_cons_ok.mpr ⟨twin', htwin, hlast⟩⟩
      · intro last hlast
        obtain ⟨twin', htwin, hlater⟩ := run_cons_ok.mp hlast
        exact (ih (hrelated twin' htwin).2 hrest).2 last hlater

end Execution
