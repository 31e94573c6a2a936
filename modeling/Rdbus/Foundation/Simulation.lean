import Rdbus.Foundation.Runs

/-!
# Simulations

One machine simulates another when each of its steps is a run of the other
machine.  `trace` names the events of that run; whole runs then carry over, and
a condition on the steps of one machine is a condition on those of the other.
-/

namespace Rdbus.Foundation

variable {σ τ ε δ : Type}

theorem run_append {step : σ → ε → Option σ} {state final : σ} {first second : List ε} :
    run step state (first ++ second) = some final ↔
      ∃ middle, run step state first = some middle ∧ run step middle second = some final := by
  induction first generalizing state with
  | nil => simp [run]
  | cons event first ih =>
      rw [List.cons_append, run_cons]
      constructor
      · rintro ⟨next, hstep, hrest⟩
        obtain ⟨middle, hfirst, hsecond⟩ := ih.mp hrest
        exact ⟨middle, run_cons.mpr ⟨next, hstep, hfirst⟩, hsecond⟩
      · rintro ⟨middle, hfirst, hsecond⟩
        obtain ⟨next, hstep, hrest⟩ := run_cons.mp hfirst
        exact ⟨next, hstep, ih.mpr ⟨middle, hrest, hsecond⟩⟩

theorem alongRun_append {step : σ → ε → Option σ} {condition : σ → ε → Prop} {state : σ}
    {first second : List ε} : AlongRun step condition state (first ++ second) ↔
      AlongRun step condition state first ∧
        ∀ middle, run step state first = some middle →
          AlongRun step condition middle second := by
  induction first generalizing state with
  | nil => simp [run, AlongRun]
  | cons event first ih =>
      rw [List.cons_append, AlongRun, AlongRun, run, and_assoc]
      cases step state event with
      | none => simp
      | some next => simp only [ih]

/-- `alongRun_iff` for steps that meet an assumption. -/
theorem alongRun_iff_of {step : σ → ε → Option σ} {assumed condition : σ → ε → Prop}
    (invariant property : σ → Prop)
    (preserved : ∀ {state event next}, assumed state event → invariant state →
      step state event = some next → invariant next)
    (decides : ∀ {state event next}, assumed state event → invariant state →
      step state event = some next → (property next ↔ property state ∧ condition state event))
    {state final : σ} {events : List ε} (holds : AlongRun step assumed state events)
    (hstart : invariant state) (hrun : run step state events = some final) :
    property final ↔ property state ∧ AlongRun step condition state events := by
  induction events generalizing state with
  | nil =>
      cases hrun
      simp [AlongRun]
  | cons event events ih =>
      obtain ⟨next, hstep, hrest⟩ := run_cons.mp hrun
      obtain ⟨hassumed, holds⟩ := holds
      rw [hstep] at holds
      rw [ih holds (preserved hassumed hstart hstep) hrest, decides hassumed hstart hstep,
        AlongRun, hstep, and_assoc]

/-- A condition on the events alone. -/
theorem alongRun_of_forall {step : σ → ε → Option σ} {condition : ε → Prop} {events : List ε}
    (h : ∀ event ∈ events, condition event) (state : σ) :
    AlongRun step (fun _ event => condition event) state events :=
  alongRun_of_invariant (fun _ => True) (fun _ _ => trivial) (fun _ _ => h) trivial

/-- The events of the other machine in a whole run. -/
def traceOf (step : σ → ε → Option σ) (trace : σ → ε → List δ) : σ → List ε → List δ
  | _, [] => []
  | state, event :: events => trace state event ++
      match step state event with
      | some next => traceOf step trace next events
      | none => []

def Simulates (step : σ → ε → Option σ) (step' : τ → δ → Option τ)
    (trace : σ → ε → List δ) (related : σ → τ → Prop) : Prop :=
  ∀ {state next event state'}, related state state' → step state event = some next →
    ∃ next', run step' state' (trace state event) = some next' ∧ related next next'

theorem Simulates.run {step : σ → ε → Option σ} {step' : τ → δ → Option τ}
    {trace : σ → ε → List δ} {related : σ → τ → Prop}
    (h : Simulates step step' trace related) {state final : σ} {state' : τ}
    (hrelated : related state state') {events : List ε}
    (hrun : run step state events = some final) :
    ∃ final', Foundation.run step' state' (traceOf step trace state events) = some final' ∧
      related final final' := by
  induction events generalizing state state' with
  | nil =>
      cases hrun
      exact ⟨state', rfl, hrelated⟩
  | cons event events ih =>
      obtain ⟨next, hstep, hrest⟩ := run_cons.mp hrun
      obtain ⟨next', hnext, hrelated'⟩ := h hrelated hstep
      obtain ⟨final', hfinal, hfinalRelated⟩ := ih hrelated' hrest
      refine ⟨final', ?_, hfinalRelated⟩
      rw [traceOf, hstep]
      exact run_append.mpr ⟨next', hnext, hfinal⟩

/-- `view` maps each step to some run of the other machine. -/
def Refines (step : σ → ε → Option σ) (step' : τ → δ → Option τ) (view : σ → τ) : Prop :=
  ∀ {state next event}, step state event = some next →
    ∃ events', run step' (view state) events' = some (view next)

theorem Refines.run {step : σ → ε → Option σ} {step' : τ → δ → Option τ} {view : σ → τ}
    (h : Refines step step' view) {state final : σ} {events : List ε}
    (hrun : run step state events = some final) :
    ∃ events', Foundation.run step' (view state) events' = some (view final) := by
  induction events generalizing state with
  | nil =>
      cases hrun
      exact ⟨[], rfl⟩
  | cons event events ih =>
      obtain ⟨next, hstep, hrest⟩ := run_cons.mp hrun
      obtain ⟨first, hfirst⟩ := h hstep
      obtain ⟨second, hsecond⟩ := ih hrest
      exact ⟨first ++ second, run_append.mpr ⟨view next, hfirst, hsecond⟩⟩

/-! ## Counting steps down -/

/-- Steps that each lower a measure are at most as many as it counts. -/
theorem count_le_of_decreases {step : σ → ε → Option σ} (counted : ε → Bool)
    (invariant : σ → Prop) (measure : σ → Nat)
    (preserved : ∀ {state event next}, invariant state → step state event = some next →
      invariant next)
    (decreases : ∀ {state event next}, invariant state → step state event = some next →
      measure next + (if counted event then 1 else 0) ≤ measure state)
    {state final : σ} {events : List ε} (hstart : invariant state)
    (hrun : run step state events = some final) :
    measure final + events.countP counted ≤ measure state := by
  induction events generalizing state with
  | nil =>
      cases hrun
      simp
  | cons event events ih =>
      obtain ⟨next, hstep, hrest⟩ := run_cons.mp hrun
      have hhead := decreases hstart hstep
      have htail := ih (preserved hstart hstep) hrest
      rw [List.countP_cons]
      omega

end Rdbus.Foundation
