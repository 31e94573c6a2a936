import Mathlib.Data.List.Basic

/-!
# Runs of a state machine

A machine is a partial step function.  What one step preserves under a
condition on the state before it, every run preserves whose steps all meet the
condition.
-/

namespace Rdbus.Foundation

variable {σ ε : Type}

/-- Take the steps in order; `none` when one of them is not enabled. -/
def run (step : σ → ε → Option σ) : σ → List ε → Option σ
  | state, [] => some state
  | state, event :: events =>
      match step state event with
      | some next => run step next events
      | none => none

/-- `condition` holds before every step of the run. -/
def AlongRun (step : σ → ε → Option σ) (condition : σ → ε → Prop) :
    σ → List ε → Prop
  | _, [] => True
  | state, event :: events => condition state event ∧
      match step state event with
      | some next => AlongRun step condition next events
      | none => True

def decideAlongRun (step : σ → ε → Option σ) (condition : σ → ε → Prop)
    [∀ state event, Decidable (condition state event)] :
    ∀ state events, Decidable (AlongRun step condition state events)
  | _, [] => isTrue trivial
  | state, event :: events => by
      unfold AlongRun
      cases step state event with
      | none => exact inferInstanceAs (Decidable (_ ∧ True))
      | some next =>
          have := decideAlongRun step condition next events
          exact inferInstanceAs (Decidable (_ ∧ _))

instance (step : σ → ε → Option σ) (condition : σ → ε → Prop)
    [∀ state event, Decidable (condition state event)] (state : σ)
    (events : List ε) : Decidable (AlongRun step condition state events) :=
  decideAlongRun step condition state events

theorem run_cons {step : σ → ε → Option σ} {state final : σ} {event : ε}
    {events : List ε} : run step state (event :: events) = some final ↔
      ∃ next, step state event = some next ∧ run step next events = some final := by
  rw [run]
  cases step state event <;> simp

theorem run_invariant {step : σ → ε → Option σ} {condition : σ → ε → Prop}
    (invariant : σ → Prop)
    (preserved : ∀ {state event next}, condition state event → invariant state →
      step state event = some next → invariant next)
    {state final : σ} {events : List ε}
    (holds : AlongRun step condition state events) (hstart : invariant state)
    (hrun : run step state events = some final) : invariant final := by
  induction events generalizing state with
  | nil =>
      cases hrun
      exact hstart
  | cons event events ih =>
      rcases run_cons.mp hrun with ⟨next, hstep, hrest⟩
      unfold AlongRun at holds
      rw [hstep] at holds
      exact ih holds.2 (preserved holds.1 hstart hstep) hrest

/-- A condition that every reachable state meets holds along the run. -/
theorem alongRun_of_invariant {step : σ → ε → Option σ} {condition : σ → ε → Prop}
    (invariant : σ → Prop) {events : List ε}
    (preserved : ∀ {state event next}, invariant state → step state event = some next →
      invariant next)
    (holds : ∀ state, invariant state → ∀ event ∈ events, condition state event)
    {state : σ} (hstart : invariant state) : AlongRun step condition state events := by
  induction events generalizing state with
  | nil => trivial
  | cons event events ih =>
      refine ⟨holds state hstart event List.mem_cons_self, ?_⟩
      have hrest := fun state hstate other hmem =>
        holds state hstate other (List.mem_cons_of_mem event hmem)
      cases hstep : step state event with
      | none => trivial
      | some next => exact ih hrest (preserved hstart hstep)

/-- When each step decides whether a property survives, so does a run. -/
theorem alongRun_iff {step : σ → ε → Option σ} {condition : σ → ε → Prop}
    {invariant property : σ → Prop}
    (preserved : ∀ {state event next}, invariant state → step state event = some next →
      invariant next)
    (decides : ∀ {state event next}, invariant state → step state event = some next →
      (property next ↔ property state ∧ condition state event))
    {state final : σ} {events : List ε} (hstart : invariant state)
    (hrun : run step state events = some final) :
    property final ↔ property state ∧ AlongRun step condition state events := by
  induction events generalizing state with
  | nil =>
      cases hrun
      simp [AlongRun]
  | cons event events ih =>
      rcases run_cons.mp hrun with ⟨next, hstep, hrest⟩
      rw [ih (preserved hstart hstep) hrest, decides hstart hstep, AlongRun, hstep, and_assoc]

theorem alongRun_and {step : σ → ε → Option σ} {c d : σ → ε → Prop} {state : σ}
    {events : List ε} (hc : AlongRun step c state events)
    (hd : AlongRun step d state events) :
    AlongRun step (fun state event => c state event ∧ d state event) state events := by
  induction events generalizing state with
  | nil => trivial
  | cons event events ih =>
      unfold AlongRun at hc hd ⊢
      refine ⟨⟨hc.1, hd.1⟩, ?_⟩
      cases hstep : step state event with
      | none => trivial
      | some next =>
          simp only [hstep] at hc hd ⊢
          exact ih hc.2 hd.2

theorem alongRun_true {step : σ → ε → Option σ} {state : σ} {events : List ε} :
    AlongRun step (fun _ _ => True) state events := by
  induction events generalizing state with
  | nil => trivial
  | cons event events ih =>
      unfold AlongRun
      cases step state event with
      | none => exact ⟨trivial, trivial⟩
      | some next => exact ⟨trivial, ih⟩

end Rdbus.Foundation
