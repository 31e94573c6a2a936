import Mathlib.Data.List.Basic

/-!
# `do`-`while` loops

`body k s` is the `k`-th pass over the body with the condition after it: an
exception, or the new state and whether there is another pass.  `doWhile` runs
a loop with fuel; `entered` is the state a pass starts in, so that a property
of every pass can be stated of a loop that never ends.
-/

namespace Rdbus.Foundation

variable {σ ε : Type}

/-- `none` when the fuel is used up before the loop is left. -/
def doWhile (body : Nat → σ → Except ε (σ × Bool)) : Nat → Nat → σ → Option (Except ε σ)
  | 0, _, _ => none
  | fuel + 1, k, s =>
      match body k s with
      | .error e => some (.error e)
      | .ok (s, true) => doWhile body fuel (k + 1) s
      | .ok (s, false) => some (.ok s)

/-- The state at the start of the `n`-th pass, if there is one. -/
def entered (body : Nat → σ → Except ε (σ × Bool)) (start : σ) : Nat → Option σ
  | 0 => some start
  | n + 1 =>
      match entered body start n with
      | none => none
      | some s =>
          match body n s with
          | .ok (s, true) => some s
          | _ => none

variable {body : Nat → σ → Except ε (σ × Bool)} {start s : σ}

theorem entered_succ {n : Nat} : entered body start (n + 1) = some s ↔
    ∃ before, entered body start n = some before ∧ body n before = .ok (s, true) := by
  rw [entered]
  cases entered body start n with
  | none => simp
  | some before =>
      cases hbody : body n before with
      | error e => simp [hbody]
      | ok result =>
          obtain ⟨after, again⟩ := result
          cases again <;> simp [hbody]

/-- What holds at the first pass and is kept by a pass holds at every pass. -/
theorem entered_invariant (invariant : Nat → σ → Prop) (first : invariant 0 start)
    (kept : ∀ {n before after}, invariant n before → body n before = .ok (after, true) →
      invariant (n + 1) after)
    {n : Nat} (h : entered body start n = some s) : invariant n s := by
  induction n generalizing s with
  | zero =>
      cases h
      exact first
  | succ n ih =>
      obtain ⟨before, hbefore, hbody⟩ := entered_succ.mp h
      exact kept (ih hbefore) hbody

theorem doWhile_entered {n : Nat} (h : entered body start n = some s) (fuel : Nat) :
    doWhile body (n + fuel) 0 start = doWhile body fuel n s := by
  induction n generalizing s fuel with
  | zero =>
      cases h
      rw [Nat.zero_add]
  | succ n ih =>
      obtain ⟨before, hbefore, hbody⟩ := entered_succ.mp h
      rw [Nat.add_assoc, Nat.add_comm 1 fuel, ih hbefore, doWhile, hbody]

private theorem left_from {fuel n : Nat} {outcome : Except ε σ}
    (hs : entered body start n = some s) (h : doWhile body fuel n s = some outcome) :
    ∃ n s, entered body start n = some s ∧
      body n s = outcome.map fun after => (after, false) := by
  induction fuel generalizing n s with
  | zero => cases h
  | succ fuel ih =>
      rw [doWhile] at h
      cases hbody : body n s with
      | error e =>
          simp only [hbody, Option.some.injEq] at h
          exact ⟨n, s, hs, by rw [hbody, ← h]; rfl⟩
      | ok result =>
          obtain ⟨after, again⟩ := result
          cases again with
          | true =>
              simp only [hbody] at h
              exact ih (entered_succ.mpr ⟨s, hs, hbody⟩) h
          | false =>
              simp only [hbody, Option.some.injEq] at h
              exact ⟨n, s, hs, by rw [hbody, ← h]; rfl⟩

/-- A loop that is left is left by a pass that was entered. -/
theorem doWhile_eq_some {fuel : Nat} {outcome : Except ε σ}
    (h : doWhile body fuel 0 start = some outcome) :
    ∃ n s, entered body start n = some s ∧
      body n s = outcome.map fun after => (after, false) :=
  left_from (n := 0) rfl h

theorem doWhile_of_left {n : Nat} {outcome : Except ε σ} (hs : entered body start n = some s)
    (h : body n s = outcome.map fun after => (after, false)) :
    doWhile body (n + 1) 0 start = some outcome := by
  rw [doWhile_entered hs, doWhile, h]
  cases outcome <;> rfl

/-- More fuel does not change the outcome. -/
theorem doWhile_unique {fuel more k : Nat} {outcome other : Except ε σ}
    (h : doWhile body fuel k s = some outcome) (hother : doWhile body more k s = some other) :
    outcome = other := by
  induction fuel generalizing more k s with
  | zero => cases h
  | succ fuel ih =>
      cases more with
      | zero => cases hother
      | succ more =>
          rw [doWhile] at h hother
          split at h
          case h_1 hbody =>
            rw [hbody] at hother
            exact Option.some.inj (h.symm.trans hother)
          case h_2 hbody =>
            rw [hbody] at hother
            exact ih h hother
          case h_3 hbody =>
            rw [hbody] at hother
            exact Option.some.inj (h.symm.trans hother)

end Rdbus.Foundation
