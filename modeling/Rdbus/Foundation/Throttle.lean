import Mathlib.Data.List.Chain
import Mathlib.Order.Basic
import Mathlib.Tactic.Common

/-!
# Throttles

A throttle lets a time through that is due after the last one it let through.
Where being due is monotone, no choice of the same times keeps the same spacing
and has more of them.
-/

namespace Rdbus.Foundation

variable {τ : Type} (due : τ → τ → Bool)

def throttle : τ → List τ → List τ
  | _, [] => []
  | last, now :: rest =>
      if due last now then now :: throttle now rest else throttle last rest

/-- Each of the times is due after the one before it. -/
def Spaced (last : τ) (times : List τ) : Prop :=
  List.IsChain (fun last now => due last now = true) (last :: times)

variable {due}

theorem throttle_sublist (last : τ) (times : List τ) :
    (throttle due last times).Sublist times := by
  induction times generalizing last with
  | nil => exact List.nil_sublist _
  | cons now rest ih =>
      rw [throttle]
      split
      case isTrue => exact (ih now).cons_cons now
      case isFalse => exact (ih last).cons now

theorem throttle_spaced (last : τ) (times : List τ) :
    Spaced due last (throttle due last times) := by
  induction times generalizing last with
  | nil => exact List.isChain_singleton last
  | cons now rest ih =>
      rw [throttle]
      split
      case isTrue hdue => exact List.isChain_cons_cons.mpr ⟨hdue, ih now⟩
      case isFalse => exact ih last

variable (due) in
/--
No choice with the same spacing has more times, also when it starts later.  The
induction is on the times, and the throttle stays behind the choice.
-/
theorem length_le_throttle [Preorder τ]
    (hmono : ∀ a b now : τ, a ≤ b → due b now = true → due a now = true)
    {last last' : τ} (hlast : last ≤ last') {times chosen : List τ}
    (hsorted : times.Pairwise (· ≤ ·)) (hchosen : chosen.Sublist times)
    (hspaced : Spaced due last' chosen) :
    chosen.length ≤ (throttle due last times).length := by
  induction times generalizing last last' chosen with
  | nil => rw [List.sublist_nil.mp hchosen, throttle]
  | cons now rest ih =>
      obtain ⟨hnow, hrest⟩ := List.pairwise_cons.mp hsorted
      rw [throttle]
      rcases List.sublist_cons_iff.mp hchosen with hskipped | ⟨others, rfl, hothers⟩
      · split
        case isFalse => exact ih hlast hrest hskipped hspaced
        case isTrue =>
          cases chosen with
          | nil => exact Nat.zero_le _
          | cons first others =>
              have hmem := hskipped.subset (List.mem_cons_self : first ∈ first :: others)
              have hlater := ih (hnow first hmem) hrest
                ((List.sublist_cons_self first others).trans hskipped)
                (List.isChain_cons_cons.mp hspaced).2
              rw [List.length_cons, List.length_cons]
              omega
      · obtain ⟨hdue, hspaced⟩ := List.isChain_cons_cons.mp hspaced
        rw [if_pos (hmono _ _ _ hlast hdue), List.length_cons, List.length_cons]
        exact Nat.succ_le_succ (ih le_rfl hrest hothers hspaced)

end Rdbus.Foundation
