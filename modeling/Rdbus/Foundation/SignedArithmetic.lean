import Mathlib.Algebra.Group.Int.Defs
import Mathlib.Algebra.Group.Nat.Defs
import Mathlib.Algebra.GroupWithZero.Nat

/-!
# Signed arithmetic without overflow

Each operation gives its exact result if `bits` bits can hold it and `none`
otherwise.  The rules bound absolute values, so that the bound of a result is
computed from the bounds of its operands.
-/

namespace Rdbus.Foundation.Signed

/-- The values of a signed number in two's complement. -/
def Fits (bits : Nat) (x : Int) : Prop :=
  -(2 ^ (bits - 1) : Nat) ≤ x ∧ x < (2 ^ (bits - 1) : Nat)

instance (bits : Nat) (x : Int) : Decidable (Fits bits x) :=
  inferInstanceAs (Decidable (_ ∧ _))

def exact (bits : Nat) (x : Int) : Option Int := if Fits bits x then some x else none

def add (bits : Nat) (x y : Int) : Option Int := exact bits (x + y)

def sub (bits : Nat) (x y : Int) : Option Int := exact bits (x - y)

def mul (bits : Nat) (x y : Int) : Option Int := exact bits (x * y)

/-- Rounded towards zero; there is no quotient by zero. -/
def div (bits : Nat) (x y : Int) : Option Int :=
  if y = 0 then none else exact bits (x.tdiv y)

variable {bits a b : Nat} {x y : Int}

theorem fits_of_natAbs_le (hx : x.natAbs ≤ a) (ha : a < 2 ^ (bits - 1)) : Fits bits x := by
  rw [Fits]
  omega

theorem exact_of_natAbs_le (hx : x.natAbs ≤ a) (ha : a < 2 ^ (bits - 1)) :
    exact bits x = some x :=
  if_pos (fits_of_natAbs_le hx ha)

theorem natAbs_mul_le (hx : x.natAbs ≤ a) (hy : y.natAbs ≤ b) : (x * y).natAbs ≤ a * b := by
  rw [Int.natAbs_mul]
  exact Nat.mul_le_mul hx hy

theorem natAbs_tdiv_le (hx : x.natAbs ≤ a) (y : Int) : (x.tdiv y).natAbs ≤ a / y.natAbs := by
  rw [Int.natAbs_tdiv]
  exact Nat.div_le_div_right hx

theorem natAbs_add_le (hx : x.natAbs ≤ a) (hy : y.natAbs ≤ b) : (x + y).natAbs ≤ a + b := by
  omega

theorem add_of_natAbs_le (bits : Nat) (hx : x.natAbs ≤ a) (hy : y.natAbs ≤ b)
    (hab : a + b < 2 ^ (bits - 1)) : add bits x y = some (x + y) :=
  exact_of_natAbs_le (natAbs_add_le hx hy) hab

theorem sub_of_natAbs_le (bits : Nat) (h : (x - y).natAbs ≤ a) (ha : a < 2 ^ (bits - 1)) :
    sub bits x y = some (x - y) :=
  exact_of_natAbs_le h ha

theorem mul_of_natAbs_le (bits : Nat) (hx : x.natAbs ≤ a) (hy : y.natAbs ≤ b)
    (hab : a * b < 2 ^ (bits - 1)) : mul bits x y = some (x * y) :=
  exact_of_natAbs_le (natAbs_mul_le hx hy) hab

theorem div_of_natAbs_le (bits : Nat) (hx : x.natAbs ≤ a) (hy : y ≠ 0)
    (ha : a / y.natAbs < 2 ^ (bits - 1)) : div bits x y = some (x.tdiv y) := by
  rw [div, if_neg hy]
  exact exact_of_natAbs_le (natAbs_tdiv_le hx y) ha

end Rdbus.Foundation.Signed
