import Mathlib.Tactic.Common

/-!
# Setting and clearing bits

A sequence of `|=` and `&= ~` with constant masks is one edit: the bits it
clears and those it sets.  Done twice it does nothing more, and it leaves
every other bit alone.
-/

namespace Rdbus.Foundation

variable {w : Nat}

def setBits (word mask : BitVec w) : BitVec w := word ||| mask

def clearBits (word mask : BitVec w) : BitVec w := word &&& ~~~mask

/-- The bits of both are set. -/
structure BitEdit (w : Nat) where
  clears : BitVec w
  sets : BitVec w
  deriving DecidableEq

namespace BitEdit

def apply (edit : BitEdit w) (word : BitVec w) : BitVec w :=
  (word &&& ~~~edit.clears) ||| edit.sets

def nothing : BitEdit w := ⟨0, 0⟩

def andSet (edit : BitEdit w) (mask : BitVec w) : BitEdit w :=
  { edit with sets := edit.sets ||| mask }

def andClear (edit : BitEdit w) (mask : BitVec w) : BitEdit w where
  clears := edit.clears ||| mask
  sets := edit.sets &&& ~~~mask

@[simp] theorem apply_nothing (word : BitVec w) : nothing.apply word = word := by
  simp [apply, nothing]

@[simp] theorem apply_andSet (edit : BitEdit w) (word mask : BitVec w) :
    (edit.andSet mask).apply word = setBits (edit.apply word) mask :=
  (BitVec.or_assoc ..).symm

@[simp] theorem apply_andClear (edit : BitEdit w) (word mask : BitVec w) :
    (edit.andClear mask).apply word = clearBits (edit.apply word) mask := by
  simp only [clearBits, apply, andClear]
  ext i hi
  simp
  grind

/-- Doing it again changes nothing. -/
theorem apply_apply (edit : BitEdit w) (word : BitVec w) :
    edit.apply (edit.apply word) = edit.apply word := by
  simp only [apply]
  ext i hi
  simp
  grind

/-- The field under a mask of which every bit is set or cleared. -/
theorem apply_and (edit : BitEdit w) (word mask : BitVec w)
    (h : mask &&& ~~~(edit.clears ||| edit.sets) = 0) :
    edit.apply word &&& mask = edit.sets &&& mask := by
  simp only [apply]
  ext i hi
  have hbit := congrArg (fun word : BitVec w => word[i]) h
  simp at hbit ⊢
  grind

/-- A field that is not touched. -/
theorem apply_and_of_disjoint (edit : BitEdit w) (word mask : BitVec w)
    (h : mask &&& (edit.clears ||| edit.sets) = 0) :
    edit.apply word &&& mask = word &&& mask := by
  simp only [apply]
  ext i hi
  have hbit := congrArg (fun word : BitVec w => word[i]) h
  simp at hbit ⊢
  grind

end BitEdit

end Rdbus.Foundation
