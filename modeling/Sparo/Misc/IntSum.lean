import Mathlib.Algebra.Order.Ring.Int
import Mathlib.Tactic.Common
import Mathlib.Tactic.SplitIfs

/-!
# Sums of `int`s

A sum of two 32-bit signed integers, which has no value where it overflows.
-/

namespace IntSum

/-- The number is a 32-bit signed integer. -/
def IsInt (x : Int) : Prop := -2 ^ 31 ≤ x ∧ x < 2 ^ 31

instance (x : Int) : Decidable (IsInt x) := inferInstanceAs (Decidable (_ ∧ _))

/-- `x + y`. -/
def addInt (x y : Int) : Option Int := if IsInt (x + y) then some (x + y) else none

theorem addInt_of_isInt {x y : Int} (h : IsInt (x + y)) : addInt x y = some (x + y) := if_pos h

theorem addInt_of_not {x y : Int} (h : ¬IsInt (x + y)) : addInt x y = none := if_neg h

/-- A sum that has a value is a 32-bit signed integer. -/
theorem addInt_eq_some_iff {x y z : Int} : addInt x y = some z ↔ IsInt (x + y) ∧ x + y = z := by
  unfold addInt
  split_ifs with h
  · rw [Option.some_inj, and_iff_right h]
  · simp [h]

end IntSum
