import Mathlib.Order.Defs.LinearOrder

/-!
# The order of the 32-bit integers
-/

/-- The signed integers in their order. -/
instance instLinearOrderInt32 : LinearOrder Int32 where
  le_refl := Int32.le_refl
  le_trans _ _ _ := Int32.le_trans
  lt_iff_le_not_ge a b := by
    rw [Int32.not_le]
    exact ⟨fun h => ⟨Int32.le_of_lt h, h⟩, And.right⟩
  le_antisymm _ _ := Int32.le_antisymm
  le_total := Int32.le_total
  toDecidableLE := inferInstance
  toDecidableEq := inferInstance
  toDecidableLT := inferInstance
