import Sparo.Base.Numerics.Proofs.SafeConversionsRange

/-!
# Comparisons and saturating casts

The comparison templates order the numbers, whatever types they are given in, and `saturated_cast`
clamps on both of its paths.
-/

namespace Sparo.Base.Numerics

open IntegerType

variable {T U L R Src Dst : IntegerType}

/-! ## Comparisons -/

/-- Either the range checks agree and the operands are compared in the common type, or an operand is
out of the other one's range, on the side that decides the comparison. -/
theorem rangeCheck_cases (lhs : Value L) (rhs : Value R) :
    (dstRangeRelationToSrcRange R lhs = dstRangeRelationToSrcRange L rhs ∧
      (dstRangeRelationToSrcRange R lhs).isUnderflow = false ∧
      (dstRangeRelationToSrcRange R lhs).isOverflow = false ∧ Common lhs rhs) ∨
    (dstRangeRelationToSrcRange R lhs ≠ dstRangeRelationToSrcRange L rhs ∧
      ((dstRangeRelationToSrcRange R lhs).isUnderflow ||
        (dstRangeRelationToSrcRange L rhs).isOverflow) = true ∧
      ((dstRangeRelationToSrcRange R lhs).isOverflow ||
        (dstRangeRelationToSrcRange L rhs).isUnderflow) = false ∧ lhs.val < rhs.val) ∨
    dstRangeRelationToSrcRange R lhs ≠ dstRangeRelationToSrcRange L rhs ∧
      ((dstRangeRelationToSrcRange R lhs).isUnderflow ||
        (dstRangeRelationToSrcRange L rhs).isOverflow) = false ∧
      ((dstRangeRelationToSrcRange R lhs).isOverflow ||
        (dstRangeRelationToSrcRange L rhs).isUnderflow) = true ∧ rhs.val < lhs.val := by
  obtain ⟨hlhs, hlhs'⟩ := lhs.represents
  obtain ⟨hrhs, hrhs'⟩ := rhs.represents
  by_cases hboth : R.Represents lhs.val ∧ L.Represents rhs.val
  · refine .inl ⟨?_, ?_, ?_, Common.of_represents hboth.1 hboth.2⟩
    all_goals
      unfold Represents at hboth
      simp only [dstRangeRelationToSrcRange_eq, RangeCheck.mk.injEq, decide_eq_decide,
        RangeCheck.isUnderflow, RangeCheck.isOverflow, Bool.and_eq_false_iff, Bool.not_eq_false',
        decide_eq_false_iff_not, decide_eq_true_eq]
      omega
  · unfold Represents at hboth
    simp only [dstRangeRelationToSrcRange_eq, ne_eq, RangeCheck.mk.injEq, decide_eq_decide,
      RangeCheck.isUnderflow, RangeCheck.isOverflow, Bool.or_eq_true, Bool.or_eq_false_iff,
      Bool.and_eq_true, Bool.and_eq_false_iff, Bool.not_eq_true', Bool.not_eq_false',
      decide_eq_false_iff_not, decide_eq_true_eq]
    omega

/-- The relation that a comparison template tests. -/
def Comparison.Holds (C : Comparison) (x y : Int) : Prop :=
  match C with
  | isLess => x < y
  | isLessOrEqual => x ≤ y
  | isGreater => y < x
  | isGreaterOrEqual => y ≤ x
  | isEqual => x = y
  | isNotEqual => x ≠ y

/-- Operands of the common type are compared as they were. -/
theorem common_iff {a : Value L} {b : Value R} (h : Common a b) :
    (le (staticCast (commonType L R) a) (staticCast (commonType L R) b) = true ↔
        a.val ≤ b.val) ∧
      (lt (staticCast (commonType L R) a) (staticCast (commonType L R) b) = true ↔
        a.val < b.val) ∧
      (lt (staticCast (commonType L R) b) (staticCast (commonType L R) a) = true ↔
        b.val < a.val) ∧
      (eq (staticCast (commonType L R) a) (staticCast (commonType L R) b) = true ↔
        a.val = b.val) := by
  have ha := staticCast_val h.1
  have hb := staticCast_val h.2
  refine ⟨?_, ?_, ?_, ?_⟩
  · rw [le_iff (.of_sameSign rfl), ha, hb]
  · rw [lt_iff (.of_sameSign rfl), ha, hb]
  · rw [lt_iff (.of_sameSign rfl), ha, hb]
  · rw [eq_iff (.of_sameSign rfl), ha, hb]

/-- Every comparison template compares the numbers. -/
theorem Comparison.test_iff (C : Comparison) (lhs : Value L) (rhs : Value R) :
    C.test lhs rhs = true ↔ C.Holds lhs.val rhs.val := by
  cases C with
  | isGreaterOrEqual => exact isGreaterOrEqual_iff lhs rhs
  | isLess | isLessOrEqual | isGreater | isEqual | isNotEqual =>
    simp only [test, Holds, Numerics.isLess, Numerics.isLessOrEqual, Numerics.isGreater,
      Numerics.isEqual, Numerics.isNotEqual]
    rcases rangeCheck_cases lhs rhs with
      ⟨hsame, hunder, hover, hcommon⟩ | ⟨hne, hunder, hover, hlt⟩ | ⟨hne, hunder, hover, hlt⟩
    · obtain ⟨hle, hlt, hgt, heq⟩ := common_iff hcommon
      rw [hsame] at hunder hover
      simp [hsame, hunder, hover, hle, hlt, hgt, ← heq]
    · simp only [hunder, hover, bne_iff_ne.mpr hne, beq_eq_false_iff_ne.mpr hne,
        Bool.false_and, Bool.true_or, Bool.or_false, Bool.false_eq_true, true_iff, false_iff]
      omega
    · simp only [hunder, hover, bne_iff_ne.mpr hne, beq_eq_false_iff_ne.mpr hne,
        Bool.false_and, Bool.true_or, Bool.or_false, Bool.false_eq_true, true_iff, false_iff]
      omega

/-- A promotion that is marked as contained holds the values of both types. -/
theorem bigEnoughPromotionIsContained_contains
    (h : bigEnoughPromotionIsContained L R = true) :
    isTypeInRangeForNumericType (bigEnoughPromotion L R) L = true ∧
      isTypeInRangeForNumericType (bigEnoughPromotion L R) R = true := by
  revert h
  cases L <;> cases R <;> decide

/-- The comparison of two strict numbers is that of the numbers, with the larger type or without
it. -/
theorem safeCompare_iff (C : Comparison) (lhs : Value L) (rhs : Value R) :
    safeCompare C lhs rhs = true ↔ C.Holds lhs.val rhs.val := by
  unfold safeCompare
  split_ifs with hcontained
  · obtain ⟨hL, hR⟩ := bigEnoughPromotionIsContained_contains hcontained
    rw [C.test_iff, staticCast_val (lhs.represents.of_isTypeInRange hL),
      staticCast_val (rhs.represents.of_isTypeInRange hR)]
  · exact C.test_iff lhs rhs

/-! ## Saturating casts -/

theorem commonMin_val (Dst Src : IntegerType) :
    (commonMin Dst Src).val = Max.max Dst.lowest Src.lowest := by
  have hle := Comparison.isLessOrEqual.test_iff (Value.lowest Dst) (Value.lowest Src)
  simp only [Comparison.test, Comparison.Holds, Value.lowest_val] at hle
  unfold commonMin isMinInRangeForNumericType
  by_cases h : Dst.lowest ≤ Src.lowest
  · have hlowest : Dst.Represents (Value.lowest Src).val := by
      rw [Value.lowest_val]
      exact ⟨h, Int.le_trans Src.lowest_nonpos (Int.le_of_lt Dst.max_pos)⟩
    rw [hle.mpr h, Int.max_eq_right h]
    simp only [Bool.not_true, Bool.false_eq_true, if_false, staticCast_val hlowest,
      Value.lowest_val]
  · rw [Bool.eq_false_iff.mpr (mt hle.mp h), Int.max_eq_left (by omega)]
    exact Value.lowest_val Dst

/-- The bound that `SaturateFastOp` chooses before it looks whether the value is in range. -/
theorem saturateFastOp_val (Dst : IntegerType) (value : Value Src) :
    (saturateFastOp Dst value).val = Max.max Dst.lowest (min Dst.max value.val) := by
  have hmaxInRange := isGreaterOrEqual_iff (Value.max Dst) (Value.max Src)
  have hminInRange := Comparison.isLessOrEqual.test_iff (Value.lowest Dst) (Value.lowest Src)
  have hinRange := isValueInRangeForNumericType_iff Dst value
  have hlow := value.lowest_le
  have hhigh := value.le_max
  have hnonpos := Dst.lowest_nonpos
  have hpos := Dst.max_pos
  simp only [Comparison.test, Comparison.Holds, Value.lowest_val, Value.max_val] at *
  unfold saturateFastOp
  by_cases h : Dst.Represents value.val
  · simp only [hinRange.mpr h, if_true, staticCast_val h]
    unfold Represents at h
    omega
  · dsimp only
    rw [if_neg (mt hinRange.mp h), commonMaxOrMin]
    unfold Represents at h
    split_ifs with hmin
    · -- the value is below the range, since the lower bound is taken
      rw [commonMin_val]
      simp only [isMaxInRangeForNumericType, isMinInRangeForNumericType, isValueNegative,
        Bool.or_eq_true, Bool.and_eq_true, Bool.not_eq_true', ← Bool.not_eq_true, hmaxInRange,
        hminInRange, decide_eq_true_eq] at hmin
      omega
    · rw [commonMax_val]
      simp only [isMaxInRangeForNumericType, isMinInRangeForNumericType, isValueNegative,
        Bool.or_eq_true, Bool.and_eq_true, Bool.not_eq_true', ← Bool.not_eq_true, hmaxInRange,
        hminInRange, decide_eq_true_eq] at hmin
      have hsign : Src.isSigned = false → Src.lowest = 0 := lowest_of_unsigned
      cases hSrc : Src.isSigned <;> simp [hSrc] at hsign hmin <;> omega

theorem saturatedCastImpl_val (Dst : IntegerType) (value : Value Src) :
    (saturatedCastImpl Dst value (dstRangeRelationToSrcRange Dst value)).val =
      Max.max Dst.lowest (min Dst.max value.val) := by
  have hnonpos := Dst.lowest_nonpos
  have hpos := Dst.max_pos
  simp only [saturatedCastImpl, dstRangeRelationToSrcRange_eq, Bool.not_eq_true',
    decide_eq_false_iff_not, Int.not_lt]
  split_ifs with hover hunder
  · rw [staticCast_val ⟨hunder, hover⟩]
    omega
  · rw [Value.lowest_val]
    omega
  · rw [Value.max_val]
    omega

/-- A saturating cast clamps, whether it is evaluated by the compiler or when the program runs. -/
theorem saturatedCast_clamps (isConstantEvaluated : Bool) (Dst : IntegerType) (value : Value Src) :
    (saturatedCast isConstantEvaluated Dst value).val =
      Max.max Dst.lowest (min Dst.max value.val) := by
  unfold saturatedCast
  cases isConstantEvaluated with
  | true => exact saturatedCastImpl_val Dst value
  | false => exact saturateFastOp_val Dst value

end Sparo.Base.Numerics
