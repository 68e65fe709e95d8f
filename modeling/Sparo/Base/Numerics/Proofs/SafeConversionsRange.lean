import Sparo.Base.Numerics.SafeConversions

/-!
# Range checks

`IsValueInRangeForNumericType` tells for every pair of types whether a value can be represented.
-/

namespace Sparo.Base.Numerics

open IntegerType

variable {T U L R Src Dst : IntegerType} {x : Int}

/-- The number is a value of the type. -/
def IntegerType.Represents (T : IntegerType) (x : Int) : Prop := T.lowest ≤ x ∧ x ≤ T.max

instance (T : IntegerType) (x : Int) : Decidable (T.Represents x) :=
  inferInstanceAs (Decidable (_ ∧ _))

/-! ## Ranges -/

theorem IntegerType.lowest_nonpos (T : IntegerType) : T.lowest ≤ 0 := by
  cases T <;> decide

theorem IntegerType.max_pos (T : IntegerType) : 0 < T.max := by
  cases T <;> decide

theorem IntegerType.lowest_of_unsigned (h : T.isSigned = false) : T.lowest = 0 := by
  simp only [IntegerType.lowest, h, Bool.false_eq_true, if_false]

/-- A range is contained exactly if its ends are. -/
theorem isTypeInRangeForNumericType_iff :
    isTypeInRangeForNumericType Dst Src = true ↔ Dst.lowest ≤ Src.lowest ∧ Src.max ≤ Dst.max := by
  cases Dst <;> cases Src <;> decide

theorem IntegerType.Represents.of_isTypeInRange
    (h : isTypeInRangeForNumericType Dst Src = true) (hx : Src.Represents x) :
    Dst.Represents x := by
  obtain ⟨hlowest, hmax⟩ := isTypeInRangeForNumericType_iff.mp h
  exact ⟨Int.le_trans hlowest hx.1, Int.le_trans hx.2 hmax⟩

theorem IntegerType.represents_of_nonneg (h : 0 ≤ x) (hmax : x ≤ T.max) : T.Represents x :=
  ⟨Int.le_trans T.lowest_nonpos h, hmax⟩

theorem IntegerType.represents_lowest (T : IntegerType) : T.Represents T.lowest :=
  ⟨Int.le_refl _, Int.le_trans T.lowest_nonpos (Int.le_of_lt T.max_pos)⟩

theorem IntegerType.represents_max (T : IntegerType) : T.Represents T.max :=
  represents_of_nonneg (Int.le_of_lt T.max_pos) (Int.le_refl _)

theorem IntegerType.represents_zero (T : IntegerType) : T.Represents 0 :=
  represents_of_nonneg (Int.le_refl _) (Int.le_of_lt T.max_pos)

theorem Value.represents (v : Value T) : T.Represents v.val := ⟨v.lowest_le, v.le_max⟩

/-- A value is kept exactly by the types that can represent it. -/
theorem wrap_val_iff : (T.wrap x).val = x ↔ T.Represents x := by
  constructor
  · intro h
    have hrange := (T.wrap x).represents
    rwa [h] at hrange
  · rintro ⟨hlowest, hmax⟩
    rw [T.max_eq] at hmax
    simp only [wrap]
    rw [Int.emod_eq_of_lt (by omega) (by omega)]
    omega

theorem wrap_val (h : T.Represents x) : (T.wrap x).val = x := wrap_val_iff.mpr h

theorem staticCast_val_iff {v : Value Src} :
    (staticCast Dst v).val = v.val ↔ Dst.Represents v.val := wrap_val_iff

theorem staticCast_val {v : Value Src} (h : Dst.Represents v.val) :
    (staticCast Dst v).val = v.val := staticCast_val_iff.mpr h

@[simp]
theorem Value.lowest_val (T : IntegerType) : (Value.lowest T).val = T.lowest :=
  wrap_val T.represents_lowest

@[simp]
theorem Value.max_val (T : IntegerType) : (Value.max T).val = T.max := wrap_val T.represents_max

/-- A negative value converted to an unsigned type ends up on top of its range. -/
theorem wrap_val_of_neg (hsigned : T.isSigned = false) (hneg : x < 0)
    (hlow : -2 ^ T.digits ≤ x) : (T.wrap x).val = x + 2 ^ T.digits := by
  have hbits : T.integerBitsPlusSign = T.digits := by
    simp only [integerBitsPlusSign, hsigned, Bool.toNat_false, Nat.add_zero]
  simp only [wrap, T.lowest_of_unsigned hsigned, hbits, Int.sub_zero, Int.add_zero]
  rw [← Int.add_emod_right, Int.emod_eq_of_lt (by omega) (by omega)]

/-! ## Comparisons -/

theorem commonType_self (T : IntegerType) :
    isTypeInRangeForNumericType (commonType T T) T = true := by
  cases T <;> decide

/-- The common type of two types with the same signedness contains both. -/
theorem commonType_of_sameSign (h : T.isSigned = U.isSigned) :
    isTypeInRangeForNumericType (commonType T U) T = true ∧
      isTypeInRangeForNumericType (commonType T U) U = true := by
  revert h
  cases T <;> cases U <;> decide

/-- So does a signed common type. -/
theorem commonType_of_signed (h : (commonType T U).isSigned = true) :
    isTypeInRangeForNumericType (commonType T U) T = true ∧
      isTypeInRangeForNumericType (commonType T U) U = true := by
  revert h
  cases T <;> cases U <;> decide

/-- The common type contains at least one of the two. -/
theorem commonType_contains (T U : IntegerType) :
    isTypeInRangeForNumericType (commonType T U) T = true ∨
      isTypeInRangeForNumericType (commonType T U) U = true := by
  cases T <;> cases U <;> decide

/-- It contains the positive values of both. -/
theorem commonType_max (T U : IntegerType) :
    T.max ≤ (commonType T U).max ∧ U.max ≤ (commonType T U).max := by
  cases T <;> cases U <;> decide

/-- An unsigned common type has come from an unsigned type that is at least as wide. -/
theorem commonType_of_unsigned (hT : T.isSigned = true) (hU : U.isSigned = false)
    (h : (commonType T U).isSigned = false) : T.max ≤ U.max := by
  revert hT hU h
  cases T <;> cases U <;> decide

section Comparisons

variable {a : Value T} {b : Value U}

/-- Both operands survive the usual arithmetic conversions. -/
def Common (a : Value T) (b : Value U) : Prop :=
  (commonType T U).Represents a.val ∧ (commonType T U).Represents b.val

theorem le_iff (h : Common a b) : le a b = true ↔ a.val ≤ b.val := by
  simp only [le, decide_eq_true_eq, staticCast_val h.1, staticCast_val h.2]

theorem lt_iff (h : Common a b) : lt a b = true ↔ a.val < b.val := by
  simp only [lt, decide_eq_true_eq, staticCast_val h.1, staticCast_val h.2]

theorem eq_iff (h : Common a b) : eq a b = true ↔ a.val = b.val := by
  simp only [eq, decide_eq_true_eq, staticCast_val h.1, staticCast_val h.2]

theorem Common.of_sameSign (h : T.isSigned = U.isSigned) : Common a b :=
  ⟨a.represents.of_isTypeInRange (commonType_of_sameSign h).1,
    b.represents.of_isTypeInRange (commonType_of_sameSign h).2⟩

theorem Common.of_nonneg (ha : 0 ≤ a.val) (hb : 0 ≤ b.val) : Common a b :=
  ⟨represents_of_nonneg ha (Int.le_trans a.le_max (commonType_max T U).1),
    represents_of_nonneg hb (Int.le_trans b.le_max (commonType_max T U).2)⟩

end Comparisons

theorem NarrowingRange.kShift_eq (Dst Src : IntegerType) : kShift Dst Src = 0 := by
  apply if_neg
  simp only [maxExponent]
  omega

/-- No bits are cleared between integer types. -/
theorem NarrowingRange.adjust_eq (Src : IntegerType) (value : Value Dst) :
    adjust Src value = value := by
  have hadjust : value.val - value.val.tmod (2 ^ kShift Dst Src) = value.val := by
    rw [kShift_eq, Int.pow_zero, Int.tmod_one, Int.sub_zero]
  ext
  rw [adjust, hadjust, wrap_val value.represents]

@[simp]
theorem NarrowingRange.max_val (Dst Src : IntegerType) : (max Dst Src).val = Dst.max := by
  rw [max, adjust_eq, Value.max_val]

@[simp]
theorem NarrowingRange.lowest_val (Dst Src : IntegerType) : (lowest Dst Src).val = Dst.lowest := by
  rw [lowest, adjust_eq, Value.lowest_val]

/-! ## The checks -/

/-- The bounds are told as they are. -/
theorem RangeCheck.ofBounds_eq {lower upper : Bool} {P Q : Prop} [Decidable P] [Decidable Q]
    (hlower : lower = true ↔ ¬P) (hupper : upper = true ↔ ¬Q) :
    ofBounds lower upper = ⟨decide P, decide Q⟩ := by
  have hP : (!lower) = decide P := by
    cases lower <;> simp_all
  have hQ : (!upper) = decide Q := by
    cases upper <;> simp_all
  rw [ofBounds, hP, hQ]

/-- The check for a contained range always passes. -/
theorem ofBounds_contained (h : isTypeInRangeForNumericType Dst Src = true) (value : Value Src) :
    RangeCheck.ofBounds
      (le (NarrowingRange.lowest Dst Src) (staticCast Dst (Value.lowest Src)) ||
        le (NarrowingRange.lowest Dst Src) (staticCast Dst value))
      (le (staticCast Dst (Value.max Src)) (NarrowingRange.max Dst Src) ||
        le (staticCast Dst value) (NarrowingRange.max Dst Src)) =
      ⟨decide (value.val < Dst.lowest), decide (Dst.max < value.val)⟩ := by
  have hvalue := value.represents.of_isTypeInRange h
  have hlower : le (NarrowingRange.lowest Dst Src) (staticCast Dst value) = true := by
    rw [le_iff (.of_sameSign rfl), NarrowingRange.lowest_val, staticCast_val hvalue]
    exact hvalue.1
  have hupper : le (staticCast Dst value) (NarrowingRange.max Dst Src) = true := by
    rw [le_iff (.of_sameSign rfl), NarrowingRange.max_val, staticCast_val hvalue]
    exact hvalue.2
  apply RangeCheck.ofBounds_eq
  · simp only [hlower, Bool.or_true, true_iff, Int.not_lt]
    exact hvalue.1
  · simp only [hupper, Bool.or_true, true_iff, Int.not_lt]
    exact hvalue.2

/-- The check for a destination with the signedness of the source compares the values. -/
theorem ofBounds_sameSign (h : Dst.isSigned = Src.isSigned) (value : Value Src) :
    RangeCheck.ofBounds (le (NarrowingRange.lowest Dst Src) value)
      (le value (NarrowingRange.max Dst Src)) =
      ⟨decide (value.val < Dst.lowest), decide (Dst.max < value.val)⟩ := by
  apply RangeCheck.ofBounds_eq
  · rw [le_iff (.of_sameSign h), NarrowingRange.lowest_val, Int.not_lt]
  · rw [le_iff (.of_sameSign h.symm), NarrowingRange.max_val, Int.not_lt]

/-- An unsigned value in a signed destination can only be too large. -/
theorem ofBounds_signed (h : Src.isSigned = false) (value : Value Src) :
    RangeCheck.ofBounds
      (le (NarrowingRange.lowest Dst Src) (Dst.wrap 0) ||
        le (staticCast (commonType Src Dst) (NarrowingRange.lowest Dst Src))
          (staticCast (commonType Src Dst) value))
      (le (staticCast (commonType Src Dst) value)
        (staticCast (commonType Src Dst) (NarrowingRange.max Dst Src))) =
      ⟨decide (value.val < Dst.lowest), decide (Dst.max < value.val)⟩ := by
  have hnonneg : 0 ≤ value.val := by
    rw [← lowest_of_unsigned h]
    exact value.lowest_le
  have hmax : 0 ≤ (NarrowingRange.max Dst Src).val := by
    rw [NarrowingRange.max_val]
    exact Int.le_of_lt Dst.max_pos
  have hlower : le (NarrowingRange.lowest Dst Src) (Dst.wrap 0) = true := by
    rw [le_iff (.of_sameSign rfl), NarrowingRange.lowest_val, wrap_val Dst.represents_zero]
    exact Dst.lowest_nonpos
  have hcommon : Common value (NarrowingRange.max Dst Src) := .of_nonneg hnonneg hmax
  apply RangeCheck.ofBounds_eq
  · simp only [hlower, Bool.true_or, true_iff, Int.not_lt]
    exact Int.le_trans Dst.lowest_nonpos hnonneg
  · rw [le_iff (.of_sameSign rfl), staticCast_val hcommon.1, staticCast_val hcommon.2,
      NarrowingRange.max_val, Int.not_lt]

/-- A signed value in an unsigned destination must not be negative either. Where the comparison
with the upper bound wraps a negative value, the source has no value above the bound. -/
theorem ofBounds_unsigned (hDst : Dst.isSigned = false) (hSrc : Src.isSigned = true)
    (value : Value Src) :
    RangeCheck.ofBounds
      (le (Src.wrap 0) value &&
        (eq (NarrowingRange.lowest Dst Src) (int32.wrap 0) ||
          le (NarrowingRange.lowest Dst Src) (staticCast Dst value)))
      (le (staticCast (commonType Src Dst) (Value.max Src))
          (staticCast (commonType Src Dst) (NarrowingRange.max Dst Src)) ||
        le (staticCast (commonType Src Dst) value)
          (staticCast (commonType Src Dst) (NarrowingRange.max Dst Src))) =
      ⟨decide (value.val < Dst.lowest), decide (Dst.max < value.val)⟩ := by
  have hlowest := lowest_of_unsigned hDst
  have hzero : eq (NarrowingRange.lowest Dst Src) (int32.wrap 0) = true := by
    have hval : (NarrowingRange.lowest Dst Src).val = (int32.wrap 0).val := by
      rw [NarrowingRange.lowest_val, hlowest, wrap_val int32.represents_zero]
    have hnonneg : 0 ≤ (int32.wrap 0).val := by
      rw [wrap_val int32.represents_zero]
    rw [eq_iff (.of_nonneg (hval ▸ hnonneg) hnonneg)]
    exact hval
  have hmaxSrc := wrap_val (represents_of_nonneg (T := commonType Src Dst)
    (Int.le_of_lt Src.max_pos) (commonType_max Src Dst).1)
  have hmaxDst := wrap_val (represents_of_nonneg (T := commonType Src Dst)
    (Int.le_of_lt Dst.max_pos) (commonType_max Src Dst).2)
  apply RangeCheck.ofBounds_eq
  · rw [hzero, Bool.true_or, Bool.and_true, le_iff (.of_sameSign rfl),
      wrap_val Src.represents_zero, hlowest, Int.not_lt]
  · simp only [Bool.or_eq_true, le_iff (.of_sameSign rfl), staticCast, Value.max_val,
      NarrowingRange.max_val, hmaxSrc, hmaxDst, Int.not_lt]
    have hle := value.le_max
    cases hcommon : (commonType Src Dst).isSigned with
    | true =>
      rw [wrap_val (value.represents.of_isTypeInRange (commonType_of_signed hcommon).1)]
      omega
    | false =>
      have hwide := commonType_of_unsigned hSrc hDst hcommon
      omega

/-- Every check tells on which side of the destination's range the value lies. -/
theorem dstRangeRelationToSrcRange_eq (Dst : IntegerType) (value : Value Src) :
    dstRangeRelationToSrcRange Dst value =
      ⟨decide (value.val < Dst.lowest), decide (Dst.max < value.val)⟩ := by
  unfold dstRangeRelationToSrcRange
  dsimp only
  split_ifs with hcontained
  · exact ofBounds_contained hcontained value
  · cases hDst : Dst.isSigned <;> cases hSrc : Src.isSigned
    · have hlower : le (NarrowingRange.lowest Dst Src) value = true := by
        rw [le_iff (.of_sameSign (hDst.trans hSrc.symm)), NarrowingRange.lowest_val,
          lowest_of_unsigned hDst, ← lowest_of_unsigned hSrc]
        exact value.lowest_le
      rw [← ofBounds_sameSign (hDst.trans hSrc.symm) value, hlower]
      dsimp only
      rw [Bool.or_true]
    · exact ofBounds_unsigned hDst hSrc value
    · exact ofBounds_signed hSrc value
    · exact ofBounds_sameSign (hDst.trans hSrc.symm) value

/-- Two values that both types can represent survive the conversion to the common type. -/
theorem Common.of_represents {lhs : Value L} {rhs : Value R} (hlhs : R.Represents lhs.val)
    (hrhs : L.Represents rhs.val) : Common lhs rhs := by
  rcases commonType_contains L R with h | h
  · exact ⟨lhs.represents.of_isTypeInRange h, hrhs.of_isTypeInRange h⟩
  · exact ⟨hlhs.of_isTypeInRange h, rhs.represents.of_isTypeInRange h⟩

/-- `IsGreaterOrEqual` compares the values of the operands. -/
theorem isGreaterOrEqual_iff (lhs : Value L) (rhs : Value R) :
    isGreaterOrEqual lhs rhs = true ↔ rhs.val ≤ lhs.val := by
  obtain ⟨hlhs, hlhs'⟩ := lhs.represents
  obtain ⟨hrhs, hrhs'⟩ := rhs.represents
  have hle : R.Represents lhs.val → L.Represents rhs.val →
      (le (staticCast (commonType L R) rhs) (staticCast (commonType L R) lhs) = true ↔
        rhs.val ≤ lhs.val) := by
    intro hL hR
    obtain ⟨hcommonL, hcommonR⟩ := Common.of_represents hL hR
    rw [le_iff (.of_sameSign rfl), staticCast_val hcommonL, staticCast_val hcommonR]
  simp only [isGreaterOrEqual, dstRangeRelationToSrcRange_eq, RangeCheck.isOverflow,
    RangeCheck.isUnderflow, Bool.or_eq_true, Bool.and_eq_true, beq_iff_eq, RangeCheck.mk.injEq,
    decide_eq_decide, Bool.not_eq_true', decide_eq_true_eq, decide_eq_false_iff_not]
  -- an operand that its partner's type cannot represent decides the comparison by the side it is on
  by_cases hL : R.Represents lhs.val
  · by_cases hR : L.Represents rhs.val
    · rw [hle hL hR]
      unfold Represents at hL hR
      omega
    · unfold Represents at hL hR
      omega
  · unfold Represents at hL
    omega

theorem commonMax_val (Dst Src : IntegerType) : (commonMax Dst Src).val = min Dst.max Src.max := by
  have hge := isGreaterOrEqual_iff (Value.max Dst) (Value.max Src)
  rw [Value.max_val, Value.max_val] at hge
  unfold commonMax isMaxInRangeForNumericType
  by_cases h : Src.max ≤ Dst.max
  · rw [hge.mpr h, Int.min_eq_right h]
    have hmax : Dst.Represents (Value.max Src).val := by
      rw [Value.max_val]
      exact represents_of_nonneg (Int.le_of_lt Src.max_pos) h
    simp only [Bool.not_true, Bool.false_eq_true, if_false, staticCast_val hmax, Value.max_val]
  · rw [Bool.eq_false_iff.mpr (mt hge.mp h), Int.min_eq_left (by omega)]
    exact Value.max_val Dst

/-- The unsigned type of the same size holds the positive values, and negative ones end up above
them. -/
theorem makeUnsigned_of_signed (h : T.isSigned = true) :
    T.makeUnsigned.isSigned = false ∧ T.makeUnsigned.max = 2 * T.max + 1 ∧
      (2 : Int) ^ T.makeUnsigned.digits = 2 * T.max + 2 ∧ T.lowest = -T.max - 1 := by
  revert h
  cases T <;> decide

/-- `IsValueInRangeForNumericType` tells whether the destination can represent the value. -/
theorem isValueInRangeForNumericType_iff (Dst : IntegerType) (value : Value Src) :
    isValueInRangeForNumericType Dst value = true ↔ Dst.Represents value.val := by
  unfold isValueInRangeForNumericType
  split_ifs with hsigned hunsigned
  · obtain ⟨hDst, hSrc, -⟩ := hsigned
    rw [eq_iff (.of_sameSign (hSrc.trans hDst.symm)), eq_comm, staticCast_val_iff]
  · obtain ⟨hDst, hSrc, -⟩ := hunsigned
    obtain ⟨hunsigned, hmax, hpow, hlowest⟩ := makeUnsigned_of_signed hSrc
    have hpos := Src.max_pos
    have hposDst := Dst.max_pos
    have hcommon : (staticCast Src.makeUnsigned (commonMax Src Dst)).val = min Src.max Dst.max := by
      rw [staticCast_val, commonMax_val]
      rw [commonMax_val]
      exact represents_of_nonneg (by omega) (by omega)
    rw [le_iff (.of_sameSign rfl), hcommon]
    have hlow := value.lowest_le
    have hhigh := value.le_max
    unfold Represents
    rw [lowest_of_unsigned (Bool.eq_false_iff.mpr hDst)]
    by_cases hneg : value.val < 0
    · rw [staticCast, wrap_val_of_neg hunsigned hneg (by omega)]
      omega
    · rw [staticCast_val (represents_of_nonneg (by omega) (by omega))]
      omega
  · rw [dstRangeRelationToSrcRange_eq]
    simp only [RangeCheck.isValid, Bool.and_eq_true, Bool.not_eq_true', decide_eq_false_iff_not,
      Int.not_lt]
    exact and_comm

end Sparo.Base.Numerics
