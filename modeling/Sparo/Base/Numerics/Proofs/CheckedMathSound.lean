import Sparo.Base.Numerics.Proofs.CheckedMathImpl

/-!
# Soundness of checked arithmetic

What a checked operation stores is the exact result, except where `CheckedModOp` or the portable
`CheckedSubOp` computes with a wrapped number.
-/

namespace Sparo.Base.Numerics

open IntegerType

variable {T U V P : IntegerType} {op : Int → Int → Int} {e : Int}

/-- The mathematical result; division truncates. -/
def CheckedOp.exact : CheckedOp → Int → Int → Int
  | add, x, y => x + y
  | sub, x, y => x - y
  | mul, x, y => x * y
  | div, x, y => x.tdiv y
  | mod, x, y => x.tmod y

/-- The wrapped remainder is exact or does not fit the destination. An operand wraps where the other
one is a `uint64_t` and it is negative. -/
def ModHarmless (V T U : IntegerType) (x y : Int) : Prop :=
  (T = uint64 → y < 0 →
    if x - y < 2 ^ 64 then x < -y ∨ V.max < x else y ∣ 2 ^ 64 ∨ V.max < x - y - 2 ^ 64) ∧
  (U = uint64 → x < 0 → y ≠ 0 → y ∣ x ∧ y ∣ 2 ^ 64 ∨ V.max < (2 ^ 64 + x) % y)

/-- The wrapped difference of unsigned operands does not fit the destination. -/
def SubHarmless (V T U : IntegerType) (x y : Int) : Prop :=
  T.isSigned = false → U.isSigned = false → T.digits ≤ 32 → U.digits ≤ 32 → x < y →
    V.max < 2 ^ (2 * max T.digits U.digits) + x - y

/-- The condition on the operands under which the operation is sound. -/
def CheckedOp.Harmless (op : CheckedOp) (compiler : Compiler) (V T U : IntegerType) (x y : Int) :
    Prop :=
  match op with
  | sub => compiler = .other → SubHarmless V T U x y
  | mod => ModHarmless V T U x y
  | add | mul | div => True

/-! ## Storing a result -/

theorem sound_builtinOverflow : Sound e (some (builtinOverflow V e)) := by
  unfold builtinOverflow
  split_ifs with h
  · exact h
  · trivial

theorem sound_storeInRange_iff {presult : Value P} :
    Sound e (some (storeInRange V presult)) ↔
      (V.Represents presult.val → presult.val = e) := by
  have hiff := isValueInRangeForNumericType_iff V presult
  unfold storeInRange
  split_ifs with h
  · simp only [Sound, staticCast_val (hiff.mp h), hiff.mp h, true_implies]
  · simp only [Sound, mt hiff.mpr h, false_implies]

theorem sound_storeInRange {presult : Value P} (h : presult.val = e) :
    Sound e (some (storeInRange V presult)) :=
  sound_storeInRange_iff.mpr fun _ => h

theorem Sound.bind_storeInRange {out : Option (Option (Value P))} (h : Sound e out) :
    Sound e (out.map fun presult => presult.bind (storeInRange V)) := by
  match out, h with
  | some none, _ => trivial
  | some (some _), h => exact sound_storeInRange h

/-- An operator on two promoted operands, converted back to the promoted type. -/
theorem arithmetic_promoted (px py : Value P)
    (h : (commonType P P).Represents (op px.val py.val) ∨
      P.isSigned = false ∧ commonType P P = P) :
    ∃ r, arithmetic op px py = some r ∧ staticCast P r = P.wrap (op px.val py.val) := by
  rcases h with h | ⟨hunsigned, hself⟩
  · refine ⟨_, arithmetic_eq (.of_sameSign rfl) h, ?_⟩
    rw [staticCast, wrap_val h]
  · refine ⟨_, arithmetic_unsigned (.of_sameSign rfl) (hself.symm ▸ hunsigned), ?_⟩
    ext
    rw [staticCast, hself, wrap_val (Value.represents _)]

/-- Where the exact result fits the promoted type, it is stored or refused. -/
theorem arithmetic_sound (op : Int → Int → Int) (px py : Value P)
    (h : P.Represents (op px.val py.val)) :
    Sound (op px.val py.val) ((arithmetic op px py).map fun presult =>
      storeInRange V (staticCast P presult)) := by
  obtain ⟨r, hr, hcast⟩ :=
    arithmetic_promoted px py (.inl (h.of_isTypeInRange (commonType_self P)))
  rw [hr, Option.map_some, hcast]
  exact sound_storeInRange (wrap_val h)

/-! ## Addition, subtraction and multiplication -/

/-- A promotion to 64 bits may be too narrow for the result; any other holds it. -/
theorem fastIntegerArithmeticPromotion_cases (T U : IntegerType) :
    isIntegerArithmeticSafe (fastIntegerArithmeticPromotion T U) T U = true ∨
      63 ≤ (fastIntegerArithmeticPromotion T U).digits := by
  cases T <;> cases U <;> decide

theorem fastIntegerArithmeticPromotion_le (T U : IntegerType) :
    ¬(fastIntegerArithmeticPromotion T U).integerBitsPlusSign > int64.integerBitsPlusSign := by
  cases T <;> cases U <;> decide

theorem add_range
    (h : isIntegerArithmeticSafe (fastIntegerArithmeticPromotion T U) T U = true) :
    (fastIntegerArithmeticPromotion T U).lowest ≤ T.lowest + U.lowest ∧
      T.max + U.max ≤ (fastIntegerArithmeticPromotion T U).max := by
  revert h
  cases T <;> cases U <;> decide

theorem sub_range
    (h : isIntegerArithmeticSafe (fastIntegerArithmeticPromotion T U) T U = true)
    (hsigned : (fastIntegerArithmeticPromotion T U).isSigned = true) :
    (fastIntegerArithmeticPromotion T U).lowest ≤ T.lowest - U.max ∧
      T.max - U.lowest ≤ (fastIntegerArithmeticPromotion T U).max := by
  revert h hsigned
  cases T <;> cases U <;> decide

/-- The largest absolute value of the type. -/
def IntegerType.magnitude (T : IntegerType) : Int := Max.max T.max (-T.lowest)

theorem mul_range
    (h : isIntegerArithmeticSafe (fastIntegerArithmeticPromotion T U) T U = true) :
    T.magnitude * U.magnitude ≤ (fastIntegerArithmeticPromotion T U).max ∧
      ((fastIntegerArithmeticPromotion T U).isSigned = true →
        (fastIntegerArithmeticPromotion T U).lowest ≤ -(T.magnitude * U.magnitude)) ∧
      ((fastIntegerArithmeticPromotion T U).isSigned = false →
        T.lowest = 0 ∧ U.lowest = 0 ∧ (fastIntegerArithmeticPromotion T U).lowest = 0) := by
  revert h
  cases T <;> cases U <;> decide

theorem safe_contains
    (h : isIntegerArithmeticSafe (fastIntegerArithmeticPromotion T U) T U = true) :
    isTypeInRangeForNumericType (fastIntegerArithmeticPromotion T U) T = true ∧
      isTypeInRangeForNumericType (fastIntegerArithmeticPromotion T U) U = true := by
  revert h
  cases T <;> cases U <;> decide

/-- An unsigned promoted type is computed with as it is, or in an `int` that holds every result. -/
theorem sub_common
    (h : isIntegerArithmeticSafe (fastIntegerArithmeticPromotion T U) T U = true)
    (hunsigned : (fastIntegerArithmeticPromotion T U).isSigned = false) :
    commonType (fastIntegerArithmeticPromotion T U) (fastIntegerArithmeticPromotion T U) =
        fastIntegerArithmeticPromotion T U ∨
      (commonType (fastIntegerArithmeticPromotion T U)
        (fastIntegerArithmeticPromotion T U)).lowest ≤ T.lowest - U.max ∧
      T.max - U.lowest ≤ (commonType (fastIntegerArithmeticPromotion T U)
        (fastIntegerArithmeticPromotion T U)).max := by
  revert h hunsigned
  cases T <;> cases U <;> decide

/-- Operands that the promotion cannot represent are refused; the others are as they were. -/
theorem checkedAddSubPortable_eq (op : Int → Int → Int)
    (impl : {P : IntegerType} → Value P → Value P → Option (Option (Value P))) (V : IntegerType)
    (x : Value T) (y : Value U) :
    (¬((fastIntegerArithmeticPromotion T U).Represents x.val ∧
          (fastIntegerArithmeticPromotion T U).Represents y.val) ∧
        checkedAddSubPortable op impl V x y = some none) ∨
      ∃ px py : Value (fastIntegerArithmeticPromotion T U), px.val = x.val ∧ py.val = y.val ∧
        checkedAddSubPortable op impl V x y =
          if isIntegerArithmeticSafe (fastIntegerArithmeticPromotion T U) T U then
            (arithmetic op px py).map fun presult =>
              storeInRange V (staticCast (fastIntegerArithmeticPromotion T U) presult)
          else (impl px py).map fun presult => presult.bind (storeInRange V) := by
  have hx := isValueInRangeForNumericType_iff (fastIntegerArithmeticPromotion T U) x
  have hy := isValueInRangeForNumericType_iff (fastIntegerArithmeticPromotion T U) y
  unfold checkedAddSubPortable
  dsimp only
  rw [if_neg (fastIntegerArithmeticPromotion_le T U)]
  by_cases hrange : (fastIntegerArithmeticPromotion T U).Represents x.val ∧
      (fastIntegerArithmeticPromotion T U).Represents y.val
  · refine .inr ⟨_, _, staticCast_val hrange.1, staticCast_val hrange.2, ?_⟩
    simp only [hx.mpr hrange.1, hy.mpr hrange.2, Bool.not_true, Bool.or_self,
      Bool.false_eq_true, if_false]
  · refine .inl ⟨hrange, if_pos ?_⟩
    rw [Bool.or_eq_true, Bool.not_eq_true', Bool.not_eq_true', ← Bool.not_eq_true,
      ← Bool.not_eq_true, hx, hy]
    exact not_and_or.mp hrange

/-- The operation is sound where it is on the promoted operands. -/
theorem checkedAddSubPortable_sound
    {impl : {P : IntegerType} → Value P → Value P → Option (Option (Value P))}
    (himpl : ∀ {P : IntegerType}, 63 ≤ P.digits → ∀ px py : Value P,
      Sound (op px.val py.val) (impl px py))
    (x : Value T) (y : Value U)
    (hsafe : isIntegerArithmeticSafe (fastIntegerArithmeticPromotion T U) T U = true →
      (fastIntegerArithmeticPromotion T U).Represents (op x.val y.val)) :
    Sound (op x.val y.val) (checkedAddSubPortable op impl V x y) := by
  rcases checkedAddSubPortable_eq op impl V x y with
    ⟨-, h⟩ | ⟨px, py, hpx, hpy, h⟩
  · rw [h]
    trivial
  · rw [h, ← hpx, ← hpy]
    rw [← hpx, ← hpy] at hsafe
    split_ifs with hsafe'
    · exact arithmetic_sound op px py (hsafe hsafe')
    · have hwide := (fastIntegerArithmeticPromotion_cases T U).resolve_left hsafe'
      exact (himpl hwide px py).bind_storeInRange

theorem checkedAddOp_sound (compiler : Compiler) (x : Value T) (y : Value U) :
    Sound (x.val + y.val) (checkedAddOp compiler V x y) := by
  unfold checkedAddOp
  split_ifs with h
  · exact sound_builtinOverflow
  · apply checkedAddSubPortable_sound checkedAddImpl_sound
    intro hsafe
    obtain ⟨hlowest, hmax⟩ := add_range hsafe
    have hx := x.represents
    have hy := y.represents
    unfold Represents at *
    omega

/-- The promotion of two unsigned types of at most 32 bits is the unsigned type of twice the
width. -/
theorem unsigned_promotion_iff :
    (isIntegerArithmeticSafe (fastIntegerArithmeticPromotion T U) T U = true ∧
        (fastIntegerArithmeticPromotion T U).isSigned = false) ↔
      T.isSigned = false ∧ U.isSigned = false ∧ T.digits ≤ 32 ∧ U.digits ≤ 32 := by
  cases T <;> cases U <;> decide

theorem unsigned_promotion_digits (hT : T.isSigned = false) (hU : U.isSigned = false)
    (hdT : T.digits ≤ 32) (hdU : U.digits ≤ 32) :
    (fastIntegerArithmeticPromotion T U).digits = 2 * max T.digits U.digits := by
  revert hT hU hdT hdU
  cases T <;> cases U <;> decide

/-- The difference of two such types is computed modulo the size of the promotion. -/
theorem unsigned_difference
    (hsafe : isIntegerArithmeticSafe (fastIntegerArithmeticPromotion T U) T U = true)
    (hunsigned : (fastIntegerArithmeticPromotion T U).isSigned = false) (x : Value T)
    (y : Value U) :
    checkedAddSubPortable (· - ·) checkedSubImpl V x y =
      some (storeInRange V ((fastIntegerArithmeticPromotion T U).wrap (x.val - y.val))) := by
  obtain ⟨hcontainsT, hcontainsU⟩ := safe_contains hsafe
  rcases checkedAddSubPortable_eq (· - ·) checkedSubImpl V x y with
    ⟨hrange, -⟩ | ⟨px, py, hpx, hpy, h⟩
  · exact absurd
      ⟨x.represents.of_isTypeInRange hcontainsT, y.represents.of_isTypeInRange hcontainsU⟩ hrange
  · have hresult : (commonType (fastIntegerArithmeticPromotion T U)
          (fastIntegerArithmeticPromotion T U)).Represents (px.val - py.val) ∨
        (fastIntegerArithmeticPromotion T U).isSigned = false ∧
          commonType (fastIntegerArithmeticPromotion T U) (fastIntegerArithmeticPromotion T U) =
            fastIntegerArithmeticPromotion T U := by
      rcases sub_common hsafe hunsigned with hself | ⟨hlowest, hmax⟩
      · exact .inr ⟨hunsigned, hself⟩
      · have hx := x.represents
        have hy := y.represents
        rw [hpx, hpy]
        unfold Represents at *
        exact .inl (by omega)
    obtain ⟨r, hr, hcast⟩ := arithmetic_promoted px py hresult
    rw [h, if_pos hsafe, hr, Option.map_some, hcast, hpx, hpy]

/-- A wrapped difference is not exact, so it must not fit the destination. -/
theorem unsigned_difference_sound_iff (hT : T.isSigned = false) (hU : U.isSigned = false)
    (hdT : T.digits ≤ 32) (hdU : U.digits ≤ 32) (x : Value T) (y : Value U) :
    Sound (x.val - y.val) (checkedAddSubPortable (· - ·) checkedSubImpl V x y) ↔
      SubHarmless V T U x.val y.val := by
  obtain ⟨hsafe, hunsigned⟩ := unsigned_promotion_iff.mpr ⟨hT, hU, hdT, hdU⟩
  have hdigits := unsigned_promotion_digits hT hU hdT hdU
  have hx := x.represents.of_isTypeInRange (safe_contains hsafe).1
  have hy := y.represents.of_isTypeInRange (safe_contains hsafe).2
  have hlowest := lowest_of_unsigned hunsigned
  have hmax : (fastIntegerArithmeticPromotion T U).max =
      2 ^ (fastIntegerArithmeticPromotion T U).digits - 1 := rfl
  unfold Represents at hx hy
  rw [unsigned_difference hsafe hunsigned, sound_storeInRange_iff]
  by_cases hlt : x.val < y.val
  · rw [wrap_val_of_neg hunsigned (by omega) (by omega)]
    have hpow : (2 : Int) ^ (2 * max T.digits U.digits) =
        2 ^ (fastIntegerArithmeticPromotion T U).digits := by
      rw [hdigits]
    have hV := V.lowest_nonpos
    unfold Represents SubHarmless
    rw [hpow]
    constructor
    · intro h _ _ _ _ _
      by_contra hge
      have hexact := h ⟨by omega, by omega⟩
      omega
    · intro h hrange
      have hgt := h hT hU hdT hdU hlt
      omega
  · have hfit : (fastIntegerArithmeticPromotion T U).Represents (x.val - y.val) :=
      ⟨by omega, by omega⟩
    rw [wrap_val hfit]
    exact iff_of_true (fun _ => rfl) fun _ _ _ _ h => absurd h hlt

theorem checkedSubOp_sound_iff (compiler : Compiler) (x : Value T) (y : Value U) :
    Sound (x.val - y.val) (checkedSubOp compiler V x y) ↔
      (compiler = .other → SubHarmless V T U x.val y.val) := by
  by_cases hcompiler : compiler = .other
  · subst hcompiler
    simp only [checkedSubOp, checkedAddSubFastOpIsSupported, Bool.false_eq_true, if_false,
      true_implies]
    by_cases hnarrow : T.isSigned = false ∧ U.isSigned = false ∧ T.digits ≤ 32 ∧ U.digits ≤ 32
    · obtain ⟨hT, hU, hdT, hdU⟩ := hnarrow
      exact unsigned_difference_sound_iff hT hU hdT hdU x y
    · refine iff_of_true ?_ fun hT hU hdT hdU _ => absurd ⟨hT, hU, hdT, hdU⟩ hnarrow
      apply checkedAddSubPortable_sound checkedSubImpl_sound
      intro hsafe
      have hsigned : (fastIntegerArithmeticPromotion T U).isSigned = true := by
        rw [← Bool.not_eq_false]
        intro hunsigned
        exact hnarrow (unsigned_promotion_iff.mp ⟨hsafe, hunsigned⟩)
      obtain ⟨hlowest, hmax⟩ := sub_range hsafe hsigned
      have hx := x.represents
      have hy := y.represents
      unfold Represents at *
      omega
  · have hsupported : checkedAddSubFastOpIsSupported compiler = true := by
      cases compiler with
      | clang | gcc => rfl
      | other => exact absurd rfl hcompiler
    rw [checkedSubOp, if_pos hsupported]
    exact iff_of_true sound_builtinOverflow fun h => absurd h hcompiler

/-! ## Multiplication -/

theorem Value.natAbs_le_magnitude (x : Value T) : (x.val.natAbs : Int) ≤ T.magnitude := by
  have hlowest := x.lowest_le
  have hmax := x.le_max
  unfold magnitude
  omega

theorem mul_represents
    (h : isIntegerArithmeticSafe (fastIntegerArithmeticPromotion T U) T U = true) (x : Value T)
    (y : Value U) : (fastIntegerArithmeticPromotion T U).Represents (x.val * y.val) := by
  obtain ⟨hmax, hsigned, hunsigned⟩ := mul_range h
  have habs : ((x.val * y.val).natAbs : Int) ≤ T.magnitude * U.magnitude := by
    rw [Int.natAbs_mul, Int.natCast_mul]
    exact Int.mul_le_mul x.natAbs_le_magnitude y.natAbs_le_magnitude (Int.natCast_nonneg _)
      (Int.le_trans (Int.natCast_nonneg _) x.natAbs_le_magnitude)
  unfold Represents
  cases hP : (fastIntegerArithmeticPromotion T U).isSigned with
  | true =>
    have hlowest := hsigned hP
    omega
  | false =>
    obtain ⟨hT, hU, hlowest⟩ := hunsigned hP
    have hnonneg : 0 ≤ x.val * y.val := Int.mul_nonneg (hT ▸ x.lowest_le) (hU ▸ y.lowest_le)
    omega

/-- Operands that are in range are as they were; where one is not, the other one is 0. -/
theorem promoted_product {px py : Value P} {x : Value T} {y : Value U}
    (hx : P.Represents x.val → px.val = x.val) (hy : P.Represents y.val → py.val = y.val)
    (h : (P.Represents x.val ∧ P.Represents y.val) ∨ x.val = 0 ∨ y.val = 0) :
    px.val * py.val = x.val * y.val := by
  rcases h with ⟨hx', hy'⟩ | hzero | hzero
  · rw [hx hx', hy hy']
  · rw [hx (hzero ▸ P.represents_zero), hzero, Int.zero_mul, Int.zero_mul]
  · rw [hy (hzero ▸ P.represents_zero), hzero, Int.mul_zero, Int.mul_zero]

theorem checkedMulOp_sound (compiler : Compiler) (x : Value T) (y : Value U) :
    Sound (x.val * y.val) (checkedMulOp compiler V x y) := by
  have hx := isValueInRangeForNumericType_iff (fastIntegerArithmeticPromotion T U) x
  have hy := isValueInRangeForNumericType_iff (fastIntegerArithmeticPromotion T U) y
  unfold checkedMulOp
  dsimp only
  split_ifs with hfast hrefused hfast' hsafe
  · exact sound_builtinOverflow
  · trivial
  all_goals
    have hproduct : (staticCast (fastIntegerArithmeticPromotion T U) x).val *
        (staticCast (fastIntegerArithmeticPromotion T U) y).val = x.val * y.val := by
      apply promoted_product staticCast_val staticCast_val
      rw [← hx, ← hy]
      by_contra hcontra
      apply hrefused
      simp only [Bool.and_eq_true, Bool.or_eq_true, Bool.not_eq_true', decide_eq_true_eq]
      grind
    rw [← hproduct]
  · exact sound_builtinOverflow.bind_storeInRange
  · apply arithmetic_sound (· * ·)
    rw [hproduct]
    exact mul_represents hsafe x y
  · have hwide := (fastIntegerArithmeticPromotion_cases T U).resolve_left hsafe
    exact (checkedMulImpl_sound hwide _ _).bind_storeInRange

/-! ## Division and remainder -/

/-- The promotion holds both operands, or one of them is a `uint64_t` and the other one signed. -/
theorem bigEnoughPromotion_cases (T U : IntegerType) :
    (isTypeInRangeForNumericType (bigEnoughPromotion T U) T = true ∧
      isTypeInRangeForNumericType (bigEnoughPromotion T U) U = true) ∨
    (bigEnoughPromotion T U = uint64 ∧
      (T = uint64 ∧ U.isSigned = true ∨ U = uint64 ∧ T.isSigned = true)) := by
  cases T <;> cases U <;> decide

/-- A signed type whose range starts as low as that of another one contains it. -/
theorem isTypeInRange_of_lowest (hP : P.isSigned = true) (h : T.lowest ≤ P.lowest) :
    T.isSigned = true ∧ isTypeInRangeForNumericType T P = true := by
  revert hP h
  cases T <;> cases P <;> decide

theorem IntegerType.lowest_of_signed (h : T.isSigned = true) : T.lowest = -T.max - 1 :=
  (makeUnsigned_of_signed h).2.2.2

theorem staticCast_neg_one (hU : U.isSigned = true) :
    (staticCast U (int32.wrap (-1))).val = -1 := by
  have hpos := U.max_pos
  have hlowest := lowest_of_signed hU
  have hint : (int32.wrap (-1)).val = -1 := wrap_val (by decide)
  have hneg : U.Represents (-1) := ⟨by omega, by omega⟩
  rw [staticCast, hint, wrap_val hneg]

theorem isInvalidNegation_right {x : Value T} {y : Value U} (h : isInvalidNegation x y = true) :
    y.val = -1 := by
  simp only [isInvalidNegation, Bool.and_eq_true] at h
  obtain ⟨⟨⟨⟨-, hU⟩, -⟩, -⟩, heq⟩ := h
  rw [eq_iff (.of_sameSign rfl), staticCast_neg_one hU] at heq
  exact heq

theorem isInvalidNegation_signed {x : Value T} {y : Value U} (h : isInvalidNegation x y = true) :
    T.isSigned = true ∧ U.isSigned = true := by
  simp only [isInvalidNegation, Bool.and_eq_true] at h
  exact h.1.1.1

/-- The test finds every negation of the lowest value of the promotion. -/
theorem isInvalidNegation_of_lowest {x : Value T} {y : Value U}
    (hP : (bigEnoughPromotion T U).isSigned = true) (hx : x.val = (bigEnoughPromotion T U).lowest)
    (hy : y.val = -1) : isInvalidNegation x y = true := by
  obtain ⟨hT, hrange⟩ := isTypeInRange_of_lowest hP (hx ▸ x.lowest_le)
  have hU : U.isSigned = true := by
    rw [← Bool.not_eq_false]
    intro hU
    have hnonneg := y.lowest_le
    rw [lowest_of_unsigned hU, hy] at hnonneg
    omega
  have hlowest : eq (staticCast (bigEnoughPromotion T U) x)
      (Value.lowest (bigEnoughPromotion T U)) = true := by
    rw [eq_iff (.of_sameSign rfl), staticCast_val (hx ▸ represents_lowest _), Value.lowest_val]
    exact hx
  have hneg : eq y (staticCast U (int32.wrap (-1))) = true := by
    rw [eq_iff (.of_sameSign rfl), staticCast_neg_one hU]
    exact hy
  simp only [isInvalidNegation, hT, hU, hrange, hlowest, hneg, Bool.and_self]

/-- A quotient fits except for the negation of the lowest value. -/
theorem tdiv_represents {a b : Int} (ha : P.Represents a) (hb : P.Represents b)
    (h : ¬(P.isSigned = true ∧ a = P.lowest ∧ b = -1)) : P.Represents (a.tdiv b) := by
  have hle := Int.natAbs_tdiv_le_natAbs a b
  have hpos := P.max_pos
  unfold Represents at *
  cases hP : P.isSigned with
  | false =>
    rw [lowest_of_unsigned hP] at *
    have hnonneg := Int.tdiv_nonneg ha.1 hb.1
    omega
  | true =>
    have hlowest := lowest_of_signed hP
    by_cases hneg : 0 ≤ a
    · omega
    by_cases hb0 : 0 ≤ b
    · have hquotient := Int.tdiv_nonneg (a := -a) (by omega) hb0
      rw [Int.neg_tdiv] at hquotient
      omega
    · have hquotient := Int.tdiv_nonneg_of_nonpos_of_nonpos (a := a) (by omega) (b := b) (by omega)
      by_cases hb1 : b = -1
      · have ha' : a ≠ P.lowest := fun ha' => h ⟨hP, ha', hb1⟩
        omega
      · have hhalf : (a.tdiv b).natAbs ≤ a.natAbs / 2 := by
          rw [Int.natAbs_tdiv]
          exact Nat.div_le_div_left (by omega) (by decide)
        omega

theorem tmod_represents {a : Int} (b : Int) (ha : P.Represents a) : P.Represents (a.tmod b) := by
  have hle : (a.tmod b).natAbs ≤ a.natAbs := by
    rw [Int.natAbs_tmod]
    exact Nat.mod_le _ _
  have hpos := P.max_pos
  have hlowest := P.lowest_nonpos
  unfold Represents at *
  by_cases hneg : 0 ≤ a
  · have hnonneg := Int.tmod_nonneg b hneg
    omega
  · have hnonpos := Int.tmod_nonneg (a := -a) b (by omega)
    rw [Int.neg_tmod] at hnonpos
    omega

/-- Division in the promoted type. -/
theorem divide_promoted (px py : Value P) (hzero : py.val ≠ 0)
    (h : ¬(P.isSigned = true ∧ px.val = P.lowest ∧ py.val = -1)) :
    ∃ q, divide px py = some q ∧ staticCast P q = P.wrap (px.val.tdiv py.val) := by
  have hfit := tdiv_represents px.represents py.represents h
  have hpy := py.represents.of_isTypeInRange (commonType_self P)
  rw [divide, staticCast_val hpy, if_neg hzero]
  exact arithmetic_promoted px py (.inl (hfit.of_isTypeInRange (commonType_self P)))

/-- The remainder in the promoted type. -/
theorem modulo_promoted (px py : Value P) (hzero : py.val ≠ 0)
    (h : ¬(P.isSigned = true ∧ px.val = P.lowest ∧ py.val = -1)) :
    ∃ r, modulo px py = some r ∧ staticCast P r = P.wrap (px.val.tmod py.val) := by
  obtain ⟨q, hq, -⟩ := divide_promoted px py hzero h
  have hfit := tmod_represents py.val px.represents
  rw [modulo, hq, Option.bind_some]
  exact arithmetic_promoted px py (.inl (hfit.of_isTypeInRange (commonType_self P)))

/-- What a `uint64_t` does not hold is negative. -/
theorem uint64_represents_or_neg (x : Value T) : uint64.Represents x.val ∨ x.val < 0 := by
  have hmax := x.le_max
  have hle : T.max ≤ uint64.max := by
    cases T <;> decide
  by_cases hneg : x.val < 0
  · exact .inr hneg
  · exact .inl (represents_of_nonneg (Int.not_lt.mp hneg) (Int.le_trans hmax hle))

/-- An operand that the promotion cannot represent is negative, and the other one a `uint64_t`. -/
theorem bigEnoughPromotion_right (T : IntegerType) (y : Value U) :
    (bigEnoughPromotion T U).Represents y.val ∨
      (bigEnoughPromotion T U = uint64 ∧ T = uint64 ∧ y.val < 0) := by
  rcases bigEnoughPromotion_cases T U with ⟨-, hU⟩ | ⟨hP, ⟨hT, -⟩ | ⟨rfl, -⟩⟩
  · exact .inl (y.represents.of_isTypeInRange hU)
  · rw [hP]
    exact (uint64_represents_or_neg y).imp_right fun hneg => ⟨rfl, hT, hneg⟩
  · rw [hP]
    exact .inl y.represents

theorem bigEnoughPromotion_left (x : Value T) (U : IntegerType) :
    (bigEnoughPromotion T U).Represents x.val ∨
      (bigEnoughPromotion T U = uint64 ∧ U = uint64 ∧ x.val < 0) := by
  rcases bigEnoughPromotion_cases T U with ⟨hT, -⟩ | ⟨hP, ⟨rfl, -⟩ | ⟨hU, -⟩⟩
  · exact .inl (x.represents.of_isTypeInRange hT)
  · rw [hP]
    exact .inl x.represents
  · rw [hP]
    exact (uint64_represents_or_neg x).imp_right fun hneg => ⟨rfl, hU, hneg⟩

/-- A wrapped operand, and where it stays clear of 0. -/
theorem uint64_wrap_of_neg {x : Value T} (hneg : x.val < 0) :
    (uint64.wrap x.val).val = x.val + 2 ^ 64 ∧ -2 ^ 63 ≤ x.val := by
  have hlow : (-2 ^ 63 : Int) ≤ T.lowest := by
    cases T <;> decide
  have hx := x.lowest_le
  rw [uint64_wrap_val]
  omega

theorem promoted_ne_zero {y : Value U} (hy : y.val ≠ 0) (T : IntegerType) :
    (staticCast (bigEnoughPromotion T U) y).val ≠ 0 := by
  rcases bigEnoughPromotion_right T y with hrange | ⟨hP, -, hneg⟩
  · rw [staticCast_val hrange]
    exact hy
  · obtain ⟨hwrap, hlow⟩ := uint64_wrap_of_neg hneg
    rw [staticCast, hP, hwrap]
    omega

/-- The negation of the lowest value is not left to the operators. -/
theorem promoted_negation {x : Value T} {y : Value U} (h : ¬isInvalidNegation x y = true) :
    ¬((bigEnoughPromotion T U).isSigned = true ∧
      (staticCast (bigEnoughPromotion T U) x).val = (bigEnoughPromotion T U).lowest ∧
      (staticCast (bigEnoughPromotion T U) y).val = -1) := by
  rintro ⟨hP, hlowest, hneg⟩
  have hsigned : bigEnoughPromotion T U ≠ uint64 := by
    intro huint
    rw [huint] at hP
    cases hP
  have hx := (bigEnoughPromotion_left x U).resolve_right fun hwraps => hsigned hwraps.1
  have hy := (bigEnoughPromotion_right T y).resolve_right fun hwraps => hsigned hwraps.1
  rw [staticCast_val hx] at hlowest
  rw [staticCast_val hy] at hneg
  exact h (isInvalidNegation_of_lowest hP hlowest hneg)

theorem checkedDivOp_sound (x : Value T) (y : Value U) :
    Sound (x.val.tdiv y.val) (checkedDivOp V x y) := by
  have hx := isValueInRangeForNumericType_iff (bigEnoughPromotion T U) x
  have hy := isValueInRangeForNumericType_iff (bigEnoughPromotion T U) y
  unfold checkedDivOp
  dsimp only
  split_ifs with hzero hinvalid hrefused
  · trivial
  · trivial
  · trivial
  · have hnegation := promoted_negation hinvalid
    obtain ⟨q, hq, hcast⟩ := divide_promoted _ _ (promoted_ne_zero hzero T) hnegation
    rw [hq, Option.map_some, hcast]
    apply sound_storeInRange
    rw [wrap_val (tdiv_represents (Value.represents _) (Value.represents _) hnegation)]
    by_cases hrange : (bigEnoughPromotion T U).Represents x.val ∧
        (bigEnoughPromotion T U).Represents y.val
    · rw [staticCast_val hrange.1, staticCast_val hrange.2]
    · -- only a dividend of 0 passes the range check with a wrapped divisor
      have hx0 : x.val = 0 := by
        by_contra hx0
        apply hrefused
        simp only [Bool.and_eq_true, Bool.or_eq_true, Bool.not_eq_true', decide_eq_true_eq]
        grind
      have hpx : (staticCast (bigEnoughPromotion T U) x).val = 0 := by
        rw [staticCast_val (hx0 ▸ represents_zero _), hx0]
      rw [hpx, hx0, Int.zero_tdiv, Int.zero_tdiv]

/-- The remainder by a wrapped divisor against the one by the divisor. -/
theorem tmod_wrapped_right {x y : Int} (hx : 0 ≤ x) (hx' : x < 2 ^ 64) (hy : y < 0)
    (hy' : -2 ^ 63 ≤ y) :
    0 ≤ x.tmod (y + 2 ^ 64) ∧ ∀ bound : Int,
      ((x.tmod (y + 2 ^ 64) ≤ bound → x.tmod (y + 2 ^ 64) = x.tmod y) ↔
        if x - y < 2 ^ 64 then x < -y ∨ bound < x else y ∣ 2 ^ 64 ∨ bound < x - y - 2 ^ 64) := by
  have hexact : x.tmod y = x % -y := by
    rw [Int.tmod_eq_emod_of_nonneg hx, Int.emod_neg]
  rw [hexact, Int.tmod_eq_emod_of_nonneg hx]
  by_cases hlt : x - y < 2 ^ 64
  · rw [Int.emod_eq_of_lt hx (by omega)]
    refine ⟨hx, fun bound => ?_⟩
    rw [if_pos hlt]
    have hmod : x = x % -y ↔ x < -y := by
      constructor
      · intro h
        rw [h]
        exact Int.emod_lt_of_pos x (by omega)
      · intro h
        rw [Int.emod_eq_of_lt hx h]
    rw [← hmod]
    omega
  · have hrem : x % (y + 2 ^ 64) = x - y - 2 ^ 64 := by
      rw [← Int.sub_emod_right, Int.emod_eq_of_lt (by omega) (by omega)]
      omega
    rw [hrem]
    refine ⟨by omega, fun bound => ?_⟩
    rw [if_neg hlt]
    have hmod : x - y - 2 ^ 64 = x % -y ↔ y ∣ 2 ^ 64 := by
      constructor
      · intro h
        have hdvd : -y ∣ x - x % -y := Int.dvd_self_sub_emod
        have hdiff : x - x % -y = 2 ^ 64 + y := by omega
        rw [hdiff, Int.neg_dvd] at hdvd
        exact (Int.dvd_add_left (Int.dvd_refl y)).mp hdvd
      · intro h
        have hdvd : -y ∣ 2 ^ 64 + y := Int.neg_dvd.mpr (Int.dvd_add h (Int.dvd_refl y))
        have hsum : x = x - y - 2 ^ 64 + (2 ^ 64 + y) := by omega
        rw [hsum, Int.add_emod, Int.emod_eq_zero_of_dvd hdvd, Int.add_zero, Int.emod_emod, ← hsum,
          Int.emod_eq_of_lt (by omega) (by omega)]
    rw [← hmod]
    omega

/-- The remainder of a wrapped dividend against that of the dividend. -/
theorem tmod_wrapped_left {x y : Int} (hx : x < 0) (hx' : -2 ^ 63 ≤ x) (hy : 0 < y) :
    0 ≤ (x + 2 ^ 64).tmod y ∧ ∀ bound : Int,
      (((x + 2 ^ 64).tmod y ≤ bound → (x + 2 ^ 64).tmod y = x.tmod y) ↔
        y ∣ x ∧ y ∣ 2 ^ 64 ∨ bound < (2 ^ 64 + x) % y) := by
  have hnonpos : x.tmod y ≤ 0 := by
    have hnonneg := Int.tmod_nonneg (a := -x) y (by omega)
    rw [Int.neg_tmod] at hnonneg
    omega
  have hnonneg : 0 ≤ (x + 2 ^ 64).tmod y := Int.tmod_nonneg y (by omega)
  have hrem : (x + 2 ^ 64).tmod y = (2 ^ 64 + x) % y := by
    rw [Int.tmod_eq_emod_of_nonneg (by omega), Int.add_comm]
  have hmod : (x + 2 ^ 64).tmod y = x.tmod y ↔ y ∣ x ∧ y ∣ 2 ^ 64 := by
    constructor
    · intro h
      have hdvd : y ∣ x := Int.dvd_of_tmod_eq_zero (by omega)
      have hdvd' : y ∣ x + 2 ^ 64 := Int.dvd_of_tmod_eq_zero (by omega)
      exact ⟨hdvd, (Int.dvd_add_right hdvd).mp hdvd'⟩
    · rintro ⟨hdvd, hdvd'⟩
      rw [Int.tmod_eq_zero_of_dvd hdvd, Int.tmod_eq_zero_of_dvd (Int.dvd_add hdvd hdvd')]
  refine ⟨hnonneg, fun bound => ?_⟩
  rw [hmod, hrem]
  omega

theorem promotion_of_uint64 (h : T = uint64 ∨ U = uint64) : bigEnoughPromotion T U = uint64 := by
  rcases h with rfl | rfl
  · cases U <;> decide
  · cases T <;> decide

theorem represents_iff_of_nonneg {x : Int} (h : 0 ≤ x) : V.Represents x ↔ x ≤ V.max := by
  have hlowest := V.lowest_nonpos
  unfold Represents
  omega

/-- Where both operands are kept, there is nothing to wrap. -/
theorem modHarmless_of_represents {x y : Int} (hx : (bigEnoughPromotion T U).Represents x)
    (hy : (bigEnoughPromotion T U).Represents y) : ModHarmless V T U x y := by
  constructor
  · intro hT hneg
    rw [promotion_of_uint64 (.inl hT), uint64_represents] at hy
    omega
  · intro hU hneg
    rw [promotion_of_uint64 (.inr hU), uint64_represents] at hx
    omega

/-- The promoted remainder, which is stored if it fits. -/
theorem checkedModOp_eq {x : Value T} {y : Value U} (hzero : y.val ≠ 0)
    (hinvalid : ¬isInvalidNegation x y = true) :
    Sound e (checkedModOp V x y) ↔
      (V.Represents ((staticCast (bigEnoughPromotion T U) x).val.tmod
          (staticCast (bigEnoughPromotion T U) y).val) →
        (staticCast (bigEnoughPromotion T U) x).val.tmod
          (staticCast (bigEnoughPromotion T U) y).val = e) := by
  obtain ⟨r, hr, hcast⟩ :=
    modulo_promoted _ _ (promoted_ne_zero hzero T) (promoted_negation hinvalid)
  unfold checkedModOp
  dsimp only
  rw [if_neg hzero, if_neg hinvalid, hr, Option.map_some, hcast, sound_storeInRange_iff,
    wrap_val (tmod_represents _ (Value.represents _))]

/-- A remainder of 0 where the quotient would overflow. -/
theorem checkedModOp_invalidNegation {x : Value T} {y : Value U} (hzero : y.val ≠ 0)
    (hinvalid : isInvalidNegation x y = true) :
    Sound (x.val.tmod y.val) (checkedModOp V x y) ∧ ModHarmless V T U x.val y.val := by
  have hright := isInvalidNegation_right hinvalid
  obtain ⟨hT, hU⟩ := isInvalidNegation_signed hinvalid
  rw [checkedModOp, if_neg hzero, if_pos hinvalid]
  refine ⟨?_, ?_, ?_⟩
  · have hzero : (int32.wrap 0).val = 0 := wrap_val int32.represents_zero
    rw [hright, Int.tmod_neg, Int.tmod_one, Sound, staticCast, hzero, wrap_val V.represents_zero]
  · rintro rfl
    cases hT
  · rintro rfl
    cases hU

/-- A negative divisor of a `uint64_t` wraps. -/
theorem modHarmless_right {x : Value T} {y : Value U} (hT : T = uint64) (hneg : y.val < 0) :
    (V.Represents (x.val.tmod (y.val + 2 ^ 64)) →
        x.val.tmod (y.val + 2 ^ 64) = x.val.tmod y.val) ↔ ModHarmless V T U x.val y.val := by
  subst hT
  obtain ⟨hlow, hhigh⟩ := uint64_represents.mp x.represents
  obtain ⟨hnonneg, hiff⟩ := tmod_wrapped_right hlow hhigh hneg (uint64_wrap_of_neg hneg).2
  rw [represents_iff_of_nonneg hnonneg, hiff]
  constructor
  · intro h
    refine ⟨fun _ _ => h, ?_⟩
    rintro rfl
    exact absurd y.lowest_le (Int.not_le.mpr hneg)
  · intro h
    exact h.1 rfl hneg

/-- A negative dividend of a `uint64_t` wraps. -/
theorem modHarmless_left {x : Value T} {y : Value U} (hU : U = uint64) (hneg : x.val < 0)
    (hzero : y.val ≠ 0) :
    (V.Represents ((x.val + 2 ^ 64).tmod y.val) →
        (x.val + 2 ^ 64).tmod y.val = x.val.tmod y.val) ↔ ModHarmless V T U x.val y.val := by
  subst hU
  have hnonneg := (uint64_represents.mp y.represents).1
  have hpos : 0 < y.val := by omega
  obtain ⟨hnonneg, hiff⟩ := tmod_wrapped_left hneg (uint64_wrap_of_neg hneg).2 hpos
  rw [represents_iff_of_nonneg hnonneg, hiff]
  constructor
  · intro h
    refine ⟨?_, fun _ _ _ => h⟩
    rintro rfl
    exact absurd x.lowest_le (Int.not_le.mpr hneg)
  · intro h
    exact h.2 rfl hneg hzero

theorem checkedModOp_sound_iff (x : Value T) (y : Value U) :
    Sound (x.val.tmod y.val) (checkedModOp V x y) ↔ ModHarmless V T U x.val y.val := by
  by_cases hzero : y.val = 0
  · rw [checkedModOp, if_pos hzero]
    refine iff_of_true trivial ⟨fun _ hneg => ?_, fun _ _ hne => absurd hzero hne⟩
    omega
  by_cases hinvalid : isInvalidNegation x y = true
  · obtain ⟨hsound, hharmless⟩ := checkedModOp_invalidNegation hzero hinvalid
    exact iff_of_true hsound hharmless
  rw [checkedModOp_eq hzero hinvalid]
  rcases bigEnoughPromotion_left x U with hx | ⟨hP, hU, hneg⟩
  · rw [staticCast_val hx]
    rcases bigEnoughPromotion_right T y with hy | ⟨hP, hT, hneg⟩
    · rw [staticCast_val hy]
      exact iff_of_true (fun _ => rfl) (modHarmless_of_represents hx hy)
    · rw [staticCast, hP, (uint64_wrap_of_neg hneg).1]
      exact modHarmless_right hT hneg
  · have hy : (bigEnoughPromotion T U).Represents y.val := by
      rw [hP, ← hU]
      exact y.represents
    rw [staticCast_val hy, staticCast, hP, (uint64_wrap_of_neg hneg).1]
    exact modHarmless_left hU hneg hzero

/-- A checked operation is defined, and what it stores is exact, except where `CheckedModOp` or the
portable `CheckedSubOp` stores a wrapped number. -/
theorem CheckedOp.sound_iff (op : CheckedOp) (compiler : Compiler) (x : Value T) (y : Value U) :
    Sound (op.exact x.val y.val) (op.run compiler V x y) ↔
      op.Harmless compiler V T U x.val y.val := by
  cases op with
  | add => exact iff_of_true (checkedAddOp_sound compiler x y) trivial
  | sub => exact checkedSubOp_sound_iff compiler x y
  | mul => exact iff_of_true (checkedMulOp_sound compiler x y) trivial
  | div => exact iff_of_true (checkedDivOp_sound x y) trivial
  | mod => exact checkedModOp_sound_iff x y

/-- `-1 % 10` as 18446744073709551615 % 10. -/
theorem CheckedOp.mod_stores_wrapped_remainder :
    CheckedOp.mod.run .clang uint64 (int64.wrap (-1)) (uint64.wrap 10) =
        some (some (uint64.wrap 5)) ∧
      (uint64.wrap 5).val ≠ CheckedOp.mod.exact (int64.wrap (-1)).val (uint64.wrap 10).val := by
  decide

end Sparo.Base.Numerics
