import Mathlib.Algebra.Order.Ring.Int
import Mathlib.Algebra.Ring.Nat

/-!
# Numeric conversions

The integer part of `src/base/numerics/safe_conversions_impl.h` and `safe_conversions.h`: the ranges
of the fixed-width types, the conversions and operators of the language on them, the range checks
and the promotion templates. `int` is `int32_t`; `intptr_t` and `intmax_t` are `int64_t`.
-/

namespace Sparo.Base.Numerics

/-- The integer types that `INTEGER_FOR_DIGITS_AND_SIGN` lists. -/
inductive IntegerType
  | int8
  | uint8
  | int16
  | uint16
  | int32
  | uint32
  | int64
  | uint64
  deriving DecidableEq, Repr

namespace IntegerType

/-- `std::is_signed`. -/
def isSigned : IntegerType → Bool
  | int8 | int16 | int32 | int64 => true
  | uint8 | uint16 | uint32 | uint64 => false

/-- `std::numeric_limits<T>::digits`. -/
def digits : IntegerType → Nat
  | int8 => 7
  | uint8 => 8
  | int16 => 15
  | uint16 => 16
  | int32 => 31
  | uint32 => 32
  | int64 => 63
  | uint64 => 64

def integerBitsPlusSign (T : IntegerType) : Nat := T.digits + T.isSigned.toNat

/-- `MaxExponent`. -/
def maxExponent (T : IntegerType) : Nat := T.digits + 1

/-- `std::numeric_limits<T>::lowest()`. -/
def lowest (T : IntegerType) : Int := if T.isSigned then -2 ^ T.digits else 0

/-- `std::numeric_limits<T>::max()`. -/
def max (T : IntegerType) : Int := 2 ^ T.digits - 1

def makeUnsigned : IntegerType → IntegerType
  | int8 | uint8 => uint8
  | int16 | uint16 => uint16
  | int32 | uint32 => uint32
  | int64 | uint64 => uint64

def makeSigned : IntegerType → IntegerType
  | int8 | uint8 => int8
  | int16 | uint16 => int16
  | int32 | uint32 => int32
  | int64 | uint64 => int64

/-- Integral promotion. -/
def promote (T : IntegerType) : IntegerType := if T.integerBitsPlusSign < 32 then int32 else T

/-- `decltype(T() + U())`: the usual arithmetic conversions. -/
def commonType (T U : IntegerType) : IntegerType :=
  let T := T.promote
  let U := U.promote
  if T.isSigned = U.isSigned then
    if T.integerBitsPlusSign < U.integerBitsPlusSign then U else T
  else if T.isSigned then
    if U.integerBitsPlusSign < T.integerBitsPlusSign then T else U
  else if T.integerBitsPlusSign < U.integerBitsPlusSign then U else T

/-- The values run through all residues of the width. -/
theorem max_eq (T : IntegerType) : T.max = T.lowest + 2 ^ T.integerBitsPlusSign - 1 := by
  cases T <;> rfl

theorem pow_bits_pos (T : IntegerType) : (0 : Int) < 2 ^ T.integerBitsPlusSign :=
  Int.pow_pos (by decide)

end IntegerType

open IntegerType

/-- A value of type `T`. -/
@[ext]
structure Value (T : IntegerType) where
  val : Int
  lowest_le : T.lowest ≤ val
  le_max : val ≤ T.max
  deriving DecidableEq, Repr

/-- The value of type `T` that is congruent to `x` modulo the number of values. -/
def IntegerType.wrap (T : IntegerType) (x : Int) : Value T where
  val := (x - T.lowest) % 2 ^ T.integerBitsPlusSign + T.lowest
  lowest_le := by
    have h := Int.emod_nonneg (x - T.lowest) (Int.ne_of_gt (T.pow_bits_pos))
    omega
  le_max := by
    have h := Int.emod_lt_of_pos (x - T.lowest) T.pow_bits_pos
    rw [T.max_eq]
    omega

variable {T U L R Src : IntegerType}

def staticCast (Dst : IntegerType) (value : Value Src) : Value Dst := Dst.wrap value.val

namespace Value

/-- `std::numeric_limits<T>::lowest()` as a value. -/
def lowest (T : IntegerType) : Value T := T.wrap T.lowest

/-- `std::numeric_limits<T>::max()` as a value. -/
def max (T : IntegerType) : Value T := T.wrap T.max

end Value

/-! ## Operators of the language -/

/-- `x <= y`. -/
def le (x : Value T) (y : Value U) : Bool :=
  decide ((staticCast (commonType T U) x).val ≤ (staticCast (commonType T U) y).val)

/-- `x < y`. -/
def lt (x : Value T) (y : Value U) : Bool :=
  decide ((staticCast (commonType T U) x).val < (staticCast (commonType T U) y).val)

/-- `x == y`. -/
def eq (x : Value T) (y : Value U) : Bool :=
  decide ((staticCast (commonType T U) x).val = (staticCast (commonType T U) y).val)

/-- `x + y`, `x - y` and `x * y`; no result where signed arithmetic overflows. -/
def arithmetic (op : Int → Int → Int) (x : Value T) (y : Value U) :
    Option (Value (commonType T U)) :=
  let C := commonType T U
  let r := op (staticCast C x).val (staticCast C y).val
  if C.isSigned ∧ (r < C.lowest ∨ C.max < r) then none else some (C.wrap r)

/-- `x / y`; no result for a zero denominator. -/
def divide (x : Value T) (y : Value U) : Option (Value (commonType T U)) :=
  if (staticCast (commonType T U) y).val = 0 then none else arithmetic Int.tdiv x y

/-- `x % y`; no result where the quotient has none. -/
def modulo (x : Value T) (y : Value U) : Option (Value (commonType T U)) :=
  (divide x y).bind fun _ => arithmetic Int.tmod x y

/-- `x ^ y`, `x & y` and `x | y`. -/
def bitwise (op : {w : Nat} → BitVec w → BitVec w → BitVec w) (x : Value T) (y : Value U) :
    Value (commonType T U) :=
  let C := commonType T U
  C.wrap (op (BitVec.ofInt C.integerBitsPlusSign (staticCast C x).val)
    (BitVec.ofInt C.integerBitsPlusSign (staticCast C y).val)).toNat

/-- `x << shift`; no result for a shift out of the width, and where a signed result overflows. -/
def shiftLeft (x : Value T) (shift : Value U) : Option (Value T.promote) :=
  let r := x.val * 2 ^ shift.val.toNat
  if shift.val < 0 ∨ T.promote.integerBitsPlusSign ≤ shift.val then none
  else if T.promote.isSigned ∧ (x.val < 0 ∨ T.promote.max < r) then none
  else some (T.promote.wrap r)

/-- `x >> shift`, which keeps the sign; no result for a shift out of the width. -/
def shiftRight (x : Value T) (shift : Value U) : Option (Value T.promote) :=
  if shift.val < 0 ∨ T.promote.integerBitsPlusSign ≤ shift.val then none
  else some (T.promote.wrap (x.val / 2 ^ shift.val.toNat))

/-! ## Range checks -/

def isValueNegative (value : Value T) : Bool := T.isSigned && decide (value.val < 0)

/-- `SafeUnsignedAbs`: the absolute value via unsigned overflow. -/
def safeUnsignedAbs (value : Value T) : Value T.makeUnsigned :=
  if isValueNegative value then T.makeUnsigned.wrap (0 - (staticCast T.makeUnsigned value).val)
  else staticCast T.makeUnsigned value

/-- `IsTypeInRangeForNumericType<Dst, Src>`, the test of `StaticDstRangeRelationToSrcRange`. -/
def isTypeInRangeForNumericType (Dst Src : IntegerType) : Bool :=
  if Dst.isSigned = Src.isSigned then decide (Src.maxExponent ≤ Dst.maxExponent)
  else if Dst.isSigned then decide (Src.maxExponent < Dst.maxExponent)
  else false

structure RangeCheck where
  underflow : Bool
  overflow : Bool
  deriving DecidableEq, Repr

namespace RangeCheck

/-- `RangeCheck(is_in_lower_bound, is_in_upper_bound)`. -/
def ofBounds (isInLowerBound isInUpperBound : Bool) : RangeCheck :=
  ⟨!isInLowerBound, !isInUpperBound⟩

def isValid (self : RangeCheck) : Bool := !self.overflow && !self.underflow

def isOverflow (self : RangeCheck) : Bool := self.overflow && !self.underflow

def isUnderflow (self : RangeCheck) : Bool := !self.overflow && self.underflow

end RangeCheck

namespace NarrowingRange

def kShift (Dst Src : IntegerType) : Nat :=
  if Src.maxExponent > Dst.maxExponent ∧ Src.digits < Dst.digits then Dst.digits - Src.digits else 0

/-- `Adjust`: clears the low `kShift` bits of the magnitude. -/
def adjust (Src : IntegerType) {Dst : IntegerType} (value : Value Dst) : Value Dst :=
  Dst.wrap (value.val - value.val.tmod (2 ^ kShift Dst Src))

def max (Dst Src : IntegerType) : Value Dst := adjust Src (Value.max Dst)

def lowest (Dst Src : IntegerType) : Value Dst := adjust Src (Value.lowest Dst)

end NarrowingRange

/-- `DstRangeRelationToSrcRange<Dst>(value)` with the five specialisations for integers of
`DstRangeRelationToSrcRangeImpl`. -/
def dstRangeRelationToSrcRange (Dst : IntegerType) (value : Value Src) : RangeCheck :=
  let lowest := NarrowingRange.lowest Dst Src
  let max := NarrowingRange.max Dst Src
  let promotion := commonType Src Dst
  if isTypeInRangeForNumericType Dst Src then
    .ofBounds
      (le lowest (staticCast Dst (Value.lowest Src)) || le lowest (staticCast Dst value))
      (le (staticCast Dst (Value.max Src)) max || le (staticCast Dst value) max)
  else match Dst.isSigned, Src.isSigned with
    | true, true => .ofBounds (le lowest value) (le value max)
    | false, false => .ofBounds (eq lowest (Dst.wrap 0) || le lowest value) (le value max)
    | true, false =>
      .ofBounds
        (le lowest (Dst.wrap 0) || le (staticCast promotion lowest) (staticCast promotion value))
        (le (staticCast promotion value) (staticCast promotion max))
    | false, true =>
      .ofBounds
        (le (Src.wrap 0) value &&
          (eq lowest (int32.wrap 0) || le lowest (staticCast Dst value)))
        (le (staticCast promotion (Value.max Src)) (staticCast promotion max) ||
          le (staticCast promotion value) (staticCast promotion max))

/-- `IsGreaterOrEqual<L, R>::Test(lhs, rhs)`. -/
def isGreaterOrEqual (lhs : Value L) (rhs : Value R) : Bool :=
  let lRange := dstRangeRelationToSrcRange R lhs
  let rRange := dstRangeRelationToSrcRange L rhs
  lRange.isOverflow || rRange.isUnderflow ||
    (lRange == rRange && le (staticCast (commonType L R) rhs) (staticCast (commonType L R) lhs))

/-- `IsLessOrEqual<L, R>::Test(lhs, rhs)`. -/
def isLessOrEqual (lhs : Value L) (rhs : Value R) : Bool :=
  let lRange := dstRangeRelationToSrcRange R lhs
  let rRange := dstRangeRelationToSrcRange L rhs
  lRange.isUnderflow || rRange.isOverflow ||
    (lRange == rRange && le (staticCast (commonType L R) lhs) (staticCast (commonType L R) rhs))

/-- `IsLess<L, R>::Test(lhs, rhs)`. -/
def isLess (lhs : Value L) (rhs : Value R) : Bool :=
  let lRange := dstRangeRelationToSrcRange R lhs
  let rRange := dstRangeRelationToSrcRange L rhs
  lRange.isUnderflow || rRange.isOverflow ||
    (lRange == rRange && lt (staticCast (commonType L R) lhs) (staticCast (commonType L R) rhs))

/-- `IsGreater<L, R>::Test(lhs, rhs)`. -/
def isGreater (lhs : Value L) (rhs : Value R) : Bool :=
  let lRange := dstRangeRelationToSrcRange R lhs
  let rRange := dstRangeRelationToSrcRange L rhs
  lRange.isOverflow || rRange.isUnderflow ||
    (lRange == rRange && lt (staticCast (commonType L R) rhs) (staticCast (commonType L R) lhs))

/-- `IsEqual<L, R>::Test(lhs, rhs)`. -/
def isEqual (lhs : Value L) (rhs : Value R) : Bool :=
  dstRangeRelationToSrcRange R lhs == dstRangeRelationToSrcRange L rhs &&
    eq (staticCast (commonType L R) lhs) (staticCast (commonType L R) rhs)

/-- `IsNotEqual<L, R>::Test(lhs, rhs)`. -/
def isNotEqual (lhs : Value L) (rhs : Value R) : Bool :=
  dstRangeRelationToSrcRange R lhs != dstRangeRelationToSrcRange L rhs ||
    !eq (staticCast (commonType L R) lhs) (staticCast (commonType L R) rhs)

/-- `IsMaxInRangeForNumericType<Dst, Src>()`. -/
def isMaxInRangeForNumericType (Dst Src : IntegerType) : Bool :=
  isGreaterOrEqual (Value.max Dst) (Value.max Src)

/-- `CommonMax<Dst, Src>()`. -/
def commonMax (Dst Src : IntegerType) : Value Dst :=
  if !isMaxInRangeForNumericType Dst Src then Value.max Dst else staticCast Dst (Value.max Src)

/-- `IsMinInRangeForNumericType<Dst, Src>()`. -/
def isMinInRangeForNumericType (Dst Src : IntegerType) : Bool :=
  isLessOrEqual (Value.lowest Dst) (Value.lowest Src)

/-- `CommonMin<Dst, Src>()`. -/
def commonMin (Dst Src : IntegerType) : Value Dst :=
  if !isMinInRangeForNumericType Dst Src then Value.lowest Dst
  else staticCast Dst (Value.lowest Src)

/-- `CommonMaxOrMin<Dst, Src>(is_min)`. -/
def commonMaxOrMin (Dst Src : IntegerType) (isMin : Bool) : Value Dst :=
  if isMin then commonMin Dst Src else commonMax Dst Src

/-- `IsValueInRangeForNumericType<Dst>(value)` with the two specialisations of
`IsValueInRangeFastOp`. -/
def isValueInRangeForNumericType (Dst : IntegerType) (value : Value Src) : Bool :=
  if Dst.isSigned ∧ Src.isSigned ∧ ¬isTypeInRangeForNumericType Dst Src then
    eq value (staticCast Dst value)
  else if ¬Dst.isSigned ∧ Src.isSigned ∧ ¬isTypeInRangeForNumericType Dst Src then
    le (staticCast Src.makeUnsigned value) (staticCast Src.makeUnsigned (commonMax Src Dst))
  else (dstRangeRelationToSrcRange Dst value).isValid

/-! ## Casts -/

def asUnsigned (value : Value Src) : Value Src.makeUnsigned := staticCast Src.makeUnsigned value

/-- `checked_cast<Dst>(value)`; no result where the check fails and ends the program. -/
def checkedCast (Dst : IntegerType) (value : Value Src) : Option (Value Dst) :=
  if isValueInRangeForNumericType Dst value then some (staticCast Dst value) else none

/-- `SaturateFastOp<Dst, Src>::Do(value)`. -/
def saturateFastOp (Dst : IntegerType) (value : Value Src) : Value Dst :=
  let saturated := commonMaxOrMin Dst Src (isMaxInRangeForNumericType Dst Src ||
    (!isMinInRangeForNumericType Dst Src && isValueNegative value))
  if isValueInRangeForNumericType Dst value then staticCast Dst value else saturated

/-- `saturated_cast_impl<Dst>(value, constraint)` with the default limits of an integer type. -/
def saturatedCastImpl (Dst : IntegerType) (value : Value Src) (constraint : RangeCheck) :
    Value Dst :=
  if !constraint.overflow then
    if !constraint.underflow then staticCast Dst value else Value.lowest Dst
  else Value.max Dst

/-- `saturated_cast<Dst>(value)`. -/
def saturatedCast (isConstantEvaluated : Bool) (Dst : IntegerType) (value : Value Src) :
    Value Dst :=
  if !isConstantEvaluated then saturateFastOp Dst value
  else saturatedCastImpl Dst value (dstRangeRelationToSrcRange Dst value)

/-! ## Promotions -/

/-- `TwiceWiderInteger<Integer, IsSigned>`; there is none for 64 bits, and no template asks for
it. -/
def twiceWiderInteger : IntegerType → Bool → IntegerType
  | int8, true | uint8, true => int16
  | int8, false | uint8, false => uint16
  | int16, true | uint16, true => int32
  | int16, false | uint16, false => uint32
  | int32, true | uint32, true | int64, true | uint64, true => int64
  | int32, false | uint32, false | int64, false | uint64, false => uint64

def maxExponentPromotion (Lhs Rhs : IntegerType) : IntegerType :=
  if Lhs.maxExponent > Rhs.maxExponent then Lhs else Rhs

def lowestValuePromotion (Lhs Rhs : IntegerType) : IntegerType :=
  match Lhs.isSigned, Rhs.isSigned with
  | true, true => if Lhs.maxExponent > Rhs.maxExponent then Lhs else Rhs
  | true, false => Lhs
  | false, true => Rhs
  | false, false => if Lhs.maxExponent < Rhs.maxExponent then Lhs else Rhs

def bigEnoughPromotion (Lhs Rhs : IntegerType) : IntegerType :=
  let side := maxExponentPromotion Lhs Rhs
  let isIntmaxType := side.integerBitsPlusSign = int64.integerBitsPlusSign
  let isMaxExponent := isTypeInRangeForNumericType side Lhs ∧ isTypeInRangeForNumericType side Rhs
  -- the side with the max exponent is big enough; else a twice wider type; else no type is
  if isMaxExponent then side
  else if ¬isIntmaxType then twiceWiderInteger side (Lhs.isSigned || Rhs.isSigned)
  else side

/-- `BigEnoughPromotion<Lhs, Rhs>::is_contained`. -/
def bigEnoughPromotionIsContained (Lhs Rhs : IntegerType) : Bool :=
  let side := maxExponentPromotion Lhs Rhs
  (isTypeInRangeForNumericType side Lhs && isTypeInRangeForNumericType side Rhs) ||
    decide (side.integerBitsPlusSign ≠ int64.integerBitsPlusSign)

/-- The templates that `SafeCompare` takes. -/
inductive Comparison
  | isLess
  | isLessOrEqual
  | isGreater
  | isGreaterOrEqual
  | isEqual
  | isNotEqual
  deriving DecidableEq, Repr

/-- `C<L, R>::Test(lhs, rhs)`. -/
def Comparison.test (C : Comparison) (lhs : Value L) (rhs : Value R) : Bool :=
  match C with
  | isLess => Numerics.isLess lhs rhs
  | isLessOrEqual => Numerics.isLessOrEqual lhs rhs
  | isGreater => Numerics.isGreater lhs rhs
  | isGreaterOrEqual => Numerics.isGreaterOrEqual lhs rhs
  | isEqual => Numerics.isEqual lhs rhs
  | isNotEqual => Numerics.isNotEqual lhs rhs

/-- `SafeCompare<C, L, R>(lhs, rhs)`, the comparison operators of `StrictNumeric`. -/
def safeCompare (C : Comparison) (lhs : Value L) (rhs : Value R) : Bool :=
  let BigType := bigEnoughPromotion L R
  if bigEnoughPromotionIsContained L R then
    C.test (staticCast BigType lhs) (staticCast BigType rhs)
  else C.test lhs rhs

def isIntegerArithmeticSafe (T Lhs Rhs : IntegerType) : Bool :=
  decide (Lhs.isSigned ≤ T.isSigned ∧ 2 * Lhs.integerBitsPlusSign ≤ T.integerBitsPlusSign ∧
    Rhs.isSigned ≤ T.isSigned ∧ 2 * Rhs.integerBitsPlusSign ≤ T.integerBitsPlusSign)

def fastIntegerArithmeticPromotion (Lhs Rhs : IntegerType) : IntegerType :=
  let intmax := if Lhs.isSigned || Rhs.isSigned then int64 else uint64
  let side := maxExponentPromotion Lhs Rhs
  if isIntegerArithmeticSafe intmax side side then
    twiceWiderInteger side (Lhs.isSigned || Rhs.isSigned)
  else bigEnoughPromotion Lhs Rhs

end Sparo.Base.Numerics
