import Sparo.Base.Numerics.SafeConversions

/-!
# Checked arithmetic

The operations on integers of `src/base/numerics/checked_math_impl.h`, with the fast paths of
`safe_math_clang_gcc_impl.h` and without them. An operation is `none` where the language leaves the
behaviour undefined, `some none` where `Do` returns false, and `some (some r)` where it stores `r`
and returns true. No configuration of the build has `safe_math_arm_impl.h`.
-/

namespace Sparo.Base.Numerics

open IntegerType

/-- The compilers that `safe_math_shared_impl.h` and `safe_math_clang_gcc_impl.h` tell apart. -/
inductive Compiler
  | clang
  | gcc
  | other
  deriving DecidableEq, Repr

variable {T U P : IntegerType}

/-- `!__builtin_*_overflow(x, y, result)` for the exact result of the operation. -/
def builtinOverflow (V : IntegerType) (exact : Int) : Option (Value V) :=
  if (V.wrap exact).val = exact then some (V.wrap exact) else none

/-- `CheckedAddFastOp::is_supported` and `CheckedSubFastOp::is_supported`. -/
def checkedAddSubFastOpIsSupported : Compiler → Bool
  | .clang | .gcc => true
  | .other => false

/-- `CheckedMulFastOp<T, U>::is_supported`. -/
def checkedMulFastOpIsSupported (T U : IntegerType) : Compiler → Bool
  | .clang =>
    (isTypeInRangeForNumericType int64 T && isTypeInRangeForNumericType int64 U) ||
      (isTypeInRangeForNumericType uint64 T && isTypeInRangeForNumericType uint64 U)
  | .gcc => true
  | .other => false

/-- `if (!IsValueInRangeForNumericType<V>(presult)) return false; *result = presult`. -/
def storeInRange (V : IntegerType) (presult : Value P) : Option (Value V) :=
  if isValueInRangeForNumericType V presult then some (staticCast V presult) else none

/-! ## Addition and subtraction -/

def checkedAddImpl (x y : Value T) : Option (Option (Value T)) :=
  let ux := staticCast T.makeUnsigned x
  let uy := staticCast T.makeUnsigned y
  (arithmetic (· + ·) ux uy).map fun sum =>
    let uresult := staticCast T.makeUnsigned sum
    let isInvalid :=
      if T.isSigned then
        lt (staticCast T.makeSigned
          (bitwise (· &&& ·) (bitwise (· ^^^ ·) uresult ux) (bitwise (· ^^^ ·) uresult uy)))
          (int32.wrap 0)
      else lt uresult uy
    if isInvalid then none else some (staticCast T uresult)

def checkedSubImpl (x y : Value T) : Option (Option (Value T)) :=
  let ux := staticCast T.makeUnsigned x
  let uy := staticCast T.makeUnsigned y
  (arithmetic (· - ·) ux uy).map fun difference =>
    let uresult := staticCast T.makeUnsigned difference
    let isInvalid :=
      if T.isSigned then
        lt (staticCast T.makeSigned
          (bitwise (· &&& ·) (bitwise (· ^^^ ·) uresult ux) (bitwise (· ^^^ ·) ux uy)))
          (int32.wrap 0)
      else lt x y
    if isInvalid then none else some (staticCast T uresult)

/-- The portable part of `CheckedAddOp::Do` and `CheckedSubOp::Do`, which differ in the operator and
in the function for a promoted type that is not wide enough. -/
def checkedAddSubPortable (op : Int → Int → Int)
    (impl : {P : IntegerType} → Value P → Value P → Option (Option (Value P))) (V : IntegerType)
    (x : Value T) (y : Value U) : Option (Option (Value V)) :=
  let FastPromotion := fastIntegerArithmeticPromotion T U
  let Promotion :=
    if FastPromotion.integerBitsPlusSign > int64.integerBitsPlusSign then bigEnoughPromotion T U
    else FastPromotion
  if !isValueInRangeForNumericType Promotion x || !isValueInRangeForNumericType Promotion y then
    some none
  else if isIntegerArithmeticSafe Promotion T U then
    (arithmetic op (staticCast Promotion x) (staticCast Promotion y)).map fun presult =>
      storeInRange V (staticCast Promotion presult)
  else
    (impl (staticCast Promotion x) (staticCast Promotion y)).map fun presult =>
      presult.bind (storeInRange V)

/-- `CheckedAddOp<T, U>::Do<V>`. -/
def checkedAddOp (compiler : Compiler) (V : IntegerType) (x : Value T) (y : Value U) :
    Option (Option (Value V)) :=
  if checkedAddSubFastOpIsSupported compiler then some (builtinOverflow V (x.val + y.val))
  else checkedAddSubPortable (· + ·) checkedAddImpl V x y

/-- `CheckedSubOp<T, U>::Do<V>`. -/
def checkedSubOp (compiler : Compiler) (V : IntegerType) (x : Value T) (y : Value U) :
    Option (Option (Value V)) :=
  if checkedAddSubFastOpIsSupported compiler then some (builtinOverflow V (x.val - y.val))
  else checkedAddSubPortable (· - ·) checkedSubImpl V x y

/-! ## Multiplication -/

/-- `uy > UnsignedDst(!is_signed || is_negative) && ux > (max() + UnsignedDst(is_negative)) / uy`;
the division is evaluated for a second operand above the identity only. -/
def isMulOverflow (T : IntegerType) (ux uy : Value T.makeUnsigned) (isNegative : Bool) :
    Option Bool :=
  if lt (T.makeUnsigned.wrap (!T.isSigned || isNegative).toNat) uy then
    (arithmetic (· + ·) (Value.max T) (T.makeUnsigned.wrap isNegative.toNat)).bind fun limit =>
      (divide limit uy).map fun quotient => lt quotient ux
  else some false

def checkedMulImpl (x y : Value T) : Option (Option (Value T)) :=
  let ux := safeUnsignedAbs x
  let uy := safeUnsignedAbs y
  (arithmetic (· * ·) ux uy).bind fun product =>
    let uresult := staticCast T.makeUnsigned product
    let isNegative :=
      T.isSigned && lt (staticCast T.makeSigned (bitwise (· ^^^ ·) x y)) (int32.wrap 0)
    (isMulOverflow T ux uy isNegative).bind fun isOverflow =>
      if isOverflow then some none
      else if isNegative then
        (arithmetic (· - ·) (int32.wrap 0) uresult).map fun r => some (staticCast T r)
      else some (some (staticCast T uresult))

/-- `CheckedMulOp<T, U>::Do<V>`. -/
def checkedMulOp (compiler : Compiler) (V : IntegerType) (x : Value T) (y : Value U) :
    Option (Option (Value V)) :=
  let Promotion := fastIntegerArithmeticPromotion T U
  if checkedMulFastOpIsSupported T U compiler then some (builtinOverflow V (x.val * y.val))
  else if (!isValueInRangeForNumericType Promotion x ||
      !isValueInRangeForNumericType Promotion y) && (x.val ≠ 0 && y.val ≠ 0) then
    some none
  else if checkedMulFastOpIsSupported Promotion Promotion compiler then
    let px := staticCast Promotion x
    let py := staticCast Promotion y
    some ((builtinOverflow Promotion (px.val * py.val)).bind (storeInRange V))
  else if isIntegerArithmeticSafe Promotion T U then
    (arithmetic (· * ·) (staticCast Promotion x) (staticCast Promotion y)).map fun presult =>
      storeInRange V (staticCast Promotion presult)
  else
    (checkedMulImpl (staticCast Promotion x) (staticCast Promotion y)).map fun presult =>
      presult.bind (storeInRange V)

/-! ## Division and remainder -/

/-- The lowest value of the promoted type is divided by -1. -/
def isInvalidNegation (x : Value T) (y : Value U) : Bool :=
  let Promotion := bigEnoughPromotion T U
  T.isSigned && U.isSigned && isTypeInRangeForNumericType T Promotion &&
    eq (staticCast Promotion x) (Value.lowest Promotion) && eq y (staticCast U (int32.wrap (-1)))

/-- `CheckedDivOp<T, U>::Do<V>`. -/
def checkedDivOp (V : IntegerType) (x : Value T) (y : Value U) : Option (Option (Value V)) :=
  let Promotion := bigEnoughPromotion T U
  if y.val = 0 then some none
  else if isInvalidNegation x y then some none
  else if (!isValueInRangeForNumericType Promotion x ||
      !isValueInRangeForNumericType Promotion y) && x.val ≠ 0 then
    some none
  else (divide (staticCast Promotion x) (staticCast Promotion y)).map fun presult =>
    storeInRange V (staticCast Promotion presult)

/-- `CheckedModOp<T, U>::Do<V>`. -/
def checkedModOp (V : IntegerType) (x : Value T) (y : Value U) : Option (Option (Value V)) :=
  let Promotion := bigEnoughPromotion T U
  if y.val = 0 then some none
  else if isInvalidNegation x y then some (some (staticCast V (int32.wrap 0)))
  else (modulo (staticCast Promotion x) (staticCast Promotion y)).map fun presult =>
    storeInRange V (staticCast Promotion presult)

inductive CheckedOp
  | add
  | sub
  | mul
  | div
  | mod
  deriving DecidableEq, Repr

/-- `Do` of the operation. -/
def CheckedOp.run (op : CheckedOp) (compiler : Compiler) (V : IntegerType) (x : Value T)
    (y : Value U) : Option (Option (Value V)) :=
  match op with
  | add => checkedAddOp compiler V x y
  | sub => checkedSubOp compiler V x y
  | mul => checkedMulOp compiler V x y
  | div => checkedDivOp V x y
  | mod => checkedModOp V x y

/-! ## Shifts, bitwise operations, maximum and minimum -/

/-- What `Do(x, y, &result)` returns, and what `result` holds then. It held 0 before. -/
structure Outcome (V : IntegerType) where
  success : Bool
  result : Value V
  deriving DecidableEq, Repr

/-- `if (!IsValueInRangeForNumericType<V>(tmp)) return false; *result = tmp; return true`. -/
def outcomeInRange (V : IntegerType) (tmp : Value P) : Outcome V :=
  match storeInRange V tmp with
  | some result => ⟨true, result⟩
  | none => ⟨false, V.wrap 0⟩

/-- `CheckedLshOp<T, U>::Do<V>`. -/
def checkedLshOp (V : IntegerType) (x : Value T) (shift : Value U) : Option (Outcome V) :=
  let digits := int32.wrap T.digits
  if !isValueNegative x && lt (asUnsigned shift) (asUnsigned digits) then
    (shiftLeft (asUnsigned x) shift).bind fun shifted =>
      let result := staticCast V shifted
      -- a shift that can be reversed was valid
      (shiftRight result shift).map fun reversed => ⟨eq reversed x, result⟩
  else if !T.isSigned || x.val ≠ 0 || !eq (asUnsigned shift) (asUnsigned digits) then
    some ⟨false, V.wrap 0⟩
  else some ⟨true, V.wrap 0⟩

/-- `CheckedRshOp<T, U>::Do<V>`. -/
def checkedRshOp (V : IntegerType) (x : Value T) (shift : Value U) : Option (Outcome V) :=
  if le (int32.wrap T.integerBitsPlusSign) (asUnsigned shift) then some ⟨false, V.wrap 0⟩
  else (shiftRight x shift).map fun tmp => outcomeInRange V (staticCast T tmp)

/-- `result_type` of `CheckedAndOp`, `CheckedOrOp` and `CheckedXorOp`. -/
def bitwiseResultType (T U : IntegerType) : IntegerType := (maxExponentPromotion T U).makeUnsigned

/-- `Do<V>` of the three templates, which differ in the operator. -/
def checkedBitwiseOp (op : {w : Nat} → BitVec w → BitVec w → BitVec w) (V : IntegerType)
    (x : Value T) (y : Value U) : Outcome V :=
  let resultType := bitwiseResultType T U
  outcomeInRange V
    (staticCast resultType (bitwise op (staticCast resultType x) (staticCast resultType y)))

/-- `CheckedAndOp<T, U>::Do<V>`. -/
def checkedAndOp (V : IntegerType) (x : Value T) (y : Value U) : Outcome V :=
  checkedBitwiseOp (· &&& ·) V x y

/-- `CheckedOrOp<T, U>::Do<V>`. -/
def checkedOrOp (V : IntegerType) (x : Value T) (y : Value U) : Outcome V :=
  checkedBitwiseOp (· ||| ·) V x y

/-- `CheckedXorOp<T, U>::Do<V>`. -/
def checkedXorOp (V : IntegerType) (x : Value T) (y : Value U) : Outcome V :=
  checkedBitwiseOp (· ^^^ ·) V x y

/-- `CheckedMaxOp<T, U>::Do<V>`. -/
def checkedMaxOp (V : IntegerType) (x : Value T) (y : Value U) : Outcome V :=
  let resultType := maxExponentPromotion T U
  outcomeInRange V (if isGreater x y then staticCast resultType x else staticCast resultType y)

/-- `CheckedMinOp<T, U>::Do<V>`. -/
def checkedMinOp (V : IntegerType) (x : Value T) (y : Value U) : Outcome V :=
  let resultType := lowestValuePromotion T U
  outcomeInRange V (if isLess x y then staticCast resultType x else staticCast resultType y)

end Sparo.Base.Numerics
