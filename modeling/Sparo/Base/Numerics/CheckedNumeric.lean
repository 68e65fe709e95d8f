import Sparo.Base.Numerics.CheckedMath

/-!
# Checked numbers

`CheckedNumeric` of `src/base/numerics/checked_math.h` for the integer types: a number that carries
whether the operations it comes from were valid. An expression over such numbers is what a caller
writes with the operators, the `Check*` functions and the accessors. As in `CheckedMath`, a result
is `none` where the language leaves the behaviour undefined.
-/

namespace Sparo.Base.Numerics

open IntegerType

variable {T U V L R Src : IntegerType}

/-! ## Operators -/

/-- What `result` holds after a `Do` that returned false: a builtin stores the wrapped number all
the same, and the other paths store nothing. -/
def CheckedOp.rejected (op : CheckedOp) (compiler : Compiler) (V : IntegerType) (x : Value T)
    (y : Value U) : Value V :=
  match op with
  | add => if checkedAddSubFastOpIsSupported compiler then V.wrap (x.val + y.val) else V.wrap 0
  | sub => if checkedAddSubFastOpIsSupported compiler then V.wrap (x.val - y.val) else V.wrap 0
  | mul => if checkedMulFastOpIsSupported T U compiler then V.wrap (x.val * y.val) else V.wrap 0
  | div | mod => V.wrap 0

/-- The templates that `MathOp` takes. -/
inductive MathOp
  | checked (op : CheckedOp)
  | lsh
  | rsh
  | and
  | or
  | xor
  | max
  | min
  deriving DecidableEq, Repr

namespace MathOp

/-- `result_type`. -/
def resultType (op : MathOp) (T U : IntegerType) : IntegerType :=
  match op with
  | checked _ | max => maxExponentPromotion T U
  | lsh | rsh => T
  | and | or | xor => bitwiseResultType T U
  | min => lowestValuePromotion T U

/-- `Do<V>(x, y, &result)`. -/
def run (op : MathOp) (compiler : Compiler) (V : IntegerType) (x : Value T) (y : Value U) :
    Option (Outcome V) :=
  match op with
  | checked op =>
    (op.run compiler V x y).map fun
      | some result => ⟨true, result⟩
      | none => ⟨false, op.rejected compiler V x y⟩
  | lsh => checkedLshOp V x y
  | rsh => checkedRshOp V x y
  | and => some (checkedAndOp V x y)
  | or => some (checkedOrOp V x y)
  | xor => some (checkedXorOp V x y)
  | max => some (checkedMaxOp V x y)
  | min => some (checkedMinOp V x y)

end MathOp

/-- `NegateWrapper`. -/
def negateWrapper (value : Value T) : Option (Value T) :=
  (arithmetic (· - ·) (T.makeUnsigned.wrap 0) (staticCast T.makeUnsigned value)).map (staticCast T)

/-- `InvertWrapper`: `~value` of the promoted operand. -/
def invertWrapper (value : Value T) : Value T.makeUnsigned :=
  staticCast T.makeUnsigned (T.promote.wrap (-(staticCast T.promote value).val - 1))

/-! ## The class -/

/-- `CheckedNumericState<T, NUMERIC_INTEGER>`, the only member of `CheckedNumeric<T>`. -/
structure CheckedNumeric (T : IntegerType) where
  isValid : Bool
  value : Value T
  deriving DecidableEq, Repr

namespace CheckedNumeric

/-- `CheckedNumericState<T>(value, is_valid)`. An integer that is not valid is converted, too. -/
def ofState (T : IntegerType) (value : Value Src) (isValid : Bool) : CheckedNumeric T :=
  ⟨isValid && isValueInRangeForNumericType T value, staticCast T value⟩

/-- `IsValid<Dst>()`. -/
def isValidFor (Dst : IntegerType) (self : CheckedNumeric T) : Bool :=
  self.isValid && isValueInRangeForNumericType Dst self.value

/-- `AssignIfValid(&result)`, with what it assigns. -/
def assignIfValid (Dst : IntegerType) (self : CheckedNumeric T) : Option (Value Dst) :=
  if self.isValidFor Dst then some (staticCast Dst self.value) else none

/-- `ValueOrDie<Dst>()`; no result where the check fails and ends the program. -/
def valueOrDie (Dst : IntegerType) (self : CheckedNumeric T) : Option (Value Dst) :=
  if self.isValidFor Dst then some (staticCast Dst self.value) else none

/-- `ValueOrDefault<Dst>(default_value)`; no result where the default is used and its check
fails. -/
def valueOrDefault (Dst : IntegerType) (self : CheckedNumeric T) (defaultValue : Value Src) :
    Option (Value Dst) :=
  if self.isValidFor Dst then some (staticCast Dst self.value) else checkedCast Dst defaultValue

/-- `CheckedNumeric<Dst>(rhs)` and `Cast<Dst>()`. -/
def cast (Dst : IntegerType) (rhs : CheckedNumeric Src) : CheckedNumeric Dst :=
  ofState Dst rhs.value (rhs.isValidFor Src)

/-- `operator-()`. -/
def negate (self : CheckedNumeric T) : Option (CheckedNumeric T) :=
  (negateWrapper self.value).map fun negated =>
    ofState T negated (self.isValidFor T && (!T.isSigned || !eq negated (Value.lowest T)))

/-- `operator~()`; the unsigned result is converted back to `T`. -/
def invert (self : CheckedNumeric T) : CheckedNumeric T :=
  cast T (ofState T.makeUnsigned (invertWrapper self.value) (self.isValidFor T))

def abs (self : CheckedNumeric T) : Option (CheckedNumeric T) :=
  if !isValueNegative self.value then some self else self.negate

def unsignedAbs (self : CheckedNumeric T) : CheckedNumeric T.makeUnsigned :=
  ofState T.makeUnsigned (safeUnsignedAbs self.value) self.isValid

/-- `CheckMathOp<M>(lhs, rhs)`, which is `CheckedNumeric<result_type>::MathOp<M>(lhs, rhs)`. -/
def mathOp (op : MathOp) (compiler : Compiler) (lhs : CheckedNumeric L) (rhs : CheckedNumeric R) :
    Option (CheckedNumeric (op.resultType L R)) :=
  if lhs.isValidFor L && rhs.isValidFor R then
    (op.run compiler (op.resultType L R) lhs.value rhs.value).map fun outcome =>
      ofState (op.resultType L R) outcome.result outcome.success
  else some (ofState (op.resultType L R) ((op.resultType L R).wrap 0) false)

/-- `MathOp<M>(rhs)` of the assignment operators: the result has the type of the left operand. -/
def mathOpAssign (op : MathOp) (compiler : Compiler) (self : CheckedNumeric T)
    (rhs : CheckedNumeric R) : Option (CheckedNumeric T) :=
  if self.isValid && rhs.isValidFor R then
    (op.run compiler T self.value rhs.value).map fun outcome =>
      ofState T outcome.result outcome.success
  else some (ofState T (T.wrap 0) false)

end CheckedNumeric

/-! ## Expressions -/

/-- An expression whose value is a `CheckedNumeric<T>`. A plain operand is upgraded to one. -/
inductive Expr : IntegerType → Type
  | value {T : IntegerType} (x : Value T) : Expr T
  | cast {T : IntegerType} (Dst : IntegerType) (e : Expr T) : Expr Dst
  | negate {T : IntegerType} (e : Expr T) : Expr T
  | invert {T : IntegerType} (e : Expr T) : Expr T
  | abs {T : IntegerType} (e : Expr T) : Expr T
  | unsignedAbs {T : IntegerType} (e : Expr T) : Expr T.makeUnsigned
  | mathOp {T U : IntegerType} (op : MathOp) (lhs : Expr T) (rhs : Expr U) :
      Expr (op.resultType T U)
  | mathOpAssign {T U : IntegerType} (op : MathOp) (lhs : Expr T) (rhs : Expr U) : Expr T

namespace Expr

def eval (compiler : Compiler) : {T : IntegerType} → Expr T → Option (CheckedNumeric T)
  | T, value x => some (.ofState T x true)
  | _, cast Dst e => (e.eval compiler).map (CheckedNumeric.cast Dst)
  | _, negate e => (e.eval compiler).bind CheckedNumeric.negate
  | _, invert e => (e.eval compiler).map CheckedNumeric.invert
  | _, abs e => (e.eval compiler).bind CheckedNumeric.abs
  | _, unsignedAbs e => (e.eval compiler).map CheckedNumeric.unsignedAbs
  | _, mathOp op lhs rhs =>
    (lhs.eval compiler).bind fun l => (rhs.eval compiler).bind (CheckedNumeric.mathOp op compiler l)
  | _, mathOpAssign op lhs rhs =>
    (lhs.eval compiler).bind fun l =>
      (rhs.eval compiler).bind (CheckedNumeric.mathOpAssign op compiler l)

/-- `++e` and `--e`: `*this += 1` and `*this -= 1`. -/
def increment (e : Expr T) : Expr T := mathOpAssign (.checked .add) e (value (int32.wrap 1))

def decrement (e : Expr T) : Expr T := mathOpAssign (.checked .sub) e (value (int32.wrap 1))

end Expr

/-! ## Pointers -/

/-- `lhs + rhs` and `lhs - rhs` for a pointer to objects of the given size and a `StrictNumeric<R>`;
the inner result is missing where `ValueOrDie` ends the program. -/
def pointerOp (op : CheckedOp) (compiler : Compiler) (lhs size : Value uint64) (rhs : Value R) :
    Option (Option (Value uint64)) :=
  let offset := Expr.mathOp (.checked .mul) (.value size) (.value rhs)
  ((Expr.mathOp (.checked op) (.value lhs) offset).eval compiler).map
    (CheckedNumeric.valueOrDie uint64)

def pointerAdd (compiler : Compiler) (lhs size : Value uint64) (rhs : Value R) :
    Option (Option (Value uint64)) :=
  pointerOp .add compiler lhs size rhs

def pointerSub (compiler : Compiler) (lhs size : Value uint64) (rhs : Value R) :
    Option (Option (Value uint64)) :=
  pointerOp .sub compiler lhs size rhs

end Sparo.Base.Numerics
