import Sparo.Base.Numerics.Proofs.CheckedMathComplete

/-!
# Checked expressions compute on integers

An expression over checked numbers against integer arithmetic that fails where a result does not
fit its type. What the accessors give out is the exact number; with the overflow builtins an
expression is invalid only if the arithmetic fails.
-/

namespace Sparo.Base.Numerics

open IntegerType

variable {T U V L R Src Dst : IntegerType} {compiler : Compiler}

namespace CheckedNumeric

/-- The number, if it is valid. -/
def toInt? (self : CheckedNumeric T) : Option Int :=
  if self.isValid then some self.value.val else none

/-! ## The state -/

theorem ofState_toInt? (value : Value Src) (isValid : Bool) :
    (ofState T value isValid).toInt? = if isValid then inRange T (some value.val) else none := by
  have hiff := isValueInRangeForNumericType_iff T value
  cases isValid with
  | false => rfl
  | true =>
    by_cases h : T.Represents value.val
    · rw [if_pos rfl, inRange_some_of h]
      simp only [ofState, toInt?, hiff.mpr h, Bool.and_self, if_true, staticCast_val h]
    · rw [if_pos rfl, inRange_some_of_not h]
      simp [ofState, toInt?, mt hiff.mp h]

/-- A state of the type of its value is as valid as it is told to be. -/
theorem ofState_self (value : Value T) (isValid : Bool) :
    ofState T value isValid = ⟨isValid, value⟩ := by
  have hrange := (isValueInRangeForNumericType_iff T value).mpr value.represents
  have hcast : staticCast T value = value := by
    ext
    exact staticCast_val value.represents
  rw [ofState, hrange, Bool.and_true, hcast]

@[simp]
theorem isValidFor_self (self : CheckedNumeric T) : self.isValidFor T = self.isValid := by
  rw [isValidFor, (isValueInRangeForNumericType_iff T _).mpr self.value.represents, Bool.and_true]

theorem assignIfValid_val (Dst : IntegerType) (self : CheckedNumeric T) :
    (self.assignIfValid Dst).map Value.val = inRange Dst self.toInt? := by
  have hiff := isValueInRangeForNumericType_iff Dst self.value
  unfold assignIfValid isValidFor toInt?
  cases self.isValid with
  | false => rfl
  | true =>
    by_cases h : Dst.Represents self.value.val
    · simp only [hiff.mpr h, Bool.and_self, if_true, Option.map_some, staticCast_val h,
        inRange_some_of h]
    · rw [if_pos rfl, inRange_some_of_not h, Bool.true_and, if_neg (mt hiff.mp h)]
      rfl

theorem cast_toInt? (rhs : CheckedNumeric Src) :
    (cast Dst rhs).toInt? = inRange Dst rhs.toInt? := by
  rw [cast, ofState_toInt?, isValidFor_self, toInt?]
  cases rhs.isValid <;> rfl

/-! ## Unary operators -/

theorem bits_makeUnsigned (T : IntegerType) :
    T.makeUnsigned.integerBitsPlusSign = T.integerBitsPlusSign := by
  cases T <;> rfl

/-- The difference in the unsigned type is exact in an `int`, or it wraps. -/
theorem makeUnsigned_common (T : IntegerType) :
    commonType T.makeUnsigned T.makeUnsigned = T.makeUnsigned ∨
      (commonType T.makeUnsigned T.makeUnsigned).lowest ≤ -T.makeUnsigned.max := by
  cases T <;> decide

/-- The negation modulo the number of values. -/
theorem negateWrapper_eq (value : Value T) : negateWrapper value = some (T.wrap (-value.val)) := by
  have hzero : (T.makeUnsigned.wrap 0).val = 0 := wrap_val (represents_zero _)
  have hbits := bits_makeUnsigned T
  have hlowest := lowest_of_unsigned (makeUnsigned_isSigned T)
  have hrange := (staticCast T.makeUnsigned value).represents
  have hfits : (commonType T.makeUnsigned T.makeUnsigned).Represents
        ((T.makeUnsigned.wrap 0).val - (staticCast T.makeUnsigned value).val) ∨
      T.makeUnsigned.isSigned = false ∧
        commonType T.makeUnsigned T.makeUnsigned = T.makeUnsigned := by
    rcases makeUnsigned_common T with hself | hcommon
    · exact .inr ⟨makeUnsigned_isSigned T, hself⟩
    · have hpos := (commonType T.makeUnsigned T.makeUnsigned).max_pos
      unfold Represents at *
      exact .inl (by omega)
  obtain ⟨r, hr, hcast⟩ := arithmetic_promoted _ _ hfits
  rw [negateWrapper, hr, Option.map_some, Option.some_inj, staticCast, ← wrap_wrap hbits.ge]
  rw [staticCast] at hcast
  rw [hcast, wrap_wrap hbits.ge]
  apply wrap_congr
  rw [hzero, Int.sub_emod, staticCast, wrap_val_emod hbits.ge, ← Int.sub_emod, Int.zero_sub]

/-- The negation of a signed number is the lowest one only where it does not fit. -/
theorem negated_eq_lowest_iff (hT : T.isSigned = true) (value : Value T) :
    eq (T.wrap (-value.val)) (Value.lowest T) = true ↔ ¬T.Represents (-value.val) := by
  have hlowest := lowest_of_signed hT
  have hlow := value.lowest_le
  have hhigh := value.le_max
  rw [eq_iff (.of_sameSign rfl), Value.lowest_val]
  by_cases h : T.Represents (-value.val)
  · rw [wrap_val h]
    unfold Represents at h
    unfold Represents
    omega
  · have hmin : -value.val = T.lowest + 2 ^ T.integerBitsPlusSign := by
      have hmax := T.max_eq
      unfold Represents at h
      omega
    refine iff_of_true ?_ h
    rw [hmin, wrap_congr (Int.add_emod_right _ _), wrap_val T.represents_lowest]

theorem negate_toInt? (hT : T.isSigned = true) (self : CheckedNumeric T) :
    ∃ negated, self.negate = some negated ∧
      negated.toInt? = inRange T (self.toInt?.map (-·)) := by
  have hiff := negated_eq_lowest_iff hT self.value
  refine ⟨_, by rw [negate, negateWrapper_eq]; rfl, ?_⟩
  dsimp only
  rw [ofState_self, isValidFor_self, hT]
  simp only [toInt?, Bool.not_true, Bool.false_or, Bool.and_eq_true, Bool.not_eq_true',
    ← Bool.not_eq_true, hiff, not_not]
  cases self.isValid with
  | false => rfl
  | true =>
    by_cases h : T.Represents (-self.value.val)
    · simp only [h, and_self, if_true, Option.map_some, inRange_some_of h, wrap_val h]
    · simp only [h, and_false, if_false, if_true, Option.map_some, inRange_some_of_not h]

theorem invert_toInt? (self : CheckedNumeric T) :
    self.invert.toInt? =
      inRange T (self.toInt?.map fun x => (T.makeUnsigned.wrap (-x - 1)).val) := by
  have hpromote := staticCast_val
    (self.value.represents.of_isTypeInRange (commonType_promote T).2)
  have hbits : T.makeUnsigned.integerBitsPlusSign ≤ T.promote.integerBitsPlusSign := by
    rw [bits_makeUnsigned]
    exact (bits_le_promote T).1
  rw [invert, cast_toInt?, ofState_self, isValidFor_self, invertWrapper, hpromote, staticCast,
    wrap_wrap hbits, toInt?, toInt?]
  cases self.isValid <;> rfl

theorem abs_toInt? (self : CheckedNumeric T) :
    ∃ absolute, self.abs = some absolute ∧
      absolute.toInt? = inRange T (self.toInt?.map fun x => (x.natAbs : Int)) := by
  unfold abs
  by_cases hneg : isValueNegative self.value = true
  · have hT : T.isSigned = true := (Bool.and_eq_true_iff.mp hneg).1
    obtain ⟨negated, hnegated, hval⟩ := negate_toInt? hT self
    rw [isValueNegative_iff] at hneg
    have habs : (self.value.val.natAbs : Int) = -self.value.val := by omega
    refine ⟨negated, ?_, ?_⟩
    · rw [if_neg (by simpa [isValueNegative_iff] using hneg), hnegated]
    · rw [hval, toInt?]
      cases self.isValid with
      | false => rfl
      | true => simp only [if_true, Option.map_some, habs]
  · have habs : (self.value.val.natAbs : Int) = self.value.val := by
      rw [isValueNegative_iff] at hneg
      omega
    refine ⟨self, if_pos (by simpa using hneg), ?_⟩
    rw [toInt?]
    cases self.isValid with
    | false => rfl
    | true => simp only [if_true, Option.map_some, habs, inRange_some_of self.value.represents]

/-- The absolute value fits the unsigned type, that of the lowest number included. -/
theorem safeUnsignedAbs_val_natAbs (value : Value T) :
    (safeUnsignedAbs value).val = value.val.natAbs := by
  have hlow := value.lowest_le
  have hhigh := value.le_max
  unfold safeUnsignedAbs
  split_ifs with hneg
  · have hT : T.isSigned = true := (Bool.and_eq_true_iff.mp hneg).1
    obtain ⟨hunsigned, hmax, -, hlowest⟩ := makeUnsigned_of_signed hT
    have habs : (value.val.natAbs : Int) = 0 - value.val := by
      rw [isValueNegative_iff] at hneg
      omega
    have hwrap : T.makeUnsigned.wrap (0 - (staticCast T.makeUnsigned value).val) =
        T.makeUnsigned.wrap (0 - value.val) := by
      apply wrap_congr
      rw [Int.sub_emod, staticCast, wrap_val_emod (Nat.le_refl _), ← Int.sub_emod]
    rw [hwrap, ← habs, wrap_val (represents_of_nonneg (by omega) (by omega))]
  · rw [isValueNegative_iff] at hneg
    have hval := asUnsigned_val_of_nonneg (Int.not_lt.mp hneg)
    rw [asUnsigned] at hval
    rw [hval]
    omega

theorem unsignedAbs_toInt? (self : CheckedNumeric T) :
    self.unsignedAbs.toInt? = self.toInt?.map fun x => (x.natAbs : Int) := by
  rw [unsignedAbs, ofState_self, toInt?, toInt?, safeUnsignedAbs_val_natAbs]
  cases self.isValid <;> rfl

/-! ## Binary operators -/

/-- An operation into a destination type of its own. -/
def runTo (op : MathOp) (compiler : Compiler) (V : IntegerType) (lhs : CheckedNumeric L)
    (rhs : CheckedNumeric R) : Option (CheckedNumeric V) :=
  if lhs.isValid && rhs.isValid then
    (op.run compiler V lhs.value rhs.value).map fun outcome =>
      ofState V outcome.result outcome.success
  else some (ofState V (V.wrap 0) false)

theorem mathOp_eq (op : MathOp) (lhs : CheckedNumeric L) (rhs : CheckedNumeric R) :
    mathOp op compiler lhs rhs = runTo op compiler (op.resultType L R) lhs rhs := by
  rw [mathOp, isValidFor_self, isValidFor_self, runTo]

theorem mathOpAssign_eq (op : MathOp) (self : CheckedNumeric T) (rhs : CheckedNumeric R) :
    mathOpAssign op compiler self rhs = runTo op compiler T self rhs := by
  rw [mathOpAssign, isValidFor_self, runTo]

/-- The operation on integers, where both operands are valid. -/
def exactOf (op : MathOp) (lhs : CheckedNumeric L) (rhs : CheckedNumeric R) : Option Int :=
  lhs.toInt?.bind fun x => rhs.toInt?.bind (op.exact L R x)

/-- The operation is run for valid operands only. -/
theorem runTo_cases (op : MathOp) (lhs : CheckedNumeric L) (rhs : CheckedNumeric R)
    {outcome : Outcome V} (h : op.run compiler V lhs.value rhs.value = some outcome) :
    ∃ result, runTo op compiler V lhs rhs = some result ∧
      ((result.toInt? = none ∧ exactOf op lhs rhs = none) ∨
        result.toInt? = outcome.toInt? ∧ lhs.toInt? = some lhs.value.val ∧
          rhs.toInt? = some rhs.value.val) := by
  unfold runTo exactOf toInt?
  cases lhs.isValid with
  | false => exact ⟨_, rfl, .inl ⟨rfl, rfl⟩⟩
  | true =>
    cases rhs.isValid with
    | false => exact ⟨_, rfl, .inl ⟨rfl, rfl⟩⟩
    | true =>
      refine ⟨ofState V outcome.result outcome.success, ?_, .inr ⟨?_, rfl, rfl⟩⟩
      · rw [Bool.and_self, if_pos rfl, h, Option.map_some]
      · rw [ofState_self]
        rfl

/-- What an operation gives for two checked numbers. -/
theorem runTo_spec {op : MathOp} (h : op.isExact compiler L R = true)
    (hV : V = L ∨ V = op.resultType L R) (lhs : CheckedNumeric L) (rhs : CheckedNumeric R) :
    ∃ result, runTo op compiler V lhs rhs = some result ∧
      (result.toInt? = none ∨ lhs.toInt? ≠ none ∧ rhs.toInt? ≠ none ∧
        result.toInt? = inRange V (exactOf op lhs rhs)) ∧
      (op.isComplete compiler L R = true → result.toInt? = inRange V (exactOf op lhs rhs)) := by
  obtain ⟨outcome, hrun, hexact⟩ := MathOp.run_of_isExact h hV lhs.value rhs.value
  have hcomplete : op.isComplete compiler L R = true →
      outcome.toInt? = inRange V (op.exact L R lhs.value.val rhs.value.val) := by
    intro hcomplete
    obtain ⟨outcome', hrun', hval⟩ := MathOp.run_of_isComplete hcomplete hV lhs.value rhs.value
    rw [hrun, Option.some_inj] at hrun'
    rw [hrun', hval]
  obtain ⟨result, hresult, hcases⟩ := runTo_cases op lhs rhs hrun
  refine ⟨result, hresult, ?_⟩
  rcases hcases with ⟨hnone, hexactOf⟩ | ⟨hval, hlhs, hrhs⟩
  · rw [hnone, hexactOf]
    exact ⟨.inl rfl, fun _ => rfl⟩
  · rw [hval, exactOf, hlhs, hrhs]
    refine ⟨hexact.imp_right fun hexact => ⟨?_, ?_, hexact⟩, hcomplete⟩
    · exact Option.some_ne_none _
    · exact Option.some_ne_none _

end CheckedNumeric

/-! ## Expressions -/

namespace Expr

/-- The value in integer arithmetic that fails where a result does not fit its type. -/
def ideal : {T : IntegerType} → Expr T → Option Int
  | _, value x => some x.val
  | _, cast Dst e => inRange Dst e.ideal
  | T, negate e => inRange T (e.ideal.map (-·))
  | T, invert e => inRange T (e.ideal.map fun x => (T.makeUnsigned.wrap (-x - 1)).val)
  | T, abs e => inRange T (e.ideal.map fun x => (x.natAbs : Int))
  | _, unsignedAbs e => e.ideal.map fun x => (x.natAbs : Int)
  | _, mathOp (T := T) (U := U) op lhs rhs =>
    inRange (op.resultType T U)
      (lhs.ideal.bind fun x => rhs.ideal.bind (op.exact T U x))
  | _, mathOpAssign (T := T) (U := U) op lhs rhs =>
    inRange T (lhs.ideal.bind fun x => rhs.ideal.bind (op.exact T U x))

/-- Every operation has operands of types that pass the test, and only signed numbers are negated:
the negation of an unsigned number wraps. -/
def every (test : MathOp → IntegerType → IntegerType → Bool) : {T : IntegerType} → Expr T → Bool
  | _, value _ => true
  | T, negate e => T.isSigned && e.every test
  | _, cast _ e | _, invert e | _, abs e | _, unsignedAbs e => e.every test
  | _, mathOp (T := T) (U := U) op lhs rhs | _, mathOpAssign (T := T) (U := U) op lhs rhs =>
    test op T U && lhs.every test && rhs.every test

/-- The number that was computed, if there is one, is that of the integers. -/
structure Follows (complete : Prop) (computed ideal : Option Int) : Prop where
  exact : computed = none ∨ computed = ideal
  complete : complete → computed = ideal

namespace Follows

variable {complete completeL completeR : Prop} {computed computedL computedR ideal idealL idealR :
  Option Int}

theorem refl (complete : Prop) (computed : Option Int) : Follows complete computed computed :=
  ⟨.inr rfl, fun _ => rfl⟩

theorem map (h : Follows complete computed ideal) (f : Int → Int) :
    Follows complete (computed.map f) (ideal.map f) := by
  refine ⟨?_, fun hcomplete => by rw [h.complete hcomplete]⟩
  rcases h.exact with hnone | heq
  · exact .inl (by rw [hnone, Option.map_none])
  · exact .inr (by rw [heq])

theorem toRange (h : Follows complete computed ideal) (T : IntegerType) :
    Follows complete (inRange T computed) (inRange T ideal) := by
  refine ⟨?_, fun hcomplete => by rw [h.complete hcomplete]⟩
  rcases h.exact with hnone | heq
  · exact .inl (by rw [hnone, inRange_none])
  · exact .inr (by rw [heq])

/-- An operation on two numbers that is exact where it gives a number. -/
theorem map₂ (hL : Follows completeL computedL idealL) (hR : Follows completeR computedR idealR)
    {f : Option Int → Option Int → Option Int}
    (hexact : computed = none ∨ computedL ≠ none ∧ computedR ≠ none ∧
      computed = f computedL computedR)
    (hcomplete : complete → completeL ∧ completeR ∧ computed = f computedL computedR) :
    Follows complete computed (f idealL idealR) := by
  refine ⟨?_, fun h => ?_⟩
  · rcases hexact with hnone | ⟨hneL, hneR, heq⟩
    · exact .inl hnone
    · rw [hL.exact.resolve_left hneL, hR.exact.resolve_left hneR] at heq
      exact .inr heq
  · obtain ⟨hcompleteL, hcompleteR, heq⟩ := hcomplete h
    rw [heq, hL.complete hcompleteL, hR.complete hcompleteR]

end Follows

/-- An operator on two expressions that follow their integers. -/
theorem runTo_follows {op : MathOp} {lhs : Expr L} {rhs : Expr R}
    (hV : V = L ∨ V = op.resultType L R) (h : op.isExact compiler L R = true)
    {l : CheckedNumeric L} {r : CheckedNumeric R}
    (hL : Follows (lhs.every (·.isComplete compiler) = true) l.toInt? lhs.ideal)
    (hR : Follows (rhs.every (·.isComplete compiler) = true) r.toInt? rhs.ideal) :
    ∃ result, CheckedNumeric.runTo op compiler V l r = some result ∧
      Follows ((op.isComplete compiler L R && lhs.every (·.isComplete compiler) &&
        rhs.every (·.isComplete compiler)) = true) result.toInt?
        (inRange V (lhs.ideal.bind fun x => rhs.ideal.bind (op.exact L R x))) := by
  obtain ⟨result, hresult, hexact, hcomplete⟩ := CheckedNumeric.runTo_spec h hV l r
  refine ⟨result, hresult, ?_⟩
  apply hL.map₂ hR (f := fun a b => inRange V (a.bind fun x => b.bind (op.exact L R x))) hexact
  intro h
  rw [Bool.and_eq_true, Bool.and_eq_true] at h
  exact ⟨h.1.2, h.2, hcomplete h.1.1⟩

/-- The evaluation of an expression follows that on integers: by induction on the expression, from
what the operator at its top does. -/
theorem eval_follows (e : Expr T) (h : e.every (·.isExact compiler) = true) :
    ∃ result, e.eval compiler = some result ∧
      Follows (e.every (·.isComplete compiler) = true) result.toInt? e.ideal := by
  induction e with
  | value x =>
    refine ⟨_, rfl, ?_⟩
    rw [CheckedNumeric.ofState_self]
    exact .refl _ _
  | cast Dst e ih =>
    obtain ⟨result, heval, hfollows⟩ := ih h
    refine ⟨_, by rw [eval, heval, Option.map_some], ?_⟩
    rw [CheckedNumeric.cast_toInt?]
    exact hfollows.toRange Dst
  | negate e ih =>
    obtain ⟨hsigned, h⟩ := Bool.and_eq_true_iff.mp h
    obtain ⟨result, heval, hfollows⟩ := ih h
    obtain ⟨negated, hnegated, hval⟩ := CheckedNumeric.negate_toInt? hsigned result
    refine ⟨negated, by rw [eval, heval, Option.bind_some, hnegated], ?_⟩
    rw [hval, every, hsigned, Bool.true_and]
    exact (hfollows.map _).toRange _
  | invert e ih =>
    obtain ⟨result, heval, hfollows⟩ := ih h
    refine ⟨_, by rw [eval, heval, Option.map_some], ?_⟩
    rw [CheckedNumeric.invert_toInt?]
    exact (hfollows.map _).toRange _
  | abs e ih =>
    obtain ⟨result, heval, hfollows⟩ := ih h
    obtain ⟨absolute, habsolute, hval⟩ := CheckedNumeric.abs_toInt? result
    refine ⟨absolute, by rw [eval, heval, Option.bind_some, habsolute], ?_⟩
    rw [hval]
    exact (hfollows.map _).toRange _
  | unsignedAbs e ih =>
    obtain ⟨result, heval, hfollows⟩ := ih h
    refine ⟨_, by rw [eval, heval, Option.map_some], ?_⟩
    rw [CheckedNumeric.unsignedAbs_toInt?]
    exact hfollows.map _
  | mathOp op lhs rhs ihL ihR =>
    rw [every, Bool.and_eq_true, Bool.and_eq_true] at h
    obtain ⟨l, hevalL, hfollowsL⟩ := ihL h.1.2
    obtain ⟨r, hevalR, hfollowsR⟩ := ihR h.2
    obtain ⟨result, hresult, hfollows⟩ := runTo_follows (.inr rfl) h.1.1 hfollowsL hfollowsR
    refine ⟨result, ?_, hfollows⟩
    rw [eval, hevalL, Option.bind_some, hevalR, Option.bind_some, CheckedNumeric.mathOp_eq,
      hresult]
  | mathOpAssign op lhs rhs ihL ihR =>
    rw [every, Bool.and_eq_true, Bool.and_eq_true] at h
    obtain ⟨l, hevalL, hfollowsL⟩ := ihL h.1.2
    obtain ⟨r, hevalR, hfollowsR⟩ := ihR h.2
    obtain ⟨result, hresult, hfollows⟩ := runTo_follows (.inl rfl) h.1.1 hfollowsL hfollowsR
    refine ⟨result, ?_, hfollows⟩
    rw [eval, hevalL, Option.bind_some, hevalR, Option.bind_some, CheckedNumeric.mathOpAssign_eq,
      hresult]

theorem every_mono {test test' : MathOp → IntegerType → IntegerType → Bool}
    (htest : ∀ {op : MathOp} {T U : IntegerType}, test op T U = true → test' op T U = true)
    (e : Expr T) (h : e.every test = true) : e.every test' = true := by
  induction e with
  | value x => rfl
  | negate e ih =>
    obtain ⟨hsigned, h⟩ := Bool.and_eq_true_iff.mp h
    rw [every, hsigned, ih h, Bool.and_self]
  | cast Dst e ih => exact ih h
  | invert e ih => exact ih h
  | abs e ih => exact ih h
  | unsignedAbs e ih => exact ih h
  | mathOp op lhs rhs ihL ihR =>
    rw [every, Bool.and_eq_true, Bool.and_eq_true] at h ⊢
    exact ⟨⟨htest h.1.1, ihL h.1.2⟩, ihR h.2⟩
  | mathOpAssign op lhs rhs ihL ihR =>
    rw [every, Bool.and_eq_true, Bool.and_eq_true] at h ⊢
    exact ⟨⟨htest h.1.1, ihL h.1.2⟩, ihR h.2⟩

/-- What a caller is given is the value of the expression on the integers, which has stayed in the
range of the type at every step. -/
theorem assigned_value_is_exact (e : Expr T) (h : e.every (·.isExact compiler) = true) :
    ∃ result, e.eval compiler = some result ∧ ∀ (Dst : IntegerType) (v : Value Dst),
      result.assignIfValid Dst = some v → e.ideal = some v.val := by
  obtain ⟨result, heval, hfollows⟩ := eval_follows e h
  refine ⟨result, heval, fun Dst v hv => ?_⟩
  have hval := CheckedNumeric.assignIfValid_val Dst result
  rw [hv, Option.map_some] at hval
  have hsome := (Option.filter_eq_some_iff.mp hval.symm).1
  have hne : result.toInt? ≠ none := by
    rw [hsome]
    exact Option.some_ne_none _
  rw [← hfollows.exact.resolve_left hne, hsome]

/-- `(200 - 300) * 7` with an `int16_t` and two `uint8_t`. -/
theorem assigned_value_is_exact_mixed :
    ∃ result, (mathOp (.checked .mul) (mathOp (.checked .sub) (value (uint8.wrap 200))
        (value (int16.wrap 300))) (value (uint8.wrap 7))).eval .other = some result ∧
      ∀ (Dst : IntegerType) (v : Value Dst), result.assignIfValid Dst = some v →
        (mathOp (.checked .mul) (mathOp (.checked .sub) (value (uint8.wrap 200))
          (value (int16.wrap 300))) (value (uint8.wrap 7))).ideal = some v.val :=
  assigned_value_is_exact _ (by decide)

/-- With the builtins an expression is valid exactly if no integer on the way is out of range. -/
theorem valid_iff_in_range (e : Expr T) (h : e.every (·.isComplete compiler) = true) :
    ∃ result, e.eval compiler = some result ∧ ∀ Dst : IntegerType,
      (result.assignIfValid Dst).map Value.val = inRange Dst e.ideal := by
  have hexact := every_mono (fun h => MathOp.isExact_of_isComplete h) e h
  obtain ⟨result, heval, hfollows⟩ := eval_follows e hexact
  refine ⟨result, heval, fun Dst => ?_⟩
  rw [CheckedNumeric.assignIfValid_val, hfollows.complete h]

/-- `-(int32_t lowest)` is found to be invalid, and so is what it is added to. -/
theorem valid_iff_in_range_lowest :
    ∃ result, (mathOp (.checked .add) (negate (value (int32.wrap (-2 ^ 31))))
        (value (int64.wrap 1))).eval .gcc = some result ∧
      ∀ Dst : IntegerType, (result.assignIfValid Dst).map Value.val =
        inRange Dst (mathOp (.checked .add) (negate (value (int32.wrap (-2 ^ 31))))
          (value (int64.wrap 1))).ideal :=
  valid_iff_in_range _ (by decide)

end Expr

/-! ## Pointers -/

theorem maxExponentPromotion_uint64 (R : IntegerType) : maxExponentPromotion uint64 R = uint64 := by
  cases R <;> rfl

theorem inRange_eq_some {exact : Option Int} {x : Int} (h : inRange T exact = some x) :
    exact = some x ∧ T.Represents x := by
  obtain ⟨hexact, hx⟩ := Option.filter_eq_some_iff.mp h
  exact ⟨hexact, of_decide_eq_true hx⟩

theorem pointerOp_exact {op : CheckedOp} (hop : op = .add ∨ op = .sub) (compiler : Compiler)
    (lhs size : Value uint64) (rhs : Value R) :
    ∃ moved, pointerOp op compiler lhs size rhs = some moved ∧ ∀ pointer, moved = some pointer →
      pointer.val = op.exact lhs.val (size.val * rhs.val) ∧ 0 ≤ size.val * rhs.val := by
  have hevery : (Expr.mathOp (.checked op) (.value lhs)
      (.mathOp (.checked .mul) (.value size) (.value rhs))).every (·.isExact compiler) = true := by
    rcases hop with rfl | rfl
    · rfl
    · simp [Expr.every, MathOp.isExact, digits]
  obtain ⟨result, heval, hexact⟩ := Expr.assigned_value_is_exact _ hevery
  refine ⟨_, by rw [pointerOp, heval]; rfl, fun pointer hpointer => ?_⟩
  have hideal := (inRange_eq_some (hexact uint64 pointer hpointer)).1
  simp only [Expr.ideal, Option.bind_some] at hideal
  obtain ⟨offset, hoffset, hmoved⟩ := Option.bind_eq_some_iff.mp hideal
  obtain ⟨hproduct, hrange⟩ := inRange_eq_some hoffset
  rw [MathOp.checked_exact (by simp)] at hproduct
  obtain rfl : size.val * rhs.val = offset := Option.some_inj.mp hproduct
  rw [MathOp.checked_exact (by rcases hop with rfl | rfl <;> simp), Option.some_inj] at hmoved
  have hlowest : (maxExponentPromotion uint64 R).lowest = 0 := by
    rw [maxExponentPromotion_uint64]
    rfl
  exact ⟨hmoved.symm, hlowest ▸ hrange.1⟩

/-- A pointer that is moved by a strict number is where it would be if addresses had no bound, and
it is not moved by a negative offset; else the program ends. -/
theorem pointer_never_wraps (compiler : Compiler) (lhs size : Value uint64) (rhs : Value R) :
    (∃ moved, pointerAdd compiler lhs size rhs = some moved ∧ ∀ pointer, moved = some pointer →
      pointer.val = lhs.val + size.val * rhs.val ∧ 0 ≤ size.val * rhs.val) ∧
    ∃ moved, pointerSub compiler lhs size rhs = some moved ∧ ∀ pointer, moved = some pointer →
      pointer.val = lhs.val - size.val * rhs.val ∧ 0 ≤ size.val * rhs.val :=
  ⟨pointerOp_exact (.inl rfl) compiler lhs size rhs,
    pointerOp_exact (.inr rfl) compiler lhs size rhs⟩

end Sparo.Base.Numerics
