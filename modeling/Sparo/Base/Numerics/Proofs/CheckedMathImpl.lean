import Sparo.Base.Numerics.CheckedMath
import Sparo.Base.Numerics.Proofs.SafeConversionsRange

/-!
# The portable operations of the widest types

`CheckedAddImpl`, `CheckedSubImpl` and `CheckedMulImpl` compute in the unsigned type and find
overflow from the result. They are called with 64-bit types only.
-/

namespace Sparo.Base.Numerics

open IntegerType

variable {T U V P : IntegerType} {op : Int → Int → Int}

/-- The operation is defined, and what it stores is the exact result. -/
def Sound (exact : Int) : Option (Option (Value V)) → Prop
  | none => False
  | some none => True
  | some (some r) => r.val = exact

/-- Operators on operands that survive the conversion are exact where the result fits. -/
theorem arithmetic_eq {x : Value T} {y : Value U} (hcommon : Common x y)
    (hr : (commonType T U).Represents (op x.val y.val)) :
    arithmetic op x y = some ((commonType T U).wrap (op x.val y.val)) := by
  simp only [arithmetic, staticCast_val hcommon.1, staticCast_val hcommon.2]
  rw [if_neg]
  rintro ⟨-, h | h⟩
  · exact absurd hr.1 (by omega)
  · exact absurd hr.2 (by omega)

/-- Unsigned operators wrap. -/
theorem arithmetic_unsigned {x : Value T} {y : Value U} (hcommon : Common x y)
    (hr : (commonType T U).isSigned = false) :
    arithmetic op x y = some ((commonType T U).wrap (op x.val y.val)) := by
  simp only [arithmetic, staticCast_val hcommon.1, staticCast_val hcommon.2, hr,
    Bool.false_eq_true, false_and, if_false]

/-! ## The widest types -/

theorem uint64_represents {x : Int} : uint64.Represents x ↔ 0 ≤ x ∧ x < 2 ^ 64 := by
  have hmax : uint64.max = 2 ^ 64 - 1 := rfl
  rw [Represents, hmax, lowest_of_unsigned rfl]
  omega

theorem int64_represents {x : Int} : int64.Represents x ↔ -2 ^ 63 ≤ x ∧ x < 2 ^ 63 := by
  have hmax : int64.max = 2 ^ 63 - 1 := rfl
  have hlowest : int64.lowest = -2 ^ 63 := rfl
  rw [Represents, hmax, hlowest]
  omega

theorem uint64_wrap_val (x : Int) : (uint64.wrap x).val = x % 2 ^ 64 := by
  simp [wrap, IntegerType.lowest, integerBitsPlusSign, isSigned, digits]

theorem int64_wrap_val (x : Int) : (int64.wrap x).val = (x + 2 ^ 63) % 2 ^ 64 - 2 ^ 63 := by
  simp [wrap, IntegerType.lowest, integerBitsPlusSign, isSigned, digits, Int.sub_eq_add_neg]

theorem makeUnsigned_isSigned (T : IntegerType) : T.makeUnsigned.isSigned = false := by
  cases T <;> rfl

section Wide

variable (hT : 63 ≤ T.digits)

include hT

theorem wide_cases : T = int64 ∨ T = uint64 := by
  revert hT
  cases T <;> decide

theorem signed_represents (hsigned : T.isSigned = true) {x : Int} :
    T.Represents x ↔ -2 ^ 63 ≤ x ∧ x < 2 ^ 63 := by
  rcases wide_cases hT with rfl | rfl
  · exact int64_represents
  · cases hsigned

theorem unsigned_represents (hunsigned : T.isSigned = false) {x : Int} :
    T.Represents x ↔ 0 ≤ x ∧ x < 2 ^ 64 := by
  rcases wide_cases hT with rfl | rfl
  · cases hunsigned
  · exact uint64_represents

theorem signed_wrap_val (hsigned : T.isSigned = true) (x : Int) :
    (T.wrap x).val = (x + 2 ^ 63) % 2 ^ 64 - 2 ^ 63 := by
  rcases wide_cases hT with rfl | rfl
  · exact int64_wrap_val x
  · cases hsigned

theorem unsigned_wrap_val (hunsigned : T.isSigned = false) (x : Int) :
    (T.wrap x).val = x % 2 ^ 64 := by
  rcases wide_cases hT with rfl | rfl
  · cases hunsigned
  · exact uint64_wrap_val x

/-- Conversion to the unsigned type reduces modulo its size. -/
theorem makeUnsigned_wrap_val (x : Int) : (T.makeUnsigned.wrap x).val = x % 2 ^ 64 := by
  rcases wide_cases hT with rfl | rfl <;> exact uint64_wrap_val x

theorem makeSigned_wrap_val (x : Int) :
    (T.makeSigned.wrap x).val = (x + 2 ^ 63) % 2 ^ 64 - 2 ^ 63 := by
  rcases wide_cases hT with rfl | rfl <;> exact int64_wrap_val x

theorem makeUnsigned_digits : 63 ≤ T.makeUnsigned.digits := by
  rcases wide_cases hT with rfl | rfl <;> decide

theorem common_digits : 63 ≤ (commonType T T).digits := by
  rcases wide_cases hT with rfl | rfl <;> decide

/-- Unsigned operators of the unsigned type wrap, too. -/
theorem common_makeUnsigned_isSigned :
    (commonType T.makeUnsigned T.makeUnsigned).isSigned = false := by
  rcases wide_cases hT with rfl | rfl <;> rfl

theorem common_wrap_val (x : Int) :
    ((commonType T.makeUnsigned T.makeUnsigned).wrap x).val = x % 2 ^ 64 := by
  rcases wide_cases hT with rfl | rfl <;> exact uint64_wrap_val x

end Wide

/-! ## Sign bits -/

/-- The sign bit of a 64-bit pattern. -/
def signBit (x : Int) : Bool := (BitVec.ofInt 64 x).msb

theorem signBit_eq (x : Int) : signBit x = decide (2 ^ 63 ≤ x % 2 ^ 64) := by
  rw [signBit, BitVec.msb_eq_decide, BitVec.toNat_ofInt, decide_eq_decide]
  omega

/-- A conversion keeps the bits. -/
theorem ofInt_wrap (T : IntegerType) (x : Int) :
    BitVec.ofInt T.integerBitsPlusSign (T.wrap x).val = BitVec.ofInt T.integerBitsPlusSign x := by
  apply BitVec.eq_of_toNat_eq
  simp only [BitVec.toNat_ofInt, wrap]
  congr 1
  push_cast
  rw [Int.emod_add_emod, Int.sub_add_cancel]

/-- The sign bit of a bitwise operation on the widest types. -/
theorem signBit_bitwise {bop : {w : Nat} → BitVec w → BitVec w → BitVec w} (hT : T.digits ≥ 63)
    (a b : Value T) :
    signBit (bitwise bop a b).val = (bop (BitVec.ofInt 64 a.val) (BitVec.ofInt 64 b.val)).msb := by
  have hbits : ∀ c : Value T, (staticCast (commonType T T) c).val = c.val := fun c =>
    staticCast_val (c.represents.of_isTypeInRange (commonType_self T))
  have hbitwise : BitVec.ofInt (commonType T T).integerBitsPlusSign (bitwise bop a b).val =
      bop (BitVec.ofInt (commonType T T).integerBitsPlusSign a.val)
        (BitVec.ofInt (commonType T T).integerBitsPlusSign b.val) := by
    rw [bitwise, ofInt_wrap, hbits, hbits, BitVec.ofInt_natCast, BitVec.ofNat_toNat,
      BitVec.setWidth_eq]
  have hwidth : (commonType T T).integerBitsPlusSign = 64 := by
    revert hT
    cases T <;> decide
  rw [hwidth] at hbitwise
  rw [signBit, hbitwise]

/-- The test of the sign of a pattern. -/
theorem staticCast_lt_zero (hT : 63 ≤ T.digits) (a : Value P) :
    lt (staticCast T.makeSigned a) (int32.wrap 0) = signBit a.val := by
  have hsigned : T.makeSigned.isSigned = int32.isSigned := by
    cases T <;> rfl
  rw [Bool.eq_iff_iff, lt_iff (.of_sameSign hsigned), signBit_eq, decide_eq_true_eq, staticCast,
    makeSigned_wrap_val hT, wrap_val int32.represents_zero]
  omega

theorem signBit_xor (hT : 63 ≤ T.digits) (a b : Value T) :
    signBit (bitwise (· ^^^ ·) a b).val = (signBit a.val ^^ signBit b.val) := by
  rw [signBit_bitwise hT, BitVec.msb_xor]
  rfl

theorem signBit_and (hT : 63 ≤ T.digits) (a b : Value T) :
    signBit (bitwise (· &&& ·) a b).val = (signBit a.val && signBit b.val) := by
  rw [signBit_bitwise hT, BitVec.msb_and]
  rfl

/-- The test for overflow looks for two pairs of different signs. -/
theorem signTest_eq (hT : 63 ≤ T.digits) (a b c d : Value T.makeUnsigned) :
    lt (staticCast T.makeSigned
        (bitwise (· &&& ·) (bitwise (· ^^^ ·) a b) (bitwise (· ^^^ ·) c d))) (int32.wrap 0) =
      ((signBit a.val ^^ signBit b.val) && (signBit c.val ^^ signBit d.val)) := by
  have hU := makeUnsigned_digits hT
  rw [staticCast_lt_zero hT, signBit_and (common_digits hU), signBit_xor hU, signBit_xor hU]

/-- The operators on the unsigned type give the result modulo its size. -/
theorem arithmetic_makeUnsigned (hT : 63 ≤ T.digits) (op : Int → Int → Int)
    (ux uy : Value T.makeUnsigned) :
    ∃ r, arithmetic op ux uy = some r ∧
      (staticCast T.makeUnsigned r).val = op ux.val uy.val % 2 ^ 64 := by
  refine ⟨_, arithmetic_unsigned (.of_sameSign rfl) (common_makeUnsigned_isSigned hT), ?_⟩
  rw [staticCast, makeUnsigned_wrap_val hT, common_wrap_val hT, Int.emod_emod]

/-- A pattern that is congruent to a value of the type is converted to it. -/
theorem staticCast_of_emod (hT : 63 ≤ T.digits) {pattern : Value P} {e : Int}
    (hpattern : pattern.val = e % 2 ^ 64) (he : T.Represents e) :
    (staticCast T pattern).val = e := by
  rw [staticCast, hpattern]
  cases hsigned : T.isSigned with
  | true =>
    rw [signed_represents hT hsigned] at he
    rw [signed_wrap_val hT hsigned]
    omega
  | false =>
    rw [unsigned_represents hT hsigned] at he
    rw [unsigned_wrap_val hT hsigned]
    omega

/-- A stored result is exact if it is whenever the test for overflow fails. -/
theorem Sound.of_test {exact : Int} {isInvalid : Bool} {r : Value V}
    (h : isInvalid = false → r.val = exact) :
    Sound exact (some (if isInvalid then none else some r)) := by
  cases isInvalid with
  | true => trivial
  | false => exact h rfl

/-- The unsigned operands are those of the operation modulo the size of the type. -/
theorem makeUnsigned_val (hT : 63 ≤ T.digits) (x : Value T) :
    (staticCast T.makeUnsigned x).val = x.val % 2 ^ 64 :=
  makeUnsigned_wrap_val hT x.val

/-- An operation computed on the unsigned operands is sound where its test lets through only results
that the type holds. -/
theorem sound_of_unsigned (hT : 63 ≤ T.digits)
    (hop : ∀ a b : Int, op (a % 2 ^ 64) (b % 2 ^ 64) % 2 ^ 64 = op a b % 2 ^ 64) (x y : Value T)
    (isInvalid : Value (commonType T.makeUnsigned T.makeUnsigned) → Bool)
    (h : ∀ r, (staticCast T.makeUnsigned r).val = op x.val y.val % 2 ^ 64 → isInvalid r = false →
      T.Represents (op x.val y.val)) :
    Sound (op x.val y.val) ((arithmetic op (staticCast T.makeUnsigned x)
      (staticCast T.makeUnsigned y)).map fun r =>
        if isInvalid r then none else some (staticCast T (staticCast T.makeUnsigned r))) := by
  obtain ⟨r, hr, huresult⟩ := arithmetic_makeUnsigned hT op (staticCast T.makeUnsigned x)
    (staticCast T.makeUnsigned y)
  rw [makeUnsigned_val hT, makeUnsigned_val hT, hop] at huresult
  rw [hr, Option.map_some]
  apply Sound.of_test
  intro hvalid
  exact staticCast_of_emod hT huresult (h r huresult hvalid)

/-- The sign of the sum is that of an operand, or the unsigned sum has not wrapped. -/
theorem checkedAddImpl_sound (hT : 63 ≤ T.digits) (x y : Value T) :
    Sound (x.val + y.val) (checkedAddImpl x y) := by
  unfold checkedAddImpl
  apply sound_of_unsigned hT fun a b => (Int.add_emod a b _).symm
  intro r huresult hvalid
  generalize staticCast T.makeUnsigned r = uresult at huresult hvalid
  cases hsigned : T.isSigned with
  | true =>
    have hx := (signed_represents hT hsigned).mp x.represents
    have hy := (signed_represents hT hsigned).mp y.represents
    rw [if_pos hsigned, signTest_eq hT] at hvalid
    simp only [signBit_eq, Bool.and_eq_false_iff, bne_eq_false_iff_eq, decide_eq_decide,
      makeUnsigned_val hT, huresult] at hvalid
    rw [signed_represents hT hsigned]
    omega
  | false =>
    have hx := (unsigned_represents hT hsigned).mp x.represents
    have hy := (unsigned_represents hT hsigned).mp y.represents
    rw [if_neg (Bool.eq_false_iff.mp hsigned), ← Bool.not_eq_true, lt_iff (.of_sameSign rfl),
      makeUnsigned_val hT, huresult] at hvalid
    rw [unsigned_represents hT hsigned]
    omega

/-- The operands have the same sign, or the difference has that of the first one. -/
theorem checkedSubImpl_sound (hT : 63 ≤ T.digits) (x y : Value T) :
    Sound (x.val - y.val) (checkedSubImpl x y) := by
  unfold checkedSubImpl
  apply sound_of_unsigned hT fun a b => (Int.sub_emod a b _).symm
  intro r huresult hvalid
  generalize staticCast T.makeUnsigned r = uresult at huresult hvalid
  cases hsigned : T.isSigned with
  | true =>
    have hx := (signed_represents hT hsigned).mp x.represents
    have hy := (signed_represents hT hsigned).mp y.represents
    rw [if_pos hsigned, signTest_eq hT] at hvalid
    simp only [signBit_eq, Bool.and_eq_false_iff, bne_eq_false_iff_eq, decide_eq_decide,
      makeUnsigned_val hT, huresult] at hvalid
    rw [signed_represents hT hsigned]
    omega
  | false =>
    have hx := (unsigned_represents hT hsigned).mp x.represents
    have hy := (unsigned_represents hT hsigned).mp y.represents
    rw [if_neg (Bool.eq_false_iff.mp hsigned), ← Bool.not_eq_true,
      lt_iff (.of_sameSign rfl)] at hvalid
    rw [unsigned_represents hT hsigned]
    omega

/-! ## Multiplication -/

theorem safeUnsignedAbs_val (hT : 63 ≤ T.digits) (x : Value T) :
    (safeUnsignedAbs x).val = x.val.natAbs := by
  unfold safeUnsignedAbs isValueNegative
  cases hsigned : T.isSigned with
  | true =>
    have hx := (signed_represents hT hsigned).mp x.represents
    by_cases hneg : x.val < 0
    · rw [if_pos (by simpa using hneg), makeUnsigned_wrap_val hT, staticCast,
        makeUnsigned_wrap_val hT]
      omega
    · rw [if_neg (by simpa using hneg), staticCast, makeUnsigned_wrap_val hT]
      omega
  | false =>
    have hx := (unsigned_represents hT hsigned).mp x.represents
    rw [if_neg (by simp), staticCast, makeUnsigned_wrap_val hT]
    omega

/-- An unsigned quotient of wide operands. -/
theorem divide_unsigned {x : Value T} {y : Value U} (hC : (commonType T U).isSigned = false)
    (hx : 0 ≤ x.val) (hy : 0 < y.val) :
    ∃ q, divide x y = some q ∧ q.val = x.val / y.val := by
  have hcommon : Common x y := .of_nonneg hx (Int.le_of_lt hy)
  have hle : x.val / y.val ≤ x.val := Int.ediv_le_self _ hx
  have hnonneg : 0 ≤ x.val / y.val := Int.ediv_nonneg hx (Int.le_of_lt hy)
  refine ⟨(commonType T U).wrap (x.val.tdiv y.val), ?_, ?_⟩
  · rw [divide, staticCast_val hcommon.2, if_neg (by omega), arithmetic_unsigned hcommon hC]
  · rw [Int.tdiv_eq_ediv_of_nonneg hx]
    exact wrap_val (represents_of_nonneg hnonneg (Int.le_trans hle hcommon.1.2))

/-- The type of `max() + UnsignedDst(is_negative)`, and of its quotient. -/
theorem common_limit (hT : 63 ≤ T.digits) :
    (commonType T T.makeUnsigned).isSigned = false ∧
      (commonType (commonType T T.makeUnsigned) T.makeUnsigned).isSigned = false ∧
      (commonType T T.makeUnsigned).max = 2 ^ 64 - 1 := by
  rcases wide_cases hT with rfl | rfl <;> decide

theorem makeUnsigned_bool_val (hT : 63 ≤ T.digits) (b : Bool) :
    (T.makeUnsigned.wrap b.toNat).val = b.toNat := by
  rw [makeUnsigned_wrap_val hT]
  cases b <;> rfl

theorem limit_lt (hT : 63 ≤ T.digits) {isNegative : Bool}
    (hsign : isNegative = true → T.isSigned = true) : T.max + isNegative.toNat < 2 ^ 64 := by
  cases isNegative with
  | true =>
    have hmax := (signed_represents hT (hsign rfl)).mp T.represents_max
    simp only [Bool.toNat_true]
    omega
  | false => rcases wide_cases hT with rfl | rfl <;> decide

/-- The bound for the absolute value of the product. -/
theorem limit_eq (hT : 63 ≤ T.digits) {isNegative : Bool}
    (hsign : isNegative = true → T.isSigned = true) :
    ∃ limit, arithmetic (· + ·) (Value.max T) (T.makeUnsigned.wrap isNegative.toNat) = some limit ∧
      limit.val = T.max + isNegative.toNat := by
  have hpos := T.max_pos
  obtain ⟨hC, -, hCmax⟩ := common_limit hT
  have hcommon : Common (Value.max T) (T.makeUnsigned.wrap isNegative.toNat) := by
    apply Common.of_nonneg
    · rw [Value.max_val]
      exact Int.le_of_lt hpos
    · rw [makeUnsigned_bool_val hT]
      omega
  refine ⟨_, arithmetic_unsigned hcommon hC, ?_⟩
  rw [Value.max_val, makeUnsigned_bool_val hT]
  apply wrap_val
  apply represents_of_nonneg
  · omega
  · have hlt := limit_lt hT hsign
    omega

/-- Where the test passes, the product of the absolute values fits. -/
theorem isMulOverflow_eq (hT : 63 ≤ T.digits) (ux uy : Value T.makeUnsigned) {isNegative : Bool}
    (hsign : isNegative = true → T.isSigned = true)
    (hux : T.isSigned = false ∨ isNegative = true → ux.val ≤ T.max + isNegative.toNat) :
    ∃ isOverflow, isMulOverflow T ux uy isNegative = some isOverflow ∧
      (isOverflow = false → ux.val * uy.val ≤ T.max + isNegative.toNat) := by
  have hpos := T.max_pos
  have hnonneg := lowest_of_unsigned (makeUnsigned_isSigned T)
  have hux0 : 0 ≤ ux.val := hnonneg ▸ ux.lowest_le
  have huy0 : 0 ≤ uy.val := hnonneg ▸ uy.lowest_le
  have hbound : lt (T.makeUnsigned.wrap (!T.isSigned || isNegative).toNat) uy = true ↔
      ((!T.isSigned || isNegative).toNat : Int) < uy.val := by
    rw [lt_iff (.of_sameSign rfl), makeUnsigned_bool_val hT]
  unfold isMulOverflow
  by_cases hlarge : ((!T.isSigned || isNegative).toNat : Int) < uy.val
  · obtain ⟨limit, hlimit, hlimitVal⟩ := limit_eq hT hsign
    have hlimit0 : 0 ≤ limit.val := by omega
    have huyPos : 0 < uy.val := by omega
    obtain ⟨quotient, hquotient, hquotientVal⟩ :=
      divide_unsigned (common_limit hT).2.1 hlimit0 huyPos
    have hquotient0 : 0 ≤ quotient.val := by
      rw [hquotientVal]
      exact Int.ediv_nonneg hlimit0 huy0
    rw [if_pos (hbound.mpr hlarge), hlimit, Option.bind_some, hquotient, Option.map_some]
    refine ⟨_, rfl, fun h => ?_⟩
    rw [← Bool.not_eq_true, lt_iff (.of_nonneg hquotient0 hux0), hquotientVal, hlimitVal,
      Int.not_lt] at h
    exact Int.mul_le_of_le_ediv huyPos h
  · rw [if_neg (mt hbound.mp hlarge)]
    refine ⟨false, rfl, fun _ => ?_⟩
    -- the second operand is 0, or 1 where the first one is known to fit
    by_cases hzero : uy.val = 0
    · rw [hzero, Int.mul_zero]
      omega
    · have hone : (!T.isSigned || isNegative) = true ∧ uy.val = 1 := by
        cases h : (!T.isSigned || isNegative) <;> simp [h] at hlarge ⊢ <;> omega
      rw [hone.2, Int.mul_one]
      apply hux
      simpa using hone.1

/-- The negated product of an unsigned result that fits. -/
theorem negate_eq (hT : 63 ≤ T.digits) (hsigned : T.isSigned = true)
    (uresult : Value T.makeUnsigned) (h : uresult.val ≤ T.max + 1) :
    ∃ r, arithmetic (· - ·) (int32.wrap 0) uresult = some r ∧
      (staticCast T r).val = -uresult.val := by
  have hnonneg : 0 ≤ uresult.val := lowest_of_unsigned (makeUnsigned_isSigned T) ▸ uresult.lowest_le
  have hzero : (int32.wrap 0).val = 0 := wrap_val int32.represents_zero
  have hC : (commonType int32 T.makeUnsigned).isSigned = false := by
    rcases wide_cases hT with rfl | rfl <;> rfl
  have hwrap : ∀ x : Int, ((commonType int32 T.makeUnsigned).wrap x).val = x % 2 ^ 64 := by
    rcases wide_cases hT with rfl | rfl <;> exact uint64_wrap_val
  have hmax := (signed_represents hT hsigned).mp T.represents_max
  refine ⟨_, arithmetic_unsigned (.of_nonneg (Int.le_of_eq hzero.symm) hnonneg) hC, ?_⟩
  apply staticCast_of_emod hT
  · rw [hwrap, hzero, Int.zero_sub]
  · rw [signed_represents hT hsigned]
    omega

/-- The sign bits of the operands tell the sign of the product. -/
theorem isNegative_iff (hT : 63 ≤ T.digits) (x y : Value T) :
    (T.isSigned && (signBit x.val ^^ signBit y.val)) = true ↔
      x.val < 0 ∧ 0 ≤ y.val ∨ 0 ≤ x.val ∧ y.val < 0 := by
  cases hsigned : T.isSigned with
  | true =>
    have hx := (signed_represents hT hsigned).mp x.represents
    have hy := (signed_represents hT hsigned).mp y.represents
    rw [Bool.true_and, ← Bool.not_eq_false, bne_eq_false_iff_eq, signBit_eq, signBit_eq,
      decide_eq_decide]
    omega
  | false =>
    have hx := (unsigned_represents hT hsigned).mp x.represents
    have hy := (unsigned_represents hT hsigned).mp y.represents
    simp only [Bool.false_and, Bool.false_eq_true, false_iff]
    omega

/-- The product has the sign that its sign bits tell. -/
theorem mul_eq_natAbs (hT : 63 ≤ T.digits) (x y : Value T) :
    x.val * y.val = if (T.isSigned && (signBit x.val ^^ signBit y.val)) = true then
      -((x.val * y.val).natAbs : Int) else (x.val * y.val).natAbs := by
  have hiff := isNegative_iff hT x y
  split_ifs with h
  · have hle : x.val * y.val ≤ 0 := by
      rcases hiff.mp h with ⟨hx, hy⟩ | ⟨hx, hy⟩
      · exact Int.mul_nonpos_of_nonpos_of_nonneg (Int.le_of_lt hx) hy
      · exact Int.mul_nonpos_of_nonneg_of_nonpos hx (Int.le_of_lt hy)
    omega
  · have hge : 0 ≤ x.val * y.val := by
      have hsame := mt hiff.mpr h
      by_cases hx : x.val < 0
      · exact Int.mul_nonneg_of_nonpos_of_nonpos (by omega) (by omega)
      · exact Int.mul_nonneg (by omega) (by omega)
    omega

/-- The absolute value fits where the first test of `isMulOverflow` needs it. -/
theorem natAbs_le (hT : 63 ≤ T.digits) (x : Value T) {isNegative : Bool}
    (h : T.isSigned = false ∨ isNegative = true) :
    (x.val.natAbs : Int) ≤ T.max + isNegative.toNat := by
  have hle := x.le_max
  cases hsigned : T.isSigned with
  | true =>
    have hx := (signed_represents hT hsigned).mp x.represents
    have hmax : T.max = 2 ^ 63 - 1 := by
      rcases wide_cases hT with rfl | rfl
      · rfl
      · cases hsigned
    have hneg : isNegative = true := by
      rcases h with h | h
      · rw [h] at hsigned
        cases hsigned
      · exact h
    simp only [hneg, Bool.toNat_true]
    omega
  | false =>
    have hx := (unsigned_represents hT hsigned).mp x.represents
    omega

theorem checkedMulImpl_sound (hT : 63 ≤ T.digits) (x y : Value T) :
    Sound (x.val * y.val) (checkedMulImpl x y) := by
  have hux := safeUnsignedAbs_val hT x
  have huy := safeUnsignedAbs_val hT y
  have hproduct : ((x.val * y.val).natAbs : Int) = x.val.natAbs * y.val.natAbs := by
    rw [Int.natAbs_mul, Int.natCast_mul]
  obtain ⟨product, hr, huresult⟩ :=
    arithmetic_makeUnsigned hT (· * ·) (safeUnsignedAbs x) (safeUnsignedAbs y)
  have hsignProduct := mul_eq_natAbs hT x y
  unfold checkedMulImpl
  dsimp only
  rw [hr, Option.bind_some, staticCast_lt_zero hT, signBit_xor hT]
  generalize staticCast T.makeUnsigned product = uresult at huresult
  generalize hneg : (T.isSigned && (signBit x.val ^^ signBit y.val)) = isNegative at hsignProduct
  have hsign : isNegative = true → T.isSigned = true := by
    rintro rfl
    exact (Bool.and_eq_true_iff.mp hneg).1
  obtain ⟨isOverflow, hoverflow, hfits⟩ :=
    isMulOverflow_eq hT (safeUnsignedAbs x) (safeUnsignedAbs y) hsign (hux ▸ natAbs_le hT x)
  rw [hoverflow, Option.bind_some]
  rw [hux, huy, ← hproduct] at hfits huresult
  cases isOverflow with
  | true => trivial
  | false =>
    have hle := hfits rfl
    have hlt := limit_lt hT hsign
    have hfit : uresult.val = (x.val * y.val).natAbs := by
      rw [huresult, Int.emod_eq_of_lt (Int.natCast_nonneg _) (by omega)]
    cases isNegative with
    | true =>
      obtain ⟨r, hr', hrVal⟩ := negate_eq hT (hsign rfl) uresult (by rw [hfit]; exact hle)
      simp only [Bool.false_eq_true, if_false, if_true, hr', Option.map_some, Sound]
      rw [hrVal, hfit]
      exact hsignProduct.symm
    | false =>
      have hT : T.Represents uresult.val := by
        rw [hfit]
        exact represents_of_nonneg (Int.natCast_nonneg _) (by simpa using hle)
      simp only [Bool.false_eq_true, if_false, Sound]
      rw [staticCast_val hT, hfit]
      exact hsignProduct.symm

end Sparo.Base.Numerics
