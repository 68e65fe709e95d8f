import Sparo.Base.Numerics.CheckedNumeric
import Sparo.Base.Numerics.Proofs.CheckedMathSound
import Sparo.Base.Numerics.Proofs.SafeConversionsCasts

/-!
# What the operations store

Every `Do` against the operation on integers, which fails where the operation has no result and
where the result does not fit the destination.
-/

namespace Sparo.Base.Numerics

open IntegerType

variable {T U V P : IntegerType} {x : Int}

/-- The number, unless it does not fit. -/
def inRange (T : IntegerType) (exact : Option Int) : Option Int :=
  exact.filter fun x => decide (T.Represents x)

@[simp]
theorem inRange_none (T : IntegerType) : inRange T none = none := rfl

theorem inRange_some_of (h : T.Represents x) : inRange T (some x) = some x := by
  simp [inRange, h]

theorem inRange_some_of_not (h : ¬T.Represents x) : inRange T (some x) = none := by
  simp [inRange, h]

/-- The number that was stored by an operation that returned true. -/
def Outcome.toInt? (outcome : Outcome V) : Option Int :=
  if outcome.success then some outcome.result.val else none

theorem outcomeInRange_toInt? (V : IntegerType) (tmp : Value P) :
    (outcomeInRange V tmp).toInt? = inRange V (some tmp.val) := by
  have hiff := isValueInRangeForNumericType_iff V tmp
  unfold outcomeInRange storeInRange
  by_cases h : V.Represents tmp.val
  · rw [if_pos (hiff.mpr h), inRange_some_of h]
    simp only [Outcome.toInt?, if_true, staticCast_val h]
  · rw [if_neg (mt hiff.mp h), inRange_some_of_not h]
    rfl

/-! ## The exact operations -/

/-- The bits of an operator on the two's complement patterns. -/
def bitwiseExact (op : {w : Nat} → BitVec w → BitVec w → BitVec w) (w : Nat) (x y : Int) : Int :=
  (op (BitVec.ofInt w x) (BitVec.ofInt w y)).toNat

/-- The operation on integers. A shift is by less than the width, and to the left of a number that
is not negative; bitwise operators see the operands as unsigned numbers of the result type. -/
def MathOp.exact (op : MathOp) (T U : IntegerType) (x y : Int) : Option Int :=
  let width := (bitwiseResultType T U).integerBitsPlusSign
  match op with
  | checked op => if (op = .div ∨ op = .mod) ∧ y = 0 then none else some (op.exact x y)
  | lsh => if 0 ≤ x ∧ 0 ≤ y ∧ y < T.integerBitsPlusSign then some (x * 2 ^ y.toNat) else none
  | rsh => if 0 ≤ y ∧ y < T.integerBitsPlusSign then some (x / 2 ^ y.toNat) else none
  | and => some (bitwiseExact (· &&& ·) width x y)
  | or => some (bitwiseExact (· ||| ·) width x y)
  | xor => some (bitwiseExact (· ^^^ ·) width x y)
  | max => some (Max.max x y)
  | min => some (Min.min x y)

/-! ## Shifts -/

theorem asUnsigned_val_of_nonneg {v : Value T} (h : 0 ≤ v.val) : (asUnsigned v).val = v.val := by
  have hle : T.max ≤ T.makeUnsigned.max := by
    cases T <;> decide
  exact staticCast_val (represents_of_nonneg h (Int.le_trans v.le_max hle))

theorem asUnsigned_nonneg (v : Value T) : 0 ≤ (asUnsigned v).val := by
  rw [← lowest_of_unsigned (makeUnsigned_isSigned T)]
  exact (asUnsigned v).lowest_le

/-- A negative number becomes at least 128. -/
theorem asUnsigned_val_of_neg {v : Value T} (h : v.val < 0) : 128 ≤ (asUnsigned v).val := by
  have hsigned : T.isSigned = true := by
    rw [← Bool.not_eq_false]
    intro hunsigned
    have hlowest := lowest_of_unsigned hunsigned
    have hle := v.lowest_le
    omega
  obtain ⟨hunsigned, -, hpow, hlowest⟩ := makeUnsigned_of_signed hsigned
  have hmax : 127 ≤ T.max := by
    cases T <;> decide
  have hle := v.lowest_le
  rw [asUnsigned, staticCast, wrap_val_of_neg hunsigned h (by omega), hpow]
  omega

/-- A comparison with a bound after the sign conversion pushes negative numbers out of range. -/
theorem asUnsigned_lt_iff (v : Value T) {k : Int} (hk : k ≤ 128) :
    (asUnsigned v).val < k ↔ 0 ≤ v.val ∧ v.val < k := by
  by_cases h : v.val < 0
  · have hlarge := asUnsigned_val_of_neg h
    omega
  · rw [asUnsigned_val_of_nonneg (by omega)]
    omega

theorem digits_le (T : IntegerType) : (T.digits : Int) ≤ 64 := by
  cases T <;> decide

theorem int32_digits_val (T : IntegerType) : (int32.wrap T.digits).val = T.digits := by
  cases T <;> decide

theorem int32_bits_val (T : IntegerType) :
    (int32.wrap T.integerBitsPlusSign).val = T.integerBitsPlusSign := by
  cases T <;> decide

theorem bits_le_promote (T : IntegerType) :
    T.integerBitsPlusSign ≤ T.promote.integerBitsPlusSign ∧
      T.integerBitsPlusSign ≤ T.makeUnsigned.promote.integerBitsPlusSign := by
  cases T <;> decide

/-- The two operands of the test whether a shift can be reversed. -/
theorem commonType_promote (T : IntegerType) :
    commonType T.promote T = T.promote ∧ isTypeInRangeForNumericType T.promote T = true := by
  cases T <;> decide

/-- A conversion keeps the residue modulo the number of values of a type that is not wider. -/
theorem wrap_val_emod (h : T.integerBitsPlusSign ≤ P.integerBitsPlusSign) (x : Int) :
    (P.wrap x).val % 2 ^ T.integerBitsPlusSign = x % 2 ^ T.integerBitsPlusSign := by
  have hdvd : (2 : Int) ^ T.integerBitsPlusSign ∣ 2 ^ P.integerBitsPlusSign := pow_dvd_pow 2 h
  simp only [wrap]
  rw [Int.add_emod, Int.emod_emod_of_dvd _ hdvd, ← Int.add_emod, Int.sub_add_cancel]

theorem wrap_congr {x y : Int}
    (h : x % 2 ^ T.integerBitsPlusSign = y % 2 ^ T.integerBitsPlusSign) : T.wrap x = T.wrap y := by
  ext
  simp only [wrap]
  rw [Int.sub_emod, h, ← Int.sub_emod]

theorem wrap_wrap (h : T.integerBitsPlusSign ≤ P.integerBitsPlusSign) (x : Int) :
    T.wrap (P.wrap x).val = T.wrap x :=
  wrap_congr (wrap_val_emod h x)

/-- A product of an operand and a power of 2 below the width fits the promoted unsigned type, if
that is signed. -/
theorem shifted_le_max (T : IntegerType) (h : T.makeUnsigned.promote.isSigned = true) :
    T.max * 2 ^ (T.digits - 1) ≤ T.makeUnsigned.promote.max := by
  revert h
  cases T <;> decide

theorem shiftLeft_asUnsigned {x : Value T} {shift : Value U} (hx : 0 ≤ x.val)
    (hshift : 0 ≤ shift.val) (hlt : shift.val < T.digits) :
    ∃ shifted, shiftLeft (asUnsigned x) shift = some shifted ∧
      staticCast T shifted = T.wrap (x.val * 2 ^ shift.val.toNat) := by
  obtain ⟨-, hbits⟩ := bits_le_promote T
  have hdigits : T.digits ≤ T.integerBitsPlusSign := Nat.le_add_right _ _
  have hfits : T.makeUnsigned.promote.isSigned = true →
      x.val * 2 ^ shift.val.toNat ≤ T.makeUnsigned.promote.max := by
    intro hsigned
    have hpow : (2 : Int) ^ shift.val.toNat ≤ 2 ^ (T.digits - 1) :=
      pow_le_pow_right₀ (by decide) (by omega)
    calc x.val * 2 ^ shift.val.toNat
      _ ≤ T.max * 2 ^ (T.digits - 1) :=
        Int.mul_le_mul x.le_max hpow (Int.pow_nonneg (by decide)) (Int.le_of_lt T.max_pos)
      _ ≤ T.makeUnsigned.promote.max := shifted_le_max T hsigned
  refine ⟨_, ?_, wrap_wrap hbits _⟩
  simp only [shiftLeft, asUnsigned_val_of_nonneg hx]
  rw [if_neg (by omega), if_neg]
  rintro ⟨hsigned, hneg | hover⟩
  · omega
  · exact absurd (hfits hsigned) (by omega)

/-- Shifting to the right rounds down. -/
theorem shiftRight_eq (x : Value T) {shift : Value U} (hshift : 0 ≤ shift.val)
    (hlt : shift.val < T.integerBitsPlusSign) :
    ∃ shifted, shiftRight x shift = some shifted ∧
      shifted.val = x.val / 2 ^ shift.val.toNat ∧ T.Represents shifted.val := by
  obtain ⟨hbits, -⟩ := bits_le_promote T
  have hpow : (0 : Int) < 2 ^ shift.val.toNat := Int.pow_pos (by decide)
  have hlowest := x.lowest_le
  have hmax := x.le_max
  have hnonpos := T.lowest_nonpos
  have hpos := T.max_pos
  have hfits : T.Represents (x.val / 2 ^ shift.val.toNat) := by
    by_cases hx : 0 ≤ x.val
    · have hle := Int.ediv_le_self (2 ^ shift.val.toNat) hx
      exact represents_of_nonneg (Int.ediv_nonneg hx (Int.le_of_lt hpow)) (by omega)
    · have hneg := Int.ediv_neg_of_neg_of_pos (Int.not_le.mp hx) hpow
      have hge : x.val ≤ x.val / 2 ^ shift.val.toNat := by
        rw [Int.le_ediv_iff_mul_le hpow]
        calc x.val * 2 ^ shift.val.toNat
          _ ≤ x.val * 1 := mul_le_mul_of_nonpos_left hpow (by omega)
          _ = x.val := Int.mul_one _
      exact ⟨by omega, by omega⟩
  have hval := wrap_val (hfits.of_isTypeInRange (commonType_promote T).2)
  refine ⟨_, ?_, hval, hval.symm ▸ hfits⟩
  unfold shiftRight
  rw [if_neg (by omega)]

/-- A shift that can be reversed has not lost a bit. -/
theorem reversed_iff {x : Int} (hx : 0 ≤ x) (s : Nat) :
    (T.wrap (x * 2 ^ s)).val / 2 ^ s = x ↔ T.Represents (x * 2 ^ s) := by
  have hpow : (0 : Int) < 2 ^ s := Int.pow_pos (by decide)
  constructor
  · intro h
    have hle : x * 2 ^ s ≤ (T.wrap (x * 2 ^ s)).val := by
      rw [← Int.le_ediv_iff_mul_le hpow, h]
    exact represents_of_nonneg (Int.mul_nonneg hx (Int.le_of_lt hpow))
      (Int.le_trans hle (T.wrap _).le_max)
  · intro h
    rw [wrap_val h, Int.mul_ediv_cancel _ (Int.ne_of_gt hpow)]

theorem isValueNegative_iff (x : Value T) : isValueNegative x = true ↔ x.val < 0 := by
  have hlowest := x.lowest_le
  have hunsigned : T.isSigned = false → T.lowest = 0 := lowest_of_unsigned
  cases hsigned : T.isSigned with
  | true => simp [isValueNegative, hsigned]
  | false =>
    simp [isValueNegative, hsigned] at hunsigned ⊢
    omega

/-- The bound is the number of digits, whatever type the shift has. -/
theorem shift_lt_digits_iff (T : IntegerType) (shift : Value U) :
    lt (asUnsigned shift) (asUnsigned (int32.wrap T.digits)) = true ↔
      0 ≤ shift.val ∧ shift.val < T.digits := by
  have hnonneg : 0 ≤ (int32.wrap T.digits).val := by
    rw [int32_digits_val]
    exact Int.natCast_nonneg _
  rw [lt_iff (.of_nonneg (asUnsigned_nonneg _) (asUnsigned_nonneg _)),
    asUnsigned_val_of_nonneg hnonneg, int32_digits_val,
    asUnsigned_lt_iff _ (Int.le_trans (digits_le T) (by decide))]

theorem shift_eq_digits_iff (T : IntegerType) (shift : Value U) :
    eq (asUnsigned shift) (asUnsigned (int32.wrap T.digits)) = true ↔ shift.val = T.digits := by
  have hdigits := digits_le T
  have hnonneg : 0 ≤ (int32.wrap T.digits).val := by
    rw [int32_digits_val]
    exact Int.natCast_nonneg _
  rw [eq_iff (.of_nonneg (asUnsigned_nonneg _) (asUnsigned_nonneg _)),
    asUnsigned_val_of_nonneg hnonneg, int32_digits_val]
  by_cases h : shift.val < 0
  · have hlarge := asUnsigned_val_of_neg h
    omega
  · rw [asUnsigned_val_of_nonneg (by omega)]

/-- A shift by fewer than the digits is stored if it can be reversed. -/
theorem checkedLshOp_of_lt {x : Value T} {shift : Value U} (hx : 0 ≤ x.val)
    (hshift : 0 ≤ shift.val) (hlt : shift.val < T.digits) :
    ∃ outcome, checkedLshOp T x shift = some outcome ∧
      outcome.toInt? = inRange T (some (x.val * 2 ^ shift.val.toNat)) := by
  obtain ⟨shifted, hshifted, hresult⟩ := shiftLeft_asUnsigned hx hshift hlt
  have hbits : shift.val < T.integerBitsPlusSign := by
    unfold integerBitsPlusSign
    omega
  obtain ⟨reversed, hreversed, hval, hfits⟩ := shiftRight_eq
    (T.wrap (x.val * 2 ^ shift.val.toNat)) hshift hbits
  obtain ⟨hcommon, hcontains⟩ := commonType_promote T
  have heq : eq reversed x = true ↔ T.Represents (x.val * 2 ^ shift.val.toNat) := by
    rw [eq_iff ⟨hcommon.symm ▸ reversed.represents,
      hcommon.symm ▸ x.represents.of_isTypeInRange hcontains⟩, hval, reversed_iff hx]
  refine ⟨⟨eq reversed x, T.wrap (x.val * 2 ^ shift.val.toNat)⟩, ?_, ?_⟩
  · simp only [checkedLshOp]
    rw [if_pos]
    · rw [hshifted, Option.bind_some, hresult, hreversed, Option.map_some]
    · rw [Bool.and_eq_true, Bool.not_eq_true', ← Bool.not_eq_true, isValueNegative_iff,
        shift_lt_digits_iff]
      omega
  · by_cases h : T.Represents (x.val * 2 ^ shift.val.toNat)
    · rw [inRange_some_of h]
      simp only [Outcome.toInt?, heq.mpr h, if_true, wrap_val h]
    · rw [inRange_some_of_not h]
      exact if_neg (mt heq.mp h)

/-- A shift by the number of digits leaves the range of a signed type, and is by the width of an
unsigned one. -/
theorem lsh_exact_of_corner {x s : Int} (h : ¬(0 ≤ x ∧ 0 ≤ s ∧ s < T.digits))
    (hcorner : T.isSigned = false ∨ x ≠ 0 ∨ s ≠ T.digits) :
    inRange T (MathOp.lsh.exact T U x s) = none := by
  simp only [MathOp.exact]
  split_ifs with hexact
  · obtain ⟨hx, hs, hlt⟩ := hexact
    have hbits : (T.integerBitsPlusSign : Int) = T.digits + T.isSigned.toNat := by
      unfold integerBitsPlusSign
      omega
    cases hsigned : T.isSigned with
    | true =>
      simp only [hsigned, Bool.toNat_true, Bool.true_eq_false, false_or] at hbits hcorner
      have hdigits : s.toNat = T.digits := by omega
      have hpow : (0 : Int) < 2 ^ T.digits := Int.pow_pos (by decide)
      apply inRange_some_of_not
      rintro ⟨-, hle⟩
      have hge : 1 * (2 : Int) ^ T.digits ≤ x * 2 ^ T.digits :=
        Int.mul_le_mul_of_nonneg_right (by omega) (Int.le_of_lt hpow)
      rw [hdigits, IntegerType.max] at hle
      omega
    | false =>
      simp only [hsigned, Bool.toNat_false] at hbits
      omega
  · rfl

theorem checkedLshOp_eq (x : Value T) (shift : Value U) :
    ∃ outcome, checkedLshOp T x shift = some outcome ∧
      outcome.toInt? = inRange T (MathOp.lsh.exact T U x.val shift.val) := by
  by_cases h : 0 ≤ x.val ∧ 0 ≤ shift.val ∧ shift.val < T.digits
  · obtain ⟨hx, hshift, hlt⟩ := h
    have hbits : 0 ≤ x.val ∧ 0 ≤ shift.val ∧ shift.val < T.integerBitsPlusSign := by
      unfold integerBitsPlusSign
      omega
    simp only [MathOp.exact, if_pos hbits]
    exact checkedLshOp_of_lt hx hshift hlt
  · have hrefused : ¬(!isValueNegative x &&
        lt (asUnsigned shift) (asUnsigned (int32.wrap T.digits))) = true := by
      rw [Bool.and_eq_true, Bool.not_eq_true', ← Bool.not_eq_true, isValueNegative_iff,
        shift_lt_digits_iff]
      omega
    simp only [checkedLshOp, if_neg hrefused]
    have hcorner : (!T.isSigned || x.val ≠ 0 ||
        !eq (asUnsigned shift) (asUnsigned (int32.wrap T.digits))) = true ↔
          T.isSigned = false ∨ x.val ≠ 0 ∨ shift.val ≠ T.digits := by
      rw [Bool.or_eq_true, Bool.or_eq_true, Bool.not_eq_true', Bool.not_eq_true',
        ← Bool.not_eq_true (eq _ _), shift_eq_digits_iff, decide_eq_true_eq, or_assoc]
    split_ifs with hfails
    · refine ⟨_, rfl, ?_⟩
      symm
      exact lsh_exact_of_corner h (hcorner.mp hfails)
    · rw [hcorner] at hfails
      obtain ⟨hsigned, hx, hshift⟩ : T.isSigned = true ∧ x.val = 0 ∧ shift.val = T.digits := by
        simpa using hfails
      have hbits : 0 ≤ x.val ∧ 0 ≤ shift.val ∧ shift.val < T.integerBitsPlusSign := by
        simp only [integerBitsPlusSign, hsigned, Bool.toNat_true]
        omega
      refine ⟨_, rfl, ?_⟩
      rw [MathOp.exact, if_pos hbits, hx, Int.zero_mul, inRange_some_of T.represents_zero]
      simp only [Outcome.toInt?, if_true, wrap_val T.represents_zero]

theorem bits_le (T : IntegerType) : (T.integerBitsPlusSign : Int) ≤ 64 := by
  cases T <;> decide

theorem checkedRshOp_eq (x : Value T) (shift : Value U) :
    ∃ outcome, checkedRshOp V x shift = some outcome ∧
      outcome.toInt? = inRange V (MathOp.rsh.exact T U x.val shift.val) := by
  have hbits : 0 ≤ (int32.wrap T.integerBitsPlusSign).val := by
    rw [int32_bits_val]
    exact Int.natCast_nonneg _
  have hiff : le (int32.wrap T.integerBitsPlusSign) (asUnsigned shift) = true ↔
      ¬(0 ≤ shift.val ∧ shift.val < T.integerBitsPlusSign) := by
    rw [← asUnsigned_lt_iff shift (Int.le_trans (bits_le T) (by decide)),
      le_iff (.of_nonneg hbits (asUnsigned_nonneg _)), int32_bits_val, Int.not_lt]
  unfold checkedRshOp
  by_cases h : 0 ≤ shift.val ∧ shift.val < T.integerBitsPlusSign
  · obtain ⟨shifted, hshifted, hval, hfits⟩ := shiftRight_eq x h.1 h.2
    rw [if_neg (by rw [hiff]; exact not_not_intro h), hshifted]
    refine ⟨_, rfl, ?_⟩
    rw [outcomeInRange_toInt?, staticCast_val hfits, hval, MathOp.exact, if_pos h]
  · rw [if_pos (hiff.mpr h)]
    refine ⟨_, rfl, ?_⟩
    rw [MathOp.exact, if_neg h]
    rfl

/-! ## Bitwise operations -/

theorem toNat_ofInt (w : Nat) (x : Int) : ((BitVec.ofInt w x).toNat : Int) = x % 2 ^ w := by
  have hpow : ((2 ^ w : Nat) : Int) = 2 ^ w := by
    push_cast
    rfl
  have hpos : (0 : Int) < 2 ^ w := Int.pow_pos (by decide)
  rw [BitVec.toNat_ofInt, hpow, Int.toNat_of_nonneg (Int.emod_nonneg _ (Int.ne_of_gt hpos))]

theorem setWidth_ofInt {v w : Nat} (h : w ≤ v) (x : Int) :
    (BitVec.ofInt v x).setWidth w = BitVec.ofInt w x := by
  have hdvd : (2 : Int) ^ w ∣ 2 ^ v := pow_dvd_pow 2 h
  apply BitVec.eq_of_toNat_eq
  apply Int.natCast_inj.mp
  rw [BitVec.toNat_setWidth, Int.natCast_emod, toNat_ofInt, toNat_ofInt]
  push_cast
  exact Int.emod_emod_of_dvd x hdvd

theorem bits_le_common (T : IntegerType) :
    T.integerBitsPlusSign ≤ (commonType T T).integerBitsPlusSign := by
  cases T <;> decide

/-- A number of an unsigned type is what its bits are. -/
theorem wrap_val_toNat (h : P.isSigned = false) (x : Int) :
    (P.wrap x).val = (BitVec.ofInt P.integerBitsPlusSign x).toNat := by
  rw [toNat_ofInt]
  simp only [wrap, lowest_of_unsigned h, Int.sub_zero, Int.add_zero]

/-- The bits of an operation in the common type are those of the operation. -/
theorem ofInt_bitwise {bop : {w : Nat} → BitVec w → BitVec w → BitVec w} (a b : Value P) :
    BitVec.ofInt (commonType P P).integerBitsPlusSign (bitwise bop a b).val =
      bop (BitVec.ofInt (commonType P P).integerBitsPlusSign a.val)
        (BitVec.ofInt (commonType P P).integerBitsPlusSign b.val) := by
  have ha := staticCast_val (a.represents.of_isTypeInRange (commonType_self P))
  have hb := staticCast_val (b.represents.of_isTypeInRange (commonType_self P))
  rw [bitwise, ofInt_wrap, ha, hb, BitVec.ofInt_natCast, BitVec.ofNat_toNat, BitVec.setWidth_eq]

/-- The operator works on the bits of the result type, though it is computed in a wider one. -/
theorem bitwise_val {bop : {w : Nat} → BitVec w → BitVec w → BitVec w}
    (hbop : ∀ {v : Nat} (w : Nat) (a b : BitVec v),
      (bop a b).setWidth w = bop (a.setWidth w) (b.setWidth w))
    (h : P.isSigned = false) (x : Value T) (y : Value U) :
    (staticCast P (bitwise bop (staticCast P x) (staticCast P y))).val =
      bitwiseExact bop P.integerBitsPlusSign x.val y.val := by
  rw [staticCast, wrap_val_toNat h, bitwiseExact, ← setWidth_ofInt (bits_le_common P),
    ofInt_bitwise, hbop, setWidth_ofInt (bits_le_common P), setWidth_ofInt (bits_le_common P),
    staticCast, staticCast, ofInt_wrap, ofInt_wrap]

theorem checkedBitwiseOp_toInt? {bop : {w : Nat} → BitVec w → BitVec w → BitVec w}
    (hbop : ∀ {v : Nat} (w : Nat) (a b : BitVec v),
      (bop a b).setWidth w = bop (a.setWidth w) (b.setWidth w)) (x : Value T) (y : Value U) :
    (checkedBitwiseOp bop V x y).toInt? =
      inRange V
        (some (bitwiseExact bop (bitwiseResultType T U).integerBitsPlusSign x.val y.val)) := by
  unfold checkedBitwiseOp
  dsimp only
  rw [outcomeInRange_toInt?, bitwise_val hbop (P := bitwiseResultType T U)
    (makeUnsigned_isSigned _)]

/-! ## Maximum and minimum -/

/-- The result type is one of the two, and its upper bound is the larger one. -/
theorem maxExponentPromotion_cases (T U : IntegerType) :
    (maxExponentPromotion T U = T ∨ maxExponentPromotion T U = U) ∧
      T.max ≤ (maxExponentPromotion T U).max ∧ U.max ≤ (maxExponentPromotion T U).max := by
  cases T <;> cases U <;> decide

theorem lowestValuePromotion_cases (T U : IntegerType) :
    (lowestValuePromotion T U = T ∨ lowestValuePromotion T U = U) ∧
      (lowestValuePromotion T U).lowest ≤ T.lowest ∧
      (lowestValuePromotion T U).lowest ≤ U.lowest := by
  cases T <;> cases U <;> decide

theorem checkedMaxOp_toInt? (x : Value T) (y : Value U) :
    (checkedMaxOp V x y).toInt? = inRange V (some (Max.max x.val y.val)) := by
  obtain ⟨hx, hx'⟩ := x.represents
  obtain ⟨hy, hy'⟩ := y.represents
  obtain ⟨hside, hmaxT, hmaxU⟩ := maxExponentPromotion_cases T U
  have hlowest : (maxExponentPromotion T U).lowest ≤ Max.max x.val y.val := by
    rcases hside with h | h
    · rw [h]
      omega
    · rw [h]
      omega
  have hgreater := Comparison.isGreater.test_iff x y
  simp only [Comparison.test, Comparison.Holds] at hgreater
  unfold checkedMaxOp
  dsimp only
  rw [outcomeInRange_toInt?]
  split_ifs with h
  all_goals rw [hgreater] at h
  · have hval : Max.max x.val y.val = x.val := by omega
    rw [hval] at hlowest ⊢
    rw [staticCast_val ⟨hlowest, by omega⟩]
  · have hval : Max.max x.val y.val = y.val := by omega
    rw [hval] at hlowest ⊢
    rw [staticCast_val ⟨hlowest, by omega⟩]

theorem checkedMinOp_toInt? (x : Value T) (y : Value U) :
    (checkedMinOp V x y).toInt? = inRange V (some (Min.min x.val y.val)) := by
  obtain ⟨hx, hx'⟩ := x.represents
  obtain ⟨hy, hy'⟩ := y.represents
  obtain ⟨hside, hlowestT, hlowestU⟩ := lowestValuePromotion_cases T U
  have hmax : Min.min x.val y.val ≤ (lowestValuePromotion T U).max := by
    rcases hside with h | h
    · rw [h]
      omega
    · rw [h]
      omega
  have hless := Comparison.isLess.test_iff x y
  simp only [Comparison.test, Comparison.Holds] at hless
  unfold checkedMinOp
  dsimp only
  rw [outcomeInRange_toInt?]
  split_ifs with h
  all_goals rw [hless] at h
  · have hval : Min.min x.val y.val = x.val := by omega
    rw [hval] at hmax ⊢
    rw [staticCast_val ⟨by omega, hmax⟩]
  · have hval : Min.min x.val y.val = y.val := by omega
    rw [hval] at hmax ⊢
    rw [staticCast_val ⟨by omega, hmax⟩]

end Sparo.Base.Numerics
