import Sparo.Base.Numerics.Proofs.CheckedMathOutcome

/-!
# When an operation is exact, and when it fails

The operand types for which a `Do` never stores a wrong number, and those for which it fails only
where the operation has no result or the result does not fit.
-/

namespace Sparo.Base.Numerics

open IntegerType

variable {T U V P : IntegerType} {compiler : Compiler}

/-- No type holds the numbers of both. -/
def mixesUint64 (T U : IntegerType) : Bool :=
  (decide (T = uint64) && U.isSigned) || (T.isSigned && decide (U = uint64))

/-- The operand types for which the operation stores exact results only. The portable subtraction
wraps for two narrow unsigned types, and the remainder for a `uint64_t` and a signed type. -/
def MathOp.isExact (op : MathOp) (compiler : Compiler) (T U : IntegerType) : Bool :=
  match op with
  | checked .sub =>
    decide (compiler ≠ .other) || T.isSigned || U.isSigned || decide (32 < T.digits) ||
      decide (32 < U.digits)
  | checked .mod => !mixesUint64 T U
  | _ => true

/-- The operand types for which the operation also fails only where it has to. -/
def MathOp.isComplete (op : MathOp) (compiler : Compiler) (T U : IntegerType) : Bool :=
  match op with
  | checked .add | checked .sub => decide (compiler ≠ .other)
  | checked .mul => decide (compiler = .gcc) || decide (compiler = .clang) && !mixesUint64 T U
  | checked .div | checked .mod => !mixesUint64 T U
  | _ => true

/-! ## Exactness -/

theorem MathOp.harmless_of_isExact {op : CheckedOp}
    (h : (MathOp.checked op).isExact compiler T U = true) (x : Value T) (y : Value U) :
    op.Harmless compiler V T U x.val y.val := by
  cases op with
  | add | mul | div => trivial
  | sub =>
    intro hcompiler hT hU hdT hdU
    simp [isExact, hcompiler, hT, hU] at h
    omega
  | mod =>
    have hlowestT : T.isSigned = false → T.lowest = 0 := lowest_of_unsigned
    have hlowestU : U.isSigned = false → U.lowest = 0 := lowest_of_unsigned
    have hx := x.lowest_le
    have hy := y.lowest_le
    simp only [isExact, mixesUint64, Bool.not_eq_true', Bool.or_eq_false_iff,
      Bool.and_eq_false_iff, decide_eq_false_iff_not] at h
    constructor
    · intro hT hneg
      have hU := h.1.resolve_left (not_not_intro hT)
      rw [hlowestU hU] at hy
      omega
    · intro hU hneg
      have hT := h.2.resolve_right (not_not_intro hU)
      rw [hlowestT hT] at hx
      omega

/-- What `run` makes of the result of a checked operation. -/
theorem MathOp.checked_run {op : CheckedOp} {x : Value T} {y : Value U} {stored : Option (Value V)}
    (h : op.run compiler V x y = some stored) :
    ∃ outcome, (MathOp.checked op).run compiler V x y = some outcome ∧
      outcome.toInt? = stored.map Value.val := by
  simp only [run, h, Option.map_some]
  cases stored with
  | none => exact ⟨_, rfl, rfl⟩
  | some result => exact ⟨_, rfl, rfl⟩

/-- A division by 0 fails. -/
theorem CheckedOp.run_of_zero {op : CheckedOp} (hop : op = .div ∨ op = .mod) (x : Value T)
    {y : Value U} (hy : y.val = 0) : op.run compiler V x y = some none := by
  rcases hop with rfl | rfl
  · rw [CheckedOp.run, checkedDivOp, if_pos hy]
  · rw [CheckedOp.run, checkedModOp, if_pos hy]

theorem MathOp.checked_exact {op : CheckedOp} {y : Int} (h : ¬((op = .div ∨ op = .mod) ∧ y = 0))
    (T U : IntegerType) (x : Int) :
    (MathOp.checked op).exact T U x y = some (op.exact x y) := by
  rw [exact, if_neg h]

theorem MathOp.checked_run_of_isExact {op : CheckedOp}
    (h : (MathOp.checked op).isExact compiler T U = true) (x : Value T) (y : Value U) :
    ∃ outcome, (MathOp.checked op).run compiler V x y = some outcome ∧
      (outcome.toInt? = none ∨
        outcome.toInt? = inRange V ((MathOp.checked op).exact T U x.val y.val)) := by
  have hsound := (CheckedOp.sound_iff op compiler x y).mpr (harmless_of_isExact (V := V) h x y)
  match hrun : op.run compiler V x y with
  | none =>
    rw [hrun] at hsound
    exact hsound.elim
  | some none =>
    obtain ⟨outcome, hrun, hval⟩ := checked_run hrun
    exact ⟨outcome, hrun, .inl hval⟩
  | some (some result) =>
    have hnonzero : ¬((op = .div ∨ op = .mod) ∧ y.val = 0) := by
      rintro ⟨hop, hy⟩
      rw [CheckedOp.run_of_zero hop x hy] at hrun
      cases hrun
    rw [hrun] at hsound
    obtain ⟨outcome, hrun, hval⟩ := checked_run hrun
    refine ⟨outcome, hrun, .inr ?_⟩
    have hexact : result.val = op.exact x.val y.val := hsound
    rw [hval, checked_exact hnonzero, ← hexact, inRange_some_of result.represents]
    rfl

/-! ## Completeness -/

theorem builtinOverflow_val (V : IntegerType) (exact : Int) :
    (builtinOverflow V exact).map Value.val = inRange V (some exact) := by
  unfold builtinOverflow
  split_ifs with h
  · rw [inRange_some_of (wrap_val_iff.mp h), Option.map_some, h]
  · rw [inRange_some_of_not (mt wrap_val_iff.mpr h)]
    rfl

theorem storeInRange_val (V : IntegerType) (presult : Value P) :
    (storeInRange V presult).map Value.val = inRange V (some presult.val) := by
  have hiff := isValueInRangeForNumericType_iff V presult
  unfold storeInRange
  split_ifs with h
  · rw [inRange_some_of (hiff.mp h), Option.map_some, staticCast_val (hiff.mp h)]
  · rw [inRange_some_of_not (mt hiff.mpr h)]
    rfl

theorem bigEnoughPromotion_of_not_mixesUint64 (h : mixesUint64 T U = false) :
    isTypeInRangeForNumericType (bigEnoughPromotion T U) T = true ∧
      isTypeInRangeForNumericType (bigEnoughPromotion T U) U = true := by
  revert h
  cases T <;> cases U <;> decide

theorem checkedAddSubFastOpIsSupported_iff :
    checkedAddSubFastOpIsSupported compiler = true ↔ compiler ≠ .other := by
  cases compiler <;> decide

theorem checkedMulFastOpIsSupported_of_isComplete
    (h : (MathOp.checked .mul).isComplete compiler T U = true) :
    checkedMulFastOpIsSupported T U compiler = true := by
  revert h
  cases compiler with
  | gcc => exact fun _ => rfl
  | other => cases T <;> cases U <;> decide
  | clang => cases T <;> cases U <;> decide

/-- The promotion of two signed types is signed, and no destination reaches beyond it. -/
theorem promotion_of_signed (hT : T.isSigned = true) (hU : U.isSigned = true)
    (hV : V = T ∨ V = maxExponentPromotion T U) :
    (bigEnoughPromotion T U).isSigned = true ∧ V.max ≤ (bigEnoughPromotion T U).max ∧
      mixesUint64 T U = false := by
  revert hT hU
  rcases hV with rfl | rfl
  · cases V <;> cases U <;> decide
  · cases T <;> cases U <;> decide

/-- The negation of the lowest value of the promotion fits no destination. -/
theorem not_represents_of_isInvalidNegation {x : Value T} {y : Value U}
    (h : isInvalidNegation x y = true) (hV : V = T ∨ V = maxExponentPromotion T U) :
    ¬V.Represents (x.val.tdiv y.val) := by
  obtain ⟨hT, hU⟩ := isInvalidNegation_signed h
  obtain ⟨hP, hmax, hmix⟩ := promotion_of_signed hT hU hV
  have hx := x.represents.of_isTypeInRange (bigEnoughPromotion_of_not_mixesUint64 hmix).1
  have hlowest : x.val = (bigEnoughPromotion T U).lowest := by
    simp only [isInvalidNegation, Bool.and_eq_true] at h
    have heq := h.1.2
    rw [eq_iff (.of_sameSign rfl), staticCast_val hx, Value.lowest_val] at heq
    exact heq
  have hneg := lowest_of_signed hP
  rw [isInvalidNegation_right h, Int.tdiv_neg, Int.tdiv_one]
  rintro ⟨-, hle⟩
  omega

theorem checkedDivOp_complete (hmix : mixesUint64 T U = false)
    (hV : V = T ∨ V = maxExponentPromotion T U) (x : Value T) (y : Value U) :
    ∃ stored, checkedDivOp V x y = some stored ∧ stored.map Value.val =
      inRange V ((MathOp.checked .div).exact T U x.val y.val) := by
  obtain ⟨hT, hU⟩ := bigEnoughPromotion_of_not_mixesUint64 hmix
  have hx := x.represents.of_isTypeInRange hT
  have hy := y.represents.of_isTypeInRange hU
  unfold checkedDivOp
  dsimp only
  split_ifs with hzero hinvalid hrefused
  · refine ⟨none, rfl, ?_⟩
    rw [MathOp.exact, if_pos ⟨.inl rfl, hzero⟩]
    rfl
  · refine ⟨none, rfl, ?_⟩
    rw [MathOp.checked_exact (by simp [hzero])]
    exact (inRange_some_of_not (not_represents_of_isInvalidNegation hinvalid hV)).symm
  · simp [(isValueInRangeForNumericType_iff _ x).mpr hx,
      (isValueInRangeForNumericType_iff _ y).mpr hy] at hrefused
  · have hnegation := promoted_negation hinvalid
    obtain ⟨q, hq, hcast⟩ := divide_promoted _ _ (promoted_ne_zero hzero T) hnegation
    rw [hq, Option.map_some, hcast]
    refine ⟨_, rfl, ?_⟩
    rw [storeInRange_val, wrap_val (tdiv_represents (Value.represents _) (Value.represents _)
      hnegation), staticCast_val hx, staticCast_val hy, MathOp.checked_exact (by simp [hzero])]
    rfl

theorem checkedModOp_complete (hmix : mixesUint64 T U = false) (x : Value T) (y : Value U) :
    ∃ stored, checkedModOp V x y = some stored ∧ stored.map Value.val =
      inRange V ((MathOp.checked .mod).exact T U x.val y.val) := by
  obtain ⟨hT, hU⟩ := bigEnoughPromotion_of_not_mixesUint64 hmix
  have hx := x.represents.of_isTypeInRange hT
  have hy := y.represents.of_isTypeInRange hU
  unfold checkedModOp
  dsimp only
  split_ifs with hzero hinvalid
  · refine ⟨none, rfl, ?_⟩
    rw [MathOp.exact, if_pos ⟨.inr rfl, hzero⟩]
    rfl
  · refine ⟨_, rfl, ?_⟩
    have hval : (int32.wrap 0).val = 0 := wrap_val int32.represents_zero
    rw [MathOp.checked_exact (by simp [hzero]), CheckedOp.exact, isInvalidNegation_right hinvalid,
      Int.tmod_neg, Int.tmod_one, inRange_some_of V.represents_zero, Option.map_some, staticCast,
      hval, wrap_val V.represents_zero]
  · obtain ⟨r, hr, hcast⟩ :=
      modulo_promoted _ _ (promoted_ne_zero hzero T) (promoted_negation hinvalid)
    rw [hr, Option.map_some, hcast]
    refine ⟨_, rfl, ?_⟩
    rw [storeInRange_val, wrap_val (tmod_represents _ (Value.represents _)), staticCast_val hx,
      staticCast_val hy, MathOp.checked_exact (by simp [hzero])]
    rfl

/-- The checked operations that are complete. -/
theorem CheckedOp.run_complete {op : CheckedOp}
    (h : (MathOp.checked op).isComplete compiler T U = true)
    (hV : V = T ∨ V = maxExponentPromotion T U) (x : Value T) (y : Value U) :
    ∃ stored, op.run compiler V x y = some stored ∧ stored.map Value.val =
      inRange V ((MathOp.checked op).exact T U x.val y.val) := by
  cases op with
  | add =>
    refine ⟨_, ?_, builtinOverflow_val V _⟩
    rw [run, checkedAddOp, if_pos (checkedAddSubFastOpIsSupported_iff.mpr
      (by simpa [MathOp.isComplete] using h))]
    rfl
  | sub =>
    refine ⟨_, ?_, builtinOverflow_val V _⟩
    rw [run, checkedSubOp, if_pos (checkedAddSubFastOpIsSupported_iff.mpr
      (by simpa [MathOp.isComplete] using h))]
    rfl
  | mul =>
    refine ⟨_, ?_, builtinOverflow_val V _⟩
    rw [run, checkedMulOp]
    dsimp only
    rw [if_pos (checkedMulFastOpIsSupported_of_isComplete h)]
    rfl
  | div => exact checkedDivOp_complete (by simpa [MathOp.isComplete] using h) hV x y
  | mod => exact checkedModOp_complete (by simpa [MathOp.isComplete] using h) x y

/-! ## Every operation -/

theorem MathOp.isExact_of_isComplete {op : MathOp} (h : op.isComplete compiler T U = true) :
    op.isExact compiler T U = true := by
  cases op with
  | checked op =>
    cases op with
    | add | mul | div => rfl
    | sub =>
      have hcompiler : compiler ≠ .other := by simpa [isComplete] using h
      simp [isExact, hcompiler]
    | mod => exact h
  | lsh | rsh | and | or | xor | max | min => rfl

/-- An operation whose destination has the type of its left operand or its result type stores the
result if that fits, and fails otherwise. -/
theorem MathOp.run_of_isComplete {op : MathOp} (h : op.isComplete compiler T U = true)
    (hV : V = T ∨ V = op.resultType T U) (x : Value T) (y : Value U) :
    ∃ outcome, op.run compiler V x y = some outcome ∧
      outcome.toInt? = inRange V (op.exact T U x.val y.val) := by
  cases op with
  | checked op =>
    obtain ⟨stored, hrun, hval⟩ := CheckedOp.run_complete h hV x y
    obtain ⟨outcome, hrun, hstored⟩ := checked_run hrun
    exact ⟨outcome, hrun, hstored.trans hval⟩
  | lsh =>
    obtain rfl : V = T := hV.elim id id
    exact checkedLshOp_eq x y
  | rsh => exact checkedRshOp_eq x y
  | and => exact ⟨_, rfl, checkedBitwiseOp_toInt? (fun _ _ _ => BitVec.setWidth_and) x y⟩
  | or => exact ⟨_, rfl, checkedBitwiseOp_toInt? (fun _ _ _ => BitVec.setWidth_or) x y⟩
  | xor => exact ⟨_, rfl, checkedBitwiseOp_toInt? (fun _ _ _ => BitVec.setWidth_xor) x y⟩
  | max => exact ⟨_, rfl, checkedMaxOp_toInt? x y⟩
  | min => exact ⟨_, rfl, checkedMinOp_toInt? x y⟩

theorem MathOp.run_of_isExact {op : MathOp} (h : op.isExact compiler T U = true)
    (hV : V = T ∨ V = op.resultType T U) (x : Value T) (y : Value U) :
    ∃ outcome, op.run compiler V x y = some outcome ∧
      (outcome.toInt? = none ∨
        outcome.toInt? = inRange V (op.exact T U x.val y.val)) := by
  cases op with
  | checked op => exact checked_run_of_isExact h x y
  | lsh | rsh | and | or | xor | max | min =>
    have hcomplete := @run_of_isComplete T U V compiler
    obtain ⟨outcome, hrun, hval⟩ := hcomplete rfl hV x y
    exact ⟨outcome, hrun, .inr hval⟩

end Sparo.Base.Numerics
