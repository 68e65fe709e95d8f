import Mathlib.Algebra.Order.Ring.Nat
import Mathlib.Order.Bounds.Basic

/-!
# Rounding up to an alignment

`AlignUp` of `src/main/main.cc`, for an unsigned type of `w` bits.
-/

namespace Sparo.Main

variable {w k : Nat}

/-- `AlignUp`. -/
def alignUp (size alignment : BitVec w) : BitVec w :=
  (size + alignment - 1) &&& ~~~(alignment - 1)

theorem toNat_sub_one {x : BitVec w} (h : 0 < x.toNat) : (x - 1).toNat = x.toNat - 1 := by
  have hlt := x.isLt
  have hw : 0 < w := by
    apply Nat.pos_of_ne_zero
    rintro rfl
    omega
  have hone : (1 : BitVec w).toNat = 1 := BitVec.toNat_one hw
  rw [BitVec.toNat_sub, hone, show 2 ^ w - 1 + x.toNat = x.toNat - 1 + 2 ^ w by omega,
    Nat.add_mod_right, Nat.mod_eq_of_lt (by omega)]

/-- The mask has the bits below the one of the alignment. -/
theorem getLsbD_sub_one {alignment : BitVec w} (h : alignment.toNat = 2 ^ k) (i : Nat) :
    (alignment - 1).getLsbD i = decide (i < k) := by
  have hpos : 0 < alignment.toNat := h ▸ Nat.two_pow_pos k
  rw [BitVec.getLsbD, toNat_sub_one hpos, h, Nat.testBit_two_pow_sub_one]

/-- Without these bits a number is rounded down. -/
theorem toNat_and_not_sub_one {alignment : BitVec w} (h : alignment.toNat = 2 ^ k) (x : BitVec w) :
    (x &&& ~~~(alignment - 1)).toNat = x.toNat / 2 ^ k * 2 ^ k := by
  apply Nat.eq_of_testBit_eq
  intro i
  rw [BitVec.testBit_toNat, BitVec.getLsbD_and, BitVec.getLsbD_not, getLsbD_sub_one h,
    Nat.testBit_mul_two_pow, Nat.testBit_div_two_pow]
  by_cases hlt : i < k
  · simp [hlt]
  · have hle := Nat.not_lt.mp hlt
    rw [Nat.sub_add_cancel hle, BitVec.testBit_toNat]
    by_cases hi : i < w
    · simp [hi, hlt, hle]
    · simp [BitVec.getLsbD_of_ge x i (Nat.not_lt.mp hi)]

/-- Rounding up is rounding down what is less than one alignment more. -/
theorem isLeast_div_mul (size : Nat) {alignment : Nat} (h : 0 < alignment) :
    IsLeast {m | alignment ∣ m ∧ size ≤ m} ((size + alignment - 1) / alignment * alignment) := by
  constructor
  · have hdiv := Nat.div_add_mod (size + alignment - 1) alignment
    have hmod := Nat.mod_lt (size + alignment - 1) h
    rw [Nat.mul_comm] at hdiv
    exact ⟨Nat.dvd_mul_left _ _, by omega⟩
  · rintro m ⟨⟨c, rfl⟩, hle⟩
    rw [Nat.mul_comm alignment c]
    apply Nat.mul_le_mul_right
    rw [Nat.div_le_iff_le_mul_add_pred h]
    omega

/-- Where the sum fits, the result is the least multiple of the alignment from the size on. Where
it does not, no such multiple is in the type, and the result is 0. -/
theorem align_up_is_least (size alignment : BitVec w) (h : alignment.toNat = 2 ^ k) :
    (size.toNat + alignment.toNat ≤ 2 ^ w →
      IsLeast {m | alignment.toNat ∣ m ∧ size.toNat ≤ m} (alignUp size alignment).toNat) ∧
    (2 ^ w < size.toNat + alignment.toNat → alignUp size alignment = 0 ∧
      ∀ m, alignment.toNat ∣ m → size.toNat ≤ m → 2 ^ w ≤ m) := by
  have hpos : 0 < alignment.toNat := h ▸ Nat.two_pow_pos k
  have hsize := size.isLt
  have halignment := alignment.isLt
  have hadd : size + alignment - 1 = size + (alignment - 1) := by
    rw [BitVec.sub_eq_add_neg, BitVec.add_assoc, ← BitVec.sub_eq_add_neg]
  have hsum : (size + alignment - 1).toNat = (size.toNat + alignment.toNat - 1) % 2 ^ w := by
    rw [hadd, BitVec.toNat_add, toNat_sub_one hpos, Nat.add_sub_assoc hpos]
  constructor
  · intro hle
    rw [alignUp, toNat_and_not_sub_one h, hsum, Nat.mod_eq_of_lt (by omega), ← h]
    exact isLeast_div_mul _ hpos
  · intro hlt
    constructor
    · apply BitVec.eq_of_toNat_eq
      rw [alignUp, toNat_and_not_sub_one h, hsum,
        show size.toNat + alignment.toNat - 1 = size.toNat + alignment.toNat - 1 - 2 ^ w + 2 ^ w by
          omega, Nat.add_mod_right, Nat.mod_eq_of_lt (by omega), Nat.div_eq_of_lt (by omega),
        Nat.zero_mul]
      simp
    · intro m hm hle
      have hk : k < w := (Nat.pow_lt_pow_iff_right (by decide)).mp (h ▸ halignment)
      have hdvd : alignment.toNat ∣ 2 ^ w := h ▸ Nat.pow_dvd_pow 2 hk.le
      -- the distance of two multiples is at least the alignment
      by_contra hlt'
      have hdist := Nat.le_of_dvd (by omega) (Nat.dvd_sub hdvd hm)
      omega

theorem align_up_is_least_main :
    IsLeast {m | 4096 ∣ m ∧ 12 ≤ m} (alignUp (12 : BitVec 32) 4096).toNat :=
  (align_up_is_least (12 : BitVec 32) 4096 (k := 12) (by decide)).1 (by decide)

end Sparo.Main
