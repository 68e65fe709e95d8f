import Mathlib.Data.Nat.ModEq
import Mathlib.Tactic.Ring

/-!
# Positions in a circular buffer

A buffer of `c` cells is addressed by ever-growing logical positions; position `k` lives in
cell `k % c`. Two logical positions less than one revolution apart use different cells, and
their distance can be read off the two cells alone.
-/

namespace CircularIndex

variable {c a b i n : Nat}

/-- Logical positions less than a revolution apart lie in different cells. -/
theorem mod_ne_mod (hab : a < b) (hbc : b < a + c) : a % c ≠ b % c := by
  intro h
  have hzero : (b - a) % c = 0 := Nat.sub_mod_eq_zero_of_mod_eq h.symm
  rw [Nat.mod_eq_of_lt (by omega)] at hzero
  omega

/-- Positions of one cell are a revolution apart. -/
theorem add_le_of_mod_eq (hmod : a % c = b % c) (hab : a < b) : a + c ≤ b := by
  by_contra hlt
  exact mod_ne_mod hab (Nat.lt_of_not_le hlt) hmod

/-- Within one revolution a position is told by its cell. -/
theorem eq_of_mod_eq (hmod : a % c = b % c) (ha : n ≤ a) (hac : a < n + c) (hb : n ≤ b)
    (hbc : b < n + c) : a = b := by
  rcases Nat.lt_trichotomy a b with h | h | h
  · have := add_le_of_mod_eq hmod h
    omega
  · exact h
  · have := add_le_of_mod_eq hmod.symm h
    omega

/-- One revolution at most is taken off by a comparison. -/
theorem mod_of_lt_two_mul (h : a < 2 * c) : a % c = if a < c then a else a - c := by
  split
  · next hlt => exact Nat.mod_eq_of_lt hlt
  · rw [Nat.mod_eq_sub_mod (by omega), Nat.mod_eq_of_lt (by omega)]

/-- The next cell, as a comparison instead of a division. -/
theorem succ_mod (hi : i < c) : (i + 1) % c = if i + 1 = c then 0 else i + 1 := by
  split
  · next h => rw [h, Nat.mod_self]
  · exact Nat.mod_eq_of_lt (by omega)

/-- The next cell, short of the end. -/
theorem mod_add_one_of_lt (h : a % c + 1 < c) : a % c + 1 = (a + 1) % c := by
  rw [← Nat.mod_add_mod a c 1, Nat.mod_eq_of_lt h]

/-- The previous cell, as a comparison instead of a division. -/
theorem pred_mod (hi : i < c) : (i + c - 1) % c = if i = 0 then c - 1 else i - 1 := by
  split
  · next h => rw [h, Nat.zero_add, Nat.mod_eq_of_lt (by omega)]
  · rw [show i + c - 1 = i - 1 + c by omega, Nat.add_mod_right, Nat.mod_eq_of_lt (by omega)]

/-- From `a` to `b` forwards, for logical positions at most a revolution apart. -/
theorem mod_cases (hab : a ≤ b) (hbc : b < a + c) :
    (a % c ≤ b % c ∧ b % c - a % c = b - a) ∨ (b % c < a % c ∧ b % c + (c - a % c) = b - a) := by
  have hc : 0 < c := by omega
  have ha := Nat.div_add_mod a c
  have hb := Nat.div_add_mod b c
  have hac := Nat.mod_lt a hc
  have hbc' := Nat.mod_lt b hc
  rcases Nat.lt_trichotomy (b / c) (a / c) with h | h | h
  · have := Nat.mul_le_mul_left c (Nat.succ_le_of_lt h)
    rw [Nat.mul_succ] at this
    omega
  · rw [h] at hb
    left
    omega
  · have := Nat.mul_le_mul_left c (Nat.succ_le_of_lt h)
    rw [Nat.mul_succ] at this
    have hnext : b / c < a / c + 2 := by
      by_contra hge
      have := Nat.mul_le_mul_left c (Nat.le_of_not_lt hge)
      rw [Nat.mul_add, Nat.mul_comm c 2] at this
      omega
    rw [show b / c = a / c + 1 by omega, Nat.mul_succ] at hb
    right
    omega

/-- The number of cells from `a` to `a + n`, computed from the two cells. -/
theorem dist_mod (ha : a < c) (hn : n < c) : ((a + n) % c + c - a) % c = n := by
  by_cases h : a + n < c
  · rw [Nat.mod_eq_of_lt h, show a + n + c - a = n + c by omega, Nat.add_mod_right,
      Nat.mod_eq_of_lt hn]
  · have hwrap : (a + n) % c = a + n - c := by
      rw [Nat.mod_eq_sub_mod (by omega), Nat.mod_eq_of_lt (by omega)]
    rw [hwrap, show a + n - c + c - a = n by omega, Nat.mod_eq_of_lt hn]

/-- `n` cells back and forth again. -/
theorem sub_add_mod (hn : n ≤ c) (m : Nat) :
    ((a + (c - n)) % c + (n + m)) % c = (a + m) % c := by
  rw [Nat.mod_add_mod, show a + (c - n) + (n + m) = a + m + c by omega, Nat.add_mod_right]

/-- The `n` cells from `a` on are a piece up to the end and a piece from cell 0 on. -/
theorem exists_mod_iff {P : Nat → Nat → Prop} {e : Nat} (ha : a < c) (hn : n ≤ c)
    (he : e = min (c - a) n) :
    (∃ i < n, P ((a + i) % c) i) ↔ (∃ i < e, P (a + i) i) ∨ ∃ i < n - e, P i (e + i) := by
  constructor
  · rintro ⟨i, hi, h⟩
    by_cases hend : a + i < c
    · left
      rw [Nat.mod_eq_of_lt hend] at h
      exact ⟨i, by omega, h⟩
    · right
      rw [Nat.mod_eq_sub_mod (by omega), Nat.mod_eq_of_lt (by omega)] at h
      refine ⟨a + i - c, by omega, ?_⟩
      rwa [show e + (a + i - c) = i by omega]
  · rintro (⟨i, hi, h⟩ | ⟨i, hi, h⟩)
    · refine ⟨i, by omega, ?_⟩
      rwa [Nat.mod_eq_of_lt (by omega)]
    · refine ⟨e + i, by omega, ?_⟩
      rwa [show a + (e + i) = i + c by omega, Nat.add_mod_right, Nat.mod_eq_of_lt (by omega)]

end CircularIndex
