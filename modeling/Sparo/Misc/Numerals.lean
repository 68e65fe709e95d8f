import Mathlib.Data.Nat.Digits.Lemmas

/-!
# Numerals

The digits of a number in a base, filled up with zeros: at least one digit, and at least as many as
asked for. They are produced from the least significant one on, and read from the most significant
one on.
-/

namespace Numerals

variable {b m padding : Nat}

/-- How many digits there are. -/
def width (b m padding : Nat) : Nat := max 1 (max padding (Nat.digits b m).length)

/-- The digits, least significant first. -/
def padded (b m padding : Nat) : List Nat := Nat.digitsAppend b (width b m padding) m

/-- The number that digits denote, most significant first. -/
def value (b : Nat) (ds : List Nat) : Nat := ds.foldl (fun n d => n * b + d) 0

theorem length_padded (b m padding : Nat) : (padded b m padding).length = width b m padding := by
  rw [padded, Nat.digitsAppend, List.length_append, List.length_replicate]
  unfold width
  omega

theorem lt_of_mem_padded (hb : 1 < b) {d : Nat} (hd : d ∈ padded b m padding) : d < b :=
  Nat.lt_of_mem_digitsAppend hb _ d hd

theorem ofDigits_padded (b m padding : Nat) : Nat.ofDigits b (padded b m padding) = m := by
  rw [padded, Nat.digitsAppend, Nat.ofDigits_append_replicate_zero, Nat.ofDigits_digits]

theorem value_reverse (b : Nat) (ds : List Nat) : value b ds.reverse = Nat.ofDigits b ds := by
  rw [value, List.foldl_reverse]
  induction ds with
  | nil => rfl
  | cons d ds ih =>
    rw [List.foldr_cons, ih, Nat.ofDigits_cons, Nat.mul_comm, Nat.add_comm]

/-- The digits read back give the number. -/
theorem value_padded (b m padding : Nat) : value b (padded b m padding).reverse = m := by
  rw [value_reverse, ofDigits_padded]

theorem padded_eq (b m padding : Nat) : padded b m padding =
    Nat.digits b m ++ List.replicate (width b m padding - (Nat.digits b m).length) 0 := rfl

/-- The lowest digit comes first; the others are those of the quotient, if there are any or more
are asked for. -/
theorem padded_step (hb : 1 < b) (m padding : Nat) :
    padded b m padding = m % b :: if m / b > 0 ∨ padding - 1 > 0 then padded b (m / b) (padding - 1)
      else [] := by
  rcases Nat.eq_zero_or_pos m with rfl | hm
  · rw [Nat.zero_div, Nat.zero_mod, padded_eq, padded_eq, width, width, Nat.digits_zero,
      List.length_nil, List.nil_append, List.nil_append]
    split_ifs with h
    · have hcount : max 1 (max padding 0) - 0 = max 1 (max (padding - 1) 0) - 0 + 1 := by omega
      rw [hcount, List.replicate_succ]
    · have hcount : max 1 (max padding 0) - 0 = 1 := by omega
      rw [hcount, List.replicate_one]
  · have hlength : (Nat.digits b (m / b)).length > 0 ↔ m / b > 0 := by
      rw [gt_iff_lt, List.length_pos_iff, Nat.digits_ne_nil_iff_ne_zero, gt_iff_lt,
        Nat.pos_iff_ne_zero]
    rw [padded_eq, padded_eq, width, width, Nat.digits_def' hb hm, List.length_cons,
      List.cons_append]
    split_ifs with h
    · congr 3
      omega
    · have hnil : Nat.digits b (m / b) = [] := by
        rw [← List.length_eq_zero_iff]
        omega
      have hcount : max 1 (max padding (0 + 1)) - (0 + 1) = 0 := by omega
      rw [hnil, List.length_nil, hcount, List.replicate_zero, List.append_nil]

theorem width_step (hb : 1 < b) (m padding : Nat) :
    width b m padding = 1 + if m / b > 0 ∨ padding - 1 > 0 then width b (m / b) (padding - 1)
      else 0 := by
  rw [← length_padded, padded_step hb, List.length_cons, Nat.add_comm]
  split_ifs with h
  · rw [length_padded]
  · rfl

end Numerals
