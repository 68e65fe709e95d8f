import Sparo.Misc.Climb
import Sparo.Test.StairDp

/-!
# The stairs cost the least

`minStairDP` gives the least price of a way up, or a sum on the way overflows.
-/

namespace Sparo.Test

open Climb (minCost)
open IntSum

variable {n : Nat} {costs : IntVector}

/-- What it costs to step on the stair `i`. -/
def price (costs : IntVector) (i : Nat) : Int := (costs.data[i]?.map Int32.toInt).getD 0

theorem getElem?_data (h : n < costs.data.length) :
    ∃ cost, costs.data[n]? = some cost ∧ cost.toInt = price costs n := by
  refine ⟨costs.data[n], List.getElem?_eq_getElem h, ?_⟩
  rw [price, List.getElem?_eq_getElem h]
  rfl

/-- The cheapest way up to each stair from `i` on and below `j` costs an `int`. -/
def Fits (costs : IntVector) (i j : Nat) : Prop :=
  ∀ k, i ≤ k → k < j → IsInt (minCost (price costs) k)

theorem fits_of_le {i j : Nat} (hle : j ≤ i) : Fits costs i j := by
  intro k hik hkj
  omega

theorem fits_succ_iff {i j : Nat} (hlt : i < j) :
    Fits costs i j ↔ IsInt (minCost (price costs) i) ∧ Fits costs (i + 1) j := by
  constructor
  · intro h
    exact ⟨h i (Nat.le_refl i) hlt, fun k hle => h k (Nat.le_of_succ_le hle)⟩
  · rintro ⟨hi, h⟩ k hle hlt
    rcases Nat.eq_or_lt_of_le hle with rfl | hle
    · exact hi
    · exact h k hle hlt

/-- Every turn of the loop comes to the cheapest way up one more stair, or it overflows. -/
theorem stairLoop_eq_some_iff (costs : IntVector) (res : Int) : (turns i : Nat) →
    i + 2 + turns ≤ costs.data.length →
    (stairLoop costs.data turns (i + 2) (minCost (price costs) i)
        (minCost (price costs) (i + 1)) = some res ↔
      Fits costs (i + 2) (i + 2 + turns) ∧ minCost (price costs) (i + 1 + turns) = res)
  | 0, i, _ => by
    rw [stairLoop, Option.some_inj]
    exact (and_iff_right (fits_of_le (Nat.le_refl (i + 2)))).symm
  | turns + 1, i, hlength => by
    obtain ⟨cost, hcost, hprice⟩ := getElem?_data (show i + 2 < costs.data.length by omega)
    have ih := stairLoop_eq_some_iff costs res turns (i + 1) (by omega)
    have hnext : minCost (price costs) (i + 2) =
        min (minCost (price costs) i) (minCost (price costs) (i + 1)) + cost.toInt := by
      rw [minCost, hprice, min_comm]
    rw [fits_succ_iff (by omega), and_assoc, stairLoop, hcost, Option.bind_some]
    simp only [Option.bind_eq_some_iff, addInt_eq_some_iff, ← hnext]
    rw [show i + 2 + (turns + 1) = i + 1 + 2 + turns by omega,
      show i + 1 + (turns + 1) = i + 1 + 1 + turns by omega]
    constructor
    · rintro ⟨_, ⟨hint, rfl⟩, hloop⟩
      exact ⟨hint, ih.mp hloop⟩
    · rintro ⟨hint, h⟩
      exact ⟨_, ⟨hint, rfl⟩, ih.mpr h⟩

theorem minCost_one (costs : IntVector) : minCost (price costs) 1 = price costs 1 :=
  Int.zero_add _

/-- The way straight to the second stair is the cheapest one. -/
theorem minCost_two (hfirst : 0 ≤ price costs 1) :
    minCost (price costs) 2 = price costs 2 := by
  rw [minCost, minCost_one, minCost, min_eq_right hfirst, Int.zero_add]

theorem minStairDP_eq_some_iff (hlength : costs.data.length = n + 1) (hn : n < 2 ^ 31)
    (hfirst : 2 ≤ n → 0 ≤ price costs 1) {res : Int} :
    minStairDP costs = some res ↔ Fits costs 3 (n + 1) ∧ minCost (price costs) n = res := by
  have hint : ((costs.data.length : Int) - 1).bmod (2 ^ 32) = n := by
    rw [hlength, Int.bmod_eq_of_le] <;> omega
  rw [minStairDP, hint]
  obtain rfl | rfl | rfl | ⟨m, rfl⟩ : n = 0 ∨ n = 1 ∨ n = 2 ∨ ∃ m, n = 2 + (m + 1) := by
    by_cases hlt : 3 ≤ n
    · exact .inr (.inr (.inr ⟨n - 3, by omega⟩))
    · omega
  · simp [fits_of_le, minCost]
  · obtain ⟨cost, hcost, hprice⟩ := getElem?_data (show 1 < costs.data.length by omega)
    simp [fits_of_le, minCost_one, hcost, hprice]
  · obtain ⟨cost, hcost, hprice⟩ := getElem?_data (show 2 < costs.data.length by omega)
    simp [fits_of_le, minCost_two (hfirst (Nat.le_refl 2)), hcost, hprice]
  · obtain ⟨first, hone, hprice1⟩ := getElem?_data (show 1 < costs.data.length by omega)
    obtain ⟨second, htwo, hprice2⟩ := getElem?_data (show 2 < costs.data.length by omega)
    have hloop := stairLoop_eq_some_iff costs res (m + 1) 1 (by omega)
    have hturns : (((2 + (m + 1) : Nat) : Int) % 2 ^ 64).toNat - 2 = m + 1 := by
      omega
    rw [minCost_one, minCost_two (hfirst (by omega))] at hloop
    rw [if_neg (by omega), if_neg (by omega), hone, htwo, Option.bind_some, Option.bind_some,
      hprice1, hprice2, hturns, hloop, show 1 + 2 + (m + 1) = 2 + (m + 1) + 1 by omega]

/-- Where stepping on the first stair saves nothing, the result is the least price of a way up. It
is undefined where the cheapest way up to one of the stairs does not cost an `int`. -/
theorem min_stair_is_least (hlength : costs.data.length = n + 1) (hn : n < 2 ^ 31)
    (hfirst : 2 ≤ n → 0 ≤ price costs 1) (res : Int) :
    minStairDP costs = some res ↔ Fits costs 3 (n + 1) ∧
      IsLeast (Set.range fun climb : Climb n => climb.cost (price costs)) res := by
  have hleast := Climb.minCost_isLeast (price costs) n
  rw [minStairDP_eq_some_iff hlength hn hfirst]
  constructor
  · rintro ⟨hfits, rfl⟩
    exact ⟨hfits, hleast⟩
  · rintro ⟨hfits, hres⟩
    exact ⟨hfits, hleast.unique hres⟩

/-- The stairs in `main`. -/
def mainCosts : IntVector :=
  ⟨[0, 1, 10, 1, 1, 1, 10, 1, 1, 10, 11, 10, 1, 1, 1, 10, 1, 1, 10, 1], by decide⟩

theorem min_stair_is_least_main :
    IsLeast (Set.range fun climb : Climb 19 => climb.cost (price mainCosts)) 21 :=
  ((min_stair_is_least (by decide) (by decide) (fun _ => by decide) 21).mp (by decide)).2

end Sparo.Test
