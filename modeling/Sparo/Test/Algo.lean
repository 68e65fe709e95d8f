import Sparo.Misc.Int32Order
import Mathlib.Algebra.Ring.Nat

/-!
# Bubble sort

`src/test/algo_test.cc`. A `size_t` has 64 bits, and an index that is not in the vector is
undefined.
-/

namespace Sparo.Test

/-- A `std::vector<int>`: its bytes have addresses. -/
@[ext]
structure IntVector where
  data : List Int32
  length_lt : data.length < 2 ^ 61

namespace IntVector

/-- `std::swap(numbs[i], numbs[j])`, where these hold `x` and `y`. -/
def swap (numbs : IntVector) (i j : Nat) (x y : Int32) : IntVector where
  data := (numbs.data.set i y).set j x
  length_lt := by
    rw [List.length_set, List.length_set]
    exact numbs.length_lt

end IntVector

/-- The inner loop of `BubbleSort`, with so many turns left. -/
def innerLoop (i : Nat) : Nat → Nat → IntVector → Bool → Option (IntVector × Bool)
  | 0, _, numbs, flag => some (numbs, flag)
  | turns + 1, j, numbs, flag =>
    match numbs.data[j]?, numbs.data[i]? with
    | some y, some x =>
      if y > x then innerLoop i turns (j + 1) (numbs.swap i j x y) true
      else innerLoop i turns (j + 1) numbs flag
    | _, _ => none

/-- The outer loop of `BubbleSort`, from `i` down. It ends after a pass that swapped. -/
def outerLoop : Nat → IntVector → Option IntVector
  | 0, numbs => some numbs
  | i + 1, numbs =>
    match innerLoop (i + 1) (i + 1) 0 numbs false with
    | none => none
    | some (t, flag) => if flag then some t else outerLoop i t

/-- `BubbleSort`. The difference `size() - 1` is one of `size_t`s. -/
def bubbleSort (numbs : IntVector) : Option IntVector :=
  outerLoop ((numbs.data.length + 2 ^ 64 - 1) % 2 ^ 64) numbs

/-- The vector that `main` sorts. -/
example : (bubbleSort ⟨[0, 8, 47, 10, 23, 5], by decide⟩).map IntVector.data =
    some [0, 5, 8, 10, 23, 47] := by decide

end Sparo.Test
