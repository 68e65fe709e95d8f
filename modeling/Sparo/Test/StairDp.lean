import Sparo.Misc.IntSum
import Sparo.Test.Algo

/-!
# The cheapest way up

`src/test/stairDP.cc`.
-/

namespace Sparo.Test

open IntSum

/-- The loop of `minStairDP`, with so many turns left. -/
def stairLoop (costs : List Int32) : Nat → Nat → Int → Int → Option Int
  | 0, _, _, second => some second
  | turns + 1, i, first, second =>
    costs[i]?.bind fun cost =>
      (addInt (min first second) cost.toInt).bind (stairLoop costs turns (i + 1) second)

/-- `minStairDP`. The difference `size() - 1` becomes an `int`, which the loop compares as a
`size_t`. -/
def minStairDP (costs : IntVector) : Option Int :=
  let n := ((costs.data.length : Int) - 1).bmod (2 ^ 32)
  if n = 0 then some 0
  else if n = 1 ∨ n = 2 then costs.data[n.toNat]?.map Int32.toInt
  else
    costs.data[1]?.bind fun first =>
      costs.data[2]?.bind fun second =>
        stairLoop costs.data ((n % 2 ^ 64).toNat - 2) 3 first.toInt second.toInt

end Sparo.Test
