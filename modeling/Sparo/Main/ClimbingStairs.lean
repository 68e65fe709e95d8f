import Sparo.Misc.IntSum
import Sparo.Misc.WhileLoop

/-!
# Climbing stairs, three times

`src/main/main.cc`: the number of ways up `n` stairs by a search with a memory, with a table, and by
backtracking. An `int` has 32 bits, and a sum that overflows or an index that is not in the vector
is undefined.
-/

namespace Sparo.Main

open IntSum WhileLoop

/-- `vector[i] = value`. -/
def store (vector : List Int) (i : Nat) (value : Int) : Option (List Int) :=
  if i < vector.length then some (vector.set i value) else none

/-! ## The search with a memory -/

/-- `dfs`. Which of the two calls comes first is left to the compiler. The call for -1, below the
stair 0, has no record to read. -/
def dfs (leftFirst : Bool) : Nat → List Int → Option (Int × List Int)
  | 0, mem => mem[0]?.bind fun recorded => if recorded ≠ -1 then some (recorded, mem) else none
  | 1, mem => some (1, mem)
  | 2, mem => some (2, mem)
  | i + 3, mem =>
    mem[i + 3]?.bind fun recorded =>
      if recorded ≠ -1 then some (recorded, mem)
      else
        let calls :=
          if leftFirst then
            (dfs leftFirst (i + 2) mem).bind fun (left, mem) =>
              (dfs leftFirst (i + 1) mem).map fun (right, mem) => (left, right, mem)
          else
            (dfs leftFirst (i + 1) mem).bind fun (right, mem) =>
              (dfs leftFirst (i + 2) mem).map fun (left, mem) => (left, right, mem)
        calls.bind fun (left, right, mem) =>
          (addInt left right).bind fun count =>
            (store mem (i + 3) count).map fun mem => (count, mem)

/-- `climbingStairsDFSMem`. -/
def climbingStairsDFSMem (leftFirst : Bool) (n : Nat) : Option Int :=
  (addInt n 1).bind fun size =>
    (dfs leftFirst n (List.replicate size.toNat (-1))).map Prod.fst

/-! ## The table -/

/-- The loop of `climbingStairsDP`, with so many turns left. -/
def fillTable : Nat → Nat → List Int → Option (List Int)
  | 0, _, dp => some dp
  | turns + 1, i, dp =>
    match dp[i - 1]?, dp[i - 2]? with
    | some above, some below =>
      (addInt above below).bind fun count => (store dp i count).bind (fillTable turns (i + 1))
    | _, _ => none

def climbingStairsDP (n : Nat) : Option Int :=
  if n = 1 ∨ n = 2 then some n
  else
    (addInt n 1).bind fun size =>
      (store (List.replicate size.toNat 0) 1 1).bind fun dp =>
        (store dp 2 2).bind fun dp => (fillTable (n - 2) 3 dp).bind fun dp => dp[n]?

/-! ## Backtracking -/

/-- The loop of `backtrack` over the choices. -/
def tryChoices (visit : Int → Int → Outcome Int) (state n : Int) : List Int → Int → Outcome Int
  | [], res => .returned res
  | choice :: choices, res =>
    match addInt state choice with
    | none => .undefined
    | some next =>
      if next > n then tryChoices visit state n choices res
      else (visit next res).bind (tryChoices visit state n choices)

/-- `backtrack`, with so many calls inside each other. The counter is `res[0]`. -/
def backtrack (choices : List Int) (n : Int) : Nat → Int → Int → Outcome Int
  | 0, _, _ => .running
  | depth + 1, state, res =>
    if state = n then
      match addInt res 1 with
      | none => .undefined
      | some res => tryChoices (backtrack choices n depth) state n choices res
    else tryChoices (backtrack choices n depth) state n choices res

def climbingStairsBacktrack (depth : Nat) (n : Int) : Outcome Int :=
  backtrack [1, 2] n depth 0 0

end Sparo.Main
