import Sparo.Misc.WhileLoop
import Sparo.Test.Algo

/-!
# Permutations

`src/test/al.cc`: backtracking over the places of a vector. An index that is not in a vector and a
`pop_back` of an empty one are undefined.
-/

namespace Sparo.Test

open WhileLoop

/-- What `backtrack` changes. -/
structure Search where
  state : List Int32
  selected : List Bool
  res : List (List Int32)
  deriving DecidableEq, Repr

namespace Search

/-- Before the next round: the place `i` is taken. -/
def select (s : Search) (i : Nat) (choice : Int32) : Search where
  state := s.state ++ [choice]
  selected := s.selected.set i true
  res := s.res

/-- After it. -/
def unselect (s : Search) (i : Nat) : Outcome Search :=
  if s.state = [] then .undefined
  else if i < s.selected.length then
    .returned ⟨s.state.dropLast, s.selected.set i false, s.res⟩
  else .undefined

end Search

/-- The loop of `backtrack` over the choices from the place `i` on. -/
def tryPlaces (visit : Search → Outcome Search) : List Int32 → Nat → Search → Outcome Search
  | [], _, s => .returned s
  | choice :: choices, i, s =>
    match s.selected[i]? with
    | none => .undefined
    | some true => tryPlaces visit choices (i + 1) s
    | some false =>
      (visit (s.select i choice)).bind fun s =>
        (s.unselect i).bind (tryPlaces visit choices (i + 1))

/-- `backtrack`, with so many calls inside each other. -/
def backtrack (choices : List Int32) : Nat → Search → Outcome Search
  | 0, _ => .running
  | depth + 1, s =>
    if s.state.length = choices.length then .returned { s with res := s.res ++ [s.state] }
    else tryPlaces (backtrack choices depth) choices 0 s

/-- `permutationsI`. -/
def permutationsI (depth : Nat) (nums : List Int32) : Outcome (List (List Int32)) :=
  (backtrack nums depth ⟨[], List.replicate nums.length false, []⟩).bind fun s => .returned s.res

end Sparo.Test
