import Sparo.Misc.Arrangements
import Sparo.Test.Al

/-!
# Every permutation once

`permutationsI` gives the permutations of the places of its vector.
-/

namespace Sparo.Test

open Arrangements WhileLoop

variable {choices before after : List Int32} {s : Search}

/-- The choices that have not been selected. -/
def unselected (choices : List Int32) (selected : List Bool) : List Int32 :=
  ((choices.zip selected).filter fun place => !place.2).map Prod.fst

theorem unselected_nil (selected : List Bool) : unselected [] selected = [] := rfl

theorem unselected_true (choice : Int32) (choices : List Int32) (selected : List Bool) :
    unselected (choice :: choices) (true :: selected) = unselected choices selected := rfl

theorem unselected_false (choice : Int32) (choices : List Int32) (selected : List Bool) :
    unselected (choice :: choices) (false :: selected) =
      choice :: unselected choices selected := rfl

theorem unselected_append {left right : List Bool} (h : before.length = left.length) :
    unselected (before ++ after) (left ++ right) =
      unselected before left ++ unselected after right := by
  rw [unselected, List.zip_append h, List.filter_append, List.map_append]
  rfl

theorem unselected_replicate (choices : List Int32) :
    unselected choices (List.replicate choices.length false) = choices := by
  induction choices with
  | nil => rfl
  | cons choice choices ih => rw [List.length_cons, List.replicate_succ, unselected_false, ih]

/-- The search with these orders of the choices that remain added to its results. -/
def Search.add (s : Search) (found : List (List Int32)) : Search :=
  { s with res := s.res ++ found.map (s.state ++ ·) }

theorem Search.add_add (s : Search) (found found' : List (List Int32)) :
    (s.add found).add found' = s.add (found ++ found') := by
  simp [Search.add]

theorem Search.add_nil (s : Search) : s.add [] = s := by
  simp [Search.add]

/-- A round with one more choice leaves only its results behind. -/
theorem Search.unselect_add {i : Nat} {choice : Int32} (hfree : s.selected[i]? = some false)
    (found : List (List Int32)) :
    ((s.select i choice).add found).unselect i = .returned (s.add (found.map (choice :: ·))) := by
  obtain ⟨hlt, hfalse⟩ := List.getElem?_eq_some_iff.mp hfree
  have hselected : (s.selected.set i true).set i false = s.selected := by
    rw [List.set_set, ← hfalse, List.set_getElem_self]
  simp [Search.unselect, Search.add, Search.select, hselected, hlt, Function.comp_def]

theorem getElem?_place (left right : List Bool) (taken : Bool) :
    (left ++ taken :: right)[left.length]? = some taken := by
  rw [List.getElem?_append_right (Nat.le_refl _), Nat.sub_self]
  rfl

/-- What a round does when so many choices remain. -/
def Rounds (choices : List Int32) (n : Nat) (visit : Search → Outcome Search) : Prop :=
  ∀ s : Search, s.selected.length = choices.length → s.state.length + n = choices.length →
    (unselected choices s.selected).length = n →
    visit s = .returned (s.add (arrangements n (unselected choices s.selected)))

/-- The loop goes through the choices that remain and tries each for the next place. It has passed
`before`, whose places are taken as `left` says. -/
theorem tryPlaces_returns {n : Nat} {visit : Search → Outcome Search}
    (hvisit : Rounds choices n visit) :
    (after before : List Int32) → (left right : List Bool) → (s : Search) →
    choices = before ++ after → s.selected = left ++ right → before.length = left.length →
    after.length = right.length → s.state.length + (n + 1) = choices.length →
    (unselected choices s.selected).length = n + 1 →
    tryPlaces visit after before.length s = .returned (s.add
      ((picks (unselected before left) (unselected after right)).flatMap fun pick =>
        (arrangements n pick.2).map (pick.1 :: ·)))
  | [], _, _, _, s, _, _, _, _, _, _ => by
    rw [tryPlaces, unselected_nil]
    exact congrArg Outcome.returned s.add_nil.symm
  | choice :: after, before, left, [], s, _, _, _, hright, _, _ => by cases hright
  | choice :: after, before, left, true :: right, s, hchoices, hselected, hleft, hright, hstate,
      hcount => by
    have htaken : s.selected[before.length]? = some true := by
      rw [hselected, hleft, getElem?_place]
    have ih := tryPlaces_returns hvisit after (before ++ [choice]) (left ++ [true]) right s
      (by simp [hchoices]) (by simp [hselected]) (by simp [hleft])
      (Nat.succ.inj hright) hstate hcount
    rw [List.length_append, unselected_append hleft, unselected_true, unselected_nil,
      List.append_nil] at ih
    rw [tryPlaces, htaken, unselected_true]
    exact ih
  | choice :: after, before, left, false :: right, s, hchoices, hselected, hleft, hright, hstate,
      hcount => by
    have hfree : s.selected[before.length]? = some false := by
      rw [hselected, hleft, getElem?_place]
    have hset : (s.select before.length choice).selected = left ++ true :: right := by
      rw [Search.select, hselected, hleft, List.set_append_right _ _ (Nat.le_refl _), Nat.sub_self]
      rfl
    have hothers : unselected choices (s.select before.length choice).selected =
        unselected before left ++ unselected after right := by
      rw [hset, hchoices, unselected_append hleft, unselected_true]
    have hround := hvisit (s.select before.length choice)
      (by
        rw [hset, hchoices]
        simp [hleft, Nat.succ.inj hright])
      (by simp [Search.select]; omega)
      (by
        rw [hchoices, hselected, unselected_append hleft, unselected_false] at hcount
        rw [hothers]
        simp at hcount ⊢
        omega)
    rw [hothers] at hround
    have ih := fun found => tryPlaces_returns hvisit after (before ++ [choice]) (left ++ [false])
      right (s.add found) (by simp [hchoices]) (by simp [hselected, Search.add]) (by simp [hleft])
      (Nat.succ.inj hright) hstate hcount
    rw [List.length_append, unselected_append hleft, unselected_false, unselected_nil] at ih
    rw [tryPlaces, hfree]
    simp only []
    rw [hround, Outcome.bind_returned, Search.unselect_add hfree, Outcome.bind_returned,
      unselected_false, picks, List.flatMap_cons, ← Search.add_add]
    exact ih _

/-- A call with enough of them to come adds every order of the choices that remain. -/
theorem rounds_backtrack (choices : List Int32) :
    (depth n : Nat) → n < depth → Rounds choices n (backtrack choices depth)
  | depth + 1, 0, _, s, _, hstate, _ => by
    rw [backtrack, if_pos (by omega), arrangements, Search.add, List.map_singleton, List.append_nil]
  | depth + 1, n + 1, hdepth, s, hlength, hstate, hcount => by
    rw [backtrack, if_neg (by omega), arrangements]
    exact tryPlaces_returns (rounds_backtrack choices depth n (by omega)) choices [] [] s.selected s
      rfl rfl rfl hlength.symm hstate hcount

/-- The results are the permutations of the places: equal elements are told apart, and every one
that the vector has comes exactly once. -/
theorem permutations_once {depth : Nat} (nums : List Int32) (hdepth : nums.length < depth) :
    ∃ res, permutationsI depth nums = .returned res ∧ res.Perm nums.permutations := by
  refine ⟨arrangements nums.length nums, ?_, arrangements_perm_permutations nums⟩
  have hrounds := rounds_backtrack nums depth nums.length hdepth
    ⟨[], List.replicate nums.length false, []⟩ List.length_replicate (Nat.zero_add _)
    (by rw [unselected_replicate])
  rw [permutationsI, hrounds, Outcome.bind_returned, unselected_replicate]
  simp [Search.add]

theorem permutations_once_three :
    ∃ res, permutationsI 4 [1, 2, 3] = .returned res ∧ res.Perm [1, 2, 3].permutations :=
  permutations_once [1, 2, 3] (by decide)

end Sparo.Test
