import Sparo.Misc.BubblePass
import Sparo.Test.Algo

/-!
# What the bubble sort sorts

The outer loop passes over the elements that are in order already and ends after the first pass that
moved something. So the vector is in order at the end exactly when that one pass was enough.
-/

namespace Sparo.Test

open BubblePass

variable {numbs t : IntVector} {x y : Int32} {done ys pre mid post : List Int32}
  {i n : Nat}

/-- Behind the elements that are passed stands the one that the pass carries. -/
theorem getElem?_carried (hi : i = done.length + ys.length) :
    (done ++ ys ++ x :: post)[i]? = some x := by
  rw [hi, ← List.length_append, List.getElem?_append_right (Nat.le_refl _), Nat.sub_self,
    List.getElem?_cons_zero]

/-- An exchange of the carried element for the next one. -/
theorem data_swap (hi : i = done.length + (y :: ys).length)
    (hdata : numbs.data = done ++ (y :: ys) ++ x :: post) :
    (numbs.swap i done.length x y).data = (done ++ [x]) ++ ys ++ y :: post := by
  change (numbs.data.set i y).set done.length x = _
  rw [hdata, hi]
  simp

/-- The inner loop is one pass of the element at its end, and it tells whether the pass moved
anything. -/
theorem innerLoop_eq (done : List Int32) (flag : Bool) (hi : i = done.length + ys.length)
    (hdata : numbs.data = done ++ ys ++ x :: post) :
    ∃ t, innerLoop i ys.length done.length numbs flag = some (t, flag || ys.any (x < ·)) ∧
      t.data = done ++ (bubble x ys).1 ++ (bubble x ys).2 :: post := by
  induction ys generalizing done x numbs flag with
  | nil =>
    refine ⟨numbs, ?_, hdata⟩
    rw [List.any_nil, Bool.or_false]
    rfl
  | cons y ys ih =>
    have hy : numbs.data[done.length]? = some y := by
      rw [hdata]
      simp
    have hx : numbs.data[i]? = some x := by
      rw [hdata, getElem?_carried hi]
    have hnext : ∀ z : Int32, i = (done ++ [z]).length + ys.length := by
      intro z
      rw [hi, List.length_cons, List.length_append, List.length_singleton]
      omega
    rw [List.length_cons, innerLoop, hy, hx, List.any_cons]
    dsimp only
    by_cases hlt : x < y
    · obtain ⟨t, ht, htdata⟩ := ih _ true (hnext x) (data_swap hi hdata)
      rw [List.length_append, List.length_singleton, Bool.true_or] at ht
      refine ⟨t, ?_, ?_⟩
      · rw [if_pos hlt, decide_eq_true hlt, Bool.true_or, Bool.or_true, ht]
      · rw [htdata, bubble_cons_of_le (le_of_lt hlt)]
        simp
    · have hkept : numbs.data = (done ++ [y]) ++ ys ++ x :: post := by
        rw [hdata]
        simp
      obtain ⟨t, ht, htdata⟩ := ih _ flag (hnext y) hkept
      rw [List.length_append, List.length_singleton] at ht
      refine ⟨t, ?_, ?_⟩
      · rw [if_neg hlt, decide_eq_false hlt, Bool.false_or, ht]
      · rw [htdata, bubble_cons_of_ge (not_lt.mp hlt)]
        simp

/-- A pass of an element that nothing is greater than moves nothing. -/
theorem innerLoop_of_le (hi : i = ys.length) (hdata : numbs.data = ys ++ x :: post)
    (hle : ∀ y ∈ ys, y ≤ x) : innerLoop i i 0 numbs false = some (numbs, false) := by
  subst hi
  obtain ⟨t, ht, htdata⟩ := innerLoop_eq [] false (Nat.zero_add _).symm hdata
  have hany : ys.any (x < ·) = false := by
    simpa using hle
  have hkept : t = numbs := by
    refine IntVector.ext ?_
    rw [htdata, hdata, bubble_of_le hle]
    rfl
  rw [List.length_nil, hany, hkept] at ht
  exact ht

/-- The outer loop goes past the elements that are settled. -/
theorem outerLoop_settled (hdata : numbs.data = pre ++ mid ++ post) (hpre : pre.length = n + 1)
    (hsettled : Settled pre mid) : outerLoop (n + mid.length) numbs = outerLoop n numbs := by
  induction mid using List.reverseRecOn generalizing post with
  | nil => rfl
  | append_singleton mid z ih =>
    have hsorted := List.pairwise_append.mp hsettled.sorted
    have hle : ∀ y ∈ pre ++ mid, y ≤ z := by
      intro y hy
      rcases List.mem_append.mp hy with hy | hy
      · exact hsettled.above y hy z (List.mem_append_right _ (List.mem_singleton_self z))
      · exact hsorted.2.2 y hy z (List.mem_singleton_self z)
    have hlength : n + mid.length + 1 = (pre ++ mid).length := by
      rw [List.length_append, hpre, Nat.add_right_comm]
    have hsplit : numbs.data = pre ++ mid ++ z :: post := by
      rw [hdata]
      simp
    have hunmoved := innerLoop_of_le hlength hsplit hle
    rw [List.length_append, List.length_singleton, ← Nat.add_assoc, outerLoop, hunmoved]
    refine ih hsplit ⟨hsorted.1, fun a ha b hb => ?_⟩
    exact hsettled.above a ha b (List.mem_append_left _ hb)

/-- The outer loop ends after the pass of an element that is less than one before it. -/
theorem outerLoop_moved (hdata : numbs.data = ys ++ x :: post) (hless : ∃ y ∈ ys, x < y) :
    ∃ t, outerLoop ys.length numbs = some t ∧
      t.data = (bubble x ys).1 ++ (bubble x ys).2 :: post := by
  obtain ⟨t, ht, htdata⟩ := innerLoop_eq [] false (Nat.zero_add _).symm hdata
  have hany : ys.any (x < ·) = true := by
    simpa using hless
  cases ys with
  | nil => cases hany
  | cons y ys =>
    refine ⟨t, ?_, htdata⟩
    rw [List.length_nil, hany, List.length_cons] at ht
    rw [List.length_cons, outerLoop, ht]
    rfl

/-- The first pass is the one of the last element. -/
theorem bubbleSort_eq (hlength : numbs.data.length = n + 1) :
    bubbleSort numbs = outerLoop n numbs := by
  have hlt := numbs.length_lt
  have hstart : (numbs.data.length + 2 ^ 64 - 1) % 2 ^ 64 = n := by omega
  rw [bubbleSort, hstart]

/-- The difference wraps around, and the vector has no element to read. -/
theorem bubbleSort_empty (hdata : numbs.data = []) : bubbleSort numbs = none := by
  have hstart : (numbs.data.length + 2 ^ 64 - 1) % 2 ^ 64 = (2 ^ 64 - 2) + 1 := by
    rw [hdata, List.length_nil]
    omega
  rw [bubbleSort, hstart, outerLoop, innerLoop, hdata]
  rfl

/-- A vector that is in order stays as it is. -/
theorem bubbleSort_sorted (hdata : numbs.data ≠ []) (hsorted : numbs.data.Pairwise (· ≤ ·)) :
    bubbleSort numbs = some numbs := by
  cases hcons : numbs.data with
  | nil => exact absurd hcons hdata
  | cons a mid =>
    rw [hcons, List.pairwise_cons] at hsorted
    have hsettled : Settled [a] mid :=
      ⟨hsorted.2, fun b hb => List.mem_singleton.mp hb ▸ hsorted.1⟩
    have hsplit : numbs.data = [a] ++ mid ++ [] := by
      rw [hcons, List.append_nil]
      rfl
    have hlength : numbs.data.length = mid.length + 1 := by
      rw [hcons, List.length_cons]
    have hpassed := outerLoop_settled (n := 0) hsplit rfl hsettled
    rw [Nat.zero_add] at hpassed
    rw [bubbleSort_eq hlength, hpassed]
    rfl

/-- Otherwise one pass is made, of the last element that is less than one before it. -/
theorem bubbleSort_lastLess (hdata : numbs.data = ys ++ x :: post) (hlast : LastLess ys x post) :
    ∃ t, bubbleSort numbs = some t ∧ t.data = (bubble x ys).1 ++ (bubble x ys).2 :: post := by
  have hsplit : numbs.data = (ys ++ [x]) ++ post ++ [] := by
    rw [hdata]
    simp
  have hlength : numbs.data.length = (ys.length + post.length) + 1 := by
    rw [hdata, List.length_append, List.length_cons, Nat.add_assoc]
  have hpre : (ys ++ [x]).length = ys.length + 1 := by
    rw [List.length_append, List.length_singleton]
  rw [bubbleSort_eq hlength, outerLoop_settled hsplit hpre hlast.settled]
  exact outerLoop_moved hdata hlast.less

/-- What `BubbleSort` is for: it returns, and the vector is in order and holds what it held. -/
def Sorts (numbs : IntVector) : Prop :=
  ∃ t, bubbleSort numbs = some t ∧ t.data.Perm numbs.data ∧ t.data.Pairwise (· ≤ ·)

/-- The vector is not empty, and in the list of the last element `x` that is less than one before it
and of the elements before `x`, no element is less than two of those before it. -/
def OnePassSuffices (xs : List Int32) : Prop :=
  xs ≠ [] ∧ ∀ ys x post, xs = ys ++ x :: post → LastLess ys x post → AtMostOneGreater (x :: ys)

/-- `BubbleSort` sorts exactly what one pass sorts. -/
theorem bubbleSort_sorts_iff (numbs : IntVector) :
    Sorts numbs ↔ OnePassSuffices numbs.data := by
  constructor
  · rintro ⟨t, ht, -, hsorted⟩
    refine ⟨fun hempty => ?_, fun ys x post hdata hlast => ?_⟩
    · rw [bubbleSort_empty hempty] at ht
      cases ht
    · obtain ⟨u, hu, hudata⟩ := bubbleSort_lastLess hdata hlast
      obtain rfl : t = u := Option.some.inj (ht.symm.trans hu)
      rw [hudata] at hsorted
      exact hlast.settled.pairwise_pass_iff.mp hsorted
  · rintro ⟨hne, hone⟩
    rcases sorted_or_lastLess numbs.data with hsorted | ⟨ys, x, post, hdata, hlast⟩
    · exact ⟨numbs, bubbleSort_sorted hne hsorted, .refl _, hsorted⟩
    · obtain ⟨t, ht, htdata⟩ := bubbleSort_lastLess hdata hlast
      refine ⟨t, ht, ?_, ?_⟩
      · rw [htdata, hdata]
        exact pass_perm x ys post
      · rw [htdata]
        exact hlast.settled.pairwise_pass_iff.mpr (hone ys x post hdata hlast)

theorem not_sorts_second_pass_and_empty :
    ¬Sorts ⟨[3, 1, 2], by decide⟩ ∧ ¬Sorts ⟨[], by decide⟩ := by
  constructor
  · rintro ⟨t, ht, -, hsorted⟩
    have hdata : some t.data = some [2, 1, 3] := by
      rw [← Option.map_some, ← ht]
      rfl
    rw [Option.some.inj hdata] at hsorted
    exact absurd hsorted (by decide)
  · rintro ⟨t, ht, -⟩
    rw [bubbleSort_empty rfl] at ht
    cases ht

end Sparo.Test
