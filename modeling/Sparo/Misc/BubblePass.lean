import Mathlib.Data.List.Induction
import Mathlib.Data.List.Triplewise
import Mathlib.Order.MinMax
import Mathlib.Tactic.Tauto

/-!
# One pass of a bubble sort

A pass carries an element along a list and exchanges it for every greater one it meets, so that the
greatest comes out at the end. What it leaves behind is in order exactly when no element is less
than two of the elements before it.
-/

namespace BubblePass

variable {α : Type*} [LinearOrder α] {a x y z : α} {xs ys zs post : List α}

/-- What the pass leaves behind, and what it carries at the end. -/
def bubble : α → List α → List α × α
  | x, [] => ([], x)
  | x, y :: ys => (min x y :: (bubble (max x y) ys).1, (bubble (max x y) ys).2)

/-- No element is less than two of those before it. -/
def AtMostOneGreater (xs : List α) : Prop := xs.Triplewise fun a b c => ¬(c < a ∧ c < b)

/-- The end of a list is where a sort leaves it: in order, and not below what stands before it. -/
structure Settled (pre post : List α) : Prop where
  sorted : post.Pairwise (· ≤ ·)
  above : ∀ a ∈ pre, ∀ b ∈ post, a ≤ b

/-- Between `ys` and `post` stands the last element that is less than one of those before it. -/
structure LastLess (ys : List α) (x : α) (post : List α) : Prop where
  less : ∃ y ∈ ys, x < y
  settled : Settled (ys ++ [x]) post

/-- A greater element takes the place of the carried one. -/
theorem bubble_cons_of_le (h : x ≤ y) :
    bubble x (y :: ys) = (x :: (bubble y ys).1, (bubble y ys).2) := by
  rw [bubble, min_eq_left h, max_eq_right h]

/-- The pass goes on with the element that it carries. -/
theorem bubble_cons_of_ge (h : y ≤ x) :
    bubble x (y :: ys) = (y :: (bubble x ys).1, (bubble x ys).2) := by
  rw [bubble, min_eq_right h, max_eq_left h]

theorem bubble_perm (x : α) (ys : List α) :
    ((bubble x ys).1 ++ [(bubble x ys).2]).Perm (x :: ys) := by
  induction ys generalizing x with
  | nil => exact .refl _
  | cons y ys ih =>
    rcases le_total x y with hxy | hyx
    · rw [bubble_cons_of_le hxy]
      exact (ih y).cons x
    · rw [bubble_cons_of_ge hyx]
      exact ((ih x).cons y).trans (.swap x y ys)

/-- A pass at the front of a list moves its elements. -/
theorem pass_perm (x : α) (ys post : List α) :
    ((bubble x ys).1 ++ (bubble x ys).2 :: post).Perm (ys ++ x :: post) := by
  rw [List.append_cons, List.append_cons ys]
  exact ((bubble_perm x ys).trans (List.perm_append_singleton x ys).symm).append_right post

/-- A pass of an element that nothing is greater than leaves the list as it is. -/
theorem bubble_of_le (h : ∀ y ∈ ys, y ≤ x) : bubble x ys = (ys, x) := by
  induction ys with
  | nil => rfl
  | cons y ys ih =>
    obtain ⟨hy, hys⟩ := List.forall_mem_cons.mp h
    rw [bubble_cons_of_ge hy, ih hys]

/-- The carried element only grows. -/
theorem le_bubble_snd (x : α) (ys : List α) : x ≤ (bubble x ys).2 := by
  induction ys generalizing x with
  | nil => exact le_refl x
  | cons y ys ih => exact (le_max_left x y).trans (ih (max x y))

/-- The greatest element comes out. -/
theorem le_snd_of_mem_fst (hz : z ∈ (bubble x ys).1) : z ≤ (bubble x ys).2 := by
  induction ys generalizing x with
  | nil => cases hz
  | cons y ys ih =>
    rcases List.mem_cons.mp hz with rfl | hz
    · exact min_le_max.trans (le_bubble_snd (max x y) ys)
    · exact ih hz

/-- What the pass leaves behind has the lower bounds of the list. -/
theorem forall_le_fst_iff (hx : a ≤ x) :
    (∀ z ∈ (bubble x ys).1, a ≤ z) ↔ ∀ y ∈ ys, a ≤ y := by
  induction ys generalizing x with
  | nil => simp [bubble]
  | cons y ys ih =>
    rw [bubble, List.forall_mem_cons, List.forall_mem_cons, ih (hx.trans (le_max_left x y)),
      le_min_iff, and_iff_right hx]

theorem atMostOneGreater_cons :
    AtMostOneGreater (x :: ys) ↔
      ys.Pairwise (fun b c => ¬(c < x ∧ c < b)) ∧ AtMostOneGreater ys :=
  List.triplewise_cons

/-- One pass sorts what it leaves behind exactly when it moves every element far enough. -/
theorem sorted_fst_iff :
    (bubble x ys).1.Pairwise (· ≤ ·) ↔ AtMostOneGreater (x :: ys) := by
  induction ys generalizing x with
  | nil => simp [bubble, AtMostOneGreater]
  | cons y ys ih =>
    have hmin : (∀ c ∈ ys, min x y ≤ c) ↔ ∀ c ∈ ys, ¬(c < x ∧ c < y) := by
      simp only [← lt_min_iff, not_lt]
    have hmax : ys.Pairwise (fun b c => ¬(c < max x y ∧ c < b)) ↔
        ys.Pairwise (fun b c => ¬(c < x ∧ c < b)) ∧
          ys.Pairwise (fun b c => ¬(c < y ∧ c < b)) := by
      rw [← List.pairwise_and_iff]
      simp only [lt_max_iff, or_and_right, not_or]
    rw [bubble, List.pairwise_cons, forall_le_fst_iff min_le_max, ih, atMostOneGreater_cons,
      atMostOneGreater_cons, atMostOneGreater_cons, List.pairwise_cons, hmin, hmax]
    tauto

/-- A settled end stays behind what the pass leaves and what it carries. -/
theorem Settled.pairwise_pass_iff (h : Settled (ys ++ [x]) post) :
    ((bubble x ys).1 ++ (bubble x ys).2 :: post).Pairwise (· ≤ ·) ↔
      AtMostOneGreater (x :: ys) := by
  have hbelow : ∀ a ∈ (bubble x ys).1 ++ [(bubble x ys).2], ∀ b ∈ post, a ≤ b := by
    intro a ha b hb
    refine h.above a ?_ b hb
    exact (List.perm_append_singleton x ys).mem_iff.mpr ((bubble_perm x ys).mem_iff.mp ha)
  rw [← sorted_fst_iff, List.pairwise_append, List.pairwise_cons]
  refine ⟨And.left, fun hfst => ⟨hfst, ⟨?_, h.sorted⟩, fun a ha => ?_⟩⟩
  · exact hbelow _ (List.mem_append_right _ (List.mem_singleton_self _))
  · exact List.forall_mem_cons.mpr ⟨le_snd_of_mem_fst ha, hbelow a (List.mem_append_left _ ha)⟩

theorem Settled.concat (h : Settled xs post) (hz : ∀ a ∈ xs ++ post, a ≤ z) :
    Settled xs (post ++ [z]) where
  sorted := List.pairwise_append.mpr ⟨h.sorted, List.pairwise_singleton _ _, fun a ha b hb =>
    List.mem_singleton.mp hb ▸ hz a (List.mem_append_right _ ha)⟩
  above a ha b hb := by
    rcases List.mem_append.mp hb with hb | hb
    · exact h.above a ha b hb
    · exact List.mem_singleton.mp hb ▸ hz a (List.mem_append_left _ ha)

/-- A list is in order, or some element is the last that is less than one before it. -/
theorem sorted_or_lastLess (xs : List α) :
    xs.Pairwise (· ≤ ·) ∨ ∃ ys x post, xs = ys ++ x :: post ∧ LastLess ys x post := by
  induction xs using List.reverseRecOn with
  | nil => exact .inl .nil
  | append_singleton xs z ih =>
    by_cases hless : ∃ y ∈ xs, z < y
    · exact .inr ⟨xs, z, [], rfl, hless, .nil, fun _ _ b hb => absurd hb List.not_mem_nil⟩
    · have hz : ∀ a ∈ xs, a ≤ z := fun a ha => not_lt.mp fun hlt => hless ⟨a, ha, hlt⟩
      rcases ih with hsorted | ⟨ys, x, post, rfl, hlast⟩
      · refine .inl (List.pairwise_append.mpr ⟨hsorted, List.pairwise_singleton _ _, ?_⟩)
        exact fun a ha b hb => List.mem_singleton.mp hb ▸ hz a ha
      · refine .inr ⟨ys, x, post ++ [z], by simp, hlast.less, hlast.settled.concat ?_⟩
        rwa [List.append_assoc]

end BubblePass
