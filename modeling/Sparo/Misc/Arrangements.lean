import Mathlib.Data.List.FinRange
import Mathlib.Data.List.Permutation

/-!
# Arrangements

All orders of the elements of a list, by taking each element in turn for the first place. They are
the permutations of the list, each as often as `List.permutations` has it.
-/

namespace Arrangements

variable {α β : Type*}

/-- Each element of a list with the others, which start with `before`. -/
def picks (before : List α) : List α → List (α × List α)
  | [] => []
  | x :: xs => (x, before ++ xs) :: picks (before ++ [x]) xs

/-- The orders of `n` elements. -/
def arrangements : Nat → List α → List (List α)
  | 0, _ => [[]]
  | n + 1, xs => (picks [] xs).flatMap fun pick => (arrangements n pick.2).map (pick.1 :: ·)

theorem picks_map (f : α → β) (before xs : List α) :
    picks (before.map f) (xs.map f) = (picks before xs).map (Prod.map f (List.map f)) := by
  induction xs generalizing before with
  | nil => rfl
  | cons x xs ih =>
    have hrest := ih (before ++ [x])
    rw [List.map_append] at hrest
    rw [List.map_cons, picks, picks, List.map_cons, ← hrest, ← List.map_append]
    rfl

theorem arrangements_map (f : α → β) (n : Nat) (xs : List α) :
    arrangements n (xs.map f) = (arrangements n xs).map (List.map f) := by
  induction n generalizing xs with
  | zero => rfl
  | succ n ih =>
    have hpicks := picks_map f [] xs
    rw [List.map_nil] at hpicks
    rw [arrangements, arrangements, hpicks, List.flatMap_map, List.map_flatMap]
    congr 1
    funext pick
    rw [Prod.map_snd, ih, List.map_map, List.map_map]
    rfl

theorem mem_picks {before xs rest : List α} {x : α} :
    (x, rest) ∈ picks before xs ↔ ∃ l r, xs = l ++ x :: r ∧ rest = before ++ (l ++ r) := by
  induction xs generalizing before with
  | nil => simp [picks]
  | cons y xs ih =>
    rw [picks, List.mem_cons, ih]
    constructor
    · rintro (h | ⟨l, r, rfl, rfl⟩)
      · cases h
        exact ⟨[], xs, rfl, rfl⟩
      · exact ⟨y :: l, r, rfl, by simp⟩
    · rintro ⟨l, r, hxs, rfl⟩
      cases l with
      | nil =>
        cases hxs
        exact .inl rfl
      | cons z l =>
        cases hxs
        exact .inr ⟨l, r, rfl, by simp⟩

theorem perm_of_mem_picks {xs rest : List α} {x : α} (h : (x, rest) ∈ picks [] xs) :
    (x :: rest).Perm xs := by
  obtain ⟨l, r, rfl, rfl⟩ := mem_picks.mp h
  rw [List.nil_append]
  exact List.perm_middle.symm

/-- The orders of a list are its permutations. -/
theorem mem_arrangements {n : Nat} {xs ys : List α} (hlength : xs.length = n) :
    ys ∈ arrangements n xs ↔ ys.Perm xs := by
  induction n generalizing xs ys with
  | zero =>
    rw [List.length_eq_zero_iff.mp hlength, arrangements, List.mem_singleton, List.perm_nil]
  | succ n ih =>
    simp only [arrangements, List.mem_flatMap, List.mem_map]
    constructor
    · rintro ⟨⟨x, rest⟩, hpick, zs, hzs, rfl⟩
      have hperm := perm_of_mem_picks hpick
      have hrest : rest.length = n := by
        have := hperm.length_eq
        simp at this
        omega
      exact (((ih hrest).mp hzs).cons x).trans hperm
    · intro hperm
      obtain ⟨y, zs, rfl⟩ := List.exists_cons_of_length_eq_add_one (hperm.length_eq.trans hlength)
      obtain ⟨l, r, rfl⟩ := List.append_of_mem (hperm.subset (List.mem_cons_self ..))
      have hzs : zs.Perm (l ++ r) := (hperm.trans List.perm_middle).cons_inv
      have hrest : (l ++ r).length = n := by
        simp at hlength ⊢
        omega
      exact ⟨(y, l ++ r), mem_picks.mpr ⟨l, r, rfl, rfl⟩, zs, (ih hrest).mpr hzs, rfl⟩

theorem map_fst_picks (before xs : List α) : (picks before xs).map Prod.fst = xs := by
  induction xs generalizing before with
  | nil => rfl
  | cons x xs ih => rw [picks, List.map_cons, ih]

/-- The orders of different elements differ. -/
theorem nodup_arrangements {n : Nat} {xs : List α} (h : xs.Nodup) :
    (arrangements n xs).Nodup := by
  induction n generalizing xs with
  | zero => exact List.nodup_singleton _
  | succ n ih =>
    rw [arrangements, List.nodup_flatMap]
    constructor
    · rintro ⟨x, rest⟩ hpick
      have hrest := ((perm_of_mem_picks hpick).nodup_iff.mpr h).of_cons
      exact (ih hrest).map (List.cons_injective)
    · rw [← map_fst_picks [] xs, List.Nodup, List.pairwise_map] at h
      apply h.imp
      intro p q hne ys hp hq
      obtain ⟨_, -, rfl⟩ := List.mem_map.mp hp
      obtain ⟨_, -, heq⟩ := List.mem_map.mp hq
      exact hne (List.cons.inj heq).1.symm

/-- Equal elements are told apart by their places. -/
theorem arrangements_perm_permutations (xs : List α) :
    (arrangements xs.length xs).Perm xs.permutations := by
  have hplaces : (List.finRange xs.length).map xs.get = xs := List.map_get_finRange xs
  have hperm : (arrangements xs.length (List.finRange xs.length)).Perm
      (List.finRange xs.length).permutations := by
    have hnodup := List.nodup_finRange xs.length
    rw [List.perm_ext_iff_of_nodup (nodup_arrangements hnodup)
      (List.nodup_permutations _ hnodup)]
    intro ys
    rw [mem_arrangements (List.length_finRange), List.mem_permutations]
  have hmap := hperm.map (List.map xs.get)
  rwa [← arrangements_map, List.map_permutations, hplaces] at hmap

end Arrangements
