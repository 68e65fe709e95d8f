import Sparo.Base.Containers.Proofs.FlatTreeRuns
import Sparo.Misc.SortedClasses

/-!
# Which duplicate a flat tree keeps

Of the values with equivalent keys that a tree is built from, the first or the last stays, as the
caller asks. `LastUnique`, which keeps the last ones, moves elements to the front of its range
while it reads behind them; it never reads one that it has moved.
-/

namespace Sparo.Base

open SortedList

section InPlace

variable {β : Type} (compare : β → β → Bool)

/-- The first cell behind the gap. -/
theorem getElem?_behind_gap (kept : List β) (g : Option β) (gap : List (Option β)) (c : Option β)
    (post : List (Option β)) :
    (kept.map some ++ g :: gap ++ c :: post)[kept.length + gap.length + 1]? = some c := by
  have hfront : (kept.map some ++ g :: gap).length = kept.length + gap.length + 1 := by
    simp [Nat.add_assoc]
  rw [List.getElem?_append_right hfront.le, hfront, Nat.sub_self, List.getElem?_cons_zero]

/-- An element that is moved goes to the first cell of the gap, and its own cell to the end of
it. -/
theorem set_behind_gap (kept : List β) (g : Option β) (gap : List (Option β)) (x : β)
    (post : List (Option β)) :
    ((kept.map some ++ g :: gap ++ some x :: post).set (kept.length + gap.length + 1) none).set
      kept.length (some x) = (kept ++ [x]).map some ++ (gap ++ [none]) ++ post := by
  have hfront : (kept.map some ++ g :: gap).length = kept.length + gap.length + 1 := by
    simp [Nat.add_assoc]
  rw [List.set_append_right _ _ hfront.le, hfront, Nat.sub_self, List.append_assoc,
    List.set_append_right _ _ (List.length_map some).le, List.length_map, Nat.sub_self]
  simp

/-- In front of the cells that are still to be read stand the ones kept so far and, between the
two, at least one that may be overwritten. -/
theorem lastUniqueLoop_eq (rest : List β) (x : β) (kept : List β) (g : Option β)
    (gap : List (Option β)) :
    ∃ kept' z g' gap', kept' ++ [z] = kept ++ lastOfGroups compare (x :: rest) ∧
      lastUniqueLoop compare rest.length (kept.map some ++ g :: gap ++ (x :: rest).map some)
          kept.length (kept.length + gap.length + 1) =
        some (kept'.map some ++ g' :: gap' ++ [some z], kept'.length,
          kept'.length + gap'.length + 1) := by
  induction rest generalizing x kept g gap with
  | nil => exact ⟨kept, x, g, gap, rfl, rfl⟩
  | cons y rest ih =>
    have hx : (kept.map some ++ g :: gap ++ (x :: y :: rest).map some)[kept.length + gap.length +
        1]? = some (some x) := getElem?_behind_gap kept g gap (some x) ((y :: rest).map some)
    have hy : (kept.map some ++ g :: gap ++ (x :: y :: rest).map some)[kept.length + gap.length +
        1 + 1]? = some (some y) := by
      simp [Nat.add_assoc]
    rw [List.length_cons, lastUniqueLoop, hx, hy]
    simp only [Option.join_some]
    by_cases hdup : compare x y = true
    · -- The gap grows over `x`.
      obtain ⟨kept', z, g', gap', hkept, hloop⟩ := ih y kept g (gap ++ [some x])
      refine ⟨kept', z, g', gap', ?_, ?_⟩
      · rw [hkept, lastOfGroups, if_pos hdup]
      · rw [if_pos hdup]
        simpa [Nat.add_assoc] using hloop
    · have hgap : ∃ g₁ gap₁, gap ++ [none] = g₁ :: gap₁ := by
        cases gap with
        | nil => exact ⟨none, [], rfl⟩
        | cons g₁ gap => exact ⟨g₁, gap ++ [none], rfl⟩
      obtain ⟨g₁, gap₁, hgap⟩ := hgap
      have hgapLength : gap₁.length = gap.length := by
        simpa using (congrArg List.length hgap).symm
      have hmoved : ((kept.map some ++ g :: gap ++ (x :: y :: rest).map some).set
          (kept.length + gap.length + 1) none).set kept.length (some x) =
          (kept ++ [x]).map some ++ g₁ :: gap₁ ++ (y :: rest).map some := by
        rw [← hgap]
        exact set_behind_gap kept g gap x ((y :: rest).map some)
      obtain ⟨kept', z, g', gap', hkept, hloop⟩ := ih y (kept ++ [x]) g₁ gap₁
      refine ⟨kept', z, g', gap', ?_, ?_⟩
      · rw [hkept, lastOfGroups, if_neg hdup, List.append_assoc]
        rfl
      · rw [if_neg hdup, hmoved]
        simpa [Nat.add_assoc, Nat.add_comm, Nat.add_left_comm, hgapLength] using hloop

theorem adjacentFind_le (xs : List β) : adjacentFind compare xs ≤ xs.length := by
  induction xs with
  | nil => exact Nat.le_refl 0
  | cons x xs ih =>
    cases xs with
    | nil => exact Nat.le_refl 1
    | cons y xs =>
      rw [adjacentFind]
      split
      · exact Nat.zero_le _
      · exact Nat.succ_le_succ ih

/-- The range in front of the iterator that `LastUnique` returns. -/
theorem lastUniqueInPlace_eq (xs : List β) :
    ∃ cells, lastUniqueInPlace compare xs = some (cells, (lastUnique compare xs).length) ∧
      cells.take (lastUnique compare xs).length = (lastUnique compare xs).map some := by
  unfold lastUniqueInPlace lastUnique
  dsimp only
  have hle := adjacentFind_le compare xs
  by_cases hend : adjacentFind compare xs = xs.length
  · rw [if_pos hend, if_pos hend]
    exact ⟨_, rfl, List.take_of_length_le (List.length_map some).le⟩
  · rw [if_neg hend, if_neg hend]
    by_cases hlast : adjacentFind compare xs + 1 = xs.length
    · rw [if_pos hlast, if_pos hlast, List.length_take, Nat.min_eq_left hle]
      exact ⟨_, rfl, List.map_take.symm⟩
    · rw [if_neg hlast, if_neg hlast]
      obtain ⟨x, rest, hdrop⟩ : ∃ x rest, xs.drop (adjacentFind compare xs + 1) = x :: rest := by
        refine List.exists_cons_of_ne_nil fun hnil => ?_
        have := List.drop_eq_nil_iff.mp hnil
        omega
      have hfront : (xs.take (adjacentFind compare xs)).length = adjacentFind compare xs := by
        rw [List.length_take, Nat.min_eq_left hle]
      have hlt : adjacentFind compare xs < xs.length := Nat.lt_of_le_of_ne hle hend
      have hxs : xs.map some = (xs.take (adjacentFind compare xs)).map some ++
          some xs[adjacentFind compare xs] :: [] ++ (x :: rest).map some := by
        rw [← hdrop, ← List.map_singleton, ← List.map_append, ← List.map_append]
        simp
      have hrest : rest.length = xs.length - (adjacentFind compare xs + 1 + 1) := by
        have hlength := congrArg List.length hdrop
        rw [List.length_drop, List.length_cons] at hlength
        omega
      obtain ⟨kept, z, g, gap, hkept, hloop⟩ := lastUniqueLoop_eq compare rest x
        (xs.take (adjacentFind compare xs)) (some xs[adjacentFind compare xs]) []
      rw [← hxs, hfront, hrest, List.length_nil, Nat.add_zero] at hloop
      have hmoved := set_behind_gap kept g gap z []
      rw [List.append_nil] at hmoved
      rw [hdrop, ← hkept, hloop, Option.bind_some]
      simp only [getElem?_behind_gap, Option.join_some, Option.map_some, hmoved]
      refine ⟨_, by rw [List.length_append, List.length_singleton], ?_⟩
      rw [List.take_left' (List.length_map some)]

end InPlace

namespace FlatTree

/-- The one of several equivalent values, in the order of the caller, that is kept. -/
def kept {β : Type} (dupes : FlatContainerDupes) (values : List β) : List β :=
  match dupes with
  | .keepFirstOfDupes => values.head?.toList
  | .keepLastOfDupes => values.getLast?.toList

variable {κ β : Type} {lt : κ → κ → Bool} {key : β → κ} {dupes : FlatContainerDupes}
  {body : List β}

theorem kept_of_length_le {values : List β} (h : values.length ≤ 1) : kept dupes values = values :=
  match values, h with
  | [], _ => by cases dupes <;> rfl
  | [_], _ => by cases dupes <;> rfl

variable [IsStrictWeakOrder κ fun a b => lt a b = true]

theorem isClass_equivalent (k : κ) : IsClass (valueComp lt key) (equivalent lt key k) := by
  have hiff : ∀ v, equivalent lt key k v = true ↔ ¬lt (key v) k = true ∧ ¬lt k (key v) = true := by
    intro v
    simp [equivalent]
  refine ⟨fun a b ha hb => ?_, fun a b ha hab hba => ?_⟩
  · have hnot : ¬lt (key a) (key b) = true :=
      not_less_trans ((hiff b).mp hb).2 ((hiff a).mp ha).1
    exact hnot
  · obtain ⟨hak, hka⟩ := (hiff a).mp ha
    exact (hiff b).mpr ⟨not_less_trans hak hba, not_less_trans hab hka⟩

/-- `sort_and_unique` keeps one element of each class behind `first`. -/
theorem filter_sortAndUnique {e : β → Bool} (he : IsClass (valueComp lt key) e) (body : List β)
    (first : Nat) (dupes : FlatContainerDupes) :
    (sortAndUnique lt key body first dupes).filter e =
      (body.take first).filter e ++ kept dupes ((body.drop first).filter e) := by
  have hsorted := @pairwise_stableSort β (valueComp lt key) _ (body.drop first)
  have hstable := filter_stableSort he (body.drop first)
  unfold sortAndUnique
  rw [List.filter_append]
  congr 1
  cases dupes with
  | keepFirstOfDupes =>
    exact (filter_unique he hsorted).trans (by rw [hstable, List.take_one]; rfl)
  | keepLastOfDupes =>
    dsimp only
    rw [lastUnique_eq]
    exact (filter_lastOfGroups he hsorted).trans (by rw [hstable]; rfl)

/-- A tree built from a list is strictly increasing, and of the values whose keys are equivalent to
any one key it has exactly the first in the list, or exactly the last, as the caller asks. The last
ones are what `LastUnique`, run in place on the sorted list, leaves before the iterator it
returns. -/
theorem construct_keeps_dupe {κ β : Type} (lt : κ → κ → Bool) (key : β → κ)
    [IsStrictWeakOrder κ fun a b => lt a b = true] (items : List β) :
    (∀ dupes, Sorted lt key (construct lt key items dupes)) ∧
    (∀ k, (construct lt key items .keepFirstOfDupes).filter (equivalent lt key k) =
      (items.filter (equivalent lt key k)).head?.toList) ∧
    (∀ k, (construct lt key items .keepLastOfDupes).filter (equivalent lt key k) =
      (items.filter (equivalent lt key k)).getLast?.toList) ∧
    ∃ cells last, lastUniqueInPlace (fun lhs rhs => !valueComp lt key lhs rhs)
        (items.mergeSort fun a b => !valueComp lt key b a) = some (cells, last) ∧
      cells.take last = (construct lt key items .keepLastOfDupes).map some := by
  have hkept : ∀ dupes k, (construct lt key items dupes).filter (equivalent lt key k) =
      kept dupes (items.filter (equivalent lt key k)) := by
    intro dupes k
    rw [construct, filter_sortAndUnique (isClass_equivalent k)]
    rfl
  obtain ⟨cells, hcells, htake⟩ := lastUniqueInPlace_eq
    (fun lhs rhs => !valueComp lt key lhs rhs) (items.mergeSort fun a b => !valueComp lt key b a)
  exact ⟨sorted_construct items, hkept .keepFirstOfDupes, hkept .keepLastOfDupes, cells, _, hcells,
    htake⟩

/-- Duplicates in the middle and at the end, by the tens of the first components. -/
theorem construct_keeps_dupe_tens :
    Sorted decadeLess Prod.fst (construct decadeLess Prod.fst
      [(31, 0), (12, 1), (35, 2), (90, 3), (94, 4)] .keepLastOfDupes) ∧
    (construct decadeLess Prod.fst [(31, 0), (12, 1), (35, 2), (90, 3), (94, 4)]
      .keepFirstOfDupes).filter (equivalent decadeLess Prod.fst 30) = [(31, 0)] ∧
    (construct decadeLess Prod.fst [(31, 0), (12, 1), (35, 2), (90, 3), (94, 4)]
      .keepLastOfDupes).filter (equivalent decadeLess Prod.fst 30) = [(35, 2)] := by
  obtain ⟨hsorted, hfirst, hlast, -⟩ := construct_keeps_dupe decadeLess Prod.fst
    [(31, 0), (12, 1), (35, 2), (90, 3), (94, 4)]
  exact ⟨hsorted .keepLastOfDupes, (hfirst 30).trans (by decide), (hlast 30).trans (by decide)⟩

end FlatTree

end Sparo.Base
