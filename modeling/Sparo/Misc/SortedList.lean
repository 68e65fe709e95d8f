import Mathlib.Data.List.Chain
import Mathlib.Data.List.Perm.Basic
import Mathlib.Order.Defs.Unbundled

/-!
# Algorithms on sorted sequences

The standard library algorithms a sorted vector is kept with, over any element type: the binary
search for the point where a predicate turns false, stable sorting and merging by a strict
weak order, and the removal of all but the first or all but the last of consecutive equivalent
elements. `lt` is a comparator; a sequence is sorted when no element is less than an earlier
one, and strictly increasing when each is less than all later ones.
-/

namespace SortedList

variable {β : Type*} {p : β → Bool} {xs ys : List β} {x : β} {i : Nat}

/-! ## Binary search -/

/-- The loop of `std::lower_bound` and `std::upper_bound`: `p` holds before `first` and fails
from `first + len` on, and the middle element decides which half is left. -/
def partitionLoop (p : β → Bool) (xs : List β) (first len : Nat) : Nat :=
  if len = 0 then first
  else
    match xs[first + len / 2]? with
    | some x =>
      if p x then partitionLoop p xs (first + len / 2 + 1) (len - len / 2 - 1)
      else partitionLoop p xs first (len / 2)
    | none => first
termination_by len

/-- The number of elements `p` holds of, found by binary search. -/
def partitionPoint (p : β → Bool) (xs : List β) : Nat := partitionLoop p xs 0 xs.length

/-- Once `p` fails it fails for good. -/
def Partitioned (p : β → Bool) (xs : List β) : Prop := xs.Pairwise fun a b => p b → p a

theorem Partitioned.of_lt (h : Partitioned p xs) {j : Nat} {y : β} (hij : i < j)
    (hx : xs[i]? = some x) (hy : xs[j]? = some y) (hpy : p y) : p x := by
  obtain ⟨hi, rfl⟩ := List.getElem?_eq_some_iff.1 hx
  obtain ⟨hj, rfl⟩ := List.getElem?_eq_some_iff.1 hy
  exact List.pairwise_iff_getElem.1 h i j hi hj hij hpy

/-- Everything before `i` meets `p`, and nothing from `i` on does. -/
structure SplitsAt (p : β → Bool) (xs : List β) (i : Nat) : Prop where
  le : i ≤ xs.length
  before : ∀ j x, j < i → xs[j]? = some x → p x = true
  after : ∀ j x, i ≤ j → xs[j]? = some x → p x = false

theorem partitionLoop_splitsAt (h : Partitioned p xs) (first len : Nat)
    (hle : first + len ≤ xs.length)
    (hbefore : ∀ j x, j < first → xs[j]? = some x → p x = true)
    (hafter : ∀ j x, first + len ≤ j → xs[j]? = some x → p x = false) :
    SplitsAt p xs (partitionLoop p xs first len) := by
  induction len using Nat.strong_induction_on generalizing first with
  | _ len ih =>
    rw [partitionLoop]
    split
    · next hzero =>
      subst hzero
      exact ⟨hle, hbefore, hafter⟩
    · next hpos =>
      have hmid : first + len / 2 < xs.length := by omega
      rw [List.getElem?_eq_getElem hmid]
      dsimp only
      have hget := List.getElem?_eq_getElem hmid
      by_cases hp : p xs[first + len / 2] = true
      · -- Everything up to the middle meets `p`.
        rw [if_pos hp]
        refine ih _ (by omega) _ (by omega) (fun j x hj hx => ?_) (fun j x hj hx => ?_)
        · rcases Nat.lt_or_ge j (first + len / 2) with hlt | hge
          · exact h.of_lt hlt hx hget hp
          · obtain rfl : j = first + len / 2 := by omega
            rw [hget] at hx
            exact Option.some.inj hx ▸ hp
        · exact hafter j x (by omega) hx
      · -- Nothing from the middle on does.
        rw [if_neg hp]
        refine ih _ (by omega) _ (by omega) hbefore fun j x hj hx => ?_
        rw [Bool.eq_false_iff]
        intro hpx
        rcases Nat.lt_or_ge (first + len / 2) j with hlt | hge
        · exact hp (h.of_lt hlt hget hx hpx)
        · obtain rfl : j = first + len / 2 := by omega
          rw [hget] at hx
          exact hp (Option.some.inj hx ▸ hpx)

/-- Binary search finds the split point of a partitioned sequence. -/
theorem partitionPoint_splitsAt (h : Partitioned p xs) : SplitsAt p xs (partitionPoint p xs) := by
  refine partitionLoop_splitsAt h 0 xs.length (by omega) (fun j x hj _ => by omega) ?_
  intro j x hj hx
  have := (List.getElem?_eq_some_iff.1 hx).1
  omega

/-- The first element with `q`, when nothing before `i` has it and the one at `i`, if there is
one, does. -/
theorem findIdx_eq_of {q : β → Bool} (hi : i ≤ xs.length)
    (hbefore : ∀ j x, j < i → xs[j]? = some x → q x = false)
    (hat : ∀ x, xs[i]? = some x → q x = true) : xs.findIdx q = i := by
  rcases Nat.lt_or_ge i xs.length with hlt | hge
  · rw [List.findIdx_eq hlt]
    refine ⟨hat _ (List.getElem?_eq_getElem hlt), fun j hj => ?_⟩
    exact hbefore j _ hj (List.getElem?_eq_getElem (Nat.lt_trans hj hlt))
  · obtain rfl : i = xs.length := by omega
    rw [List.findIdx_eq_length]
    intro x hx
    obtain ⟨j, hj, rfl⟩ := List.getElem_of_mem hx
    exact hbefore j _ hj (List.getElem?_eq_getElem hj)

theorem SplitsAt.findIdx_eq (h : SplitsAt p xs i) : xs.findIdx (fun x => !p x) = i := by
  refine findIdx_eq_of h.le (fun j x hj hx => ?_) (fun x hx => ?_)
  · rw [h.before j x hj hx, Bool.not_true]
  · rw [h.after i x (Nat.le_refl i) hx, Bool.not_false]

/-- A sequence has one split point. -/
theorem SplitsAt.unique {j : Nat} (h : SplitsAt p xs i) (h' : SplitsAt p xs j) : i = j :=
  h.findIdx_eq.symm.trans h'.findIdx_eq

theorem SplitsAt.of_mem_take (h : SplitsAt p xs i) (hx : x ∈ xs.take i) : p x = true := by
  obtain ⟨j, hj, rfl⟩ := List.mem_take_iff_getElem.1 hx
  exact h.before j _ (by omega) (List.getElem?_eq_getElem _)

/-! ## Removing duplicates -/

/-- `std::unique` behind a kept element: an element equivalent to the last one kept goes. -/
def uniqueFrom (pred : β → β → Bool) (kept : β) : List β → List β
  | [] => []
  | x :: xs => if pred kept x then uniqueFrom pred kept xs else x :: uniqueFrom pred x xs

/-- `std::unique`: the first of each group of consecutive equivalent elements. -/
def unique (pred : β → β → Bool) : List β → List β
  | [] => []
  | x :: xs => x :: uniqueFrom pred x xs

/-- `std::adjacent_find`: the position of the first element that is equivalent to the next one. -/
def adjacentFind (pred : β → β → Bool) : List β → Nat
  | x :: y :: xs => if pred x y then 0 else adjacentFind pred (y :: xs) + 1
  | [_] => 1
  | [] => 0

theorem uniqueFrom_sublist (pred : β → β → Bool) (kept : β) (xs : List β) :
    (uniqueFrom pred kept xs).Sublist xs := by
  induction xs generalizing kept with
  | nil => exact List.Sublist.slnil
  | cons x xs ih =>
    rw [uniqueFrom]
    split
    · exact (ih kept).cons x
    · exact (ih x).cons_cons x

theorem unique_sublist (pred : β → β → Bool) (xs : List β) : (unique pred xs).Sublist xs := by
  cases xs with
  | nil => exact List.Sublist.slnil
  | cons x xs => exact (uniqueFrom_sublist pred x xs).cons_cons x

/-- `LastUnique` behind the first duplicate: an element equivalent to the next one goes. -/
def lastOfGroups (pred : β → β → Bool) : List β → List β
  | x :: y :: xs =>
    if pred x y then lastOfGroups pred (y :: xs) else x :: lastOfGroups pred (y :: xs)
  | [x] => [x]
  | [] => []

theorem lastOfGroups_sublist (pred : β → β → Bool) (xs : List β) :
    (lastOfGroups pred xs).Sublist xs := by
  induction xs with
  | nil => exact List.Sublist.slnil
  | cons x xs ih =>
    cases xs with
    | nil => exact List.Sublist.refl _
    | cons y xs =>
      rw [lastOfGroups]
      split
      · exact ih.cons x
      · exact ih.cons_cons x

/-- What stands before the first duplicate is kept by `lastOfGroups`, and the duplicate goes. -/
theorem lastOfGroups_eq (pred : β → β → Bool) (xs : List β) :
    lastOfGroups pred xs =
      xs.take (adjacentFind pred xs) ++ lastOfGroups pred (xs.drop (adjacentFind pred xs + 1)) := by
  induction xs with
  | nil => rfl
  | cons x xs ih =>
    cases xs with
    | nil => rfl
    | cons y xs =>
      rw [lastOfGroups, adjacentFind]
      split
      · rfl
      · rw [ih]
        rfl

/-! ## Strict weak orders -/

/-- What is not before is transitive. -/
theorem not_trans {r : β → β → Prop} [IsStrictWeakOrder β r] {a b c : β} (hab : ¬r a b)
    (hbc : ¬r b c) : ¬r a c := by
  intro hac
  by_cases hba : r b a
  · exact hbc (trans_of r hba hac)
  · by_cases hcb : r c b
    · exact hab (trans_of r hac hcb)
    · exact (IsStrictWeakOrder.incomp_trans a b c ⟨hab, hba⟩ ⟨hbc, hcb⟩).1 hac

section Order

variable {lt : β → β → Bool} [IsStrictWeakOrder β fun a b => lt a b = true]

theorem less_irrefl (a : β) : ¬lt a a = true := irrefl_of (fun a b => lt a b = true) a

theorem less_trans {a b c : β} (hab : lt a b = true) (hbc : lt b c = true) : lt a c = true :=
  trans_of (fun a b => lt a b = true) hab hbc

theorem less_asymm {a b : β} (hab : lt a b = true) : ¬lt b a = true :=
  fun hba => less_irrefl a (less_trans hab hba)

/-- `¬lt b a` reads `a` is not after `b`, and is transitive. -/
theorem not_less_trans {a b c : β} (hba : ¬lt b a = true) (hcb : ¬lt c b = true) :
    ¬lt c a = true := not_trans (r := fun a b => lt a b = true) hcb hba

theorem less_of_less_of_not_less {a b c : β} (hab : lt a b = true) (hcb : ¬lt c b = true) :
    lt a c = true := by
  by_contra hac
  exact not_less_trans hcb hac hab

theorem less_of_not_less_of_less {a b c : β} (hba : ¬lt b a = true) (hbc : lt b c = true) :
    lt a c = true := by
  by_contra hac
  exact not_less_trans hac hba hbc

/-- The comparison that the sorting algorithms go by, as they need it. -/
theorem notAfter_trans (a b c : β) (hab : (!lt b a) = true) (hbc : (!lt c b) = true) :
    (!lt c a) = true := by
  simp only [Bool.not_eq_true', Bool.eq_false_iff] at hab hbc ⊢
  exact not_less_trans hab hbc

theorem notAfter_total (a b : β) : (!lt b a || !lt a b) = true := by
  simp only [Bool.or_eq_true, Bool.not_eq_true', Bool.eq_false_iff]
  by_cases hba : lt b a = true
  · exact Or.inr (less_asymm hba)
  · exact Or.inl hba

omit [IsStrictWeakOrder β fun a b => lt a b = true] in
theorem uniqueFrom_isChain (kept : β) (xs : List β) :
    (kept :: uniqueFrom (fun a b => !lt a b) kept xs).IsChain fun a b => lt a b = true := by
  induction xs generalizing kept with
  | nil => exact .singleton kept
  | cons x xs ih =>
    rw [uniqueFrom]
    split
    · exact ih kept
    · next hlt => exact .cons_cons (by simpa using hlt) (ih x)

/-- Neighbours that increase make the whole list increase. -/
theorem pairwise_of_isChain (h : xs.IsChain fun a b => lt a b = true) :
    xs.Pairwise fun a b => lt a b = true :=
  List.isChain_iff_pairwise.1 h

/-- The first of each group of equivalent elements. -/
theorem pairwise_unique (xs : List β) :
    (unique (fun a b => !lt a b) xs).Pairwise fun a b => lt a b = true := by
  cases xs with
  | nil => exact List.Pairwise.nil
  | cons x xs => exact pairwise_of_isChain (uniqueFrom_isChain x xs)

/-- The last of each group of equivalent elements of a sorted list. -/
theorem pairwise_lastOfGroups (h : xs.Pairwise fun a b => ¬lt b a = true) :
    (lastOfGroups (fun a b => !lt a b) xs).Pairwise fun a b => lt a b = true := by
  induction xs with
  | nil => exact List.Pairwise.nil
  | cons x xs ih =>
    cases xs with
    | nil => exact List.pairwise_singleton _ _
    | cons y xs =>
      rw [lastOfGroups]
      have htail := ih h.of_cons
      split
      · exact htail
      · next hlt =>
        have hxy : lt x y = true := by simpa using hlt
        refine htail.cons fun z hz => ?_
        -- What is kept behind `x` is `y` or comes after it.
        rcases List.mem_cons.1 ((lastOfGroups_sublist _ _).subset hz) with rfl | hzxs
        · exact hxy
        · exact less_of_less_of_not_less hxy ((List.pairwise_cons.1 h.of_cons).1 z hzxs)

/-- `std::stable_sort`. -/
theorem pairwise_stableSort (xs : List β) :
    (xs.mergeSort fun a b => !lt b a).Pairwise fun a b => ¬lt b a = true := by
  have hsorted := List.pairwise_mergeSort (@notAfter_trans β lt _) (@notAfter_total β lt _) xs
  exact hsorted.imp fun hab => by simpa using hab

/-- `std::inplace_merge` of strictly increasing sequences without equivalent elements. -/
theorem pairwise_merge (hxs : xs.Pairwise fun a b => lt a b = true)
    (hys : ys.Pairwise fun a b => lt a b = true)
    (hne : ∀ x ∈ xs, ∀ y ∈ ys, lt x y = true ∨ lt y x = true) :
    (List.merge xs ys fun a b => !lt b a).Pairwise fun a b => lt a b = true := by
  have hle : ∀ {zs : List β}, (zs.Pairwise fun a b => lt a b = true) →
      zs.Pairwise fun a b => (!lt b a) = true := fun h =>
    h.imp fun hab => by
      rw [Bool.not_eq_true', Bool.eq_false_iff]
      exact less_asymm hab
  have hsorted := List.pairwise_merge (@notAfter_trans β lt _) (@notAfter_total β lt _) xs ys
    (hle hxs) (hle hys)
  -- Any two elements are comparable, in whatever order they stand.
  have happend : (xs ++ ys).Pairwise fun a b => lt a b = true ∨ lt b a = true := by
    rw [List.pairwise_append]
    exact ⟨hxs.imp Or.inl, hys.imp Or.inl, hne⟩
  have hcomparable := (List.Perm.pairwise_iff (fun h => h.symm)
    (List.merge_perm_append fun a b => !lt b a)).2 happend
  refine (hsorted.and hcomparable).imp fun {a b} hab => ?_
  rcases hab with ⟨hnot, hlt | hgt⟩
  · exact hlt
  · rw [hgt] at hnot
    cases hnot

end Order

end SortedList
