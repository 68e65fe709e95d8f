import Sparo.Misc.SortedList

/-!
# Classes of equivalent elements in sorted sequences

What the algorithms of `SortedList` do to the elements of one class of a strict weak order: a
stable sort leaves them in their order, removing duplicates leaves the first or the last of them,
and a strictly increasing sequence has at most one.
-/

namespace SortedList

variable {β : Type*} {lt : β → β → Bool} {e : β → Bool} {xs ys : List β} {x y : β}

/-- A class of equivalent elements: any two of them are equivalent, and what is equivalent to one
of them belongs to it. It may be empty. -/
structure IsClass (lt : β → β → Bool) (e : β → Bool) : Prop where
  not_less : ∀ a b, e a = true → e b = true → ¬lt a b = true
  closed : ∀ a b, e a = true → ¬lt a b = true → ¬lt b a = true → e b = true

/-- What is less or greater than an element of the class lies outside. -/
theorem IsClass.not_of_less (he : IsClass lt e) (hx : e x = true)
    (hxy : lt x y = true ∨ lt y x = true) : ¬e y = true := by
  intro hy
  rcases hxy with hxy | hyx
  · exact he.not_less x y hx hy hxy
  · exact he.not_less y x hy hx hyx

theorem IsClass.iff_of_equiv (he : IsClass lt e) (hxy : ¬lt x y = true) (hyx : ¬lt y x = true) :
    e x = true ↔ e y = true :=
  ⟨fun hx => he.closed x y hx hxy hyx, fun hy => he.closed y x hy hyx hxy⟩

theorem IsClass.filter_eq_nil (he : IsClass lt e) (hx : e x = true)
    (hys : ∀ y ∈ ys, lt x y = true ∨ lt y x = true) : ys.filter e = [] :=
  List.filter_eq_nil_iff.mpr fun y hy => he.not_of_less hx (hys y hy)

/-- A strictly increasing sequence has at most one element of a class. -/
theorem IsClass.length_filter_le (he : IsClass lt e) (h : xs.Pairwise fun a b => lt a b = true) :
    (xs.filter e).length ≤ 1 := by
  induction xs with
  | nil => exact Nat.zero_le 1
  | cons x xs ih =>
    obtain ⟨hx, hxs⟩ := List.pairwise_cons.mp h
    by_cases hex : e x = true
    · rw [List.filter_cons_of_pos hex, he.filter_eq_nil hex fun y hy => .inl (hx y hy)]
      exact Nat.le_refl 1
    · rw [List.filter_cons_of_neg hex]
      exact ih hxs

section Order

variable [IsStrictWeakOrder β fun a b => lt a b = true]

/-- `std::stable_sort` keeps the order of equivalent elements. -/
theorem filter_stableSort (he : IsClass lt e) (xs : List β) :
    (xs.mergeSort fun a b => !lt b a).filter e = xs.filter e := by
  have hsame : (xs.filter e).Pairwise fun a b => (!lt b a) = true := by
    refine List.pairwise_of_forall_mem_list fun a ha b hb => ?_
    rw [Bool.not_eq_true', Bool.eq_false_iff]
    exact he.not_less b a (List.mem_filter.mp hb).2 (List.mem_filter.mp ha).2
  have hsub := (List.sublist_mergeSort (@notAfter_trans β lt _) (@notAfter_total β lt _) hsame
    List.filter_sublist).filter e
  rw [List.filter_filter] at hsub
  simp only [Bool.and_self] at hsub
  exact (hsub.eq_of_length ((List.mergeSort_perm xs _).filter e).length_eq.symm).symm

/-- `std::unique` on a sorted sequence keeps the first element of each class. -/
theorem filter_uniqueFrom (he : IsClass lt e) {kept : β}
    (h : (kept :: xs).Pairwise fun a b => ¬lt b a = true) :
    (kept :: uniqueFrom (fun a b => !lt a b) kept xs).filter e =
      ((kept :: xs).filter e).take 1 := by
  induction xs generalizing kept with
  | nil =>
    rw [uniqueFrom]
    by_cases hek : e kept = true
    · simp [hek]
    · simp [hek]
  | cons x xs ih =>
    obtain ⟨hkept, hxs⟩ := List.pairwise_cons.mp h
    rw [uniqueFrom]
    by_cases hlt : lt kept x = true
    · have hnot : ¬(!lt kept x) = true := by simp [hlt]
      rw [if_neg hnot]
      by_cases hek : e kept = true
      · -- Everything behind `kept` is greater.
        have hgreater : ∀ y ∈ x :: xs, lt kept y = true := by
          intro y hy
          rcases List.mem_cons.mp hy with rfl | hy
          · exact hlt
          · exact less_of_less_of_not_less hlt ((List.pairwise_cons.mp hxs).1 y hy)
        have hnil : (x :: xs).filter e = [] :=
          he.filter_eq_nil hek fun y hy => .inl (hgreater y hy)
        rw [List.filter_cons_of_pos hek, ih hxs, List.filter_cons_of_pos hek, hnil]
        rfl
      · rw [List.filter_cons_of_neg hek, ih hxs, List.filter_cons_of_neg hek]
    · have hdup : (!lt kept x) = true := by simp [hlt]
      rw [if_pos hdup, ih (List.Pairwise.sublist ((List.sublist_cons_self x xs).cons_cons kept) h)]
      have hiff := he.iff_of_equiv hlt (hkept x List.mem_cons_self)
      by_cases hek : e kept = true
      · rw [List.filter_cons_of_pos hek, List.filter_cons_of_pos hek]
        rfl
      · rw [List.filter_cons_of_neg hek, List.filter_cons_of_neg hek,
          List.filter_cons_of_neg (hek ∘ hiff.mpr)]

theorem filter_unique (he : IsClass lt e) (h : xs.Pairwise fun a b => ¬lt b a = true) :
    (unique (fun a b => !lt a b) xs).filter e = (xs.filter e).take 1 := by
  cases xs with
  | nil => rfl
  | cons x xs => exact filter_uniqueFrom he h

/-- `LastUnique` on a sorted sequence keeps the last element of each class. -/
theorem filter_lastOfGroups (he : IsClass lt e) (h : xs.Pairwise fun a b => ¬lt b a = true) :
    (lastOfGroups (fun a b => !lt a b) xs).filter e = (xs.filter e).getLast?.toList := by
  induction xs with
  | nil => rfl
  | cons x xs ih =>
    obtain ⟨hx, hxs⟩ := List.pairwise_cons.mp h
    cases xs with
    | nil =>
      rw [lastOfGroups]
      by_cases hex : e x = true
      · simp [hex]
      · simp [hex]
    | cons y xs =>
      rw [lastOfGroups]
      by_cases hlt : lt x y = true
      · have hnot : ¬(!lt x y) = true := by simp [hlt]
        rw [if_neg hnot]
        by_cases hex : e x = true
        · have hgreater : ∀ z ∈ y :: xs, lt x z = true := by
            intro z hz
            rcases List.mem_cons.mp hz with rfl | hz
            · exact hlt
            · exact less_of_less_of_not_less hlt ((List.pairwise_cons.mp hxs).1 z hz)
          have hnil : (y :: xs).filter e = [] :=
            he.filter_eq_nil hex fun z hz => .inl (hgreater z hz)
          rw [List.filter_cons_of_pos hex, ih hxs, List.filter_cons_of_pos hex, hnil]
          rfl
        · rw [List.filter_cons_of_neg hex, ih hxs, List.filter_cons_of_neg hex]
      · have hdup : (!lt x y) = true := by simp [hlt]
        have hiff := he.iff_of_equiv hlt (hx y List.mem_cons_self)
        rw [if_pos hdup, ih hxs]
        by_cases hex : e x = true
        · rw [List.filter_cons_of_pos hex, List.filter_cons_of_pos (hiff.mp hex),
            List.getLast?_cons_cons]
        · rw [List.filter_cons_of_neg hex]

/-- Strictly increasing sequences with the same elements are the same. -/
theorem eq_of_mem_iff (hxs : xs.Pairwise fun a b => lt a b = true)
    (hys : ys.Pairwise fun a b => lt a b = true) (hmem : ∀ x, x ∈ xs ↔ x ∈ ys) : xs = ys := by
  have hnodup : ∀ {zs : List β}, (zs.Pairwise fun a b => lt a b = true) → zs.Nodup := by
    intro zs h
    refine List.Pairwise.imp ?_ h
    rintro a b hab rfl
    exact less_irrefl a hab
  refine List.Perm.eq_of_pairwise (fun a b _ _ hab hba => ?_) hxs hys ?_
  · exact absurd hba (less_asymm hab)
  · exact (List.perm_ext_iff_of_nodup (hnodup hxs) (hnodup hys)).mpr hmem

end Order

end SortedList
