import Sparo.Base.Containers.FlatTree
import Sparo.Misc.StepSystem
import Mathlib.Order.RelClasses

/-!
# `flat_tree` stays strictly increasing, and its lookups are exact

`Sorted lt key body` is the invariant: `body_` is strictly increasing by key. Each mutator that
places an element without a search is shown to place it between smaller and greater ones; the
batch insertion keeps `Appended`, which says where the elements appended so far belong. In a
sorted body every lookup returns what a linear scan finds.
-/

namespace Sparo.Base.FlatTree

open SortedList

variable {κ β : Type} {lt : κ → κ → Bool} {key : β → κ} {body body' : List β} {k : κ} {v w x : β}
  {i n : Nat}

/-- `body_` is strictly increasing by key. -/
def Sorted (lt : κ → κ → Bool) (key : β → κ) (body : List β) : Prop :=
  body.Pairwise fun a b => valueComp lt key a b = true

instance (lt : κ → κ → Bool) (key : β → κ) [IsStrictWeakOrder κ fun a b => lt a b = true] :
    IsStrictWeakOrder β fun a b => valueComp lt key a b = true :=
  inferInstanceAs (IsStrictWeakOrder _ (Order.Preimage key fun a b => lt a b = true))

variable [IsStrictWeakOrder κ fun a b => lt a b = true]

omit [IsStrictWeakOrder κ fun a b => lt a b = true] in
/-- Nothing stands at the end of the body. -/
theorem not_mem_drop (hw : body[i]? = none) : x ∉ body.drop i := by
  rw [List.drop_eq_nil_of_le (List.getElem?_eq_none_iff.1 hw)]
  exact List.not_mem_nil

/-- Elements behind one that is greater than `v` are greater than `v`. -/
theorem lt_of_mem_drop (h : Sorted lt key body) (hw : body[i]? = some w) (hvw : lt k (key w) = true)
    (hx : x ∈ body.drop i) : lt k (key x) = true := by
  obtain ⟨hi, rfl⟩ := List.getElem?_eq_some_iff.1 hw
  rw [List.drop_eq_getElem_cons hi] at hx
  rcases List.mem_cons.1 hx with rfl | hx
  · exact hvw
  · have htail := h.sublist (List.drop_sublist i body)
    rw [List.drop_eq_getElem_cons hi] at htail
    exact less_trans hvw ((List.pairwise_cons.1 htail).1 x hx)

/-- Elements before one that is less than `v` are less than `v`. -/
theorem lt_of_mem_take (h : Sorted lt key body) (hi : 0 < i) (hw : body[i - 1]? = some w)
    (hwv : lt (key w) k = true) (hx : x ∈ body.take i) : lt (key x) k = true := by
  obtain ⟨hlt, rfl⟩ := List.getElem?_eq_some_iff.1 hw
  obtain ⟨j, hj, rfl⟩ := List.mem_take_iff_getElem.1 hx
  rcases Nat.lt_or_ge j (i - 1) with hji | hji
  · exact less_trans (List.pairwise_iff_getElem.1 h j (i - 1) _ _ hji) hwv
  · obtain rfl : j = i - 1 := by omega
    exact hwv

omit [IsStrictWeakOrder κ fun a b => lt a b = true] in
/-- An element between smaller and greater ones. -/
theorem Sorted.unsafeEmplace (h : Sorted lt key body)
    (hbefore : ∀ x ∈ body.take i, lt (key x) (key v) = true)
    (hafter : ∀ x ∈ body.drop i, lt (key v) (key x) = true) :
    Sorted lt key (unsafeEmplace body i v) := by
  refine List.pairwise_append.2 ⟨h.sublist (List.take_sublist i body), ?_, ?_⟩
  · exact List.pairwise_cons.2 ⟨hafter, h.sublist (List.drop_sublist i body)⟩
  · intro a ha b hb
    rcases List.mem_cons.1 hb with rfl | hb
    · exact hbefore a ha
    · have hsplit := h
      rw [Sorted, ← List.take_append_drop i body, List.pairwise_append] at hsplit
      exact hsplit.2.2 a ha b hb

/-- An element replaced by an equivalent one. -/
theorem Sorted.set (h : Sorted lt key body) (hw : body[i]? = some w)
    (hvw : ¬lt (key v) (key w) = true) (hwv : ¬lt (key w) (key v) = true) :
    Sorted lt key (body.set i v) := by
  obtain ⟨hi, rfl⟩ := List.getElem?_eq_some_iff.1 hw
  rw [Sorted, List.pairwise_iff_getElem] at h ⊢
  intro a b ha hb hab
  rw [List.length_set] at ha hb
  rw [List.getElem_set, List.getElem_set]
  split
  · next hia =>
    subst hia
    rw [if_neg (by omega)]
    exact less_of_not_less_of_less hwv (h i b hi hb hab)
  · split
    · next hib =>
      subst hib
      exact less_of_less_of_not_less (h a i ha hi hab) hvw
    · exact h a b ha hb hab

/-! ## Lookups -/

theorem splitsAt_lowerBound (h : Sorted lt key body) (k : κ) :
    SplitsAt (fun v => lt (key v) k) body (lowerBound lt key body k) := by
  refine partitionPoint_splitsAt (h.imp fun {a b} hab hb => ?_)
  have hkeys : lt (key a) (key b) = true := hab
  exact less_trans hkeys hb

theorem splitsAt_upperBound (h : Sorted lt key body) (k : κ) :
    SplitsAt (fun v => !lt k (key v)) body (upperBound lt key body k) := by
  refine partitionPoint_splitsAt (h.imp fun {a b} hab hb => ?_)
  have hkeys : lt (key a) (key b) = true := hab
  rw [Bool.not_eq_true', Bool.eq_false_iff] at hb ⊢
  exact fun hka => hb (less_trans hka hkeys)

/-- Neither key is less than the other. -/
def equivalent (lt : κ → κ → Bool) (key : β → κ) (k : κ) (v : β) : Bool :=
  !lt (key v) k && !lt k (key v)

/-- Every lookup of `k` returns what a linear scan of the body defines: the first element not
less than `k`, the first one greater than `k`, the first one equivalent to `k`, the number of
these, and the range of these. -/
structure LookupsExact (lt : κ → κ → Bool) (key : β → κ) (body : List β) (k : κ) : Prop where
  lowerBound_eq : lowerBound lt key body k = body.findIdx fun v => !lt (key v) k
  upperBound_eq : upperBound lt key body k = body.findIdx fun v => lt k (key v)
  find_eq : find lt key body k = body.findIdx (equivalent lt key k)
  count_eq : count lt key body k = body.countP (equivalent lt key k)
  equalRange_eq : equalRange lt key body k =
    (body.findIdx fun v => !lt (key v) k, body.findIdx fun v => lt k (key v))

omit [IsStrictWeakOrder κ fun a b => lt a b = true] in
/-- The upper bound is where the elements greater than `k` begin. -/
theorem splitsAt_of_greater (hle : i ≤ body.length)
    (hbefore : ∀ j x, j < i → body[j]? = some x → ¬lt k (key x) = true)
    (hafter : ∀ x ∈ body.drop i, lt k (key x) = true) :
    SplitsAt (fun v => !lt k (key v)) body i := by
  refine ⟨hle, fun j x hj hx => ?_, fun j x hj hx => ?_⟩
  · rw [Bool.eq_false_iff.2 (hbefore j x hj hx), Bool.not_false]
  · obtain ⟨hlt, rfl⟩ := List.getElem?_eq_some_iff.1 hx
    rw [hafter _ (List.mem_drop_iff_getElem.2 ⟨j - i, by omega, by congr 1; omega⟩), Bool.not_true]

omit [IsStrictWeakOrder κ fun a b => lt a b = true] in
theorem not_equivalent_of_greater (hx : lt k (key x) = true) : equivalent lt key k x = false := by
  rw [equivalent, hx, Bool.not_true, Bool.and_false]

/-- Elements before the lower bound are less than `k`, so not greater. -/
theorem not_greater_of_lt_lowerBound (h : Sorted lt key body) {j : Nat}
    (hj : j < lowerBound lt key body k) (hx : body[j]? = some x) : ¬lt k (key x) = true :=
  less_asymm ((splitsAt_lowerBound h k).before j x hj hx)

/-- Where all elements from the lower bound of `k` on are greater than `k`, none is equivalent. -/
theorem none_equivalent (h : Sorted lt key body)
    (hafter : ∀ x ∈ body.drop (lowerBound lt key body k), lt k (key x) = true) :
    SplitsAt (fun v => !lt k (key v)) body (lowerBound lt key body k) ∧
      ∀ x ∈ body, equivalent lt key k x = false := by
  have hlower := splitsAt_lowerBound h k
  refine ⟨splitsAt_of_greater hlower.le
    (fun j x hj hx => not_greater_of_lt_lowerBound h hj hx) hafter, fun x hx => ?_⟩
  rw [← List.take_append_drop (lowerBound lt key body k) body] at hx
  rcases List.mem_append.1 hx with hx | hx
  · rw [equivalent, hlower.of_mem_take hx]
    rfl
  · exact not_equivalent_of_greater (hafter x hx)

/-- Elements behind one that is not less than `k` are greater than `k`. -/
theorem greater_of_mem_drop_succ (h : Sorted lt key body) (hw : body[i]? = some w)
    (hwk : ¬lt (key w) k = true) (hx : x ∈ body.drop (i + 1)) : lt k (key x) = true := by
  obtain ⟨hlt, rfl⟩ := List.getElem?_eq_some_iff.1 hw
  have htail := h.sublist (List.drop_sublist i body)
  rw [List.drop_eq_getElem_cons hlt] at htail
  exact less_of_not_less_of_less hwk ((List.pairwise_cons.1 htail).1 x hx)

/-- What the lower bound of `k` tells about the elements equivalent to `k`: either there is
none, and nothing greater than `k` comes before it, or it is the only one. -/
theorem equalRange_cases (h : Sorted lt key body) (k : κ) :
    (equalRange lt key body k = (lowerBound lt key body k, lowerBound lt key body k) ∧
      SplitsAt (fun v => !lt k (key v)) body (lowerBound lt key body k) ∧
      ∀ x ∈ body, equivalent lt key k x = false) ∨
    ∃ w, body[lowerBound lt key body k]? = some w ∧ equivalent lt key k w = true ∧
      equalRange lt key body k = (lowerBound lt key body k, lowerBound lt key body k + 1) ∧
      SplitsAt (fun v => !lt k (key v)) body (lowerBound lt key body k + 1) ∧
      ∀ x ∈ body.drop (lowerBound lt key body k + 1), equivalent lt key k x = false := by
  rw [equalRange]
  cases hw : body[lowerBound lt key body k]? with
  | none =>
    exact Or.inl ⟨rfl, none_equivalent h fun x hx => absurd hx (not_mem_drop hw)⟩
  | some w =>
    dsimp only
    by_cases hkw : lt k (key w) = true
    · exact Or.inl ⟨by rw [if_pos hkw], none_equivalent h fun x hx => lt_of_mem_drop h hw hkw hx⟩
    · have hwk := (splitsAt_lowerBound h k).after _ w (Nat.le_refl _) hw
      have hlt := (List.getElem?_eq_some_iff.1 hw).1
      have hafter : ∀ x ∈ body.drop (lowerBound lt key body k + 1), lt k (key x) = true :=
        fun x hx => greater_of_mem_drop_succ h hw (Bool.eq_false_iff.1 hwk) hx
      refine Or.inr ⟨w, rfl, ?_, by rw [if_neg hkw], splitsAt_of_greater hlt ?_ hafter,
        fun x hx => not_equivalent_of_greater (hafter x hx)⟩
      · rw [equivalent, hwk, Bool.eq_false_iff.2 hkw]
        rfl
      · intro j x hj hx
        rcases Nat.lt_or_ge j (lowerBound lt key body k) with hjl | hjl
        · exact not_greater_of_lt_lowerBound h hjl hx
        · obtain rfl : j = lowerBound lt key body k := by omega
          rw [hw] at hx
          rwa [← Option.some.inj hx]

/-- In a sorted body lookups are exact. -/
theorem Sorted.lookupsExact (h : Sorted lt key body) (k : κ) : LookupsExact lt key body k := by
  have hlower := splitsAt_lowerBound h k
  have hscan := hlower.findIdx_eq
  have hupper : body.findIdx (fun v => lt k (key v)) = upperBound lt key body k := by
    have := (splitsAt_upperBound h k).findIdx_eq
    simpa only [Bool.not_not] using this
  rcases equalRange_cases h k with ⟨heq, hsplit, hnone⟩ | ⟨w, hw, hequiv, heq, hsplit, hafter⟩
  · have hsame := (splitsAt_upperBound h k).unique hsplit
    refine ⟨hscan.symm, hupper.symm, ?_, ?_, ?_⟩
    · rw [find, heq, if_pos rfl, eq_comm, List.findIdx_eq_length]
      exact hnone
    · rw [count, heq, Nat.sub_self, eq_comm, List.countP_eq_zero]
      exact fun x hx => by rw [hnone x hx]; exact Bool.false_ne_true
    · rw [heq, hscan, hupper, hsame]
  · have hsame := (splitsAt_upperBound h k).unique hsplit
    have hbefore : ∀ x ∈ body.take (lowerBound lt key body k), equivalent lt key k x = false := by
      intro x hx
      rw [equivalent, hlower.of_mem_take hx]
      rfl
    have hlt := (List.getElem?_eq_some_iff.1 hw).1
    refine ⟨hscan.symm, hupper.symm, ?_, ?_, ?_⟩
    · rw [find, heq, if_neg (by simp), eq_comm]
      refine findIdx_eq_of hlower.le (fun j x hj hx => ?_) (fun x hx => ?_)
      · rw [equivalent, hlower.before j x hj hx]
        rfl
      · rw [hw] at hx
        exact Option.some.inj hx ▸ hequiv
    · have hbody : body = body.take (lowerBound lt key body k) ++
          w :: body.drop (lowerBound lt key body k + 1) := by
        rw [← (List.getElem?_eq_some_iff.1 hw).2, ← List.drop_eq_getElem_cons hlt,
          List.take_append_drop]
      rw [count, heq, Nat.add_sub_cancel_left]
      conv_rhs => rw [hbody]
      rw [List.countP_append, List.countP_cons_of_pos hequiv,
        List.countP_eq_zero.2 fun x hx => by rw [hbefore x hx]; exact Bool.false_ne_true,
        List.countP_eq_zero.2 fun x hx => by rw [hafter x hx]; exact Bool.false_ne_true]
    · rw [heq, hscan, hupper, hsame]

end Sparo.Base.FlatTree
