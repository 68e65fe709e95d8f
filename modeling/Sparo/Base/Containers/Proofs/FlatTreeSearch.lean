import Sparo.Base.Containers.Proofs.FlatTreeSorted

/-!
# Where a flat tree puts an element

Every insertion searches the lower bound of the new element's key. Either all elements before it
are less and all from it on greater, and the element belongs there, or the element at it is
equivalent. The hint of an insertion is another way to find the same place.
-/

namespace Sparo.Base.FlatTree

open SortedList

variable {κ β : Type} {lt : κ → κ → Bool} {key : β → κ} {body : List β} {k : κ} {v w x : β}
  {i : Nat}

/-- Nothing in the body is equivalent to `v`, which belongs at `i`. -/
structure Fresh (lt : κ → κ → Bool) (key : β → κ) (body : List β) (v : β) (i : Nat) : Prop where
  le : i ≤ body.length
  before : ∀ x ∈ body.take i, valueComp lt key x v = true
  after : ∀ x ∈ body.drop i, valueComp lt key v x = true

/-- The element at `i` is equivalent to `v`. -/
structure Present (lt : κ → κ → Bool) (key : β → κ) (body : List β) (v : β) (i : Nat) (w : β) :
    Prop where
  get : body[i]? = some w
  not_less : ¬valueComp lt key v w = true
  not_greater : ¬valueComp lt key w v = true

theorem Fresh.of_mem (h : Fresh lt key body v i) (hx : x ∈ body) :
    valueComp lt key x v = true ∨ valueComp lt key v x = true := by
  rw [← List.take_append_drop i body] at hx
  rcases List.mem_append.mp hx with hx | hx
  · exact .inl (h.before x hx)
  · exact .inr (h.after x hx)

/-- The test behind every search: whether there is no element at the lower bound or a greater
one. -/
def searchBranch {γ : Type} (lt : κ → κ → Bool) (key : β → κ) (body : List β) (v : β)
    (fresh present : γ) : γ :=
  body[lowerBound lt key body (key v)]?.elim fresh fun w =>
    if valueComp lt key v w then fresh else present

theorem insert_eq (body : List β) (v : β) : insert lt key body v =
    searchBranch lt key body v
      (unsafeEmplace body (lowerBound lt key body (key v)) v, lowerBound lt key body (key v), true)
      (body, lowerBound lt key body (key v), false) := by
  unfold insert emplaceKeyArgs searchBranch
  dsimp only
  cases body[lowerBound lt key body (key v)]? <;> rfl

theorem insertOrAssign_eq (body : List β) (v : β) : insertOrAssign lt key body v =
    searchBranch lt key body v
      (unsafeEmplace body (lowerBound lt key body (key v)) v, lowerBound lt key body (key v), true)
      (body.set (lowerBound lt key body (key v)) v, lowerBound lt key body (key v), false) := by
  unfold insertOrAssign searchBranch
  dsimp only
  cases body[lowerBound lt key body (key v)]? <;> rfl

theorem appendUnique_eq (middle : Nat) (body : List β) (v : β) :
    appendUnique lt key middle body v = searchBranch lt key (body.take middle) v
      (body ++ [v], lowerBound lt key (body.take middle) (key v), true)
      (body, lowerBound lt key (body.take middle) (key v), false) := by
  unfold appendUnique searchBranch lowerBound valueComp
  dsimp only
  cases (body.take middle)[partitionPoint (fun w => lt (key w) (key v)) (body.take middle)]? <;> rfl

theorem appendOrAssign_eq (middle : Nat) (body : List β) (v : β) :
    appendOrAssign lt key middle body v = searchBranch lt key (body.take middle) v
      (body ++ [v], lowerBound lt key (body.take middle) (key v), true)
      (body.set (lowerBound lt key (body.take middle) (key v)) v,
        lowerBound lt key (body.take middle) (key v), false) := by
  unfold appendOrAssign searchBranch lowerBound valueComp
  dsimp only
  cases (body.take middle)[partitionPoint (fun w => lt (key w) (key v)) (body.take middle)]? <;> rfl

variable [IsStrictWeakOrder κ fun a b => lt a b = true]

/-- What the search finds, and the branch that is then taken. -/
theorem searchBranch_cases {γ : Type} (h : Sorted lt key body) (v : β) (fresh present : γ) :
    (Fresh lt key body v (lowerBound lt key body (key v)) ∧
      searchBranch lt key body v fresh present = fresh) ∨
    ∃ w, Present lt key body v (lowerBound lt key body (key v)) w ∧
      searchBranch lt key body v fresh present = present := by
  have hlower := splitsAt_lowerBound h (key v)
  unfold searchBranch
  cases hw : body[lowerBound lt key body (key v)]? with
  | none =>
    left
    refine ⟨⟨hlower.le, fun x hx => hlower.of_mem_take hx, ?_⟩, rfl⟩
    intro x hx
    exact absurd hx (not_mem_drop hw)
  | some w =>
    by_cases hvw : valueComp lt key v w = true
    · left
      refine ⟨⟨hlower.le, fun x hx => hlower.of_mem_take hx, ?_⟩, if_pos hvw⟩
      intro x hx
      exact lt_of_mem_drop h hw hvw hx
    · right
      refine ⟨w, ⟨hw, hvw, ?_⟩, if_neg hvw⟩
      exact Bool.eq_false_iff.mp (hlower.after _ w (Nat.le_refl _) hw)

/-! ## Hints -/

/-- A position with only smaller elements before it and none from it on is the lower bound. -/
theorem lowerBound_eq_of (h : Sorted lt key body) (hle : i ≤ body.length)
    (hbefore : i = 0 ∨ (body[i - 1]?).any (fun w => lt (key w) k) = true)
    (hat : ∀ w, body[i]? = some w → ¬lt (key w) k = true) : lowerBound lt key body k = i := by
  refine (splitsAt_lowerBound h k).unique ⟨hle, fun j x hj hx => ?_, fun j x hj hx => ?_⟩
  · have hpos : 0 < i := Nat.zero_lt_of_lt hj
    obtain ⟨w, hw, hwk⟩ := (Option.any_eq_true _ _).mp (hbefore.resolve_left hpos.ne')
    obtain ⟨hjlt, rfl⟩ := List.getElem?_eq_some_iff.mp hx
    exact lt_of_mem_take h hpos hw hwk (List.mem_take_iff_getElem.mpr ⟨j, by omega, rfl⟩)
  · obtain ⟨hjlt, rfl⟩ := List.getElem?_eq_some_iff.mp hx
    have hi : i < body.length := Nat.lt_of_le_of_lt hj hjlt
    rw [Bool.eq_false_iff]
    intro hless
    refine hat body[i] (List.getElem?_eq_getElem hi) ?_
    rcases Nat.eq_or_lt_of_le hj with rfl | hij
    · exact hless
    · exact less_trans (List.pairwise_iff_getElem.mp h i j hi hjlt hij) hless

/-- `insert(hint, val)` changes the body as `insert(val)` does and returns the same position,
whatever the hint. -/
theorem emplaceHintKeyArgs_eq (h : Sorted lt key body) (hint : Nat) (hle : hint ≤ body.length)
    (k : κ) (v : β) :
    emplaceHintKeyArgs lt key body hint k v = emplaceKeyArgs lt key body k v := by
  rw [emplaceHintKeyArgs]
  by_cases hprev : hint = 0 ∨ (body[hint - 1]?).any (fun w => lt (key w) k) = true
  · rw [if_pos hprev]
    cases hw : body[hint]? with
    | none =>
      have hlower := lowerBound_eq_of h hle hprev fun w hw' => by rw [hw] at hw'; cases hw'
      rw [emplaceKeyArgs, hlower]
      dsimp only
      rw [hw]
    | some w =>
      dsimp only
      by_cases hwk : lt (key w) k = true
      · rw [if_neg (less_asymm hwk), hwk]
        rfl
      · have hlower := lowerBound_eq_of h hle hprev fun w' hw' => by
          rw [hw] at hw'
          exact Option.some.inj hw' ▸ hwk
        rw [emplaceKeyArgs, hlower, hw]
        dsimp only
        by_cases hkw : lt k (key w) = true
        · rw [if_pos hkw, if_pos hkw]
        · simp only [if_neg hkw, hwk, Bool.not_false, if_true]
  · rw [if_neg hprev]

end Sparo.Base.FlatTree
