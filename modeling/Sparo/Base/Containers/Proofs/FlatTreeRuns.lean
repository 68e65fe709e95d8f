import Sparo.Base.Containers.Proofs.FlatTreeSearch

/-!
# Programs on flat trees and flat maps

Every mutator keeps the body strictly increasing, so every program does, and all lookups in
every state it reaches are exact.
-/

namespace Sparo.Base.FlatTree

open SortedList

variable {κ β : Type} {lt : κ → κ → Bool} {key : β → κ} {body : List β} {k : κ} {v w x : β}
  {i n : Nat}

variable [IsStrictWeakOrder κ fun a b => lt a b = true]

/-! ## Insertion of one element -/

theorem Sorted.insert (h : Sorted lt key body) (v : β) :
    Sorted lt key (insert lt key body v).1 := by
  rw [insert_eq]
  rcases searchBranch_cases h v _ _ with ⟨hfresh, hbranch⟩ | ⟨w, -, hbranch⟩
  · rw [hbranch]
    exact h.unsafeEmplace hfresh.before hfresh.after
  · rw [hbranch]
    exact h

theorem Sorted.emplaceKeyArgs (h : Sorted lt key body) (hk : key v = k) :
    Sorted lt key (emplaceKeyArgs lt key body k v).1 := by
  subst hk
  exact h.insert v

theorem Sorted.emplaceHintKeyArgs (h : Sorted lt key body) (hk : key v = k)
    (hint : i ≤ body.length) : Sorted lt key (emplaceHintKeyArgs lt key body i k v).1 := by
  rw [emplaceHintKeyArgs_eq h i hint]
  exact h.emplaceKeyArgs hk

theorem Sorted.insertHint (h : Sorted lt key body) (v : β) (hint : i ≤ body.length) :
    Sorted lt key (insertHint lt key body i v).1 :=
  h.emplaceHintKeyArgs rfl hint

theorem Sorted.insertOrAssign (h : Sorted lt key body) (v : β) :
    Sorted lt key (insertOrAssign lt key body v).1 := by
  rw [insertOrAssign_eq]
  rcases searchBranch_cases h v _ _ with ⟨hfresh, hbranch⟩ | ⟨w, hpresent, hbranch⟩
  · rw [hbranch]
    exact h.unsafeEmplace hfresh.before hfresh.after
  · rw [hbranch]
    exact h.set hpresent.get hpresent.not_less hpresent.not_greater

/-! ## Sorting and removing duplicates -/

omit [IsStrictWeakOrder κ fun a b => lt a b = true] in
theorem lastUnique_eq (compare : β → β → Bool) (xs : List β) :
    lastUnique compare xs = lastOfGroups compare xs := by
  rw [lastOfGroups_eq, lastUnique]
  split
  · next hend =>
    rw [hend, List.take_length, List.drop_eq_nil_of_le (Nat.le_succ _), lastOfGroups,
      List.append_nil]
  · split
    · next hlast =>
      rw [List.drop_eq_nil_of_le hlast.ge, lastOfGroups, List.append_nil]
    · rfl

/-- `sort_and_unique` keeps what stands before `first` and makes the rest strictly increasing
out of its own elements. -/
theorem sortAndUnique_eq (body : List β) (first : Nat) (dupes : FlatContainerDupes) :
    ∃ rest, sortAndUnique lt key body first dupes = body.take first ++ rest ∧
      Sorted lt key rest ∧ ∀ x ∈ rest, x ∈ body.drop first := by
  unfold sortAndUnique
  refine ⟨_, rfl, ?_, ?_⟩
  · cases dupes with
    | keepFirstOfDupes => exact pairwise_unique _
    | keepLastOfDupes =>
      dsimp only
      rw [lastUnique_eq]
      exact pairwise_lastOfGroups (pairwise_stableSort _)
  · intro x hx
    cases dupes with
    | keepFirstOfDupes => exact List.mem_mergeSort.1 ((unique_sublist _ _).subset hx)
    | keepLastOfDupes =>
      dsimp only at hx
      rw [lastUnique_eq] at hx
      exact List.mem_mergeSort.1 ((lastOfGroups_sublist _ _).subset hx)

theorem sorted_construct (items : List β) (dupes : FlatContainerDupes) :
    Sorted lt key (construct lt key items dupes) := by
  obtain ⟨rest, heq, hrest, -⟩ := @sortAndUnique_eq _ _ lt key _ items 0 dupes
  rw [construct, heq]
  exact hrest

/-! ## Insertion of a range -/

/-- Behind the old elements, the first `middle` ones, stand new ones: each belongs between two
old ones, and none of them before `posFirstNew`. -/
structure Appended (lt : κ → κ → Bool) (key : β → κ) (middle : Nat) (body : List β)
    (posFirstNew : Nat) : Prop where
  middle_le : middle ≤ body.length
  pos_le : posFirstNew ≤ middle
  sorted : Sorted lt key (body.take middle)
  before : ∀ v ∈ body.drop middle, ∀ x ∈ body.take posFirstNew, valueComp lt key x v = true
  fresh : ∀ v ∈ body.drop middle, ∀ x ∈ body.take middle,
    valueComp lt key x v = true ∨ valueComp lt key v x = true

omit [IsStrictWeakOrder κ fun a b => lt a b = true] in
theorem Sorted.appended (h : Sorted lt key body) :
    Appended lt key body.length body body.length := by
  refine ⟨Nat.le_refl _, Nat.le_refl _, ?_, ?_, ?_⟩
  · rwa [List.take_length]
  · simp
  · simp

omit [IsStrictWeakOrder κ fun a b => lt a b = true] in
/-- An appended element that belongs in front of position `i` of the old ones. -/
theorem Appended.append {middle pos : Nat} (h : Appended lt key middle body pos)
    (hfresh : Fresh lt key (body.take middle) v i) :
    Appended lt key middle (body ++ [v]) (min pos i) := by
  have htake : ∀ m ≤ middle, (body ++ [v]).take m = body.take m := fun m hm =>
    List.take_append_of_le_length (hm.trans h.middle_le)
  have hdrop : (body ++ [v]).drop middle = body.drop middle ++ [v] :=
    List.drop_append_of_le_length h.middle_le
  have hpos := h.pos_le
  refine ⟨?_, by omega, ?_, ?_, ?_⟩
  · rw [List.length_append]
    exact h.middle_le.trans (Nat.le_add_right _ _)
  · rw [htake middle (Nat.le_refl _)]
    exact h.sorted
  · intro u hu x hx
    rw [htake _ (by omega)] at hx
    rw [hdrop] at hu
    rcases List.mem_append.1 hu with hu | hu
    · exact h.before u hu x ((List.take_subset_take_left _ (Nat.min_le_left _ _)) hx)
    · rw [List.mem_singleton.1 hu]
      have hle := hfresh.le
      rw [List.length_take] at hle
      apply hfresh.before
      rw [List.take_take, Nat.min_eq_left (by omega)]
      exact (List.take_subset_take_left _ (Nat.min_le_right _ _)) hx
  · intro u hu x hx
    rw [htake middle (Nat.le_refl _)] at hx
    rw [hdrop] at hu
    rcases List.mem_append.1 hu with hu | hu
    · exact h.fresh u hu x hx
    · rw [List.mem_singleton.1 hu]
      exact hfresh.of_mem hx

/-- An old element overwritten by an equivalent one. -/
theorem Appended.assign {middle pos : Nat} (h : Appended lt key middle body pos)
    (hpresent : Present lt key (body.take middle) v i w) :
    Appended lt key middle (body.set i v) pos := by
  obtain ⟨hw, hvw, hwv⟩ := hpresent
  have hi : i < middle := by
    have := (List.getElem?_eq_some_iff.1 hw).1
    rw [List.length_take] at this
    omega
  have hdrop : (body.set i v).drop middle = body.drop middle := by
    rw [List.drop_set_of_lt hi]
  -- A prefix gains `v` only where it had `w`.
  have hmem : ∀ m ≤ middle, ∀ x ∈ (body.set i v).take m,
      x ∈ body.take m ∨ x = v ∧ w ∈ body.take m := by
    intro m hm x hx
    rw [List.take_set] at hx
    rcases Nat.lt_or_ge i (body.take m).length with hlt | hge
    · rcases List.mem_or_eq_of_mem_set hx with hx | rfl
      · exact Or.inl hx
      · refine Or.inr ⟨rfl, List.mem_of_getElem? (i := i) ?_⟩
        rw [List.length_take] at hlt
        rw [List.getElem?_take_of_lt (by omega)] at hw ⊢
        exact hw
    · rw [List.set_eq_of_length_le hge] at hx
      exact Or.inl hx
  refine ⟨by rw [List.length_set]; exact h.middle_le, h.pos_le, ?_, ?_, ?_⟩
  · rw [List.take_set]
    exact h.sorted.set hw hvw hwv
  · intro u hu x hx
    rw [hdrop] at hu
    rcases hmem _ h.pos_le x hx with hx | ⟨rfl, hwmem⟩
    · exact h.before u hu x hx
    · exact less_of_not_less_of_less hwv (h.before u hu w hwmem)
  · intro u hu x hx
    rw [hdrop] at hu
    rcases hmem _ (Nat.le_refl _) x hx with hx | ⟨rfl, hwmem⟩
    · exact h.fresh u hu x hx
    · rcases h.fresh u hu w hwmem with hwu | huw
      · exact Or.inl (less_of_not_less_of_less hwv hwu)
      · exact Or.inr (less_of_less_of_not_less huw hvw)

/-- What an appending function does with one element of the range. -/
def KeepsAppended (lt : κ → κ → Bool) (key : β → κ) (middle : Nat)
    (append : List β → β → List β × Nat × Bool) : Prop :=
  ∀ body v pos, Appended lt key middle body pos →
    Appended lt key middle (append body v).1
      (if (append body v).2.2 then min pos (append body v).2.1 else pos)

theorem keepsAppended_appendOrAssign (middle : Nat) :
    KeepsAppended lt key middle (appendOrAssign lt key middle) := by
  intro body v pos h
  rw [appendOrAssign_eq]
  rcases searchBranch_cases h.sorted v _ _ with ⟨hfresh, hbranch⟩ | ⟨w, hpresent, hbranch⟩
  · rw [hbranch]
    exact h.append hfresh
  · rw [hbranch]
    exact h.assign hpresent

theorem keepsAppended_appendUnique (middle : Nat) :
    KeepsAppended lt key middle (appendUnique lt key middle) := by
  intro body v pos h
  rw [appendUnique_eq]
  rcases searchBranch_cases h.sorted v _ _ with ⟨hfresh, hbranch⟩ | ⟨w, -, hbranch⟩
  · rw [hbranch]
    exact h.append hfresh
  · rw [hbranch]
    exact h

omit [IsStrictWeakOrder κ fun a b => lt a b = true] in
theorem appendAll_appended {middle pos : Nat} {append : List β → β → List β × Nat × Bool}
    (happend : KeepsAppended lt key middle append) (h : Appended lt key middle body pos)
    (items : List β) :
    Appended lt key middle (appendAll append body pos items).1
      (appendAll append body pos items).2 := by
  induction items generalizing body pos with
  | nil => exact h
  | cons v items ih => exact ih (happend body v pos h)

/-- The new elements, sorted, merged into the old ones from the first insertion point on. -/
theorem Appended.sorted_merge {middle pos : Nat} (h : Appended lt key middle body pos)
    (dupes : FlatContainerDupes) :
    Sorted lt key ((sortAndUnique lt key body middle dupes).take pos ++
      List.merge (((sortAndUnique lt key body middle dupes).take middle).drop pos)
        ((sortAndUnique lt key body middle dupes).drop middle)
        fun a b => !valueComp lt key b a) := by
  obtain ⟨rest, heq, hrest, hmem⟩ := @sortAndUnique_eq _ _ lt key _ body middle dupes
  have hlen : (body.take middle).length = middle := by
    rw [List.length_take, Nat.min_eq_left h.middle_le]
  have hpos := h.pos_le
  have htake : (body.take middle ++ rest).take pos = body.take pos := by
    rw [List.take_append_of_le_length (by omega), List.take_take, Nat.min_eq_left hpos]
  rw [heq, htake, List.take_left' hlen, List.drop_left' hlen]
  have hsplit := h.sorted
  rw [Sorted, ← List.take_append_drop pos (body.take middle), List.pairwise_append,
    List.take_take, Nat.min_eq_left hpos] at hsplit
  obtain ⟨hold, hdrop, hcross⟩ := hsplit
  refine List.pairwise_append.2 ⟨hold, ?_, ?_⟩
  · exact pairwise_merge hdrop hrest fun x hx y hy =>
      h.fresh y (hmem y hy) x (List.mem_of_mem_drop hx)
  · intro x hx y hy
    rcases List.mem_merge.1 hy with hy | hy
    · exact hcross x hx y hy
    · exact h.before y (hmem y hy) x hx

theorem Sorted.insertRange (h : Sorted lt key body) (items : List β) (multipass : Bool)
    (dupes : FlatContainerDupes) :
    Sorted lt key (insertRange lt key body items multipass dupes) := by
  unfold FlatTree.insertRange
  split
  · exact h
  · split
    · next hone =>
      -- The range has one element, which is inserted in place.
      simp only [Bool.and_eq_true, beq_iff_eq] at hone
      obtain ⟨v, rfl⟩ := List.length_eq_one_iff.1 hone.2
      cases dupes with
      | keepLastOfDupes => exact h.insertOrAssign v
      | keepFirstOfDupes => exact h.insertHint v (Nat.le_refl _)
    · cases dupes with
      | keepLastOfDupes =>
        exact (appendAll_appended (keepsAppended_appendOrAssign _) h.appended items).sorted_merge _
      | keepFirstOfDupes =>
        exact (appendAll_appended (keepsAppended_appendUnique _) h.appended items).sorted_merge _

/-! ## Programs -/

/-- What a program may do with a flat tree. `construct` makes it anew, from a range, a vector
or an initializer list. -/
inductive FlatTreeOp (κ β : Type) where
  | construct (items : List β) (dupes : FlatContainerDupes)
  | assign (ilist : List β)
  | insert (v : β)
  | insertHint (hint : Nat) (v : β)
  | insertRange (items : List β) (multipass : Bool) (dupes : FlatContainerDupes)
  | erase (position : Nat)
  | eraseRange (first last : Nat)
  | eraseKey (k : κ)
  | eraseIf (pred : β → Bool)

/-- One operation on a tree. A hint lies in `[begin(), end()]`, an erased position before
`end()`, and a range is one. -/
def treeStep (lt : κ → κ → Bool) (key : β → κ) (body : List β) :
    FlatTreeOp κ β → Option (List β)
  | .construct items dupes => some (construct lt key items dupes)
  | .assign ilist => some (assign lt key ilist)
  | .insert v => some (FlatTree.insert lt key body v).1
  | .insertHint hint v =>
    if hint ≤ body.length then some (insertHint lt key body hint v).1 else none
  | .insertRange items multipass dupes => some (insertRange lt key body items multipass dupes)
  | .erase position => if position < body.length then some (erase body position) else none
  | .eraseRange first last =>
    if first ≤ last ∧ last ≤ body.length then some (eraseRange body first last) else none
  | .eraseKey k => some (eraseKey lt key body k).1
  | .eraseIf pred => some (eraseIf body pred)

omit [IsStrictWeakOrder κ fun a b => lt a b = true] in
theorem eraseRange_sublist (body : List β) {first last : Nat} (hle : first ≤ last) :
    (eraseRange body first last).Sublist body := by
  have hdrop : (body.drop last).Sublist (body.drop first) := by
    rw [← Nat.add_sub_cancel' hle, ← List.drop_drop]
    exact List.drop_sublist _ _
  have happend := (List.Sublist.refl (body.take first)).append hdrop
  rwa [List.take_append_drop] at happend

omit [IsStrictWeakOrder κ fun a b => lt a b = true] in
theorem equalRange_le (body : List β) (k : κ) :
    (equalRange lt key body k).1 ≤ (equalRange lt key body k).2 := by
  rw [equalRange]
  cases body[lowerBound lt key body k]? with
  | none => exact Nat.le_refl _
  | some w =>
    dsimp only
    split
    · exact Nat.le_refl _
    · exact Nat.le_succ _

/-- Every operation keeps the body strictly increasing. -/
theorem sorted_treeStep {op : FlatTreeOp κ β} {body' : List β} (h : Sorted lt key body)
    (hstep : treeStep lt key body op = some body') : Sorted lt key body' := by
  cases op with
  | construct items dupes =>
    cases hstep
    exact sorted_construct items dupes
  | assign ilist =>
    cases hstep
    exact sorted_construct ilist .keepFirstOfDupes
  | insert v =>
    cases hstep
    exact h.insert v
  | insertHint hint v =>
    simp only [treeStep, Option.ite_none_right_eq_some, Option.some.injEq] at hstep
    obtain ⟨hhint, rfl⟩ := hstep
    exact h.insertHint v hhint
  | insertRange items multipass dupes =>
    cases hstep
    exact h.insertRange items multipass dupes
  | erase position =>
    simp only [treeStep, Option.ite_none_right_eq_some, Option.some.injEq] at hstep
    obtain ⟨-, rfl⟩ := hstep
    exact h.sublist (List.eraseIdx_sublist body position)
  | eraseRange first last =>
    simp only [treeStep, Option.ite_none_right_eq_some, Option.some.injEq] at hstep
    obtain ⟨⟨hle, -⟩, rfl⟩ := hstep
    exact h.sublist (eraseRange_sublist body hle)
  | eraseKey k =>
    cases hstep
    exact h.sublist (eraseRange_sublist body (equalRange_le body k))
  | eraseIf pred =>
    cases hstep
    exact h.sublist List.filter_sublist

end Sparo.Base.FlatTree

namespace Sparo.Base.FlatMap

open SortedList FlatTree

variable {κ μ : Type} {lt : κ → κ → Bool} {body : List (κ × μ)} {k : κ} {i : Nat}

/-- Only the mapped values change. -/
theorem sorted_setMapped (h : Sorted lt Prod.fst body) (i : Nat) (obj : μ) :
    Sorted lt Prod.fst (setMapped body i obj) := by
  rw [Sorted, List.pairwise_iff_getElem] at h ⊢
  intro a b ha hb hab
  have hfst : ∀ j (hj : j < (setMapped body i obj).length) (hj' : j < body.length),
      ((setMapped body i obj)[j]).1 = (body[j]).1 := by
    intro j hj hj'
    simp only [setMapped, List.getElem_modify]
    split
    · rfl
    · rfl
  have hlen : (setMapped body i obj).length = body.length := List.length_modify _ _ _
  have := h a b (hlen ▸ ha) (hlen ▸ hb) hab
  rwa [valueComp, ← hfst a ha (hlen ▸ ha), ← hfst b hb (hlen ▸ hb)] at this

/-- What a program may do with a flat map besides the operations of the tree. An assignment
through the reference that `operator[]` returns is part of `subscriptAssign`. -/
inductive FlatMapOp (κ μ : Type) where
  | tree (op : FlatTreeOp κ (κ × μ))
  | subscript (k : κ) (mapped : μ)
  | subscriptAssign (k : κ) (mapped obj : μ)
  | insertOrAssign (k : κ) (obj : μ)
  | insertOrAssignHint (hint : Nat) (k : κ) (obj : μ)
  | tryEmplace (k : κ) (obj : μ)
  | tryEmplaceHint (hint : Nat) (k : κ) (obj : μ)

def mapStep (lt : κ → κ → Bool) (body : List (κ × μ)) : FlatMapOp κ μ → Option (List (κ × μ))
  | .tree op => treeStep lt Prod.fst body op
  | .subscript k mapped => some (subscript lt body k mapped).1
  | .subscriptAssign k mapped obj =>
    let found := subscript lt body k mapped
    some (setMapped found.1 found.2 obj)
  | .insertOrAssign k obj => some (insertOrAssign lt body k obj).1
  | .insertOrAssignHint hint k obj =>
    if hint ≤ body.length then some (insertOrAssignHint lt body hint k obj).1 else none
  | .tryEmplace k obj => some (tryEmplace lt body k obj).1
  | .tryEmplaceHint hint k obj =>
    if hint ≤ body.length then some (tryEmplaceHint lt body hint k obj).1 else none

variable [IsStrictWeakOrder κ fun a b => lt a b = true]

theorem sorted_subscript (h : Sorted lt Prod.fst body) (k : κ) (mapped : μ) :
    Sorted lt Prod.fst (subscript lt body k mapped).1 := by
  -- `operator[]` places its element where `emplace_key_args` does.
  have heq : (subscript lt body k mapped).1 =
      (emplaceKeyArgs lt Prod.fst body k (k, mapped)).1 := by
    rw [subscript, emplaceKeyArgs]
    cases body[lowerBound lt Prod.fst body k]? with
    | none => rfl
    | some w =>
      dsimp only
      split
      · rfl
      · rfl
  rw [heq]
  exact h.emplaceKeyArgs rfl

/-- Every operation keeps the body strictly increasing. -/
theorem sorted_mapStep {op : FlatMapOp κ μ} {body' : List (κ × μ)}
    (h : Sorted lt Prod.fst body) (hstep : mapStep lt body op = some body') :
    Sorted lt Prod.fst body' := by
  cases op with
  | tree op => exact sorted_treeStep h hstep
  | subscript k mapped =>
    cases hstep
    exact sorted_subscript h k mapped
  | subscriptAssign k mapped obj =>
    cases hstep
    exact sorted_setMapped (sorted_subscript h k mapped) _ obj
  | insertOrAssign k obj =>
    cases hstep
    have hemplace := h.emplaceKeyArgs (v := (k, obj)) rfl
    rw [insertOrAssign]
    split
    · exact sorted_setMapped hemplace _ obj
    · exact hemplace
  | insertOrAssignHint hint k obj =>
    simp only [mapStep, Option.ite_none_right_eq_some, Option.some.injEq] at hstep
    obtain ⟨hhint, rfl⟩ := hstep
    have hemplace := h.emplaceHintKeyArgs (v := (k, obj)) rfl hhint
    rw [insertOrAssignHint]
    split
    · exact sorted_setMapped hemplace _ obj
    · exact hemplace
  | tryEmplace k obj =>
    cases hstep
    exact h.emplaceKeyArgs rfl
  | tryEmplaceHint hint k obj =>
    simp only [mapStep, Option.ite_none_right_eq_some, Option.some.injEq] at hstep
    obtain ⟨hhint, rfl⟩ := hstep
    exact h.emplaceHintKeyArgs (v := (k, obj)) rfl hhint

end Sparo.Base.FlatMap

namespace Sparo.Base.FlatTree

open SortedList FlatMap

/-- For every strict weak order, every program on a flat tree and every program on a flat map
leaves the body strictly increasing by key, and then every lookup of every key returns what a
linear scan of the body defines. -/
theorem flatContainers_sorted_exact {κ β μ : Type} (lt : κ → κ → Bool)
    [IsStrictWeakOrder κ fun a b => lt a b = true] :
    (∀ (key : β → κ) (ops : List (FlatTreeOp κ β)) (body : List β),
      StepSystem.exec (treeStep lt key) [] ops = some body →
      Sorted lt key body ∧ ∀ k, LookupsExact lt key body k) ∧
    ∀ (ops : List (FlatMapOp κ μ)) (body : List (κ × μ)),
      StepSystem.exec (mapStep lt) [] ops = some body →
      Sorted lt Prod.fst body ∧ ∀ k, LookupsExact lt Prod.fst body k := by
  constructor
  · intro key ops body hrun
    have hsorted : Sorted lt key body :=
      StepSystem.exec_invariant (I := Sorted lt key) (fun _ _ _ h hstep => sorted_treeStep h hstep)
        List.Pairwise.nil hrun
    exact ⟨hsorted, hsorted.lookupsExact⟩
  · intro ops body hrun
    have hsorted : Sorted lt Prod.fst body :=
      StepSystem.exec_invariant (I := Sorted lt Prod.fst)
        (fun _ _ _ h hstep => sorted_mapStep h hstep) List.Pairwise.nil hrun
    exact ⟨hsorted, hsorted.lookupsExact⟩

/-- Keys are compared by their tens, so that different keys may be equivalent. -/
def decadeLess (a b : Nat) : Bool := decide (a / 10 < b / 10)

instance : IsStrictWeakOrder Nat fun a b => decadeLess a b = true where
  irrefl a := by simp [decadeLess]
  trans a b c := by
    simp only [decadeLess, decide_eq_true_eq]
    exact Nat.lt_trans
  incomp_trans a b c := by
    simp only [decadeLess, decide_eq_true_eq]
    omega

/-- A range with duplicates is inserted behind another one, then hints that are right and wrong
are followed. -/
def catalogued : List (FlatMapOp Nat Nat) :=
  [.tree (.construct [(31, 0), (12, 1), (35, 2), (90, 3)] .keepLastOfDupes),
    .tree (.insertRange [(50, 4), (13, 5), (59, 6)] false .keepLastOfDupes),
    .subscriptAssign 24 0 7, .tryEmplaceHint 0 5 9, .insertOrAssignHint 6 92 8,
    .tree (.eraseKey 30), .tree (.insertHint 2 (33, 1))]

theorem flatContainers_sorted_exact_catalogued :
    ∃ body, StepSystem.exec (mapStep decadeLess) [] catalogued = some body ∧
      body = [(5, 9), (13, 5), (24, 7), (33, 1), (59, 6), (90, 8)] ∧
      Sorted decadeLess Prod.fst body ∧ ∀ k, LookupsExact decadeLess Prod.fst body k := by
  -- The sorting algorithms recurse on lengths, so they are unfolded rather than decided.
  have hconstruct : construct decadeLess (Prod.fst : Nat × Nat → Nat)
      [(31, 0), (12, 1), (35, 2), (90, 3)] .keepLastOfDupes = [(12, 1), (35, 2), (90, 3)] := by
    simp [construct, sortAndUnique, List.mergeSort, List.MergeSort.Internal.splitInTwo,
      valueComp, decadeLess, lastUnique, adjacentFind, lastOfGroups]
  have hrange : insertRange decadeLess (Prod.fst : Nat × Nat → Nat)
      [(12, 1), (35, 2), (90, 3)] [(50, 4), (13, 5), (59, 6)] false .keepLastOfDupes =
        [(13, 5), (35, 2), (59, 6), (90, 3)] := by
    simp [FlatTree.insertRange, sortAndUnique, List.mergeSort,
      List.MergeSort.Internal.splitInTwo, valueComp, decadeLess, lastUnique, adjacentFind,
      lastOfGroups, appendAll, appendOrAssign, partitionPoint, partitionLoop]
  have hrest : StepSystem.exec (mapStep decadeLess) [(13, 5), (35, 2), (59, 6), (90, 3)]
      (catalogued.drop 2) = some [(5, 9), (13, 5), (24, 7), (33, 1), (59, 6), (90, 8)] := by
    decide +kernel
  have hrun : StepSystem.exec (mapStep decadeLess) [] catalogued =
      some [(5, 9), (13, 5), (24, 7), (33, 1), (59, 6), (90, 8)] :=
    StepSystem.exec_cons_eq_some.2 ⟨_, congrArg some hconstruct,
      StepSystem.exec_cons_eq_some.2 ⟨_, congrArg some hrange, hrest⟩⟩
  exact ⟨_, hrun, rfl, (@flatContainers_sorted_exact Nat Nat Nat decadeLess _).2 _ _ hrun⟩

end Sparo.Base.FlatTree
