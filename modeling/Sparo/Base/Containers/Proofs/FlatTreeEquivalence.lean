import Sparo.Base.Containers.Proofs.FlatTreeDupes

/-!
# Two ways to the same flat tree

A hint or a range instead of single insertions changes how `flat_tree` finds the places of the new
elements, never the tree it ends with. Strictly increasing bodies are equal as soon as they have
the same elements of each class of equivalent keys, so each way is described by what it does to one
class: of the old elements and the new ones, in this order, the first or the last stays.
-/

namespace Sparo.Base.FlatTree

open SortedList

variable {κ β : Type} {lt : κ → κ → Bool} {key : β → κ} {body : List β} {v w : β} {i : Nat}
  {e : β → Bool} {dupes : FlatContainerDupes}

/-! ## One element and one class -/

theorem Fresh.filter_eq_nil (he : IsClass (valueComp lt key) e) (h : Fresh lt key body v i)
    (hv : e v = true) : body.filter e = [] :=
  he.filter_eq_nil hv fun _ hx => (h.of_mem hx).symm

theorem Fresh.filter_unsafeEmplace (he : IsClass (valueComp lt key) e)
    (h : Fresh lt key body v i) :
    (unsafeEmplace body i v).filter e = body.filter e ++ [v].filter e := by
  have hsplit : body.filter e = (body.take i).filter e ++ (body.drop i).filter e := by
    rw [← List.filter_append, List.take_append_drop]
  rw [unsafeEmplace, List.filter_append]
  by_cases hv : e v = true
  · have hnil := h.filter_eq_nil he hv
    rw [hnil]
    rw [hsplit, List.append_eq_nil_iff] at hnil
    rw [List.filter_cons_of_pos hv, hnil.1, hnil.2, List.filter_cons_of_pos hv]
    rfl
  · rw [List.filter_cons_of_neg hv, ← hsplit, List.filter_cons_of_neg hv, List.filter_nil,
      List.append_nil]

/-- An equivalent element is the only one of its class. -/
theorem Present.filter_eq (hsorted : Sorted lt key body) (he : IsClass (valueComp lt key) e)
    (h : Present lt key body v i w) (hv : e v = true) : body.filter e = [w] := by
  have hew : e w = true := (he.iff_of_equiv h.not_less h.not_greater).mp hv
  have hmem : w ∈ body.filter e := List.mem_filter.mpr ⟨List.mem_of_getElem? h.get, hew⟩
  have hlength := he.length_filter_le hsorted
  match hfilter : body.filter e, hmem, hlength with
  | [_], hmem, _ => rw [List.mem_singleton.mp hmem]

theorem Present.filter_set (hsorted : Sorted lt key body) (he : IsClass (valueComp lt key) e)
    (h : Present lt key body v i w) :
    (body.set i v).filter e = if e v then [v] else body.filter e := by
  obtain ⟨hi, hget⟩ := List.getElem?_eq_some_iff.mp h.get
  have hiff := he.iff_of_equiv h.not_less h.not_greater
  have hsplit : body.filter e =
      (body.take i).filter e ++ ([w].filter e ++ (body.drop (i + 1)).filter e) := by
    rw [← List.filter_append, ← List.filter_append, ← hget, List.singleton_append,
      ← List.drop_eq_getElem_cons hi, List.take_append_drop]
  rw [List.set_eq_take_append_cons_drop, if_pos hi, List.filter_append]
  by_cases hv : e v = true
  · have hone := h.filter_eq hsorted he hv
    rw [hsplit, List.filter_cons_of_pos (hiff.mp hv)] at hone
    have hlength := congrArg List.length hone
    simp only [List.length_append, List.length_cons, List.filter_nil, List.length_nil] at hlength
    have hfront : (body.take i).filter e = [] := List.eq_nil_of_length_eq_zero (by omega)
    have hback : (body.drop (i + 1)).filter e = [] := List.eq_nil_of_length_eq_zero (by omega)
    rw [List.filter_cons_of_pos hv, hfront, hback, if_pos hv]
    rfl
  · rw [List.filter_cons_of_neg hv, if_neg hv, hsplit,
      List.filter_cons_of_neg (hv ∘ hiff.mpr)]
    rfl

/-- `insert(val)` or `insert_or_assign(val)`. -/
def insertOne (lt : κ → κ → Bool) (key : β → κ) (dupes : FlatContainerDupes) (body : List β)
    (v : β) : List β :=
  match dupes with
  | .keepFirstOfDupes => (insert lt key body v).1
  | .keepLastOfDupes => (insertOrAssign lt key body v).1

theorem kept_append (values more : List β) :
    kept dupes (kept dupes values ++ more) = kept dupes (values ++ more) := by
  cases dupes with
  | keepFirstOfDupes => cases values <;> rfl
  | keepLastOfDupes =>
    simp only [kept, List.getLast?_append]
    cases values.getLast? <;> simp

variable [IsStrictWeakOrder κ fun a b => lt a b = true]

theorem Sorted.insertOne (h : Sorted lt key body) (dupes : FlatContainerDupes) (v : β) :
    Sorted lt key (insertOne lt key dupes body v) := by
  cases dupes with
  | keepFirstOfDupes => exact h.insert v
  | keepLastOfDupes => exact h.insertOrAssign v

/-- One insertion adds to the class of its element, if there was none of it, or keeps one of the
two. -/
theorem filter_insertOne (h : Sorted lt key body) (he : IsClass (valueComp lt key) e) (v : β) :
    (insertOne lt key dupes body v).filter e = kept dupes (body.filter e ++ [v].filter e) := by
  have hle := he.length_filter_le (h.insertOne dupes v)
  have hold : kept dupes (body.filter e) = body.filter e :=
    kept_of_length_le (he.length_filter_le h)
  cases dupes with
  | keepFirstOfDupes =>
    rw [FlatTree.insertOne, insert_eq] at hle ⊢
    rcases searchBranch_cases h v _ _ with ⟨hfresh, hbranch⟩ | ⟨w, hpresent, hbranch⟩
    · rw [hbranch, hfresh.filter_unsafeEmplace he] at hle ⊢
      exact (kept_of_length_le hle).symm
    · rw [hbranch]
      by_cases hv : e v = true
      · rw [hpresent.filter_eq h he hv, List.filter_cons_of_pos hv]
        rfl
      · rw [List.filter_cons_of_neg hv, List.filter_nil, List.append_nil, hold]
  | keepLastOfDupes =>
    rw [FlatTree.insertOne, insertOrAssign_eq] at hle ⊢
    rcases searchBranch_cases h v _ _ with ⟨hfresh, hbranch⟩ | ⟨w, hpresent, hbranch⟩
    · rw [hbranch, hfresh.filter_unsafeEmplace he] at hle ⊢
      exact (kept_of_length_le hle).symm
    · rw [hbranch, hpresent.filter_set h he]
      by_cases hv : e v = true
      · rw [if_pos hv, hpresent.filter_eq h he hv, List.filter_cons_of_pos hv]
        rfl
      · rw [if_neg hv, List.filter_cons_of_neg hv, List.filter_nil, List.append_nil, hold]

theorem Sorted.foldl_insertOne (h : Sorted lt key body) (dupes : FlatContainerDupes)
    (items : List β) : Sorted lt key (items.foldl (FlatTree.insertOne lt key dupes) body) := by
  induction items generalizing body with
  | nil => exact h
  | cons v items ih => exact ih (h.insertOne dupes v)

/-- All insertions one by one. -/
theorem filter_foldl_insertOne (h : Sorted lt key body) (he : IsClass (valueComp lt key) e)
    (items : List β) :
    (items.foldl (insertOne lt key dupes) body).filter e =
      kept dupes (body.filter e ++ items.filter e) := by
  induction items generalizing body with
  | nil =>
    rw [List.filter_nil, List.append_nil, kept_of_length_le (he.length_filter_le h)]
    rfl
  | cons v items ih =>
    rw [List.foldl_cons, ih (h.insertOne dupes v), filter_insertOne h he, kept_append,
      List.append_assoc, ← List.filter_append]
    rfl

/-! ## A range and one class -/

/-- `append_unique` or `append_or_assign`. -/
def appendOne (lt : κ → κ → Bool) (key : β → κ) (middle : Nat) (dupes : FlatContainerDupes) :
    List β → β → List β × Nat × Bool :=
  match dupes with
  | .keepFirstOfDupes => appendUnique lt key middle
  | .keepLastOfDupes => appendOrAssign lt key middle

/-- What the loop over the range has done to a class when it has seen `seen`. A class with an old
element is settled among the old ones, and the values of one without are collected behind them. -/
structure BatchClass (dupes : FlatContainerDupes) (e : β → Bool) (middle : Nat)
    (old seen body : List β) : Prop where
  absent : old.filter e = [] →
    (body.take middle).filter e = [] ∧ (body.drop middle).filter e = seen.filter e
  present : old.filter e ≠ [] →
    (body.take middle).filter e = kept dupes (old.filter e ++ seen.filter e) ∧
      (body.drop middle).filter e = []

omit [IsStrictWeakOrder κ fun a b => lt a b = true] in
theorem kept_ne_nil {values more : List β} (h : values ≠ []) :
    kept dupes (values ++ more) ≠ [] := by
  cases dupes with
  | keepFirstOfDupes => cases values <;> simp_all [kept]
  | keepLastOfDupes => cases values <;> simp_all [kept]

variable {middle : Nat} {old seen : List β}

omit [IsStrictWeakOrder κ fun a b => lt a b = true] in
/-- An element without an equivalent old one is appended. -/
theorem BatchClass.append (h : BatchClass dupes e middle old seen body)
    (he : IsClass (valueComp lt key) e) (hle : middle ≤ body.length)
    (hfresh : Fresh lt key (body.take middle) v i) :
    BatchClass dupes e middle old (seen ++ [v]) (body ++ [v]) := by
  have htake : (body ++ [v]).take middle = body.take middle := List.take_append_of_le_length hle
  have hdrop : (body ++ [v]).drop middle = body.drop middle ++ [v] :=
    List.drop_append_of_le_length hle
  refine ⟨fun hold => ?_, fun hold => ?_⟩
  · obtain ⟨hfront, hback⟩ := h.absent hold
    rw [htake, hdrop, List.filter_append, List.filter_append, hback]
    exact ⟨hfront, rfl⟩
  · obtain ⟨hfront, hback⟩ := h.present hold
    have hv : ¬e v = true := by
      intro hv
      rw [hfresh.filter_eq_nil he hv] at hfront
      exact kept_ne_nil hold hfront.symm
    rw [htake, hdrop, List.filter_append, List.filter_append, hback, hfront,
      List.filter_cons_of_neg hv]
    simp

omit [IsStrictWeakOrder κ fun a b => lt a b = true] in
/-- An element with an equivalent old one is dropped or takes its place. -/
theorem BatchClass.settle (h : BatchClass dupes e middle old seen body)
    (he : IsClass (valueComp lt key) e) (hsorted : Sorted lt key (body.take middle))
    (hpresent : Present lt key (body.take middle) v i w) {body' : List β}
    (hfront' : (body'.take middle).filter e =
      if e v then kept dupes [w, v] else (body.take middle).filter e)
    (hback' : body'.drop middle = body.drop middle) :
    BatchClass dupes e middle old (seen ++ [v]) body' := by
  have hone : e v = true → (body.take middle).filter e = [w] := hpresent.filter_eq hsorted he
  refine ⟨fun hold => ?_, fun hold => ?_⟩
  · obtain ⟨hfront, hback⟩ := h.absent hold
    have hv : ¬e v = true := fun hv => by
      rw [hone hv] at hfront
      cases hfront
    rw [hfront', hback', if_neg hv, hfront, hback, List.filter_append, List.filter_cons_of_neg hv]
    simp
  · obtain ⟨hfront, hback⟩ := h.present hold
    refine ⟨?_, by rw [hback', hback]⟩
    rw [hfront', List.filter_append, ← List.append_assoc, ← kept_append, ← hfront]
    by_cases hv : e v = true
    · rw [if_pos hv, hone hv, List.filter_cons_of_pos hv]
      rfl
    · rw [if_neg hv, List.filter_cons_of_neg hv, List.filter_nil, List.append_nil,
        kept_of_length_le (he.length_filter_le hsorted)]

theorem BatchClass.appendOne (h : BatchClass dupes e middle old seen body)
    (he : IsClass (valueComp lt key) e) (hle : middle ≤ body.length)
    (hsorted : Sorted lt key (body.take middle)) (v : β) :
    BatchClass dupes e middle old (seen ++ [v]) (appendOne lt key middle dupes body v).1 := by
  cases dupes with
  | keepFirstOfDupes =>
    rw [FlatTree.appendOne, appendUnique_eq]
    rcases searchBranch_cases hsorted v _ _ with ⟨hfresh, hbranch⟩ | ⟨w, hpresent, hbranch⟩
    · rw [hbranch]
      exact h.append he hle hfresh
    · rw [hbranch]
      refine h.settle he hsorted hpresent ?_ rfl
      by_cases hv : e v = true
      · rw [if_pos hv, hpresent.filter_eq hsorted he hv]
        rfl
      · rw [if_neg hv]
  | keepLastOfDupes =>
    rw [FlatTree.appendOne, appendOrAssign_eq]
    rcases searchBranch_cases hsorted v _ _ with ⟨hfresh, hbranch⟩ | ⟨w, hpresent, hbranch⟩
    · rw [hbranch]
      exact h.append he hle hfresh
    · rw [hbranch]
      have hlt : lowerBound lt key (body.take middle) (key v) < middle := by
        have := (List.getElem?_eq_some_iff.mp hpresent.get).1
        rw [List.length_take] at this
        omega
      refine h.settle he hsorted hpresent ?_ (List.drop_set_of_lt hlt)
      rw [List.take_set, hpresent.filter_set hsorted he]
      rfl

theorem keepsAppended_appendOne (middle : Nat) (dupes : FlatContainerDupes) :
    KeepsAppended lt key middle (appendOne lt key middle dupes) := by
  cases dupes with
  | keepFirstOfDupes => exact keepsAppended_appendUnique middle
  | keepLastOfDupes => exact keepsAppended_appendOrAssign middle

theorem appendAll_batchClass {pos : Nat} (h : BatchClass dupes e middle old seen body)
    (he : IsClass (valueComp lt key) e) (happended : Appended lt key middle body pos)
    (items : List β) :
    BatchClass dupes e middle old (seen ++ items)
      (appendAll (appendOne lt key middle dupes) body pos items).1 := by
  induction items generalizing body seen pos with
  | nil => rwa [List.append_nil]
  | cons v items ih =>
    have hnext := ih (h.appendOne he happended.middle_le happended.sorted v)
      (keepsAppended_appendOne middle dupes body v pos happended)
    rwa [List.append_assoc] at hnext

/-- The elements of the batch path before they are merged. -/
theorem filter_batch (h : Sorted lt key body) (he : IsClass (valueComp lt key) e)
    (items : List β) :
    (sortAndUnique lt key (appendAll (appendOne lt key body.length dupes) body body.length items).1
      body.length dupes).filter e = kept dupes (body.filter e ++ items.filter e) := by
  have hstart : BatchClass dupes e body.length body [] body := by
    refine ⟨fun hold => ?_, fun hold => ?_⟩
    · rw [List.take_length, List.drop_length]
      exact ⟨hold, rfl⟩
    · rw [List.take_length, List.drop_length, List.filter_nil, List.append_nil,
        kept_of_length_le (he.length_filter_le h)]
      exact ⟨rfl, rfl⟩
  have hbatch := appendAll_batchClass hstart he h.appended items
  rw [filter_sortAndUnique he]
  by_cases hold : body.filter e = []
  · obtain ⟨hfront, hback⟩ := hbatch.absent hold
    rw [hfront, hback, hold]
    rfl
  · obtain ⟨hfront, hback⟩ := hbatch.present hold
    rw [hfront, hback]
    cases dupes <;> simp [kept]

omit [IsStrictWeakOrder κ fun a b => lt a b = true] in
/-- Merging only changes the order. -/
theorem mem_merged {pos : Nat} (hpos : pos ≤ middle) (x : β) :
    x ∈ body.take pos ++ List.merge ((body.take middle).drop pos) (body.drop middle)
        (fun a b => !valueComp lt key b a) ↔ x ∈ body := by
  have hperm : (List.merge ((body.take middle).drop pos) (body.drop middle)
      fun a b => !valueComp lt key b a).Perm ((body.take middle).drop pos ++ body.drop middle) :=
    List.merge_perm_append _
  rw [(hperm.append_left (body.take pos)).mem_iff, ← List.append_assoc]
  have htake : body.take pos ++ (body.take middle).drop pos = body.take middle := by
    rw [← Nat.min_eq_left hpos, ← List.take_take, Nat.min_eq_left hpos, List.take_append_drop]
  rw [htake, List.take_append_drop]

/-- What stands in a body is what stands in it of its own class. -/
theorem mem_iff_mem_filter (lt : κ → κ → Bool) (key : β → κ)
    [IsStrictWeakOrder κ fun a b => lt a b = true] (body : List β) (x : β) :
    x ∈ body ↔ x ∈ body.filter (equivalent lt key (key x)) := by
  have hx : equivalent lt key (key x) x = true := by
    simp [equivalent, Bool.eq_false_iff.mpr (@less_irrefl κ lt _ (key x))]
  simp [List.mem_filter, hx]

omit [IsStrictWeakOrder κ fun a b => lt a b = true] in
/-- The batch path of the insertion of a range. -/
theorem insertRange_batch {items : List β} {multipass : Bool} (hempty : ¬items.isEmpty = true)
    (hone : ¬(multipass && items.length == 1) = true) :
    insertRange lt key body items multipass dupes =
      (sortAndUnique lt key
        (appendAll (appendOne lt key body.length dupes) body body.length items).1 body.length
        dupes).take (appendAll (appendOne lt key body.length dupes) body body.length items).2 ++
      List.merge (((sortAndUnique lt key
        (appendAll (appendOne lt key body.length dupes) body body.length items).1 body.length
        dupes).take body.length).drop
          (appendAll (appendOne lt key body.length dupes) body body.length items).2)
        ((sortAndUnique lt key
          (appendAll (appendOne lt key body.length dupes) body body.length items).1 body.length
          dupes).drop body.length) fun a b => !valueComp lt key b a := by
  unfold FlatTree.insertRange
  rw [if_neg hempty, if_neg hone]
  cases dupes <;> rfl

/-- The elements that the batch path leaves. -/
theorem mem_insertRange_batch (h : Sorted lt key body) {items : List β} {multipass : Bool}
    (hempty : ¬items.isEmpty = true) (hone : ¬(multipass && items.length == 1) = true) (x : β) :
    x ∈ insertRange lt key body items multipass dupes ↔
      x ∈ kept dupes (body.filter (equivalent lt key (key x)) ++
        items.filter (equivalent lt key (key x))) := by
  have happended :=
    appendAll_appended (keepsAppended_appendOne body.length dupes) h.appended items
  rw [insertRange_batch hempty hone, mem_merged happended.pos_le, mem_iff_mem_filter lt key,
    filter_batch h (isClass_equivalent (key x))]

theorem insertRange_eq_insertOne (h : Sorted lt key body) (items : List β) (multipass : Bool)
    (dupes : FlatContainerDupes) :
    insertRange lt key body items multipass dupes =
      items.foldl (insertOne lt key dupes) body := by
  by_cases hempty : items.isEmpty = true
  · rw [List.isEmpty_iff.mp hempty]
    rfl
  · by_cases hone : (multipass && items.length == 1) = true
    · -- A single element is inserted in place, with the end for a hint or without one.
      obtain ⟨v, rfl⟩ := List.length_eq_one_iff.mp (by simpa using (Bool.and_eq_true_iff.mp hone).2)
      unfold FlatTree.insertRange
      rw [if_neg hempty, if_pos hone]
      cases dupes with
      | keepFirstOfDupes =>
        exact congrArg Prod.fst (emplaceHintKeyArgs_eq h body.length (Nat.le_refl _) (key v) v)
      | keepLastOfDupes => rfl
    · refine eq_of_mem_iff (h.insertRange items multipass dupes) (h.foldl_insertOne dupes items)
        fun x => ?_
      rw [mem_insertRange_batch h hempty hone, ← filter_foldl_insertOne h
        (isClass_equivalent (key x)), ← mem_iff_mem_filter]

/-- Inserting a range leaves the body that inserting its elements one by one leaves: with `insert`
where the first of several duplicates is to be kept, and with `insert_or_assign` where the last. -/
theorem insertRange_eq_foldl {κ β : Type} (lt : κ → κ → Bool) (key : β → κ)
    [IsStrictWeakOrder κ fun a b => lt a b = true] (body : List β) (h : Sorted lt key body)
    (items : List β) (multipass : Bool) :
    insertRange lt key body items multipass .keepFirstOfDupes =
        items.foldl (fun body v => (insert lt key body v).1) body ∧
      insertRange lt key body items multipass .keepLastOfDupes =
        items.foldl (fun body v => (insertOrAssign lt key body v).1) body :=
  ⟨insertRange_eq_insertOne h items multipass .keepFirstOfDupes,
    insertRange_eq_insertOne h items multipass .keepLastOfDupes⟩

/-- Duplicates within the range and against the tree, by the tens of the first components. -/
theorem insertRange_eq_foldl_tens :
    Sorted decadeLess Prod.fst [(12, 1), (35, 2), (90, 3)] ∧
    insertRange decadeLess Prod.fst [(12, 1), (35, 2), (90, 3)] [(50, 4), (13, 5), (59, 6)] false
      .keepFirstOfDupes = [(12, 1), (35, 2), (50, 4), (90, 3)] ∧
    insertRange decadeLess Prod.fst [(12, 1), (35, 2), (90, 3)] [(50, 4), (13, 5), (59, 6)] false
      .keepLastOfDupes = [(13, 5), (35, 2), (59, 6), (90, 3)] := by
  have hsorted : Sorted decadeLess Prod.fst [(12, 1), (35, 2), (90, 3)] := by
    simp [Sorted, valueComp, decadeLess]
  obtain ⟨hfirst, hlast⟩ := insertRange_eq_foldl decadeLess Prod.fst _ hsorted
    [(50, 4), (13, 5), (59, 6)] false
  exact ⟨hsorted, hfirst.trans (by decide +kernel), hlast.trans (by decide +kernel)⟩

/-! ## Hints -/

/-- Whatever the hint, the insertion leaves the body that the one without a hint leaves, and
returns an iterator to the same position. -/
theorem insertHint_eq_insert {κ β : Type} (lt : κ → κ → Bool) (key : β → κ)
    [IsStrictWeakOrder κ fun a b => lt a b = true] (body : List β) (h : Sorted lt key body)
    (hint : Nat) (hle : hint ≤ body.length) (v : β) :
    insertHint lt key body hint v = ((insert lt key body v).1, (insert lt key body v).2.1) ∧
      ∀ k, emplaceHintKeyArgs lt key body hint k v = emplaceKeyArgs lt key body k v := by
  refine ⟨?_, fun k => emplaceHintKeyArgs_eq h hint hle k v⟩
  rw [insertHint, emplaceHintKeyArgs_eq h hint hle]
  rfl

/-- A hint in front of a smaller element. -/
theorem insertHint_eq_insert_wrong :
    Sorted decadeLess id [12, 35, 90] ∧
      insertHint decadeLess id [12, 35, 90] 1 50 = ([12, 35, 50, 90], 2) := by
  have hsorted : Sorted decadeLess id [12, 35, 90] := by simp [Sorted, valueComp, decadeLess]
  obtain ⟨hsame, -⟩ := insertHint_eq_insert decadeLess id [12, 35, 90] hsorted 1 (by decide) 50
  exact ⟨hsorted, hsame.trans (by decide +kernel)⟩

end Sparo.Base.FlatTree
