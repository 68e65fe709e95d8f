import Mathlib.Data.List.Nodup
import Mathlib.Order.RelClasses
import Sparo.Base.IntrusiveHeap

/-!
# Holes of the intrusive heap

While a hole moves through the heap the entry of the vector at the hole is of no account. `Hole`
describes the heap as the list it would be with the element in the hole: moving the hole exchanges
two elements of that list, and filling it makes the list the heap.
-/

namespace Sparo.Base.IntrusiveHeap

open BinaryHeap

variable {α : Type*} {lt : α → α → Bool} {movedFrom : Element α → Element α} {s t : State α}
  {xs ys tail : List (Element α)} {hole i j n : Nat} {e x : Element α}

instance [IsStrictWeakOrder α fun a b => lt a b = true] :
    IsStrictWeakOrder (Element α) (Less lt) :=
  inferInstanceAs (IsStrictWeakOrder _ (Order.Preimage Element.value fun a b => lt a b = true))

/-- Every element has its position in its handle. -/
def Tracked (handles : Nat → Option Nat) (xs : List (Element α)) : Prop :=
  ∀ (i : Nat) x, xs[i]? = some x → handles x.id = some i

/-- Only handles of the elements `xs` have changed. -/
def Frame (xs : List (Element α)) (handles handles' : Nat → Option Nat) : Prop :=
  ∀ id, id ∉ xs.map Element.id → handles' id = handles id

theorem Frame.refl (xs : List (Element α)) (handles : Nat → Option Nat) :
    Frame xs handles handles :=
  fun _ _ => rfl

theorem Frame.trans {handles handles' handles'' : Nat → Option Nat}
    (h : Frame xs handles handles') (h' : Frame ys handles' handles'') (hperm : ys.Perm xs) :
    Frame xs handles handles'' := by
  intro id hid
  rw [h' id fun hmem => hid ((hperm.map Element.id).mem_iff.mp hmem)]
  exact h id hid

theorem Frame.update {handles : Nat → Option Nat} (hx : x ∈ xs) (o : Option Nat) :
    Frame xs handles (Function.update handles x.id o) := by
  intro id hid
  have hne : id ≠ x.id := by
    rintro rfl
    exact hid (List.mem_map_of_mem hx)
  rw [Function.update_of_ne hne]

/-- Elements at different positions have different cells. -/
theorem id_ne (hnodup : (xs.map Element.id).Nodup) {y : Element α} (hx : xs[i]? = some x)
    (hy : xs[j]? = some y) (hij : i ≠ j) : x.id ≠ y.id := by
  intro heq
  apply hij
  have hi : i < (xs.map Element.id).length := by
    rw [List.length_map]
    exact (List.getElem?_eq_some_iff.mp hx).1
  apply (List.getElem?_inj hi hnodup).mp
  rw [List.getElem?_map, List.getElem?_map, hx, hy, Option.map_some, Option.map_some, heq]

/-! ## Filling a hole -/

/-- The heap with the element in the hole. -/
def filled (heap : List (Element α)) (hole : Nat) (e : Element α) : List (Element α) :=
  if hole = heap.length then heap ++ [e] else heap.set hole e

section

variable {heap : List (Element α)}

theorem filled_self (hle : hole ≤ heap.length) : (filled heap hole e)[hole]? = some e := by
  unfold filled
  split
  · next h => rw [h, List.getElem?_concat_length]
  · exact List.getElem?_set_self (by omega)

theorem filled_of_ne (hi : i ≠ hole) : (filled heap hole e)[i]? = heap[i]? := by
  unfold filled
  split
  · next h =>
    rcases Nat.lt_or_ge i heap.length with hlt | hge
    · exact List.getElem?_append_left hlt
    · rw [List.getElem?_eq_none hge, List.getElem?_eq_none]
      rw [List.length_append, List.length_singleton]
      omega
  · exact List.getElem?_set_ne (Ne.symm hi)

theorem le_length_of_filled (h : hole < (filled heap hole e).length) : hole ≤ heap.length := by
  unfold filled at h
  split at h
  · omega
  · rw [List.length_set] at h
    omega

theorem lt_length_filled (hj : j < heap.length) : j < (filled heap hole e).length := by
  unfold filled
  split
  · rw [List.length_append]
    omega
  · rwa [List.length_set]

/-- Moving the element at `j` into the hole is a move of the list with the hole filled. What is
left at `j` does not matter. -/
theorem filled_filled (y : Element α) (hle : hole ≤ heap.length) (hj : j < heap.length)
    (hne : j ≠ hole) :
    filled (filled (heap.set j y) hole x) j e = moved (filled heap hole e) hole j x e := by
  have hle' : hole ≤ (heap.set j y).length := by rwa [List.length_set]
  have hjle : j ≤ (filled (heap.set j y) hole x).length := by
    apply Nat.le_of_lt
    apply lt_length_filled
    rwa [List.length_set]
  have hlt : hole < (filled heap hole e).length :=
    (List.getElem?_eq_some_iff.mp (filled_self hle)).1
  apply List.ext_getElem?
  intro k
  by_cases hkj : k = j
  · subst hkj
    rw [filled_self hjle, moved_new (lt_length_filled hj)]
  · rw [filled_of_ne hkj]
    by_cases hk : k = hole
    · subst hk
      rw [filled_self hle', moved_old hkj hlt]
    · rw [filled_of_ne hk, List.getElem?_set_ne (Ne.symm hkj), moved_of_ne hk hkj, filled_of_ne hk]

end

theorem fillHole_eq (hle : hole ≤ s.heap.length) :
    s.fillHole hole e = some { heap := filled s.heap hole e
                               handles := Function.update s.handles e.id (some hole) } := by
  have hself := filled_self (e := e) hle
  unfold State.fillHole filled at *
  split
  · next h =>
    rw [if_pos h] at hself
    simp only [State.setHeapHandle, hself, Option.map_some]
  · next h =>
    rw [if_neg h] at hself
    simp only [State.setHeapHandle, hself, Option.map_some]

/-- The heap is `xs ++ tail` with `e` in the hole, and the handles of the elements of `xs` other
than `e` are right. -/
structure Hole (s : State α) (hole : Nat) (e : Element α) (xs tail : List (Element α)) : Prop where
  filled : filled s.heap hole e = xs ++ tail
  lt : hole < xs.length
  nodup : (xs.map Element.id).Nodup
  tracked : ∀ (i : Nat) x, i ≠ hole → xs[i]? = some x → s.handles x.id = some i

namespace Hole

theorem le_length (h : Hole s hole e xs tail) : hole ≤ s.heap.length := by
  apply le_length_of_filled (e := e)
  rw [h.filled, List.length_append]
  have := h.lt
  omega

theorem getElem?_self (h : Hole s hole e xs tail) : xs[hole]? = some e := by
  rw [← List.getElem?_append_left h.lt, ← h.filled]
  exact filled_self h.le_length

theorem length_eq (h : Hole s hole e xs tail) (hlt : hole < s.heap.length) :
    s.heap.length = xs.length + tail.length := by
  rw [← List.length_append, ← h.filled, IntrusiveHeap.filled, if_neg (Nat.ne_of_lt hlt),
    List.length_set]

/-- Away from the hole the heap is `xs`. -/
theorem heap_getElem? (h : Hole s hole e xs tail) (hi : i ≠ hole) (hx : xs[i]? = some x) :
    s.heap[i]? = some x := by
  have hlt := (List.getElem?_eq_some_iff.mp hx).1
  rw [← filled_of_ne hi, h.filled, List.getElem?_append_left hlt, hx]

/-- `FillHole` ends the moves. -/
theorem fillHole (h : Hole s hole e xs tail) :
    ∃ t, s.fillHole hole e = some t ∧ t.heap = xs ++ tail ∧ Tracked t.handles xs ∧
      Frame xs s.handles t.handles := by
  refine ⟨_, fillHole_eq h.le_length, h.filled, fun i x hx => ?_, ?_⟩
  · by_cases hi : i = hole
    · subst hi
      obtain rfl : e = x := Option.some.inj (h.getElem?_self.symm.trans hx)
      exact Function.update_self ..
    · dsimp only
      rw [Function.update_of_ne (id_ne h.nodup hx h.getElem?_self hi)]
      exact h.tracked i x hi hx
  · exact Frame.update (List.mem_of_getElem? h.getElem?_self) _

/-- `MoveHole` exchanges the hole with another position. -/
theorem moveHole (movedFrom : Element α → Element α) (h : Hole s hole e xs tail) (hj : j ≠ hole)
    (hx : xs[j]? = some x) :
    ∃ t, s.moveHole movedFrom j hole = some t ∧ Hole t j e (moved xs hole j x e) tail ∧
      Frame xs s.handles t.handles := by
  have hjlt := (List.getElem?_eq_some_iff.mp hx).1
  have hperm := moved_perm h.getElem?_self hx
  have hlt : hole < xs.length := h.lt
  have hle : hole ≤ (s.heap.set j (movedFrom x)).length := by
    rw [List.length_set]
    exact h.le_length
  have hmove : s.moveHole movedFrom j hole = some
      { heap := IntrusiveHeap.filled (s.heap.set j (movedFrom x)) hole x
        handles := Function.update s.handles x.id (some hole) } := by
    simp only [State.moveHole, State.moveOut, h.heap_getElem? hj hx, Option.map_some,
      Option.bind_some]
    exact fillHole_eq hle
  refine ⟨_, hmove, ⟨?_, ?_, ?_, fun i y hi hy => ?_⟩, Frame.update (List.mem_of_getElem? hx) _⟩
  · have hheap := (List.getElem?_eq_some_iff.mp (h.heap_getElem? hj hx)).1
    rw [filled_filled _ h.le_length hheap hj, h.filled, moved_append hlt hjlt]
  · rw [hperm.length_eq]
    exact hjlt
  · exact (hperm.map Element.id).nodup_iff.mpr h.nodup
  · rcases moved_cases hy hi with ⟨rfl, rfl⟩ | ⟨hih, hy⟩
    · exact Function.update_self ..
    · dsimp only
      rw [Function.update_of_ne (id_ne h.nodup hy hx hi)]
      exact h.tracked i y hih hy

end Hole

/-! ## Loops -/

/-- The heap with a hole after moves of the hole: it has the same elements, and everything but the
element in the hole is in order. -/
structure HoleMoved (lt : α → α → Bool) (s : State α) (e : Element α)
    (xs tail : List (Element α)) (t : State α) (k : Nat) (ys : List (Element α)) : Prop where
  hole : Hole t k e ys tail
  perm : ys.Perm xs
  around : HeapAround (Less lt) ys k
  frame : Frame xs s.handles t.handles

theorem HoleMoved.refl (h : Hole s hole e xs tail) (haround : HeapAround (Less lt) xs hole) :
    HoleMoved lt s e xs tail s hole xs :=
  ⟨h, List.Perm.refl xs, haround, Frame.refl xs _⟩

/-- Moves that come after a move. -/
theorem HoleMoved.of_move {u : State α} {zs : List (Element α)} {k : Nat}
    (h : HoleMoved lt t e ys tail u k zs) (hperm : ys.Perm xs)
    (hframe : Frame xs s.handles t.handles) : HoleMoved lt s e xs tail u k zs :=
  ⟨h.hole, h.perm.trans hperm, h.around, hframe.trans h.frame hperm⟩

/-- The heap after the hole is filled: a heap of the elements `xs`, followed by what stood behind
them, with all handles right. -/
structure Repaired (lt : α → α → Bool) (s : State α) (xs tail : List (Element α)) (t : State α)
    (ys : List (Element α)) : Prop where
  heap : t.heap = ys ++ tail
  perm : ys.Perm xs
  isHeap : IsHeap (Less lt) ys
  tracked : Tracked t.handles ys
  frame : Frame xs s.handles t.handles

/-- `FillHole` after the moves, with an element that fits. -/
theorem HoleMoved.fillHole (h : HoleMoved lt s e xs tail t hole ys)
    (habove : AboveChildren (Less lt) ys hole e) (hbelow : BelowParent (Less lt) ys hole e) :
    ∃ u, t.fillHole hole e = some u ∧ Repaired lt s xs tail u ys := by
  obtain ⟨u, hu, hheap, htracked, hframe⟩ := h.hole.fillHole
  have hisHeap := h.around.isHeap h.hole.getElem?_self habove hbelow
  exact ⟨u, hu, hheap, h.perm, hisHeap, htracked, h.frame.trans hframe h.perm⟩

section

variable [IsStrictWeakOrder α fun a b => lt a b = true]

/-- The loop of `MoveHoleUpAndFill` stops where the element fits. -/
theorem moveHoleUp_spec (movedFrom : Element α → Element α) (h : Hole s hole e xs tail)
    (haround : HeapAround (Less lt) xs hole) (habove : AboveChildren (Less lt) xs hole e) :
    ∃ t k ys, s.moveHoleUp lt movedFrom hole e = some (t, k) ∧
      HoleMoved lt s e xs tail t k ys ∧ AboveChildren (Less lt) ys k e ∧
      BelowParent (Less lt) ys k e := by
  induction hole using Nat.strongRecOn generalizing s xs with
  | ind hole ih =>
    rw [State.moveHoleUp]
    by_cases hzero : hole = 0
    · refine ⟨s, hole, xs, if_pos hzero, .refl h haround, habove, fun p hpos => ?_⟩
      omega
    · rw [if_neg hzero]
      have hpos := Nat.pos_of_ne_zero hzero
      have hlt := h.lt
      have hplt : parentIndex hole < hole := parent_lt hpos
      obtain ⟨p, hp⟩ : ∃ p, xs[parentIndex hole]? = some p :=
        ⟨_, List.getElem?_eq_getElem (by omega)⟩
      have hne : parentIndex hole ≠ hole := by omega
      rw [h.heap_getElem? hne hp, Option.bind_some]
      by_cases hless : lt p.value e.value = true
      · rw [if_pos hless]
        obtain ⟨u, hu, hhole, hframe⟩ := h.moveHole movedFrom hne hp
        obtain ⟨haround', habove'⟩ := haround.up hpos hlt hp hless
        obtain ⟨t, k, ys, hrun, hmoved, hfits⟩ := ih _ hplt hhole haround' habove'
        rw [hu, Option.bind_some]
        exact ⟨t, k, ys, hrun, hmoved.of_move (moved_perm h.getElem?_self hp) hframe, hfits⟩
      · refine ⟨s, hole, xs, if_neg hless, .refl h haround, habove, fun q _ hq => ?_⟩
        obtain rfl : p = q := Option.some.inj (hp.symm.trans hq)
        exact hless

/-- `MoveHoleUpAndFill` repairs the heap and returns the position of the element. -/
theorem moveHoleUpAndFill_spec (movedFrom : Element α → Element α) (h : Hole s hole e xs tail)
    (haround : HeapAround (Less lt) xs hole) (habove : AboveChildren (Less lt) xs hole e) :
    ∃ t k ys, s.moveHoleUpAndFill lt movedFrom hole e = some (t, k) ∧
      Repaired lt s xs tail t ys ∧ ys[k]? = some e := by
  obtain ⟨u, k, ys, hrun, hmoved, habove', hbelow'⟩ := moveHoleUp_spec movedFrom h haround habove
  obtain ⟨t, ht, hrepaired⟩ := hmoved.fillHole habove' hbelow'
  refine ⟨t, k, ys, ?_, hrepaired, hmoved.hole.getElem?_self⟩
  simp only [State.moveHoleUpAndFill, hrun, ht, Option.bind_some, Option.map_some]

/-- The greater child of the hole is not below the other one. -/
theorem rightIsLargest_spec (lt : α → α → Bool) [IsStrictWeakOrder α fun a b => lt a b = true]
    (h : Hole s hole e xs tail) (hleft : leftIndex hole < xs.length) :
    ∃ isRight j x, s.rightIsLargest lt xs.length (leftIndex hole) = some isRight ∧
      j = (if isRight then leftIndex hole + 1 else leftIndex hole) ∧
      xs[j]? = some x ∧ 0 < j ∧ parent j = hole ∧ AboveChildren (Less lt) xs hole x := by
  have hpos : 0 < leftIndex hole := Nat.succ_pos _
  have hlt : hole < leftIndex hole := by
    unfold leftIndex
    omega
  have hleftChild : parent (leftIndex hole) = hole := (parent_eq_iff hpos).mpr (.inl rfl)
  obtain ⟨l, hl⟩ : ∃ l, xs[leftIndex hole]? = some l := ⟨_, List.getElem?_eq_getElem hleft⟩
  have honly : ∀ x, xs[leftIndex hole]? = some x → l = x :=
    fun x hx => Option.some.inj (hl.symm.trans hx)
  unfold State.rightIsLargest
  by_cases hright : leftIndex hole + 1 < xs.length
  · have hrightChild : parent (leftIndex hole + 1) = hole :=
      (parent_eq_iff (Nat.succ_pos _)).mpr (.inr rfl)
    obtain ⟨q, hq⟩ : ∃ q, xs[leftIndex hole + 1]? = some q := ⟨_, List.getElem?_eq_getElem hright⟩
    have honlyRight : ∀ x, xs[leftIndex hole + 1]? = some x → q = x :=
      fun x hx => Option.some.inj (hq.symm.trans hx)
    have hvalue : s.less lt (leftIndex hole) (leftIndex hole + 1) = some (lt l.value q.value) := by
      rw [State.less, h.heap_getElem? (by omega) hl, h.heap_getElem? (by omega) hq,
        Option.bind_some, Option.map_some]
    rw [if_pos hright, hvalue]
    by_cases hless : lt l.value q.value = true
    · refine ⟨true, leftIndex hole + 1, q, congrArg some hless, rfl, hq, Nat.succ_pos _,
        hrightChild, ?_⟩
      apply aboveChildren_of
      · exact fun x hx => honly x hx ▸ asymm_of (Less lt) hless
      · exact fun x hx => honlyRight x hx ▸ irrefl_of (Less lt) q
    · refine ⟨false, leftIndex hole, l, congrArg some (Bool.not_eq_true _ ▸ hless), rfl, hl, hpos,
        hleftChild, ?_⟩
      apply aboveChildren_of
      · exact fun x hx => honly x hx ▸ irrefl_of (Less lt) l
      · exact fun x hx => honlyRight x hx ▸ hless
  · refine ⟨false, leftIndex hole, l, if_neg hright, rfl, hl, hpos, hleftChild, ?_⟩
    apply aboveChildren_of
    · exact fun x hx => honly x hx ▸ irrefl_of (Less lt) l
    · exact fun x hx => absurd (List.getElem?_eq_some_iff.mp hx).1 hright

/-- The loop of `MoveHoleDownAndFill` stops where the element is not below a child, if it is
compared, and where there are no children. -/
theorem moveHoleDown_spec (movedFrom : Element α → Element α) (isLeafElement : Bool)
    (h : Hole s hole e xs tail) (haround : HeapAround (Less lt) xs hole)
    (hbelow : isLeafElement = false → BelowParent (Less lt) xs hole e) :
    ∃ t k ys, s.moveHoleDown lt movedFrom isLeafElement xs.length hole e = some (t, k) ∧
      HoleMoved lt s e xs tail t k ys ∧ AboveChildren (Less lt) ys k e ∧
      (isLeafElement = false → BelowParent (Less lt) ys k e) := by
  induction hm : xs.length - hole using Nat.strongRecOn generalizing s hole xs with
  | ind m ih =>
    subst hm
    rw [State.moveHoleDown]
    by_cases hleft : leftIndex hole < xs.length
    · rw [if_pos hleft]
      obtain ⟨isRight, j, x, hright, hj, hx, hjpos, hchild, hlargest⟩ :=
        rightIsLargest_spec lt h hleft
      have hhj : hole < j := hchild ▸ parent_lt hjpos
      have hjlt := (List.getElem?_eq_some_iff.mp hx).1
      simp only [hright, Option.bind_some, ← hj, h.heap_getElem? (Nat.ne_of_gt hhj) hx]
      by_cases hless : (isLeafElement || lt e.value x.value) = true
      · rw [if_pos hless]
        obtain ⟨u, hu, hhole, hframe⟩ := h.moveHole movedFrom (Nat.ne_of_gt hhj) hx
        have hperm := moved_perm h.getElem?_self hx
        have haround' := haround.down (e := e) hjpos hchild hx h.lt hlargest
        have hbelow' : isLeafElement = false →
            BelowParent (Less lt) (moved xs hole j x e) j e := by
          rintro rfl
          exact belowParent_moved hjpos hchild h.lt hless
        obtain ⟨t, k, ys, hrun, hmoved, hfits⟩ :=
          ih _ (by rw [hperm.length_eq]; omega) hhole haround' hbelow' rfl
        rw [hperm.length_eq] at hrun
        rw [hu, Option.bind_some]
        exact ⟨t, k, ys, hrun, hmoved.of_move hperm hframe, hfits⟩
      · rw [Bool.or_eq_true, not_or] at hless
        refine ⟨s, hole, xs, if_neg ?_, .refl h haround, hlargest.of_not hless.2, hbelow⟩
        rw [Bool.or_eq_true, not_or]
        exact hless
    · refine ⟨s, hole, xs, if_neg hleft, .refl h haround, fun i x hi hparent hx => ?_, hbelow⟩
      have hlt := (List.getElem?_eq_some_iff.mp hx).1
      rw [parent_eq_iff hi] at hparent
      unfold leftIndex at hleft
      omega

/-- `MoveHoleDownAndFill<WithElement>` repairs the heap, for an element that is not above the
parent. -/
theorem moveHoleDownAndFill_spec (movedFrom : Element α → Element α) (h : Hole s hole e xs [])
    (hlt : hole < s.heap.length) (haround : HeapAround (Less lt) xs hole)
    (hbelow : BelowParent (Less lt) xs hole e) :
    ∃ t k ys, s.moveHoleDownAndFill lt movedFrom false hole e = some (t, k) ∧
      Repaired lt s xs [] t ys ∧ ys[k]? = some e := by
  obtain ⟨u, k, ys, hrun, hmoved, habove', hbelow'⟩ :=
    moveHoleDown_spec movedFrom false h haround fun _ => hbelow
  obtain ⟨t, ht, hrepaired⟩ := hmoved.fillHole habove' (hbelow' rfl)
  refine ⟨t, k, ys, ?_, hrepaired, hmoved.hole.getElem?_self⟩
  have hlen : s.heap.length - 0 = xs.length := h.length_eq hlt
  simp only [State.moveHoleDownAndFill, Bool.false_eq_true, if_false, hlen, hrun, ht,
    Option.bind_some, Option.map_some]

/-- `MoveHoleDownAndFill<WithLeafElement>` repairs the heap but for its last entry, for any
element. -/
theorem moveHoleDownAndFill_leaf_spec (movedFrom : Element α → Element α)
    (h : Hole s hole e xs [x]) (hlt : hole < s.heap.length)
    (haround : HeapAround (Less lt) xs hole) :
    ∃ t k ys, s.moveHoleDownAndFill lt movedFrom true hole e = some (t, k) ∧
      Repaired lt s xs [x] t ys := by
  obtain ⟨u, k, ys, hrun, hmoved, habove', -⟩ := moveHoleDown_spec movedFrom true h haround nofun
  obtain ⟨t, k', zs, ht, hrepaired, -⟩ :=
    moveHoleUpAndFill_spec movedFrom hmoved.hole hmoved.around habove'
  refine ⟨t, k', zs, ?_, hrepaired.heap, hrepaired.perm.trans hmoved.perm, hrepaired.isHeap,
    hrepaired.tracked, hmoved.frame.trans hrepaired.frame hmoved.perm⟩
  have hlen : s.heap.length - 1 = xs.length := by
    rw [h.length_eq hlt, List.length_singleton, Nat.add_sub_cancel]
  simp only [State.moveHoleDownAndFill, if_true, hlen, hrun, ht, Option.bind_some]

end

end Sparo.Base.IntrusiveHeap
