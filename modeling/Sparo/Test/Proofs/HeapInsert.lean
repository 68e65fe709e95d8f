import Sparo.Misc.BinaryHeap
import Sparo.Test.Heap
import Mathlib.Order.RelClasses

/-!
# What stands in the array heap

The values stand behind a sentinel of `-1`. A value that is not below the sentinel percolates up to
where it belongs; a value below it goes past the sentinel and never stops.
-/

namespace Sparo.Test

open WhileLoop BinaryHeap

instance isStrictWeakOrder_gt : IsStrictWeakOrder Int32 (· > ·) :=
  isStrictWeakOrder_of_isOrderConnected

variable {element x y : Int32} {xs ys : List Int32} {rest : Elements} {hole : Hole}
  {fuel fuel' i j k : Nat}

/-! ## The array -/

/-- The values of the heap stand between the sentinel and the cells that are not used yet. -/
def layout (xs : List Int32) (rest : Elements) : Elements := some (-1) :: (xs.map some ++ rest)

theorem load_layout_zero : (layout xs rest).load 0 = some (-1) := rfl

theorem load_layout_succ (hk : k < xs.length) : (layout xs rest).load (k + 1) = xs[k]? := by
  have hmap : k < (xs.map some).length := by rwa [List.length_map]
  rw [Elements.load, layout, List.getElem?_cons_succ, List.getElem?_append_left hmap,
    List.getElem?_map]
  cases xs[k]? <;> rfl

theorem set_layout (hk : k < xs.length) :
    (layout xs rest).set (k + 1) (some x) = layout (xs.set k x) rest := by
  have hmap : k < (xs.map some).length := by rwa [List.length_map]
  rw [layout, List.set_cons_succ, List.set_append_left _ _ hmap, layout, List.map_set]

/-- The first cell that is not used yet takes a value. -/
theorem set_layout_new (cell : Option Int32) :
    (layout xs (cell :: rest)).set (xs.length + 1) (some x) = layout (xs ++ [x]) rest := by
  rw [layout, List.set_cons_succ, List.set_append_right _ _ (by rw [List.length_map]),
    List.length_map, Nat.sub_self, List.set_cons_zero, layout, List.map_append, List.append_assoc]
  rfl

theorem length_layout : (layout xs rest).length = xs.length + rest.length + 1 := by
  simp [layout]

theorem load_set_ne {elements : Elements} {cell : Option Int32} (hne : i ≠ j) :
    Elements.load (elements.set i cell) j = elements.load j := by
  rw [Elements.load, List.getElem?_set_ne hne, Elements.load]

theorem load_set_self {elements : Elements} (hi : i < elements.length) :
    Elements.load (elements.set i (some x)) i = some x := by
  rw [Elements.load, List.getElem?_set_self hi]
  rfl

theorem store_of_lt {elements : Elements} (hi : i < elements.length) :
    elements.store i x = some (elements.set i (some x)) := by
  rw [Elements.store, if_pos hi]

/-! ## The way up -/

theorem percolateUp_next (habove : hole.elements.load (hole.i / 2) = some x) (hx : x > element)
    (hi : hole.i < hole.elements.length) :
    percolateUp element hole =
      .next { elements := hole.elements.set hole.i (some x), i := hole.i / 2 } := by
  rw [percolateUp, habove]
  dsimp only
  rw [if_pos hx, store_of_lt hi]

theorem percolateUp_done (habove : hole.elements.load (hole.i / 2) = some x) (hx : ¬x > element) :
    percolateUp element hole = .done hole := by
  rw [percolateUp, habove]
  dsimp only
  rw [if_neg hx]

/-- With the new element in the hole the array is a heap, but for the pair of the element and its
parent. -/
structure Percolates (element : Int32) (xs : List Int32) (rest : Elements) (k : Nat)
    (hole : Hole) : Prop where
  index : hole.i = k + 1
  lt : k < xs.length
  filled : hole.elements.set (k + 1) (some element) = layout xs rest
  around : HeapAround (· > ·) xs k
  above : AboveChildren (· > ·) xs k element

namespace Percolates

theorem lt_length (h : Percolates element xs rest k hole) : k + 1 < hole.elements.length := by
  have hlength := congrArg List.length h.filled
  have hk := h.lt
  rw [List.length_set, length_layout] at hlength
  omega

theorem at_hole (h : Percolates element xs rest k hole) : xs[k]? = some element := by
  rw [← load_layout_succ h.lt, ← h.filled, load_set_self h.lt_length]

/-- Beside the hole the array is what it will be. -/
theorem load_ne (h : Percolates element xs rest k hole) (hj : j ≠ k + 1) :
    hole.elements.load j = (layout xs rest).load j := by
  rw [← h.filled, load_set_ne hj.symm]

/-- The element above the hole moves down, or it is not above the new one and the loop ends. -/
theorem turn (h : Percolates element xs rest k hole) (helement : -1 ≤ element) :
    (∃ t, percolateUp element hole = .next t ∧ t.i < hole.i ∧
      ∃ ys j, ys.Perm xs ∧ Percolates element ys rest j t) ∨
    percolateUp element hole = .done hole ∧ IsHeap (· > ·) xs := by
  have hlength : hole.i < hole.elements.length := h.index ▸ h.lt_length
  rcases Nat.eq_zero_or_pos k with hk | hk
  · -- the sentinel is above the hole
    have hsentinel : hole.elements.load (hole.i / 2) = some (-1) := by
      rw [h.index, hk, h.load_ne (by omega)]
      exact load_layout_zero
    refine .inr ⟨percolateUp_done hsentinel (not_lt.mpr helement), ?_⟩
    exact h.around.isHeap h.at_hole h.above fun p hpos => absurd hk (Nat.ne_of_gt hpos)
  · have hhalf : hole.i / 2 = parent k + 1 := by
      rw [h.index, parent]
      omega
    have hparent : parent k < k := parent_lt hk
    have hplt : parent k < xs.length := Nat.lt_trans hparent h.lt
    obtain ⟨p, hp⟩ : ∃ p, xs[parent k]? = some p := ⟨_, List.getElem?_eq_getElem hplt⟩
    have habove : hole.elements.load (hole.i / 2) = some p := by
      rw [hhalf, h.load_ne (by omega), load_layout_succ hplt, hp]
    by_cases hpe : p > element
    · refine .inl ⟨_, percolateUp_next habove hpe hlength, ?_, moved xs k (parent k) p element,
        parent k, moved_perm h.at_hole hp, ?_⟩
      · dsimp only
        rw [hhalf, h.index]
        exact Nat.succ_lt_succ hparent
      · obtain ⟨haround, hchildren⟩ := h.around.up hk h.lt hp hpe
        refine ⟨hhalf, ?_, ?_, haround, hchildren⟩
        · simpa [moved] using hplt
        · -- what the hole held before does not matter
          have hset : (hole.elements.set (k + 1) (some p)) =
              (layout xs rest).set (k + 1) (some p) := by
            rw [← h.filled, List.set_set]
          dsimp only
          rw [h.index, hset, set_layout h.lt, set_layout (by rwa [List.length_set]), moved]
    · refine .inr ⟨percolateUp_done habove hpe, ?_⟩
      refine h.around.isHeap h.at_hole h.above fun q _ hq => ?_
      obtain rfl : p = q := Option.some.inj (hp.symm.trans hq)
      exact hpe

/-- The loop ends, and the element completes a heap of the same values. -/
theorem run_eq (h : Percolates element xs rest k hole) (helement : -1 ≤ element)
    (hfuel : hole.i < fuel) :
    ∃ t, run (percolateUp element) fuel hole = .returned t ∧ ∃ ys, ys.Perm xs ∧
      IsHeap (· > ·) ys ∧ t.elements.store t.i element = some (layout ys rest) := by
  refine run_total (fun s => ∃ ys j, ys.Perm xs ∧ Percolates element ys rest j s) Hole.i ?_
    ⟨xs, k, .refl xs, h⟩ hfuel
  rintro s ⟨ys, j, hperm, hs⟩
  rcases hs.turn helement with ⟨t, ht, hlt, zs, i, hperm', hs'⟩ | ⟨hdone, hheap⟩
  · exact .inl ⟨t, ht, ⟨zs, i, hperm'.trans hperm, hs'⟩, hlt⟩
  · refine .inr ⟨s, hdone, ys, hperm, hheap, ?_⟩
    rw [hs.index, store_of_lt hs.lt_length, hs.filled]

end Percolates

/-- Everything from the hole up to the sentinel is above the element. -/
structure Escapes (element : Int32) (hole : Hole) : Prop where
  lt : hole.i < hole.elements.length
  path : ∀ j ≤ hole.i / 2, ∃ x, hole.elements.load j = some x ∧ x > element

/-- An element below the sentinel never comes to rest. -/
theorem Escapes.turn (h : Escapes element hole) :
    ∃ t, percolateUp element hole = .next t ∧ Escapes element t := by
  obtain ⟨x, hload, hx⟩ := h.path (hole.i / 2) (Nat.le_refl _)
  have hhalf : hole.i / 2 ≤ hole.i := Nat.div_le_self _ _
  refine ⟨_, percolateUp_next hload hx h.lt, ?_, fun j hj => ?_⟩
  · rw [List.length_set]
    exact Nat.lt_of_le_of_lt hhalf h.lt
  · by_cases hne : hole.i = j
    · -- the hole is at the sentinel
      subst hne
      exact ⟨x, load_set_self h.lt, hx⟩
    · rw [load_set_ne hne]
      exact h.path j (Nat.le_trans hj (Nat.div_le_self _ _))

theorem Escapes.run_eq (h : Escapes element hole) (fuel : Nat) :
    run (percolateUp element) fuel hole = .running :=
  run_diverges (fun _ hs => hs.turn) h fuel

end Sparo.Test
