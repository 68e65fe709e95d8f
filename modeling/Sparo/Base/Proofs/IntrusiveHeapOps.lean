import Mathlib.Data.List.FinRange
import Mathlib.Data.List.Perm.Basic
import Sparo.Base.Proofs.IntrusiveHeapHoles
import Sparo.Misc.CircularView

/-!
# The operations of the intrusive heap

`Outcome` says what an operation makes of a heap: which elements are gone, which have come, and
that the result is a heap with the right handles. `erase`, `take` and `Update` only need the heap to
be in order around the position they are called with.
-/

namespace Sparo.Base.IntrusiveHeap

open BinaryHeap

variable {α : Type*} {lt : α → α → Bool} {s t : State α}
  {hs xs ys removed added : List (Element α)} {pos i : Nat} {e l r : Element α}

/-- A heap in order, with the right handles. -/
structure Ok (lt : α → α → Bool) (s : State α) : Prop where
  isHeap : IsHeap (Less lt) s.heap
  nodup : (s.heap.map Element.id).Nodup
  tracked : Tracked s.handles s.heap

/-- A heap in order but for the element at `pos`, whose value and handle may be any. -/
structure OkBut (lt : α → α → Bool) (s : State α) (pos : Nat) : Prop where
  around : HeapAround (Less lt) s.heap pos
  nodup : (s.heap.map Element.id).Nodup
  tracked : ∀ (i : Nat) x, i ≠ pos → s.heap[i]? = some x → s.handles x.id = some i

/-- What an operation has done. -/
structure Outcome (lt : α → α → Bool) (s : State α) (removed added : List (Element α))
    (t : State α) : Prop where
  ok : Ok lt t
  perm : (removed ++ t.heap).Perm (s.heap ++ added)
  /-- The handles of the elements that are gone are cleared. -/
  cleared : ∀ e ∈ removed, e.id ∉ t.heap.map Element.id → t.handles e.id = none
  frame : Frame (s.heap ++ added) s.handles t.handles

/-- What is left after one element is removed. -/
theorem Outcome.cons_perm (hout : Outcome lt s [r] [] t) : (r :: t.heap).Perm s.heap := by
  have hperm := hout.perm
  rwa [List.append_nil] at hperm

/-- The element at a position exchanged for another one. -/
theorem cons_set_perm (hr : hs[pos]? = some r) (e : Element α) :
    (r :: hs.set pos e).Perm (e :: hs) := by
  obtain ⟨hlt, rfl⟩ := List.getElem?_eq_some_iff.mp hr
  have hset := List.set_perm_cons_eraseIdx hlt e
  have hcons := List.getElem_cons_eraseIdx_perm hlt
  exact (hset.cons _).trans ((List.Perm.swap ..).trans (hcons.cons e))

/-- Away from a position nothing has changed. -/
theorem getElem?_of_set (i : Nat) (x : Element α) (hi : i ≠ pos)
    (hx : (hs.set pos e)[i]? = some x) : hs[i]? = some x := by
  rwa [List.getElem?_set_ne (Ne.symm hi)] at hx

theorem Frame.mono {handles handles' : Nat → Option Nat} (h : Frame xs handles handles')
    (hsub : xs.map Element.id ⊆ ys.map Element.id) : Frame ys handles handles' :=
  fun id hid => h id fun hmem => hid (hsub hmem)

theorem Frame.comp {handles handles' handles'' : Nat → Option Nat}
    (h : Frame xs handles handles') (h' : Frame xs handles' handles'') :
    Frame xs handles handles'' :=
  h.trans h' (List.Perm.refl xs)

/-! ## Making a hole -/

/-- The heap `hs`, with a hole where `r` was, which has no handle any more. -/
structure Holed (lt : α → α → Bool) (s : State α) (pos : Nat) (r : Element α)
    (hs : List (Element α)) : Prop where
  hole : Hole s pos r hs []
  around : HeapAround (Less lt) hs pos
  inHeap : pos < s.heap.length
  cleared : s.handles r.id = none

theorem makeHole_spec (h : OkBut lt s pos) (hr : s.heap[pos]? = some r) :
    ∃ t, s.makeHole pos = some t ∧ t.heap = s.heap ∧ Holed lt t pos r s.heap ∧
      Frame s.heap s.handles t.handles := by
  obtain ⟨hlt, hget⟩ := List.getElem?_eq_some_iff.mp hr
  refine ⟨{ s with handles := Function.update s.handles r.id none }, ?_, rfl,
    ⟨⟨?_, hlt, h.nodup, fun i x hi hx => ?_⟩, h.around, hlt, Function.update_self ..⟩, ?_⟩
  · rw [State.makeHole, State.clearHeapHandle, hr, Option.map_some]
  · rw [filled, if_neg (Nat.ne_of_lt hlt), List.append_nil, ← hget, List.set_getElem_self]
  · dsimp only
    rw [Function.update_of_ne (id_ne h.nodup hx hr hi)]
    exact h.tracked i x hi hx
  · exact Frame.update (List.mem_of_getElem? hr) none

/-- Moving the element out of the hole changes nothing. -/
theorem Holed.moveOut (movedFrom : Element α → Element α) (h : Holed lt s pos r hs)
    (hr : s.heap[pos]? = some r) :
    ∃ t, s.moveOut movedFrom pos = some (r, t) ∧ Holed lt t pos r hs ∧ t.handles = s.handles := by
  refine ⟨{ s with heap := s.heap.set pos (movedFrom r) }, ?_,
    ⟨⟨?_, h.hole.lt, h.hole.nodup, h.hole.tracked⟩, h.around, ?_, h.cleared⟩, rfl⟩
  · rw [State.moveOut, hr, Option.map_some]
  · have hfilled := h.hole.filled
    rw [filled, if_neg (Nat.ne_of_lt h.inHeap)] at hfilled
    rw [filled, List.length_set, if_neg (Nat.ne_of_lt h.inHeap), List.set_set, hfilled]
  · rw [List.length_set]
    exact h.inHeap

/-! ## Removing an element -/

theorem Holed.heap_eq (h : Holed lt s pos r hs) : s.heap.set pos r = hs := by
  have hfilled := h.hole.filled
  rwa [filled, if_neg (Nat.ne_of_lt h.inHeap), List.append_nil] at hfilled

theorem Holed.heap_set (h : Holed lt s pos r hs) (e : Element α) :
    s.heap.set pos e = hs.set pos e := by
  rw [← h.heap_eq, List.set_set]

theorem Holed.length_eq (h : Holed lt s pos r hs) : s.heap.length = hs.length := by
  rw [← h.heap_eq, List.length_set]

/-- The element in the hole is the last one: the rest is in order. -/
theorem Holed.removeLast (h : Holed lt s pos r (ys ++ [l])) (hpos : pos = ys.length) :
    l = r ∧ s.heap.dropLast = ys ∧ Ok lt { s with heap := ys } := by
  have hr : (ys ++ [l])[pos]? = some r := h.hole.getElem?_self
  have hlen : s.heap.length = ys.length + 1 := by
    rw [h.length_eq, List.length_append, List.length_singleton]
  have hget : ∀ (i : Nat) x, ys[i]? = some x → (ys ++ [l])[i]? = some x ∧ i < pos := by
    intro i x hx
    have hlt := (List.getElem?_eq_some_iff.mp hx).1
    exact ⟨by rwa [List.getElem?_append_left hlt], by omega⟩
  refine ⟨?_, ?_, fun i x p hi hx hp => ?_, ?_, fun i x hx => ?_⟩
  · rw [hpos, List.getElem?_concat_length] at hr
    exact Option.some.inj hr
  · rw [List.dropLast_eq_take, hlen, Nat.add_sub_cancel,
      ← List.take_set_of_le (a := r) (Nat.le_of_eq hpos.symm), h.heap_eq, List.take_left]
  · obtain ⟨hx, hlt⟩ := hget i x hx
    obtain ⟨hp, hplt⟩ := hget _ p hp
    exact h.around.pairs i x p hi (Nat.ne_of_lt hlt) (Nat.ne_of_lt hplt) hx hp
  · have hnodup := h.hole.nodup
    rw [List.map_append] at hnodup
    exact hnodup.of_append_left
  · obtain ⟨hx, hlt⟩ := hget i x hx
    exact h.hole.tracked i x (Nat.ne_of_lt hlt) hx

/-- The last element in the place of another one. -/
theorem cons_set_perm_append (hr : (ys ++ [l])[pos]? = some r) (hpos : pos < ys.length) :
    (r :: ys.set pos l).Perm (ys ++ [l]) := by
  rw [List.getElem?_append_left hpos] at hr
  exact (cons_set_perm hr l).trans (List.perm_append_singleton l ys).symm

/-- The last element is to stand in for the one in the hole. -/
theorem Holed.leaf (movedFrom : Element α → Element α) (h : Holed lt s pos r (ys ++ [l]))
    (hpos : pos < ys.length) :
    ∃ u t, s.makeHole ys.length = some u ∧ u.moveOut movedFrom ys.length = some (l, t) ∧
      Hole t pos l (ys.set pos l) [movedFrom l] ∧ pos < t.heap.length ∧
      HeapAround (Less lt) (ys.set pos l) pos ∧ t.handles r.id = none ∧
      Frame (ys ++ [l]) s.handles t.handles := by
  have hl : (ys ++ [l])[ys.length]? = some l := List.getElem?_concat_length
  have hlast : s.heap[ys.length]? = some l := h.hole.heap_getElem? (Nat.ne_of_gt hpos) hl
  have hr : (ys ++ [l])[pos]? = some r := h.hole.getElem?_self
  have hget : ∀ (i : Nat) x, i ≠ pos → (ys.set pos l)[i]? = some x →
      (ys ++ [l])[i]? = some x ∧ i ≠ ys.length := by
    intro i x hi hx
    have hx' := getElem?_of_set i x hi hx
    have hlt := (List.getElem?_eq_some_iff.mp hx').1
    exact ⟨by rwa [List.getElem?_append_left hlt], Nat.ne_of_lt hlt⟩
  refine ⟨{ s with handles := Function.update s.handles l.id none },
    { heap := s.heap.set ys.length (movedFrom l)
      handles := Function.update s.handles l.id none },
    ?_, ?_, ⟨?_, ?_, ?_, fun i x hi hx => ?_⟩, ?_, ?_, ?_, ?_⟩
  · rw [State.makeHole, State.clearHeapHandle, hlast, Option.map_some]
  · simp only [State.moveOut, hlast, Option.map_some]
  · have hne : pos ≠ (s.heap.set ys.length (movedFrom l)).length := by
      rw [List.length_set]
      exact Nat.ne_of_lt h.inHeap
    rw [filled, if_neg hne, List.set_comm _ _ (Nat.ne_of_gt hpos), h.heap_set,
      List.set_append_left _ _ hpos, List.set_append_right _ _ (Nat.le_of_eq List.length_set),
      List.length_set, Nat.sub_self, List.set_cons_zero]
  · rwa [List.length_set]
  · have hnodup := ((cons_set_perm_append hr hpos).map Element.id).nodup_iff.mpr h.hole.nodup
    exact (List.nodup_cons.mp hnodup).2
  · obtain ⟨hx, hne⟩ := hget i x hi hx
    dsimp only
    rw [Function.update_of_ne (id_ne h.hole.nodup hx hl hne)]
    exact h.hole.tracked i x hi hx
  · rw [List.length_set]
    exact h.inHeap
  · exact h.around.of_agree fun i x hi hx => (hget i x hi hx).1
  · dsimp only
    rw [Function.update_of_ne (id_ne h.hole.nodup hr hl (Nat.ne_of_lt hpos))]
    exact h.cleared
  · exact Frame.update (List.mem_of_getElem? hl) none

/-! ## Filling the hole -/

/-- A repaired heap is what an operation leaves. -/
theorem Repaired.outcome {u : State α} (h : Repaired lt t xs [] u ys)
    (hnodup : (xs.map Element.id).Nodup) (hperm : (removed ++ xs).Perm (s.heap ++ added))
    (hcleared : ∀ e ∈ removed, t.handles e.id = none ∨ e.id ∈ xs.map Element.id)
    (hframe : Frame (s.heap ++ added) s.handles t.handles) : Outcome lt s removed added u := by
  have hheap : u.heap = ys := by
    rw [h.heap, List.append_nil]
  have hids := h.perm.map Element.id
  refine ⟨⟨?_, ?_, ?_⟩, ?_, fun e he hid => ?_, hframe.comp (h.frame.mono ?_)⟩
  · rw [hheap]
    exact h.isHeap
  · rw [hheap]
    exact hids.nodup_iff.mpr hnodup
  · rw [hheap]
    exact h.tracked
  · rw [hheap]
    exact (h.perm.append_left removed).trans hperm
  · rw [hheap, hids.mem_iff] at hid
    exact (h.frame e.id hid).trans ((hcleared e he).resolve_right hid)
  · intro id hid
    apply (hperm.map Element.id).subset
    rw [List.map_append]
    exact List.mem_append_right _ hid

/-- The heap with a new element in the hole. -/
theorem Holed.refill (h : Holed lt s pos r hs) (he : e.id ∉ hs.map Element.id) :
    Hole s pos e (hs.set pos e) [] ∧ HeapAround (Less lt) (hs.set pos e) pos := by
  refine ⟨⟨?_, ?_, ?_, fun i x hi hx => h.hole.tracked i x hi (getElem?_of_set i x hi hx)⟩,
    h.around.of_agree getElem?_of_set⟩
  · rw [filled, if_neg (Nat.ne_of_lt h.inHeap), List.append_nil, h.heap_set]
  · rw [List.length_set]
    exact h.hole.lt
  · have hnodup := (((cons_set_perm h.hole.getElem?_self e).map Element.id).nodup_iff).mpr
      (List.nodup_cons.mpr ⟨he, h.hole.nodup⟩)
    exact (List.nodup_cons.mp hnodup).2

/-- `ReplaceImpl` and `ReplaceTopImpl` up to their comparisons: once the heap is repaired, the
element is exchanged. -/
theorem replaceHole_spec (h : OkBut lt s pos) (hr : s.heap[pos]? = some r)
    (he : e.id ∉ s.heap.map Element.id) :
    ∃ u, s.makeHole pos = some u ∧ u.heap = s.heap ∧ pos < u.heap.length ∧
      Hole u pos e (s.heap.set pos e) [] ∧ HeapAround (Less lt) (s.heap.set pos e) pos ∧
      ∀ t ys, Repaired lt u (s.heap.set pos e) [] t ys → Outcome lt s [r] [e] t := by
  obtain ⟨u, hu, hheap, hholed, hframe⟩ := makeHole_spec h hr
  obtain ⟨hhole, haround⟩ := hholed.refill he
  refine ⟨u, hu, hheap, hholed.inHeap, hhole, haround, fun t ys hrepaired => ?_⟩
  have hperm : ([r] ++ s.heap.set pos e).Perm (s.heap ++ [e]) :=
    (cons_set_perm hr e).trans (List.perm_append_singleton e s.heap).symm
  refine hrepaired.outcome hhole.nodup hperm (fun x hx => .inl ?_) ?_
  · obtain rfl := List.mem_singleton.mp hx
    exact hholed.cleared
  · exact hframe.mono (List.map_subset _ (List.subset_append_left _ _))

section

variable [IsStrictWeakOrder α fun a b => lt a b = true]

/-- `take` and `erase` once there is a hole. -/
theorem Holed.removeHole (movedFrom : Element α → Element α) (h : Holed lt s pos r hs) :
    ∃ t, s.removeHole lt movedFrom pos = some t ∧ Ok lt t ∧ (r :: t.heap).Perm hs ∧
      t.handles r.id = none ∧ Frame hs s.handles t.handles := by
  have hlen := h.length_eq
  have hlt := h.inHeap
  obtain rfl | ⟨ys, l, rfl⟩ := List.eq_nil_or_concat' hs
  · rw [List.length_nil] at hlen
    omega
  have hlast : s.heap.length - 1 = ys.length := by
    rw [hlen, List.length_append, List.length_singleton, Nat.add_sub_cancel]
  unfold State.removeHole
  rw [hlast]
  by_cases hpos : pos = ys.length
  · obtain ⟨rfl, hdrop, hok⟩ := h.removeLast hpos
    refine ⟨{ s with heap := ys }, ?_, hok, (List.perm_append_singleton l ys).symm, h.cleared,
      Frame.refl _ _⟩
    simp only [if_pos hpos, Option.map_some, hdrop]
  · obtain ⟨u, v, hu, hv, hhole, hvlt, haround, hcleared, hframe⟩ :=
      h.leaf movedFrom (show pos < ys.length by omega)
    obtain ⟨t, k, zs, ht, hrepaired⟩ := moveHoleDownAndFill_leaf_spec movedFrom hhole hvlt haround
    have hperm := cons_set_perm_append h.hole.getElem?_self (show pos < ys.length by omega)
    have hnodup := (hperm.map Element.id).nodup_iff.mpr h.hole.nodup
    rw [List.map_cons, List.nodup_cons] at hnodup
    refine ⟨{ t with heap := zs }, ?_, ⟨hrepaired.isHeap, ?_, hrepaired.tracked⟩,
      (hrepaired.perm.cons r).trans hperm, ?_, ?_⟩
    · simp only [if_neg hpos, hu, hv, ht, Option.bind_some, Option.map_some, hrepaired.heap,
        List.dropLast_concat]
    · exact (hrepaired.perm.map Element.id).nodup_iff.mpr hnodup.2
    · exact (hrepaired.frame r.id hnodup.1).trans hcleared
    · refine hframe.comp (hrepaired.frame.mono ?_)
      exact fun id hid => (hperm.map Element.id).subset (List.mem_cons_of_mem _ hid)

theorem Holed.outcome {u : State α} (h : Holed lt s pos r hs) (hheap : u.heap = hs)
    (hframe : Frame hs u.handles s.handles) (movedFrom : Element α → Element α) :
    ∃ t, s.removeHole lt movedFrom pos = some t ∧ Outcome lt u [r] [] t := by
  subst hheap
  obtain ⟨t, ht, hok, hperm, hcleared, hframe'⟩ := h.removeHole movedFrom
  refine ⟨t, ht, hok, ?_, fun e he _ => ?_, ?_⟩
  · rw [List.append_nil]
    exact hperm
  · obtain rfl := List.mem_singleton.mp he
    exact hcleared
  · rw [List.append_nil]
    exact hframe.comp hframe'

/-- `erase(pos)` removes the element at `pos`, whatever its value. -/
theorem erase_spec (movedFrom : Element α → Element α) (h : OkBut lt s pos)
    (hr : s.heap[pos]? = some r) :
    ∃ t, s.erase lt movedFrom pos = some t ∧ Outcome lt s [r] [] t := by
  obtain ⟨u, hu, hheap, hholed, hframe⟩ := makeHole_spec h hr
  obtain ⟨t, ht, hout⟩ := hholed.outcome rfl hframe movedFrom
  refine ⟨t, ?_, hout⟩
  rw [State.erase, hu, Option.bind_some, ht]

/-- `take(pos)` removes the element at `pos` and returns it. -/
theorem take_spec (movedFrom : Element α → Element α) (h : OkBut lt s pos)
    (hr : s.heap[pos]? = some r) :
    ∃ t, s.take lt movedFrom pos = some (r, t) ∧ Outcome lt s [r] [] t := by
  obtain ⟨u, hu, hheap, hholed, hframe⟩ := makeHole_spec h hr
  obtain ⟨v, hv, hholed', hhandles⟩ := hholed.moveOut movedFrom (hheap ▸ hr)
  obtain ⟨t, ht, hout⟩ := hholed'.outcome rfl (hhandles ▸ hframe) movedFrom
  refine ⟨t, ?_, hout⟩
  simp only [State.take, hu, hv, ht, Option.bind_some, Option.map_some]

/-! ## Inserting and changing elements -/

/-- `InsertImpl(element)` adds the element. -/
theorem insertImpl_spec (movedFrom : Element α → Element α) (h : Ok lt s)
    (he : e.id ∉ s.heap.map Element.id) :
    ∃ t k, s.insertImpl lt movedFrom e = some (t, k) ∧ Outcome lt s [] [e] t := by
  have hget : ∀ (i : Nat) x, i ≠ s.heap.length → (s.heap ++ [e])[i]? = some x →
      s.heap[i]? = some x := by
    intro i x hi hx
    have hlt := (List.getElem?_eq_some_iff.mp hx).1
    rw [List.length_append, List.length_singleton] at hlt
    rwa [List.getElem?_append_left (by omega)] at hx
  have hnodup : ((s.heap ++ [e]).map Element.id).Nodup := by
    rw [((List.perm_append_singleton e s.heap).map Element.id).nodup_iff, List.map_cons,
      List.nodup_cons]
    exact ⟨he, h.nodup⟩
  have hhole : Hole s s.heap.length e (s.heap ++ [e]) [] := by
    refine ⟨?_, ?_, hnodup, fun i x hi hx => h.tracked i x (hget i x hi hx)⟩
    · rw [filled, if_pos rfl, List.append_nil]
    · rw [List.length_append, List.length_singleton]
      omega
  have habove : AboveChildren (Less lt) (s.heap ++ [e]) s.heap.length e := by
    intro i x hi hparent hx
    have hlt := (List.getElem?_eq_some_iff.mp hx).1
    have hplt := parent_lt hi
    rw [List.length_append, List.length_singleton] at hlt
    omega
  obtain ⟨t, k, ys, ht, hrepaired, -⟩ := moveHoleUpAndFill_spec movedFrom hhole
    ((h.isHeap.around s.heap.length).of_agree hget) habove
  refine ⟨t, k, ht, hrepaired.outcome hnodup (List.Perm.refl _) ?_ (Frame.refl _ _)⟩
  exact fun x hx => absurd hx List.not_mem_nil

/-- `insert(first, last)` adds the elements. -/
theorem insertRange_spec (movedFrom : Element α → Element α) {elements : List (Element α)}
    (h : Ok lt s) (hnodup : (elements.map Element.id).Nodup)
    (hfresh : ∀ e ∈ elements, e.id ∉ s.heap.map Element.id) :
    ∃ t, s.insertRange lt movedFrom elements = some t ∧ Outcome lt s [] elements t := by
  induction elements generalizing s with
  | nil =>
    refine ⟨s, rfl, h, ?_, nofun, Frame.refl _ _⟩
    rw [List.append_nil, List.nil_append]
  | cons e elements ih =>
    rw [List.map_cons, List.nodup_cons] at hnodup
    obtain ⟨u, k, hu, hout⟩ := insertImpl_spec movedFrom h (hfresh e List.mem_cons_self)
    have hfresh' : ∀ f ∈ elements, f.id ∉ u.heap.map Element.id := by
      intro f hf hmem
      have hmem' := (hout.perm.map Element.id).subset hmem
      rw [List.map_append, List.mem_append, List.map_singleton, List.mem_singleton] at hmem'
      rcases hmem' with hold | hnew
      · exact hfresh f (List.mem_cons_of_mem e hf) hold
      · exact hnodup.1 (hnew ▸ List.mem_map_of_mem hf)
    obtain ⟨t, ht, hout'⟩ := ih hout.ok hnodup.2 hfresh'
    have hperm : (u.heap ++ elements).Perm (s.heap ++ e :: elements) := by
      have := hout.perm.append_right elements
      rwa [List.nil_append, List.append_assoc, List.singleton_append] at this
    refine ⟨t, ?_, hout'.ok, hout'.perm.trans hperm, nofun, ?_⟩
    · simp only [State.insertRange, hu, ht, Option.bind_some]
    · refine (hout.frame.mono (List.map_subset _ fun x hx => ?_)).trans hout'.frame hperm
      rw [List.mem_append, List.mem_singleton] at hx
      rw [List.mem_append, List.mem_cons]
      exact hx.imp_right .inl

/-- The comparison of `Update` with the parent: an element that is not below it fits over the
children, any other one under the parent. -/
theorem less_parent_spec (haround : HeapAround (Less lt) s.heap pos) (hr : s.heap[pos]? = some r) :
    ∃ isLess, (if 0 < pos then s.less lt pos (parentIndex pos) else some true) = some isLess ∧
      (isLess = false → AboveChildren (Less lt) s.heap pos r) ∧
      (isLess = true → BelowParent (Less lt) s.heap pos r) := by
  by_cases hpos : 0 < pos
  · have hlt := (List.getElem?_eq_some_iff.mp hr).1
    have hplt : parentIndex pos < pos := parent_lt hpos
    obtain ⟨p, hp⟩ : ∃ p, s.heap[parentIndex pos]? = some p :=
      ⟨_, List.getElem?_eq_getElem (by omega)⟩
    refine ⟨lt r.value p.value, ?_, fun hless i x hi hparent hx => ?_, fun hless q _ hq => ?_⟩
    · rw [if_pos hpos, State.less, hr, hp, Option.bind_some, Option.map_some]
    · have hrp : ¬Less lt r p := ne_true_of_eq_false hless
      exact SortedList.not_trans hrp (haround.bridge i x p hpos hi hparent hx hp)
    · obtain rfl : p = q := Option.some.inj (hp.symm.trans hq)
      exact asymm_of (Less lt) hless
  · refine ⟨true, if_neg hpos, fun hfalse => ?_, fun _ p hpos' => absurd hpos' hpos⟩
    exact absurd hfalse Bool.true_eq_false_eq_False

/-- `Update(pos)` repairs the heap, whatever the value at `pos`. -/
theorem update_spec (movedFrom : Element α → Element α) (h : OkBut lt s pos)
    (hr : s.heap[pos]? = some r) :
    ∃ t k, s.update lt movedFrom pos = some (t, k) ∧ Outcome lt s [] [] t := by
  obtain ⟨u, hu, hheap, hholed, hframe⟩ := makeHole_spec h hr
  obtain ⟨v, hv, hholed', hhandles⟩ := hholed.moveOut movedFrom (hheap ▸ hr)
  obtain ⟨isLess, hless, habove, hbelow⟩ :=
    less_parent_spec (s := u) (hheap ▸ h.around) (hheap ▸ hr)
  rw [hheap] at habove hbelow
  have hperm : ([] ++ s.heap).Perm (s.heap ++ []) := by
    rw [List.append_nil, List.nil_append]
  have hframe' : Frame (s.heap ++ []) s.handles v.handles := by
    rw [List.append_nil, hhandles]
    exact hframe
  cases isLess with
  | false =>
    obtain ⟨t, k, ys, ht, hrepaired, -⟩ :=
      moveHoleUpAndFill_spec movedFrom hholed'.hole hholed'.around (habove rfl)
    refine ⟨t, k, ?_, hrepaired.outcome h.nodup hperm nofun hframe'⟩
    simp only [State.update, hu, hless, hv, ht, Option.bind_some, Bool.not_false, if_true]
  | true =>
    obtain ⟨t, k, ys, ht, hrepaired, -⟩ :=
      moveHoleDownAndFill_spec movedFrom hholed'.hole hholed'.inHeap hholed'.around (hbelow rfl)
    refine ⟨t, k, ?_, hrepaired.outcome h.nodup hperm nofun hframe'⟩
    simp only [State.update, hu, hless, hv, ht, Option.bind_some, Bool.not_true,
      Bool.false_eq_true, if_false]

theorem Ok.okBut (h : Ok lt s) (pos : Nat) : OkBut lt s pos :=
  ⟨h.isHeap.around pos, h.nodup, fun i x _ hx => h.tracked i x hx⟩

/-- `ReplaceImpl(pos, element)` exchanges the element at `pos`. -/
theorem replaceImpl_spec (movedFrom : Element α → Element α) (h : Ok lt s)
    (hr : s.heap[pos]? = some r) (he : e.id ∉ s.heap.map Element.id) :
    ∃ t k, s.replaceImpl lt movedFrom pos e = some (t, k) ∧ Outcome lt s [r] [e] t := by
  obtain ⟨u, hu, hheap, hlt, hhole, haround, hout⟩ := replaceHole_spec (h.okBut pos) hr he
  by_cases hless : lt e.value r.value = true
  · have hbelow : BelowParent (Less lt) (s.heap.set pos e) pos e := by
      intro p hpos hp hpe
      have hp' := getElem?_of_set _ p (parent_ne hpos) hp
      exact h.isHeap pos r p hpos hr hp' (trans_of (Less lt) hpe hless)
    obtain ⟨t, k, ys, ht, hrepaired, -⟩ :=
      moveHoleDownAndFill_spec movedFrom hhole hlt haround hbelow
    refine ⟨t, k, ?_, hout t ys hrepaired⟩
    simp only [State.replaceImpl, hu, hheap, hr, hless, ht, Option.bind_some, Bool.not_true,
      Bool.false_eq_true, if_false]
  · have habove : AboveChildren (Less lt) (s.heap.set pos e) pos e := by
      intro i x hi hparent hx
      have hne : i ≠ pos := by
        rintro rfl
        exact absurd hparent (parent_ne hi)
      have hx' := getElem?_of_set i x hne hx
      exact SortedList.not_trans hless (h.isHeap i x r hi hx' (hparent ▸ hr))
    obtain ⟨t, k, ys, ht, hrepaired, -⟩ := moveHoleUpAndFill_spec movedFrom hhole haround habove
    refine ⟨t, k, ?_, hout t ys hrepaired⟩
    simp only [State.replaceImpl, hu, hheap, hr, Bool.not_eq_true _ ▸ hless, ht, Option.bind_some,
      Bool.not_false, if_true]

/-- `ReplaceTopImpl(element)` exchanges the element at the top. -/
theorem replaceTopImpl_spec (movedFrom : Element α → Element α) (h : Ok lt s)
    (hr : s.heap[0]? = some r) (he : e.id ∉ s.heap.map Element.id) :
    ∃ t k, s.replaceTopImpl lt movedFrom e = some (t, k) ∧ Outcome lt s [r] [e] t := by
  obtain ⟨u, hu, -, hlt, hhole, haround, hout⟩ := replaceHole_spec (h.okBut 0) hr he
  obtain ⟨t, k, ys, ht, hrepaired, -⟩ :=
    moveHoleDownAndFill_spec movedFrom hhole hlt haround fun p hpos => absurd hpos (by decide)
  refine ⟨t, k, ?_, hout t ys hrepaired⟩
  simp only [State.replaceTopImpl, hu, ht, Option.bind_some]

/-- The element at `pos` may become any element that is not elsewhere in the heap. -/
theorem Ok.change (h : Ok lt s) (hr : s.heap[pos]? = some r) {handles : Nat → Option Nat}
    (he : e.id ∉ (s.heap.eraseIdx pos).map Element.id)
    (hhandles : ∀ id, id ≠ r.id → id ≠ e.id → handles id = s.handles id) :
    OkBut lt { heap := s.heap.set pos e, handles } pos := by
  have hlt := (List.getElem?_eq_some_iff.mp hr).1
  refine ⟨(h.isHeap.around pos).of_agree getElem?_of_set, ?_, fun i x hi hx => ?_⟩
  · have hperm := (List.set_perm_cons_eraseIdx hlt e).map Element.id
    rw [hperm.nodup_iff, List.map_cons, List.nodup_cons]
    exact ⟨he, h.nodup.sublist ((List.eraseIdx_sublist ..).map Element.id)⟩
  · have hx' := getElem?_of_set i x hi hx
    have hne : x.id ≠ e.id := by
      intro heq
      exact he (heq ▸ List.mem_map_of_mem (List.mem_eraseIdx_iff_getElem?.mpr ⟨i, hi, hx'⟩))
    exact (hhandles x.id (id_ne h.nodup hx' hr hi) hne).trans (h.tracked i x hx')

omit [IsStrictWeakOrder α fun a b => lt a b = true] in
/-- No other element has the cell of the element at `pos`. -/
theorem Ok.id_notMem_eraseIdx (h : Ok lt s) (hr : s.heap[pos]? = some r) :
    r.id ∉ (s.heap.eraseIdx pos).map Element.id := by
  intro hmem
  obtain ⟨x, hx, heq⟩ := List.mem_map.mp hmem
  obtain ⟨i, hi, hx⟩ := List.mem_eraseIdx_iff_getElem?.mp hx
  exact id_ne h.nodup hx hr hi heq

/-- `Modify(pos, unary_op)` changes the value of the element at `pos`. -/
theorem modify_spec (movedFrom : Element α → Element α) (h : Ok lt s)
    (hr : s.heap[pos]? = some r) (unaryOp : α → α) :
    ∃ t k, s.modify lt movedFrom pos unaryOp = some (t, k) ∧
      Outcome lt s [r] [{ r with value := unaryOp r.value }] t := by
  have hlt := (List.getElem?_eq_some_iff.mp hr).1
  have hfree := h.id_notMem_eraseIdx hr
  have hbut := h.change (e := { r with value := unaryOp r.value }) hr hfree fun _ _ _ => rfl
  obtain ⟨t, k, ht, hout⟩ := update_spec movedFrom hbut (List.getElem?_set_self hlt)
  have hset : t.heap.Perm (s.heap.set pos { r with value := unaryOp r.value }) := by
    have := hout.perm
    rwa [List.append_nil, List.nil_append] at this
  have hperm : ([r] ++ t.heap).Perm (s.heap ++ [{ r with value := unaryOp r.value }]) :=
    (hset.cons r).trans ((cons_set_perm hr _).trans (List.perm_append_singleton _ _).symm)
  refine ⟨t, k, ?_, hout.ok, hperm, fun x hx hid => absurd ?_ hid, hout.frame.mono ?_⟩
  · rw [State.modify, hr, Option.bind_some]
    exact ht
  · obtain rfl := List.mem_singleton.mp hx
    rw [(hset.map Element.id).mem_iff]
    exact List.mem_map.mpr ⟨_, List.mem_of_getElem? (List.getElem?_set_self hlt), rfl⟩
  · intro id hid
    rw [List.append_nil] at hid
    apply (hperm.map Element.id).subset
    exact List.mem_cons_of_mem _ ((hset.map Element.id).mem_iff.mpr hid)

end

/-! ## Many handles at once -/

section

variable {handles : Nat → Option Nat} {id : Nat}

theorem clearHeapHandles_of_mem (h : id ∈ xs.map Element.id ∨ handles id = none) :
    State.clearHeapHandles handles xs id = none := by
  induction xs generalizing handles with
  | nil => exact h.resolve_left List.not_mem_nil
  | cons e xs ih =>
    apply ih
    dsimp only
    by_cases hid : id = e.id
    · subst hid
      exact .inr (Function.update_self ..)
    · rw [Function.update_of_ne hid]
      exact h.imp_left fun hmem => (List.mem_cons.mp hmem).resolve_left hid

theorem clearHeapHandles_frame (handles : Nat → Option Nat) (xs : List (Element α)) :
    Frame xs handles (State.clearHeapHandles handles xs) := by
  induction xs generalizing handles with
  | nil => exact Frame.refl [] handles
  | cons e xs ih =>
    intro id hid
    rw [List.map_cons, List.mem_cons, not_or] at hid
    exact (ih _ id hid.2).trans (Function.update_of_ne hid.1 ..)

theorem setHeapHandles_of_notMem (hid : id ∉ xs.map Element.id) :
    State.setHeapHandles handles i xs id = handles id := by
  induction xs generalizing handles i with
  | nil => rfl
  | cons e xs ih =>
    rw [List.map_cons, List.mem_cons, not_or] at hid
    exact (ih hid.2).trans (Function.update_of_ne hid.1 ..)

theorem setHeapHandles_getElem? {j : Nat} (hnodup : (xs.map Element.id).Nodup)
    (he : xs[j]? = some e) : State.setHeapHandles handles i xs e.id = some (i + j) := by
  induction xs generalizing handles i j with
  | nil => cases he
  | cons x xs ih =>
    rw [List.map_cons, List.nodup_cons] at hnodup
    cases j with
    | zero =>
      obtain rfl : x = e := Option.some.inj he
      exact (setHeapHandles_of_notMem hnodup.1).trans (Function.update_self ..)
    | succ j =>
      rw [State.setHeapHandles, ih hnodup.2 he, Nat.add_assoc, Nat.add_comm 1 j]

theorem tracked_setHeapHandles (hnodup : (xs.map Element.id).Nodup) :
    Tracked (State.setHeapHandles handles 0 xs) xs := by
  intro i x hx
  rw [setHeapHandles_getElem? hnodup hx, Nat.zero_add]

end

theorem ok_nil (lt : α → α → Bool) (handles : Nat → Option Nat) :
    Ok lt ({ heap := [], handles } : State α) :=
  ⟨nofun, List.nodup_nil, nofun⟩

/-- `clear()` removes everything. -/
theorem clear_spec (lt : α → α → Bool) (s : State α) : Outcome lt s s.heap [] s.clear := by
  refine ⟨ok_nil lt _, List.Perm.refl _, fun e he _ => ?_, ?_⟩
  · exact clearHeapHandles_of_mem (.inl (List.mem_map_of_mem he))
  · rw [List.append_nil]
    exact clearHeapHandles_frame s.handles s.heap

/-- What `make_heap` may leave of the elements `xs`. -/
def IsMadeHeap (lt : α → α → Bool) (xs : List (Element α)) (order : List Nat) : Prop :=
  order.Perm (List.range xs.length) ∧ IsHeap (Less lt) (order.filterMap fun i => xs[i]?)

instance (lt : α → α → Bool) (xs : List (Element α)) (order : List Nat) :
    Decidable (IsMadeHeap lt xs order) :=
  inferInstanceAs (Decidable (_ ∧ _))

/-- `EraseIf(predicate)` removes the elements that the predicate holds of. -/
theorem eraseIf_spec (h : Ok lt s) {predicate : Element α → Bool} {order : List Nat}
    (hmakes : s.heap.filter predicate ≠ [] →
      IsMadeHeap lt (s.heap.filter fun e => !predicate e) order) :
    ∃ t, s.eraseIf lt predicate order = some t ∧
      Outcome lt s (s.heap.filter predicate) [] t := by
  have hpartition : (s.heap.filter predicate ++ s.heap.filter fun e => !predicate e).Perm s.heap :=
    List.filter_append_perm predicate s.heap
  have herasedSub : (s.heap.filter predicate).map Element.id ⊆ s.heap.map Element.id :=
    List.map_subset _ List.filter_sublist.subset
  have hframe := (clearHeapHandles_frame s.handles (s.heap.filter predicate)).mono herasedSub
  unfold State.eraseIf
  by_cases herased : (s.heap.filter predicate).isEmpty = true
  · have hnil := List.isEmpty_iff.mp herased
    rw [hnil, List.nil_append] at hpartition
    have hkept : (s.heap.filter fun e => !predicate e) = s.heap :=
      List.filter_sublist.eq_of_length hpartition.length_eq
    refine ⟨s, ?_, h, ?_, ?_, Frame.refl _ _⟩
    · simp only [hnil, hkept, List.isEmpty_nil, if_true]
      rfl
    · rw [hnil, List.append_nil, List.nil_append]
    · rw [hnil]
      exact nofun
  · have horder := hmakes fun hnil => herased (List.isEmpty_iff.mpr hnil)
    have hmade : (order.filterMap fun i => (s.heap.filter fun e => !predicate e)[i]?).Perm
        (s.heap.filter fun e => !predicate e) := by
      have := horder.1.filterMap fun i => (s.heap.filter fun e => !predicate e)[i]?
      rwa [CircularView.filterMap_range_getElem?] at this
    have hperm := (hmade.append_left (s.heap.filter predicate)).trans hpartition
    have hids := hperm.map Element.id
    rw [List.map_append] at hids
    have hnodup := (hids.nodup_iff.mpr h.nodup).of_append_right
    refine ⟨_, (if_neg herased).trans (if_pos horder),
      ⟨horder.2, hnodup, tracked_setHeapHandles hnodup⟩, ?_, fun e he hid => ?_, ?_⟩
    · rw [List.append_nil]
      exact hperm
    · exact (setHeapHandles_of_notMem hid).trans
        (clearHeapHandles_of_mem (.inl (List.mem_map_of_mem he)))
    · rw [List.append_nil]
      intro id hid
      refine (setHeapHandles_of_notMem fun hmem => hid ?_).trans (hframe id hid)
      exact hids.subset (List.mem_append_right _ hmem)

/-- There is always something that `make_heap` may leave: the elements in descending order. -/
theorem exists_isMadeHeap (lt : α → α → Bool) [IsStrictWeakOrder α fun a b => lt a b = true]
    (xs : List (Element α)) : ∃ order, IsMadeHeap lt xs order := by
  let notLess (i j : Fin xs.length) : Bool := !lt xs[i].value xs[j].value
  have hiff : ∀ i j, notLess i j = true ↔ ¬Less lt xs[i] xs[j] := by
    intro i j
    simp [notLess, Less]
  have hsorted : ((List.finRange xs.length).mergeSort notLess).Pairwise
      fun i j => ¬Less lt xs[i] xs[j] := by
    simp only [← hiff]
    apply List.pairwise_mergeSort
    · intro i j k hij hjk
      rw [hiff] at *
      exact SortedList.not_trans hij hjk
    · intro i j
      rw [Bool.or_eq_true, hiff, hiff]
      by_cases hij : Less lt xs[i] xs[j]
      · exact .inr (asymm_of (Less lt) hij)
      · exact .inl hij
  refine ⟨((List.finRange xs.length).mergeSort notLess).map Fin.val, ?_, ?_⟩
  · rw [← List.map_coe_finRange_eq_range]
    exact (List.mergeSort_perm _ _).map Fin.val
  · have hget : ((List.finRange xs.length).mergeSort notLess).map (fun i => xs[i]) =
        (((List.finRange xs.length).mergeSort notLess).map Fin.val).filterMap fun i => xs[i]? := by
      rw [List.filterMap_map, ← List.filterMap_eq_map]
      apply List.filterMap_congr
      intro i _
      simp
    rw [← hget]
    apply isHeap_of_pairwise
    exact List.pairwise_map.mpr hsorted

end Sparo.Base.IntrusiveHeap
