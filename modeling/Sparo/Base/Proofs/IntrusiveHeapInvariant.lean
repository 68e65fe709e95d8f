import Sparo.Base.Proofs.IntrusiveHeapOps
import Sparo.Misc.StepSystem

/-!
# The invariant of the intrusive heaps

Every operation, and the copies, moves and swaps of whole heaps, keep each heap in order and the
handle of each element at its position.
-/

namespace Sparo.Base.IntrusiveHeap

open BinaryHeap StepSystem

variable {α : Type*} {lt : α → α → Bool} {s t : State α} {pos : Position} {e r : Element α}

/-! ## One heap -/

namespace Op

/-- The elements that an operation is given. -/
def inserted : Op α → List (Element α)
  | .insert element | .emplace element | .replace _ element | .replaceTop element => [element]
  | .insertRange elements => elements
  | .take _ | .takeTop | .erase _ | .pop | .update _ | .modify _ _ | .eraseIf _ _ | .clear => []

/-- The elements that are in the heap after an operation and were not before. -/
def added (s : State α) : Op α → List (Element α)
  | .modify pos unaryOp =>
    (s.elementAt pos).toList.map fun e => { e with value := unaryOp e.value }
  | op => op.inserted

/-- The elements that were in the heap before an operation and are not any more. -/
def removed (s : State α) : Op α → List (Element α)
  | .take pos | .erase pos | .replace pos _ | .modify pos _ => (s.elementAt pos).toList
  | .takeTop | .pop | .replaceTop _ => s.heap.head?.toList
  | .eraseIf predicate _ => s.heap.filter predicate
  | .clear => s.heap
  | .insert _ | .insertRange _ | .emplace _ | .update _ => []

/-- The position of an operation is one of the heap. -/
def validPosition (s : State α) : Op α → Bool
  | .take pos | .erase pos | .replace pos _ | .update pos | .modify pos _ =>
    (s.elementAt pos).isSome
  | .takeTop | .pop | .replaceTop _ => !s.heap.isEmpty
  | .insert _ | .insertRange _ | .emplace _ | .eraseIf _ _ | .clear => true

/-- Where something is erased, `order` is something that `make_heap` may leave. -/
def validOrder (lt : α → α → Bool) (s : State α) : Op α → Bool
  | .eraseIf predicate order => (s.heap.filter predicate).isEmpty ||
      decide (IsMadeHeap lt (s.heap.filter fun e => !predicate e) order)
  | _ => true

/-- The operation may be called; the elements it is given are not in the heap, each with a cell of
its own. -/
structure Valid (lt : α → α → Bool) (s : State α) (op : Op α) : Prop where
  position : op.validPosition s = true
  order : op.validOrder lt s = true
  distinct : (op.inserted.map Element.id).Nodup
  fresh : ∀ e ∈ op.inserted, e.id ∉ s.heap.map Element.id

instance (lt : α → α → Bool) (s : State α) (op : Op α) : Decidable (op.Valid lt s) :=
  decidable_of_iff (op.validPosition s = true ∧ op.validOrder lt s = true ∧
      (op.inserted.map Element.id).Nodup ∧ ∀ e ∈ op.inserted, e.id ∉ s.heap.map Element.id)
    ⟨fun ⟨hpos, horder, hdistinct, hfresh⟩ => ⟨hpos, horder, hdistinct, hfresh⟩,
      fun h => ⟨h.position, h.order, h.distinct, h.fresh⟩⟩

end Op

/-- What has come is what the operation was given, or an element with a new value. -/
theorem Op.mem_added {op : Op α} {id : Nat} (h : id ∈ (op.added s).map Element.id) :
    id ∈ s.heap.map Element.id ∨ ∃ e ∈ op.inserted, e.id = id := by
  cases op with
  | modify pos unaryOp =>
    obtain ⟨e, he, rfl⟩ := List.mem_map.mp h
    obtain ⟨r, hr, rfl⟩ := List.mem_map.mp he
    obtain ⟨i, -, hi⟩ := Option.bind_eq_some_iff.mp (Option.mem_toList.mp hr)
    exact .inl (List.mem_map.mpr ⟨r, List.mem_of_getElem? hi, rfl⟩)
  | insert | insertRange | emplace | take | takeTop | erase | pop | replace | replaceTop | update
  | eraseIf | clear => exact .inr (List.mem_map.mp h)

theorem exists_of_elementAt (h : (s.elementAt pos).isSome = true) :
    ∃ i r, s.toIndex pos = some i ∧ s.heap[i]? = some r ∧ s.elementAt pos = some r := by
  obtain ⟨r, hr⟩ := Option.isSome_iff_exists.mp h
  obtain ⟨i, hi, hir⟩ := Option.bind_eq_some_iff.mp hr
  exact ⟨i, r, hi, hir, hr⟩

theorem exists_top (h : (!s.heap.isEmpty) = true) :
    ∃ r, s.heap[0]? = some r ∧ s.heap.head? = some r := by
  cases hheap : s.heap with
  | nil =>
    rw [hheap] at h
    cases h
  | cons r heap => exact ⟨r, rfl, rfl⟩

/-- Every operation that may be called returns, and does what it says. -/
theorem apply_spec [IsStrictWeakOrder α fun a b => lt a b = true]
    (movedFrom : Element α → Element α) (h : Ok lt s) {op : Op α} (hvalid : op.Valid lt s) :
    ∃ t, s.apply lt movedFrom op = some t ∧ Outcome lt s (op.removed s) (op.added s) t := by
  cases op with
  | insert element | emplace element =>
    obtain ⟨t, k, ht, hout⟩ := insertImpl_spec movedFrom h (hvalid.fresh element List.mem_cons_self)
    exact ⟨t, by rw [State.apply, ht, Option.map_some], hout⟩
  | insertRange elements =>
    exact insertRange_spec movedFrom h hvalid.distinct hvalid.fresh
  | take pos =>
    obtain ⟨i, r, hi, hr, hat⟩ := exists_of_elementAt hvalid.position
    obtain ⟨t, ht, hout⟩ := take_spec movedFrom (h.okBut i) hr
    refine ⟨t, ?_, ?_⟩
    · rw [State.apply, hi, Option.bind_some, ht, Option.map_some]
    · rw [Op.removed, hat]
      exact hout
  | takeTop =>
    obtain ⟨r, hr, hhead⟩ := exists_top hvalid.position
    obtain ⟨t, ht, hout⟩ := take_spec movedFrom (h.okBut 0) hr
    refine ⟨t, ?_, ?_⟩
    · rw [State.apply, ht, Option.map_some]
    · rw [Op.removed, hhead]
      exact hout
  | erase pos =>
    obtain ⟨i, r, hi, hr, hat⟩ := exists_of_elementAt hvalid.position
    obtain ⟨t, ht, hout⟩ := erase_spec movedFrom (h.okBut i) hr
    refine ⟨t, ?_, ?_⟩
    · rw [State.apply, hi, Option.bind_some, ht]
    · rw [Op.removed, hat]
      exact hout
  | pop =>
    obtain ⟨r, hr, hhead⟩ := exists_top hvalid.position
    obtain ⟨t, ht, hout⟩ := erase_spec movedFrom (h.okBut 0) hr
    refine ⟨t, ht, ?_⟩
    rw [Op.removed, hhead]
    exact hout
  | replace pos element =>
    obtain ⟨i, r, hi, hr, hat⟩ := exists_of_elementAt hvalid.position
    obtain ⟨t, k, ht, hout⟩ :=
      replaceImpl_spec movedFrom h hr (hvalid.fresh element List.mem_cons_self)
    refine ⟨t, ?_, ?_⟩
    · rw [State.apply, hi, Option.bind_some, ht, Option.map_some]
    · rw [Op.removed, hat]
      exact hout
  | replaceTop element =>
    obtain ⟨r, hr, hhead⟩ := exists_top hvalid.position
    obtain ⟨t, k, ht, hout⟩ :=
      replaceTopImpl_spec movedFrom h hr (hvalid.fresh element List.mem_cons_self)
    refine ⟨t, ?_, ?_⟩
    · rw [State.apply, ht, Option.map_some]
    · rw [Op.removed, hhead]
      exact hout
  | update pos =>
    obtain ⟨i, r, hi, hr, -⟩ := exists_of_elementAt hvalid.position
    obtain ⟨t, k, ht, hout⟩ := update_spec movedFrom (h.okBut i) hr
    exact ⟨t, by rw [State.apply, hi, Option.bind_some, ht, Option.map_some], hout⟩
  | modify pos unaryOp =>
    obtain ⟨i, r, hi, hr, hat⟩ := exists_of_elementAt hvalid.position
    obtain ⟨t, k, ht, hout⟩ := modify_spec movedFrom h hr unaryOp
    refine ⟨t, ?_, ?_⟩
    · rw [State.apply, hi, Option.bind_some, ht, Option.map_some]
    · rw [Op.removed, Op.added, hat]
      exact hout
  | eraseIf predicate order =>
    refine eraseIf_spec h fun herased => ?_
    have horder := (Bool.or_eq_true ..).mp hvalid.order
    rw [List.isEmpty_iff] at horder
    exact of_decide_eq_true (horder.resolve_left herased)
  | clear => exact ⟨s.clear, rfl, clear_spec lt s⟩

/-! ## Several heaps -/

section

variable {objects rest : List (List (Element α))} {handles handles' : Nat → Option Nat}
  {heap heap' removed added : List (Element α)} {i : Nat} {ids : List Nat}

/-! ### Copies -/

/-- A copy has the value of its original. -/
theorem getElem?_copies {k : Nat} (h : (Heaps.copies heap ids)[k]? = some e) :
    ∃ x, heap[k]? = some x ∧ x.value = e.value := by
  obtain ⟨x, id, hx, -, rfl⟩ := List.getElem?_zipWith_eq_some.mp h
  exact ⟨x, hx, rfl⟩

theorem isHeap_copies (h : IsHeap (Less lt) heap) (ids : List Nat) :
    IsHeap (Less lt) (Heaps.copies heap ids) := by
  intro i x p hi hx hp
  obtain ⟨y, hy, hvalue⟩ := getElem?_copies hx
  obtain ⟨q, hq, hvalue'⟩ := getElem?_copies hp
  have hle := h i y q hi hy hq
  rwa [Less, hvalue, hvalue'] at hle

theorem copies_ids (heap : List (Element α)) (ids : List Nat) :
    ((Heaps.copies heap ids).map Element.id).Sublist ids := by
  induction heap generalizing ids with
  | nil => exact List.nil_sublist ids
  | cons x heap ih =>
    cases ids with
    | nil => exact List.nil_sublist []
    | cons id ids => exact (ih ids).cons_cons id

/-! ### The invariant -/

/-- Each heap is in order and has the right handles, and no two elements share a cell. -/
structure Intact (lt : α → α → Bool) (objects : List (List (Element α)))
    (handles : Nat → Option Nat) : Prop where
  isHeap : ∀ heap ∈ objects, IsHeap (Less lt) heap
  tracked : ∀ heap ∈ objects, Tracked handles heap
  nodup : (objects.flatten.map Element.id).Nodup

namespace Intact

theorem nil (lt : α → α → Bool) (handles : Nat → Option Nat) :
    Intact lt ([] : List (List (Element α))) handles :=
  ⟨nofun, nofun, List.nodup_nil⟩

/-- The order of the heaps does not matter. -/
theorem perm (h : Intact lt objects handles) (hperm : rest.Perm objects) :
    Intact lt rest handles where
  isHeap heap hmem := h.isHeap heap (hperm.mem_iff.mp hmem)
  tracked heap hmem := h.tracked heap (hperm.mem_iff.mp hmem)
  nodup := (hperm.flatten.map Element.id).nodup_iff.mpr h.nodup

/-- Handles of other elements do not matter. -/
theorem frame (h : Intact lt objects handles)
    (hframe : ∀ id ∈ objects.flatten.map Element.id, handles' id = handles id) :
    Intact lt objects handles' := by
  refine { h with tracked := fun heap hmem i x hx => ?_ }
  rw [hframe x.id]
  · exact h.tracked heap hmem i x hx
  · exact List.mem_map_of_mem (List.mem_flatten_of_mem hmem (List.mem_of_getElem? hx))

theorem cons (h : Intact lt rest handles) (hok : Ok lt ⟨heap, handles⟩)
    (hdisjoint : (heap.map Element.id).Disjoint (rest.flatten.map Element.id)) :
    Intact lt (heap :: rest) handles := by
  refine ⟨fun heap' hmem => ?_, fun heap' hmem => ?_, ?_⟩
  · rcases List.mem_cons.mp hmem with rfl | hmem
    · exact hok.isHeap
    · exact h.isHeap heap' hmem
  · rcases List.mem_cons.mp hmem with rfl | hmem
    · exact hok.tracked
    · exact h.tracked heap' hmem
  · rw [List.flatten_cons, List.map_append]
    exact hok.nodup.append h.nodup hdisjoint

theorem of_cons (h : Intact lt (heap :: rest) handles) :
    Ok lt ⟨heap, handles⟩ ∧ Intact lt rest handles ∧
      (heap.map Element.id).Disjoint (rest.flatten.map Element.id) := by
  have hnodup := h.nodup
  rw [List.flatten_cons, List.map_append] at hnodup
  refine ⟨⟨h.isHeap heap List.mem_cons_self, hnodup.of_append_left,
      h.tracked heap List.mem_cons_self⟩,
    ⟨fun heap' hmem => h.isHeap heap' (List.mem_cons_of_mem heap hmem),
      fun heap' hmem => h.tracked heap' (List.mem_cons_of_mem heap hmem),
      hnodup.of_append_right⟩, List.disjoint_of_nodup_append hnodup⟩

/-- The heap at a position and the others. -/
theorem split (h : Intact lt objects handles) (hi : objects[i]? = some heap) :
    Ok lt ⟨heap, handles⟩ ∧ Intact lt (objects.eraseIdx i) handles ∧
      (heap.map Element.id).Disjoint ((objects.eraseIdx i).flatten.map Element.id) := by
  obtain ⟨hlt, rfl⟩ := List.getElem?_eq_some_iff.mp hi
  exact (h.perm (List.getElem_cons_eraseIdx_perm hlt)).of_cons

/-- An operation on one heap leaves the others intact. -/
theorem outcome (h : Intact lt (objects.eraseIdx i) handles) (hlt : i < objects.length)
    (hout : Outcome lt ⟨heap, handles⟩ removed added t)
    (hdisjoint : ((heap ++ added).map Element.id).Disjoint
      ((objects.eraseIdx i).flatten.map Element.id)) :
    Intact lt (objects.set i t.heap) t.handles := by
  have hids := hout.perm.map Element.id
  rw [List.map_append] at hids
  refine ((h.frame fun id hid => ?_).cons hout.ok fun id hid hid' => ?_).perm
    (List.set_perm_cons_eraseIdx hlt t.heap)
  · exact hout.frame id fun hmem => hdisjoint hmem hid
  · exact hdisjoint (hids.subset (List.mem_append_right _ hid)) hid'

/-- The copy of a heap. -/
theorem copies (h : Intact lt rest handles) (hheap : IsHeap (Less lt) heap) (hnodup : ids.Nodup)
    (hdisjoint : ids.Disjoint (rest.flatten.map Element.id)) :
    Intact lt (Heaps.copies heap ids :: rest)
      (State.setHeapHandles handles 0 (Heaps.copies heap ids)) := by
  have hsub := copies_ids heap ids
  refine (h.frame fun id hid => ?_).cons
    ⟨isHeap_copies hheap ids, hsub.nodup hnodup, tracked_setHeapHandles (hsub.nodup hnodup)⟩
    fun id hid => hdisjoint (hsub.subset hid)
  exact setHeapHandles_of_notMem fun hmem => hdisjoint (hsub.subset hmem) hid

end Intact

end

namespace Heaps

variable {s t : Heaps α} {a : Act α}

/-- The cells of all elements. -/
def ids (s : Heaps α) : List Nat := s.objects.flatten.map Element.id

/-- A step may be taken: its heaps exist, the elements it is given are in no heap, and there are
new cells for copies. -/
def Act.Valid (lt : α → α → Bool) (s : Heaps α) : Act α → Prop
  | .construct => True
  | .op i operation => ∃ heap ∈ s.objects[i]?, operation.Valid lt ⟨heap, s.handles⟩ ∧
      ∀ e ∈ operation.inserted, e.id ∉ s.ids
  | .copyConstruct other ids => ∃ heap ∈ s.objects[other]?,
      heap.length ≤ ids.length ∧ ids.Nodup ∧ ∀ id ∈ ids, id ∉ s.ids
  | .copyAssign i other ids => i < s.objects.length ∧ ∃ heap ∈ s.objects[other]?,
      heap.length ≤ ids.length ∧ ids.Nodup ∧ ∀ id ∈ ids, id ∉ s.ids
  | .moveConstruct other => other < s.objects.length
  | .moveAssign i other | .swap i other => i < s.objects.length ∧ other < s.objects.length

instance (lt : α → α → Bool) (s : Heaps α) : ∀ a : Act α, Decidable (a.Valid lt s)
  | .construct => isTrue trivial
  | .op _ _ => inferInstanceAs (Decidable (∃ _ ∈ _, _))
  | .copyConstruct _ _ => inferInstanceAs (Decidable (∃ _ ∈ _, _))
  | .copyAssign _ _ _ => inferInstanceAs (Decidable (_ ∧ ∃ _ ∈ _, _))
  | .moveConstruct _ => inferInstanceAs (Decidable (_ < _))
  | .moveAssign _ _ | .swap _ _ => inferInstanceAs (Decidable (_ ∧ _))

section

variable {i other : Nat} {heap : List (Element α)} {op : Op α} {t : State α}

theorem ids_perm (hi : s.objects[i]? = some heap) :
    s.ids.Perm (heap.map Element.id ++ (s.objects.eraseIdx i).flatten.map Element.id) := by
  obtain ⟨hlt, rfl⟩ := List.getElem?_eq_some_iff.mp hi
  have hperm := ((List.getElem_cons_eraseIdx_perm hlt).flatten.map Element.id).symm
  rwa [List.flatten_cons, List.map_append] at hperm

/-- An operation on one heap. -/
theorem applyAt_eq (movedFrom : Element α → Element α) (hi : s.objects[i]? = some heap)
    (ht : State.apply lt movedFrom ⟨heap, s.handles⟩ op = some t) :
    s.applyAt lt movedFrom i op =
      some { objects := s.objects.set i t.heap, handles := t.handles } := by
  rw [applyAt, hi, Option.bind_some, ht, Option.map_some]

/-- `clear()` on one heap. -/
theorem clear_intact (movedFrom : Element α → Element α) (hs : Intact lt s.objects s.handles)
    (hi : i < s.objects.length) :
    ∃ u, s.applyAt lt movedFrom i .clear = some u ∧ Intact lt u.objects u.handles ∧
      u.objects = s.objects.set i [] ∧ u.objects[i]? = some [] ∧
      ∀ other < s.objects.length, ∃ heap, u.objects[other]? = some heap := by
  have hheap := List.getElem?_eq_getElem hi
  obtain ⟨-, hrest, hdisjoint⟩ := hs.split hheap
  refine ⟨_, applyAt_eq movedFrom hheap rfl, ?_, rfl, List.getElem?_set_self hi,
    fun other hother => ⟨_, List.getElem?_eq_getElem (by rwa [List.length_set])⟩⟩
  apply hrest.outcome hi (clear_spec lt _)
  rwa [List.append_nil]

/-- Two heaps exchange their elements. -/
theorem swap_intact {heap' : List (Element α)} (hs : Intact lt s.objects s.handles)
    (hi : s.objects[i]? = some heap) (hother : s.objects[other]? = some heap') :
    Intact lt ((s.objects.set i heap').set other heap) s.handles := by
  obtain ⟨hlt, rfl⟩ := List.getElem?_eq_some_iff.mp hi
  obtain ⟨hlt', rfl⟩ := List.getElem?_eq_some_iff.mp hother
  exact hs.perm (List.set_set_perm hlt hlt')

end

section

variable [IsStrictWeakOrder α fun a b => lt a b = true]

/-- Every step that may be taken leads to heaps in order. -/
theorem step_intact (movedFrom : Element α → Element α) (hs : Intact lt s.objects s.handles)
    (ha : a.Valid lt s) :
    ∃ t, step lt movedFrom s a = some t ∧ Intact lt t.objects t.handles := by
  cases a with
  | construct =>
    refine ⟨_, rfl, (hs.cons (ok_nil lt s.handles) ?_).perm (List.perm_append_singleton ..)⟩
    exact List.disjoint_nil_left _
  | op i op =>
    obtain ⟨heap, hi, hvalid, hfresh⟩ := ha
    obtain ⟨hok, hrest, hdisjoint⟩ := hs.split hi
    obtain ⟨t, ht, hout⟩ := apply_spec movedFrom hok hvalid
    refine ⟨_, applyAt_eq movedFrom hi ht, ?_⟩
    apply hrest.outcome (List.getElem?_eq_some_iff.mp hi).1 hout
    intro id hid hother
    rw [List.map_append, List.mem_append] at hid
    rcases hid.elim .inl Op.mem_added with hold | ⟨e, he, rfl⟩
    · exact hdisjoint hold hother
    · exact hfresh e he ((ids_perm hi).mem_iff.mpr (List.mem_append_right _ hother))
  | copyConstruct other ids =>
    obtain ⟨heap, hother, -, hnodup, hfresh⟩ := ha
    refine ⟨_, by rw [step, hother, Option.map_some], ?_⟩
    have hheap := hs.isHeap heap (List.mem_of_getElem? hother)
    exact (hs.copies hheap hnodup hfresh).perm (List.perm_append_singleton ..)
  | copyAssign i other ids =>
    obtain ⟨hi, heap, hother, -, hnodup, hfresh⟩ := ha
    obtain ⟨u, hu, hintact, hobjects, hui, hheaps⟩ := clear_intact movedFrom hs hi
    obtain ⟨heap', hheap'⟩ := hheaps other (List.getElem?_eq_some_iff.mp hother).1
    obtain ⟨-, hrest, -⟩ := hintact.split hui
    rw [hobjects, List.eraseIdx_set_eq] at hrest
    have hcopies := hrest.copies (hintact.isHeap heap' (List.mem_of_getElem? hheap')) hnodup
      fun id hid hmem => hfresh id hid
        ((ids_perm (List.getElem?_eq_getElem hi)).mem_iff.mpr (List.mem_append_right _ hmem))
    refine ⟨_, by rw [step, hu, Option.bind_some, hheap', Option.map_some], hcopies.perm ?_⟩
    rw [hobjects, List.set_set]
    exact List.set_perm_cons_eraseIdx hi _
  | moveConstruct other =>
    have hheap := List.getElem?_eq_getElem ha
    obtain ⟨hok, hrest, hdisjoint⟩ := hs.split hheap
    have hintact := (hrest.cons (ok_nil lt s.handles) (List.disjoint_nil_left _)).cons hok hdisjoint
    refine ⟨{ s with objects := s.objects.set other [] ++ [s.objects[other]] }, ?_, ?_⟩
    · rw [step, hheap, Option.map_some]
    · apply hintact.perm
      exact (List.perm_append_singleton ..).trans ((List.set_perm_cons_eraseIdx ha []).cons _)
  | moveAssign i other =>
    obtain ⟨hi, hother⟩ := ha
    obtain ⟨u, hu, hintact, -, hui, hheaps⟩ := clear_intact movedFrom hs hi
    obtain ⟨heap', hheap'⟩ := hheaps other hother
    have hswap := swap_intact hintact hui hheap'
    exact ⟨_, by rw [step, hu, Option.bind_some, hheap', Option.map_some], hswap⟩
  | swap i other =>
    obtain ⟨hi, hother⟩ := ha
    have hheap := List.getElem?_eq_getElem hi
    have hheap' := List.getElem?_eq_getElem hother
    have hswap := swap_intact hs hheap hheap'
    exact ⟨_, by rw [step, hheap, hheap', Option.bind_some, Option.map_some], hswap⟩

end

/-! ## Changed elements -/

/-- The element at `pos` of heap `i` has become `e`, by something other than the heap. -/
def change (s : Heaps α) (i : Nat) (heap : List (Element α)) (pos : Nat) (e : Element α)
    (handle : Option Nat) : Heaps α :=
  { objects := s.objects.set i (heap.set pos e)
    handles := Function.update s.handles e.id handle }

section

variable {i pos : Nat} {heap : List (Element α)} {handle : Option Nat}

/-- The new element is not elsewhere. -/
theorem id_notMem_of_change (hs : Intact lt s.objects s.handles) (hi : s.objects[i]? = some heap)
    (hr : heap[pos]? = some r) (he : e.id = r.id ∨ e.id ∉ s.ids) :
    e.id ∉ (heap.eraseIdx pos).map Element.id ∧
      e.id ∉ (s.objects.eraseIdx i).flatten.map Element.id := by
  obtain ⟨hok, -, hdisjoint⟩ := hs.split hi
  have hids := ids_perm hi
  rcases he with he | he
  · rw [he]
    exact ⟨hok.id_notMem_eraseIdx hr, hdisjoint (List.mem_map_of_mem (List.mem_of_getElem? hr))⟩
  · rw [hids.mem_iff, List.mem_append, not_or] at he
    exact ⟨fun hmem => he.1 (((List.eraseIdx_sublist ..).map Element.id).subset hmem), he.2⟩

/-- An operation that repairs the changed heap leads to heaps in order. -/
theorem change_intact (movedFrom : Element α → Element α) {op : Op α} {t : State α}
    {removed : List (Element α)} (hs : Intact lt s.objects s.handles)
    (hi : s.objects[i]? = some heap) (hr : heap[pos]? = some r)
    (he : e.id = r.id ∨ e.id ∉ s.ids)
    (ht : State.apply lt movedFrom
      ⟨heap.set pos e, Function.update s.handles e.id handle⟩ op = some t)
    (hout : Outcome lt ⟨heap.set pos e, Function.update s.handles e.id handle⟩ removed [] t) :
    ∃ u, step lt movedFrom (s.change i heap pos e handle) (.op i op) = some u ∧
      Intact lt u.objects u.handles := by
  obtain ⟨-, hrest, hdisjoint⟩ := hs.split hi
  obtain ⟨hheap, hothers⟩ := id_notMem_of_change hs hi hr he
  have hlt := (List.getElem?_eq_some_iff.mp hi).1
  have hpos := (List.getElem?_eq_some_iff.mp hr).1
  have hchanged : (s.change i heap pos e handle).objects[i]? = some (heap.set pos e) :=
    List.getElem?_set_self hlt
  refine ⟨_, applyAt_eq movedFrom hchanged ht, ?_⟩
  have herase : (s.change i heap pos e handle).objects.eraseIdx i = s.objects.eraseIdx i :=
    List.eraseIdx_set_eq
  refine Intact.outcome ?_ (by rwa [change, List.length_set]) hout ?_
  · rw [herase]
    refine hrest.frame fun id hid => Function.update_of_ne (fun heq => ?_) ..
    exact hothers (heq ▸ hid)
  · rw [herase, List.append_nil]
    intro id hid hid'
    have hids := (List.set_perm_cons_eraseIdx hpos e).map Element.id
    rw [hids.mem_iff, List.map_cons, List.mem_cons] at hid
    rcases hid with rfl | hid
    · exact hothers hid'
    · exact hdisjoint (((List.eraseIdx_sublist ..).map Element.id).subset hid) hid'

end

section

variable [IsStrictWeakOrder α fun a b => lt a b = true]

/-- `erase`, `take` and `Update` repair a heap with one changed element. -/
theorem step_change_intact (movedFrom : Element α → Element α) {i pos : Nat}
    {heap : List (Element α)} {op : Op α} (hs : Intact lt s.objects s.handles)
    (hi : s.objects[i]? = some heap) (hr : heap[pos]? = some r)
    (he : e.id = r.id ∨ e.id ∉ s.ids) (handle : Option Nat)
    (hop : op ∈ [Op.erase (.index pos), .take (.index pos), .update (.index pos)]) :
    ∃ u, step lt movedFrom (s.change i heap pos e handle) (.op i op) = some u ∧
      Intact lt u.objects u.handles := by
  have hpos := (List.getElem?_eq_some_iff.mp hr).1
  have hself : (heap.set pos e)[pos]? = some e := List.getElem?_set_self hpos
  obtain ⟨hok, -, -⟩ := hs.split hi
  have hbut : OkBut lt ⟨heap.set pos e, Function.update s.handles e.id handle⟩ pos :=
    hok.change hr (id_notMem_of_change hs hi hr he).1 fun id _ hid => Function.update_of_ne hid ..
  simp only [List.mem_cons, List.not_mem_nil, or_false] at hop
  rcases hop with rfl | rfl | rfl
  · obtain ⟨t, ht, hout⟩ := erase_spec movedFrom hbut hself
    exact change_intact movedFrom hs hi hr he ht hout
  · obtain ⟨t, ht, hout⟩ := take_spec movedFrom hbut hself
    refine change_intact movedFrom hs hi hr he ?_ hout
    rw [State.apply, State.toIndex, Option.bind_some, ht, Option.map_some]
  · obtain ⟨t, k, ht, hout⟩ := update_spec movedFrom hbut hself
    refine change_intact movedFrom hs hi hr he ?_ hout
    rw [State.apply, State.toIndex, Option.bind_some, ht, Option.map_some]

end

/-! ## Runs -/

/-- In every heap no element is greater than its parent, and the handle of the element at `i`
is `i`. -/
def InOrder (lt : α → α → Bool) (s : Heaps α) : Prop :=
  ∀ heap ∈ s.objects,
    (∀ (i : Nat) x p, 0 < i → heap[i]? = some x → heap[parentIndex i]? = some p →
      lt p.value x.value = false) ∧
    ∀ (i : Nat) x, heap[i]? = some x → s.handles x.id = some i

theorem inOrder_of_intact (h : Intact lt s.objects s.handles) : InOrder lt s := by
  intro heap hheap
  refine ⟨fun i x p hi hx hp => ?_, h.tracked heap hheap⟩
  exact Bool.eq_false_iff.mpr (h.isHeap heap hheap i x p hi hx hp)

/-- `EraseIf` may always be called, for some order that `make_heap` leaves. -/
theorem exists_eraseIf_valid [IsStrictWeakOrder α fun a b => lt a b = true] {i : Nat}
    {heap : List (Element α)} (hi : s.objects[i]? = some heap) (predicate : Element α → Bool) :
    ∃ order, (Act.op i (.eraseIf predicate order)).Valid lt s := by
  obtain ⟨order, horder⟩ := exists_isMadeHeap lt (heap.filter fun e => !predicate e)
  refine ⟨order, heap, hi, ⟨rfl, ?_, List.nodup_nil, nofun⟩, nofun⟩
  rw [Op.validOrder, decide_eq_true horder, Bool.or_true]

/-- Every sequence of valid operations runs to its end with all heaps in order; `erase`, `take` and
`Update` put a heap in order again if the element they are called for was changed; and whatever
`EraseIf` erases, it returns. -/
theorem valid_run_inOrder [IsStrictWeakOrder α fun a b => lt a b = true]
    (movedFrom : Element α → Element α) {acts : List (Act α)}
    (hvalid : StepsMeet (step lt movedFrom) (fun s a => a.Valid lt s) {} acts) :
    ∃ s, exec (step lt movedFrom) {} acts = some s ∧ InOrder lt s ∧
      (∀ i heap pos r e handle, s.objects[i]? = some heap → heap[pos]? = some r →
        (e.id = r.id ∨ e.id ∉ s.ids) →
        ∀ op ∈ [Op.erase (.index pos), .take (.index pos), .update (.index pos)],
          ∃ t, step lt movedFrom (s.change i heap pos e handle) (.op i op) = some t ∧
            InOrder lt t) ∧
      ∀ i < s.objects.length, ∀ predicate, ∃ order,
        (Act.op i (.eraseIf predicate order)).Valid lt s := by
  obtain ⟨s, hrun, hs⟩ := exec_total (I := fun s => Intact lt s.objects s.handles)
    (fun s a hs ha => step_intact movedFrom hs ha) (.nil lt _) hvalid
  refine ⟨s, hrun, inOrder_of_intact hs, fun i heap pos r e handle hi hr he op hop => ?_,
    fun i hi predicate => exists_eraseIf_valid (List.getElem?_eq_getElem hi) predicate⟩
  obtain ⟨t, ht, hintact⟩ := step_change_intact movedFrom hs hi hr he handle hop
  exact ⟨t, ht, inOrder_of_intact hintact⟩

/-- Numbers are compared by their tens: some that differ are equivalent. -/
def tensLess (a b : Nat) : Bool := decide (a / 10 < b / 10)

instance : IsStrictWeakOrder Nat fun a b => tensLess a b = true where
  irrefl a := by simp [tensLess]
  trans a b c := by
    simp only [tensLess, decide_eq_true_eq]
    omega
  incomp_trans a b c := by
    simp only [tensLess, decide_eq_true_eq]
    omega

/-- Two heaps: elements are inserted, taken, replaced, modified and erased, the heap is copied, and
the copy is moved and swapped. -/
def exercised : List (Act Nat) :=
  List.flatten [[.construct, .op 0 (.insertRange [⟨0, 51⟩, ⟨1, 93⟩, ⟨2, 12⟩, ⟨3, 95⟩, ⟨4, 70⟩])],
    [.op 0 (.take (.handle 1)), .op 0 (.replace (.index 2) ⟨1, 88⟩), .op 0 (.insert ⟨5, 20⟩)],
    [.copyConstruct 0 [10, 11, 12, 13, 14]],
    [.op 1 (.modify (.handle 11) fun v => v + 40), .op 1 .pop],
    [.op 0 (.eraseIf (fun e => e.value < 60) [0, 2, 1]), .swap 0 1, .moveConstruct 0]]

theorem valid_run_inOrder_exercised :
    ∃ s, exec (step tensLess id) {} exercised = some s ∧ s.objects.map List.length = [0, 3, 4] ∧
      InOrder tensLess s := by
  have hvalid : StepsMeet (step tensLess id) (fun s a => a.Valid tensLess s) {} exercised := by
    decide +kernel
  have hlength : (exec (step tensLess id) {} exercised).map (fun s => s.objects.map List.length) =
      some [0, 3, 4] := by
    decide +kernel
  obtain ⟨s, hrun, hs, -⟩ := valid_run_inOrder id hvalid
  rw [hrun, Option.map_some, Option.some.injEq] at hlength
  exact ⟨s, hrun, hlength, hs⟩

end Heaps

end Sparo.Base.IntrusiveHeap
