import Sparo.Base.Proofs.IntrusiveHeapInvariant
import Sparo.Misc.LastWins

/-!
# Handles of the intrusive heap

Seen from outside, the heap is a map: `live` says which elements are in it, by their cells, and with
which values. The heap refines this map: the handle of every live element leads to that element, and
the handles of all others are cleared.
-/

namespace Sparo.Base.IntrusiveHeap

open BinaryHeap StepSystem LastWins

variable {α : Type*} {lt : α → α → Bool} {s t : State α} {pos : Position} {r : Element α}
  {removed added : List (Element α)} {live : Nat → Option α} {op : Op α}

/-! ## The map -/

/-- The element that a position stands for; the handle of an element stands for that element. -/
def State.target (s : State α) : Position → Option Nat
  | .index pos => s.heap[pos]?.map Element.id
  | .handle id => some id

/-- The map without an element. -/
def forget (live : Nat → Option α) : Option Nat → Nat → Option α
  | none => live
  | some id => Function.update live id none

/-- What an operation makes of the map. -/
def Op.record (s : State α) (live : Nat → Option α) : Op α → Nat → Option α
  | .insert e | .emplace e => Function.update live e.id (some e.value)
  | .insertRange elements => insertAll live (elements.map fun e => (e.id, e.value))
  | .take pos | .erase pos => forget live (s.target pos)
  | .takeTop | .pop => forget live (s.target (.index 0))
  | .replace pos e => Function.update (forget live (s.target pos)) e.id (some e.value)
  | .replaceTop e => Function.update (forget live (s.target (.index 0))) e.id (some e.value)
  | .update _ => live
  | .modify pos unaryOp => fun id =>
    if s.target pos = some id then (live id).map unaryOp else live id
  | .eraseIf predicate _ => fun id => (live id).filter fun v => !predicate ⟨id, v⟩
  | .clear => fun _ => none

/-- A heap, and the map of its elements. -/
structure Recorded (α : Type*) where
  state : State α := {}
  live : Nat → Option α := fun _ => none

/-- An operation on the heap, recorded in the map. -/
def Recorded.step (lt : α → α → Bool) (movedFrom : Element α → Element α) (p : Recorded α)
    (op : Op α) : Option (Recorded α) :=
  (p.state.apply lt movedFrom op).map fun t => ⟨t, op.record p.state p.live⟩

/-- The map has the elements of the heap, which is in order, and elsewhere the handles are
cleared. -/
structure Agrees (lt : α → α → Bool) (s : State α) (live : Nat → Option α) : Prop where
  ok : Ok lt s
  live_iff : ∀ id v, live id = some v ↔ ⟨id, v⟩ ∈ s.heap
  idle : ∀ id, id ∉ s.heap.map Element.id → s.handles id = none

/-! ## What stays -/

/-- The elements that an operation removes and those that it keeps. -/
theorem Op.exists_kept (s : State α) (op : Op α) :
    ∃ kept, s.heap.Perm (op.removed s ++ kept) := by
  have hone : ∀ (o : Option (Element α)), (∀ x ∈ o, ∃ i : Nat, s.heap[i]? = some x) →
      ∃ kept, s.heap.Perm (o.toList ++ kept) := by
    intro o ho
    cases o with
    | none => exact ⟨s.heap, List.Perm.refl _⟩
    | some x =>
      obtain ⟨i, hi⟩ := ho x rfl
      obtain ⟨hlt, rfl⟩ := List.getElem?_eq_some_iff.mp hi
      exact ⟨s.heap.eraseIdx i, (List.getElem_cons_eraseIdx_perm hlt).symm⟩
  have hat : ∀ pos, ∀ x ∈ s.elementAt pos, ∃ i : Nat, s.heap[i]? = some x := by
    intro pos x hx
    obtain ⟨i, -, hi⟩ := Option.bind_eq_some_iff.mp hx
    exact ⟨i, hi⟩
  have hhead : ∀ x ∈ s.heap.head?, ∃ i : Nat, s.heap[i]? = some x := by
    intro x hx
    exact ⟨0, by rwa [← List.head?_eq_getElem?]⟩
  cases op with
  | take pos | erase pos | replace pos | modify pos => exact hone _ (hat pos)
  | takeTop | pop | replaceTop => exact hone _ hhead
  | eraseIf predicate order => exact ⟨_, (List.filter_append_perm predicate s.heap).symm⟩
  | clear => exact ⟨[], (List.append_nil _).symm ▸ List.Perm.refl _⟩
  | insert | insertRange | emplace | update => exact ⟨s.heap, List.Perm.refl _⟩

/-- The elements after an operation are those added, and those of before that are not removed. -/
theorem Outcome.mem_iff (hok : Ok lt s) (hout : Outcome lt s removed added t)
    {kept : List (Element α)} (hkept : s.heap.Perm (removed ++ kept)) (e : Element α) :
    e ∈ t.heap ↔ e ∈ added ∨ e ∈ s.heap ∧ e.id ∉ removed.map Element.id := by
  have hheap : t.heap.Perm (kept ++ added) := by
    have hperm := hout.perm.trans (hkept.append_right added)
    rw [List.append_assoc] at hperm
    exact (List.perm_append_left_iff removed).mp hperm
  have hnodup := (hkept.map Element.id).nodup_iff.mp hok.nodup
  rw [List.map_append] at hnodup
  have hdisjoint := List.disjoint_of_nodup_append hnodup
  rw [hheap.mem_iff, List.mem_append, or_comm, hkept.mem_iff, List.mem_append]
  constructor
  · rintro (hadded | hmem)
    · exact .inl hadded
    · exact .inr ⟨.inr hmem, fun hid => hdisjoint hid (List.mem_map_of_mem hmem)⟩
  · rintro (hadded | ⟨hmem, hid⟩)
    · exact .inl hadded
    · exact .inr (hmem.resolve_left fun hmem => hid (List.mem_map_of_mem hmem))

/-- Where no element is, the handles are cleared. -/
theorem Outcome.idle (hok : Ok lt s) (hout : Outcome lt s removed added t)
    (hidle : ∀ id, id ∉ s.heap.map Element.id → s.handles id = none)
    {kept : List (Element α)} (hkept : s.heap.Perm (removed ++ kept)) :
    ∀ id, id ∉ t.heap.map Element.id → t.handles id = none := by
  intro id hid
  by_cases hremoved : id ∈ removed.map Element.id
  · obtain ⟨e, he, rfl⟩ := List.mem_map.mp hremoved
    exact hout.cleared e he hid
  · have hstays : id ∉ (s.heap ++ added).map Element.id := by
      intro hmem
      obtain ⟨e, he, rfl⟩ := List.mem_map.mp hmem
      apply hid
      apply List.mem_map_of_mem
      rw [hout.mem_iff hok hkept]
      exact (List.mem_append.mp he).elim (fun h => .inr ⟨h, hremoved⟩) .inl
    rw [hout.frame id hstays]
    apply hidle
    intro hmem
    rw [List.map_append, List.mem_append, not_or] at hstays
    exact hstays.1 hmem

/-! ## The heap refines the map -/

namespace Agrees

/-- An element of the heap has its value in the map. -/
theorem live_of_mem (h : Agrees lt s live) (hr : r ∈ s.heap) : live r.id = some r.value :=
  (h.live_iff r.id r.value).mpr hr

theorem live_eq_none (h : Agrees lt s live) {id : Nat} (hid : id ∉ s.heap.map Element.id) :
    live id = none := by
  cases hlive : live id with
  | none => rfl
  | some v => exact absurd (List.mem_map_of_mem ((h.live_iff id v).mp hlive)) hid

/-- The handle of a live element leads to that element. -/
theorem elementAt_handle (h : Agrees lt s live) (hr : r ∈ s.heap) :
    s.elementAt (.handle r.id) = some r := by
  obtain ⟨i, hi⟩ := List.mem_iff_getElem?.mp hr
  rw [State.elementAt, State.toIndex, h.ok.tracked i r hi, Option.bind_some, hi]

/-- A position stands for the element that is there. -/
theorem target_eq (h : Agrees lt s live) (hat : s.elementAt pos = some r) :
    s.target pos = some r.id := by
  cases pos with
  | index pos =>
    have hr : s.heap[pos]? = some r := hat
    rw [State.target, hr, Option.map_some]
  | handle id =>
    by_cases hid : id ∈ s.heap.map Element.id
    · obtain ⟨e, he, rfl⟩ := List.mem_map.mp hid
      rw [h.elementAt_handle he] at hat
      obtain rfl := Option.some.inj hat
      rfl
    · rw [State.elementAt, State.toIndex, h.idle id hid] at hat
      cases hat

/-- The map without an element of the heap. -/
theorem forget_iff (h : Agrees lt s live) (id : Nat) (v : α) :
    forget live (some r.id) id = some v ↔
      ⟨id, v⟩ ∈ s.heap ∧ id ∉ [r].map Element.id := by
  rw [List.map_singleton, List.mem_singleton, ← h.live_iff, forget]
  by_cases hid : id = r.id
  · subst hid
    simp
  · rw [Function.update_of_ne hid]
    simp [hid]

end Agrees

/-- A map after a new element. -/
theorem update_eq_some_iff {m : Nat → Option α} {e : Element α} (hm : m e.id = none) (id : Nat)
    (v : α) :
    Function.update m e.id (some e.value) id = some v ↔ ⟨id, v⟩ ∈ [e] ∨ m id = some v := by
  obtain ⟨eid, value⟩ := e
  by_cases hid : id = eid
  · subst hid
    have hm' : m id = none := hm
    simp [hm', eq_comm]
  · simp [hid]

/-- The map after several new elements. -/
theorem insertAll_eq_some_iff (h : Agrees lt s live) {elements : List (Element α)}
    (hnodup : (elements.map Element.id).Nodup)
    (hfresh : ∀ e ∈ elements, e.id ∉ s.heap.map Element.id) (id : Nat) (v : α) :
    insertAll live (elements.map fun e => (e.id, e.value)) id = some v ↔
      ⟨id, v⟩ ∈ elements ∨ live id = some v := by
  have hkeys : (elements.map fun e => (e.id, e.value)).map Prod.fst = elements.map Element.id := by
    rw [List.map_map]
    rfl
  have hmem : (id, v) ∈ (elements.map fun e => (e.id, e.value)) ↔ ⟨id, v⟩ ∈ elements := by
    rw [List.mem_map]
    constructor
    · rintro ⟨e, he, heq⟩
      cases heq
      exact he
    · exact fun he => ⟨_, he, rfl⟩
  rw [insertAll_apply, Option.or_eq_some_iff, lastValue_eq_none, hkeys, ← hmem]
  constructor
  · rintro (hlast | ⟨-, hlive⟩)
    · exact .inl (mem_of_lastValue hlast)
    · exact .inr hlive
  · rintro (hnew | hlive)
    · exact .inl (lastValue_of_nodup (hkeys ▸ hnodup) hnew)
    · refine .inr ⟨fun hid => ?_, hlive⟩
      obtain ⟨e, he, rfl⟩ := List.mem_map.mp hid
      exact hfresh e he (List.mem_map.mpr ⟨_, (h.live_iff e.id v).mp hlive, rfl⟩)

namespace Agrees

/-- The map after an element is exchanged. -/
theorem exchange_iff (h : Agrees lt s live) {e : Element α} (he : e.id ∉ s.heap.map Element.id)
    (id : Nat) (v : α) :
    Function.update (forget live (some r.id)) e.id (some e.value) id = some v ↔
      ⟨id, v⟩ ∈ [e] ∨ ⟨id, v⟩ ∈ s.heap ∧ id ∉ [r].map Element.id := by
  rw [update_eq_some_iff, h.forget_iff]
  cases hlive : forget live (some r.id) e.id with
  | none => rfl
  | some w => exact absurd (List.mem_map_of_mem ((h.forget_iff e.id w).mp hlive).1) he

/-- The map after the value of an element is changed. -/
theorem modify_iff (h : Agrees lt s live) (hr : r ∈ s.heap) (unaryOp : α → α) (id : Nat) (v : α) :
    (if some r.id = some id then (live id).map unaryOp else live id) = some v ↔
      ⟨id, v⟩ ∈ [{ r with value := unaryOp r.value }] ∨
        ⟨id, v⟩ ∈ s.heap ∧ id ∉ [r].map Element.id := by
  rw [← h.live_iff]
  by_cases hid : id = r.id
  · subst hid
    simp [h.live_of_mem hr, eq_comm]
  · simp [hid, Ne.symm hid]

/-- The map without the elements that a predicate holds of. -/
theorem filter_iff (h : Agrees lt s live) (predicate : Element α → Bool) (id : Nat) (v : α) :
    (live id).filter (fun v => !predicate ⟨id, v⟩) = some v ↔
      ⟨id, v⟩ ∈ s.heap ∧ id ∉ (s.heap.filter predicate).map Element.id := by
  rw [Option.filter_eq_some_iff, h.live_iff]
  refine and_congr_right fun hmem => ?_
  constructor
  · intro hkept hid
    obtain ⟨e, he, heq⟩ := List.mem_map.mp hid
    obtain ⟨hheap, hpredicate⟩ := List.mem_filter.mp he
    have hvalue := h.live_of_mem hheap
    have hlive := h.live_of_mem hmem
    rw [heq, hlive] at hvalue
    obtain ⟨eid, value⟩ := e
    cases heq
    cases hvalue
    rw [hpredicate] at hkept
    cases hkept
  · intro hid
    rw [Bool.not_eq_true', Bool.eq_false_iff]
    exact fun hpredicate => hid (List.mem_map_of_mem (List.mem_filter.mpr ⟨hmem, hpredicate⟩))

end Agrees

/-- The record of an operation has the elements added, and those of before that are not removed. -/
theorem Agrees.record_iff (h : Agrees lt s live) (hvalid : op.Valid lt s) (id : Nat) (v : α) :
    op.record s live id = some v ↔
      ⟨id, v⟩ ∈ op.added s ∨ ⟨id, v⟩ ∈ s.heap ∧ id ∉ (op.removed s).map Element.id := by
  have hkeep : live id = some v ↔
      ⟨id, v⟩ ∈ s.heap ∧ id ∉ ([] : List (Element α)).map Element.id := by
    rw [h.live_iff]
    exact (and_iff_left List.not_mem_nil).symm
  cases op with
  | insert e | emplace e =>
    have hnew := h.live_eq_none (hvalid.fresh e List.mem_cons_self)
    exact (update_eq_some_iff hnew id v).trans (or_congr_right hkeep)
  | insertRange elements =>
    exact (insertAll_eq_some_iff h hvalid.distinct hvalid.fresh id v).trans (or_congr_right hkeep)
  | take pos | erase pos =>
    obtain ⟨i, r, hi, hr, hat⟩ := exists_of_elementAt hvalid.position
    rw [Op.record, Op.removed, h.target_eq hat, hat, h.forget_iff]
    exact (or_iff_right List.not_mem_nil).symm
  | takeTop | pop =>
    obtain ⟨r, hr, hhead⟩ := exists_top hvalid.position
    have hat : s.elementAt (.index 0) = some r := hr
    rw [Op.record, Op.removed, h.target_eq hat, hhead, h.forget_iff]
    exact (or_iff_right List.not_mem_nil).symm
  | replace pos e =>
    obtain ⟨i, r, hi, hr, hat⟩ := exists_of_elementAt hvalid.position
    rw [Op.record, Op.removed, h.target_eq hat, hat]
    exact h.exchange_iff (hvalid.fresh e List.mem_cons_self) id v
  | replaceTop e =>
    obtain ⟨r, hr, hhead⟩ := exists_top hvalid.position
    have hat : s.elementAt (.index 0) = some r := hr
    rw [Op.record, Op.removed, h.target_eq hat, hhead]
    exact h.exchange_iff (hvalid.fresh e List.mem_cons_self) id v
  | update pos => exact hkeep.trans (or_iff_right List.not_mem_nil).symm
  | modify pos unaryOp =>
    obtain ⟨i, r, hi, hr, hat⟩ := exists_of_elementAt hvalid.position
    rw [Op.record, Op.removed, Op.added, h.target_eq hat, hat]
    exact h.modify_iff (List.mem_of_getElem? hr) unaryOp id v
  | eraseIf predicate order =>
    exact (h.filter_iff predicate id v).trans (or_iff_right List.not_mem_nil).symm
  | clear =>
    refine iff_of_false (Option.some_ne_none v).symm ?_
    rintro (hadded | ⟨hmem, hid⟩)
    · cases hadded
    · exact hid (List.mem_map_of_mem hmem)

/-! ## Runs -/

theorem agrees_empty (lt : α → α → Bool) : Agrees lt ({} : State α) fun _ => none where
  ok := ok_nil lt _
  live_iff := fun _ _ => iff_of_false nofun List.not_mem_nil
  idle := fun _ _ => rfl

section

variable [IsStrictWeakOrder α fun a b => lt a b = true]

/-- An operation keeps the agreement with the map. -/
theorem Agrees.step (movedFrom : Element α → Element α) (h : Agrees lt s live)
    (hvalid : op.Valid lt s) :
    ∃ t, s.apply lt movedFrom op = some t ∧ Agrees lt t (op.record s live) := by
  obtain ⟨t, ht, hout⟩ := apply_spec movedFrom h.ok hvalid
  obtain ⟨kept, hkept⟩ := op.exists_kept s
  refine ⟨t, ht, hout.ok, fun id v => ?_, hout.idle h.ok h.idle hkept⟩
  rw [h.record_iff hvalid, hout.mem_iff h.ok hkept]

/-- What is left after an element is removed: the other elements, at their handles. -/
structure Removed (s : State α) (r : Element α) (t : State α) : Prop where
  perm : (r :: t.heap).Perm s.heap
  cleared : t.handles r.id = none
  others : ∀ x ∈ s.heap, x.id ≠ r.id → t.elementAt (.handle x.id) = some x

omit [IsStrictWeakOrder α fun a b => lt a b = true] in
theorem Outcome.isRemoved (hok : Ok lt s) (hout : Outcome lt s [r] [] t) : Removed s r t := by
  have hperm := hout.cons_perm
  have hnodup := (hperm.map Element.id).nodup_iff.mpr hok.nodup
  rw [List.map_cons, List.nodup_cons] at hnodup
  refine ⟨hperm, hout.cleared r List.mem_cons_self hnodup.1, fun x hx hne => ?_⟩
  have hmem : x ∈ t.heap := by
    refine (List.mem_cons.mp (hperm.mem_iff.mpr hx)).resolve_left ?_
    rintro rfl
    exact hne rfl
  obtain ⟨i, hi⟩ := List.mem_iff_getElem?.mp hmem
  rw [State.elementAt, State.toIndex, hout.ok.tracked i x hi, Option.bind_some, hi]

/-- Popping until the heap is empty yields the elements in descending order. -/
theorem popAll_spec (movedFrom : Element α → Element α) {n : Nat} (h : Ok lt s)
    (hn : s.heap.length ≤ n) :
    ∃ out t, s.popAll lt movedFrom n = some (out, t) ∧ t.heap = [] ∧ out.Perm s.heap ∧
      out.Pairwise fun a b => lt a.value b.value = false := by
  induction n generalizing s with
  | zero =>
    have hnil := List.length_eq_zero_iff.mp (Nat.le_zero.mp hn)
    exact ⟨[], s, rfl, hnil, hnil ▸ List.Perm.refl _, List.Pairwise.nil⟩
  | succ n ih =>
    rw [State.popAll]
    cases hheap : s.heap with
    | nil => exact ⟨[], s, rfl, hheap, List.Perm.refl _, List.Pairwise.nil⟩
    | cons top rest =>
      have htop : s.heap[0]? = some top := by
        rw [hheap]
        rfl
      obtain ⟨u, hu, hout⟩ := erase_spec movedFrom (h.okBut 0) htop
      have hperm := hout.cons_perm
      have hlen := hperm.length_eq
      rw [List.length_cons] at hlen
      obtain ⟨out, t, hpop, hempty, hall, hsorted⟩ := ih hout.ok (by omega)
      refine ⟨top :: out, t, ?_, hempty, hheap ▸ (hall.cons top).trans hperm,
        List.pairwise_cons.mpr ⟨fun x hx => ?_, hsorted⟩⟩
      · simp only [hu, hpop, Option.bind_some, Option.map_some]
      · have hmem := hperm.mem_iff.mp (List.mem_cons_of_mem top (hall.mem_iff.mp hx))
        obtain ⟨i, hi⟩ := List.mem_iff_getElem?.mp hmem
        exact Bool.eq_false_iff.mpr (h.isHeap.top htop hi)

end

/-- On every run the handle of an element that is in the heap leads to it, and all other handles are
cleared; `erase` and `take` with the handle of an element remove that element and nothing else; and
popping yields all elements, none greater than an earlier one. -/
theorem run_handles [IsStrictWeakOrder α fun a b => lt a b = true]
    (movedFrom : Element α → Element α) {ops : List (Op α)}
    (hvalid : StepsMeet (Recorded.step lt movedFrom) (fun p op => op.Valid lt p.state) {} ops) :
    ∃ p, exec (Recorded.step lt movedFrom) {} ops = some p ∧
      (∀ id v, p.live id = some v → p.state.elementAt (.handle id) = some ⟨id, v⟩) ∧
      (∀ id, p.live id = none → p.state.handles id = none) ∧
      (∀ id v, p.live id = some v →
        (∃ t, p.state.apply lt movedFrom (.erase (.handle id)) = some t ∧
          Removed p.state ⟨id, v⟩ t) ∧
        ∃ t, ((p.state.toIndex (.handle id)).bind (p.state.take lt movedFrom)) =
            some (⟨id, v⟩, t) ∧ Removed p.state ⟨id, v⟩ t) ∧
      ∃ out t, p.state.popAll lt movedFrom p.state.heap.length = some (out, t) ∧ t.heap = [] ∧
        out.Perm p.state.heap ∧ out.Pairwise fun a b => lt a.value b.value = false := by
  obtain ⟨⟨s, live⟩, hrun, hs⟩ := exec_total (I := fun p => Agrees lt p.state p.live)
    (fun p op hp hop => by
      obtain ⟨t, ht, hagrees⟩ := hp.step movedFrom hop
      exact ⟨_, by rw [Recorded.step, ht, Option.map_some], hagrees⟩) (agrees_empty lt) hvalid
  refine ⟨⟨s, live⟩, hrun, fun id v hlive => ?_, fun id hlive => ?_, fun id v hlive => ?_,
    popAll_spec movedFrom hs.ok (Nat.le_refl _)⟩
  · exact hs.elementAt_handle ((hs.live_iff id v).mp hlive)
  · apply hs.idle
    intro hid
    obtain ⟨e, he, rfl⟩ := List.mem_map.mp hid
    rw [hs.live_of_mem he] at hlive
    cases hlive
  · have hmem := (hs.live_iff id v).mp hlive
    obtain ⟨i, hi⟩ := List.mem_iff_getElem?.mp hmem
    have hindex : s.toIndex (.handle id) = some i := hs.ok.tracked i _ hi
    obtain ⟨t, ht, hout⟩ := erase_spec movedFrom (hs.ok.okBut i) hi
    obtain ⟨u, hu, hout'⟩ := take_spec movedFrom (hs.ok.okBut i) hi
    refine ⟨⟨t, ?_, hout.isRemoved hs.ok⟩, u, ?_, hout'.isRemoved hs.ok⟩
    · rw [State.apply, hindex, Option.bind_some, ht]
    · rw [hindex, Option.bind_some, hu]

/-- Five elements come, two of them are removed by their handles, one is modified and one is
replaced. -/
def handled : List (Op Nat) :=
  List.flatten [[.insertRange [⟨0, 51⟩, ⟨1, 93⟩, ⟨2, 12⟩, ⟨3, 95⟩], .emplace ⟨4, 70⟩],
    [.take (.handle 1), .modify (.handle 2) fun v => v + 90, .replace (.handle 4) ⟨5, 60⟩],
    [.erase (.handle 3), .insert ⟨1, 33⟩]]

theorem run_handles_handled :
    ∃ p, exec (Recorded.step Heaps.tensLess id) {} handled = some p ∧
      p.state.elementAt (.handle 2) = some ⟨2, 102⟩ ∧ p.state.handles 4 = none ∧
      ∃ out t, p.state.popAll Heaps.tensLess id p.state.heap.length = some (out, t) ∧
        t.heap = [] ∧ out.Perm p.state.heap := by
  have hvalid : StepsMeet (Recorded.step Heaps.tensLess id)
      (fun p op => op.Valid Heaps.tensLess p.state) {} handled := by
    decide +kernel
  have hlive : (exec (Recorded.step Heaps.tensLess id) {} handled).map
      (fun p => (p.live 2, p.live 4)) = some (some 102, none) := by
    decide +kernel
  obtain ⟨p, hrun, hat, hcleared, -, out, t, hpop, hempty, hperm, -⟩ := run_handles id hvalid
  rw [hrun, Option.map_some, Option.some.injEq, Prod.mk.injEq] at hlive
  exact ⟨p, hrun, hat 2 102 hlive.1, hcleared 4 hlive.2, out, t, hpop, hempty, hperm⟩

end Sparo.Base.IntrusiveHeap
