import Sparo.Base.Task.Proofs.DequeRuns

/-!
# `SetCapacity` on a deque

`SetCapacity` moves the elements into one ring of the capacity asked for. A ring keeps one slot
free, so a ring of capacity 1 takes no element: pushed to, it stays in the chain as an empty ring,
and `front`, `back` and the iterator read its one slot, which holds no object. With any larger
capacity than the size, the deque goes on as the list it held.
-/

namespace Sparo.Base.LazilyDeallocatedDeque

variable {α : Type} {d : LazilyDeallocatedDeque α} {xs : List α}

/-- What the observers report is read off the live slots. -/
structure Reports (d : LazilyDeallocatedDeque α) : Prop where
  front_eq : ∀ x, d.toList.head? = some x → d.front = some x
  back_eq : ∀ x, d.toList.getLast? = some x → d.back = some x
  size_eq : d.size = d.toList.length
  empty_iff : d.empty = true ↔ d.toList = []
  visit_eq : d.begin.visit d.size = some d.toList

theorem Holds.reports (h : d.Holds xs) : d.Reports := by
  have hlist := h.toList_eq
  subst hlist
  refine ⟨?_, ?_, h.size_eq, h.empty_iff, h.visit_begin⟩
  · intro x hx
    obtain ⟨ys, hys⟩ := List.head?_eq_some_iff.mp hx
    rw [hys] at h
    exact h.front_eq
  · intro x hx
    obtain ⟨ys, hys⟩ := List.getLast?_eq_some_iff.mp hx
    rw [hys] at h
    exact h.back_eq_last

/-- After `SetCapacity(newCapacity)` the elements are the same, and every later program on the deque
is the same program on a plain list of them, in every state of which the observers report the
list. -/
def Transparent (d : LazilyDeallocatedDeque α) (newCapacity : Nat) : Prop :=
  (d.setCapacity newCapacity).toList = d.toList ∧
    ∀ later : List (DequeOp α),
      (StepSystem.exec dequeStep [d.setCapacity newCapacity] later).map (List.map toList) =
        StepSystem.exec listStep [d.toList] later ∧
      ∀ ds, StepSystem.exec dequeStep [d.setCapacity newCapacity] later = some ds →
        ∀ d' ∈ ds, d'.Reports

theorem Holds.transparent (h : d.Holds xs) {newCapacity : Nat} (hsize : d.size < newCapacity)
    (hcap : 2 ≤ newCapacity) : d.Transparent newCapacity := by
  have hset := h.setCapacity newCapacity (h.size_eq ▸ hsize) hcap
  have hlist := h.toList_eq
  subst hlist
  refine ⟨hset.toList_eq, fun later => ?_⟩
  have hrel : Option.Rel (List.Forall₂ Holds)
      (StepSystem.exec dequeStep [d.setCapacity newCapacity] later)
      (StepSystem.exec (@listStep α) [d.toList] later) :=
    StepSystem.exec_rel (fun ds ls op h => rel_dequeStep op h) (.cons hset .nil) later
  refine ⟨StepSystem.map_eq_of_rel (fun ds ls h =>
    Objects.map_eq_of_forall₂ (fun d l hd => hd.toList_eq) h) hrel, ?_⟩
  intro ds hds d' hd'
  obtain ⟨ls, -, hall⟩ := StepSystem.exists_rel_of_eq_some hrel hds
  obtain ⟨l, -, hl⟩ := Objects.exists_rel_of_mem hall hd'
  exact hl.reports

/-- An element pushed behind a ring of capacity 1 is not found at the front. -/
theorem Holds.not_transparent_one (h : d.Holds xs) (hsize : d.size < 1) (t : α) :
    ¬d.Transparent 1 := by
  intro htransparent
  obtain ⟨hlist, hlater⟩ := htransparent
  have hzero : d.size = 0 := Nat.lt_one_iff.mp hsize
  have hnil : d.toList = [] := by
    rw [h.toList_eq]
    exact List.length_eq_zero_iff.mp (h.size_eq.symm.trans hzero)
  obtain ⟨hrun, hreports⟩ := hlater [.pushBack 0 t]
  have hpush : StepSystem.exec dequeStep [d.setCapacity 1] [.pushBack 0 t] =
      some [(d.setCapacity 1).pushBack t] := rfl
  have hrings : ((d.setCapacity 1).pushBack t).rings =
      [Ring.new 1, (Ring.new 3).pushBack t] := by
    simp [LazilyDeallocatedDeque.setCapacity, LazilyDeallocatedDeque.moveAll, hzero,
      LazilyDeallocatedDeque.pushBack, ensureHead, pushBackRings, Ring.canPush,
      Ring.circularIncrement, Ring.new, Ring.capacity]
  rw [hpush, hnil] at hrun
  have hone : ((d.setCapacity 1).pushBack t).toList = [t] := by
    simpa [StepSystem.exec, listStep, Objects.updateAt] using hrun
  have hfront := (hreports _ hpush _ (List.mem_singleton_self _)).front_eq t (by rw [hone]; rfl)
  rw [LazilyDeallocatedDeque.front, hrings] at hfront
  cases hfront

/-- A program may also call `SetCapacity` on one of its deques. -/
inductive CapacityOp (α : Type) where
  | op (op : DequeOp α)
  | setCapacity (i newCapacity : Nat)
  deriving DecidableEq, Repr

/-- `SetCapacity` is called with more than the size. -/
def capacityStep (ds : List (LazilyDeallocatedDeque α)) :
    CapacityOp α → Option (List (LazilyDeallocatedDeque α))
  | .op op => dequeStep ds op
  | .setCapacity i newCapacity => Objects.updateAt i
      (fun d => if newCapacity ≤ d.size then none else some (d.setCapacity newCapacity)) ds

/-- On lists `SetCapacity` does nothing. -/
def listCapacityStep (ls : List (List α)) : CapacityOp α → Option (List (List α))
  | .op op => listStep ls op
  | .setCapacity i newCapacity =>
    Objects.updateAt i (fun l => if newCapacity ≤ l.length then none else some l) ls

/-- The ring that `SetCapacity` makes has room for an element. -/
def AsksForRoom (ds : List (LazilyDeallocatedDeque α)) : CapacityOp α → Prop
  | .op _ => True
  | .setCapacity i newCapacity => ∀ d ∈ ds[i]?, d.size < newCapacity → 2 ≤ newCapacity

instance (ds : List (LazilyDeallocatedDeque α)) : DecidablePred (AsksForRoom ds)
  | .op _ => isTrue trivial
  | .setCapacity _ _ => inferInstanceAs (Decidable (∀ d ∈ _, _))

/-- A call of `SetCapacity` is transparent. -/
def CallTransparent (ds : List (LazilyDeallocatedDeque α)) : CapacityOp α → Prop
  | .op _ => True
  | .setCapacity i newCapacity => ∀ d ∈ ds[i]?, d.size < newCapacity → d.Transparent newCapacity

/-- Every deque holds some list. -/
def AllHold (ds : List (LazilyDeallocatedDeque α)) : Prop := ∃ ls, List.Forall₂ Holds ds ls

theorem rel_capacityStep {ds : List (LazilyDeallocatedDeque α)} {ls : List (List α)}
    {op : CapacityOp α} (hop : AsksForRoom ds op) (h : List.Forall₂ Holds ds ls) :
    Option.Rel (List.Forall₂ Holds) (capacityStep ds op) (listCapacityStep ls op) := by
  cases op with
  | op op => exact rel_dequeStep op h
  | setCapacity i newCapacity =>
    refine Objects.rel_updateAt_of_getElem? h i fun d l hi hd => ?_
    rw [hd.size_eq]
    by_cases hle : newCapacity ≤ l.length
    · rw [if_pos hle, if_pos hle]
      exact .none
    · have hlt := Nat.lt_of_not_le hle
      rw [if_neg hle, if_neg hle]
      exact .some (hd.setCapacity newCapacity hlt (hop d hi (hd.size_eq ▸ hlt)))

theorem AllHold.step {ds ds' : List (LazilyDeallocatedDeque α)} {op : CapacityOp α}
    (h : AllHold ds) (hop : AsksForRoom ds op) (hstep : capacityStep ds op = some ds') :
    AllHold ds' := by
  obtain ⟨ls, h⟩ := h
  obtain ⟨ls', -, h'⟩ := StepSystem.exists_rel_of_eq_some (rel_capacityStep hop h) hstep
  exact ⟨ls', h'⟩

/-- On deques that hold lists a call is transparent exactly if it asks for at least two slots. -/
theorem AllHold.callTransparent_iff [Inhabited α] {ds : List (LazilyDeallocatedDeque α)}
    (h : AllHold ds) (op : CapacityOp α) : CallTransparent ds op ↔ AsksForRoom ds op := by
  cases op with
  | op op => exact Iff.rfl
  | setCapacity i newCapacity =>
    refine forall_congr' fun d => forall_congr' fun hd => forall_congr' fun hsize => ?_
    obtain ⟨ls, hall⟩ := h
    obtain ⟨l, -, hl⟩ := Objects.exists_rel_of_mem hall (List.mem_of_getElem? hd)
    refine ⟨fun htransparent => ?_, hl.transparent hsize⟩
    by_contra hcap
    obtain rfl : newCapacity = 1 := by omega
    exact hl.not_transparent_one hsize default htransparent

theorem allHold_nil : AllHold ([] : List (LazilyDeallocatedDeque α)) := ⟨[], .nil⟩

/-- Along any program every call of `SetCapacity` with more than the size of its deque is
transparent exactly if all of them ask for at least two slots; and then the deques are lists from
the first operation to the last, these calls do nothing, and the observers report the lists. -/
theorem setCapacity_transparent_iff [Inhabited α] (ops : List (CapacityOp α)) :
    (StepSystem.StepsMeet capacityStep AsksForRoom [] ops ↔
      StepSystem.StepsMeet capacityStep CallTransparent [] ops) ∧
    (StepSystem.StepsMeet capacityStep AsksForRoom [] ops →
      (StepSystem.exec capacityStep [] ops).map (List.map toList) =
        StepSystem.exec listCapacityStep [] ops ∧
      ∀ ds, StepSystem.exec capacityStep [] ops = some ds → ∀ d ∈ ds, d.Reports) := by
  constructor
  · exact StepSystem.stepsMeet_iff_of_invariant (fun _ _ _ h hop hstep => h.step hop hstep)
      (fun _ op h => h.callTransparent_iff op) allHold_nil
  · intro hops
    have hrel : Option.Rel (List.Forall₂ Holds) (StepSystem.exec capacityStep [] ops)
        (StepSystem.exec (@listCapacityStep α) [] ops) := by
      refine StepSystem.exec_rel_of_meets ?_ .nil hops
      intro ds ls op hop h
      exact rel_capacityStep hop h
    refine ⟨StepSystem.map_eq_of_rel (fun ds ls h =>
      Objects.map_eq_of_forall₂ (fun d l hd => hd.toList_eq) h) hrel, ?_⟩
    intro ds hds d hd
    obtain ⟨ls, -, hall⟩ := StepSystem.exists_rel_of_eq_some hrel hds
    obtain ⟨l, -, hl⟩ := Objects.exists_rel_of_mem hall hd
    exact hl.reports

/-- Two elements in three slots, and a third one pushed behind them. -/
theorem setCapacity_transparent_iff_tight :
    (StepSystem.exec capacityStep [] [.op .construct, .op (.pushBack 0 1), .op (.pushBack 0 2),
      .setCapacity 0 3, .op (.pushBack 0 3)]).map (List.map toList) = some [[1, 2, 3]] :=
  ((setCapacity_transparent_iff [.op .construct, .op (.pushBack 0 1), .op (.pushBack 0 2),
    .setCapacity 0 3, .op (.pushBack 0 3)]).2 (by decide)).1

/-- `SetCapacity(1)` on an empty deque, then `push_back(7)`: the deque has size 1, and `front()`
reads a slot without an object. -/
theorem setCapacity_one_loses_front :
    ∃ ds d, StepSystem.exec capacityStep [] [.op .construct] = some ds ∧ d ∈ ds ∧ d.size < 1 ∧
      ((d.setCapacity 1).pushBack 7).toList = [7] ∧
      ((d.setCapacity 1).pushBack 7).front = none ∧ ¬d.Transparent 1 := by
  refine ⟨_, {}, rfl, List.mem_singleton_self _, by decide, by decide, by decide, ?_⟩
  exact holds_default.not_transparent_one (by decide) 7

end Sparo.Base.LazilyDeallocatedDeque
