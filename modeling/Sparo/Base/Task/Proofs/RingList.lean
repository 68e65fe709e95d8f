import Sparo.Base.Task.LazilyDeallocatedDeque
import Sparo.Misc.CircularView

/-!
# A ring holds a list

`Ring.Holds r xs`: the live slots of `r` are exactly the elements of `xs`, in order, and at
least one slot is free. `CanPush` is then the test for a second free slot, and every
operation of the ring is the corresponding operation on `xs`.
-/

namespace Sparo.Base.Ring

variable {α : Type} {r : Ring α} {x t : α} {xs : List α}

/-- The ring `r` holds the elements `xs`, the first one in the slot after `front_index_` and
the last one in the slot `back_index_`. -/
structure Holds (r : Ring α) (xs : List α) : Prop where
  front_lt : r.frontIndex < r.capacity
  length_lt : xs.length < r.capacity
  back_eq : r.backIndex = (r.frontIndex + xs.length) % r.capacity
  slot_eq : ∀ i x, xs[i]? = some x → r.slot ((r.frontIndex + 1 + i) % r.capacity) = some x

theorem circularIncrement_eq_mod {index : Nat} (h : index < r.capacity) :
    r.circularIncrement index = (index + 1) % r.capacity := by
  rw [CircularIndex.succ_mod h, circularIncrement]

theorem circularDecrement_eq_mod {index : Nat} (h : index < r.capacity) :
    r.circularDecrement index = (index + r.capacity - 1) % r.capacity := by
  rw [CircularIndex.pred_mod h, circularDecrement]

theorem slot_set (r : Ring α) (f b index i : Nat) (o : Option α) :
    slot ⟨f, b, r.data.set index o⟩ i =
      if index = i ∧ index < r.capacity then o else r.slot i := by
  simp only [slot, capacity, List.getElem?_set]
  by_cases hi : index = i
  · subst hi
    by_cases hlt : index < r.data.length
    · simp [hlt]
    · simp [hlt]
  · simp [hi]

namespace Holds

variable (h : r.Holds xs)
include h

theorem capacity_pos : 0 < r.capacity := Nat.lt_of_le_of_lt (Nat.zero_le _) h.front_lt

theorem back_lt : r.backIndex < r.capacity := by
  rw [h.back_eq]
  exact Nat.mod_lt _ h.capacity_pos

theorem count_eq : r.count = xs.length := by
  rw [count, h.back_eq]
  exact CircularIndex.dist_mod h.front_lt h.length_lt

/-- `toList` reads back the elements the ring holds. -/
theorem toList_eq : r.toList = xs := by
  rw [toList, h.count_eq]
  have hslots : ∀ i ∈ List.range xs.length,
      r.slot ((r.frontIndex + 1 + i) % r.capacity) = xs[i]? := by
    intro i hi
    have hx := List.getElem?_eq_getElem (List.mem_range.1 hi)
    rw [hx]
    exact h.slot_eq i _ hx
  rw [List.filterMap_congr hslots, CircularView.filterMap_range_getElem?]

theorem empty_iff : r.empty = true ↔ xs = [] := by
  rw [empty, beq_iff_eq, h.back_eq]
  constructor
  · intro heq
    by_contra hne
    have hpos : 0 < xs.length := List.length_pos_iff.2 hne
    have := CircularIndex.mod_ne_mod (c := r.capacity) (a := r.frontIndex)
      (b := r.frontIndex + xs.length) (by omega) (by have := h.length_lt; omega)
    rw [Nat.mod_eq_of_lt h.front_lt] at this
    exact this heq.symm
  · rintro rfl
    exact Nat.mod_eq_of_lt h.front_lt

/-- `CanPush` holds exactly while two slots are free. -/
theorem canPush_iff : r.canPush = true ↔ xs.length + 1 < r.capacity := by
  have hnext : r.circularIncrement r.backIndex = (r.frontIndex + (xs.length + 1)) % r.capacity := by
    rw [circularIncrement_eq_mod h.back_lt, h.back_eq, Nat.mod_add_mod, Nat.add_assoc]
  rw [canPush, bne_iff_ne, hnext]
  constructor
  · intro hne
    by_contra hge
    have hfull : xs.length + 1 = r.capacity := by have := h.length_lt; omega
    rw [hfull, Nat.add_mod_right, Nat.mod_eq_of_lt h.front_lt] at hne
    exact hne rfl
  · intro hlt
    have := CircularIndex.mod_ne_mod (c := r.capacity) (a := r.frontIndex)
      (b := r.frontIndex + (xs.length + 1)) (by omega) (by omega)
    rwa [Nat.mod_eq_of_lt h.front_lt] at this

/-- `push_back` appends; the slot it writes is none of the live ones. -/
theorem pushBack (hroom : xs.length + 1 < r.capacity) (t : α) :
    (r.pushBack t).Holds (xs ++ [t]) := by
  have hnext : r.circularIncrement r.backIndex = (r.frontIndex + 1 + xs.length) % r.capacity := by
    rw [circularIncrement_eq_mod h.back_lt, h.back_eq, Nat.mod_add_mod, Nat.add_right_comm]
  have hcap : (r.pushBack t).capacity = r.capacity := by simp [Ring.pushBack, capacity]
  have hlt : (r.frontIndex + 1 + xs.length) % r.capacity < r.capacity :=
    Nat.mod_lt _ h.capacity_pos
  refine ⟨?_, ?_, ?_, ?_⟩
  · rw [hcap]; exact h.front_lt
  · rw [hcap]; simpa using hroom
  · rw [hcap]
    simp only [Ring.pushBack, hnext, List.length_append, List.length_singleton]
    congr 1
    omega
  · intro i x hx
    rw [hcap, Ring.pushBack, slot_set, hnext]
    rcases List.getElem?_eq_some_iff.1 hx with ⟨hi, -⟩
    rw [List.length_append, List.length_singleton] at hi
    by_cases hlast : i = xs.length
    · subst hlast
      have hxt : t = x := by simpa using hx
      rw [if_pos ⟨rfl, hlt⟩, hxt]
    · have hne := CircularIndex.mod_ne_mod (c := r.capacity) (a := r.frontIndex + 1 + i)
        (b := r.frontIndex + 1 + xs.length) (by omega) (by omega)
      rw [if_neg (fun hc => hne hc.1.symm)]
      apply h.slot_eq
      rwa [List.getElem?_append_left (by omega)] at hx

/-- `push_front` prepends; the slot `front_index_` it writes is the free one. -/
theorem pushFront (hroom : xs.length + 1 < r.capacity) (t : α) :
    (r.pushFront t).Holds (t :: xs) := by
  have hcap : (r.pushFront t).capacity = r.capacity := by simp [Ring.pushFront, capacity]
  have hprev : (r.pushFront t).frontIndex = (r.frontIndex + r.capacity - 1) % r.capacity := by
    simp only [Ring.pushFront]
    exact circularDecrement_eq_mod h.front_lt
  have hpos := h.capacity_pos
  have hstep : ∀ k, ((r.pushFront t).frontIndex + 1 + k) % r.capacity =
      (r.frontIndex + k) % r.capacity := by
    intro k
    rw [hprev, Nat.add_assoc, Nat.mod_add_mod,
      show r.frontIndex + r.capacity - 1 + (1 + k) = r.frontIndex + k + r.capacity by omega,
      Nat.add_mod_right]
  refine ⟨?_, ?_, ?_, ?_⟩
  · rw [hcap, hprev]
    exact Nat.mod_lt _ hpos
  · rw [hcap]; simpa using hroom
  · rw [hcap, List.length_cons, Nat.add_comm xs.length 1, ← Nat.add_assoc, hstep]
    exact h.back_eq
  · intro i x hx
    rw [hcap, hstep, Ring.pushFront, slot_set]
    cases i with
    | zero =>
      have hxt : t = x := by simpa using hx
      rw [if_pos ⟨(Nat.mod_eq_of_lt h.front_lt).symm, h.front_lt⟩, hxt]
    | succ i =>
      have hi : i < xs.length := by
        rw [List.getElem?_cons_succ] at hx
        exact (List.getElem?_eq_some_iff.1 hx).1
      have hne := CircularIndex.mod_ne_mod (c := r.capacity) (a := r.frontIndex)
        (b := r.frontIndex + (i + 1)) (by omega) (by omega)
      rw [Nat.mod_eq_of_lt h.front_lt] at hne
      rw [if_neg (fun hc => hne hc.1), Nat.add_comm i 1, ← Nat.add_assoc]
      exact h.slot_eq i x (by simpa using hx)

end Holds

/-- The front slot holds the first element. -/
theorem Holds.front_eq (h : r.Holds (x :: xs)) : r.front = some x := by
  rw [front, circularIncrement_eq_mod h.front_lt]
  exact h.slot_eq 0 x rfl

/-- The back slot holds the last element. -/
theorem Holds.back_eq_last (h : r.Holds (xs ++ [t])) : r.back = some t := by
  rw [back, h.back_eq, List.length_append, List.length_singleton, Nat.add_comm xs.length 1,
    ← Nat.add_assoc]
  exact h.slot_eq xs.length t (by simp)

/-- `pop_front` drops the first element; the slot it destroys is no longer live. -/
theorem Holds.popFront (h : r.Holds (x :: xs)) : r.popFront.Holds xs := by
  have hcap : r.popFront.capacity = r.capacity := by simp [Ring.popFront, capacity]
  have hlen := h.length_lt
  rw [List.length_cons] at hlen
  have hnext : r.popFront.frontIndex = (r.frontIndex + 1) % r.capacity := by
    simp only [Ring.popFront]
    exact circularIncrement_eq_mod h.front_lt
  have hstep : ∀ k, (r.popFront.frontIndex + k) % r.capacity =
      (r.frontIndex + 1 + k) % r.capacity := by
    intro k
    rw [hnext, Nat.mod_add_mod]
  refine ⟨?_, ?_, ?_, ?_⟩
  · rw [hcap, hnext]
    exact Nat.mod_lt _ h.capacity_pos
  · rw [hcap]; omega
  · rw [hcap, hstep, Nat.add_assoc, Nat.add_comm 1 xs.length]
    exact h.back_eq
  · intro i y hy
    have hi : i < xs.length := (List.getElem?_eq_some_iff.1 hy).1
    rw [hcap, Nat.add_assoc, hstep, Ring.popFront, slot_set,
      circularIncrement_eq_mod h.front_lt]
    have hne := CircularIndex.mod_ne_mod (c := r.capacity) (a := r.frontIndex + 1)
      (b := r.frontIndex + 1 + (1 + i)) (by omega) (by omega)
    rw [if_neg (fun hc => hne hc.1), Nat.add_comm 1 i]
    exact h.slot_eq (i + 1) y (by simpa using hy)

theorem holds_new {capacity : Nat} (hpos : 0 < capacity) : (new capacity : Ring α).Holds [] := by
  refine ⟨?_, ?_, ?_, ?_⟩
  · simpa [new, Ring.capacity] using hpos
  · simpa [new, Ring.capacity] using hpos
  · simp [new, Ring.capacity]
  · intro i x hx
    simp at hx

@[simp] theorem capacity_new (capacity : Nat) : (new capacity : Ring α).capacity = capacity := by
  simp [new, Ring.capacity]

@[simp] theorem capacity_pushBack (r : Ring α) (t : α) : (r.pushBack t).capacity = r.capacity := by
  simp [pushBack, capacity]

@[simp] theorem capacity_popFront (r : Ring α) : r.popFront.capacity = r.capacity := by
  simp [popFront, capacity]

end Sparo.Base.Ring
