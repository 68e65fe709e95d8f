import Sparo.Base.Task.Proofs.RingList

/-!
# The deque refines a list

`LazilyDeallocatedDeque.Holds d xs`: the rings of `d` hold the elements `xs` from `head_` to
`tail_`. A ring of a longer chain is never empty, because `pop_front` drops an emptied head
and a new ring is pushed to at once; only a chain of a single ring may be empty. Every
operation is the corresponding list operation, and `MaybeShrinkQueue` is the identity.
-/

namespace Sparo.Base.LazilyDeallocatedDeque

variable {α : Type} {d : LazilyDeallocatedDeque α} {rings : List (Ring α)} {x t : α} {xs : List α}

/-- Every ring of the chain is non-empty, and together they hold `xs`. -/
def FullRings : List (Ring α) → List α → Prop
  | [], xs => xs = []
  | r :: rings, xs =>
    ∃ ys zs, xs = ys ++ zs ∧ ys ≠ [] ∧ r.Holds ys ∧ FullRings rings zs

/-- A chain of non-empty rings, or one empty ring with room for an element. -/
def HoldsRings (rings : List (Ring α)) (xs : List α) : Prop :=
  FullRings rings xs ∨ ∃ r, rings = [r] ∧ r.Holds [] ∧ 2 ≤ r.capacity ∧ xs = []

/-- The deque holds `xs`, and its counters agree with that. -/
structure Holds (d : LazilyDeallocatedDeque α) (xs : List α) : Prop where
  rings : HoldsRings d.rings xs
  size_eq : d.size = xs.length
  size_le : d.size ≤ d.maxSize

theorem fullRings_singleton {r : Ring α} (h : r.Holds xs) (hne : xs ≠ []) : FullRings [r] xs :=
  ⟨xs, [], by simp, hne, h, rfl⟩

/-- A ring with an element has a second slot, the one that is kept free. -/
theorem two_le_capacity {r : Ring α} (h : r.Holds xs) (hne : xs ≠ []) : 2 ≤ r.capacity := by
  have := List.length_pos_iff.2 hne
  have := h.length_lt
  omega

theorem holds_new_push {capacity : Nat} (hcap : 2 ≤ capacity) (t : α) :
    ((Ring.new capacity).pushBack t).Holds [t] ∧ ((Ring.new capacity).pushFront t).Holds [t] := by
  have hnew : (Ring.new capacity : Ring α).Holds [] := Ring.holds_new (by omega)
  have hroom : ([] : List α).length + 1 < (Ring.new capacity : Ring α).capacity := by
    simp only [List.length_nil, Ring.capacity_new]
    omega
  exact ⟨hnew.pushBack hroom t, hnew.pushFront hroom t⟩

theorem fullRings_toList (h : FullRings rings xs) : rings.flatMap Ring.toList = xs := by
  induction rings generalizing xs with
  | nil => exact h.symm
  | cons r rings ih =>
    obtain ⟨ys, zs, rfl, -, hr, hrest⟩ := h
    rw [List.flatMap_cons, hr.toList_eq, ih hrest]

/-- `push_back` on a chain of non-empty rings. -/
theorem fullRings_pushBack (h : FullRings rings xs) (hne : rings ≠ []) :
    FullRings (pushBackRings t rings) (xs ++ [t]) := by
  induction rings generalizing xs with
  | nil => exact absurd rfl hne
  | cons r rings ih =>
    obtain ⟨ys, zs, rfl, hys, hr, hrest⟩ := h
    cases rings with
    | nil =>
      obtain rfl : zs = [] := hrest
      rw [List.append_nil]
      simp only [pushBackRings]
      split
      · next hpush =>
        exact fullRings_singleton (hr.pushBack (hr.canPush_iff.1 hpush) t) (by simp)
      · exact ⟨ys, [t], rfl, hys, hr,
          fullRings_singleton (holds_new_push (by omega) t).1 (by simp)⟩
    | cons r' rings =>
      refine ⟨ys, zs ++ [t], by simp, hys, hr, ?_⟩
      exact ih hrest (by simp)

/-- `push_front` on a chain of non-empty rings. -/
theorem fullRings_pushFront (h : FullRings rings xs) (hne : rings ≠ []) :
    FullRings (pushFrontRings t rings) (t :: xs) := by
  cases rings with
  | nil => exact absurd rfl hne
  | cons r rings =>
    obtain ⟨ys, zs, rfl, hys, hr, hrest⟩ := h
    simp only [pushFrontRings]
    split
    · next hpush =>
      exact ⟨t :: ys, zs, rfl, by simp, hr.pushFront (hr.canPush_iff.1 hpush) t, hrest⟩
    · exact ⟨[t], ys ++ zs, rfl, by simp, (holds_new_push (by simp [kMinimumRingSize]) t).2,
        ys, zs, rfl, hys, hr, hrest⟩

theorem holdsRings_toList (h : HoldsRings rings xs) : rings.flatMap Ring.toList = xs := by
  rcases h with h | ⟨r, rfl, hr, -, rfl⟩
  · exact fullRings_toList h
  · simp [hr.toList_eq]

/-- Once the first ring exists, a chain is a chain of non-empty rings or one empty ring. -/
theorem holdsRings_ensureHead (h : HoldsRings rings xs) :
    HoldsRings (ensureHead rings) xs ∧ ensureHead rings ≠ [] := by
  cases rings with
  | nil =>
    rcases h with h | ⟨r, hr, -⟩
    · refine ⟨Or.inr ⟨_, rfl, Ring.holds_new (by simp [kMinimumRingSize]), ?_, h⟩, by
        simp [ensureHead]⟩
      simp [kMinimumRingSize]
    · cases hr
  | cons r rings => exact ⟨h, by simp [ensureHead]⟩

theorem holdsRings_pushBack (h : HoldsRings rings xs) (hne : rings ≠ []) :
    HoldsRings (pushBackRings t rings) (xs ++ [t]) := by
  rcases h with h | ⟨r, rfl, hr, hcap, rfl⟩
  · exact Or.inl (fullRings_pushBack h hne)
  · have hroom : ([] : List α).length + 1 < r.capacity := by
      simp only [List.length_nil]
      omega
    simp only [pushBackRings, hr.canPush_iff.2 hroom, if_true]
    exact Or.inl (fullRings_singleton (hr.pushBack hroom t) (by simp))

theorem holdsRings_pushFront (h : HoldsRings rings xs) (hne : rings ≠ []) :
    HoldsRings (pushFrontRings t rings) (t :: xs) := by
  rcases h with h | ⟨r, rfl, hr, hcap, rfl⟩
  · exact Or.inl (fullRings_pushFront h hne)
  · have hroom : ([] : List α).length + 1 < r.capacity := by
      simp only [List.length_nil]
      omega
    simp only [pushFrontRings, hr.canPush_iff.2 hroom, if_true]
    exact Or.inl (fullRings_singleton (hr.pushFront hroom t) (by simp))

/-- A non-empty chain has a non-empty head, and its front is the first element. -/
theorem holdsRings_cons (h : HoldsRings rings (x :: xs)) :
    ∃ r rest ys zs, rings = r :: rest ∧ xs = ys ++ zs ∧ r.Holds (x :: ys) ∧
      FullRings rest zs := by
  rcases h with h | ⟨r, -, -, -, hnil⟩
  · cases rings with
    | nil => cases h
    | cons r rest =>
      obtain ⟨ys, zs, heq, hys, hr, hrest⟩ := h
      cases ys with
      | nil => exact absurd rfl hys
      | cons y ys =>
        obtain ⟨rfl, rfl⟩ := List.cons.inj heq
        exact ⟨r, rest, ys, zs, rfl, rfl, hr, hrest⟩
  · cases hnil

theorem holdsRings_popFront (h : HoldsRings rings (x :: xs)) :
    HoldsRings (popFrontRings rings) xs := by
  obtain ⟨r, rest, ys, zs, rfl, rfl, hr, hrest⟩ := holdsRings_cons h
  have hpop := hr.popFront
  have hcap : 2 ≤ r.popFront.capacity := by
    rw [Ring.capacity_popFront]
    exact two_le_capacity hr (by simp)
  simp only [popFrontRings]
  cases ys with
  | nil =>
    rw [hpop.empty_iff.2 rfl]
    cases rest with
    | nil =>
      obtain rfl : zs = [] := hrest
      exact Or.inr ⟨_, rfl, hpop, hcap, rfl⟩
    | cons r' rest => exact Or.inl hrest
  | cons y ys =>
    have hne : r.popFront.empty = false := by
      rw [Bool.eq_false_iff, ne_eq, hpop.empty_iff]
      simp
    simp only [hne, Bool.false_and, Bool.false_eq_true, if_false]
    exact Or.inl ⟨y :: ys, zs, rfl, by simp, hpop, hrest⟩

namespace Holds

theorem toList_eq (h : d.Holds xs) : d.toList = xs := holdsRings_toList h.rings

theorem empty_iff (h : d.Holds xs) : d.empty = true ↔ xs = [] := by
  rw [empty, beq_iff_eq, h.size_eq, List.length_eq_zero_iff]

theorem pushBack (h : d.Holds xs) (t : α) : (d.pushBack t).Holds (xs ++ [t]) := by
  obtain ⟨hhead, hne⟩ := holdsRings_ensureHead h.rings
  refine ⟨holdsRings_pushBack hhead hne, ?_, ?_⟩
  · simp [LazilyDeallocatedDeque.pushBack, h.size_eq]
  · exact Nat.le_max_right _ _

theorem pushFront (h : d.Holds xs) (t : α) : (d.pushFront t).Holds (t :: xs) := by
  obtain ⟨hhead, hne⟩ := holdsRings_ensureHead h.rings
  refine ⟨holdsRings_pushFront hhead hne, ?_, ?_⟩
  · simp [LazilyDeallocatedDeque.pushFront, h.size_eq]
  · exact Nat.le_max_right _ _

theorem front_eq (h : d.Holds (x :: xs)) : d.front = some x := by
  obtain ⟨r, rest, ys, zs, hrings, -, hr, -⟩ := holdsRings_cons h.rings
  rw [front, hrings]
  exact hr.front_eq

theorem popFront (h : d.Holds (x :: xs)) : d.popFront.Holds xs := by
  have hsize := h.size_eq
  have hle := h.size_le
  refine ⟨holdsRings_popFront h.rings, ?_, ?_⟩
  · simp [LazilyDeallocatedDeque.popFront, hsize]
  · simp only [LazilyDeallocatedDeque.popFront]
    omega

theorem clear (h : d.Holds xs) : d.clear.Holds [] := by
  have := h.size_le
  exact ⟨Or.inl rfl, rfl, Nat.zero_le _⟩

/-- `n` rounds of the loop of `SetCapacity` move the first `n` elements, in order, as long as
the new ring has a slot for each of them besides the one it keeps free. -/
theorem moveAll (n : Nat) (newRing : Ring α) {ys : List α} (h : d.Holds xs) (hn : n ≤ xs.length)
    (hnew : newRing.Holds ys) (hroom : ys.length + n < newRing.capacity) :
    (LazilyDeallocatedDeque.moveAll n d newRing).Holds (ys ++ xs.take n) ∧
      (LazilyDeallocatedDeque.moveAll n d newRing).capacity = newRing.capacity := by
  induction n generalizing d xs newRing ys with
  | zero => exact ⟨by simpa [LazilyDeallocatedDeque.moveAll] using hnew, rfl⟩
  | succ n ih =>
    cases xs with
    | nil => cases hn
    | cons x xs =>
      have hne : d.empty = false := by
        rw [Bool.eq_false_iff, ne_eq, h.empty_iff]
        simp
      simp only [LazilyDeallocatedDeque.moveAll, hne, Bool.false_eq_true, if_false, h.front_eq]
      rw [List.length_cons] at hn
      have hpush := hnew.pushBack (by omega) x
      have := ih _ h.popFront (by omega) hpush (by simp; omega)
      simpa using this

/-- `SetCapacity` re-packs the elements into one ring. -/
theorem setCapacity (h : d.Holds xs) (newCapacity : Nat) (hroom : xs.length < newCapacity)
    (hcap : 2 ≤ newCapacity) : (d.setCapacity newCapacity).Holds xs := by
  obtain ⟨hmove, hsame⟩ := h.moveAll d.size (Ring.new newCapacity) h.size_eq.le
    (Ring.holds_new (by omega)) (by simpa [h.size_eq] using hroom)
  rw [List.nil_append, h.size_eq, List.take_length] at hmove
  refine ⟨?_, h.size_eq, h.size_le⟩
  rw [LazilyDeallocatedDeque.setCapacity, h.size_eq]
  cases xs with
  | nil =>
    refine Or.inr ⟨_, rfl, hmove, ?_, rfl⟩
    rwa [← h.size_eq, hsame, Ring.capacity_new]
  | cons x xs => exact Or.inl (fullRings_singleton hmove (by simp))

/-- `MaybeShrinkQueue` leaves the elements alone at every clock reading. -/
theorem maybeShrinkQueue (h : d.Holds xs) (currentTime : Int) :
    (d.maybeShrinkQueue currentTime).Holds xs := by
  -- `max_size_` restarts from `size_`, so the counters still agree.
  have hreset : ({ d with maxSize := d.size } : LazilyDeallocatedDeque α).Holds xs :=
    ⟨h.rings, h.size_eq, Nat.le_refl _⟩
  have hsize := h.size_eq
  have hle := h.size_le
  unfold LazilyDeallocatedDeque.maybeShrinkQueue
  split
  · exact h
  · split
    · exact h
    · dsimp only
      split
      · exact hreset
      · have hset := hreset.setCapacity (max (d.maxSize + 1) kMinimumRingSize) (by omega)
          (by simp only [kMinimumRingSize]; omega)
        exact ⟨hset.rings, hset.size_eq, hset.size_le⟩

end Holds

/-- The deque holds the elements read off it: no live slot is raw storage and the counters
agree with the rings. Every deque a program can build has this property. -/
def WF (d : LazilyDeallocatedDeque α) : Prop := d.Holds d.toList

theorem Holds.wf (h : d.Holds xs) : d.WF := by
  rw [WF, h.toList_eq]
  exact h

/-- A default-constructed deque is empty. -/
theorem holds_default : ({} : LazilyDeallocatedDeque α).Holds [] :=
  ⟨Or.inl rfl, rfl, Nat.le_refl _⟩

theorem toList_pushBack (h : d.WF) (t : α) : (d.pushBack t).toList = d.toList ++ [t] :=
  (Holds.pushBack h t).toList_eq

theorem toList_maybeShrinkQueue (h : d.WF) (currentTime : Int) :
    (d.maybeShrinkQueue currentTime).toList = d.toList :=
  (Holds.maybeShrinkQueue h currentTime).toList_eq

theorem empty_eq_true_iff (h : d.WF) : d.empty = true ↔ d.toList = [] := Holds.empty_iff h

/-- On a non-empty deque `front()` is the first element and `pop_front()` leaves the rest. -/
theorem front_popFront (h : d.WF) (hne : d.toList ≠ []) (hfront : d.front = some x) :
    d.toList = x :: d.popFront.toList ∧ d.popFront.WF := by
  cases hlist : d.toList with
  | nil => exact absurd hlist hne
  | cons y ys =>
    have hy : d.Holds (y :: ys) := hlist ▸ h
    obtain rfl : y = x := Option.some.inj (hy.front_eq.symm.trans hfront)
    rw [hy.popFront.toList_eq]
    exact ⟨rfl, hy.popFront.wf⟩

end Sparo.Base.LazilyDeallocatedDeque
