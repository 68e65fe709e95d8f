import Sparo.Test.Proofs.HeapInsert

/-!
# Runs of the array heap

After any number of `Insert`s the heap holds the first values, as many as its capacity, in the order
of a heap, as long as none of them is below the sentinel.
-/

namespace Sparo.Test

open WhileLoop BinaryHeap

variable {capacity element v : Int32} {xs values : List Int32} {h t u : HeapStruct}
  {fuel fuel' : Nat}

namespace HeapStruct

/-- The heap holds these values behind its sentinel, and the rest of the array is not used yet. -/
structure Holds (h : HeapStruct) (capacity : Int32) (xs : List Int32) : Prop where
  capacity_eq : h.capacity = capacity
  size_eq : h.size = xs.length
  elements_eq : ∃ rest, h.elements = layout xs rest ∧
    (xs.length + rest.length : Int) = capacity.toInt
  isHeap : IsHeap (· > ·) xs

theorem Holds.isFull_eq (hs : h.Holds capacity xs) :
    h.isFull = decide (capacity.toInt.toNat ≤ xs.length) := by
  rw [isFull, hs.capacity_eq, hs.size_eq]
  exact decide_eq_decide.mpr (by omega)

theorem insert_of_isFull (hfull : h.isFull) (fuel : Nat) (element : Int32) :
    h.insert fuel element = .returned h := by
  rw [insert, if_pos hfull]

theorem Holds.insert_eq (hs : h.Holds capacity xs) (hroom : xs.length < capacity.toInt.toNat) :
    h.insert fuel element =
      (run (percolateUp element) fuel ⟨h.elements, xs.length + 1⟩).bind fun hole =>
        match hole.elements.store hole.i element with
        | some elements => .returned { h with size := xs.length + 1, elements }
        | none => .undefined := by
  have hfull : h.isFull = false := by
    rw [hs.isFull_eq]
    exact decide_eq_false (Nat.not_le_of_gt hroom)
  rw [insert, hfull, hs.size_eq]
  rfl

/-- The first cell that is not used yet is the hole that the new element starts from. -/
theorem Holds.percolates (element : Int32) (hs : h.Holds capacity xs)
    (hroom : xs.length < capacity.toInt.toNat) :
    ∃ rest, Percolates element (xs ++ [element]) rest xs.length ⟨h.elements, xs.length + 1⟩ ∧
      (xs.length + 1 + rest.length : Int) = capacity.toInt := by
  obtain ⟨rest, helements, hlength⟩ := hs.elements_eq
  cases rest with
  | nil =>
    rw [List.length_nil] at hlength
    omega
  | cons cell rest =>
    refine ⟨rest, ⟨rfl, ?_, ?_, ?_, ?_⟩, ?_⟩
    · rw [List.length_append, List.length_singleton]
      exact Nat.lt_succ_self _
    · dsimp only
      rw [helements, set_layout_new]
    · refine (hs.isHeap.around xs.length).of_agree fun i y hne hy => ?_
      have hlt := (List.getElem?_eq_some_iff.mp hy).1
      rw [List.length_append, List.length_singleton] at hlt
      rwa [List.getElem?_append_left (by omega)] at hy
    · intro i y hi hparent hy
      have hlt := (List.getElem?_eq_some_iff.mp hy).1
      have hchild := parent_lt hi
      rw [List.length_append, List.length_singleton] at hlt
      omega
    · rw [List.length_cons] at hlength
      omega

/-- A value that is not below the sentinel goes into a heap with room. -/
theorem Holds.insert (hs : h.Holds capacity xs) (hroom : xs.length < capacity.toInt.toNat)
    (helement : -1 ≤ element) (hfuel : capacity.toInt.toNat < fuel) :
    ∃ t ys, h.insert fuel element = .returned t ∧ ys.Perm (xs ++ [element]) ∧
      ys.length = xs.length + 1 ∧ t.Holds capacity ys := by
  obtain ⟨rest, hpercolates, hlength⟩ := hs.percolates element hroom
  have hturns : xs.length + 1 < fuel := by omega
  obtain ⟨hole, hrun, ys, hperm, hheap, hstore⟩ := hpercolates.run_eq helement hturns
  have hsize : ys.length = xs.length + 1 := by
    rw [hperm.length_eq, List.length_append, List.length_singleton]
  refine ⟨{ h with size := xs.length + 1, elements := layout ys rest }, ys, ?_, hperm,
    hsize, hs.capacity_eq, hsize.symm, ⟨rest, rfl, ?_⟩, hheap⟩
  · rw [hs.insert_eq hroom, hrun, Outcome.bind_returned, hstore]
  · rw [hsize]
    exact_mod_cast hlength

/-- A value below the sentinel never gets into a heap with room. -/
theorem Holds.insert_diverges (hs : h.Holds capacity xs)
    (hroom : xs.length < capacity.toInt.toNat) (hxs : ∀ x ∈ xs, -1 ≤ x) (helement : element < -1)
    (fuel : Nat) : h.insert fuel element = .running := by
  obtain ⟨rest, helements, hlength⟩ := hs.elements_eq
  have hescapes : Escapes element ⟨h.elements, xs.length + 1⟩ := by
    refine ⟨?_, fun j hj => ?_⟩
    · dsimp only
      rw [helements, length_layout]
      omega
    · dsimp only at hj ⊢
      rw [helements]
      cases j with
      | zero => exact ⟨-1, load_layout_zero, helement⟩
      | succ k =>
        have hk : k < xs.length := by omega
        refine ⟨xs[k], ?_, lt_of_lt_of_le helement (hxs _ (List.getElem_mem hk))⟩
        rw [load_layout_succ hk, List.getElem?_eq_getElem hk]
  rw [hs.insert_eq hroom, hescapes.run_eq, Outcome.bind_running]

/-- A larger budget changes nothing once `Insert` has returned. -/
theorem insert_mono (hinsert : h.insert fuel element = .returned t) (hle : fuel ≤ fuel') :
    h.insert fuel' element = .returned t := by
  by_cases hfull : h.isFull
  · rwa [insert_of_isFull hfull] at hinsert ⊢
  · rw [insert, if_neg hfull] at hinsert ⊢
    obtain ⟨hole, hrun, hstore⟩ := Outcome.bind_eq_returned.mp hinsert
    exact Outcome.bind_eq_returned.mpr ⟨hole, run_mono hrun hle, hstore⟩

theorem insertAll_cons_eq_returned :
    h.insertAll fuel (element :: values) = .returned u ↔
      ∃ t, h.insert fuel element = .returned t ∧ t.insertAll fuel values = .returned u := by
  rw [insertAll, Outcome.bind_eq_returned]

theorem insertAll_mono (hinsert : h.insertAll fuel values = .returned t) (hle : fuel ≤ fuel') :
    h.insertAll fuel' values = .returned t := by
  induction values generalizing h with
  | nil => exact hinsert
  | cons v values ih =>
    rw [insertAll_cons_eq_returned] at hinsert ⊢
    obtain ⟨u, hu, hinsert⟩ := hinsert
    exact ⟨u, insert_mono hu hle, ih hinsert⟩

/-- Into a full heap nothing goes. -/
theorem Holds.insertAll_of_full (hs : h.Holds capacity xs)
    (hfull : capacity.toInt.toNat ≤ xs.length) : h.insertAll fuel values = .returned h := by
  have hisFull : h.isFull = true := by
    rw [hs.isFull_eq]
    exact decide_eq_true hfull
  induction values with
  | nil => rfl
  | cons v values ih =>
    exact insertAll_cons_eq_returned.mpr ⟨h, insert_of_isFull hisFull fuel v, ih⟩

/-- What goes into a heap with room starts with the first value. -/
theorem take_cons_of_room {room n : Nat} (hroom : n < room) :
    (v :: values).take (room - n) = v :: values.take (room - (n + 1)) := by
  obtain ⟨k, rfl⟩ := Nat.exists_eq_add_of_lt hroom
  rw [Nat.add_assoc, Nat.add_sub_cancel_left, List.take_succ_cons,
    ← Nat.add_assoc, Nat.add_right_comm, Nat.add_sub_cancel_left]

/-- A heap takes as many values as it has room for. -/
theorem Holds.insertAll (hs : h.Holds capacity xs)
    (hvalues : ∀ v ∈ values.take (capacity.toInt.toNat - xs.length), -1 ≤ v)
    (hfuel : capacity.toInt.toNat < fuel) :
    ∃ t ys, h.insertAll fuel values = .returned t ∧ t.Holds capacity ys ∧
      ys.Perm (xs ++ values.take (capacity.toInt.toNat - xs.length)) := by
  induction values generalizing h xs with
  | nil =>
    refine ⟨h, xs, rfl, hs, ?_⟩
    rw [List.take_nil, List.append_nil]
  | cons v values ih =>
    rcases Nat.lt_or_ge xs.length capacity.toInt.toNat with hroom | hfull
    · rw [take_cons_of_room hroom] at hvalues ⊢
      obtain ⟨hv, hvalues⟩ := List.forall_mem_cons.mp hvalues
      obtain ⟨u, ys, hu, hperm, hlength, hholds⟩ := hs.insert hroom hv hfuel
      rw [← hlength] at hvalues ⊢
      obtain ⟨t, zs, ht, hholds', hperm'⟩ := ih hholds hvalues
      refine ⟨t, zs, insertAll_cons_eq_returned.mpr ⟨u, hu, ht⟩, hholds', hperm'.trans ?_⟩
      rw [← List.singleton_append, ← List.append_assoc]
      exact hperm.append_right _
    · refine ⟨h, xs, hs.insertAll_of_full hfull, hs, ?_⟩
      rw [Nat.sub_eq_zero_of_le hfull, List.take_zero, List.append_nil]

/-- What went into a heap was not below the sentinel. -/
theorem Holds.le_of_insertAll (hs : h.Holds capacity xs) (hxs : ∀ x ∈ xs, -1 ≤ x)
    (hfuel : capacity.toInt.toNat < fuel) (hinsert : h.insertAll fuel values = .returned t) :
    ∀ v ∈ values.take (capacity.toInt.toNat - xs.length), -1 ≤ v := by
  induction values generalizing h xs with
  | nil => simp
  | cons v values ih =>
    rcases Nat.lt_or_ge xs.length capacity.toInt.toNat with hroom | hfull
    · obtain ⟨u, hu, hinsert⟩ := insertAll_cons_eq_returned.mp hinsert
      have hv : -1 ≤ v := by
        refine not_lt.mp fun hlt => ?_
        rw [hs.insert_diverges hroom hxs hlt] at hu
        cases hu
      obtain ⟨u', ys, hu', hperm, hlength, hholds⟩ := hs.insert hroom hv hfuel
      obtain rfl : u = u' := Outcome.returned.inj (hu.symm.trans hu')
      have hys : ∀ y ∈ ys, -1 ≤ y := by
        intro y hy
        rcases List.mem_append.mp (hperm.mem_iff.mp hy) with hy | hy
        · exact hxs y hy
        · exact List.mem_singleton.mp hy ▸ hv
      rw [take_cons_of_room hroom, ← hlength]
      exact List.forall_mem_cons.mpr ⟨hv, ih hholds hys hinsert⟩
    · rw [Nat.sub_eq_zero_of_le hfull, List.take_zero]
      exact List.forall_mem_nil _

/-- What the heap is once these values have been accepted. -/
structure IsMinHeapOf (h : HeapStruct) (accepted : List Int32) : Prop where
  size_eq : h.size = accepted.length
  perm : ((h.elements.drop 1).take h.size).Perm (accepted.map some)
  ordered : ∀ i, 2 ≤ i → i ≤ h.size →
    ∃ p x, h.elements.load (i / 2) = some p ∧ h.elements.load i = some x ∧ p ≤ x

theorem Holds.isMinHeapOf (hs : h.Holds capacity xs) {accepted : List Int32}
    (hperm : xs.Perm accepted) : h.IsMinHeapOf accepted := by
  obtain ⟨rest, helements, -⟩ := hs.elements_eq
  refine ⟨hs.size_eq.trans hperm.length_eq, ?_, fun i hi hsize => ?_⟩
  · have hcontents : (h.elements.drop 1).take h.size = xs.map some := by
      rw [helements, hs.size_eq, layout, List.drop_one, List.tail_cons,
        ← List.length_map (f := some), List.take_left]
    rw [hcontents]
    exact hperm.map some
  · rw [hs.size_eq] at hsize
    obtain ⟨k, rfl⟩ := Nat.exists_eq_add_of_le hi
    have hk : k + 1 < xs.length := by omega
    have hplt : parent (k + 1) < xs.length := Nat.lt_trans (parent_lt (Nat.succ_pos k)) hk
    have hhalf : (2 + k) / 2 = parent (k + 1) + 1 := by
      rw [parent]
      omega
    have hx : xs[k + 1]? = some xs[k + 1] := List.getElem?_eq_getElem hk
    have hp : xs[parent (k + 1)]? = some xs[parent (k + 1)] := List.getElem?_eq_getElem hplt
    refine ⟨_, _, ?_, ?_, not_lt.mp (hs.isHeap (k + 1) _ _ (Nat.succ_pos k) hx hp)⟩
    · rw [helements, hhalf, load_layout_succ hplt, hp]
    · rw [helements, show 2 + k = (k + 1) + 1 by omega, load_layout_succ hk, hx]

end HeapStruct

open HeapStruct

theorem initializeHeap_eq (hcapacity : 0 ≤ capacity.toInt) (hne : capacity ≠ Int32.maxValue) :
    ∃ h, initializeHeap capacity = .returned h ∧ h.Holds capacity [] := by
  refine ⟨⟨capacity, 0, layout [] (List.replicate capacity.toInt.toNat none)⟩, ?_, rfl, rfl,
    ⟨_, rfl, ?_⟩, ?_⟩
  · have hcells : (capacity.toInt + 1).toNat = capacity.toInt.toNat + 1 := by omega
    rw [initializeHeap, if_neg hne, hcells, List.replicate_succ, store_of_lt (Nat.succ_pos _)]
    rfl
  · rw [List.length_nil, List.length_replicate]
    omega
  · intro i x p _ hx
    cases hx

/-- What `Insert` is for: each of the `Insert`s returns, the heap then holds the values that it was
given first, as many as its capacity, as a min-heap, and an `Insert` into a full heap changes
nothing. -/
def KeepsMinHeap (capacity : Int32) (values : List Int32) : Prop :=
  ∀ n ≤ values.length, ∃ fuel h, fillHeap fuel capacity (values.take n) = .returned h ∧
    h.IsMinHeapOf ((values.take n).take capacity.toInt.toNat) ∧
    (h.size = capacity.toInt.toNat → ∀ fuel element, h.insert fuel element = .returned h)

/-- The values that are accepted are not below the sentinel, and the array's length is no
overflow. -/
def AboveSentinel (capacity : Int32) (values : List Int32) : Prop :=
  capacity ≠ Int32.maxValue ∧ ∀ v ∈ values.take capacity.toInt.toNat, -1 ≤ v

/-- The sentinel is a value like any other: the heap works for the values that are not below it. -/
theorem keepsMinHeap_iff (hcapacity : 0 ≤ capacity) :
    KeepsMinHeap capacity values ↔ AboveSentinel capacity values := by
  have hpos : 0 ≤ capacity.toInt := Int32.le_iff_toInt_le.mp hcapacity
  constructor
  · intro hkeeps
    obtain ⟨fuel, t, hfill, -⟩ := hkeeps values.length (Nat.le_refl _)
    obtain ⟨h, hinit, hinsert⟩ := Outcome.bind_eq_returned.mp hfill
    have hne : capacity ≠ Int32.maxValue := by
      rintro rfl
      cases hinit
    obtain ⟨h', hinit', hs⟩ := initializeHeap_eq hpos hne
    obtain rfl : h = h' := Outcome.returned.inj (hinit.symm.trans hinit')
    rw [List.take_length] at hinsert
    refine ⟨hne, hs.le_of_insertAll (List.forall_mem_nil _) ?_
      (insertAll_mono hinsert (Nat.le_max_left _ (capacity.toInt.toNat + 1)))⟩
    exact Nat.le_max_right _ _
  · rintro ⟨hne, hvalues⟩ n -
    obtain ⟨h, hinit, hs⟩ := initializeHeap_eq hpos hne
    have htake : ∀ v ∈ (values.take n).take (capacity.toInt.toNat - 0), -1 ≤ v := by
      intro v hv
      rw [Nat.sub_zero, List.take_take, Nat.min_comm, ← List.take_take] at hv
      exact hvalues v (List.mem_of_mem_take hv)
    obtain ⟨t, ys, hinsert, hholds, hperm⟩ := hs.insertAll htake (Nat.lt_succ_self _)
    refine ⟨_, t, Outcome.bind_eq_returned.mpr ⟨h, hinit, hinsert⟩, hholds.isMinHeapOf hperm, ?_⟩
    intro hsize fuel element
    refine insert_of_isFull ?_ fuel element
    rw [hholds.isFull_eq, ← hholds.size_eq, hsize]
    exact decide_eq_true (Nat.le_refl _)

theorem keepsMinHeap_at_sentinel : KeepsMinHeap 2 [5, -1, -2] := by
  refine (keepsMinHeap_iff (by decide)).mpr ⟨by decide, ?_⟩
  change ∀ v ∈ [(5 : Int32), -1], -1 ≤ v
  exact List.forall_mem_cons.mpr ⟨by decide, List.forall_mem_singleton.mpr (by decide)⟩

/-- The first value already hangs if it is below the sentinel. -/
theorem fillHeap_below_sentinel (hcapacity : 0 < capacity.toInt)
    (hne : capacity ≠ Int32.maxValue) (helement : element < -1) (fuel : Nat) :
    fillHeap fuel capacity [element] = .running := by
  obtain ⟨h, hinit, hs⟩ := initializeHeap_eq (Int.le_of_lt hcapacity) hne
  have hroom : ([] : List Int32).length < capacity.toInt.toNat := by
    rw [List.length_nil]
    omega
  rw [fillHeap, hinit, Outcome.bind_returned, HeapStruct.insertAll,
    hs.insert_diverges hroom (List.forall_mem_nil _) helement, Outcome.bind_running]

theorem not_keepsMinHeap_below_sentinel : ¬KeepsMinHeap 1 [-2] := by
  intro hkeeps
  obtain ⟨fuel, h, hfill, -⟩ := hkeeps 1 (Nat.le_refl 1)
  have hrunning : fillHeap fuel 1 [-2] = .running :=
    fillHeap_below_sentinel (by decide) (by decide) (by decide) fuel
  rw [List.take_succ_cons, List.take_nil, hrunning] at hfill
  cases hfill

end Sparo.Test
