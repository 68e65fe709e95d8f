import Sparo.Base.Containers.Proofs.CircularDequeCells

/-!
# A circular deque holds a list

`Holds d xs`: the cells from `begin_` up to `end_` hold the elements of `xs` in order, every
other cell is raw storage, and at least one cell is free, unless there is no buffer at all.
Every member function returns, and is the corresponding operation on `xs`.
-/

namespace Sparo.Base.CircularDeque

open CircularView Partial

variable {α : Type} {d : CircularDeque α} {x t : α} {xs : List α} {k n : Nat}

/-- The deque has a buffer, and the buffer holds `xs` from `begin_` on. -/
structure Filled (d : CircularDeque α) (xs : List α) : Prop where
  begin_lt : d.begin_ < d.buffer.length
  length_lt : xs.length < d.buffer.length
  end_eq : d.end_ = (d.begin_ + xs.length) % d.buffer.length
  view : View d.buffer d.begin_ fun k => xs[k]?

/-- The deque holds `xs`; without a buffer it is empty, wherever `begin_` and `end_` stand. -/
def Holds (d : CircularDeque α) (xs : List α) : Prop :=
  (d.buffer = [] ∧ d.begin_ = d.end_ ∧ xs = []) ∨ d.Filled xs

namespace Filled

variable (h : d.Filled xs)
include h

theorem holds : d.Holds xs := Or.inr h

theorem begin_eq : d.begin_ = (d.begin_ + 0) % d.buffer.length :=
  (Nat.mod_eq_of_lt h.begin_lt).symm

theorem size_eq : d.size = xs.length := by
  have hend := h.end_eq
  have hb := h.begin_lt
  have hlen := h.length_lt
  rw [index_eq hb hlen.le] at hend
  rw [size]
  split at hend <;> split <;> omega

theorem capacity_eq : d.capacity = d.buffer.length - 1 := by
  have := h.begin_lt
  rw [capacity, if_neg (by omega)]

/-- The iterator `begin() + k`. -/
theorem add_begin (k : Nat) : d.add d.begin_ k = (d.begin_ + k) % d.buffer.length := by
  have hadd := add_index (d := d) (k := 0) h.begin_lt (by have := h.begin_lt; omega) k
  rwa [← h.begin_eq, Nat.zero_add] at hadd

/-- `begin() + k` is `begin()` only for `k = 0`. -/
theorem index_eq_begin_iff (hk : k ≤ xs.length) :
    (d.begin_ + k) % d.buffer.length = d.begin_ ↔ k = 0 := by
  have hlen := h.length_lt
  constructor
  · intro heq
    exact add_mod_inj (by omega) (by omega) (heq.trans h.begin_eq)
  · rintro rfl
    exact h.begin_eq.symm

theorem cell (hk : k < d.buffer.length) :
    d.buffer[(d.begin_ + k) % d.buffer.length]? = some xs[k]? :=
  h.view k hk

theorem live (hk : k < xs.length) :
    d.buffer[(d.begin_ + k) % d.buffer.length]? = some (some xs[k]) := by
  rw [h.cell (Nat.lt_trans hk h.length_lt), List.getElem?_eq_getElem]

theorem raw (hk : xs.length ≤ k) (hlt : k < d.buffer.length) :
    d.buffer[(d.begin_ + k) % d.buffer.length]? = some none := by
  rw [h.cell hlt, List.getElem?_eq_none hk]

theorem deref_index (hk : k < xs.length) :
    d.deref ((d.begin_ + k) % d.buffer.length) = some xs[k] := by
  rw [deref, h.live hk]
  rfl

end Filled

/-- A buffer without objects, from any origin. -/
theorem filled_new (hn : 0 < n) : (⟨VectorBuffer.new n, 0, 0⟩ : CircularDeque α).Filled [] := by
  refine ⟨?_, ?_, ?_, ?_⟩
  · simpa [VectorBuffer.new] using hn
  · simpa [VectorBuffer.new] using hn
  · simp
  · exact (view_replicate n none 0).congr fun k _ => by simp

/-- Elements at the start of a buffer. -/
theorem filled_start {b' : List (Option α)} (hn : xs.length ≤ n) (hlength : b'.length = n + 1)
    (hview : View b' 0 fun k => xs[k]?) :
    (⟨b', 0, xs.length⟩ : CircularDeque α).Filled xs ∧ b'.length = n + 1 := by
  refine ⟨⟨?_, ?_, ?_, hview⟩, hlength⟩
  · dsimp only
    omega
  · dsimp only
    omega
  · dsimp only
    rw [Nat.zero_add, Nat.mod_eq_of_lt (by omega)]

namespace Holds

theorem size_eq (h : d.Holds xs) : d.size = xs.length := by
  rcases h with ⟨-, hbegin, rfl⟩ | h
  · rw [size, if_pos hbegin.le, hbegin, Nat.sub_self]
    rfl
  · exact h.size_eq

theorem empty_iff (h : d.Holds xs) : d.empty = true ↔ xs = [] := by
  rw [empty, beq_iff_eq]
  rcases h with ⟨-, hbegin, rfl⟩ | h
  · simp [hbegin]
  · rw [h.end_eq, eq_comm, h.index_eq_begin_iff (Nat.le_refl _), List.length_eq_zero_iff]

theorem filled_of_ne_nil (h : d.Holds xs) (hne : xs ≠ []) : d.Filled xs := by
  rcases h with ⟨-, -, hnil⟩ | h
  · exact absurd hnil hne
  · exact h

theorem length_le_capacity (h : d.Holds xs) : xs.length ≤ d.capacity := by
  rcases h with ⟨-, -, rfl⟩ | h
  · exact Nat.zero_le _
  · have := h.length_lt
    rw [h.capacity_eq]
    omega

/-- A fresh deque. -/
theorem default : ({} : CircularDeque α).Holds [] := Or.inl ⟨rfl, rfl, rfl⟩

/-- `SetCapacityTo` moves every element to the start of the new buffer. -/
theorem setCapacityTo (h : d.Holds xs) (hn : xs.length ≤ n) :
    Returns (d.setCapacityTo n) fun d' => d'.Filled xs ∧ d'.buffer.length = n + 1 := by
  have hnew : (VectorBuffer.new (n + 1) : List (Option α)).length = n + 1 := List.length_replicate
  have hraw : View (VectorBuffer.new (n + 1) : List (Option α)) 0 fun _ => none :=
    view_replicate (n + 1) none 0
  rw [CircularDeque.setCapacityTo, moveBuffer]
  by_cases hnil : xs = []
  · have hbegin : d.begin_ = d.end_ := by simpa [empty] using h.empty_iff.2 hnil
    subst hnil
    rw [if_neg (by omega), if_neg (by omega)]
    exact returns_some ⟨filled_new (by omega), hnew⟩
  have hf := h.filled_of_ne_nil hnil
  have hpos := List.length_pos_iff.2 hnil
  have hend := hf.end_eq
  have hb := hf.begin_lt
  have hlen := hf.length_lt
  have hlive : ∀ k < xs.length, ∃ t, xs[k]? = some t := fun k hk => ⟨_, List.getElem?_eq_getElem hk⟩
  rw [index_eq hb hlen.le] at hend
  by_cases hwrap : d.begin_ + xs.length < d.buffer.length
  · rw [if_pos hwrap] at hend
    have hcount : d.end_ - d.begin_ = xs.length := by omega
    rw [if_pos (by omega), VectorBuffer.moveRange, hcount]
    refine (VectorBuffer.moveCells_view _ hf.view (by omega) (fun _ => hf.begin_eq) (by omega) hraw
      (by omega) (fun k _ hk => hlive k (by omega)) fun _ _ _ => rfl).map fun b' hb' => ?_
    refine filled_start hn (hb'.1.trans hnew) (hb'.2.congr fun k _ => ?_)
    split
    · rfl
    · rw [List.getElem?_eq_none (by omega)]
  · rw [if_neg hwrap] at hend
    have hcount : d.buffer.length - d.begin_ + d.end_ = xs.length := by omega
    rw [if_neg (by omega), if_pos (by omega), VectorBuffer.moveRange]
    refine (VectorBuffer.moveCells_view _ hf.view (by omega) (fun _ => hf.begin_eq) (by omega) hraw
      (by omega) (fun k _ hk => hlive k (by omega)) fun _ _ _ => rfl).bind fun b' hb' => ?_
    refine (VectorBuffer.moveCells_view _ hf.view (by omega) (fun _ => ?_) (by omega) hb'.2
      (by omega) (fun k _ hk => hlive k (by omega)) fun k hk _ => if_neg (by omega)).map
        fun b'' hb'' => ?_
    · rw [Nat.add_sub_cancel' hb.le, Nat.mod_self]
    dsimp only
    rw [hcount]
    refine filled_start hn (hb''.1.trans (hb'.1.trans hnew)) (hb''.2.congr fun k _ => ?_)
    split
    · rfl
    · split
      · rfl
      · rw [List.getElem?_eq_none (by omega)]

/-- `ExpandCapacityIfNecessary` keeps the elements and makes room for `n` more. -/
theorem expandCapacityIfNecessary (h : d.Holds xs) (n : Nat) :
    Returns (d.expandCapacityIfNecessary n) fun d' => d'.Holds xs ∧
      (0 < n → d'.Filled xs ∧ xs.length + n < d'.buffer.length) := by
  rw [CircularDeque.expandCapacityIfNecessary, h.size_eq]
  split
  · next hroom =>
    refine returns_some ⟨h, fun hn => ?_⟩
    rcases h with ⟨hbuf, -, -⟩ | h
    · rw [capacity, hbuf, if_pos List.length_nil] at hroom
      omega
    · rw [h.capacity_eq] at hroom
      exact ⟨h, by omega⟩
  · refine (h.setCapacityTo (by omega)).imp fun d' hd' => ⟨hd'.1.holds, fun _ => ⟨hd'.1, ?_⟩⟩
    rw [hd'.2]
    omega

/-- The case of `ExpandCapacityIfNecessary` that makes room for something. -/
theorem expand_pos (h : d.Holds xs) (hn : 0 < n) :
    Returns (d.expandCapacityIfNecessary n) fun d' =>
      d'.Filled xs ∧ xs.length + n < d'.buffer.length :=
  (h.expandCapacityIfNecessary n).imp fun _ hd' => hd'.2 hn

theorem shrinkCapacityIfNecessary (h : d.Holds xs) :
    Returns d.shrinkCapacityIfNecessary fun d' => d'.Holds xs := by
  rw [CircularDeque.shrinkCapacityIfNecessary, h.size_eq]
  split
  · exact returns_some h
  · split
    · exact returns_some h
    · dsimp only
      split
      · exact (h.setCapacityTo (by omega)).imp fun d' hd' => hd'.1.holds
      · exact returns_some h

theorem clearRetainCapacity (h : d.Holds xs) :
    Returns d.clearRetainCapacity fun d' => d'.Holds [] := by
  rw [CircularDeque.clearRetainCapacity]
  rcases h with ⟨hbuf, hbegin, rfl⟩ | h
  · rw [destructRange, if_pos hbegin.symm]
    exact returns_some (Or.inl ⟨hbuf, rfl, rfl⟩)
  · have hb := h.begin_lt
    have hlen := h.length_lt
    have hclear := destructRange_view h.view hb (Nat.zero_le _) hlen
      fun k _ hk => ⟨_, List.getElem?_eq_getElem hk⟩
    rw [← h.begin_eq, ← h.end_eq] at hclear
    refine hclear.map fun b' hb' => Or.inr ⟨?_, ?_, ?_, ?_⟩
    · dsimp only
      omega
    · dsimp only [List.length_nil]
      omega
    · simp
    · -- No object is left, so the origin may as well be cell 0.
      have hnone : View b' d.begin_ fun _ => none := hb'.2.congr fun k _ => by
        by_cases hk : k < xs.length
        · rw [if_pos ⟨Nat.zero_le _, hk⟩]
        · rw [if_neg (by omega), List.getElem?_eq_none (by omega)]
      have hzero := hnone.rotate (b'.length - d.begin_)
      rw [Nat.add_sub_cancel' (by omega), Nat.mod_self] at hzero
      exact hzero.congr fun k _ => by simp

theorem reserve (h : d.Holds xs) (n : Nat) : Returns (d.reserve n) fun d' => d'.Holds xs := by
  have := h.length_le_capacity
  rw [CircularDeque.reserve]
  split
  · exact (h.setCapacityTo (by omega)).imp fun d' hd' => hd'.1.holds
  · exact returns_some h

theorem shrinkToFit (h : d.Holds xs) : Returns d.shrinkToFit fun d' => d'.Holds xs := by
  rw [CircularDeque.shrinkToFit]
  split
  · next hempty =>
    obtain rfl := h.empty_iff.1 hempty
    rw [empty, beq_iff_eq] at hempty
    exact returns_some (Or.inl ⟨rfl, hempty, rfl⟩)
  · exact (h.setCapacityTo h.size_eq.ge).imp fun d' hd' => hd'.1.holds

theorem clear (h : d.Holds xs) : Returns d.clear fun d' => d'.Holds [] := by
  refine h.clearRetainCapacity.map fun d' hd' => Or.inl ⟨rfl, ?_, rfl⟩
  have hempty := hd'.empty_iff.2 rfl
  rwa [empty, beq_iff_eq] at hempty

end Holds

end Sparo.Base.CircularDeque
