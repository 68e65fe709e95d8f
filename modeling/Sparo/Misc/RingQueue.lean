import Sparo.Misc.CircularIndex
import Mathlib.Data.List.Basic

/-!
# A queue in a ring of cells

`Holds cells head xs`: the cells from `head` on, read around the end of the array, are the
elements of `xs` in order. A program that keeps a queue in an array this way writes at the cell
behind the last element and moves `head` on to take the first.
-/

namespace RingQueue

variable {β : Type*} {cells : List β} {head : Nat} {x : β} {xs : List β}

/-- The queue `xs` lies in the cells from `head` on. -/
structure Holds (cells : List β) (head : Nat) (xs : List β) : Prop where
  head_lt : head < cells.length
  length_le : xs.length ≤ cells.length
  cell : ∀ k < xs.length, cells[(head + k) % cells.length]? = xs[k]?

theorem holds_nil (h : head < cells.length) : Holds cells head [] :=
  ⟨h, Nat.zero_le _, fun _ hk => absurd hk (Nat.not_lt_zero _)⟩

/-- The element that is written behind the last one is the last one. -/
theorem Holds.push (h : Holds cells head xs) (hroom : xs.length < cells.length) (x : β) :
    Holds (cells.set ((head + xs.length) % cells.length) x) head (xs ++ [x]) := by
  have hpos : 0 < cells.length := by omega
  have hend : (head + xs.length) % cells.length < cells.length := Nat.mod_lt _ hpos
  constructor
  · rw [List.length_set]
    exact h.head_lt
  · rw [List.length_append, List.length_singleton, List.length_set]
    exact hroom
  · intro k hk
    rw [List.length_append, List.length_singleton] at hk
    rw [List.length_set]
    rcases Nat.lt_succ_iff_lt_or_eq.1 hk with hlt | heq
    · have hne : (head + k) % cells.length ≠ (head + xs.length) % cells.length :=
        CircularIndex.mod_ne_mod (by omega) (by omega)
      rw [List.getElem?_set_ne hne.symm, List.getElem?_append_left hlt]
      exact h.cell k hlt
    · subst heq
      rw [List.getElem?_set_self hend, List.getElem?_concat_length]

/-- The first element is in the cell `head`. -/
theorem Holds.front (h : Holds cells head (x :: xs)) : cells[head]? = some x := by
  have hcell := h.cell 0 (Nat.zero_lt_succ _)
  rwa [Nat.add_zero, Nat.mod_eq_of_lt h.head_lt] at hcell

/-- Moving `head` on takes the first element out. -/
theorem Holds.pop (h : Holds cells head (x :: xs)) :
    Holds cells ((head + 1) % cells.length) xs := by
  have hlen := h.length_le
  rw [List.length_cons] at hlen
  refine ⟨Nat.mod_lt _ (by omega), by omega, fun k hk => ?_⟩
  rw [Nat.mod_add_mod, Nat.add_assoc, Nat.add_comm 1 k]
  exact h.cell (k + 1) (by simpa using hk)

end RingQueue
