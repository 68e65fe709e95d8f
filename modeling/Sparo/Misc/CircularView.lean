import Sparo.Misc.CircularIndex
import Mathlib.Data.List.Basic
import Mathlib.Data.List.Induction
import Mathlib.Logic.Function.Basic

/-!
# A buffer read around from an origin

`View b s f`: the cells of `b`, read from cell `s` on and around the end of the buffer, are
`f 0, f 1, …`. Programs on a circular buffer address cells by index and reason about them by
distance from the origin; `f` is the buffer as they reason about it. Writing one cell updates
`f` at one point, moving the origin rotates `f`, and two functions that agree below the size
of the buffer are the same view.
-/

namespace CircularView

variable {β : Type*} {b : List β} {s k n : Nat} {f g : Nat → β}

/-- Read from cell `s` on, the cells are `f 0, f 1, …`. -/
def View (b : List β) (s : Nat) (f : Nat → β) : Prop :=
  ∀ k < b.length, b[(s + k) % b.length]? = some (f k)

theorem View.congr (h : View b s f) (hfg : ∀ k < b.length, f k = g k) : View b s g := by
  intro k hk
  rw [h k hk, hfg k hk]

/-- Cells at different distances from the origin are different cells. -/
theorem add_mod_inj (hk : k < b.length) (hn : n < b.length)
    (h : (s + k) % b.length = (s + n) % b.length) : k = n := by
  rcases Nat.lt_trichotomy k n with hlt | heq | hlt
  · exact absurd h (CircularIndex.mod_ne_mod (by omega) (by omega))
  · exact heq
  · exact absurd h.symm (CircularIndex.mod_ne_mod (by omega) (by omega))

/-- Writing the cell at distance `k`. -/
theorem View.set (h : View b s f) (hk : k < b.length) (v : β) :
    View (b.set ((s + k) % b.length) v) s (Function.update f k v) := by
  intro n hn
  rw [List.length_set] at hn ⊢
  have hlt : (s + k) % b.length < b.length := Nat.mod_lt _ (by omega)
  by_cases hkn : n = k
  · subst hkn
    rw [List.getElem?_set_self hlt, Function.update_self]
  · rw [List.getElem?_set_ne (fun heq => hkn (add_mod_inj hk hn heq).symm),
      Function.update_of_ne hkn]
    exact h n hn

/-- Taking the cell at distance `n` as the origin. -/
theorem View.rotate (h : View b s f) (n : Nat) :
    View b ((s + n) % b.length) fun k => f ((n + k) % b.length) := by
  intro k hk
  rw [Nat.mod_add_mod, Nat.add_assoc, ← Nat.add_mod_mod]
  exact h _ (Nat.mod_lt _ (by omega))

/-- A buffer of equal cells looks the same from everywhere. -/
theorem view_replicate (c : Nat) (v : β) (s : Nat) :
    View (List.replicate c v) s fun _ => v := by
  intro k hk
  rw [List.length_replicate] at hk ⊢
  rw [List.getElem?_replicate, if_pos (Nat.mod_lt _ (by omega))]

/-- From origin 0 the view is the buffer itself. -/
theorem view_zero : View b 0 f ↔ ∀ k < b.length, b[k]? = some (f k) := by
  constructor
  · intro h k hk
    have := h k hk
    rwa [Nat.zero_add, Nat.mod_eq_of_lt hk] at this
  · intro h k hk
    rw [Nat.zero_add, Nat.mod_eq_of_lt hk]
    exact h k hk

/-- The elements at all positions of a list. -/
theorem filterMap_range_getElem? {α : Type*} (xs : List α) :
    (List.range xs.length).filterMap (fun k => xs[k]?) = xs := by
  induction xs using List.reverseRecOn with
  | nil => rfl
  | append_singleton xs x ih =>
    rw [List.length_append, List.length_singleton, List.range_succ, List.filterMap_append]
    have hinit : (List.range xs.length).filterMap (fun k => (xs ++ [x])[k]?) = xs := by
      rw [List.filterMap_congr fun k hk => List.getElem?_append_left (List.mem_range.1 hk), ih]
    rw [hinit]
    simp

/-! ## A list with a hole

A program that inserts into or erases from the middle of a list first has the elements with a
hole of `n` cells at `p`, and moves the hole element by element. -/

variable {α : Type*} {xs : List α} {p : Nat}

/-- The elements of `xs` with a hole of `n` cells in front of the `p`-th one. -/
def hole (xs : List α) (p n k : Nat) : Option α :=
  if k < p then xs[k]? else if k < p + n then none else xs[k - n]?

theorem hole_length (xs : List α) (n k : Nat) : hole xs xs.length n k = xs[k]? := by
  unfold hole
  split
  · rfl
  · split
    · rw [List.getElem?_eq_none (by omega)]
    · rw [List.getElem?_eq_none (by omega), List.getElem?_eq_none (by omega)]

/-- Holes next to each other differ in the cells at their ends only. -/
theorem hole_succ_of_ne (hp : k ≠ p) (hend : k ≠ p + n) : hole xs (p + 1) n k = hole xs p n k := by
  rcases Nat.lt_trichotomy k p with hlt | heq | hgt
  · rw [hole, hole, if_pos (by omega), if_pos hlt]
  · exact absurd heq hp
  · rw [hole, hole, if_neg (by omega), if_neg (by omega : ¬ k < p)]
    by_cases hin : k < p + n
    · rw [if_pos (by omega), if_pos hin]
    · rw [if_neg (by omega), if_neg hin]

/-- An element moved to the right end of the hole moves the hole one to the left. -/
theorem update_hole_left (hn : 0 < n) :
    Function.update (Function.update (hole xs (p + 1) n) (p + n) xs[p]?) p none = hole xs p n := by
  funext k
  by_cases hsrc : k = p
  · subst hsrc
    rw [Function.update_self, hole, if_neg (by omega), if_pos (by omega)]
  · rw [Function.update_of_ne hsrc]
    by_cases hdest : k = p + n
    · subst hdest
      rw [Function.update_self, hole, if_neg (by omega), if_neg (by omega), Nat.add_sub_cancel]
    · rw [Function.update_of_ne hdest]
      exact hole_succ_of_ne hsrc hdest

/-- An element moved to the left end of the hole moves the hole one to the right. -/
theorem update_hole_right (hn : 0 < n) :
    Function.update (Function.update (hole xs p n) p xs[p]?) (p + n) none =
      hole xs (p + 1) n := by
  funext k
  by_cases hsrc : k = p + n
  · subst hsrc
    rw [Function.update_self, hole, if_neg (by omega), if_pos (by omega)]
  · rw [Function.update_of_ne hsrc]
    by_cases hdest : k = p
    · subst hdest
      rw [Function.update_self, hole, if_pos (by omega)]
    · rw [Function.update_of_ne hdest]
      exact (hole_succ_of_ne hdest hsrc).symm

/-- A hole of as many cells as `ys` has elements, filled with `ys`. -/
theorem hole_fill (hp : p ≤ xs.length) (ys : List α) (k : Nat) :
    (if p ≤ k ∧ k < p + ys.length then ys[k - p]? else hole xs p ys.length k) =
      (xs.take p ++ ys ++ xs.drop p)[k]? := by
  have htake : (xs.take p).length = p := by rw [List.length_take]; omega
  rw [List.append_assoc, hole]
  by_cases hleft : k < p
  · rw [if_neg (by omega), if_pos hleft, List.getElem?_append_left (by omega),
      List.getElem?_take_of_lt hleft]
  · rw [List.getElem?_append_right (by omega), htake, if_neg hleft]
    by_cases hmid : k < p + ys.length
    · rw [if_pos (by omega), List.getElem?_append_left (by omega)]
    · rw [if_neg (by omega), if_neg hmid, List.getElem?_append_right (by omega),
        List.getElem?_drop]
      congr 1
      omega

/-- Erasing the elements from `p` up to `q` leaves a hole in what remains. -/
theorem hole_erase {q : Nat} (hpq : p ≤ q) (hq : q ≤ xs.length) (k : Nat) :
    (if p ≤ k ∧ k < q then none else xs[k]?) =
      hole (xs.take p ++ xs.drop q) p (q - p) k := by
  have htake : (xs.take p).length = p := by rw [List.length_take]; omega
  rw [hole]
  by_cases hleft : k < p
  · rw [if_neg (by omega), if_pos hleft, List.getElem?_append_left (by omega),
      List.getElem?_take_of_lt hleft]
  · rw [if_neg hleft]
    by_cases hmid : k < q
    · rw [if_pos (by omega), if_pos (by omega)]
    · rw [if_neg (by omega), if_neg (by omega), List.getElem?_append_right (by omega), htake,
        List.getElem?_drop]
      congr 1
      omega

end CircularView
