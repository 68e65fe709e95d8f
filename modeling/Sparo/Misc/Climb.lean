import Mathlib.Data.Fintype.Card
import Mathlib.Data.Nat.Fib.Basic
import Mathlib.Order.Bounds.Basic

/-!
# Climbing stairs

The ways up a flight of stairs that takes one stair or two at a time: how many there are, and what
the cheapest one costs when every stair that is stepped on has a price.
-/

/-- A way up to the stair `n`, from its last step to its first one. -/
inductive Climb : Nat → Type
  | start : Climb 0
  | one {n : Nat} (climb : Climb n) : Climb (n + 1)
  | two {n : Nat} (climb : Climb n) : Climb (n + 2)
  deriving DecidableEq

namespace Climb

variable {n : Nat}

/-- All of them. -/
def all : (n : Nat) → List (Climb n)
  | 0 => [start]
  | 1 => [one start]
  | n + 2 => (all (n + 1)).map one ++ (all n).map two

theorem mem_all (climb : Climb n) : climb ∈ all n := by
  induction climb with
  | start => exact List.mem_singleton_self start
  | @one n climb ih =>
    cases n with
    | zero =>
      cases climb with
      | start => exact List.mem_singleton_self _
    | succ n => exact List.mem_append_left _ (List.mem_map_of_mem ih)
  | two climb ih => exact List.mem_append_right _ (List.mem_map_of_mem ih)

/-- A last step of one stair is not one of two. -/
theorem nodup_all : (n : Nat) → (all n).Nodup
  | 0 => List.nodup_singleton _
  | 1 => List.nodup_singleton _
  | n + 2 => by
    have hone : ((all (n + 1)).map one).Nodup := (nodup_all (n + 1)).map fun _ _ h => by
      cases h
      rfl
    have htwo : ((all n).map two).Nodup := (nodup_all n).map fun _ _ h => by
      cases h
      rfl
    apply hone.append htwo
    intro climb hl hr
    obtain ⟨_, -, rfl⟩ := List.mem_map.mp hl
    obtain ⟨_, -, h⟩ := List.mem_map.mp hr
    cases h

instance (n : Nat) : Fintype (Climb n) where
  elems := ⟨all n, nodup_all n⟩
  complete := mem_all

theorem length_all : (n : Nat) → (all n).length = Nat.fib (n + 1)
  | 0 => rfl
  | 1 => rfl
  | n + 2 => by
    rw [all, List.length_append, List.length_map, List.length_map, length_all (n + 1),
      length_all n, Nat.add_comm, ← Nat.fib_add_two]

/-- The ways up are counted by the Fibonacci numbers. -/
theorem card_eq_fib (n : Nat) : Fintype.card (Climb n) = Nat.fib (n + 1) := length_all n

/-! ## Prices -/

variable {α : Type*} [AddCommMonoid α]

/-- What a way up costs. The start is free. -/
def cost (price : Nat → α) : {n : Nat} → Climb n → α
  | _, start => 0
  | n + 1, one climb => climb.cost price + price (n + 1)
  | n + 2, two climb => climb.cost price + price (n + 2)

variable [LinearOrder α]

/-- The cheapest way, from those to the two stairs below. -/
def minCost (price : Nat → α) : Nat → α
  | 0 => 0
  | 1 => 0 + price 1
  | n + 2 => min (minCost price (n + 1)) (minCost price n) + price (n + 2)

theorem exists_cost_eq (price : Nat → α) :
    (n : Nat) → ∃ climb : Climb n, climb.cost price = minCost price n
  | 0 => ⟨start, rfl⟩
  | 1 => ⟨one start, rfl⟩
  | n + 2 => by
    obtain ⟨above, habove⟩ := exists_cost_eq price (n + 1)
    obtain ⟨below, hbelow⟩ := exists_cost_eq price n
    rcases min_choice (minCost price (n + 1)) (minCost price n) with h | h
    · refine ⟨one above, ?_⟩
      rw [cost, minCost, h, habove]
    · refine ⟨two below, ?_⟩
      rw [cost, minCost, h, hbelow]

variable [IsOrderedAddMonoid α]

theorem minCost_le (price : Nat → α) (climb : Climb n) : minCost price n ≤ climb.cost price := by
  induction climb with
  | start => exact le_refl _
  | @one n climb ih =>
    cases n with
    | zero =>
      cases climb with
      | start => exact le_refl _
    | succ n => exact add_le_add_left ((min_le_left _ _).trans ih) _
  | two climb ih => exact add_le_add_left ((min_le_right _ _).trans ih) _

/-- `minCost` is the least price of a way up. -/
theorem minCost_isLeast (price : Nat → α) (n : Nat) :
    IsLeast (Set.range fun climb : Climb n => climb.cost price) (minCost price n) := by
  refine ⟨exists_cost_eq price n, ?_⟩
  rintro _ ⟨climb, rfl⟩
  exact minCost_le price climb

end Climb
