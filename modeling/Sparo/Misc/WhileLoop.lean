import Mathlib.Tactic.Common

/-!
# While loops with a budget

A loop is a function that takes one turn: it goes on with a new state, ends, or does something
undefined. `run` takes turns until a budget is used up. A loop with an invariant and a variant ends
within a budget above the variant; a loop whose every turn goes on is still running at the end of
every budget. Budgets that are large enough agree.
-/

namespace WhileLoop

/-- What one turn of a loop does. -/
inductive Turn (σ : Type*) where
  | next (s : σ)
  | done (s : σ)
  | undefined

/-- How far a program got within its budget. -/
inductive Outcome (σ : Type*) where
  | running
  | undefined
  | returned (s : σ)
  deriving DecidableEq, Repr

variable {σ τ : Type*}

namespace Outcome

/-- The second program starts where the first one returned. -/
def bind : Outcome σ → (σ → Outcome τ) → Outcome τ
  | running, _ => running
  | undefined, _ => undefined
  | returned s, f => f s

@[simp] theorem bind_running (f : σ → Outcome τ) : running.bind f = running := rfl

@[simp] theorem bind_returned (s : σ) (f : σ → Outcome τ) : (returned s).bind f = f s := rfl

theorem bind_eq_returned {o : Outcome σ} {f : σ → Outcome τ} {t : τ} :
    o.bind f = returned t ↔ ∃ s, o = returned s ∧ f s = returned t := by
  cases o <;> simp [bind]

end Outcome

open Outcome

/-- The turns of a loop, as many as the budget allows. -/
def run (turn : σ → Turn σ) : Nat → σ → Outcome σ
  | 0, _ => running
  | fuel + 1, s =>
    match turn s with
    | .next t => run turn fuel t
    | .done t => returned t
    | .undefined => .undefined

variable {turn : σ → Turn σ} {fuel fuel' : Nat} {s t : σ}

theorem run_next (h : turn s = .next t) : run turn (fuel + 1) s = run turn fuel t := by
  rw [run, h]

theorem run_done (h : turn s = .done t) : run turn (fuel + 1) s = returned t := by
  rw [run, h]

/-- A larger budget changes nothing once the loop has ended. -/
theorem run_mono (hrun : run turn fuel s = returned t) (hle : fuel ≤ fuel') :
    run turn fuel' s = returned t := by
  induction fuel generalizing s fuel' with
  | zero => cases hrun
  | succ fuel ih =>
    obtain ⟨fuel', rfl⟩ := Nat.exists_eq_add_one_of_ne_zero (Nat.ne_zero_of_lt hle)
    cases hturn : turn s with
    | next u =>
      rw [run_next hturn] at hrun ⊢
      exact ih hrun (Nat.le_of_succ_le_succ hle)
    | done u =>
      rw [run_done hturn] at hrun ⊢
      exact hrun
    | undefined =>
      rw [run, hturn] at hrun
      cases hrun

/-- The rule for total correctness: an invariant, and a variant that every turn makes smaller. -/
theorem run_total (I : σ → Prop) (variant : σ → Nat) {Q : σ → Prop}
    (hturn : ∀ s, I s → (∃ t, turn s = .next t ∧ I t ∧ variant t < variant s) ∨
      ∃ t, turn s = .done t ∧ Q t)
    (hs : I s) (hfuel : variant s < fuel) : ∃ t, run turn fuel s = returned t ∧ Q t := by
  induction fuel generalizing s with
  | zero => exact absurd hfuel (Nat.not_lt_zero _)
  | succ fuel ih =>
    rcases hturn s hs with ⟨t, ht, hI, hlt⟩ | ⟨t, ht, hQ⟩
    · rw [run_next ht]
      exact ih hI (Nat.lt_of_lt_of_le hlt (Nat.le_of_lt_succ hfuel))
    · exact ⟨t, run_done ht, hQ⟩

/-- The rule for divergence: an invariant under which every turn goes on. -/
theorem run_diverges {I : σ → Prop} (hturn : ∀ s, I s → ∃ t, turn s = .next t ∧ I t) (hs : I s)
    (fuel : Nat) : run turn fuel s = running := by
  induction fuel generalizing s with
  | zero => rfl
  | succ fuel ih =>
    obtain ⟨t, ht, hI⟩ := hturn s hs
    rw [run_next ht]
    exact ih hI

end WhileLoop
