import Sparo.Misc.StepSystem
import Mathlib.Algebra.BigOperators.Group.List.Basic
import Mathlib.Algebra.Order.Ring.Nat

/-!
# Potentials of runs

A potential is a number for each state from which the steps of a run pay their costs. Steps of
the environment may be credited something; everything else only uses the potential up, so it
bounds how long the program can go on by itself.
-/

namespace StepSystem

variable {σ α : Type*} {step : σ → α → Option σ}

/-- The potential rule: where every step pays its cost from a potential and what it is credited,
the potential at the start and the credits of a schedule bound its costs. -/
theorem exec_potential {ok : σ → α → Prop} {I : σ → Prop} {φ : σ → Nat} {cost credit : α → Nat}
    (hstep : ∀ s a t, I s → ok s a → step s a = some t →
      I t ∧ φ t + cost a ≤ φ s + credit a) {s t : σ} {as : List α}
    (hs : I s) (hmeet : StepsMeet step ok s as) (hrun : exec step s as = some t) :
    φ t + (as.map cost).sum ≤ φ s + (as.map credit).sum := by
  induction as generalizing s with
  | nil =>
    simp only [exec_nil, Option.some.injEq] at hrun
    simp [hrun]
  | cons a as ih =>
    obtain ⟨u, hu, hrun⟩ := exec_cons_eq_some.1 hrun
    obtain ⟨hI, hpay⟩ := hstep s a u hs hmeet.1 hu
    have hrest := ih hI (hmeet.2 u hu) hrun
    simp only [List.map_cons, List.sum_cons]
    omega

theorem sum_map_ite (p : α → Bool) (c : Nat) (as : List α) :
    (as.map fun a => if p a then c else 0).sum = c * as.countP p := by
  induction as with
  | nil => simp
  | cons a as ih =>
    simp only [List.map_cons, List.sum_cons, List.countP_cons, ih]
    split
    · rw [Nat.mul_succ, Nat.add_comm]
    · simp

/-- Where every step uses some of the potential up, but for `c` that those with `p` may give back,
it bounds the length of a schedule. -/
theorem exec_length_le {ok : σ → α → Prop} {I : σ → Prop} {φ : σ → Nat} {p : α → Bool}
    {c : Nat} (hstep : ∀ s a t, I s → ok s a → step s a = some t →
      I t ∧ φ t + 1 ≤ φ s + if p a then c else 0) {s t : σ} {as : List α} (hs : I s)
    (hmeet : StepsMeet step ok s as) (hrun : exec step s as = some t) :
    φ t + as.length ≤ φ s + c * as.countP p := by
  have hpay : φ t + (as.map fun _ => 1).sum ≤ φ s + (as.map fun a => if p a then c else 0).sum :=
    exec_potential hstep hs hmeet hrun
  rw [sum_map_ite] at hpay
  simpa using hpay

end StepSystem
