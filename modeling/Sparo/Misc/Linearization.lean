import Sparo.Misc.StepSystem

/-!
# Linearization

Some steps of a concurrent system are the moments at which a call takes effect. `emit s a` lists
the operations that take effect in the step `a` from `s`, and `trace` collects them along a
schedule, in the order of the steps. The system is linearizable when the trace of every run is a
run of a sequential model, and every call has the results that its operation has in the trace.

`exec_trace_induct` is the invariant rule for a state together with the trace that led to it, and
`exec_trace` the one for the sequential model.
-/

namespace StepSystem

variable {σ α ω τ : Type*} {step : σ → α → Option σ} {emit : σ → α → List ω}

/-- The operations that take effect along a schedule. -/
def trace (step : σ → α → Option σ) (emit : σ → α → List ω) : σ → List α → List ω
  | _, [] => []
  | s, a :: as => emit s a ++ ((step s a).elim [] fun t => trace step emit t as)

@[simp] theorem trace_nil (s : σ) : trace step emit s [] = [] := rfl

theorem trace_cons {s t : σ} {a : α} (h : step s a = some t) (as : List α) :
    trace step emit s (a :: as) = emit s a ++ trace step emit t as := by
  rw [trace, h]
  rfl

/-- What holds initially with an empty trace, and is kept when a step appends its operations, holds
of the state and the trace of every run. -/
theorem exec_trace_induct {J : σ → List ω → Prop}
    (hstep : ∀ s a t ops, J s ops → step s a = some t → J t (ops ++ emit s a))
    {s t : σ} {as : List α} {ops : List ω} (hs : J s ops) (hrun : exec step s as = some t) :
    J t (ops ++ trace step emit s as) := by
  induction as generalizing s ops with
  | nil =>
    simp only [exec_nil, Option.some.injEq] at hrun
    subst hrun
    rwa [trace_nil, List.append_nil]
  | cons a as ih =>
    obtain ⟨u, hu, hrun⟩ := exec_cons_eq_some.1 hrun
    rw [trace_cons hu, ← List.append_assoc]
    exact ih (hstep s a u ops hs hu) hrun

/-- A sequential model that follows every step follows every run: the trace takes it from the
abstraction of the first state to that of the last one. -/
theorem exec_trace {step' : τ → ω → Option τ} {I : σ → Prop} (abs : σ → τ)
    (hstep : ∀ s a t, I s → step s a = some t →
      I t ∧ exec step' (abs s) (emit s a) = some (abs t)) {s t : σ} {as : List α} (hs : I s)
    (hrun : exec step s as = some t) :
    exec step' (abs s) (trace step emit s as) = some (abs t) := by
  have hJ : I t ∧ exec step' (abs s) ([] ++ trace step emit s as) = some (abs t) := by
    refine exec_trace_induct (J := fun u ops => I u ∧ exec step' (abs s) ops = some (abs u))
      (fun u a v ops hu hv => ?_) ⟨hs, rfl⟩ hrun
    obtain ⟨hI, hnext⟩ := hstep u a v hu.1 hv
    exact ⟨hI, exec_append_eq_some.2 ⟨_, hu.2, hnext⟩⟩
  exact hJ.2

end StepSystem
