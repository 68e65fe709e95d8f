import Mathlib.Data.List.Infix

/-!
# Runs of labelled step functions

A concurrent component is given by a partial step function `step : σ → α → Option σ`: in
state `s` the label `a` either names an enabled step, `step s a = some t`, or is not enabled.
A schedule is a list of labels and `exec` runs it. Every interleaving of the component's
threads is one schedule, so a statement about all schedules is a statement about all
interleavings.

`StepsMeet` says that every step a schedule takes meets a condition on its label and on the
state it starts from; `exec_induct` is the invariant rule for such schedules, and
`meets_iff_forall_reached` compares the condition with a property of the states reached.
-/

namespace StepSystem

variable {σ α : Type*} {step : σ → α → Option σ}

/-- The state after the labels `as`, if each of them is enabled when its turn comes. -/
def exec (step : σ → α → Option σ) : σ → List α → Option σ
  | s, [] => some s
  | s, a :: as => (step s a).bind fun t => exec step t as

/-- Every step of the schedule meets `ok` in the state it is taken from. -/
def StepsMeet (step : σ → α → Option σ) (ok : σ → α → Prop) : σ → List α → Prop
  | _, [] => True
  | s, a :: as => ok s a ∧ ∀ t, step s a = some t → StepsMeet step ok t as

/-- Whether a concrete schedule meets a decidable condition is decided by running it. -/
instance decidableStepsMeet {ok : σ → α → Prop} [∀ s a, Decidable (ok s a)] :
    ∀ (s : σ) (as : List α), Decidable (StepsMeet step ok s as)
  | _, [] => isTrue trivial
  | s, a :: as =>
    match h : step s a with
    | none => decidable_of_iff (ok s a) (by simp [StepsMeet, h])
    | some t =>
      have : Decidable (StepsMeet step ok t as) := decidableStepsMeet t as
      decidable_of_iff (ok s a ∧ StepsMeet step ok t as) (by simp [StepsMeet, h])

@[simp] theorem exec_nil (s : σ) : exec step s [] = some s := rfl

theorem exec_cons_eq_some {s u : σ} {a : α} {as : List α} :
    exec step s (a :: as) = some u ↔ ∃ t, step s a = some t ∧ exec step t as = some u := by
  simp [exec, Option.bind_eq_some_iff]

theorem exec_append_eq_some {s u : σ} {as bs : List α} :
    exec step s (as ++ bs) = some u ↔ ∃ t, exec step s as = some t ∧ exec step t bs = some u := by
  induction as generalizing s with
  | nil => simp
  | cons a as ih =>
    simp only [List.cons_append, exec_cons_eq_some, ih]
    constructor
    · rintro ⟨t, ha, v, hv, hu⟩
      exact ⟨v, ⟨t, ha, hv⟩, hu⟩
    · rintro ⟨v, ⟨t, ha, hv⟩, hu⟩
      exact ⟨t, ha, v, hv, hu⟩

/-- What a concrete schedule leads to is decided by running it. -/
theorem exists_exec_of_decide {P : σ → Prop} [DecidablePred P] {s : σ} {as : List α}
    (h : (exec step s as).any (fun t => decide (P t)) = true) :
    ∃ t, exec step s as = some t ∧ P t := by
  cases hrun : exec step s as with
  | none =>
    rw [hrun] at h
    cases h
  | some t =>
    rw [hrun] at h
    exact ⟨t, rfl, of_decide_eq_true h⟩

theorem exec_concat_eq_some {s u : σ} {as : List α} {a : α} :
    exec step s (as ++ [a]) = some u ↔ ∃ t, exec step s as = some t ∧ step t a = some u := by
  simp [exec_append_eq_some, exec_cons_eq_some]

/-- A condition on the labels alone is one on the steps. -/
theorem stepsMeet_of_forall_mem {P : α → Prop} {s : σ} {as : List α} (h : ∀ a ∈ as, P a) :
    StepsMeet step (fun _ a => P a) s as := by
  induction as generalizing s with
  | nil => trivial
  | cons a as ih =>
    exact ⟨h a List.mem_cons_self, fun t _ => ih fun b hb => h b (List.mem_cons_of_mem a hb)⟩

theorem StepsMeet.and {ok ok' : σ → α → Prop} {s : σ} {as : List α}
    (h : StepsMeet step ok s as) (h' : StepsMeet step ok' s as) :
    StepsMeet step (fun s a => ok s a ∧ ok' s a) s as := by
  induction as generalizing s with
  | nil => trivial
  | cons a as ih => exact ⟨⟨h.1, h'.1⟩, fun t ht => ih (h.2 t ht) (h'.2 t ht)⟩

/-- What a schedule meets, its beginnings meet. -/
theorem StepsMeet.initial {ok : σ → α → Prop} {s : σ} {as bs : List α} (hpre : bs <+: as)
    (h : StepsMeet step ok s as) : StepsMeet step ok s bs := by
  induction bs generalizing s as with
  | nil => trivial
  | cons b bs ih =>
    obtain ⟨cs, rfl⟩ := hpre
    exact ⟨h.1, fun t ht => ih (List.prefix_append bs cs) (h.2 t ht)⟩

/-- What every step that is taken meets, a schedule that runs to its end meets. -/
theorem stepsMeet_of_exec {ok : σ → α → Prop} (hok : ∀ s a t, step s a = some t → ok s a)
    {s t : σ} {as : List α} (hrun : exec step s as = some t) : StepsMeet step ok s as := by
  induction as generalizing s with
  | nil => trivial
  | cons a as ih =>
    obtain ⟨u, hu, hrun⟩ := exec_cons_eq_some.1 hrun
    refine ⟨hok s a u hu, fun v hv => ?_⟩
    obtain rfl : u = v := Option.some.inj (hu.symm.trans hv)
    exact ih hrun

/-- The invariant rule: what holds initially and is kept by every step that meets `ok` holds
after every schedule whose steps meet `ok`. -/
theorem exec_induct {ok : σ → α → Prop} {I : σ → Prop}
    (hstep : ∀ s a t, I s → ok s a → step s a = some t → I t) {s t : σ} {as : List α}
    (hs : I s) (hmeet : StepsMeet step ok s as) (hrun : exec step s as = some t) : I t := by
  induction as generalizing s with
  | nil =>
    simp only [exec_nil, Option.some.injEq] at hrun
    exact hrun ▸ hs
  | cons a as ih =>
    obtain ⟨u, hu, hrun⟩ := exec_cons_eq_some.1 hrun
    exact ih (hstep s a u hs hmeet.1 hu) (hmeet.2 u hu) hrun

/-- A condition that holds of the steps from the states of an invariant is met along the run. -/
theorem StepsMeet.imp_of_invariant {ok ok' : σ → α → Prop} {I : σ → Prop}
    (hstep : ∀ s a t, I s → ok s a → step s a = some t → I t)
    (himp : ∀ s a, I s → ok s a → ok' s a) {s : σ} {as : List α} (hs : I s)
    (hmeet : StepsMeet step ok s as) : StepsMeet step ok' s as := by
  induction as generalizing s with
  | nil => trivial
  | cons a as ih =>
    exact ⟨himp s a hs hmeet.1, fun t ht => ih (hstep s a t hs hmeet.1 ht) (hmeet.2 t ht)⟩

/-- Two conditions that agree on the states of an invariant are met by the same runs. -/
theorem stepsMeet_iff_of_invariant {ok ok' : σ → α → Prop} {I : σ → Prop}
    (hstep : ∀ s a t, I s → ok s a → step s a = some t → I t)
    (hiff : ∀ s a, I s → (ok' s a ↔ ok s a)) {s : σ} {as : List α} (hs : I s) :
    StepsMeet step ok s as ↔ StepsMeet step ok' s as := by
  constructor
  · exact StepsMeet.imp_of_invariant hstep (fun s a hs => (hiff s a hs).mpr) hs
  · refine StepsMeet.imp_of_invariant (fun s a t hs ha => ?_) (fun s a hs => (hiff s a hs).mp) hs
    exact hstep s a t hs ((hiff s a hs).mp ha)

/-- The invariant rule where every step that meets `ok` is enabled: the schedule runs to its end. -/
theorem exec_total {ok : σ → α → Prop} {I : σ → Prop}
    (hstep : ∀ s a, I s → ok s a → ∃ t, step s a = some t ∧ I t) {s : σ} {as : List α}
    (hs : I s) (hmeet : StepsMeet step ok s as) : ∃ t, exec step s as = some t ∧ I t := by
  induction as generalizing s with
  | nil => exact ⟨s, rfl, hs⟩
  | cons a as ih =>
    obtain ⟨u, hu, hI⟩ := hstep s a hs hmeet.1
    obtain ⟨t, ht, hIt⟩ := ih hI (hmeet.2 u hu)
    exact ⟨t, exec_cons_eq_some.2 ⟨u, hu, ht⟩, hIt⟩

/-- A label that is enabled until the end, and counts down to it, leads there. -/
theorem exists_exec_replicate {a : α} {I : Nat → σ → Prop} {P : σ → Prop}
    (hstep : ∀ n s, I n s → P s ∨ ∃ m t, m < n ∧ step s a = some t ∧ I m t) {n : Nat} {s : σ}
    (hs : I n s) : ∃ k t, exec step s (List.replicate k a) = some t ∧ P t := by
  induction n using Nat.strongRecOn generalizing s with
  | ind n ih =>
    rcases hstep n s hs with hP | ⟨m, t, hlt, ht, hI⟩
    · exact ⟨0, s, rfl, hP⟩
    · obtain ⟨k, u, hu, hP⟩ := ih m hlt hI
      exact ⟨k + 1, u, exec_cons_eq_some.2 ⟨t, ht, hu⟩, hP⟩

/-- The invariant rule for schedules of labels of one kind. -/
theorem exec_map_invariant {β : Type*} {f : β → α} {I : σ → Prop}
    (hstep : ∀ s b t, I s → step s (f b) = some t → I t) {s t : σ} {bs : List β} (hs : I s)
    (hrun : exec step s (bs.map f) = some t) : I t := by
  have hmeet : StepsMeet step (fun _ a => ∃ b, a = f b) s (bs.map f) := by
    refine stepsMeet_of_forall_mem fun a ha => ?_
    obtain ⟨b, -, rfl⟩ := List.mem_map.mp ha
    exact ⟨b, rfl⟩
  refine exec_induct ?_ hs hmeet hrun
  rintro s a t hs ⟨b, rfl⟩ ht
  exact hstep s b t hs ht

/-- The invariant rule without a condition on the steps. -/
theorem exec_invariant {I : σ → Prop} (hstep : ∀ s a t, I s → step s a = some t → I t)
    {s t : σ} {as : List α} (hs : I s) (hrun : exec step s as = some t) : I t := by
  have hmeet : StepsMeet step (fun _ _ => True) s as :=
    stepsMeet_of_forall_mem fun _ _ => trivial
  exact exec_induct (fun s a t hs _ => hstep s a t hs) hs hmeet hrun

/-- Where a step taken from a state with property `P` leads to a state with property `P`
exactly when it meets `ok`, a run stays within `P` exactly when all its steps meet `ok`.
`I` collects what holds on every run, whether or not `P` does. -/
theorem meets_iff_forall_reached {ok : σ → α → Prop} {I P : σ → Prop}
    (hinv : ∀ s a t, I s → step s a = some t → I t)
    (hiff : ∀ s a t, I s → P s → step s a = some t → (P t ↔ ok s a))
    {s u : σ} {as : List α} (hs : I s) (hP : P s) (hrun : exec step s as = some u) :
    StepsMeet step ok s as ↔ ∀ bs t, bs <+: as → exec step s bs = some t → P t := by
  induction as generalizing s with
  | nil =>
    simp only [StepsMeet, true_iff, List.prefix_nil]
    rintro bs t rfl ht
    simp only [exec_nil, Option.some.injEq] at ht
    exact ht ▸ hP
  | cons a as ih =>
    obtain ⟨v, hv, hrun⟩ := exec_cons_eq_some.1 hrun
    have hnext := ih (hinv s a v hs hv)
    constructor
    · rintro ⟨ha, hmeet⟩ bs t hpre ht
      rcases List.prefix_cons_iff.1 hpre with rfl | ⟨cs, rfl, hcs⟩
      · simp only [exec_nil, Option.some.injEq] at ht
        exact ht ▸ hP
      · obtain ⟨w, hw, ht⟩ := exec_cons_eq_some.1 ht
        obtain rfl : v = w := Option.some.inj (hv.symm.trans hw)
        exact (hnext ((hiff s a v hs hP hv).2 ha) hrun).1 (hmeet v hv) cs t hcs ht
    · intro h
      have hPv : P v := h [a] v (List.cons_prefix_cons.2 ⟨rfl, List.nil_prefix⟩)
        (exec_cons_eq_some.2 ⟨v, hv, rfl⟩)
      refine ⟨(hiff s a v hs hP hv).1 hPv, fun w hw => ?_⟩
      obtain rfl : v = w := Option.some.inj (hv.symm.trans hw)
      refine (hnext hPv hrun).2 fun bs t hpre ht => ?_
      exact h (a :: bs) t (List.cons_prefix_cons.2 ⟨rfl, hpre⟩) (exec_cons_eq_some.2 ⟨v, hv, ht⟩)

end StepSystem
