import Sparo.Misc.StepSystem
import Mathlib.Data.List.Forall2

/-!
# Refinement between step systems, and programs over several objects

Two step systems over the same labels simulate each other when related states answer each
label alike: both refuse it, or both take it to related states. Runs are then related too,
so a component and its abstract model accept the same schedules.

A program that handles several objects of one class keeps them in a list and names them by
position. `updateAt` and `updateTwo` lift a partial operation on one or two objects to the
list, and `Option.Rel` of the operations is `Option.Rel` of the lifted ones.

`Returns o P` says of a partial computation that it does return, and a value with `P`; the
rules for `bind` and `map` chain such postconditions.
-/

namespace Partial

variable {σ β : Type*} {P : σ → Prop} {Q : β → Prop} {o : Option σ}

/-- The computation returns a value with property `P`. -/
def Returns (o : Option σ) (P : σ → Prop) : Prop := ∃ s, o = some s ∧ P s

theorem returns_some {s : σ} (h : P s) : Returns (some s) P := ⟨s, rfl, h⟩

theorem Returns.bind {f : σ → Option β} (h : Returns o P) (hf : ∀ s, P s → Returns (f s) Q) :
    Returns (o.bind f) Q := by
  obtain ⟨s, rfl, hs⟩ := h
  exact hf s hs

theorem Returns.map {f : σ → β} (h : Returns o P) (hf : ∀ s, P s → Q (f s)) :
    Returns (o.map f) Q := by
  obtain ⟨s, rfl, hs⟩ := h
  exact ⟨f s, rfl, hf s hs⟩

theorem Returns.imp {P' : σ → Prop} (h : Returns o P) (hP : ∀ s, P s → P' s) : Returns o P' := by
  obtain ⟨s, hs, h⟩ := h
  exact ⟨s, hs, hP s h⟩

/-- A computation that returns a value related to `t` refines one that returns `t`. -/
theorem Returns.rel {R : σ → β → Prop} {t : β} (h : Returns o fun s => R s t) :
    Option.Rel R o (some t) := by
  obtain ⟨s, rfl, hs⟩ := h
  exact .some hs

end Partial

namespace StepSystem

variable {σ τ α : Type*} {R : σ → τ → Prop}
  {step : σ → α → Option σ} {step' : τ → α → Option τ}

/-- What a run of the concrete system reaches is related to something. -/
theorem exists_rel_of_eq_some {o : Option σ} {o' : Option τ} (h : Option.Rel R o o') {s : σ}
    (hs : o = some s) : ∃ t, o' = some t ∧ R s t := by
  subst hs
  cases h with
  | some h => exact ⟨_, rfl, h⟩

theorem exists_eq_some_of_rel {o : Option σ} {t : τ} (h : Option.Rel R o (some t)) :
    ∃ s, o = some s ∧ R s t := by
  cases h with
  | some h => exact ⟨_, rfl, h⟩

theorem eq_none_of_rel {o' : Option τ} (h : Option.Rel R (none : Option σ) o') : o' = none := by
  cases h with
  | none => rfl

theorem rel_bind {β γ : Type*} {S : β → γ → Prop} {o : Option σ} {o' : Option τ}
    (h : Option.Rel R o o') {f : σ → Option β} {g : τ → Option γ}
    (hfg : ∀ s t, R s t → Option.Rel S (f s) (g t)) : Option.Rel S (o.bind f) (o'.bind g) := by
  cases h with
  | none => exact .none
  | some h => exact hfg _ _ h

theorem rel_map {β γ : Type*} {S : β → γ → Prop} {o : Option σ} {o' : Option τ}
    (h : Option.Rel R o o') {f : σ → β} {g : τ → γ} (hfg : ∀ s t, R s t → S (f s) (g t)) :
    Option.Rel S (o.map f) (o'.map g) := by
  cases h with
  | none => exact .none
  | some h => exact .some (hfg _ _ h)

/-- Step functions that answer alike the labels that meet `ok` have related runs while they do. -/
theorem exec_rel_of_meets {ok : σ → α → Prop}
    (hstep : ∀ s t a, ok s a → R s t → Option.Rel R (step s a) (step' t a)) {s : σ} {t : τ}
    (h : R s t) {as : List α} (has : StepsMeet step ok s as) :
    Option.Rel R (exec step s as) (exec step' t as) := by
  induction as generalizing s t with
  | nil => exact .some h
  | cons a as ih =>
    have hrel := hstep s t a has.1 h
    rw [exec, exec]
    cases hs : step s a with
    | none =>
      rw [hs] at hrel
      rw [eq_none_of_rel hrel]
      exact .none
    | some u =>
      obtain ⟨v, hv, huv⟩ := exists_rel_of_eq_some hrel hs
      rw [hv]
      exact ih huv (has.2 u hs)

/-- Step functions that answer the labels of one kind alike have related runs on these labels. -/
theorem exec_rel_of_forall_mem {ok : α → Prop}
    (hstep : ∀ s t a, ok a → R s t → Option.Rel R (step s a) (step' t a)) {s : σ} {t : τ}
    (h : R s t) {as : List α} (has : ∀ a ∈ as, ok a) :
    Option.Rel R (exec step s as) (exec step' t as) :=
  exec_rel_of_meets hstep h (stepsMeet_of_forall_mem has)

/-- Step functions that answer every label alike have related runs. -/
theorem exec_rel (hstep : ∀ s t a, R s t → Option.Rel R (step s a) (step' t a)) {s : σ} {t : τ}
    (h : R s t) (as : List α) : Option.Rel R (exec step s as) (exec step' t as) :=
  exec_rel_of_forall_mem (fun s t a (_ : True) h => hstep s t a h) h fun _ _ => trivial

/-- Where the relation is a function from concrete to abstract states, related results are
equal under it. -/
theorem map_eq_of_rel {f : σ → τ} (hf : ∀ s t, R s t → f s = t) {o : Option σ} {o' : Option τ}
    (h : Option.Rel R o o') : o.map f = o' := by
  cases h with
  | none => rfl
  | some h => exact congrArg some (hf _ _ h)

/-- Where the step functions answer the labels that meet `ok` alike, and any other label with states
that look different, a run of the abstract system is one of the concrete system, step by step,
exactly if all its labels meet `ok`. -/
theorem forall_ok_iff_exec_map_eq {ok : α → Prop} {f : σ → τ} (hf : ∀ s t, R s t → f s = t)
    (hstep : ∀ s t a, ok a → R s t → Option.Rel R (step s a) (step' t a))
    (hneed : ∀ s t a u, R s t → step' t a = some u → (step s a).map f = some u → ok a)
    {s : σ} {t u : τ} (h : R s t) {as : List α} (hrun : exec step' t as = some u) :
    (∀ a ∈ as, ok a) ↔ ∀ bs, bs <+: as → (exec step s bs).map f = exec step' t bs := by
  constructor
  · intro hok bs hpre
    exact map_eq_of_rel hf (exec_rel_of_forall_mem hstep h fun b hb => hok b (hpre.subset hb))
  · intro heq
    induction as generalizing s t with
    | nil => exact fun a ha => absurd ha List.not_mem_nil
    | cons a as ih =>
      obtain ⟨v, hv, hrun⟩ := exec_cons_eq_some.1 hrun
      have hfirst := heq [a] (List.cons_prefix_cons.2 ⟨rfl, List.nil_prefix⟩)
      simp only [exec, hv, Option.bind_fun_some] at hfirst
      have ha : ok a := hneed s t a v h hv hfirst
      have hrel := hstep s t a ha h
      rw [hv] at hrel
      obtain ⟨w, hw, hwv⟩ := exists_eq_some_of_rel hrel
      intro b hb
      rcases List.mem_cons.1 hb with rfl | hb
      · exact ha
      · refine ih hwv hrun (fun bs hpre => ?_) b hb
        have hnext := heq (a :: bs) (List.cons_prefix_cons.2 ⟨rfl, hpre⟩)
        simpa only [exec, hw, hv, Option.bind_some] using hnext

end StepSystem

namespace Objects

variable {δ ε : Type*} {R : δ → ε → Prop} {ds : List δ} {es : List ε}

/-- A partial operation on the object at position `i`. -/
def updateAt (i : Nat) (f : δ → Option δ) (ds : List δ) : Option (List δ) :=
  ds[i]?.bind fun d => (f d).map fun d' => ds.set i d'

/-- A partial operation on the objects at positions `i` and `j`. -/
def updateTwo (i j : Nat) (f : δ → δ → Option (δ × δ)) (ds : List δ) : Option (List δ) :=
  ds[i]?.bind fun a => ds[j]?.bind fun b => (f a b).map fun p => (ds.set i p.1).set j p.2

theorem rel_getElem? (h : List.Forall₂ R ds es) (i : Nat) : Option.Rel R ds[i]? es[i]? := by
  induction h generalizing i with
  | nil => exact .none
  | cons hd _ ih =>
    cases i with
    | zero => exact .some hd
    | succ i => exact ih i

theorem rel_set (h : List.Forall₂ R ds es) (i : Nat) {d : δ} {e : ε} (hd : R d e) :
    List.Forall₂ R (ds.set i d) (es.set i e) := by
  induction h generalizing i with
  | nil => exact .nil
  | cons hhead htail ih =>
    cases i with
    | zero => exact .cons hd htail
    | succ i => exact .cons hhead (ih i)

theorem rel_concat (h : List.Forall₂ R ds es) {d : δ} {e : ε} (hd : R d e) :
    List.Forall₂ R (ds ++ [d]) (es ++ [e]) :=
  List.rel_append h (.cons hd .nil)

/-- The operation need agree on the object at that position only. -/
theorem rel_updateAt_of_getElem? (h : List.Forall₂ R ds es) (i : Nat) {f : δ → Option δ}
    {g : ε → Option ε} (hfg : ∀ d e, ds[i]? = some d → R d e → Option.Rel R (f d) (g e)) :
    Option.Rel (List.Forall₂ R) (updateAt i f ds) (updateAt i g es) := by
  have hrel := rel_getElem? h i
  rw [updateAt, updateAt]
  cases hd : ds[i]? with
  | none =>
    rw [hd] at hrel
    rw [StepSystem.eq_none_of_rel hrel]
    exact .none
  | some d =>
    obtain ⟨e, he, hde⟩ := StepSystem.exists_rel_of_eq_some hrel hd
    rw [he]
    exact StepSystem.rel_map (hfg d e hd hde) fun _ _ hd' => rel_set h i hd'

theorem rel_updateAt (h : List.Forall₂ R ds es) (i : Nat) {f : δ → Option δ} {g : ε → Option ε}
    (hfg : ∀ d e, R d e → Option.Rel R (f d) (g e)) :
    Option.Rel (List.Forall₂ R) (updateAt i f ds) (updateAt i g es) :=
  rel_updateAt_of_getElem? h i fun d e _ => hfg d e

theorem rel_updateTwo (h : List.Forall₂ R ds es) (i j : Nat)
    {f : δ → δ → Option (δ × δ)} {g : ε → ε → Option (ε × ε)}
    (hfg : ∀ d e, R d e → ∀ d' e', R d' e' →
      Option.Rel (fun p q => R p.1 q.1 ∧ R p.2 q.2) (f d d') (g e e')) :
    Option.Rel (List.Forall₂ R) (updateTwo i j f ds) (updateTwo i j g es) := by
  refine StepSystem.rel_bind (rel_getElem? h i) fun d e hd => ?_
  refine StepSystem.rel_bind (rel_getElem? h j) fun d' e' hd' => ?_
  exact StepSystem.rel_map (hfg d e hd d' e' hd') fun _ _ hp =>
    rel_set (rel_set h i hp.1) j hp.2

/-- Every object is related to its abstract counterpart, so it has one. -/
theorem exists_rel_of_mem (h : List.Forall₂ R ds es) {d : δ} (hd : d ∈ ds) : ∃ e ∈ es, R d e := by
  induction h with
  | nil => exact absurd hd List.not_mem_nil
  | cons hhead _ ih =>
    rcases List.mem_cons.1 hd with rfl | hd
    · exact ⟨_, List.mem_cons_self, hhead⟩
    · obtain ⟨e, he, hde⟩ := ih hd
      exact ⟨e, List.mem_cons_of_mem _ he, hde⟩

theorem map_eq_of_forall₂ {f : δ → ε} (hf : ∀ d e, R d e → f d = e) (h : List.Forall₂ R ds es) :
    ds.map f = es := by
  induction h with
  | nil => rfl
  | cons hhead _ ih => rw [List.map_cons, hf _ _ hhead, ih]

end Objects
