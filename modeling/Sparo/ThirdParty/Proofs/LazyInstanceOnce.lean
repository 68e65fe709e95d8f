import Sparo.ThirdParty.Proofs.LazyInstanceSteps

/-!
# A singleton is created once

Whatever the interleaving of the calls, at most one object is created and every `get` returns it,
as long as the creator has not returned null. A creation that returned null takes the guarantee
away: a call that was spinning then returns null, or even `kLazyInstanceStateCreating`.
-/

namespace Sparo.ThirdParty.LazyInstance

open StepSystem ThreadSum

variable {κ : Type} {traits : Traits κ} {s t u : State κ} {a : Act}

theorem objects_append (creations : List Word) (inst : Word) :
    objects (creations ++ [inst]) =
      objects creations ++ if inst = 0#64 then [] else [inst] := by
  rw [objects, objects, List.filter_append]
  by_cases hnull : inst = 0#64 <;> simp [hnull]

/-- The thread that finds the word 0 takes the spinlock. -/
theorem Inv.win (h : Inv s) {i : Nat} {ifExists : Bool}
    (hi : s.calls[i]? = some ⟨ifExists, .compareExchange⟩) (hword : s.word = 0#64) :
    Inv { s with
      word := kLazyInstanceStateCreating
      calls := s.calls.set i ⟨ifExists, .create⟩ } := by
  have hfree : ¬ isCreated s.word := hword ▸ not_isCreated_zero
  constructor
  · have hset := total_set hi Call.creating ⟨ifExists, .create⟩
    have hlock := h.lock
    rw [hword] at hlock
    change total Call.creating (s.calls.set i ⟨ifExists, .create⟩) = 1
    rw [hlock] at hset
    exact hset
  · intro hcreated
    exact absurd hcreated not_isCreated_creating
  · intro _ hzero
    rw [total_set_of_eq (f := Call.completing) (b := ⟨ifExists, .create⟩) hi rfl] at hzero
    exact h.fresh hfree hzero
  · intro c hc
    rcases List.mem_or_eq_of_mem_set hc with hold | rfl
    · have hok := h.calls c hold
      unfold CallOk at hok ⊢
      split
      · next hpc =>
        rw [hpc] at hok
        exact hok
      · exact .inr fun hzero => by cases hzero
      · next hpc =>
        rw [hpc] at hok
        exact .inl (hok.resolve_right hfree)
      · next inst hpc =>
        rw [hpc] at hok
        exact hok
      · next inst hpc =>
        rw [hpc] at hok
        rcases hok with ⟨hcreated, heq⟩ | hok
        · exact absurd (heq ▸ hcreated) hfree
        · exact .inr hok
      · trivial
    · trivial

/-- The creation, by the one thread that holds the spinlock. -/
theorem Inv.create (h : Inv s) {i : Nat} {ifExists : Bool}
    (hi : s.calls[i]? = some ⟨ifExists, .create⟩) {inst : Word}
    (haligned : inst ≠ kLazyInstanceStateCreating) (creator : κ) :
    Inv { s with
      creator
      creations := s.creations ++ [inst]
      calls := s.calls.set i ⟨ifExists, .complete inst⟩ } := by
  obtain ⟨hword, halone⟩ := h.word_of_creating (List.mem_of_getElem? hi) rfl
  have hnobody : total Call.completing s.calls = 0 := by
    have hset := total_set hi Call.completing ⟨ifExists, .complete inst⟩
    have hle := total_le_total Call.completing_le (s.calls.set i ⟨ifExists, .complete inst⟩)
    rw [total_set_of_eq (f := Call.creating) (b := ⟨ifExists, .complete inst⟩) hi rfl, halone]
      at hle
    change _ + 0 = _ + 1 at hset
    change _ ≤ 1 at hle
    omega
  have hnone : objects s.creations = [] := h.fresh (hword ▸ not_isCreated_creating) hnobody
  constructor
  · exact (total_set_of_eq (b := ⟨ifExists, .complete inst⟩) hi rfl).trans h.lock
  · intro hcreated
    exact absurd (hword ▸ hcreated) not_isCreated_creating
  · intro _ hzero
    have hset := total_set hi Call.completing ⟨ifExists, .complete inst⟩
    change _ + 0 = _ + 1 at hset
    change total Call.completing (s.calls.set i ⟨ifExists, .complete inst⟩) = 0 at hzero
    omega
  · refine forall_mem_set_of_alone (f := Call.creating) hi halone.le ?_ ?_
    · refine ⟨List.mem_append_right _ (List.mem_singleton.2 rfl), haligned, ?_⟩
      change objects (s.creations ++ [inst]) = _
      rw [objects_append, hnone, List.nil_append]
    · intro c hc hzero
      have hok := h.calls c hc
      unfold CallOk at hok ⊢
      split
      · next hpc =>
        rw [hpc] at hok
        exact hok
      · next hpc =>
        rw [hpc] at hok
        exact hok.imp_left (List.mem_append_left _)
      · next hpc =>
        rw [hpc] at hok
        exact hok.imp_left (List.mem_append_left _)
      · next inst' hpc =>
        rw [Call.creating, hpc] at hzero
        cases hzero
      · next inst' hpc =>
        rw [hpc] at hok
        exact hok.imp_right (Or.imp (And.imp_right (Or.imp_right (List.mem_append_left _)))
          (And.imp_right (List.mem_append_left _)))
      · trivial

/-- The store that ends the creation. -/
theorem Inv.complete (h : Inv s) {i : Nat} {ifExists : Bool} {inst : Word}
    (hi : s.calls[i]? = some ⟨ifExists, .complete inst⟩) :
    Inv { s with word := inst, calls := s.calls.set i ⟨ifExists, .returned inst⟩ } := by
  obtain ⟨hword, halone⟩ := h.word_of_creating (List.mem_of_getElem? hi) rfl
  obtain ⟨hmem, haligned, hobjects⟩ := h.calls _ (List.mem_of_getElem? hi)
  have hlocked : ¬ isCreated s.word := hword ▸ not_isCreated_creating
  constructor
  · have hset := total_set hi Call.creating ⟨ifExists, .returned inst⟩
    rw [halone] at hset
    change _ + 1 = 1 + 0 at hset
    change total Call.creating (s.calls.set i ⟨ifExists, .returned inst⟩) = _
    rw [if_neg haligned]
    omega
  · intro hcreated
    have hne : inst ≠ 0#64 := by
      rintro rfl
      exact not_isCreated_zero hcreated
    rw [if_neg hne] at hobjects
    exact hobjects
  · intro hcreated _
    have hnull : inst = 0#64 := ((not_isCreated_iff inst).1 hcreated).resolve_right haligned
    rw [if_pos hnull] at hobjects
    exact hobjects
  · intro c hc
    rcases List.mem_or_eq_of_mem_set hc with hold | rfl
    · have hok := h.calls c hold
      unfold CallOk at hok ⊢
      split
      · next hpc =>
        rw [hpc] at hok
        exact hok
      · by_cases hnull : inst = 0#64
        · exact .inl (hnull ▸ hmem)
        · exact .inr hnull
      · next hpc =>
        rw [hpc] at hok
        exact .inl (hok.resolve_right hlocked)
      · next inst' hpc =>
        rw [hpc] at hok
        exact hok
      · next inst' hpc =>
        rw [hpc] at hok
        rcases hok with ⟨hcreated, heq⟩ | hok
        · exact absurd (heq ▸ hcreated) hlocked
        · exact .inr hok
      · trivial
    · by_cases hnull : inst = 0#64
      · exact .inr (.inl ⟨hnull, .inr (hnull ▸ hmem)⟩)
      · refine .inl ⟨?_, rfl⟩
        by_contra hcreated
        exact ((not_isCreated_iff inst).1 hcreated).elim hnull haligned

theorem Inv.step (h : Inv s) (hstep : step traits s a = some t) : Inv t := by
  cases stepTo_of_step hstep with
  | get => exact h.append rfl trivial
  | getIfExists => exact h.append rfl rfl
  | resurrectForTesting => exact ⟨h.lock, h.created, h.fresh, h.calls⟩
  | call i ifExists pc pc' u hi hcall =>
    have hok := h.calls _ (List.mem_of_getElem? hi)
    cases hcall with
    | absent hword => exact h.moves hi rfl rfl (.inr (.inl ⟨rfl, .inl hok⟩))
    | present hword => exact h.moves hi rfl rfl trivial
    | fast hword => exact h.moves hi rfl rfl (.inl ⟨hword, rfl⟩)
    | slow hword => exact h.moves hi rfl rfl trivial
    | lose hword => exact h.moves hi rfl rfl (.inr hword)
    | spin hword => exact h.moves hi rfl rfl hok
    | stop hword =>
      refine h.moves hi rfl rfl (hok.imp_right fun hne => ?_)
      by_contra hcreated
      exact ((not_isCreated_iff _).1 hcreated).elim hne hword
    | reload =>
      refine h.moves hi rfl rfl ?_
      by_cases hcreated : isCreated s.word
      · exact .inl ⟨hcreated, rfl⟩
      · have hnull : 0#64 ∈ s.creations := hok.resolve_right hcreated
        rcases (not_isCreated_iff _).1 hcreated with hzero | hone
        · exact .inr (.inl ⟨hzero, .inr hnull⟩)
        · exact .inr (.inr ⟨hone, hnull⟩)
    | win hword => exact h.win hi hword
    | create => exact h.create hi (traits.aligned _) _
    | complete inst => exact h.complete hi

theorem inv_of_exec {creator : κ} {as : List Act}
    (hrun : exec (LazyInstance.step traits) (init creator) as = some t) : Inv t :=
  exec_invariant (fun _ _ _ hu hv => hu.step hv) (inv_init creator) hrun

/-- The traits of an object at `0x1000`. -/
def bufferTraits : Traits Bool := staticMemorySingletonTraits 0x1000#64 (by decide)

/-! ## The spinlock -/

theorem step_call (traits : Traits κ) {i : Nat} {ifExists : Bool} {pc pc' : Pc}
    (hi : s.calls[i]? = some ⟨ifExists, pc⟩)
    (hcall : callStep traits s pc = some (t, pc')) :
    LazyInstance.step traits s (.call i) =
      some { t with calls := t.calls.set i ⟨ifExists, pc'⟩ } := by
  simp only [LazyInstance.step, hi, hcall, Option.map_some]

/-- The store, by the thread that has created its object. -/
theorem exec_complete (traits : Traits κ) {i : Nat} {ifExists : Bool} {inst : Word}
    (hi : s.calls[i]? = some ⟨ifExists, .complete inst⟩) :
    ∃ t, exec (LazyInstance.step traits) s [.call i] = some t ∧ t.word = inst :=
  ⟨_, exec_cons_eq_some.2 ⟨_, step_call traits hi rfl, rfl⟩, rfl⟩

/-- The thread that holds the spinlock stores its object within two steps of its own. -/
theorem Inv.release (h : Inv s) {i : Nat} {c : Call} (hi : s.calls[i]? = some c)
    (hcreating : c.creating = 1) :
    ∃ n ≤ 2, ∃ t, exec (LazyInstance.step traits) s (List.replicate n (.call i)) = some t ∧
      t.word ≠ kLazyInstanceStateCreating := by
  obtain ⟨ifExists, pc⟩ := c
  cases pc with
  | create =>
    have hcreate := step_call traits hi rfl
    obtain ⟨hlt, -⟩ := List.getElem?_eq_some_iff.1 hi
    obtain ⟨u, hu, hword⟩ := exec_complete traits
      (s := { s with
        creator := (traits.new s.creator).2
        creations := s.creations ++ [(traits.new s.creator).1]
        calls := s.calls.set i ⟨ifExists, .complete (traits.new s.creator).1⟩ })
      (List.getElem?_set_self hlt)
    exact ⟨2, le_rfl, u, exec_cons_eq_some.2 ⟨_, hcreate, hu⟩, hword ▸ traits.aligned s.creator⟩
  | complete inst =>
    obtain ⟨u, hu, hword⟩ := exec_complete traits hi
    exact ⟨1, by decide, u, hu, hword ▸ (h.calls _ (List.mem_of_getElem? hi)).2.1⟩
  | loadIfExists => cases hcreating
  | load => cases hcreating
  | compareExchange => cases hcreating
  | spin => cases hcreating
  | reload => cases hcreating
  | returned inst => cases hcreating

/-- In every run the word is `kLazyInstanceStateCreating` exactly while one call is between winning
the race and storing what it has created. That call is the only one there, and two steps of its
own release those that spin. -/
theorem spinlock_has_one_holder {creator : κ} {as : List Act}
    (hrun : exec (LazyInstance.step traits) (init creator) as = some t) :
    (t.word = kLazyInstanceStateCreating ↔ ∃ c ∈ t.calls, c.creating = 1) ∧
    (∀ (i j : Nat) (c d : Call), t.calls[i]? = some c → t.calls[j]? = some d →
      c.creating = 1 → d.creating = 1 → i = j) ∧
    ∀ (i : Nat) (c : Call), t.calls[i]? = some c → c.creating = 1 →
      ∃ n ≤ 2, ∃ u, exec (LazyInstance.step traits) t (List.replicate n (.call i)) = some u ∧
        u.word ≠ kLazyInstanceStateCreating := by
  have h := inv_of_exec hrun
  have hlock := h.lock
  refine ⟨⟨fun hword => ?_, fun ⟨c, hc, hcreating⟩ => (h.word_of_creating hc hcreating).1⟩,
    fun i j c d hi hj hc hd => ?_, fun i c hi hc => h.release hi hc⟩
  · rw [if_pos hword] at hlock
    by_contra hnone
    have hzero : total Call.creating t.calls = 0 := by
      refine total_eq_zero_iff.2 fun c hc => ?_
      by_contra hne
      refine hnone ⟨c, hc, ?_⟩
      have hle := le_total (f := Call.creating) hc
      omega
    omega
  · refine eq_of_total_le_one ?_ hi hj hc hd
    rw [hlock]
    split
    · exact le_rfl
    · exact Nat.zero_le 1

/-- Two calls race: while the first creates the object, the second one spins. -/
theorem spinlock_has_one_holder_race :
    ∃ t, exec (LazyInstance.step bufferTraits) (init false)
        [.get, .get, .call 0, .call 1, .call 0, .call 1, .call 1] = some t ∧
      t.word = kLazyInstanceStateCreating ∧ ∃ c ∈ t.calls, c.creating = 1 := by
  have hends : ∃ t, exec (LazyInstance.step bufferTraits) (init false)
      [.get, .get, .call 0, .call 1, .call 0, .call 1, .call 1] = some t ∧
      t.word = kLazyInstanceStateCreating := exists_exec_of_decide (by decide)
  obtain ⟨t, hrun, hword⟩ := hends
  exact ⟨t, hrun, hword, (spinlock_has_one_holder hrun).1.1 hword⟩

/-! ## The values returned -/

theorem objects_of_notMem {creations : List Word} (h : 0#64 ∉ creations) :
    objects creations = creations := by
  refine List.filter_eq_self.2 fun inst hinst => ?_
  simp only [decide_eq_true_eq]
  rintro rfl
  exact h hinst

/-- At most one object is ever created. -/
theorem Inv.objects_length (h : Inv s) : (objects s.creations).length ≤ 1 := by
  by_cases hcreated : isCreated s.word
  · rw [h.created hcreated]
    exact le_rfl
  · by_cases hzero : total Call.completing s.calls = 0
    · rw [h.fresh hcreated hzero]
      exact Nat.zero_le 1
    · obtain ⟨c, hc, hcompleting⟩ : ∃ c ∈ s.calls, c.completing ≠ 0 := by
        by_contra hnone
        push Not at hnone
        exact hzero (total_eq_zero_iff.2 hnone)
      have hok := h.calls c hc
      unfold Call.completing at hcompleting
      unfold CallOk at hok
      split at hcompleting
      · next inst hpc =>
        rw [hpc] at hok
        rw [hok.2.2]
        split
        · exact Nat.zero_le 1
        · exact le_rfl
      · exact absurd rfl hcompleting

/-- What a call has returned, by the invariant. -/
theorem Inv.returned (h : Inv s) {c : Call} (hc : c ∈ s.calls) {inst : Word}
    (hpc : c.pc = .returned inst) :
    (isCreated inst ∧ objects s.creations = [inst] ∧ s.word = inst) ∨
    (inst = 0#64 ∧ (c.ifExists = true ∨ 0#64 ∈ s.creations)) ∨
    (inst = kLazyInstanceStateCreating ∧ 0#64 ∈ s.creations) := by
  have hok := h.calls c hc
  unfold CallOk at hok
  rw [hpc] at hok
  refine hok.imp_left fun ⟨hcreated, hword⟩ => ?_
  subst hword
  exact ⟨hcreated, h.created hcreated, rfl⟩

/-- In every run, for every creator: at most one object is created. What a call returns is that
object, which then stays in the word; or null, after a creation that returned null or out of
`GetIfExists`; or, only after a creation that returned null, `kLazyInstanceStateCreating`. -/
theorem one_object {creator : κ} {as : List Act}
    (hrun : exec (LazyInstance.step traits) (init creator) as = some t) :
    (objects t.creations).length ≤ 1 ∧
    ∀ c ∈ t.calls, ∀ inst, c.pc = .returned inst →
      (isCreated inst ∧ objects t.creations = [inst] ∧ t.word = inst) ∨
      (inst = 0#64 ∧ (c.ifExists = true ∨ 0#64 ∈ t.creations)) ∨
      (inst = kLazyInstanceStateCreating ∧ 0#64 ∈ t.creations) := by
  have h := inv_of_exec hrun
  exact ⟨h.objects_length, fun c hc inst hpc => h.returned hc hpc⟩

/-- The object is dead already. The first call creates nothing and stores null; the second one,
which was spinning, looks at the word again only after a third call has taken the spinlock. -/
def deadRun : List Act :=
  [.get, .get, .call 0, .call 0, .call 1, .call 1, .call 0, .call 0, .call 1, .get, .call 2,
    .call 2, .call 1]

theorem one_object_dead :
    ∃ t, exec (LazyInstance.step bufferTraits) (init true) deadRun = some t ∧
      (∃ c ∈ t.calls, c.pc = .returned kLazyInstanceStateCreating) ∧ 0#64 ∈ t.creations := by
  have hends : ∃ t, exec (LazyInstance.step bufferTraits) (init true) deadRun = some t ∧
      ⟨false, .returned kLazyInstanceStateCreating⟩ ∈ t.calls :=
    exists_exec_of_decide (by decide)
  obtain ⟨t, hrun, hc⟩ := hends
  refine ⟨t, hrun, ⟨_, hc, rfl⟩, ?_⟩
  rcases (one_object hrun).2 _ hc _ rfl with ⟨hcreated, -⟩ | ⟨hzero, -⟩ | ⟨-, hnull⟩
  · exact absurd hcreated not_isCreated_creating
  · cases hzero
  · exact hnull

/-- As long as no creation has returned null, every call of `get` that has returned has returned
the one object there is, and `GetIfExists` that object or null. -/
theorem Inv.returned_object (h : Inv s) (hnull : 0#64 ∉ s.creations) {c : Call}
    (hc : c ∈ s.calls) {inst : Word} (hpc : c.pc = .returned inst) :
    (s.creations = [inst] ∧ s.word = inst) ∨ (inst = 0#64 ∧ c.ifExists = true) := by
  rcases h.returned hc hpc with ⟨-, hobject⟩ | ⟨hzero, hif⟩ | ⟨-, hmem⟩
  · rw [objects_of_notMem hnull] at hobject
    exact .inl hobject
  · exact .inr ⟨hzero, hif.resolve_right hnull⟩
  · exact absurd hmem hnull

/-- A creator that never returns null, such as `DefaultSingletonTraits` (`singleton.h:39-63`): every
`get` returns the one object, and `GetIfExists` the object or null. -/
theorem get_of_new_ne_null {creator : κ} {as : List Act} (hnew : ∀ k, (traits.new k).1 ≠ 0#64)
    (hrun : exec (LazyInstance.step traits) (init creator) as = some t) :
    ∀ c ∈ t.calls, ∀ inst, c.pc = .returned inst →
      (t.creations = [inst] ∧ t.word = inst) ∨ (inst = 0#64 ∧ c.ifExists = true) := by
  have hnull : 0#64 ∉ t.creations := by
    refine exec_invariant (I := fun u : State κ => 0#64 ∉ u.creations) (fun u a v hu hv => ?_)
      (fun hmem => by cases hmem) hrun
    cases stepTo_of_step hv with
    | call i ifExists pc pc' w hi hcall =>
      cases hcall with
      | create =>
        intro hmem
        rcases List.mem_append.1 hmem with hold | hnew'
        · exact hu hold
        · exact hnew u.creator (List.mem_singleton.1 hnew').symm
      | _ => exact hu
    | _ => exact hu
  exact fun c hc inst hpc => (inv_of_exec hrun).returned_object hnull hc hpc

/-! ## `StaticMemorySingletonTraits` -/

section StaticMemory

variable {buffer : Word} {hbuffer : isCreated buffer}

/-- `dead_` is set by the first creation, and there is no second one to see it. -/
def StaticOk (buffer : Word) (s : State Bool) : Prop :=
  (s.creations = [] ∧ s.creator = false) ∨ s.creations = [buffer]

theorem StaticOk.step {s t : State Bool} (h : StaticOk buffer s) (hinv : Inv s)
    (hstep : LazyInstance.step (staticMemorySingletonTraits buffer hbuffer) s a = some t) :
    StaticOk buffer t := by
  cases stepTo_of_step hstep with
  | get => exact h
  | getIfExists => exact h
  | resurrectForTesting => exact h.imp_left fun ⟨hnone, _⟩ => ⟨hnone, rfl⟩
  | call i ifExists pc pc' u hi hcall =>
    cases hcall with
    | create =>
      rcases h with ⟨hnone, hdead⟩ | hone
      · right
        change s.creations ++ [_] = [buffer]
        rw [hnone, hdead]
        rfl
      · -- the thread at the creator would find the object it is to create
        have hnext := (hinv.create hi
          ((staticMemorySingletonTraits buffer hbuffer).aligned s.creator) s.creator).calls
          ⟨ifExists, _⟩ (List.mem_of_getElem? (List.getElem?_set_self
            (List.getElem?_eq_some_iff.1 hi).1))
        have hobjects := hnext.2.2
        change objects (s.creations ++ [_]) = _ at hobjects
        rw [objects_append, hone] at hobjects
        have hne : buffer ≠ 0#64 := by
          rintro rfl
          exact not_isCreated_zero hbuffer
        have hlen := congrArg List.length hobjects
        rw [List.length_append] at hlen
        simp [objects, hne] at hlen
    | _ => exact h

/-- With `StaticMemorySingletonTraits`, in every run, however `ResurrectForTesting` comes in
between: the object is constructed at most once, every call of `get` that has returned has
returned `buffer_`, and `GetIfExists` has returned `buffer_` or null. -/
theorem static_memory_get {as : List Act} {t : State Bool}
    (hrun : exec (LazyInstance.step (staticMemorySingletonTraits buffer hbuffer)) (init false) as =
      some t) :
    (t.creations = [] ∨ t.creations = [buffer]) ∧
    ∀ c ∈ t.calls, ∀ inst, c.pc = .returned inst →
      inst = buffer ∨ (inst = 0#64 ∧ c.ifExists = true) := by
  have hok : Inv t ∧ StaticOk buffer t := by
    refine exec_invariant (I := fun u => Inv u ∧ StaticOk buffer u)
      (fun u a v hu hv => ⟨hu.1.step hv, hu.2.step hu.1 hv⟩) ⟨inv_init false, ?_⟩ hrun
    exact .inl ⟨rfl, rfl⟩
  obtain ⟨hinv, hstatic⟩ := hok
  have hcases : t.creations = [] ∨ t.creations = [buffer] := hstatic.imp_left And.left
  have hnull : 0#64 ∉ t.creations := by
    rcases hcases with hnone | hone
    · rw [hnone]
      exact List.not_mem_nil
    · rw [hone, List.mem_singleton]
      rintro rfl
      exact not_isCreated_zero hbuffer
  refine ⟨hcases, fun c hc inst hpc => ?_⟩
  rcases hinv.returned_object hnull hc hpc with ⟨hobject, -⟩ | hempty
  · rcases hcases with hnone | hone
    · rw [hnone] at hobject
      cases hobject
    · rw [hone] at hobject
      exact .inl (List.cons.inj hobject).1.symm
  · exact .inr hempty

/-- Two calls race, and `ResurrectForTesting` comes in after the creation: both return `buffer_`. -/
theorem static_memory_get_race :
    ∃ t, exec (LazyInstance.step bufferTraits) (init false)
        [.get, .get, .call 0, .call 1, .call 0, .call 1, .call 0, .resurrectForTesting, .call 0,
          .call 1, .call 1] = some t ∧
      ⟨false, .returned 0x1000#64⟩ ∈ t.calls ∧ (t.creations = [] ∨ t.creations = [0x1000#64]) := by
  have hends : ∃ t, exec (LazyInstance.step bufferTraits) (init false)
      [.get, .get, .call 0, .call 1, .call 0, .call 1, .call 0, .resurrectForTesting, .call 0,
        .call 1, .call 1] = some t ∧ ⟨false, .returned 0x1000#64⟩ ∈ t.calls :=
    exists_exec_of_decide (by decide)
  obtain ⟨t, hrun, hc⟩ := hends
  exact ⟨t, hrun, hc, (static_memory_get hrun).1⟩

end StaticMemory

end Sparo.ThirdParty.LazyInstance
