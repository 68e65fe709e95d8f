import Sparo.ThirdParty.LazyInstance
import Sparo.Misc.ThreadSum

/-!
# The steps of a lazily created singleton

The word is a spinlock while it is `kLazyInstanceStateCreating`: the thread that set it is the only
one between its `compare_exchange_strong` and the store of what it has created. `Inv` collects
what holds of the word, of what the creator has returned and of the calls, in every state.
-/

namespace Sparo.ThirdParty.LazyInstance

open StepSystem ThreadSum

variable {κ : Type} {traits : Traits κ} {s t : State κ} {a : Act}

/-- The created mask leaves out 0 and `kLazyInstanceStateCreating` only. -/
theorem not_isCreated_iff (w : Word) :
    ¬ isCreated w ↔ w = 0#64 ∨ w = kLazyInstanceStateCreating := by
  unfold isCreated kLazyInstanceCreatedMask kLazyInstanceStateCreating
  rw [not_not]
  constructor
  · intro h
    have hbit : ∀ i, 0 < i → w.getLsbD i = false := by
      intro i hi
      by_cases hlt : i < 64
      · have hget : (w &&& ~~~1#64).getLsbD i = (0#64).getLsbD i := by rw [h]
        have hone : (1#64).getLsbD i = false := by
          rw [BitVec.getLsbD_one, decide_eq_false (by omega : ¬ i = 0), Bool.and_false]
        rwa [BitVec.getLsbD_and, BitVec.getLsbD_not, hone, decide_eq_true hlt, Bool.not_false,
          Bool.and_true, Bool.and_true, BitVec.getLsbD_zero] at hget
      · exact BitVec.getLsbD_of_ge w i (by omega)
    cases hlow : w.getLsbD 0 with
    | false =>
      refine .inl (BitVec.eq_of_getLsbD_eq fun i hi => ?_)
      rcases Nat.eq_zero_or_pos i with rfl | hpos
      · rw [hlow, BitVec.getLsbD_zero]
      · rw [hbit i hpos, BitVec.getLsbD_zero]
    | true =>
      refine .inr (BitVec.eq_of_getLsbD_eq fun i hi => ?_)
      rcases Nat.eq_zero_or_pos i with rfl | hpos
      · rw [hlow]
        rfl
      · rw [hbit i hpos, BitVec.getLsbD_one, decide_eq_false (by omega : ¬ i = 0), Bool.and_false]
  · rintro (rfl | rfl) <;> rfl

@[simp] theorem not_isCreated_zero : ¬ isCreated 0#64 := (not_isCreated_iff _).2 (.inl rfl)

@[simp] theorem not_isCreated_creating : ¬ isCreated kLazyInstanceStateCreating :=
  (not_isCreated_iff _).2 (.inr rfl)

/-- What a call can do. Only the last three change anything but the call. -/
inductive CallTo (traits : Traits κ) (s : State κ) : Pc → State κ → Pc → Prop where
  | absent (hword : s.word = 0#64) : CallTo traits s .loadIfExists s (.returned 0#64)
  | present (hword : s.word ≠ 0#64) : CallTo traits s .loadIfExists s .load
  | fast (hword : isCreated s.word) : CallTo traits s .load s (.returned s.word)
  | slow (hword : ¬ isCreated s.word) : CallTo traits s .load s .compareExchange
  | lose (hword : s.word ≠ 0#64) : CallTo traits s .compareExchange s .spin
  | spin (hword : s.word = kLazyInstanceStateCreating) : CallTo traits s .spin s .spin
  | stop (hword : s.word ≠ kLazyInstanceStateCreating) : CallTo traits s .spin s .reload
  | reload : CallTo traits s .reload s (.returned s.word)
  | win (hword : s.word = 0#64) :
      CallTo traits s .compareExchange { s with word := kLazyInstanceStateCreating } .create
  | create :
      CallTo traits s .create
        { s with
          creator := (traits.new s.creator).2
          creations := s.creations ++ [(traits.new s.creator).1] }
        (.complete (traits.new s.creator).1)
  | complete (inst : Word) :
      CallTo traits s (.complete inst) { s with word := inst } (.returned inst)

theorem callTo_of_callStep {pc pc' : Pc} (h : callStep traits s pc = some (t, pc')) :
    CallTo traits s pc t pc' := by
  cases pc with
  | loadIfExists =>
    cases h
    split
    · next hword => exact .absent hword
    · next hword => exact .present hword
  | load =>
    cases h
    split
    · next hword => exact .fast hword
    · next hword => exact .slow hword
  | compareExchange =>
    simp only [callStep] at h
    split at h
    · next hword =>
      cases h
      exact .win hword
    · next hword =>
      cases h
      exact .lose hword
  | spin =>
    cases h
    split
    · next hword => exact .spin hword
    · next hword => exact .stop hword
  | create =>
    cases h
    exact .create
  | complete inst =>
    cases h
    exact .complete inst
  | reload =>
    cases h
    exact .reload
  | returned inst => cases h

/-- What a step can do. -/
inductive StepTo (traits : Traits κ) (s : State κ) : Act → State κ → Prop where
  | get : StepTo traits s .get { s with calls := s.calls ++ [⟨false, .load⟩] }
  | getIfExists :
      StepTo traits s .getIfExists { s with calls := s.calls ++ [⟨true, .loadIfExists⟩] }
  | call (i : Nat) (ifExists : Bool) (pc pc' : Pc) (t : State κ)
      (hi : s.calls[i]? = some ⟨ifExists, pc⟩) (h : CallTo traits s pc t pc') :
      StepTo traits s (.call i) { t with calls := t.calls.set i ⟨ifExists, pc'⟩ }
  | resurrectForTesting :
      StepTo traits s .resurrectForTesting
        { s with creator := traits.resurrectForTesting s.creator }

theorem stepTo_of_step (h : step traits s a = some t) : StepTo traits s a t := by
  cases a with
  | get =>
    cases h
    exact .get
  | getIfExists =>
    cases h
    exact .getIfExists
  | call i =>
    simp only [step] at h
    split at h
    · cases h
    · next c hi =>
      obtain ⟨⟨u, pc'⟩, hcall, rfl⟩ := Option.map_eq_some_iff.1 h
      exact .call i c.ifExists c.pc pc' u hi (callTo_of_callStep hcall)
  | resurrectForTesting =>
    cases h
    exact .resurrectForTesting

/-! ## The invariant -/

/-- 1 for the call that holds the spinlock. -/
def Call.creating (c : Call) : Nat :=
  match c.pc with
  | .create | .complete _ => 1
  | _ => 0

/-- 1 for a call that is about to store what it has created. -/
def Call.completing (c : Call) : Nat :=
  match c.pc with
  | .complete _ => 1
  | _ => 0

/-- The objects that were created: what the creator has returned, but for null. -/
def objects (creations : List Word) : List Word := creations.filter (· ≠ 0#64)

/-- What holds of a call, with the word and what the creator has returned: without a creation
that returned null, a call that has lost the race finds the object. -/
def CallOk (word : Word) (creations : List Word) (c : Call) : Prop :=
  match c.pc with
  | .loadIfExists => c.ifExists = true
  | .spin => 0#64 ∈ creations ∨ word ≠ 0#64
  | .reload => 0#64 ∈ creations ∨ isCreated word
  | .complete inst =>
    inst ∈ creations ∧ inst ≠ kLazyInstanceStateCreating ∧
      objects creations = if inst = 0#64 then [] else [inst]
  | .returned inst =>
    (isCreated inst ∧ word = inst) ∨ (inst = 0#64 ∧ (c.ifExists = true ∨ 0#64 ∈ creations)) ∨
      (inst = kLazyInstanceStateCreating ∧ 0#64 ∈ creations)
  | _ => True

/-- The invariant. -/
structure Inv (s : State κ) : Prop where
  lock : total Call.creating s.calls = if s.word = kLazyInstanceStateCreating then 1 else 0
  created : isCreated s.word → objects s.creations = [s.word]
  fresh : ¬ isCreated s.word → total Call.completing s.calls = 0 → objects s.creations = []
  calls : ∀ c ∈ s.calls, CallOk s.word s.creations c

theorem inv_init (creator : κ) : Inv (init creator) where
  lock := rfl
  created h := absurd h not_isCreated_zero
  fresh _ _ := rfl
  calls _ h := by cases h

theorem Call.completing_le (c : Call) : c.completing ≤ c.creating := by
  unfold Call.completing Call.creating
  split
  · next h => rw [h]
  · exact Nat.zero_le _

/-- The word is the spinlock of whoever is between winning the race and storing the result. -/
theorem Inv.word_of_creating (h : Inv s) {c : Call} (hc : c ∈ s.calls)
    (hcreating : c.creating = 1) :
    s.word = kLazyInstanceStateCreating ∧ total Call.creating s.calls = c.creating := by
  have hle := le_total (f := Call.creating) hc
  have hlock := h.lock
  by_cases hword : s.word = kLazyInstanceStateCreating
  · rw [if_pos hword] at hlock
    exact ⟨hword, hlock.trans hcreating.symm⟩
  · rw [if_neg hword] at hlock
    omega

/-- A call that joins does not change anything for the others. -/
theorem Inv.append (h : Inv s) {c : Call} (hcreating : c.creating = 0)
    (hok : CallOk s.word s.creations c) : Inv { s with calls := s.calls ++ [c] } := by
  have hcompleting : c.completing = 0 := Nat.le_zero.1 (hcreating ▸ c.completing_le)
  constructor
  · rw [total_append, total_singleton, hcreating, add_zero]
    exact h.lock
  · exact h.created
  · intro hword hzero
    rw [total_append, total_singleton, hcompleting, add_zero] at hzero
    exact h.fresh hword hzero
  · intro c' hc'
    rcases List.mem_append.1 hc' with hold | hnew
    · exact h.calls c' hold
    · rw [List.mem_singleton.1 hnew]
      exact hok

/-- A call that moves and leaves the word and the creator alone. -/
theorem Inv.moves (h : Inv s) {i : Nat} {c c' : Call} (hi : s.calls[i]? = some c)
    (hcreating : c'.creating = c.creating) (hcompleting : c'.completing = c.completing)
    (hok : CallOk s.word s.creations c') : Inv { s with calls := s.calls.set i c' } := by
  constructor
  · exact (total_set_of_eq hi hcreating).trans h.lock
  · exact h.created
  · intro hword hzero
    rw [total_set_of_eq hi hcompleting] at hzero
    exact h.fresh hword hzero
  · intro d hd
    rcases List.mem_or_eq_of_mem_set hd with hold | rfl
    · exact h.calls d hold
    · exact hok

end Sparo.ThirdParty.LazyInstance
