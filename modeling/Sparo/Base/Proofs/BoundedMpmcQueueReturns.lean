import Sparo.Base.Proofs.BoundedMpmcQueueFull
import Sparo.Misc.ExchangeLoop
import Sparo.Misc.Potential

/-!
# Every call of the bounded queue returns

A call goes back to a load of a position only after another call of the same kind has had a
successful exchange, or after a spurious failure of its own. Every call has at most one successful
exchange, so the calls under way return after a bounded number of steps, however they interleave,
and nothing ever blocks one of them.
-/

namespace Sparo.Base.MpmcBoundedQueue

open StepSystem ThreadSum ExchangeLoop

variable {T : Type*} {bufferMask : Nat} {s t : State T} {a : Act T}

/-! ## The next position -/

/-- No `enqueue` has stored the sequence number of the next position. -/
theorem QueueInv.sequence_enqueuePos_le (hmask : IsMask bufferMask) (hs : QueueInv bufferMask s) :
    (s.buffer (cellIndex bufferMask s.enqueuePos)).sequence ≤ s.enqueuePos := by
  have hdequeue := hs.dequeue_le
  cases hs.cell s.enqueuePos with
  | free n hindex hn hle hlt =>
    by_contra hgt
    have := hmask.add_le_of_index_eq hindex.symm (by omega)
    omega
  | full n hindex hn hlt hle hdata => omega

/-- No `dequeue` has stored the sequence number of the next position. -/
theorem QueueInv.sequence_dequeuePos_le (hmask : IsMask bufferMask) (hs : QueueInv bufferMask s) :
    (s.buffer (cellIndex bufferMask s.dequeuePos)).sequence ≤ s.dequeuePos + 1 := by
  have henqueue := hs.enqueue_le
  cases hs.cell s.dequeuePos with
  | free n hindex hn hle hlt =>
    by_contra hgt
    have := hmask.add_le_of_index_eq hindex.symm (by omega)
    omega
  | full n hindex hn hlt hle hdata =>
    by_contra hgt
    have := hmask.add_le_of_index_eq hindex.symm (by omega)
    omega

/-! ## The calls as attempts -/

/-- An `enqueue` as an attempt at the next position. -/
def Producer.attempt (p : Producer T) : Attempt :=
  match p.pc with
  | .loadPos => .load
  | .loadSequence pos => .look pos
  | .exchange pos => .exchange pos
  | .copy _ => .won 2
  | .store _ => .won 1
  | .succeeded _ | .failed => .won 0

/-- A `dequeue` as an attempt at the next position. -/
def Consumer.attempt (c : Consumer T) : Attempt :=
  match c.pc with
  | .loadPos => .load
  | .loadSequence pos => .look pos
  | .exchange pos => .exchange pos
  | .copy _ => .won 2
  | .store _ => .won 1
  | .succeeded _ | .failed => .won 0

theorem Producer.rest_le (p : Producer T) (rest : Nat) (h : p.attempt = .won rest) : rest ≤ 2 := by
  obtain ⟨pc, data⟩ := p
  cases pc <;> cases h <;> decide

theorem Consumer.rest_le (c : Consumer T) (rest : Nat) (h : c.attempt = .won rest) : rest ≤ 2 := by
  obtain ⟨pc, data⟩ := c
  cases pc <;> cases h <;> decide

/-- A position that an exchange does not find is the next one only if the exchange failed
spuriously. -/
theorem spurious_of_lost {cur pos : Nat} {spurious : Bool} (h : ¬ (cur = pos ∧ spurious = false))
    (hpos : pos = cur) : spurious = true := by
  cases spurious with
  | true => rfl
  | false => exact absurd ⟨hpos.symm, rfl⟩ h

/-- A step of an `enqueue` is one of its attempt; it leaves the `dequeue` calls alone. -/
theorem producer_next (hmask : IsMask bufferMask) (hs : QueueInv bufferMask s) {p p' : Producer T}
    {spurious : Bool} (h : producerStep bufferMask s p spurious = some (t, p')) :
    Next s.enqueuePos spurious p.attempt t.enqueuePos p'.attempt ∧
      t.producers = s.producers ∧ t.consumers = s.consumers ∧ t.dequeuePos = s.dequeuePos := by
  obtain ⟨pc, data⟩ := p
  have hseq := hs.sequence_enqueuePos_le hmask
  cases pc with
  | loadPos =>
    cases h
    exact ⟨.load, rfl, rfl, rfl⟩
  | loadSequence pos =>
    simp only [producerStep] at h
    split at h
    · cases h
      exact ⟨.free pos, rfl, rfl, rfl⟩
    · split at h
      · cases h
        exact ⟨.refused pos, rfl, rfl, rfl⟩
      · cases h
        refine ⟨.passed pos ?_, rfl, rfl, rfl⟩
        rintro rfl
        omega
  | exchange pos =>
    simp only [producerStep] at h
    split at h
    · next hpos =>
      cases h
      obtain ⟨rfl, -⟩ := hpos
      exact ⟨.win _, rfl, rfl, rfl⟩
    · next hlost =>
      cases h
      exact ⟨.lose pos (spurious_of_lost hlost), rfl, rfl, rfl⟩
  | copy pos =>
    cases h
    exact ⟨.rest 1, rfl, rfl, rfl⟩
  | store pos =>
    cases h
    exact ⟨.rest 0, rfl, rfl, rfl⟩
  | succeeded pos => cases h
  | failed => cases h

/-- A step of a `dequeue` is one of its attempt; it leaves the `enqueue` calls alone. -/
theorem consumer_next (hmask : IsMask bufferMask) (hs : QueueInv bufferMask s) {c c' : Consumer T}
    {spurious : Bool} (h : consumerStep bufferMask s c spurious = some (t, c')) :
    Next s.dequeuePos spurious c.attempt t.dequeuePos c'.attempt ∧
      t.producers = s.producers ∧ t.consumers = s.consumers ∧ t.enqueuePos = s.enqueuePos := by
  obtain ⟨pc, data⟩ := c
  have hseq := hs.sequence_dequeuePos_le hmask
  cases pc with
  | loadPos =>
    cases h
    exact ⟨.load, rfl, rfl, rfl⟩
  | loadSequence pos =>
    simp only [consumerStep] at h
    split at h
    · cases h
      exact ⟨.free pos, rfl, rfl, rfl⟩
    · split at h
      · cases h
        exact ⟨.refused pos, rfl, rfl, rfl⟩
      · cases h
        refine ⟨.passed pos ?_, rfl, rfl, rfl⟩
        rintro rfl
        omega
  | exchange pos =>
    simp only [consumerStep] at h
    split at h
    · next hpos =>
      cases h
      obtain ⟨rfl, -⟩ := hpos
      exact ⟨.win _, rfl, rfl, rfl⟩
    · next hlost =>
      cases h
      exact ⟨.lose pos (spurious_of_lost hlost), rfl, rfl, rfl⟩
  | copy pos =>
    cases h
    exact ⟨.rest 1, rfl, rfl, rfl⟩
  | store pos =>
    cases h
    exact ⟨.rest 0, rfl, rfl, rfl⟩
  | succeeded pos => cases h
  | failed => cases h

/-! ## All calls together -/

/-- What all calls under way still have to do. -/
def State.work (s : State T) : Nat :=
  total (Attempt.rank s.enqueuePos s.producers.length) (s.producers.map Producer.attempt) +
    total (Attempt.rank s.dequeuePos s.consumers.length) (s.consumers.map Consumer.attempt)

theorem State.work_le (s : State T) :
    s.work ≤ s.producers.length * (2 * s.producers.length + 6) +
      s.consumers.length * (2 * s.consumers.length + 6) := by
  have hproducers : total (Attempt.rank s.enqueuePos s.producers.length)
      (s.producers.map Producer.attempt) ≤
      (s.producers.map Producer.attempt).length * (2 * s.producers.length + 6) := by
    refine total_rank_le fun x hx => ?_
    obtain ⟨p, -, rfl⟩ := List.mem_map.1 hx
    exact p.rest_le
  have hconsumers : total (Attempt.rank s.dequeuePos s.consumers.length)
      (s.consumers.map Consumer.attempt) ≤
      (s.consumers.map Consumer.attempt).length * (2 * s.consumers.length + 6) := by
    refine total_rank_le fun x hx => ?_
    obtain ⟨c, -, rfl⟩ := List.mem_map.1 hx
    exact c.rest_le
  rw [List.length_map] at hproducers hconsumers
  exact Nat.add_le_add hproducers hconsumers

/-- A step of a call. -/
def Act.ofCall : Act T → Bool
  | .producer _ _ | .consumer _ _ => true
  | .enqueue _ | .dequeue _ => false

/-- A step of a call in which its exchange, if it is at one, fails spuriously. -/
def Act.spurious : Act T → Bool
  | .producer _ spurious | .consumer _ spurious => spurious
  | .enqueue _ | .dequeue _ => false

theorem work_step (hmask : IsMask bufferMask) (hs : QueueInv bufferMask s) (ha : a.ofCall = true)
    (h : step bufferMask s a = some t) : t.work + 1 ≤ s.work + if a.spurious then 2 else 0 := by
  cases a with
  | enqueue data => cases ha
  | dequeue data => cases ha
  | producer i spurious =>
    simp only [step] at h
    split at h
    · cases h
    · next p hi =>
      obtain ⟨⟨u, p'⟩, hu, rfl⟩ := Option.map_eq_some_iff.mp h
      obtain ⟨hnext, hproducers, hconsumers, hdequeue⟩ := producer_next hmask hs hu
      have hattempt : (s.producers.map Producer.attempt)[i]? = some p.attempt := by
        rw [List.getElem?_map, hi, Option.map_some]
      have hpays := total_rank_next hattempt hnext
      change _ ≤ s.work + if spurious then 2 else 0
      simp only [State.work, hproducers, hconsumers, hdequeue, List.length_set,
        List.map_set, List.length_map] at hpays ⊢
      omega
  | consumer i spurious =>
    simp only [step] at h
    split at h
    · cases h
    · next c hi =>
      obtain ⟨⟨u, c'⟩, hu, rfl⟩ := Option.map_eq_some_iff.mp h
      obtain ⟨hnext, hproducers, hconsumers, henqueue⟩ := consumer_next hmask hs hu
      have hattempt : (s.consumers.map Consumer.attempt)[i]? = some c.attempt := by
        rw [List.getElem?_map, hi, Option.map_some]
      have hpays := total_rank_next hattempt hnext
      change _ ≤ s.work + if spurious then 2 else 0
      simp only [State.work, hproducers, hconsumers, henqueue, List.length_set,
        List.map_set, List.length_map] at hpays ⊢
      omega

/-- No call can move. -/
def State.AtRest (bufferMask : Nat) (s : State T) : Prop :=
  ∀ a : Act T, a.ofCall = true → step bufferMask s a = none

theorem producerStep_eq_none_iff {p : Producer T} {spurious : Bool} :
    producerStep bufferMask s p spurious = none ↔ p.pc.Returned := by
  obtain ⟨pc, data⟩ := p
  cases pc with
  | loadPos => exact ⟨fun h => (by cases h), False.elim⟩
  | loadSequence pos =>
    refine ⟨fun h => ?_, False.elim⟩
    simp only [producerStep] at h
    split at h
    · cases h
    · split at h <;> cases h
  | exchange pos =>
    refine ⟨fun h => ?_, False.elim⟩
    simp only [producerStep] at h
    split at h <;> cases h
  | copy pos => exact ⟨fun h => (by cases h), False.elim⟩
  | store pos => exact ⟨fun h => (by cases h), False.elim⟩
  | succeeded pos => exact ⟨fun _ => trivial, fun _ => rfl⟩
  | failed => exact ⟨fun _ => trivial, fun _ => rfl⟩

theorem consumerStep_eq_none_iff {c : Consumer T} {spurious : Bool} :
    consumerStep bufferMask s c spurious = none ↔ c.pc.Returned := by
  obtain ⟨pc, data⟩ := c
  cases pc with
  | loadPos => exact ⟨fun h => (by cases h), False.elim⟩
  | loadSequence pos =>
    refine ⟨fun h => ?_, False.elim⟩
    simp only [consumerStep] at h
    split at h
    · cases h
    · split at h <;> cases h
  | exchange pos =>
    refine ⟨fun h => ?_, False.elim⟩
    simp only [consumerStep] at h
    split at h <;> cases h
  | copy pos => exact ⟨fun h => (by cases h), False.elim⟩
  | store pos => exact ⟨fun h => (by cases h), False.elim⟩
  | succeeded pos => exact ⟨fun _ => trivial, fun _ => rfl⟩
  | failed => exact ⟨fun _ => trivial, fun _ => rfl⟩

/-- Nothing blocks an `enqueue`: it cannot move only if it has returned. -/
theorem producer_stuck_iff {i : Nat} {p : Producer T} (hi : s.producers[i]? = some p)
    (spurious : Bool) : step bufferMask s (.producer i spurious) = none ↔ p.pc.Returned := by
  rw [step, hi]
  exact Option.map_eq_none_iff.trans producerStep_eq_none_iff

/-- Nothing blocks a `dequeue`. -/
theorem consumer_stuck_iff {i : Nat} {c : Consumer T} (hi : s.consumers[i]? = some c)
    (spurious : Bool) : step bufferMask s (.consumer i spurious) = none ↔ c.pc.Returned := by
  rw [step, hi]
  exact Option.map_eq_none_iff.trans consumerStep_eq_none_iff

/-- Where no call can move, all of them have returned. -/
theorem atRest_iff : s.AtRest bufferMask ↔ s.Idle := by
  constructor
  · intro hrest
    refine ⟨fun p hp => ?_, fun c hc => ?_⟩
    · obtain ⟨i, hi⟩ := List.mem_iff_getElem?.1 hp
      exact (producer_stuck_iff hi false).1 (hrest (.producer i false) rfl)
    · obtain ⟨i, hi⟩ := List.mem_iff_getElem?.1 hc
      exact (consumer_stuck_iff hi false).1 (hrest (.consumer i false) rfl)
  · intro hidle a ha
    cases a with
    | enqueue data => cases ha
    | dequeue data => cases ha
    | producer i spurious =>
      cases hi : s.producers[i]? with
      | none => rw [step, hi]
      | some p =>
        exact (producer_stuck_iff hi spurious).2 (hidle.1 p (List.mem_of_getElem? hi))
    | consumer i spurious =>
      cases hi : s.consumers[i]? with
      | none => rw [step, hi]
      | some c =>
        exact (consumer_stuck_iff hi spurious).2 (hidle.2 c (List.mem_of_getElem? hi))

/-- Whatever `P` calls of `enqueue` and `C` calls of `dequeue` have done before, and however their
steps interleave, they have all returned after `P * (2 * P + 6) + C * (2 * C + 6)` steps, and
two more for every spurious failure; and each of them that has not returned can move, whatever the
others do. -/
theorem calls_return {k : Nat} (hk : 1 ≤ k) {data : Nat → T} {acts as : List (Act T)}
    {s t : State T} (hrun : exec (step (2 ^ k - 1)) (constructed data) acts = some s)
    (hcalls : ∀ a ∈ as, a.ofCall = true) (hlater : exec (step (2 ^ k - 1)) s as = some t) :
    as.length ≤ s.producers.length * (2 * s.producers.length + 6) +
        s.consumers.length * (2 * s.consumers.length + 6) + 2 * as.countP Act.spurious ∧
      (∀ i p spurious, t.producers[i]? = some p →
        (step (2 ^ k - 1) t (.producer i spurious) = none ↔ p.pc.Returned)) ∧
      (∀ i c spurious, t.consumers[i]? = some c →
        (step (2 ^ k - 1) t (.consumer i spurious) = none ↔ c.pc.Returned)) ∧
      (t.AtRest (2 ^ k - 1) ↔ t.Idle) := by
  have hmask := isMask_two_pow hk
  have hs : QueueInv (2 ^ k - 1) s :=
    exec_invariant (fun _ _ _ h hstep => h.step hmask (stepTo_of_step hstep))
      (QueueInv.constructed hmask data) hrun
  have hmeet : StepsMeet (step (2 ^ k - 1)) (fun _ a => a.ofCall = true) s as :=
    stepsMeet_of_forall_mem hcalls
  have hlength : t.work + as.length ≤ s.work + 2 * as.countP Act.spurious :=
    exec_length_le (p := Act.spurious)
      (fun u a v hu ha hv => ⟨hu.step hmask (stepTo_of_step hv), work_step hmask hu ha hv⟩)
      hs hmeet hlater
  have hwork := s.work_le
  exact ⟨by omega, fun i p spurious hi => producer_stuck_iff hi spurious,
    fun i c spurious hi => consumer_stuck_iff hi spurious, atRest_iff⟩

/-- Two `enqueue` calls that want the same position. -/
def contended : List (Act Nat) := [.enqueue 7, .enqueue 8]

/-- The second call loses the exchange, and gets the next position. -/
def contention : List (Act Nat) :=
  [.producer 0 false, .producer 1 false, .producer 0 false, .producer 1 false, .producer 0 false,
    .producer 1 false, .producer 1 false, .producer 1 true, .producer 1 false, .producer 1 false]

theorem calls_return_contention :
    ∃ s t, exec (step (2 ^ 1 - 1)) (constructed fun _ => 0) contended = some s ∧
      exec (step (2 ^ 1 - 1)) s contention = some t ∧
      contention.length ≤ s.producers.length * (2 * s.producers.length + 6) +
        s.consumers.length * (2 * s.consumers.length + 6) + 2 * contention.countP Act.spurious := by
  have hends : ∃ s, exec (step (2 ^ 1 - 1)) (constructed fun _ => 0) contended = some s ∧
      (exec (step (2 ^ 1 - 1)) s contention).isSome = true :=
    exists_exec_of_decide (by decide)
  obtain ⟨s, hs, hsome⟩ := hends
  obtain ⟨t, ht⟩ := Option.isSome_iff_exists.1 hsome
  exact ⟨s, t, hs, ht, (calls_return (by decide) hs (by decide) ht).1⟩

end Sparo.Base.MpmcBoundedQueue
