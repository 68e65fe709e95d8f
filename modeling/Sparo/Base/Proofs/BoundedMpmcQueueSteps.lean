import Sparo.Base.BoundedMpmcQueue

/-!
# The steps of the bounded queue

`StepTo` lists everything a step of the queue can do; `ProducerTo` and `ConsumerTo` do so for the
step of one `enqueue` call and of one `dequeue` call.
-/

namespace Sparo.Base.MpmcBoundedQueue

variable {T : Type*} {bufferMask : Nat} {s t : State T} {a : Act T} {spurious : Bool}

/-- A state with new data in a cell. -/
def State.setData (s : State T) (i : Nat) (data : T) : State T :=
  { s with buffer := Function.update s.buffer i { s.buffer i with data := data } }

/-- A state with a new sequence number in a cell. -/
def State.setSequence (s : State T) (i sequence : Nat) : State T :=
  { s with buffer := Function.update s.buffer i { s.buffer i with sequence := sequence } }

/-- What an `enqueue` call can do. -/
inductive ProducerTo (bufferMask : Nat) (s : State T) :
    Producer T → State T → Producer T → Prop where
  | loadPos (data : T) :
      ProducerTo bufferMask s ⟨.loadPos, data⟩ s ⟨.loadSequence s.enqueuePos, data⟩
  | matching (data : T) (pos : Nat)
      (hseq : (s.buffer (cellIndex bufferMask pos)).sequence = pos) :
      ProducerTo bufferMask s ⟨.loadSequence pos, data⟩ s ⟨.exchange pos, data⟩
  | full (data : T) (pos : Nat) :
      ProducerTo bufferMask s ⟨.loadSequence pos, data⟩ s ⟨.failed, data⟩
  | reload (data : T) (pos : Nat) :
      ProducerTo bufferMask s ⟨.loadSequence pos, data⟩ s ⟨.loadPos, data⟩
  | exchange (data : T) (pos : Nat) (hpos : s.enqueuePos = pos) :
      ProducerTo bufferMask s ⟨.exchange pos, data⟩ { s with enqueuePos := pos + 1 }
        ⟨.copy pos, data⟩
  | retry (data : T) (pos : Nat) :
      ProducerTo bufferMask s ⟨.exchange pos, data⟩ s ⟨.loadSequence s.enqueuePos, data⟩
  | copy (data : T) (pos : Nat) :
      ProducerTo bufferMask s ⟨.copy pos, data⟩ (s.setData (cellIndex bufferMask pos) data)
        ⟨.store pos, data⟩
  | store (data : T) (pos : Nat) :
      ProducerTo bufferMask s ⟨.store pos, data⟩
        (s.setSequence (cellIndex bufferMask pos) (pos + 1)) ⟨.succeeded pos, data⟩

theorem producerTo_of_producerStep {p p' : Producer T}
    (h : producerStep bufferMask s p spurious = some (t, p')) : ProducerTo bufferMask s p t p' := by
  obtain ⟨pc, data⟩ := p
  cases pc with
  | loadPos =>
    cases h
    exact .loadPos data
  | loadSequence pos =>
    simp only [producerStep] at h
    split at h
    · next hseq =>
      cases h
      exact .matching data pos hseq
    · split at h
      · cases h
        exact .full data pos
      · cases h
        exact .reload data pos
  | exchange pos =>
    simp only [producerStep] at h
    split at h
    · next hpos =>
      cases h
      exact .exchange data pos hpos.1
    · cases h
      exact .retry data pos
  | copy pos =>
    cases h
    exact .copy data pos
  | store pos =>
    cases h
    exact .store data pos
  | succeeded pos => cases h
  | failed => cases h

/-- What a `dequeue` call can do. -/
inductive ConsumerTo (bufferMask : Nat) (s : State T) :
    Consumer T → State T → Consumer T → Prop where
  | loadPos (data : T) :
      ConsumerTo bufferMask s ⟨.loadPos, data⟩ s ⟨.loadSequence s.dequeuePos, data⟩
  | matching (data : T) (pos : Nat)
      (hseq : (s.buffer (cellIndex bufferMask pos)).sequence = pos + 1) :
      ConsumerTo bufferMask s ⟨.loadSequence pos, data⟩ s ⟨.exchange pos, data⟩
  | empty (data : T) (pos : Nat) :
      ConsumerTo bufferMask s ⟨.loadSequence pos, data⟩ s ⟨.failed, data⟩
  | reload (data : T) (pos : Nat) :
      ConsumerTo bufferMask s ⟨.loadSequence pos, data⟩ s ⟨.loadPos, data⟩
  | exchange (data : T) (pos : Nat) (hpos : s.dequeuePos = pos) :
      ConsumerTo bufferMask s ⟨.exchange pos, data⟩ { s with dequeuePos := pos + 1 }
        ⟨.copy pos, data⟩
  | retry (data : T) (pos : Nat) :
      ConsumerTo bufferMask s ⟨.exchange pos, data⟩ s ⟨.loadSequence s.dequeuePos, data⟩
  | copy (data : T) (pos : Nat) :
      ConsumerTo bufferMask s ⟨.copy pos, data⟩ s
        ⟨.store pos, (s.buffer (cellIndex bufferMask pos)).data⟩
  | store (data : T) (pos : Nat) :
      ConsumerTo bufferMask s ⟨.store pos, data⟩
        (s.setSequence (cellIndex bufferMask pos) (pos + bufferMask + 1)) ⟨.succeeded pos, data⟩

theorem consumerTo_of_consumerStep {c c' : Consumer T}
    (h : consumerStep bufferMask s c spurious = some (t, c')) : ConsumerTo bufferMask s c t c' := by
  obtain ⟨pc, data⟩ := c
  cases pc with
  | loadPos =>
    cases h
    exact .loadPos data
  | loadSequence pos =>
    simp only [consumerStep] at h
    split at h
    · next hseq =>
      cases h
      exact .matching data pos hseq
    · split at h
      · cases h
        exact .empty data pos
      · cases h
        exact .reload data pos
  | exchange pos =>
    simp only [consumerStep] at h
    split at h
    · next hpos =>
      cases h
      exact .exchange data pos hpos.1
    · cases h
      exact .retry data pos
  | copy pos =>
    cases h
    exact .copy data pos
  | store pos =>
    cases h
    exact .store data pos
  | succeeded pos => cases h
  | failed => cases h

/-- What a step of the queue can do. -/
inductive StepTo (bufferMask : Nat) (s : State T) : Act T → State T → Prop where
  | enqueue (data : T) :
      StepTo bufferMask s (.enqueue data) { s with producers := s.producers ++ [⟨.loadPos, data⟩] }
  | dequeue (data : T) :
      StepTo bufferMask s (.dequeue data) { s with consumers := s.consumers ++ [⟨.loadPos, data⟩] }
  | producer (i : Nat) (spurious : Bool) (p p' : Producer T) (t : State T)
      (hi : s.producers[i]? = some p) (h : ProducerTo bufferMask s p t p') :
      StepTo bufferMask s (.producer i spurious) { t with producers := t.producers.set i p' }
  | consumer (i : Nat) (spurious : Bool) (c c' : Consumer T) (t : State T)
      (hi : s.consumers[i]? = some c) (h : ConsumerTo bufferMask s c t c') :
      StepTo bufferMask s (.consumer i spurious) { t with consumers := t.consumers.set i c' }

/-- Every step is one of the listed ones. -/
theorem stepTo_of_step (h : step bufferMask s a = some t) : StepTo bufferMask s a t := by
  cases a with
  | enqueue data =>
    cases h
    exact .enqueue data
  | dequeue data =>
    cases h
    exact .dequeue data
  | producer i spurious =>
    simp only [step] at h
    split at h
    · cases h
    · next p hi =>
      obtain ⟨⟨u, p'⟩, hu, rfl⟩ := Option.map_eq_some_iff.mp h
      exact .producer i spurious p p' u hi (producerTo_of_producerStep hu)
  | consumer i spurious =>
    simp only [step] at h
    split at h
    · cases h
    · next c hi =>
      obtain ⟨⟨u, c'⟩, hu, rfl⟩ := Option.map_eq_some_iff.mp h
      exact .consumer i spurious c c' u hi (consumerTo_of_consumerStep hu)

section

variable (s : State T) (i j sequence : Nat) (data : T)

@[simp] theorem setData_sequence :
    ((s.setData i data).buffer j).sequence = (s.buffer j).sequence := by
  by_cases hj : j = i
  · subst hj
    simp [State.setData]
  · simp [State.setData, hj]

@[simp] theorem setSequence_data :
    ((s.setSequence i sequence).buffer j).data = (s.buffer j).data := by
  by_cases hj : j = i
  · subst hj
    simp [State.setSequence]
  · simp [State.setSequence, hj]

@[simp] theorem setData_data_self : ((s.setData i data).buffer i).data = data := by
  simp [State.setData]

@[simp] theorem setSequence_sequence_self :
    ((s.setSequence i sequence).buffer i).sequence = sequence := by
  simp [State.setSequence]

variable {i j}

theorem setData_of_ne (hj : j ≠ i) : (s.setData i data).buffer j = s.buffer j := by
  simp [State.setData, hj]

theorem setSequence_of_ne (hj : j ≠ i) : (s.setSequence i sequence).buffer j = s.buffer j := by
  simp [State.setSequence, hj]

end

end Sparo.Base.MpmcBoundedQueue
