import Sparo.Base.Proofs.BoundedMpmcQueueFifo

/-!
# The bounded queue is full or empty where it says so

A call that returns `false` has read a sequence number below the one it looked for. Its position may
have been loaded long before, but sequence numbers and positions only grow, so the position is still
the current one and the call that must come first has not stored its sequence number.
-/

namespace Sparo.Base.MpmcBoundedQueue

open StepSystem Tickets

variable {T : Type*} {bufferMask : Nat} {s t : State T} {a : Act T}

/-! ## Sequence numbers only grow -/

/-- A step raises a sequence number or leaves it, and so it does with the positions. -/
structure Grows (s t : State T) : Prop where
  enqueuePos : s.enqueuePos ≤ t.enqueuePos
  dequeuePos : s.dequeuePos ≤ t.dequeuePos
  sequence : ∀ i, (s.buffer i).sequence ≤ (t.buffer i).sequence

/-- The calls are nothing that grows. -/
theorem grows_calls (s : State T) (producers : List (Producer T)) (consumers : List (Consumer T)) :
    Grows s { s with producers := producers, consumers := consumers } :=
  ⟨le_rfl, le_rfl, fun _ => le_rfl⟩

theorem grows_setSequence {i sequence : Nat} (h : (s.buffer i).sequence ≤ sequence) :
    Grows s (s.setSequence i sequence) := by
  refine ⟨le_rfl, le_rfl, fun j => ?_⟩
  by_cases hj : j = i
  · subst hj
    rwa [setSequence_sequence_self]
  · rw [setSequence_of_ne _ _ hj]

theorem grows_step (hs : QueueInv bufferMask s) (h : StepTo bufferMask s a t) : Grows s t := by
  cases h with
  | enqueue data | dequeue data => exact grows_calls s _ _
  | producer i spurious p p' u hi hp =>
    cases hp with
    | loadPos | matching | full | reload | retry => exact grows_calls s _ _
    | exchange data pos hpos => exact ⟨hpos ▸ Nat.le_succ pos, le_rfl, fun _ => le_rfl⟩
    | copy data pos => exact ⟨le_rfl, le_rfl, fun j => (setData_sequence s _ j data).ge⟩
    | store data pos =>
      have hseq : (s.buffer (cellIndex bufferMask pos)).sequence = pos := (hs.producer i _ hi).1
      exact { grows_setSequence (hseq.trans_le (Nat.le_succ pos)) with }
  | consumer i spurious c c' u hi hc =>
    cases hc with
    | loadPos | matching | empty | reload | retry | copy => exact grows_calls s _ _
    | exchange data pos hpos => exact ⟨le_rfl, hpos ▸ Nat.le_succ pos, fun _ => le_rfl⟩
    | store data pos =>
      have hseq : (s.buffer (cellIndex bufferMask pos)).sequence = pos + 1 :=
        (hs.consumer i _ hi).1
      have hle : pos + 1 ≤ pos + bufferMask + 1 := by omega
      exact { grows_setSequence (hseq.trans_le hle) with }

/-! ## What calls have read and stored -/

/-- An `enqueue` holds a position that was once the current one; after it has returned, its cell is
past its ticket. -/
def Producer.Past (bufferMask : Nat) (s : State T) (p : Producer T) : Prop :=
  match p.pc with
  | .loadSequence pos => pos ≤ s.enqueuePos
  | .succeeded pos => pos + 1 ≤ (s.buffer (cellIndex bufferMask pos)).sequence
  | .loadPos | .exchange _ | .copy _ | .store _ | .failed => True

/-- A `dequeue` holds a position that was once the current one; after it has returned, its cell is
free for the next revolution or further. -/
def Consumer.Past (bufferMask : Nat) (s : State T) (c : Consumer T) : Prop :=
  match c.pc with
  | .loadSequence pos => pos ≤ s.dequeuePos
  | .succeeded pos => pos + bufferMask + 1 ≤ (s.buffer (cellIndex bufferMask pos)).sequence
  | .loadPos | .exchange _ | .copy _ | .store _ | .failed => True

theorem Producer.Past.mono {p : Producer T} (h : p.Past bufferMask s) (hgrows : Grows s t) :
    p.Past bufferMask t := by
  obtain ⟨pc, data⟩ := p
  cases pc with
  | loadSequence pos => exact Nat.le_trans h hgrows.enqueuePos
  | succeeded pos => exact Nat.le_trans h (hgrows.sequence _)
  | loadPos | exchange | copy | store | failed => trivial

theorem Consumer.Past.mono {c : Consumer T} (h : c.Past bufferMask s) (hgrows : Grows s t) :
    c.Past bufferMask t := by
  obtain ⟨pc, data⟩ := c
  cases pc with
  | loadSequence pos => exact Nat.le_trans h hgrows.dequeuePos
  | succeeded pos => exact Nat.le_trans h (hgrows.sequence _)
  | loadPos | exchange | copy | store | failed => trivial

/-- All calls are past what they have read and stored. -/
structure PastInv (bufferMask : Nat) (s : State T) : Prop where
  queue : QueueInv bufferMask s
  producer : ∀ p ∈ s.producers, p.Past bufferMask s
  consumer : ∀ c ∈ s.consumers, c.Past bufferMask s

theorem PastInv.constructed (hmask : IsMask bufferMask) (data : Nat → T) :
    PastInv bufferMask (constructed data) :=
  ⟨.constructed hmask data, fun _ hp => absurd hp List.not_mem_nil,
    fun _ hc => absurd hc List.not_mem_nil⟩

/-- A step changes one call or brings a new one. -/
theorem PastInv.of_calls (hs : PastInv bufferMask s) (ht : QueueInv bufferMask t)
    (hgrows : Grows s t)
    (hproducer : ∀ p ∈ t.producers, p ∈ s.producers ∨ p.Past bufferMask t)
    (hconsumer : ∀ c ∈ t.consumers, c ∈ s.consumers ∨ c.Past bufferMask t) :
    PastInv bufferMask t where
  queue := ht
  producer p hp := (hproducer p hp).elim (fun hp => (hs.producer p hp).mono hgrows) id
  consumer c hc := (hconsumer c hc).elim (fun hc => (hs.consumer c hc).mono hgrows) id

theorem PastInv.step (hmask : IsMask bufferMask) (hs : PastInv bufferMask s)
    (h : StepTo bufferMask s a t) : PastInv bufferMask t := by
  have hgrows := grows_step hs.queue h
  have ht := hs.queue.step hmask h
  cases h with
  | enqueue data =>
    refine hs.of_calls ht hgrows (fun p hp => ?_) fun c hc => .inl hc
    exact (List.mem_append.mp hp).imp_right fun hp => by
      rw [List.mem_singleton] at hp
      subst hp
      trivial
  | dequeue data =>
    refine hs.of_calls ht hgrows (fun p hp => .inl hp) fun c hc => ?_
    exact (List.mem_append.mp hc).imp_right fun hc => by
      rw [List.mem_singleton] at hc
      subst hc
      trivial
  | producer i spurious p p' u hi hp =>
    have hmoved : p'.Past bufferMask { u with producers := u.producers.set i p' } := by
      cases hp with
      | loadPos | retry => exact le_rfl
      | store data pos => exact (setSequence_sequence_self s _ (pos + 1)).ge
      | matching | full | reload | exchange | copy => trivial
    have hkept : u.producers = s.producers ∧ u.consumers = s.consumers := by
      cases hp <;> exact ⟨rfl, rfl⟩
    refine hs.of_calls ht hgrows (fun q hq => ?_) fun c hc => .inl (hkept.2 ▸ hc)
    rcases List.mem_or_eq_of_mem_set hq with hq | rfl
    · exact .inl (hkept.1 ▸ hq)
    · exact .inr hmoved
  | consumer i spurious c c' u hi hc =>
    have hmoved : c'.Past bufferMask { u with consumers := u.consumers.set i c' } := by
      cases hc with
      | loadPos | retry => exact le_rfl
      | store data pos =>
        exact (setSequence_sequence_self s _ (pos + bufferMask + 1)).ge
      | matching | empty | reload | exchange | copy => trivial
    have hkept : u.producers = s.producers ∧ u.consumers = s.consumers := by
      cases hc <;> exact ⟨rfl, rfl⟩
    refine hs.of_calls ht hgrows (fun p hp => .inl (hkept.1 ▸ hp)) fun d hd => ?_
    rcases List.mem_or_eq_of_mem_set hd with hd | rfl
    · exact .inl (hkept.2 ▸ hd)
    · exact .inr hmoved

/-! ## Calls that return `false` -/

/-- What an `enqueue` with this position finds when it returns `false`: the position is the current
one, and the `dequeue` one revolution before it has not stored its sequence number. -/
structure FullAt (bufferMask : Nat) (s : State T) (pos : Nat) : Prop where
  current : s.enqueuePos = pos
  revolution : bufferMask + 1 ≤ pos
  pending : ∀ c ∈ s.consumers, c.pc ≠ .succeeded (pos - (bufferMask + 1))

/-- What a `dequeue` with this position finds when it returns `false`: the position is the current
one, and the `enqueue` of it has not stored its sequence number. -/
structure EmptyAt (s : State T) (pos : Nat) : Prop where
  current : s.dequeuePos = pos
  pending : ∀ p ∈ s.producers, p.pc ≠ .succeeded pos

theorem PastInv.fullAt (hmask : IsMask bufferMask) (hs : PastInv bufferMask s) {pos : Nat}
    (hpos : pos ≤ s.enqueuePos)
    (hseq : (s.buffer (cellIndex bufferMask pos)).sequence < pos) : FullAt bufferMask s pos := by
  have henqueue := hs.queue.enqueue_le
  -- the cell stands for the position one revolution back, which is the first not dequeued
  obtain ⟨n, hn, hindex, hlt⟩ : ∃ n, n + (bufferMask + 1) = pos ∧
      cellIndex bufferMask n = cellIndex bufferMask pos ∧
      (s.buffer (cellIndex bufferMask pos)).sequence ≤ n + 1 ∧ s.enqueuePos = pos := by
    cases hs.queue.cell pos with
    | free n hindex hn hle hlt =>
      have hback := hmask.add_le_of_index_eq hindex (by omega)
      exact ⟨n, by omega, hindex, by omega, by omega⟩
    | full n hindex hn hlt hle hdata =>
      have hback := hmask.add_le_of_index_eq hindex (by omega)
      exact ⟨n, by omega, hindex, by omega, by omega⟩
  refine ⟨hlt.2, by omega, fun c hc hpc => ?_⟩
  have hback : pos - (bufferMask + 1) = n := by omega
  have hpast := hs.consumer c hc
  rw [hback] at hpc
  rw [Consumer.Past, hpc] at hpast
  dsimp only at hpast
  rw [hindex] at hpast
  have := hmask.pos
  omega

theorem PastInv.emptyAt (hmask : IsMask bufferMask) (hs : PastInv bufferMask s) {pos : Nat}
    (hpos : pos ≤ s.dequeuePos)
    (hseq : (s.buffer (cellIndex bufferMask pos)).sequence < pos + 1) : EmptyAt s pos := by
  have hdequeue := hs.queue.dequeue_le
  have hcurrent : s.dequeuePos = pos := by
    cases hs.queue.cell pos with
    | free n hindex hn hle hlt => omega
    | full n hindex hn hlt hle hdata =>
      have hback := hmask.add_le_of_index_eq hindex (by omega)
      omega
  refine ⟨hcurrent, fun p hp hpc => ?_⟩
  have hpast := hs.producer p hp
  rw [Producer.Past, hpc] at hpast
  exact Nat.not_lt.mpr hpast hseq

/-- An `enqueue` returns `false` at a load of a sequence number below its position. -/
theorem failed_of_producerStep {p p' : Producer T} {spurious : Bool}
    (h : producerStep bufferMask s p spurious = some (t, p')) (hfailed : p'.pc = .failed) :
    ∃ pos, p.pc = .loadSequence pos ∧ (s.buffer (cellIndex bufferMask pos)).sequence < pos := by
  obtain ⟨pc, data⟩ := p
  cases pc with
  | loadSequence pos =>
    simp only [producerStep] at h
    split at h
    · cases h
      cases hfailed
    · split at h
      · next hlt => exact ⟨pos, rfl, hlt⟩
      · cases h
        cases hfailed
  | exchange pos =>
    simp only [producerStep] at h
    split at h <;>
      · cases h
        cases hfailed
  | loadPos | copy | store =>
    cases h
    cases hfailed
  | succeeded | failed => cases h

/-- A `dequeue` returns `false` at a load of a sequence number below the one it looks for. -/
theorem failed_of_consumerStep {c c' : Consumer T} {spurious : Bool}
    (h : consumerStep bufferMask s c spurious = some (t, c')) (hfailed : c'.pc = .failed) :
    ∃ pos, c.pc = .loadSequence pos ∧
      (s.buffer (cellIndex bufferMask pos)).sequence < pos + 1 := by
  obtain ⟨pc, data⟩ := c
  cases pc with
  | loadSequence pos =>
    simp only [consumerStep] at h
    split at h
    · cases h
      cases hfailed
    · split at h
      · next hlt => exact ⟨pos, rfl, hlt⟩
      · cases h
        cases hfailed
  | exchange pos =>
    simp only [consumerStep] at h
    split at h <;>
      · cases h
        cases hfailed
  | loadPos | copy | store =>
    cases h
    cases hfailed
  | succeeded | failed => cases h

theorem PastInv.fullAt_of_step (hmask : IsMask bufferMask) (hs : PastInv bufferMask s) {i : Nat}
    {spurious : Bool} {p' : Producer T}
    (hstep : MpmcBoundedQueue.step bufferMask s (.producer i spurious) = some t)
    (hp' : t.producers[i]? = some p') (hfailed : p'.pc = .failed) :
    ∃ pos v, s.producers[i]? = some ⟨.loadSequence pos, v⟩ ∧ FullAt bufferMask s pos := by
  simp only [MpmcBoundedQueue.step] at hstep
  split at hstep
  · cases hstep
  · next p hi =>
    obtain ⟨⟨u, q⟩, hu, rfl⟩ := Option.map_eq_some_iff.mp hstep
    obtain rfl : p' = q := by
      rcases getElem?_set_cases hp' with ⟨-, heq⟩ | ⟨hne, -⟩
      · exact heq
      · exact absurd rfl hne
    obtain ⟨pc, v⟩ := p
    obtain ⟨pos, rfl, hseq⟩ := failed_of_producerStep hu hfailed
    have hpos : pos ≤ s.enqueuePos := hs.producer _ (List.mem_of_getElem? hi)
    exact ⟨pos, v, hi, hs.fullAt hmask hpos hseq⟩

theorem PastInv.emptyAt_of_step (hmask : IsMask bufferMask) (hs : PastInv bufferMask s) {i : Nat}
    {spurious : Bool} {c' : Consumer T}
    (hstep : MpmcBoundedQueue.step bufferMask s (.consumer i spurious) = some t)
    (hc' : t.consumers[i]? = some c') (hfailed : c'.pc = .failed) :
    ∃ pos v, s.consumers[i]? = some ⟨.loadSequence pos, v⟩ ∧ EmptyAt s pos := by
  simp only [MpmcBoundedQueue.step] at hstep
  split at hstep
  · cases hstep
  · next c hi =>
    obtain ⟨⟨u, d⟩, hu, rfl⟩ := Option.map_eq_some_iff.mp hstep
    obtain rfl : c' = d := by
      rcases getElem?_set_cases hc' with ⟨-, heq⟩ | ⟨hne, -⟩
      · exact heq
      · exact absurd rfl hne
    obtain ⟨pc, v⟩ := c
    obtain ⟨pos, rfl, hseq⟩ := failed_of_consumerStep hu hfailed
    have hpos : pos ≤ s.dequeuePos := hs.consumer _ (List.mem_of_getElem? hi)
    exact ⟨pos, v, hi, hs.emptyAt hmask hpos hseq⟩

/-! ## Calls that run alone -/

/-- The call has returned. -/
def ProducerPc.Returned : ProducerPc → Prop
  | .succeeded _ | .failed => True
  | .loadPos | .loadSequence _ | .exchange _ | .copy _ | .store _ => False

instance : DecidablePred ProducerPc.Returned
  | .succeeded _ | .failed => isTrue trivial
  | .loadPos | .loadSequence _ | .exchange _ | .copy _ | .store _ => isFalse id

/-- The call has returned. -/
def ConsumerPc.Returned : ConsumerPc → Prop
  | .succeeded _ | .failed => True
  | .loadPos | .loadSequence _ | .exchange _ | .copy _ | .store _ => False

instance : DecidablePred ConsumerPc.Returned
  | .succeeded _ | .failed => isTrue trivial
  | .loadPos | .loadSequence _ | .exchange _ | .copy _ | .store _ => isFalse id

/-- No operation is in progress. What is stored then lies between the two positions. -/
def State.Idle (s : State T) : Prop :=
  (∀ p ∈ s.producers, p.pc.Returned) ∧ ∀ c ∈ s.consumers, c.pc.Returned

instance (s : State T) : Decidable s.Idle := inferInstanceAs (Decidable (_ ∧ _))

theorem PastInv.sequence_of_enqueued (hs : PastInv bufferMask s) (hidle : s.Idle) {n : Nat}
    (hn : n < s.enqueuePos) : n + 1 ≤ (s.buffer (cellIndex bufferMask n)).sequence := by
  obtain ⟨⟨pc, data⟩, hp, hticket⟩ := hs.queue.enqueued.exists_of_lt hn
  cases pc with
  | succeeded pos =>
    obtain rfl : pos = n := Option.some.inj hticket
    exact hs.producer _ hp
  | copy | store => exact (hidle.1 _ hp).elim
  | loadPos | loadSequence | exchange | failed => cases hticket

theorem PastInv.sequence_of_dequeued (hs : PastInv bufferMask s) (hidle : s.Idle) {n : Nat}
    (hn : n < s.dequeuePos) :
    n + bufferMask + 1 ≤ (s.buffer (cellIndex bufferMask n)).sequence := by
  obtain ⟨⟨pc, data⟩, hc, hticket⟩ := hs.queue.dequeued.exists_of_lt hn
  cases pc with
  | succeeded pos =>
    obtain rfl : pos = n := Option.some.inj hticket
    exact hs.consumer _ hc
  | copy | store => exact (hidle.2 _ hc).elim
  | loadPos | loadSequence | exchange | failed => cases hticket

/-- The cell that the next `enqueue` looks at. -/
theorem PastInv.enqueue_cell (hmask : IsMask bufferMask) (hs : PastInv bufferMask s)
    (hidle : s.Idle) :
    (s.enqueuePos = s.dequeuePos + (bufferMask + 1) ∧
        (s.buffer (cellIndex bufferMask s.enqueuePos)).sequence < s.enqueuePos) ∨
      (s.enqueuePos < s.dequeuePos + (bufferMask + 1) ∧
        (s.buffer (cellIndex bufferMask s.enqueuePos)).sequence = s.enqueuePos) := by
  have hmaskPos := hmask.pos
  have hdequeue := hs.queue.dequeue_le
  have henqueue := hs.queue.enqueue_le
  cases hs.queue.cell s.enqueuePos with
  | free n hindex hn hle hlt =>
    rcases Nat.lt_trichotomy n s.enqueuePos with hnlt | heq | hngt
    · have hstored := hs.sequence_of_enqueued hidle hnlt
      rw [hindex] at hstored
      omega
    · exact .inr ⟨heq ▸ hlt, hn.trans heq⟩
    · have := hmask.add_le_of_index_eq hindex.symm hngt
      omega
  | full n hindex hn hlt hle hdata =>
    have hback := hmask.add_le_of_index_eq hindex hlt
    by_cases hgone : n < s.dequeuePos
    · have hstored := hs.sequence_of_dequeued hidle hgone
      rw [hindex] at hstored
      omega
    · exact .inl ⟨by omega, by omega⟩

/-- The cell that the next `dequeue` looks at. -/
theorem PastInv.dequeue_cell (hmask : IsMask bufferMask) (hs : PastInv bufferMask s)
    (hidle : s.Idle) :
    (s.enqueuePos = s.dequeuePos ∧
        (s.buffer (cellIndex bufferMask s.dequeuePos)).sequence < s.dequeuePos + 1) ∨
      (s.dequeuePos < s.enqueuePos ∧
        (s.buffer (cellIndex bufferMask s.dequeuePos)).sequence = s.dequeuePos + 1) := by
  have hdequeue := hs.queue.dequeue_le
  have henqueue := hs.queue.enqueue_le
  cases hs.queue.cell s.dequeuePos with
  | free n hindex hn hle hlt =>
    obtain rfl : n = s.dequeuePos := by
      rw [hmask.index, hmask.index] at hindex
      exact CircularIndex.eq_of_mod_eq hindex hle hlt (Nat.le_refl _) (by omega)
    by_cases hempty : s.enqueuePos = s.dequeuePos
    · exact .inl ⟨hempty, by omega⟩
    · have hstored := hs.sequence_of_enqueued hidle (Nat.lt_of_le_of_ne hdequeue (Ne.symm hempty))
      omega
  | full n hindex hn hlt hle hdata =>
    rcases Nat.lt_trichotomy n s.dequeuePos with hnlt | heq | hngt
    · have := hmask.add_le_of_index_eq hindex hnlt
      exact .inl ⟨by omega, by omega⟩
    · exact .inr ⟨by omega, by omega⟩
    · have := hmask.add_le_of_index_eq hindex.symm hngt
      omega

/-- Where an `enqueue` is that runs alone from `s`. -/
def SoloEnqueue (bufferMask : Nat) (s t : State T) : ProducerPc → Prop
  | .loadPos => t.buffer = s.buffer ∧ t.enqueuePos = s.enqueuePos
  | .loadSequence pos =>
    pos = s.enqueuePos ∧ t.buffer = s.buffer ∧ t.enqueuePos = s.enqueuePos
  | .exchange pos =>
    pos = s.enqueuePos ∧ t.buffer = s.buffer ∧ t.enqueuePos = s.enqueuePos ∧
      s.enqueuePos < s.dequeuePos + (bufferMask + 1)
  | .copy _ | .store _ | .succeeded _ => s.enqueuePos < s.dequeuePos + (bufferMask + 1)
  | .failed => s.enqueuePos = s.dequeuePos + (bufferMask + 1)

/-- The steps that are left, if no exchange fails spuriously. -/
def ProducerPc.remaining : ProducerPc → Nat
  | .loadPos => 5
  | .loadSequence _ => 4
  | .exchange _ => 3
  | .copy _ => 2
  | .store _ => 1
  | .succeeded _ | .failed => 0

/-- An `enqueue` that runs alone goes on until it returns. -/
theorem SoloEnqueue.step (hmask : IsMask bufferMask) (hs : PastInv bufferMask s) (hidle : s.Idle)
    {pc : ProducerPc} (h : SoloEnqueue bufferMask s t pc) (hpc : ¬pc.Returned) (data : T)
    (spurious : Bool) :
    ∃ u pc', producerStep bufferMask t ⟨pc, data⟩ spurious = some (u, ⟨pc', data⟩) ∧
      u.producers = t.producers ∧ SoloEnqueue bufferMask s u pc' ∧
      (spurious = false → pc'.remaining < pc.remaining) := by
  cases pc with
  | loadPos =>
    exact ⟨t, _, rfl, rfl, ⟨h.2, h⟩, fun _ => Nat.lt_succ_self 4⟩
  | loadSequence pos =>
    obtain ⟨rfl, hbuffer, hpos⟩ := h
    rcases hs.enqueue_cell hmask hidle with ⟨hfull, hseq⟩ | ⟨hroom, hseq⟩
    · refine ⟨t, .failed, ?_, rfl, hfull, fun _ => Nat.succ_pos 3⟩
      simp only [producerStep, hbuffer]
      rw [if_neg (Nat.ne_of_lt hseq), if_pos hseq]
    · refine ⟨t, .exchange s.enqueuePos, ?_, rfl, ⟨rfl, hbuffer, hpos, hroom⟩,
        fun _ => Nat.lt_succ_self 3⟩
      simp only [producerStep, hbuffer]
      rw [if_pos hseq]
  | exchange pos =>
    obtain ⟨rfl, hbuffer, hpos, hroom⟩ := h
    cases spurious with
    | false =>
      exact ⟨_, .copy s.enqueuePos, if_pos ⟨hpos, rfl⟩, rfl, hroom, fun _ => Nat.lt_succ_self 2⟩
    | true =>
      refine ⟨t, .loadSequence t.enqueuePos, if_neg (fun hok => ?_), rfl, ⟨hpos, hbuffer, hpos⟩,
        fun hok => ?_⟩
      · cases hok.2
      · cases hok
  | copy pos => exact ⟨_, _, rfl, rfl, h, fun _ => Nat.lt_succ_self 1⟩
  | store pos => exact ⟨_, _, rfl, rfl, h, fun _ => Nat.lt_succ_self 0⟩
  | succeeded | failed => exact absurd trivial hpc

/-- Where a `dequeue` is that runs alone from `s`. -/
def SoloDequeue (s t : State T) : ConsumerPc → Prop
  | .loadPos => t.buffer = s.buffer ∧ t.dequeuePos = s.dequeuePos
  | .loadSequence pos =>
    pos = s.dequeuePos ∧ t.buffer = s.buffer ∧ t.dequeuePos = s.dequeuePos
  | .exchange pos =>
    pos = s.dequeuePos ∧ t.buffer = s.buffer ∧ t.dequeuePos = s.dequeuePos ∧
      s.dequeuePos < s.enqueuePos
  | .copy _ | .store _ | .succeeded _ => s.dequeuePos < s.enqueuePos
  | .failed => s.enqueuePos = s.dequeuePos

/-- The steps that are left, if no exchange fails spuriously. -/
def ConsumerPc.remaining : ConsumerPc → Nat
  | .loadPos => 5
  | .loadSequence _ => 4
  | .exchange _ => 3
  | .copy _ => 2
  | .store _ => 1
  | .succeeded _ | .failed => 0

/-- A `dequeue` that runs alone goes on until it returns. -/
theorem SoloDequeue.step (hmask : IsMask bufferMask) (hs : PastInv bufferMask s) (hidle : s.Idle)
    {pc : ConsumerPc} (h : SoloDequeue s t pc) (hpc : ¬pc.Returned) (data : T) (spurious : Bool) :
    ∃ u c, consumerStep bufferMask t ⟨pc, data⟩ spurious = some (u, c) ∧
      u.consumers = t.consumers ∧ SoloDequeue s u c.pc ∧
      (spurious = false → c.pc.remaining < pc.remaining) := by
  cases pc with
  | loadPos =>
    exact ⟨t, _, rfl, rfl, ⟨h.2, h⟩, fun _ => Nat.lt_succ_self 4⟩
  | loadSequence pos =>
    obtain ⟨rfl, hbuffer, hpos⟩ := h
    rcases hs.dequeue_cell hmask hidle with ⟨hempty, hseq⟩ | ⟨hitem, hseq⟩
    · refine ⟨t, ⟨.failed, data⟩, ?_, rfl, hempty, fun _ => Nat.succ_pos 3⟩
      simp only [consumerStep, hbuffer]
      rw [if_neg (Nat.ne_of_lt hseq), if_pos hseq]
    · refine ⟨t, ⟨.exchange s.dequeuePos, data⟩, ?_, rfl, ⟨rfl, hbuffer, hpos, hitem⟩,
        fun _ => Nat.lt_succ_self 3⟩
      simp only [consumerStep, hbuffer]
      rw [if_pos hseq]
  | exchange pos =>
    obtain ⟨rfl, hbuffer, hpos, hitem⟩ := h
    cases spurious with
    | false =>
      exact ⟨_, ⟨.copy s.dequeuePos, data⟩, if_pos ⟨hpos, rfl⟩, rfl, hitem,
        fun _ => Nat.lt_succ_self 2⟩
    | true =>
      refine ⟨t, ⟨.loadSequence t.dequeuePos, data⟩, if_neg (fun hok => ?_), rfl,
        ⟨hpos, hbuffer, hpos⟩, fun hok => ?_⟩
      · cases hok.2
      · cases hok
  | copy pos => exact ⟨_, _, rfl, rfl, h, fun _ => Nat.lt_succ_self 1⟩
  | store pos => exact ⟨_, _, rfl, rfl, h, fun _ => Nat.lt_succ_self 0⟩
  | succeeded | failed => exact absurd trivial hpc

/-- The calls of `s` and one more `enqueue`, which runs alone and has `n` steps left. -/
def WithEnqueue (bufferMask : Nat) (s : State T) (data : T) (n : Nat) (t : State T) : Prop :=
  ∃ pc : ProducerPc, t.producers = s.producers ++ [⟨pc, data⟩] ∧ pc.remaining = n ∧
    SoloEnqueue bufferMask s t pc

/-- It has returned, or whatever its exchange does it goes on alone. -/
theorem WithEnqueue.step (hmask : IsMask bufferMask) (hs : PastInv bufferMask s) (hidle : s.Idle)
    {data : T} {n : Nat} (h : WithEnqueue bufferMask s data n t) (spurious : Bool) :
    (∃ pc : ProducerPc, t.producers = s.producers ++ [⟨pc, data⟩] ∧ pc.Returned ∧
        MpmcBoundedQueue.step bufferMask t (.producer s.producers.length spurious) = none) ∨
      ∃ m u, MpmcBoundedQueue.step bufferMask t (.producer s.producers.length spurious) = some u ∧
        WithEnqueue bufferMask s data m u ∧ (spurious = false → m < n) := by
  obtain ⟨pc, hcalls, rfl, hsolo⟩ := h
  have hcall : t.producers[s.producers.length]? = some ⟨pc, data⟩ := by simp [hcalls]
  by_cases hpc : pc.Returned
  · refine .inl ⟨pc, hcalls, hpc, ?_⟩
    have hdone : producerStep bufferMask t ⟨pc, data⟩ spurious = none := by
      cases pc with
      | succeeded | failed => rfl
      | loadPos | loadSequence | exchange | copy | store => exact hpc.elim
    simp only [MpmcBoundedQueue.step, hcall, hdone, Option.map_none]
  · obtain ⟨u, pc', hstep, hkept, hsolo', hless⟩ := hsolo.step hmask hs hidle hpc data spurious
    refine .inr ⟨pc'.remaining,
      { u with producers := u.producers.set s.producers.length ⟨pc', data⟩ },
      ?_, ⟨pc', ?_, rfl, ?_⟩, hless⟩
    · simp only [MpmcBoundedQueue.step, hcall, hstep, Option.map_some]
    · simp [hkept, hcalls]
    · cases pc' <;> exact hsolo'

/-- The calls of `s` and one more `dequeue`, which runs alone and has `n` steps left. -/
def WithDequeue (s : State T) (n : Nat) (t : State T) : Prop :=
  ∃ c : Consumer T, t.consumers = s.consumers ++ [c] ∧ c.pc.remaining = n ∧ SoloDequeue s t c.pc

/-- It has returned, or whatever its exchange does it goes on alone. -/
theorem WithDequeue.step (hmask : IsMask bufferMask) (hs : PastInv bufferMask s) (hidle : s.Idle)
    {n : Nat} (h : WithDequeue s n t) (spurious : Bool) :
    (∃ c : Consumer T, t.consumers = s.consumers ++ [c] ∧ c.pc.Returned ∧
        MpmcBoundedQueue.step bufferMask t (.consumer s.consumers.length spurious) = none) ∨
      ∃ m u, MpmcBoundedQueue.step bufferMask t (.consumer s.consumers.length spurious) = some u ∧
        WithDequeue s m u ∧ (spurious = false → m < n) := by
  obtain ⟨⟨pc, data⟩, hcalls, rfl, hsolo⟩ := h
  have hcall : t.consumers[s.consumers.length]? = some ⟨pc, data⟩ := by simp [hcalls]
  by_cases hpc : pc.Returned
  · refine .inl ⟨⟨pc, data⟩, hcalls, hpc, ?_⟩
    have hdone : consumerStep bufferMask t ⟨pc, data⟩ spurious = none := by
      cases pc with
      | succeeded | failed => rfl
      | loadPos | loadSequence | exchange | copy | store => exact hpc.elim
    simp only [MpmcBoundedQueue.step, hcall, hdone, Option.map_none]
  · obtain ⟨u, ⟨pc', data'⟩, hstep, hkept, hsolo', hless⟩ :=
      hsolo.step hmask hs hidle hpc data spurious
    refine .inr ⟨pc'.remaining,
      { u with consumers := u.consumers.set s.consumers.length ⟨pc', data'⟩ },
      ?_, ⟨⟨pc', data'⟩, ?_, rfl, ?_⟩, hless⟩
    · simp only [MpmcBoundedQueue.step, hcall, hstep, Option.map_some]
    · simp [hkept, hcalls]
    · cases pc' <;> exact hsolo'

/-- `t` is reached from `s` by a new `enqueue` that runs alone, and it is there now. -/
def EnqueueAlone (bufferMask : Nat) (s : State T) (data : T) (t : State T) (pc : ProducerPc) :
    Prop :=
  ∃ flags : List Bool, exec (step bufferMask) s
      (.enqueue data :: flags.map (.producer s.producers.length)) = some t ∧
    t.producers[s.producers.length]? = some ⟨pc, data⟩

/-- `t` is reached from `s` by a new `dequeue` that runs alone, and it is there now. -/
def DequeueAlone (bufferMask : Nat) (s : State T) (data : T) (t : State T) (pc : ConsumerPc) :
    Prop :=
  ∃ (flags : List Bool) (data' : T), exec (step bufferMask) s
      (.dequeue data :: flags.map (.consumer s.consumers.length)) = some t ∧
    t.consumers[s.consumers.length]? = some ⟨pc, data'⟩

section Alone

variable (hmask : IsMask bufferMask) (hs : PastInv bufferMask s) (hidle : s.Idle) (data : T)

include hmask hs hidle

/-- With no other operation in progress an `enqueue` returns. -/
theorem enqueueAlone_returns :
    ∃ t pc, EnqueueAlone bufferMask s data t pc ∧ pc.Returned := by
  have hstart : WithEnqueue bufferMask s data 5
      { s with producers := s.producers ++ [⟨.loadPos, data⟩] } := ⟨.loadPos, rfl, rfl, rfl, rfl⟩
  have hcountdown : ∀ n t, WithEnqueue bufferMask s data n t →
      (∃ pc : ProducerPc, t.producers = s.producers ++ [⟨pc, data⟩] ∧ pc.Returned) ∨
        ∃ m u, m < n ∧ step bufferMask t (.producer s.producers.length false) = some u ∧
          WithEnqueue bufferMask s data m u := by
    intro n t h
    rcases h.step hmask hs hidle false with ⟨pc, hcalls, hpc, -⟩ | ⟨m, u, hu, hwith, hless⟩
    · exact .inl ⟨pc, hcalls, hpc⟩
    · exact .inr ⟨m, u, hless rfl, hu, hwith⟩
  obtain ⟨k, t, hrun, pc, hcalls, hpc⟩ := exists_exec_replicate hcountdown hstart
  refine ⟨t, pc, ⟨List.replicate k false, ?_, by simp [hcalls]⟩, hpc⟩
  rw [List.map_replicate]
  exact exec_cons_eq_some.mpr ⟨_, rfl, hrun⟩

/-- With no other operation in progress an `enqueue` returns `false` exactly when the queue holds as
many items as it has cells. -/
theorem enqueueAlone_failed_iff {pc : ProducerPc} (h : EnqueueAlone bufferMask s data t pc)
    (hpc : pc.Returned) :
    pc = .failed ↔ s.enqueuePos = s.dequeuePos + (bufferMask + 1) := by
  obtain ⟨flags, hrun, hcall⟩ := h
  obtain ⟨u, hu, hrun⟩ := exec_cons_eq_some.mp hrun
  cases hu
  have hstart : ∃ n, WithEnqueue bufferMask s data n
      { s with producers := s.producers ++ [⟨.loadPos, data⟩] } := ⟨5, .loadPos, rfl, rfl, rfl, rfl⟩
  obtain ⟨n, pc', hcalls, -, hsolo⟩ := exec_map_invariant
      (I := fun t => ∃ n, WithEnqueue bufferMask s data n t) (fun t spurious u h hu => by
    obtain ⟨n, h⟩ := h
    rcases h.step hmask hs hidle spurious with ⟨-, -, -, hnone⟩ | ⟨m, v, hv, hwith, -⟩
    · rw [hnone] at hu
      cases hu
    · obtain rfl : u = v := Option.some.inj (hu.symm.trans hv)
      exact ⟨m, hwith⟩) hstart hrun
  obtain rfl : pc' = pc := by simpa [hcalls] using hcall
  cases pc' with
  | succeeded pos => exact iff_of_false (by simp) (Nat.ne_of_lt hsolo)
  | failed => exact iff_of_true rfl hsolo
  | loadPos | loadSequence | exchange | copy | store => exact hpc.elim

/-- With no other operation in progress a `dequeue` returns. -/
theorem dequeueAlone_returns :
    ∃ t pc, DequeueAlone bufferMask s data t pc ∧ pc.Returned := by
  have hstart : WithDequeue s 5 { s with consumers := s.consumers ++ [⟨.loadPos, data⟩] } :=
    ⟨⟨.loadPos, data⟩, rfl, rfl, rfl, rfl⟩
  have hcountdown : ∀ n t, WithDequeue s n t →
      (∃ c : Consumer T, t.consumers = s.consumers ++ [c] ∧ c.pc.Returned) ∨
        ∃ m u, m < n ∧ step bufferMask t (.consumer s.consumers.length false) = some u ∧
          WithDequeue s m u := by
    intro n t h
    rcases h.step hmask hs hidle false with ⟨c, hcalls, hpc, -⟩ | ⟨m, u, hu, hwith, hless⟩
    · exact .inl ⟨c, hcalls, hpc⟩
    · exact .inr ⟨m, u, hless rfl, hu, hwith⟩
  obtain ⟨k, t, hrun, c, hcalls, hpc⟩ := exists_exec_replicate hcountdown hstart
  refine ⟨t, c.pc, ⟨List.replicate k false, c.data, ?_, by simp [hcalls]⟩, hpc⟩
  rw [List.map_replicate]
  exact exec_cons_eq_some.mpr ⟨_, rfl, hrun⟩

/-- With no other operation in progress a `dequeue` returns `false` exactly when the queue holds no
item. -/
theorem dequeueAlone_failed_iff {pc : ConsumerPc} (h : DequeueAlone bufferMask s data t pc)
    (hpc : pc.Returned) : pc = .failed ↔ s.enqueuePos = s.dequeuePos := by
  obtain ⟨flags, data', hrun, hcall⟩ := h
  obtain ⟨u, hu, hrun⟩ := exec_cons_eq_some.mp hrun
  cases hu
  have hstart : ∃ n, WithDequeue s n
      { s with consumers := s.consumers ++ [⟨.loadPos, data⟩] } :=
    ⟨5, ⟨.loadPos, data⟩, rfl, rfl, rfl, rfl⟩
  obtain ⟨n, c, hcalls, -, hsolo⟩ := exec_map_invariant
      (I := fun t => ∃ n, WithDequeue s n t) (fun t spurious u h hu => by
    obtain ⟨n, h⟩ := h
    rcases h.step hmask hs hidle spurious with ⟨-, -, -, hnone⟩ | ⟨m, v, hv, hwith, -⟩
    · rw [hnone] at hu
      cases hu
    · obtain rfl : u = v := Option.some.inj (hu.symm.trans hv)
      exact ⟨m, hwith⟩) hstart hrun
  obtain rfl : c = ⟨pc, data'⟩ := by simpa [hcalls] using hcall
  cases pc with
  | succeeded pos =>
    have hlt : s.dequeuePos < s.enqueuePos := hsolo
    exact iff_of_false (by simp) (Nat.ne_of_gt hlt)
  | failed => exact iff_of_true rfl hsolo
  | loadPos | loadSequence | exchange | copy | store => exact hpc.elim

end Alone

/-- A queue of `2 ^ k` cells is full or empty where a call says so, on every run of any number of
callers: an `enqueue` that returns `false` has read its last sequence number while its position was
the current one and the `dequeue` one revolution before it had not stored its own; so has a
`dequeue`, while the `enqueue` of its position had not stored its own; and with no other operation
in progress a call returns, `false` exactly when the queue holds `2 ^ k` items, or none. -/
theorem run_failed_iff {k : Nat} (hk : 1 ≤ k) {data : Nat → T} {acts : List (Act T)} {s : State T}
    (hrun : exec (step (2 ^ k - 1)) (constructed data) acts = some s) :
    (∀ i spurious t p', step (2 ^ k - 1) s (.producer i spurious) = some t →
        t.producers[i]? = some p' → p'.pc = .failed →
        ∃ pos v, s.producers[i]? = some ⟨.loadSequence pos, v⟩ ∧ FullAt (2 ^ k - 1) s pos) ∧
    (∀ i spurious t c', step (2 ^ k - 1) s (.consumer i spurious) = some t →
        t.consumers[i]? = some c' → c'.pc = .failed →
        ∃ pos v, s.consumers[i]? = some ⟨.loadSequence pos, v⟩ ∧ EmptyAt s pos) ∧
    (s.Idle → ∀ v,
      (∃ t pc, EnqueueAlone (2 ^ k - 1) s v t pc ∧ pc.Returned) ∧
      (∀ t pc, EnqueueAlone (2 ^ k - 1) s v t pc → pc.Returned →
        (pc = .failed ↔ s.enqueuePos = s.dequeuePos + 2 ^ k)) ∧
      (∃ t pc, DequeueAlone (2 ^ k - 1) s v t pc ∧ pc.Returned) ∧
      ∀ t pc, DequeueAlone (2 ^ k - 1) s v t pc → pc.Returned →
        (pc = .failed ↔ s.enqueuePos = s.dequeuePos)) := by
  have hmask := isMask_two_pow hk
  have hcells : 2 ^ k - 1 + 1 = 2 ^ k := Nat.sub_add_cancel Nat.one_le_two_pow
  have hs : PastInv (2 ^ k - 1) s :=
    exec_invariant (fun _ _ _ hs h => hs.step hmask (stepTo_of_step h)) (.constructed hmask data)
      hrun
  refine ⟨fun i spurious t p' hstep hp' hfailed => hs.fullAt_of_step hmask hstep hp' hfailed,
    fun i spurious t c' hstep hc' hfailed => hs.emptyAt_of_step hmask hstep hc' hfailed,
    fun hidle v => ⟨enqueueAlone_returns hmask hs hidle v, fun t pc h hpc => ?_,
      dequeueAlone_returns hmask hs hidle v,
      fun t pc h hpc => dequeueAlone_failed_iff hmask hs hidle v h hpc⟩⟩
  rw [enqueueAlone_failed_iff hmask hs hidle v h hpc, hcells]

/-- Three calls of `enqueue` on a queue of two cells, one after the other, and then the load of the
third one that finds the queue full. -/
def filled : List (Act Nat) :=
  List.flatten [[.enqueue 7], List.replicate 5 (.producer 0 false), [.enqueue 8],
    List.replicate 5 (.producer 1 false), [.enqueue 9, .producer 2 false]]

theorem run_failed_iff_filled :
    ∃ s t, exec (step (2 ^ 1 - 1)) (constructed fun _ => 0) filled = some s ∧
      step (2 ^ 1 - 1) s (.producer 2 false) = some t ∧
      t.producers[2]? = some ⟨.failed, 9⟩ ∧ FullAt (2 ^ 1 - 1) s 2 := by
  have hends : ∃ s, exec (step (2 ^ 1 - 1)) (constructed fun _ => 0) filled = some s ∧
      s.producers[2]?.map (fun p => (p.pc, p.data)) = some (.loadSequence 2, 9) ∧
      ((step (2 ^ 1 - 1) s (.producer 2 false)).bind fun t =>
        t.producers[2]?.map fun p => (p.pc, p.data)) = some (.failed, 9) :=
    exists_exec_of_decide (by decide)
  obtain ⟨s, hrun, hload, hfailed⟩ := hends
  obtain ⟨t, hstep, hfailed⟩ := Option.bind_eq_some_iff.mp hfailed
  obtain ⟨⟨pc, v⟩, hp', heq⟩ := Option.map_eq_some_iff.mp hfailed
  obtain ⟨rfl, rfl⟩ := Prod.mk.inj heq
  obtain ⟨pos, w, hp, hfull⟩ := (run_failed_iff (Nat.le_refl 1) hrun).1 2 false t _ hstep hp' rfl
  obtain rfl : pos = 2 := by simpa [hp] using (congrArg (Option.map Prod.fst) hload)
  exact ⟨s, t, hrun, hstep, hp', hfull⟩

end Sparo.Base.MpmcBoundedQueue
