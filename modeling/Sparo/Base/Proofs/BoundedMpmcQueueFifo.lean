import Sparo.Base.Proofs.BoundedMpmcQueueSteps
import Sparo.Misc.CircularIndex
import Sparo.Misc.Tickets

/-!
# The bounded queue is a FIFO

The sequence number of a cell says for which position the cell stands and whether it is free or
full for it: at position `pos` it is `pos` or `pos + 1`. A successful exchange hands out the
position as a ticket, and until the holder of the ticket stores the next sequence number nobody
else gets at the cell.
-/

namespace Sparo.Base.MpmcBoundedQueue

open StepSystem Tickets

variable {T : Type*} {bufferMask : Nat} {s t : State T} {a : Act T}

/-! ## Cells and positions -/

/-- The mask belongs to a buffer of `bufferMask + 1` cells, and of two at least. -/
structure IsMask (bufferMask : Nat) : Prop where
  pos : 0 < bufferMask
  index : ∀ pos, cellIndex bufferMask pos = pos % (bufferMask + 1)

theorem isMask_two_pow {k : Nat} (hk : 1 ≤ k) : IsMask (2 ^ k - 1) := by
  have htwo : 2 ≤ 2 ^ k := by
    calc 2 = 2 ^ 1 := rfl
      _ ≤ 2 ^ k := Nat.pow_le_pow_right (by decide) hk
  refine ⟨by omega, fun pos => ?_⟩
  rw [cellIndex, Nat.and_two_pow_sub_one_eq_mod, Nat.sub_add_cancel (by omega)]

/-- Neighbouring positions lie in different cells. -/
theorem IsMask.index_succ_ne (hmask : IsMask bufferMask) (pos : Nat) :
    cellIndex bufferMask (pos + 1) ≠ cellIndex bufferMask pos := by
  have hpos := hmask.pos
  rw [hmask.index, hmask.index]
  exact (CircularIndex.mod_ne_mod (by omega) (by omega)).symm

/-- Positions of one cell are a revolution apart. -/
theorem IsMask.add_le_of_index_eq (hmask : IsMask bufferMask) {m n : Nat}
    (hindex : cellIndex bufferMask m = cellIndex bufferMask n) (hlt : m < n) :
    m + (bufferMask + 1) ≤ n := by
  rw [hmask.index, hmask.index] at hindex
  exact CircularIndex.add_le_of_mod_eq hindex hlt

/-- A revolution leads back to the same cell. -/
theorem IsMask.index_add (hmask : IsMask bufferMask) (pos : Nat) :
    cellIndex bufferMask (pos + bufferMask + 1) = cellIndex bufferMask pos := by
  rw [hmask.index, hmask.index, Nat.add_assoc, Nat.add_mod_right]

/-! ## The invariant -/

/-- The `enqueue` with ticket `pos` was called with this value. -/
def Stored (s : State T) (pos : Nat) (data : T) : Prop :=
  ∃ p ∈ s.producers, p.ticket = some pos ∧ p.data = data

/-- A cell is free for a position that is not yet dequeued, or full with the data of a position
that is already enqueued. -/
inductive CellOk (bufferMask : Nat) (s : State T) (i : Nat) : Prop where
  | free (pos : Nat) (hindex : cellIndex bufferMask pos = i)
      (hseq : (s.buffer i).sequence = pos) (hle : s.dequeuePos ≤ pos)
      (hlt : pos < s.dequeuePos + (bufferMask + 1))
  | full (pos : Nat) (hindex : cellIndex bufferMask pos = i)
      (hseq : (s.buffer i).sequence = pos + 1) (hlt : pos < s.enqueuePos)
      (hle : s.enqueuePos ≤ pos + (bufferMask + 1)) (hdata : Stored s pos (s.buffer i).data)

/-- What an `enqueue` relies on: as long as the position it matched is the next one, its cell is
still free; and the cell of a ticket does not change until the ticket's holder changes it. -/
def ProducerOk (bufferMask : Nat) (s : State T) (p : Producer T) : Prop :=
  match p.pc with
  | .exchange pos =>
    pos < s.enqueuePos ∨ (s.buffer (cellIndex bufferMask pos)).sequence = pos
  | .copy pos => (s.buffer (cellIndex bufferMask pos)).sequence = pos
  | .store pos =>
    (s.buffer (cellIndex bufferMask pos)).sequence = pos ∧
      (s.buffer (cellIndex bufferMask pos)).data = p.data
  | .loadPos | .loadSequence _ | .succeeded _ | .failed => True

/-- What a `dequeue` relies on. -/
def ConsumerOk (bufferMask : Nat) (s : State T) (c : Consumer T) : Prop :=
  match c.pc with
  | .exchange pos =>
    pos < s.dequeuePos ∨ (s.buffer (cellIndex bufferMask pos)).sequence = pos + 1
  | .copy pos => (s.buffer (cellIndex bufferMask pos)).sequence = pos + 1
  | .store pos =>
    (s.buffer (cellIndex bufferMask pos)).sequence = pos + 1 ∧ Stored s pos c.data
  | .succeeded pos => Stored s pos c.data
  | .loadPos | .loadSequence _ | .failed => True

/-- What holds of the queue on every run. -/
structure QueueInv (bufferMask : Nat) (s : State T) : Prop where
  dequeue_le : s.dequeuePos ≤ s.enqueuePos
  enqueue_le : s.enqueuePos ≤ s.dequeuePos + (bufferMask + 1)
  cell : ∀ pos, CellOk bufferMask s (cellIndex bufferMask pos)
  producer : ∀ (i : Nat) p, s.producers[i]? = some p → ProducerOk bufferMask s p
  consumer : ∀ (i : Nat) c, s.consumers[i]? = some c → ConsumerOk bufferMask s c
  enqueued : Issued Producer.ticket s.producers s.enqueuePos
  dequeued : Issued Consumer.ticket s.consumers s.dequeuePos

/-- A free cell stands for the position its sequence number says. -/
theorem CellOk.of_sequence_eq (hmask : IsMask bufferMask) {pos : Nat}
    (h : CellOk bufferMask s (cellIndex bufferMask pos))
    (hseq : (s.buffer (cellIndex bufferMask pos)).sequence = pos) :
    s.dequeuePos ≤ pos ∧ pos < s.dequeuePos + (bufferMask + 1) := by
  cases h with
  | free q hindex hq hle hlt =>
    obtain rfl : pos = q := hseq.symm.trans hq
    exact ⟨hle, hlt⟩
  | full q hindex hq =>
    obtain rfl : pos = q + 1 := hseq.symm.trans hq
    exact absurd hindex.symm (hmask.index_succ_ne q)

/-- A full cell holds the data of the position its sequence number says. -/
theorem CellOk.of_sequence_succ (hmask : IsMask bufferMask) {pos : Nat}
    (h : CellOk bufferMask s (cellIndex bufferMask pos))
    (hseq : (s.buffer (cellIndex bufferMask pos)).sequence = pos + 1) :
    pos < s.enqueuePos ∧ s.enqueuePos ≤ pos + (bufferMask + 1) ∧
      Stored s pos (s.buffer (cellIndex bufferMask pos)).data := by
  cases h with
  | free q hindex hq =>
    obtain rfl : pos + 1 = q := hseq.symm.trans hq
    exact absurd hindex (hmask.index_succ_ne pos)
  | full q hindex hq hlt hle hdata =>
    obtain rfl : pos = q := Nat.succ.inj (hseq.symm.trans hq)
    exact ⟨hlt, hle, hdata⟩

/-! ## Owners -/

/-- The owner of a cell has a ticket for it, and the sequence number is the one it matched. -/
theorem Producer.of_owned {p : Producer T} {i : Nat} (h : ProducerOk bufferMask s p)
    (howned : p.owned bufferMask = some i) :
    ∃ pos, p.ticket = some pos ∧ cellIndex bufferMask pos = i ∧ (s.buffer i).sequence = pos := by
  obtain ⟨pc, data⟩ := p
  cases pc with
  | copy pos =>
    obtain rfl := Option.some.inj howned
    exact ⟨pos, rfl, rfl, h⟩
  | store pos =>
    obtain rfl := Option.some.inj howned
    exact ⟨pos, rfl, rfl, h.1⟩
  | loadPos | loadSequence | exchange | succeeded | failed => cases howned

theorem Consumer.of_owned {c : Consumer T} {i : Nat} (h : ConsumerOk bufferMask s c)
    (howned : c.owned bufferMask = some i) :
    ∃ pos, c.ticket = some pos ∧ cellIndex bufferMask pos = i ∧
      (s.buffer i).sequence = pos + 1 := by
  obtain ⟨pc, data⟩ := c
  cases pc with
  | copy pos =>
    obtain rfl := Option.some.inj howned
    exact ⟨pos, rfl, rfl, h⟩
  | store pos =>
    obtain rfl := Option.some.inj howned
    exact ⟨pos, rfl, rfl, h.1⟩
  | loadPos | loadSequence | exchange | succeeded | failed => cases howned

namespace QueueInv

variable {i j cell : Nat} {p q : Producer T} {c d : Consumer T}

/-- Two `enqueue` calls that own the same cell are the same. -/
theorem producer_unique (hs : QueueInv bufferMask s) (hi : s.producers[i]? = some p)
    (hj : s.producers[j]? = some q) (hp : p.owned bufferMask = some cell)
    (hq : q.owned bufferMask = some cell) : i = j := by
  obtain ⟨m, hm, -, hseq⟩ := Producer.of_owned (hs.producer i p hi) hp
  obtain ⟨n, hn, -, hseq'⟩ := Producer.of_owned (hs.producer j q hj) hq
  obtain rfl : m = n := hseq.symm.trans hseq'
  exact hs.enqueued.unique hi hj hm hn

/-- Two `dequeue` calls that own the same cell are the same. -/
theorem consumer_unique (hs : QueueInv bufferMask s) (hi : s.consumers[i]? = some c)
    (hj : s.consumers[j]? = some d) (hc : c.owned bufferMask = some cell)
    (hd : d.owned bufferMask = some cell) : i = j := by
  obtain ⟨m, hm, -, hseq⟩ := Consumer.of_owned (hs.consumer i c hi) hc
  obtain ⟨n, hn, -, hseq'⟩ := Consumer.of_owned (hs.consumer j d hj) hd
  obtain rfl : m = n := Nat.succ.inj (hseq.symm.trans hseq')
  exact hs.dequeued.unique hi hj hm hn

/-- An `enqueue` and a `dequeue` do not own the same cell. -/
theorem owned_disjoint (hmask : IsMask bufferMask) (hs : QueueInv bufferMask s)
    (hi : s.producers[i]? = some p) (hj : s.consumers[j]? = some c)
    (hp : p.owned bufferMask = some cell) (hc : c.owned bufferMask = some cell) : False := by
  obtain ⟨m, -, hm, hseq⟩ := Producer.of_owned (hs.producer i p hi) hp
  obtain ⟨n, -, hn, hseq'⟩ := Consumer.of_owned (hs.consumer j c hj) hc
  obtain rfl : m = n + 1 := hseq.symm.trans hseq'
  exact hmask.index_succ_ne n (hm.trans hn.symm)

end QueueInv

/-! ## Steps of one call -/

section

variable {i : Nat} {p p' : Producer T} {c c' : Consumer T}

theorem Stored.of_producers {pos : Nat} {data : T} (h : Stored s pos data) (p' : Producer T)
    (hi : s.producers[i]? = some p) (hticket : ∀ n, p.ticket = some n → p'.ticket = some n)
    (hdata : p'.data = p.data) (ht : t.producers = s.producers.set i p') : Stored t pos data := by
  unfold Stored
  rw [ht]
  refine ThreadSum.exists_mem_set hi h ?_
  rintro ⟨hp, rfl⟩
  exact ⟨hticket pos hp, hdata⟩

/-- A call only relies on what is stored, on the two positions, and on its own cell. -/
theorem ProducerOk.frame (h : ProducerOk bufferMask s p) (hle : s.enqueuePos ≤ t.enqueuePos)
    (hsequence : ∀ pos, p.pc = .exchange pos ∨ p.pc = .copy pos ∨ p.pc = .store pos →
      (t.buffer (cellIndex bufferMask pos)).sequence =
        (s.buffer (cellIndex bufferMask pos)).sequence)
    (hdata : ∀ pos, p.pc = .store pos →
      (t.buffer (cellIndex bufferMask pos)).data = (s.buffer (cellIndex bufferMask pos)).data) :
    ProducerOk bufferMask t p := by
  obtain ⟨pc, data⟩ := p
  cases pc with
  | exchange pos =>
    unfold ProducerOk at h ⊢
    dsimp only at h ⊢
    rw [hsequence pos (.inl rfl)]
    exact h.imp_left fun hlt => Nat.lt_of_lt_of_le hlt hle
  | copy pos =>
    unfold ProducerOk at h ⊢
    dsimp only at h ⊢
    rw [hsequence pos (.inr (.inl rfl))]
    exact h
  | store pos =>
    unfold ProducerOk at h ⊢
    dsimp only at h ⊢
    rw [hsequence pos (.inr (.inr rfl)), hdata pos rfl]
    exact h
  | loadPos | loadSequence | succeeded | failed => trivial

theorem ConsumerOk.frame (h : ConsumerOk bufferMask s c) (hle : s.dequeuePos ≤ t.dequeuePos)
    (hstored : ∀ pos data, Stored s pos data → Stored t pos data)
    (hsequence : ∀ pos, c.pc = .exchange pos ∨ c.pc = .copy pos ∨ c.pc = .store pos →
      (t.buffer (cellIndex bufferMask pos)).sequence =
        (s.buffer (cellIndex bufferMask pos)).sequence) :
    ConsumerOk bufferMask t c := by
  obtain ⟨pc, data⟩ := c
  cases pc with
  | exchange pos =>
    unfold ConsumerOk at h ⊢
    dsimp only at h ⊢
    rw [hsequence pos (.inl rfl)]
    exact h.imp_left fun hlt => Nat.lt_of_lt_of_le hlt hle
  | copy pos =>
    unfold ConsumerOk at h ⊢
    dsimp only at h ⊢
    rw [hsequence pos (.inr (.inl rfl))]
    exact h
  | store pos =>
    unfold ConsumerOk at h ⊢
    dsimp only at h ⊢
    rw [hsequence pos (.inr (.inr rfl))]
    exact ⟨h.1, hstored pos data h.2⟩
  | succeeded pos => exact hstored pos data h
  | loadPos | loadSequence | failed => trivial

/-- Cells stay as they are while the positions do and nothing stored is lost. -/
theorem CellOk.frame {cell : Nat} (h : CellOk bufferMask s cell)
    (henqueue : t.enqueuePos = s.enqueuePos) (hdequeue : t.dequeuePos = s.dequeuePos)
    (hstored : ∀ pos data, Stored s pos data → Stored t pos data)
    (hbuffer : t.buffer cell = s.buffer cell) : CellOk bufferMask t cell := by
  cases h with
  | free pos hindex hseq hle hlt =>
    refine .free pos hindex ?_ ?_ ?_
    · rw [hbuffer]
      exact hseq
    · omega
    · omega
  | full pos hindex hseq hlt hle hdata =>
    refine .full pos hindex ?_ ?_ ?_ ?_
    · rw [hbuffer]
      exact hseq
    · omega
    · omega
    · rw [hbuffer]
      exact hstored pos _ hdata

namespace QueueInv

/-- A step of an `enqueue` that touches nothing shared. -/
theorem producer_local (hs : QueueInv bufferMask s) (hi : s.producers[i]? = some p)
    (hticket : p'.ticket = p.ticket) (hdata : p'.data = p.data)
    (hp' : ProducerOk bufferMask s p') :
    QueueInv bufferMask { s with producers := s.producers.set i p' } := by
  have hstored : ∀ pos data, Stored s pos data →
      Stored { s with producers := s.producers.set i p' } pos data :=
    fun pos data h => h.of_producers p' hi (fun n hn => hticket.trans hn) hdata rfl
  refine { hs with
    cell := fun pos => (hs.cell pos).frame rfl rfl hstored rfl
    producer := ?_
    consumer := fun j c hj => (hs.consumer j c hj).frame le_rfl hstored fun _ _ => rfl
    enqueued := hs.enqueued.set hi hticket }
  intro j q hj
  rcases getElem?_set_cases hj with ⟨-, rfl⟩ | ⟨-, hj⟩
  · exact hp'.frame le_rfl (fun _ _ => rfl) fun _ _ => rfl
  · exact (hs.producer j q hj).frame le_rfl (fun _ _ => rfl) fun _ _ => rfl

/-- A step of a `dequeue` that touches nothing shared. -/
theorem consumer_local (hs : QueueInv bufferMask s) (hi : s.consumers[i]? = some c)
    (hticket : c'.ticket = c.ticket) (hc' : ConsumerOk bufferMask s c') :
    QueueInv bufferMask { s with consumers := s.consumers.set i c' } := by
  refine { hs with
    cell := fun pos => (hs.cell pos).frame rfl rfl (fun _ _ h => h) rfl
    producer := fun j q hj =>
      (hs.producer j q hj).frame le_rfl (fun _ _ => rfl) fun _ _ => rfl
    consumer := ?_
    dequeued := hs.dequeued.set hi hticket }
  intro j d hj
  rcases getElem?_set_cases hj with ⟨-, rfl⟩ | ⟨-, hj⟩
  · exact hc'.frame le_rfl (fun _ _ h => h) fun _ _ => rfl
  · exact (hs.consumer j d hj).frame le_rfl (fun _ _ h => h) fun _ _ => rfl

/-- The exchange of an `enqueue` hands out the next ticket. -/
theorem producer_exchange (hmask : IsMask bufferMask) (hs : QueueInv bufferMask s) {data : T}
    {pos : Nat} (hi : s.producers[i]? = some ⟨.exchange pos, data⟩) (hpos : s.enqueuePos = pos) :
    QueueInv bufferMask
      { s with enqueuePos := pos + 1, producers := s.producers.set i ⟨.copy pos, data⟩ } := by
  have hseq : (s.buffer (cellIndex bufferMask pos)).sequence = pos :=
    (hs.producer i _ hi).resolve_left (by omega)
  obtain ⟨hle, hlt⟩ := (hs.cell pos).of_sequence_eq hmask hseq
  have hstored : ∀ m v, Stored s m v → Stored
      { s with enqueuePos := pos + 1, producers := s.producers.set i ⟨.copy pos, data⟩ } m v :=
    fun m v h => h.of_producers ⟨.copy pos, data⟩ hi (fun n hn => by cases hn) rfl rfl
  refine {
    dequeue_le := Nat.le_succ_of_le hle
    enqueue_le := hlt
    cell := fun m => ?_
    producer := fun j q hj => ?_
    consumer := fun j c hj => (hs.consumer j c hj).frame le_rfl hstored fun _ _ => rfl
    enqueued := (hpos ▸ hs.enqueued).take hi rfl rfl
    dequeued := hs.dequeued }
  · cases hs.cell m with
    | free n hindex hn hle hlt => exact .free n hindex hn hle hlt
    | full n hindex hn hltn hlen hdata =>
      refine .full n hindex hn (Nat.lt_succ_of_lt (hpos ▸ hltn)) ?_ (hstored n _ hdata)
      -- a revolution before `pos` the cell would be the one that is free for `pos`
      by_contra hfar
      obtain rfl : pos = n + bufferMask + 1 := by
        dsimp only at hfar
        omega
      rw [hmask.index_add, hindex, hn] at hseq
      have := hmask.pos
      omega
  · rcases getElem?_set_cases hj with ⟨-, rfl⟩ | ⟨-, hj⟩
    · exact hseq
    · exact (hs.producer j q hj).frame (by dsimp only; omega) (fun _ _ => rfl) fun _ _ => rfl

/-- The copy of an `enqueue` goes to a cell that nobody else uses. -/
theorem producer_copy (hmask : IsMask bufferMask) (hs : QueueInv bufferMask s) {data : T}
    {pos : Nat} (hi : s.producers[i]? = some ⟨.copy pos, data⟩) :
    QueueInv bufferMask { s.setData (cellIndex bufferMask pos) data with
      producers := s.producers.set i ⟨.store pos, data⟩ } := by
  have hseq : (s.buffer (cellIndex bufferMask pos)).sequence = pos := hs.producer i _ hi
  have hstored : ∀ m v, Stored s m v → Stored { s.setData (cellIndex bufferMask pos) data with
      producers := s.producers.set i ⟨.store pos, data⟩ } m v :=
    fun m v h => h.of_producers ⟨.store pos, data⟩ hi (fun n hn => hn) rfl rfl
  refine { hs with
    cell := fun m => ?_
    producer := fun j q hj => ?_
    consumer := fun j c hj => (hs.consumer j c hj).frame le_rfl hstored fun _ _ => by simp
    enqueued := hs.enqueued.set hi rfl }
  · cases hs.cell m with
    | free n hindex hn hle hlt => exact .free n hindex (by simpa using hn) hle hlt
    | full n hindex hn hlt hle hdata =>
      have hother : cellIndex bufferMask m ≠ cellIndex bufferMask pos := by
        intro heq
        rw [← heq, hn] at hseq
        subst hseq
        exact hmask.index_succ_ne n (heq.symm.trans hindex.symm)
      refine .full n hindex (by simpa using hn) hlt hle (hstored n _ ?_)
      rw [setData_of_ne _ _ hother]
      exact hdata
  · rcases getElem?_set_cases hj with ⟨-, rfl⟩ | ⟨hne, hj⟩
    · exact ⟨by simpa using hseq, setData_data_self _ _ _⟩
    · refine (hs.producer j q hj).frame le_rfl (fun _ _ => by simp) fun n hn => ?_
      rw [setData_of_ne]
      intro heq
      refine hne (hs.producer_unique hj hi ?_ rfl)
      rw [Producer.owned, hn]
      exact congrArg some heq

end QueueInv

/-- A new sequence number in a cell that the call does not own, where the old one matches no
position that is still to be handed out. -/
theorem ProducerOk.setSequence {cell n : Nat} (h : ProducerOk bufferMask s p)
    (howned : p.owned bufferMask ≠ some cell)
    (hseq : ∀ pos, cellIndex bufferMask pos = cell → (s.buffer cell).sequence = pos →
      pos < s.enqueuePos) :
    ProducerOk bufferMask (s.setSequence cell n) p := by
  obtain ⟨pc, data⟩ := p
  cases pc with
  | exchange pos =>
    by_cases hcell : cellIndex bufferMask pos = cell
    · rcases h with hlt | hmatch
      · exact .inl hlt
      · exact .inl (hseq pos hcell (hcell ▸ hmatch))
    · refine h.frame le_rfl (fun m hm => ?_) nofun
      obtain rfl : pos = m := by simpa using hm
      rw [setSequence_of_ne _ _ hcell]
  | copy pos | store pos =>
    have hcell : cellIndex bufferMask pos ≠ cell := fun hcell => howned (congrArg some hcell)
    refine h.frame le_rfl (fun m hm => ?_) (fun m _ => by simp)
    obtain rfl : pos = m := by simpa using hm
    rw [setSequence_of_ne _ _ hcell]
  | loadPos | loadSequence | succeeded | failed => trivial

theorem ConsumerOk.setSequence {cell n : Nat} (h : ConsumerOk bufferMask s c)
    (howned : c.owned bufferMask ≠ some cell)
    (hseq : ∀ pos, cellIndex bufferMask pos = cell → (s.buffer cell).sequence = pos + 1 →
      pos < s.dequeuePos) :
    ConsumerOk bufferMask (s.setSequence cell n) c := by
  obtain ⟨pc, data⟩ := c
  cases pc with
  | exchange pos =>
    by_cases hcell : cellIndex bufferMask pos = cell
    · rcases h with hlt | hmatch
      · exact .inl hlt
      · exact .inl (hseq pos hcell (hcell ▸ hmatch))
    · refine h.frame le_rfl (fun _ _ h => h) fun m hm => ?_
      obtain rfl : pos = m := by simpa using hm
      rw [setSequence_of_ne _ _ hcell]
  | copy pos | store pos =>
    have hcell : cellIndex bufferMask pos ≠ cell := fun hcell => howned (congrArg some hcell)
    refine h.frame le_rfl (fun _ _ h => h) fun m hm => ?_
    obtain rfl : pos = m := by simpa using hm
    rw [setSequence_of_ne _ _ hcell]
  | succeeded pos => exact h
  | loadPos | loadSequence | failed => trivial

namespace QueueInv

/-- The store of an `enqueue` makes its cell full. -/
theorem producer_store (hmask : IsMask bufferMask) (hs : QueueInv bufferMask s) {data : T}
    {pos : Nat} (hi : s.producers[i]? = some ⟨.store pos, data⟩) :
    QueueInv bufferMask { s.setSequence (cellIndex bufferMask pos) (pos + 1) with
      producers := s.producers.set i ⟨.succeeded pos, data⟩ } := by
  obtain ⟨hseq, hdata⟩ := hs.producer i _ hi
  obtain ⟨hle, hlt⟩ := (hs.cell pos).of_sequence_eq hmask hseq
  have hticket : pos < s.enqueuePos := hs.enqueued.lt (List.mem_of_getElem? hi) rfl
  have hstored : ∀ m v, Stored s m v → Stored { s.setSequence (cellIndex bufferMask pos) (pos + 1)
      with producers := s.producers.set i ⟨.succeeded pos, data⟩ } m v :=
    fun m v h => h.of_producers ⟨.succeeded pos, data⟩ hi (fun n hn => hn) rfl rfl
  refine { hs with
    cell := fun m => ?_
    producer := fun j q hj => ?_
    consumer := fun j c hj => ?_
    enqueued := hs.enqueued.set hi rfl }
  · by_cases hcell : cellIndex bufferMask m = cellIndex bufferMask pos
    · rw [hcell]
      have henqueue := hs.enqueue_le
      refine .full pos rfl (setSequence_sequence_self _ _ _) hticket ?_ (hstored pos _ ?_)
      · change s.enqueuePos ≤ _
        omega
      · exact ⟨_, List.mem_of_getElem? hi, rfl, by simpa using hdata.symm⟩
    · exact (hs.cell m).frame rfl rfl hstored (setSequence_of_ne _ _ hcell)
  · rcases getElem?_set_cases hj with ⟨-, rfl⟩ | ⟨hne, hj⟩
    · trivial
    · refine (hs.producer j q hj).setSequence
        (fun howned => hne (hs.producer_unique hj hi howned rfl)) fun m _ hm => ?_
      rw [hseq] at hm
      exact hm ▸ hticket
  · refine ((hs.consumer j c hj).setSequence
      (fun howned => hs.owned_disjoint hmask hi hj rfl howned) fun m hcell hm => ?_).frame
      le_rfl hstored fun _ _ => rfl
    rw [hseq] at hm
    exact absurd (hm ▸ hcell.symm) (hmask.index_succ_ne m)

/-- The exchange of a `dequeue` hands out the next ticket. -/
theorem consumer_exchange (hmask : IsMask bufferMask) (hs : QueueInv bufferMask s) {data : T}
    {pos : Nat} (hi : s.consumers[i]? = some ⟨.exchange pos, data⟩) (hpos : s.dequeuePos = pos) :
    QueueInv bufferMask
      { s with dequeuePos := pos + 1, consumers := s.consumers.set i ⟨.copy pos, data⟩ } := by
  have hseq : (s.buffer (cellIndex bufferMask pos)).sequence = pos + 1 :=
    (hs.consumer i _ hi).resolve_left (by omega)
  obtain ⟨hlt, hle, -⟩ := (hs.cell pos).of_sequence_succ hmask hseq
  refine {
    dequeue_le := hlt
    enqueue_le := by dsimp only; omega
    cell := fun m => ?_
    producer := fun j q hj =>
      (hs.producer j q hj).frame le_rfl (fun _ _ => rfl) fun _ _ => rfl
    consumer := fun j c hj => ?_
    enqueued := hs.enqueued
    dequeued := (hpos ▸ hs.dequeued).take hi rfl rfl }
  · cases hs.cell m with
    | free n hindex hn hlen hltn =>
      refine .free n hindex hn ?_ (by dsimp only; omega)
      -- the cell of `pos` is full
      by_contra hnear
      obtain rfl : n = pos := by
        dsimp only at hnear
        omega
      rw [hindex, hn] at hseq
      omega
    | full n hindex hn hlt hle hdata => exact .full n hindex hn hlt hle hdata
  · rcases getElem?_set_cases hj with ⟨-, rfl⟩ | ⟨-, hj⟩
    · exact hseq
    · exact (hs.consumer j c hj).frame (by dsimp only; omega) (fun _ _ h => h) fun _ _ => rfl

/-- The store of a `dequeue` makes its cell free for the next revolution. -/
theorem consumer_store (hmask : IsMask bufferMask) (hs : QueueInv bufferMask s) {data : T}
    {pos : Nat} (hi : s.consumers[i]? = some ⟨.store pos, data⟩) :
    QueueInv bufferMask { s.setSequence (cellIndex bufferMask pos) (pos + bufferMask + 1) with
      consumers := s.consumers.set i ⟨.succeeded pos, data⟩ } := by
  obtain ⟨hseq, hstored⟩ := hs.consumer i _ hi
  obtain ⟨hlt, hle, -⟩ := (hs.cell pos).of_sequence_succ hmask hseq
  have hticket : pos < s.dequeuePos := hs.dequeued.lt (List.mem_of_getElem? hi) rfl
  refine { hs with
    cell := fun m => ?_
    producer := fun j q hj => ?_
    consumer := fun j c hj => ?_
    dequeued := hs.dequeued.set hi rfl }
  · by_cases hcell : cellIndex bufferMask m = cellIndex bufferMask pos
    · rw [hcell]
      have hdequeue := hs.dequeue_le
      refine .free (pos + bufferMask + 1) (hmask.index_add pos) (setSequence_sequence_self _ _ _)
        ?_ ?_
      · change s.dequeuePos ≤ _
        omega
      · change _ < s.dequeuePos + _
        omega
    · exact (hs.cell m).frame rfl rfl (fun _ _ h => h) (setSequence_of_ne _ _ hcell)
  · refine (hs.producer j q hj).setSequence
      (fun howned => hs.owned_disjoint hmask hj hi howned rfl) fun m hcell hm => ?_
    rw [hseq] at hm
    exact absurd (hm ▸ hcell) (hmask.index_succ_ne pos)
  · rcases getElem?_set_cases hj with ⟨-, rfl⟩ | ⟨hne, hj⟩
    · exact hstored
    · refine (hs.consumer j c hj).setSequence
        (fun howned => hne (hs.consumer_unique hj hi howned rfl)) fun m _ hm => ?_
      rw [hseq] at hm
      exact Nat.succ.inj hm ▸ hticket

end QueueInv

end

/-! ## Runs -/

namespace QueueInv

/-- The queue after its constructor. -/
theorem constructed (hmask : IsMask bufferMask) (data : Nat → T) :
    QueueInv bufferMask (constructed data) := by
  refine ⟨Nat.le_refl 0, Nat.zero_le _, fun pos => ?_, nofun, nofun, issued_nil, issued_nil⟩
  have hlt : cellIndex bufferMask pos < bufferMask + 1 := by
    rw [hmask.index]
    exact Nat.mod_lt pos (Nat.succ_pos bufferMask)
  refine .free (cellIndex bufferMask pos) ?_ rfl (Nat.zero_le _) ?_
  · rw [hmask.index, Nat.mod_eq_of_lt hlt]
  · change _ < 0 + (bufferMask + 1)
    omega

/-- A new `enqueue` call. -/
theorem enqueue (hs : QueueInv bufferMask s) (data : T) :
    QueueInv bufferMask { s with producers := s.producers ++ [⟨.loadPos, data⟩] } := by
  have hstored : ∀ m v, Stored s m v →
      Stored { s with producers := s.producers ++ [⟨.loadPos, data⟩] } m v := by
    rintro m v ⟨p, hp, hticket⟩
    exact ⟨p, List.mem_append_left _ hp, hticket⟩
  refine { hs with
    cell := fun pos => (hs.cell pos).frame rfl rfl hstored rfl
    producer := fun j q hj => ?_
    consumer := fun j c hj => (hs.consumer j c hj).frame le_rfl hstored fun _ _ => rfl
    enqueued := hs.enqueued.append rfl }
  rcases getElem?_concat_cases hj with rfl | hj
  · trivial
  · exact (hs.producer j q hj).frame le_rfl (fun _ _ => rfl) fun _ _ => rfl

/-- A new `dequeue` call. -/
theorem dequeue (hs : QueueInv bufferMask s) (data : T) :
    QueueInv bufferMask { s with consumers := s.consumers ++ [⟨.loadPos, data⟩] } := by
  refine { hs with
    cell := fun pos => (hs.cell pos).frame rfl rfl (fun _ _ h => h) rfl
    producer := fun j q hj =>
      (hs.producer j q hj).frame le_rfl (fun _ _ => rfl) fun _ _ => rfl
    consumer := fun j c hj => ?_
    dequeued := hs.dequeued.append rfl }
  rcases getElem?_concat_cases hj with rfl | hj
  · trivial
  · exact (hs.consumer j c hj).frame le_rfl (fun _ _ h => h) fun _ _ => rfl

/-- Every step keeps the invariant. -/
theorem step (hmask : IsMask bufferMask) (hs : QueueInv bufferMask s)
    (h : StepTo bufferMask s a t) : QueueInv bufferMask t := by
  cases h with
  | enqueue data => exact hs.enqueue data
  | dequeue data => exact hs.dequeue data
  | producer i spurious p p' u hi hp =>
    cases hp with
    | matching data pos hseq => exact hs.producer_local hi rfl rfl (.inr hseq)
    | loadPos | full | reload | retry => exact hs.producer_local hi rfl rfl trivial
    | exchange data pos hpos => exact hs.producer_exchange hmask hi hpos
    | copy data pos => exact hs.producer_copy hmask hi
    | store data pos => exact hs.producer_store hmask hi
  | consumer i spurious c c' u hi hc =>
    cases hc with
    | matching data pos hseq => exact hs.consumer_local hi rfl (.inr hseq)
    | loadPos | empty | reload | retry => exact hs.consumer_local hi rfl trivial
    | exchange data pos hpos => exact hs.consumer_exchange hmask hi hpos
    | copy data pos =>
      have hseq : (s.buffer (cellIndex bufferMask pos)).sequence = pos + 1 := hs.consumer i _ hi
      obtain ⟨-, -, hstored⟩ := (hs.cell pos).of_sequence_succ hmask hseq
      exact hs.consumer_local hi rfl ⟨hseq, hstored⟩
    | store data pos => exact hs.consumer_store hmask hi

end QueueInv

/-- What holds in every state: the tickets handed out are those below the two positions, one call
each, and the queue is never ahead of its capacity; a `dequeue` that returned has the value of the
`enqueue` with the same ticket; and no two calls own the same cell. -/
structure IsFifo (bufferMask : Nat) (s : State T) : Prop where
  enqueued : (s.producers.filterMap Producer.ticket).Perm (List.range s.enqueuePos)
  dequeued : (s.consumers.filterMap Consumer.ticket).Perm (List.range s.dequeuePos)
  bounded : s.dequeuePos ≤ s.enqueuePos ∧ s.enqueuePos ≤ s.dequeuePos + (bufferMask + 1)
  returned : ∀ c ∈ s.consumers, ∀ d, c.pc = .succeeded d →
    ∃ p ∈ s.producers, p.ticket = some d ∧ p.data = c.data
  producers_own : ∀ (i j : Nat) p q cell, s.producers[i]? = some p → s.producers[j]? = some q →
    p.owned bufferMask = some cell → q.owned bufferMask = some cell → i = j
  consumers_own : ∀ (i j : Nat) c d cell, s.consumers[i]? = some c → s.consumers[j]? = some d →
    c.owned bufferMask = some cell → d.owned bufferMask = some cell → i = j
  owned_disjoint : ∀ p ∈ s.producers, ∀ c ∈ s.consumers, ∀ cell,
    p.owned bufferMask = some cell → c.owned bufferMask ≠ some cell

theorem QueueInv.isFifo (hmask : IsMask bufferMask) (hs : QueueInv bufferMask s) :
    IsFifo bufferMask s where
  enqueued := hs.enqueued
  dequeued := hs.dequeued
  bounded := ⟨hs.dequeue_le, hs.enqueue_le⟩
  returned c hc d hpc := by
    obtain ⟨i, hi⟩ := List.mem_iff_getElem?.mp hc
    have hok := hs.consumer i c hi
    rw [ConsumerOk, hpc] at hok
    exact hok
  producers_own i j p q cell := hs.producer_unique
  consumers_own i j c d cell := hs.consumer_unique
  owned_disjoint p hp c hc cell howned howned' := by
    obtain ⟨i, hi⟩ := List.mem_iff_getElem?.mp hp
    obtain ⟨j, hj⟩ := List.mem_iff_getElem?.mp hc
    exact hs.owned_disjoint hmask hi hj howned howned'

/-! ## Real-time order -/

/-- The calls made after `s` have tickets from the positions of `s` on. -/
structure LaterTickets (s t : State T) : Prop where
  enqueue_le : s.enqueuePos ≤ t.enqueuePos
  dequeue_le : s.dequeuePos ≤ t.dequeuePos
  producers : TicketsFrom Producer.ticket s.producers.length s.enqueuePos t.producers
  consumers : TicketsFrom Consumer.ticket s.consumers.length s.dequeuePos t.consumers

theorem LaterTickets.refl (s : State T) : LaterTickets s s :=
  ⟨le_rfl, le_rfl, ticketsFrom_length, ticketsFrom_length⟩

theorem LaterTickets.step {u : State T} (h : LaterTickets u s) (ha : StepTo bufferMask s a t) :
    LaterTickets u t := by
  cases ha with
  | enqueue data => exact { h with producers := h.producers.append rfl }
  | dequeue data => exact { h with consumers := h.consumers.append rfl }
  | producer i spurious p p' v hi hp =>
    cases hp with
    | exchange data pos hpos =>
      have hle : u.enqueuePos ≤ pos := hpos ▸ h.enqueue_le
      exact { h with
        enqueue_le := Nat.le_succ_of_le hle
        producers := h.producers.take rfl hle }
    | loadPos | matching | full | reload | retry | copy | store =>
      exact { h with producers := h.producers.set hi rfl }
  | consumer i spurious c c' v hi hc =>
    cases hc with
    | exchange data pos hpos =>
      have hle : u.dequeuePos ≤ pos := hpos ▸ h.dequeue_le
      exact { h with
        dequeue_le := Nat.le_succ_of_le hle
        consumers := h.consumers.take rfl hle }
    | loadPos | matching | empty | reload | retry | copy | store =>
      exact { h with consumers := h.consumers.set hi rfl }

/-- A call that has its ticket in `s` comes before every call of its kind made after `s`. -/
structure InOrder (s t : State T) : Prop where
  enqueues : ∀ p ∈ s.producers, ∀ m, p.ticket = some m → ∀ (j : Nat) q n,
    s.producers.length ≤ j → t.producers[j]? = some q → q.ticket = some n → m < n
  dequeues : ∀ c ∈ s.consumers, ∀ m, c.ticket = some m → ∀ (j : Nat) d n,
    s.consumers.length ≤ j → t.consumers[j]? = some d → d.ticket = some n → m < n

theorem LaterTickets.inOrder (hs : QueueInv bufferMask s) (h : LaterTickets s t) :
    InOrder s t where
  enqueues _ hp _ hm j q n hj hq hn :=
    Nat.lt_of_lt_of_le (hs.enqueued.lt hp hm) (h.producers j q n hj hq hn)
  dequeues _ hc _ hm j d n hj hd hn :=
    Nat.lt_of_lt_of_le (hs.dequeued.lt hc hm) (h.consumers j d n hj hd hn)

/-- A queue of `2 ^ k` cells is a FIFO on every run of any number of callers, and its tickets
respect the order of calls that do not overlap. -/
theorem run_isFifo {k : Nat} (hk : 1 ≤ k) {data : Nat → T} {acts : List (Act T)} {s : State T}
    (hrun : exec (step (2 ^ k - 1)) (constructed data) acts = some s) :
    IsFifo (2 ^ k - 1) s ∧
      ∀ later t, exec (step (2 ^ k - 1)) s later = some t → InOrder s t := by
  have hmask := isMask_two_pow hk
  have hs : QueueInv (2 ^ k - 1) s :=
    exec_invariant (fun _ _ _ hs h => hs.step hmask (stepTo_of_step h)) (.constructed hmask data)
      hrun
  refine ⟨hs.isFifo hmask, fun later t hlater => ?_⟩
  have htickets : LaterTickets s t :=
    exec_invariant (I := LaterTickets s) (fun _ _ _ hs h => hs.step (stepTo_of_step h))
      (.refl s) hlater
  exact htickets.inOrder hs

/-- Two producers and a consumer on a queue of two cells: the second producer fills its cell between
the exchange and the copy of the first. -/
def interleaved : List (Act Nat) :=
  List.flatten [[.enqueue 7, .enqueue 8, .dequeue 0], List.replicate 3 (.producer 0 false),
    [.producer 1 false, .producer 1 false, .producer 1 true],
    List.replicate 4 (.producer 1 false), List.replicate 2 (.producer 0 false),
    List.replicate 5 (.consumer 0 false)]

theorem run_isFifo_interleaved :
    ∃ s, exec (step (2 ^ 1 - 1)) (constructed fun _ => 0) interleaved = some s ∧
      s.consumers.map (fun c => (c.pc, c.data)) = [(.succeeded 0, 7)] ∧ s.enqueuePos = 2 ∧
      IsFifo (2 ^ 1 - 1) s := by
  have hends : ∃ s, exec (step (2 ^ 1 - 1)) (constructed fun _ => 0) interleaved = some s ∧
      s.consumers.map (fun c => (c.pc, c.data)) = [(.succeeded 0, 7)] ∧ s.enqueuePos = 2 :=
    exists_exec_of_decide (by decide)
  obtain ⟨s, hrun, hreturned, hpos⟩ := hends
  exact ⟨s, hrun, hreturned, hpos, (run_isFifo (Nat.le_refl 1) hrun).1⟩

end Sparo.Base.MpmcBoundedQueue
