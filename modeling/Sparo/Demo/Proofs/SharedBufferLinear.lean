import Sparo.Demo.Proofs.SharedBufferFifo
import Sparo.Misc.Linearization

/-!
# The shared buffer is linearizable

A bounded queue of bytes whose operations are atomic, and the shared buffer as an implementation
of it: every run of any number of overlapping calls is a run of the queue. A successful `TryWrite`
takes effect when it exchanges the write position, and a read when it exchanges the read
position. A `TryWrite` that finds too little space takes effect when it loads the read position,
and a read that finds nothing when it loads the write position. A call that finds its flag taken
has no effect.
-/

namespace Sparo.Demo.SharedBuffer

open StepSystem ThreadSum CircularIndex

variable {len i : Nat} {s t : State} {a : Act}

/-! ## The queue -/

/-- An operation of the queue, with the caller that it is for. -/
inductive Op where
  /-- `data` was appended. -/
  | wrote (i : Nat) (data : List UInt8)
  /-- There was no space for `data`. -/
  | full (i : Nat) (data : List UInt8)
  /-- The first bytes were taken out. -/
  | took (j : Nat) (bytes : List UInt8)
  /-- There was nothing to take for a buffer of `room` bytes. -/
  | empty (j : Nat) (room : Nat)
  deriving DecidableEq, Repr

/-- One operation of a queue that holds less than `capacity` bytes. -/
def queueStep (capacity : Nat) (q : List UInt8) : Op → Option (List UInt8)
  | .wrote _ data => if q.length + data.length < capacity then some (q ++ data) else none
  | .full _ data => if capacity ≤ q.length + data.length then some q else none
  | .took _ bytes =>
    if bytes ≠ [] ∧ q.take bytes.length = bytes then some (q.drop bytes.length) else none
  | .empty _ room => if q = [] ∨ room = 0 then some q else none

/-- The operation of the `i`-th `TryWrite`. -/
def Op.ofWriter (i : Nat) : Op → Bool
  | .wrote i' _ | .full i' _ => i' = i
  | _ => false

/-- The operation of the `j`-th reader. -/
def Op.ofReader (j : Nat) : Op → Bool
  | .took j' _ | .empty j' _ => j' = j
  | _ => false

/-- `TryWrite` returns `kGeneralError` for these positions. -/
@[irreducible] def noSpace (len curReadPos curWritePos n : Nat) : Bool :=
  checkSpace len curReadPos curWritePos n = .unlock .kGeneralError

theorem noSpace_iff {curReadPos curWritePos n : Nat} :
    noSpace len curReadPos curWritePos n = true ↔
      checkSpace len curReadPos curWritePos n = .unlock .kGeneralError := by
  unfold noSpace
  exact decide_eq_true_iff

/-- The operation that takes effect in the next step of the `i`-th `TryWrite`. -/
def emitWriter (len : Nat) (s : State) (i : Nat) (w : Writer) : List Op :=
  match w.pc with
  | .loadRead => if noSpace len s.readPos s.writePos w.data.length then [.full i w.data] else []
  | .copy _ [] => [.wrote i w.data]
  | _ => []

/-- The operation that takes effect in the next step of the `j`-th reader. -/
def emitReader (len : Nat) (s : State) (j : Nat) (r : Reader) : List Op :=
  match r.pc with
  | .loadWrite curReadPos =>
    if min (numBytesInUse len curReadPos s.writePos) r.data.length = 0 then
      [.empty j r.data.length]
    else []
  | .copy _ n [] => [.took j (r.data.take n)]
  | _ => []

/-- The operation that takes effect in a step. -/
def emit (len : Nat) (s : State) : Act → List Op
  | .writer i _ => (s.writers[i]?).elim [] (emitWriter len s i)
  | .reader j _ => (s.readers[j]?).elim [] (emitReader len s j)
  | _ => []

theorem emit_writer {k : Nat} {x : Writer} (hi : s.writers[i]? = some x) :
    emit len s (.writer i k) = emitWriter len s i x := by
  rw [emit, hi]
  rfl

theorem emit_reader {j k : Nat} {x : Reader} (hj : s.readers[j]? = some x) :
    emit len s (.reader j k) = emitReader len s j x := by
  rw [emit, hj]
  rfl

/-! ## Every step is one of the queue -/

/-- The bytes in use do not depend on anything but what went through. -/
theorem stored_eq (hle : usableLen len ≤ 2 ^ 31) (hs : BufferOk len s) (ht : BufferOk len t)
    (hwritten : t.written = s.written) (hread : t.readOut = s.readOut) :
    t.stored len = s.stored len := by
  have hs' := hs.ring.written_eq hle
  have ht' := ht.ring.written_eq hle
  rw [hwritten, hread, hs'] at ht'
  exact (List.append_cancel_left ht').symm

theorem stored_length (hle : usableLen len ≤ 2 ^ 31) (h : BufferOk len s) :
    (s.stored len).length = s.written.length - s.readOut.length := by
  have hlen := congrArg List.length (h.ring.written_eq hle)
  rw [List.length_append] at hlen
  omega

/-- A writer that finds too little space does so when it loads the read position. -/
theorem exec_full (hpos : 1 ≤ usableLen len) (hle : usableLen len ≤ 2 ^ 31) (h : BufferOk len s)
    {data : List UInt8}
    (hfull : checkSpace len s.readPos s.writePos data.length = .unlock .kGeneralError) :
    queueStep (usableLen len) (s.stored len) (.full i data) = some (s.stored len) := by
  have htaken := h.ring.taken.length_le
  have hroom := h.ring.room
  have hlen := stored_length hle h
  rw [h.ring.readPos, h.ring.writePos, checkSpace, validateReadWritePositions_of_lt
    (Nat.mod_lt _ hpos) (Nat.mod_lt _ hpos), spaceAvailable_mod (by omega) htaken hroom] at hfull
  simp only [Bool.not_true, Bool.false_eq_true, if_false] at hfull
  split at hfull
  · next hspace => rw [queueStep, if_pos (by omega)]
  · cases hfull

/-- A successful writer had the space it needs when it exchanges the write position. -/
theorem exec_wrote (hle : usableLen len ≤ 2 ^ 31) (hs : BufferOk len s) (ht : BufferOk len t)
    {data : List UInt8} {curWritePos : Nat}
    (hi : s.writers[i]? = some ⟨.copy curWritePos [], data⟩)
    (hwritten : t.written = s.written ++ data) (hread : t.readOut = s.readOut) :
    queueStep (usableLen len) (s.stored len) (.wrote i data) = some (t.stored len) := by
  have hfill : Filling len s.readOut.length s.written.length s.region data curWritePos [] :=
    hs.writers _ (List.mem_of_getElem? hi)
  have hroom := hfill.room
  have htaken := hs.ring.taken.length_le
  have hlen := stored_length hle hs
  have hs' := hs.ring.written_eq hle
  have ht' := ht.ring.written_eq hle
  rw [hwritten, hread, hs', List.append_assoc] at ht'
  rw [← List.append_cancel_left ht', queueStep, if_pos (by omega)]

/-- A reader takes the first bytes of the queue out when it exchanges the read position. -/
theorem exec_took (hle : usableLen len ≤ 2 ^ 31) (hs : BufferOk len s) (ht : BufferOk len t)
    {j : Nat} {bytes : List UInt8} (hne : bytes ≠ []) (hwritten : t.written = s.written)
    (hread : t.readOut = s.readOut ++ bytes) :
    queueStep (usableLen len) (s.stored len) (.took j bytes) = some (t.stored len) := by
  have hs' := hs.ring.written_eq hle
  have ht' := ht.ring.written_eq hle
  rw [hwritten, hread, hs', List.append_assoc] at ht'
  have hstored := List.append_cancel_left ht'
  rw [queueStep, hstored, List.take_left, List.drop_left, if_pos ⟨hne, rfl⟩]

/-- A reader that finds nothing does so when it loads the write position. -/
theorem exec_empty (hle : usableLen len ≤ 2 ^ 31) (h : BufferOk len s) {j curReadPos : Nat}
    {data : List UInt8} {bytesRead : Nat}
    (hj : s.readers[j]? = some ⟨.loadWrite curReadPos, data, bytesRead⟩)
    (hnone : min (numBytesInUse len curReadPos s.writePos) data.length = 0) :
    queueStep (usableLen len) (s.stored len) (.empty j data.length) = some (s.stored len) := by
  have hcur : curReadPos = s.readOut.length % usableLen len :=
    h.readers _ (List.mem_of_getElem? hj)
  have htaken := h.ring.taken.length_le
  have hroom := h.ring.room
  have hlen := stored_length hle h
  rw [hcur, h.ring.writePos, numBytesInUse_mod (by omega) htaken hroom] at hnone
  rw [queueStep, if_pos ?_]
  rcases Nat.min_eq_zero_iff.1 hnone with hzero | hzero
  · exact .inl (List.length_eq_zero_iff.1 (hlen.trans hzero))
  · exact .inr hzero

/-- What a step of a writer does to what went through the buffer: nothing, or it publishes its
data. -/
theorem writer_effect {x x' : Writer} (h : BufferOk len s) (hi : s.writers[i]? = some x)
    (hto : WriterTo len s x t x') :
    t.writers = s.writers ∧ t.readers = s.readers ∧ t.readOut = s.readOut ∧ x'.data = x.data ∧
    ((t.written = s.written ∧ t.writePos = s.writePos ∧ ∀ cur, x.pc ≠ .copy cur []) ∨
      (t.written = s.written ++ x.data ∧ x'.pc = .unlock .kSuccess ∧
        ∃ cur, x.pc = .copy cur [])) := by
  cases hto with
  | exchange data curWritePos =>
    have hfill : Filling len s.readOut.length s.written.length s.region data curWritePos [] :=
      h.writers _ (List.mem_of_getElem? hi)
    have hcur : s.writePos = curWritePos := h.ring.writePos.trans hfill.pos.symm
    rw [exchangeWritePos, if_neg (by simp [hcur])]
    exact ⟨rfl, rfl, rfl, rfl, .inr ⟨rfl, rfl, _, rfl⟩⟩
  | move data curWritePos k moves dst src hmove =>
    refine ⟨rfl, rfl, rfl, rfl, .inl ⟨rfl, rfl, fun cur hpc => ?_⟩⟩
    cases hpc
    cases hmove
  | busy data hflag => exact ⟨rfl, rfl, rfl, rfl, .inl ⟨rfl, rfl, fun _ hpc => by cases hpc⟩⟩
  | acquire data hflag => exact ⟨rfl, rfl, rfl, rfl, .inl ⟨rfl, rfl, fun _ hpc => by cases hpc⟩⟩
  | loadRead data => exact ⟨rfl, rfl, rfl, rfl, .inl ⟨rfl, rfl, fun _ hpc => by cases hpc⟩⟩
  | loadWrite data cur => exact ⟨rfl, rfl, rfl, rfl, .inl ⟨rfl, rfl, fun _ hpc => by cases hpc⟩⟩
  | unlock data error => exact ⟨rfl, rfl, rfl, rfl, .inl ⟨rfl, rfl, fun _ hpc => by cases hpc⟩⟩

/-- What a step of a reader does to what went through the buffer: nothing, or it takes the bytes
in its buffer out. -/
theorem reader_effect {x x' : Reader} {j : Nat} (h : BufferOk len s)
    (hj : s.readers[j]? = some x) (hto : ReaderTo len s x t x') :
    t.writers = s.writers ∧ t.readers = s.readers ∧ t.written = s.written ∧
    t.writePos = s.writePos ∧
    ((t.readOut = s.readOut ∧ ∀ cur n, x.pc ≠ .copy cur n []) ∨
      ∃ cur n, x.pc = .copy cur n [] ∧ t.readOut = s.readOut ++ x.data.take n ∧
        x' = ⟨.unlock .kSuccess, x.data, n⟩) := by
  cases hto with
  | exchange data bytesRead curReadPos n =>
    have hdrain : Draining len s.readOut.length s.written data curReadPos n [] :=
      h.readers _ (List.mem_of_getElem? hj)
    have hcur : s.readPos = curReadPos := h.ring.readPos.trans hdrain.pos.symm
    rw [exchangeReadPos, if_neg (by simp [hcur])]
    exact ⟨rfl, rfl, rfl, rfl, .inr ⟨_, _, rfl, rfl, rfl⟩⟩
  | move data bytesRead curReadPos n k moves dst src hmove =>
    refine ⟨rfl, rfl, rfl, rfl, .inl ⟨rfl, fun cur n hpc => ?_⟩⟩
    cases hpc
    cases hmove
  | busy data n hflag => exact ⟨rfl, rfl, rfl, rfl, .inl ⟨rfl, fun _ _ hpc => by cases hpc⟩⟩
  | acquire data n hflag => exact ⟨rfl, rfl, rfl, rfl, .inl ⟨rfl, fun _ _ hpc => by cases hpc⟩⟩
  | loadRead data n => exact ⟨rfl, rfl, rfl, rfl, .inl ⟨rfl, fun _ _ hpc => by cases hpc⟩⟩
  | loadWrite data n cur => exact ⟨rfl, rfl, rfl, rfl, .inl ⟨rfl, fun _ _ hpc => by cases hpc⟩⟩
  | unlock data n error => exact ⟨rfl, rfl, rfl, rfl, .inl ⟨rfl, fun _ _ hpc => by cases hpc⟩⟩

/-- A reader that copies has something to copy. -/
def Reader.ReadsSome (x : Reader) : Prop := ∀ cur n moves, x.pc = .copy cur n moves → 0 < n

theorem checkAvailable_readsSome (len curReadPos curWritePos : Nat) (x : Reader) :
    (checkAvailable len curReadPos curWritePos x).ReadsSome := by
  unfold checkAvailable
  split
  · intro cur n moves hpc
    cases hpc
  · dsimp only
    split
    · intro cur n moves hpc
      cases hpc
    · next hsome =>
      intro cur n moves hpc
      cases hpc
      exact Nat.pos_of_ne_zero hsome

theorem ReaderTo.readsSome {x x' : Reader} (hto : ReaderTo len s x t x') (hx : x.ReadsSome) :
    x'.ReadsSome := by
  cases hto with
  | loadWrite data bytesRead curReadPos => exact checkAvailable_readsSome _ _ _ _
  | move data bytesRead curReadPos n k moves dst src hmove =>
    intro cur m moves' hpc
    cases hpc
    exact hx _ _ _ rfl
  | exchange data bytesRead curReadPos n =>
    intro cur m moves' hpc
    unfold exchangeReadPos at hpc
    dsimp only at hpc
    split at hpc <;> cases hpc
  | busy data n hflag => intro _ _ _ hpc; cases hpc
  | acquire data n hflag => intro _ _ _ hpc; cases hpc
  | loadRead data n => intro _ _ _ hpc; cases hpc
  | unlock data n error => intro _ _ _ hpc; cases hpc

/-- What the linearization rests on. -/
structure LinearOk (len : Nat) (s : State) : Prop where
  buffer : BufferOk len s
  readsSome : ∀ x ∈ s.readers, x.ReadsSome

theorem LinearOk.step (hpos : 1 ≤ usableLen len) (hle : usableLen len ≤ 2 ^ 31)
    (h : LinearOk len s) (hstep : StepTo len s a t) : LinearOk len t := by
  refine ⟨bufferOk_step hpos hle h.buffer hstep, ?_⟩
  cases hstep with
  | tryWrite data => exact h.readsSome
  | tryRead data bytesRead =>
    intro x hx
    rcases List.mem_append.1 hx with hold | hnew
    · exact h.readsSome x hold
    · rw [List.mem_singleton.1 hnew]
      intro _ _ _ hpc
      cases hpc
  | writer i k x x' t hi hto =>
    obtain ⟨-, hreaders, -⟩ := writer_effect h.buffer hi hto
    intro y hy
    change y ∈ t.readers at hy
    rw [hreaders] at hy
    exact h.readsSome y hy
  | reader j k x x' t hj hto =>
    obtain ⟨-, hreaders, -⟩ := reader_effect h.buffer hj hto
    intro y hy
    rcases List.mem_or_eq_of_mem_set hy with hold | rfl
    · rw [hreaders] at hold
      exact h.readsSome y hold
    · exact hto.readsSome (h.readsSome x (List.mem_of_getElem? hj))

/-- Every step of the buffer is the step of the queue that takes effect in it, if any. -/
theorem queueStep_emit (hpos : 1 ≤ usableLen len) (hle : usableLen len ≤ 2 ^ 31)
    (h : LinearOk len s) (hstep : StepTo len s a t) :
    exec (queueStep (usableLen len)) (s.stored len) (emit len s a) = some (t.stored len) := by
  have ht := (h.step hpos hle hstep).buffer
  have hsame : ∀ {o : Op}, t.stored len = s.stored len →
      queueStep (usableLen len) (s.stored len) o = some (s.stored len) →
      exec (queueStep (usableLen len)) (s.stored len) [o] = some (t.stored len) := by
    intro o hstored ho
    rw [hstored]
    exact exec_cons_eq_some.2 ⟨_, ho, rfl⟩
  cases hstep with
  | tryWrite data => exact congrArg some (stored_eq hle ht h.buffer rfl rfl)
  | tryRead data bytesRead => exact congrArg some (stored_eq hle ht h.buffer rfl rfl)
  | writer i k x x' u hi hto =>
    obtain ⟨hwriters, hreaders, hread, hdata, heffect⟩ := writer_effect h.buffer hi hto
    rw [emit_writer hi]
    unfold emitWriter
    rcases heffect with ⟨hwritten, hwritePos, hcopy⟩ | ⟨hwritten, -, cur, hpc⟩
    · have hstored := stored_eq hle h.buffer ht hwritten hread
      split
      · split
        · next hfull => exact hsame hstored (exec_full hpos hle h.buffer (noSpace_iff.1 hfull))
        · exact congrArg some hstored.symm
      · next cur hpc => exact absurd hpc (hcopy cur)
      · exact congrArg some hstored.symm
    · obtain ⟨pc, data⟩ := x
      cases hpc
      exact exec_cons_eq_some.2 ⟨_, exec_wrote hle h.buffer ht hi hwritten hread, rfl⟩
  | reader j k x x' u hj hto =>
    obtain ⟨hwriters, hreaders, hwritten, hwritePos, heffect⟩ := reader_effect h.buffer hj hto
    have hsome := h.readsSome x (List.mem_of_getElem? hj)
    rw [emit_reader hj]
    unfold emitReader
    rcases heffect with ⟨hread, hcopy⟩ | ⟨cur, n, hpc, hread, hx'⟩
    · have hstored := stored_eq hle h.buffer ht hwritten hread
      split
      · next cur hpc =>
        split
        · next hnone =>
          obtain ⟨pc, data, bytesRead⟩ := x
          cases hpc
          exact hsame hstored (exec_empty hle h.buffer hj hnone)
        · exact congrArg some hstored.symm
      · next cur n hpc => exact absurd hpc (hcopy cur n)
      · exact congrArg some hstored.symm
    · obtain ⟨pc, data, bytesRead⟩ := x
      cases hpc
      have hdrain : Draining len s.readOut.length s.written data cur n [] :=
        h.buffer.readers _ (List.mem_of_getElem? hj)
      have hne : data.take n ≠ [] := by
        intro hnil
        have hlen := congrArg List.length hnil
        rw [List.length_take_of_le hdrain.fits] at hlen
        have hpos' := hsome cur n [] rfl
        simp only [List.length_nil] at hlen
        omega
      exact exec_cons_eq_some.2 ⟨_, exec_took hle h.buffer ht hne hwritten hread, rfl⟩

/-! ## Every call has the result of its operation -/

/-- The operations of the `i`-th `TryWrite` so far, and where it is. -/
def WriterHistory (len writePos i : Nat) (x : Writer) (ops : List Op) : Prop :=
  match x.pc with
  | .lock | .loadRead | .copy _ _ => ops = []
  | .loadWrite curReadPos =>
    ops = if noSpace len curReadPos writePos x.data.length then [.full i x.data] else []
  | .unlock error | .returned error =>
    (error = .kSuccess ∧ ops = [.wrote i x.data]) ∨
      (error = .kGeneralError ∧ (ops = [] ∨ ops = [.full i x.data]))

/-- The operations of the `j`-th reader so far, and where it is. -/
def ReaderHistory (j : Nat) (x : Reader) (ops : List Op) : Prop :=
  match x.pc with
  | .unlock error | .returned error =>
    error = .kSuccess ∧
      ((x.bytesRead = 0 ∧ ops = [.empty j x.data.length]) ∨
        ops = [.took j (x.data.take x.bytesRead)])
  | _ => ops = []

/-- Every call has its history, and nobody has one before the call. -/
structure Histories (len : Nat) (s : State) (ops : List Op) : Prop where
  writers : ∀ i : Nat, (s.writers[i]?).elim (ops.filter (Op.ofWriter i) = [])
    fun x => WriterHistory len s.writePos i x (ops.filter (Op.ofWriter i))
  readers : ∀ j : Nat, (s.readers[j]?).elim (ops.filter (Op.ofReader j) = [])
    fun x => ReaderHistory j x (ops.filter (Op.ofReader j))

theorem filter_emitWriter (s : State) (i i' : Nat) (x : Writer) :
    (emitWriter len s i x).filter (Op.ofWriter i') =
      if i = i' then emitWriter len s i x else [] := by
  unfold emitWriter
  split
  · split
    · by_cases hi : i = i' <;> simp [Op.ofWriter, hi]
    · simp
  · by_cases hi : i = i' <;> simp [Op.ofWriter, hi]
  · simp

theorem filter_emitReader (s : State) (j j' : Nat) (x : Reader) :
    (emitReader len s j x).filter (Op.ofReader j') =
      if j = j' then emitReader len s j x else [] := by
  unfold emitReader
  split
  · split
    · by_cases hj : j = j' <;> simp [Op.ofReader, hj]
    · simp
  · by_cases hj : j = j' <;> simp [Op.ofReader, hj]
  · simp

theorem filter_emitWriter_reader (s : State) (i j : Nat) (x : Writer) :
    (emitWriter len s i x).filter (Op.ofReader j) = [] := by
  unfold emitWriter
  split
  · split <;> simp [Op.ofReader]
  · simp [Op.ofReader]
  · rfl

theorem filter_emitReader_writer (s : State) (i j : Nat) (x : Reader) :
    (emitReader len s j x).filter (Op.ofWriter i) = [] := by
  unfold emitReader
  split
  · split <;> simp [Op.ofWriter]
  · simp [Op.ofWriter]
  · rfl

theorem checkSpace_cases (len curReadPos curWritePos n : Nat) :
    checkSpace len curReadPos curWritePos n = .unlock .kControlCorruption ∨
    checkSpace len curReadPos curWritePos n = .unlock .kGeneralError ∨
    ∃ moves, checkSpace len curReadPos curWritePos n = .copy curWritePos moves := by
  unfold checkSpace
  split
  · exact .inl rfl
  · split
    · exact .inr (.inl rfl)
    · exact .inr (.inr ⟨_, rfl⟩)

theorem checkSpace_ne {data : List UInt8} {curReadPos : Nat} (hpos : 1 ≤ usableLen len)
    (hle : usableLen len ≤ 2 ^ 31) (hring : RingOk len s)
    (hok : WriterOk len s.readOut.length s.written.length s.region ⟨.loadWrite curReadPos, data⟩) :
    checkSpace len curReadPos s.writePos data.length ≠ .unlock .kControlCorruption := by
  obtain ⟨pc, hpc, -, hpcok⟩ := checkSpace_ok hpos hle hring hok
  rw [hpc]
  rintro rfl
  exact hpcok rfl

theorem emitWriter_loadRead (data : List UInt8) :
    emitWriter len s i ⟨.loadRead, data⟩ =
      if noSpace len s.readPos s.writePos data.length then [.full i data] else [] := by
  unfold emitWriter
  rfl

theorem writerHistory_loadWrite (data : List UInt8) (writePos curReadPos : Nat)
    (ops : List Op) :
    WriterHistory len writePos i ⟨.loadWrite curReadPos, data⟩ ops ↔
      ops = if noSpace len curReadPos writePos data.length then [.full i data] else [] := by
  unfold WriterHistory
  rfl

/-- A writer's own step. -/
theorem WriterHistory.step {x x' : Writer} {ops : List Op} (hpos : 1 ≤ usableLen len)
    (hle : usableLen len ≤ 2 ^ 31) (h : BufferOk len s) (hi : s.writers[i]? = some x)
    (hto : WriterTo len s x t x') (hx : WriterHistory len s.writePos i x ops) :
    WriterHistory len t.writePos i x' (ops ++ emitWriter len s i x) := by
  obtain ⟨-, -, -, -, heffect⟩ := writer_effect h hi hto
  cases hto with
  | busy data hflag =>
    obtain rfl : ops = [] := hx
    exact .inr ⟨rfl, .inl rfl⟩
  | acquire data hflag =>
    obtain rfl : ops = [] := hx
    rfl
  | loadRead data =>
    obtain rfl : ops = [] := hx
    rw [List.nil_append, writerHistory_loadWrite, emitWriter_loadRead]
  | loadWrite data curReadPos =>
    have hnone : ops ++ emitWriter len s i ⟨.loadWrite curReadPos, data⟩ = ops :=
      List.append_nil _
    have hgood := checkSpace_ne hpos hle h.ring (h.writers _ (List.mem_of_getElem? hi))
    rw [hnone]
    have hcases := checkSpace_cases len curReadPos s.writePos data.length
    have hfull := @noSpace_iff len curReadPos s.writePos data.length
    rw [writerHistory_loadWrite] at hx
    generalize checkSpace len curReadPos s.writePos data.length = pc at hgood hcases hfull ⊢
    rcases hcases with hpc | hpc | hpc
    · exact absurd hpc hgood
    · rw [if_pos (hfull.2 hpc)] at hx
      subst hpc
      exact .inr ⟨rfl, .inr hx⟩
    · obtain ⟨moves, rfl⟩ := hpc
      rw [if_neg fun hspace => by cases hfull.1 hspace] at hx
      exact hx
  | move data curWritePos k moves dst src hmove =>
    obtain rfl : ops = [] := hx
    cases moves with
    | nil => cases hmove
    | cons m moves => rfl
  | exchange data curWritePos =>
    obtain rfl : ops = [] := hx
    rcases heffect with ⟨-, -, hcopy⟩ | ⟨-, hpc, -⟩
    · exact absurd rfl (hcopy curWritePos)
    · have hdata : (exchangeWritePos len s ⟨.copy curWritePos [], data⟩ curWritePos).2.data =
          data := by
        unfold exchangeWritePos
        dsimp only
        split <;> rfl
      unfold WriterHistory
      rw [hpc, hdata]
      exact .inl ⟨rfl, rfl⟩
  | unlock data error =>
    have hnone : ops ++ emitWriter len s i ⟨.unlock error, data⟩ = ops := List.append_nil _
    rw [hnone]
    exact hx

/-- Another writer's step: only the holder of the flag changes the write position. -/
theorem WriterHistory.other {x x' y : Writer} {i' : Nat} {ops : List Op} (h : BufferOk len s)
    (hi : s.writers[i]? = some x) (hi' : s.writers[i']? = some y) (hne : i ≠ i')
    (hto : WriterTo len s x t x') (hy : WriterHistory len s.writePos i' y ops) :
    WriterHistory len t.writePos i' y ops := by
  obtain ⟨-, -, -, -, heffect⟩ := writer_effect h hi hto
  rcases heffect with ⟨-, hwritePos, -⟩ | ⟨-, -, cur, hpc⟩
  · rw [hwritePos]
    exact hy
  · obtain ⟨pc, data⟩ := y
    cases pc with
    | loadWrite curReadPos =>
      have hx : x.holders = 1 := by
        rw [Writer.holders, hpc]
        rfl
      refine absurd (eq_of_total_le_one ?_ hi hi' hx rfl) hne
      rw [h.writeFlag]
      exact Bool.toNat_le _
    | lock => exact hy
    | loadRead => exact hy
    | copy curWritePos moves => exact hy
    | unlock error => exact hy
    | returned error => exact hy

/-- A reader's own step. -/
theorem ReaderHistory.step {x x' : Reader} {j : Nat} {ops : List Op} (hpos : 1 ≤ usableLen len)
    (h : BufferOk len s) (hj : s.readers[j]? = some x)
    (hto : ReaderTo len s x t x') (hx : ReaderHistory j x ops) :
    ReaderHistory j x' (ops ++ emitReader len s j x) := by
  obtain ⟨-, -, -, -, heffect⟩ := reader_effect h hj hto
  cases hto with
  | busy data bytesRead hflag =>
    obtain rfl : ops = [] := hx
    rfl
  | acquire data bytesRead hflag =>
    obtain rfl : ops = [] := hx
    rfl
  | loadRead data bytesRead =>
    obtain rfl : ops = [] := hx
    rfl
  | loadWrite data bytesRead curReadPos =>
    obtain rfl : ops = [] := hx
    have hcur : curReadPos = s.readOut.length % usableLen len :=
      h.readers _ (List.mem_of_getElem? hj)
    have hvalid : validateReadWritePositions len curReadPos s.writePos = true := by
      rw [hcur, h.ring.writePos]
      exact validateReadWritePositions_of_lt (Nat.mod_lt _ hpos) (Nat.mod_lt _ hpos)
    rw [List.nil_append, emitReader, checkAvailable, hvalid]
    simp only [Bool.not_true, Bool.false_eq_true, if_false]
    split
    · exact ⟨rfl, .inl ⟨rfl, rfl⟩⟩
    · rfl
  | move data bytesRead curReadPos n k moves dst src hmove =>
    obtain rfl : ops = [] := hx
    cases moves with
    | nil => cases hmove
    | cons m moves => rfl
  | exchange data bytesRead curReadPos n =>
    obtain rfl : ops = [] := hx
    rcases heffect with ⟨-, hcopy⟩ | ⟨cur, m, hpc, -, hx'⟩
    · exact absurd rfl (hcopy curReadPos n)
    · cases hpc
      rw [hx']
      exact ⟨rfl, .inr rfl⟩
  | unlock data bytesRead error =>
    have hnone : ops ++ emitReader len s j ⟨.unlock error, data, bytesRead⟩ = ops :=
      List.append_nil _
    rw [hnone]
    exact hx

/-- A step of a reader leaves the histories of the writers alone. -/
theorem Histories.reader {j k : Nat} {x x' : Reader} {ops : List Op} (hpos : 1 ≤ usableLen len)
    (h : BufferOk len s) (hs : Histories len s ops) (hj : s.readers[j]? = some x)
    (hto : ReaderTo len s x t x') :
    Histories len { t with readers := t.readers.set j x' } (ops ++ emit len s (.reader j k)) := by
  obtain ⟨hwriters, hreaders, -, hwritePos, -⟩ := reader_effect h hj hto
  obtain ⟨hlt, -⟩ := List.getElem?_eq_some_iff.1 hj
  rw [emit_reader hj]
  constructor
  · intro i
    rw [List.filter_append, filter_emitReader_writer, List.append_nil]
    change (t.writers[i]?).elim _ fun y => WriterHistory len t.writePos i y _
    rw [hwriters, hwritePos]
    exact hs.writers i
  · intro j'
    rw [List.filter_append, filter_emitReader]
    change ((t.readers.set j x')[j']?).elim _ _
    rw [hreaders]
    have hold := hs.readers j'
    by_cases hjj : j = j'
    · subst hjj
      rw [hj] at hold
      rw [List.getElem?_set_self hlt, if_pos rfl]
      exact hold.step hpos h hj hto
    · rw [List.getElem?_set_ne hjj, if_neg hjj, List.append_nil]
      exact hold

/-- A step of a writer leaves the histories of the others alone. -/
theorem Histories.writer {k : Nat} {x x' : Writer} {ops : List Op} (hpos : 1 ≤ usableLen len)
    (hle : usableLen len ≤ 2 ^ 31) (h : BufferOk len s) (hs : Histories len s ops)
    (hi : s.writers[i]? = some x) (hto : WriterTo len s x t x') :
    Histories len { t with writers := t.writers.set i x' } (ops ++ emit len s (.writer i k)) := by
  obtain ⟨hwriters, hreaders, -⟩ := writer_effect h hi hto
  obtain ⟨hlt, -⟩ := List.getElem?_eq_some_iff.1 hi
  rw [emit_writer hi]
  constructor
  · intro i'
    rw [List.filter_append, filter_emitWriter]
    change ((t.writers.set i x')[i']?).elim _ fun y => WriterHistory len t.writePos i' y _
    rw [hwriters]
    have hold := hs.writers i'
    by_cases hii : i = i'
    · subst hii
      rw [hi, Option.elim_some] at hold
      rw [List.getElem?_set_self hlt, if_pos rfl, Option.elim_some]
      exact WriterHistory.step hpos hle h hi hto hold
    · rw [List.getElem?_set_ne hii, if_neg hii, List.append_nil]
      cases hi' : s.writers[i']? with
      | none =>
        rw [hi', Option.elim_none] at hold
        rw [Option.elim_none]
        exact hold
      | some y =>
        rw [hi', Option.elim_some] at hold
        rw [Option.elim_some]
        exact WriterHistory.other h hi hi' hii hto hold
  · intro j
    rw [List.filter_append, filter_emitWriter_reader, List.append_nil]
    change (t.readers[j]?).elim _ _
    rw [hreaders]
    exact hs.readers j

/-- The entry behind the last one is a new call; the others are as they were. -/
theorem elim_getElem?_concat {π : Type} {xs : List π} {x : π} {P : Nat → Prop}
    {Q : Nat → π → Prop} (h : ∀ i : Nat, (xs[i]?).elim (P i) (Q i))
    (hnew : P xs.length → Q xs.length x) (i : Nat) : ((xs ++ [x])[i]?).elim (P i) (Q i) := by
  rcases Nat.lt_trichotomy i xs.length with hlt | rfl | hgt
  · rw [List.getElem?_append_left hlt]
    exact h i
  · have hnone := h xs.length
    rw [List.getElem?_eq_none (le_refl _)] at hnone
    rw [List.getElem?_concat_length]
    exact hnew hnone
  · have hnone := h i
    rw [List.getElem?_eq_none hgt.le] at hnone
    rw [List.getElem?_eq_none (by rw [List.length_append, List.length_singleton]; omega)]
    exact hnone

theorem Histories.step {ops : List Op} (hpos : 1 ≤ usableLen len) (hle : usableLen len ≤ 2 ^ 31)
    (h : BufferOk len s) (hs : Histories len s ops) (hstep : StepTo len s a t) :
    Histories len t (ops ++ emit len s a) := by
  cases hstep with
  | tryWrite data =>
    have hnone : ops ++ emit len s (.tryWrite data) = ops := List.append_nil _
    rw [hnone]
    refine ⟨elim_getElem?_concat hs.writers fun hold => ?_, hs.readers⟩
    unfold tryWrite
    split
    · exact .inr ⟨rfl, .inl hold⟩
    · exact hold
  | tryRead data bytesRead =>
    have hnone : ops ++ emit len s (.tryRead data bytesRead) = ops := List.append_nil _
    rw [hnone]
    exact ⟨hs.writers, elim_getElem?_concat hs.readers fun hold => hold⟩
  | writer i k x x' t hi hto => exact hs.writer hpos hle h hi hto
  | reader j k x x' t hj hto => exact hs.reader hpos h hj hto

theorem linearOk_initialized (hpos : 1 ≤ usableLen len) (region : Nat → UInt8) :
    LinearOk len (initialized region) :=
  ⟨bufferOk_initialized hpos region, fun x hx => by cases hx⟩

theorem histories_initialized (region : Nat → UInt8) : Histories len (initialized region) [] :=
  ⟨fun _ => rfl, fun _ => rfl⟩

/-- Every run of any number of overlapping `TryWrite` calls and readers is linearizable: the
operations that take effect in its steps are, in this order, a run of the queue that ends with
the bytes in the ring. A `TryWrite` that returned `kSuccess` has appended its whole data at once,
and one that returned `kGeneralError` has found too little space at one moment or has no effect at
all; a reader that is done has taken the bytes in its buffer from the front at once, or has found
the queue empty. -/
theorem shared_buffer_linearizable (len : Nat) (hpos : 1 ≤ usableLen len)
    (hle : usableLen len ≤ 2 ^ 31) (region : Nat → UInt8) (acts : List Act) (s : State)
    (hrun : exec (step len) (initialized region) acts = some s) :
    ∃ ops, ops = trace (step len) (emit len) (initialized region) acts ∧
      exec (queueStep (usableLen len)) [] ops = some (s.stored len) ∧
      (∀ (i : Nat) (x : Writer), s.writers[i]? = some x → ∀ error, x.pc = .returned error →
        (error = .kSuccess ∧ ops.filter (Op.ofWriter i) = [.wrote i x.data]) ∨
        (error = .kGeneralError ∧ (ops.filter (Op.ofWriter i) = [] ∨
          ops.filter (Op.ofWriter i) = [.full i x.data]))) ∧
      ∀ (j : Nat) (x : Reader), s.readers[j]? = some x → ∀ error, x.pc = .returned error →
        error = .kSuccess ∧
        ((x.bytesRead = 0 ∧ ops.filter (Op.ofReader j) = [.empty j x.data.length]) ∨
          ops.filter (Op.ofReader j) = [.took j (x.data.take x.bytesRead)]) := by
  have hlegal : exec (queueStep (usableLen len)) ((initialized region).stored len)
      (trace (step len) (emit len) (initialized region) acts) = some (s.stored len) :=
    exec_trace (I := LinearOk len) (State.stored len)
      (fun u a v hu hv => ⟨hu.step hpos hle (stepTo_of_step hv),
        queueStep_emit hpos hle hu (stepTo_of_step hv)⟩)
      (linearOk_initialized hpos region) hrun
  have hhistories : BufferOk len s ∧
      Histories len s ([] ++ trace (step len) (emit len) (initialized region) acts) :=
    exec_trace_induct (J := fun u ops => BufferOk len u ∧ Histories len u ops)
      (fun u a v ops hu hv => ⟨bufferOk_step hpos hle hu.1 (stepTo_of_step hv),
        hu.2.step hpos hle hu.1 (stepTo_of_step hv)⟩)
      ⟨bufferOk_initialized hpos region, histories_initialized region⟩ hrun
  rw [List.nil_append] at hhistories
  refine ⟨_, rfl, hlegal, fun i x hi error hpc => ?_, fun j x hj error hpc => ?_⟩
  · have hhistory := hhistories.2.writers i
    rw [hi] at hhistory
    simpa only [Option.elim_some, WriterHistory, hpc] using hhistory
  · have hhistory := hhistories.2.readers j
    rw [hj] at hhistory
    simpa only [Option.elim_some, ReaderHistory, hpc] using hhistory

/-- Two overlapping `TryWrite` calls, of which the second finds the flag taken, and a read. -/
def overlappingRun : List Act :=
  List.flatten [[.tryWrite [1, 2], .tryWrite [3]], List.replicate 3 (.writer 0 0), [.writer 1 0],
    List.replicate 4 (.writer 0 0), [.tryRead [0, 0, 0] 0], List.replicate 7 (.reader 0 0)]

theorem shared_buffer_linearizable_overlapping :
    ∃ s, exec (step 28) (initialized fun _ => 0) overlappingRun = some s ∧
      exec (queueStep (usableLen 28)) []
        (trace (step 28) (emit 28) (initialized fun _ => 0) overlappingRun) =
        some (s.stored 28) := by
  have hends : ∃ s, exec (step 28) (initialized fun _ => 0) overlappingRun = some s ∧
      s.readOut = [1, 2] := exists_exec_of_decide (by decide)
  obtain ⟨s, hs, -⟩ := hends
  obtain ⟨ops, hops, hlegal, -⟩ := shared_buffer_linearizable 28 (by decide) (by decide)
    (fun _ => 0) overlappingRun s hs
  refine ⟨s, hs, ?_⟩
  rw [← hops]
  exact hlegal

end Sparo.Demo.SharedBuffer
