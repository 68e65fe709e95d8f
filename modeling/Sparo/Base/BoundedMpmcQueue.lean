import Sparo.Misc.StepSystem
import Mathlib.Algebra.Ring.Nat
import Mathlib.Logic.Function.Basic

/-!
# `dvyukov::mpmc_bounded_queue`

The bounded queue for any number of producers and consumers of `src/base/bounded-mpmc-queue.h` as
a step system. A step is one access to the shared memory: a load of a position or of a sequence
number, a `compare_exchange_weak`, the copy of the data of a cell or the store of a sequence number.
A thread that makes several calls is several entries whose steps come one after the other.

Positions and sequence numbers are unbounded, so the sign of their difference is that of the true
difference.
-/

namespace Sparo.Base.MpmcBoundedQueue

variable {T : Type*}

/-- `cell_t`. -/
structure Cell (T : Type*) where
  sequence : Nat
  data : T

/-- Where a caller is in `enqueue` (`bounded-mpmc-queue.h:83-106`). -/
inductive ProducerPc where
  /-- Before `enqueue_pos_.load()`. -/
  | loadPos
  /-- Before `cell->sequence_.load()`. -/
  | loadSequence (pos : Nat)
  /-- Before `enqueue_pos_.compare_exchange_weak(pos, pos + 1)`. -/
  | exchange (pos : Nat)
  /-- Before `cell->data_ = data`. -/
  | copy (pos : Nat)
  /-- Before `cell->sequence_.store(pos + 1)`. -/
  | store (pos : Nat)
  /-- `enqueue` returned `true`. -/
  | succeeded (pos : Nat)
  /-- `enqueue` returned `false`. -/
  | failed
  deriving DecidableEq, Repr

/-- A call of `enqueue`. -/
structure Producer (T : Type*) where
  pc : ProducerPc
  data : T

/-- Where a caller is in `dequeue` (`bounded-mpmc-queue.h:115-139`). -/
inductive ConsumerPc where
  /-- Before `dequeue_pos_.load()`. -/
  | loadPos
  /-- Before `cell->sequence_.load()`. -/
  | loadSequence (pos : Nat)
  /-- Before `dequeue_pos_.compare_exchange_weak(pos, pos + 1)`. -/
  | exchange (pos : Nat)
  /-- Before `data = cell->data_`. -/
  | copy (pos : Nat)
  /-- Before `cell->sequence_.store(pos + buffer_mask_ + 1)`. -/
  | store (pos : Nat)
  /-- `dequeue` returned `true`. -/
  | succeeded (pos : Nat)
  /-- `dequeue` returned `false`. -/
  | failed
  deriving DecidableEq, Repr

/-- A call of `dequeue`, with the value of its `data`. -/
structure Consumer (T : Type*) where
  pc : ConsumerPc
  data : T

/-- The queue and the calls. -/
structure State (T : Type*) where
  /-- `buffer_`, by the index of the cell. -/
  buffer : Nat → Cell T
  enqueuePos : Nat := 0
  dequeuePos : Nat := 0
  producers : List (Producer T) := []
  consumers : List (Consumer T) := []

/-- A label picks the call that moves. A `compare_exchange_weak` may fail although it finds the
value it expects. -/
inductive Act (T : Type*) where
  /-- `enqueue(data)` is called. -/
  | enqueue (data : T)
  /-- `dequeue(data)` is called. -/
  | dequeue (data : T)
  | producer (i : Nat) (spurious : Bool)
  | consumer (i : Nat) (spurious : Bool)

/-- The queue after its constructor; `data` is what the cells hold then. -/
def constructed (data : Nat → T) : State T := { buffer := fun i => ⟨i, data i⟩ }

/-- The index of the cell at a position. -/
def cellIndex (bufferMask pos : Nat) : Nat := pos &&& bufferMask

/-- The next step of an `enqueue` call. -/
def producerStep (bufferMask : Nat) (s : State T) (p : Producer T) (spurious : Bool) :
    Option (State T × Producer T) :=
  match p.pc with
  | .loadPos => some (s, { p with pc := .loadSequence s.enqueuePos })
  | .loadSequence pos =>
    let sequence := (s.buffer (cellIndex bufferMask pos)).sequence
    if sequence = pos then some (s, { p with pc := .exchange pos })
    else if sequence < pos then some (s, { p with pc := .failed })
    else some (s, { p with pc := .loadPos })
  | .exchange pos =>
    if s.enqueuePos = pos ∧ spurious = false then
      some ({ s with enqueuePos := pos + 1 }, { p with pc := .copy pos })
    else some (s, { p with pc := .loadSequence s.enqueuePos })
  | .copy pos =>
    let i := cellIndex bufferMask pos
    some ({ s with buffer := Function.update s.buffer i { s.buffer i with data := p.data } },
      { p with pc := .store pos })
  | .store pos =>
    let i := cellIndex bufferMask pos
    some ({ s with buffer := Function.update s.buffer i { s.buffer i with sequence := pos + 1 } },
      { p with pc := .succeeded pos })
  | .succeeded _ | .failed => none

/-- The next step of a `dequeue` call. -/
def consumerStep (bufferMask : Nat) (s : State T) (c : Consumer T) (spurious : Bool) :
    Option (State T × Consumer T) :=
  match c.pc with
  | .loadPos => some (s, { c with pc := .loadSequence s.dequeuePos })
  | .loadSequence pos =>
    let sequence := (s.buffer (cellIndex bufferMask pos)).sequence
    if sequence = pos + 1 then some (s, { c with pc := .exchange pos })
    else if sequence < pos + 1 then some (s, { c with pc := .failed })
    else some (s, { c with pc := .loadPos })
  | .exchange pos =>
    if s.dequeuePos = pos ∧ spurious = false then
      some ({ s with dequeuePos := pos + 1 }, { c with pc := .copy pos })
    else some (s, { c with pc := .loadSequence s.dequeuePos })
  | .copy pos =>
    some (s, { pc := .store pos, data := (s.buffer (cellIndex bufferMask pos)).data })
  | .store pos =>
    let i := cellIndex bufferMask pos
    some ({ s with
        buffer := Function.update s.buffer i { s.buffer i with sequence := pos + bufferMask + 1 } },
      { c with pc := .succeeded pos })
  | .succeeded _ | .failed => none

/-- One step of a queue with `buffer_mask_ = bufferMask`. -/
def step (bufferMask : Nat) (s : State T) : Act T → Option (State T)
  | .enqueue data => some { s with producers := s.producers ++ [⟨.loadPos, data⟩] }
  | .dequeue data => some { s with consumers := s.consumers ++ [⟨.loadPos, data⟩] }
  | .producer i spurious =>
    match s.producers[i]? with
    | none => none
    | some p => (producerStep bufferMask s p spurious).map fun (t, p') =>
        { t with producers := t.producers.set i p' }
  | .consumer i spurious =>
    match s.consumers[i]? with
    | none => none
    | some c => (consumerStep bufferMask s c spurious).map fun (t, c') =>
        { t with consumers := t.consumers.set i c' }

/-- The ticket of an `enqueue` whose exchange succeeded. -/
def Producer.ticket (p : Producer T) : Option Nat :=
  match p.pc with
  | .copy pos | .store pos | .succeeded pos => some pos
  | .loadPos | .loadSequence _ | .exchange _ | .failed => none

/-- The ticket of a `dequeue` whose exchange succeeded. -/
def Consumer.ticket (c : Consumer T) : Option Nat :=
  match c.pc with
  | .copy pos | .store pos | .succeeded pos => some pos
  | .loadPos | .loadSequence _ | .exchange _ | .failed => none

/-- The cell that an `enqueue` owns, between its exchange and its store of the sequence number. -/
def Producer.owned (bufferMask : Nat) (p : Producer T) : Option Nat :=
  match p.pc with
  | .copy pos | .store pos => some (cellIndex bufferMask pos)
  | .loadPos | .loadSequence _ | .exchange _ | .succeeded _ | .failed => none

/-- The cell that a `dequeue` owns, between its exchange and its store of the sequence number. -/
def Consumer.owned (bufferMask : Nat) (c : Consumer T) : Option Nat :=
  match c.pc with
  | .copy pos | .store pos => some (cellIndex bufferMask pos)
  | .loadPos | .loadSequence _ | .exchange _ | .succeeded _ | .failed => none

end Sparo.Base.MpmcBoundedQueue
