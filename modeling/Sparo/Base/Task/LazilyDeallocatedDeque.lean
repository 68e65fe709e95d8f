import Mathlib.Algebra.Ring.Nat
import Mathlib.Data.Int.Order.Basic

/-!
# `LazilyDeallocatedDeque`

The task queue of `src/base/task/lazily_deallocated_deque.h`: a chain of ring buffers, grown
at the tail by a new, larger ring and re-packed into one ring by `MaybeShrinkQueue`.

A slot of a ring is `some t` while a `T` lives in it and `none` while it is raw storage, so
constructing an object is writing `some t` and running a destructor is writing `none`. The
chain `head_ → next_ → … → tail_` is the list `rings`: `head_` is its first element, `tail_`
its last, and both are null for the empty list. `size_t` counters are unbounded, since a
deque of `2 ^ 64` elements does not fit in memory. The clock reading of `now_source()` is an
argument, and a time point is its count of nanoseconds.
-/

namespace Sparo.Base

/-- `LazilyDeallocatedDeque::Ring` (`lazily_deallocated_deque.h:206-280`); `data` is `data_`,
the slots of the backing store. -/
structure Ring (α : Type) where
  frontIndex : Nat
  backIndex : Nat
  data : List (Option α)
  deriving DecidableEq, Repr

namespace Ring

variable {α : Type}

/-- `Ring(capacity)`: both indices start at 0 and no slot holds an object. -/
def new (capacity : Nat) : Ring α := ⟨0, 0, List.replicate capacity none⟩

def capacity (r : Ring α) : Nat := r.data.length

def empty (r : Ring α) : Bool := r.backIndex == r.frontIndex

/-- `CircularDecrement` (`lazily_deallocated_deque.h:261-265`). -/
def circularDecrement (r : Ring α) (index : Nat) : Nat :=
  if index = 0 then r.capacity - 1 else index - 1

/-- `CircularIncrement` (`lazily_deallocated_deque.h:267-273`). -/
def circularIncrement (r : Ring α) (index : Nat) : Nat :=
  if index + 1 = r.capacity then 0 else index + 1

def canPush (r : Ring α) : Bool := r.frontIndex != r.circularIncrement r.backIndex

/-- `Ring::push_front`: the object goes to the slot `front_index_`, which then moves down. -/
def pushFront (r : Ring α) (t : α) : Ring α :=
  { r with
    data := r.data.set r.frontIndex (some t)
    frontIndex := r.circularDecrement r.frontIndex }

/-- `Ring::push_back`: `back_index_` moves up and the object goes to that slot. -/
def pushBack (r : Ring α) (t : α) : Ring α :=
  { r with
    backIndex := r.circularIncrement r.backIndex
    data := r.data.set (r.circularIncrement r.backIndex) (some t) }

/-- `Ring::pop_front`: `front_index_` moves up and the object there is destroyed. -/
def popFront (r : Ring α) : Ring α :=
  { r with
    frontIndex := r.circularIncrement r.frontIndex
    data := r.data.set (r.circularIncrement r.frontIndex) none }

/-- The object in a slot, if one lives there. -/
def slot (r : Ring α) (index : Nat) : Option α := (r.data[index]?).join

def front (r : Ring α) : Option α := r.slot (r.circularIncrement r.frontIndex)

def back (r : Ring α) : Option α := r.slot r.backIndex

/-- The number of slots from the one after `front_index_` up to `back_index_`. -/
def count (r : Ring α) : Nat := (r.backIndex + r.capacity - r.frontIndex) % r.capacity

/-- The live slots, from the one after `front_index_` up to `back_index_`. -/
def toList (r : Ring α) : List α :=
  (List.range r.count).filterMap fun i => r.slot ((r.frontIndex + 1 + i) % r.capacity)

end Ring

/-- `LazilyDeallocatedDeque` (`lazily_deallocated_deque.h:32-338`). -/
structure LazilyDeallocatedDeque (α : Type) where
  rings : List (Ring α) := []
  size : Nat := 0
  maxSize : Nat := 0
  nextResizeTime : Int := 0
  deriving DecidableEq, Repr

namespace LazilyDeallocatedDeque

variable {α : Type}

def kMinimumRingSize : Nat := 4
def kReclaimThreshold : Nat := 16
def kMinimumShrinkIntervalInSeconds : Int := 5

/-- `std::chrono::seconds` in the ticks of `steady_clock`. -/
def seconds (n : Int) : Int := n * 1000000000

def empty (d : LazilyDeallocatedDeque α) : Bool := d.size == 0

def capacity (d : LazilyDeallocatedDeque α) : Nat := (d.rings.map Ring.capacity).sum

def clear (d : LazilyDeallocatedDeque α) : LazilyDeallocatedDeque α :=
  { d with rings := [], size := 0 }

/-- The first ring is made on the first push (`lazily_deallocated_deque.h:78-81,100-103`). -/
def ensureHead : List (Ring α) → List (Ring α)
  | [] => [Ring.new kMinimumRingSize]
  | rings => rings

/-- `push_front` on the chain: a full head gets a ring of minimum size in front of it. -/
def pushFrontRings (t : α) : List (Ring α) → List (Ring α)
  | [] => []
  | head :: rings =>
    if head.canPush then head.pushFront t :: rings
    else (Ring.new kMinimumRingSize).pushFront t :: head :: rings

/-- `push_back` on the chain: a full tail gets a ring of about one and a half times its
capacity behind it (`lazily_deallocated_deque.h:106-118`). -/
def pushBackRings (t : α) : List (Ring α) → List (Ring α)
  | [] => []
  | [tail] =>
    if tail.canPush then [tail.pushBack t]
    else [tail, (Ring.new (2 + tail.capacity + tail.capacity / 2)).pushBack t]
  | ring :: rings => ring :: pushBackRings t rings

/-- `push_front` (`lazily_deallocated_deque.h:77-96`). -/
def pushFront (d : LazilyDeallocatedDeque α) (t : α) : LazilyDeallocatedDeque α :=
  { d with
    rings := pushFrontRings t (ensureHead d.rings)
    size := d.size + 1
    maxSize := max d.maxSize (d.size + 1) }

/-- `push_back` (`lazily_deallocated_deque.h:99-120`). -/
def pushBack (d : LazilyDeallocatedDeque α) (t : α) : LazilyDeallocatedDeque α :=
  { d with
    rings := pushBackRings t (ensureHead d.rings)
    size := d.size + 1
    maxSize := max d.maxSize (d.size + 1) }

def front (d : LazilyDeallocatedDeque α) : Option α := d.rings.head?.bind Ring.front

def back (d : LazilyDeallocatedDeque α) : Option α := d.rings.getLast?.bind Ring.back

/-- `pop_front` on the chain: an emptied head is dropped when another ring follows. -/
def popFrontRings : List (Ring α) → List (Ring α)
  | [] => []
  | head :: rings =>
    if head.popFront.empty && !rings.isEmpty then rings else head.popFront :: rings

/-- `pop_front` (`lazily_deallocated_deque.h:138-149`). -/
def popFront (d : LazilyDeallocatedDeque α) : LazilyDeallocatedDeque α :=
  { d with rings := popFrontRings d.rings, size := d.size - 1 }

/-- `swap` exchanges every member of the two deques (`lazily_deallocated_deque.h:151-157`). -/
def swap (d other : LazilyDeallocatedDeque α) :
    LazilyDeallocatedDeque α × LazilyDeallocatedDeque α :=
  (other, d)

/-- The `while (!empty())` loop of `SetCapacity`: the front object is moved to `newRing` and
popped. The loop ends because `pop_front` counts `size_` down, so `size_` bounds its rounds. -/
def moveAll : Nat → LazilyDeallocatedDeque α → Ring α → Ring α
  | 0, _, newRing => newRing
  | n + 1, d, newRing =>
    if d.empty then newRing
    else match d.front with
      | some t => moveAll n d.popFront (newRing.pushBack t)
      | none => newRing

/-- `SetCapacity` (`lazily_deallocated_deque.h:187-203`). -/
def setCapacity (d : LazilyDeallocatedDeque α) (newCapacity : Nat) : LazilyDeallocatedDeque α :=
  { d with rings := [moveAll d.size d (Ring.new newCapacity)] }

/-- `MaybeShrinkQueue` (`lazily_deallocated_deque.h:159-185`) at clock reading
`currentTime`. -/
def maybeShrinkQueue (d : LazilyDeallocatedDeque α) (currentTime : Int) :
    LazilyDeallocatedDeque α :=
  if d.rings.isEmpty then d
  else if currentTime < d.nextResizeTime then d
  else
    let newCapacity := max (d.maxSize + 1) kMinimumRingSize
    let d := { d with maxSize := d.size }
    if newCapacity + kReclaimThreshold ≥ d.capacity then d
    else
      { d.setCapacity newCapacity with
        nextResizeTime := currentTime + seconds kMinimumShrinkIntervalInSeconds }

/-- The elements from `head_` to `tail_`: the live slots of the rings, in order. -/
def toList (d : LazilyDeallocatedDeque α) : List α := d.rings.flatMap Ring.toList

/-- `LazilyDeallocatedDeque::Iterator` (`lazily_deallocated_deque.h:283-324`): `ring_` and the
chain behind it, which is empty for a null `ring_`, and `index_`. -/
structure Iterator (α : Type) where
  rings : List (Ring α)
  index : Nat

namespace Iterator

/-- `Iterator(ring)`; the iterator of a missing or empty ring is `end()`. -/
def ofRing : List (Ring α) → Iterator α
  | [] => ⟨[], 0⟩
  | ring :: rings =>
    if ring.empty then ⟨[], 0⟩
    else ⟨ring :: rings, ring.circularIncrement ring.frontIndex⟩

/-- `operator bool`. -/
def toBool (it : Iterator α) : Bool := !it.rings.isEmpty

/-- `operator*`, `none` where no object lives. -/
def deref (it : Iterator α) : Option α := it.rings.head?.bind fun ring => ring.slot it.index

/-- `operator++`; a null iterator is never incremented. -/
def next : Iterator α → Iterator α
  | ⟨[], index⟩ => ⟨[], index⟩
  | ⟨ring :: rings, index⟩ =>
    if index = ring.backIndex then
      match rings with
      | [] => ⟨[], 0⟩
      | ring :: rings => ⟨ring :: rings, ring.circularIncrement ring.frontIndex⟩
    else ⟨ring :: rings, ring.circularIncrement index⟩

/-- What `for (; it; ++it)` visits, in at most `n` rounds: `none` when it reads a slot that
holds no object, or when it has not ended by then. -/
def visit : Nat → Iterator α → Option (List α)
  | 0, it => if it.toBool then none else some []
  | n + 1, it =>
    if it.toBool then it.deref.bind fun t => (visit n it.next).map fun ts => t :: ts
    else some []

end Iterator

/-- `begin()`. -/
def begin (d : LazilyDeallocatedDeque α) : Iterator α := Iterator.ofRing d.rings

end LazilyDeallocatedDeque

end Sparo.Base
