import Mathlib.Algebra.Ring.Nat
import Mathlib.Data.Int.Order.Basic

/-!
# `circular_deque`

The double-ended queue of `src/base/containers/circular_deque.h` on the raw storage of
`src/base/containers/vector_buffer.h`.

A cell of the buffer is `some t` while a `T` lives in it and `none` while it is raw storage.
Every member function that touches cells returns an `Option`: it is `none` as soon as an
object is constructed over a living one or outside of the buffer, as soon as raw storage is
read, moved from or destroyed, and when a loop has not ended within the rounds the buffer has
cells for. An iterator is its `index_`, the deque it belongs to being the receiver. `size_t`
is unbounded, since the elements of a deque fit in memory; `generation_` exists in debug
builds only and decides nothing. A range is what passes over it read: `assign` makes one, `insert`
makes two, the first in `std::distance` and the second in the copying loop.
-/

namespace Sparo.Base

namespace VectorBuffer

variable {α : Type}

/-- `VectorBuffer(count)`: storage for `count` objects, none of them alive. -/
def new (count : Nat) : List (Option α) := List.replicate count none

/-- `new (&buffer_[i]) T(t)` in a cell without an object. -/
def construct (buffer : List (Option α)) (i : Nat) (t : α) : Option (List (Option α)) :=
  match buffer[i]? with
  | some none => some (buffer.set i (some t))
  | _ => none

/-- The destructor of the object in cell `i`. -/
def destruct (buffer : List (Option α)) (i : Nat) : Option (List (Option α)) :=
  match buffer[i]? with
  | some (some _) => some (buffer.set i none)
  | _ => none

/-- The loop of `DestructRange` from cell `i` on, over `n` cells. -/
def destructCells : Nat → List (Option α) → Nat → Option (List (Option α))
  | 0, buffer, _ => some buffer
  | n + 1, buffer, i => (destruct buffer i).bind fun buffer => destructCells n buffer (i + 1)

/-- `DestructRange(&buffer_[first], &buffer_[last])` (`vector_buffer.h:97-106`). -/
def destructRange (buffer : List (Option α)) (first last : Nat) : Option (List (Option α)) :=
  destructCells (last - first) buffer first

/-- The loop of `MoveRange` into another buffer, over `n` cells. The cells moved from are
freed with their buffer, so only the target is returned. -/
def moveCells (source : List (Option α)) : Nat → Nat → List (Option α) → Nat →
    Option (List (Option α))
  | 0, _, target, _ => some target
  | n + 1, i, target, dest =>
    match source[i]? with
    | some (some t) =>
      (construct target dest t).bind fun target => moveCells source n (i + 1) target (dest + 1)
    | _ => none

/-- `MoveRange(&source[first], &source[last], &target[dest])` (`vector_buffer.h:127-147`). -/
def moveRange (source : List (Option α)) (first last : Nat) (target : List (Option α))
    (dest : Nat) : Option (List (Option α)) :=
  moveCells source (last - first) first target dest

/-- `MoveRange` of the one object in cell `src` to cell `dest` of the same buffer. -/
def moveOne (buffer : List (Option α)) (src dest : Nat) : Option (List (Option α)) :=
  match buffer[src]? with
  | some (some t) => (construct buffer dest t).bind fun buffer => destruct buffer src
  | _ => none

end VectorBuffer

/-- The range `[first, last)` that a range overload is given. A single-pass iterator, such as a
`std::istream_iterator`, has nothing left to read when it has been passed over once. -/
structure InputRange (α : Type) where
  /-- What the first pass reads. -/
  values : List α
  /-- What as many reads of a second pass from the same `first` give. -/
  again : List α
  length_again : again.length = values.length
  deriving DecidableEq, Repr

/-- A multi-pass range reads the same each time. -/
def InputRange.multipass {α : Type} (values : List α) : InputRange α := ⟨values, values, rfl⟩

/-- `circular_deque` (`circular_deque.h:396-1086`). -/
structure CircularDeque (α : Type) where
  buffer : List (Option α) := []
  begin_ : Nat := 0
  end_ : Nat := 0
  deriving DecidableEq, Repr

namespace CircularDeque

variable {α : Type}

def kCircularBufferInitialCapacity : Nat := 3

/-- `capacity()`: one cell is kept free to tell a full buffer from an empty one. -/
def capacity (d : CircularDeque α) : Nat :=
  if d.buffer.length = 0 then 0 else d.buffer.length - 1

def empty (d : CircularDeque α) : Bool := d.begin_ == d.end_

/-- `size()` (`circular_deque.h:616-620`). -/
def size (d : CircularDeque α) : Nat :=
  if d.begin_ ≤ d.end_ then d.end_ - d.begin_ else d.buffer.length - d.begin_ + d.end_

/-- The elements from `begin_` to `end_`, modulo the size of the buffer. -/
def toList (d : CircularDeque α) : List α :=
  (List.range d.size).filterMap fun k => (d.buffer[(d.begin_ + k) % d.buffer.length]?).join

/-! ## Iterators (`circular_deque.h:136-397`) -/

/-- `OffsetFromBegin`. -/
def offsetFromBegin (d : CircularDeque α) (index : Nat) : Nat :=
  if index ≥ d.begin_ then index - d.begin_ else d.buffer.length - d.begin_ + index

/-- `Increment`. -/
def increment (d : CircularDeque α) (index : Nat) : Nat :=
  if index + 1 = d.buffer.length then 0 else index + 1

/-- `Decrement`. -/
def decrement (d : CircularDeque α) (index : Nat) : Nat :=
  if index = 0 then d.buffer.length - 1 else index - 1

/-- `Add`. -/
def add (d : CircularDeque α) (index : Nat) (delta : Int) : Nat :=
  if delta = 0 then index
  else ((((d.offsetFromBegin index : Nat) + delta) + d.begin_) % d.buffer.length).toNat

/-- `operator*`. -/
def deref (d : CircularDeque α) (index : Nat) : Option α := (d.buffer[index]?).join

/-- What `for (; it != last; ++it)` reads, in at most `n` rounds. -/
def visit (d : CircularDeque α) : Nat → Nat → Nat → Option (List α)
  | 0, it, last => if it = last then some [] else none
  | n + 1, it, last =>
    if it = last then some []
    else (d.deref it).bind fun t => (d.visit n (d.increment it) last).map fun ts => t :: ts

/-- What a loop over `std::reverse_iterator`s reads: `*it` is the object before `it.base()`. -/
def visitBack (d : CircularDeque α) : Nat → Nat → Nat → Option (List α)
  | 0, it, last => if it = last then some [] else none
  | n + 1, it, last =>
    if it = last then some []
    else (d.deref (d.decrement it)).bind fun t =>
      (d.visitBack n (d.decrement it) last).map fun ts => t :: ts

/-- A loop from `begin()` to `end()`. -/
def forward (d : CircularDeque α) : Option (List α) := d.visit d.buffer.length d.begin_ d.end_

/-- A loop from `rbegin()` to `rend()`. -/
def reverse (d : CircularDeque α) : Option (List α) :=
  d.visitBack d.buffer.length d.end_ d.begin_

/-! ## Accessors (`circular_deque.h:513-547`) -/

/-- `at(i)`. -/
def at_ (d : CircularDeque α) (i : Nat) : Option α :=
  let rightSize := d.buffer.length - d.begin_
  if d.begin_ ≤ d.end_ ∨ i < rightSize then d.deref (d.begin_ + i) else d.deref (i - rightSize)

def front (d : CircularDeque α) : Option α := d.deref d.begin_

/-- `back()`, which is `*(--end())`. -/
def back (d : CircularDeque α) : Option α := d.deref (d.decrement d.end_)

/-! ## Memory management (`circular_deque.h:582-613,908-1005`) -/

/-- `MoveBuffer`, returning the target buffer with `*to_begin` and `*to_end`. -/
def moveBuffer (fromBuf : List (Option α)) (fromBegin fromEnd : Nat) (toBuf : List (Option α)) :
    Option (CircularDeque α) :=
  if fromBegin < fromEnd then
    (VectorBuffer.moveRange fromBuf fromBegin fromEnd toBuf 0).map fun toBuf =>
      ⟨toBuf, 0, fromEnd - fromBegin⟩
  else if fromBegin > fromEnd then
    let rightSize := fromBuf.length - fromBegin
    (VectorBuffer.moveRange fromBuf fromBegin fromBuf.length toBuf 0).bind fun toBuf =>
      (VectorBuffer.moveRange fromBuf 0 fromEnd toBuf rightSize).map fun toBuf =>
        ⟨toBuf, 0, rightSize + fromEnd⟩
  else some ⟨toBuf, 0, 0⟩

/-- `SetCapacityTo`. -/
def setCapacityTo (d : CircularDeque α) (newCapacity : Nat) : Option (CircularDeque α) :=
  moveBuffer d.buffer d.begin_ d.end_ (VectorBuffer.new (newCapacity + 1))

/-- `ExpandCapacityIfNecessary`. -/
def expandCapacityIfNecessary (d : CircularDeque α) (additionalElts : Nat) :
    Option (CircularDeque α) :=
  if d.capacity ≥ d.size + additionalElts then some d
  else
    let minNewCapacity := max (d.size + additionalElts) kCircularBufferInitialCapacity
    d.setCapacityTo (max minNewCapacity (d.capacity + d.capacity / 4))

/-- `ShrinkCapacityIfNecessary`. -/
def shrinkCapacityIfNecessary (d : CircularDeque α) : Option (CircularDeque α) :=
  if d.capacity ≤ kCircularBufferInitialCapacity then some d
  else if d.capacity - d.size < d.size then some d
  else
    let newCapacity := max kCircularBufferInitialCapacity (d.size + d.size / 4)
    if newCapacity < d.capacity then d.setCapacityTo newCapacity else some d

/-- `DestructRange`, on indices that may wrap around. -/
def destructRange (d : CircularDeque α) (first last : Nat) : Option (List (Option α)) :=
  if last = first then some d.buffer
  else if last > first then VectorBuffer.destructRange d.buffer first last
  else
    (VectorBuffer.destructRange d.buffer first d.buffer.length).bind fun buffer =>
      VectorBuffer.destructRange buffer 0 last

/-- `ClearRetainCapacity`. -/
def clearRetainCapacity (d : CircularDeque α) : Option (CircularDeque α) :=
  (d.destructRange d.begin_ d.end_).map fun buffer => ⟨buffer, 0, 0⟩

def reserve (d : CircularDeque α) (newCapacity : Nat) : Option (CircularDeque α) :=
  if newCapacity > d.capacity then d.setCapacityTo newCapacity else some d

/-- `shrink_to_fit`: the empty case frees the buffer and leaves `begin_` and `end_` alone. -/
def shrinkToFit (d : CircularDeque α) : Option (CircularDeque α) :=
  if d.empty then some { d with buffer := [] } else d.setCapacityTo d.size

def clear (d : CircularDeque α) : Option (CircularDeque α) :=
  d.clearRetainCapacity.map fun d => { d with buffer := [] }

/-! ## Begin and end operations (`circular_deque.h:831-887`) -/

def emplaceFront (d : CircularDeque α) (t : α) : Option (CircularDeque α) :=
  (d.expandCapacityIfNecessary 1).bind fun d =>
    let begin_ := if d.begin_ = 0 then d.buffer.length - 1 else d.begin_ - 1
    (VectorBuffer.construct d.buffer begin_ t).map fun buffer => ⟨buffer, begin_, d.end_⟩

def emplaceBack (d : CircularDeque α) (t : α) : Option (CircularDeque α) :=
  (d.expandCapacityIfNecessary 1).bind fun d =>
    (VectorBuffer.construct d.buffer d.end_ t).map fun buffer =>
      ⟨buffer, d.begin_, if d.end_ = d.buffer.length - 1 then 0 else d.end_ + 1⟩

def pushFront (d : CircularDeque α) (value : α) : Option (CircularDeque α) := d.emplaceFront value

def pushBack (d : CircularDeque α) (value : α) : Option (CircularDeque α) := d.emplaceBack value

def popFront (d : CircularDeque α) : Option (CircularDeque α) :=
  (VectorBuffer.destructRange d.buffer d.begin_ (d.begin_ + 1)).bind fun buffer =>
    shrinkCapacityIfNecessary
      ⟨buffer, if d.begin_ + 1 = d.buffer.length then 0 else d.begin_ + 1, d.end_⟩

def popBack (d : CircularDeque α) : Option (CircularDeque α) :=
  let end_ := if d.end_ = 0 then d.buffer.length - 1 else d.end_ - 1
  (VectorBuffer.destructRange d.buffer end_ (end_ + 1)).bind fun buffer =>
    shrinkCapacityIfNecessary ⟨buffer, d.begin_, end_⟩

/-- `emplace_back` of each value in turn. -/
def emplaceBackAll : CircularDeque α → List α → Option (CircularDeque α)
  | d, [] => some d
  | d, t :: ts => (d.emplaceBack t).bind fun d => emplaceBackAll d ts

/-- `push_front(value)`, `count` times. -/
def pushFrontTimes : Nat → CircularDeque α → α → Option (CircularDeque α)
  | 0, d, _ => some d
  | count + 1, d, value => (d.pushFront value).bind fun d => pushFrontTimes count d value

/-- `while (size() < count) emplace_back(value)`, in at most `n` rounds. -/
def growTo : Nat → CircularDeque α → Nat → α → Option (CircularDeque α)
  | 0, d, count, _ => if d.size < count then none else some d
  | n + 1, d, count, value =>
    if d.size < count then (d.emplaceBack value).bind fun d => growTo n d count value
    else some d

/-- `resize(count, value)` (`circular_deque.h:651-666`); `resize(count)` does the same with a
value-initialised `T`. -/
def resize (d : CircularDeque α) (count : Nat) (value : α) : Option (CircularDeque α) :=
  if count > d.size then
    (d.expandCapacityIfNecessary (count - d.size)).bind fun d => d.growTo count count value
  else if count < d.size then
    let newEnd := (d.begin_ + count) % d.buffer.length
    (d.destructRange newEnd d.end_).bind fun buffer =>
      shrinkCapacityIfNecessary ⟨buffer, d.begin_, newEnd⟩
  else some d

/-! ## Insertion and erasure (`circular_deque.h:682-825,1011-1040`) -/

/-- The loop of `MakeRoomFor`, which moves objects from right to left until `src` has come
to `insertBegin`. -/
def shiftRight : Nat → CircularDeque α → Nat → Nat → Nat → Option (CircularDeque α)
  | 0, d, insertBegin, src, _ => if src = insertBegin then some d else none
  | n + 1, d, insertBegin, src, dest =>
    if src = insertBegin then some d
    else
      (VectorBuffer.moveOne d.buffer (d.decrement src) (d.decrement dest)).bind fun buffer =>
        shiftRight n { d with buffer := buffer } insertBegin (d.decrement src) (d.decrement dest)

/-- `MakeRoomFor`, returning the deque with `*insert_begin` and `*insert_end`. -/
def makeRoomFor (d : CircularDeque α) (count insertBegin : Nat) :
    Option (CircularDeque α × Nat × Nat) :=
  if count = 0 then some (d, insertBegin, insertBegin)
  else
    let beginOffset := d.offsetFromBegin insertBegin
    (d.expandCapacityIfNecessary count).bind fun d =>
      let insertBegin := (d.begin_ + beginOffset) % d.buffer.length
      let insertEnd := (insertBegin + count) % d.buffer.length
      let newEnd := (d.end_ + count) % d.buffer.length
      (shiftRight d.buffer.length { d with end_ := newEnd } insertBegin d.end_ newEnd).map
        fun d => (d, insertBegin, insertEnd)

/-- `while (insert_cur < insert_end)` constructs one item after the other; it is `none` when
the items run out before the hole is filled. -/
def fill : CircularDeque α → Nat → Nat → List α → Option (CircularDeque α)
  | d, insertCur, insertEnd, [] =>
    if d.offsetFromBegin insertCur < d.offsetFromBegin insertEnd then none else some d
  | d, insertCur, insertEnd, t :: ts =>
    if d.offsetFromBegin insertCur < d.offsetFromBegin insertEnd then
      (VectorBuffer.construct d.buffer insertCur t).bind fun buffer =>
        fill { d with buffer := buffer } (d.increment insertCur) insertEnd ts
    else some d

/-- `insert(pos, count, value)`. -/
def insertCount (d : CircularDeque α) (pos count : Nat) (value : α) : Option (CircularDeque α) :=
  if pos = d.begin_ then
    (d.expandCapacityIfNecessary count).bind fun d => pushFrontTimes count d value
  else
    (d.makeRoomFor count pos).bind fun (d, insertCur, insertEnd) =>
      d.fill insertCur insertEnd (List.replicate d.buffer.length value)

/-- `insert(pos, first, last)`. -/
def insertRange (d : CircularDeque α) (pos : Nat) (range : InputRange α) :
    Option (CircularDeque α) :=
  let insertedItems := range.values.length
  if insertedItems = 0 then some d
  else if pos = d.begin_ then
    -- The hole is the block of cells in front of `begin_`.
    (d.expandCapacityIfNecessary insertedItems).bind fun d =>
      let newBegin := (d.begin_ + d.buffer.length - insertedItems) % d.buffer.length
      fill { d with begin_ := newBegin } newBegin d.begin_ range.again
  else
    (d.makeRoomFor insertedItems pos).bind fun (d, insertCur, insertEnd) =>
      d.fill insertCur insertEnd range.again

/-- `emplace(pos, args...)`, returning the deque with the iterator to the new object. -/
def emplace (d : CircularDeque α) (pos : Nat) (t : α) : Option (CircularDeque α × Nat) :=
  if pos = d.begin_ then (d.emplaceFront t).map fun d => (d, d.begin_)
  else
    (d.makeRoomFor 1 pos).bind fun (d, insertBegin, _) =>
      (VectorBuffer.construct d.buffer insertBegin t).map fun buffer =>
        ({ d with buffer := buffer }, insertBegin)

/-- `insert(pos, value)`. -/
def insert (d : CircularDeque α) (pos : Nat) (value : α) : Option (CircularDeque α × Nat) :=
  d.emplace pos value

/-- The loop of `erase`, which moves objects from left to right and ends with `move_dest`. -/
def shiftLeft : Nat → CircularDeque α → Nat → Nat → Nat → Option (CircularDeque α × Nat)
  | 0, d, moveSrc, moveSrcEnd, moveDest =>
    if d.offsetFromBegin moveSrc < d.offsetFromBegin moveSrcEnd then none else some (d, moveDest)
  | n + 1, d, moveSrc, moveSrcEnd, moveDest =>
    if d.offsetFromBegin moveSrc < d.offsetFromBegin moveSrcEnd then
      (VectorBuffer.moveOne d.buffer moveSrc moveDest).bind fun buffer =>
        shiftLeft n { d with buffer := buffer } (d.increment moveSrc) moveSrcEnd
          (d.increment moveDest)
    else some (d, moveDest)

/-- `erase(first, last)`, returning the deque with the iterator after the erased objects. -/
def eraseRange (d : CircularDeque α) (first last : Nat) : Option (CircularDeque α × Nat) :=
  if first = last then some (d, first)
  else
    (d.destructRange first last).bind fun buffer =>
      if first = d.begin_ then some (⟨buffer, last, d.end_⟩, last)
      else
        (shiftLeft d.buffer.length { d with buffer := buffer } last d.end_ first).map
          fun (d, moveDest) => ({ d with end_ := moveDest }, first)

/-- `erase(pos)`. -/
def erase (d : CircularDeque α) (pos : Nat) : Option (CircularDeque α × Nat) :=
  d.eraseRange pos (d.add pos 1)

/-! ## Construction, assignment and exchange (`circular_deque.h:418-510,892-897`) -/

/-- `assign(count, value)`. -/
def assignCount (d : CircularDeque α) (count : Nat) (value : α) : Option (CircularDeque α) :=
  d.clearRetainCapacity.bind fun d =>
    (d.reserve count).bind fun d => d.emplaceBackAll (List.replicate count value)

/-- `assign(first, last)`, which makes one pass over the range and reads `items`. -/
def assignRange (d : CircularDeque α) (items : List α) : Option (CircularDeque α) :=
  d.clearRetainCapacity.bind fun d => d.emplaceBackAll items

/-- `assign(initializer_list)` and `operator=(initializer_list)`. -/
def assignList (d : CircularDeque α) (items : List α) : Option (CircularDeque α) :=
  (d.reserve items.length).bind fun d => d.assignRange items

/-- The copy constructor. -/
def copy (other : CircularDeque α) : Option (CircularDeque α) :=
  other.forward.bind fun items =>
    assignRange { buffer := VectorBuffer.new (other.size + 1) } items

/-- The move constructor, returning the new deque and what is left of `other`. -/
def move (other : CircularDeque α) : CircularDeque α × CircularDeque α := (other, {})

/-- `operator=(const circular_deque&)` for another object. -/
def copyAssign (d other : CircularDeque α) : Option (CircularDeque α) :=
  (d.reserve other.size).bind fun d => other.forward.bind fun items => d.assignRange items

/-- `operator=(circular_deque&&)` for another object, returning both. -/
def moveAssign (d other : CircularDeque α) : Option (CircularDeque α × CircularDeque α) :=
  d.clearRetainCapacity.map fun _ => (other, {})

/-- `swap`. -/
def swap (d other : CircularDeque α) : CircularDeque α × CircularDeque α := (other, d)

end CircularDeque

end Sparo.Base
