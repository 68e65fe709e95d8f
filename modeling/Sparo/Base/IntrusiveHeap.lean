import Mathlib.Logic.Function.Basic
import Sparo.Misc.BinaryHeap

/-!
# `IntrusiveHeap`

The heap of `src/base/intrusive_heap.h`, whose elements store the `HeapHandle` that the heap gives
them. As in `InternalHeapHandleStorage`, an element owns a cell for its handle and takes it along
when it is moved: `id` names the cell, and `handles` is what the cells hold, with `none` for
`HeapHandle::Invalid()`.

An operation that reads or writes outside the vector is undefined, and its result is `none`. Moving
an element out of the vector leaves behind whatever `movedFrom` says, for an element type that is
copied instead of moved the element itself.
-/

namespace Sparo.Base.IntrusiveHeap

open BinaryHeap

/-- `T`, with the cell of its handle. -/
structure Element (α : Type*) where
  id : Nat
  value : α
  deriving DecidableEq, Repr

/-- A heap and the cells of the handles. -/
structure State (α : Type*) where
  /-- `impl_.heap_`. -/
  heap : List (Element α) := []
  handles : Nat → Option Nat := fun _ => none

variable {α : Type*}

/-- `value_comp()`, as a relation. -/
def Less (lt : α → α → Bool) (a b : Element α) : Prop := lt a.value b.value = true

instance (lt : α → α → Bool) : DecidableRel (Less lt) :=
  fun a b => inferInstanceAs (Decidable (lt a.value b.value = true))

/-- `intrusive_heap::ParentIndex`. -/
def parentIndex (i : Nat) : Nat := (i - 1) / 2

/-- `intrusive_heap::LeftIndex`. -/
def leftIndex (i : Nat) : Nat := 2 * i + 1

namespace State

/-! ## Handles and holes -/

/-- `SetHeapHandle(i)`. -/
def setHeapHandle (s : State α) (i : Nat) : Option (State α) :=
  s.heap[i]?.map fun e => { s with handles := Function.update s.handles e.id (some i) }

/-- `ClearHeapHandle(i)`. -/
def clearHeapHandle (s : State α) (i : Nat) : Option (State α) :=
  s.heap[i]?.map fun e => { s with handles := Function.update s.handles e.id none }

/-- `MakeHole(pos)`. -/
def makeHole (s : State α) (pos : Nat) : Option (State α) := s.clearHeapHandle pos

/-- `FillHole(hole_pos, element)` (`intrusive_heap.h:948-961`). The hole may be one past the end. -/
def fillHole (s : State α) (hole : Nat) (element : Element α) : Option (State α) :=
  if hole = s.heap.length then
    setHeapHandle { s with heap := s.heap ++ [element] } hole
  else
    setHeapHandle { s with heap := s.heap.set hole element } hole

/-- `std::move_if_noexcept(impl_.heap_[i])`: the element, and the heap without it. -/
def moveOut (movedFrom : Element α → Element α) (s : State α) (i : Nat) :
    Option (Element α × State α) :=
  s.heap[i]?.map fun e => (e, { s with heap := s.heap.set i (movedFrom e) })

/-- `MoveHole(new_hole_pos, old_hole_pos)` (`intrusive_heap.h:963-980`). -/
def moveHole (movedFrom : Element α → Element α) (s : State α) (newHole oldHole : Nat) :
    Option (State α) :=
  (s.moveOut movedFrom newHole).bind fun (e, s) => s.fillHole oldHole e

section

variable (lt : α → α → Bool) (movedFrom : Element α → Element α)

/-- `Less(i, j)`. -/
def less (s : State α) (i j : Nat) : Option Bool :=
  s.heap[i]?.bind fun a => s.heap[j]?.map fun b => lt a.value b.value

/-- The loop of `MoveHoleUpAndFill`, with the hole's last position. -/
def moveHoleUp (s : State α) (hole : Nat) (element : Element α) : Option (State α × Nat) :=
  if hole = 0 then some (s, hole)
  else
    s.heap[parentIndex hole]?.bind fun parent =>
      -- `Less(parent, element)`
      if lt parent.value element.value then
        (s.moveHole movedFrom (parentIndex hole) hole).bind fun s =>
          moveHoleUp s (parentIndex hole) element
      else some (s, hole)
  termination_by hole
  decreasing_by
    unfold parentIndex
    omega

/-- `MoveHoleUpAndFill(hole_pos, element)` (`intrusive_heap.h:982-1005`). -/
def moveHoleUpAndFill (s : State α) (hole : Nat) (element : Element α) :
    Option (State α × Nat) :=
  (s.moveHoleUp lt movedFrom hole element).bind fun (s, hole) =>
    (s.fillHole hole element).map fun s => (s, hole)

/-- Whether the greater child, of those below `n`, is the right one. -/
def rightIsLargest (s : State α) (n left : Nat) : Option Bool :=
  if left + 1 < n then s.less lt left (left + 1) else some false

/-- The loop of `MoveHoleDownAndFill`, over the positions below `n`. A leaf element is not compared
on the way. -/
def moveHoleDown (isLeafElement : Bool) (n : Nat) (s : State α) (hole : Nat)
    (element : Element α) : Option (State α × Nat) :=
  if leftIndex hole < n then
    (s.rightIsLargest lt n (leftIndex hole)).bind fun isRight =>
      let largest := if isRight then leftIndex hole + 1 else leftIndex hole
      s.heap[largest]?.bind fun child =>
        -- `Less(element, largest)`
        if isLeafElement || lt element.value child.value then
          (s.moveHole movedFrom largest hole).bind fun s =>
            moveHoleDown isLeafElement n s largest element
        else some (s, hole)
  else some (s, hole)
  termination_by n - hole
  decreasing_by
    unfold leftIndex at *
    cases isRight <;> simp <;> omega

/-- `MoveHoleDownAndFill<FillElementType>(hole_pos, element)` (`intrusive_heap.h:1007-1051`). With
a leaf element the last entry of the vector is about to be erased and is left out. -/
def moveHoleDownAndFill (isLeafElement : Bool) (s : State α) (hole : Nat)
    (element : Element α) : Option (State α × Nat) :=
  let n := s.heap.length - if isLeafElement then 1 else 0
  (s.moveHoleDown lt movedFrom isLeafElement n hole element).bind fun (s, hole) =>
    if isLeafElement then s.moveHoleUpAndFill lt movedFrom hole element
    else (s.fillHole hole element).map fun s => (s, hole)

/-! ## Operations -/

/-- `InsertImpl(element)`, which `insert` and `emplace` call; it returns the element's position. -/
def insertImpl (s : State α) (element : Element α) : Option (State α × Nat) :=
  s.moveHoleUpAndFill lt movedFrom s.heap.length element

/-- `insert(first, last)`. -/
def insertRange (s : State α) : List (Element α) → Option (State α)
  | [] => some s
  | element :: elements =>
    (s.insertImpl lt movedFrom element).bind fun (s, _) => insertRange s elements

/-- What `take` and `erase` do alike once `pos` is a hole: unless it is the last position, the last
element is moved into the heap from there (`intrusive_heap.h:810-821` and `833-844`). -/
def removeHole (s : State α) (pos : Nat) : Option (State α) :=
  let last := s.heap.length - 1
  let repaired :=
    if pos = last then some s
    else
      (s.makeHole last).bind fun s => (s.moveOut movedFrom last).bind fun (e, s) =>
        (s.moveHoleDownAndFill lt movedFrom true pos e).map Prod.fst
  repaired.map fun s => { s with heap := s.heap.dropLast }

/-- `take(pos)` (`intrusive_heap.h:803-824`). -/
def take (s : State α) (pos : Nat) : Option (Element α × State α) :=
  (s.makeHole pos).bind fun s => (s.moveOut movedFrom pos).bind fun (val, s) =>
    (s.removeHole lt movedFrom pos).map fun s => (val, s)

/-- `erase(pos)` (`intrusive_heap.h:827-845`). -/
def erase (s : State α) (pos : Nat) : Option (State α) :=
  (s.makeHole pos).bind fun s => s.removeHole lt movedFrom pos

/-- `Update(pos)` (`intrusive_heap.h:847-869`). -/
def update (s : State α) (pos : Nat) : Option (State α × Nat) :=
  (s.makeHole pos).bind fun s =>
    let isLess := if 0 < pos then s.less lt pos (parentIndex pos) else some true
    isLess.bind fun isLess => (s.moveOut movedFrom pos).bind fun (e, s) =>
      -- `child_greater_eq_parent`
      if !isLess then s.moveHoleUpAndFill lt movedFrom pos e
      else s.moveHoleDownAndFill lt movedFrom false pos e

/-- `Modify(pos, unary_op)`. -/
def modify (s : State α) (pos : Nat) (unaryOp : α → α) : Option (State α × Nat) :=
  s.heap[pos]?.bind fun e =>
    update lt movedFrom { s with heap := s.heap.set pos { e with value := unaryOp e.value } } pos

/-- `ReplaceImpl(pos, element)` (`intrusive_heap.h:1064-1079`). -/
def replaceImpl (s : State α) (pos : Nat) (element : Element α) : Option (State α × Nat) :=
  (s.makeHole pos).bind fun s => s.heap[pos]?.bind fun old =>
    -- `Less(element, pos)`
    if !lt element.value old.value then s.moveHoleUpAndFill lt movedFrom pos element
    else s.moveHoleDownAndFill lt movedFrom false pos element

/-- `ReplaceTopImpl(element)` (`intrusive_heap.h:1081-1089`). -/
def replaceTopImpl (s : State α) (element : Element α) : Option (State α × Nat) :=
  (s.makeHole 0).bind fun s => s.moveHoleDownAndFill lt movedFrom false 0 element

/-- Take the top element and pop it, until the heap is empty or `n` elements are out. -/
def popAll : Nat → State α → Option (List (Element α) × State α)
  | 0, s => some ([], s)
  | n + 1, s =>
    match s.heap with
    | [] => some ([], s)
    | top :: _ =>
      (s.erase lt movedFrom 0).bind fun s => (popAll n s).map fun (rest, s) => (top :: rest, s)

end

/-- `ClearHeapHandle` for each of the elements. -/
def clearHeapHandles (handles : Nat → Option Nat) (elements : List (Element α)) :
    Nat → Option Nat :=
  elements.foldl (fun handles e => Function.update handles e.id none) handles

/-- `SetHeapHandle` for each of the elements, the first of which is at `i`. -/
def setHeapHandles (handles : Nat → Option Nat) : Nat → List (Element α) → Nat → Option Nat
  | _, [] => handles
  | i, e :: elements => setHeapHandles (Function.update handles e.id (some i)) (i + 1) elements

/-- `EraseIf(predicate)` (`intrusive_heap.h:403-439`): a stable partition, and where something was
erased `make_heap`, which may leave any arrangement of the elements that is a heap. The one it
leaves has the elements of the positions `order`. -/
def eraseIf (lt : α → α → Bool) (s : State α) (predicate : Element α → Bool) (order : List Nat) :
    Option (State α) :=
  let kept := s.heap.filter fun e => !predicate e
  let erased := s.heap.filter predicate
  let handles := clearHeapHandles s.handles erased
  if erased.isEmpty then some { heap := kept, handles }
  else
    let made := order.filterMap fun i => kept[i]?
    if order.Perm (List.range kept.length) ∧ IsHeap (Less lt) made then
      some { heap := made, handles := setHeapHandles handles 0 made }
    else none

/-- `clear()`. -/
def clear (s : State α) : State α := { heap := [], handles := clearHeapHandles s.handles s.heap }

end State

/-- What the operations take for a position: an index or an iterator, or the handle of an element,
read out of its cell. -/
inductive Position where
  | index (pos : Nat)
  | handle (id : Nat)
  deriving DecidableEq, Repr

/-- `ToIndex(pos)`; the index of an invalid handle is out of range. -/
def State.toIndex (s : State α) : Position → Option Nat
  | .index pos => some pos
  | .handle id => s.handles id

/-- `at(pos)` and `operator[](pos)`. -/
def State.elementAt (s : State α) (pos : Position) : Option (Element α) :=
  (s.toIndex pos).bind fun i => s.heap[i]?

/-- The operations on a heap. -/
inductive Op (α : Type*) where
  | insert (element : Element α)
  | insertRange (elements : List (Element α))
  | emplace (element : Element α)
  | take (pos : Position)
  | takeTop
  | erase (pos : Position)
  | pop
  | replace (pos : Position) (element : Element α)
  | replaceTop (element : Element α)
  | update (pos : Position)
  | modify (pos : Position) (unaryOp : α → α)
  | eraseIf (predicate : Element α → Bool) (order : List Nat)
  | clear

/-- The heap after an operation. -/
def State.apply (lt : α → α → Bool) (movedFrom : Element α → Element α) (s : State α) :
    Op α → Option (State α)
  | .insert element => (s.insertImpl lt movedFrom element).map Prod.fst
  | .insertRange elements => s.insertRange lt movedFrom elements
  | .emplace element => (s.insertImpl lt movedFrom element).map Prod.fst
  | .take pos => (s.toIndex pos).bind fun pos => (s.take lt movedFrom pos).map Prod.snd
  | .takeTop => (s.take lt movedFrom 0).map Prod.snd
  | .erase pos => (s.toIndex pos).bind fun pos => s.erase lt movedFrom pos
  | .pop => s.erase lt movedFrom 0
  | .replace pos element =>
    (s.toIndex pos).bind fun pos => (s.replaceImpl lt movedFrom pos element).map Prod.fst
  | .replaceTop element => (s.replaceTopImpl lt movedFrom element).map Prod.fst
  | .update pos => (s.toIndex pos).bind fun pos => (s.update lt movedFrom pos).map Prod.fst
  | .modify pos unaryOp =>
    (s.toIndex pos).bind fun pos => (s.modify lt movedFrom pos unaryOp).map Prod.fst
  | .eraseIf predicate order => s.eraseIf lt predicate order
  | .clear => some s.clear

/-! ## Several heaps -/

/-- The heaps of a program, with the cells of all elements. -/
structure Heaps (α : Type*) where
  objects : List (List (Element α)) := []
  handles : Nat → Option Nat := fun _ => none

namespace Heaps

/-- What is done with the heaps. Copied elements get cells of their own, `ids`. -/
inductive Act (α : Type*) where
  /-- `IntrusiveHeap()`. -/
  | construct
  | op (i : Nat) (op : Op α)
  /-- `IntrusiveHeap(const IntrusiveHeap& other)`. -/
  | copyConstruct (other : Nat) (ids : List Nat)
  /-- `operator=(const IntrusiveHeap& other)`. -/
  | copyAssign (i other : Nat) (ids : List Nat)
  /-- `IntrusiveHeap(IntrusiveHeap&& other)`. -/
  | moveConstruct (other : Nat)
  /-- `operator=(IntrusiveHeap&& other)`. -/
  | moveAssign (i other : Nat)
  | swap (i other : Nat)

/-- The copies of elements. -/
def copies (elements : List (Element α)) (ids : List Nat) : List (Element α) :=
  List.zipWith (fun e id => { e with id }) elements ids

/-- An operation on heap `i`. -/
def applyAt (lt : α → α → Bool) (movedFrom : Element α → Element α) (s : Heaps α) (i : Nat)
    (op : Op α) : Option (Heaps α) :=
  s.objects[i]?.bind fun heap => (State.apply lt movedFrom ⟨heap, s.handles⟩ op).map fun t =>
    { objects := s.objects.set i t.heap, handles := t.handles }

/-- One step. An assignment clears the heap first, also where it is assigned to itself. -/
def step (lt : α → α → Bool) (movedFrom : Element α → Element α) (s : Heaps α) :
    Act α → Option (Heaps α)
  | .construct => some { s with objects := s.objects ++ [[]] }
  | .op i op => s.applyAt lt movedFrom i op
  | .copyConstruct other ids => s.objects[other]?.map fun heap =>
      { objects := s.objects ++ [copies heap ids]
        handles := State.setHeapHandles s.handles 0 (copies heap ids) }
  | .copyAssign i other ids => (s.applyAt lt movedFrom i .clear).bind fun s =>
      s.objects[other]?.map fun heap =>
        { objects := s.objects.set i (copies heap ids)
          handles := State.setHeapHandles s.handles 0 (copies heap ids) }
  | .moveConstruct other => s.objects[other]?.map fun heap =>
      { s with objects := s.objects.set other [] ++ [heap] }
  | .moveAssign i other => (s.applyAt lt movedFrom i .clear).bind fun s =>
      s.objects[other]?.map fun heap =>
        { s with objects := (s.objects.set i heap).set other [] }
  | .swap i other => s.objects[i]?.bind fun heap => s.objects[other]?.map fun heap' =>
      { s with objects := (s.objects.set i heap').set other heap }

end Heaps

end Sparo.Base.IntrusiveHeap
