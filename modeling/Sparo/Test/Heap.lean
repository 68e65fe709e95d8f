import Sparo.Misc.Int32Order
import Sparo.Misc.WhileLoop

/-!
# The array heap

`src/test/heap_test.cc`: `Initialize`, `IsFull` and `Insert`. The allocations succeed. A cell of the
array that was never written, or that is not in the array, has no value, and to read it is
undefined. `DeleteMin` is not written yet.
-/

namespace Sparo.Test

open WhileLoop

/-- What the heap allocates: `none` is a cell that was never written. -/
abbrev Elements := List (Option Int32)

namespace Elements

/-- `elements[i]`. -/
def load (elements : Elements) (i : Nat) : Option Int32 := elements[i]?.join

/-- `elements[i] = element`. -/
def store (elements : Elements) (i : Nat) (element : Int32) : Option Elements :=
  if i < elements.length then some (elements.set i (some element)) else none

end Elements

/-- `HeapStruct`. The size only grows below the capacity, so it does not overflow. -/
structure HeapStruct where
  capacity : Int32
  size : Nat
  elements : Elements
  deriving DecidableEq, Repr

/-- `Initialize`. The sum `max_elements + 1` is one of `int`s, and so may overflow. -/
def initializeHeap (maxElements : Int32) : Outcome HeapStruct :=
  if maxElements = Int32.maxValue then .undefined
  else
    match Elements.store (List.replicate (maxElements.toInt + 1).toNat none) 0 (-1) with
    | some elements => .returned { capacity := maxElements, size := 0, elements }
    | none => .undefined

/-- The variables of the loop of `Insert`. -/
structure Hole where
  elements : Elements
  i : Nat
  deriving DecidableEq, Repr

/-- One turn of the loop of `Insert`. Nothing keeps the index above the sentinel. -/
def percolateUp (element : Int32) (hole : Hole) : Turn Hole :=
  match hole.elements.load (hole.i / 2) with
  | none => .undefined
  | some above =>
    if above > element then
      match hole.elements.store hole.i above with
      | none => .undefined
      | some elements => .next { elements, i := hole.i / 2 }
    else .done hole

namespace HeapStruct

/-- `IsFull`. -/
def isFull (h : HeapStruct) : Bool := h.capacity.toInt ≤ h.size

/-- `Insert`. -/
def insert (fuel : Nat) (h : HeapStruct) (element : Int32) : Outcome HeapStruct :=
  if h.isFull then .returned h
  else
    let size := h.size + 1
    (run (percolateUp element) fuel { elements := h.elements, i := size }).bind fun hole =>
      match hole.elements.store hole.i element with
      | some elements => .returned { h with size, elements }
      | none => .undefined

/-- One `Insert` after the other. -/
def insertAll (fuel : Nat) : HeapStruct → List Int32 → Outcome HeapStruct
  | h, [] => .returned h
  | h, element :: elements => (h.insert fuel element).bind fun t => insertAll fuel t elements

end HeapStruct

/-- `Initialize`, and then the `Insert`s. -/
def fillHeap (fuel : Nat) (capacity : Int32) (values : List Int32) : Outcome HeapStruct :=
  (initializeHeap capacity).bind fun h => h.insertAll fuel values

/-- What `TestMinHeap` prints. -/
example : (match fillHeap 5 11 [11, 10, 18, 13] with
    | .returned h => (h.elements.drop 1).take h.size
    | _ => []) = [some 10, some 11, some 18, some 13] := by decide

end Sparo.Test
