import Sparo.Misc.SortedList

/-!
# `flat_tree` and `flat_map`

The sorted vectors of `src/base/containers/flat_tree.h` and `flat_map.h`. A tree is its
`body_`, an iterator is a position in it, and `lt` and `key` are `KeyCompare` and
`GetKeyFromValue`. A mutator returns the vector afterwards, with the iterator and the flag its
caller is given. The algorithms of the standard library are those of `SortedList`; an algorithm
that shortens a range in place returns what is left of it.
-/

namespace Sparo.Base

open SortedList

/-- `FlatContainerDupes`. -/
inductive FlatContainerDupes where
  | keepFirstOfDupes
  | keepLastOfDupes
  deriving DecidableEq, Repr

/-- `LastUnique` (`flat_tree.h:36-61`). Elements move to the front of what has been read, so
the loop reads what the range held at first. -/
def lastUnique {β : Type} (compare : β → β → Bool) (xs : List β) : List β :=
  let replacable := adjacentFind compare xs
  if replacable = xs.length then xs
  else if replacable + 1 = xs.length then xs.take replacable
  else xs.take replacable ++ lastOfGroups compare (xs.drop (replacable + 1))

/-- The loop of `LastUnique` on the range in place, with `left` turns to go: an element that is
moved leaves its cell without a value, and `next` is `first + 1`. A cell without a value must not be
read. -/
def lastUniqueLoop {β : Type} (compare : β → β → Bool) :
    (left : Nat) → List (Option β) → Nat → Nat → Option (List (Option β) × Nat × Nat)
  | 0, cells, replacable, first => some (cells, replacable, first)
  | left + 1, cells, replacable, first =>
    match cells[first]?.join, cells[first + 1]?.join with
    | some x, some y =>
      if compare x y then lastUniqueLoop compare left cells replacable (first + 1)
      else
        lastUniqueLoop compare left ((cells.set first none).set replacable (some x))
          (replacable + 1) (first + 1)
    | _, _ => none

/-- `LastUnique` in place: the cells of the range afterwards and the iterator returned. -/
def lastUniqueInPlace {β : Type} (compare : β → β → Bool) (xs : List β) :
    Option (List (Option β) × Nat) :=
  let replacable := adjacentFind compare xs
  let first := replacable + 1
  if replacable = xs.length then some (xs.map some, xs.length)
  else if first = xs.length then some (xs.map some, replacable)
  else
    (lastUniqueLoop compare (xs.length - (first + 1)) (xs.map some) replacable first).bind
      fun (cells, replacable, first) => cells[first]?.join.map fun x =>
        ((cells.set first none).set replacable (some x), replacable + 1)

namespace FlatTree

variable {κ β : Type} (lt : κ → κ → Bool) (key : β → κ)

/-- `value_compare` (`flat_tree.h:97-110`). -/
def valueComp (left right : β) : Bool := lt (key left) (key right)

/-! ## Search (`flat_tree.h:839-926`) -/

def lowerBound (body : List β) (k : κ) : Nat := partitionPoint (fun v => lt (key v) k) body

def upperBound (body : List β) (k : κ) : Nat := partitionPoint (fun v => !lt k (key v)) body

def equalRange (body : List β) (k : κ) : Nat × Nat :=
  let lower := lowerBound lt key body k
  match body[lower]? with
  | none => (lower, lower)
  | some v => if lt k (key v) then (lower, lower) else (lower, lower + 1)

def count (body : List β) (k : κ) : Nat :=
  let eqRange := equalRange lt key body k
  eqRange.2 - eqRange.1

def find (body : List β) (k : κ) : Nat :=
  let eqRange := equalRange lt key body k
  if eqRange.1 = eqRange.2 then body.length else eqRange.1

/-! ## Insertion of one element -/

/-- `unsafe_emplace`, which is `std::vector::emplace`. -/
def unsafeEmplace (body : List β) (position : Nat) (v : β) : List β :=
  body.take position ++ v :: body.drop position

/-- `emplace_key_args` (`flat_tree.h:945-954`), `v` being the value made of the arguments. -/
def emplaceKeyArgs (body : List β) (k : κ) (v : β) : List β × Nat × Bool :=
  let lower := lowerBound lt key body k
  match body[lower]? with
  | none => (unsafeEmplace body lower v, lower, true)
  | some w =>
    if lt k (key w) then (unsafeEmplace body lower v, lower, true) else (body, lower, false)

/-- `emplace_hint_key_args` (`flat_tree.h:956-975`). -/
def emplaceHintKeyArgs (body : List β) (hint : Nat) (k : κ) (v : β) : List β × Nat × Bool :=
  if hint = 0 ∨ (body[hint - 1]?).any (fun w => lt (key w) k) = true then
    match body[hint]? with
    | none => (unsafeEmplace body hint v, hint, true)
    | some w =>
      if lt k (key w) then (unsafeEmplace body hint v, hint, true)
      else if !lt (key w) k then (body, hint, false)
      else emplaceKeyArgs lt key body k v
  else emplaceKeyArgs lt key body k v

/-- `insert(val)`. -/
def insert (body : List β) (v : β) : List β × Nat × Bool := emplaceKeyArgs lt key body (key v) v

/-- `insert(position_hint, val)`. -/
def insertHint (body : List β) (hint : Nat) (v : β) : List β × Nat :=
  let result := emplaceHintKeyArgs lt key body hint (key v) v
  (result.1, result.2.1)

/-- The private `insert_or_assign(val)` (`flat_tree.h:386-400`). -/
def insertOrAssign (body : List β) (v : β) : List β × Nat × Bool :=
  let position := lowerBound lt key body (key v)
  match body[position]? with
  | none => (unsafeEmplace body position v, position, true)
  | some w =>
    if valueComp lt key v w then (unsafeEmplace body position v, position, true)
    else (body.set position v, position, false)

/-! ## Insertion of a range -/

/-- `append_or_assign(begin(), middle, val)` (`flat_tree.h:402-423`). -/
def appendOrAssign (middle : Nat) (body : List β) (v : β) : List β × Nat × Bool :=
  let position := partitionPoint (fun w => valueComp lt key w v) (body.take middle)
  match (body.take middle)[position]? with
  | none => (body ++ [v], position, true)
  | some w =>
    if valueComp lt key v w then (body ++ [v], position, true)
    else (body.set position v, position, false)

/-- `append_unique(begin(), middle, val)` (`flat_tree.h:425-445`). -/
def appendUnique (middle : Nat) (body : List β) (v : β) : List β × Nat × Bool :=
  let position := partitionPoint (fun w => valueComp lt key w v) (body.take middle)
  match (body.take middle)[position]? with
  | none => (body ++ [v], position, true)
  | some w =>
    if valueComp lt key v w then (body ++ [v], position, true) else (body, position, false)

/-- The loops over the input range (`flat_tree.h:749-767`), which append by `append` and keep
track of the first insertion point. -/
def appendAll (append : List β → β → List β × Nat × Bool) :
    List β → Nat → List β → List β × Nat
  | body, posFirstNew, [] => (body, posFirstNew)
  | body, posFirstNew, v :: items =>
    let result := append body v
    appendAll append result.1 (if result.2.2 then min posFirstNew result.2.1 else posFirstNew)
      items

/-- `sort_and_unique(first, end(), dupes)` (`flat_tree.h:447-469`). -/
def sortAndUnique (body : List β) (first : Nat) (dupes : FlatContainerDupes) : List β :=
  let sorted := (body.drop first).mergeSort fun a b => !valueComp lt key b a
  let comparator := fun lhs rhs => !valueComp lt key lhs rhs
  body.take first ++
    match dupes with
    | .keepFirstOfDupes => unique comparator sorted
    | .keepLastOfDupes => lastUnique comparator sorted

/-- `std::copy(first, last, std::inserter(*this, position))`. -/
def copyToInserter : List β → Nat → List β → List β
  | body, _, [] => body
  | body, position, v :: items =>
    let result := insertHint lt key body position v
    copyToInserter result.1 (result.2 + 1) items

/-- `insert(first, last, dupes)` (`flat_tree.h:713-775`) for a range of `items`; `multipass`
tells whether its iterators are forward iterators. -/
def insertRange (body items : List β) (multipass : Bool) (dupes : FlatContainerDupes) : List β :=
  if items.isEmpty then body
  else if multipass && items.length == 1 then
    match dupes with
    | .keepLastOfDupes => items.foldl (fun body v => (insertOrAssign lt key body v).1) body
    | .keepFirstOfDupes => copyToInserter lt key body body.length items
  else
    let middle := body.length
    let appended := match dupes with
      | .keepLastOfDupes => appendAll (appendOrAssign lt key middle) body middle items
      | .keepFirstOfDupes => appendAll (appendUnique lt key middle) body middle items
    let posFirstNew := appended.2
    let sorted := sortAndUnique lt key appended.1 middle dupes
    -- `std::inplace_merge` from the first insertion point on.
    sorted.take posFirstNew ++
      List.merge ((sorted.take middle).drop posFirstNew) (sorted.drop middle)
        fun a b => !valueComp lt key b a

/-! ## Construction, assignment and erasure -/

/-- The constructors from a range, a vector or an initializer list
(`flat_tree.h:507-536`). -/
def construct (items : List β) (dupes : FlatContainerDupes) : List β :=
  sortAndUnique lt key items 0 dupes

/-- `operator=(initializer_list)` (`flat_tree.h:552-558`). -/
def assign (ilist : List β) : List β := sortAndUnique lt key ilist 0 .keepFirstOfDupes

/-- `erase(position)`. -/
def erase (body : List β) (position : Nat) : List β := body.eraseIdx position

/-- `erase(first, last)`. -/
def eraseRange (body : List β) (first last : Nat) : List β := body.take first ++ body.drop last

/-- `erase(val)` (`flat_tree.h:807-815`), returning the number of elements erased. -/
def eraseKey (body : List β) (k : κ) : List β × Nat :=
  let eqRange := equalRange lt key body k
  (eraseRange body eqRange.1 eqRange.2, eqRange.2 - eqRange.1)

/-- `EraseIf` (`flat_tree.h:989-1000`). -/
def eraseIf (body : List β) (pred : β → Bool) : List β := body.filter fun v => !pred v

end FlatTree

/-! ## `flat_map` (`flat_map.h:284-350`) -/

namespace FlatMap

variable {κ μ : Type} (lt : κ → κ → Bool)

/-- An assignment to the `second` of the element at a position. -/
def setMapped (body : List (κ × μ)) (position : Nat) (obj : μ) : List (κ × μ) :=
  body.modify position fun p => (p.1, obj)

/-- `operator[]`, `mapped` being `mapped_type()`; it returns the position of the element whose
`second` the caller gets. -/
def subscript (body : List (κ × μ)) (k : κ) (mapped : μ) : List (κ × μ) × Nat :=
  let found := FlatTree.lowerBound lt Prod.fst body k
  match body[found]? with
  | none => (FlatTree.unsafeEmplace body found (k, mapped), found)
  | some p =>
    if lt k p.1 then (FlatTree.unsafeEmplace body found (k, mapped), found) else (body, found)

/-- `insert_or_assign(key, obj)`. -/
def insertOrAssign (body : List (κ × μ)) (k : κ) (obj : μ) : List (κ × μ) × Nat × Bool :=
  let result := FlatTree.emplaceKeyArgs lt Prod.fst body k (k, obj)
  if !result.2.2 then (setMapped result.1 result.2.1 obj, result.2) else result

/-- `insert_or_assign(hint, key, obj)`. -/
def insertOrAssignHint (body : List (κ × μ)) (hint : Nat) (k : κ) (obj : μ) :
    List (κ × μ) × Nat :=
  let result := FlatTree.emplaceHintKeyArgs lt Prod.fst body hint k (k, obj)
  if !result.2.2 then (setMapped result.1 result.2.1 obj, result.2.1)
  else (result.1, result.2.1)

/-- `try_emplace(key, args...)`. -/
def tryEmplace (body : List (κ × μ)) (k : κ) (obj : μ) : List (κ × μ) × Nat × Bool :=
  FlatTree.emplaceKeyArgs lt Prod.fst body k (k, obj)

/-- `try_emplace(hint, key, args...)`. -/
def tryEmplaceHint (body : List (κ × μ)) (hint : Nat) (k : κ) (obj : μ) : List (κ × μ) × Nat :=
  let result := FlatTree.emplaceHintKeyArgs lt Prod.fst body hint k (k, obj)
  (result.1, result.2.1)

end FlatMap

end Sparo.Base
