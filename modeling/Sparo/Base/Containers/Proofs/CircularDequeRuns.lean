import Sparo.Base.Containers.Proofs.CircularDequeOps

/-!
# Programs over circular deques refine programs over lists

`CircularDequeOp` is what a program may do with the deques it owns: construct, copy, move,
assign and swap them, and call any modifying member at any position. A deque is kept next to
the offset of the iterator that the last call on it returned, so that a run over the
deques and the same run over plain lists can be compared in everything a caller sees. They
differ where a range is inserted that cannot be passed over twice.
-/

namespace Sparo.Base.CircularDeque

open CircularView Partial

variable {α : Type} {d other : CircularDeque α} {x t : α} {xs ys : List α} {k n : Nat}

/-! ## Reading -/

namespace Filled

/-- A loop from `begin() + k` to `end()`. -/
theorem visit_index (h : d.Filled xs) (fuel : Nat) (hk : k ≤ xs.length)
    (hfuel : xs.length - k ≤ fuel) :
    d.visit fuel ((d.begin_ + k) % d.buffer.length) d.end_ = some (xs.drop k) := by
  have hlen := h.length_lt
  induction fuel generalizing k with
  | zero =>
    obtain rfl : k = xs.length := by omega
    rw [visit, if_pos h.end_eq.symm, List.drop_length]
  | succ fuel ih =>
    by_cases hend : k = xs.length
    · subst hend
      rw [visit, if_pos h.end_eq.symm, List.drop_length]
    · have hne : (d.begin_ + k) % d.buffer.length ≠ d.end_ := by
        rw [h.end_eq]
        exact fun heq => hend (add_mod_inj (by omega) (by omega) heq)
      have hlt : k < xs.length := by omega
      rw [visit, if_neg hne, h.deref_index hlt, Option.bind_some, increment_index h.begin_lt,
        ih (by omega) (by omega), Option.map_some, List.drop_eq_getElem_cons hlt]

/-- A loop over reverse iterators from the one with base `begin() + k` to `rend()`. -/
theorem visitBack_index (h : d.Filled xs) (fuel : Nat) (hk : k ≤ xs.length) (hfuel : k ≤ fuel) :
    d.visitBack fuel ((d.begin_ + k) % d.buffer.length) d.begin_ =
      some (xs.take k).reverse := by
  have hlen := h.length_lt
  induction fuel generalizing k with
  | zero =>
    obtain rfl : k = 0 := by omega
    rw [visitBack, if_pos h.begin_eq.symm, List.take_zero, List.reverse_nil]
  | succ fuel ih =>
    cases k with
    | zero => rw [visitBack, if_pos h.begin_eq.symm, List.take_zero, List.reverse_nil]
    | succ k =>
      have hne : (d.begin_ + (k + 1)) % d.buffer.length ≠ d.begin_ := by
        rw [ne_eq, h.index_eq_begin_iff hk]
        omega
      rw [visitBack, if_neg hne, decrement_index h.begin_lt, h.deref_index (by omega),
        Option.bind_some, ih (by omega) (by omega), Option.map_some,
        List.take_succ_eq_append_getElem (by omega), List.reverse_append]
      rfl

theorem at_eq (h : d.Filled xs) (hk : k < xs.length) : d.at_ k = some xs[k] := by
  have hend := h.end_eq
  have hlen := h.length_lt
  have hb := h.begin_lt
  rw [← h.deref_index hk, index_eq hb (by omega)]
  rw [index_eq hb hlen.le] at hend
  simp only [at_]
  by_cases hin : d.begin_ + k < d.buffer.length
  · rw [if_pos hin, if_pos (by omega)]
  · rw [if_neg hin, if_neg (by split at hend <;> omega)]
    congr 1
    omega

end Filled

namespace Holds

theorem toList_eq (h : d.Holds xs) : d.toList = xs := by
  rw [toList, h.size_eq]
  rcases h with ⟨-, -, rfl⟩ | h
  · rfl
  · have hlen := h.length_lt
    rw [List.filterMap_congr fun k hk => by
      rw [h.cell (Nat.lt_trans (List.mem_range.1 hk) hlen), Option.join_some]]
    exact filterMap_range_getElem? xs

theorem forward_eq (h : d.Holds xs) : d.forward = some xs := by
  rw [forward]
  rcases h with ⟨hbuf, hbegin, rfl⟩ | h
  · rw [hbuf, List.length_nil, visit, if_pos hbegin]
  · have := h.length_lt
    have hvisit := h.visit_index d.buffer.length (Nat.zero_le _) (by omega)
    rwa [← h.begin_eq] at hvisit

theorem reverse_eq (h : d.Holds xs) : d.reverse = some xs.reverse := by
  rw [reverse]
  rcases h with ⟨hbuf, hbegin, rfl⟩ | h
  · rw [hbuf, List.length_nil, visitBack, if_pos hbegin.symm, List.reverse_nil]
  · have hvisit := h.visitBack_index d.buffer.length (Nat.le_refl _) h.length_lt.le
    rwa [← h.end_eq, List.take_length] at hvisit

theorem at_eq (h : d.Holds xs) (hk : k < xs.length) : d.at_ k = xs[k]? := by
  rw [List.getElem?_eq_getElem hk]
  exact (h.filled_of_ne_nil (List.ne_nil_of_length_pos (by omega))).at_eq hk

theorem front_eq (h : d.Holds (x :: xs)) : d.front = some x := by
  have hf := h.filled_of_ne_nil (by simp)
  have := hf.deref_index (k := 0) (by simp)
  rwa [← hf.begin_eq] at this

theorem back_eq (h : d.Holds (xs ++ [t])) : d.back = some t := by
  have hf := h.filled_of_ne_nil (by simp)
  have := hf.deref_index (k := xs.length) (by simp)
  rw [back, hf.end_eq, List.length_append, List.length_singleton,
    decrement_index hf.begin_lt, this]
  simp

/-- The offset of the iterator `begin() + k`. -/
theorem offset_add_begin (h : d.Holds xs) (hk : k ≤ xs.length) :
    d.offsetFromBegin (d.add d.begin_ k) = k := by
  rcases h with ⟨-, -, rfl⟩ | h
  · obtain rfl : k = 0 := by simpa using hk
    simp [add, offsetFromBegin]
  · rw [h.add_begin, offsetFromBegin_index h.begin_lt (Nat.lt_of_le_of_lt hk h.length_lt)]

/-- The buffer has a cell to spare, unless it has no cells and the deque no elements. -/
theorem spare (h : d.Holds xs) : d.size < d.buffer.length ∨ d.size = 0 ∧ d.buffer = [] := by
  rw [h.size_eq]
  rcases h with ⟨hbuf, -, rfl⟩ | h
  · exact Or.inr ⟨rfl, hbuf⟩
  · exact Or.inl h.length_lt

/-! ## Construction, assignment and erasure of one element -/

theorem assignRange (h : d.Holds xs) (ys : List α) :
    Returns (d.assignRange ys) fun d' => d'.Holds ys :=
  h.clearRetainCapacity.bind fun _ hd' => hd'.emplaceBackAll ys

theorem assignCount (h : d.Holds xs) (n : Nat) (t : α) :
    Returns (d.assignCount n t) fun d' => d'.Holds (List.replicate n t) := by
  refine h.clearRetainCapacity.bind fun d' hd' => ?_
  exact (hd'.reserve n).bind fun d'' hd'' => hd''.emplaceBackAll (List.replicate n t)

theorem assignList (h : d.Holds xs) (ys : List α) :
    Returns (d.assignList ys) fun d' => d'.Holds ys :=
  (h.reserve ys.length).bind fun _ hd' => hd'.assignRange ys

theorem copy (h : d.Holds xs) : Returns d.copy fun d' => d'.Holds xs := by
  rw [CircularDeque.copy, h.forward_eq, Option.bind_some]
  exact (filled_new (Nat.succ_pos _)).holds.assignRange xs

theorem copyAssign (h : d.Holds xs) (hother : other.Holds ys) :
    Returns (d.copyAssign other) fun d' => d'.Holds ys := by
  refine (h.reserve other.size).bind fun d' hd' => ?_
  rw [hother.forward_eq, Option.bind_some]
  exact hd'.assignRange ys

theorem moveAssign (h : d.Holds xs) (hother : other.Holds ys) :
    Returns (d.moveAssign other) fun p => p.1.Holds ys ∧ p.2.Holds [] :=
  h.clearRetainCapacity.map fun _ _ => ⟨hother, Holds.default⟩

theorem erase (h : d.Holds xs) (hk : k < xs.length) :
    Returns (d.erase (d.add d.begin_ k)) fun (d', it) =>
      d'.Holds (xs.take k ++ xs.drop (k + 1)) ∧ it = d'.add d'.begin_ k := by
  have hf := h.filled_of_ne_nil (List.ne_nil_of_length_pos (by omega))
  have hnext : d.add (d.add d.begin_ k) 1 = d.add d.begin_ (k + 1 : Nat) := by
    have := add_index (d := d) (k := k) hf.begin_lt (Nat.lt_trans hk hf.length_lt) 1
    rw [hf.add_begin, hf.add_begin]
    exact_mod_cast this
  rw [CircularDeque.erase, hnext]
  exact h.eraseRange (Nat.le_succ k) hk

end Holds

/-! ## Programs -/

/-- What a program does with the deques it owns. Positions are given as `begin() + pos`; a value
list stands for an initializer list. -/
inductive CircularDequeOp (α : Type) where
  | construct
  | constructCount (count : Nat) (value : α)
  | constructRange (range : InputRange α)
  | constructList (items : List α)
  | constructCopy (i : Nat)
  | constructMove (i : Nat)
  | copyAssign (i j : Nat)
  | moveAssign (i j : Nat)
  | assignCount (i count : Nat) (value : α)
  | assignRange (i : Nat) (range : InputRange α)
  | assignList (i : Nat) (items : List α)
  | reserve (i newCapacity : Nat)
  | shrinkToFit (i : Nat)
  | clear (i : Nat)
  | resize (i count : Nat) (value : α)
  | insertCount (i pos count : Nat) (value : α)
  | insertRange (i pos : Nat) (range : InputRange α)
  | insert (i pos : Nat) (value : α)
  | emplace (i pos : Nat) (value : α)
  | erase (i pos : Nat)
  | eraseRange (i first last : Nat)
  | pushFront (i : Nat) (value : α)
  | pushBack (i : Nat) (value : α)
  | emplaceFront (i : Nat) (value : α)
  | emplaceBack (i : Nat) (value : α)
  | popFront (i : Nat)
  | popBack (i : Nat)
  | swap (i j : Nat)
  deriving DecidableEq, Repr

/-- An object of the program and the offset from its beginning of the iterator that the last
call on it returned. -/
abbrev Tracked (δ : Type) := δ × Option Nat

/-- A call that returns no iterator, on objects that meet `pre`. -/
def call {δ : Type} (pre : δ → Bool) (f : δ → Option δ) (p : Tracked δ) : Option (Tracked δ) :=
  if pre p.1 then (f p.1).map fun d => (d, none) else none

/-- A call that returns an iterator, on deques that meet `pre`. -/
def callIterator (pre : CircularDeque α → Bool)
    (f : CircularDeque α → Option (CircularDeque α × Nat)) (p : Tracked (CircularDeque α)) :
    Option (Tracked (CircularDeque α)) :=
  if pre p.1 then (f p.1).map fun r => (r.1, some (r.1.offsetFromBegin r.2)) else none

/-- One operation on the deques. A position must lie in `[begin(), end()]`, or before `end()`
where an element is erased, a range must be one, and only non-empty deques are popped. -/
def circularDequeStep (ds : List (Tracked (CircularDeque α))) :
    CircularDequeOp α → Option (List (Tracked (CircularDeque α)))
  | .construct => some (ds ++ [({}, none)])
  | .constructCount count value =>
    (resize {} count value).map fun d => ds ++ [(d, none)]
  | .constructRange range => (assignRange {} range.values).map fun d => ds ++ [(d, none)]
  | .constructList items => (assignList {} items).map fun d => ds ++ [(d, none)]
  | .constructCopy i => ds[i]?.bind fun p => p.1.copy.map fun d => ds ++ [(d, none)]
  | .constructMove i => ds[i]?.map fun p => ds.set i (p.1.move.2, none) ++ [(p.1.move.1, none)]
  | .copyAssign i j =>
    if i = j then Objects.updateAt i some ds
    else Objects.updateTwo i j (fun p q => (p.1.copyAssign q.1).map fun d => ((d, none), q)) ds
  | .moveAssign i j =>
    if i = j then Objects.updateAt i some ds
    else Objects.updateTwo i j
      (fun p q => (p.1.moveAssign q.1).map fun r => ((r.1, none), (r.2, none))) ds
  | .assignCount i count value =>
    Objects.updateAt i (call (fun _ => true) fun d => d.assignCount count value) ds
  | .assignRange i range =>
    Objects.updateAt i (call (fun _ => true) fun d => d.assignRange range.values) ds
  | .assignList i items =>
    Objects.updateAt i (call (fun _ => true) fun d => d.assignList items) ds
  | .reserve i newCapacity =>
    Objects.updateAt i (call (fun _ => true) fun d => d.reserve newCapacity) ds
  | .shrinkToFit i => Objects.updateAt i (call (fun _ => true) shrinkToFit) ds
  | .clear i => Objects.updateAt i (call (fun _ => true) clear) ds
  | .resize i count value =>
    Objects.updateAt i (call (fun _ => true) fun d => d.resize count value) ds
  | .insertCount i pos count value =>
    Objects.updateAt i (call (fun d => decide (pos ≤ d.size)) fun d =>
      d.insertCount (d.add d.begin_ pos) count value) ds
  | .insertRange i pos range =>
    Objects.updateAt i (call (fun d => decide (pos ≤ d.size)) fun d =>
      d.insertRange (d.add d.begin_ pos) range) ds
  | .insert i pos value =>
    Objects.updateAt i (callIterator (fun d => decide (pos ≤ d.size)) fun d =>
      d.insert (d.add d.begin_ pos) value) ds
  | .emplace i pos value =>
    Objects.updateAt i (callIterator (fun d => decide (pos ≤ d.size)) fun d =>
      d.emplace (d.add d.begin_ pos) value) ds
  | .erase i pos =>
    Objects.updateAt i (callIterator (fun d => decide (pos < d.size)) fun d =>
      d.erase (d.add d.begin_ pos)) ds
  | .eraseRange i first last =>
    Objects.updateAt i (callIterator (fun d => decide (first ≤ last ∧ last ≤ d.size)) fun d =>
      d.eraseRange (d.add d.begin_ first) (d.add d.begin_ last)) ds
  | .pushFront i value => Objects.updateAt i (call (fun _ => true) fun d => d.pushFront value) ds
  | .pushBack i value => Objects.updateAt i (call (fun _ => true) fun d => d.pushBack value) ds
  | .emplaceFront i value =>
    Objects.updateAt i (call (fun _ => true) fun d => d.emplaceFront value) ds
  | .emplaceBack i value =>
    Objects.updateAt i (call (fun _ => true) fun d => d.emplaceBack value) ds
  | .popFront i => Objects.updateAt i (call (fun d => !d.empty) popFront) ds
  | .popBack i => Objects.updateAt i (call (fun d => !d.empty) popBack) ds
  | .swap i j =>
    Objects.updateTwo i j
      (fun p q => some (((p.1.swap q.1).1, none), ((p.1.swap q.1).2, none))) ds

/-- A call on a list that returns the iterator to position `pos`. -/
def callAt (pre : List α → Bool) (pos : Nat) (f : List α → List α) (p : Tracked (List α)) :
    Option (Tracked (List α)) :=
  if pre p.1 then some (f p.1, some pos) else none

/-- `items` inserted in front of position `pos`. -/
def insertAt (pos : Nat) (items l : List α) : List α := l.take pos ++ items ++ l.drop pos

/-- The elements from position `first` up to position `last` erased. -/
def eraseAt (first last : Nat) (l : List α) : List α := l.take first ++ l.drop last

/-- The same operation on plain lists. A range is the sequence that a pass over it reads. -/
def plainStep (ls : List (Tracked (List α))) :
    CircularDequeOp α → Option (List (Tracked (List α)))
  | .construct => some (ls ++ [([], none)])
  | .constructCount count value => some (ls ++ [(List.replicate count value, none)])
  | .constructRange range => some (ls ++ [(range.values, none)])
  | .constructList items => some (ls ++ [(items, none)])
  | .constructCopy i => ls[i]?.bind fun p => some (ls ++ [(p.1, none)])
  | .constructMove i => ls[i]?.map fun p => ls.set i ([], none) ++ [(p.1, none)]
  | .copyAssign i j =>
    if i = j then Objects.updateAt i some ls
    else Objects.updateTwo i j (fun _ q => some ((q.1, none), q)) ls
  | .moveAssign i j =>
    if i = j then Objects.updateAt i some ls
    else Objects.updateTwo i j (fun _ q => some ((q.1, none), ([], none))) ls
  | .assignCount i count value =>
    Objects.updateAt i (call (fun _ => true) fun _ => some (List.replicate count value)) ls
  | .assignRange i range =>
    Objects.updateAt i (call (fun _ => true) fun _ => some range.values) ls
  | .assignList i items => Objects.updateAt i (call (fun _ => true) fun _ => some items) ls
  | .reserve i _ => Objects.updateAt i (call (fun _ => true) some) ls
  | .shrinkToFit i => Objects.updateAt i (call (fun _ => true) some) ls
  | .clear i => Objects.updateAt i (call (fun _ => true) fun _ => some []) ls
  | .resize i count value =>
    Objects.updateAt i (call (fun _ => true) fun l =>
      some (l.take count ++ List.replicate (count - l.length) value)) ls
  | .insertCount i pos count value =>
    Objects.updateAt i (call (fun l => decide (pos ≤ l.length)) fun l =>
      some (insertAt pos (List.replicate count value) l)) ls
  | .insertRange i pos range =>
    Objects.updateAt i (call (fun l => decide (pos ≤ l.length)) fun l =>
      some (insertAt pos range.values l)) ls
  | .insert i pos value =>
    Objects.updateAt i (callAt (fun l => decide (pos ≤ l.length)) pos (insertAt pos [value])) ls
  | .emplace i pos value =>
    Objects.updateAt i (callAt (fun l => decide (pos ≤ l.length)) pos (insertAt pos [value])) ls
  | .erase i pos =>
    Objects.updateAt i (callAt (fun l => decide (pos < l.length)) pos (eraseAt pos (pos + 1))) ls
  | .eraseRange i first last =>
    Objects.updateAt i (callAt (fun l => decide (first ≤ last ∧ last ≤ l.length)) first
      (eraseAt first last)) ls
  | .pushFront i value =>
    Objects.updateAt i (call (fun _ => true) fun l => some (value :: l)) ls
  | .pushBack i value =>
    Objects.updateAt i (call (fun _ => true) fun l => some (l ++ [value])) ls
  | .emplaceFront i value =>
    Objects.updateAt i (call (fun _ => true) fun l => some (value :: l)) ls
  | .emplaceBack i value =>
    Objects.updateAt i (call (fun _ => true) fun l => some (l ++ [value])) ls
  | .popFront i => Objects.updateAt i (call (fun l => !l.isEmpty) fun l => some l.tail) ls
  | .popBack i => Objects.updateAt i (call (fun l => !l.isEmpty) fun l => some l.dropLast) ls
  | .swap i j => Objects.updateTwo i j (fun p q => some ((q.1, none), (p.1, none))) ls

/-- A deque holds its list, and the iterators last returned agree. -/
def Agrees (p : Tracked (CircularDeque α)) (q : Tracked (List α)) : Prop :=
  p.1.Holds q.1 ∧ p.2 = q.2

/-- A member function that is the list function `g` on every deque that meets `pre`. -/
theorem rel_call {ds : List (Tracked (CircularDeque α))} {ls : List (Tracked (List α))}
    (h : List.Forall₂ Agrees ds ls) (i : Nat) {pre : CircularDeque α → Bool}
    {pre' : List α → Bool} {f : CircularDeque α → Option (CircularDeque α)}
    {g : List α → List α} (hpre : ∀ d xs, d.Holds xs → pre d = pre' xs)
    (hf : ∀ d xs, d.Holds xs → pre' xs = true → Returns (f d) fun d' => d'.Holds (g xs)) :
    Option.Rel (List.Forall₂ Agrees) (Objects.updateAt i (call pre f) ds)
      (Objects.updateAt i (call pre' fun xs => some (g xs)) ls) := by
  refine Objects.rel_updateAt h i fun p q hpq => ?_
  rw [call, call, hpre _ _ hpq.1]
  split
  · next hmeets => exact ((hf _ _ hpq.1 hmeets).map fun d' hd' => ⟨hd', rfl⟩).rel
  · exact .none

/-- A member function that returns the iterator `begin() + pos`. -/
theorem rel_callIterator {ds : List (Tracked (CircularDeque α))} {ls : List (Tracked (List α))}
    (h : List.Forall₂ Agrees ds ls) (i pos : Nat) {pre : CircularDeque α → Bool}
    {pre' : List α → Bool} {f : CircularDeque α → Option (CircularDeque α × Nat)}
    {g : List α → List α} (hpre : ∀ d xs, d.Holds xs → pre d = pre' xs)
    (hf : ∀ d xs, d.Holds xs → pre' xs = true → Returns (f d) fun (d', it) =>
      d'.Holds (g xs) ∧ d'.offsetFromBegin it = pos) :
    Option.Rel (List.Forall₂ Agrees) (Objects.updateAt i (callIterator pre f) ds)
      (Objects.updateAt i (callAt pre' pos g) ls) := by
  refine Objects.rel_updateAt h i fun p q hpq => ?_
  rw [callIterator, callAt, hpre _ _ hpq.1]
  split
  · next hmeets =>
    refine ((hf _ _ hpq.1 hmeets).map ?_).rel
    rintro ⟨d', it⟩ ⟨hd', hit⟩
    exact ⟨hd', congrArg some hit⟩
  · exact .none

theorem emplace_returns {pos : Nat} (h : d.Holds xs) (hpos : decide (pos ≤ xs.length) = true)
    (t : α) : Returns (d.emplace (d.add d.begin_ pos) t) fun (d', it) =>
      d'.Holds (insertAt pos [t] xs) ∧ d'.offsetFromBegin it = pos := by
  rw [decide_eq_true_eq] at hpos
  refine (h.emplace hpos t).imp ?_
  rintro ⟨d', it⟩ ⟨hf, rfl⟩
  refine ⟨hf.holds, offsetFromBegin_index hf.begin_lt ?_⟩
  have := hf.length_lt
  simp only [List.length_append, List.length_take, List.length_singleton, List.length_drop]
    at this
  omega

/-- A range that is inserted reads the same when it is passed over again. -/
def RangeRepeats : CircularDequeOp α → Prop
  | .insertRange _ _ range => range.again = range.values
  | _ => True

/-- Every such operation keeps each deque on its list and returns the same position. -/
theorem rel_circularDequeStep (ds : List (Tracked (CircularDeque α)))
    (ls : List (Tracked (List α))) (op : CircularDequeOp α) (hop : RangeRepeats op)
    (h : List.Forall₂ Agrees ds ls) :
    Option.Rel (List.Forall₂ Agrees) (circularDequeStep ds op) (plainStep ls op) := by
  -- The precondition on a position reads the size only, which is the length of the list.
  have hany : ∀ (d : CircularDeque α) (xs : List α), d.Holds xs → true = true := fun _ _ _ => rfl
  have hle : ∀ pos (d : CircularDeque α) xs, d.Holds xs →
      decide (pos ≤ d.size) = decide (pos ≤ xs.length) := fun pos d xs hd => by rw [hd.size_eq]
  have hempty : ∀ (d : CircularDeque α) xs, d.Holds xs → (!d.empty) = !xs.isEmpty := by
    intro d xs hd
    rw [Bool.eq_iff_iff, Bool.not_eq_true', Bool.not_eq_true', Bool.eq_false_iff,
      Bool.eq_false_iff, ne_eq, ne_eq, hd.empty_iff, List.isEmpty_iff]
  have hnew : ∀ {o : Option (CircularDeque α)} {xs : List α},
      Returns o (fun d => d.Holds xs) → Option.Rel (List.Forall₂ Agrees)
        (o.map fun d => ds ++ [(d, none)]) (some (ls ++ [(xs, none)])) := by
    intro o xs ho
    have hafter := ho.map (f := fun d => ds ++ [(d, none)])
      (Q := fun ds' => List.Forall₂ Agrees ds' (ls ++ [(xs, none)]))
      fun d hd => Objects.rel_concat h ⟨hd, rfl⟩
    exact hafter.rel
  cases op with
  | construct => exact .some (Objects.rel_concat h ⟨Holds.default, rfl⟩)
  | constructCount count value =>
    exact hnew (by simpa using Holds.default.resize count value)
  | constructRange range => exact hnew (Holds.default.assignRange range.values)
  | constructList items => exact hnew (Holds.default.assignList items)
  | constructCopy i =>
    exact StepSystem.rel_bind (Objects.rel_getElem? h i) fun p q hpq => hnew hpq.1.copy
  | constructMove i =>
    refine StepSystem.rel_map (Objects.rel_getElem? h i) fun p q hpq => ?_
    exact Objects.rel_concat (Objects.rel_set h i ⟨Holds.default, rfl⟩) ⟨hpq.1, rfl⟩
  | copyAssign i j =>
    simp only [circularDequeStep, plainStep]
    split
    · exact Objects.rel_updateAt h i fun p q hpq => .some hpq
    · refine Objects.rel_updateTwo h i j fun p q hpq p' q' hpq' => ?_
      exact ((hpq.1.copyAssign hpq'.1).map fun d hd => ⟨⟨hd, rfl⟩, hpq'⟩).rel
  | moveAssign i j =>
    simp only [circularDequeStep, plainStep]
    split
    · exact Objects.rel_updateAt h i fun p q hpq => .some hpq
    · refine Objects.rel_updateTwo h i j fun p q hpq p' q' hpq' => ?_
      exact ((hpq.1.moveAssign hpq'.1).map fun r hr => ⟨⟨hr.1, rfl⟩, ⟨hr.2, rfl⟩⟩).rel
  | assignCount i count value =>
    exact rel_call h i hany fun d xs hd _ => hd.assignCount count value
  | assignRange i range => exact rel_call h i hany fun d xs hd _ => hd.assignRange range.values
  | assignList i items => exact rel_call h i hany fun d xs hd _ => hd.assignList items
  | reserve i newCapacity => exact rel_call h i hany fun d xs hd _ => hd.reserve newCapacity
  | shrinkToFit i => exact rel_call h i hany fun d xs hd _ => hd.shrinkToFit
  | clear i => exact rel_call h i hany fun d xs hd _ => hd.clear
  | resize i count value => exact rel_call h i hany fun d xs hd _ => hd.resize count value
  | insertCount i pos count value =>
    exact rel_call h i (hle pos) fun d xs hd hpos =>
      hd.insertCount (of_decide_eq_true hpos) count value
  | insertRange i pos range =>
    refine rel_call h i (hle pos) fun d xs hd hpos => ?_
    rw [insertAt, ← show range.again = range.values from hop]
    exact hd.insertRange (of_decide_eq_true hpos) range
  | insert i pos value =>
    exact rel_callIterator h i pos (hle pos) fun d xs hd hpos => emplace_returns hd hpos value
  | emplace i pos value =>
    exact rel_callIterator h i pos (hle pos) fun d xs hd hpos => emplace_returns hd hpos value
  | erase i pos =>
    refine rel_callIterator h i pos (fun d xs hd => by rw [hd.size_eq]) fun d xs hd hpos => ?_
    rw [decide_eq_true_eq] at hpos
    refine (hd.erase hpos).imp ?_
    rintro ⟨d', it⟩ ⟨hd', rfl⟩
    refine ⟨hd', hd'.offset_add_begin ?_⟩
    simp only [List.length_append, List.length_take, List.length_drop]
    omega
  | eraseRange i first last =>
    refine rel_callIterator h i first (fun d xs hd => by rw [hd.size_eq]) fun d xs hd hpos => ?_
    rw [decide_eq_true_eq] at hpos
    refine (hd.eraseRange hpos.1 hpos.2).imp ?_
    rintro ⟨d', it⟩ ⟨hd', rfl⟩
    refine ⟨hd', hd'.offset_add_begin ?_⟩
    simp only [List.length_append, List.length_take, List.length_drop]
    omega
  | pushFront i value =>
    exact rel_call h i hany fun d xs hd _ => (hd.emplaceFront value).imp fun _ hf => hf.holds
  | pushBack i value =>
    exact rel_call h i hany fun d xs hd _ => (hd.emplaceBack value).imp fun _ hf => hf.holds
  | emplaceFront i value =>
    exact rel_call h i hany fun d xs hd _ => (hd.emplaceFront value).imp fun _ hf => hf.holds
  | emplaceBack i value =>
    exact rel_call h i hany fun d xs hd _ => (hd.emplaceBack value).imp fun _ hf => hf.holds
  | popFront i =>
    refine rel_call h i hempty fun d xs hd hne => ?_
    cases xs with
    | nil => cases hne
    | cons x xs => exact hd.popFront
  | popBack i =>
    refine rel_call h i hempty fun d xs hd hne => ?_
    rcases List.eq_nil_or_concat' xs with rfl | ⟨ys, y, rfl⟩
    · cases hne
    · rw [List.dropLast_concat]
      exact hd.popBack
  | swap i j =>
    exact Objects.rel_updateTwo h i j fun p q hpq p' q' hpq' =>
      .some ⟨⟨hpq'.1, rfl⟩, ⟨hpq.1, rfl⟩⟩

/-- The elements from `begin_` to `end_` and the iterator last returned. -/
def view (p : Tracked (CircularDeque α)) : Tracked (List α) := (p.1.toList, p.2)

theorem map_view_eq {ds : List (Tracked (CircularDeque α))} {ls : List (Tracked (List α))}
    (h : List.Forall₂ Agrees ds ls) : ds.map view = ls := by
  refine Objects.map_eq_of_forall₂ ?_ h
  rintro ⟨d, it⟩ ⟨xs, it'⟩ ⟨hd, rfl⟩
  exact congrArg (fun l => (l, it)) hd.toList_eq

theorem insertAt_inj {pos : Nat} {l : List α} (h : insertAt pos xs l = insertAt pos ys l) :
    xs = ys := by
  rw [insertAt, insertAt] at h
  exact List.append_cancel_left (List.append_cancel_right h)

/-- A range that does not read the same again leaves other elements than those of the list. -/
theorem rangeRepeats_of_step (ds : List (Tracked (CircularDeque α)))
    (ls : List (Tracked (List α))) (op : CircularDequeOp α) (ls' : List (Tracked (List α)))
    (h : List.Forall₂ Agrees ds ls) (hplain : plainStep ls op = some ls')
    (hsame : (circularDequeStep ds op).map (List.map view) = some ls') : RangeRepeats op := by
  cases op with
  | insertRange i pos range =>
    obtain ⟨q, hq, hplain⟩ := Option.bind_eq_some_iff.1 hplain
    obtain ⟨q', hq', rfl⟩ := Option.map_eq_some_iff.1 hplain
    obtain ⟨ds', hds', hview⟩ := Option.map_eq_some_iff.1 hsame
    obtain ⟨p, hp, hds'⟩ := Option.bind_eq_some_iff.1 hds'
    obtain ⟨p', hp', rfl⟩ := Option.map_eq_some_iff.1 hds'
    obtain ⟨hholds, -⟩ : Agrees p q := by
      have hrel := Objects.rel_getElem? h i
      rw [hp, hq] at hrel
      cases hrel with
      | some hpq => exact hpq
    rw [call] at hq' hp'
    split at hq'
    · next hpos =>
      cases hq'
      obtain ⟨d', hd', rfl⟩ := Option.map_eq_some_iff.1 (by simpa [hholds.size_eq, hpos] using hp')
      obtain ⟨e, he, hinserted⟩ := hholds.insertRange (of_decide_eq_true hpos) range
      obtain rfl : e = d' := Option.some.inj (he.symm.trans hd')
      have hi : i < ds.length := (List.getElem?_eq_some_iff.1 hp).1
      have hi' : i < ls.length := (List.getElem?_eq_some_iff.1 hq).1
      have hat := congrArg (·[i]?) hview
      simp only [List.getElem?_map, List.getElem?_set_self hi, List.getElem?_set_self hi',
        Option.map_some, view, Option.some_inj, Prod.mk.injEq, and_true, hinserted.toList_eq] at hat
      exact insertAt_inj hat
    · cases hq'
  | _ => trivial

/-- Everything that can be read of a deque is read of its elements, and the buffer has a cell to
spare unless it has none and the deque no elements. -/
structure ReadsElements (d : CircularDeque α) : Prop where
  size : d.size = d.toList.length
  empty : d.empty = true ↔ d.toList = []
  at_ : ∀ k < d.size, d.at_ k = d.toList[k]?
  front : ∀ x, d.toList.head? = some x → d.front = some x
  back : ∀ x, d.toList.getLast? = some x → d.back = some x
  forward : d.forward = some d.toList
  reverse : d.reverse = some d.toList.reverse
  spare : d.size < d.buffer.length ∨ d.size = 0 ∧ d.buffer = []

theorem Holds.readsElements (h : d.Holds xs) : d.ReadsElements := by
  have hlist := h.toList_eq
  subst hlist
  refine ⟨h.size_eq, h.empty_iff, ?_, ?_, ?_, h.forward_eq, h.reverse_eq, h.spare⟩
  · intro k hk
    rw [h.size_eq] at hk
    exact h.at_eq hk
  · intro x hx
    obtain ⟨xs, hxs⟩ := List.head?_eq_some_iff.1 hx
    rw [hxs] at h
    exact h.front_eq
  · intro x hx
    obtain ⟨xs, hxs⟩ := List.getLast?_eq_some_iff.1 hx
    rw [hxs] at h
    exact h.back_eq

/-- After every operation of the program the elements from `begin_` to `end_` and the iterators
returned are those of the same program over lists, and all that can be read of a deque agrees with
its elements. -/
def RefinesLists (ops : List (CircularDequeOp α)) : Prop :=
  ∀ done, done <+: ops → ∃ ds, StepSystem.exec circularDequeStep [] done = some ds ∧
    StepSystem.exec plainStep [] done = some (ds.map view) ∧ ∀ p ∈ ds, p.1.ReadsElements

/-- A program over circular deques is the same program over lists exactly if every range that it
inserts reads the same when it is passed over again. -/
theorem circularDeques_refine_lists_iff (ops : List (CircularDequeOp α))
    {ls : List (Tracked (List α))} (hrun : StepSystem.exec plainStep [] ops = some ls) :
    (∀ op ∈ ops, RangeRepeats op) ↔ RefinesLists ops := by
  have hiff := StepSystem.forall_ok_iff_exec_map_eq (fun _ _ => map_view_eq)
    (fun ds ls op hop h => rel_circularDequeStep ds ls op hop h) rangeRepeats_of_step .nil hrun
  constructor
  · intro hrepeat done hdone
    obtain ⟨rest, rfl⟩ := hdone
    obtain ⟨ls', hls', -⟩ := StepSystem.exec_append_eq_some.1 hrun
    have hrel := StepSystem.exec_rel_of_forall_mem
      (fun ds ls op hop h => rel_circularDequeStep ds ls op hop h) .nil
      fun op hmem => hrepeat op (List.mem_append_left rest hmem)
    rw [hls'] at hrel
    obtain ⟨ds, hds, hall⟩ := StepSystem.exists_eq_some_of_rel hrel
    refine ⟨ds, hds, by rw [hls', map_view_eq hall], fun p hp => ?_⟩
    obtain ⟨q, -, hpq, -⟩ := Objects.exists_rel_of_mem hall hp
    exact hpq.readsElements
  · intro h
    refine hiff.mpr fun done hdone => ?_
    obtain ⟨ds, hds, hls, -⟩ := h done hdone
    rw [hds, hls, Option.map_some]

theorem circularDeques_refine_lists_iff_multipass :
    RefinesLists [.construct, .pushBack 0 4, .insertRange 0 1 (.multipass [1, 2, 3])] := by
  refine (circularDeques_refine_lists_iff _ rfl).mp fun op hop => ?_
  rcases List.mem_cons.1 hop with rfl | hop
  · trivial
  rcases List.mem_cons.1 hop with rfl | hop
  · trivial
  obtain rfl := List.mem_singleton.1 hop
  rfl

/-- The `std::istream_iterator` over `1 2 3` has read the first value when it is made, and
`std::distance` reads the others. -/
def istreamRange : InputRange Nat := ⟨[1, 2, 3], [1, 1, 1], rfl⟩

theorem insert_reads_range_twice :
    StepSystem.exec plainStep [] [.construct, .insertRange 0 0 istreamRange] =
        some [([1, 2, 3], none)] ∧
      (StepSystem.exec circularDequeStep [] [.construct, .insertRange 0 0 istreamRange]).map
        (List.map view) = some [([1, 1, 1], none)] ∧
      ¬RefinesLists [.construct, .insertRange 0 0 istreamRange] := by
  refine ⟨rfl, by decide, fun h => ?_⟩
  obtain ⟨ds, hds, hls, -⟩ := h _ List.prefix_rfl
  have hreads : (StepSystem.exec circularDequeStep []
      [.construct, .insertRange 0 0 istreamRange]).map (List.map view) =
        some [([1, 1, 1], none)] := by
    decide
  rw [hds, Option.map_some, ← hls] at hreads
  exact absurd hreads (by decide)

end Sparo.Base.CircularDeque
