import Sparo.Base.Task.Proofs.DequeList
import Sparo.Misc.Refinement

/-!
# Programs over deques refine programs over lists

`DequeOp` is what a program may do with the deques it owns; a schedule of such operations is
run on the deques by `dequeStep` and on plain lists by `listStep`. The two systems accept the
same schedules, the live slots of each deque are its list, and what `front`, `back`, `size`,
`empty` and a loop over the iterators report is read off that list.
-/

namespace Sparo.Base.LazilyDeallocatedDeque

variable {α : Type} {d : LazilyDeallocatedDeque α} {rings : List (Ring α)} {x t : α} {xs : List α}

theorem fullRings_back (h : FullRings rings (xs ++ [t])) :
    rings.getLast?.bind Ring.back = some t := by
  induction rings generalizing xs with
  | nil => simp [FullRings] at h
  | cons r rings ih =>
    obtain ⟨ys, zs, heq, hys, hr, hrest⟩ := h
    cases rings with
    | nil =>
      obtain rfl : zs = [] := hrest
      rw [List.append_nil] at heq
      rw [← heq] at hr
      simpa using hr.back_eq_last
    | cons r' rings =>
      obtain ⟨ys', zs', rfl, hys', -⟩ := id hrest
      -- The last element is in the rings behind the first one, since these are not empty.
      obtain ⟨ws, u, hlast⟩ : ∃ ws u, ys' ++ zs' = ws ++ [u] := by
        rcases List.eq_nil_or_concat' (ys' ++ zs') with hnil | hlast
        · exact absurd (List.append_eq_nil_iff.1 hnil).1 hys'
        · exact hlast
      rw [hlast, ← List.append_assoc] at heq
      obtain rfl : t = u := by simpa using (List.append_inj' heq rfl).2
      rw [List.getLast?_cons_cons]
      exact ih (hlast ▸ hrest)

theorem Holds.back_eq_last (h : d.Holds (xs ++ [t])) : d.back = some t := by
  rcases h.rings with hfull | ⟨r, -, -, -, hnil⟩
  · exact fullRings_back hfull
  · simp at hnil

namespace Iterator

variable {it : Iterator α}

/-- The iterator stands on the first of the elements `xs` still to be visited: on the object
after `pre` in its ring, with non-empty rings behind it. -/
def Remaining (it : Iterator α) (xs : List α) : Prop :=
  (it.rings = [] ∧ xs = []) ∨
    ∃ r rest pre x suf tail, it.rings = r :: rest ∧ r.Holds (pre ++ x :: suf) ∧
      it.index = (r.frontIndex + 1 + pre.length) % r.capacity ∧ FullRings rest tail ∧
      xs = x :: (suf ++ tail)

/-- The first object of a chain of non-empty rings. -/
theorem remaining_of_fullRings {r : Ring α} (h : FullRings (r :: rings) xs) :
    Remaining ⟨r :: rings, r.circularIncrement r.frontIndex⟩ xs := by
  obtain ⟨ys, zs, rfl, hys, hr, hrest⟩ := h
  cases ys with
  | nil => exact absurd rfl hys
  | cons y ys =>
    refine Or.inr ⟨r, rings, [], y, ys, zs, rfl, hr, ?_, hrest, rfl⟩
    exact Ring.circularIncrement_eq_mod hr.front_lt

theorem Remaining.toBool_iff (h : it.Remaining xs) : it.toBool = true ↔ xs ≠ [] := by
  rcases h with ⟨hnull, rfl⟩ | ⟨r, rest, pre, x, suf, tail, hring, -, -, -, rfl⟩
  · simp [toBool, hnull]
  · simp [toBool, hring]

theorem Remaining.deref_eq (h : it.Remaining (x :: xs)) : it.deref = some x := by
  rcases h with ⟨-, hnil⟩ | ⟨r, rest, pre, y, suf, tail, hring, hr, hindex, -, heq⟩
  · cases hnil
  · obtain ⟨rfl, -⟩ := List.cons.inj heq
    rw [deref, hring, hindex]
    exact hr.slot_eq pre.length x (by simp)

/-- `++` goes to the next object: inside the ring, or to the first one of the next ring when
`index_` is `back_index_`. -/
theorem Remaining.next (h : it.Remaining (x :: xs)) : it.next.Remaining xs := by
  obtain ⟨its, index⟩ := it
  rcases h with ⟨-, hnil⟩ | ⟨r, rest, pre, y, suf, tail, hring, hr, hindex, hrest, heq⟩
  · cases hnil
  obtain ⟨rfl, rfl⟩ := List.cons.inj heq
  dsimp only at hring hindex
  subst hring hindex
  have hback := hr.back_eq
  have hlen := hr.length_lt
  rw [List.length_append, List.length_cons] at hback hlen
  cases suf with
  | nil =>
    have hlast : (r.frontIndex + 1 + pre.length) % r.capacity = r.backIndex := by
      rw [hback, List.length_nil]
      congr 1
      omega
    cases rest with
    | nil =>
      obtain rfl : tail = [] := hrest
      rw [Iterator.next, if_pos hlast]
      exact Or.inl ⟨rfl, rfl⟩
    | cons r' rest =>
      rw [Iterator.next, if_pos hlast]
      exact remaining_of_fullRings hrest
  | cons z suf =>
    rw [List.length_cons] at hback hlen
    have hinside : (r.frontIndex + 1 + pre.length) % r.capacity ≠ r.backIndex := by
      rw [hback]
      exact CircularIndex.mod_ne_mod (by omega) (by omega)
    unfold Iterator.next
    dsimp only
    rw [if_neg hinside]
    refine Or.inr ⟨r, rest, pre ++ [x], z, suf, tail, rfl, by simpa using hr, ?_, hrest, rfl⟩
    rw [Ring.circularIncrement_eq_mod (Nat.mod_lt _ hr.capacity_pos), Nat.mod_add_mod,
      List.length_append, List.length_singleton]
    congr 1

/-- The loop visits the remaining elements in order, one a round. -/
theorem Remaining.visit_eq {n : Nat} (h : it.Remaining xs) (hn : xs.length ≤ n) :
    it.visit n = some xs := by
  induction n generalizing it xs with
  | zero =>
    obtain rfl : xs = [] := List.length_eq_zero_iff.1 (by omega)
    have hend : it.toBool = false := by
      rw [Bool.eq_false_iff, ne_eq, h.toBool_iff]
      simp
    simp [visit, hend]
  | succ n ih =>
    cases xs with
    | nil =>
      have hend : it.toBool = false := by
        rw [Bool.eq_false_iff, ne_eq, h.toBool_iff]
        simp
      simp [visit, hend]
    | cons x xs =>
      have hmore : it.toBool = true := h.toBool_iff.2 (by simp)
      rw [List.length_cons] at hn
      simp [visit, hmore, h.deref_eq, ih h.next (by omega)]

end Iterator

/-- A loop from `begin()` visits the elements of the deque. -/
theorem Holds.visit_begin (h : d.Holds xs) : d.begin.visit d.size = some xs := by
  have hbegin : d.begin.Remaining xs := by
    rw [begin]
    rcases h.rings with hfull | ⟨r, hring, hr, -, rfl⟩
    · cases hrings : d.rings with
      | nil =>
        rw [hrings] at hfull
        exact Or.inl ⟨rfl, hfull⟩
      | cons r rings =>
        rw [hrings] at hfull
        obtain ⟨ys, zs, -, hys, hr, -⟩ := id hfull
        have hne : r.empty = false := by
          rw [Bool.eq_false_iff, ne_eq, hr.empty_iff]
          exact hys
        rw [Iterator.ofRing, hne, if_neg Bool.false_ne_true]
        exact Iterator.remaining_of_fullRings hfull
    · rw [hring, Iterator.ofRing, hr.empty_iff.2 rfl, if_pos rfl]
      exact Or.inl ⟨rfl, rfl⟩
  exact hbegin.visit_eq h.size_eq.ge

/-- What a program does with the deques it owns: it constructs a further one, calls a
modifying member of the `i`-th one, or swaps two of them. `MaybeShrinkQueue` carries the
reading of the clock. -/
inductive DequeOp (α : Type) where
  | construct
  | pushFront (i : Nat) (t : α)
  | pushBack (i : Nat) (t : α)
  | popFront (i : Nat)
  | clear (i : Nat)
  | swap (i j : Nat)
  | maybeShrinkQueue (i : Nat) (currentTime : Int)
  deriving DecidableEq, Repr

/-- One operation on the deques; `pop_front` is called on non-empty deques only. -/
def dequeStep (ds : List (LazilyDeallocatedDeque α)) :
    DequeOp α → Option (List (LazilyDeallocatedDeque α))
  | .construct => some (ds ++ [{}])
  | .pushFront i t => Objects.updateAt i (fun d => some (d.pushFront t)) ds
  | .pushBack i t => Objects.updateAt i (fun d => some (d.pushBack t)) ds
  | .popFront i => Objects.updateAt i (fun d => if d.empty then none else some d.popFront) ds
  | .clear i => Objects.updateAt i (fun d => some d.clear) ds
  | .swap i j => Objects.updateTwo i j (fun d other => some (d.swap other)) ds
  | .maybeShrinkQueue i now => Objects.updateAt i (fun d => some (d.maybeShrinkQueue now)) ds

/-- The same operation on plain lists. -/
def listStep (ls : List (List α)) : DequeOp α → Option (List (List α))
  | .construct => some (ls ++ [[]])
  | .pushFront i t => Objects.updateAt i (fun l => some (t :: l)) ls
  | .pushBack i t => Objects.updateAt i (fun l => some (l ++ [t])) ls
  | .popFront i => Objects.updateAt i List.tail? ls
  | .clear i => Objects.updateAt i (fun _ => some []) ls
  | .swap i j => Objects.updateTwo i j (fun l l' => some (l', l)) ls
  | .maybeShrinkQueue i _ => Objects.updateAt i some ls

/-- Every operation keeps each deque on its list. -/
theorem rel_dequeStep {ds : List (LazilyDeallocatedDeque α)} {ls : List (List α)}
    (op : DequeOp α) (h : List.Forall₂ Holds ds ls) :
    Option.Rel (List.Forall₂ Holds) (dequeStep ds op) (listStep ls op) := by
  cases op with
  | construct => exact .some (Objects.rel_concat h holds_default)
  | pushFront i t => exact Objects.rel_updateAt h i fun d l hd => .some (hd.pushFront t)
  | pushBack i t => exact Objects.rel_updateAt h i fun d l hd => .some (hd.pushBack t)
  | popFront i =>
    refine Objects.rel_updateAt h i fun d l hd => ?_
    cases l with
    | nil =>
      rw [hd.empty_iff.2 rfl, if_pos rfl]
      exact .none
    | cons x l =>
      rw [if_neg (fun hempty => by cases hd.empty_iff.1 hempty)]
      exact .some hd.popFront
  | clear i => exact Objects.rel_updateAt h i fun d l hd => .some hd.clear
  | swap i j => exact Objects.rel_updateTwo h i j fun d l hd d' l' hd' => .some ⟨hd', hd⟩
  | maybeShrinkQueue i now =>
    exact Objects.rel_updateAt h i fun d l hd => .some (hd.maybeShrinkQueue now)

/-- While `SetCapacity` fills the ring that `MaybeShrinkQueue` gives it, the ring has room
before every push. -/
theorem Holds.canPush_moveAll (h : d.Holds xs) {n : Nat} (hn : n < d.size) :
    (LazilyDeallocatedDeque.moveAll n d
      (Ring.new (max (d.maxSize + 1) kMinimumRingSize))).canPush = true := by
  have hsize := h.size_eq
  have hle := h.size_le
  have hnew : (Ring.new (max (d.maxSize + 1) kMinimumRingSize) : Ring α).Holds [] :=
    Ring.holds_new (by omega)
  obtain ⟨hmove, hcap⟩ := h.moveAll n _ (by omega) hnew (by simp; omega)
  rw [hmove.canPush_iff, hcap]
  simp
  omega

/-- Any program over deques is the same program over lists: both accept the same schedules,
the live slots from `head_` to `tail_` are the list, and in every state reached the
observers of every deque report that list, with `size_ ≤ max_size_`. -/
theorem deques_refine_lists (ops : List (DequeOp α)) :
    (StepSystem.exec dequeStep [] ops).map (List.map toList) = StepSystem.exec listStep [] ops ∧
    ∀ ds, StepSystem.exec dequeStep [] ops = some ds → ∀ d ∈ ds,
      (∀ x, d.toList.head? = some x → d.front = some x) ∧
      (∀ x, d.toList.getLast? = some x → d.back = some x) ∧
      d.size = d.toList.length ∧ (d.empty = true ↔ d.toList = []) ∧
      d.begin.visit d.size = some d.toList ∧ d.size ≤ d.maxSize ∧
      ∀ n < d.size,
        (moveAll n d (Ring.new (max (d.maxSize + 1) kMinimumRingSize))).canPush = true := by
  have hrel : Option.Rel (List.Forall₂ Holds) (StepSystem.exec dequeStep [] ops)
      (StepSystem.exec (@listStep α) [] ops) :=
    StepSystem.exec_rel (fun ds ls op h => rel_dequeStep op h) .nil ops
  constructor
  · exact StepSystem.map_eq_of_rel (fun ds ls h =>
      Objects.map_eq_of_forall₂ (fun d l hd => hd.toList_eq) h) hrel
  · intro ds hds d hd
    obtain ⟨ls, -, hall⟩ := StepSystem.exists_rel_of_eq_some hrel hds
    obtain ⟨l, -, h⟩ := Objects.exists_rel_of_mem hall hd
    rw [h.toList_eq]
    refine ⟨?_, ?_, h.size_eq, h.empty_iff, h.visit_begin, h.size_le, fun n => h.canPush_moveAll⟩
    · intro x hx
      obtain ⟨xs, rfl⟩ := List.head?_eq_some_iff.1 hx
      exact h.front_eq
    · intro x hx
      obtain ⟨xs, rfl⟩ := List.getLast?_eq_some_iff.1 hx
      exact h.back_eq_last

end Sparo.Base.LazilyDeallocatedDeque
