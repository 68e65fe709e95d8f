import Sparo.Base.Containers.Proofs.CircularDequeList

/-!
# The operations of a circular deque on its list

Pushing and popping move the origin of the view or the end of the elements by one cell;
insertion and erasure move a hole through the elements; everything that may reallocate does
so with the elements in place.
-/

namespace Sparo.Base.CircularDeque

open CircularView Partial

variable {α : Type} {d : CircularDeque α} {x t : α} {xs : List α} {k n : Nat}

namespace Filled

/-- The construction in `emplace_front`, once there is room. -/
theorem constructFront (h : d.Filled xs) (hroom : xs.length + 1 < d.buffer.length) (t : α) :
    Returns (VectorBuffer.construct d.buffer
      (if d.begin_ = 0 then d.buffer.length - 1 else d.begin_ - 1) t) fun b' =>
        (⟨b', if d.begin_ = 0 then d.buffer.length - 1 else d.begin_ - 1, d.end_⟩ :
          CircularDeque α).Filled (t :: xs) := by
  have hb := h.begin_lt
  have hnew : (if d.begin_ = 0 then d.buffer.length - 1 else d.begin_ - 1) =
      (d.begin_ + (d.buffer.length - 1)) % d.buffer.length := by
    rw [index_eq hb (by omega)]
    split <;> split <;> omega
  have hlt : (d.begin_ + (d.buffer.length - 1)) % d.buffer.length < d.buffer.length :=
    Nat.mod_lt _ (by omega)
  have hcell := h.raw (k := d.buffer.length - 1) (by omega) (by omega)
  rw [hnew, VectorBuffer.construct_eq hcell]
  refine returns_some ⟨?_, ?_, ?_, ?_⟩
  · simpa using hlt
  · simpa using hroom
  · simp only [List.length_set, List.length_cons, Nat.mod_add_mod]
    rw [h.end_eq, show d.begin_ + (d.buffer.length - 1) + (xs.length + 1) =
      d.begin_ + xs.length + d.buffer.length by omega, Nat.add_mod_right]
  · -- From the new origin the elements stand one cell further, and cell 0 is the new one.
    have hview := (h.view.rotate (d.buffer.length - 1)).set (k := 0) (by omega) (some t)
    rw [Nat.add_zero, Nat.mod_mod] at hview
    refine hview.congr fun k hk => ?_
    rw [List.length_set] at hk
    cases k with
    | zero => rw [Function.update_self, List.getElem?_cons_zero]
    | succ k =>
      rw [Function.update_of_ne (by omega), List.getElem?_cons_succ,
        show d.buffer.length - 1 + (k + 1) = k + d.buffer.length by omega, Nat.add_mod_right,
        Nat.mod_eq_of_lt (by omega)]

/-- The construction in `emplace_back`, once there is room. -/
theorem constructBack (h : d.Filled xs) (hroom : xs.length + 1 < d.buffer.length) (t : α) :
    Returns (VectorBuffer.construct d.buffer d.end_ t) fun b' =>
      (⟨b', d.begin_, if d.end_ = d.buffer.length - 1 then 0 else d.end_ + 1⟩ :
        CircularDeque α).Filled (xs ++ [t]) := by
  have hb := h.begin_lt
  have hcell := h.raw (Nat.le_refl _) h.length_lt
  have hnext : (if d.end_ = d.buffer.length - 1 then 0 else d.end_ + 1) =
      (d.begin_ + (xs.length + 1)) % d.buffer.length := by
    rw [← increment_index hb, ← h.end_eq, increment]
    split <;> split <;> omega
  rw [hnext, h.end_eq, VectorBuffer.construct_eq hcell]
  refine returns_some ⟨?_, ?_, ?_, ?_⟩
  · simpa using hb
  · simpa using hroom
  · simp
  · refine (h.view.set h.length_lt (some t)).congr fun k _ => ?_
    by_cases hlast : k = xs.length
    · subst hlast
      simp
    · rw [Function.update_of_ne hlast]
      rcases Nat.lt_or_gt_of_ne hlast with hlt | hgt
      · rw [List.getElem?_append_left hlt]
      · rw [List.getElem?_eq_none (by omega), List.getElem?_eq_none (by simp; omega)]

/-- `MakeRoomFor` leaves the elements with a hole of `n` cells at the iterator. -/
theorem makeRoomFor (h : d.Filled xs) (hk : k ≤ xs.length) (hn : 0 < n) :
    Returns (d.makeRoomFor n ((d.begin_ + k) % d.buffer.length)) fun (d', i, j) =>
      d'.begin_ < d'.buffer.length ∧ xs.length + n < d'.buffer.length ∧
      i = (d'.begin_ + k) % d'.buffer.length ∧ j = (d'.begin_ + (k + n)) % d'.buffer.length ∧
      d'.end_ = (d'.begin_ + (xs.length + n)) % d'.buffer.length ∧
      View d'.buffer d'.begin_ (hole xs k n) := by
  have hlen := h.length_lt
  rw [CircularDeque.makeRoomFor, if_neg (by omega), offsetFromBegin_index h.begin_lt (by omega)]
  refine (h.holds.expand_pos hn).bind fun d' ⟨hf, hroom⟩ => ?_
  have hend : (d'.end_ + n) % d'.buffer.length =
      (d'.begin_ + (xs.length + n)) % d'.buffer.length := by
    rw [hf.end_eq, Nat.mod_add_mod, Nat.add_assoc]
  have hshift := @shiftRight_view α { d' with end_ := (d'.end_ + n) % d'.buffer.length } k n
    xs.length xs d'.buffer.length hf.begin_lt hn hroom (Nat.le_refl _) hk (by omega)
    (hf.view.congr fun m _ => (hole_length xs n m).symm)
  dsimp only at hshift ⊢
  rw [← hf.end_eq, ← hend] at hshift
  refine hshift.map fun d'' ⟨hb, he, hlen', hview⟩ => ?_
  rw [hb, he, hlen']
  exact ⟨hf.begin_lt, hroom, rfl, by rw [Nat.mod_add_mod, Nat.add_assoc], hend, hview⟩

/-- Filling a hole in the middle of the elements inserts there. -/
theorem of_hole {d' : CircularDeque α} (ys : List α) (hb : d'.begin_ < d'.buffer.length)
    (hroom : xs.length + ys.length < d'.buffer.length) (hk : k ≤ xs.length)
    (hend : d'.end_ = (d'.begin_ + (xs.length + ys.length)) % d'.buffer.length)
    (hview : View d'.buffer d'.begin_ fun m =>
      if k ≤ m ∧ m < k + ys.length then ys[m - k]? else hole xs k ys.length m) :
    d'.Filled (xs.take k ++ ys ++ xs.drop k) := by
  have hlength : (xs.take k ++ ys ++ xs.drop k).length = xs.length + ys.length := by
    simp only [List.length_append, List.length_take, List.length_drop]
    omega
  refine ⟨hb, by omega, by rw [hlength]; exact hend, hview.congr fun m _ => hole_fill hk ys m⟩

theorem hole_eq_none {m : Nat} (hm : k ≤ m) (hm' : m < k + n) : hole xs k n m = none := by
  rw [hole, if_neg (by omega), if_pos hm']

/-- `MakeRoomFor` and the copying loop, the two halves of an insertion in the middle. The
items on offer begin with the ones the hole takes. -/
theorem makeRoomFor_fill (h : d.Filled xs) (hk : k ≤ xs.length) {ys : List α} (hne : ys ≠ [])
    (items : CircularDeque α → List α)
    (hitems : ∀ d', ys.length < d'.buffer.length → ys <+: items d') :
    Returns ((d.makeRoomFor ys.length ((d.begin_ + k) % d.buffer.length)).bind
      fun (d', insertCur, insertEnd) => d'.fill insertCur insertEnd (items d')) fun d' =>
        d'.Filled (xs.take k ++ ys ++ xs.drop k) := by
  refine (h.makeRoomFor hk (List.length_pos_iff.2 hne)).bind ?_
  rintro ⟨d', i, j⟩ ⟨hb, hroom, rfl, rfl, hend, hview⟩
  obtain ⟨rest, hrest⟩ := hitems d' (by omega)
  dsimp only
  rw [← hrest]
  refine (fill_view hb (by omega) hview fun m hm hm' => hole_eq_none hm hm').imp ?_
  rintro d'' ⟨hb', hend', hlen', hview'⟩
  refine of_hole ys ?_ ?_ hk ?_ ?_
  · rw [hb', hlen']
    exact hb
  · rw [hlen']
    exact hroom
  · rw [hb', hlen', hend', hend]
  · rw [hb']
    exact hview'

/-- The cells in front of the elements are a hole. -/
theorem view_before (h : d.Filled xs) (hroom : xs.length + n < d.buffer.length) :
    View d.buffer ((d.begin_ + (d.buffer.length - n)) % d.buffer.length) (hole xs 0 n) := by
  refine (h.view.rotate _).congr fun m hm => ?_
  rw [hole, if_neg (Nat.not_lt_zero m), CircularIndex.mod_of_lt_two_mul (by omega)]
  by_cases hin : m < 0 + n
  · rw [if_pos hin, if_pos (by omega), List.getElem?_eq_none (by omega)]
  · rw [if_neg hin, if_neg (by omega)]
    congr 1
    omega

/-- The copying loop over the cells in front of the elements. It ends where they began. -/
theorem fill_before (h : d.Filled xs) {ys : List α}
    (hroom : xs.length + ys.length < d.buffer.length) :
    Returns (fill
      { d with begin_ := (d.begin_ + (d.buffer.length - ys.length)) % d.buffer.length }
      ((d.begin_ + (d.buffer.length - ys.length)) % d.buffer.length) d.begin_ ys) fun d' =>
        d'.Filled (ys ++ xs) := by
  have hview := h.view_before hroom
  have hshift := fun m => CircularIndex.sub_add_mod (a := d.begin_)
    (by omega : ys.length ≤ d.buffer.length) m
  have hlt : (d.begin_ + (d.buffer.length - ys.length)) % d.buffer.length < d.buffer.length :=
    Nat.mod_lt _ (by omega)
  generalize (d.begin_ + (d.buffer.length - ys.length)) % d.buffer.length = s at hview hshift hlt ⊢
  have hfill := @fill_view α { d with begin_ := s } (hole xs 0 ys.length) 0 ys [] hlt
    (by dsimp only; omega) hview fun m hm hm' => hole_eq_none hm hm'
  have hbegin : (s + (0 + ys.length)) % d.buffer.length = d.begin_ := by
    rw [Nat.zero_add, ← Nat.add_zero ys.length, hshift 0, Nat.add_zero,
      Nat.mod_eq_of_lt h.begin_lt]
  dsimp only at hfill
  rw [hbegin, Nat.add_zero, Nat.mod_eq_of_lt hlt, List.append_nil] at hfill
  refine hfill.imp ?_
  rintro d' ⟨hb', hend', hlen', hview'⟩
  have hfilled : d'.Filled (xs.take 0 ++ ys ++ xs.drop 0) := by
    refine of_hole ys ?_ ?_ (Nat.zero_le _) ?_ ?_
    · rw [hb', hlen']
      exact hlt
    · rw [hlen']
      exact hroom
    · rw [hb', hlen', hend', h.end_eq, Nat.add_comm xs.length, hshift]
    · rw [hb']
      exact hview'
  simpa using hfilled

theorem length_take_append_drop (h : d.Filled xs) (hkn : k ≤ n) (hn : n ≤ xs.length) :
    (xs.take k ++ xs.drop n).length = xs.length - (n - k) ∧
      (xs.take k ++ xs.drop n).length + (n - k) < d.buffer.length := by
  have := h.length_lt
  rw [List.length_append, List.length_take, List.length_drop]
  omega

/-- Where the first elements are gone, those that stay are where they were. -/
theorem dropFront (h : d.Filled xs) (hn : n ≤ xs.length) {b' : List (Option α)}
    (hlength : b'.length = d.buffer.length) (hview : View b' d.begin_ (hole (xs.drop n) 0 n)) :
    (⟨b', (d.begin_ + n) % d.buffer.length, d.end_⟩ : CircularDeque α).Filled (xs.drop n) := by
  have hb := h.begin_lt
  have hlen := h.length_lt
  refine ⟨?_, ?_, ?_, ?_⟩
  · dsimp only
    rw [hlength]
    exact Nat.mod_lt _ (by omega)
  · rw [List.length_drop]
    dsimp only
    omega
  · dsimp only
    rw [hlength, List.length_drop, Nat.mod_add_mod, h.end_eq]
    congr 1
    omega
  · have hrot := hview.rotate n
    rw [hlength] at hrot
    refine hrot.congr fun m hm => ?_
    rw [hole, if_neg (Nat.not_lt_zero _), CircularIndex.mod_of_lt_two_mul (by omega)]
    by_cases hwrap : n + m < d.buffer.length
    · rw [if_pos hwrap, if_neg (by omega), Nat.add_sub_cancel_left]
    · rw [if_neg hwrap, if_pos (by omega), List.getElem?_eq_none (by rw [List.length_drop]; omega)]

/-- The loop of `erase` closes the hole. -/
theorem closeHole (h : d.Filled xs) (hkn : k < n) (hn : n ≤ xs.length) {b' : List (Option α)}
    (hlength : b'.length = d.buffer.length)
    (hview : View b' d.begin_ (hole (xs.take k ++ xs.drop n) k (n - k))) :
    Returns (shiftLeft d.buffer.length { d with buffer := b' }
      ((d.begin_ + n) % d.buffer.length) d.end_ ((d.begin_ + k) % d.buffer.length))
      fun (d', moveDest) => ({ d' with end_ := moveDest } : CircularDeque α).Filled
        (xs.take k ++ xs.drop n) ∧ d'.begin_ = d.begin_ ∧ d'.buffer.length = d.buffer.length := by
  obtain ⟨hleft, hroom⟩ := h.length_take_append_drop hkn.le hn
  have hshift := @shiftLeft_view α { d with buffer := b' } (n - k) k (xs.take k ++ xs.drop n)
    d.buffer.length (by rw [hlength]; exact h.begin_lt) (by omega) (by rw [hlength]; exact hroom)
    (by omega) (by omega) hview
  dsimp only at hshift
  rw [hlength, Nat.add_sub_cancel' hkn.le, show (xs.take k ++ xs.drop n).length + (n - k) =
    xs.length by omega, ← h.end_eq] at hshift
  refine hshift.imp ?_
  rintro ⟨d', moveDest⟩ ⟨hb', hlength', rfl, hview'⟩
  dsimp only at hb' hlength' hview' ⊢
  refine ⟨⟨?_, ?_, ?_, ?_⟩, hb', hlength'⟩
  · dsimp only
    rw [hb', hlength']
    exact h.begin_lt
  · dsimp only
    omega
  · dsimp only
    rw [hb', hlength']
  · dsimp only
    rw [hb']
    exact hview'

end Filled

namespace Holds

theorem emplaceFront (h : d.Holds xs) (t : α) :
    Returns (d.emplaceFront t) fun d' => d'.Filled (t :: xs) := by
  refine (h.expand_pos Nat.zero_lt_one).bind fun d' ⟨hf, hroom⟩ => ?_
  exact (hf.constructFront hroom t).map fun b' hb' => hb'

theorem emplaceBack (h : d.Holds xs) (t : α) :
    Returns (d.emplaceBack t) fun d' => d'.Filled (xs ++ [t]) := by
  refine (h.expand_pos Nat.zero_lt_one).bind fun d' ⟨hf, hroom⟩ => ?_
  exact (hf.constructBack hroom t).map fun b' hb' => hb'

/-- `pop_front` destroys the object at `begin_` and moves the origin past it. -/
theorem popFront (h : d.Holds (x :: xs)) : Returns d.popFront fun d' => d'.Holds xs := by
  have hf := h.filled_of_ne_nil (by simp)
  have hb := hf.begin_lt
  have hlen := hf.length_lt
  rw [List.length_cons] at hlen
  have hcell : d.buffer[d.begin_]? = some (some x) := by
    have := hf.live (k := 0) (by simp)
    rwa [Nat.add_zero, Nat.mod_eq_of_lt hb] at this
  have hnext : (if d.begin_ + 1 = d.buffer.length then 0 else d.begin_ + 1) =
      (d.begin_ + 1) % d.buffer.length := (CircularIndex.succ_mod hb).symm
  rw [CircularDeque.popFront, VectorBuffer.destructRange, Nat.add_sub_cancel_left]
  simp only [VectorBuffer.destructCells, VectorBuffer.destruct_eq hcell, Option.bind_some, hnext]
  refine Holds.shrinkCapacityIfNecessary (Or.inr ⟨?_, ?_, ?_, ?_⟩)
  · simpa using Nat.mod_lt _ (by omega)
  · simp only [List.length_set]
    omega
  · simp only [List.length_set, Nat.mod_add_mod]
    rw [hf.end_eq, List.length_cons, Nat.add_assoc, Nat.add_comm 1 xs.length]
  · have hset := hf.view.set (k := 0) (by omega) none
    rw [Nat.add_zero, Nat.mod_eq_of_lt hb] at hset
    have hrot := hset.rotate 1
    rw [List.length_set] at hrot
    refine hrot.congr fun k hk => ?_
    rw [List.length_set] at hk
    by_cases hlast : 1 + k = d.buffer.length
    · rw [hlast, Nat.mod_self, Function.update_self, List.getElem?_eq_none (by omega)]
    · rw [Nat.mod_eq_of_lt (by omega), Function.update_of_ne (by omega), Nat.add_comm 1 k,
        List.getElem?_cons_succ]

/-- `pop_back` moves `end_` back and destroys the object there. -/
theorem popBack (h : d.Holds (xs ++ [t])) : Returns d.popBack fun d' => d'.Holds xs := by
  have hf := h.filled_of_ne_nil (by simp)
  have hb := hf.begin_lt
  have hlen := hf.length_lt
  have hend := hf.end_eq
  rw [List.length_append, List.length_singleton] at hlen hend
  have hprev : (if d.end_ = 0 then d.buffer.length - 1 else d.end_ - 1) =
      (d.begin_ + xs.length) % d.buffer.length := by
    rw [hend, ← decrement_index hb xs.length, decrement]
  have hcell := hf.live (k := xs.length) (by simp)
  rw [CircularDeque.popBack]
  simp only [hprev, VectorBuffer.destructRange, Nat.add_sub_cancel_left,
    VectorBuffer.destructCells, VectorBuffer.destruct_eq hcell, Option.bind_some]
  refine Holds.shrinkCapacityIfNecessary (Or.inr ⟨?_, ?_, ?_, ?_⟩)
  · simpa using hb
  · simp only [List.length_set]
    omega
  · simp
  · refine (hf.view.set (by omega) none).congr fun k _ => ?_
    by_cases hlast : k = xs.length
    · subst hlast
      rw [Function.update_self, List.getElem?_eq_none (Nat.le_refl _)]
    · rw [Function.update_of_ne hlast]
      rcases Nat.lt_or_gt_of_ne hlast with hlt | hgt
      · rw [List.getElem?_append_left hlt]
      · rw [List.getElem?_eq_none (by simp; omega), List.getElem?_eq_none (by omega)]

theorem emplaceBackAll (h : d.Holds xs) (ts : List α) :
    Returns (d.emplaceBackAll ts) fun d' => d'.Holds (xs ++ ts) := by
  induction ts generalizing d xs with
  | nil => exact returns_some (by rwa [List.append_nil])
  | cons t ts ih =>
    refine (h.emplaceBack t).bind fun d' hd' => ?_
    rw [List.append_cons]
    exact ih hd'.holds

theorem pushFrontTimes (h : d.Holds xs) (n : Nat) (t : α) :
    Returns (d.pushFrontTimes n t) fun d' => d'.Holds (List.replicate n t ++ xs) := by
  induction n generalizing d xs with
  | zero => exact returns_some h
  | succ n ih =>
    refine (h.emplaceFront t).bind fun d' hd' => ?_
    rw [List.replicate_succ', List.append_assoc, List.singleton_append]
    exact ih hd'.holds

theorem growTo (h : d.Holds xs) {count fuel : Nat} (hfuel : count ≤ xs.length + fuel) (t : α) :
    Returns (d.growTo fuel count t) fun d' =>
      d'.Holds (xs ++ List.replicate (count - xs.length) t) := by
  induction fuel generalizing d xs with
  | zero =>
    rw [CircularDeque.growTo, h.size_eq, if_neg (by omega), Nat.sub_eq_zero_of_le (by omega)]
    exact returns_some (by simpa using h)
  | succ fuel ih =>
    rw [CircularDeque.growTo, h.size_eq]
    split
    · next hlt =>
      refine (h.emplaceBack t).bind fun d' hd' => ?_
      have := ih hd'.holds (by simp; omega)
      rwa [List.append_assoc, List.length_append, List.length_singleton, List.singleton_append,
        ← List.replicate_succ, show count - (xs.length + 1) + 1 = count - xs.length by omega]
        at this
    · rw [Nat.sub_eq_zero_of_le (by omega)]
      exact returns_some (by simpa using h)

/-- `resize` cuts the list off or pads it. -/
theorem resize (h : d.Holds xs) (count : Nat) (t : α) :
    Returns (d.resize count t) fun d' =>
      d'.Holds (xs.take count ++ List.replicate (count - xs.length) t) := by
  rw [CircularDeque.resize, h.size_eq]
  split
  · next hgrow =>
    refine (h.expandCapacityIfNecessary _).bind fun d' hd' => ?_
    rw [List.take_of_length_le (by omega)]
    exact hd'.1.growTo (by omega) t
  · rw [Nat.sub_eq_zero_of_le (by omega), List.replicate_zero, List.append_nil]
    split
    · next hcut =>
      have hf := h.filled_of_ne_nil (by rintro rfl; simp at hcut)
      have hlen := hf.length_lt
      have htake : (xs.take count).length = count := by rw [List.length_take]; omega
      have hcutView := destructRange_view hf.view hf.begin_lt hcut.le hlen
        fun k _ hk => ⟨_, List.getElem?_eq_getElem hk⟩
      rw [← hf.end_eq] at hcutView
      refine hcutView.bind fun b' hb' => ?_
      refine Holds.shrinkCapacityIfNecessary (Or.inr ⟨?_, ?_, ?_, ?_⟩)
      · dsimp only
        rw [hb'.1]
        exact hf.begin_lt
      · dsimp only
        omega
      · dsimp only
        rw [htake, hb'.1]
      · refine hb'.2.congr fun k _ => ?_
        by_cases hk : k < count
        · rw [if_neg (by omega), List.getElem?_take_of_lt hk]
        · rw [List.getElem?_eq_none (by omega : (xs.take count).length ≤ k)]
          by_cases hkx : k < xs.length
          · rw [if_pos (by omega)]
          · rw [if_neg (by omega), List.getElem?_eq_none (by omega)]
    · rw [List.take_of_length_le (by omega)]
      exact returns_some h

/-- The iterator `begin() + k`, for a deque with a buffer. -/
theorem add_begin_of_ne (h : d.Holds xs) (hk : k ≤ xs.length)
    (hne : d.add d.begin_ k ≠ d.begin_) :
    d.Filled xs ∧ d.add d.begin_ k = (d.begin_ + k) % d.buffer.length := by
  rcases h with ⟨-, -, rfl⟩ | h
  · obtain rfl : k = 0 := by simpa using hk
    exact absurd (by simp [add]) hne
  · exact ⟨h, h.add_begin k⟩

/-- Only `begin() + 0` is `begin()`. -/
theorem add_begin_eq_begin (h : d.Holds xs) (hk : k ≤ xs.length)
    (heq : d.add d.begin_ k = d.begin_) : k = 0 := by
  rcases h with ⟨-, -, rfl⟩ | h
  · simpa using hk
  · rw [h.add_begin] at heq
    exact (h.index_eq_begin_iff hk).1 heq

/-- `insert(begin() + k, n, t)`. -/
theorem insertCount (h : d.Holds xs) (hk : k ≤ xs.length) (n : Nat) (t : α) :
    Returns (d.insertCount (d.add d.begin_ k) n t) fun d' =>
      d'.Holds (xs.take k ++ List.replicate n t ++ xs.drop k) := by
  rw [CircularDeque.insertCount]
  split
  · next hbegin =>
    obtain rfl := h.add_begin_eq_begin hk hbegin
    refine (h.expandCapacityIfNecessary n).bind fun d' hd' => ?_
    simpa using hd'.1.pushFrontTimes n t
  · next hne =>
    obtain ⟨hf, hpos⟩ := h.add_begin_of_ne hk hne
    rw [hpos]
    rcases Nat.eq_zero_or_pos n with rfl | hn
    · rw [makeRoomFor, if_pos rfl, Option.bind_some]
      dsimp only
      rw [fill_self]
      exact returns_some (by simpa using h)
    · have hne : List.replicate n t ≠ [] := by
        simp
        omega
      have hins := hf.makeRoomFor_fill hk hne (fun d' => List.replicate d'.buffer.length t) (by
          intro d' hd'
          rw [List.length_replicate] at hd'
          exact ⟨List.replicate (d'.buffer.length - n) t, by
            rw [List.replicate_append_replicate, Nat.add_sub_cancel' hd'.le]⟩)
      rw [List.length_replicate] at hins
      exact hins.imp fun d' hd' => hd'.holds

/-- `insert(begin() + k, first, last)` puts in what the second pass over the range reads. -/
theorem insertRange (h : d.Holds xs) (hk : k ≤ xs.length) (range : InputRange α) :
    Returns (d.insertRange (d.add d.begin_ k) range) fun d' =>
      d'.Holds (xs.take k ++ range.again ++ xs.drop k) := by
  rw [CircularDeque.insertRange, ← range.length_again]
  generalize range.again = ys
  dsimp only
  split
  · next hnil =>
    obtain rfl := List.length_eq_zero_iff.1 hnil
    exact returns_some (by simpa using h)
  · next hlen =>
    split
    · next hbegin =>
      obtain rfl := h.add_begin_eq_begin hk hbegin
      refine (h.expand_pos (by omega)).bind ?_
      rintro d' ⟨hf, hroom⟩
      rw [Nat.add_sub_assoc (by omega)]
      exact (hf.fill_before (by omega)).imp fun d'' hd'' => hd''.holds
    · next hne =>
      obtain ⟨hf, hpos⟩ := h.add_begin_of_ne hk hne
      rw [hpos]
      have hys : ys ≠ [] := by
        rintro rfl
        exact hlen rfl
      have hins := hf.makeRoomFor_fill hk hys (fun _ => ys) fun d' _ => List.prefix_rfl
      exact hins.imp fun d' hd' => hd'.holds

/-- `emplace(begin() + k, t)` returns the iterator to the new element. -/
theorem emplace (h : d.Holds xs) (hk : k ≤ xs.length) (t : α) :
    Returns (d.emplace (d.add d.begin_ k) t) fun (d', it) =>
      d'.Filled (xs.take k ++ [t] ++ xs.drop k) ∧ it = (d'.begin_ + k) % d'.buffer.length := by
  rw [CircularDeque.emplace]
  split
  · next hbegin =>
    obtain rfl := h.add_begin_eq_begin hk hbegin
    exact (h.emplaceFront t).map fun d' hd' => ⟨by simpa using hd', hd'.begin_eq⟩
  · next hne =>
    obtain ⟨hf, hpos⟩ := h.add_begin_of_ne hk hne
    rw [hpos]
    refine (hf.makeRoomFor hk Nat.zero_lt_one).bind ?_
    rintro ⟨d', i, j⟩ ⟨hb, hroom, rfl, -, hend, hview⟩
    have hcell : d'.buffer[(d'.begin_ + k) % d'.buffer.length]? = some none := by
      rw [hview k (by omega), Filled.hole_eq_none (Nat.le_refl k) (by omega)]
    dsimp only
    rw [VectorBuffer.construct_eq hcell]
    refine returns_some ⟨?_, by simp⟩
    refine Filled.of_hole [t] ?_ ?_ hk ?_ ?_
    · simpa using hb
    · simpa using hroom
    · simpa using hend
    · refine (hview.set (by omega) (some t)).congr fun m _ => ?_
      by_cases hm : m = k
      · subst hm
        rw [Function.update_self, if_pos (by simp), Nat.sub_self]
        rfl
      · rw [Function.update_of_ne hm, if_neg (by rw [List.length_singleton]; omega)]
        rfl

/-- `erase(begin() + k, begin() + n)` returns the iterator to the element after the gap. -/
theorem eraseRange (h : d.Holds xs) (hkn : k ≤ n) (hn : n ≤ xs.length) :
    Returns (d.eraseRange (d.add d.begin_ k) (d.add d.begin_ n)) fun (d', it) =>
      d'.Holds (xs.take k ++ xs.drop n) ∧ it = d'.add d'.begin_ k := by
  rw [CircularDeque.eraseRange]
  split
  · next heq =>
    obtain rfl : k = n := by
      rcases h with ⟨-, -, rfl⟩ | hf
      · rw [List.length_nil] at hn
        omega
      · have := hf.length_lt
        rw [hf.add_begin, hf.add_begin] at heq
        exact add_mod_inj (by omega) (by omega) heq
    exact returns_some ⟨by simpa using h, rfl⟩
  · next hne =>
    have hlt : k < n := by
      by_contra hge
      obtain rfl : k = n := by omega
      exact hne rfl
    have hf := h.filled_of_ne_nil (by rintro rfl; rw [List.length_nil] at hn; omega)
    have hlen := hf.length_lt
    rw [hf.add_begin, hf.add_begin]
    refine (destructRange_view hf.view hf.begin_lt hkn (by omega)
      fun m _ hm => ⟨_, List.getElem?_eq_getElem (by omega)⟩).bind fun b' hb' => ?_
    have hview := hb'.2.congr fun m _ => hole_erase hkn hn m
    split
    · next hbegin =>
      obtain rfl := (hf.index_eq_begin_iff (by omega)).1 hbegin
      have hfilled := hf.dropFront hn hb'.1 (by simpa using hview)
      exact returns_some ⟨by simpa using hfilled.holds, by simp [add]⟩
    · refine (hf.closeHole hlt hn hb'.1 hview).map ?_
      rintro ⟨d', moveDest⟩ ⟨hfilled, hbegin, hlength⟩
      refine ⟨hfilled.holds, ?_⟩
      have hadd := hfilled.add_begin k
      rw [hadd]
      dsimp only
      rw [hbegin, hlength]

end Holds

end Sparo.Base.CircularDeque
