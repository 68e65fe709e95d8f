import Sparo.Base.Containers.CircularDeque
import Sparo.Misc.CircularView
import Sparo.Misc.Refinement

/-!
# The cells of a circular deque

What the primitives and the loops of `circular_deque` do to the buffer, seen from `begin_`:
an index `(begin_ + k) % capacity` is the cell at distance `k`. Each lemma says that the
computation returns, so no object is lost, read from raw storage or destroyed twice, and
gives the view afterwards.
-/

namespace Sparo.Base

open CircularView Partial

variable {α : Type}

namespace VectorBuffer

variable {b source target : List (Option α)} {s k n i p : Nat} {f g : Nat → Option α} {t : α}

theorem construct_eq (h : b[i]? = some none) (t : α) :
    construct b i t = some (b.set i (some t)) := by
  simp only [construct, h]

theorem destruct_eq (h : b[i]? = some (some t)) : destruct b i = some (b.set i none) := by
  simp only [destruct, h]

/-- An object moved from distance `n` to distance `k`, where there is none. -/
theorem moveOne_view (h : View b s f) (hk : k < b.length) (hn : n < b.length) (hfk : f k = none)
    (hfn : f n = some t) :
    Returns (moveOne b ((s + n) % b.length) ((s + k) % b.length)) fun b' =>
      b'.length = b.length ∧ View b' s (Function.update (Function.update f k (some t)) n none) := by
  have hsrc : b[(s + n) % b.length]? = some (some t) := by rw [h n hn, hfn]
  have hdest : b[(s + k) % b.length]? = some none := by rw [h k hk, hfk]
  have hview := h.set hk (some t)
  have hne : n ≠ k := by
    intro heq
    rw [heq, hfk] at hfn
    cases hfn
  have hread : (b.set ((s + k) % b.length) (some t))[(s + n) % b.length]? = some (some t) := by
    rw [List.getElem?_set_ne (fun heq => hne (add_mod_inj hn hk heq.symm)), hsrc]
  refine ⟨(b.set ((s + k) % b.length) (some t)).set ((s + n) % b.length) none, ?_, ?_, ?_⟩
  · simp only [moveOne, hsrc, construct_eq hdest, Option.bind_some, destruct_eq hread]
  · simp
  · have := hview.set (k := n) (by simpa using hn) none
    simpa using this

/-- A run of living objects destroyed one after the other, from distance `p` on. The run does not go
around the end. -/
theorem destructCells_view (n : Nat) (h : View b s f) (hp : p + n ≤ b.length)
    (hi : 0 < n → i = (s + p) % b.length) (hfit : i + n ≤ b.length)
    (hlive : ∀ k, p ≤ k → k < p + n → ∃ t, f k = some t) :
    Returns (destructCells n b i) fun b' => b'.length = b.length ∧
      View b' s fun k => if p ≤ k ∧ k < p + n then none else f k := by
  induction n generalizing b f i p with
  | zero =>
    refine returns_some ⟨rfl, h.congr fun k _ => ?_⟩
    rw [if_neg (by omega)]
  | succ n ih =>
    obtain rfl := hi (Nat.succ_pos n)
    obtain ⟨t, ht⟩ := hlive p (Nat.le_refl p) (by omega)
    have hcell : b[(s + p) % b.length]? = some (some t) := by rw [h p (by omega), ht]
    have hlength : (b.set ((s + p) % b.length) none).length = b.length := List.length_set
    have hnext : 0 < n →
        (s + p) % b.length + 1 = (s + (p + 1)) % (b.set ((s + p) % b.length) none).length := by
      intro hn
      rw [hlength, ← Nat.add_assoc]
      exact CircularIndex.mod_add_one_of_lt (by omega)
    have hrest : ∀ k, p + 1 ≤ k → k < p + 1 + n → ∃ t, Function.update f p none k = some t := by
      intro k hk hkn
      rw [Function.update_of_ne (by omega)]
      exact hlive k (by omega) (by omega)
    rw [destructCells, destruct_eq hcell, Option.bind_some]
    refine (ih (h.set (by omega) none) (by omega) hnext (by omega) hrest).imp fun b' hb' =>
      ⟨hb'.1.trans hlength, hb'.2.congr fun k _ => ?_⟩
    by_cases hk : k = p
    · subst hk
      rw [if_neg (by omega), if_pos (by omega), Function.update_self]
    · rw [Function.update_of_ne hk]
      exact if_congr (by omega) rfl rfl

/-- A run of living objects, from distance `p` on, moved to raw cells at the same distances from the
start of another buffer. -/
theorem moveCells_view (n : Nat) (h : View source s f) (hp : p + n ≤ source.length)
    (hi : 0 < n → i = (s + p) % source.length) (hfit : i + n ≤ source.length)
    (htarget : View target 0 g) (hroom : p + n ≤ target.length)
    (hlive : ∀ k, p ≤ k → k < p + n → ∃ t, f k = some t)
    (hraw : ∀ k, p ≤ k → k < p + n → g k = none) :
    Returns (moveCells source n i target p) fun b' => b'.length = target.length ∧
      View b' 0 fun k => if p ≤ k ∧ k < p + n then f k else g k := by
  induction n generalizing target g i p with
  | zero =>
    refine returns_some ⟨rfl, htarget.congr fun k _ => ?_⟩
    rw [if_neg (by omega)]
  | succ n ih =>
    obtain rfl := hi (Nat.succ_pos n)
    obtain ⟨t, ht⟩ := hlive p (Nat.le_refl p) (by omega)
    have hcell : source[(s + p) % source.length]? = some (some t) := by rw [h p (by omega), ht]
    have hto : target[p]? = some none := by
      rw [view_zero.1 htarget p (by omega), hraw p (Nat.le_refl p) (by omega)]
    have hlength : (target.set p (some t)).length = target.length := List.length_set
    have hset := htarget.set (k := p) (by omega) (some t)
    rw [Nat.zero_add, Nat.mod_eq_of_lt (by omega)] at hset
    have hnext : 0 < n → (s + p) % source.length + 1 = (s + (p + 1)) % source.length := by
      intro hn
      rw [← Nat.add_assoc]
      exact CircularIndex.mod_add_one_of_lt (by omega)
    have hrest : ∀ k, p + 1 ≤ k → k < p + 1 + n → Function.update g p (some t) k = none := by
      intro k hk hkn
      rw [Function.update_of_ne (by omega)]
      exact hraw k (by omega) (by omega)
    simp only [moveCells, hcell, construct_eq hto, Option.bind_some]
    refine (ih (by omega) hnext (by omega) hset (by omega) (fun k hk hkn => hlive k (by omega)
      (by omega)) hrest).imp fun b' hb' => ⟨hb'.1.trans hlength, hb'.2.congr fun k _ => ?_⟩
    by_cases hk : k = p
    · subst hk
      rw [if_neg (by omega), if_pos (by omega), Function.update_self, ht]
    · rw [Function.update_of_ne hk]
      exact if_congr (by omega) rfl rfl

end VectorBuffer

namespace CircularDeque

variable {d : CircularDeque α} {f : Nat → Option α} {k n p : Nat} {xs : List α} {t : α}

/-- The index at distance `k` from `begin_`, where `k` is at most one revolution. -/
theorem index_eq (hb : d.begin_ < d.buffer.length) (hk : k ≤ d.buffer.length) :
    (d.begin_ + k) % d.buffer.length =
      if d.begin_ + k < d.buffer.length then d.begin_ + k
      else d.begin_ + k - d.buffer.length :=
  CircularIndex.mod_of_lt_two_mul (by omega)

theorem offsetFromBegin_index (hb : d.begin_ < d.buffer.length) (hk : k < d.buffer.length) :
    d.offsetFromBegin ((d.begin_ + k) % d.buffer.length) = k := by
  rw [index_eq hb hk.le, offsetFromBegin]
  split <;> split <;> omega

theorem increment_index (hb : d.begin_ < d.buffer.length) (k : Nat) :
    d.increment ((d.begin_ + k) % d.buffer.length) = (d.begin_ + (k + 1)) % d.buffer.length := by
  have hlt : (d.begin_ + k) % d.buffer.length < d.buffer.length := Nat.mod_lt _ (by omega)
  rw [increment, ← CircularIndex.succ_mod hlt, Nat.mod_add_mod, Nat.add_assoc]

theorem decrement_index (hb : d.begin_ < d.buffer.length) (k : Nat) :
    d.decrement ((d.begin_ + (k + 1)) % d.buffer.length) = (d.begin_ + k) % d.buffer.length := by
  have hlt : (d.begin_ + k) % d.buffer.length < d.buffer.length := Nat.mod_lt _ (by omega)
  rw [← increment_index hb k, increment, decrement]
  split
  · rw [if_pos rfl]
    omega
  · rw [if_neg (by omega), Nat.add_sub_cancel]

theorem add_index (hb : d.begin_ < d.buffer.length) (hk : k < d.buffer.length) (n : Nat) :
    d.add ((d.begin_ + k) % d.buffer.length) n = (d.begin_ + (k + n)) % d.buffer.length := by
  rw [add, offsetFromBegin_index hb hk]
  split
  · next hzero =>
    obtain rfl : n = 0 := by exact_mod_cast hzero
    rfl
  · have hcast : ((k : Int) + n + d.begin_) % d.buffer.length =
        ((d.begin_ + (k + n)) % d.buffer.length : Nat) := by
      push_cast
      congr 1
      ring
    rw [hcast, Int.toNat_natCast]

/-- `DestructRange` from distance `p` up to distance `n` destroys just these objects. -/
theorem destructRange_view (h : View d.buffer d.begin_ f) (hb : d.begin_ < d.buffer.length)
    (hpn : p ≤ n) (hn : n < d.buffer.length) (hlive : ∀ k, p ≤ k → k < n → ∃ t, f k = some t) :
    Returns (d.destructRange ((d.begin_ + p) % d.buffer.length)
      ((d.begin_ + n) % d.buffer.length)) fun b' => b'.length = d.buffer.length ∧
        View b' d.begin_ fun k => if p ≤ k ∧ k < n then none else f k := by
  have hip := index_eq hb (k := p) (by omega)
  have hin := index_eq hb (k := n) hn.le
  have hlt : (d.begin_ + n) % d.buffer.length < d.buffer.length := Nat.mod_lt _ (by omega)
  rw [destructRange]
  rcases Nat.lt_trichotomy ((d.begin_ + n) % d.buffer.length)
    ((d.begin_ + p) % d.buffer.length) with hwraps | heq | hgt
  · -- The range wraps around: up to the end of the buffer, then from its first cell on.
    obtain ⟨hend, hfirst, hlast⟩ : d.begin_ + p < d.buffer.length ∧
        (d.begin_ + p) % d.buffer.length = d.begin_ + p ∧
        (d.begin_ + n) % d.buffer.length + d.buffer.length = d.begin_ + n := by
      split at hip <;> split at hin <;> omega
    rw [if_neg (by omega), if_neg (by omega), VectorBuffer.destructRange]
    refine (VectorBuffer.destructCells_view _ h (by omega) (fun _ => rfl) (by omega)
      fun k hk hkn => hlive k hk (by omega)).bind fun b' hb' => ?_
    have hlength := hb'.1
    refine (VectorBuffer.destructCells_view (p := d.buffer.length - d.begin_) _ hb'.2 (by omega)
      (fun _ => ?_) (by omega) fun k hk hkn => ?_).imp fun b'' hb'' =>
        ⟨hb''.1.trans hlength, hb''.2.congr fun k hk => ?_⟩
    · rw [hlength, Nat.add_sub_cancel' hb.le, Nat.mod_self]
    · rw [if_neg (by omega)]
      exact hlive k (by omega) (by omega)
    · split_ifs <;> first | rfl | omega
  · have hpeq : p = n := add_mod_inj (by omega) hn heq.symm
    rw [if_pos heq]
    refine returns_some ⟨rfl, h.congr fun k hk => ?_⟩
    rw [if_neg (by omega)]
  · have hrun : p + ((d.begin_ + n) % d.buffer.length - (d.begin_ + p) % d.buffer.length) = n := by
      split at hip <;> split at hin <;> omega
    rw [if_neg (by omega), if_pos hgt, VectorBuffer.destructRange]
    have hrange := VectorBuffer.destructCells_view
      ((d.begin_ + n) % d.buffer.length - (d.begin_ + p) % d.buffer.length) h (by omega)
      (fun _ => rfl) (by omega) fun k hk hkn => hlive k hk (by omega)
    rwa [hrun] at hrange

/-- The loop of `MakeRoomFor` moves the hole from distance `p` down to distance `k`. -/
theorem shiftRight_view {fuel : Nat} (hb : d.begin_ < d.buffer.length) (hn : 0 < n)
    (hroom : xs.length + n < d.buffer.length) (hp : p ≤ xs.length) (hkp : k ≤ p)
    (hfuel : p - k ≤ fuel) (h : View d.buffer d.begin_ (hole xs p n)) :
    Returns (shiftRight fuel d ((d.begin_ + k) % d.buffer.length)
      ((d.begin_ + p) % d.buffer.length) ((d.begin_ + (p + n)) % d.buffer.length)) fun d' =>
        d'.begin_ = d.begin_ ∧ d'.end_ = d.end_ ∧ d'.buffer.length = d.buffer.length ∧
        View d'.buffer d.begin_ (hole xs k n) := by
  induction fuel generalizing d p with
  | zero =>
    obtain rfl : k = p := by omega
    rw [shiftRight, if_pos rfl]
    exact returns_some ⟨rfl, rfl, rfl, h⟩
  | succ fuel ih =>
    by_cases heq : k = p
    · subst heq
      rw [shiftRight, if_pos rfl]
      exact returns_some ⟨rfl, rfl, rfl, h⟩
    · obtain ⟨q, rfl⟩ : ∃ q, p = q + 1 := ⟨p - 1, by omega⟩
      have hne : (d.begin_ + (q + 1)) % d.buffer.length ≠ (d.begin_ + k) % d.buffer.length :=
        fun hc => heq (add_mod_inj (by omega) (by omega) hc).symm
      rw [shiftRight, if_neg hne, decrement_index hb, Nat.add_right_comm q 1 n,
        decrement_index hb]
      have hsrc : hole xs (q + 1) n q = some xs[q] := by
        rw [hole, if_pos (by omega), List.getElem?_eq_getElem]
      have hdest : hole xs (q + 1) n (q + n) = none := by
        rw [hole, if_neg (by omega), if_pos (by omega)]
      refine (VectorBuffer.moveOne_view h (by omega) (by omega) hdest hsrc).bind fun b' hb' => ?_
      rw [← List.getElem?_eq_getElem, update_hole_left hn] at hb'
      have := @ih { d with buffer := b' } q (by rw [hb'.1]; exact hb) (by rw [hb'.1]; exact hroom)
        (by omega) (by omega) (by omega) hb'.2
      rw [hb'.1] at this
      exact this

/-- The loop of `erase` moves the hole from distance `p` up to the end of the elements. -/
theorem shiftLeft_view {fuel : Nat} (hb : d.begin_ < d.buffer.length) (hn : 0 < n)
    (hroom : xs.length + n < d.buffer.length) (hp : p ≤ xs.length)
    (hfuel : xs.length - p ≤ fuel) (h : View d.buffer d.begin_ (hole xs p n)) :
    Returns (shiftLeft fuel d ((d.begin_ + (p + n)) % d.buffer.length)
      ((d.begin_ + (xs.length + n)) % d.buffer.length) ((d.begin_ + p) % d.buffer.length))
      fun r => r.1.begin_ = d.begin_ ∧ r.1.buffer.length = d.buffer.length ∧
        r.2 = (d.begin_ + xs.length) % d.buffer.length ∧
        View r.1.buffer d.begin_ fun k => xs[k]? := by
  induction fuel generalizing d p with
  | zero =>
    obtain rfl : p = xs.length := by omega
    rw [shiftLeft, if_neg (Nat.lt_irrefl _)]
    exact returns_some ⟨rfl, rfl, rfl, h.congr fun k _ => hole_length xs n k⟩
  | succ fuel ih =>
    rw [shiftLeft, offsetFromBegin_index hb (by omega), offsetFromBegin_index hb hroom]
    by_cases heq : p = xs.length
    · subst heq
      rw [if_neg (Nat.lt_irrefl _)]
      exact returns_some ⟨rfl, rfl, rfl, h.congr fun k _ => hole_length xs n k⟩
    · have hlt : p < xs.length := by omega
      rw [if_pos (by omega), increment_index hb, increment_index hb]
      have hsrc : hole xs p n (p + n) = some xs[p] := by
        rw [hole, if_neg (by omega), if_neg (by omega), Nat.add_sub_cancel,
          List.getElem?_eq_getElem]
      have hdest : hole xs p n p = none := by
        rw [hole, if_neg (by omega), if_pos (by omega)]
      refine (VectorBuffer.moveOne_view h (by omega) (by omega) hdest hsrc).bind fun b' hb' => ?_
      rw [← List.getElem?_eq_getElem, update_hole_right hn] at hb'
      have := @ih { d with buffer := b' } (p + 1) (by rw [hb'.1]; exact hb)
        (by rw [hb'.1]; exact hroom) (by omega) (by omega) hb'.2
      rw [hb'.1, Nat.add_right_comm p 1 n] at this
      exact this

theorem fill_self (d : CircularDeque α) (index : Nat) (items : List α) :
    d.fill index index items = some d := by
  cases items with
  | nil => rw [fill, if_neg (Nat.lt_irrefl _)]
  | cons t ts => rw [fill, if_neg (Nat.lt_irrefl _)]

/-- The copying loop of `insert` fills the cells from distance `p` on. -/
theorem fill_view {ts rest : List α} (hb : d.begin_ < d.buffer.length)
    (hlt : p + ts.length < d.buffer.length) (h : View d.buffer d.begin_ f)
    (hraw : ∀ k, p ≤ k → k < p + ts.length → f k = none) :
    Returns (d.fill ((d.begin_ + p) % d.buffer.length)
      ((d.begin_ + (p + ts.length)) % d.buffer.length) (ts ++ rest)) fun d' =>
        d'.begin_ = d.begin_ ∧ d'.end_ = d.end_ ∧ d'.buffer.length = d.buffer.length ∧
        View d'.buffer d.begin_ fun k =>
          if p ≤ k ∧ k < p + ts.length then ts[k - p]? else f k := by
  induction ts generalizing d p f with
  | nil =>
    rw [List.length_nil, Nat.add_zero, fill_self]
    refine returns_some ⟨rfl, rfl, rfl, h.congr fun k _ => ?_⟩
    rw [if_neg (by omega)]
  | cons t ts ih =>
    rw [List.length_cons] at hlt hraw ⊢
    rw [List.cons_append, fill, offsetFromBegin_index hb (by omega),
      offsetFromBegin_index hb hlt, if_pos (by omega)]
    have hcell : d.buffer[(d.begin_ + p) % d.buffer.length]? = some none := by
      rw [h p (by omega), hraw p (Nat.le_refl p) (by omega)]
    simp only [VectorBuffer.construct_eq hcell, Option.bind_some, increment_index hb]
    have hrest : ∀ k, p + 1 ≤ k → k < p + 1 + ts.length →
        Function.update f p (some t) k = none := by
      intro k hk hk'
      rw [Function.update_of_ne (by omega)]
      exact hraw k (by omega) (by omega)
    have hfill := @ih { d with buffer := d.buffer.set ((d.begin_ + p) % d.buffer.length) (some t) }
      (Function.update f p (some t)) (p + 1) (by simpa using hb) (by simp; omega)
      (h.set (by omega) _) hrest
    simp only [List.length_set] at hfill
    rw [Nat.add_right_comm p 1 ts.length] at hfill
    refine hfill.imp fun d' hd' => ⟨hd'.1, hd'.2.1, hd'.2.2.1, hd'.2.2.2.congr fun k _ => ?_⟩
    by_cases hkp : k = p
    · subst hkp
      rw [if_neg (by omega), if_pos (by omega), Function.update_self, Nat.sub_self]
      rfl
    · rw [Function.update_of_ne hkp]
      by_cases hin : p ≤ k ∧ k < p + (ts.length + 1)
      · rw [if_pos (by omega), if_pos hin, show k - p = k - (p + 1) + 1 by omega,
          List.getElem?_cons_succ]
      · rw [if_neg (by omega), if_neg hin]

end CircularDeque

end Sparo.Base
