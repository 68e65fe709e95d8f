import Mathlib.Data.List.Nodup
import Mathlib.Data.List.Range
import Sparo.Misc.ThreadSum

/-!
# Tickets

Some of the threads of a system hold a ticket, a number that a counter has handed out. `Issued`
says that the tickets held are exactly those below the counter, each of them once.
-/

namespace Tickets

open ThreadSum

variable {π : Type*} {ticket : π → Option Nat} {ts : List π} {a b : π} {i j m n : Nat}

/-- The threads hold the tickets below `n`, one thread each. -/
def Issued (ticket : π → Option Nat) (ts : List π) (n : Nat) : Prop :=
  (ts.filterMap ticket).Perm (List.range n)

theorem issued_nil : Issued ticket [] 0 := List.Perm.refl []

/-- A thread that comes without a ticket changes nothing. -/
theorem Issued.append (h : Issued ticket ts n) (ha : ticket a = none) :
    Issued ticket (ts ++ [a]) n := by
  unfold Issued at h ⊢
  rwa [List.filterMap_append, List.filterMap_cons_none ha, List.filterMap_nil, List.append_nil]

/-- A step that keeps the thread's ticket changes nothing. -/
theorem Issued.set (h : Issued ticket ts n) (hi : ts[i]? = some a) (hab : ticket b = ticket a) :
    Issued ticket (ts.set i b) n := by
  obtain ⟨pre, suf, rfl, hset⟩ := exists_split hi
  rw [hset]
  unfold Issued at h ⊢
  rwa [List.filterMap_append, List.filterMap_cons, hab, ← List.filterMap_cons,
    ← List.filterMap_append]

/-- A step by which the thread takes the next ticket. -/
theorem Issued.take (h : Issued ticket ts n) (hi : ts[i]? = some a) (ha : ticket a = none)
    (hb : ticket b = some n) : Issued ticket (ts.set i b) (n + 1) := by
  obtain ⟨pre, suf, rfl, hset⟩ := exists_split hi
  rw [hset]
  unfold Issued at h ⊢
  rw [List.filterMap_append, List.filterMap_cons_none ha] at h
  rw [List.filterMap_append, List.filterMap_cons_some hb, List.range_succ]
  exact List.perm_middle.trans ((h.cons n).trans (List.perm_append_singleton n _).symm)

theorem Issued.lt (h : Issued ticket ts n) (ha : a ∈ ts) (hticket : ticket a = some m) :
    m < n := by
  have hmem : m ∈ ts.filterMap ticket := List.mem_filterMap.mpr ⟨a, ha, hticket⟩
  simpa using h.mem_iff.mp hmem

/-- Every ticket below the counter is held. -/
theorem Issued.exists_of_lt (h : Issued ticket ts n) (hm : m < n) :
    ∃ a ∈ ts, ticket a = some m := by
  have hmem : m ∈ ts.filterMap ticket := h.mem_iff.mpr (List.mem_range.mpr hm)
  exact List.mem_filterMap.mp hmem

/-- Two threads with the same ticket are the same. -/
theorem Issued.unique (h : Issued ticket ts n) (hi : ts[i]? = some a) (hj : ts[j]? = some b)
    (ha : ticket a = some m) (hb : ticket b = some m) : i = j := by
  have hnodup : (ts.filterMap ticket).Nodup := h.nodup_iff.mpr List.nodup_range
  rw [List.Nodup, List.pairwise_filterMap, List.pairwise_iff_getElem] at hnodup
  obtain ⟨hil, rfl⟩ := List.getElem?_eq_some_iff.mp hi
  obtain ⟨hjl, rfl⟩ := List.getElem?_eq_some_iff.mp hj
  rcases Nat.lt_trichotomy i j with hlt | heq | hgt
  · exact absurd rfl (hnodup i j hil hjl hlt m ha m hb)
  · exact heq
  · exact absurd rfl (hnodup j i hjl hil hgt m hb m ha)

/-! ## Later threads -/

/-- The entries of a list after one of them has changed. -/
theorem getElem?_set_cases {x : π} (h : (ts.set i b)[j]? = some x) :
    (j = i ∧ x = b) ∨ (j ≠ i ∧ ts[j]? = some x) := by
  by_cases hj : j = i
  · subst hj
    rw [List.getElem?_set_self'] at h
    obtain ⟨_, _, rfl⟩ := Option.map_eq_some_iff.mp h
    exact .inl ⟨rfl, rfl⟩
  · rw [List.getElem?_set_ne (Ne.symm hj)] at h
    exact .inr ⟨hj, h⟩

/-- The entries of a list after one has come. -/
theorem getElem?_concat_cases {x : π} (h : (ts ++ [b])[j]? = some x) : x = b ∨ ts[j]? = some x := by
  rcases Nat.lt_or_ge j ts.length with hlt | hge
  · rw [List.getElem?_append_left hlt] at h
    exact .inr h
  · rw [List.getElem?_append_right hge] at h
    exact .inl (List.mem_singleton.mp (List.mem_of_getElem? h))

/-- The threads that came after the first `l` have no ticket below `m`. -/
def TicketsFrom (ticket : π → Option Nat) (l m : Nat) (ts : List π) : Prop :=
  ∀ (j : Nat) b n, l ≤ j → ts[j]? = some b → ticket b = some n → m ≤ n

theorem ticketsFrom_length : TicketsFrom ticket ts.length m ts := by
  intro j b n hj hb
  rw [List.getElem?_eq_none hj] at hb
  cases hb

section

variable {l : Nat}

theorem TicketsFrom.append (h : TicketsFrom ticket l m ts) (ha : ticket a = none) :
    TicketsFrom ticket l m (ts ++ [a]) := by
  intro j b n hj hb hn
  rcases getElem?_concat_cases hb with rfl | hb
  · rw [ha] at hn
    cases hn
  · exact h j b n hj hb hn

theorem TicketsFrom.set (h : TicketsFrom ticket l m ts) (hi : ts[i]? = some a)
    (hab : ticket b = ticket a) : TicketsFrom ticket l m (ts.set i b) := by
  intro j x n hj hx hn
  rcases getElem?_set_cases hx with ⟨rfl, rfl⟩ | ⟨-, hx⟩
  · exact h j a n hj hi (hab ▸ hn)
  · exact h j x n hj hx hn

theorem TicketsFrom.take (h : TicketsFrom ticket l m ts) (hb : ticket b = some n) (hle : m ≤ n) :
    TicketsFrom ticket l m (ts.set i b) := by
  intro j x k hj hx hk
  rcases getElem?_set_cases hx with ⟨-, rfl⟩ | ⟨-, hx⟩
  · obtain rfl : n = k := Option.some.inj (hb.symm.trans hk)
    exact hle
  · exact h j x k hj hx hk

end

end Tickets
