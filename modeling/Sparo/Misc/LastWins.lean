import Mathlib.Data.List.Basic
import Mathlib.Logic.Function.Basic

/-!
# Maps built by insertions

A map from keys to optional values after a list of insertions: of several values for one key the
last one counts.
-/

namespace LastWins

variable {κ β : Type*} [DecidableEq κ] {m : κ → Option β} {l : List (κ × β)} {k : κ} {v : β}

/-- The map after the insertions of `l`. -/
def insertAll (m : κ → Option β) (l : List (κ × β)) : κ → Option β :=
  l.foldl (fun m p => Function.update m p.1 (some p.2)) m

/-- The last value that the list has for a key. -/
def lastValue : List (κ × β) → κ → Option β
  | [], _ => none
  | p :: l, k => (lastValue l k).or (if p.1 = k then some p.2 else none)

/-- What the map holds for a key is the last value inserted for it. -/
theorem insertAll_apply (m : κ → Option β) (l : List (κ × β)) (k : κ) :
    insertAll m l k = (lastValue l k).or (m k) := by
  induction l generalizing m with
  | nil => rfl
  | cons p l ih =>
    change insertAll (Function.update m p.1 (some p.2)) l k = _
    rw [ih, lastValue, Option.or_assoc]
    congr 1
    by_cases hk : p.1 = k
    · subst hk
      simp
    · simp [hk, Ne.symm hk]

/-- The insertions into a map override it with the map that they make by themselves. -/
theorem insertAll_eq_or (m : κ → Option β) (l : List (κ × β)) (k : κ) :
    insertAll m l k = (insertAll (fun _ => none) l k).or (m k) := by
  rw [insertAll_apply, insertAll_apply, Option.or_none]

theorem mem_of_lastValue (h : lastValue l k = some v) : (k, v) ∈ l := by
  induction l with
  | nil => cases h
  | cons p l ih =>
    rcases Option.or_eq_some_iff.mp h with h | ⟨-, h⟩
    · exact List.mem_cons_of_mem p (ih h)
    · by_cases hk : p.1 = k
      · rw [if_pos hk, Option.some.injEq] at h
        rw [← hk, ← h]
        exact List.mem_cons_self
      · rw [if_neg hk] at h
        cases h

theorem lastValue_eq_none : lastValue l k = none ↔ k ∉ l.map Prod.fst := by
  induction l with
  | nil => simp [lastValue]
  | cons p l ih =>
    rw [lastValue, Option.or_eq_none_iff, ih, List.map_cons, List.mem_cons, not_or, and_comm]
    by_cases hk : p.1 = k
    · simp [hk]
    · simp [hk, Ne.symm hk]

/-- A value that was not inserted for the key is not there. -/
theorem insertAll_ne (hm : m k ≠ some v) (hl : (k, v) ∉ l) : insertAll m l k ≠ some v := by
  rw [insertAll_apply]
  intro h
  rcases Option.or_eq_some_iff.mp h with hlast | ⟨-, hmk⟩
  · exact hl (mem_of_lastValue hlast)
  · exact hm hmk

/-- A key that is inserted once has the value it was inserted with. -/
theorem lastValue_of_nodup (hnodup : (l.map Prod.fst).Nodup) (hmem : (k, v) ∈ l) :
    lastValue l k = some v := by
  induction l with
  | nil => cases hmem
  | cons p l ih =>
    rw [List.map_cons, List.nodup_cons] at hnodup
    rw [lastValue]
    rcases List.mem_cons.mp hmem with rfl | hmem
    · rw [lastValue_eq_none.mpr hnodup.1, if_pos rfl, Option.none_or]
    · rw [ih hnodup.2 hmem, Option.some_or]

end LastWins
