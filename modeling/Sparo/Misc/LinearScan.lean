import Mathlib.Data.List.Basic

/-!
# Linear scans

Loops that test the positions of a sequence one after the other, upwards or downwards, and return
the first one that passes. A test may be undefined at a position; a scan is then undefined too
unless it has ended before. The results are stated against `IsFirst` and `IsLast`, which say what
a search is for without reference to the order of the tests.
-/

namespace LinearScan

variable {P : Nat → Prop} {pos last : Nat} {r : Option Nat} {test : Nat → Option Bool}

/-- `r` is the least position from `pos` on with `P`, or there is none. -/
def IsFirst (P : Nat → Prop) (pos : Nat) : Option Nat → Prop
  | some i => pos ≤ i ∧ P i ∧ ∀ p, pos ≤ p → p < i → ¬P p
  | none => ∀ p, pos ≤ p → ¬P p

/-- `r` is the greatest position up to `pos` with `P`, or there is none. -/
def IsLast (P : Nat → Prop) (pos : Nat) : Option Nat → Prop
  | some i => i ≤ pos ∧ P i ∧ ∀ p, i < p → p ≤ pos → ¬P p
  | none => ∀ p, p ≤ pos → ¬P p

/-- The loop `for (i = pos; ...; ++i)` with `turns` turns. -/
def scanUp (test : Nat → Option Bool) : (turns : Nat) → (i : Nat) → Option (Option Nat)
  | 0, _ => some none
  | turns + 1, i => (test i).bind fun found =>
    if found then some (some i) else scanUp test turns (i + 1)

/-- The loop `for (i = pos;; --i)` that ends behind 0. -/
def scanDown (test : Nat → Option Bool) : Nat → Option (Option Nat)
  | 0 => (test 0).map fun found => if found then some 0 else none
  | i + 1 => (test (i + 1)).bind fun found =>
    if found then some (some (i + 1)) else scanDown test i

/-- The test is defined at the position and decides `P` there. -/
def Decides (test : Nat → Option Bool) (P : Nat → Prop) (p : Nat) : Prop :=
  ∃ found, test p = some found ∧ (found = true ↔ P p)

theorem Decides.not {p : Nat} (h : Decides test P p) :
    Decides (fun i => (test i).map (!·)) (fun i => ¬P i) p := by
  obtain ⟨found, hfound, hP⟩ := h
  refine ⟨!found, by simp only [hfound, Option.map_some], ?_⟩
  dsimp only
  rw [← hP]
  cases found <;> decide

/-- There is one first position. -/
theorem IsFirst.unique {r' : Option Nat} (h : IsFirst P pos r) (h' : IsFirst P pos r') :
    r = r' := by
  cases r with
  | none =>
    cases r' with
    | none => rfl
    | some j => exact absurd h'.2.1 (h j h'.1)
  | some i =>
    cases r' with
    | none => exact absurd h.2.1 (h' i h.1)
    | some j =>
      rcases Nat.lt_trichotomy i j with hlt | rfl | hgt
      · exact absurd h.2.1 (h'.2.2 i h.1 hlt)
      · rfl
      · exact absurd h'.2.1 (h.2.2 j h'.1 hgt)

/-- There is one last position. -/
theorem IsLast.unique {r' : Option Nat} (h : IsLast P pos r) (h' : IsLast P pos r') : r = r' := by
  cases r with
  | none =>
    cases r' with
    | none => rfl
    | some j => exact absurd h'.2.1 (h j h'.1)
  | some i =>
    cases r' with
    | none => exact absurd h.2.1 (h' i h.1)
    | some j =>
      rcases Nat.lt_trichotomy i j with hlt | rfl | hgt
      · exact absurd h'.2.1 (h.2.2 j hlt h'.1)
      · rfl
      · exact absurd h.2.1 (h'.2.2 i hgt h.1)

/-- A position that fails may be skipped. -/
theorem IsFirst.skip (h : IsFirst P (pos + 1) r) (hpos : ¬P pos) : IsFirst P pos r := by
  have hskip : ∀ p, pos ≤ p → ¬(pos + 1 ≤ p) → ¬P p := by
    intro p hle hlt
    obtain rfl : p = pos := by omega
    exact hpos
  cases r with
  | none =>
    intro p hle
    by_cases hnext : pos + 1 ≤ p
    · exact h p hnext
    · exact hskip p hle hnext
  | some i =>
    refine ⟨Nat.le_of_succ_le h.1, h.2.1, fun p hle hlt => ?_⟩
    by_cases hnext : pos + 1 ≤ p
    · exact h.2.2 p hnext hlt
    · exact hskip p hle hnext

/-- Positions that fail may be added at the upper end. -/
theorem IsLast.extend {top : Nat} (h : IsLast P top r) (hle : top ≤ pos)
    (htop : ∀ p, top < p → p ≤ pos → ¬P p) : IsLast P pos r := by
  cases r with
  | none =>
    intro p hp
    rcases Nat.lt_or_ge top p with hlt | hge
    · exact htop p hlt hp
    · exact h p hge
  | some i =>
    refine ⟨Nat.le_trans h.1 hle, h.2.1, ?_⟩
    intro p hip hp
    rcases Nat.lt_or_ge top p with hlt | hge
    · exact htop p hlt hp
    · exact h.2.2 p hip hge

/-- A position that fails may be skipped. -/
theorem IsLast.skip (h : IsLast P pos r) (hpos : ¬P (pos + 1)) : IsLast P (pos + 1) r := by
  apply h.extend (Nat.le_succ pos)
  intro p hlt hle
  obtain rfl : p = pos + 1 := Nat.le_antisymm hle hlt
  exact hpos

/-- A scan may start at the last position that can pass. -/
theorem IsLast.of_min {top : Nat} (h : IsLast P (min pos top) r) (htop : ∀ p, top < p → ¬P p) :
    IsLast P pos r := by
  rcases Nat.le_total pos top with hle | hle
  · rwa [Nat.min_eq_left hle] at h
  · rw [Nat.min_eq_right hle] at h
    exact h.extend hle fun p hlt _ => htop p hlt

/-- An upward scan finds the first position, where nothing behind its last turn passes. -/
theorem scanUp_isFirst {turns : Nat} (htest : ∀ p, pos ≤ p → p < pos + turns → Decides test P p)
    (hend : ∀ p, pos + turns ≤ p → ¬P p) :
    ∃ r, scanUp test turns pos = some r ∧ IsFirst P pos r := by
  induction turns generalizing pos with
  | zero => exact ⟨none, rfl, hend⟩
  | succ turns ih =>
    obtain ⟨found, hfound, hP⟩ := htest pos (Nat.le_refl pos) (by omega)
    rw [scanUp, hfound, Option.bind_some]
    cases found with
    | true =>
      refine ⟨some pos, rfl, Nat.le_refl pos, hP.mp rfl, ?_⟩
      intro p hle hlt
      omega
    | false =>
      obtain ⟨r, hr, hfirst⟩ : ∃ r, scanUp test turns (pos + 1) = some r ∧
          IsFirst P (pos + 1) r :=
        ih (fun p hle hlt => htest p (by omega) (by omega)) (fun p hle => hend p (by omega))
      exact ⟨r, hr, hfirst.skip fun hpos => Bool.false_ne_true (hP.mpr hpos)⟩

/-- A downward scan finds the last position. -/
theorem scanDown_isLast (htest : ∀ p, p ≤ pos → Decides test P p) :
    ∃ r, scanDown test pos = some r ∧ IsLast P pos r := by
  induction pos with
  | zero =>
    obtain ⟨found, hfound, hP⟩ := htest 0 (Nat.le_refl 0)
    rw [scanDown, hfound]
    cases found with
    | true =>
      refine ⟨some 0, rfl, Nat.le_refl 0, hP.mp rfl, ?_⟩
      intro p hlt hle
      omega
    | false =>
      refine ⟨none, rfl, fun p hle hp => ?_⟩
      obtain rfl := Nat.le_zero.mp hle
      exact Bool.false_ne_true (hP.mpr hp)
  | succ pos ih =>
    obtain ⟨found, hfound, hP⟩ := htest (pos + 1) (Nat.le_refl _)
    rw [scanDown, hfound, Option.bind_some]
    cases found with
    | true =>
      refine ⟨some (pos + 1), rfl, Nat.le_refl _, hP.mp rfl, ?_⟩
      intro p hlt hle
      omega
    | false =>
      obtain ⟨r, hr, hlast⟩ := ih fun p hle => htest p (by omega)
      exact ⟨r, hr, hlast.skip fun hpos => Bool.false_ne_true (hP.mpr hpos)⟩

end LinearScan
