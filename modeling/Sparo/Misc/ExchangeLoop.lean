import Sparo.Misc.ThreadSum

/-!
# Loops around a compare-and-exchange

Calls that each try to advance a shared counter: load it, look whether the position is free, and
exchange; who wins leaves the loop with a bounded rest, who loses starts again at the counter.
A call is sent back only by the win of another one or by a spurious failure, and wins once, so
the calls under way take a bounded number of steps together: `total_rank_next` is the rule for
one step of one of them.
-/

namespace ExchangeLoop

open ThreadSum

/-- Where a call is. -/
inductive Attempt where
  /-- Before it loads the counter. -/
  | load
  /-- Before it looks whether `pos` is free. -/
  | look (pos : Nat)
  /-- Before it exchanges `pos` for the next position. -/
  | exchange (pos : Nat)
  /-- `rest` steps from its end. -/
  | won (rest : Nat)
  deriving DecidableEq, Repr

/-- A step of a call where the counter is `cur`, with the counter after it. -/
inductive Next (cur : Nat) (spurious : Bool) : Attempt → Nat → Attempt → Prop where
  | load : Next cur spurious .load cur (.look cur)
  | free (pos : Nat) : Next cur spurious (.look pos) cur (.exchange pos)
  | refused (pos : Nat) : Next cur spurious (.look pos) cur (.won 0)
  | passed (pos : Nat) (h : pos ≠ cur) : Next cur spurious (.look pos) cur .load
  | win (cur' : Nat) : Next cur spurious (.exchange cur) cur' (.won 2)
  | lose (pos : Nat) (h : pos = cur → spurious = true) :
      Next cur spurious (.exchange pos) cur (.look cur)
  | rest (n : Nat) : Next cur spurious (.won (n + 1)) cur (.won n)

/-- The steps that a call still takes at most, with those that its own win may cost the others of
`n` calls. -/
def Attempt.rank (cur n : Nat) : Attempt → Nat
  | .load => 2 * n + 5
  | .look pos => 2 * n + if pos = cur then 4 else 6
  | .exchange pos => 2 * n + if pos = cur then 3 else 5
  | .won rest => rest

theorem rank_le (cur n : Nat) {x : Attempt} (h : ∀ rest, x = .won rest → rest ≤ 2) :
    x.rank cur n ≤ 2 * n + 6 := by
  cases x with
  | load => simp [Attempt.rank]
  | look pos =>
    simp only [Attempt.rank]
    split <;> omega
  | exchange pos =>
    simp only [Attempt.rank]
    split <;> omega
  | won rest => exact (h rest rfl).trans (by omega)

/-- A change of the counter costs a call two steps at most. -/
theorem rank_le_add (cur cur' n : Nat) (x : Attempt) : x.rank cur' n ≤ x.rank cur n + 2 := by
  cases x with
  | load => exact Nat.le_add_right _ 2
  | look pos =>
    simp only [Attempt.rank]
    split <;> split <;> omega
  | exchange pos =>
    simp only [Attempt.rank]
    split <;> split <;> omega
  | won rest => exact Nat.le_add_right _ 2

theorem total_rank_le_add (cur cur' n : Nat) (xs : List Attempt) :
    total (Attempt.rank cur' n) xs ≤ total (Attempt.rank cur n) xs + 2 * xs.length := by
  induction xs with
  | nil => exact Nat.le_refl 0
  | cons x xs ih =>
    have hx := rank_le_add cur cur' n x
    simp only [total, List.map_cons, List.sum_cons, List.length_cons] at ih ⊢
    omega

theorem total_rank_le {cur n : Nat} {xs : List Attempt}
    (h : ∀ x ∈ xs, ∀ rest, x = .won rest → rest ≤ 2) :
    total (Attempt.rank cur n) xs ≤ xs.length * (2 * n + 6) := by
  induction xs with
  | nil => exact Nat.zero_le _
  | cons x xs ih =>
    have hx := rank_le cur n (h x (List.mem_cons_self ..))
    have hrest := ih fun y hy => h y (List.mem_cons_of_mem _ hy)
    simp only [total, List.map_cons, List.sum_cons, List.length_cons, Nat.succ_mul] at hrest ⊢
    omega

/-- What a step does to the rank of the call: it uses one up, or it wins and pays for everybody. -/
theorem rank_next {cur cur' : Nat} {spurious : Bool} {x x' : Attempt} (n : Nat)
    (h : Next cur spurious x cur' x') :
    (cur' = cur ∧ x'.rank cur n + 1 ≤ x.rank cur n + if spurious then 2 else 0) ∨
      (x'.rank cur' n + 2 * n + 1 ≤ x.rank cur n ∧ x.rank cur n ≤ x.rank cur' n) := by
  cases h with
  | load => exact .inl ⟨rfl, by simp [Attempt.rank]⟩
  | free pos =>
    refine .inl ⟨rfl, ?_⟩
    simp only [Attempt.rank]
    split <;> omega
  | refused pos =>
    refine .inl ⟨rfl, ?_⟩
    simp only [Attempt.rank]
    split <;> omega
  | passed pos hne =>
    refine .inl ⟨rfl, ?_⟩
    simp only [Attempt.rank, if_neg hne]
    omega
  | win cur' =>
    refine .inr ⟨?_, ?_⟩
    · simp only [Attempt.rank, if_true]
      omega
    · simp only [Attempt.rank, if_true]
      split <;> omega
  | lose pos hspurious =>
    refine .inl ⟨rfl, ?_⟩
    by_cases hpos : pos = cur
    · simp only [Attempt.rank, hspurious hpos, hpos, if_true]
      omega
    · simp only [Attempt.rank, if_neg hpos, if_true]
      omega
  | rest m => exact .inl ⟨rfl, Nat.le_add_right _ _⟩

/-- A step of one of the calls uses up some of the rank of all of them, but for what a spurious
failure gives back. -/
theorem total_rank_next {cur cur' i : Nat} {spurious : Bool} {x x' : Attempt} {xs : List Attempt}
    (hi : xs[i]? = some x) (h : Next cur spurious x cur' x') :
    total (Attempt.rank cur' xs.length) (xs.set i x') + 1 ≤
      total (Attempt.rank cur xs.length) xs + if spurious then 2 else 0 := by
  rcases rank_next xs.length h with ⟨rfl, hpays⟩ | ⟨hpays, hkeeps⟩
  · have hset := total_set hi (Attempt.rank cur' xs.length) x'
    omega
  · have hset := total_set hi (Attempt.rank cur' xs.length) x'
    have hothers := total_rank_le_add cur cur' xs.length xs
    omega

end ExchangeLoop
