import Mathlib.Tactic.NormNum.NatFib
import Sparo.Main.ClimbingStairs
import Sparo.Misc.Climb

/-!
# The three counts agree

Each of them gives the number of ways up, where that is an `int`, and overflows where it is not.
-/

namespace Sparo.Main

open IntSum WhileLoop

variable {i n : Nat} {mem : List Int}

/-- The number of ways up to the stair `n`. -/
def ways (n : Nat) : Int := Fintype.card (Climb n)

theorem ways_zero : ways 0 = 1 := rfl

theorem ways_one : ways 1 = 1 := rfl

theorem ways_two : ways 2 = 2 := rfl

theorem ways_add_two (n : Nat) : ways (n + 2) = ways (n + 1) + ways n := by
  simp only [ways, Climb.card_eq_fib]
  rw [Nat.fib_add_two, Nat.add_comm]
  push_cast
  rfl

theorem ways_pos (n : Nat) : 0 < ways n := by
  rw [ways, Climb.card_eq_fib]
  exact_mod_cast Nat.fib_pos.mpr (Nat.succ_pos n)

theorem ways_mono {m n : Nat} (h : m ≤ n) : ways m ≤ ways n := by
  simp only [ways, Climb.card_eq_fib]
  exact_mod_cast Nat.fib_mono (Nat.succ_le_succ h)

theorem isInt_ways_of_le {m n : Nat} (hle : m ≤ n) (h : IsInt (ways n)) : IsInt (ways m) := by
  have hmono := ways_mono hle
  have hpos := ways_pos m
  unfold IsInt at *
  omega

/-- The ways up to the stair 46 are the first to overflow. -/
theorem isInt_ways_iff : IsInt (ways n) ↔ n ≤ 45 := by
  have hfits : IsInt (ways 45) := by
    rw [ways, Climb.card_eq_fib]
    norm_num [IsInt]
  have hover : ¬IsInt (ways 46) := by
    rw [ways, Climb.card_eq_fib]
    norm_num [IsInt]
  constructor
  · intro h
    by_contra hlt
    exact hover (isInt_ways_of_le (by omega) h)
  · intro hle
    exact isInt_ways_of_le hle hfits

/-! ## The search with a memory -/

/-- What has been recorded is right. -/
def MemValid (mem : List Int) : Prop :=
  ∀ (j : Nat) (v : Int), mem[j]? = some v → v ≠ -1 → IsInt (ways j) ∧ v = ways j

theorem memValid_replicate (size : Nat) : MemValid (List.replicate size (-1)) := by
  intro j v hv hne
  have hmem := List.mem_of_getElem? hv
  exact absurd (List.eq_of_mem_replicate hmem) hne

theorem MemValid.set (h : MemValid mem) (hint : IsInt (ways i)) :
    MemValid (mem.set i (ways i)) := by
  intro j v hv hne
  rw [List.getElem?_set] at hv
  split_ifs at hv with hij hlt
  · rw [← hij]
    exact ⟨hint, (Option.some_inj.mp hv).symm⟩
  · exact h j v hv hne

/-- The search for the stair `i` gives the number of ways and leaves a valid memory, or it overflows
because that number is not an `int`. -/
inductive Finds (i : Nat) (mem : List Int) : Option (Int × List Int) → Prop
  | found {t : List Int} (hint : IsInt (ways i)) (hmem : MemValid t)
    (hlength : t.length = mem.length) : Finds i mem (some (ways i, t))
  | overflow (hint : ¬IsInt (ways i)) : Finds i mem none

/-- A search for a lower stair that overflows leaves no `int` for this one. -/
theorem Finds.then {j : Nat} {found : Option (Int × List Int)}
    {next : Int × List Int → Option (Int × List Int)} (h : Finds j mem found) (hle : j ≤ i)
    (hnext : ∀ t, MemValid t → t.length = mem.length → Finds i mem (next (ways j, t))) :
    Finds i mem (found.bind next) := by
  cases h with
  | found hint hmem hlength => exact hnext _ hmem hlength
  | overflow hint => exact .overflow fun h => hint (isInt_ways_of_le hle h)

theorem Finds.of_length {t : List Int} {found : Option (Int × List Int)} (h : Finds i t found)
    (hlength : t.length = mem.length) : Finds i mem found := by
  cases h with
  | found hint hmem hlength' => exact .found hint hmem (hlength'.trans hlength)
  | overflow hint => exact .overflow hint

/-- The end of `dfs`, with both counts at hand. -/
def record (i : Nat) (left right : Int) (mem : List Int) : Option (Int × List Int) :=
  (addInt left right).bind fun count => (store mem i count).map fun mem => (count, mem)

theorem dfs_true (h : mem[i + 3]? = some (-1)) :
    dfs true (i + 3) mem = (dfs true (i + 2) mem).bind fun left =>
      (dfs true (i + 1) left.2).bind fun right => record (i + 3) left.1 right.1 right.2 := by
  rw [dfs, h, Option.bind_some, if_neg (by decide)]
  simp only [if_true, Option.bind_assoc, Option.bind_map]
  rfl

theorem dfs_false (h : mem[i + 3]? = some (-1)) :
    dfs false (i + 3) mem = (dfs false (i + 1) mem).bind fun right =>
      (dfs false (i + 2) right.2).bind fun left => record (i + 3) left.1 right.1 left.2 := by
  rw [dfs, h, Option.bind_some, if_neg (by decide)]
  simp only [Bool.false_eq_true, if_false, Option.bind_assoc, Option.bind_map]
  rfl

/-- The sum of the two counts below is recorded. -/
theorem finds_record (hlt : i + 3 < mem.length) (hmem : MemValid mem) :
    Finds (i + 3) mem (record (i + 3) (ways (i + 2)) (ways (i + 1)) mem) := by
  have hsum : ways (i + 3) = ways (i + 2) + ways (i + 1) := ways_add_two (i + 1)
  rw [record]
  by_cases hint : IsInt (ways (i + 3))
  · rw [addInt_of_isInt (hsum ▸ hint), Option.bind_some, ← hsum, store, if_pos hlt,
      Option.map_some]
    exact .found hint (hmem.set hint) List.length_set
  · rw [addInt_of_not (hsum ▸ hint), Option.bind_none]
    exact .overflow hint

/-- A number that was not recorded is the sum of two that are searched for, in either order. -/
theorem dfs_finds (leftFirst : Bool) : (i : Nat) → 1 ≤ i → (mem : List Int) → i < mem.length →
    MemValid mem → Finds i mem (dfs leftFirst i mem)
  | 1, _, _, _, hmem => .found (by decide) hmem rfl
  | 2, _, _, _, hmem => .found (by decide) hmem rfl
  | i + 3, _, mem, hlt, hmem => by
    obtain ⟨recorded, hrecorded⟩ : ∃ recorded, mem[i + 3]? = some recorded :=
      ⟨_, List.getElem?_eq_getElem hlt⟩
    by_cases hne : recorded ≠ -1
    · obtain ⟨hint, heq⟩ := hmem _ _ hrecorded hne
      rw [dfs, hrecorded, Option.bind_some, if_pos hne, heq]
      exact .found hint hmem rfl
    rw [not_not.mp hne] at hrecorded
    have hleft := dfs_finds leftFirst (i + 2) (by omega)
    have hright := dfs_finds leftFirst (i + 1) (by omega)
    cases leftFirst with
    | true =>
      rw [dfs_true hrecorded]
      refine (hleft mem (by omega) hmem).then (by omega) fun t ht hlength => ?_
      refine Finds.of_length ?_ hlength
      refine (hright t (by omega) ht).then (by omega) fun u hu hlength' => ?_
      have hlt' : i + 3 < u.length := by omega
      exact Finds.of_length (finds_record hlt' hu) hlength'
    | false =>
      rw [dfs_false hrecorded]
      refine (hright mem (by omega) hmem).then (by omega) fun t ht hlength => ?_
      refine Finds.of_length ?_ hlength
      refine (hleft t (by omega) ht).then (by omega) fun u hu hlength' => ?_
      have hlt' : i + 3 < u.length := by omega
      exact Finds.of_length (finds_record hlt' hu) hlength'

/-- The number of ways, where it is an `int`. -/
def intWays (n : Nat) : Option Int := if IsInt (ways n) then some (ways n) else none

/-- Where the size of the vector overflows there are more ways than an `int` can count. -/
theorem intWays_of_not_size (hsize : ¬IsInt (n + 1)) : intWays n = none := by
  rw [intWays, if_neg]
  rw [isInt_ways_iff]
  unfold IsInt at hsize
  omega

theorem climbingStairsDFSMem_eq (leftFirst : Bool) (hn : 1 ≤ n) :
    climbingStairsDFSMem leftFirst n = intWays n := by
  rw [climbingStairsDFSMem]
  by_cases hsize : IsInt (n + 1)
  · rw [addInt_of_isInt hsize, Option.bind_some, intWays]
    have hfinds := dfs_finds leftFirst n hn (List.replicate (n + 1) (-1)) (by simp)
      (memValid_replicate _)
    rw [show ((n : Int) + 1).toNat = n + 1 by omega]
    generalize dfs leftFirst n (List.replicate (n + 1) (-1)) = found at hfinds ⊢
    cases hfinds with
    | found hint hmem hlength => rw [if_pos hint, Option.map_some]
    | overflow hint => rw [if_neg hint, Option.map_none]
  · rw [addInt_of_not hsize, Option.bind_none, intWays_of_not_size hsize]

/-! ## The table -/

/-- The table holds the right numbers below `i`. -/
def TableValid (i : Nat) (dp : List Int) : Prop :=
  ∀ j, 1 ≤ j → j < i → dp[j]? = some (ways j)

theorem TableValid.set {dp : List Int} (h : TableValid i dp) (hlt : i < dp.length) :
    TableValid (i + 1) (dp.set i (ways i)) := by
  intro j hj hle
  rw [List.getElem?_set]
  split_ifs with hij
  · rw [hij]
  · exact h j hj (by omega)

/-- Every turn of the loop fills one more place, or it overflows. -/
theorem fillTable_getElem? : (turns i : Nat) → (dp : List Int) → dp.length = i + 3 + turns →
    TableValid (i + 3) dp → IsInt (ways (i + 2)) →
    ((fillTable turns (i + 3) dp).bind fun dp => dp[i + 2 + turns]?) = intWays (i + 2 + turns)
  | 0, i, dp, _, hdp, hint => by
    rw [fillTable, Option.bind_some, hdp _ (by omega) (by omega), intWays, if_pos hint]
  | turns + 1, i, dp, hlength, hdp, hint => by
    have habove : dp[i + 3 - 1]? = some (ways (i + 2)) := hdp _ (by omega) (by omega)
    have hbelow : dp[i + 3 - 2]? = some (ways (i + 1)) := hdp _ (by omega) (by omega)
    rw [fillTable, habove, hbelow]
    simp only []
    by_cases hnext : IsInt (ways (i + 3))
    · rw [addInt_of_isInt (ways_add_two (i + 1) ▸ hnext), ← ways_add_two, Option.bind_some, store,
        if_pos (by omega), Option.bind_some]
      have ih := fillTable_getElem? turns (i + 1) (dp.set (i + 3) (ways (i + 3)))
        (by rw [List.length_set]; omega) (hdp.set (by omega)) hnext
      rw [show i + 2 + (turns + 1) = i + 1 + 2 + turns by omega]
      exact ih
    · rw [addInt_of_not (ways_add_two (i + 1) ▸ hnext), Option.bind_none, Option.bind_none,
        intWays, if_neg]
      intro h
      exact hnext (isInt_ways_of_le (by omega) h)

/-- The table with the two numbers that are set before the loop. -/
theorem tableValid_init (size : Nat) (hsize : 2 < size) :
    TableValid 3 (((List.replicate size 0).set 1 1).set 2 2) := by
  intro j hj hlt
  rw [List.getElem?_set, List.getElem?_set]
  obtain rfl | rfl : j = 1 ∨ j = 2 := by omega
  · rw [if_neg (by decide), if_pos rfl, if_pos (by simp; omega), ways_one]
  · rw [if_pos rfl, if_pos (by simpa using hsize), ways_two]

theorem climbingStairsDP_eq (hn : 1 ≤ n) : climbingStairsDP n = intWays n := by
  rw [climbingStairsDP]
  split_ifs with hsmall
  · rcases hsmall with rfl | rfl
    · rw [intWays, if_pos (by decide), ways_one]
      rfl
    · rw [intWays, if_pos (by decide), ways_two]
      rfl
  obtain ⟨m, rfl⟩ : ∃ m, n = 2 + (m + 1) := ⟨n - 3, by omega⟩
  by_cases hsize : IsInt ((2 + (m + 1) : Nat) + 1)
  · rw [addInt_of_isInt hsize, Option.bind_some, store, if_pos (by simp; omega), Option.bind_some,
      store, if_pos (by simp; omega), Option.bind_some]
    have hlength : (((List.replicate ((2 + (m + 1) : Nat) + 1 : Int).toNat (0 : Int)).set 1 1).set 2
        2).length = 3 + (m + 1) := by
      simp
      omega
    have htable := tableValid_init ((2 + (m + 1) : Nat) + 1 : Int).toNat (by omega)
    have hfill := fillTable_getElem? (m + 1) 0 _ hlength htable (by decide)
    rw [Nat.add_sub_cancel_left]
    simpa only [Nat.zero_add] using hfill
  · rw [addInt_of_not hsize, Option.bind_none, intWays_of_not_size hsize]

/-! ## Backtracking -/

/-- The counter comes to `count`. It overflows if that is not an `int`, and the next state may if
the stairs are as many as an `int` can hold. -/
inductive Counts (stairs count : Int) : Outcome Int → Prop
  | returned (hint : IsInt count) : Counts stairs count (.returned count)
  | undefined (hint : ¬(IsInt count ∧ IsInt (stairs + 2))) : Counts stairs count .undefined

variable {stairs state res count count' choice : Int} {choices : List Int}
  {visit : Int → Int → Outcome Int}

/-- The second part starts from the count that the first one came to. -/
theorem Counts.bind {o : Outcome Int} {next : Int → Outcome Int} (h : Counts stairs count o)
    (hcount : 0 ≤ count) (hle : count ≤ count')
    (hnext : IsInt count → Counts stairs count' (next count)) :
    Counts stairs count' (o.bind next) := by
  cases h with
  | returned hint => exact hnext hint
  | undefined hint =>
    apply Counts.undefined
    unfold IsInt at *
    omega

/-- A choice is tried unless it leads past the last stair. -/
theorem Counts.cons (hstate : 0 ≤ state + choice) (hle : state + choice ≤ stairs + 2)
    (hskip : stairs < state + choice → Counts stairs count
      (tryChoices visit state stairs choices res))
    (hvisit : state + choice ≤ stairs → Counts stairs count
      ((visit (state + choice) res).bind (tryChoices visit state stairs choices))) :
    Counts stairs count (tryChoices visit state stairs (choice :: choices) res) := by
  rw [tryChoices]
  by_cases hint : IsInt (state + choice)
  · rw [addInt_of_isInt hint]
    simp only []
    split_ifs with hlt
    · exact hskip hlt
    · exact hvisit (Int.not_lt.mp hlt)
  · rw [addInt_of_not hint]
    apply Counts.undefined
    unfold IsInt at *
    omega

/-- Every call adds the number of ways up the stairs that remain. -/
theorem backtrack_counts : (depth remaining : Nat) → remaining < depth → (state res : Int) →
    0 ≤ state → state + remaining = stairs → 0 ≤ res → IsInt res →
    Counts stairs (res + ways remaining) (backtrack [1, 2] stairs depth state res)
  | depth + 1, 0, _, state, res, hstate, hstairs, hres, hint => by
    rw [backtrack, if_pos (by omega), ways_zero]
    by_cases hnext : IsInt (res + 1)
    · rw [addInt_of_isInt hnext]
      refine .cons (by omega) (by omega) (fun _ => ?_) (fun _ => by omega)
      refine .cons (by omega) (by omega) (fun _ => ?_) (fun _ => by omega)
      exact .returned hnext
    · rw [addInt_of_not hnext]
      exact .undefined fun h => hnext h.1
  | depth + 1, 1, hdepth, state, res, hstate, hstairs, hres, hint => by
    have hone := backtrack_counts depth 0 (by omega) (state + 1) res (by omega) (by omega) hres hint
    rw [backtrack, if_neg (by omega)]
    refine .cons (by omega) (by omega) (fun _ => by omega) (fun _ => ?_)
    refine hone.bind (by rw [ways_zero]; omega) (Int.le_refl _) (fun hcount => ?_)
    refine .cons (by omega) (by omega) (fun _ => ?_) (fun _ => by omega)
    exact .returned hcount
  | depth + 1, remaining + 2, hdepth, state, res, hstate, hstairs, hres, hint => by
    have hone := ways_pos (remaining + 1)
    have htwo := ways_pos remaining
    rw [backtrack, if_neg (by omega), ways_add_two, ← Int.add_assoc]
    refine .cons (by omega) (by omega) (fun _ => by omega) (fun _ => ?_)
    refine (backtrack_counts depth (remaining + 1) (by omega) (state + 1) res (by omega) (by omega)
      hres hint).bind (by omega) (by omega) (fun hcount => ?_)
    refine .cons (by omega) (by omega) (fun _ => by omega) (fun _ => ?_)
    refine (backtrack_counts depth remaining (by omega) (state + 2) _ (by omega) (by omega)
      (by omega) hcount).bind (by omega) (Int.le_refl _) (fun hcount => ?_)
    exact .returned hcount

theorem climbingStairsBacktrack_counts {depth : Nat} (hdepth : n < depth) :
    Counts n (ways n) (climbingStairsBacktrack depth n) := by
  have hcounts := backtrack_counts depth n hdepth 0 0 (Int.le_refl 0) (Int.zero_add _)
    (Int.le_refl 0) (by decide)
  rwa [Int.zero_add] at hcounts

/-- Up to 45 stairs all three give the number of ways up. From 46 stairs on that number is not an
`int`, and all three overflow. -/
theorem climbing_stairs_agree {depth : Nat} (leftFirst : Bool) (hn : 1 ≤ n) (hdepth : n < depth) :
    (n ≤ 45 → climbingStairsDFSMem leftFirst n = some (ways n) ∧
      climbingStairsDP n = some (ways n) ∧
      climbingStairsBacktrack depth n = .returned (ways n)) ∧
    (46 ≤ n → ¬IsInt (ways n) ∧ climbingStairsDFSMem leftFirst n = none ∧
      climbingStairsDP n = none ∧ climbingStairsBacktrack depth n = .undefined) := by
  rw [climbingStairsDFSMem_eq leftFirst hn, climbingStairsDP_eq hn, intWays]
  have hcounts := climbingStairsBacktrack_counts hdepth
  generalize climbingStairsBacktrack depth n = outcome at hcounts
  constructor
  · intro hle
    have hint := isInt_ways_iff.mpr hle
    rw [if_pos hint]
    cases hcounts with
    | returned _ => exact ⟨rfl, rfl, rfl⟩
    | undefined hover =>
      refine absurd ⟨hint, ?_⟩ hover
      unfold IsInt
      omega
  · intro hlt
    have hover : ¬IsInt (ways n) := fun h => by
      have hle := isInt_ways_iff.mp h
      omega
    rw [if_neg hover]
    cases hcounts with
    | returned hint => exact absurd hint hover
    | undefined _ => exact ⟨hover, rfl, rfl, rfl⟩

theorem climbing_stairs_agree_nine :
    climbingStairsDFSMem true 9 = some 55 ∧ climbingStairsDP 9 = some 55 ∧
      climbingStairsBacktrack 10 9 = .returned 55 :=
  (climbing_stairs_agree true (by decide) (by decide)).1 (by decide)

end Sparo.Main
