import Mathlib.Algebra.BigOperators.Group.List.Lemmas
import Mathlib.Algebra.Order.BigOperators.Group.List
import Mathlib.Algebra.Order.Ring.Nat
import Mathlib.Tactic.Abel

/-!
# Sums over a list of threads

The threads of a system are a list of their local states, and a step of one thread replaces
one entry. `total f ts` adds up what each thread contributes: with values in `ℕ` it counts
threads, with values in a multiset it collects what they hold. One equation, `total_set`,
says how a step of one thread changes every such sum.
-/

namespace ThreadSum

variable {π M : Type*} [AddCommMonoid M] {f : π → M} {ts : List π} {a b : π} {i : Nat}

/-- What the threads `ts` contribute together. -/
def total (f : π → M) (ts : List π) : M := (ts.map f).sum

@[simp] theorem total_append (f : π → M) (ts us : List π) :
    total f (ts ++ us) = total f ts + total f us := by
  simp [total]

@[simp] theorem total_singleton (f : π → M) (a : π) : total f [a] = f a := by
  simp [total]

/-- The list around the thread at position `i`. -/
theorem exists_split (h : ts[i]? = some a) :
    ∃ pre suf, ts = pre ++ a :: suf ∧ ∀ b, ts.set i b = pre ++ b :: suf := by
  obtain ⟨hi, rfl⟩ := List.getElem?_eq_some_iff.1 h
  refine ⟨ts.take i, ts.drop (i + 1), ?_, fun b => ?_⟩
  · rw [List.getElem_cons_drop, List.take_append_drop]
  · rw [List.set_eq_take_append_cons_drop, if_pos hi]

/-- A step of thread `i` from `a` to `b` exchanges the contribution of `a` for that of `b`. -/
theorem total_set (h : ts[i]? = some a) (f : π → M) (b : π) :
    total f (ts.set i b) + f a = total f ts + f b := by
  obtain ⟨pre, suf, rfl, hset⟩ := exists_split h
  rw [hset]
  simp only [total, List.map_append, List.map_cons, List.sum_append, List.sum_cons]
  abel

/-- A step that leaves the thread's contribution alone leaves the sum alone. -/
theorem total_set_of_eq (h : ts[i]? = some a) (hab : f b = f a) :
    total f (ts.set i b) = total f ts := by
  obtain ⟨pre, suf, rfl, hset⟩ := exists_split h
  rw [hset]
  simp [total, hab]

/-- A change of every thread that leaves the contributions alone leaves the sum alone. -/
theorem total_map_of_eq {g : π → π} (hg : ∀ a, f (g a) = f a) (ts : List π) :
    total f (ts.map g) = total f ts := by
  simp only [total, List.map_map]
  congr 1
  exact List.map_congr_left fun a _ => hg a

theorem total_mapIdx_of_eq {g : Nat → π → π} (hg : ∀ i a, f (g i a) = f a) (ts : List π) :
    total f (ts.mapIdx g) = total f ts := by
  induction ts generalizing g with
  | nil => rfl
  | cons a ts ih =>
    rw [List.mapIdx_cons]
    have hrest := ih fun i => hg (i + 1)
    simp only [total, List.map_cons, List.sum_cons, hg] at hrest ⊢
    rw [hrest]

/-- Contributions of two kinds add up separately. -/
theorem total_add (f g : π → M) (ts : List π) :
    total (fun a => f a + g a) ts = total f ts + total g ts :=
  List.sum_map_add

/-- Where contributions cannot cancel, a sum is zero when every thread contributes zero. -/
theorem total_eq_zero_iff [PartialOrder M] [IsOrderedAddMonoid M] [CanonicallyOrderedAdd M] :
    total f ts = 0 ↔ ∀ a ∈ ts, f a = 0 := by
  rw [total, List.sum_eq_zero_iff, List.forall_mem_map]

/-- A thread contributes at most the whole sum. -/
theorem le_total [PartialOrder M] [IsOrderedAddMonoid M] [CanonicallyOrderedAdd M]
    (ha : a ∈ ts) : f a ≤ total f ts :=
  List.le_sum_of_mem (List.mem_map_of_mem ha)

/-- Threads that each contribute at most as much contribute at most as much together. -/
theorem total_le_total [PartialOrder M] [IsOrderedAddMonoid M] {g : π → M}
    (h : ∀ a, f a ≤ g a) (ts : List π) : total f ts ≤ total g ts :=
  List.sum_le_sum fun a _ => h a

/-- Where the contributions add up to 1 at most, one thread at most contributes 1. -/
theorem eq_of_total_le_one {f : π → Nat} {j : Nat} (hsum : total f ts ≤ 1) (hi : ts[i]? = some a)
    (hj : ts[j]? = some b) (ha : f a = 1) (hb : f b = 1) : i = j := by
  induction ts generalizing i j with
  | nil => cases hi
  | cons x ts ih =>
    have hcons : total f (x :: ts) = f x + total f ts := List.sum_cons
    rw [hcons] at hsum
    cases i with
    | zero =>
      cases j with
      | zero => rfl
      | succ j =>
        obtain rfl : x = a := Option.some.inj hi
        have hle := le_total (f := f) (List.mem_of_getElem? (show ts[j]? = some b from hj))
        omega
    | succ i =>
      cases j with
      | zero =>
        obtain rfl : x = b := Option.some.inj hj
        have hle := le_total (f := f) (List.mem_of_getElem? (show ts[i]? = some a from hi))
        omega
      | succ j => rw [ih (by omega) hi hj]

/-- A property that some thread has survives a step of a thread, if that thread did not have
the property before or has it afterwards. -/
theorem exists_mem_set {P : π → Prop} (h : ts[i]? = some a) (hex : ∃ x ∈ ts, P x)
    (hab : P a → P b) : ∃ x ∈ ts.set i b, P x := by
  obtain ⟨pre, suf, rfl, hset⟩ := exists_split h
  obtain ⟨x, hx, hP⟩ := hex
  rw [hset]
  rcases List.mem_append.1 hx with hpre | hsuf
  · exact ⟨x, List.mem_append_left _ hpre, hP⟩
  · rcases List.mem_cons.1 hsuf with rfl | hsuf
    · exact ⟨b, by simp, hab hP⟩
    · exact ⟨x, by simp [hsuf], hP⟩

/-- A thread whose contribution is the whole sum is alone: a step of it keeps what holds of every
thread, if that follows for the threads that contribute nothing. -/
theorem forall_mem_set_of_alone {f : π → Nat} {P : π → Prop} (h : ts[i]? = some a)
    (hsum : total f ts ≤ f a) (hb : P b) (hothers : ∀ x ∈ ts, f x = 0 → P x) :
    ∀ x ∈ ts.set i b, P x := by
  obtain ⟨pre, suf, rfl, hset⟩ := exists_split h
  have hzero : total f pre + total f suf = 0 := by
    simp only [total, List.map_append, List.map_cons, List.sum_append, List.sum_cons] at hsum ⊢
    omega
  have hpre : ∀ x ∈ pre, f x = 0 := total_eq_zero_iff.1 (by omega)
  have hsuf : ∀ x ∈ suf, f x = 0 := total_eq_zero_iff.1 (by omega)
  rw [hset]
  intro x hx
  rcases List.mem_append.1 hx with hx | hx
  · exact hothers x (List.mem_append_left _ hx) (hpre x hx)
  · rcases List.mem_cons.1 hx with rfl | hx
    · exact hb
    · exact hothers x (by simp [hx]) (hsuf x hx)

end ThreadSum
