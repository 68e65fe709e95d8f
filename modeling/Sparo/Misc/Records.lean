import Mathlib.Data.List.Basic

/-!
# Records of a stream

A stream is cut into consecutive records of one length, and it arrives in segments that are no
longer than a record. A reader that takes a segment for a record when it has the length of one sees
the records only while the segments stay aligned with them.
-/

namespace Records

variable {α : Type*} {n : Nat} {s pending : List α} {segs : List (List α)}

/-- The consecutive records of `n` elements; an incomplete one at the end is none. -/
def records (n : Nat) (s : List α) : List (List α) :=
  (List.range (s.length / n)).map fun i => (s.drop (n * i)).take n

@[simp] theorem length_records (n : Nat) (s : List α) : (records n s).length = s.length / n := by
  simp [records]

theorem records_of_lt (h : s.length < n) : records n s = [] := by
  rw [records, Nat.div_eq_of_lt h]
  rfl

theorem records_of_le (hn : 0 < n) (h : n ≤ s.length) :
    records n s = s.take n :: records n (s.drop n) := by
  have hcount : s.length / n = (s.drop n).length / n + 1 := by
    rw [List.length_drop, Nat.div_eq_sub_div hn h]
  rw [records, hcount, List.range_succ_eq_map, List.map_cons, List.map_map, Nat.mul_zero,
    List.drop_zero, records]
  congr 1
  refine List.map_congr_left fun i _ => ?_
  rw [Function.comp_apply, List.drop_drop, Nat.mul_succ, Nat.add_comm]

theorem length_of_mem_records {r : List α} (hr : r ∈ records n s) : r.length = n := by
  obtain ⟨i, hi, rfl⟩ := List.mem_map.mp hr
  have hlast : n * (i + 1) ≤ s.length :=
    Nat.le_trans (Nat.mul_le_mul_left n (List.mem_range.mp hi)) (Nat.mul_div_le s.length n)
  rw [List.length_take, List.length_drop]
  rw [Nat.mul_succ] at hlast
  omega

/-- The segments that are as long as a record. -/
def wholes (n : Nat) (segs : List (List α)) : List (List α) := segs.filter (·.length = n)

theorem length_of_mem_wholes {r : List α} (hr : r ∈ wholes n segs) : r.length = n := by
  simpa using (List.mem_filter.mp hr).2

theorem length_wholes_le (hn : 0 < n) (segs : List (List α)) :
    (wholes n segs).length ≤ segs.flatten.length / n := by
  rw [Nat.le_div_iff_mul_le hn]
  induction segs with
  | nil => simp [wholes]
  | cons seg segs ih =>
    rw [wholes, List.flatten_cons, List.length_append]
    by_cases hseg : seg.length = n
    · rw [List.filter_cons_of_pos (by simpa using hseg), List.length_cons, Nat.succ_mul]
      rw [hseg, Nat.add_comm]
      exact Nat.add_le_add_left ih n
    · rw [List.filter_cons_of_neg (by simpa using hseg)]
      exact Nat.le_add_left_of_le ih

/-- The segments keep the records, where `pending` was received behind the last whole record: what
is pending never makes up a record, and a segment as long as a record repeats what is pending in
front of it, so that it is the record as well. -/
def Repeats (n : Nat) : List α → List (List α) → Prop
  | _, [] => True
  | pending, seg :: segs =>
    if seg.length = n then
      (pending ++ seg).take n = seg ∧ Repeats n ((pending ++ seg).drop n) segs
    else (pending ++ seg).length < n ∧ Repeats n (pending ++ seg) segs

instance decidableRepeats [DecidableEq α] (n : Nat) :
    ∀ (pending : List α) (segs : List (List α)), Decidable (Repeats n pending segs)
  | _, [] => isTrue trivial
  | pending, seg :: segs =>
    have := decidableRepeats n ((pending ++ seg).drop n) segs
    have := decidableRepeats n (pending ++ seg) segs
    inferInstanceAs (Decidable (if seg.length = n then _ ∧ _ else _ ∧ _))

/-- The segments as long as a record are the records of the stream exactly when the segments keep
the records. -/
theorem wholes_eq_records_iff (hn : 0 < n) (hsegs : ∀ seg ∈ segs, seg.length ≤ n)
    (hpending : pending.length < n) :
    wholes n segs = records n (pending ++ segs.flatten) ↔ Repeats n pending segs := by
  induction segs generalizing pending with
  | nil =>
    rw [List.flatten_nil, List.append_nil, records_of_lt hpending]
    exact iff_of_true rfl trivial
  | cons seg segs ih =>
    have hle : seg.length ≤ n := hsegs seg List.mem_cons_self
    have hrest : ∀ seg ∈ segs, seg.length ≤ n :=
      fun b hb => hsegs b (List.mem_cons_of_mem seg hb)
    rw [List.flatten_cons, ← List.append_assoc, Repeats, wholes]
    have hlength : (pending ++ seg).length = pending.length + seg.length := List.length_append
    by_cases hseg : seg.length = n
    · have hnext : ((pending ++ seg).drop n).length < n := by
        rw [List.length_drop]
        omega
      have hfull : n ≤ (pending ++ seg).length := by omega
      have hstream : n ≤ ((pending ++ seg) ++ segs.flatten).length := by
        rw [List.length_append]
        omega
      rw [if_pos hseg, List.filter_cons_of_pos (by simpa using hseg), records_of_le hn hstream,
        List.take_append_of_le_length hfull, List.drop_append_of_le_length hfull, List.cons.injEq,
        ← ih hrest hnext, eq_comm (a := seg), wholes]
    · rw [if_neg hseg, List.filter_cons_of_neg (by simpa using hseg)]
      by_cases hfits : (pending ++ seg).length < n
      · rw [← ih hrest hfits, wholes, and_iff_right hfits]
      · -- a record is complete in which no segment is the whole record
        refine iff_of_false (fun heq => ?_) fun h => hfits h.1
        have hcount := congrArg List.length heq
        have hwholes := length_wholes_le hn segs
        have hmore : segs.flatten.length / n + 1 ≤
            ((pending ++ seg) ++ segs.flatten).length / n := by
          rw [← Nat.add_div_right _ hn]
          refine Nat.div_le_div_right ?_
          rw [List.length_append]
          omega
        rw [length_records] at hcount
        rw [wholes] at hwholes
        omega

end Records
