import Sparo.Demo.Client
import Mathlib.Algebra.Ring.Nat
import Mathlib.Data.List.Induction

/-!
# What `ReadWithoutBlocking` accounts for

The loop is bounded by the size of a pointer instead of the size of the array, and what has been
read is forgotten where the next read has nothing.
-/

namespace Sparo.Demo.Reader

open StepSystem

variable {size : Int16} {results : List ReadResult} {s s' : Reader}

/-- No byte is stored at or beyond `buf[size]`, and a returned count is that of the bytes taken from
the descriptor and stored. -/
def Accounts (s : Reader) : Prop :=
  (∀ p ∈ s.stored, (p.2 : Int) < s.size.toInt) ∧
  ∀ rv, s.returned = some rv → 0 ≤ rv → rv = s.taken.length ∧ rv = s.stored.length

/-- The bytes that the reads deliver. -/
def received (results : List ReadResult) : Nat :=
  (results.map fun r => match r with
    | .bytes data => data.length
    | _ => 0).sum

/-- A read has had nothing. -/
def HadNothing (results : List ReadResult) : Prop :=
  ReadResult.endOfFile ∈ results ∨ ReadResult.wouldBlock ∈ results

instance (results : List ReadResult) : Decidable (HadNothing results) :=
  inferInstanceAs (Decidable (_ ∨ _))

/-- The state in terms of the results so far. -/
structure RunInv (size : Int16) (results : List ReadResult) (s : Reader) : Prop where
  size_eq : s.size = size
  taken : s.taken.length = received results
  bytesRead : s.bytesRead = s.taken.length
  stored : s.stored = s.taken.zipIdx
  running : s.returned = none → ¬HadNothing results
  returned : ∀ rv, s.returned = some rv →
    (HadNothing results → rv = 0) ∧ (¬HadNothing results → rv = -1 ∨ rv = s.taken.length)

theorem received_concat (results : List ReadResult) (r : ReadResult) :
    received (results ++ [r]) = received results + received [r] := by
  rw [received, List.map_append, List.sum_append]
  rfl

theorem hadNothing_concat {r : ReadResult} :
    HadNothing (results ++ [r]) ↔ HadNothing results ∨ r = .endOfFile ∨ r = .wouldBlock := by
  simp only [HadNothing, List.mem_append, List.mem_singleton]
  grind

/-- Only these two results are nothing. -/
theorem not_hadNothing_concat {r : ReadResult} (h : ¬HadNothing results) (hend : r ≠ .endOfFile)
    (hblock : r ≠ .wouldBlock) : ¬HadNothing (results ++ [r]) := by
  rw [hadNothing_concat]
  rintro (hr | hr | hr)
  · exact h hr
  · exact hend hr
  · exact hblock hr

/-- A turn that takes nothing, after which the function may have returned. -/
theorem RunInv.nothing_taken {r : ReadResult} (rv : Option Int) (hs : RunInv size results s)
    (hr : received [r] = 0) (hrunning : rv = none → ¬HadNothing (results ++ [r]))
    (hreturned : ∀ v, rv = some v → (HadNothing (results ++ [r]) → v = 0) ∧
      (¬HadNothing (results ++ [r]) → v = -1)) :
    RunInv size (results ++ [r]) { s with returned := rv } where
  size_eq := hs.size_eq
  taken := by
    rw [received_concat, hr, Nat.add_zero]
    exact hs.taken
  bytesRead := hs.bytesRead
  stored := hs.stored
  running := hrunning
  returned := fun v hv => ⟨(hreturned v hv).1, fun h => .inl ((hreturned v hv).2 h)⟩

/-- A turn in which the read has nothing. -/
theorem RunInv.had_nothing {r : ReadResult} (hs : RunInv size results s)
    (hr : r = .endOfFile ∨ r = .wouldBlock) :
    RunInv size (results ++ [r]) { s with returned := some 0 } := by
  have hnow : HadNothing (results ++ [r]) := hadNothing_concat.mpr (.inr hr)
  have hzero : received [r] = 0 := by
    rcases hr with rfl | rfl <;> rfl
  exact hs.nothing_taken _ hzero nofun fun v hv =>
    ⟨fun _ => (Option.some.inj hv).symm, fun h => absurd hnow h⟩

/-- A turn that takes bytes. -/
theorem RunInv.bytes (hs : RunInv size results s) (data : List UInt8)
    (hnothing : ¬HadNothing (results ++ [.bytes data])) :
    RunInv size (results ++ [.bytes data]) { s with
      bytesRead := s.bytesRead + data.length
      taken := s.taken ++ data
      stored := s.stored ++ data.zipIdx s.bytesRead
      returned := if s.bytesRead + data.length < sizeofBuf then none
        else some (s.bytesRead + data.length : Nat) } where
  size_eq := hs.size_eq
  taken := by
    rw [List.length_append, hs.taken, received_concat]
    rfl
  bytesRead := by
    rw [List.length_append, ← hs.bytesRead]
  stored := by
    rw [List.zipIdx_append, ← hs.stored, hs.bytesRead, Nat.zero_add]
  running := fun _ => hnothing
  returned := by
    intro rv hrv
    refine ⟨fun h => absurd h hnothing, fun _ => .inr ?_⟩
    dsimp only at hrv ⊢
    by_cases hfull : s.bytesRead + data.length < sizeofBuf
    · rw [if_pos hfull] at hrv
      cases hrv
    · rw [if_neg hfull] at hrv
      rw [← Option.some.inj hrv, List.length_append, ← hs.bytesRead]

theorem RunInv.step {r : ReadResult} (hs : RunInv size results s) (h : s.step r = some s') :
    RunInv size (results ++ [r]) s' := by
  unfold Reader.step at h
  split_ifs at h with hrunning
  have hnothing := hs.running hrunning
  cases r with
  | bytes data =>
    unfold turn at h
    dsimp only at h
    by_cases hdata : data ≠ [] ∧ data.length ≤ sizeofBuf - s.bytesRead
    · rw [if_pos hdata] at h
      rw [← Option.some.inj h]
      exact hs.bytes data (not_hadNothing_concat hnothing nofun nofun)
    · rw [if_neg hdata] at h
      cases h
  | endOfFile =>
    rw [← Option.some.inj h]
    exact hs.had_nothing (.inl rfl)
  | wouldBlock =>
    rw [← Option.some.inj h]
    exact hs.had_nothing (.inr rfl)
  | interrupted =>
    have hstep := hs.nothing_taken (r := .interrupted) none rfl
      (fun _ => not_hadNothing_concat hnothing nofun nofun) nofun
    rw [← hrunning] at hstep
    exact Option.some.inj h ▸ hstep
  | error =>
    rw [← Option.some.inj h]
    have hnow := not_hadNothing_concat (r := .error) hnothing nofun nofun
    exact hs.nothing_taken _ rfl nofun fun v hv =>
      ⟨fun h => absurd h hnow, fun _ => (Option.some.inj hv).symm⟩

theorem runInv_of_exec (hrun : exec Reader.step (start size) results = some s) :
    RunInv size results s := by
  induction results using List.reverseRecOn generalizing s with
  | nil =>
    rw [← Option.some.inj hrun]
    refine ⟨rfl, rfl, rfl, rfl, fun _ h => ?_, fun _ h => nomatch h⟩
    rcases h with h | h
    · cases h
    · cases h
  | append_singleton results r ih =>
    obtain ⟨t, ht, hstep⟩ := exec_concat_eq_some.mp hrun
    exact (ih ht).step hstep

/-- The stores lie below the size exactly if there are none or not more than that. -/
theorem forall_stored_iff (hs : RunInv size results s) :
    (∀ p ∈ s.stored, (p.2 : Int) < s.size.toInt) ↔
      received results = 0 ∨ (received results : Int) ≤ size.toInt := by
  rw [hs.size_eq, hs.stored, ← hs.taken]
  constructor
  · intro h
    rcases List.eq_nil_or_concat s.taken with hnil | ⟨front, b, hfront⟩
    · exact .inl (by rw [hnil, List.length_nil])
    · rw [List.concat_eq_append] at hfront
      have hlast := h (b, front.length) (by
        rw [hfront, List.mem_zipIdx_iff_getElem?]
        exact List.getElem?_concat_length)
      right
      rw [hfront, List.length_append, List.length_singleton]
      omega
  · rintro h ⟨b, k⟩ hp
    have hlt : k < s.taken.length := by
      have hget := List.mem_zipIdx_iff_getElem?.mp hp
      exact (List.getElem?_eq_some_iff.mp hget).1
    dsimp only
    omega

/-- The function accounts for every byte exactly if the bytes that the reads deliver fit the array,
and none have come before a read that had nothing. -/
theorem accounts_iff (hrun : exec Reader.step (start size) results = some s) :
    Accounts s ↔ (received results = 0 ∨ (received results : Int) ≤ size.toInt) ∧
      (HadNothing results → received results = 0) := by
  have hs := runInv_of_exec hrun
  have hlength : s.stored.length = s.taken.length := by
    rw [hs.stored, List.length_zipIdx]
  rw [Accounts, forall_stored_iff hs, and_congr_right_iff]
  intro _
  constructor
  · intro h hnothing
    cases hreturned : s.returned with
    | none => exact absurd hnothing (hs.running hreturned)
    | some rv =>
      have hzero := (hs.returned rv hreturned).1 hnothing
      have hcount := (h rv hreturned (by omega)).1
      rw [← hs.taken]
      omega
  · intro h rv hrv hnonneg
    obtain ⟨hnothing, hsomething⟩ := hs.returned rv hrv
    rw [hlength, and_self]
    by_cases hnow : HadNothing results
    · rw [hnothing hnow, hs.taken, h hnow]
      rfl
    · rcases hsomething hnow with hneg | hcount
      · omega
      · exact hcount

/-- Two reads deliver the eight bytes. -/
theorem accounts_iff_pieces :
    Accounts { start 8 with
        bytesRead := 8
        taken := [1, 2, 3, 4, 5, 6, 7, 8]
        stored := [1, 2, 3, 4, 5, 6, 7, 8].zipIdx
        returned := some 8 } ↔
      (received [.bytes [1, 2, 3], .interrupted, .bytes [4, 5, 6, 7, 8]] = 0 ∨
        (received [.bytes [1, 2, 3], .interrupted, .bytes [4, 5, 6, 7, 8]] : Int) ≤
          (8 : Int16).toInt) ∧
      (HadNothing [.bytes [1, 2, 3], .interrupted, .bytes [4, 5, 6, 7, 8]] →
        received [.bytes [1, 2, 3], .interrupted, .bytes [4, 5, 6, 7, 8]] = 0) :=
  accounts_iff (by decide)

/-- An array of four bytes, and eight of them to read; three bytes, and no more of them yet. -/
theorem not_accounts_for_every_byte :
    (∃ s, exec Reader.step (start 4) [.bytes [1, 2, 3, 4, 5, 6, 7, 8]] = some s ∧
      (8, 7) ∈ s.stored ∧ ¬Accounts s) ∧
    ∃ s, exec Reader.step (start 16) [.bytes [1, 2, 3], .wouldBlock] = some s ∧
      s.returned = some 0 ∧ s.taken = [1, 2, 3] ∧ ¬Accounts s := by
  constructor
  · obtain ⟨s, hrun, hsize, hstored⟩ :
        ∃ s, exec Reader.step (start 4) [.bytes [1, 2, 3, 4, 5, 6, 7, 8]] = some s ∧
          s.size = 4 ∧ (8, 7) ∈ s.stored := exists_exec_of_decide (by decide)
    refine ⟨s, hrun, hstored, fun h => ?_⟩
    have hlt := h.1 _ hstored
    rw [hsize] at hlt
    exact absurd hlt (by decide)
  · obtain ⟨s, hrun, hreturned, htaken⟩ :
        ∃ s, exec Reader.step (start 16) [.bytes [1, 2, 3], .wouldBlock] = some s ∧
          s.returned = some 0 ∧ s.taken = [1, 2, 3] := exists_exec_of_decide (by decide)
    refine ⟨s, hrun, hreturned, htaken, fun h => ?_⟩
    have hcount := (h.2 0 hreturned (Int.le_refl 0)).1
    rw [htaken] at hcount
    exact absurd hcount (by decide)

end Sparo.Demo.Reader
