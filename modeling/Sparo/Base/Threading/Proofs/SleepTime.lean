import Sparo.Base.Threading.Sleep

/-!
# What `Sleep` asks for

The seconds are taken off the duration as if they were milliseconds, so what is left over for the
nanoseconds is right only where there are no seconds.
-/

namespace Sparo.Base.PlatformThreadBase

open StepSystem

variable {duration : UInt32} {s s' : State} {t : Timespec}

/-- Every argument of `nanosleep` has its nanoseconds in range, the first one denotes the duration,
and the intervals slept add up to it. -/
def AsksForDuration (duration : UInt32) : Prop :=
  ∀ acts s, exec State.step (State.start duration) acts = some s →
    (∀ t ∈ s.calls, 0 ≤ t.tvNsec ∧ t.tvNsec < 10 ^ 9) ∧
    (∀ t, s.calls.head? = some t → t.nanoseconds = duration.toNat * 10 ^ 6) ∧
    (s.returned = true → s.slept = duration.toNat * 10 ^ 6)

/-! ## The first argument -/

/-- The milliseconds left over for the nanoseconds, which wrap. -/
theorem sleepTime_tvNsec (duration : UInt32) : (sleepTime duration).tvNsec =
    ((999 * (duration.toNat / 1000) + duration.toNat % 1000) * 10 ^ 6 % 2 ^ 32 : Nat) := by
  have hlt := duration.toNat_lt
  have hleft : (UInt32.ofNat (duration.toNat - duration.toNat / 1000)).toNat =
      999 * (duration.toNat / 1000) + duration.toNat % 1000 := by
    rw [UInt32.toNat_ofNat', Nat.mod_eq_of_lt (by omega)]
    omega
  have hthousand : (1000 : UInt32).toNat = 1000 := rfl
  have hmillion : 1000 * 1000 = 10 ^ 6 := rfl
  rw [sleepTime]
  dsimp only
  rw [UInt32.toNat_mul, UInt32.toNat_mul, hthousand, hleft, Nat.mod_mul_mod, Nat.mul_assoc,
    hmillion]

/-- A duration below a second is nanoseconds alone. -/
theorem sleepTime_of_lt (h : duration.toNat < 1000) :
    (sleepTime duration).Valid ∧ (sleepTime duration).nanoseconds = duration.toNat * 10 ^ 6 := by
  have hsec : (sleepTime duration).tvSec = 0 := by
    rw [sleepTime, Nat.div_eq_of_lt h]
    rfl
  have hnsec : (sleepTime duration).tvNsec = duration.toNat * 10 ^ 6 := by
    rw [sleepTime_tvNsec, Nat.div_eq_of_lt h, Nat.mod_eq_of_lt h]
    omega
  rw [Timespec.Valid, Timespec.nanoseconds, hsec, hnsec]
  omega

/-- No wrap of 32 bits makes up for the seconds that are left in the milliseconds. -/
theorem wrapped_ne {q : Nat} (r : Nat) (hpos : 0 < q) (hlt : q < 2 ^ 26) :
    (999 * q + r) * 10 ^ 6 % 2 ^ 32 ≠ r * 10 ^ 6 := by
  have hsplit : (999 * q + r) * 10 ^ 6 = 2 ^ 6 * (15609375 * q) + r * 10 ^ 6 := by omega
  intro h
  have hdvd : 2 ^ 6 * 2 ^ 26 ∣ (999 * q + r) * 10 ^ 6 - (999 * q + r) * 10 ^ 6 % 2 ^ 32 :=
    Nat.dvd_sub_mod _
  rw [h, hsplit, Nat.add_sub_cancel] at hdvd
  have hdvd' : 2 ^ 26 ∣ 15609375 * q := Nat.dvd_of_mul_dvd_mul_left (by decide) hdvd
  have hcoprime : Nat.Coprime (2 ^ 26) 15609375 := by decide
  exact absurd (Nat.le_of_dvd hpos (hcoprime.dvd_of_dvd_mul_left hdvd')) (Nat.not_le.mpr hlt)

/-- From one second on the first argument denotes another interval. -/
theorem sleepTime_ne (h : 1000 ≤ duration.toNat) :
    (sleepTime duration).nanoseconds ≠ duration.toNat * 10 ^ 6 := by
  have hlt := duration.toNat_lt
  have hne := wrapped_ne (q := duration.toNat / 1000) (duration.toNat % 1000) (by omega) (by omega)
  have hsec : (sleepTime duration).tvSec = (duration.toNat / 1000 : Nat) := rfl
  rw [Timespec.nanoseconds, sleepTime_tvNsec, hsec]
  generalize (999 * (duration.toNat / 1000) + duration.toNat % 1000) * 10 ^ 6 % 2 ^ 32 = n at hne
  omega

/-! ## Runs -/

theorem Timespec.ofNanoseconds_valid (n : Nat) :
    (ofNanoseconds n).Valid ∧ (ofNanoseconds n).nanoseconds = n := by
  rw [Valid, nanoseconds, ofNanoseconds]
  dsimp only
  omega

/-- Valid calls only, of which the first one is for `total`, and nothing slept is lost. -/
structure RunInv (total : Int) (s : State) : Prop where
  valid : s.sleepTime.Valid
  calls_valid : ∀ t ∈ s.calls, t.Valid
  first : ∀ t, (s.calls ++ [s.sleepTime]).head? = some t → t.nanoseconds = total
  pending : s.returned = false → s.slept + s.sleepTime.nanoseconds = total
  done : s.returned = true → s.slept = total

/-- What a step does to the interval that is left, where `nanosleep` accepts the argument. -/
theorem step_cases {a : Act} (hvalid : s.sleepTime.Valid) (h : s.step a = some s') :
    s.returned = false ∧
      (s' = { s with calls := s.calls ++ [s.sleepTime]
                     slept := s.slept + s.sleepTime.nanoseconds
                     returned := true } ∨
       ∃ n : Nat, n ≤ s.sleepTime.nanoseconds ∧
        s' = { s with calls := s.calls ++ [s.sleepTime]
                      slept := s.slept + n
                      sleepTime := .ofNanoseconds (s.sleepTime.nanoseconds - n).toNat }) := by
  unfold State.step at h
  split_ifs at h with hreturned
  refine ⟨Bool.eq_false_iff.mpr hreturned, ?_⟩
  cases a with
  | completes =>
    rw [State.nanosleep, if_pos hvalid] at h
    exact .inl (Option.some.inj h).symm
  | interrupted n =>
    by_cases hn : n ≤ s.sleepTime.nanoseconds
    · rw [State.nanosleep, if_pos ⟨hvalid, hn⟩] at h
      exact .inr ⟨n, hn, (Option.some.inj h).symm⟩
    · rw [State.nanosleep, if_neg fun hboth => hn hboth.2] at h
      cases h
  | rejected =>
    rw [State.nanosleep, if_pos hvalid] at h
    cases h

theorem RunInv.step {total : Int} {a : Act} (hs : RunInv total s) (h : s.step a = some s') :
    RunInv total s' := by
  have hcalls : ∀ t ∈ s.calls ++ [s.sleepTime], t.Valid := by
    intro t ht
    rcases List.mem_append.mp ht with ht | ht
    · exact hs.calls_valid t ht
    · exact List.mem_singleton.mp ht ▸ hs.valid
  have hfirst : ∀ t t', (s.calls ++ [s.sleepTime] ++ [t']).head? = some t →
      t.nanoseconds = total := by
    intro t t' ht
    rw [List.head?_append_of_ne_nil _ (by simp)] at ht
    exact hs.first t ht
  obtain ⟨hreturned, rfl | ⟨n, hn, rfl⟩⟩ := step_cases hs.valid h
  · exact ⟨hs.valid, hcalls, fun t ht => hfirst t _ ht, Bool.noConfusion,
      fun _ => hs.pending hreturned⟩
  · obtain ⟨hvalid, hnanoseconds⟩ :=
      Timespec.ofNanoseconds_valid (s.sleepTime.nanoseconds - n).toNat
    refine ⟨hvalid, hcalls, fun t ht => hfirst t _ ht, fun _ => ?_, fun h => ?_⟩
    · have hpending := hs.pending hreturned
      dsimp only
      rw [hnanoseconds]
      omega
    · rw [hreturned] at h
      cases h

/-- There is a first call, whether it sleeps or fails. -/
theorem exists_first_call (duration : UInt32) : ∃ a s, exec State.step (State.start duration) [a] =
    some s ∧ s.calls.head? = some (sleepTime duration) := by
  have hcall : ∃ a s, (State.start duration).nanosleep a = some s ∧
      s.calls.head? = some (sleepTime duration) := by
    by_cases hvalid : (State.start duration).sleepTime.Valid
    · refine ⟨.completes, ?_⟩
      rw [State.nanosleep, if_pos hvalid]
      exact ⟨_, rfl, rfl⟩
    · refine ⟨.rejected, ?_⟩
      rw [State.nanosleep, if_neg hvalid]
      exact ⟨_, rfl, rfl⟩
  obtain ⟨a, s, hs, hfirst⟩ := hcall
  have hstep : (State.start duration).step a = some s := (if_neg Bool.false_ne_true).trans hs
  exact ⟨a, s, exec_cons_eq_some.mpr ⟨s, hstep, rfl⟩, hfirst⟩

/-- `Sleep` asks for its duration, however often it is interrupted, exactly if that is less than a
second. -/
theorem asksForDuration_iff (duration : UInt32) :
    AsksForDuration duration ↔ duration.toNat < 1000 := by
  constructor
  · intro h
    by_contra hge
    obtain ⟨a, s, hrun, hfirst⟩ := exists_first_call duration
    exact sleepTime_ne (Nat.not_lt.mp hge) ((h [a] s hrun).2.1 _ hfirst)
  · intro hlt acts s hrun
    obtain ⟨hvalid, hnanoseconds⟩ := sleepTime_of_lt hlt
    have hstart : RunInv (duration.toNat * 10 ^ 6) (State.start duration) := by
      refine ⟨hvalid, ?_, ?_, fun _ => ?_, Bool.noConfusion⟩
      · intro t ht
        cases ht
      · rintro t ht
        cases ht
        exact hnanoseconds
      · exact (Int.zero_add _).trans hnanoseconds
    have hinv := exec_induct (I := RunInv (duration.toNat * 10 ^ 6))
      (fun _ _ _ hs _ h => hs.step h) hstart (stepsMeet_of_forall_mem fun _ _ => trivial) hrun
    refine ⟨fun t ht => (hinv.calls_valid t ht).2, fun t ht => hinv.first t ?_, hinv.done⟩
    rw [List.head?_append, ht]
    rfl

/-- `Sleep(1000)` sleeps for 1999 milliseconds. -/
theorem not_asksForDuration_second : ¬AsksForDuration 1000 := by
  intro h
  obtain ⟨s, hrun, hslept⟩ : ∃ s, exec State.step (State.start 1000) [.completes] = some s ∧
      s.returned = true ∧ s.slept = 1999 * 10 ^ 6 := exists_exec_of_decide (by decide)
  have hexact := (h _ _ hrun).2.2 hslept.1
  rw [hslept.2] at hexact
  exact absurd hexact (by decide)

end Sparo.Base.PlatformThreadBase
