import Sparo.Misc.StepSystem
import Mathlib.Algebra.Order.Ring.Int
import Mathlib.Algebra.Ring.Nat

/-!
# `PlatformThreadBase::Sleep`

The loop around `nanosleep` of `src/base/threading/platform_thread.cc`. A call of `nanosleep` is one
step. `time_t` and `long` have 64 bits.
-/

namespace Sparo.Base.PlatformThreadBase

structure Timespec where
  tvSec : Int
  tvNsec : Int
  deriving DecidableEq, Repr

namespace Timespec

/-- `nanosleep` accepts it. -/
def Valid (t : Timespec) : Prop := 0 ≤ t.tvSec ∧ 0 ≤ t.tvNsec ∧ t.tvNsec < 10 ^ 9

instance (t : Timespec) : Decidable t.Valid := inferInstanceAs (Decidable (_ ∧ _ ∧ _))

/-- The interval that it denotes. -/
def nanoseconds (t : Timespec) : Int := t.tvSec * 10 ^ 9 + t.tvNsec

/-- How the kernel reports an interval. -/
def ofNanoseconds (n : Nat) : Timespec := ⟨n / 10 ^ 9, n % 10 ^ 9⟩

end Timespec

/-- The first `sleep_time`. The quotient and the difference are computed in 64 bits, the product in
32. -/
def sleepTime (duration : UInt32) : Timespec :=
  let tvSec := duration.toNat / 1000
  let duration := UInt32.ofNat (duration.toNat - tvSec)
  { tvSec := tvSec, tvNsec := (duration * 1000 * 1000).toNat }

/-- The variables of `Sleep`, the arguments of its calls of `nanosleep` and what they have slept. -/
structure State where
  sleepTime : Timespec
  calls : List Timespec := []
  slept : Int := 0
  returned : Bool := false
  deriving DecidableEq, Repr

/-- What becomes of a call of `nanosleep`. -/
inductive Act where
  | completes
  /-- `EINTR` after this many nanoseconds, with the exact remaining time. -/
  | interrupted (nanoseconds : Nat)
  /-- `EINVAL`. -/
  | rejected
  deriving DecidableEq, Repr

namespace State

def start (duration : UInt32) : State := { sleepTime := PlatformThreadBase.sleepTime duration }

/-- The call with `sleep_time`, and the condition of the loop. -/
def nanosleep (s : State) : Act → Option State
  | .completes =>
    if s.sleepTime.Valid then
      some { s with
        calls := s.calls ++ [s.sleepTime]
        slept := s.slept + s.sleepTime.nanoseconds
        returned := true }
    else none
  | .interrupted n =>
    if s.sleepTime.Valid ∧ n ≤ s.sleepTime.nanoseconds then
      some { s with
        calls := s.calls ++ [s.sleepTime]
        slept := s.slept + n
        sleepTime := .ofNanoseconds (s.sleepTime.nanoseconds - n).toNat }
    else none
  | .rejected =>
    if s.sleepTime.Valid then none
    else some { s with calls := s.calls ++ [s.sleepTime], returned := true }

def step (s : State) (a : Act) : Option State := if s.returned then none else s.nanosleep a

end State

end Sparo.Base.PlatformThreadBase
