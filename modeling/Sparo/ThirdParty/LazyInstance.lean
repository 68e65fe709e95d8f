import Sparo.Misc.StepSystem
import Mathlib.Algebra.Ring.Nat
import Mathlib.Data.Int.Order.Basic

/-!
# Lazily created singletons

`GetOrCreateLazyPointer` of `src/third-party/base/lazy_instance_helpers.{h,cc}` and the callers of
it in `singleton.h`, as a step system of any number of calls of `Singleton::get` and
`Singleton::GetIfExists` on one atomic word. The word is 0 before the instance exists,
`kLazyInstanceStateCreating` while some thread creates it, and its address afterwards.

A step is one access to the word, or the call of the creator, which only the thread that set the
word to `kLazyInstanceStateCreating` makes. The registration of the destructor is commented out
in `CompleteLazyInstance`, so `OnExit` is never called and the word never goes back to 0.
-/

namespace Sparo.ThirdParty.LazyInstance

/-- A `uintptr_t`. -/
abbrev Word := BitVec 64

/-- `kLazyInstanceStateCreating` (`lazy_instance_helpers.h:19`). -/
def kLazyInstanceStateCreating : Word := 1#64

/-- `kLazyInstanceCreatedMask` (`lazy_instance_helpers.h:66-67`). -/
def kLazyInstanceCreatedMask : Word := ~~~kLazyInstanceStateCreating

/-- `instance & kLazyInstanceCreatedMask`, as a condition. -/
def isCreated (inst : Word) : Prop := inst &&& kLazyInstanceCreatedMask ≠ 0#64

instance decidableIsCreated (w : Word) : Decidable (isCreated w) :=
  inferInstanceAs (Decidable (_ ≠ _))

/-- The `Traits` of a singleton: `New`, which may depend on a state of type `κ` and returns null
or the address of an object, and `ResurrectForTesting`. -/
structure Traits (κ : Type) where
  new : κ → Word × κ
  resurrectForTesting : κ → κ
  aligned : ∀ k, (new k).1 ≠ kLazyInstanceStateCreating

/-- `StaticMemorySingletonTraits` (`singleton.h:98-128`) with its `buffer_`; the state is
`dead_`. -/
def staticMemorySingletonTraits (buffer : Word) (hbuffer : isCreated buffer) : Traits Bool where
  new dead := if dead then (0#64, true) else (buffer, true)
  resurrectForTesting _ := false
  aligned dead := by
    cases dead with
    | false =>
      rintro rfl
      exact hbuffer rfl
    | true =>
      show (0#64 : Word) ≠ kLazyInstanceStateCreating
      decide

/-- Where a call is in `GetIfExists`, `get` and `GetOrCreateLazyPointer`. -/
inductive Pc where
  /-- `GetIfExists`: before `instance_.load`. -/
  | loadIfExists
  /-- Before the first load of `GetOrCreateLazyPointer`. -/
  | load
  /-- `NeedsLazyInstance`: before the `compare_exchange_strong`. -/
  | compareExchange
  /-- `NeedsLazyInstance`: before a load that looks whether the creation is over. -/
  | spin
  /-- `NeedsLazyInstance` returned `true`; before `creator_func`. -/
  | create
  /-- `CompleteLazyInstance`: before the store. -/
  | complete (inst : Word)
  /-- `NeedsLazyInstance` returned `false`; before the last load. -/
  | reload
  | returned (inst : Word)
  deriving DecidableEq, Repr

/-- A call of `GetIfExists` or of `get`. -/
structure Call where
  ifExists : Bool
  pc : Pc
  deriving DecidableEq, Repr

/-- The word, the state of the creator, the calls, and what `creator_func` has returned so far. -/
structure State (κ : Type) where
  word : Word := 0#64
  creator : κ
  calls : List Call := []
  creations : List Word := []
  deriving DecidableEq

/-- A label picks what happens next. -/
inductive Act where
  /-- A call of `Singleton::get` (`singleton.h:232-241`). -/
  | get
  /-- A call of `Singleton::GetIfExists` (`singleton.h:245-257`). -/
  | getIfExists
  /-- The next step of the `i`-th call. -/
  | call (i : Nat)
  /-- `ResurrectForTesting`. -/
  | resurrectForTesting
  deriving DecidableEq, Repr

variable {κ : Type}

/-- The next step of a call at `pc`, and where it is afterwards. -/
def callStep (traits : Traits κ) (s : State κ) : Pc → Option (State κ × Pc)
  | .loadIfExists => some (s, if s.word = 0#64 then .returned 0#64 else .load)
  | .load => some (s, if isCreated s.word then .returned s.word else .compareExchange)
  | .compareExchange =>
    if s.word = 0#64 then some ({ s with word := kLazyInstanceStateCreating }, .create)
    else some (s, .spin)
  | .spin => some (s, if s.word = kLazyInstanceStateCreating then .spin else .reload)
  | .create =>
    let (inst, creator) := traits.new s.creator
    some ({ s with creator, creations := s.creations ++ [inst] }, .complete inst)
  | .complete inst => some ({ s with word := inst }, .returned inst)
  | .reload => some (s, .returned s.word)
  | .returned _ => none

/-- One step. -/
def step (traits : Traits κ) (s : State κ) : Act → Option (State κ)
  | .get => some { s with calls := s.calls ++ [⟨false, .load⟩] }
  | .getIfExists => some { s with calls := s.calls ++ [⟨true, .loadIfExists⟩] }
  | .call i =>
    match s.calls[i]? with
    | none => none
    | some c => (callStep traits s c.pc).map fun (t, pc) =>
        { t with calls := t.calls.set i { c with pc } }
  | .resurrectForTesting => some { s with creator := traits.resurrectForTesting s.creator }

/-- Before the first call. -/
def init (creator : κ) : State κ := { creator }

end Sparo.ThirdParty.LazyInstance
