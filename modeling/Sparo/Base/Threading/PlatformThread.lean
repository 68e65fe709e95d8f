import Sparo.Misc.StepSystem
import Mathlib.Data.Int.Order.Basic

/-!
# `PlatformThreadBase::CurrentId`

The cached thread id of `src/base/threading/platform_thread.cc` in its Linux build, over the
processes and threads that `fork` and `pthread_create` make. A call is one step. The kernel gives
out ids that are not in use.
-/

namespace Sparo.Base.PlatformThread

open StepSystem

/-- A thread, with its thread-local variables. -/
structure Thread where
  /-- What `gettid` returns. -/
  tid : Int
  /-- `g_thread_id`. -/
  threadId : Int := -1
  /-- `g_is_main_thread`. -/
  isMainThread : Bool := true
  deriving DecidableEq, Repr

/-- A process, with its globals. -/
structure Process where
  /-- What `getpid` returns. -/
  pid : Int
  threads : List Thread
  /-- `g_main_thread_tid_cache_valid`. -/
  mainThreadTidCacheValid : Bool := false
  /-- `init_at_fork` is constructed, and so `InvalidateTidCache` is registered. -/
  initAtFork : Bool := false
  deriving DecidableEq, Repr

namespace Process

/-- `InvalidateTidCache`. -/
def invalidateTidCache (p : Process) : Process := { p with mainThreadTidCacheValid := false }

/-- `CurrentId` (`platform_thread.cc:147-180`): the globals and the variables of the calling thread
after it. It returns `g_thread_id`. -/
def currentId (p : Process) (th : Thread) : Process × Thread :=
  let p := { p with initAtFork := true }
  if th.threadId = -1 ∨ (th.isMainThread = true ∧ p.mainThreadTidCacheValid = false) then
    let th := { th with threadId := th.tid }
    if th.threadId = p.pid then ({ p with mainThreadTidCacheValid := true }, th)
    else (p, { th with isMainThread := false })
  else (p, th)

/-- The child of a `fork`: a copy of the globals and of the forking thread, whose id is the child's
process id, after the registered handlers. -/
def child (p : Process) (th : Thread) (pid : Int) : Process :=
  let c := { p with pid := pid, threads := [{ th with tid := pid }] }
  if c.initAtFork then c.invalidateTidCache else c

end Process

/-- All processes, and for every call of `CurrentId` the id of its thread and what it returned. -/
structure System where
  processes : List Process
  returned : List (Int × Int) := []
  deriving DecidableEq, Repr

namespace System

/-- One process with its main thread. -/
def start (pid : Int) : System := { processes := [{ pid := pid, threads := [{ tid := pid }] }] }

/-- Thread `t` of process `p`. -/
def thread? (s : System) (p t : Nat) : Option (Process × Thread) :=
  s.processes[p]?.bind fun pr => pr.threads[t]?.map fun th => (pr, th)

/-- The kernel may give out the id. -/
def Fresh (s : System) (id : Int) : Prop :=
  0 < id ∧ ∀ p ∈ s.processes, ∀ th ∈ p.threads, th.tid ≠ id

instance (s : System) (id : Int) : Decidable (s.Fresh id) :=
  inferInstanceAs (Decidable (_ ∧ ∀ _ ∈ _, ∀ _ ∈ _, _))

/-- What a thread does. -/
inductive Act where
  /-- A thread of process `p` creates one with this id. -/
  | createThread (p : Nat) (tid : Int)
  /-- Thread `t` of process `p` calls `fork`, and the child has this id. -/
  | fork (p t : Nat) (pid : Int)
  | currentId (p t : Nat)
  deriving DecidableEq, Repr

/-- One step. -/
def step (s : System) : Act → Option System
  | .createThread p tid => s.processes[p]?.bind fun pr =>
      if s.Fresh tid then
        some { s with processes :=
          s.processes.set p { pr with threads := pr.threads ++ [{ tid := tid }] } }
      else none
  | .fork p t pid => (s.thread? p t).bind fun (pr, th) =>
      if s.Fresh pid then some { s with processes := s.processes ++ [pr.child th pid] } else none
  | .currentId p t => (s.thread? p t).map fun (pr, th) =>
      let (pr', th') := pr.currentId th
      { processes := s.processes.set p { pr' with threads := pr.threads.set t th' }
        returned := s.returned ++ [(th.tid, th'.threadId)] }

end System

end Sparo.Base.PlatformThread
