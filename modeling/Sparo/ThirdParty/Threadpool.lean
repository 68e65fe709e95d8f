import Sparo.Misc.StepSystem
import Mathlib.Algebra.Ring.Nat
import Mathlib.Data.Int.Order.Basic

/-!
# `threadpool.c`

The C thread pool of `src/third-party/threadpool.c` as a step system. Its parties are the worker
threads inside `threadpool_thread`, the thread inside `threadpool_create`, and any number of
callers of `threadpool_enqueue` and `threadpool_destroy`, from the moment `threadpool_create` has
returned the pool until the pool is freed.

Everything shared is touched under `lock`, so a locked scope is one step that needs the mutex to
be free. The one scope that does not end with an unlock is that of a `threadpool_destroy` that
finds the pool shutting down: its `break` skips the `pthread_mutex_unlock`, and `mutexHeld` stays
set. `pthread_cond_wait` ends the scope of a worker: unlocking and blocking are one step, and a
worker that was woken up is before the lock again and evaluates the condition of its `while`
anew.

`pthread_create` may fail; `malloc`, the other pthread functions and `pthread_join` succeed.
Tasks return, and do not destroy their own pool.
-/

namespace Sparo.ThirdParty.Threadpool

/-- A function pointer or a `void*`; 0 is `NULL`. -/
abbrev Addr := Nat

/-- `threadpool_task_t` (`threadpool.c:53-56`). -/
structure Task where
  function : Addr
  argument : Addr
  deriving DecidableEq, Repr

/-- `MAX_THREADS` (`threadpool.h:63`). -/
def maxThreads : Int := 64

/-- `MAX_QUEUE` (`threadpool.h:64`). -/
def maxQueue : Int := 65536

/-! The values of `threadpool_error_t` (`threadpool.h:68-74`) that are returned where the
pthread functions succeed. -/

def threadpoolInvalid : Int := -1
def threadpoolQueueFull : Int := -3
def threadpoolShutdown : Int := -4

/-- `threadpool_graceful` (`threadpool.h:77`). -/
def threadpoolGraceful : BitVec 32 := 1

/-- The values of `pool->shutdown`. -/
inductive Shutdown where
  | notRequested
  | immediateShutdown
  | gracefulShutdown
  deriving DecidableEq, Repr

/-- `struct threadpool_t` (`threadpool.c:73-85`). A cell of `queue` that was never written is
`none`. -/
structure Pool where
  threadCount : Nat := 0
  queue : List (Option Task)
  queueSize : Nat
  head : Nat := 0
  tail : Nat := 0
  count : Nat := 0
  shutdown : Shutdown := .notRequested
  started : Int := 0
  deriving DecidableEq, Repr

/-- Where a worker is in `threadpool_thread` (`threadpool.c:263-300`). -/
inductive WorkerPc where
  /-- Before `pthread_mutex_lock`, or in `pthread_cond_wait` before it has the lock again. -/
  | lock
  /-- Blocked in `pthread_cond_wait`. -/
  | waiting
  /-- Inside `(*(task.function))(task.argument)`, with what the cell of the queue held. -/
  | running (task : Option Task)
  | exited
  deriving DecidableEq, Repr

/-- Where a caller of `threadpool_destroy` is (`threadpool.c:199-240`). -/
inductive DestroyerPc where
  /-- Before or inside `pthread_join(pool->threads[i], NULL)`. -/
  | join (i : Nat)
  /-- Before `threadpool_free`. -/
  | free
  /-- `threadpool_free`: `threads` and `queue` are freed; before `pthread_mutex_lock`. -/
  | freeLock
  | returned (err : Int)
  deriving DecidableEq, Repr

/-- Where `threadpool_create` is in its loop. -/
inductive Creation where
  /-- Before starting the next of `left` threads. -/
  | starting (left : Nat)
  /-- It has returned the pool. -/
  | created
  /-- A `pthread_create` failed: it destroys the pool and returns `NULL`. -/
  | failed
  deriving DecidableEq, Repr

/-- The pool, its threads, and what has happened so far. -/
structure State where
  pool : Pool
  creation : Creation
  mutexHeld : Bool := false
  workers : List WorkerPc := []
  destroyers : List DestroyerPc := []
  /-- How often `pool->threads` and `pool->queue` have been freed. -/
  arraysFreed : Nat := 0
  /-- How often `pool` has been freed. -/
  poolFreed : Nat := 0
  /-- The tasks that `threadpool_enqueue` has put in the queue, in order. -/
  accepted : List Task := []
  /-- What the workers have taken out of the queue, in order. -/
  begun : List (Option Task) := []
  /-- The tasks whose function has returned. -/
  finished : List (Option Task) := []
  deriving DecidableEq, Repr

/-- A label picks the thread that moves and what the environment decides for it. -/
inductive Act where
  /-- The next turn of the loop of `threadpool_create`, with the outcome of `pthread_create`. -/
  | createThread (succeeds : Bool)
  /-- A call of `threadpool_enqueue`; its `pthread_cond_signal` wakes the given worker. -/
  | enqueue (task : Task) (woken : Option Nat)
  /-- The next step of worker `i`. -/
  | worker (i : Nat)
  /-- The wait of worker `i` wakes up spuriously. -/
  | wakeWorker (i : Nat)
  /-- A call of `threadpool_destroy`, up to the end of its locked scope. -/
  | destroy (flags : BitVec 32)
  /-- The next step of the `j`-th call of `threadpool_destroy`. -/
  | destroyer (j : Nat)
  deriving DecidableEq, Repr

/-- `threadpool_enqueue` (`threadpool.c:148-197`) without the signal: the pool and the result. -/
def threadpoolEnqueue (pool : Pool) (task : Task) : Pool × Int :=
  let next := (pool.tail + 1) % pool.queueSize
  if task.function = 0 then (pool, threadpoolInvalid)
  else if pool.count = pool.queueSize then (pool, threadpoolQueueFull)
  else if pool.shutdown ≠ .notRequested then (pool, threadpoolShutdown)
  else ({ pool with
    queue := pool.queue.set pool.tail (some task)
    tail := next
    count := pool.count + 1 }, 0)

/-- The locked scope of `threadpool_thread` (`threadpool.c:268-289`, `295-297`). -/
def threadpoolThread (pool : Pool) : Pool × WorkerPc :=
  if pool.count = 0 ∧ pool.shutdown = .notRequested then (pool, .waiting)
  else if pool.shutdown = .immediateShutdown ∨
      (pool.shutdown = .gracefulShutdown ∧ pool.count = 0) then
    ({ pool with started := pool.started - 1 }, .exited)
  else
    ({ pool with head := (pool.head + 1) % pool.queueSize, count := pool.count - 1 },
      .running (pool.queue[pool.head]?).join)

/-- What `threadpool_destroy` stores in `pool->shutdown`. -/
def shutdownOfFlags (flags : BitVec 32) : Shutdown :=
  if flags &&& threadpoolGraceful ≠ 0 then .gracefulShutdown else .immediateShutdown

/-- `pthread_cond_signal` wakes one of the blocked workers, if there is any. -/
def signal (workers : List WorkerPc) : Option Nat → Option (List WorkerPc)
  | none => if WorkerPc.waiting ∈ workers then none else some workers
  | some i => if workers[i]? = some .waiting then some (workers.set i .lock) else none

/-- What `pthread_cond_broadcast` does to a worker. -/
def WorkerPc.notified : WorkerPc → WorkerPc
  | .waiting => .lock
  | pc => pc

/-- The next turn of the loop of `threadpool_create` with `left` threads to start
(`threadpool.c:129-137`). -/
def createThread (s : State) (left : Nat) : State :=
  { s with
    pool := { s.pool with threadCount := s.pool.threadCount + 1, started := s.pool.started + 1 }
    creation := if left = 1 then .created else .starting (left - 1)
    workers := s.workers ++ [.lock] }

/-- The locked scope of `threadpool_destroy` (`threadpool.c:206-225`). -/
def threadpoolDestroy (s : State) (flags : BitVec 32) : State :=
  if s.pool.shutdown ≠ .notRequested then
    { s with
      mutexHeld := true
      destroyers := s.destroyers ++ [.returned threadpoolShutdown] }
  else
    { s with
      pool := { s.pool with shutdown := shutdownOfFlags flags }
      workers := s.workers.map WorkerPc.notified
      destroyers := s.destroyers ++ [.join 0] }

/-- The next step of worker `i` at `pc`. -/
def workerStep (s : State) (i : Nat) : WorkerPc → Option State
  | .lock =>
    if s.mutexHeld then none
    else
      let (pool, pc) := threadpoolThread s.pool
      some { s with
        pool
        workers := s.workers.set i pc
        begun := match pc with
          | .running task => s.begun ++ [task]
          | _ => s.begun }
  | .running task =>
    some { s with workers := s.workers.set i .lock, finished := s.finished ++ [task] }
  | .waiting | .exited => none

/-- The next step of a caller of `threadpool_destroy` (`threadpool.c:227-239`) and of the
`threadpool_free` it calls (`threadpool.c:242-261`), whose result it ignores. -/
def destroyerStep (s : State) (j : Nat) : DestroyerPc → Option State
  | .join i =>
    if i < s.pool.threadCount then
      if s.workers[i]? = some .exited then
        some { s with destroyers := s.destroyers.set j (.join (i + 1)) }
      else none
    else some { s with destroyers := s.destroyers.set j .free }
  | .free =>
    if 0 < s.pool.started then some { s with destroyers := s.destroyers.set j (.returned 0) }
    else some { s with
      arraysFreed := s.arraysFreed + 1
      destroyers := s.destroyers.set j .freeLock }
  | .freeLock =>
    if s.mutexHeld then none
    else some { s with
      poolFreed := s.poolFreed + 1
      destroyers := s.destroyers.set j (.returned 0) }
  | .returned _ => none

/-- The pool may be passed to `threadpool_enqueue` and `threadpool_destroy`. -/
def State.usable (s : State) : Bool := s.creation = .created && s.poolFreed = 0

/-- One step. -/
def step (s : State) : Act → Option State
  | .createThread succeeds =>
    match s.creation with
    | .starting left =>
      if succeeds then some (createThread s left)
      else if s.mutexHeld then none
      else some (threadpoolDestroy { s with creation := .failed } 0)
    | .created | .failed => none
  | .enqueue task woken =>
    if !s.usable then none
    else if task.function ≠ 0 ∧ s.mutexHeld then none
    else
      match threadpoolEnqueue s.pool task with
      | (pool, 0) => (signal s.workers woken).map fun workers =>
          { s with pool, workers, accepted := s.accepted ++ [task] }
      | (_, _) => if woken = none then some s else none
  | .worker i => (s.workers[i]?).bind (workerStep s i)
  | .wakeWorker i =>
    if s.workers[i]? = some .waiting then some { s with workers := s.workers.set i .lock }
    else none
  | .destroy flags =>
    if !s.usable || s.mutexHeld then none else some (threadpoolDestroy s flags)
  | .destroyer j => (s.destroyers[j]?).bind (destroyerStep s j)

/-- `threadpool_create` (`threadpool.c:96-126`) up to its loop; `none` where it returns `NULL`
for the arguments. -/
def threadpoolCreate (threadCount queueSize : Int) : Option State :=
  if threadCount ≤ 0 ∨ threadCount > maxThreads ∨ queueSize ≤ 0 ∨ queueSize > maxQueue then
    none
  else some {
    pool := { queue := List.replicate queueSize.toNat none, queueSize := queueSize.toNat }
    creation := .starting threadCount.toNat }

end Sparo.ThirdParty.Threadpool
