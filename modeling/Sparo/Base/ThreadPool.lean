import Sparo.Misc.StepSystem
import Mathlib.Algebra.Ring.Nat
import Mathlib.Data.Int.Order.Basic

/-!
# `ThreadPool`

The thread pool of `src/base/thread_pool.h` as a step system. Its parties are any number of
threads inside `EnqueueTask`, `WaitForAllTasks` or one of the callback setters, the worker
threads inside `WorkerMain`, and the thread that owns the pool and calls `Start` and `Stop`,
one call at a time (they share `workers_` without a lock).

A step is one access to shared data. `mutex_` is explicit, because the waits release it, the
predicates are evaluated under it and the completion callback runs under it. Three locked
scopes are single steps that need the mutex to be free: those of `PeekTask`, of the callback
setters and of `EnqueueTask`. The last one changes `tasks_`, which nobody reads without the
mutex, and then `active_tasks_`, so its two effects become visible together.
`active_tasks_` is atomic, and `active_tasks_--` and the comparison after it are two accesses;
`should_quit_` is read and written without the mutex. The counter is a natural number: 2^64 calls
of `EnqueueTask` are out of reach, while a decrement of 0 would wrap around.

A wait is an evaluation of its predicate, then an atomic unlock-and-block, then the
re-acquisition of the mutex after a notification, a time-out or a spurious wake-up. A
notification that finds nobody blocked has no effect.
-/

namespace Sparo.Base.ThreadPool

/-- A function pointer or a `void*`; 0 is `nullptr`. -/
abbrev Addr := Nat

/-- `ThreadPool::Task` (`thread_pool.h:24-27`). -/
structure Task where
  function : Addr
  argument : Addr
  deriving DecidableEq, Repr

/-- A task together with the number of its `EnqueueTask` call, counted in the order of the
pushes. The number is not part of the program's data; it tells equal tasks apart. -/
structure Enqueued where
  ticket : Nat
  task : Task
  deriving DecidableEq, Repr

/-- Where a worker is in `WorkerMain` (`thread_pool.h:90-125`). -/
inductive WorkerPc where
  /-- Before the first `if (should_quit_) break;`. -/
  | loopTop
  /-- Before locking `mutex_` for `condition_.wait_for`. -/
  | lockToWait
  /-- `wait_for`: holding `mutex_`, before evaluating the predicate. -/
  | evalPredicate
  /-- `wait_for`: the predicate was false; before unlocking and blocking. -/
  | block
  /-- `wait_for`: blocked. -/
  | sleeping
  /-- `wait_for`: woken up or timed out, before locking `mutex_` again. -/
  | relock (timedOut : Bool)
  /-- `wait_for` returned; before unlocking `mutex_`. -/
  | leaveWait
  /-- Before `PeekTask`. -/
  | peek
  /-- `PeekTask` returned `true`; before the second `if (should_quit_) break;`. -/
  | holding (e : Enqueued)
  /-- Inside `task.function(task.argument)`. -/
  | executing (e : Enqueued)
  /-- The function returned; before `active_tasks_--`. -/
  | decrement (e : Enqueued)
  /-- Before `if (active_tasks_ == 0)`. -/
  | reread
  /-- The counter was 0; before locking `mutex_`. -/
  | lockToFinish
  /-- Holding `mutex_`, before `finished_.notify_all()`. -/
  | notifyFinished
  /-- Holding `mutex_`, before `if (completion_callback_)`. -/
  | testCallback
  /-- Holding `mutex_`, inside the callback. `settled` is the number of tasks that had been
  executed and subtracted from `active_tasks_` when the call began. -/
  | inCallback (callback arg : Addr) (settled : Nat)
  /-- Before unlocking `mutex_`. -/
  | leaveFinish
  /-- `WorkerMain` returned. -/
  | exited
  deriving DecidableEq, Repr

/-- Where a caller is in `WaitForAllTasks` (`thread_pool.h:158-161`). -/
inductive WaiterPc where
  /-- Before locking `mutex_`. -/
  | lock
  /-- `finished_.wait`: holding `mutex_`, before evaluating the predicate. -/
  | evalPredicate
  /-- `finished_.wait`: the predicate was false; before unlocking and blocking. -/
  | block
  /-- `finished_.wait`: blocked. -/
  | blocked
  /-- `finished_.wait`: woken up, before locking `mutex_` again. -/
  | relock
  /-- `finished_.wait` returned; before unlocking `mutex_`. -/
  | leave
  | returned
  deriving DecidableEq, Repr

/-- A `WaitForAllTasks` call; `before` are the `EnqueueTask` calls that had returned when it
began. -/
structure Waiter where
  pc : WaiterPc
  before : List Nat
  deriving DecidableEq, Repr

/-- Where the owner of the pool is in `Start` and `Stop`. -/
inductive ControlPc where
  | idle
  /-- `Start`: before `should_quit_ = false`. -/
  | startStore
  /-- `Start`: before the comparison of `index` with `thread_num_`. -/
  | spawn (index : Nat)
  /-- `Stop`: before `should_quit_ = true`. -/
  | stopStore
  /-- `ScheduleQuit`: before `should_quit_ = true`. -/
  | scheduleQuitStore
  /-- `ScheduleQuit`: before `condition_.notify_all()`. -/
  | scheduleQuitNotify
  /-- `Stop`: before or inside the `join` of `workers_[index]`. -/
  | join (index : Nat)
  deriving DecidableEq, Repr

/-- The members of a `ThreadPool`, its threads, and what has happened so far. -/
structure State where
  tasks : List Enqueued := []
  shouldQuit : Bool := false
  mutexHeld : Bool := false
  activeTasks : Nat := 0
  completionCallback : Addr := 0
  callbackArg : Addr := 0
  /-- `workers_`; a joined worker stays in the vector. -/
  workers : List WorkerPc := []
  waiters : List Waiter := []
  control : ControlPc := .idle
  /-- `EnqueueTask` calls that have pushed their task and not yet notified. -/
  scheduling : List Nat := []
  /-- All tasks, in the order they were pushed. -/
  enqueued : List Enqueued := []
  /-- `EnqueueTask` calls that have returned. -/
  returned : List Nat := []
  /-- Tasks whose function has been called and has returned. -/
  executed : List Enqueued := []
  /-- Executed tasks that have been subtracted from `active_tasks_`. -/
  settled : List Enqueued := []
  /-- Tasks that a worker took from `tasks_` and gave up on `should_quit_`. -/
  dropped : List Enqueued := []
  /-- How often `active_tasks_` has gone from 1 to 0. -/
  drains : Nat := 0
  /-- How often the completion callback has been called. -/
  calls : Nat := 0
  /-- The calls of the completion callback that have returned: the function, its argument,
  and the number of settled tasks when the call began. -/
  callbackReturns : List (Addr × Addr × Nat) := []
  deriving DecidableEq, Repr

/-- A label picks the thread that moves and what the environment decides for it. -/
inductive Act where
  /-- `EnqueueTask`: the locked scope. -/
  | enqueue (task : Task)
  /-- `EnqueueTask`: `condition_.notify_one()`, which wakes the given worker if one is
  blocked, and the return of call `ticket`. -/
  | scheduleWork (ticket : Nat) (woken : Option Nat)
  /-- The next step of worker `i`. -/
  | worker (i : Nat)
  /-- The wait of worker `i` times out or wakes up spuriously. -/
  | wakeWorker (i : Nat) (timedOut : Bool)
  /-- `WaitForAllTasks` is called. -/
  | waitForAllTasks
  /-- The next step of the `j`-th `WaitForAllTasks` call. -/
  | waiter (j : Nat)
  /-- The wait of the `j`-th `WaitForAllTasks` call wakes up spuriously. -/
  | wakeWaiter (j : Nat)
  /-- `SetCompletionCallback`. -/
  | setCompletionCallback (callback arg : Addr)
  /-- `ClearCompletionCallback`. -/
  | clearCompletionCallback
  /-- The owner calls `Start`. -/
  | start
  /-- The owner calls `Stop`. -/
  | stop
  /-- The owner's next step inside its call. -/
  | control
  deriving DecidableEq, Repr

/-- `active_tasks_--` on a `size_t`. -/
def decrementSize (n : Nat) : Nat := if n = 0 then 2 ^ 64 - 1 else n - 1

/-- The worker has no task and is not at the end of one: it is at the top of its loop, in
`condition_.wait_for`, before `PeekTask`, or it has returned. -/
def WorkerPc.idle : WorkerPc → Bool
  | .loopTop | .lockToWait | .evalPredicate | .block | .sleeping | .relock _ | .leaveWait
  | .peek | .exited => true
  | _ => false

/-- The worker holds `mutex_`. -/
def WorkerPc.holdsMutex : WorkerPc → Bool
  | .evalPredicate | .block | .leaveWait | .notifyFinished | .testCallback | .inCallback _ _ _
  | .leaveFinish => true
  | _ => false

/-- The caller of `WaitForAllTasks` holds `mutex_`. -/
def WaiterPc.holdsMutex : WaiterPc → Bool
  | .evalPredicate | .block | .leave => true
  | _ => false

/-- What a notification of `condition_` does to a worker. -/
def WorkerPc.notified : WorkerPc → WorkerPc
  | .sleeping => .relock false
  | pc => pc

/-- What a notification of `finished_` does to a caller of `WaitForAllTasks`. -/
def WaiterPc.notified : WaiterPc → WaiterPc
  | .blocked => .relock
  | pc => pc

/-- The steps of a worker that lock `mutex_`. After a time-out `wait_for` evaluates its
predicate once more and returns whatever the value. -/
def WorkerPc.acquire : WorkerPc → Option WorkerPc
  | .lockToWait => some .evalPredicate
  | .relock timedOut => some (if timedOut then .leaveWait else .evalPredicate)
  | .lockToFinish => some .notifyFinished
  | _ => none

/-- The steps of a worker that unlock `mutex_`. -/
def WorkerPc.release : WorkerPc → Option WorkerPc
  | .block => some .sleeping
  | .leaveWait => some .peek
  | .leaveFinish => some .loopTop
  | _ => none

/-- The steps of a worker that only read. -/
def workerNext (s : State) : WorkerPc → Option WorkerPc
  | .loopTop => some (if s.shouldQuit then .exited else .lockToWait)
  | .evalPredicate => some (if s.shouldQuit || !s.tasks.isEmpty then .leaveWait else .block)
  | .reread => some (if s.activeTasks = 0 then .lockToFinish else .loopTop)
  | _ => none

/-- `PeekTask` (`thread_pool.h:127-135`); `WorkerMain` starts over when there is no task. -/
def peekTask (s : State) : State × WorkerPc :=
  match s.tasks with
  | [] => (s, .loopTop)
  | e :: tasks => ({ s with tasks }, .holding e)

/-- The next step of a worker at `pc`, and where it is afterwards. -/
def workerStep (s : State) (pc : WorkerPc) : Option (State × WorkerPc) :=
  match pc with
  | .peek => if s.mutexHeld then none else some (peekTask s)
  | .holding e =>
    if s.shouldQuit then some ({ s with dropped := s.dropped ++ [e] }, .exited)
    else some (s, .executing e)
  | .executing e => some ({ s with executed := s.executed ++ [e] }, .decrement e)
  | .decrement e =>
    some ({ s with
      activeTasks := decrementSize s.activeTasks
      settled := s.settled ++ [e]
      drains := if s.activeTasks = 1 then s.drains + 1 else s.drains }, .reread)
  | .notifyFinished =>
    some ({ s with waiters := s.waiters.map fun w => { w with pc := w.pc.notified } },
      .testCallback)
  | .testCallback =>
    if s.completionCallback = 0 then some (s, .leaveFinish)
    else some ({ s with calls := s.calls + 1 },
      .inCallback s.completionCallback s.callbackArg s.settled.length)
  | .inCallback callback arg settled =>
    some ({ s with callbackReturns := s.callbackReturns ++ [(callback, arg, settled)] },
      .leaveFinish)
  | pc =>
    match pc.acquire, pc.release with
    | some pc', _ => if s.mutexHeld then none else some ({ s with mutexHeld := true }, pc')
    | none, some pc' => some ({ s with mutexHeld := false }, pc')
    | none, none => (workerNext s pc).map fun pc' => (s, pc')

/-- The next step of a caller of `WaitForAllTasks` at `pc`. -/
def waiterStep (s : State) : WaiterPc → Option (State × WaiterPc)
  | .lock | .relock =>
    if s.mutexHeld then none else some ({ s with mutexHeld := true }, .evalPredicate)
  | .evalPredicate => some (s, if s.activeTasks = 0 then .leave else .block)
  | .block => some ({ s with mutexHeld := false }, .blocked)
  | .leave => some ({ s with mutexHeld := false }, .returned)
  | .blocked | .returned => none

/-- The locked scope of `EnqueueTask` (`thread_pool.h:138-143`). -/
def enqueueTask (s : State) (task : Task) : State :=
  let e : Enqueued := ⟨s.enqueued.length, task⟩
  { s with
    tasks := s.tasks ++ [e]
    activeTasks := s.activeTasks + 1
    scheduling := s.scheduling ++ [e.ticket]
    enqueued := s.enqueued ++ [e] }

/-- `ScheduleWork`: `notify_one` wakes one blocked worker, if there is any. -/
def scheduleWork (s : State) (woken : Option Nat) : Option State :=
  match woken with
  | none => if WorkerPc.sleeping ∈ s.workers then none else some s
  | some i =>
    if s.workers[i]? = some .sleeping then
      some { s with workers := s.workers.set i (.relock false) }
    else none

/-- The owner's next step inside `Start` (`thread_pool.h:77-88`) or `Stop`
(`thread_pool.h:148-156`). -/
def controlStep (threadNum : Int) (s : State) : Option State :=
  match s.control with
  | .idle => none
  | .startStore => some { s with shouldQuit := false, control := .spawn 0 }
  | .spawn index =>
    if (index : Int) < threadNum then
      some { s with workers := s.workers ++ [.loopTop], control := .spawn (index + 1) }
    else some { s with control := .idle }
  | .stopStore => some { s with shouldQuit := true, control := .scheduleQuitStore }
  | .scheduleQuitStore => some { s with shouldQuit := true, control := .scheduleQuitNotify }
  | .scheduleQuitNotify =>
    some { s with workers := s.workers.map WorkerPc.notified, control := .join 0 }
  | .join index =>
    match s.workers[index]? with
    | none => some { s with control := .idle }
    | some pc => if pc = .exited then some { s with control := .join (index + 1) } else none

/-- One step of a pool with `thread_num_ = threadNum`. -/
def step (threadNum : Int) (s : State) : Act → Option State
  | .enqueue task => if s.mutexHeld then none else some (enqueueTask s task)
  | .scheduleWork ticket woken =>
    if ticket ∈ s.scheduling then
      (scheduleWork s woken).map fun s => { s with
        scheduling := s.scheduling.erase ticket
        returned := s.returned ++ [ticket] }
    else none
  | .worker i =>
    match s.workers[i]? with
    | none => none
    | some pc => (workerStep s pc).map fun (t, pc') => { t with workers := t.workers.set i pc' }
  | .wakeWorker i timedOut =>
    if s.workers[i]? = some .sleeping then
      some { s with workers := s.workers.set i (.relock timedOut) }
    else none
  | .waitForAllTasks => some { s with waiters := s.waiters ++ [⟨.lock, s.returned⟩] }
  | .waiter j =>
    match s.waiters[j]? with
    | none => none
    | some w => (waiterStep s w.pc).map fun (t, pc') =>
        { t with waiters := t.waiters.set j { w with pc := pc' } }
  | .wakeWaiter j =>
    match s.waiters[j]? with
    | some ⟨.blocked, before⟩ => some { s with waiters := s.waiters.set j ⟨.relock, before⟩ }
    | _ => none
  | .setCompletionCallback callback arg =>
    if s.mutexHeld then none
    else some { s with completionCallback := callback, callbackArg := arg }
  | .clearCompletionCallback =>
    if s.mutexHeld then none else some { s with completionCallback := 0, callbackArg := 0 }
  | .start => if s.control = .idle then some { s with control := .startStore } else none
  | .stop => if s.control = .idle then some { s with control := .stopStore } else none
  | .control => controlStep threadNum s

/-- A pool after its constructor. -/
def init : State := {}

end Sparo.Base.ThreadPool
