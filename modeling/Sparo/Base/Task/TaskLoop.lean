import Sparo.Base.Task.LazilyDeallocatedDeque
import Sparo.Misc.StepSystem

/-!
# `TaskLoop`

The single-threaded task loop of `src/base/task/task_loop.{h,cc}` as a step system. Its
parties are any number of threads inside `PostTask`, the worker thread inside `Run`, and the
thread that owns the loop and calls `Start`, `Stop` and `WaitTaskFinished`, one call at a
time (they share `thread_` without a lock).

A step is one access to shared data. A section under `incoming_task_mutex_` is one step: all
accesses to `incoming_task_queue_` are made under that mutex. `should_quit_` is read and
written without a lock, so each such access is a step of its own. `work_cv_.wait` is
evaluating the predicate under `work_mutex_`, then an atomic unlock-and-block, then
re-acquiring the mutex after a wake-up, which may be spurious; a notification that finds
nobody blocked has no effect.
-/

namespace Sparo.Base.TaskLoop

open StepSystem

/-- `TaskLoop::Task` (`task_loop.h:21-24`); a null `std::function` is `none`. -/
structure Task (F : Type) where
  a : Int
  func : Option F
  deriving DecidableEq, Repr

/-- A task together with the number of its `PostTask` call, counted in the order in which the
calls append to `incoming_task_queue_`. The number is not part of the program's data; it
tells tasks with equal contents apart. -/
structure Posted (F : Type) where
  ticket : Nat
  task : Task F
  deriving DecidableEq, Repr

/-- Where the worker thread is in `Run`, `DoWork` and `ReloadWorkQueue`. -/
inductive WorkerPc (F : Type) where
  /-- `thread_` is null. -/
  | absent
  /-- `ReloadWorkQueue`: before `work_queue_.MaybeShrinkQueue()`. -/
  | shrink
  /-- `ReloadWorkQueue`: before taking `incoming_task_mutex_`. -/
  | reload
  /-- `DoWork`: before `if (work_queue_.empty()) break;`. -/
  | testEmpty
  /-- `DoWork`: before the `ShouldQuit()` that follows it. -/
  | testQuit
  /-- `DoWork`: before `work_queue_.front()` and `pop_front()`. -/
  | takeFront
  /-- `DoWork`: inside `task.func()`. -/
  | running (e : Posted F)
  /-- `DoWork`: before the `ShouldQuit()` after a null task. -/
  | testQuitAfterNull
  /-- `DoWork`: before `while (!work_queue_.empty())`. -/
  | testMore
  /-- `Run`: `DoWork` returned; before `if (ShouldQuit()) break;`. -/
  | afterDoWork (moreWorkIsPlausible : Bool)
  /-- `Run`: before locking `work_mutex_`. -/
  | lockWork
  /-- `work_cv_.wait`: holding `work_mutex_`, before evaluating the predicate. -/
  | evalPredicate
  /-- `work_cv_.wait`: the predicate was false; before unlocking and blocking. -/
  | block
  /-- `work_cv_.wait`: blocked. -/
  | blocked
  /-- `work_cv_.wait`: woken up, before locking `work_mutex_` again. -/
  | relock
  /-- `work_cv_.wait` returned; before unlocking `work_mutex_`. -/
  | leaveWait
  /-- `Run` returned; the thread has not been joined. -/
  | exited
  deriving DecidableEq, Repr

/-- Where the owner of the loop is in `Start`, `Stop` and `WaitTaskFinished`. -/
inductive ControlPc where
  | idle
  /-- `Start`: before `should_quit_ = false`. -/
  | startStore
  /-- `Start`: before the test of `thread_`. -/
  | startSpawn
  /-- `Stop`: before `should_quit_ = true`. -/
  | stopStore
  /-- `Stop`: before `work_cv_.notify_all()`. -/
  | stopNotify
  /-- `Stop`: before or inside `thread_->join()`. -/
  | stopJoin
  /-- `WaitTaskFinished`: in the scope of its lock, which it owns or not. -/
  | waitScope (ownsLock : Bool)
  deriving DecidableEq, Repr

/-- The members of a `TaskLoop`, its threads, and what has happened so far. -/
structure State (F : Type) where
  incomingTaskQueue : LazilyDeallocatedDeque (Posted F) := {}
  workQueue : LazilyDeallocatedDeque (Posted F) := {}
  shouldQuit : Bool := false
  worker : WorkerPc F := .absent
  control : ControlPc := .idle
  /-- `PostTask` calls that have appended their task and not yet notified. -/
  notifying : List Nat := []
  /-- All tasks, in the order they were appended to `incoming_task_queue_`. -/
  posted : List (Posted F) := []
  /-- `PostTask` calls that have returned. -/
  returned : List Nat := []
  /-- Tasks whose function has been called and has returned, in that order. -/
  ran : List (Posted F) := []
  /-- Tasks that were popped with a null function. -/
  nulls : List (Posted F) := []
  deriving DecidableEq, Repr

/-- A label picks the thread that moves and what the environment decides for it. -/
inductive Act (F : Type) where
  /-- `PostTask`: the locked append. -/
  | post (task : Task F)
  /-- `PostTask`: `work_cv_.notify_one()` and the return of call `ticket`. -/
  | notify (ticket : Nat)
  /-- The worker's next step; `now` is what `steady_clock::now` returns, if it is read. -/
  | worker (now : Int)
  /-- A spurious wake-up of `work_cv_.wait`. -/
  | wakeUp
  /-- The owner calls `Start`. -/
  | start
  /-- The owner calls `Stop`. -/
  | stop
  /-- The owner calls `WaitTaskFinished`, whose `try_to_lock` succeeds or not. -/
  | waitTaskFinished (ownsLock : Bool)
  /-- The owner's next step inside its call. -/
  | control
  deriving DecidableEq, Repr

variable {F : Type}

/-- The worker holds `work_mutex_`. -/
def WorkerPc.holdsWorkMutex : WorkerPc F → Bool
  | .evalPredicate | .block | .leaveWait => true
  | _ => false

/-- What a notification of `work_cv_` does to the worker. -/
def WorkerPc.notified : WorkerPc F → WorkerPc F
  | .blocked => .relock
  | pc => pc

/-- `PostTask` up to the end of its locked scope (`task_loop.cc:19-23`). -/
def postTask (s : State F) (task : Task F) : State F :=
  let e : Posted F := ⟨s.posted.length, task⟩
  { s with
    incomingTaskQueue := s.incomingTaskQueue.pushBack e
    notifying := s.notifying ++ [e.ticket]
    posted := s.posted ++ [e] }

/-- The locked scope of `ReloadWorkQueue` (`task_loop.cc:73-76`). -/
def reloadWorkQueue (s : State F) : State F :=
  if s.incomingTaskQueue.empty then s
  else
    let (incoming, work) := s.incomingTaskQueue.swap s.workQueue
    { s with incomingTaskQueue := incoming, workQueue := work }

/-- `DoWork` from `work_queue_.front()` to the test of `task.func` (`task_loop.cc:56-61`). The
front of an empty queue is undefined, so there is no step then. -/
def takeTask (s : State F) : Option (State F) :=
  match s.workQueue.front with
  | none => none
  | some e =>
    let s := { s with workQueue := s.workQueue.popFront }
    if e.task.func.isSome then some { s with worker := .running e }
    else some { s with worker := .testQuitAfterNull, nulls := s.nulls ++ [e] }

/-- The steps of the worker that only read shared data: the branches of `Run` and `DoWork`
and the waiting (`task_loop.cc:27-69`). -/
def workerNext (s : State F) : WorkerPc F → Option (WorkerPc F)
  | .testEmpty => some (if s.workQueue.empty then .afterDoWork false else .testQuit)
  | .testQuit => some (if s.shouldQuit then .afterDoWork true else .takeFront)
  | .testQuitAfterNull => some (if s.shouldQuit then .afterDoWork true else .testMore)
  | .testMore => some (if s.workQueue.empty then .shrink else .takeFront)
  | .afterDoWork moreWorkIsPlausible =>
    some (if s.shouldQuit then .exited else if moreWorkIsPlausible then .shrink else .lockWork)
  | .lockWork | .relock =>
    if s.control = .waitScope true then none else some .evalPredicate
  | .evalPredicate => some (if s.shouldQuit then .leaveWait else .block)
  | .block => some .blocked
  | .leaveWait => some .shrink
  | _ => none

/-- The worker's next step. -/
def workerStep (s : State F) (now : Int) : Option (State F) :=
  match s.worker with
  | .shrink =>
    some { s with workQueue := s.workQueue.maybeShrinkQueue now, worker := .reload }
  | .reload => some { reloadWorkQueue s with worker := .testEmpty }
  | .takeFront => takeTask s
  | .running e => some { s with worker := .afterDoWork true, ran := s.ran ++ [e] }
  | pc => (workerNext s pc).map fun pc' => { s with worker := pc' }

/-- The owner's next step inside `Start` (`task_loop.cc:79-87`), `Stop` (`task_loop.cc:89-97`)
or `WaitTaskFinished` (`task_loop.cc:99-108`). -/
def controlStep (s : State F) : Option (State F) :=
  match s.control with
  | .idle => none
  | .startStore => some { s with shouldQuit := false, control := .startSpawn }
  | .startSpawn =>
    match s.worker with
    | .absent => some { s with worker := .shrink, control := .idle }
    | _ => some { s with control := .idle }
  | .stopStore => some { s with shouldQuit := true, control := .stopNotify }
  | .stopNotify => some { s with worker := s.worker.notified, control := .stopJoin }
  | .stopJoin =>
    -- `join` returns when the thread has ended; `thread_.reset()` follows.
    match s.worker with
    | .absent | .exited => some { s with worker := .absent, control := .idle }
    | _ => none
  | .waitScope _ => some { s with control := .stopStore }

/-- The owner enters a call, if it is in none. -/
def call (s : State F) (pc : ControlPc) : Option (State F) :=
  if s.control = .idle then some { s with control := pc } else none

/-- One step of the loop. -/
def step (s : State F) : Act F → Option (State F)
  | .post task => some (postTask s task)
  | .notify ticket =>
    if ticket ∈ s.notifying then
      some { s with
        notifying := s.notifying.erase ticket
        returned := s.returned ++ [ticket]
        worker := s.worker.notified }
    else none
  | .worker now => workerStep s now
  | .wakeUp =>
    match s.worker with
    | .blocked => some { s with worker := .relock }
    | _ => none
  | .start => call s .startStore
  | .stop => call s .stopStore
  | .waitTaskFinished ownsLock =>
    if ownsLock ∧ s.worker.holdsWorkMutex then none else call s (.waitScope ownsLock)
  | .control => controlStep s

/-- The members before the constructor's `Start`. -/
def init : State F := {}

/-- The task whose function the worker is calling. -/
def State.current (s : State F) : List (Posted F) :=
  match s.worker with
  | .running e => [e]
  | _ => []

/-- The tasks whose function has been called, in that order. -/
def State.executed (s : State F) : List (Posted F) := s.ran ++ s.current

/-- The tasks with a function. -/
def nonNull (tasks : List (Posted F)) : List (Posted F) :=
  tasks.filter fun e => e.task.func.isSome

end Sparo.Base.TaskLoop
