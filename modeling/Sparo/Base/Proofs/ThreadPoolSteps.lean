import Sparo.Base.ThreadPool
import Sparo.Misc.ThreadSum

/-!
# The steps of the thread pool

`StepTo` lists everything a step of the pool can do, with the guard under which it does it;
`WorkerTo` and `WaiterTo` do so for the step of one worker and of one `WaitForAllTasks` call.
The invariants of the pool are proved by cases on them.
-/

namespace Sparo.Base.ThreadPool

open StepSystem

variable {threadNum : Int} {s t : State} {a : Act}

/-- What a worker can do. `look`, `acquire` and `release` are the steps between two idle
places: they read, lock or unlock, and do nothing else. -/
inductive WorkerTo (s : State) : WorkerPc → State → WorkerPc → Prop where
  | look (pc pc' : WorkerPc) (hidle : pc.idle = true) (hidle' : pc'.idle = true)
      (hheld : pc'.holdsMutex = pc.holdsMutex) (hpeek : pc = .peek → s.tasks = []) :
      WorkerTo s pc s pc'
  | acquire (pc pc' : WorkerPc) (hfree : s.mutexHeld = false) (hidle : pc.idle = true)
      (hidle' : pc'.idle = true) (hheld : pc.holdsMutex = false) (hheld' : pc'.holdsMutex = true)
      (hpeek : pc ≠ .peek) : WorkerTo s pc { s with mutexHeld := true } pc'
  | release (pc pc' : WorkerPc) (hidle : pc.idle = true) (hidle' : pc'.idle = true)
      (hheld : pc.holdsMutex = true) (hheld' : pc'.holdsMutex = false) :
      WorkerTo s pc { s with mutexHeld := false } pc'
  | take (e : Enqueued) (rest : List Enqueued) (hfree : s.mutexHeld = false)
      (h : s.tasks = e :: rest) : WorkerTo s .peek { s with tasks := rest } (.holding e)
  | drop (e : Enqueued) (h : s.shouldQuit = true) :
      WorkerTo s (.holding e) { s with dropped := s.dropped ++ [e] } .exited
  | begin (e : Enqueued) (h : s.shouldQuit = false) : WorkerTo s (.holding e) s (.executing e)
  | execute (e : Enqueued) :
      WorkerTo s (.executing e) { s with executed := s.executed ++ [e] } (.decrement e)
  | decrement (e : Enqueued) :
      WorkerTo s (.decrement e)
        { s with
          activeTasks := decrementSize s.activeTasks
          settled := s.settled ++ [e]
          drains := if s.activeTasks = 1 then s.drains + 1 else s.drains } .reread
  | sawZero (h : s.activeTasks = 0) : WorkerTo s .reread s .lockToFinish
  | sawMore (h : s.activeTasks ≠ 0) : WorkerTo s .reread s .loopTop
  | lockFinish (hfree : s.mutexHeld = false) :
      WorkerTo s .lockToFinish { s with mutexHeld := true } .notifyFinished
  | notifyAll :
      WorkerTo s .notifyFinished
        { s with waiters := s.waiters.map fun w => { w with pc := w.pc.notified } } .testCallback
  | noCallback (h : s.completionCallback = 0) : WorkerTo s .testCallback s .leaveFinish
  | call (h : s.completionCallback ≠ 0) :
      WorkerTo s .testCallback { s with calls := s.calls + 1 }
        (.inCallback s.completionCallback s.callbackArg s.settled.length)
  | callReturn (callback arg : Addr) (settled : Nat) :
      WorkerTo s (.inCallback callback arg settled)
        { s with callbackReturns := s.callbackReturns ++ [(callback, arg, settled)] }
        .leaveFinish
  | unlockFinish : WorkerTo s .leaveFinish { s with mutexHeld := false } .loopTop

theorem workerTo_of_peekTask (hfree : s.mutexHeld = false) :
    WorkerTo s .peek (peekTask s).1 (peekTask s).2 := by
  unfold peekTask
  split
  · next htasks => exact .look _ _ rfl rfl rfl fun _ => htasks
  · next e rest htasks => exact .take e rest hfree htasks

theorem workerTo_of_workerNext {pc pc' : WorkerPc} (h : workerNext s pc = some pc') :
    WorkerTo s pc s pc' := by
  unfold workerNext at h
  split at h
  · cases h
    split <;> exact .look _ _ rfl rfl rfl (by simp)
  · cases h
    split <;> exact .look _ _ rfl rfl rfl (by simp)
  · cases h
    split
    · next hzero => exact .sawZero hzero
    · next hzero => exact .sawMore hzero
  · cases h

theorem workerTo_of_acquire {pc pc' : WorkerPc} (hfree : s.mutexHeld = false)
    (h : pc.acquire = some pc') : WorkerTo s pc { s with mutexHeld := true } pc' := by
  unfold WorkerPc.acquire at h
  split at h
  · cases h
    exact .acquire _ _ hfree rfl rfl rfl rfl (by simp)
  · cases h
    split <;> exact .acquire _ _ hfree rfl rfl rfl rfl (by simp)
  · cases h
    exact .lockFinish hfree
  · cases h

theorem workerTo_of_release {pc pc' : WorkerPc} (h : pc.release = some pc') :
    WorkerTo s pc { s with mutexHeld := false } pc' := by
  unfold WorkerPc.release at h
  split at h
  · cases h
    exact .release _ _ rfl rfl rfl rfl
  · cases h
    exact .release _ _ rfl rfl rfl rfl
  · cases h
    exact .unlockFinish
  · cases h

theorem workerTo_of_workerStep {pc pc' : WorkerPc} (h : workerStep s pc = some (t, pc')) :
    WorkerTo s pc t pc' := by
  unfold workerStep at h
  split at h
  · split at h
    · cases h
    · next hheld =>
      have hpeek := workerTo_of_peekTask (Bool.eq_false_iff.2 hheld)
      rw [Option.some.inj h] at hpeek
      exact hpeek
  · next e =>
    split at h
    · next hquit => cases h; exact .drop e hquit
    · next hquit => cases h; exact .begin e (Bool.eq_false_iff.2 hquit)
  · next e => cases h; exact .execute e
  · next e => cases h; exact .decrement e
  · cases h; exact .notifyAll
  · split at h
    · next hnull => cases h; exact .noCallback hnull
    · next hset => cases h; exact .call hset
  · next callback arg settled => cases h; exact .callReturn callback arg settled
  · split at h
    · next hacq =>
      split at h
      · cases h
      · next hheld => cases h; exact workerTo_of_acquire (Bool.eq_false_iff.2 hheld) hacq
    · next hrel => cases h; exact workerTo_of_release hrel
    · obtain ⟨pc'', hnext, heq⟩ := Option.map_eq_some_iff.1 h
      cases heq
      exact workerTo_of_workerNext hnext

/-- What a caller of `WaitForAllTasks` can do. -/
inductive WaiterTo (s : State) : WaiterPc → State → WaiterPc → Prop where
  | acquire (pc : WaiterPc) (hpc : pc = .lock ∨ pc = .relock) (hfree : s.mutexHeld = false) :
      WaiterTo s pc { s with mutexHeld := true } .evalPredicate
  | drained (h : s.activeTasks = 0) : WaiterTo s .evalPredicate s .leave
  | notDrained (h : s.activeTasks ≠ 0) : WaiterTo s .evalPredicate s .block
  | sleep : WaiterTo s .block { s with mutexHeld := false } .blocked
  | leave : WaiterTo s .leave { s with mutexHeld := false } .returned

theorem waiterTo_of_waiterStep {pc pc' : WaiterPc} (h : waiterStep s pc = some (t, pc')) :
    WaiterTo s pc t pc' := by
  unfold waiterStep at h
  split at h
  · split at h
    · cases h
    · next hheld => cases h; exact .acquire _ (Or.inl rfl) (Bool.eq_false_iff.2 hheld)
  · split at h
    · cases h
    · next hheld => cases h; exact .acquire _ (Or.inr rfl) (Bool.eq_false_iff.2 hheld)
  · split at h <;> cases h
    · next hzero => exact .drained hzero
    · next hzero => exact .notDrained hzero
  · cases h; exact .sleep
  · cases h; exact .leave
  · cases h
  · cases h

/-- What a step of the pool can do. -/
inductive StepTo (threadNum : Int) (s : State) : Act → State → Prop where
  | enqueue (task : Task) (hfree : s.mutexHeld = false) :
      StepTo threadNum s (.enqueue task) (enqueueTask s task)
  | notifyNobody (ticket : Nat) (hmem : ticket ∈ s.scheduling) :
      StepTo threadNum s (.scheduleWork ticket none)
        { s with
          scheduling := s.scheduling.erase ticket
          returned := s.returned ++ [ticket] }
  | notifyOne (ticket i : Nat) (hmem : ticket ∈ s.scheduling)
      (hi : s.workers[i]? = some .sleeping) :
      StepTo threadNum s (.scheduleWork ticket (some i))
        { s with
          workers := s.workers.set i (.relock false)
          scheduling := s.scheduling.erase ticket
          returned := s.returned ++ [ticket] }
  | worker (i : Nat) (pc pc' : WorkerPc) (t : State) (hi : s.workers[i]? = some pc)
      (h : WorkerTo s pc t pc') :
      StepTo threadNum s (.worker i) { t with workers := t.workers.set i pc' }
  | wakeWorker (i : Nat) (timedOut : Bool) (hi : s.workers[i]? = some .sleeping) :
      StepTo threadNum s (.wakeWorker i timedOut)
        { s with workers := s.workers.set i (.relock timedOut) }
  | waitForAllTasks :
      StepTo threadNum s .waitForAllTasks { s with waiters := s.waiters ++ [⟨.lock, s.returned⟩] }
  | waiter (j : Nat) (before : List Nat) (pc pc' : WaiterPc) (t : State)
      (hj : s.waiters[j]? = some ⟨pc, before⟩) (h : WaiterTo s pc t pc') :
      StepTo threadNum s (.waiter j) { t with waiters := t.waiters.set j ⟨pc', before⟩ }
  | wakeWaiter (j : Nat) (before : List Nat) (hj : s.waiters[j]? = some ⟨.blocked, before⟩) :
      StepTo threadNum s (.wakeWaiter j) { s with waiters := s.waiters.set j ⟨.relock, before⟩ }
  | setCompletionCallback (callback arg : Addr) (hfree : s.mutexHeld = false) :
      StepTo threadNum s (.setCompletionCallback callback arg)
        { s with completionCallback := callback, callbackArg := arg }
  | clearCompletionCallback (hfree : s.mutexHeld = false) :
      StepTo threadNum s .clearCompletionCallback
        { s with completionCallback := 0, callbackArg := 0 }
  | start (hpc : s.control = .idle) : StepTo threadNum s .start { s with control := .startStore }
  | stop (hpc : s.control = .idle) : StepTo threadNum s .stop { s with control := .stopStore }
  | startStore (hpc : s.control = .startStore) :
      StepTo threadNum s .control { s with shouldQuit := false, control := .spawn 0 }
  | spawn (index : Nat) (hpc : s.control = .spawn index) :
      StepTo threadNum s .control
        { s with workers := s.workers ++ [.loopTop], control := .spawn (index + 1) }
  | started (index : Nat) (hpc : s.control = .spawn index) :
      StepTo threadNum s .control { s with control := .idle }
  | quitStore (pc : ControlPc)
      (hpc : (s.control = .stopStore ∧ pc = .scheduleQuitStore) ∨
        (s.control = .scheduleQuitStore ∧ pc = .scheduleQuitNotify)) :
      StepTo threadNum s .control { s with shouldQuit := true, control := pc }
  | quitNotify (hpc : s.control = .scheduleQuitNotify) :
      StepTo threadNum s .control
        { s with workers := s.workers.map WorkerPc.notified, control := .join 0 }
  | join (index : Nat) (pc : ControlPc) (hpc : s.control = .join index)
      (hend : (s.workers[index]? = none ∧ pc = .idle) ∨
        (s.workers[index]? = some .exited ∧ pc = .join (index + 1))) :
      StepTo threadNum s .control { s with control := pc }

theorem stepTo_of_controlStep (h : controlStep threadNum s = some t) :
    StepTo threadNum s .control t := by
  unfold controlStep at h
  split at h
  · cases h
  · next hpc => cases h; exact .startStore hpc
  · next index hpc =>
    split at h
    · cases h; exact .spawn index hpc
    · cases h; exact .started index hpc
  · next hpc => cases h; exact .quitStore _ (Or.inl ⟨hpc, rfl⟩)
  · next hpc => cases h; exact .quitStore _ (Or.inr ⟨hpc, rfl⟩)
  · next hpc => cases h; exact .quitNotify hpc
  · next index hpc =>
    split at h
    · next hnone => cases h; exact .join index _ hpc (Or.inl ⟨hnone, rfl⟩)
    · next pc hsome =>
      split at h
      · next hend => cases h; exact .join index _ hpc (Or.inr ⟨hend ▸ hsome, rfl⟩)
      · cases h

theorem stepTo_of_scheduleWork {ticket : Nat} {woken : Option Nat}
    (h : step threadNum s (.scheduleWork ticket woken) = some t) :
    StepTo threadNum s (.scheduleWork ticket woken) t := by
  simp only [step] at h
  split at h
  · next hmem =>
    obtain ⟨u, hu, rfl⟩ := Option.map_eq_some_iff.1 h
    unfold scheduleWork at hu
    split at hu
    · split at hu
      · cases hu
      · cases hu; exact .notifyNobody ticket hmem
    · next i =>
      split at hu
      · next hi => cases hu; exact .notifyOne ticket i hmem hi
      · cases hu
  · cases h

/-- Every step is one of the listed ones. -/
theorem stepTo_of_step (h : step threadNum s a = some t) : StepTo threadNum s a t := by
  cases a with
  | enqueue task =>
    simp only [step] at h
    split at h
    · cases h
    · next hheld => cases h; exact .enqueue task (Bool.eq_false_iff.2 hheld)
  | scheduleWork ticket woken => exact stepTo_of_scheduleWork h
  | worker i =>
    simp only [step] at h
    split at h
    · cases h
    · next pc hi =>
      obtain ⟨⟨u, pc'⟩, hu, rfl⟩ := Option.map_eq_some_iff.1 h
      exact .worker i pc pc' u hi (workerTo_of_workerStep hu)
  | wakeWorker i timedOut =>
    simp only [step] at h
    split at h
    · next hi => cases h; exact .wakeWorker i timedOut hi
    · cases h
  | waitForAllTasks => cases h; exact .waitForAllTasks
  | waiter j =>
    simp only [step] at h
    split at h
    · cases h
    · next w hj =>
      obtain ⟨⟨u, pc'⟩, hu, rfl⟩ := Option.map_eq_some_iff.1 h
      exact .waiter j w.before w.pc pc' u hj (waiterTo_of_waiterStep hu)
  | wakeWaiter j =>
    simp only [step] at h
    split at h
    · next before hj => cases h; exact .wakeWaiter j before hj
    · cases h
  | setCompletionCallback callback arg =>
    simp only [step] at h
    split at h
    · cases h
    · next hheld => cases h; exact .setCompletionCallback _ _ (Bool.eq_false_iff.2 hheld)
  | clearCompletionCallback =>
    simp only [step] at h
    split at h
    · cases h
    · next hheld => cases h; exact .clearCompletionCallback (Bool.eq_false_iff.2 hheld)
  | start =>
    simp only [step] at h
    split at h
    · next hpc => cases h; exact .start hpc
    · cases h
  | stop =>
    simp only [step] at h
    split at h
    · next hpc => cases h; exact .stop hpc
    · cases h
  | control => exact stepTo_of_controlStep h

/-- A worker's step leaves the list of workers to the caller. -/
theorem WorkerTo.workers_eq {pc pc' : WorkerPc} (h : WorkerTo s pc t pc') :
    t.workers = s.workers := by
  cases h <;> rfl

end Sparo.Base.ThreadPool
