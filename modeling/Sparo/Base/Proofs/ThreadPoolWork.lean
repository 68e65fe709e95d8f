import Sparo.Base.Proofs.ThreadPoolWaiters
import Sparo.Misc.Potential

/-!
# The work left in the pool

A bound on the steps that the workers, the callers of `EnqueueTask` and `WaitForAllTasks` and the
owner can still take by themselves. A worker goes around its loop again only after it has taken
a task, and goes to sleep when there is none; notifications are paid for by those who make them.
-/

namespace Sparo.Base.ThreadPool

open StepSystem ThreadSum

variable {threadNum : Int} {s t : State} {a : Act}

/-- The steps of a worker until it sleeps or has returned, with `quit` for `should_quit_`,
`queued` for a queue that is not empty and `n` callers to notify. A task that it takes is
paid for by the queue. -/
def WorkerPc.rank (quit queued : Bool) (n : Nat) : WorkerPc → Nat
  | .sleeping | .exited => 0
  | .block => 1
  | .evalPredicate => if quit || queued then 7 else 2
  | .lockToWait | .relock false => if quit || queued then 8 else 3
  | .loopTop => if !quit && queued then 9 else 4
  | .peek => 5
  | .leaveWait => 6
  | .relock true => 7
  | .leaveFinish => 10
  | .inCallback _ _ _ => 11
  | .testCallback => 12
  | .notifyFinished => 3 * n + 13
  | .lockToFinish => 3 * n + 14
  | .reread => 3 * n + 15
  | .decrement _ => 3 * n + 16
  | .executing _ => 3 * n + 17
  | .holding _ => 3 * n + 18

/-- The steps of a caller of `WaitForAllTasks` until it is blocked or has returned. -/
def WaiterPc.rank : WaiterPc → Nat
  | .lock | .relock => 3
  | .evalPredicate => 2
  | .block | .leave => 1
  | .blocked | .returned => 0

/-- The steps of the owner in a call of `Start` or `Stop`, and what they cost `n` workers. -/
def ControlPc.rank (threadNum : Int) (n : Nat) : ControlPc → Nat
  | .idle => 0
  | .startStore => 5 * n + 10 * threadNum.toNat + 2
  | .spawn index => 10 * (threadNum.toNat - index) + 1
  | .stopStore => 19 * n + 4
  | .scheduleQuitStore => 14 * n + 3
  | .scheduleQuitNotify => 9 * n + 2
  | .join index => n - index + 1

/-- What the workers still have to do. -/
def State.workersRank (s : State) : Nat :=
  total (WorkerPc.rank s.shouldQuit (!s.tasks.isEmpty) s.waiters.length) s.workers

/-- What the callers of `WaitForAllTasks` still have to do. -/
def State.waitersRank (s : State) : Nat := total (fun w => w.pc.rank) s.waiters

/-- The steps that the pool can still take by itself at most. -/
def State.work (threadNum : Int) (s : State) : Nat :=
  s.workersRank + s.waitersRank + s.control.rank threadNum s.workers.length +
    (3 * s.waiters.length + 14) * s.tasks.length + 9 * s.scheduling.length

/-! ## What changes everybody's rank -/

/-- Setting or clearing `should_quit_` may send a worker around its loop once more. -/
theorem rank_quit_le (quit quit' queued : Bool) (n : Nat) (pc : WorkerPc) :
    pc.rank quit' queued n ≤ pc.rank quit queued n + 5 := by
  cases pc with
  | relock timedOut =>
    cases timedOut <;> cases quit <;> cases quit' <;> cases queued <;> simp [WorkerPc.rank]
  | loopTop | evalPredicate | lockToWait =>
    cases quit <;> cases quit' <;> cases queued <;> simp [WorkerPc.rank]
  | _ => exact Nat.le_add_right _ 5

/-- A worker has less to do when the queue is empty. -/
theorem rank_queued_le (quit queued : Bool) (n : Nat) (pc : WorkerPc) :
    pc.rank quit queued n ≤ pc.rank quit true n := by
  cases pc with
  | relock timedOut => cases timedOut <;> cases quit <;> cases queued <;> simp [WorkerPc.rank]
  | loopTop | evalPredicate | lockToWait => cases quit <;> cases queued <;> simp [WorkerPc.rank]
  | _ => exact Nat.le_refl _

theorem rank_notified_le (quit queued : Bool) (n : Nat) (pc : WorkerPc) :
    pc.notified.rank quit queued n ≤ pc.rank quit queued n + 8 := by
  cases pc with
  | sleeping => cases quit <;> cases queued <;> simp [WorkerPc.rank, WorkerPc.notified]
  | _ => exact Nat.le_add_right _ 8

theorem waiter_rank_notified_le (pc : WaiterPc) : pc.notified.rank ≤ pc.rank + 3 := by
  cases pc <;> decide

theorem waiter_rank_pos {pc : WaiterPc} {u : State} {pc' : WaiterPc} (h : WaiterTo s pc u pc') :
    pc'.rank + 1 ≤ pc.rank := by
  cases h with
  | acquire pc hpc hfree => rcases hpc with rfl | rfl <;> exact Nat.le_refl 3
  | drained h => exact Nat.le_refl 2
  | notDrained h => exact Nat.le_refl 2
  | sleep => exact Nat.le_refl 1
  | leave => exact Nat.le_refl 1

/-! ## The steps of a worker -/

/-- The rank of a worker at `pc` in this state. -/
def State.rank (s : State) (pc : WorkerPc) : Nat :=
  pc.rank s.shouldQuit (!s.tasks.isEmpty) s.waiters.length

theorem rank_acquire {pc pc' : WorkerPc} (h : pc.acquire = some pc') :
    s.rank pc' + 1 ≤ s.rank pc := by
  cases pc with
  | lockToWait =>
    cases h
    simp only [State.rank, WorkerPc.rank]
    split <;> omega
  | relock timedOut =>
    cases timedOut with
    | true =>
      cases h
      exact Nat.le_refl 7
    | false =>
      cases h
      change s.rank .evalPredicate + 1 ≤ s.rank (.relock false)
      simp only [State.rank, WorkerPc.rank]
      split <;> omega
  | lockToFinish =>
    cases h
    exact Nat.le_refl _
  | _ => cases h

theorem rank_release {pc pc' : WorkerPc} (h : pc.release = some pc') :
    s.rank pc' + 1 ≤ s.rank pc := by
  cases pc with
  | block =>
    cases h
    exact Nat.le_refl 1
  | leaveWait =>
    cases h
    exact Nat.le_refl 6
  | leaveFinish =>
    cases h
    simp only [State.rank, WorkerPc.rank]
    split <;> omega
  | _ => cases h

theorem rank_workerNext {pc pc' : WorkerPc} (h : workerNext s pc = some pc') :
    s.rank pc' + 1 ≤ s.rank pc := by
  cases pc with
  | loopTop =>
    cases h
    cases hquit : s.shouldQuit <;> cases htasks : s.tasks <;>
      simp [State.rank, WorkerPc.rank, hquit, htasks]
  | evalPredicate =>
    cases h
    cases hquit : s.shouldQuit <;> cases htasks : s.tasks <;>
      simp [State.rank, WorkerPc.rank, hquit, htasks]
  | reread =>
    cases h
    simp only [State.rank]
    split
    · exact Nat.le_refl _
    · simp only [WorkerPc.rank]
      split <;> omega
  | _ => cases h

/-- What a step of a worker does to the work: it uses one step up, it takes a task, or it
notifies the callers of `WaitForAllTasks`. -/
theorem worker_pays {pc pc' : WorkerPc} (h : workerStep s pc = some (t, pc')) :
    t.shouldQuit = s.shouldQuit ∧ t.workers = s.workers ∧ t.control = s.control ∧
      t.scheduling = s.scheduling ∧
      ((t.tasks = s.tasks ∧ t.waiters = s.waiters ∧ s.rank pc' + 1 ≤ s.rank pc) ∨
        (t.waiters = s.waiters ∧ ∃ e, s.tasks = e :: t.tasks ∧ pc = .peek ∧ pc' = .holding e) ∨
        (t.tasks = s.tasks ∧ t.waiters = s.waiters.map (fun w => { w with pc := w.pc.notified }) ∧
          s.rank pc' + 3 * s.waiters.length + 1 ≤ s.rank pc)) := by
  unfold workerStep at h
  split at h
  · split at h
    · cases h
    · unfold peekTask at h
      split at h
      · next htasks =>
        cases h
        refine ⟨rfl, rfl, rfl, rfl, .inl ⟨rfl, rfl, ?_⟩⟩
        simp [State.rank, WorkerPc.rank, htasks]
      · next e tasks htasks =>
        cases h
        exact ⟨rfl, rfl, rfl, rfl, .inr (.inl ⟨rfl, e, htasks, rfl, rfl⟩)⟩
  · split at h
    · cases h
      exact ⟨rfl, rfl, rfl, rfl, .inl ⟨rfl, rfl, by simp [State.rank, WorkerPc.rank]⟩⟩
    · cases h
      exact ⟨rfl, rfl, rfl, rfl, .inl ⟨rfl, rfl, Nat.le_refl _⟩⟩
  · cases h
    exact ⟨rfl, rfl, rfl, rfl, .inl ⟨rfl, rfl, Nat.le_refl _⟩⟩
  · cases h
    exact ⟨rfl, rfl, rfl, rfl, .inl ⟨rfl, rfl, Nat.le_refl _⟩⟩
  · cases h
    refine ⟨rfl, rfl, rfl, rfl, .inr (.inr ⟨rfl, rfl, ?_⟩)⟩
    simp only [State.rank, WorkerPc.rank]
    omega
  · split at h
    · cases h
      exact ⟨rfl, rfl, rfl, rfl, .inl ⟨rfl, rfl, by simp [State.rank, WorkerPc.rank]⟩⟩
    · cases h
      exact ⟨rfl, rfl, rfl, rfl, .inl ⟨rfl, rfl, Nat.le_refl _⟩⟩
  · cases h
    exact ⟨rfl, rfl, rfl, rfl, .inl ⟨rfl, rfl, Nat.le_refl _⟩⟩
  · split at h
    · next hacquire =>
      split at h
      · cases h
      · cases h
        exact ⟨rfl, rfl, rfl, rfl, .inl ⟨rfl, rfl, rank_acquire hacquire⟩⟩
    · next hrelease =>
      cases h
      exact ⟨rfl, rfl, rfl, rfl, .inl ⟨rfl, rfl, rank_release hrelease⟩⟩
    · obtain ⟨pc'', hnext, heq⟩ := Option.map_eq_some_iff.1 h
      cases heq
      exact ⟨rfl, rfl, rfl, rfl, .inl ⟨rfl, rfl, rank_workerNext hnext⟩⟩

theorem waitersRank_notified_le (waiters : List Waiter) :
    total (fun w => w.pc.rank) (waiters.map fun w => { w with pc := w.pc.notified }) ≤
      total (fun w => w.pc.rank) waiters + 3 * waiters.length := by
  induction waiters with
  | nil => exact Nat.le_refl 0
  | cons w waiters ih =>
    have hw := waiter_rank_notified_le w.pc
    simp only [total, List.map_cons, List.sum_cons, List.length_cons] at ih ⊢
    omega

theorem work_worker {i : Nat} {pc pc' : WorkerPc} (hi : s.workers[i]? = some pc)
    (h : workerStep s pc = some (t, pc')) :
    State.work threadNum { t with workers := t.workers.set i pc' } + 1 ≤ s.work threadNum := by
  obtain ⟨hquit, hworkers, hcontrol, hscheduling, hpays⟩ := worker_pays h
  have hset := total_set hi
    (WorkerPc.rank s.shouldQuit (!s.tasks.isEmpty) s.waiters.length) pc'
  simp only [State.work, State.workersRank, State.waitersRank, hquit, hworkers, hcontrol,
    hscheduling, List.length_set]
  rcases hpays with ⟨htasks, hwaiters, hrank⟩ | ⟨hwaiters, e, htasks, rfl, rfl⟩ |
    ⟨htasks, hwaiters, hrank⟩
  · rw [htasks, hwaiters]
    unfold State.rank at hrank
    omega
  · -- the queue pays for the task that was taken
    have hqueued := total_le_total
      (rank_queued_le s.shouldQuit (!t.tasks.isEmpty) s.waiters.length)
      (s.workers.set i (.holding e))
    simp only [htasks, WorkerPc.rank, List.isEmpty_cons, Bool.not_false] at hset
    rw [hwaiters, htasks]
    simp only [List.isEmpty_cons, Bool.not_false, List.length_cons, Nat.mul_succ]
    omega
  · have hnotified := waitersRank_notified_le s.waiters
    rw [htasks, hwaiters, List.length_map]
    unfold State.rank at hrank
    omega

/-! ## The other steps -/

/-- A step of the pool itself: the environment only wakes who waits. -/
def Act.internal : Act → Bool
  | .scheduleWork _ _ | .worker _ | .wakeWorker _ _ | .waiter _ | .wakeWaiter _ | .control => true
  | .enqueue _ | .waitForAllTasks | .setCompletionCallback _ _ | .clearCompletionCallback
  | .start | .stop => false

/-- A time-out or a spurious wake-up. -/
def Act.wakes : Act → Bool
  | .wakeWorker _ _ | .wakeWaiter _ => true
  | _ => false

theorem workersRank_quit_le (s : State) (quit : Bool) :
    total (WorkerPc.rank quit (!s.tasks.isEmpty) s.waiters.length) s.workers ≤
      s.workersRank + 5 * s.workers.length := by
  unfold State.workersRank
  induction s.workers with
  | nil => exact Nat.le_refl 0
  | cons pc workers ih =>
    have hpc := rank_quit_le s.shouldQuit quit (!s.tasks.isEmpty) s.waiters.length pc
    simp only [total, List.map_cons, List.sum_cons, List.length_cons] at ih ⊢
    omega

theorem workersRank_notified_le (s : State) :
    total (WorkerPc.rank s.shouldQuit (!s.tasks.isEmpty) s.waiters.length)
      (s.workers.map WorkerPc.notified) ≤ s.workersRank + 8 * s.workers.length := by
  unfold State.workersRank
  induction s.workers with
  | nil => exact Nat.le_refl 0
  | cons pc workers ih =>
    have hpc := rank_notified_le s.shouldQuit (!s.tasks.isEmpty) s.waiters.length pc
    simp only [total, List.map_cons, List.sum_cons, List.length_cons] at ih ⊢
    omega

theorem work_wake (threadNum : Int) (timedOut : Bool) {i : Nat}
    (hi : s.workers[i]? = some .sleeping) :
    State.work threadNum { s with workers := s.workers.set i (.relock timedOut) } ≤
      s.work threadNum + 8 := by
  have hset := total_set hi (WorkerPc.rank s.shouldQuit (!s.tasks.isEmpty) s.waiters.length)
    (.relock timedOut)
  have hrank : (WorkerPc.relock timedOut).rank s.shouldQuit (!s.tasks.isEmpty) s.waiters.length ≤
      8 := by
    cases timedOut with
    | true => exact Nat.le_succ 7
    | false =>
      simp only [WorkerPc.rank]
      split <;> omega
  simp only [State.work, State.workersRank, State.waitersRank, List.length_set]
  omega

theorem work_control (h : controlStep threadNum s = some t) :
    t.work threadNum + 1 ≤ s.work threadNum := by
  unfold controlStep at h
  split at h
  · cases h
  · next hpc =>
    cases h
    have hquit := workersRank_quit_le s false
    simp only [State.work, hpc, ControlPc.rank, Nat.sub_zero]
    unfold State.workersRank State.waitersRank at *
    dsimp only
    omega
  · next index hpc =>
    split at h
    · next hlt =>
      cases h
      have hspawned : WorkerPc.loopTop.rank s.shouldQuit (!s.tasks.isEmpty) s.waiters.length ≤
          9 := by
        simp only [WorkerPc.rank]
        split <;> omega
      have hsum : total (WorkerPc.rank s.shouldQuit (!s.tasks.isEmpty) s.waiters.length)
          (s.workers ++ [.loopTop]) = s.workersRank +
            WorkerPc.loopTop.rank s.shouldQuit (!s.tasks.isEmpty) s.waiters.length := by
        simp [total, State.workersRank]
      simp only [State.work, hpc, ControlPc.rank]
      unfold State.workersRank State.waitersRank at *
      dsimp only
      omega
    · cases h
      simp only [State.work, State.workersRank, State.waitersRank, hpc, ControlPc.rank]
      omega
  · next hpc =>
    cases h
    have hquit := workersRank_quit_le s true
    simp only [State.work, hpc, ControlPc.rank]
    unfold State.workersRank State.waitersRank at *
    dsimp only
    omega
  · next hpc =>
    cases h
    have hquit := workersRank_quit_le s true
    simp only [State.work, hpc, ControlPc.rank]
    unfold State.workersRank State.waitersRank at *
    dsimp only
    omega
  · next hpc =>
    cases h
    have hnotified := workersRank_notified_le s
    simp only [State.work, hpc, ControlPc.rank, List.length_map]
    unfold State.workersRank State.waitersRank at *
    dsimp only
    omega
  · next index hpc =>
    split at h
    · cases h
      simp only [State.work, State.workersRank, State.waitersRank, hpc, ControlPc.rank]
      omega
    · next pc hindex =>
      obtain ⟨hlt, -⟩ := List.getElem?_eq_some_iff.1 hindex
      split at h
      · cases h
        simp only [State.work, State.workersRank, State.waitersRank, hpc, ControlPc.rank]
        omega
      · cases h

/-- Every step of the pool uses up some of the work, but for what a wake-up gives back. -/
theorem work_step (ha : a.internal = true) (h : step threadNum s a = some t) :
    t.work threadNum + 1 ≤ s.work threadNum + if a.wakes then 9 else 0 := by
  cases a with
  | enqueue task => cases ha
  | waitForAllTasks => cases ha
  | setCompletionCallback callback arg => cases ha
  | clearCompletionCallback => cases ha
  | start => cases ha
  | stop => cases ha
  | scheduleWork ticket woken =>
    change t.work threadNum + 1 ≤ s.work threadNum
    cases stepTo_of_scheduleWork h with
    | notifyNobody ticket hmem =>
      have hlen := List.length_erase_of_mem hmem
      have hpos := List.length_pos_of_mem hmem
      simp only [State.work, State.workersRank, State.waitersRank]
      omega
    | notifyOne ticket i hmem hi =>
      have hwake := work_wake threadNum false hi
      have hlen := List.length_erase_of_mem hmem
      have hpos := List.length_pos_of_mem hmem
      simp only [State.work, State.workersRank, State.waitersRank] at hwake ⊢
      omega
  | worker i =>
    simp only [step] at h
    split at h
    · cases h
    · next pc hi =>
      obtain ⟨⟨u, pc'⟩, hu, rfl⟩ := Option.map_eq_some_iff.1 h
      exact work_worker hi hu
  | wakeWorker i timedOut =>
    simp only [step] at h
    split at h
    · next hi =>
      cases h
      exact Nat.succ_le_succ (work_wake _ _ hi)
    · cases h
  | waiter j =>
    simp only [step] at h
    split at h
    · cases h
    · next w hj =>
      obtain ⟨⟨u, pc'⟩, hu, rfl⟩ := Option.map_eq_some_iff.1 h
      obtain ⟨pc, before⟩ := w
      have hto : WaiterTo s pc u pc' := waiterTo_of_waiterStep hu
      have hpays := waiter_rank_pos hto
      have hset : total (fun w => w.pc.rank) (s.waiters.set j ⟨pc', before⟩) + pc.rank =
          s.waitersRank + pc'.rank := total_set hj (fun w : Waiter => w.pc.rank) ⟨pc', before⟩
      change _ ≤ s.work threadNum
      unfold State.work
      cases hto <;>
        (simp only [State.workersRank, State.waitersRank, List.length_set] at hset ⊢
         omega)
  | wakeWaiter j =>
    simp only [step] at h
    split at h
    · next before hj =>
      cases h
      have hset := total_set hj (fun w => w.pc.rank) ⟨.relock, before⟩
      simp only [State.work, State.workersRank, State.waitersRank, List.length_set, WaiterPc.rank,
        Act.wakes, if_true] at hset ⊢
      omega
    · cases h
  | control => exact work_control h

end Sparo.Base.ThreadPool
