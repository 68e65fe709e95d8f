import Sparo.Base.Proofs.ThreadPoolMutex

/-!
# The completion callback fires once per drain

`active_tasks_--`, the re-read of the counter and the lock acquisition before the callback are
three separate steps. When two workers decrement before either of them re-reads, both find 0 and
both call the callback; when a task is enqueued in between, the callback is skipped or runs
while a task is queued. On a run without such an overlap the calls and the drains match.
-/

namespace Sparo.Base.ThreadPool

open StepSystem ThreadSum

variable {threadNum : Int} {s t : State} {a : Act} {i : Nat} {pc pc' : WorkerPc}

/-- Past a re-read that found 0 and before the callback. -/
def WorkerPc.passed : WorkerPc → Nat
  | .lockToFinish | .notifyFinished | .testCallback => 1
  | _ => 0

/-- Between `active_tasks_--` and the re-read. -/
def WorkerPc.rereading : WorkerPc → Nat
  | .reread => 1
  | _ => 0

/-- The callback has been called once for each time `active_tasks_` went from 1 to 0, but for
the drains whose worker is still on its way; and a call starts while no task is queued or
executing. -/
structure CallsMatchDrains (s : State) : Prop where
  atMost : s.calls + total WorkerPc.passed s.workers ≤ s.drains
  whenIdle : (∀ pc ∈ s.workers, pc.idle = true) → s.calls = s.drains
  drained : .testCallback ∈ s.workers → s.tasks = [] ∧ ∀ e, .executing e ∉ s.workers

/-- The step leaves a callback installed. -/
def KeepsCallback : Act → Prop
  | .setCompletionCallback callback _ => callback ≠ 0
  | .clearCompletionCallback => False
  | _ => True

instance : DecidablePred KeepsCallback
  | .setCompletionCallback callback _ => inferInstanceAs (Decidable (callback ≠ 0))
  | .clearCompletionCallback => isFalse id
  | .enqueue _ | .scheduleWork _ _ | .worker _ | .wakeWorker _ _ | .waitForAllTasks | .waiter _
  | .wakeWaiter _ | .start | .stop | .control => isTrue trivial

/-- Before `active_tasks_--`. -/
def WorkerPc.isDecrement : WorkerPc → Bool
  | .decrement _ => true
  | _ => false

/-- A drain is not disturbed: a worker that brings the counter to 0 finds no other worker between
its decrement and its re-read, and a task that raises the counter from 0 finds no worker between
its decrement and the lock before the callback. -/
def DrainsApart (s : State) : Act → Prop
  | .enqueue _ => s.activeTasks = 0 →
      WorkerPc.reread ∉ s.workers ∧ WorkerPc.lockToFinish ∉ s.workers
  | .worker i => s.activeTasks = 1 → s.workers[i]?.any WorkerPc.isDecrement = true →
      WorkerPc.reread ∉ s.workers
  | _ => True

instance (s : State) : ∀ a, Decidable (DrainsApart s a)
  | .enqueue _ => inferInstanceAs (Decidable (_ → _ ∧ _))
  | .worker _ => inferInstanceAs (Decidable (_ → _ → _))
  | .scheduleWork _ _ | .wakeWorker _ _ | .waitForAllTasks | .waiter _ | .wakeWaiter _
  | .setCompletionCallback _ _ | .clearCompletionCallback | .start | .stop | .control =>
    isTrue trivial

/-- The invariant of undisturbed drains. A worker that re-reads a counter of 0 is one that the
callback is still owed to. -/
structure Owed (s : State) : Prop where
  installed : s.completionCallback ≠ 0
  count : s.calls + total WorkerPc.passed s.workers +
    (if s.activeTasks = 0 then total WorkerPc.rereading s.workers else 0) = s.drains
  zero : s.activeTasks ≠ 0 → total WorkerPc.passed s.workers = 0

/-- What is counted. -/
def State.counters (s : State) : Nat × Nat × Nat := (s.calls, s.drains, s.activeTasks)

/-- A step that changes neither the counters nor which workers are finishing. -/
theorem Owed.frame (h : Owed s) (hinstalled : t.completionCallback ≠ 0)
    (hcounters : t.counters = s.counters)
    (hpassed : total WorkerPc.passed t.workers = total WorkerPc.passed s.workers)
    (hrereading : total WorkerPc.rereading t.workers = total WorkerPc.rereading s.workers) :
    Owed t := by
  simp only [State.counters, Prod.mk.injEq] at hcounters
  obtain ⟨hcalls, hdrains, hactive⟩ := hcounters
  refine ⟨hinstalled, ?_, ?_⟩
  · rw [hcalls, hdrains, hactive, hpassed, hrereading]
    exact h.count
  · rw [hactive, hpassed]
    exact h.zero

theorem idle_passed (h : pc.idle = true) : pc.passed = 0 ∧ pc.rereading = 0 := by
  cases pc <;> first | exact ⟨rfl, rfl⟩ | cases h

theorem total_rereading_eq_zero (h : WorkerPc.reread ∉ s.workers) :
    total WorkerPc.rereading s.workers = 0 := by
  refine total_eq_zero_iff.2 fun pc hpc => ?_
  cases pc with
  | reread => exact absurd hpc h
  | _ => rfl

/-- While `mutex_` is free, only a worker that waits for it is past its re-read. -/
theorem total_passed_eq_zero (hmutex : MutexOk s) (hfree : s.mutexHeld = false)
    (h : WorkerPc.lockToFinish ∉ s.workers) : total WorkerPc.passed s.workers = 0 := by
  refine total_eq_zero_iff.2 fun pc hpc => ?_
  have hheld := hmutex.worker_of_free hfree hpc
  cases pc with
  | lockToFinish => exact absurd hpc h
  | notifyFinished | testCallback => cases hheld
  | _ => rfl

theorem owed_decrement {e : Enqueued} (h : Owed s) (hbal : s.ledger.Balanced)
    (hi : s.workers[i]? = some (.decrement e)) (hok : DrainsApart s (.worker i)) :
    Owed { s with
      activeTasks := decrementSize s.activeTasks
      settled := s.settled ++ [e]
      drains := if s.activeTasks = 1 then s.drains + 1 else s.drains
      workers := s.workers.set i .reread } := by
  have hpos : s.activeTasks ≠ 0 := fun hzero =>
    not_decrement hbal hzero e (List.mem_of_getElem? hi)
  have hnone := h.zero hpos
  have hcount := h.count
  rw [if_neg hpos] at hcount
  have hpassed := total_set hi WorkerPc.passed .reread
  have hrereading := total_set hi WorkerPc.rereading .reread
  simp only [WorkerPc.passed, WorkerPc.rereading] at hpassed hrereading
  refine ⟨h.installed, ?_, fun _ => by dsimp only; omega⟩
  dsimp only
  by_cases hone : s.activeTasks = 1
  · -- the drain: this worker alone is about to re-read
    have hothers := total_rereading_eq_zero (hok hone (by rw [hi]; rfl))
    rw [hone, if_pos rfl, if_pos (show decrementSize 1 = 0 from rfl)]
    omega
  · have hmore : decrementSize s.activeTasks ≠ 0 := by
      rw [decrementSize, if_neg hpos]
      omega
    rw [if_neg hone, if_neg hmore]
    omega

theorem owed_worker (h : Owed s) (hbal : s.ledger.Balanced) (hi : s.workers[i]? = some pc)
    (hok : DrainsApart s (.worker i)) (hto : WorkerTo s pc t pc') :
    Owed { t with workers := t.workers.set i pc' } := by
  have hpassed := total_set hi WorkerPc.passed pc'
  have hrereading := total_set hi WorkerPc.rereading pc'
  have hkeep : t.completionCallback = s.completionCallback → t.counters = s.counters →
      pc'.passed = pc.passed → pc'.rereading = pc.rereading →
      Owed { t with workers := t.workers.set i pc' } := by
    intro hinstalled hcounters hpc hpc'
    refine h.frame (hinstalled ▸ h.installed) hcounters ?_ ?_
    · rw [hto.workers_eq]
      exact total_set_of_eq hi hpc
    · rw [hto.workers_eq]
      exact total_set_of_eq hi hpc'
  obtain ⟨hinstalled, hcount, hzero⟩ := h
  cases hto with
  | look _ _ hidle hidle' | acquire _ _ _ hidle hidle' | release _ _ hidle hidle' =>
    obtain ⟨h1, h2⟩ := idle_passed hidle
    obtain ⟨h3, h4⟩ := idle_passed hidle'
    exact hkeep rfl rfl (h3.trans h1.symm) (h4.trans h2.symm)
  | decrement e => exact owed_decrement ⟨hinstalled, hcount, hzero⟩ hbal hi hok
  | sawZero hdrained =>
    simp only [WorkerPc.passed, WorkerPc.rereading] at hpassed hrereading
    rw [if_pos hdrained] at hcount
    refine ⟨hinstalled, ?_, fun hne => absurd hdrained hne⟩
    simp only [hdrained, if_true]
    omega
  | sawMore hne =>
    simp only [WorkerPc.passed, WorkerPc.rereading] at hpassed hrereading
    rw [if_neg hne] at hcount
    refine ⟨hinstalled, ?_, fun _ => ?_⟩
    · simp only [hne, if_false]
      omega
    · have := hzero hne
      dsimp only
      omega
  | noCallback hnull => exact absurd hnull hinstalled
  | call hset =>
    simp only [WorkerPc.passed, WorkerPc.rereading] at hpassed hrereading
    refine ⟨hinstalled, ?_, fun hne => ?_⟩
    · simp only
      split at hcount
      · next hdrained =>
        rw [if_pos hdrained]
        omega
      · next hne =>
        have := hzero hne
        omega
    · have := hzero hne
      dsimp only
      omega
  | _ => exact hkeep rfl rfl rfl rfl

theorem owed_step (h : Owed s) (hbal : s.ledger.Balanced) (hmutex : MutexOk s)
    (hok : DrainsApart s a) (hkeeps : KeepsCallback a) (hstep : StepTo threadNum s a t) :
    Owed t := by
  cases hstep with
  | worker i pc pc' t hi hto => exact owed_worker h hbal hi hok hto
  | enqueue task hfree =>
    obtain ⟨hinstalled, hcount, hzero⟩ := h
    by_cases hdrained : s.activeTasks = 0
    · -- the task finds no worker on its way to the callback
      obtain ⟨hreread, hlock⟩ := hok hdrained
      have hpassed := total_passed_eq_zero hmutex hfree hlock
      refine ⟨hinstalled, ?_, fun _ => hpassed⟩
      rw [if_pos hdrained, total_rereading_eq_zero hreread] at hcount
      exact hcount
    · rw [if_neg hdrained] at hcount
      exact ⟨hinstalled, hcount, fun _ => hzero hdrained⟩
  | notifyOne ticket i hmem hi =>
    exact h.frame h.installed rfl (total_set_of_eq hi rfl) (total_set_of_eq hi rfl)
  | wakeWorker i timedOut hi =>
    exact h.frame h.installed rfl (total_set_of_eq hi rfl) (total_set_of_eq hi rfl)
  | waiter j before pc pc' t hj hto =>
    cases hto <;> exact h.frame h.installed rfl rfl rfl
  | setCompletionCallback callback arg hfree => exact h.frame hkeeps rfl rfl rfl
  | clearCompletionCallback hfree => exact absurd hkeeps id
  | spawn index hpc =>
    exact h.frame h.installed rfl (by simp [WorkerPc.passed])
      (by simp [WorkerPc.rereading])
  | quitNotify hpc =>
    refine h.frame h.installed rfl (total_map_of_eq (fun pc => ?_) _)
      (total_map_of_eq (fun pc => ?_) _)
    · cases pc <;> rfl
    · cases pc <;> rfl
  | _ => exact h.frame h.installed rfl rfl rfl

theorem Owed.callsMatchDrains (h : Owed s) (hbal : s.ledger.Balanced) : CallsMatchDrains s := by
  have hcount := h.count
  refine ⟨by omega, fun hidle => ?_, fun hmem => ?_⟩
  · have hpassed : total WorkerPc.passed s.workers = 0 :=
      total_eq_zero_iff.2 fun pc hpc => (idle_passed (hidle pc hpc)).1
    have hrereading : total WorkerPc.rereading s.workers = 0 :=
      total_eq_zero_iff.2 fun pc hpc => (idle_passed (hidle pc hpc)).2
    rw [hpassed, hrereading, ite_self] at hcount
    exact hcount
  · have hpassed : 1 ≤ total WorkerPc.passed s.workers := le_total (f := WorkerPc.passed) hmem
    have hzero : s.activeTasks = 0 := by
      by_contra hne
      have := h.zero hne
      omega
    obtain ⟨htasks, hpending, -, -⟩ := hbal.of_active_eq_zero hzero
    refine ⟨htasks, fun e he => ?_⟩
    have := total_eq_zero_iff.1 hpending _ he
    simp [WorkerPc.pending] at this

/-- From a pool with a callback installed, on every run that keeps a callback installed and
whose drains are not disturbed, the calls of the callback match the drains. -/
theorem callback_once_per_drain (threadNum : Int) (callback arg : Addr) (hset : callback ≠ 0)
    (acts : List Act) (hkeeps : ∀ a ∈ acts, KeepsCallback a) (s : State)
    (hrun : exec (step threadNum) init (.setCompletionCallback callback arg :: acts) = some s)
    (hmeet : StepsMeet (step threadNum) DrainsApart init
      (.setCompletionCallback callback arg :: acts)) : CallsMatchDrains s := by
  obtain ⟨s₀, hs₀, hrun⟩ := exec_cons_eq_some.1 hrun
  have hstart : Owed s₀ := by
    cases hs₀
    exact ⟨hset, rfl, fun _ => rfl⟩
  have hinv : Owed s ∧ s.ledger.Balanced ∧ MutexOk s := by
    refine exec_induct (I := fun s => Owed s ∧ s.ledger.Balanced ∧ MutexOk s) ?_
      ⟨hstart, balanced_step balanced_init hs₀, mutexOk_step mutexOk_init (stepTo_of_step hs₀)⟩
      ((hmeet.2 s₀ hs₀).and (stepsMeet_of_forall_mem hkeeps)) hrun
    rintro s a t ⟨howed, hbal, hmutex⟩ ⟨hok, hkeeps⟩ hstep
    have hto := stepTo_of_step hstep
    exact ⟨owed_step howed hbal hmutex hok hkeeps hto, balanced_step hbal hstep,
      mutexOk_step hmutex hto⟩
  exact hinv.1.callsMatchDrains hinv.2.1

/-- One worker, one task, one callback, and the worker is back in its wait. -/
def oneDrainRun : List Act :=
  List.flatten [[.start, .control, .control, .control, .enqueue ⟨1, 2⟩],
    List.replicate 15 (.worker 0)]

theorem callback_once_per_drain_one :
    ∃ s, exec (step 1) init (.setCompletionCallback 5 6 :: oneDrainRun) = some s ∧
      s.calls = 1 ∧ (∀ pc ∈ s.workers, pc.idle = true) ∧ CallsMatchDrains s := by
  have hends : ∃ s, exec (step 1) init (.setCompletionCallback 5 6 :: oneDrainRun) = some s ∧
      s.calls = 1 ∧ ∀ pc ∈ s.workers, pc.idle = true := exists_exec_of_decide (by decide)
  obtain ⟨s, hs, hcalls, hidle⟩ := hends
  exact ⟨s, hs, hcalls, hidle, callback_once_per_drain 1 5 6 (by decide) oneDrainRun (by decide)
    s hs (by decide)⟩

/-- Two workers subtract their tasks before either of them re-reads the counter. -/
def doubleDrainRun : List Act :=
  List.flatten [[.start, .control, .control, .control, .control, .enqueue ⟨1, 2⟩, .enqueue ⟨3, 4⟩],
    List.replicate 8 (.worker 0), List.replicate 8 (.worker 1), [.worker 0, .worker 1]]

theorem callback_twice_for_one_drain :
    ¬ ∀ (threadNum : Int) (callback arg : Addr) (acts : List Act) (s : State), callback ≠ 0 →
      (∀ a ∈ acts, KeepsCallback a ∧ a ≠ .stop) →
      exec (step threadNum) init (.setCompletionCallback callback arg :: acts) = some s →
      CallsMatchDrains s := by
  intro h
  have hends : ∃ s, exec (step 2) init (.setCompletionCallback 5 6 :: doubleDrainRun) = some s ∧
      s.drains = 1 ∧ s.workers = [.lockToFinish, .lockToFinish] :=
    exists_exec_of_decide (by decide)
  obtain ⟨s, hs, hdrains, hworkers⟩ := hends
  have hle := (h 2 5 6 doubleDrainRun s (by decide) (by decide) hs).atMost
  rw [hdrains, hworkers] at hle
  simp [total, WorkerPc.passed] at hle

end Sparo.Base.ThreadPool
