import Sparo.Base.Task.Proofs.TaskLoopSteps

/-!
# Waiting for work and for the end

The predicate of `work_cv_.wait` is `should_quit_` alone. Once `DoWork` has found both queues
empty the worker therefore waits for `Stop`, and a task that is posted from then on is not
seen: the notification of `PostTask` wakes the worker up, and the predicate sends it back to
sleep. A task posted before that moment is never left behind.

`Stop` sets `should_quit_` and notifies without `work_mutex_`. When both happen after the
worker has evaluated the predicate and before it blocks, nobody is left to wake it up; in
every other order `join` is not reached while the worker sleeps.
-/

namespace Sparo.Base.TaskLoop

open StepSystem

variable {F : Type} {s t : State F} {a : Act F}

/-- The worker has found both queues empty and is on its way into `work_cv_.wait`, or in it
with a false predicate. -/
def State.idle (s : State F) : Bool :=
  match s.worker with
  | .testEmpty => s.workQueue.empty
  | .afterDoWork moreWorkIsPlausible => !moreWorkIsPlausible
  | .lockWork | .evalPredicate | .block | .blocked | .relock => true
  | _ => false

/-- `should_quit_` is set only inside `Stop` or while there is no thread. -/
structure QuitOk (s : State F) : Prop where
  quit : s.shouldQuit = true →
    s.control = .stopNotify ∨ s.control = .stopJoin ∨ s.worker = .absent
  starting : s.control = .startSpawn → s.shouldQuit = false
  stopping : s.control = .stopNotify ∨ s.control = .stopJoin → s.shouldQuit = true

theorem quitOk_init : QuitOk (init : State F) := by
  refine ⟨?_, ?_, ?_⟩ <;> simp [init]

@[simp] theorem notified_eq_absent {pc : WorkerPc F} : pc.notified = .absent ↔ pc = .absent := by
  cases pc <;> simp [WorkerPc.notified]

theorem workerNext_ne_absent {pc : WorkerPc F} (hnext : workerNext s s.worker = some pc) :
    s.worker ≠ .absent := by
  intro habs
  rw [habs] at hnext
  cases hnext

@[simp] theorem reloadWorkQueue_shouldQuit (s : State F) :
    (reloadWorkQueue s).shouldQuit = s.shouldQuit := by
  unfold reloadWorkQueue; split <;> rfl

@[simp] theorem reloadWorkQueue_control (s : State F) :
    (reloadWorkQueue s).control = s.control := by
  unfold reloadWorkQueue; split <;> rfl

theorem quitOk_step (h : QuitOk s) (hstep : StepTo s a t) : QuitOk t := by
  obtain ⟨hquit, hstarting, hstopping⟩ := h
  cases hstep with
  | goto now pc hnext =>
    refine ⟨fun hset => ?_, hstarting, hstopping⟩
    rcases hquit hset with hpc | hpc | hpc
    · exact Or.inl hpc
    · exact Or.inr (Or.inl hpc)
    · exact absurd hpc (workerNext_ne_absent hnext)
  | post task => exact ⟨hquit, hstarting, hstopping⟩
  | notify | shrink | reload | runTask | dropNull | finish | wakeUp =>
    constructor <;> simp_all
  | start | stop | wait | startStore | spawn | startReturn | stopStore | stopNotify | joined
  | leaveScope => constructor <;> simp_all

/-! ## Posting to an idle loop -/

/-- A task is appended only while the worker is going to look at the queues again, or once
`Stop` has been requested. -/
def PostsWhileAwake (s : State F) : Act F → Prop
  | .post _ => s.shouldQuit = true ∨ s.idle = false
  | _ => True

instance (s : State F) : ∀ a, Decidable (PostsWhileAwake s a)
  | .post _ => inferInstanceAs (Decidable (_ ∨ _))
  | .worker _ | .notify _ | .wakeUp | .start | .stop | .waitTaskFinished _ | .control =>
    isTrue trivial

/-- An idle worker leaves nothing behind. -/
def IdleEmpty (s : State F) : Prop :=
  s.shouldQuit = false → s.idle = true →
    s.incomingTaskQueue.toList = [] ∧ s.workQueue.toList = []

/-- A step that only reads makes the worker idle only if it was so before. -/
theorem idle_of_workerNext {pc : WorkerPc F} (hnext : workerNext s s.worker = some pc)
    (hidle : ({ s with worker := pc } : State F).idle = true) : s.idle = true := by
  unfold State.idle at hidle ⊢
  cases hw : s.worker <;> rw [hw] at hnext <;> simp only [workerNext] at hnext <;> grind

theorem idle_notified (s : State F) :
    ({ s with worker := s.worker.notified } : State F).idle = s.idle := by
  unfold State.idle
  cases s.worker <;> rfl

/-- A reload that leaves the worker's queue empty has found nothing to come in. -/
theorem idleEmpty_reload (hq : QueuesOk s) :
    IdleEmpty { reloadWorkQueue s with worker := .testEmpty } := by
  intro _ hidle
  rcases reloadWorkQueue_cases hq with ⟨hnil, heq⟩ | ⟨hne, heq⟩ <;> rw [heq] at hidle ⊢
  · exact ⟨hnil, (LazilyDeallocatedDeque.empty_eq_true_iff hq.work).1 hidle⟩
  · exact absurd ((LazilyDeallocatedDeque.empty_eq_true_iff hq.incoming).1 hidle) hne

theorem idleEmpty_step (hq : QueuesOk s) (hc : QuitOk s) (h : IdleEmpty s)
    (hok : PostsWhileAwake s a) (hstep : StepTo s a t) : IdleEmpty t := by
  cases hstep with
  | post task =>
    intro hquit hidle
    rcases hok with hset | hawake
    · exact absurd hset (Bool.eq_false_iff.1 hquit)
    · exact absurd hidle (Bool.eq_false_iff.1 hawake)
  | notify ticket hmem =>
    intro hquit hidle
    exact h hquit ((idle_notified s).symm.trans hidle)
  | shrink | runTask | dropNull | finish => intro _ hidle; cases hidle
  | reload now hpc => exact idleEmpty_reload hq
  | goto now pc hnext =>
    intro hquit hidle
    exact h hquit (idle_of_workerNext hnext hidle)
  | wakeUp hpc =>
    intro hquit _
    exact h hquit (by simp [State.idle, hpc])
  | startStore hpc =>
    intro _ hidle
    -- `should_quit_` is cleared where it was set only when there is no thread.
    by_cases hset : s.shouldQuit = true
    · rcases hc.quit hset with hstop | hstop | habs
      · simp [hpc] at hstop
      · simp [hpc] at hstop
      · simp [State.idle, habs] at hidle
    · exact h (Bool.eq_false_iff.2 hset) hidle
  | spawn | joined => intro _ hidle; cases hidle
  | stopStore hpc => intro hquit _; cases hquit
  | stopNotify hpc =>
    intro hquit hidle
    exact h hquit ((idle_notified s).symm.trans hidle)
  | start | stop | wait | startReturn | leaveScope => exact h

theorem run_idleEmpty {acts : List (Act F)} (hrun : exec step init acts = some s)
    (hmeet : StepsMeet step PostsWhileAwake init acts) : IdleEmpty s := by
  refine (exec_induct (I := fun s => QueuesOk s ∧ QuitOk s ∧ IdleEmpty s) ?_
    ⟨queuesOk_init, quitOk_init, fun _ _ => ⟨rfl, rfl⟩⟩ hmeet hrun).2.2
  rintro s a t ⟨hq, hc, h⟩ hok hstep
  have hto := stepTo_of_step hstep
  exact ⟨queuesOk_step hq hto, quitOk_step hc hto, idleEmpty_step hq hc h hok hto⟩

/-- A task whose `PostTask` has returned is still in one of the queues. -/
def State.HasReturnedTask (s : State F) : Prop :=
  ∃ e ∈ s.incomingTaskQueue.toList ++ s.workQueue.toList, e.ticket ∈ s.returned

instance [DecidableEq F] (s : State F) : Decidable s.HasReturnedTask :=
  inferInstanceAs (Decidable (∃ e ∈ _, _))

/-- On a run whose tasks are all posted while the worker is awake, the worker never sleeps on
a task. -/
theorem posted_task_wakes (acts : List (Act F)) (s : State F)
    (hrun : exec step init acts = some s) (hmeet : StepsMeet step PostsWhileAwake init acts)
    (hquit : s.shouldQuit = false) (htask : s.HasReturnedTask) : s.worker ≠ .blocked := by
  intro hblocked
  obtain ⟨hincoming, hwork⟩ :=
    run_idleEmpty hrun hmeet hquit (by simp [State.idle, hblocked])
  obtain ⟨e, he, -⟩ := htask
  simp [hincoming, hwork] at he

/-- A task is posted before the worker looks, and its `PostTask` returns. -/
def postedFirstRun : List (Act Nat) :=
  [.start, .control, .control, .post ⟨1, some 7⟩, .notify 0, .worker 0, .worker 0]

theorem posted_task_wakes_first :
    ∃ s : State Nat, exec step init postedFirstRun = some s ∧ s.shouldQuit = false ∧
      s.HasReturnedTask ∧ s.worker ≠ .blocked := by
  have hends : ∃ s : State Nat, exec step init postedFirstRun = some s ∧ s.shouldQuit = false ∧
      s.HasReturnedTask := exists_exec_of_decide (by decide)
  obtain ⟨s, hs, hquit, htask⟩ := hends
  exact ⟨s, hs, hquit, htask, posted_task_wakes postedFirstRun s hs (by decide) hquit htask⟩

/-- The worker goes to sleep, a task is posted and its notification sent; the predicate sends
the worker back to sleep. -/
def postedLateRun : List (Act Nat) :=
  List.flatten [[.start, .control, .control], List.replicate 7 (.worker 0),
    [.post ⟨1, some 7⟩, .notify 0], List.replicate 3 (.worker 0)]

theorem posted_task_left_asleep :
    ¬ ∀ (acts : List (Act Nat)) (s : State Nat), exec step init acts = some s →
      s.shouldQuit = false → s.HasReturnedTask → s.worker ≠ .blocked := by
  intro h
  have hends : ∃ s : State Nat, exec step init postedLateRun = some s ∧ s.shouldQuit = false ∧
      s.HasReturnedTask ∧ s.worker = .blocked := exists_exec_of_decide (by decide)
  obtain ⟨s, hs, hquit, htask, hblocked⟩ := hends
  exact h postedLateRun s hs hquit htask hblocked

/-! ## Stopping a loop that falls asleep -/

/-- `Stop` does not notify between the worker's last look at `should_quit_` and its going to
sleep. -/
def NotifiesOutsideWindow (s : State F) : Act F → Prop
  | .control => s.control = .stopNotify → s.worker ≠ .block
  | _ => True

instance [DecidableEq F] (s : State F) : ∀ a, Decidable (NotifiesOutsideWindow s a)
  | .control => inferInstanceAs (Decidable (_ → _ ≠ _))
  | .post _ | .worker _ | .notify _ | .wakeUp | .start | .stop | .waitTaskFinished _ =>
    isTrue trivial

/-- Once `Stop` waits in `join`, the worker neither sleeps nor is about to. -/
def JoinsAwake (s : State F) : Prop :=
  s.control = .stopJoin → s.worker ≠ .block ∧ s.worker ≠ .blocked

theorem notified_ne_blocked (pc : WorkerPc F) : pc.notified ≠ .blocked := by
  cases pc <;> simp [WorkerPc.notified]

theorem notified_ne_block {pc : WorkerPc F} (h : pc ≠ .block) : pc.notified ≠ .block := by
  cases pc <;> simp_all [WorkerPc.notified]

/-- With `should_quit_` set the worker does not go to sleep, unless it has already looked. -/
theorem workerNext_of_quit {pc : WorkerPc F} (hquit : s.shouldQuit = true)
    (hpc : s.worker ≠ .block) (hnext : workerNext s s.worker = some pc) :
    pc ≠ .block ∧ pc ≠ .blocked := by
  cases hw : s.worker <;> rw [hw] at hnext hpc <;> simp only [workerNext] at hnext <;> grind

theorem joinsAwake_step (hc : QuitOk s) (h : JoinsAwake s) (hok : NotifiesOutsideWindow s a)
    (hstep : StepTo s a t) : JoinsAwake t := by
  cases hstep with
  | post task => exact h
  | notify ticket hmem =>
    intro hjoin
    exact ⟨notified_ne_block (h hjoin).1, notified_ne_blocked _⟩
  | goto now pc hnext =>
    intro hjoin
    exact workerNext_of_quit (hc.stopping (Or.inr hjoin)) (h hjoin).1 hnext
  | stopNotify hpc =>
    intro _
    exact ⟨notified_ne_block (hok hpc), notified_ne_blocked _⟩
  | shrink | reload | runTask | dropNull | finish | wakeUp => intro _; simp
  | start | stop | wait | startStore | spawn | startReturn | stopStore | joined | leaveScope =>
    intro hjoin; cases hjoin

theorem run_joinsAwake {acts : List (Act F)} (hrun : exec step init acts = some s)
    (hmeet : StepsMeet step NotifiesOutsideWindow init acts) : JoinsAwake s := by
  refine (exec_induct (I := fun s => QuitOk s ∧ JoinsAwake s) ?_
    ⟨quitOk_init, by intro hjoin; cases hjoin⟩ hmeet hrun).2
  rintro s a t ⟨hc, h⟩ hok hstep
  have hto := stepTo_of_step hstep
  exact ⟨quitOk_step hc hto, joinsAwake_step hc h hok hto⟩

/-- `Stop` waits for a worker that nobody is going to wake up. -/
def State.Stranded (s : State F) : Prop :=
  s.shouldQuit = true ∧ s.control = .stopJoin ∧ s.worker = .blocked

instance [DecidableEq F] (s : State F) : Decidable s.Stranded :=
  inferInstanceAs (Decidable (_ ∧ _ ∧ _))

/-- On a run where `Stop` never notifies inside the worker's window, the worker is never
stranded. -/
theorem stop_never_strands (acts : List (Act F)) (s : State F)
    (hrun : exec step init acts = some s)
    (hmeet : StepsMeet step NotifiesOutsideWindow init acts) : ¬ s.Stranded := by
  rintro ⟨-, hjoin, hblocked⟩
  exact (run_joinsAwake hrun hmeet hjoin).2 hblocked

/-- `Stop` wakes up a worker that sleeps. -/
def stopAsleepRun : List (Act Nat) :=
  List.flatten [[.start, .control, .control], List.replicate 7 (.worker 0),
    [.stop, .control, .control]]

theorem stop_never_strands_asleep :
    ∃ s : State Nat, exec step init stopAsleepRun = some s ∧ s.control = .stopJoin ∧
      s.worker = .relock ∧ ¬ s.Stranded := by
  have hends : ∃ s : State Nat, exec step init stopAsleepRun = some s ∧ s.control = .stopJoin ∧
      s.worker = .relock := exists_exec_of_decide (by decide)
  obtain ⟨s, hs, hjoin, hrelock⟩ := hends
  exact ⟨s, hs, hjoin, hrelock, stop_never_strands stopAsleepRun s hs (by decide)⟩

/-- `Stop` stores and notifies after the worker has found `should_quit_` false, and the
worker then goes to sleep. -/
def stopInWindowRun : List (Act Nat) :=
  List.flatten [[.start, .control, .control], List.replicate 6 (.worker 0),
    [.stop, .control, .control, .worker 0]]

theorem stop_strands_worker :
    ¬ ∀ (acts : List (Act Nat)) (s : State Nat), exec step init acts = some s →
      ¬ s.Stranded := by
  intro h
  have hends : ∃ s : State Nat, exec step init stopInWindowRun = some s ∧ s.Stranded :=
    exists_exec_of_decide (by decide)
  obtain ⟨s, hs, hstranded⟩ := hends
  exact h stopInWindowRun s hs hstranded

end Sparo.Base.TaskLoop
