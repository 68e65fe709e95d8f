import Sparo.Base.Task.Proofs.TaskLoopSteps

/-!
# Conservation and order of tasks

No task is lost or run twice on any run, over any number of `Stop` and `Start` calls.

Tasks need not run in the order in which they were posted. `ReloadWorkQueue` swaps the two
queues whenever something has come in, also while `work_queue_` still holds tasks: `DoWork`
returns after one task, so the next reload finds the rest of the previous batch there, and
the swap puts the newer tasks in front of the older ones. On a run where no swap finds tasks
to run in both queues, the order of posting is kept.
-/

namespace Sparo.Base.TaskLoop

open StepSystem

variable {F : Type} {s t : State F} {a : Act F}

theorem conserved_init : (init : State F).flow.Conserved :=
  ⟨rfl, rfl, by simp [init, State.flow, State.current], by simp [init, State.flow]⟩

/-- What holds of the queues and of the posted tasks on every run. -/
theorem run_conserved {acts : List (Act F)} (hrun : exec step init acts = some s) :
    QueuesOk s ∧ s.flow.Conserved := by
  refine exec_invariant (I := fun s => QueuesOk s ∧ s.flow.Conserved) ?_
    ⟨queuesOk_init, conserved_init⟩ hrun
  intro s a t hs hstep
  have hto := stepTo_of_step hstep
  exact ⟨queuesOk_step hs.1 hto,
    Flow.conserved_move hs.2 (flow_step (fun _ => True) hs.1 hto (by simp))⟩

/-- `Start`, `Stop` and `WaitTaskFinished` touch neither the queues nor the history. -/
theorem controlStep_frame (h : step s .control = some t) :
    t.incomingTaskQueue = s.incomingTaskQueue ∧ t.workQueue = s.workQueue ∧
      t.current = s.current ∧ t.ran = s.ran ∧ t.nulls = s.nulls := by
  cases stepTo_of_step h with
  | startStore | startReturn | stopStore | leaveScope => exact ⟨rfl, rfl, rfl, rfl, rfl⟩
  | stopNotify hpc => exact ⟨rfl, rfl, current_notified s, rfl, rfl⟩
  | spawn hpc habs => exact ⟨rfl, rfl, by simp [State.current, habs], rfl, rfl⟩
  | joined hpc hend =>
    refine ⟨rfl, rfl, ?_, rfl, rfl⟩
    rcases hend with hend | hend <;> simp [State.current, hend]

/-- On every run the posted tasks are split among the two queues, the task being run, the
tasks that have run and the popped null tasks, and no call's task is in two of these places
or twice in one of them; a step of `Start` or `Stop` moves none of them. -/
theorem tasks_conserved (acts : List (Act F)) (s : State F)
    (hrun : exec step init acts = some s) :
    (s.posted : Multiset (Posted F)) =
        s.incomingTaskQueue.toList + s.workQueue.toList + s.current + s.ran + s.nulls ∧
      (s.incomingTaskQueue.toList ++ s.workQueue.toList ++ s.current ++ s.ran ++ s.nulls).Nodup ∧
      (∀ e ∈ s.executed, e.task.func.isSome = true) ∧ (∀ e ∈ s.nulls, e.task.func = none) ∧
      ∀ t, step s .control = some t →
        t.incomingTaskQueue = s.incomingTaskQueue ∧ t.workQueue = s.workQueue ∧
          t.current = s.current ∧ t.ran = s.ran ∧ t.nulls = s.nulls := by
  obtain ⟨-, h⟩ := run_conserved hrun
  exact ⟨h.split, h.nodup, h.executed, h.nulls, fun t ht => controlStep_frame ht⟩

/-- A null task is dropped, a task is run, and a third one stays queued over a `Stop` and the
`Start` after it. -/
def restartRun : List (Act Nat) :=
  List.flatten [[.start, .control, .control, .post ⟨1, none⟩, .post ⟨2, some 7⟩, .post ⟨3, some 8⟩],
    List.replicate 9 (.worker 0),
    [.stop, .control, .control, .worker 0, .control, .start, .control, .control]]

theorem tasks_conserved_restart :
    ∃ s : State Nat, exec step init restartRun = some s ∧
      s.nulls.length = 1 ∧ s.ran.length = 1 ∧ s.workQueue.toList.length = 1 ∧
      (s.posted : Multiset (Posted Nat)) =
        s.incomingTaskQueue.toList + s.workQueue.toList + s.current + s.ran + s.nulls := by
  have hends : ∃ s : State Nat, exec step init restartRun = some s ∧
      s.nulls.length = 1 ∧ s.ran.length = 1 ∧ s.workQueue.toList.length = 1 :=
    exists_exec_of_decide (by decide)
  obtain ⟨s, hs, hnulls, hran, hwork⟩ := hends
  exact ⟨s, hs, hnulls, hran, hwork, (tasks_conserved restartRun s hs).1⟩

/-- A reload finds something to run in at most one of the two queues. -/
def ReloadsOneSided (s : State F) : Act F → Prop
  | .worker _ => s.worker = .reload →
      nonNull s.workQueue.toList = [] ∨ nonNull s.incomingTaskQueue.toList = []
  | _ => True

instance [DecidableEq F] (s : State F) : ∀ a, Decidable (ReloadsOneSided s a)
  | .worker _ => inferInstanceAs (Decidable (_ → _ ∨ _))
  | .post _ | .notify _ | .wakeUp | .start | .stop | .waitTaskFinished _ | .control =>
    isTrue trivial

theorem inOrder_init : (init : State F).flow.InOrder := rfl

/-- On a run whose reloads are one-sided, what has been executed, followed by what is still
queued, is what was posted. -/
theorem run_inOrder {acts : List (Act F)} (hrun : exec step init acts = some s)
    (hmeet : StepsMeet step ReloadsOneSided init acts) : s.flow.InOrder := by
  refine (exec_induct (I := fun s => QueuesOk s ∧ s.flow.InOrder) ?_
    ⟨queuesOk_init, inOrder_init⟩ hmeet hrun).2
  rintro s a t ⟨hq, h⟩ hok hstep
  have hto := stepTo_of_step hstep
  refine ⟨queuesOk_step hq hto, Flow.inOrder_move h (flow_step Flow.OneSided hq hto ?_)⟩
  rintro now rfl hpc -
  exact hok hpc

/-- On a run whose reloads are one-sided the tasks are executed in the order of posting. -/
theorem executed_prefix_posted (acts : List (Act F)) (s : State F)
    (hrun : exec step init acts = some s) (hmeet : StepsMeet step ReloadsOneSided init acts) :
    s.executed <+: nonNull s.posted := by
  have h : nonNull s.posted =
      s.executed ++ nonNull s.workQueue.toList ++ nonNull s.incomingTaskQueue.toList :=
    run_inOrder hrun hmeet
  rw [h, List.append_assoc]
  exact List.prefix_append _ _

/-- Two tasks are posted, the first is run, then the second, and a third arrives meanwhile. -/
def batchRun : List (Act Nat) :=
  List.flatten [[.start, .control, .control, .post ⟨1, some 7⟩, .post ⟨2, some 8⟩],
    List.replicate 12 (.worker 0), [.post ⟨3, some 9⟩]]

theorem executed_prefix_posted_batch :
    ∃ s : State Nat, exec step init batchRun = some s ∧ s.executed.length = 2 ∧
      s.posted.length = 3 ∧ s.executed <+: nonNull s.posted := by
  have hends : ∃ s : State Nat, exec step init batchRun = some s ∧ s.executed.length = 2 ∧
      s.posted.length = 3 := exists_exec_of_decide (by decide)
  obtain ⟨s, hs, hexecuted, hposted⟩ := hends
  exact ⟨s, hs, hexecuted, hposted, executed_prefix_posted batchRun s hs (by decide)⟩

/-- Two tasks are posted, and a third one while the first is running. The reload after the
first task swaps the third one in front of the second. -/
def overtakingRun : List (Act Nat) :=
  List.flatten [[.start, .control, .control, .post ⟨1, some 7⟩, .post ⟨2, some 8⟩],
    List.replicate 5 (.worker 0), [.post ⟨3, some 9⟩], List.replicate 7 (.worker 0)]

theorem executed_out_of_order :
    ¬ ∀ (acts : List (Act Nat)) (s : State Nat), exec step init acts = some s →
      s.executed <+: nonNull s.posted := by
  intro h
  have hends : ∃ s : State Nat, exec step init overtakingRun = some s ∧
      ¬ s.executed <+: nonNull s.posted := exists_exec_of_decide (by decide)
  obtain ⟨s, hs, hnot⟩ := hends
  exact hnot (h overtakingRun s hs)

end Sparo.Base.TaskLoop
