import Sparo.Base.Task.TaskFlow
import Sparo.Base.Task.Proofs.DequeList

/-!
# The steps of the task loop

`StepTo` lists everything a step can do, with the guard under which it does it; the
invariants of the loop are proved by cases on it. The queues stay well formed along every
run, so each deque operation is the operation on the list of elements, and every step of the
loop is a move of the flow of tasks (`flow_step`).
-/

namespace Sparo.Base.TaskLoop

open StepSystem

variable {F : Type} {s t : State F} {a : Act F}

/-- What a step of the loop can do. A worker step that only reads is `goto`. -/
inductive StepTo (s : State F) : Act F → State F → Prop where
  | post (task : Task F) : StepTo s (.post task) (postTask s task)
  | notify (ticket : Nat) (h : ticket ∈ s.notifying) :
      StepTo s (.notify ticket) { s with
        notifying := s.notifying.erase ticket
        returned := s.returned ++ [ticket]
        worker := s.worker.notified }
  | shrink (now : Int) (hpc : s.worker = .shrink) :
      StepTo s (.worker now)
        { s with workQueue := s.workQueue.maybeShrinkQueue now, worker := .reload }
  | reload (now : Int) (hpc : s.worker = .reload) :
      StepTo s (.worker now) { reloadWorkQueue s with worker := .testEmpty }
  | runTask (now : Int) (e : Posted F) (hpc : s.worker = .takeFront)
      (hfront : s.workQueue.front = some e) (hfunc : e.task.func.isSome = true) :
      StepTo s (.worker now)
        { s with workQueue := s.workQueue.popFront, worker := .running e }
  | dropNull (now : Int) (e : Posted F) (hpc : s.worker = .takeFront)
      (hfront : s.workQueue.front = some e) (hfunc : e.task.func.isSome = false) :
      StepTo s (.worker now)
        { s with
          workQueue := s.workQueue.popFront
          worker := .testQuitAfterNull
          nulls := s.nulls ++ [e] }
  | finish (now : Int) (e : Posted F) (hpc : s.worker = .running e) :
      StepTo s (.worker now) { s with worker := .afterDoWork true, ran := s.ran ++ [e] }
  | goto (now : Int) (pc : WorkerPc F) (hnext : workerNext s s.worker = some pc) :
      StepTo s (.worker now) { s with worker := pc }
  | wakeUp (hpc : s.worker = .blocked) : StepTo s .wakeUp { s with worker := .relock }
  | start (hpc : s.control = .idle) : StepTo s .start { s with control := .startStore }
  | stop (hpc : s.control = .idle) : StepTo s .stop { s with control := .stopStore }
  | wait (ownsLock : Bool) (hpc : s.control = .idle) :
      StepTo s (.waitTaskFinished ownsLock) { s with control := .waitScope ownsLock }
  | startStore (hpc : s.control = .startStore) :
      StepTo s .control { s with shouldQuit := false, control := .startSpawn }
  | spawn (hpc : s.control = .startSpawn) (habs : s.worker = .absent) :
      StepTo s .control { s with worker := .shrink, control := .idle }
  | startReturn (hpc : s.control = .startSpawn) (habs : s.worker ≠ .absent) :
      StepTo s .control { s with control := .idle }
  | stopStore (hpc : s.control = .stopStore) :
      StepTo s .control { s with shouldQuit := true, control := .stopNotify }
  | stopNotify (hpc : s.control = .stopNotify) :
      StepTo s .control { s with worker := s.worker.notified, control := .stopJoin }
  | joined (hpc : s.control = .stopJoin) (hend : s.worker = .absent ∨ s.worker = .exited) :
      StepTo s .control { s with worker := .absent, control := .idle }
  | leaveScope (ownsLock : Bool) (hpc : s.control = .waitScope ownsLock) :
      StepTo s .control { s with control := .stopStore }

theorem call_eq_some {pc : ControlPc} (h : call s pc = some t) :
    s.control = .idle ∧ t = { s with control := pc } := by
  unfold call at h
  split at h
  · next hidle => exact ⟨hidle, (Option.some.inj h).symm⟩
  · cases h

theorem takeTask_eq_some (h : takeTask s = some t) : ∃ e, s.workQueue.front = some e ∧
    ((e.task.func.isSome = true ∧
        t = { s with workQueue := s.workQueue.popFront, worker := .running e }) ∨
      (e.task.func.isSome = false ∧
        t = { s with
          workQueue := s.workQueue.popFront
          worker := .testQuitAfterNull
          nulls := s.nulls ++ [e] })) := by
  unfold takeTask at h
  split at h
  · cases h
  · next e hfront =>
    refine ⟨e, hfront, ?_⟩
    split at h
    · next hfunc => exact Or.inl ⟨hfunc, (Option.some.inj h).symm⟩
    · next hfunc => exact Or.inr ⟨Bool.eq_false_iff.2 hfunc, (Option.some.inj h).symm⟩

theorem stepTo_of_workerStep {now : Int} (h : workerStep s now = some t) :
    StepTo s (.worker now) t := by
  unfold workerStep at h
  split at h
  · next hpc => exact Option.some.inj h ▸ .shrink now hpc
  · next hpc => exact Option.some.inj h ▸ .reload now hpc
  · next hpc =>
    obtain ⟨e, hfront, ⟨hfunc, rfl⟩ | ⟨hfunc, rfl⟩⟩ := takeTask_eq_some h
    · exact .runTask now e hpc hfront hfunc
    · exact .dropNull now e hpc hfront hfunc
  · next e hpc => exact Option.some.inj h ▸ .finish now e hpc
  · obtain ⟨pc, hnext, rfl⟩ := Option.map_eq_some_iff.1 h
    exact .goto now pc hnext

theorem stepTo_of_controlStep (h : controlStep s = some t) : StepTo s .control t := by
  unfold controlStep at h
  split at h
  · cases h
  · next hpc => exact Option.some.inj h ▸ .startStore hpc
  · next hpc =>
    split at h
    · next habs => exact Option.some.inj h ▸ .spawn hpc habs
    · next habs => exact Option.some.inj h ▸ .startReturn hpc habs
  · next hpc => exact Option.some.inj h ▸ .stopStore hpc
  · next hpc => exact Option.some.inj h ▸ .stopNotify hpc
  · next hpc =>
    split at h
    · next hend => exact Option.some.inj h ▸ .joined hpc (Or.inl hend)
    · next hend => exact Option.some.inj h ▸ .joined hpc (Or.inr hend)
    · cases h
  · next ownsLock hpc => exact Option.some.inj h ▸ .leaveScope ownsLock hpc

/-- Every step is one of the listed ones. -/
theorem stepTo_of_step (h : step s a = some t) : StepTo s a t := by
  cases a with
  | post task => exact Option.some.inj h ▸ .post task
  | notify ticket =>
    simp only [step] at h
    split at h
    · next hmem => exact Option.some.inj h ▸ .notify ticket hmem
    · cases h
  | worker now => exact stepTo_of_workerStep h
  | wakeUp =>
    simp only [step] at h
    split at h
    · next hpc => exact Option.some.inj h ▸ .wakeUp hpc
    · cases h
  | start =>
    obtain ⟨hidle, rfl⟩ := call_eq_some h
    exact .start hidle
  | stop =>
    obtain ⟨hidle, rfl⟩ := call_eq_some h
    exact .stop hidle
  | waitTaskFinished ownsLock =>
    simp only [step] at h
    split at h
    · cases h
    · obtain ⟨hidle, rfl⟩ := call_eq_some h
      exact .wait ownsLock hidle
  | control => exact stepTo_of_controlStep h

/-- The queues are well formed, and `DoWork` reads the front of a non-empty queue only. -/
structure QueuesOk (s : State F) : Prop where
  incoming : s.incomingTaskQueue.WF
  work : s.workQueue.WF
  nonempty : s.worker = .testQuit ∨ s.worker = .takeFront → s.workQueue.toList ≠ []

theorem queuesOk_init : QueuesOk (init : State F) := by
  refine ⟨?_, ?_, ?_⟩
  · exact LazilyDeallocatedDeque.holds_default.wf
  · exact LazilyDeallocatedDeque.holds_default.wf
  · simp [init]

/-- `ReloadWorkQueue` in terms of the elements: the queues change places unless nothing has
come in. -/
theorem reloadWorkQueue_cases (h : QueuesOk s) :
    (s.incomingTaskQueue.toList = [] ∧ reloadWorkQueue s = s) ∨
    (s.incomingTaskQueue.toList ≠ [] ∧ reloadWorkQueue s =
      { s with incomingTaskQueue := s.workQueue, workQueue := s.incomingTaskQueue }) := by
  have hempty := LazilyDeallocatedDeque.empty_eq_true_iff h.incoming
  unfold reloadWorkQueue
  split
  · next he => exact Or.inl ⟨hempty.1 he, rfl⟩
  · next he => exact Or.inr ⟨fun hnil => he (hempty.2 hnil), rfl⟩

/-- A branch of the worker that ends before the front of the queue has seen the queue
non-empty. -/
theorem workerNext_nonempty (h : QueuesOk s) {pc : WorkerPc F}
    (hnext : workerNext s s.worker = some pc) (hpc : pc = .testQuit ∨ pc = .takeFront) :
    s.workQueue.toList ≠ [] := by
  have hempty := LazilyDeallocatedDeque.empty_eq_true_iff h.work
  cases hw : s.worker <;> rw [hw] at hnext <;> simp only [workerNext] at hnext
  case testQuit => exact h.nonempty (Or.inl hw)
  all_goals grind

theorem queuesOk_step (h : QueuesOk s) (hstep : StepTo s a t) : QueuesOk t := by
  cases hstep with
  | post task =>
    exact ⟨(LazilyDeallocatedDeque.Holds.pushBack h.incoming _).wf, h.work, h.nonempty⟩
  | notify ticket hmem =>
    refine ⟨h.incoming, h.work, fun hpc => h.nonempty ?_⟩
    cases hw : s.worker <;> simp_all [WorkerPc.notified]
  | shrink now hpc =>
    exact ⟨h.incoming, (LazilyDeallocatedDeque.Holds.maybeShrinkQueue h.work now).wf, by simp⟩
  | reload now hpc =>
    rcases reloadWorkQueue_cases h with ⟨-, heq⟩ | ⟨-, heq⟩ <;> rw [heq]
    · exact ⟨h.incoming, h.work, by simp⟩
    · exact ⟨h.work, h.incoming, by simp⟩
  | runTask now e hpc hfront hfunc =>
    have hpop := LazilyDeallocatedDeque.front_popFront h.work (h.nonempty (Or.inr hpc)) hfront
    exact ⟨h.incoming, hpop.2, by simp⟩
  | dropNull now e hpc hfront hfunc =>
    have hpop := LazilyDeallocatedDeque.front_popFront h.work (h.nonempty (Or.inr hpc)) hfront
    exact ⟨h.incoming, hpop.2, by simp⟩
  | goto now pc hnext => exact ⟨h.incoming, h.work, workerNext_nonempty h hnext⟩
  | stopNotify hpc =>
    refine ⟨h.incoming, h.work, fun hpc => h.nonempty ?_⟩
    cases hw : s.worker <;> simp_all [WorkerPc.notified]
  | finish | wakeUp | spawn | joined => exact ⟨h.incoming, h.work, by simp⟩
  | start | stop | wait | startStore | startReturn | stopStore | leaveScope =>
    exact ⟨h.incoming, h.work, h.nonempty⟩

/-- A step that only reads neither starts nor ends a task. -/
theorem workerNext_current {pc : WorkerPc F} (hnext : workerNext s s.worker = some pc) :
    s.current = [] ∧ ({ s with worker := pc } : State F).current = [] := by
  unfold State.current
  cases hw : s.worker <;> rw [hw] at hnext <;> simp only [workerNext] at hnext <;> grind

/-- A notification does not touch the task in the worker's hands. -/
theorem current_notified (s : State F) :
    ({ s with worker := s.worker.notified } : State F).current = s.current := by
  unfold State.current
  cases s.worker <;> rfl

/-- What has happened to the tasks so far. -/
def State.history (s : State F) : List (Posted F) × List (Posted F) × List (Posted F) :=
  (s.posted, s.ran, s.nulls)

/-- A step that leaves the elements of the queues, the task being run and the history alone
moves no task. -/
theorem move_stay {mayExchange : Flow F → Prop}
    (hincoming : t.incomingTaskQueue.toList = s.incomingTaskQueue.toList)
    (hwork : t.workQueue.toList = s.workQueue.toList) (hcurrent : t.current = s.current)
    (hhistory : t.history = s.history) : Flow.Move mayExchange s.flow t.flow := by
  simp only [State.history, Prod.mk.injEq] at hhistory
  obtain ⟨hposted, hran, hnulls⟩ := hhistory
  have hflow : t.flow = s.flow := Flow.ext hincoming hwork hcurrent hposted hran hnulls
  rw [hflow]
  exact .stay

/-- Every step of the loop is a move of its flow of tasks; `hexchange` is asked only of a
reload that swaps the queues. -/
theorem flow_step (mayExchange : Flow F → Prop) (h : QueuesOk s) (hstep : StepTo s a t)
    (hexchange : ∀ now, a = .worker now → s.worker = .reload →
      s.incomingTaskQueue.toList ≠ [] → mayExchange s.flow) :
    Flow.Move mayExchange s.flow t.flow := by
  cases hstep with
  | post task =>
    have hpush := LazilyDeallocatedDeque.toList_pushBack h.incoming (⟨s.posted.length, task⟩)
    have hflow : (postTask s task).flow = { s.flow with
        incoming := s.flow.incoming ++ [⟨s.flow.posted.length, task⟩]
        posted := s.flow.posted ++ [⟨s.flow.posted.length, task⟩] } :=
      Flow.ext hpush rfl rfl rfl rfl rfl
    rw [hflow]
    exact .post task
  | shrink now hpc =>
    exact move_stay rfl (LazilyDeallocatedDeque.toList_maybeShrinkQueue h.work now)
      (by simp [State.current, hpc]) rfl
  | reload now hpc =>
    have hcurrent : s.current = [] := by simp [State.current, hpc]
    rcases reloadWorkQueue_cases h with ⟨-, heq⟩ | ⟨hne, heq⟩ <;> rw [heq]
    · exact move_stay rfl rfl hcurrent.symm rfl
    · have hflow : ({ s with
          incomingTaskQueue := s.workQueue
          workQueue := s.incomingTaskQueue
          worker := .testEmpty } : State F).flow =
          { s.flow with incoming := s.flow.work, work := s.flow.incoming } :=
        Flow.ext rfl rfl hcurrent.symm rfl rfl rfl
      rw [hflow]
      exact .exchange hcurrent (hexchange now rfl hpc hne)
  | runTask now e hpc hfront hfunc =>
    have hpop :=
      (LazilyDeallocatedDeque.front_popFront h.work (h.nonempty (Or.inr hpc)) hfront).1
    exact .run e _ (by simp [State.flow, State.current, hpc]) hpop hfunc
  | dropNull now e hpc hfront hfunc =>
    have hpop :=
      (LazilyDeallocatedDeque.front_popFront h.work (h.nonempty (Or.inr hpc)) hfront).1
    have hcurrent : s.current = [] := by simp [State.current, hpc]
    have hflow : ({ s with
        workQueue := s.workQueue.popFront
        worker := .testQuitAfterNull
        nulls := s.nulls ++ [e] } : State F).flow =
        { s.flow with work := s.workQueue.popFront.toList, nulls := s.flow.nulls ++ [e] } :=
      Flow.ext rfl rfl hcurrent.symm rfl rfl rfl
    rw [hflow]
    exact .drop e _ hcurrent hpop hfunc
  | finish now e hpc => exact .finish e (by simp [State.flow, State.current, hpc])
  | goto now pc hnext =>
    obtain ⟨hbefore, hafter⟩ := workerNext_current hnext
    exact move_stay rfl rfl (hafter.trans hbefore.symm) rfl
  | notify | stopNotify => exact move_stay rfl rfl (current_notified s) rfl
  | wakeUp hpc => exact move_stay rfl rfl (by simp [State.current, hpc]) rfl
  | spawn hpc habs => exact move_stay rfl rfl (by simp [State.current, habs]) rfl
  | joined hpc hend =>
    refine move_stay rfl rfl ?_ rfl
    rcases hend with hend | hend <;> simp [State.current, hend]
  | start | stop | wait | startStore | startReturn | stopStore | leaveScope => exact .stay

end Sparo.Base.TaskLoop
