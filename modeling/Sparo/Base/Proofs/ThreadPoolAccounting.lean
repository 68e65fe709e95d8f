import Sparo.Base.Proofs.ThreadPoolLedger

/-!
# What `active_tasks_` counts

A worker that has taken a task reads `should_quit_` once more and leaves when it is set: the
task is gone, and it stays counted in `active_tasks_`. This happens exactly when a task is
between `PeekTask` and that read while `should_quit_` is set. On a run without such a moment
every task is queued, in the hands of a worker that executes it, or executed once, and the
counter is the number of tasks of the first two kinds.
-/

namespace Sparo.Base.ThreadPool

open StepSystem ThreadSum

variable {threadNum : Int} {s t : State} {a : Act} {i : Nat} {pc pc' : WorkerPc}

/-- The task a worker has taken and will still execute: after `PeekTask` it executes the task
only if it finds `should_quit_` clear. -/
def WorkerPc.toExecute (shouldQuit : Bool) : WorkerPc → Multiset Enqueued
  | .holding e => if shouldQuit then 0 else {e}
  | .executing e => {e}
  | _ => 0

/-- The task a worker has taken and is about to give up. -/
def WorkerPc.doomed (shouldQuit : Bool) : WorkerPc → Multiset Enqueued
  | .holding e => if shouldQuit then {e} else 0
  | _ => 0

/-- Every enqueued task is queued, or held by a worker that will still execute it, or held by
one that has executed it and not yet subtracted it, or settled; it is executed once; and
`active_tasks_` is the number of tasks of the first three kinds. -/
structure Accounting (s : State) : Prop where
  split : (s.enqueued : Multiset Enqueued) =
    s.tasks + total (WorkerPc.toExecute s.shouldQuit) s.workers +
      total WorkerPc.unsettled s.workers + s.settled
  distinct : s.enqueued.Nodup
  executed : (s.executed : Multiset Enqueued) = total WorkerPc.unsettled s.workers + s.settled
  once : s.executed.Nodup
  counter : s.activeTasks = s.tasks.length +
    (total (WorkerPc.toExecute s.shouldQuit) s.workers).card +
      (total WorkerPc.unsettled s.workers).card

/-- Between `PeekTask` and the second test of `should_quit_`. -/
def WorkerPc.isHolding : WorkerPc → Bool
  | .holding _ => true
  | _ => false

/-- No worker is between `PeekTask` and the second test of `should_quit_`. -/
def State.NoneHolding (s : State) : Prop := ∀ pc ∈ s.workers, pc.isHolding = false

instance (s : State) : Decidable s.NoneHolding :=
  inferInstanceAs (Decidable (∀ pc ∈ s.workers, pc.isHolding = false))

/-- A task is never between `PeekTask` and the second test of `should_quit_` while
`should_quit_` is set: `PeekTask` takes none once it is set, and it is not set while a worker
is there. -/
def TakesBeforeQuit (s : State) : Act → Prop
  | .worker i => s.workers[i]? = some .peek → s.tasks ≠ [] → s.shouldQuit = false
  | .control => s.control = .stopStore ∨ s.control = .scheduleQuitStore → s.NoneHolding
  | _ => True

instance (s : State) : ∀ a, Decidable (TakesBeforeQuit s a)
  | .worker _ => inferInstanceAs (Decidable (_ → _ → _))
  | .control => inferInstanceAs (Decidable (_ ∨ _ → s.NoneHolding))
  | .enqueue _ | .scheduleWork _ _ | .wakeWorker _ _ | .waitForAllTasks | .waiter _
  | .wakeWaiter _ | .setCompletionCallback _ _ | .clearCompletionCallback | .start | .stop =>
    isTrue trivial

/-- Nothing was given up, and nothing is about to be. -/
def NothingLost (s : State) : Prop :=
  s.dropped = [] ∧ (s.shouldQuit = true → s.NoneHolding)

theorem pending_eq (shouldQuit : Bool) (pc : WorkerPc) :
    pc.pending = pc.toExecute shouldQuit + pc.doomed shouldQuit := by
  cases pc <;> cases shouldQuit <;> rfl

theorem doomed_eq_zero_iff (shouldQuit : Bool) (pc : WorkerPc) :
    pc.doomed shouldQuit = 0 ↔ shouldQuit = true → pc.isHolding = false := by
  cases pc <;> cases shouldQuit <;> simp [WorkerPc.doomed, WorkerPc.isHolding]

theorem total_pending (s : State) : total WorkerPc.pending s.workers =
    total (WorkerPc.toExecute s.shouldQuit) s.workers +
      total (WorkerPc.doomed s.shouldQuit) s.workers := by
  rw [← total_add]
  congr 1
  funext pc
  exact pending_eq s.shouldQuit pc

theorem total_doomed_eq_zero_iff (s : State) :
    total (WorkerPc.doomed s.shouldQuit) s.workers = 0 ↔ (s.shouldQuit = true → s.NoneHolding) := by
  rw [total_eq_zero_iff]
  constructor
  · intro h hquit pc hpc
    exact (doomed_eq_zero_iff _ pc).1 (h pc hpc) hquit
  · intro h pc hpc
    exact (doomed_eq_zero_iff _ pc).2 fun hquit => h hquit pc hpc

/-- On a balanced ledger the accounts are right exactly when nothing is lost. -/
theorem accounting_iff (h : s.ledger.Balanced) : Accounting s ↔ NothingLost s := by
  have hsplit : (s.enqueued : Multiset Enqueued) = s.tasks + total WorkerPc.pending s.workers +
      total WorkerPc.unsettled s.workers + s.settled + s.dropped := h.split
  have hactive : s.activeTasks = s.tasks.length + (total WorkerPc.pending s.workers).card +
      (total WorkerPc.unsettled s.workers).card + s.dropped.length := h.active
  rw [total_pending] at hsplit hactive
  constructor
  · intro hacc
    have hcard := congrArg Multiset.card (hacc.split.symm.trans hsplit)
    simp only [Multiset.card_add, Multiset.coe_card] at hcard
    refine ⟨List.length_eq_zero_iff.1 (by omega), (total_doomed_eq_zero_iff s).1 ?_⟩
    exact Multiset.card_eq_zero.1 (by omega)
  · rintro ⟨hdropped, hholding⟩
    rw [(total_doomed_eq_zero_iff s).2 hholding, hdropped] at hsplit hactive
    simp only [add_zero, Multiset.coe_nil, List.length_nil] at hsplit hactive
    have hdistinct : s.enqueued.Nodup := by
      apply List.Nodup.of_map Enqueued.ticket
      exact h.tickets ▸ List.nodup_range
    refine ⟨hsplit, hdistinct, h.executed, ?_, hactive⟩
    have hle : (s.executed : Multiset Enqueued) ≤ s.enqueued := by
      have hexecuted : (s.executed : Multiset Enqueued) =
        total WorkerPc.unsettled s.workers + s.settled := h.executed
      rw [hsplit, hexecuted, add_assoc]
      exact Multiset.le_add_left _ _
    exact Multiset.coe_nodup.1 (Multiset.nodup_of_le hle (Multiset.coe_nodup.2 hdistinct))

theorem noneHolding_set (h : s.NoneHolding) (hpc : pc'.isHolding = false) :
    ∀ pc ∈ s.workers.set i pc', pc.isHolding = false := by
  intro pc hmem
  rcases List.mem_or_eq_of_mem_set hmem with hold | rfl
  · exact h pc hold
  · exact hpc

theorem idle_not_holding (h : pc.idle = true) : pc.isHolding = false := by
  cases pc <;> first | rfl | cases h

/-- A worker's step loses nothing, unless it takes a task while `should_quit_` is set. -/
theorem nothingLost_worker (h : NothingLost s) (hi : s.workers[i]? = some pc)
    (hto : WorkerTo s pc t pc') :
    NothingLost { t with workers := t.workers.set i pc' } ↔ TakesBeforeQuit s (.worker i) := by
  have hmem : pc' ∈ s.workers.set i pc' :=
    List.mem_set (List.getElem?_eq_some_iff.1 hi).1 pc'
  have hkeep : pc ≠ .peek ∨ s.tasks = [] → pc'.isHolding = false → t.dropped = s.dropped →
      t.shouldQuit = s.shouldQuit →
      (NothingLost { t with workers := t.workers.set i pc' } ↔
        TakesBeforeQuit s (.worker i)) := by
    intro hpc hfree hdropped hquit
    refine iff_of_true ⟨hdropped.trans h.1, fun hset => ?_⟩ ?_
    · have := noneHolding_set (i := i) (h.2 (hquit ▸ hset)) hfree
      rwa [← hto.workers_eq] at this
    · intro hpeek htasks
      rcases hpc with hpc | hpc
      · exact absurd (Option.some.inj (hi.symm.trans hpeek)) hpc
      · exact absurd hpc htasks
  cases hto with
  | look _ _ hidle hidle' hheld hpeek =>
    refine hkeep ?_ (idle_not_holding hidle') rfl rfl
    by_cases hpc : pc = .peek
    · exact Or.inr (hpeek hpc)
    · exact Or.inl hpc
  | acquire _ _ hfree hidle hidle' hheld hheld' hpeek =>
    exact hkeep (Or.inl hpeek) (idle_not_holding hidle') rfl rfl
  | release _ _ hidle hidle' hheld hheld' =>
    refine hkeep (Or.inl ?_) (idle_not_holding hidle') rfl rfl
    rintro rfl
    cases hheld
  | begin | execute | decrement | sawZero | sawMore | lockFinish | notifyAll | noCallback | call
  | callReturn | unlockFinish => exact hkeep (Or.inl (by simp)) rfl rfl rfl
  | take e rest hfree htasks =>
    constructor
    · rintro ⟨-, hholding⟩ - -
      by_contra hquit
      have := hholding (Bool.eq_true_of_not_eq_false hquit) _ hmem
      simp [WorkerPc.isHolding] at this
    · intro hok
      have hquit := hok hi (by simp [htasks])
      exact ⟨h.1, fun hset => absurd hset (by simp [hquit])⟩
  | drop e hquit =>
    -- the worker at `i` contradicts that no worker holds a task
    have := h.2 hquit _ (List.mem_of_getElem? hi)
    simp [WorkerPc.isHolding] at this

/-- A step from a state where nothing is lost leads to such a state exactly when it takes no
task in the middle of a quit. -/
theorem nothingLost_step (h : NothingLost s) (hstep : StepTo threadNum s a t) :
    NothingLost t ↔ TakesBeforeQuit s a := by
  cases hstep with
  | worker i pc pc' t hi hto => exact nothingLost_worker h hi hto
  | notifyOne ticket i hmem hi =>
    exact iff_of_true ⟨h.1, fun hset => noneHolding_set (h.2 hset) rfl⟩ trivial
  | wakeWorker i timedOut hi =>
    exact iff_of_true ⟨h.1, fun hset => noneHolding_set (h.2 hset) rfl⟩ trivial
  | enqueue | notifyNobody | waitForAllTasks | wakeWaiter | setCompletionCallback
  | clearCompletionCallback | start | stop => exact iff_of_true h trivial
  | waiter j before pc pc' t hj hto => cases hto <;> exact iff_of_true h trivial
  | startStore hpc =>
    refine iff_of_true ⟨h.1, fun hset => by cases hset⟩ ?_
    intro hstop
    simp [hpc] at hstop
  | spawn index hpc =>
    refine iff_of_true ⟨h.1, fun hset pc hmem => ?_⟩ ?_
    · rcases List.mem_append.1 hmem with hold | hnew
      · exact h.2 hset pc hold
      · obtain rfl : pc = .loopTop := by simpa using hnew
        rfl
    · intro hstop
      simp [hpc] at hstop
  | started index hpc =>
    refine iff_of_true h ?_
    intro hstop
    simp [hpc] at hstop
  | quitStore pc hpc =>
    have hstop : s.control = .stopStore ∨ s.control = .scheduleQuitStore :=
      hpc.imp And.left And.left
    exact ⟨fun hlost _ => hlost.2 rfl, fun hok => ⟨h.1, fun _ => hok hstop⟩⟩
  | quitNotify hpc =>
    refine iff_of_true ⟨h.1, fun hset pc hmem => ?_⟩ ?_
    · obtain ⟨old, hold, rfl⟩ := List.mem_map.1 hmem
      have := h.2 hset old hold
      cases old <;> first | rfl | exact this
    · intro hstop
      simp [hpc] at hstop
  | join index pc hpc hend =>
    refine iff_of_true h ?_
    intro hstop
    simp [hpc] at hstop

/-- On a run the accounts are right in every state exactly when no task is between
`PeekTask` and the second test of `should_quit_` while `should_quit_` is set. -/
theorem tasks_accounted_iff (threadNum : Int) (acts : List Act) (s : State)
    (hrun : exec (step threadNum) init acts = some s) :
    (∀ bs t, bs <+: acts → exec (step threadNum) init bs = some t → Accounting t) ↔
      StepsMeet (step threadNum) TakesBeforeQuit init acts := by
  refine (meets_iff_forall_reached (I := fun s => s.ledger.Balanced) ?_ ?_ balanced_init ?_
    hrun).symm
  · intro s a t h hstep
    exact balanced_step h hstep
  · intro s a t hbal hacc hstep
    rw [accounting_iff (balanced_step hbal hstep)]
    exact nothingLost_step ((accounting_iff hbal).1 hacc) (stepTo_of_step hstep)
  · exact (accounting_iff balanced_init).2 ⟨rfl, fun hset => by cases hset⟩

/-- One worker takes a task, executes it and settles it. -/
def settlingRun : List Act :=
  List.flatten [[.start, .control, .control, .control, .enqueue ⟨1, 2⟩],
    List.replicate 8 (.worker 0)]

theorem tasks_accounted_settling :
    ∃ s, exec (step 1) init settlingRun = some s ∧ s.settled.length = 1 ∧
      (∀ bs t, bs <+: settlingRun → exec (step 1) init bs = some t → Accounting t) := by
  have hends : ∃ s, exec (step 1) init settlingRun = some s ∧ s.settled.length = 1 :=
    exists_exec_of_decide (by decide)
  obtain ⟨s, hs, hsettled⟩ := hends
  exact ⟨s, hs, hsettled, (tasks_accounted_iff 1 settlingRun s hs).2 (by decide)⟩

/-- `Stop` sets `should_quit_` after a worker has taken a task and before it looks. -/
def droppingRun : List Act :=
  List.flatten [[.start, .control, .control, .control, .enqueue ⟨1, 2⟩],
    List.replicate 5 (.worker 0), [.stop, .control, .worker 0]]

theorem tasks_not_accounted :
    ¬ ∀ (threadNum : Int) (acts : List Act) (s : State),
      exec (step threadNum) init acts = some s → Accounting s := by
  intro h
  have hends : ∃ s, exec (step 1) init droppingRun = some s ∧ s.activeTasks = 1 ∧
      s.tasks = [] ∧ s.workers = [.exited] := exists_exec_of_decide (by decide)
  obtain ⟨s, hs, hactive, htasks, hworkers⟩ := hends
  have hcounter := (h 1 droppingRun s hs).counter
  rw [hactive, htasks, hworkers] at hcounter
  simp [WorkerPc.toExecute, WorkerPc.unsettled] at hcounter

end Sparo.Base.ThreadPool
