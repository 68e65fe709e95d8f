import Sparo.Base.TaskLedger
import Sparo.Base.Proofs.ThreadPoolSteps

/-!
# The pool keeps the ledger

Every step of the pool is a move of its ledger, so the ledger is balanced on every run,
whatever `Stop` and `Start` do.
-/

namespace Sparo.Base.ThreadPool

open StepSystem ThreadSum

variable {threadNum : Int} {s t : State} {a : Act} {i : Nat} {pc pc' : WorkerPc}

/-- The part of the ledger that is not in the workers' hands. -/
def State.books (s : State) :
    List Enqueued × List Enqueued × List Enqueued × List Enqueued × List Enqueued × Nat :=
  (s.enqueued, s.tasks, s.executed, s.settled, s.dropped, s.activeTasks)

/-- A step that leaves the books and the workers' tasks alone. -/
theorem move_stay (hbooks : t.books = s.books)
    (hpending : total WorkerPc.pending t.workers = total WorkerPc.pending s.workers)
    (hunsettled : total WorkerPc.unsettled t.workers = total WorkerPc.unsettled s.workers) :
    Ledger.Move s.ledger t.ledger := by
  simp only [State.books, Prod.mk.injEq] at hbooks
  obtain ⟨henqueued, htasks, hexecuted, hsettled, hdropped, hactive⟩ := hbooks
  have hledger : t.ledger = s.ledger :=
    Ledger.ext henqueued htasks hpending hunsettled hexecuted hsettled hdropped hactive
  rw [hledger]
  exact .stay

/-- An idle worker has no task. -/
theorem idle_tasks (h : pc.idle = true) : pc.pending = 0 ∧ pc.unsettled = 0 := by
  cases pc <;> first | exact ⟨rfl, rfl⟩ | cases h

/-- A worker's step as a move of the ledger. -/
theorem ledger_worker (hi : s.workers[i]? = some pc) (h : WorkerTo s pc t pc') :
    Ledger.Move s.ledger ({ t with workers := t.workers.set i pc' } : State).ledger := by
  have hstay : t.books = s.books → pc.pending = pc'.pending → pc.unsettled = pc'.unsettled →
      Ledger.Move s.ledger ({ t with workers := t.workers.set i pc' } : State).ledger := by
    intro hbooks hpending hunsettled
    refine move_stay hbooks ?_ ?_
    · rw [h.workers_eq]
      exact total_set_of_eq hi hpending.symm
    · rw [h.workers_eq]
      exact total_set_of_eq hi hunsettled.symm
  -- what the workers hold after the step, in terms of what they held before
  have hpending := total_set hi WorkerPc.pending pc'
  have hunsettled := total_set hi WorkerPc.unsettled pc'
  cases h with
  | look _ _ hidle hidle' | acquire _ _ _ hidle hidle' | release _ _ hidle hidle' =>
    obtain ⟨h1, h2⟩ := idle_tasks hidle
    obtain ⟨h3, h4⟩ := idle_tasks hidle'
    exact hstay rfl (h1.trans h3.symm) (h2.trans h4.symm)
  | begin | sawZero | sawMore | lockFinish | notifyAll | noCallback | call | callReturn
  | unlockFinish => exact hstay rfl rfl rfl
  | take e rest hfree htasks =>
    simp only [WorkerPc.pending, WorkerPc.unsettled, add_zero] at hpending hunsettled
    have hledger : ({ s with tasks := rest, workers := s.workers.set i (.holding e) } :
        State).ledger = { s.ledger with
          queued := rest
          pending := total WorkerPc.pending (s.workers.set i (.holding e)) } :=
      Ledger.ext rfl rfl rfl hunsettled rfl rfl rfl rfl
    rw [hledger]
    exact .take e rest _ htasks (by rw [hpending, add_comm]; rfl)
  | drop e hquit =>
    simp only [WorkerPc.pending, WorkerPc.unsettled, add_zero] at hpending hunsettled
    have hledger : ({ s with dropped := s.dropped ++ [e], workers := s.workers.set i .exited } :
        State).ledger = { s.ledger with
          pending := total WorkerPc.pending (s.workers.set i .exited)
          dropped := s.dropped ++ [e] } :=
      Ledger.ext rfl rfl rfl hunsettled rfl rfl rfl rfl
    rw [hledger]
    exact .drop e _ (by rw [add_comm]; exact hpending)
  | execute e =>
    simp only [WorkerPc.pending, WorkerPc.unsettled, add_zero] at hpending hunsettled
    exact .execute e _ _ (by rw [add_comm]; exact hpending)
      (by rw [add_comm]; exact hunsettled)
  | decrement e =>
    simp only [WorkerPc.pending, WorkerPc.unsettled, add_zero] at hpending hunsettled
    have hledger : ({ s with
        activeTasks := decrementSize s.activeTasks
        settled := s.settled ++ [e]
        drains := if s.activeTasks = 1 then s.drains + 1 else s.drains
        workers := s.workers.set i .reread } : State).ledger = { s.ledger with
          unsettled := total WorkerPc.unsettled (s.workers.set i .reread)
          settled := s.settled ++ [e]
          active := decrementSize s.activeTasks } :=
      Ledger.ext rfl rfl hpending rfl rfl rfl rfl rfl
    rw [hledger]
    exact .settle e _ (by rw [add_comm]; exact hunsettled)

/-- Every step of the pool is a move of its ledger. -/
theorem ledger_step (h : StepTo threadNum s a t) : Ledger.Move s.ledger t.ledger := by
  cases h with
  | enqueue task hfree => exact .enqueue task
  | worker i pc pc' t hi h => exact ledger_worker hi h
  | notifyOne ticket i hmem hi =>
    exact move_stay rfl (total_set_of_eq hi rfl) (total_set_of_eq hi rfl)
  | wakeWorker i timedOut hi =>
    exact move_stay rfl (total_set_of_eq hi rfl) (total_set_of_eq hi rfl)
  | waiter j before pc pc' t hj h => cases h <;> exact .stay
  | spawn index hpc =>
    exact move_stay rfl (by simp [WorkerPc.pending]) (by simp [WorkerPc.unsettled])
  | quitNotify hpc =>
    refine move_stay rfl (total_map_of_eq (fun pc => ?_) _) (total_map_of_eq (fun pc => ?_) _)
    · cases pc <;> rfl
    · cases pc <;> rfl
  | notifyNobody | waitForAllTasks | wakeWaiter | setCompletionCallback
  | clearCompletionCallback | start | stop | startStore | started | quitStore | join =>
    exact .stay

theorem balanced_init : init.ledger.Balanced := ⟨rfl, rfl, rfl, rfl⟩

theorem balanced_step (h : s.ledger.Balanced) (hstep : step threadNum s a = some t) :
    t.ledger.Balanced :=
  Ledger.balanced_move h (ledger_step (stepTo_of_step hstep))

/-- What a step does to `active_tasks_`. -/
theorem activeTasks_step (h : StepTo threadNum s a t) :
    t.activeTasks = s.activeTasks ∨
    (∃ task, a = .enqueue task ∧ t.activeTasks = s.activeTasks + 1) ∨
    (∃ i e, a = .worker i ∧ s.workers[i]? = some (.decrement e) ∧
      t.activeTasks = decrementSize s.activeTasks) := by
  cases h with
  | enqueue task hfree => exact Or.inr (Or.inl ⟨task, rfl, rfl⟩)
  | worker i pc pc' t hi hto =>
    cases hto with
    | decrement e => exact Or.inr (Or.inr ⟨i, e, rfl, hi, rfl⟩)
    | _ => exact Or.inl rfl
  | waiter j before pc pc' t hj hto => cases hto <;> exact Or.inl rfl
  | _ => exact Or.inl rfl

/-- While `active_tasks_` is 0 no worker is about to decrement it. -/
theorem not_decrement (h : s.ledger.Balanced) (hzero : s.activeTasks = 0) (e : Enqueued) :
    WorkerPc.decrement e ∉ s.workers := by
  intro hmem
  have hunsettled : total WorkerPc.unsettled s.workers = 0 := (h.of_active_eq_zero hzero).2.2.1
  have := total_eq_zero_iff.1 hunsettled _ hmem
  simp [WorkerPc.unsettled] at this

/-- From 0 `active_tasks_` moves only when a task is enqueued. -/
theorem activeTasks_stays_zero (h : s.ledger.Balanced) (hzero : s.activeTasks = 0)
    (hstep : StepTo threadNum s a t) (ha : ∀ task, a ≠ .enqueue task) : t.activeTasks = 0 := by
  obtain hsame | ⟨task, rfl, -⟩ | ⟨i, e, -, hi, -⟩ := activeTasks_step hstep
  · rw [hsame, hzero]
  · exact absurd rfl (ha task)
  · exact absurd (List.mem_of_getElem? hi) (not_decrement h hzero e)

theorem activeTasks_run_zero {acts : List Act} (h : s.ledger.Balanced) (hzero : s.activeTasks = 0)
    (hacts : ∀ task, .enqueue task ∉ acts) (hrun : exec (step threadNum) s acts = some t) :
    t.activeTasks = 0 := by
  have hmeet : StepsMeet (step threadNum) (fun _ a => ∀ task, a ≠ .enqueue task) s acts :=
    stepsMeet_of_forall_mem fun a ha task heq => hacts task (heq ▸ ha)
  refine (exec_induct (I := fun s => s.ledger.Balanced ∧ s.activeTasks = 0) ?_ ⟨h, hzero⟩ hmeet
    hrun).2
  rintro s a t ⟨hbal, hzero⟩ ha hstep
  exact ⟨balanced_step hbal hstep, activeTasks_stays_zero hbal hzero (stepTo_of_step hstep) ha⟩

end Sparo.Base.ThreadPool
