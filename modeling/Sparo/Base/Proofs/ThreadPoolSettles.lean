import Sparo.Base.Proofs.ThreadPoolWork

/-!
# The pool settles

Left to itself the pool comes to a state in which only a time-out or a spurious wake-up can move
it. While the pool runs no task is left in the queue then: a worker looks at the queue under the
mutex before it sleeps, and a task that is pushed later is followed by a notification. `Stop` is
different. It sets `should_quit_` without the mutex, so a worker that is about to sleep can
miss its notification, and `Stop` waits for the time-out of that worker.
-/

namespace Sparo.Base.ThreadPool

open StepSystem ThreadSum

variable {threadNum : Int} {s t : State} {a : Act} {i : Nat} {pc pc' : WorkerPc}

/-- The worker is going to look at the queue again. -/
def WorkerPc.awake : WorkerPc → Bool
  | .sleeping | .exited => false
  | _ => true

/-- Nobody sleeps on a task: who is about to sleep has seen the queue empty, and who sleeps while
there is a task is about to be notified, or somebody else is awake. -/
structure WakeOk (s : State) : Prop where
  block : .block ∈ s.workers → s.tasks = []
  sleeping : s.shouldQuit = false → s.tasks ≠ [] → .sleeping ∈ s.workers →
    s.scheduling ≠ [] ∨ ∃ pc ∈ s.workers, pc.awake = true

/-- What `should_quit_` says while the owner is somewhere. -/
def OwnerOk (s : State) : Prop :=
  match s.control with
  | .idle | .startStore => s.shouldQuit = true → ∀ pc ∈ s.workers, pc = .exited
  | .spawn _ => s.shouldQuit = false
  | .stopStore => True
  | .scheduleQuitStore | .scheduleQuitNotify => s.shouldQuit = true
  | .join index => s.shouldQuit = true ∧ ∀ j < index, s.workers[j]? = some .exited

/-! ## The owner -/

/-- A step that leaves the owner alone and keeps who has returned. -/
theorem OwnerOk.frame (h : OwnerOk s) (hquit : t.shouldQuit = s.shouldQuit)
    (hcontrol : t.control = s.control)
    (hall : (∀ pc ∈ s.workers, pc = .exited) → ∀ pc ∈ t.workers, pc = .exited)
    (hexited : ∀ j : Nat, s.workers[j]? = some .exited → t.workers[j]? = some .exited) :
    OwnerOk t := by
  unfold OwnerOk at h ⊢
  rw [hquit, hcontrol]
  cases hpc : s.control with
  | idle | startStore =>
    rw [hpc] at h
    exact fun hshut => hall (h hshut)
  | join index =>
    rw [hpc] at h
    exact ⟨h.1, fun j hj => hexited j (h.2 j hj)⟩
  | spawn index | stopStore | scheduleQuitStore | scheduleQuitNotify =>
    rw [hpc] at h
    exact h

/-- A step of a worker that has not returned. -/
theorem OwnerOk.worker (h : OwnerOk s) (hi : s.workers[i]? = some pc) (hpc : pc ≠ .exited)
    (hquit : t.shouldQuit = s.shouldQuit) (hcontrol : t.control = s.control)
    (hworkers : t.workers = s.workers.set i pc') : OwnerOk t := by
  refine h.frame hquit hcontrol (fun hall => ?_) fun j hj => ?_
  · exact absurd (hall pc (List.mem_of_getElem? hi)) hpc
  · have hne : i ≠ j := by
      rintro rfl
      exact hpc (Option.some.inj (hi.symm.trans hj))
    rw [hworkers, List.getElem?_set_ne hne]
    exact hj

theorem exited_of_joined {index : Nat} (hjoined : ∀ j < index, s.workers[j]? = some .exited)
    (hnone : s.workers[index]? = none) (hpc : pc ∈ s.workers) : pc = .exited := by
  obtain ⟨j, hj⟩ := List.mem_iff_getElem?.1 hpc
  have hlt : j < index := by
    obtain ⟨hlt, -⟩ := List.getElem?_eq_some_iff.1 hj
    exact lt_of_lt_of_le hlt (List.getElem?_eq_none_iff.1 hnone)
  exact Option.some.inj (hj.symm.trans (hjoined j hlt))

theorem not_exited_of_workerStep (h : workerStep s pc = some (t, pc')) : pc ≠ .exited := by
  rintro rfl
  cases h

theorem ownerOk_step (h : OwnerOk s) (hstep : step threadNum s a = some t) : OwnerOk t := by
  cases stepTo_of_step hstep with
  | worker i pc pc' u hi hto =>
    simp only [step, hi] at hstep
    obtain ⟨⟨v, pc''⟩, hv, heq⟩ := Option.map_eq_some_iff.1 hstep
    obtain ⟨hquit, hworkers, hcontrol, -⟩ := worker_pays hv
    rw [← heq]
    exact h.worker hi (not_exited_of_workerStep hv) hquit hcontrol
      (congrArg (fun workers => workers.set i pc'') hworkers)
  | notifyOne ticket i hmem hi => exact h.worker hi (fun hpc => by cases hpc) rfl rfl rfl
  | wakeWorker i timedOut hi => exact h.worker hi (fun hpc => by cases hpc) rfl rfl rfl
  | waiter j before pc pc' u hj hto => cases hto <;> exact h.frame rfl rfl id fun _ => id
  | start hpc =>
    unfold OwnerOk at h
    rw [hpc] at h
    exact h
  | stop hpc => exact trivial
  | startStore hpc => exact rfl
  | spawn index hpc =>
    unfold OwnerOk at h
    rw [hpc] at h
    exact h
  | started index hpc =>
    unfold OwnerOk at h
    rw [hpc] at h
    intro hshut
    cases h.symm.trans hshut
  | quitStore pc hpc => rcases hpc with ⟨-, rfl⟩ | ⟨-, rfl⟩ <;> exact rfl
  | quitNotify hpc =>
    unfold OwnerOk at h
    rw [hpc] at h
    exact ⟨h, fun j hj => absurd hj (Nat.not_lt_zero j)⟩
  | join index pc hpc hend =>
    unfold OwnerOk at h
    rw [hpc] at h
    obtain ⟨hshut, hexited⟩ := h
    rcases hend with ⟨hnone, rfl⟩ | ⟨hsome, rfl⟩
    · exact fun _ pc hmem => exited_of_joined hexited hnone hmem
    · refine ⟨hshut, fun j hj => ?_⟩
      rcases Nat.lt_succ_iff_lt_or_eq.1 hj with hlt | rfl
      · exact hexited j hlt
      · exact hsome
  | enqueue | notifyNobody | waitForAllTasks | wakeWaiter | setCompletionCallback
  | clearCompletionCallback => exact h.frame rfl rfl id fun _ => id

/-! ## Nobody sleeps on a task -/

/-- A step that adds no task, puts nobody to sleep and leaves somebody awake. -/
theorem WakeOk.frame (h : WakeOk s) (htasks : t.tasks = s.tasks)
    (hquit : t.shouldQuit = false → s.shouldQuit = false)
    (hscheduling : t.scheduling = s.scheduling)
    (hblock : .block ∈ t.workers → .block ∈ s.workers)
    (hsleeping : .sleeping ∈ t.workers → .sleeping ∈ s.workers)
    (hawake : (∃ pc ∈ s.workers, pc.awake = true) → ∃ pc ∈ t.workers, pc.awake = true) :
    WakeOk t := by
  refine ⟨fun hmem => htasks.trans (h.block (hblock hmem)), fun hshut hne hmem => ?_⟩
  rw [hscheduling]
  exact (h.sleeping (hquit hshut) (htasks ▸ hne) (hsleeping hmem)).imp_right hawake

/-- A step that wakes a worker, or leaves it awake. -/
theorem WakeOk.of_awake (h : WakeOk s) (hi : s.workers[i]? = some pc)
    (htasks : t.tasks = s.tasks ∨ ∃ e, s.tasks = e :: t.tasks)
    (hworkers : t.workers = s.workers.set i pc') (hblock : pc' = .block → s.tasks = [])
    (hawake : pc'.awake = true) : WakeOk t := by
  obtain ⟨hlt, -⟩ := List.getElem?_eq_some_iff.1 hi
  refine ⟨fun hmem => ?_, fun _ _ _ => .inr ⟨pc', ?_, hawake⟩⟩
  · have hempty : s.tasks = [] := by
      rw [hworkers] at hmem
      rcases List.mem_or_eq_of_mem_set hmem with hold | hnew
      · exact h.block hold
      · exact hblock hnew.symm
    rcases htasks with heq | ⟨e, heq⟩
    · exact heq.trans hempty
    · rw [hempty] at heq
      cases heq
  · rw [hworkers]
    exact List.mem_set hlt pc'

/-- When a worker blocks, sleeps or returns. -/
theorem workerStep_ends (h : workerStep s pc = some (t, pc')) :
    (pc' = .block → s.tasks = []) ∧ (pc'.awake = false →
      (pc = .block ∧ pc' = .sleeping) ∨ (s.shouldQuit = true ∧ pc' = .exited)) := by
  cases pc with
  | loopTop =>
    cases h
    cases hquit : s.shouldQuit <;> simp [WorkerPc.awake]
  | evalPredicate =>
    cases h
    cases hquit : s.shouldQuit <;> cases htasks : s.tasks <;> simp [WorkerPc.awake]
  | reread =>
    cases h
    split <;> simp [WorkerPc.awake]
  | block =>
    cases h
    simp [WorkerPc.awake]
  | peek =>
    simp only [workerStep, peekTask] at h
    split at h
    · cases h
    · split at h <;> cases h <;> simp [WorkerPc.awake]
  | holding e =>
    simp only [workerStep] at h
    split at h
    · next hquit =>
      cases h
      simp [WorkerPc.awake, hquit]
    · cases h
      simp [WorkerPc.awake]
  | testCallback =>
    simp only [workerStep] at h
    split at h <;> cases h <;> simp [WorkerPc.awake]
  | relock timedOut =>
    simp only [workerStep, WorkerPc.acquire] at h
    split at h
    · cases h
    · cases h
      cases timedOut <;> simp [WorkerPc.awake]
  | lockToWait | lockToFinish =>
    simp only [workerStep, WorkerPc.acquire] at h
    split at h
    · cases h
    · cases h
      simp [WorkerPc.awake]
  | leaveWait | leaveFinish | executing | decrement | notifyFinished | inCallback =>
    cases h
    simp [WorkerPc.awake]
  | sleeping | exited => cases h

/-- A worker that is about to take a task, or has one to look at, is awake. -/
theorem wakeOk_worker (h : WakeOk s) (hi : s.workers[i]? = some pc)
    (hstep : workerStep s pc = some (t, pc')) :
    WakeOk { t with workers := t.workers.set i pc' } := by
  obtain ⟨hquit, hworkers, -, -, hpays⟩ := worker_pays hstep
  obtain ⟨hblock, hends⟩ := workerStep_ends hstep
  have htasks : t.tasks = s.tasks ∨ ∃ e, s.tasks = e :: t.tasks := by
    rcases hpays with ⟨heq, -⟩ | ⟨-, e, heq, -⟩ | ⟨heq, -⟩
    · exact .inl heq
    · exact .inr ⟨e, heq⟩
    · exact .inl heq
  cases hawake : pc'.awake with
  | true => exact h.of_awake hi htasks (congrArg (fun ws => ws.set i pc') hworkers) hblock hawake
  | false =>
    rcases hends hawake with ⟨rfl, rfl⟩ | ⟨hshut, rfl⟩
    · -- who was about to sleep has seen the queue empty
      have hempty := h.block (List.mem_of_getElem? hi)
      have hempty' : t.tasks = [] := by
        rcases htasks with heq | ⟨e, heq⟩
        · exact heq.trans hempty
        · rw [hempty] at heq
          cases heq
      exact ⟨fun _ => hempty', fun _ hne => absurd hempty' hne⟩
    · refine ⟨fun hmem => ?_, fun hrun => ?_⟩
      · dsimp only at hmem
        rw [hworkers] at hmem
        rcases List.mem_or_eq_of_mem_set hmem with hold | hnew
        · have hempty := h.block hold
          rcases htasks with heq | ⟨e, heq⟩
          · exact heq.trans hempty
          · rw [hempty] at heq
            cases heq
        · cases hnew
      · cases (hquit.symm.trans hrun).symm.trans hshut

theorem wakeOk_step (h : WakeOk s) (howner : OwnerOk s) (hmutex : MutexOk s)
    (hstep : step threadNum s a = some t) : WakeOk t := by
  cases stepTo_of_step hstep with
  | enqueue task hfree =>
    refine ⟨fun hmem => ?_, fun _ _ _ => .inl ?_⟩
    · have hheld := hmutex.worker_of_free hfree hmem
      cases hheld
    · simp [enqueueTask]
  | notifyNobody ticket hmem =>
    have hnone : .sleeping ∉ s.workers := by
      intro hsleeping
      simp [step, hmem, scheduleWork, hsleeping] at hstep
    exact ⟨h.block, fun _ _ hsleeping => absurd hsleeping hnone⟩
  | notifyOne ticket i hmem hi =>
    exact h.of_awake hi (.inl rfl) rfl (fun hpc => by cases hpc) rfl
  | worker i pc pc' u hi hto =>
    simp only [step, hi] at hstep
    obtain ⟨⟨v, pc''⟩, hv, heq⟩ := Option.map_eq_some_iff.1 hstep
    rw [← heq]
    exact wakeOk_worker h hi hv
  | wakeWorker i timedOut hi =>
    exact h.of_awake hi (.inl rfl) rfl (fun hpc => by cases hpc) rfl
  | waiter j before pc pc' u hj hto => cases hto <;> exact h.frame rfl id rfl id id id
  | startStore hpc =>
    refine ⟨h.block, fun _ hne hmem => ?_⟩
    cases hquit : s.shouldQuit with
    | false => exact h.sleeping hquit hne hmem
    | true =>
      -- `Stop` has waited for every worker
      unfold OwnerOk at howner
      rw [hpc] at howner
      cases howner hquit _ hmem
  | spawn index hpc =>
    refine ⟨fun hmem => ?_, fun _ _ _ => .inr ⟨.loopTop, by simp, rfl⟩⟩
    rcases List.mem_append.1 hmem with hold | hnew
    · exact h.block hold
    · cases List.mem_singleton.1 hnew
  | quitStore pc hpc => exact ⟨h.block, fun hrun => by cases hrun⟩
  | quitNotify hpc =>
    refine ⟨fun hmem => ?_, fun _ _ hmem => ?_⟩
    · obtain ⟨pc, hpc, heq⟩ := List.mem_map.1 hmem
      obtain rfl : pc = .block := by
        revert heq
        cases pc <;> simp [WorkerPc.notified]
      exact h.block hpc
    · obtain ⟨pc, -, heq⟩ := List.mem_map.1 hmem
      revert heq
      cases pc <;> simp [WorkerPc.notified]
  | waitForAllTasks | wakeWaiter | setCompletionCallback | clearCompletionCallback | start | stop
  | started | join => exact h.frame rfl id rfl id id id

/-! ## The pool at rest -/

/-- Nothing moves the pool but a time-out, a spurious wake-up or another call. -/
def State.AtRest (threadNum : Int) (s : State) : Prop :=
  ∀ a : Act, a.internal = true → a.wakes = false → step threadNum s a = none

/-- Who holds the mutex can move. -/
theorem workerStep_of_holds (h : pc.holdsMutex = true) : (workerStep s pc).isSome = true := by
  cases pc with
  | testCallback =>
    simp only [workerStep]
    split <;> rfl
  | evalPredicate | block | leaveWait | notifyFinished | inCallback | leaveFinish => rfl
  | _ => cases h

/-- A worker that cannot move while the mutex is free sleeps or has returned. -/
theorem workerStep_eq_none (hfree : s.mutexHeld = false) (h : workerStep s pc = none) :
    pc = .sleeping ∨ pc = .exited := by
  cases pc with
  | sleeping => exact .inl rfl
  | exited => exact .inr rfl
  | loopTop | evalPredicate | block | leaveWait | executing | decrement | reread | notifyFinished
  | inCallback | leaveFinish => cases h
  | holding e =>
    simp only [workerStep] at h
    split at h <;> cases h
  | testCallback =>
    simp only [workerStep] at h
    split at h <;> cases h
  | peek | lockToWait | relock | lockToFinish =>
    simp [workerStep, WorkerPc.acquire, hfree] at h

theorem waiterStep_of_holds {pc : WaiterPc} (h : pc.holdsMutex = true) :
    (waiterStep s pc).isSome = true := by
  cases pc with
  | evalPredicate | block | leave => rfl
  | _ => cases h

theorem waiterStep_eq_none {pc : WaiterPc} (hfree : s.mutexHeld = false)
    (h : waiterStep s pc = none) : pc = .blocked ∨ pc = .returned := by
  cases pc with
  | blocked => exact .inl rfl
  | returned => exact .inr rfl
  | lock | relock => simp [waiterStep, hfree] at h
  | evalPredicate | block | leave => cases h

theorem State.AtRest.worker (hrest : s.AtRest threadNum) (hpc : pc ∈ s.workers) :
    workerStep s pc = none := by
  obtain ⟨i, hi⟩ := List.mem_iff_getElem?.1 hpc
  have hnone := hrest (.worker i) rfl rfl
  simp only [step, hi, Option.map_eq_none_iff] at hnone
  exact hnone

theorem State.AtRest.waiter (hrest : s.AtRest threadNum) {w : Waiter} (hw : w ∈ s.waiters) :
    waiterStep s w.pc = none := by
  obtain ⟨j, hj⟩ := List.mem_iff_getElem?.1 hw
  have hnone := hrest (.waiter j) rfl rfl
  simp only [step, hj, Option.map_eq_none_iff] at hnone
  exact hnone

/-- At rest nobody holds the mutex. -/
theorem State.AtRest.free (hrest : s.AtRest threadNum) (hmutex : MutexOk s) :
    s.mutexHeld = false := by
  have hworkers : total (fun pc : WorkerPc => pc.holdsMutex.toNat) s.workers = 0 := by
    refine total_eq_zero_iff.2 fun pc hpc => ?_
    cases hheld : pc.holdsMutex with
    | false => rfl
    | true =>
      have hsome := workerStep_of_holds (s := s) hheld
      rw [hrest.worker hpc] at hsome
      cases hsome
  have hwaiters : total (fun w : Waiter => w.pc.holdsMutex.toNat) s.waiters = 0 := by
    refine total_eq_zero_iff.2 fun w hw => ?_
    cases hheld : w.pc.holdsMutex with
    | false => rfl
    | true =>
      have hsome := waiterStep_of_holds (s := s) hheld
      rw [hrest.waiter hw] at hsome
      cases hsome
  unfold MutexOk State.holders at hmutex
  rw [hworkers, hwaiters] at hmutex
  cases hheld : s.mutexHeld with
  | false => rfl
  | true =>
    rw [hheld] at hmutex
    cases hmutex

/-- At rest every `EnqueueTask` call has returned. -/
theorem State.AtRest.scheduling (hrest : s.AtRest threadNum) : s.scheduling = [] := by
  refine List.eq_nil_iff_forall_not_mem.2 fun ticket hmem => ?_
  by_cases hsleeping : .sleeping ∈ s.workers
  · obtain ⟨i, hi⟩ := List.mem_iff_getElem?.1 hsleeping
    have hnone := hrest (.scheduleWork ticket (some i)) rfl rfl
    simp [step, hmem, ThreadPool.scheduleWork, hi] at hnone
  · have hnone := hrest (.scheduleWork ticket none) rfl rfl
    simp [step, hmem, ThreadPool.scheduleWork, hsleeping] at hnone

/-- What the rest of the argument needs of a reachable state. -/
structure PoolOk (s : State) : Prop where
  balanced : s.ledger.Balanced
  mutex : MutexOk s
  notifier : NotifierOk s
  owner : OwnerOk s
  wake : WakeOk s

theorem PoolOk.step (h : PoolOk s) (hstep : step threadNum s a = some t) : PoolOk t where
  balanced := balanced_step h.balanced hstep
  mutex := mutexOk_step h.mutex (stepTo_of_step hstep)
  notifier := notifierOk_step h.notifier h.mutex (stepTo_of_step hstep)
  owner := ownerOk_step h.owner hstep
  wake := wakeOk_step h.wake h.owner h.mutex hstep

theorem poolOk_init : PoolOk init where
  balanced := balanced_init
  mutex := mutexOk_init
  notifier := notifierOk_init
  owner _ pc hpc := by cases hpc
  wake := ⟨fun hmem => (by cases hmem), fun _ _ hmem => (by cases hmem)⟩

/-- A running pool at rest has executed every task that was not given up before. -/
theorem PoolOk.running (h : PoolOk s) (hrest : s.AtRest threadNum) (hrun : s.shouldQuit = false)
    (halive : ∃ pc ∈ s.workers, pc ≠ .exited) :
    s.tasks = [] ∧ (s.enqueued : Multiset Enqueued) = s.executed + s.dropped ∧
      (s.dropped = [] → ∀ w ∈ s.waiters, w.pc = .returned) := by
  have hfree := hrest.free h.mutex
  have hworker : ∀ pc ∈ s.workers, pc = .sleeping ∨ pc = .exited :=
    fun pc hpc => workerStep_eq_none hfree (hrest.worker hpc)
  have hsleeping : .sleeping ∈ s.workers := by
    obtain ⟨pc, hpc, hne⟩ := halive
    exact (hworker pc hpc).resolve_right hne ▸ hpc
  have htasks : s.tasks = [] := by
    by_contra hne
    rcases h.wake.sleeping hrun hne hsleeping with hscheduling | ⟨pc, hpc, hawake⟩
    · exact hscheduling hrest.scheduling
    · rcases hworker pc hpc with rfl | rfl <;> cases hawake
  have hpending : total WorkerPc.pending s.workers = 0 :=
    total_eq_zero_iff.2 fun pc hpc => by rcases hworker pc hpc with rfl | rfl <;> rfl
  have hunsettled : total WorkerPc.unsettled s.workers = 0 :=
    total_eq_zero_iff.2 fun pc hpc => by rcases hworker pc hpc with rfl | rfl <;> rfl
  have hsplit : (s.enqueued : Multiset Enqueued) = s.tasks + total WorkerPc.pending s.workers +
      total WorkerPc.unsettled s.workers + s.settled + s.dropped := h.balanced.split
  have hexecuted : (s.executed : Multiset Enqueued) =
      total WorkerPc.unsettled s.workers + s.settled := h.balanced.executed
  have hactive : s.activeTasks = s.tasks.length + (total WorkerPc.pending s.workers).card +
      (total WorkerPc.unsettled s.workers).card + s.dropped.length := h.balanced.active
  rw [htasks, hpending, hunsettled] at hsplit hactive
  rw [hunsettled] at hexecuted
  simp only [Multiset.coe_nil, zero_add, Multiset.card_zero, List.length_nil]
    at hsplit hexecuted hactive
  refine ⟨htasks, hexecuted ▸ hsplit, fun hdropped w hw => ?_⟩
  refine (waiterStep_eq_none hfree (hrest.waiter hw)).resolve_left fun hblocked => ?_
  have hzero : s.activeTasks = 0 := by rw [hactive, hdropped, List.length_nil]
  obtain ⟨pc, hpc, hfinishing⟩ := h.notifier w hw (by rw [hblocked]; rfl) hzero
  rcases hworker pc hpc with rfl | rfl <;> cases hfinishing

/-- A stopping pool at rest has stopped, unless a worker sleeps. -/
theorem PoolOk.stopping (h : PoolOk s) (hrest : s.AtRest threadNum)
    (hawake : .sleeping ∉ s.workers) : s.control = .idle ∧ ∀ pc ∈ s.workers, pc = .exited := by
  have hfree := hrest.free h.mutex
  have hexited : ∀ pc ∈ s.workers, pc = .exited := fun pc hpc =>
    (workerStep_eq_none hfree (hrest.worker hpc)).resolve_left fun heq => hawake (heq ▸ hpc)
  refine ⟨?_, hexited⟩
  have hnone : controlStep threadNum s = none := hrest .control rfl rfl
  cases hpc : s.control with
  | idle => rfl
  | join index =>
    simp only [controlStep, hpc] at hnone
    split at hnone
    · cases hnone
    · next pc hindex =>
      rw [if_pos (hexited pc (List.mem_of_getElem? hindex))] at hnone
      cases hnone
  | spawn index =>
    simp only [controlStep, hpc] at hnone
    split at hnone <;> cases hnone
  | startStore | stopStore | scheduleQuitStore | scheduleQuitNotify =>
    simp [controlStep, hpc] at hnone

/-- The pool settles: from any state of any run, the workers, the calls under way and the owner
take a bounded number of steps, and some more for each time-out or spurious wake-up. Where none of
them can move, a running pool has an empty queue, has executed every task that no earlier `Stop`
made a worker give up, and if there is none of those every `WaitForAllTasks` call has returned;
and a pool that is told to stop has stopped unless a worker still sleeps, which only its time-out
ends. -/
theorem thread_pool_settles (threadNum : Int) (acts more : List Act) (s t : State)
    (hrun : exec (step threadNum) init acts = some s)
    (hinternal : ∀ a ∈ more, a.internal = true) (hlater : exec (step threadNum) s more = some t) :
    more.length ≤ s.work threadNum + 9 * more.countP Act.wakes ∧
      (t.AtRest threadNum →
        (t.shouldQuit = false → (∃ pc ∈ t.workers, pc ≠ .exited) →
          t.tasks = [] ∧ (t.enqueued : Multiset Enqueued) = t.executed + t.dropped ∧
            (t.dropped = [] → ∀ w ∈ t.waiters, w.pc = .returned)) ∧
        (t.shouldQuit = true → .sleeping ∉ t.workers →
          t.control = .idle ∧ ∀ pc ∈ t.workers, pc = .exited)) := by
  have hs : PoolOk s := exec_invariant (fun _ _ _ h hstep => h.step hstep) poolOk_init hrun
  have ht : PoolOk t := exec_invariant (fun _ _ _ h hstep => h.step hstep) hs hlater
  have hmeet : StepsMeet (step threadNum) (fun _ a => a.internal = true) s more :=
    stepsMeet_of_forall_mem hinternal
  have hlength : t.work threadNum + more.length ≤
      s.work threadNum + 9 * more.countP Act.wakes :=
    exec_length_le (I := fun _ => True) (p := Act.wakes)
      (fun u a v _ ha hv => ⟨trivial, work_step ha hv⟩) trivial hmeet hlater
  exact ⟨by omega, fun hrest => ⟨ht.running hrest, fun _ => ht.stopping hrest⟩⟩

/-- A pool with one worker and no calls under way is at rest if neither the worker nor the owner can
move. -/
theorem State.atRest_of_alone {pc : WorkerPc} (hworkers : s.workers = [pc])
    (hwaiters : s.waiters = []) (hscheduling : s.scheduling = [])
    (hworker : workerStep s pc = none) (hcontrol : controlStep threadNum s = none) :
    s.AtRest threadNum := by
  intro a ha hawake
  cases a with
  | scheduleWork ticket woken => simp [step, hscheduling]
  | worker i =>
    cases i with
    | zero => simp [step, hworkers, hworker]
    | succ i => simp [step, hworkers]
  | waiter j => simp [step, hwaiters]
  | control => exact hcontrol
  | wakeWorker | wakeWaiter => cases hawake
  | enqueue | waitForAllTasks | setCompletionCallback | clearCompletionCallback | start | stop =>
    cases ha

/-- `Stop` sets `should_quit_` and notifies after the worker has evaluated its predicate and before
it blocks. -/
def missedStop : List Act :=
  List.flatten [[.start, .control, .control, .control], List.replicate 3 (.worker 0),
    [.stop, .control, .control, .control]]

/-- The worker goes to sleep, and returns after its time-out. -/
def timedOutStop : List Act :=
  List.flatten [[.worker 0, .wakeWorker 0 true], List.replicate 4 (.worker 0),
    [.control, .control]]

theorem thread_pool_settles_timed_out :
    ∃ s t, exec (step 1) init missedStop = some s ∧ exec (step 1) s timedOutStop = some t ∧
      timedOutStop.length ≤ s.work 1 + 9 * timedOutStop.countP Act.wakes ∧ t.AtRest 1 ∧
      t.control = .idle ∧ ∀ pc ∈ t.workers, pc = .exited := by
  have hends : ∃ s, exec (step 1) init missedStop = some s ∧
      (exec (step 1) s timedOutStop).any (fun t => t.control = .idle ∧ t.workers = [.exited] ∧
        t.waiters = [] ∧ t.scheduling = [] ∧ t.shouldQuit = true) = true :=
    exists_exec_of_decide (by decide)
  obtain ⟨s, hs, hany⟩ := hends
  obtain ⟨t, ht, hfinal⟩ := (Option.any_eq_true _ _).1 hany
  obtain ⟨hcontrol, hworkers, hwaiters, hscheduling, hquit⟩ := of_decide_eq_true hfinal
  obtain ⟨hlength, hsettled⟩ :=
    thread_pool_settles 1 missedStop timedOutStop s t hs (by decide) ht
  have hrest : t.AtRest 1 := State.atRest_of_alone hworkers hwaiters hscheduling
    rfl (by rw [controlStep, hcontrol])
  exact ⟨s, t, hs, ht, hlength, hrest, (hsettled hrest).2 hquit (by rw [hworkers]; decide)⟩

/-- Without the time-out `Stop` would wait for ever. -/
theorem missed_stop_sleeps :
    ∃ s, exec (step 1) init (missedStop ++ [.worker 0]) = some s ∧ s.AtRest 1 ∧
      s.control = .join 0 ∧ s.workers = [.sleeping] := by
  have hends : ∃ s, exec (step 1) init (missedStop ++ [.worker 0]) = some s ∧
      s.control = .join 0 ∧ s.workers = [.sleeping] ∧ s.waiters = [] ∧ s.scheduling = [] :=
    exists_exec_of_decide (by decide)
  obtain ⟨s, hs, hcontrol, hworkers, hwaiters, hscheduling⟩ := hends
  exact ⟨s, hs, State.atRest_of_alone hworkers hwaiters hscheduling rfl
    (by simp [controlStep, hcontrol, hworkers]), hcontrol, hworkers⟩

end Sparo.Base.ThreadPool
