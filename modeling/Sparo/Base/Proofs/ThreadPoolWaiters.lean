import Sparo.Base.Proofs.ThreadPoolMutex

/-!
# `WaitForAllTasks`

A call of `WaitForAllTasks` returns only after it has read 0 from `active_tasks_`, and then the
ledger says that every task enqueued so far has been executed: the counter may be too high,
because a stopping worker leaves its task counted, but it is never too low.

A call that is blocked while `active_tasks_` is 0 will be notified. The worker whose decrement
reached 0 re-reads the counter, locks `mutex_` and notifies; the caller evaluated its predicate
before that decrement, and it unlocks and blocks in one step, so it is blocked when the
notification comes.
-/

namespace Sparo.Base.ThreadPool

open StepSystem ThreadSum

variable {threadNum : Int} {s t : State} {a : Act} {i : Nat} {pc pc' : WorkerPc}

/-! ## What a returned call has waited for -/

/-- `finished_.wait` has returned. -/
def WaiterPc.waited : WaiterPc → Bool
  | .leave | .returned => true
  | _ => false

theorem waited_notified (pc : WaiterPc) : pc.notified.waited = pc.waited := by
  cases pc <;> rfl

/-- The task with number `k` has been executed. -/
def State.Executed (s : State) (k : Nat) : Prop := ∃ e ∈ s.executed, e.ticket = k

/-- The `EnqueueTask` calls the pool knows of have pushed their task, and a
`WaitForAllTasks` call whose wait is over has waited for the calls before it. -/
structure WaitersOk (s : State) : Prop where
  scheduling : ∀ k ∈ s.scheduling, k < s.enqueued.length
  returned : ∀ k ∈ s.returned, k < s.enqueued.length
  before : ∀ w ∈ s.waiters, ∀ k ∈ w.before, k < s.enqueued.length
  waited : ∀ w ∈ s.waiters, w.pc.waited = true → ∀ k ∈ w.before, s.Executed k

/-- A step that only adds to the history and moves no call past its wait. -/
theorem WaitersOk.frame (h : WaitersOk s) (henqueued : s.enqueued.length ≤ t.enqueued.length)
    (hexecuted : s.executed ⊆ t.executed)
    (hscheduling : ∀ k ∈ t.scheduling, k ∈ s.scheduling ∨ k < t.enqueued.length)
    (hreturned : ∀ k ∈ t.returned, k ∈ s.returned ∨ k < t.enqueued.length)
    (hwaiters : ∀ w ∈ t.waiters,
      ∃ v ∈ s.waiters, w.before = v.before ∧ (w.pc.waited = true → v.pc.waited = true)) :
    WaitersOk t := by
  refine ⟨fun k hk => ?_, fun k hk => ?_, fun w hw k hk => ?_, fun w hw hpc k hk => ?_⟩
  · rcases hscheduling k hk with hold | hnew
    · exact (h.scheduling k hold).trans_le henqueued
    · exact hnew
  · rcases hreturned k hk with hold | hnew
    · exact (h.returned k hold).trans_le henqueued
    · exact hnew
  · obtain ⟨v, hv, hbefore, -⟩ := hwaiters w hw
    exact (h.before v hv k (hbefore ▸ hk)).trans_le henqueued
  · obtain ⟨v, hv, hbefore, hwaited⟩ := hwaiters w hw
    obtain ⟨e, he, hticket⟩ := h.waited v hv (hwaited hpc) k (hbefore ▸ hk)
    exact ⟨e, hexecuted he, hticket⟩

/-- The calls of `EnqueueTask`. -/
def State.enqueueCalls (s : State) : List Enqueued × List Nat × List Nat :=
  (s.enqueued, s.scheduling, s.returned)

/-- A step that changes no call of `EnqueueTask` and moves no other call past its wait. -/
theorem WaitersOk.frame_of_eq (h : WaitersOk s) (hcalls : t.enqueueCalls = s.enqueueCalls)
    (hexecuted : s.executed ⊆ t.executed)
    (hwaiters : ∀ w ∈ t.waiters,
      ∃ v ∈ s.waiters, w.before = v.before ∧ (w.pc.waited = true → v.pc.waited = true)) :
    WaitersOk t := by
  simp only [State.enqueueCalls, Prod.mk.injEq] at hcalls
  obtain ⟨henqueued, hscheduling, hreturned⟩ := hcalls
  exact h.frame (by rw [henqueued]) hexecuted (fun k hk => Or.inl (hscheduling ▸ hk))
    (fun k hk => Or.inl (hreturned ▸ hk)) hwaiters

/-- After a read of 0 every task enqueued so far has been executed. -/
theorem executed_of_drained (h : s.ledger.Balanced) (hzero : s.activeTasks = 0) {k : Nat}
    (hk : k < s.enqueued.length) : s.Executed k := by
  have hmem : k ∈ s.enqueued.map Enqueued.ticket := by
    have htickets : s.enqueued.map Enqueued.ticket = List.range s.enqueued.length := h.tickets
    rw [htickets]
    exact List.mem_range.2 hk
  obtain ⟨e, he, hticket⟩ := List.mem_map.1 hmem
  have hall : (s.executed : Multiset Enqueued) = s.enqueued := (h.all_settled hzero).2
  exact ⟨e, (Multiset.coe_eq_coe.1 hall).mem_iff.2 he, hticket⟩

/-- An `EnqueueTask` call that returns has pushed its task. -/
theorem WaitersOk.returned_append (h : WaitersOk s) {ticket : Nat} (hmem : ticket ∈ s.scheduling) :
    ∀ k ∈ s.returned ++ [ticket], k ∈ s.returned ∨ k < s.enqueued.length := by
  intro k hk
  rcases List.mem_append.1 hk with hold | hnew
  · exact Or.inl hold
  · obtain rfl : k = ticket := by simpa using hnew
    exact Or.inr (h.scheduling k hmem)

theorem waitersOk_worker (h : WaitersOk s) (hto : WorkerTo s pc t pc') :
    WaitersOk { t with workers := t.workers.set i pc' } := by
  have hwaiters : ∀ w ∈ s.waiters,
      ∃ v ∈ s.waiters, w.before = v.before ∧ (w.pc.waited = true → v.pc.waited = true) :=
    fun w hw => ⟨w, hw, rfl, id⟩
  cases hto with
  | execute e => exact h.frame_of_eq rfl (List.subset_append_left _ _) hwaiters
  | notifyAll =>
    refine h.frame_of_eq rfl (List.Subset.refl _) ?_
    intro w hw
    obtain ⟨v, hv, rfl⟩ := List.mem_map.1 hw
    refine ⟨v, hv, rfl, fun hpc => ?_⟩
    rwa [waited_notified] at hpc
  | _ => exact h.frame_of_eq rfl (List.Subset.refl _) hwaiters

theorem waitersOk_waiter {j : Nat} {before : List Nat} {pc pc' : WaiterPc} (h : WaitersOk s)
    (hbal : s.ledger.Balanced) (hj : s.waiters[j]? = some ⟨pc, before⟩)
    (hto : WaiterTo s pc t pc') :
    WaitersOk { t with waiters := t.waiters.set j ⟨pc', before⟩ } := by
  have hmem : ⟨pc, before⟩ ∈ s.waiters := List.mem_of_getElem? hj
  -- every step but the read of 0 leaves the call on its side of the wait
  have hkeep : (pc'.waited = true → pc.waited = true) → ∀ w ∈ s.waiters.set j ⟨pc', before⟩,
      ∃ v ∈ s.waiters, w.before = v.before ∧ (w.pc.waited = true → v.pc.waited = true) := by
    intro hwaited w hw
    rcases List.mem_or_eq_of_mem_set hw with hold | rfl
    · exact ⟨w, hold, rfl, id⟩
    · exact ⟨_, hmem, rfl, hwaited⟩
  cases hto with
  | drained hzero =>
    refine ⟨h.scheduling, h.returned, fun w hw k hk => ?_, fun w hw hpc k hk => ?_⟩
    · rcases List.mem_or_eq_of_mem_set hw with hold | rfl
      · exact h.before w hold k hk
      · exact h.before _ hmem k hk
    · rcases List.mem_or_eq_of_mem_set hw with hold | rfl
      · exact h.waited w hold hpc k hk
      · exact executed_of_drained hbal hzero (h.before _ hmem k hk)
  | leave => exact h.frame_of_eq rfl (List.Subset.refl _) (hkeep fun _ => rfl)
  | _ => exact h.frame_of_eq rfl (List.Subset.refl _) (hkeep fun hpc => by cases hpc)

theorem waitersOk_step (h : WaitersOk s) (hbal : s.ledger.Balanced)
    (hstep : StepTo threadNum s a t) : WaitersOk t := by
  have hsame : s.executed ⊆ s.executed := List.Subset.refl _
  have hwaiters : ∀ w ∈ s.waiters,
      ∃ v ∈ s.waiters, w.before = v.before ∧ (w.pc.waited = true → v.pc.waited = true) :=
    fun w hw => ⟨w, hw, rfl, id⟩
  cases hstep with
  | worker i pc pc' t hi hto => exact waitersOk_worker h hto
  | waiter j before pc pc' t hj hto => exact waitersOk_waiter h hbal hj hto
  | enqueue task hfree =>
    refine h.frame (by simp [enqueueTask]) hsame ?_ (fun k hk => Or.inl hk) hwaiters
    intro k hk
    rcases List.mem_append.1 hk with hold | hnew
    · exact Or.inl hold
    · obtain rfl : k = s.enqueued.length := by simpa using hnew
      exact Or.inr (by simp [enqueueTask])
  | notifyNobody ticket hmem =>
    exact h.frame le_rfl hsame (fun k hk => Or.inl (List.mem_of_mem_erase hk))
      (h.returned_append hmem) hwaiters
  | notifyOne ticket i hmem hi =>
    exact h.frame le_rfl hsame (fun k hk => Or.inl (List.mem_of_mem_erase hk))
      (h.returned_append hmem) hwaiters
  | waitForAllTasks =>
    refine ⟨h.scheduling, h.returned, fun w hw k hk => ?_, fun w hw hpc k hk => ?_⟩
    · rcases List.mem_append.1 hw with hold | hnew
      · exact h.before w hold k hk
      · obtain rfl : w = ⟨.lock, s.returned⟩ := by simpa using hnew
        exact h.returned k hk
    · rcases List.mem_append.1 hw with hold | hnew
      · exact h.waited w hold hpc k hk
      · obtain rfl : w = ⟨.lock, s.returned⟩ := by simpa using hnew
        cases hpc
  | wakeWaiter j before hj =>
    refine h.frame_of_eq rfl hsame ?_
    intro w hw
    rcases List.mem_or_eq_of_mem_set hw with hold | rfl
    · exact ⟨w, hold, rfl, id⟩
    · exact ⟨_, List.mem_of_getElem? hj, rfl, fun hpc => by cases hpc⟩
  | _ => exact h.frame_of_eq rfl hsame hwaiters

theorem waitersOk_init : WaitersOk init :=
  ⟨by simp [init], by simp [init], by simp [init], by simp [init]⟩

/-- When a `WaitForAllTasks` call has returned, every task whose `EnqueueTask` call had returned
before it began has been executed. -/
theorem waitForAllTasks_sound (threadNum : Int) (acts : List Act) (s : State)
    (hrun : exec (step threadNum) init acts = some s) (w : Waiter) (hw : w ∈ s.waiters)
    (hreturned : w.pc = .returned) :
    ∀ k ∈ w.before, ∃ e ∈ s.enqueued, e.ticket = k ∧ e ∈ s.executed := by
  intro k hk
  have hinv : s.ledger.Balanced ∧ WaitersOk s := by
    refine exec_invariant (I := fun s => s.ledger.Balanced ∧ WaitersOk s) ?_
      ⟨balanced_init, waitersOk_init⟩ hrun
    rintro s a t ⟨hbal, hok⟩ hstep
    exact ⟨balanced_step hbal hstep, waitersOk_step hok hbal (stepTo_of_step hstep)⟩
  obtain ⟨hbal, hok⟩ := hinv
  obtain ⟨e, he, hticket⟩ := hok.waited w hw (by rw [hreturned]; rfl) k hk
  exact ⟨e, hbal.enqueued_of_executed he, hticket, he⟩

/-- One worker executes a task for which `WaitForAllTasks` waits. -/
def waitingRun : List Act :=
  List.flatten [[.start, .control, .control, .control, .enqueue ⟨1, 2⟩, .scheduleWork 0 none,
    .waitForAllTasks, .waiter 0, .waiter 0, .waiter 0], List.replicate 13 (.worker 0),
    [.waiter 0, .waiter 0, .waiter 0]]

theorem waitForAllTasks_sound_waiting :
    ∃ s w, exec (step 1) init waitingRun = some s ∧ w ∈ s.waiters ∧ w.pc = .returned ∧
      w.before = [0] ∧ ∀ k ∈ w.before, ∃ e ∈ s.enqueued, e.ticket = k ∧ e ∈ s.executed := by
  have hends : ∃ s, exec (step 1) init waitingRun = some s ∧ ⟨.returned, [0]⟩ ∈ s.waiters :=
    exists_exec_of_decide (by decide)
  obtain ⟨s, hs, hw⟩ := hends
  exact ⟨s, _, hs, hw, rfl, rfl, waitForAllTasks_sound 1 waitingRun s hs _ hw rfl⟩

/-! ## A blocked call is going to be notified -/

/-- `finished_.wait` has read a counter other than 0 and has not been notified since. -/
def WaiterPc.parked : WaiterPc → Bool
  | .block | .blocked => true
  | _ => false

/-- Between `active_tasks_--` and `finished_.notify_all()`, unless the re-read counter is
not 0. -/
def WorkerPc.finishing : WorkerPc → Bool
  | .reread | .lockToFinish | .notifyFinished => true
  | _ => false

/-- While a caller of `WaitForAllTasks` is parked and `active_tasks_` is 0, a worker is on its
way to notify it. -/
def NotifierOk (s : State) : Prop :=
  ∀ w ∈ s.waiters, w.pc.parked = true → s.activeTasks = 0 →
    ∃ pc ∈ s.workers, pc.finishing = true

/-- A step that parks nobody, brings no counter to 0 and takes no worker off its way. -/
theorem NotifierOk.frame (h : NotifierOk s) (hactive : t.activeTasks = 0 → s.activeTasks = 0)
    (hwaiters : ∀ w ∈ t.waiters, w.pc.parked = true → ∃ v ∈ s.waiters, v.pc.parked = true)
    (hworkers : (∃ pc ∈ s.workers, pc.finishing = true) →
      ∃ pc ∈ t.workers, pc.finishing = true) : NotifierOk t := by
  intro w hw hparked hzero
  obtain ⟨v, hv, hv'⟩ := hwaiters w hw hparked
  exact hworkers (h v hv hv' (hactive hzero))

theorem idle_not_finishing (h : pc.idle = true) : pc.finishing = false := by
  cases pc <;> first | rfl | cases h

theorem notifierOk_worker (h : NotifierOk s) (hmutex : MutexOk s)
    (hi : s.workers[i]? = some pc) (hto : WorkerTo s pc t pc') :
    NotifierOk { t with workers := t.workers.set i pc' } := by
  have hkeep : t.activeTasks = s.activeTasks → t.waiters = s.waiters →
      (pc.finishing = true → pc'.finishing = true) →
      NotifierOk { t with workers := t.workers.set i pc' } := by
    intro hactive hwaiters hpc
    refine h.frame (fun hzero => hactive ▸ hzero) (fun w hw hp => ⟨w, hwaiters ▸ hw, hp⟩) ?_
    intro hex
    rw [hto.workers_eq]
    exact exists_mem_set (P := fun pc => pc.finishing = true) hi hex hpc
  cases hto with
  | look _ _ hidle | acquire _ _ _ hidle | release _ _ hidle =>
    refine hkeep rfl rfl fun hpc => ?_
    rw [idle_not_finishing hidle] at hpc
    cases hpc
  | decrement e =>
    intro w hw hparked hzero
    exact ⟨.reread, List.mem_set (List.getElem?_eq_some_iff.1 hi).1 _, rfl⟩
  | sawMore hne =>
    intro w hw hparked hzero
    exact absurd hzero hne
  | notifyAll =>
    -- nobody is left to notify: a parked caller was woken, or holds the mutex of the worker
    intro w hw hparked hzero
    obtain ⟨v, hv, rfl⟩ := List.mem_map.1 hw
    have hfree := hmutex.exclusive (List.mem_of_getElem? hi) rfl hv
    revert hparked hfree
    cases v.pc <;> simp [WaiterPc.notified, WaiterPc.parked, WaiterPc.holdsMutex]
  | sawZero | lockFinish => exact hkeep rfl rfl fun _ => rfl
  | _ => exact hkeep rfl rfl fun hpc => by cases hpc

theorem notifierOk_waiter {j : Nat} {before : List Nat} {pc pc' : WaiterPc} (h : NotifierOk s)
    (hj : s.waiters[j]? = some ⟨pc, before⟩) (hto : WaiterTo s pc t pc') :
    NotifierOk { t with waiters := t.waiters.set j ⟨pc', before⟩ } := by
  have hkeep : t.activeTasks = s.activeTasks → t.waiters = s.waiters → t.workers = s.workers →
      (pc'.parked = true → pc.parked = true) →
      NotifierOk { t with waiters := t.waiters.set j ⟨pc', before⟩ } := by
    intro hactive hwaiters hworkers hpc
    refine h.frame (fun hzero => hactive ▸ hzero) (fun w hw hparked => ?_) (hworkers ▸ id)
    rcases List.mem_or_eq_of_mem_set hw with hold | rfl
    · exact ⟨w, hwaiters ▸ hold, hparked⟩
    · exact ⟨_, List.mem_of_getElem? hj, hpc hparked⟩
  cases hto with
  | notDrained hne =>
    intro w hw hparked hzero
    exact absurd hzero hne
  | sleep => exact hkeep rfl rfl rfl fun _ => rfl
  | _ => exact hkeep rfl rfl rfl fun hpc => by cases hpc

theorem notifierOk_step (h : NotifierOk s) (hmutex : MutexOk s)
    (hstep : StepTo threadNum s a t) : NotifierOk t := by
  have hwaiters : ∀ w ∈ s.waiters, w.pc.parked = true → ∃ v ∈ s.waiters, v.pc.parked = true :=
    fun w hw hparked => ⟨w, hw, hparked⟩
  cases hstep with
  | worker i pc pc' t hi hto => exact notifierOk_worker h hmutex hi hto
  | waiter j before pc pc' t hj hto => exact notifierOk_waiter h hj hto
  | enqueue task hfree =>
    intro w hw hparked hzero
    cases hzero
  | notifyOne ticket i hmem hi =>
    exact h.frame id hwaiters fun hex => exists_mem_set hi hex fun hpc => by cases hpc
  | wakeWorker i timedOut hi =>
    exact h.frame id hwaiters fun hex => exists_mem_set hi hex fun hpc => by cases hpc
  | waitForAllTasks =>
    refine h.frame id (fun w hw hparked => ?_) id
    rcases List.mem_append.1 hw with hold | hnew
    · exact ⟨w, hold, hparked⟩
    · obtain rfl : w = ⟨.lock, s.returned⟩ := by simpa using hnew
      cases hparked
  | wakeWaiter j before hj =>
    refine h.frame id (fun w hw hparked => ?_) id
    rcases List.mem_or_eq_of_mem_set hw with hold | rfl
    · exact ⟨w, hold, hparked⟩
    · cases hparked
  | spawn index hpc =>
    refine h.frame id hwaiters ?_
    rintro ⟨pc, hmem, hpc⟩
    exact ⟨pc, List.mem_append_left _ hmem, hpc⟩
  | quitNotify hpc =>
    refine h.frame id hwaiters ?_
    rintro ⟨pc, hmem, hpc⟩
    refine ⟨pc.notified, List.mem_map_of_mem hmem, ?_⟩
    revert hpc
    cases pc <;> exact id
  | _ => exact h.frame id hwaiters id

theorem notifierOk_init : NotifierOk init := by
  intro w hw
  cases hw

/-- A caller that is blocked in `finished_.wait` while `active_tasks_` is 0 is not forgotten:
some worker is between its decrement and `finished_.notify_all()`. If it has still to re-read the
counter, it reads 0 now, and it reads 0 later unless another task is enqueued before. -/
theorem blocked_has_notifier (threadNum : Int) (acts : List Act) (s : State)
    (hrun : exec (step threadNum) init acts = some s) (w : Waiter) (hw : w ∈ s.waiters)
    (hblocked : w.pc = .blocked) (hzero : s.activeTasks = 0) :
    ∃ i pc, s.workers[i]? = some pc ∧ pc.finishing = true ∧
      (pc = .reread → step threadNum s (.worker i) =
        some { s with workers := s.workers.set i .lockToFinish }) ∧
      ∀ more t, (∀ task, .enqueue task ∉ more) → exec (step threadNum) s more = some t →
        t.activeTasks = 0 := by
  have hinv : s.ledger.Balanced ∧ MutexOk s ∧ NotifierOk s := by
    refine exec_invariant (I := fun s => s.ledger.Balanced ∧ MutexOk s ∧ NotifierOk s) ?_
      ⟨balanced_init, mutexOk_init, notifierOk_init⟩ hrun
    rintro s a t ⟨hbal, hmutex, hok⟩ hstep
    have hto := stepTo_of_step hstep
    exact ⟨balanced_step hbal hstep, mutexOk_step hmutex hto, notifierOk_step hok hmutex hto⟩
  obtain ⟨hbal, -, hok⟩ := hinv
  obtain ⟨pc, hmem, hpc⟩ := hok w hw (by rw [hblocked]; rfl) hzero
  obtain ⟨i, hi⟩ := List.getElem?_of_mem hmem
  refine ⟨i, pc, hi, hpc, ?_, fun more t hmore hrun' => ?_⟩
  · rintro rfl
    simp [step, hi, workerStep, WorkerPc.acquire, WorkerPc.release, workerNext, hzero]
  · exact activeTasks_run_zero hbal hzero hmore hrun'

theorem blocked_has_notifier_waiting :
    ∃ s w, exec (step 1) init (waitingRun.take 18) = some s ∧ w ∈ s.waiters ∧
      w.pc = .blocked ∧ s.activeTasks = 0 ∧
      ∃ i pc, s.workers[i]? = some pc ∧ pc.finishing = true ∧
        (pc = .reread → step 1 s (.worker i) =
          some { s with workers := s.workers.set i .lockToFinish }) ∧
        ∀ more t, (∀ task, .enqueue task ∉ more) → exec (step 1) s more = some t →
          t.activeTasks = 0 := by
  have hends : ∃ s, exec (step 1) init (waitingRun.take 18) = some s ∧
      ⟨.blocked, [0]⟩ ∈ s.waiters ∧ s.activeTasks = 0 := exists_exec_of_decide (by decide)
  obtain ⟨s, hs, hw, hzero⟩ := hends
  exact ⟨s, _, hs, hw, rfl, hzero,
    blocked_has_notifier 1 (waitingRun.take 18) s hs _ hw rfl hzero⟩

end Sparo.Base.ThreadPool
