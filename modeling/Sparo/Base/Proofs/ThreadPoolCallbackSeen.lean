import Sparo.Base.Proofs.ThreadPoolWaiters

/-!
# Waiters and the completion callback

A worker that drains the pool notifies the callers of `WaitForAllTasks` and calls the completion
callback under one lock, so a caller it wakes up gets the mutex only after the callback has
returned. A caller that takes the mutex before that worker does, but after its decrement, reads 0
and returns at once. On a run without such a caller, `WaitForAllTasks` returns after the callback
of the last batch.
-/

namespace Sparo.Base.ThreadPool

open StepSystem ThreadSum

variable {threadNum : Int} {s t : State} {a : Act} {i : Nat} {pc pc' : WorkerPc}
variable {callback arg : Addr} {count first : Nat}

/-- The step brings no further task, and leaves the callback as it is. -/
def KeepsBatch : Act → Prop
  | .enqueue _ | .setCompletionCallback _ _ | .clearCompletionCallback => False
  | _ => True

instance : DecidablePred KeepsBatch
  | .enqueue _ | .setCompletionCallback _ _ | .clearCompletionCallback => isFalse id
  | .scheduleWork _ _ | .worker _ | .wakeWorker _ _ | .waitForAllTasks | .waiter _
  | .wakeWaiter _ | .start | .stop | .control => isTrue trivial

/-- A `WaitForAllTasks` call, from number `first` on, that is about to read 0 finds no worker
between its decrement and the lock before the callback. -/
def ReadsAfterLock (first : Nat) (s : State) : Act → Prop
  | .waiter j => first ≤ j → s.activeTasks = 0 →
      (s.waiters[j]?.map Waiter.pc) = some .evalPredicate →
      WorkerPc.reread ∉ s.workers ∧ WorkerPc.lockToFinish ∉ s.workers
  | _ => True

instance (first : Nat) (s : State) : ∀ a, Decidable (ReadsAfterLock first s a)
  | .waiter _ => inferInstanceAs (Decidable (_ → _ → _ → _ ∧ _))
  | .enqueue _ | .scheduleWork _ _ | .worker _ | .wakeWorker _ _ | .waitForAllTasks
  | .wakeWaiter _ | .setCompletionCallback _ _ | .clearCompletionCallback | .start | .stop
  | .control => isTrue trivial

/-- Between `active_tasks_--` and the return of a callback that was called as
`callback(arg)` with `count` tasks settled, unless the re-read counter is not 0. -/
def WorkerPc.callingBack (callback arg : Addr) (count : Nat) : WorkerPc → Bool
  | .reread | .lockToFinish | .notifyFinished | .testCallback => true
  | .inCallback f x n => (f, x, n) = (callback, arg, count)
  | _ => false

/-- After the last of `count` tasks: the callback has returned, or a worker is on its way there,
or a task is active; and the `WaitForAllTasks` calls from number `first` on that are past their
wait have seen it return. -/
structure BatchOk (callback arg : Addr) (count first : Nat) (s : State) : Prop where
  callback_eq : s.completionCallback = callback
  arg_eq : s.callbackArg = arg
  count_eq : s.enqueued.length = count
  drained : s.activeTasks = 0 →
    (∃ pc ∈ s.workers, pc.callingBack callback arg count = true) ∨
      (callback, arg, count) ∈ s.callbackReturns
  waited : ∀ j w, first ≤ j → s.waiters[j]? = some w → w.pc.waited = true →
    (callback, arg, count) ∈ s.callbackReturns

/-- The callback, the tasks and their counter. -/
def State.batch (s : State) : Addr × Addr × List Enqueued × Nat :=
  (s.completionCallback, s.callbackArg, s.enqueued, s.activeTasks)

/-- A step that leaves the batch alone and takes no worker off its way and no caller past its
wait. -/
theorem BatchOk.frame (h : BatchOk callback arg count first s) (hbatch : t.batch = s.batch)
    (hreturns : s.callbackReturns ⊆ t.callbackReturns)
    (hworkers : s.activeTasks = 0 →
      (∃ pc ∈ s.workers, pc.callingBack callback arg count = true) →
      (∃ pc ∈ t.workers, pc.callingBack callback arg count = true) ∨
        (callback, arg, count) ∈ t.callbackReturns)
    (hwaiters : ∀ (j : Nat) (w : Waiter), t.waiters[j]? = some w → w.pc.waited = true →
      ∃ v : Waiter, s.waiters[j]? = some v ∧ v.pc.waited = true) :
    BatchOk callback arg count first t := by
  simp only [State.batch, Prod.mk.injEq] at hbatch
  obtain ⟨hcallback, harg, henqueued, hactive⟩ := hbatch
  refine ⟨hcallback.trans h.callback_eq, harg.trans h.arg_eq, henqueued ▸ h.count_eq, ?_, ?_⟩
  · intro hzero
    rw [hactive] at hzero
    rcases h.drained hzero with hex | hmem
    · exact hworkers hzero hex
    · exact Or.inr (hreturns hmem)
  · intro j w hj hw hpc
    obtain ⟨v, hv, hpc'⟩ := hwaiters j w hw hpc
    exact hreturns (h.waited j v hj hv hpc')

theorem idle_not_callingBack (h : pc.idle = true) : pc.callingBack callback arg count = false := by
  cases pc <;> first | rfl | cases h

/-- A callback that is called while the counter is 0 is called with all tasks settled. -/
theorem settled_length (hbal : s.ledger.Balanced) (hzero : s.activeTasks = 0) :
    s.settled.length = s.enqueued.length := by
  have hall : (s.enqueued : Multiset Enqueued) = s.settled := (hbal.all_settled hzero).1
  exact (Multiset.coe_eq_coe.1 hall).length_eq.symm

theorem batchOk_worker (h : BatchOk callback arg count first s) (hset : callback ≠ 0)
    (hbal : s.ledger.Balanced) (hi : s.workers[i]? = some pc) (hto : WorkerTo s pc t pc') :
    BatchOk callback arg count first { t with workers := t.workers.set i pc' } := by
  have hmem : pc' ∈ s.workers.set i pc' := List.mem_set (List.getElem?_eq_some_iff.1 hi).1 pc'
  have hmove : (pc.callingBack callback arg count = true →
      pc'.callingBack callback arg count = true) →
      (∃ pc ∈ s.workers, pc.callingBack callback arg count = true) →
      ∃ pc ∈ s.workers.set i pc', pc.callingBack callback arg count = true := fun hpc hex =>
    exists_mem_set (P := fun pc => pc.callingBack callback arg count = true) hi hex hpc
  have hkeep : t.batch = s.batch → t.callbackReturns = s.callbackReturns →
      t.waiters = s.waiters → (s.activeTasks = 0 → pc.callingBack callback arg count = true →
        pc'.callingBack callback arg count = true) →
      BatchOk callback arg count first { t with workers := t.workers.set i pc' } := by
    intro hbatch hreturns hwaiters hpc
    refine h.frame hbatch (hreturns ▸ List.Subset.refl _) ?_ ?_
    · intro hzero hex
      rw [hto.workers_eq]
      exact Or.inl (hmove (hpc hzero) hex)
    · intro j w hw hwaited
      exact ⟨w, hwaiters ▸ hw, hwaited⟩
  cases hto with
  | look _ _ hidle | acquire _ _ _ hidle | release _ _ hidle =>
    refine hkeep rfl rfl rfl fun _ hpc => ?_
    rw [idle_not_callingBack hidle] at hpc
    cases hpc
  | decrement e =>
    exact ⟨h.callback_eq, h.arg_eq, h.count_eq, fun _ => Or.inl ⟨_, hmem, rfl⟩, h.waited⟩
  | sawZero | lockFinish => exact hkeep rfl rfl rfl fun _ _ => rfl
  | sawMore hne => exact hkeep rfl rfl rfl fun hzero => absurd hzero hne
  | notifyAll =>
    refine h.frame rfl (List.Subset.refl _) (fun _ hex => Or.inl ?_) ?_
    · exact hmove (fun _ => rfl) hex
    · intro j w hw hwaited
      obtain ⟨v, hv, rfl⟩ := Option.map_eq_some_iff.1 (List.getElem?_map ▸ hw)
      exact ⟨v, hv, waited_notified v.pc ▸ hwaited⟩
  | noCallback hnull => exact absurd (h.callback_eq.symm.trans hnull) hset
  | call hset' =>
    refine hkeep rfl rfl rfl fun hzero _ => ?_
    rw [settled_length hbal hzero, h.callback_eq, h.arg_eq, h.count_eq]
    exact decide_eq_true rfl
  | callReturn f x n =>
    refine h.frame rfl (List.subset_append_left _ _) (fun _ hex => ?_)
      fun j w hw hwaited => ⟨w, hw, hwaited⟩
    -- either this is the call of the batch, or another worker is on its way
    by_cases hcall : (f, x, n) = (callback, arg, count)
    · right
      rw [hcall]
      exact List.mem_append_right _ List.mem_cons_self
    · left
      exact hmove (fun hpc => absurd (of_decide_eq_true hpc) hcall) hex
  | _ => exact hkeep rfl rfl rfl fun _ hpc => by cases hpc

theorem batchOk_waiter {j : Nat} {before : List Nat} {pc pc' : WaiterPc}
    (h : BatchOk callback arg count first s) (hmutex : MutexOk s)
    (hok : ReadsAfterLock first s (.waiter j)) (hj : s.waiters[j]? = some ⟨pc, before⟩)
    (hto : WaiterTo s pc t pc') :
    BatchOk callback arg count first { t with waiters := t.waiters.set j ⟨pc', before⟩ } := by
  have hlen := (List.getElem?_eq_some_iff.1 hj).1
  have hkeep : (pc'.waited = true → pc.waited = true) → ∀ (k : Nat) (w : Waiter),
      (s.waiters.set j ⟨pc', before⟩)[k]? = some w → w.pc.waited = true →
      ∃ v : Waiter, s.waiters[k]? = some v ∧ v.pc.waited = true := by
    intro hpc k w hw hwaited
    by_cases hk : k = j
    · subst hk
      rw [List.getElem?_set_self hlen] at hw
      cases hw
      exact ⟨_, hj, hpc hwaited⟩
    · rw [List.getElem?_set_ne (Ne.symm hk)] at hw
      exact ⟨w, hw, hwaited⟩
  cases hto with
  | drained hzero =>
    refine ⟨h.callback_eq, h.arg_eq, h.count_eq, h.drained, fun k w hk hw hwaited => ?_⟩
    by_cases hkj : k = j
    · subst hkj
      rcases h.drained hzero with ⟨pc, hmem, hpc⟩ | hmem
      · -- the caller holds the mutex, so that worker cannot be at one of these places
        obtain ⟨hreread, hlock⟩ := hok hk hzero (by rw [hj]; rfl)
        have hfree := fun hheld => hmutex.exclusive hmem hheld (List.mem_of_getElem? hj)
        cases pc with
        | reread => exact absurd hmem hreread
        | lockToFinish => exact absurd hmem hlock
        | notifyFinished | testCallback | inCallback _ _ _ => cases hfree rfl
        | _ => cases hpc
      · exact hmem
    · rw [List.getElem?_set_ne (Ne.symm hkj)] at hw
      exact h.waited k w hk hw hwaited
  | leave => exact h.frame rfl (List.Subset.refl _) (fun _ => Or.inl) (hkeep fun _ => rfl)
  | _ =>
    refine h.frame rfl (List.Subset.refl _) (fun _ => Or.inl) (hkeep fun hpc => ?_)
    cases hpc

theorem batchOk_step (h : BatchOk callback arg count first s) (hset : callback ≠ 0)
    (hbal : s.ledger.Balanced) (hmutex : MutexOk s) (hok : ReadsAfterLock first s a)
    (hkeeps : KeepsBatch a) (hstep : StepTo threadNum s a t) :
    BatchOk callback arg count first t := by
  have hsame : s.callbackReturns ⊆ s.callbackReturns := List.Subset.refl _
  have hstay : ∀ (j : Nat) (w : Waiter), s.waiters[j]? = some w → w.pc.waited = true →
      ∃ v : Waiter, s.waiters[j]? = some v ∧ v.pc.waited = true :=
    fun j w hw hwaited => ⟨w, hw, hwaited⟩
  have hon : s.activeTasks = 0 → (∃ pc ∈ s.workers, pc.callingBack callback arg count = true) →
      (∃ pc ∈ s.workers, pc.callingBack callback arg count = true) ∨
        (callback, arg, count) ∈ s.callbackReturns := fun _ hex => Or.inl hex
  cases hstep with
  | worker i pc pc' t hi hto => exact batchOk_worker h hset hbal hi hto
  | waiter j before pc pc' t hj hto => exact batchOk_waiter h hmutex hok hj hto
  | enqueue | setCompletionCallback | clearCompletionCallback => exact absurd hkeeps id
  | notifyOne ticket i hmem hi =>
    exact h.frame rfl hsame
      (fun _ hex => Or.inl (exists_mem_set hi hex fun hpc => by cases hpc)) hstay
  | wakeWorker i timedOut hi =>
    exact h.frame rfl hsame
      (fun _ hex => Or.inl (exists_mem_set hi hex fun hpc => by cases hpc)) hstay
  | waitForAllTasks =>
    refine h.frame rfl hsame hon fun j w hw hwaited => ?_
    by_cases hj : j < s.waiters.length
    · rw [List.getElem?_append_left hj] at hw
      exact ⟨w, hw, hwaited⟩
    · rw [List.getElem?_append_right (Nat.le_of_not_lt hj)] at hw
      obtain rfl : w = ⟨.lock, s.returned⟩ := by simpa using List.mem_of_getElem? hw
      cases hwaited
  | wakeWaiter j before hj =>
    refine h.frame rfl hsame hon fun k w hw hwaited => ?_
    by_cases hk : k = j
    · subst hk
      rw [List.getElem?_set_self (List.getElem?_eq_some_iff.1 hj).1] at hw
      cases hw
      cases hwaited
    · rw [List.getElem?_set_ne (Ne.symm hk)] at hw
      exact ⟨w, hw, hwaited⟩
  | spawn index hpc =>
    refine h.frame rfl hsame (fun _ hex => Or.inl ?_) hstay
    obtain ⟨pc, hmem, hpc⟩ := hex
    exact ⟨pc, List.mem_append_left _ hmem, hpc⟩
  | quitNotify hpc =>
    refine h.frame rfl hsame (fun _ hex => Or.inl ?_) hstay
    obtain ⟨pc, hmem, hpc⟩ := hex
    refine ⟨pc.notified, List.mem_map_of_mem hmem, ?_⟩
    revert hpc
    cases pc <;> exact id
  | _ => exact h.frame rfl hsame hon hstay

/-- The last task of a batch is enqueued while a callback is installed, and nothing is enqueued
afterwards. If every `WaitForAllTasks` call made after the batch reads its 0 after the draining
worker has taken the mutex, then such a call returns after the callback, called with every task
of the batch settled, has returned. -/
theorem waiters_see_callback (threadNum : Int) (before after : List Act) (task : Task)
    (s₀ s₁ s : State) (hbefore : exec (step threadNum) init before = some s₀)
    (hset : s₀.completionCallback ≠ 0) (henqueue : step threadNum s₀ (.enqueue task) = some s₁)
    (hkeeps : ∀ a ∈ after, KeepsBatch a) (hafter : exec (step threadNum) s₁ after = some s)
    (hmeet : StepsMeet (step threadNum) (ReadsAfterLock s₁.waiters.length) s₁ after)
    (j : Nat) (w : Waiter) (hj : s₁.waiters.length ≤ j) (hw : s.waiters[j]? = some w)
    (hreturned : w.pc = .returned) :
    (s₀.completionCallback, s₀.callbackArg, s₁.enqueued.length) ∈ s.callbackReturns := by
  have hreached : s₁.ledger.Balanced ∧ MutexOk s₁ := by
    refine exec_invariant (I := fun s => s.ledger.Balanced ∧ MutexOk s) ?_
      ⟨balanced_init, mutexOk_init⟩ (exec_concat_eq_some.2 ⟨s₀, hbefore, henqueue⟩)
    rintro s a t ⟨hbal, hmutex⟩ hstep
    exact ⟨balanced_step hbal hstep, mutexOk_step hmutex (stepTo_of_step hstep)⟩
  have hstart : BatchOk s₀.completionCallback s₀.callbackArg s₁.enqueued.length
      s₁.waiters.length s₁ := by
    cases stepTo_of_step henqueue with
    | enqueue _ hfree =>
      refine ⟨rfl, rfl, rfl, fun hzero => absurd hzero (Nat.succ_ne_zero _), ?_⟩
      intro j w hj hw
      rw [List.getElem?_eq_none hj] at hw
      cases hw
  have hbatch : BatchOk s₀.completionCallback s₀.callbackArg s₁.enqueued.length
      s₁.waiters.length s := by
    refine (exec_induct (I := fun s => BatchOk s₀.completionCallback s₀.callbackArg
      s₁.enqueued.length s₁.waiters.length s ∧ s.ledger.Balanced ∧ MutexOk s) ?_
      ⟨hstart, hreached⟩ (hmeet.and (stepsMeet_of_forall_mem hkeeps)) hafter).1
    rintro s a t ⟨hbatch, hbal, hmutex⟩ ⟨hok, hkeeps⟩ hstep
    have hto := stepTo_of_step hstep
    exact ⟨batchOk_step hbatch hset hbal hmutex hok hkeeps hto, balanced_step hbal hstep,
      mutexOk_step hmutex hto⟩
  exact hbatch.waited j w hj hw (by rw [hreturned]; rfl)

/-- A pool with one worker and a callback. -/
def callbackPool : List Act :=
  [.setCompletionCallback 5 6, .start, .control, .control, .control]

/-- Its state. -/
def readyPool : State := { completionCallback := 5, callbackArg := 6, workers := [.loopTop] }

/-- The caller of `WaitForAllTasks` blocks before the worker subtracts the task. -/
def blockedCaller : List Act :=
  List.flatten [[.waitForAllTasks, .waiter 0, .waiter 0, .waiter 0], List.replicate 14 (.worker 0),
    [.waiter 0, .waiter 0, .waiter 0]]

theorem waiters_see_callback_blocked :
    ∃ s w, exec (step 1) init callbackPool = some readyPool ∧
      exec (step 1) (enqueueTask readyPool ⟨1, 2⟩) blockedCaller = some s ∧
      s.waiters[0]? = some w ∧ w.pc = .returned ∧ (5, 6, 1) ∈ s.callbackReturns := by
  have hends : ∃ s, exec (step 1) (enqueueTask readyPool ⟨1, 2⟩) blockedCaller = some s ∧
      s.waiters[0]? = some ⟨.returned, []⟩ := exists_exec_of_decide (by decide)
  obtain ⟨s, hs, hw⟩ := hends
  have hready : exec (step 1) init callbackPool = some readyPool := by decide
  exact ⟨s, _, hready, hs, hw, rfl, waiters_see_callback 1 callbackPool blockedCaller ⟨1, 2⟩
    readyPool _ s hready (by decide) rfl (by decide) hs (by decide) 0 _ (by decide) hw rfl⟩

/-- The caller takes the mutex between the worker's decrement and its lock. -/
def hastyCaller : List Act :=
  List.flatten [List.replicate 8 (.worker 0), [.waitForAllTasks, .waiter 0, .waiter 0, .waiter 0]]

theorem waiter_misses_callback :
    ¬ ∀ (threadNum : Int) (before after : List Act) (task : Task) (s₀ s₁ s : State),
      exec (step threadNum) init before = some s₀ → s₀.completionCallback ≠ 0 →
      step threadNum s₀ (.enqueue task) = some s₁ →
      (∀ a ∈ after, KeepsBatch a ∧ a ≠ .stop) → exec (step threadNum) s₁ after = some s →
      ∀ j w, s₁.waiters.length ≤ j → s.waiters[j]? = some w → w.pc = .returned →
        (s₀.completionCallback, s₀.callbackArg, s₁.enqueued.length) ∈ s.callbackReturns := by
  intro h
  have hends : ∃ s, exec (step 1) (enqueueTask readyPool ⟨1, 2⟩) hastyCaller = some s ∧
      s.waiters[0]? = some ⟨.returned, []⟩ ∧ s.callbackReturns = [] :=
    exists_exec_of_decide (by decide)
  obtain ⟨s, hs, hw, hreturns⟩ := hends
  have hready : exec (step 1) init callbackPool = some readyPool := by decide
  have hmem := h 1 callbackPool hastyCaller ⟨1, 2⟩ readyPool _ s hready (by decide) rfl
    (by decide) hs 0 _ (by decide) hw rfl
  rw [hreturns] at hmem
  cases hmem

end Sparo.Base.ThreadPool
