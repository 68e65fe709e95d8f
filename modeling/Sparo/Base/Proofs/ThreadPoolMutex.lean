import Sparo.Base.Proofs.ThreadPoolLedger
import Mathlib.Algebra.Order.Ring.Nat

/-!
# Mutual exclusion

At most one thread of the pool is in a place where it holds `mutex_`.
-/

namespace Sparo.Base.ThreadPool

open StepSystem ThreadSum

variable {threadNum : Int} {s t : State} {a : Act} {i : Nat} {pc pc' : WorkerPc}

/-- How many workers, and how many callers of `WaitForAllTasks`, hold `mutex_`. -/
def State.holders (s : State) : Nat :=
  total (fun pc : WorkerPc => pc.holdsMutex.toNat) s.workers +
    total (fun w : Waiter => w.pc.holdsMutex.toNat) s.waiters

/-- `mutex_` has one holder while it is held and none while it is free. -/
def MutexOk (s : State) : Prop := s.holders = s.mutexHeld.toNat

theorem holdsMutex_notified (pc : WorkerPc) : pc.notified.holdsMutex = pc.holdsMutex := by
  cases pc <;> rfl

theorem waiter_holdsMutex_notified (pc : WaiterPc) : pc.notified.holdsMutex = pc.holdsMutex := by
  cases pc <;> rfl

/-- A step that changes neither the mutex nor who holds it. -/
theorem MutexOk.frame (h : MutexOk s)
    (hworkers : total (fun pc : WorkerPc => pc.holdsMutex.toNat) t.workers =
      total (fun pc : WorkerPc => pc.holdsMutex.toNat) s.workers)
    (hwaiters : total (fun w : Waiter => w.pc.holdsMutex.toNat) t.waiters =
      total (fun w : Waiter => w.pc.holdsMutex.toNat) s.waiters)
    (hheld : t.mutexHeld = s.mutexHeld) : MutexOk t := by
  rw [MutexOk, State.holders, hworkers, hwaiters, hheld]
  exact h

theorem mutexOk_worker (h : MutexOk s) (hi : s.workers[i]? = some pc)
    (hto : WorkerTo s pc t pc') : MutexOk { t with workers := t.workers.set i pc' } := by
  have hset := total_set hi (fun pc : WorkerPc => pc.holdsMutex.toNat) pc'
  have hsame : t.waiters = s.waiters → t.mutexHeld = s.mutexHeld →
      pc'.holdsMutex = pc.holdsMutex → MutexOk { t with workers := t.workers.set i pc' } := by
    intro hwaiters hheld hpc
    refine h.frame ?_ (by rw [hwaiters]) hheld
    rw [hto.workers_eq]
    exact total_set_of_eq hi (by rw [hpc])
  unfold MutexOk State.holders at h ⊢
  cases hto with
  | look _ _ hidle hidle' hheld hpeek => exact hsame rfl rfl hheld
  | acquire _ _ hfree hidle hidle' hheld hheld' hpeek =>
    simp only [hheld, hheld', hfree, Bool.toNat_true, Bool.toNat_false] at hset h ⊢
    omega
  | release _ _ hidle hidle' hheld hheld' =>
    simp only [hheld, hheld', Bool.toNat_true, Bool.toNat_false] at hset h ⊢
    have := Bool.toNat_le s.mutexHeld
    omega
  | lockFinish hfree =>
    simp only [WorkerPc.holdsMutex, hfree, Bool.toNat_true, Bool.toNat_false] at hset h ⊢
    omega
  | unlockFinish =>
    simp only [WorkerPc.holdsMutex, Bool.toNat_true, Bool.toNat_false] at hset h ⊢
    have := Bool.toNat_le s.mutexHeld
    omega
  | notifyAll =>
    refine MutexOk.frame h (total_set_of_eq hi rfl) (total_map_of_eq (fun w => ?_) _) rfl
    rw [waiter_holdsMutex_notified]
  | take | drop | begin | execute | decrement | sawZero | sawMore | noCallback | call
  | callReturn => exact hsame rfl rfl rfl

theorem mutexOk_waiter {j : Nat} {before : List Nat} {pc pc' : WaiterPc} (h : MutexOk s)
    (hj : s.waiters[j]? = some ⟨pc, before⟩) (hto : WaiterTo s pc t pc') :
    MutexOk { t with waiters := t.waiters.set j ⟨pc', before⟩ } := by
  have hset := total_set hj (fun w : Waiter => w.pc.holdsMutex.toNat) ⟨pc', before⟩
  unfold MutexOk State.holders at h ⊢
  cases hto with
  | acquire _ hpc hfree =>
    have hnot : pc.holdsMutex = false := by rcases hpc with rfl | rfl <;> rfl
    have hnow : WaiterPc.evalPredicate.holdsMutex = true := rfl
    simp only [hnot, hnow, hfree, Bool.toNat_true, Bool.toNat_false] at hset h ⊢
    omega
  | drained hzero => exact MutexOk.frame h rfl (total_set_of_eq hj rfl) rfl
  | notDrained hzero => exact MutexOk.frame h rfl (total_set_of_eq hj rfl) rfl
  | sleep =>
    simp only [WaiterPc.holdsMutex, Bool.toNat_true, Bool.toNat_false] at hset h ⊢
    have := Bool.toNat_le s.mutexHeld
    omega
  | leave =>
    simp only [WaiterPc.holdsMutex, Bool.toNat_true, Bool.toNat_false] at hset h ⊢
    have := Bool.toNat_le s.mutexHeld
    omega

theorem mutexOk_step (h : MutexOk s) (hstep : StepTo threadNum s a t) : MutexOk t := by
  cases hstep with
  | worker i pc pc' t hi hto => exact mutexOk_worker h hi hto
  | waiter j before pc pc' t hj hto => exact mutexOk_waiter h hj hto
  | notifyOne ticket i hmem hi => exact h.frame (total_set_of_eq hi rfl) rfl rfl
  | wakeWorker i timedOut hi => exact h.frame (total_set_of_eq hi rfl) rfl rfl
  | waitForAllTasks => exact h.frame rfl (by simp [WaiterPc.holdsMutex]) rfl
  | wakeWaiter j before hj => exact h.frame rfl (total_set_of_eq hj rfl) rfl
  | spawn index hpc => exact h.frame (by simp [WorkerPc.holdsMutex]) rfl rfl
  | quitNotify hpc =>
    refine h.frame (total_map_of_eq (fun pc => ?_) _) rfl rfl
    rw [holdsMutex_notified]
  | enqueue | notifyNobody | setCompletionCallback | clearCompletionCallback | start | stop
  | startStore | started | quitStore | join => exact h.frame rfl rfl rfl

theorem mutexOk_init : MutexOk init := rfl

/-- A worker and a caller of `WaitForAllTasks` do not hold `mutex_` at the same time. -/
theorem MutexOk.exclusive (h : MutexOk s) (hpc : pc ∈ s.workers) (hheld : pc.holdsMutex = true)
    {w : Waiter} (hw : w ∈ s.waiters) : w.pc.holdsMutex = false := by
  have hworker := le_total (f := fun pc : WorkerPc => pc.holdsMutex.toNat) hpc
  have hwaiter := le_total (f := fun w : Waiter => w.pc.holdsMutex.toNat) hw
  have := Bool.toNat_le s.mutexHeld
  unfold MutexOk State.holders at h
  by_contra hnot
  simp only [hheld, Bool.eq_true_of_not_eq_false hnot, Bool.toNat_true] at hworker hwaiter
  omega

/-- While `mutex_` is free no worker is in a place where it holds it. -/
theorem MutexOk.worker_of_free (h : MutexOk s) (hfree : s.mutexHeld = false)
    (hpc : pc ∈ s.workers) : pc.holdsMutex = false := by
  have hworker := le_total (f := fun pc : WorkerPc => pc.holdsMutex.toNat) hpc
  unfold MutexOk State.holders at h
  by_contra hnot
  simp only [hfree, Bool.eq_true_of_not_eq_false hnot, Bool.toNat_true,
    Bool.toNat_false] at hworker h
  omega

end Sparo.Base.ThreadPool
