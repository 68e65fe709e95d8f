import Sparo.ThirdParty.Proofs.ThreadpoolShutdown
import Sparo.Misc.Potential

/-!
# The C thread pool comes to rest

Left to themselves, the workers and the calls of `threadpool_destroy` take a bounded number of
steps, and where none of them can move the work is done: no schedule deadlocks before that.
-/

namespace Sparo.ThirdParty.Threadpool

open StepSystem ThreadSum

variable {s t u : State} {a : Act}

/-- A step of a worker or of a call of `threadpool_destroy` that is under way; `wakeWorker` is a
spurious wake-up. -/
def Act.internal : Act → Bool
  | .worker _ | .wakeWorker _ | .destroyer _ => true
  | _ => false

/-- 1 for a step of the program. -/
def Act.cost : Act → Nat
  | .wakeWorker _ => 0
  | _ => 1

/-- 1 for a spurious wake-up. -/
def Act.spurious : Act → Nat
  | .wakeWorker _ => 1
  | _ => 0

/-- How many steps a worker takes until it waits or exits. -/
def WorkerPc.work : WorkerPc → Nat
  | .lock => 1
  | .running _ => 2
  | .waiting | .exited => 0

/-- How many steps a call takes until it returns. -/
def DestroyerPc.work (threadCount : Nat) : DestroyerPc → Nat
  | .join i => threadCount - i + 3
  | .free => 2
  | .freeLock => 1
  | .returned _ => 0

/-- How many steps are left: three for a task in the queue, and those of the threads. -/
def State.work (s : State) : Nat :=
  3 * s.pool.count + total WorkerPc.work s.workers +
    total (DestroyerPc.work s.pool.threadCount) s.destroyers

/-- What a step of worker `i` from `pc` to `pc'` does to the work left. -/
theorem work_set_worker {i : Nat} {pc : WorkerPc} (pc' : WorkerPc)
    (hi : s.workers[i]? = some pc) (hworkers : t.workers = s.workers.set i pc')
    (hdestroyers : t.destroyers = s.destroyers)
    (hthreads : t.pool.threadCount = s.pool.threadCount) :
    t.work + (3 * s.pool.count + pc.work) = s.work + (3 * t.pool.count + pc'.work) := by
  have hset := total_set hi WorkerPc.work pc'
  rw [State.work, State.work, hworkers, hdestroyers, hthreads]
  omega

/-- What a step of call `j` from `pc` to `pc'` does to the work left. -/
theorem work_set_destroyer {j : Nat} {pc : DestroyerPc} (pc' : DestroyerPc)
    (hj : s.destroyers[j]? = some pc) (hpool : t.pool = s.pool) (hworkers : t.workers = s.workers)
    (hdestroyers : t.destroyers = s.destroyers.set j pc') :
    t.work + pc.work s.pool.threadCount = s.work + pc'.work s.pool.threadCount := by
  have hset := total_set hj (DestroyerPc.work s.pool.threadCount) pc'
  rw [State.work, State.work, hworkers, hdestroyers, hpool]
  omega

/-- A step of the program uses up some of the work; a spurious wake-up adds one step. -/
theorem work_step (hinternal : a.internal = true) (hstep : step s a = some t) :
    t.work + a.cost ≤ s.work + a.spurious := by
  cases stepTo_of_step hstep with
  | spawn => cases hinternal
  | reject => cases hinternal
  | accept => cases hinternal
  | wait i hi =>
    have hwork := work_set_worker (t := { s with workers := s.workers.set i .waiting })
      .waiting hi rfl rfl rfl
    simp only [WorkerPc.work] at hwork
    simp only [Act.cost, Act.spurious]
    omega
  | exit i hi =>
    have hwork := work_set_worker
      (t := { s with
        pool := { s.pool with started := s.pool.started - 1 }
        workers := s.workers.set i .exited }) .exited hi rfl rfl rfl
    simp only [WorkerPc.work] at hwork
    simp only [Act.cost, Act.spurious]
    omega
  | take i hi hfree hcount hrun =>
    have hwork := work_set_worker
      (t := { s with
        pool := s.pool.popped
        workers := s.workers.set i (.running s.pool.front)
        begun := s.begun ++ [s.pool.front] }) (.running s.pool.front) hi rfl rfl rfl
    simp only [WorkerPc.work, Pool.popped] at hwork
    simp only [Act.cost, Act.spurious, Pool.popped]
    omega
  | finish i task hi =>
    have hwork := work_set_worker
      (t := { s with workers := s.workers.set i .lock, finished := s.finished ++ [task] })
      .lock hi rfl rfl rfl
    simp only [WorkerPc.work] at hwork
    simp only [Act.cost, Act.spurious]
    omega
  | wakeWorker i hi =>
    have hwork := work_set_worker (t := { s with workers := s.workers.set i .lock })
      .lock hi rfl rfl rfl
    simp only [WorkerPc.work] at hwork
    simp only [Act.cost, Act.spurious]
    omega
  | destroy _ flags creation hd => cases hd <;> cases hinternal
  | destroyAgain _ flags creation hd => cases hd <;> cases hinternal
  | join j i hj hi hexited =>
    have hwork := work_set_destroyer
      (t := { s with destroyers := s.destroyers.set j (.join (i + 1)) }) (.join (i + 1)) hj
      rfl rfl rfl
    simp only [DestroyerPc.work] at hwork
    simp only [Act.cost, Act.spurious]
    omega
  | joined j i hj hi =>
    have hwork := work_set_destroyer
      (t := { s with destroyers := s.destroyers.set j .free }) .free hj rfl rfl rfl
    simp only [DestroyerPc.work] at hwork
    simp only [Act.cost, Act.spurious]
    omega
  | keep j hj hstarted =>
    have hwork := work_set_destroyer
      (t := { s with destroyers := s.destroyers.set j (.returned 0) }) (.returned 0) hj rfl rfl rfl
    simp only [DestroyerPc.work] at hwork
    simp only [Act.cost, Act.spurious]
    omega
  | freeArrays j hj hstarted =>
    have hwork := work_set_destroyer
      (t := { s with
        arraysFreed := s.arraysFreed + 1
        destroyers := s.destroyers.set j .freeLock }) .freeLock hj rfl rfl rfl
    simp only [DestroyerPc.work] at hwork
    simp only [Act.cost, Act.spurious]
    omega
  | freePool j hj hfree =>
    have hwork := work_set_destroyer
      (t := { s with
        poolFreed := s.poolFreed + 1
        destroyers := s.destroyers.set j (.returned 0) }) (.returned 0) hj rfl rfl rfl
    simp only [DestroyerPc.work] at hwork
    simp only [Act.cost, Act.spurious]
    omega

/-- The steps of the program leave the lock free and the flag as it is. -/
theorem unlocked_step (hinternal : a.internal = true) (hstep : step s a = some t) :
    t.mutexHeld = s.mutexHeld ∧ t.pool.shutdown = s.pool.shutdown ∧
      t.accepted = s.accepted ∧ t.creation = s.creation := by
  cases stepTo_of_step hstep with
  | spawn => cases hinternal
  | accept => cases hinternal
  | destroy _ flags creation hd => cases hd <;> cases hinternal
  | destroyAgain _ flags creation hd => cases hd <;> cases hinternal
  | _ => exact ⟨rfl, rfl, rfl, rfl⟩

/-! ## Where nobody can move -/

/-- No worker and no call of `threadpool_destroy` can move. -/
def State.atRest (s : State) : Prop :=
  (∀ i, step s (.worker i) = none) ∧ ∀ j, step s (.destroyer j) = none

/-- With the lock free, a worker that cannot move is blocked or has exited. -/
theorem State.atRest.worker (h : s.atRest) (hfree : s.mutexHeld = false) {pc : WorkerPc}
    (hpc : pc ∈ s.workers) : pc = .waiting ∨ pc = .exited := by
  obtain ⟨i, hi⟩ := List.mem_iff_getElem?.1 hpc
  have hstuck := h.1 i
  simp only [step, hi, Option.bind_some] at hstuck
  cases pc with
  | lock => simp [workerStep, hfree] at hstuck
  | waiting => exact .inl rfl
  | running task => simp [workerStep] at hstuck
  | exited => exact .inr rfl

/-- With the lock free and the workers gone, a call that cannot move has returned. -/
theorem State.atRest.destroyer (h : s.atRest) (hok : WorkersOk s) (hfree : s.mutexHeld = false)
    (hgone : s.deserted) {pc : DestroyerPc} (hpc : pc ∈ s.destroyers) :
    ∃ err, pc = .returned err := by
  obtain ⟨j, hj⟩ := List.mem_iff_getElem?.1 hpc
  have hstuck := h.2 j
  simp only [step, hj, Option.bind_some] at hstuck
  cases pc with
  | join i =>
    simp only [destroyerStep] at hstuck
    split at hstuck
    · next hi =>
      rw [hok.threadCount] at hi
      have hexited : s.workers[i]? = some .exited := by
        rw [List.getElem?_eq_getElem hi, hgone _ (List.getElem_mem hi)]
      rw [if_pos hexited] at hstuck
      cases hstuck
    · cases hstuck
  | free =>
    simp only [destroyerStep] at hstuck
    split at hstuck <;> cases hstuck
  | freeLock => simp [destroyerStep, hfree] at hstuck
  | returned err => exact ⟨err, rfl⟩

/-- At rest before the shutdown: every accepted task is finished and every worker waits for more. -/
theorem Ok.idle (h : Ok s) (hrest : s.atRest) (hfree : s.mutexHeld = false)
    (hcreated : s.creation = .created) (hrun : s.pool.shutdown = .notRequested) :
    (∀ pc ∈ s.workers, pc = .waiting) ∧ s.finished.Perm (s.accepted.map some) := by
  have hwaiting : ∀ pc ∈ s.workers, pc = .waiting := by
    intro pc hpc
    rcases hrest.worker hfree hpc with hw | rfl
    · exact hw
    · have hgone := le_total (f := WorkerPc.gone) hpc
      exact absurd hrun (h.workers.leaving hgone).1
  have hnone : ∀ {f : WorkerPc → Nat}, f .waiting = 0 → total f s.workers = 0 := by
    intro f hf
    refine total_eq_zero_iff.2 fun pc hpc => ?_
    rw [hwaiting pc hpc, hf]
  obtain ⟨pc, hpc⟩ := List.exists_mem_of_ne_nil _ (h.workers.nonempty hcreated)
  have hasleep := le_total (f := WorkerPc.asleep) hpc
  rw [hwaiting pc hpc] at hasleep
  have hcount := h.workers.served hasleep
  rw [hnone rfl] at hcount
  have htasks := h.workers.tasks
  have hinHand : total WorkerPc.inHand s.workers = 0 := by
    rw [total]
    refine List.sum_eq_zero fun m hm => ?_
    obtain ⟨pc, hpc, rfl⟩ := List.mem_map.1 hm
    rw [hwaiting pc hpc]
    rfl
  rw [hinHand, add_zero, h.queue.begun_eq (Nat.le_zero.1 hcount)] at htasks
  exact ⟨hwaiting, (Multiset.coe_eq_coe.1 htasks).symm⟩

/-- At rest after the shutdown: the call that shut the pool down has returned. -/
theorem Ok.shut (h : Ok s) (hrest : s.atRest) (hfree : s.mutexHeld = false)
    (hrun : s.pool.shutdown ≠ .notRequested) : DestroyerPc.returned 0 ∈ s.destroyers := by
  have hgone : s.deserted := by
    intro pc hpc
    rcases hrest.worker hfree hpc with rfl | hexited
    · exact absurd hpc (total_asleep_eq_zero.1 (h.workers.awake hrun))
    · exact hexited
  have howner := h.destroy.owner hrun
  obtain ⟨pc, hpc, howning⟩ : ∃ pc ∈ s.destroyers, pc.owning ≠ 0 := by
    by_contra hnone
    push Not at hnone
    rw [total_eq_zero_iff.2 hnone] at howner
    cases howner
  obtain ⟨err, rfl⟩ := hrest.destroyer h.workers hfree hgone hpc
  by_cases herr : err = 0
  · rwa [← herr]
  · exact absurd (if_neg herr) howning

/-- From any state of any run in which no call was refused, under any schedule of the workers and of
the calls of `threadpool_destroy`: the steps of the program are at most the work left, one more
for each spurious wake-up; and where none of them can move, either the pool is running, every
accepted task has been executed and every worker waits, or the call that shut it down has
returned 0. -/
theorem pool_comes_to_rest {threadCount queueSize : Int} {as bs : List Act}
    (hcreate : threadpoolCreate threadCount queueSize = some s) (hrun : exec step s as = some t)
    (hfree : t.mutexHeld = false) (hinternal : ∀ a ∈ bs, a.internal = true)
    (hlater : exec step t bs = some u) :
    (bs.map Act.cost).sum ≤ t.work + (bs.map Act.spurious).sum ∧
    (u.atRest → u.pool.shutdown = .notRequested → u.creation = .created →
      (∀ pc ∈ u.workers, pc = .waiting) ∧ u.finished.Perm (t.accepted.map some)) ∧
    (u.atRest → u.pool.shutdown ≠ .notRequested → DestroyerPc.returned 0 ∈ u.destroyers) := by
  have hmeet : StepsMeet step (fun _ a => a.internal = true) t bs :=
    stepsMeet_of_forall_mem hinternal
  have hpotential : u.work + (bs.map Act.cost).sum ≤ t.work + (bs.map Act.spurious).sum :=
    exec_potential (I := fun _ => True) (φ := State.work)
      (fun v a w _ ha hw => ⟨trivial, work_step ha hw⟩) trivial hmeet hlater
  have hkept : Ok u ∧ u.mutexHeld = false ∧ u.accepted = t.accepted := by
    refine exec_induct (I := fun v => Ok v ∧ v.mutexHeld = false ∧ v.accepted = t.accepted)
      (fun v a w hv ha hw => ?_) ⟨ok_of_exec hcreate hrun, hfree, rfl⟩ hmeet hlater
    obtain ⟨hheld, -, haccepted, -⟩ := unlocked_step ha hw
    exact ⟨hv.1.step hw, hheld.trans hv.2.1, haccepted.trans hv.2.2⟩
  obtain ⟨hok, hfree', haccepted⟩ := hkept
  refine ⟨by omega, fun hrest hquiet hcreated => ?_, fun hrest hshut => ?_⟩
  · rw [← haccepted]
    exact hok.idle hrest hfree' hcreated hquiet
  · exact hok.shut hrest hfree' hshut

/-- The worker of a pool of one takes the only task, finishes it and goes to sleep: three steps,
and all there are. -/
theorem pool_comes_to_rest_one_task :
    ∃ s t u, threadpoolCreate 1 1 = some s ∧
      exec step s [.createThread true, .enqueue ⟨1, 7⟩ none] = some t ∧
      exec step t [.worker 0, .worker 0, .worker 0] = some u ∧ 3 ≤ t.work := by
  have hends : ∃ t, exec step oneCell [.createThread true, .enqueue ⟨1, 7⟩ none] = some t ∧
      t.mutexHeld = false ∧ (exec step t [.worker 0, .worker 0, .worker 0]).isSome = true :=
    exists_exec_of_decide (by decide)
  obtain ⟨t, hrun, hfree, hsome⟩ := hends
  obtain ⟨u, hlater⟩ := Option.isSome_iff_exists.1 hsome
  have hrest := pool_comes_to_rest oneCell_created hrun hfree (by decide) hlater
  exact ⟨_, t, u, oneCell_created, hrun, hlater, hrest.1⟩

end Sparo.ThirdParty.Threadpool
