import Sparo.ThirdParty.Threadpool
import Sparo.Misc.ThreadSum

/-!
# The steps of the C thread pool

`StepTo` lists what a step of the pool can do, with the guard under which it does it. The
invariants of the pool are proved by cases on it.
-/

namespace Sparo.ThirdParty.Threadpool

open StepSystem

variable {s t : State} {a : Act}

/-- The pool after a task was put in the queue. -/
def Pool.pushed (p : Pool) (task : Task) : Pool :=
  { p with
    queue := p.queue.set p.tail (some task)
    tail := (p.tail + 1) % p.queueSize
    count := p.count + 1 }

/-- The pool after a task was taken out of the queue. -/
def Pool.popped (p : Pool) : Pool :=
  { p with head := (p.head + 1) % p.queueSize, count := p.count - 1 }

/-- What the cell at the head of the queue holds. -/
def Pool.front (p : Pool) : Option Task := (p.queue[p.head]?).join

/-- Who enters the locked scope of `threadpool_destroy`: a caller, or `threadpool_create` after a
failure; and where `threadpool_create` is afterwards. -/
inductive Destroys (s : State) : Act → BitVec 32 → Creation → Prop where
  | call (flags : BitVec 32) (husable : s.usable = true) :
      Destroys s (.destroy flags) flags s.creation
  | create (left : Nat) (h : s.creation = .starting left) :
      Destroys s (.createThread false) 0 .failed

/-- What a step can do. -/
inductive StepTo (s : State) : Act → State → Prop where
  | spawn (left : Nat) (h : s.creation = .starting left) :
      StepTo s (.createThread true) (createThread s left)
  | reject (task : Task) (h : (threadpoolEnqueue s.pool task).2 ≠ 0) :
      StepTo s (.enqueue task none) s
  | accept (task : Task) (woken : Option Nat) (workers : List WorkerPc)
      (husable : s.usable = true) (hfree : s.mutexHeld = false)
      (hroom : s.pool.count ≠ s.pool.queueSize) (hrun : s.pool.shutdown = .notRequested)
      (hsignal : signal s.workers woken = some workers) :
      StepTo s (.enqueue task woken)
        { s with pool := s.pool.pushed task, workers, accepted := s.accepted ++ [task] }
  | wait (i : Nat) (hi : s.workers[i]? = some .lock) (hfree : s.mutexHeld = false)
      (hcount : s.pool.count = 0) (hrun : s.pool.shutdown = .notRequested) :
      StepTo s (.worker i) { s with workers := s.workers.set i .waiting }
  | exit (i : Nat) (hi : s.workers[i]? = some .lock) (hfree : s.mutexHeld = false)
      (hrun : s.pool.shutdown ≠ .notRequested)
      (hcount : s.pool.shutdown = .gracefulShutdown → s.pool.count = 0) :
      StepTo s (.worker i)
        { s with
          pool := { s.pool with started := s.pool.started - 1 }
          workers := s.workers.set i .exited }
  | take (i : Nat) (hi : s.workers[i]? = some .lock) (hfree : s.mutexHeld = false)
      (hcount : s.pool.count ≠ 0) (hrun : s.pool.shutdown ≠ .immediateShutdown) :
      StepTo s (.worker i)
        { s with
          pool := s.pool.popped
          workers := s.workers.set i (.running s.pool.front)
          begun := s.begun ++ [s.pool.front] }
  | finish (i : Nat) (task : Option Task) (hi : s.workers[i]? = some (.running task)) :
      StepTo s (.worker i)
        { s with workers := s.workers.set i .lock, finished := s.finished ++ [task] }
  | wakeWorker (i : Nat) (hi : s.workers[i]? = some .waiting) :
      StepTo s (.wakeWorker i) { s with workers := s.workers.set i .lock }
  | destroy (a : Act) (flags : BitVec 32) (creation : Creation) (h : Destroys s a flags creation)
      (hfree : s.mutexHeld = false) (hrun : s.pool.shutdown = .notRequested) :
      StepTo s a
        { s with
          pool := { s.pool with shutdown := shutdownOfFlags flags }
          creation
          workers := s.workers.map WorkerPc.notified
          destroyers := s.destroyers ++ [.join 0] }
  | destroyAgain (a : Act) (flags : BitVec 32) (creation : Creation)
      (h : Destroys s a flags creation) (hfree : s.mutexHeld = false)
      (hrun : s.pool.shutdown ≠ .notRequested) :
      StepTo s a
        { s with
          creation
          mutexHeld := true
          destroyers := s.destroyers ++ [.returned threadpoolShutdown] }
  | join (j i : Nat) (hj : s.destroyers[j]? = some (.join i)) (hi : i < s.pool.threadCount)
      (hexited : s.workers[i]? = some .exited) :
      StepTo s (.destroyer j) { s with destroyers := s.destroyers.set j (.join (i + 1)) }
  | joined (j i : Nat) (hj : s.destroyers[j]? = some (.join i)) (hi : s.pool.threadCount ≤ i) :
      StepTo s (.destroyer j) { s with destroyers := s.destroyers.set j .free }
  | keep (j : Nat) (hj : s.destroyers[j]? = some .free) (hstarted : 0 < s.pool.started) :
      StepTo s (.destroyer j) { s with destroyers := s.destroyers.set j (.returned 0) }
  | freeArrays (j : Nat) (hj : s.destroyers[j]? = some .free) (hstarted : s.pool.started ≤ 0) :
      StepTo s (.destroyer j)
        { s with arraysFreed := s.arraysFreed + 1, destroyers := s.destroyers.set j .freeLock }
  | freePool (j : Nat) (hj : s.destroyers[j]? = some .freeLock) (hfree : s.mutexHeld = false) :
      StepTo s (.destroyer j)
        { s with poolFreed := s.poolFreed + 1, destroyers := s.destroyers.set j (.returned 0) }

/-- What `threadpool_enqueue` does to the pool when it returns 0, and when it does. -/
theorem threadpoolEnqueue_cases (p : Pool) (task : Task) :
    ((threadpoolEnqueue p task).1 = p ∧ (threadpoolEnqueue p task).2 ≠ 0) ∨
    (threadpoolEnqueue p task = (p.pushed task, 0) ∧ task.function ≠ 0 ∧
      p.count ≠ p.queueSize ∧ p.shutdown = .notRequested) := by
  unfold threadpoolEnqueue
  by_cases hnull : task.function = 0
  · left
    simp [hnull, threadpoolInvalid]
  · by_cases hfull : p.count = p.queueSize
    · left
      simp [hnull, hfull, threadpoolQueueFull]
    · by_cases hrun : p.shutdown = .notRequested
      · right
        simp [hnull, hfull, hrun, Pool.pushed]
      · left
        simp [hnull, hfull, hrun, threadpoolShutdown]

theorem stepTo_of_enqueue {task : Task} {woken : Option Nat}
    (h : step s (.enqueue task woken) = some t) : StepTo s (.enqueue task woken) t := by
  simp only [step] at h
  split at h
  · cases h
  · next husable =>
    have husable : s.usable = true := by simpa using husable
    split at h
    · cases h
    · next hlock =>
      rcases threadpoolEnqueue_cases s.pool task with ⟨-, hrej⟩ | ⟨hacc, hfun, hroom, hrun⟩
      · split at h
        · next pool heq =>
          exact absurd (by rw [heq]) hrej
        · split at h
          · next hnone =>
            cases h
            subst hnone
            exact .reject task hrej
          · cases h
      · rw [hacc] at h
        obtain ⟨workers, hsignal, rfl⟩ := Option.map_eq_some_iff.1 h
        have hfree : s.mutexHeld = false := by simpa [hfun] using hlock
        exact .accept task woken workers husable hfree hroom hrun hsignal

theorem stepTo_of_workerStep {i : Nat} {pc : WorkerPc} (hi : s.workers[i]? = some pc)
    (h : workerStep s i pc = some t) : StepTo s (.worker i) t := by
  cases pc with
  | lock =>
    simp only [workerStep] at h
    split at h
    · cases h
    · next hheld =>
      have hfree : s.mutexHeld = false := by simpa using hheld
      cases h
      unfold threadpoolThread
      by_cases hwait : s.pool.count = 0 ∧ s.pool.shutdown = .notRequested
      · simp only [if_pos hwait]
        exact .wait i hi hfree hwait.1 hwait.2
      · simp only [if_neg hwait]
        by_cases hexit : s.pool.shutdown = .immediateShutdown ∨
            (s.pool.shutdown = .gracefulShutdown ∧ s.pool.count = 0)
        · simp only [if_pos hexit]
          refine .exit i hi hfree ?_ fun hgraceful => ?_
          · rcases hexit with h | ⟨h, -⟩ <;> rw [h] <;> decide
          · rcases hexit with h | ⟨-, h⟩
            · rw [h] at hgraceful
              cases hgraceful
            · exact h
        · simp only [if_neg hexit]
          have hcount : s.pool.count ≠ 0 := by
            intro hzero
            cases hs : s.pool.shutdown <;> simp [hs, hzero] at hwait hexit
          exact .take i hi hfree hcount fun himm => hexit (.inl himm)
  | waiting => cases h
  | running task =>
    cases h
    exact .finish i task hi
  | exited => cases h

theorem stepTo_of_threadpoolDestroy {flags : BitVec 32} {creation : Creation}
    (h : Destroys s a flags creation) (hfree : s.mutexHeld = false) :
    StepTo s a (threadpoolDestroy { s with creation } flags) := by
  unfold threadpoolDestroy
  split
  · next hrun => exact .destroyAgain a flags creation h hfree hrun
  · next hrun => exact .destroy a flags creation h hfree (not_not.1 hrun)

theorem stepTo_of_destroyerStep {j : Nat} {pc : DestroyerPc} (hj : s.destroyers[j]? = some pc)
    (h : destroyerStep s j pc = some t) : StepTo s (.destroyer j) t := by
  cases pc with
  | join i =>
    simp only [destroyerStep] at h
    split at h
    · next hi =>
      split at h
      · next hexited =>
        cases h
        exact .join j i hj hi hexited
      · cases h
    · next hi =>
      cases h
      exact .joined j i hj (Nat.le_of_not_lt hi)
  | free =>
    simp only [destroyerStep] at h
    split at h
    · next hstarted =>
      cases h
      exact .keep j hj hstarted
    · next hstarted =>
      cases h
      exact .freeArrays j hj (not_lt.1 hstarted)
  | freeLock =>
    simp only [destroyerStep] at h
    split at h
    · cases h
    · next hheld =>
      cases h
      exact .freePool j hj (by simpa using hheld)
  | returned err => cases h

theorem stepTo_of_step (h : step s a = some t) : StepTo s a t := by
  cases a with
  | createThread succeeds =>
    simp only [step] at h
    split at h
    · next left hleft =>
      split at h
      · next hsucceeds =>
        cases h
        subst hsucceeds
        exact .spawn left hleft
      · next hfails =>
        split at h
        · cases h
        · next hheld =>
          cases h
          have hfails : succeeds = false := by simpa using hfails
          subst hfails
          exact stepTo_of_threadpoolDestroy (.create left hleft) (by simpa using hheld)
    · cases h
    · cases h
  | enqueue task woken => exact stepTo_of_enqueue h
  | worker i =>
    obtain ⟨pc, hi, h⟩ := Option.bind_eq_some_iff.1 h
    exact stepTo_of_workerStep hi h
  | wakeWorker i =>
    simp only [step] at h
    split at h
    · next hi =>
      cases h
      exact .wakeWorker i hi
    · cases h
  | destroy flags =>
    simp only [step] at h
    split at h
    · cases h
    · next hcall =>
      cases h
      have hcall : s.usable = true ∧ s.mutexHeld = false := by simpa using hcall
      exact stepTo_of_threadpoolDestroy (.call flags hcall.1) hcall.2
  | destroyer j =>
    obtain ⟨pc, hj, h⟩ := Option.bind_eq_some_iff.1 h
    exact stepTo_of_destroyerStep hj h

end Sparo.ThirdParty.Threadpool
