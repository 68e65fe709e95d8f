import Sparo.ThirdParty.Proofs.ThreadpoolSteps
import Sparo.Misc.RingQueue

/-!
# The queue of the C thread pool

What lies in the ring between `head` and `tail` is what `threadpool_enqueue` has accepted and no
worker has taken out, in the order of the calls.
-/

namespace Sparo.ThirdParty.Threadpool

open StepSystem

variable {s t : State} {a : Act}

/-- The cells of the queue from `head` on, `count` of them. -/
def Pool.pending (p : Pool) : List (Option Task) :=
  (List.range p.count).map fun k => (p.queue[(p.head + k) % p.queueSize]?).join

/-- The tasks `xs` are what was accepted and not begun, and lie in the ring. -/
structure QueueHolds (s : State) (xs : List Task) : Prop where
  size : s.pool.queue.length = s.pool.queueSize
  ring : RingQueue.Holds s.pool.queue s.pool.head (xs.map some)
  count : s.pool.count = xs.length
  tail : s.pool.tail = (s.pool.head + xs.length) % s.pool.queueSize
  order : s.begun ++ xs.map some = s.accepted.map some

/-- The invariant of the queue. -/
def QueueOk (s : State) : Prop := ∃ xs, QueueHolds s xs

/-- A step that leaves the queue and what went through it alone. -/
theorem QueueHolds.frame {xs : List Task} (h : QueueHolds s xs)
    (hqueue : t.pool.queue = s.pool.queue) (hsize : t.pool.queueSize = s.pool.queueSize)
    (hhead : t.pool.head = s.pool.head) (htail : t.pool.tail = s.pool.tail)
    (hcount : t.pool.count = s.pool.count) (hbegun : t.begun = s.begun)
    (haccepted : t.accepted = s.accepted) : QueueHolds t xs where
  size := by rw [hqueue, hsize, h.size]
  ring := by rw [hqueue, hhead]; exact h.ring
  count := by rw [hcount, h.count]
  tail := by rw [htail, hhead, hsize, h.tail]
  order := by rw [hbegun, haccepted, h.order]

theorem QueueHolds.pushed {xs : List Task} (h : QueueHolds s xs)
    (hroom : s.pool.count ≠ s.pool.queueSize) (task : Task) (workers : List WorkerPc) :
    QueueHolds
      { s with pool := s.pool.pushed task, workers, accepted := s.accepted ++ [task] }
      (xs ++ [task]) := by
  have hle := h.ring.length_le
  rw [List.length_map, h.size, ← h.count] at hle
  have hlt : (xs.map some).length < s.pool.queue.length := by
    rw [List.length_map, h.size, ← h.count]
    omega
  have hpush := h.ring.push hlt (some task)
  rw [List.length_map, h.size, ← h.tail] at hpush
  constructor
  · simpa [Pool.pushed] using h.size
  · simpa [Pool.pushed] using hpush
  · simp [Pool.pushed, h.count]
  · simp only [Pool.pushed, List.length_append, List.length_singleton]
    rw [h.tail, Nat.mod_add_mod, Nat.add_assoc]
  · rw [List.map_append, ← List.append_assoc, h.order, List.map_append]

theorem QueueHolds.popped {xs : List Task} {task : Task} (h : QueueHolds s (task :: xs))
    (workers : List WorkerPc) :
    s.pool.front = some task ∧
    QueueHolds
      { s with pool := s.pool.popped, workers, begun := s.begun ++ [s.pool.front] } xs := by
  have hring := h.ring
  rw [List.map_cons] at hring
  have hfront : s.pool.front = some task := by
    rw [Pool.front, hring.front]
    rfl
  refine ⟨hfront, ?_⟩
  constructor
  · exact h.size
  · have hpop := hring.pop
    rw [h.size] at hpop
    exact hpop
  · simp [Pool.popped, h.count]
  · simp only [Pool.popped]
    rw [h.tail, Nat.mod_add_mod, List.length_cons, Nat.add_assoc, Nat.add_comm 1]
  · rw [hfront, List.append_assoc, ← h.order]
    rfl

theorem QueueOk.step (h : QueueOk s) (hstep : step s a = some t) : QueueOk t := by
  obtain ⟨xs, h⟩ := h
  cases stepTo_of_step hstep with
  | accept task woken workers husable hfree hroom hrun hsignal =>
    exact ⟨_, h.pushed hroom task workers⟩
  | take i hi hfree hcount hrun =>
    cases xs with
    | nil => exact absurd h.count hcount
    | cons task xs => exact ⟨xs, (h.popped _).2⟩
  | reject => exact ⟨xs, h⟩
  | spawn => exact ⟨xs, h.frame rfl rfl rfl rfl rfl rfl rfl⟩
  | wait => exact ⟨xs, h.frame rfl rfl rfl rfl rfl rfl rfl⟩
  | exit => exact ⟨xs, h.frame rfl rfl rfl rfl rfl rfl rfl⟩
  | finish => exact ⟨xs, h.frame rfl rfl rfl rfl rfl rfl rfl⟩
  | wakeWorker => exact ⟨xs, h.frame rfl rfl rfl rfl rfl rfl rfl⟩
  | destroy => exact ⟨xs, h.frame rfl rfl rfl rfl rfl rfl rfl⟩
  | destroyAgain => exact ⟨xs, h.frame rfl rfl rfl rfl rfl rfl rfl⟩
  | join => exact ⟨xs, h.frame rfl rfl rfl rfl rfl rfl rfl⟩
  | joined => exact ⟨xs, h.frame rfl rfl rfl rfl rfl rfl rfl⟩
  | keep => exact ⟨xs, h.frame rfl rfl rfl rfl rfl rfl rfl⟩
  | freeArrays => exact ⟨xs, h.frame rfl rfl rfl rfl rfl rfl rfl⟩
  | freePool => exact ⟨xs, h.frame rfl rfl rfl rfl rfl rfl rfl⟩

theorem queueOk_of_threadpoolCreate {threadCount queueSize : Int}
    (h : threadpoolCreate threadCount queueSize = some s) : QueueOk s := by
  unfold threadpoolCreate at h
  split at h
  · cases h
  · next hargs =>
    cases h
    refine ⟨[], ?_, ?_, rfl, ?_, rfl⟩
    · exact List.length_replicate
    · refine RingQueue.holds_nil ?_
      rw [List.length_replicate]
      change 0 < queueSize.toNat
      omega
    · rfl

/-- The cells between `head` and `tail` hold the tasks of the abstract queue. -/
theorem QueueHolds.pending_eq {xs : List Task} (h : QueueHolds s xs) :
    s.pool.pending = xs.map some := by
  refine List.ext_getElem? fun k => ?_
  unfold Pool.pending
  rw [List.getElem?_map, List.getElem?_map]
  by_cases hk : k < xs.length
  · have hcell := h.ring.cell k (by rwa [List.length_map])
    rw [h.size, List.getElem?_map, List.getElem?_eq_getElem hk] at hcell
    rw [h.count, List.getElem?_range hk, Option.map_some, hcell, List.getElem?_eq_getElem hk]
    rfl
  · rw [List.getElem?_eq_none (by rw [List.length_range, h.count]; omega),
      List.getElem?_eq_none (by omega)]
    rfl

/-- `queue_size` never changes. -/
theorem queueSize_step (hstep : step s a = some t) : t.pool.queueSize = s.pool.queueSize := by
  cases stepTo_of_step hstep <;> rfl

theorem queueSize_of_exec {threadCount queueSize : Int} {as : List Act}
    (hcreate : threadpoolCreate threadCount queueSize = some s) (hrun : exec step s as = some t) :
    (t.pool.queueSize : Int) = queueSize := by
  have hkept : t.pool.queueSize = s.pool.queueSize :=
    exec_invariant (I := fun u => u.pool.queueSize = s.pool.queueSize)
      (fun u b v hu hv => (queueSize_step hv).trans hu) rfl hrun
  unfold threadpoolCreate at hcreate
  split at hcreate
  · cases hcreate
  · cases hcreate
    rw [hkept]
    change (queueSize.toNat : Int) = queueSize
    omega

/-- In every run the cells that the workers have read, followed by those between `head` and
`tail`, are the accepted tasks in the order of the calls: no cell is read before it is written, no
task is lost, doubled or overtaken. A call is told that the queue is full exactly when
`queue_size` accepted tasks have not been begun, shutting down or not. -/
theorem queue_is_fifo {threadCount queueSize : Int} {as : List Act}
    (hcreate : threadpoolCreate threadCount queueSize = some s) (hrun : exec step s as = some t) :
    t.begun ++ t.pool.pending = t.accepted.map some ∧
    (t.accepted.length : Int) ≤ t.begun.length + queueSize ∧
    ∀ task : Task, task.function ≠ 0 →
      ((threadpoolEnqueue t.pool task).2 = threadpoolQueueFull ↔
        (t.accepted.length : Int) = t.begun.length + queueSize) := by
  have hok : QueueOk t :=
    exec_invariant (fun u b v hu hv => hu.step hv) (queueOk_of_threadpoolCreate hcreate) hrun
  obtain ⟨xs, h⟩ := hok
  have hsize := queueSize_of_exec hcreate hrun
  have hlen : t.begun.length + xs.length = t.accepted.length := by
    simpa using congrArg List.length h.order
  have hle : t.pool.count ≤ t.pool.queueSize := by
    have hle := h.ring.length_le
    rwa [List.length_map, h.size, ← h.count] at hle
  have hcount := h.count
  refine ⟨by rw [h.pending_eq, h.order], by omega, fun task hnull => ?_⟩
  unfold threadpoolEnqueue
  rw [if_neg hnull]
  split
  · next hfull => exact iff_of_true rfl (by omega)
  · next hroom =>
    refine iff_of_false ?_ (by omega)
    split
    · simp [threadpoolShutdown, threadpoolQueueFull]
    · simp [threadpoolQueueFull]

/-- A pool of one worker and one cell, before its worker is started. -/
def oneCell : State := { pool := { queue := [none], queueSize := 1 }, creation := .starting 1 }

theorem oneCell_created : threadpoolCreate 1 1 = some oneCell := rfl

/-- The second call is refused while the first task is waiting, and accepted once the worker has
taken it. -/
def oneCellRun : List Act :=
  [.createThread true, .enqueue ⟨1, 7⟩ none, .enqueue ⟨1, 8⟩ none, .worker 0,
    .enqueue ⟨1, 8⟩ none]

theorem queue_is_fifo_one_cell :
    ∃ s t, threadpoolCreate 1 1 = some s ∧ exec step s oneCellRun = some t ∧
      t.accepted = [⟨1, 7⟩, ⟨1, 8⟩] ∧ t.begun ++ t.pool.pending = t.accepted.map some := by
  have hends : ∃ t, exec step oneCell oneCellRun = some t ∧ t.accepted = [⟨1, 7⟩, ⟨1, 8⟩] :=
    exists_exec_of_decide (by decide)
  obtain ⟨t, hrun, haccepted⟩ := hends
  exact ⟨_, t, oneCell_created, hrun, haccepted, (queue_is_fifo oneCell_created hrun).1⟩

end Sparo.ThirdParty.Threadpool
