import Sparo.Base.ThreadPool
import Sparo.Misc.ThreadSum
import Mathlib.Data.Multiset.OrderedMonoid

/-!
# The ledger of tasks

What `active_tasks_` counts, without the threads: a task is pushed and counted, taken by a
worker, executed, and then subtracted again; a worker that finds `should_quit_` set gives its
task up, and the task stays counted. On every sequence of such moves the counter is the
number of tasks that are queued, in a worker's hands or given up.
-/

namespace Sparo.Base.ThreadPool

open ThreadSum

/-- Where the tasks are. -/
@[ext] structure Ledger where
  enqueued : List Enqueued
  queued : List Enqueued
  /-- Taken by a worker and not yet executed. -/
  pending : Multiset Enqueued
  /-- Executed and not yet subtracted from the counter. -/
  unsettled : Multiset Enqueued
  executed : List Enqueued
  settled : List Enqueued
  dropped : List Enqueued
  active : Nat

namespace Ledger

variable {l m : Ledger}

/-- One move of a task, or none. -/
inductive Move (l : Ledger) : Ledger → Prop where
  | stay : Move l l
  | enqueue (task : Task) :
      Move l { l with
        enqueued := l.enqueued ++ [⟨l.enqueued.length, task⟩]
        queued := l.queued ++ [⟨l.enqueued.length, task⟩]
        active := l.active + 1 }
  | take (e : Enqueued) (rest : List Enqueued) (pending : Multiset Enqueued)
      (hqueued : l.queued = e :: rest) (hpending : pending = {e} + l.pending) :
      Move l { l with queued := rest, pending }
  | drop (e : Enqueued) (pending : Multiset Enqueued) (hpending : {e} + pending = l.pending) :
      Move l { l with pending, dropped := l.dropped ++ [e] }
  | execute (e : Enqueued) (pending unsettled : Multiset Enqueued)
      (hpending : {e} + pending = l.pending) (hunsettled : unsettled = {e} + l.unsettled) :
      Move l { l with pending, unsettled, executed := l.executed ++ [e] }
  | settle (e : Enqueued) (unsettled : Multiset Enqueued)
      (hunsettled : {e} + unsettled = l.unsettled) :
      Move l { l with
        unsettled
        settled := l.settled ++ [e]
        active := decrementSize l.active }

/-- The tasks are split among the places, and the counter agrees with that. -/
structure Balanced (l : Ledger) : Prop where
  split : (l.enqueued : Multiset Enqueued) =
    l.queued + l.pending + l.unsettled + l.settled + l.dropped
  executed : (l.executed : Multiset Enqueued) = l.unsettled + l.settled
  active : l.active =
    l.queued.length + l.pending.card + l.unsettled.card + l.dropped.length
  tickets : l.enqueued.map Enqueued.ticket = List.range l.enqueued.length

theorem balanced_move (h : Balanced l) (hmove : Move l m) : Balanced m := by
  obtain ⟨hsplit, hexecuted, hactive, htickets⟩ := h
  cases hmove with
  | stay => exact ⟨hsplit, hexecuted, hactive, htickets⟩
  | enqueue task =>
    refine ⟨?_, hexecuted, ?_, ?_⟩
    · simp only [← Multiset.coe_add, hsplit]
      abel
    · simp only [List.length_append, List.length_singleton]
      omega
    · simp [htickets, List.range_succ]
  | take e rest pending hqueued hpending =>
    refine ⟨?_, hexecuted, ?_, htickets⟩
    · dsimp only
      rw [hsplit, hqueued, hpending, ← Multiset.cons_coe, ← Multiset.singleton_add]
      abel
    · simp only [hactive, hqueued, hpending, List.length_cons, Multiset.card_add,
        Multiset.card_singleton]
      omega
  | drop e pending hpending =>
    refine ⟨?_, hexecuted, ?_, htickets⟩
    · rw [hsplit, ← hpending, ← Multiset.coe_add, Multiset.coe_singleton]
      abel
    · simp only [hactive, ← hpending, List.length_append, List.length_singleton,
        Multiset.card_add, Multiset.card_singleton]
      omega
  | execute e pending unsettled hpending hunsettled =>
    refine ⟨?_, ?_, ?_, htickets⟩
    · dsimp only
      rw [hsplit, ← hpending, hunsettled]
      abel
    · dsimp only
      rw [← Multiset.coe_add, hexecuted, hunsettled, Multiset.coe_singleton]
      abel
    · simp only [hactive, ← hpending, hunsettled, Multiset.card_add, Multiset.card_singleton]
      omega
  | settle e unsettled hunsettled =>
    refine ⟨?_, ?_, ?_, htickets⟩
    · rw [hsplit, ← hunsettled, ← Multiset.coe_add, Multiset.coe_singleton]
      abel
    · rw [hexecuted, ← hunsettled, ← Multiset.coe_add, Multiset.coe_singleton]
      abel
    · -- the task that is subtracted was counted, so there is no underflow
      have hcard := congrArg Multiset.card hunsettled
      simp only [Multiset.card_add, Multiset.card_singleton] at hcard
      simp only [decrementSize]
      split <;> omega

theorem Balanced.enqueued_of_executed (h : Balanced l) {e : Enqueued} (he : e ∈ l.executed) :
    e ∈ l.enqueued := by
  have hmem : e ∈ (l.executed : Multiset Enqueued) := he
  rw [h.executed] at hmem
  have hall : e ∈ (l.enqueued : Multiset Enqueued) := by
    rw [h.split]
    rcases Multiset.mem_add.1 hmem with hun | hset
    · simp [hun]
    · simp [show e ∈ l.settled from hset]
  exact hall

/-- A zero counter means that nothing is queued, held or given up. -/
theorem Balanced.of_active_eq_zero (h : Balanced l) (hzero : l.active = 0) :
    l.queued = [] ∧ l.pending = 0 ∧ l.unsettled = 0 ∧ l.dropped = [] := by
  have hactive := h.active
  refine ⟨?_, ?_, ?_, ?_⟩
  · exact List.length_eq_zero_iff.1 (by omega)
  · exact Multiset.card_eq_zero.1 (by omega)
  · exact Multiset.card_eq_zero.1 (by omega)
  · exact List.length_eq_zero_iff.1 (by omega)

/-- A zero counter means that every task has been executed and subtracted. -/
theorem Balanced.all_settled (h : Balanced l) (hzero : l.active = 0) :
    (l.enqueued : Multiset Enqueued) = l.settled ∧
      (l.executed : Multiset Enqueued) = l.enqueued := by
  obtain ⟨hqueued, hpending, hunsettled, hdropped⟩ := h.of_active_eq_zero hzero
  have hsplit := h.split
  have hexecuted := h.executed
  rw [hqueued, hpending, hunsettled, hdropped] at hsplit
  rw [hunsettled] at hexecuted
  simp only [Multiset.coe_nil, zero_add, add_zero] at hsplit hexecuted
  exact ⟨hsplit, hexecuted.trans hsplit.symm⟩

end Ledger

/-- The task a worker has taken and not yet executed. -/
def WorkerPc.pending : WorkerPc → Multiset Enqueued
  | .holding e | .executing e => {e}
  | _ => 0

/-- The task a worker has executed and not yet subtracted from the counter. -/
def WorkerPc.unsettled : WorkerPc → Multiset Enqueued
  | .decrement e => {e}
  | _ => 0

/-- The ledger of a state of the pool. -/
def State.ledger (s : State) : Ledger where
  enqueued := s.enqueued
  queued := s.tasks
  pending := total WorkerPc.pending s.workers
  unsettled := total WorkerPc.unsettled s.workers
  executed := s.executed
  settled := s.settled
  dropped := s.dropped
  active := s.activeTasks

end Sparo.Base.ThreadPool
