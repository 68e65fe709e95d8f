import Sparo.Base.Task.TaskLoop
import Mathlib.Algebra.Order.Group.Multiset
import Mathlib.Tactic.Abel

/-!
# The flow of tasks

What the task loop is for, without its threads: tasks come in, move to the worker's queue by
an exchange of the two queues, and are taken from its front one by one, to be run or, if they
have no function, to be dropped. The posted tasks are conserved by every move. They are also
run in their order, if no exchange finds something to run in both queues.
-/

namespace Sparo.Base.TaskLoop

variable {F : Type}

/-- Where the tasks are, as lists. -/
@[ext] structure Flow (F : Type) where
  incoming : List (Posted F)
  work : List (Posted F)
  current : List (Posted F)
  posted : List (Posted F)
  ran : List (Posted F)
  nulls : List (Posted F)

namespace Flow

variable {mayExchange : Flow F → Prop} {v w : Flow F}

/-- One move of a task, or none. `mayExchange` restricts the states in which the queues are
exchanged. -/
inductive Move (mayExchange : Flow F → Prop) (v : Flow F) : Flow F → Prop where
  | stay : Move mayExchange v v
  | post (task : Task F) :
      Move mayExchange v
        { v with
          incoming := v.incoming ++ [⟨v.posted.length, task⟩]
          posted := v.posted ++ [⟨v.posted.length, task⟩] }
  | exchange (hcurrent : v.current = []) (hok : mayExchange v) :
      Move mayExchange v { v with incoming := v.work, work := v.incoming }
  | run (e : Posted F) (rest : List (Posted F)) (hcurrent : v.current = [])
      (hwork : v.work = e :: rest) (hfunc : e.task.func.isSome = true) :
      Move mayExchange v { v with work := rest, current := [e] }
  | drop (e : Posted F) (rest : List (Posted F)) (hcurrent : v.current = [])
      (hwork : v.work = e :: rest) (hfunc : e.task.func.isSome = false) :
      Move mayExchange v { v with work := rest, nulls := v.nulls ++ [e] }
  | finish (e : Posted F) (hcurrent : v.current = [e]) :
      Move mayExchange v { v with current := [], ran := v.ran ++ [e] }

/-- Every posted task is in exactly one place, and only tasks with a function are run. -/
structure Conserved (v : Flow F) : Prop where
  split : (v.posted : Multiset (Posted F)) = v.incoming + v.work + v.current + v.ran + v.nulls
  tickets : v.posted.map Posted.ticket = List.range v.posted.length
  executed : ∀ e ∈ v.ran ++ v.current, e.task.func.isSome = true
  nulls : ∀ e ∈ v.nulls, e.task.func = none

theorem conserved_move (h : Conserved v) (hmove : Move mayExchange v w) : Conserved w := by
  have hsplit := h.split
  have hexecuted := h.executed
  cases hmove with
  | stay => exact h
  | post task =>
    refine ⟨?_, ?_, hexecuted, h.nulls⟩
    · simp only [← Multiset.coe_add, hsplit]
      abel
    · simp [h.tickets, List.range_succ]
  | exchange hcurrent hok =>
    refine ⟨?_, h.tickets, hexecuted, h.nulls⟩
    rw [hsplit]
    abel
  | run e rest hcurrent hwork hfunc =>
    refine ⟨?_, h.tickets, ?_, h.nulls⟩
    · rw [hsplit, hwork, hcurrent, ← Multiset.cons_coe, ← Multiset.singleton_add,
        Multiset.coe_nil, Multiset.coe_singleton]
      abel
    · rw [hcurrent, List.append_nil] at hexecuted
      intro e' he'
      rcases List.mem_append.1 he' with hran | hcur
      · exact hexecuted e' hran
      · obtain rfl : e' = e := by simpa using hcur
        exact hfunc
  | drop e rest hcurrent hwork hfunc =>
    refine ⟨?_, h.tickets, hexecuted, ?_⟩
    · rw [hsplit, hwork, ← Multiset.cons_coe, ← Multiset.singleton_add, ← Multiset.coe_add,
        Multiset.coe_singleton]
      abel
    · intro e' he'
      rcases List.mem_append.1 he' with hold | hnew
      · exact h.nulls e' hold
      · obtain rfl : e' = e := by simpa using hnew
        simpa using hfunc
  | finish e hcurrent =>
    refine ⟨?_, h.tickets, ?_, h.nulls⟩
    · rw [hsplit, hcurrent, ← Multiset.coe_add, Multiset.coe_nil]
      abel
    · rw [hcurrent] at hexecuted
      simpa using hexecuted

/-- No call's task is in two places, or twice in one. -/
theorem Conserved.nodup (h : Conserved v) :
    (v.incoming ++ v.work ++ v.current ++ v.ran ++ v.nulls).Nodup := by
  have hposted : v.posted.Nodup := by
    apply List.Nodup.of_map Posted.ticket
    rw [h.tickets]
    exact List.nodup_range
  have hperm := h.split
  simp only [Multiset.coe_add, Multiset.coe_eq_coe] at hperm
  exact hperm.nodup_iff.1 hposted

/-- The tasks that were called, then those in the worker's queue, then the incoming ones, are
the posted tasks in their order. -/
def InOrder (v : Flow F) : Prop :=
  nonNull v.posted = v.ran ++ v.current ++ nonNull v.work ++ nonNull v.incoming

/-- One of the two queues has nothing to run. -/
def OneSided (v : Flow F) : Prop := nonNull v.work = [] ∨ nonNull v.incoming = []

theorem nonNull_append (xs ys : List (Posted F)) :
    nonNull (xs ++ ys) = nonNull xs ++ nonNull ys :=
  List.filter_append xs ys

theorem inOrder_move (h : InOrder v) (hmove : Move OneSided v w) : InOrder w := by
  unfold InOrder at h ⊢
  cases hmove with
  | stay => exact h
  | post task => simp only [nonNull_append, h, List.append_assoc]
  | exchange hcurrent hok =>
    rcases hok with hnil | hnil <;> rw [hnil] at h <;> simpa [hnil] using h
  | run e rest hcurrent hwork hfunc =>
    have hnonNull : nonNull v.work = e :: nonNull rest := by
      rw [hwork]
      exact List.filter_cons_of_pos hfunc
    rw [hcurrent, hnonNull] at h
    simpa using h
  | drop e rest hcurrent hwork hfunc =>
    have hnonNull : nonNull v.work = nonNull rest := by
      rw [hwork]
      exact List.filter_cons_of_neg (by simp [hfunc])
    rw [hnonNull] at h
    exact h
  | finish e hcurrent =>
    rw [hcurrent] at h
    simpa using h

end Flow

/-- The flow of tasks of a state of the loop. -/
def State.flow (s : State F) : Flow F where
  incoming := s.incomingTaskQueue.toList
  work := s.workQueue.toList
  current := s.current
  posted := s.posted
  ran := s.ran
  nulls := s.nulls

end Sparo.Base.TaskLoop
