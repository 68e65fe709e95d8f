import Sparo.ThirdParty.Proofs.ThreadpoolDestroy

/-!
# What a call of `threadpool_destroy` may promise

The call that shut the pool down returns 0 when it has joined every worker and freed the pool; a
call that comes later is refused and leaves the lock held, and from then on the pool stands still.
-/

namespace Sparo.ThirdParty.Threadpool

open StepSystem ThreadSum

variable {s t u : State} {a : Act}

/-- What holds in every state of every run. -/
structure Ok (s : State) : Prop where
  queue : QueueOk s
  workers : WorkersOk s
  destroy : DestroyOk s

theorem Ok.step (h : Ok s) (hstep : step s a = some t) : Ok t :=
  ⟨h.queue.step hstep, h.workers.step hstep, h.destroy.step h.workers hstep⟩

theorem ok_of_exec {threadCount queueSize : Int} {as : List Act}
    (hcreate : threadpoolCreate threadCount queueSize = some s) (hrun : exec step s as = some t) :
    Ok t :=
  exec_invariant (fun _ _ _ hu hv => hu.step hv)
    ⟨queueOk_of_threadpoolCreate hcreate, WorkersOk.init hcreate, DestroyOk.init hcreate⟩ hrun

/-- Every worker has exited. -/
def State.deserted (s : State) : Prop := ∀ pc ∈ s.workers, pc = .exited

theorem deserted_of_joined (hall : ∀ k < s.workers.length, s.workers[k]? = some .exited) :
    s.deserted := by
  intro pc hpc
  obtain ⟨k, hk, rfl⟩ := List.mem_iff_getElem.1 hpc
  have hexited := hall k hk
  rw [List.getElem?_eq_getElem hk] at hexited
  exact Option.some.inj hexited

theorem DestroyOk.deserted (h : DestroyOk s) {pc : DestroyerPc} (hpc : pc ∈ s.destroyers)
    (hjoined : pc.joined s.workers.length = s.workers.length) : s.deserted := by
  obtain ⟨-, hall⟩ := h.joined pc hpc
  rw [hjoined] at hall
  exact deserted_of_joined hall

/-- Nobody has a task in hand when everybody has gone. -/
theorem WorkersOk.finished_perm (h : WorkersOk s) (hgone : s.deserted) :
    s.finished.Perm s.begun := by
  have hzero : total WorkerPc.inHand s.workers = 0 := by
    rw [total]
    refine List.sum_eq_zero fun m hm => ?_
    obtain ⟨pc, hpc, rfl⟩ := List.mem_map.1 hm
    rw [hgone pc hpc]
    rfl
  have htasks := h.tasks
  rw [hzero, add_zero] at htasks
  exact (Multiset.coe_eq_coe.1 htasks).symm

/-- Everybody has gone from a graceful shutdown only when the queue is empty. -/
theorem Ok.count_eq_zero (h : Ok s) (hgone : s.deserted)
    (hgraceful : s.pool.shutdown = .gracefulShutdown) : s.pool.count = 0 := by
  obtain ⟨pc, hpc⟩ := List.exists_mem_of_ne_nil _ (h.destroy.graceful hgraceful)
  have hle := le_total (f := WorkerPc.gone) hpc
  rw [hgone pc hpc] at hle
  exact (h.workers.leaving hle).2 hgraceful

/-- With an empty queue, what was begun is what was accepted. -/
theorem QueueOk.begun_eq (h : QueueOk s) (hcount : s.pool.count = 0) :
    s.begun = s.accepted.map some := by
  obtain ⟨xs, h⟩ := h
  have hnil : xs = [] := List.length_eq_zero_iff.1 (h.count.symm.trans hcount)
  rw [← h.order, hnil, List.map_nil, List.append_nil]

theorem DestroyerPc.freedPool_le (pc : DestroyerPc) : pc.freedPool ≤ pc.freedArrays := by
  cases pc with
  | returned err => exact le_rfl
  | join i => exact le_rfl
  | free => exact le_rfl
  | freeLock => exact Nat.zero_le 1

theorem DestroyerPc.freedArrays_le (pc : DestroyerPc) : pc.freedArrays ≤ pc.owning := by
  cases pc with
  | returned err => exact le_rfl
  | join i => exact Nat.zero_le 1
  | free => exact Nat.zero_le 1
  | freeLock => exact le_rfl

/-- The pool is freed by calls that return 0, each once. -/
theorem total_freedPool (ds : List DestroyerPc) :
    total DestroyerPc.freedPool ds = ds.count (.returned 0) := by
  induction ds with
  | nil => rfl
  | cons pc ds ih =>
    have hcons : total DestroyerPc.freedPool (pc :: ds) =
        pc.freedPool + total DestroyerPc.freedPool ds := List.sum_cons
    have hpc : pc.freedPool = if pc = .returned 0 then 1 else 0 := by
      cases pc <;> simp [DestroyerPc.freedPool]
    rw [hcons, ih, hpc, List.count_cons, Nat.add_comm]
    simp only [beq_iff_eq]

/-- `threads` and `queue` are freed before the pool, and at most once. -/
theorem DestroyOk.freed_le (h : DestroyOk s) : s.poolFreed ≤ s.arraysFreed ∧ s.arraysFreed ≤ 1 := by
  rw [h.freed, h.arrays]
  refine ⟨total_le_total DestroyerPc.freedPool_le _, ?_⟩
  have howning := total_le_total DestroyerPc.freedArrays_le s.destroyers
  by_cases hrun : s.pool.shutdown = .notRequested
  · rw [h.quiet hrun]
    exact Nat.zero_le 1
  · rw [h.owner hrun] at howning
    exact howning

/-- Whoever has freed anything had joined every worker. -/
theorem Ok.deserted_of_freed (h : Ok s) (hfreed : 0 < s.arraysFreed) : s.deserted := by
  have hne : total DestroyerPc.freedArrays s.destroyers ≠ 0 := by
    rw [← h.destroy.arrays]
    omega
  obtain ⟨pc, hpc, hfreed⟩ : ∃ pc ∈ s.destroyers, pc.freedArrays ≠ 0 := by
    by_contra hnone
    push Not at hnone
    exact hne (total_eq_zero_iff.2 hnone)
  refine h.destroy.deserted hpc ?_
  cases pc with
  | join i => exact absurd rfl hfreed
  | free => exact absurd rfl hfreed
  | freeLock => rfl
  | returned err =>
    by_cases herr : err = 0
    · exact if_pos herr
    · exact absurd (if_neg herr) hfreed

/-- A `threadpool_destroy` that has returned 0 has waited for every worker, has freed the pool, and
every task that was begun has finished; a graceful one has executed every task that was ever
accepted, exactly once. -/
theorem destroy_returns_when_done {threadCount queueSize : Int} {as : List Act}
    (hcreate : threadpoolCreate threadCount queueSize = some s) (hrun : exec step s as = some t)
    (hreturned : DestroyerPc.returned 0 ∈ t.destroyers) :
    (∀ pc ∈ t.workers, pc = .exited) ∧ t.arraysFreed = 1 ∧ t.poolFreed = 1 ∧
    t.finished.Perm t.begun ∧
    (t.pool.shutdown = .gracefulShutdown → t.finished.Perm (t.accepted.map some)) := by
  have h := ok_of_exec hcreate hrun
  have hgone : t.deserted := h.destroy.deserted hreturned rfl
  have hperm := h.workers.finished_perm hgone
  have hfreed : 1 ≤ t.poolFreed := by
    rw [h.destroy.freed]
    exact le_total (f := DestroyerPc.freedPool) hreturned
  have hle := h.destroy.freed_le
  refine ⟨hgone, by omega, by omega, hperm, fun hgraceful => ?_⟩
  rw [← h.queue.begun_eq (h.count_eq_zero hgone hgraceful)]
  exact hperm

/-- A graceful shutdown with a task in the queue: the worker executes it, exits and is joined. -/
def gracefulRun : List Act :=
  [.createThread true, .enqueue ⟨1, 7⟩ none, .destroy 1, .worker 0, .worker 0, .worker 0,
    .destroyer 0, .destroyer 0, .destroyer 0, .destroyer 0]

theorem destroy_returns_when_done_graceful :
    ∃ s t, threadpoolCreate 1 1 = some s ∧ exec step s gracefulRun = some t ∧
      t.finished.Perm [some ⟨1, 7⟩] ∧ t.poolFreed = 1 := by
  have hends : ∃ t, exec step oneCell gracefulRun = some t ∧
      DestroyerPc.returned 0 ∈ t.destroyers ∧ t.pool.shutdown = .gracefulShutdown ∧
      t.accepted = [⟨1, 7⟩] := exists_exec_of_decide (by decide)
  obtain ⟨t, hrun, hreturned, hgraceful, haccepted⟩ := hends
  obtain ⟨-, -, hfreed, -, hperm⟩ := destroy_returns_when_done oneCell_created hrun hreturned
  have hfinished := hperm hgraceful
  rw [haccepted] at hfinished
  exact ⟨_, t, oneCell_created, hrun, hfinished, hfreed⟩

/-- In every run the pool is freed at most once, by the one call that returns 0, after `threads` and
`queue`; and from the first of these on every worker has exited, `started` is 0 and no step of
anyone changes the pool or puts a worker back to work. -/
theorem pool_freed_once {threadCount queueSize : Int} {as : List Act}
    (hcreate : threadpoolCreate threadCount queueSize = some s) (hrun : exec step s as = some t) :
    t.poolFreed ≤ t.arraysFreed ∧ t.arraysFreed ≤ 1 ∧
    t.poolFreed = t.destroyers.count (.returned 0) ∧
    (0 < t.arraysFreed →
      (∀ pc ∈ t.workers, pc = .exited) ∧ t.pool.started = 0 ∧
      ∀ a u, step t a = some u → u.pool = t.pool ∧ u.workers = t.workers) := by
  have h := ok_of_exec hcreate hrun
  have hle := h.destroy.freed_le
  refine ⟨hle.1, hle.2, h.destroy.freed.trans (total_freedPool _), fun hfreed => ?_⟩
  have hgone := h.deserted_of_freed hfreed
  have hshut : t.pool.shutdown ≠ .notRequested := by
    intro hquiet
    rw [h.destroy.arrays, h.destroy.quiet hquiet] at hfreed
    exact lt_irrefl 0 hfreed
  have hnobody : ∀ {i : Nat} {pc : WorkerPc}, t.workers[i]? = some pc → pc = .exited :=
    fun hi => hgone _ (List.mem_of_getElem? hi)
  refine ⟨hgone, started_of_exited h.workers fun k hk => ?_, fun a u hstep => ?_⟩
  · rw [List.getElem?_eq_getElem hk, hgone _ (List.getElem_mem hk)]
  · cases stepTo_of_step hstep with
    | spawn left hleft => exact absurd (h.workers.creating left hleft) hshut
    | reject => exact ⟨rfl, rfl⟩
    | accept task woken workers husable hfree hroom hrun => exact absurd hrun hshut
    | wait i hi => cases hnobody hi
    | exit i hi => cases hnobody hi
    | take i hi => cases hnobody hi
    | finish i task hi => cases hnobody hi
    | wakeWorker i hi => cases hnobody hi
    | destroy _ flags creation hd hfree hrun => exact absurd hrun hshut
    | destroyAgain => exact ⟨rfl, rfl⟩
    | join => exact ⟨rfl, rfl⟩
    | joined => exact ⟨rfl, rfl⟩
    | keep => exact ⟨rfl, rfl⟩
    | freeArrays => exact ⟨rfl, rfl⟩
    | freePool => exact ⟨rfl, rfl⟩

theorem pool_freed_once_graceful :
    ∃ s t, threadpoolCreate 1 1 = some s ∧ exec step s gracefulRun = some t ∧
      t.poolFreed = t.destroyers.count (.returned 0) ∧ t.pool.started = 0 := by
  have hends : ∃ t, exec step oneCell gracefulRun = some t ∧ 0 < t.arraysFreed :=
    exists_exec_of_decide (by decide)
  obtain ⟨t, hrun, hfreed⟩ := hends
  obtain ⟨-, -, hcount, hgone⟩ := pool_freed_once oneCell_created hrun
  exact ⟨_, t, oneCell_created, hrun, hcount, (hgone hfreed).2.1⟩

/-! ## The refused call -/

/-- A call that is refused finds the pool there, and nobody frees it without the lock. -/
theorem unfreed_step (h : Ok s) (hs : s.mutexHeld = true → s.poolFreed = 0)
    (hstep : step s a = some t) : t.mutexHeld = true → t.poolFreed = 0 := by
  cases stepTo_of_step hstep with
  | destroyAgain _ flags creation hd hfree hrun =>
    intro _
    cases hd with
    | call _ husable =>
      simp only [State.usable, Bool.and_eq_true, decide_eq_true_eq] at husable
      exact husable.2
    | create left hleft => exact absurd (h.workers.creating left hleft) hrun
  | freePool j hj hfree =>
    intro hheld
    rw [show s.mutexHeld = true from hheld] at hfree
    cases hfree
  | _ => exact hs

/-- What a pool whose lock is held for ever keeps. -/
structure Frozen (t u : State) : Prop where
  held : u.mutexHeld = true
  begun : u.begun = t.begun
  accepted : u.accepted = t.accepted
  poolFreed : u.poolFreed = t.poolFreed
  exited : ∀ i : Nat, u.workers[i]? = some .exited → t.workers[i]? = some .exited

/-- Nothing that needs the lock is enabled without it. -/
theorem Frozen.step (h : Frozen s t) (hok : Ok t) (hstep : step t a = some u) : Frozen s u := by
  have hlocked : ∀ {p : Prop}, t.mutexHeld = false → p := by
    intro p hfree
    rw [h.held] at hfree
    cases hfree
  have hmoved : ∀ {i k : Nat} {pc pc' : WorkerPc}, t.workers[i]? = some pc → pc' ≠ .exited →
      (t.workers.set i pc')[k]? = some .exited → t.workers[k]? = some .exited := by
    intro i k pc pc' hi hpc' hk
    by_cases hik : i = k
    · subst hik
      obtain ⟨hlt, -⟩ := List.getElem?_eq_some_iff.1 hi
      rw [List.getElem?_set_self hlt] at hk
      exact absurd (Option.some.inj hk) hpc'
    · rwa [List.getElem?_set_ne hik] at hk
  cases stepTo_of_step hstep with
  | spawn left hleft =>
    have hrun := hok.workers.creating left hleft
    have hheld := hok.destroy.held
    rw [hok.destroy.quiet hrun, h.held] at hheld
    cases hheld
  | reject => exact h
  | accept task woken workers husable hfree => exact hlocked hfree
  | wait i hi hfree => exact hlocked hfree
  | exit i hi hfree => exact hlocked hfree
  | take i hi hfree => exact hlocked hfree
  | finish i task hi =>
    exact { h with exited := fun k hk => h.exited k (hmoved hi (by decide) hk) }
  | wakeWorker i hi =>
    exact { h with exited := fun k hk => h.exited k (hmoved hi (by decide) hk) }
  | destroy _ flags creation hd hfree => exact hlocked hfree
  | destroyAgain _ flags creation hd hfree => exact hlocked hfree
  | join => exact { h with }
  | joined => exact { h with }
  | keep => exact { h with }
  | freeArrays => exact { h with }
  | freePool j hj hfree => exact hlocked hfree

/-- Once a call of `threadpool_destroy` has returned `threadpool_shutdown`, in whatever state the
pool is and whatever happens next: no task is accepted or begun any more, no further worker
exits, the pool is never freed and no call ever returns 0. -/
theorem refused_destroy_freezes {threadCount queueSize : Int} {as bs : List Act}
    (hcreate : threadpoolCreate threadCount queueSize = some s) (hrun : exec step s as = some t)
    (hrefused : DestroyerPc.returned threadpoolShutdown ∈ t.destroyers)
    (hlater : exec step t bs = some u) :
    u.begun = t.begun ∧ u.accepted = t.accepted ∧ u.poolFreed = 0 ∧
    DestroyerPc.returned 0 ∉ u.destroyers ∧
    ∀ i : Nat, u.workers[i]? = some .exited → t.workers[i]? = some .exited := by
  have hok := ok_of_exec hcreate hrun
  have hheld : t.mutexHeld = true := by
    have hle := le_total (f := DestroyerPc.refused) hrefused
    rw [hok.destroy.held] at hle
    by_contra hfree
    rw [if_neg hfree] at hle
    exact absurd hle (by decide)
  have hunfreed : t.mutexHeld = true → t.poolFreed = 0 := by
    have hinv : Ok t ∧ (t.mutexHeld = true → t.poolFreed = 0) := by
      refine exec_invariant (I := fun v => Ok v ∧ (v.mutexHeld = true → v.poolFreed = 0))
        (fun v b w hv hw => ⟨hv.1.step hw, unfreed_step hv.1 hv.2 hw⟩)
        ⟨ok_of_exec hcreate (exec_nil s), fun _ => ?_⟩ hrun
      unfold threadpoolCreate at hcreate
      split at hcreate
      · cases hcreate
      · cases hcreate
        rfl
    exact hinv.2
  have hfrozen : Ok u ∧ Frozen t u :=
    exec_invariant (I := fun v => Ok v ∧ Frozen t v)
      (fun v b w hv hw => ⟨hv.1.step hw, hv.2.step hv.1 hw⟩)
      ⟨hok, hheld, rfl, rfl, rfl, fun _ hi => hi⟩ hlater
  obtain ⟨hok', h⟩ := hfrozen
  have hzero : u.poolFreed = 0 := h.poolFreed.trans (hunfreed hheld)
  refine ⟨h.begun, h.accepted, hzero, fun hreturned => ?_, h.exited⟩
  have hle := le_total (f := DestroyerPc.freedPool) hreturned
  rw [← hok'.destroy.freed, hzero] at hle
  exact absurd hle (by decide)

/-- The second call while the worker executes its task: the worker finishes it and never exits, and
the first call never gets past it. -/
theorem refused_destroy_freezes_second_call :
    ∃ s t u, threadpoolCreate 1 1 = some s ∧
      exec step s [.createThread true, .enqueue ⟨1, 7⟩ none, .worker 0, .destroy 1, .destroy 1] =
        some t ∧
      exec step t [.worker 0] = some u ∧ u.poolFreed = 0 ∧
      DestroyerPc.returned 0 ∉ u.destroyers := by
  have hends : ∃ t, exec step oneCell
      [.createThread true, .enqueue ⟨1, 7⟩ none, .worker 0, .destroy 1, .destroy 1] = some t ∧
      DestroyerPc.returned threadpoolShutdown ∈ t.destroyers ∧
      (exec step t [.worker 0]).isSome = true := exists_exec_of_decide (by decide)
  obtain ⟨t, hrun, hrefused, hsome⟩ := hends
  obtain ⟨u, hlater⟩ := Option.isSome_iff_exists.1 hsome
  obtain ⟨-, -, hunfreed, hnone, -⟩ :=
    refused_destroy_freezes oneCell_created hrun hrefused hlater
  exact ⟨_, t, u, oneCell_created, hrun, hlater, hunfreed, hnone⟩

end Sparo.ThirdParty.Threadpool
