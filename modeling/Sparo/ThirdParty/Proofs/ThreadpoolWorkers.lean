import Sparo.ThirdParty.Proofs.ThreadpoolSteps
import Mathlib.Algebra.Order.Group.Multiset

/-!
# The workers of the C thread pool

What the workers do and the pool's counters say the same: `started` counts the workers that have
not exited, a task taken out of the queue is in the hands of one worker until it is finished, and
a worker sleeps only while every task in the queue has a worker of its own on the way to the lock.
-/

namespace Sparo.ThirdParty.Threadpool

open StepSystem ThreadSum

variable {s t : State} {a : Act}

/-- 1 for a worker that has not exited. -/
def WorkerPc.live : WorkerPc → Int
  | .exited => 0
  | _ => 1

/-- 1 for a worker on its way to the lock. -/
def WorkerPc.arriving : WorkerPc → Nat
  | .lock => 1
  | _ => 0

/-- 1 for a worker blocked in `pthread_cond_wait`. -/
def WorkerPc.asleep : WorkerPc → Nat
  | .waiting => 1
  | _ => 0

/-- 1 for a worker that has exited. -/
def WorkerPc.gone : WorkerPc → Nat
  | .exited => 1
  | _ => 0

/-- What a worker has taken out of the queue and not finished. -/
def WorkerPc.inHand : WorkerPc → Multiset (Option Task)
  | .running task => {task}
  | _ => 0

@[simp] theorem WorkerPc.inHand_lock : WorkerPc.inHand .lock = 0 := rfl

@[simp] theorem WorkerPc.inHand_running (task : Option Task) :
    WorkerPc.inHand (.running task) = {task} := rfl

/-- What the workers and the pool say about each other. -/
structure WorkersOk (s : State) : Prop where
  started : s.pool.started = total WorkerPc.live s.workers
  threadCount : s.pool.threadCount = s.workers.length
  creating : ∀ left, s.creation = .starting left → s.pool.shutdown = .notRequested
  nonempty : s.creation = .created → s.workers ≠ []
  /-- Nobody sleeps through a shutdown. -/
  awake : s.pool.shutdown ≠ .notRequested → total WorkerPc.asleep s.workers = 0
  /-- No wake-up is lost. -/
  served : 0 < total WorkerPc.asleep s.workers →
    s.pool.count ≤ total WorkerPc.arriving s.workers
  /-- No worker exits before the shutdown, nor from a graceful one with tasks left. -/
  leaving : 0 < total WorkerPc.gone s.workers →
    s.pool.shutdown ≠ .notRequested ∧ (s.pool.shutdown = .gracefulShutdown → s.pool.count = 0)
  tasks : (s.begun : Multiset (Option Task)) =
    (s.finished : Multiset (Option Task)) + total WorkerPc.inHand s.workers

theorem total_asleep_eq_zero {ws : List WorkerPc} :
    total WorkerPc.asleep ws = 0 ↔ WorkerPc.waiting ∉ ws := by
  rw [total_eq_zero_iff]
  constructor
  · intro h hmem
    exact absurd (h _ hmem) (by decide)
  · intro h pc hpc
    cases pc with
    | waiting => exact absurd hpc h
    | lock => rfl
    | running task => rfl
    | exited => rfl

theorem WorkerPc.live_notified (pc : WorkerPc) : pc.notified.live = pc.live := by
  cases pc <;> rfl

theorem WorkerPc.gone_notified (pc : WorkerPc) : pc.notified.gone = pc.gone := by
  cases pc <;> rfl

theorem WorkerPc.inHand_notified (pc : WorkerPc) : pc.notified.inHand = pc.inHand := by
  cases pc <;> rfl

/-- A broadcast wakes everybody and changes nothing else. -/
theorem total_notified_asleep (ws : List WorkerPc) :
    total WorkerPc.asleep (ws.map WorkerPc.notified) = 0 := by
  rw [total_asleep_eq_zero]
  intro hmem
  obtain ⟨pc, -, hpc⟩ := List.mem_map.1 hmem
  cases pc <;> cases hpc

theorem total_notified_live (ws : List WorkerPc) :
    total WorkerPc.live (ws.map WorkerPc.notified) = total WorkerPc.live ws :=
  total_map_of_eq WorkerPc.live_notified ws

theorem total_notified_gone (ws : List WorkerPc) :
    total WorkerPc.gone (ws.map WorkerPc.notified) = total WorkerPc.gone ws :=
  total_map_of_eq WorkerPc.gone_notified ws

theorem total_notified_inHand (ws : List WorkerPc) :
    total WorkerPc.inHand (ws.map WorkerPc.notified) = total WorkerPc.inHand ws :=
  total_map_of_eq WorkerPc.inHand_notified ws

/-- What a wake-up of worker `i` does to the sums. -/
theorem total_wake {ws : List WorkerPc} {i : Nat} (hi : ws[i]? = some .waiting) :
    total WorkerPc.live (ws.set i .lock) = total WorkerPc.live ws ∧
    total WorkerPc.asleep (ws.set i .lock) + 1 = total WorkerPc.asleep ws ∧
    total WorkerPc.arriving (ws.set i .lock) = total WorkerPc.arriving ws + 1 ∧
    total WorkerPc.gone (ws.set i .lock) = total WorkerPc.gone ws ∧
    total WorkerPc.inHand (ws.set i .lock) = total WorkerPc.inHand ws :=
  ⟨total_set_of_eq hi rfl, total_set hi WorkerPc.asleep .lock,
    total_set hi WorkerPc.arriving .lock, total_set_of_eq hi rfl, total_set_of_eq hi rfl⟩

/-- What the signal of an accepted call does to the sums: it brings a worker to the lock, or
nobody sleeps. -/
theorem total_signal {ws ws' : List WorkerPc} {woken : Option Nat}
    (h : signal ws woken = some ws') :
    ws'.length = ws.length ∧
    total WorkerPc.live ws' = total WorkerPc.live ws ∧
    total WorkerPc.gone ws' = total WorkerPc.gone ws ∧
    total WorkerPc.inHand ws' = total WorkerPc.inHand ws ∧
    total WorkerPc.asleep ws' ≤ total WorkerPc.asleep ws ∧
    (0 < total WorkerPc.asleep ws' →
      total WorkerPc.arriving ws' = total WorkerPc.arriving ws + 1) := by
  cases woken with
  | none =>
    simp only [signal] at h
    split at h
    · cases h
    · next hno =>
      cases h
      have hzero := total_asleep_eq_zero.2 hno
      exact ⟨rfl, rfl, rfl, rfl, le_rfl, fun hpos => by omega⟩
  | some i =>
    simp only [signal] at h
    split at h
    · next hi =>
      cases h
      obtain ⟨hlive, hasleep, harriving, hgone, hinHand⟩ := total_wake hi
      exact ⟨List.length_set, hlive, hgone, hinHand, by omega, fun _ => harriving⟩
    · cases h

theorem set_ne_nil {ws : List WorkerPc} {i : Nat} {pc : WorkerPc} (h : ws ≠ []) :
    ws.set i pc ≠ [] := by
  simpa using h

theorem WorkersOk.init {threadCount queueSize : Int}
    (h : threadpoolCreate threadCount queueSize = some s) : WorkersOk s := by
  unfold threadpoolCreate at h
  split at h
  · cases h
  · cases h
    exact {
      started := rfl
      threadCount := rfl
      creating := fun _ _ => rfl
      nonempty := fun h => by cases h
      awake := fun _ => rfl
      served := fun h => absurd h (lt_irrefl 0)
      leaving := fun h => absurd h (lt_irrefl 0)
      tasks := rfl }

/-- A task more in the queue, and a worker more on its way to the lock. -/
theorem WorkersOk.accept (h : WorkersOk s) (hrun : s.pool.shutdown = .notRequested) {task : Task}
    {woken : Option Nat} {workers : List WorkerPc}
    (hsignal : signal s.workers woken = some workers) :
    WorkersOk
      { s with pool := s.pool.pushed task, workers, accepted := s.accepted ++ [task] } := by
  obtain ⟨hlen, hlive, hgone, hinHand, hasleep, harriving⟩ := total_signal hsignal
  constructor
  · exact h.started.trans hlive.symm
  · exact h.threadCount.trans hlen.symm
  · exact h.creating
  · intro hcreated hnil
    change workers = [] at hnil
    subst hnil
    exact h.nonempty hcreated (List.length_eq_zero_iff.1 hlen.symm)
  · intro hshut
    exact absurd hrun hshut
  · intro hpos
    change 0 < total WorkerPc.asleep workers at hpos
    have hserved := h.served (by omega)
    have harrived := harriving hpos
    change s.pool.count + 1 ≤ total WorkerPc.arriving workers
    omega
  · intro hpos
    change 0 < total WorkerPc.gone workers at hpos
    rw [hgone] at hpos
    exact absurd hrun (h.leaving hpos).1
  · exact h.tasks.trans (by rw [hinHand])

theorem WorkersOk.wait (h : WorkersOk s) {i : Nat} (hi : s.workers[i]? = some .lock)
    (hcount : s.pool.count = 0) (hrun : s.pool.shutdown = .notRequested) :
    WorkersOk { s with workers := s.workers.set i .waiting } := by
  constructor
  · exact h.started.trans (total_set_of_eq (f := WorkerPc.live) (b := .waiting) hi rfl).symm
  · exact h.threadCount.trans List.length_set.symm
  · exact h.creating
  · exact fun hcreated => set_ne_nil (h.nonempty hcreated)
  · intro hshut
    exact absurd hrun hshut
  · intro _
    change s.pool.count ≤ _
    omega
  · intro hpos
    have hgone := total_set_of_eq (f := WorkerPc.gone) (b := .waiting) hi rfl
    exact h.leaving (hgone ▸ hpos)
  · have hinHand := total_set_of_eq (f := WorkerPc.inHand) (b := .waiting) hi rfl
    exact h.tasks.trans (by rw [hinHand])

theorem WorkersOk.exit (h : WorkersOk s) {i : Nat} (hi : s.workers[i]? = some .lock)
    (hrun : s.pool.shutdown ≠ .notRequested)
    (hcount : s.pool.shutdown = .gracefulShutdown → s.pool.count = 0) :
    WorkersOk
      { s with
        pool := { s.pool with started := s.pool.started - 1 }
        workers := s.workers.set i .exited } := by
  have hlive := total_set hi WorkerPc.live .exited
  have hasleep : total WorkerPc.asleep (s.workers.set i .exited) = 0 :=
    (total_set_of_eq (b := .exited) hi rfl).trans (h.awake hrun)
  constructor
  · have hstarted := h.started
    change s.pool.started - 1 = total WorkerPc.live (s.workers.set i .exited)
    change _ + 1 = _ + 0 at hlive
    omega
  · exact h.threadCount.trans List.length_set.symm
  · exact h.creating
  · exact fun hcreated => set_ne_nil (h.nonempty hcreated)
  · intro _
    exact hasleep
  · intro hpos
    change 0 < total WorkerPc.asleep (s.workers.set i .exited) at hpos
    omega
  · intro _
    exact ⟨hrun, hcount⟩
  · have hinHand := total_set_of_eq (f := WorkerPc.inHand) (b := .exited) hi rfl
    exact h.tasks.trans (by rw [hinHand])

theorem WorkersOk.take (h : WorkersOk s) {i : Nat} (hi : s.workers[i]? = some .lock)
    (hcount : s.pool.count ≠ 0) (hrun : s.pool.shutdown ≠ .immediateShutdown) :
    WorkersOk
      { s with
        pool := s.pool.popped
        workers := s.workers.set i (.running s.pool.front)
        begun := s.begun ++ [s.pool.front] } := by
  have hgone : total WorkerPc.gone (s.workers.set i (.running s.pool.front)) =
      total WorkerPc.gone s.workers := total_set_of_eq hi rfl
  have hasleep : total WorkerPc.asleep (s.workers.set i (.running s.pool.front)) =
      total WorkerPc.asleep s.workers := total_set_of_eq hi rfl
  constructor
  · exact h.started.trans
      (total_set_of_eq (f := WorkerPc.live) (b := .running s.pool.front) hi rfl).symm
  · exact h.threadCount.trans List.length_set.symm
  · exact h.creating
  · exact fun hcreated => set_ne_nil (h.nonempty hcreated)
  · intro hshut
    exact hasleep.trans (h.awake hshut)
  · intro hpos
    have hserved := h.served (hasleep ▸ hpos)
    have harriving := total_set hi WorkerPc.arriving (.running s.pool.front)
    change _ + 1 = _ + 0 at harriving
    change s.pool.count - 1 ≤ total WorkerPc.arriving (s.workers.set i (.running s.pool.front))
    omega
  · intro hpos
    obtain ⟨hshut, hdone⟩ := h.leaving (hgone ▸ hpos)
    -- a graceful shutdown with an exited worker has an empty queue
    cases hs : s.pool.shutdown with
    | notRequested => exact absurd hs hshut
    | immediateShutdown => exact absurd hs hrun
    | gracefulShutdown => exact absurd (hdone hs) hcount
  · have hinHand := total_set hi WorkerPc.inHand (.running s.pool.front)
    rw [WorkerPc.inHand_lock, WorkerPc.inHand_running, add_zero] at hinHand
    change ((s.begun ++ [s.pool.front] : List (Option Task)) : Multiset (Option Task)) = _
    rw [hinHand, ← add_assoc, ← h.tasks]
    rfl

theorem WorkersOk.finish (h : WorkersOk s) {i : Nat} {task : Option Task}
    (hi : s.workers[i]? = some (.running task)) :
    WorkersOk { s with workers := s.workers.set i .lock, finished := s.finished ++ [task] } := by
  have hgone : total WorkerPc.gone (s.workers.set i .lock) = total WorkerPc.gone s.workers :=
    total_set_of_eq hi rfl
  have hasleep : total WorkerPc.asleep (s.workers.set i .lock) = total WorkerPc.asleep s.workers :=
    total_set_of_eq hi rfl
  constructor
  · exact h.started.trans (total_set_of_eq (f := WorkerPc.live) (b := .lock) hi rfl).symm
  · exact h.threadCount.trans List.length_set.symm
  · exact h.creating
  · exact fun hcreated => set_ne_nil (h.nonempty hcreated)
  · intro hshut
    exact hasleep.trans (h.awake hshut)
  · intro hpos
    have hserved := h.served (hasleep ▸ hpos)
    have harriving := total_set hi WorkerPc.arriving .lock
    change _ + 0 = _ + 1 at harriving
    change s.pool.count ≤ total WorkerPc.arriving (s.workers.set i .lock)
    omega
  · intro hpos
    exact h.leaving (hgone ▸ hpos)
  · have hinHand := total_set hi WorkerPc.inHand .lock
    rw [WorkerPc.inHand_lock, WorkerPc.inHand_running, add_zero] at hinHand
    change _ = ((s.finished ++ [task] : List (Option Task)) : Multiset (Option Task)) + _
    rw [h.tasks, ← hinHand, ← Multiset.coe_add]
    change _ = (s.finished : Multiset (Option Task)) + {task} +
      total WorkerPc.inHand (s.workers.set i .lock)
    rw [add_assoc, Multiset.add_comm {task}]

theorem WorkersOk.wakeWorker (h : WorkersOk s) {i : Nat} (hi : s.workers[i]? = some .waiting) :
    WorkersOk { s with workers := s.workers.set i .lock } := by
  obtain ⟨hlive, hasleep, harriving, hgone, hinHand⟩ := total_wake hi
  constructor
  · exact h.started.trans hlive.symm
  · exact h.threadCount.trans List.length_set.symm
  · exact h.creating
  · exact fun hcreated => set_ne_nil (h.nonempty hcreated)
  · intro hshut
    have hawake := h.awake hshut
    omega
  · intro _
    have hserved := h.served (by omega)
    change s.pool.count ≤ total WorkerPc.arriving (s.workers.set i .lock)
    omega
  · intro hpos
    exact h.leaving (hgone ▸ hpos)
  · exact h.tasks.trans (by rw [hinHand])

theorem WorkersOk.spawn (h : WorkersOk s) {left : Nat} (hleft : s.creation = .starting left) :
    WorkersOk (createThread s left) := by
  have hrun := h.creating left hleft
  constructor
  · simp [createThread, h.started, WorkerPc.live]
  · simp [createThread, h.threadCount]
  · intro _ _
    exact hrun
  · intro _
    simp [createThread]
  · intro hshut
    exact absurd hrun hshut
  · intro hpos
    have hserved := h.served (by simpa [createThread, WorkerPc.asleep] using hpos)
    simp only [createThread, total_append, total_singleton]
    exact Nat.le_add_right_of_le hserved
  · intro hpos
    exact h.leaving (by simpa [createThread, WorkerPc.gone] using hpos)
  · simp [createThread, h.tasks, WorkerPc.inHand]

theorem WorkersOk.destroy (h : WorkersOk s) {flags : BitVec 32} {creation : Creation}
    (hd : Destroys s a flags creation) (hrun : s.pool.shutdown = .notRequested)
    (destroyers : List DestroyerPc) :
    WorkersOk
      { s with
        pool := { s.pool with shutdown := shutdownOfFlags flags }
        creation
        workers := s.workers.map WorkerPc.notified
        destroyers } := by
  have hgone : total WorkerPc.gone s.workers = 0 := by
    by_contra hne
    exact (h.leaving (Nat.pos_of_ne_zero hne)).1 hrun
  constructor
  · exact h.started.trans (total_notified_live _).symm
  · exact h.threadCount.trans (List.length_map _).symm
  · intro left hleft
    cases hd with
    | call _ husable =>
      simp [State.usable, show s.creation = .starting left from hleft] at husable
    | create left' h' => cases hleft
  · intro hcreated hnil
    cases hd with
    | call _ husable => exact h.nonempty hcreated (List.map_eq_nil_iff.1 hnil)
    | create left' h' => cases hcreated
  · intro _
    exact total_notified_asleep _
  · intro hpos
    rw [total_notified_asleep] at hpos
    exact absurd hpos (lt_irrefl 0)
  · intro hpos
    rw [total_notified_gone, hgone] at hpos
    exact absurd hpos (lt_irrefl 0)
  · exact h.tasks.trans (by rw [total_notified_inHand])

/-- A step that leaves the workers and the pool alone. -/
theorem WorkersOk.frame (h : WorkersOk s) (hpool : t.pool = s.pool)
    (hworkers : t.workers = s.workers) (hbegun : t.begun = s.begun)
    (hfinished : t.finished = s.finished)
    (hcreation : t.creation = s.creation ∨ t.creation = .failed) : WorkersOk t := by
  constructor
  · rw [hpool, hworkers, h.started]
  · rw [hpool, hworkers, h.threadCount]
  · intro left hleft
    rw [hpool]
    rcases hcreation with hc | hc
    · exact h.creating left (hc ▸ hleft)
    · rw [hc] at hleft
      cases hleft
  · intro hcreated
    rw [hworkers]
    rcases hcreation with hc | hc
    · exact h.nonempty (hc ▸ hcreated)
    · rw [hc] at hcreated
      cases hcreated
  · rw [hpool, hworkers]
    exact h.awake
  · rw [hpool, hworkers]
    exact h.served
  · rw [hpool, hworkers]
    exact h.leaving
  · rw [hbegun, hfinished, hworkers]
    exact h.tasks

theorem WorkersOk.step (h : WorkersOk s) (hstep : step s a = some t) : WorkersOk t := by
  cases stepTo_of_step hstep with
  | spawn left hleft => exact h.spawn hleft
  | reject => exact h
  | accept task woken workers husable hfree hroom hrun hsignal => exact h.accept hrun hsignal
  | wait i hi hfree hcount hrun => exact h.wait hi hcount hrun
  | exit i hi hfree hrun hcount => exact h.exit hi hrun hcount
  | take i hi hfree hcount hrun => exact h.take hi hcount hrun
  | finish i task hi => exact h.finish hi
  | wakeWorker i hi => exact h.wakeWorker hi
  | destroy _ flags creation hd hfree hrun => exact h.destroy hd hrun _
  | destroyAgain _ flags creation hd =>
    refine h.frame rfl rfl rfl rfl ?_
    cases hd with
    | call _ husable => exact .inl rfl
    | create left hleft => exact .inr rfl
  | join => exact h.frame rfl rfl rfl rfl (.inl rfl)
  | joined => exact h.frame rfl rfl rfl rfl (.inl rfl)
  | keep => exact h.frame rfl rfl rfl rfl (.inl rfl)
  | freeArrays => exact h.frame rfl rfl rfl rfl (.inl rfl)
  | freePool => exact h.frame rfl rfl rfl rfl (.inl rfl)

end Sparo.ThirdParty.Threadpool
