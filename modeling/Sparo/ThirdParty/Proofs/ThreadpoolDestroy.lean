import Sparo.ThirdParty.Proofs.ThreadpoolQueue
import Sparo.ThirdParty.Proofs.ThreadpoolWorkers

/-!
# Shutting the C thread pool down

One call of `threadpool_destroy` shuts the pool down, waits for the workers and frees it; every
other one is refused and keeps the lock. The pool is freed once, when no worker is left, and by
then a graceful shutdown has executed every accepted task.
-/

namespace Sparo.ThirdParty.Threadpool

open StepSystem ThreadSum

variable {s t : State} {a : Act}

/-- 1 for the call that shuts the pool down. -/
def DestroyerPc.owning : DestroyerPc → Nat
  | .returned err => if err = 0 then 1 else 0
  | _ => 1

/-- 1 for a call that found the pool shutting down. -/
def DestroyerPc.refused : DestroyerPc → Nat
  | .returned err => if err = 0 then 0 else 1
  | _ => 0

/-- 1 for a call that has freed `threads` and `queue`. -/
def DestroyerPc.freedArrays : DestroyerPc → Nat
  | .freeLock => 1
  | .returned err => if err = 0 then 1 else 0
  | _ => 0

/-- 1 for a call that has freed the pool. -/
def DestroyerPc.freedPool : DestroyerPc → Nat
  | .returned err => if err = 0 then 1 else 0
  | _ => 0

/-- How many of `n` workers the call knows to have exited. -/
def DestroyerPc.joined (n : Nat) : DestroyerPc → Nat
  | .join i => i
  | .free | .freeLock => n
  | .returned err => if err = 0 then n else 0

/-- The invariant of the calls of `threadpool_destroy`. -/
structure DestroyOk (s : State) : Prop where
  quiet : s.pool.shutdown = .notRequested → s.destroyers = []
  owner : s.pool.shutdown ≠ .notRequested → total DestroyerPc.owning s.destroyers = 1
  held : total DestroyerPc.refused s.destroyers = if s.mutexHeld then 1 else 0
  joined : ∀ pc ∈ s.destroyers, pc.joined s.workers.length ≤ s.workers.length ∧
    ∀ k < pc.joined s.workers.length, s.workers[k]? = some .exited
  arrays : s.arraysFreed = total DestroyerPc.freedArrays s.destroyers
  freed : s.poolFreed = total DestroyerPc.freedPool s.destroyers
  graceful : s.pool.shutdown = .gracefulShutdown → s.workers ≠ []

theorem DestroyOk.init {threadCount queueSize : Int}
    (h : threadpoolCreate threadCount queueSize = some s) : DestroyOk s := by
  unfold threadpoolCreate at h
  split at h
  · cases h
  · cases h
    exact {
      quiet := fun _ => rfl
      owner := fun h => absurd rfl h
      held := rfl
      joined := by
        intro pc hpc
        cases hpc
      arrays := rfl
      freed := rfl
      graceful := fun h => by cases h }

/-- A step of the workers: who has exited stays so. -/
theorem DestroyOk.workers (h : DestroyOk s) (hshut : t.pool.shutdown = s.pool.shutdown)
    (hdestroyers : t.destroyers = s.destroyers) (hheld : t.mutexHeld = s.mutexHeld)
    (harrays : t.arraysFreed = s.arraysFreed) (hfreed : t.poolFreed = s.poolFreed)
    (hlen : t.workers.length = s.workers.length)
    (hexited : ∀ k : Nat, s.workers[k]? = some .exited → t.workers[k]? = some .exited) :
    DestroyOk t := by
  constructor
  · rw [hshut, hdestroyers]
    exact h.quiet
  · rw [hshut, hdestroyers]
    exact h.owner
  · rw [hdestroyers, hheld]
    exact h.held
  · rw [hdestroyers, hlen]
    intro pc hpc
    obtain ⟨hle, hall⟩ := h.joined pc hpc
    exact ⟨hle, fun k hk => hexited k (hall k hk)⟩
  · rw [harrays, hdestroyers, h.arrays]
  · rw [hfreed, hdestroyers, h.freed]
  · rw [hshut]
    intro hgraceful hnil
    refine h.graceful hgraceful (List.length_eq_zero_iff.1 ?_)
    rw [← hlen, hnil]
    rfl

/-- A worker that has not exited may move: the exited ones are where they were. -/
theorem exited_set {ws : List WorkerPc} {i k : Nat} {pc pc' : WorkerPc} (hi : ws[i]? = some pc)
    (hpc : pc ≠ .exited) (hk : ws[k]? = some .exited) : (ws.set i pc')[k]? = some .exited := by
  have hne : i ≠ k := by
    rintro rfl
    rw [hi] at hk
    exact hpc (Option.some.inj hk)
  rwa [List.getElem?_set_ne hne]

theorem exited_signal {ws ws' : List WorkerPc} {woken : Option Nat} {k : Nat}
    (h : signal ws woken = some ws') (hk : ws[k]? = some .exited) : ws'[k]? = some .exited := by
  cases woken with
  | none =>
    simp only [signal] at h
    split at h
    · cases h
    · cases h
      exact hk
  | some i =>
    simp only [signal] at h
    split at h
    · next hi =>
      cases h
      exact exited_set hi (by decide) hk
    · cases h

/-- The call at `j` moves on from `pc` to `pc'`. -/
theorem DestroyOk.moves (h : DestroyOk s) {j : Nat} {pc : DestroyerPc} (pc' : DestroyerPc)
    (hj : s.destroyers[j]? = some pc) (howning : pc'.owning = pc.owning)
    (hrefused : pc'.refused = pc.refused)
    (hjoined : pc'.joined s.workers.length ≤ s.workers.length ∧
      ∀ k < pc'.joined s.workers.length, s.workers[k]? = some .exited)
    (ht : t = { s with
      destroyers := s.destroyers.set j pc'
      arraysFreed := t.arraysFreed
      poolFreed := t.poolFreed })
    (harrays : t.arraysFreed + pc.freedArrays = s.arraysFreed + pc'.freedArrays)
    (hfreed : t.poolFreed + pc.freedPool = s.poolFreed + pc'.freedPool) : DestroyOk t := by
  rw [ht]
  constructor
  · intro hrun
    rw [h.quiet hrun] at hj
    cases hj
  · intro hrun
    exact (total_set_of_eq hj howning).trans (h.owner hrun)
  · exact (total_set_of_eq hj hrefused).trans h.held
  · intro pc'' hmem
    rcases List.mem_or_eq_of_mem_set hmem with hold | rfl
    · exact h.joined pc'' hold
    · exact hjoined
  · have hset := total_set hj DestroyerPc.freedArrays pc'
    have hold := h.arrays
    change t.arraysFreed = total DestroyerPc.freedArrays (s.destroyers.set j pc')
    omega
  · have hset := total_set hj DestroyerPc.freedPool pc'
    have hold := h.freed
    change t.poolFreed = total DestroyerPc.freedPool (s.destroyers.set j pc')
    omega
  · exact h.graceful

/-- Workers that have all exited have nothing left to do with the pool. -/
theorem started_of_exited (hw : WorkersOk s)
    (hall : ∀ k < s.workers.length, s.workers[k]? = some .exited) : s.pool.started = 0 := by
  have hmem : ∀ pc ∈ s.workers, pc = .exited := by
    intro pc hpc
    obtain ⟨k, hk, rfl⟩ := List.mem_iff_getElem.1 hpc
    have hexited := hall k hk
    rw [List.getElem?_eq_getElem hk] at hexited
    exact Option.some.inj hexited
  rw [hw.started, total]
  refine List.sum_eq_zero fun n hn => ?_
  obtain ⟨pc, hpc, rfl⟩ := List.mem_map.1 hn
  rw [hmem pc hpc]
  rfl

theorem DestroyOk.destroy (h : DestroyOk s) (hw : WorkersOk s) {flags : BitVec 32}
    {creation : Creation} (hd : Destroys s a flags creation)
    (hrun : s.pool.shutdown = .notRequested) :
    DestroyOk
      { s with
        pool := { s.pool with shutdown := shutdownOfFlags flags }
        creation
        workers := s.workers.map WorkerPc.notified
        destroyers := s.destroyers ++ [.join 0] } := by
  have hnil := h.quiet hrun
  constructor
  · intro hquiet
    change shutdownOfFlags flags = _ at hquiet
    unfold shutdownOfFlags at hquiet
    split at hquiet <;> cases hquiet
  · intro _
    change total DestroyerPc.owning (s.destroyers ++ [.join 0]) = 1
    rw [hnil]
    rfl
  · have hheld := h.held
    rw [hnil] at hheld
    change total DestroyerPc.refused (s.destroyers ++ [.join 0]) = _
    rw [hnil]
    exact hheld
  · intro pc hpc
    change pc ∈ s.destroyers ++ [.join 0] at hpc
    rw [hnil, List.nil_append, List.mem_singleton] at hpc
    subst hpc
    exact ⟨Nat.zero_le _, fun k hk => absurd hk (Nat.not_lt_zero k)⟩
  · change s.arraysFreed = total DestroyerPc.freedArrays (s.destroyers ++ [.join 0])
    rw [h.arrays, hnil]
    rfl
  · change s.poolFreed = total DestroyerPc.freedPool (s.destroyers ++ [.join 0])
    rw [h.freed, hnil]
    rfl
  · intro hgraceful
    cases hd with
    | call _ husable =>
      have hcreated : s.creation = .created := by
        simp only [State.usable, Bool.and_eq_true, decide_eq_true_eq] at husable
        exact husable.1
      exact fun hmap => hw.nonempty hcreated (List.map_eq_nil_iff.1 hmap)
    | create left hleft =>
      change shutdownOfFlags 0 = .gracefulShutdown at hgraceful
      exact absurd hgraceful (by decide)

theorem DestroyOk.destroyAgain (h : DestroyOk s) (hfree : s.mutexHeld = false)
    (hrun : s.pool.shutdown ≠ .notRequested) (creation : Creation) :
    DestroyOk
      { s with
        creation
        mutexHeld := true
        destroyers := s.destroyers ++ [.returned threadpoolShutdown] } := by
  constructor
  · intro hquiet
    exact absurd hquiet hrun
  · intro _
    simp [DestroyerPc.owning, threadpoolShutdown, h.owner hrun]
  · have hheld := h.held
    rw [hfree] at hheld
    simp [DestroyerPc.refused, threadpoolShutdown, hheld]
  · intro pc hpc
    rcases List.mem_append.1 hpc with hold | hnew
    · exact h.joined pc hold
    · rw [List.mem_singleton] at hnew
      subst hnew
      exact ⟨Nat.zero_le _, fun k hk => absurd hk (Nat.not_lt_zero k)⟩
  · simp [DestroyerPc.freedArrays, threadpoolShutdown, h.arrays]
  · simp [DestroyerPc.freedPool, threadpoolShutdown, h.freed]
  · exact h.graceful

theorem DestroyOk.step (h : DestroyOk s) (hw : WorkersOk s) (hstep : step s a = some t) :
    DestroyOk t := by
  cases stepTo_of_step hstep with
  | spawn left hleft =>
    have hrun := hw.creating left hleft
    have hnil := h.quiet hrun
    constructor
    · exact h.quiet
    · exact h.owner
    · exact h.held
    · intro pc hpc
      change pc ∈ s.destroyers at hpc
      rw [hnil] at hpc
      cases hpc
    · exact h.arrays
    · exact h.freed
    · intro _
      simp [createThread]
  | reject => exact h
  | accept task woken workers husable hfree hroom hrun hsignal =>
    exact h.workers rfl rfl rfl rfl rfl (total_signal hsignal).1
      fun k => exited_signal hsignal
  | wait i hi =>
    exact h.workers rfl rfl rfl rfl rfl List.length_set fun k => exited_set hi (by decide)
  | exit i hi =>
    exact h.workers rfl rfl rfl rfl rfl List.length_set fun k => exited_set hi (by decide)
  | take i hi =>
    exact h.workers rfl rfl rfl rfl rfl List.length_set fun k => exited_set hi (by decide)
  | finish i task hi =>
    exact h.workers rfl rfl rfl rfl rfl List.length_set fun k => exited_set hi (by simp)
  | wakeWorker i hi =>
    exact h.workers rfl rfl rfl rfl rfl List.length_set fun k => exited_set hi (by decide)
  | destroy _ flags creation hd hfree hrun => exact h.destroy hw hd hrun
  | destroyAgain _ flags creation hd hfree hrun => exact h.destroyAgain hfree hrun creation
  | join j i hj hi hexited =>
    obtain ⟨hle, hall⟩ := h.joined _ (List.mem_of_getElem? hj)
    refine h.moves (.join (i + 1)) hj rfl rfl ⟨?_, fun k hk => ?_⟩ rfl rfl rfl
    · rw [hw.threadCount] at hi
      exact hi
    · rcases Nat.lt_succ_iff_lt_or_eq.1 hk with hlt | rfl
      · exact hall k hlt
      · exact hexited
  | joined j i hj hi =>
    obtain ⟨hle, hall⟩ := h.joined _ (List.mem_of_getElem? hj)
    rw [hw.threadCount] at hi
    refine h.moves .free hj rfl rfl ⟨le_rfl, fun k hk => ?_⟩ rfl rfl rfl
    exact hall k (Nat.lt_of_lt_of_le hk hi)
  | keep j hj hstarted =>
    -- everybody has been joined, so there is nothing to refuse
    obtain ⟨-, hall⟩ := h.joined _ (List.mem_of_getElem? hj)
    rw [started_of_exited hw hall] at hstarted
    exact absurd hstarted (lt_irrefl 0)
  | freeArrays j hj hstarted =>
    have hjoined := h.joined _ (List.mem_of_getElem? hj)
    exact h.moves .freeLock hj rfl rfl hjoined rfl rfl rfl
  | freePool j hj hfree =>
    have hjoined := h.joined _ (List.mem_of_getElem? hj)
    exact h.moves (.returned 0) hj rfl rfl hjoined rfl rfl rfl

end Sparo.ThirdParty.Threadpool
