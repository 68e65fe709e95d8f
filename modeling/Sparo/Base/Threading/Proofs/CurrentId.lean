import Sparo.Base.Threading.PlatformThread
import Mathlib.Data.List.Nodup

/-!
# The cached thread id across `fork`

`g_is_main_thread` tells the threads whose cache a `fork` makes invalid. It is cleared in a thread
that found itself not to be the main one, and a child that such a thread forks has it cleared in
its main thread, with the id of the forking thread in the cache.
-/

namespace Sparo.Base.PlatformThread

open StepSystem

variable {used : Int → Prop} {pr : Process} {th other : Thread} {pid tid : Int}

/-- What the variables of a thread say, where `used` ids have been given out. -/
structure ThreadInv (used : Int → Prop) (pr : Process) (th : Thread) : Prop where
  positive : 0 < th.tid
  cached_used : th.threadId ≠ -1 → used th.threadId
  registered : th.threadId ≠ -1 → pr.initAtFork = true
  cleared : th.isMainThread = false → th.threadId ≠ -1
  /-- A thread that is not the main one knows it once it has cached its id. -/
  notMain : th.tid ≠ pr.pid → th.threadId ≠ -1 →
    th.threadId = th.tid ∧ th.isMainThread = false
  /-- The flag vouches for the main thread. -/
  main : th.tid = pr.pid → th.isMainThread = true → th.threadId ≠ -1 →
    pr.mainThreadTidCacheValid = true → th.threadId = th.tid
  /-- A main thread with the mark cleared holds the id of another thread. -/
  inherited : th.tid = pr.pid → th.isMainThread = false → th.threadId ≠ th.tid

theorem ThreadInv.mono {used' : Int → Prop} (h : ThreadInv used pr th)
    (hused : ∀ id, used id → used' id) : ThreadInv used' pr th :=
  { h with cached_used := fun hcached => hused _ (h.cached_used hcached) }

/-- A new thread has cached nothing. -/
theorem threadInv_new (htid : 0 < tid) : ThreadInv used pr { tid := tid } where
  positive := htid
  cached_used := fun h => absurd rfl h
  registered := fun h => absurd rfl h
  cleared := Bool.noConfusion
  notMain := fun _ h => absurd rfl h
  main := fun _ _ h => absurd rfl h
  inherited := fun _ => Bool.noConfusion

/-- The slow path of `CurrentId`. -/
def Outdated (pr : Process) (th : Thread) : Prop :=
  th.threadId = -1 ∨ (th.isMainThread = true ∧ pr.mainThreadTidCacheValid = false)

/-- The mark is cleared in a main thread. -/
def MainCleared (pr : Process) (th : Thread) : Prop := th.tid = pr.pid ∧ th.isMainThread = false

instance (pr : Process) (th : Thread) : Decidable (MainCleared pr th) :=
  inferInstanceAs (Decidable (_ ∧ _))

/-- What a call does: it caches the thread's id and marks the thread or the flag, or it leaves the
thread as it is. -/
theorem currentId_cases (pr : Process) (th : Thread) :
    (Outdated pr th ∧ th.tid = pr.pid ∧ pr.currentId th =
      ({ pr with initAtFork := true, mainThreadTidCacheValid := true },
        { th with threadId := th.tid })) ∨
    (Outdated pr th ∧ th.tid ≠ pr.pid ∧ pr.currentId th =
      ({ pr with initAtFork := true }, { th with threadId := th.tid, isMainThread := false })) ∨
    (¬Outdated pr th ∧ pr.currentId th = ({ pr with initAtFork := true }, th)) := by
  by_cases hout : Outdated pr th
  · by_cases hmain : th.tid = pr.pid
    · exact .inl ⟨hout, hmain, (if_pos hout).trans (if_pos hmain)⟩
    · exact .inr (.inl ⟨hout, hmain, (if_pos hout).trans (if_neg hmain)⟩)
  · exact .inr (.inr ⟨hout, if_neg hout⟩)

/-- A call returns the thread's id, except in a main thread with the mark cleared. -/
theorem currentId_eq_tid_iff (h : ThreadInv used pr th) :
    (pr.currentId th).2.threadId = th.tid ↔ ¬MainCleared pr th := by
  rcases currentId_cases pr th with ⟨hout, hmain, heq⟩ | ⟨-, hmain, heq⟩ | ⟨hout, heq⟩
  · rw [heq]
    refine iff_of_true rfl fun hcleared => ?_
    rcases hout with hnone | ⟨hmark, -⟩
    · exact h.cleared hcleared.2 hnone
    · rw [hcleared.2] at hmark
      cases hmark
  · rw [heq]
    exact iff_of_true rfl fun hcleared => hmain hcleared.1
  · rw [heq]
    unfold Outdated at hout
    obtain ⟨hcached, hmark⟩ := not_or.mp hout
    constructor
    · exact fun hid hcleared => h.inherited hcleared.1 hcleared.2 hid
    · intro hcleared
      by_cases hmain : th.tid = pr.pid
      · have hmarked : th.isMainThread = true := by
          simpa using fun hfalse => hcleared ⟨hmain, hfalse⟩
        have hvalid : pr.mainThreadTidCacheValid = true := by
          simpa using fun hfalse => hmark ⟨hmarked, hfalse⟩
        exact h.main hmain hmarked hcached hvalid
      · exact (h.notMain hmain hcached).1

/-- The calling thread after a call. -/
theorem ThreadInv.currentId (h : ThreadInv used pr th) (htid : used th.tid) :
    ThreadInv used (pr.currentId th).1 (pr.currentId th).2 := by
  have hcached : th.tid ≠ -1 := by
    have := h.positive
    omega
  rcases currentId_cases pr th with ⟨hout, hmain, heq⟩ | ⟨-, hmain, heq⟩ | ⟨-, heq⟩
  · rw [heq]
    refine ⟨h.positive, fun _ => htid, fun _ => rfl, fun _ => hcached, ?_, fun _ _ _ _ => rfl, ?_⟩
    · exact fun hother => absurd hmain hother
    · intro _ hcleared
      rcases hout with hnone | ⟨hmark, -⟩
      · exact absurd hnone (h.cleared hcleared)
      · exact absurd (hmark.symm.trans hcleared) (by decide)
  · rw [heq]
    exact ⟨h.positive, fun _ => htid, fun _ => rfl, fun _ => hcached, fun _ _ => ⟨rfl, rfl⟩,
      fun hpid => absurd hpid hmain, fun hpid => absurd hpid hmain⟩
  · rw [heq]
    exact ⟨h.positive, h.cached_used, fun _ => rfl, h.cleared, h.notMain, h.main, h.inherited⟩

/-- The other threads of the process: only the main thread's call sets the flag. -/
theorem ThreadInv.currentId_other (h : ThreadInv used pr other) (hne : other.tid ≠ th.tid) :
    ThreadInv used (pr.currentId th).1 other := by
  rcases currentId_cases pr th with ⟨-, hmain, heq⟩ | ⟨-, -, heq⟩ | ⟨-, heq⟩
  · rw [heq]
    exact ⟨h.positive, h.cached_used, fun _ => rfl, h.cleared, h.notMain,
      fun hpid => absurd (hpid.trans hmain.symm) hne, h.inherited⟩
  · rw [heq]
    exact ⟨h.positive, h.cached_used, fun _ => rfl, h.cleared, h.notMain, h.main, h.inherited⟩
  · rw [heq]
    exact ⟨h.positive, h.cached_used, fun _ => rfl, h.cleared, h.notMain, h.main, h.inherited⟩

/-- The child of a `fork`. -/
theorem child_eq (pr : Process) (th : Thread) (pid : Int) :
    (pr.child th pid).pid = pid ∧ (pr.child th pid).threads = [{ th with tid := pid }] ∧
      (pr.child th pid).initAtFork = pr.initAtFork ∧
      (pr.initAtFork = true → (pr.child th pid).mainThreadTidCacheValid = false) := by
  unfold Process.child
  dsimp only
  split
  · exact ⟨rfl, rfl, rfl, fun _ => rfl⟩
  · next hnone => exact ⟨rfl, rfl, rfl, fun hreg => absurd hreg hnone⟩

/-- The main thread of a child: a cached id means that the handler was registered, so the flag is
down. -/
theorem ThreadInv.child (h : ThreadInv used pr th) (hpid : 0 < pid) (hfresh : ¬used pid) :
    ThreadInv used (pr.child th pid) { th with tid := pid } := by
  obtain ⟨hpidEq, -, hreg, hinvalid⟩ := child_eq pr th pid
  refine ⟨hpid, h.cached_used, fun hcached => hreg.trans (h.registered hcached), h.cleared,
    fun hother => absurd hpidEq.symm hother, ?_, ?_⟩
  · intro _ _ hcached hvalid
    rw [hinvalid (h.registered hcached)] at hvalid
    cases hvalid
  · intro _ hcleared hid
    have hcached : used th.threadId := h.cached_used (h.cleared hcleared)
    rw [show th.threadId = pid from hid] at hcached
    exact hfresh hcached

/-- The threads of a process have different ids, and one of them is the main thread. -/
structure ProcessInv (used : Int → Prop) (pr : Process) : Prop where
  threads : ∀ th ∈ pr.threads, ThreadInv used pr th
  nodup : (pr.threads.map Thread.tid).Nodup
  main : pr.pid ∈ pr.threads.map Thread.tid

namespace System

variable {s t : System} {a : Act}

/-- The id of a thread. -/
def InUse (s : System) (id : Int) : Prop := ∃ p ∈ s.processes, id ∈ p.threads.map Thread.tid

/-- Every process is in order. -/
def Inv (s : System) : Prop := ∀ p ∈ s.processes, ProcessInv s.InUse p

theorem not_inUse_of_fresh {id : Int} (h : s.Fresh id) : ¬s.InUse id := by
  rintro ⟨p, hp, hid⟩
  obtain ⟨th, hth, rfl⟩ := List.mem_map.mp hid
  exact h.2 p hp th hth rfl

theorem thread?_eq_some {p i : Nat} {x : Process × Thread} (h : s.thread? p i = some x) :
    s.processes[p]? = some x.1 ∧ x.1.threads[i]? = some x.2 := by
  obtain ⟨pr, hpr, h⟩ := Option.bind_eq_some_iff.mp h
  obtain ⟨th, hth, rfl⟩ := Option.map_eq_some_iff.mp h
  exact ⟨hpr, hth⟩

theorem step_createThread {p : Nat} {tid : Int} (h : step s (.createThread p tid) = some t) :
    ∃ pr, s.processes[p]? = some pr ∧ s.Fresh tid ∧
      t = { s with processes :=
              s.processes.set p { pr with threads := pr.threads ++ [{ tid := tid }] } } := by
  obtain ⟨pr, hpr, h⟩ := Option.bind_eq_some_iff.mp h
  split at h
  · next hfresh => exact ⟨pr, hpr, hfresh, (Option.some.inj h).symm⟩
  · cases h

theorem step_fork {p i : Nat} {pid : Int} (h : step s (.fork p i pid) = some t) :
    ∃ pr th, s.thread? p i = some (pr, th) ∧ s.Fresh pid ∧
      t = { s with processes := s.processes ++ [pr.child th pid] } := by
  obtain ⟨⟨pr, th⟩, hthread, h⟩ := Option.bind_eq_some_iff.mp h
  dsimp only at h
  split at h
  · next hfresh => exact ⟨pr, th, hthread, hfresh, (Option.some.inj h).symm⟩
  · cases h

/-- What a call of `CurrentId` leaves: its process with the thread changed, and the call noted. -/
theorem step_currentId {p i : Nat} (h : step s (.currentId p i) = some t) :
    ∃ pr th, s.processes[p]? = some pr ∧ pr.threads[i]? = some th ∧
      t = { processes := s.processes.set p
              { (pr.currentId th).1 with threads := pr.threads.set i (pr.currentId th).2 }
            returned := s.returned ++ [(th.tid, (pr.currentId th).2.threadId)] } := by
  obtain ⟨⟨pr, th⟩, hthread, rfl⟩ := Option.map_eq_some_iff.mp h
  obtain ⟨hpr, hth⟩ := thread?_eq_some hthread
  exact ⟨pr, th, hpr, hth, rfl⟩

/-- A process that is changed or added, in a system that keeps the ids in use. -/
theorem Inv.replace (hs : s.Inv) (hused : ∀ id, s.InUse id → t.InUse id) (pr : Process)
    (hpr : ProcessInv t.InUse pr) (hprocesses : ∀ q ∈ t.processes, q ∈ s.processes ∨ q = pr) :
    t.Inv := by
  intro q hq
  rcases hprocesses q hq with hq | rfl
  · have h := hs q hq
    exact ⟨fun th hth => (h.threads th hth).mono hused, h.nodup, h.main⟩
  · exact hpr

theorem inUse_of_mem {p : Process} {id : Int} (hp : p ∈ s.processes)
    (hid : id ∈ p.threads.map Thread.tid) : s.InUse id := ⟨p, hp, hid⟩

/-- Replacing a process by one with at least its ids keeps the ids in use. -/
theorem inUse_set {p : Nat} {pr : Process} (pr' : Process) (calls : List (Int × Int))
    (hp : s.processes[p]? = some pr)
    (hids : ∀ id ∈ pr.threads.map Thread.tid, id ∈ pr'.threads.map Thread.tid) (id : Int)
    (h : s.InUse id) : InUse { processes := s.processes.set p pr', returned := calls } id := by
  obtain ⟨q, hq, hid⟩ := h
  obtain ⟨i, hi⟩ := List.mem_iff_getElem?.mp hq
  have hlt : p < s.processes.length := (List.getElem?_eq_some_iff.mp hp).1
  by_cases hip : i = p
  · subst hip
    rw [hp, Option.some.injEq] at hi
    subst hi
    exact ⟨pr', List.mem_set hlt pr', hids id hid⟩
  · refine ⟨q, List.mem_iff_getElem?.mpr ⟨i, ?_⟩, hid⟩
    rw [List.getElem?_set_ne (Ne.symm hip)]
    exact hi

theorem start_inv {pid : Int} (hpid : 0 < pid) : (start pid).Inv := by
  intro p hp
  rw [start, List.mem_singleton] at hp
  subst hp
  refine ⟨?_, List.nodup_singleton _, List.mem_singleton_self _⟩
  intro th hth
  rw [List.mem_singleton] at hth
  subst hth
  exact threadInv_new hpid

theorem Inv.createThread (hs : s.Inv) {p : Nat} {tid : Int}
    (h : step s (.createThread p tid) = some t) : t.Inv := by
  obtain ⟨pr, hpr, hfresh, rfl⟩ := step_createThread h
  have hmem : pr ∈ s.processes := List.mem_of_getElem? hpr
  obtain ⟨hthreads, hnodup, hmain⟩ := hs pr hmem
  have hused := inUse_set { pr with threads := pr.threads ++ [{ tid := tid }] } s.returned hpr
    fun id hid => by
      rw [List.map_append]
      exact List.mem_append_left _ hid
  refine hs.replace hused _ ⟨?_, ?_, ?_⟩ fun q hq => List.mem_or_eq_of_mem_set hq
  · intro th hth
    rcases List.mem_append.mp hth with hth | hth
    · exact { (hthreads th hth).mono hused with }
    · rw [List.mem_singleton] at hth
      subst hth
      exact threadInv_new hfresh.1
  · rw [List.map_append, List.nodup_append]
    refine ⟨hnodup, List.nodup_singleton _, ?_⟩
    rintro id hid id' hid' rfl
    rw [List.map_singleton, List.mem_singleton] at hid'
    subst hid'
    exact not_inUse_of_fresh hfresh (inUse_of_mem hmem hid)
  · rw [List.map_append]
    exact List.mem_append_left _ hmain

theorem Inv.fork (hs : s.Inv) {p i : Nat} {pid : Int} (h : step s (.fork p i pid) = some t) :
    t.Inv := by
  obtain ⟨pr, th, hthread, hfresh, rfl⟩ := step_fork h
  obtain ⟨hpr, hth⟩ := thread?_eq_some hthread
  have hinv := (hs pr (List.mem_of_getElem? hpr)).threads th (List.mem_of_getElem? hth)
  have hused : ∀ id, s.InUse id →
      InUse { s with processes := s.processes ++ [pr.child th pid] } id := by
    rintro id ⟨q, hq, hid⟩
    exact ⟨q, List.mem_append_left _ hq, hid⟩
  have hchild := hinv.child hfresh.1 (not_inUse_of_fresh hfresh)
  obtain ⟨hpid, hthreads, -⟩ := child_eq pr th pid
  refine hs.replace hused (pr.child th pid) ⟨?_, ?_, ?_⟩
    fun q hq => (List.mem_append.mp hq).imp_right List.mem_singleton.mp
  · rw [hthreads]
    intro th' hth'
    rw [List.mem_singleton] at hth'
    subst hth'
    exact hchild.mono hused
  · rw [hthreads]
    exact List.nodup_singleton _
  · rw [hthreads, hpid]
    exact List.mem_singleton_self _

theorem currentId_ids (pr : Process) (th : Thread) :
    (pr.currentId th).1.pid = pr.pid ∧ (pr.currentId th).2.tid = th.tid := by
  rcases currentId_cases pr th with ⟨-, -, heq⟩ | ⟨-, -, heq⟩ | ⟨-, heq⟩ <;>
    exact ⟨by rw [heq], by rw [heq]⟩

theorem map_tid_set {threads : List Thread} {i : Nat} (hth : threads[i]? = some th)
    {th' : Thread} (htid : th'.tid = th.tid) :
    (threads.set i th').map Thread.tid = threads.map Thread.tid := by
  obtain ⟨hlt, rfl⟩ := List.getElem?_eq_some_iff.mp hth
  have hlt' : i < (threads.map Thread.tid).length := by rwa [List.length_map]
  have hself : threads[i].tid = (threads.map Thread.tid)[i] := (List.getElem_map Thread.tid).symm
  rw [List.map_set, htid, hself, List.set_getElem_self]

theorem Inv.currentId (hs : s.Inv) {p i : Nat} (h : step s (.currentId p i) = some t) :
    t.Inv := by
  obtain ⟨pr, th, hpr, hth, rfl⟩ := step_currentId h
  have hmem : pr ∈ s.processes := List.mem_of_getElem? hpr
  obtain ⟨hthreads, hnodup, hmain⟩ := hs pr hmem
  obtain ⟨hpid, htid⟩ := currentId_ids pr th
  have hids : (pr.threads.set i (pr.currentId th).2).map Thread.tid = pr.threads.map Thread.tid :=
    map_tid_set hth htid
  have hinUse : s.InUse th.tid :=
    inUse_of_mem hmem (List.mem_map_of_mem (List.mem_of_getElem? hth))
  have hused := inUse_set
    { (pr.currentId th).1 with threads := pr.threads.set i (pr.currentId th).2 }
    (s.returned ++ [(th.tid, (pr.currentId th).2.threadId)]) hpr fun id hid => hids.symm ▸ hid
  refine hs.replace hused _ ⟨?_, hids.symm ▸ hnodup, ?_⟩
    fun q hq => List.mem_or_eq_of_mem_set hq
  · intro other hother
    obtain ⟨j, hj⟩ := List.mem_iff_getElem?.mp hother
    by_cases hji : j = i
    · subst hji
      rw [List.getElem?_set_self (List.getElem?_eq_some_iff.mp hth).1, Option.some.injEq] at hj
      subst hj
      have hcall := (hthreads th (List.mem_of_getElem? hth)).currentId hinUse
      exact { hcall.mono hused with }
    · have hj : pr.threads[j]? = some other := by
        rwa [List.getElem?_set_ne (Ne.symm hji)] at hj
      have hne : other.tid ≠ th.tid := by
        intro heq
        have hlt : j < (pr.threads.map Thread.tid).length := by
          rw [List.length_map]
          exact (List.getElem?_eq_some_iff.mp hj).1
        refine hji ((List.getElem?_inj hlt hnodup).mp ?_)
        rw [List.getElem?_map, List.getElem?_map, hj, hth, Option.map_some, Option.map_some, heq]
      have hstay := (hthreads other (List.mem_of_getElem? hj)).currentId_other hne
      exact { hstay.mono hused with }
  · dsimp only
    rw [hpid, hids]
    exact hmain

/-- The invariant of the ids, kept by every step. -/
theorem Inv.step (hs : s.Inv) (h : step s a = some t) : t.Inv := by
  cases a with
  | createThread p tid => exact hs.createThread h
  | fork p i pid => exact hs.fork h
  | currentId p i => exact hs.currentId h

/-- Every call so far returned the id of its thread. -/
def AllCorrect (s : System) : Prop := ∀ call ∈ s.returned, call.2 = call.1

instance (s : System) : Decidable s.AllCorrect := inferInstanceAs (Decidable (∀ _ ∈ _, _))

/-- A thread that calls `CurrentId` is not a main thread with the mark cleared. -/
def CallerMarked (s : System) : Act → Prop
  | .currentId p i => ∀ x ∈ s.thread? p i, ¬MainCleared x.1 x.2
  | _ => True

instance (s : System) : DecidablePred s.CallerMarked
  | .currentId .. => inferInstanceAs (Decidable (∀ _ ∈ _, _))
  | .createThread .. | .fork .. => isTrue trivial

/-- A thread that calls `fork` is the main thread of its process, or it has not called
`CurrentId`. -/
def ForksFresh (s : System) : Act → Prop
  | .fork p i _ => ∀ x ∈ s.thread? p i, x.2.tid = x.1.pid ∨ x.2.threadId = -1
  | _ => True

instance (s : System) : DecidablePred s.ForksFresh
  | .fork .. => inferInstanceAs (Decidable (∀ _ ∈ _, _))
  | .createThread .. | .currentId .. => isTrue trivial

/-- From correct calls a step leads to correct calls, or it is a call in a main thread with the
mark cleared. -/
theorem step_allCorrect_iff (hs : s.Inv) (hcorrect : s.AllCorrect) (h : System.step s a = some t) :
    t.AllCorrect ↔ s.CallerMarked a := by
  cases a with
  | createThread p tid =>
    obtain ⟨pr, -, -, rfl⟩ := step_createThread h
    exact iff_of_true hcorrect trivial
  | fork p i pid =>
    obtain ⟨pr, th, -, -, rfl⟩ := step_fork h
    exact iff_of_true hcorrect trivial
  | currentId p i =>
    obtain ⟨pr, th, hpr, hth, rfl⟩ := step_currentId h
    have hthread : s.thread? p i = some (pr, th) := by simp [thread?, hpr, hth]
    have hinv := (hs pr (List.mem_of_getElem? hpr)).threads th (List.mem_of_getElem? hth)
    have hcall := currentId_eq_tid_iff hinv
    simp only [CallerMarked, hthread, Option.mem_def, Option.some.injEq, forall_eq', ← hcall,
      AllCorrect, List.forall_mem_append, List.forall_mem_singleton]
    exact and_iff_right hcorrect

/-- No main thread has the mark cleared. -/
def NoMainCleared (s : System) : Prop := ∀ p ∈ s.processes, ∀ th ∈ p.threads, ¬MainCleared p th

/-- Only a `fork` in a thread that has found itself not to be the main one makes a main thread with
the mark cleared. -/
theorem NoMainCleared.step (hs : s.Inv) (hmarks : s.NoMainCleared) (hfork : s.ForksFresh a)
    (h : System.step s a = some t) : t.NoMainCleared := by
  cases a with
  | createThread p tid =>
    obtain ⟨pr, hpr, -, rfl⟩ := step_createThread h
    intro q hq th hth
    rcases List.mem_or_eq_of_mem_set hq with hq | rfl
    · exact hmarks q hq th hth
    · rcases List.mem_append.mp hth with hth | hth
      · exact hmarks pr (List.mem_of_getElem? hpr) th hth
      · rw [List.mem_singleton] at hth
        subst hth
        exact fun hcleared => Bool.noConfusion hcleared.2
  | fork p i pid =>
    obtain ⟨pr, th, hthread, -, rfl⟩ := step_fork h
    obtain ⟨hpr, hth⟩ := thread?_eq_some hthread
    have hmem := List.mem_of_getElem? hpr
    have hmarked : th.isMainThread ≠ false := by
      intro hcleared
      rcases hfork _ hthread with hmain | hnone
      · exact hmarks pr hmem th (List.mem_of_getElem? hth) ⟨hmain, hcleared⟩
      · exact ((hs pr hmem).threads th (List.mem_of_getElem? hth)).cleared hcleared hnone
    intro q hq th' hth'
    rcases List.mem_append.mp hq with hq | hq
    · exact hmarks q hq th' hth'
    · rw [List.mem_singleton] at hq
      subst hq
      rw [(child_eq pr th pid).2.1, List.mem_singleton] at hth'
      subst hth'
      exact fun hcleared => hmarked hcleared.2
  | currentId p i =>
    obtain ⟨pr, th, hpr, hth, rfl⟩ := step_currentId h
    have hmem := List.mem_of_getElem? hpr
    obtain ⟨hpid, -⟩ := currentId_ids pr th
    intro q hq th' hth'
    rcases List.mem_or_eq_of_mem_set hq with hq | rfl
    · exact hmarks q hq th' hth'
    · rintro ⟨hmain, hcleared⟩
      rw [hpid] at hmain
      rcases List.mem_or_eq_of_mem_set hth' with hth' | rfl
      · exact hmarks pr hmem th' hth' ⟨hmain, hcleared⟩
      · have hmarked := hmarks pr hmem th (List.mem_of_getElem? hth)
        rcases currentId_cases pr th with ⟨-, -, heq⟩ | ⟨-, hother, heq⟩ | ⟨-, heq⟩
        · rw [heq] at hmain hcleared
          exact hmarked ⟨hmain, hcleared⟩
        · rw [heq] at hmain
          exact hother hmain
        · rw [heq] at hmain hcleared
          exact hmarked ⟨hmain, hcleared⟩

theorem callerMarked_of_noMainCleared (hmarks : s.NoMainCleared) (a : Act) : s.CallerMarked a := by
  cases a with
  | createThread p tid => trivial
  | fork p i pid => trivial
  | currentId p i =>
    intro x hx
    obtain ⟨hpr, hth⟩ := thread?_eq_some hx
    exact hmarks x.1 (List.mem_of_getElem? hpr) x.2 (List.mem_of_getElem? hth)

theorem start_noMainCleared (pid : Int) : (start pid).NoMainCleared := by
  intro p hp th hth
  rw [start, List.mem_singleton] at hp
  subst hp
  rw [List.mem_singleton] at hth
  subst hth
  exact fun hcleared => Bool.noConfusion hcleared.2

/-- In a run of creations, forks and calls, every call of `CurrentId` returns the id of its thread
exactly when none is made in a main thread with `g_is_main_thread` cleared; and none is where every
fork is made by a main thread or by a thread that has not called `CurrentId`. -/
theorem currentId_correct_iff {pid : Int} {acts : List Act} (hpid : 0 < pid)
    (hrun : exec System.step (start pid) acts = some t) :
    (StepsMeet System.step CallerMarked (start pid) acts ↔
      ∀ done s, done <+: acts → exec System.step (start pid) done = some s → s.AllCorrect) ∧
    (StepsMeet System.step ForksFresh (start pid) acts →
      StepsMeet System.step CallerMarked (start pid) acts) := by
  constructor
  · refine meets_iff_forall_reached (I := Inv) (P := AllCorrect) ?_ ?_ (start_inv hpid) ?_ hrun
    · exact fun s a t hs h => hs.step h
    · exact fun s a t hs hcorrect h => step_allCorrect_iff hs hcorrect h
    · exact fun call hcall => absurd hcall List.not_mem_nil
  · refine StepsMeet.imp_of_invariant (I := fun s => s.Inv ∧ s.NoMainCleared) ?_ ?_
      ⟨start_inv hpid, start_noMainCleared pid⟩
    · exact fun s a t hs hfork h => ⟨hs.1.step h, hs.2.step hs.1 hfork h⟩
    · exact fun s a hs _ => callerMarked_of_noMainCleared hs.2 a

/-- The main thread caches its id and forks, and so does a thread before its first call. -/
def forksOfFresh : List Act := [.currentId 0 0, .fork 0 0 101, .currentId 1 0, .currentId 1 0,
  .createThread 1 102, .fork 1 1 103, .currentId 2 0, .currentId 1 1, .currentId 0 0]

theorem currentId_correct_iff_fresh :
    ∃ t, exec System.step (start 100) forksOfFresh = some t ∧ t.AllCorrect := by
  have hrun : ∃ t, exec System.step (start 100) forksOfFresh = some t ∧
      t.returned.length = 6 := exists_exec_of_decide (by decide)
  obtain ⟨t, hrun, -⟩ := hrun
  have hiff := currentId_correct_iff (by decide) hrun
  exact ⟨t, hrun, hiff.1.mp (hiff.2 (by decide)) forksOfFresh t List.prefix_rfl hrun⟩

/-- A thread that is not the main one caches its id, 101, and forks: in the child, with the id 102,
`CurrentId` returns 101. -/
theorem currentId_of_parent :
    ∃ t, exec System.step (start 100)
        [.createThread 0 101, .currentId 0 1, .fork 0 1 102, .currentId 1 0] = some t ∧
      t.returned = [(101, 101), (102, 101)] ∧ ¬t.AllCorrect :=
  exists_exec_of_decide (by decide)

end System

end Sparo.Base.PlatformThread
