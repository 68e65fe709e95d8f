import Sparo.Demo.IpcDemo

/-!
# Runs of `ipc_demo`

At start-up nothing but the first notification keeps the child from a buffer that is not yet
initialized. Afterwards a notification announces one integer at least: a read takes all bytes out
of the buffer and prints the first integer only.
-/

namespace Sparo.Demo.IpcDemo

open StepSystem

variable {s t : State} {a : Act} {acts : List Act}

/-! ## Steps -/

/-- What a step of the two processes can do. -/
inductive StepTo (s : State) : Act → State → Prop where
  | createFds (hpc : s.parent = .createFds) : StepTo s .parent { s with parent := .sendFds }
  | sendFds (hpc : s.parent = .sendFds) :
      StepTo s .parent { s with parent := .initializeChildWrite, sent := true }
  | initializeChildWrite (hpc : s.parent = .initializeChildWrite) :
      StepTo s .parent
        { s with parent := .initializeParentWrite, toParent := s.toParent.initializeBuffer }
  | initializeParentWrite (hpc : s.parent = .initializeParentWrite) :
      StepTo s .parent { s with parent := .write, toChild := s.toChild.initializeBuffer }
  /-- No write is due, or there is no space for it. -/
  | parentSkip (hpc : s.parent = .write) :
      StepTo s .parent { s with parent := .wait, pp := s.pp + 1 }
  | parentWrite (hpc : s.parent = .write) (c : Channel)
      (hwrite : s.toChild.tryWrite s.pp = (c, true)) :
      StepTo s .parent { s with parent := .notify, toChild := c }
  | parentNotify (hpc : s.parent = .notify) :
      StepTo s .parent { s with parent := .wait, toChild := s.toChild.notify, pp := s.pp + 1 }
  | parentNoEvent (hpc : s.parent = .wait) : StepTo s .parent { s with parent := .write }
  | parentEvent (hpc : s.parent = .wait) :
      StepTo s .parent { s with parent := .read, toParent := s.toParent.clear }
  | parentRead (hpc : s.parent = .read) :
      StepTo s .parent { s with parent := .wait, toParent := s.toParent.readLocked }
  | receiveFds (hpc : s.child = .receiveFds) : StepTo s .child { s with child := .create }
  | create (hpc : s.child = .create) : StepTo s .child { s with child := .top }
  | top (hpc : s.child = .top) :
      StepTo s .child { s with
        child := if (s.kk + 1) % 2 = 0 then .write else .wait
        kk := s.kk + 1 }
  /-- There is no space for the write. -/
  | childSkip (hpc : s.child = .write) : StepTo s .child { s with child := .wait }
  | childWrite (hpc : s.child = .write) (c : Channel)
      (hwrite : s.toParent.tryWrite s.kk = (c, true)) :
      StepTo s .child { s with child := .notify, toParent := c }
  | childNotify (hpc : s.child = .notify) :
      StepTo s .child { s with child := .wait, toParent := s.toParent.notify }
  | childEvent (hpc : s.child = .wait) (hcounter : s.toChild.counter ≠ 0) :
      StepTo s .child { s with child := .read, toChild := s.toChild.clear }
  | childRead (hpc : s.child = .read) :
      StepTo s .child { s with child := .top, toChild := s.toChild.readLocked }
  | orphaned (hpc : s.child = .write) : StepTo s .orphaned { s with child := .exited }

theorem stepTo_parentStep (s : State) : StepTo s .parent (parentStep s) := by
  unfold parentStep
  cases hpc : s.parent with
  | createFds => exact .createFds hpc
  | sendFds => exact .sendFds hpc
  | initializeChildWrite => exact .initializeChildWrite hpc
  | initializeParentWrite => exact .initializeParentWrite hpc
  | write =>
    dsimp only
    split
    · split
      · exact .parentSkip hpc
      · next c hwrite => exact .parentWrite hpc c hwrite
    · exact .parentSkip hpc
  | notify => exact .parentNotify hpc
  | wait =>
    dsimp only
    split
    · exact .parentNoEvent hpc
    · exact .parentEvent hpc
  | read => exact .parentRead hpc

theorem stepTo_of_childStep (h : childStep s = some t) : StepTo s .child t := by
  unfold childStep at h
  cases hpc : s.child with
  | receiveFds =>
    simp only [hpc] at h
    split at h <;> cases h
    exact .receiveFds hpc
  | create =>
    simp only [hpc] at h
    cases h
    exact .create hpc
  | top =>
    simp only [hpc] at h
    cases h
    exact .top hpc
  | write =>
    simp only [hpc] at h
    split at h
    · cases h
      exact .childSkip hpc
    · next c hwrite =>
      cases h
      exact .childWrite hpc c hwrite
  | notify =>
    simp only [hpc] at h
    cases h
    exact .childNotify hpc
  | wait =>
    simp only [hpc] at h
    split at h
    · cases h
    · next hcounter =>
      cases h
      exact .childEvent hpc hcounter
  | read =>
    simp only [hpc] at h
    cases h
    exact .childRead hpc
  | exited =>
    simp only [hpc] at h
    cases h

/-- Every step is one of the listed ones. -/
theorem stepTo_of_step (h : step s a = some t) : StepTo s a t := by
  cases a with
  | parent =>
    cases h
    exact stepTo_parentStep s
  | child => exact stepTo_of_childStep h
  | orphaned =>
    simp only [step] at h
    split at h
    · next hpc =>
      cases h
      exact .orphaned hpc
    · cases h

theorem tryWrite_eq {c d : Channel} {n : Int32} (h : c.tryWrite n = (d, true)) :
    d = { c with ring := c.ring ++ toBytes n, written := c.written ++ [n] } := by
  unfold Channel.tryWrite at h
  split at h <;> cases h
  rfl

/-! ## Start-up -/

/-- The parent is in its loop. -/
def ParentPc.inLoop : ParentPc → Bool
  | .createFds | .sendFds | .initializeChildWrite | .initializeParentWrite => false
  | .write | .notify | .wait | .read => true

/-- The next step of the child calls a shared buffer. -/
def ChildPc.callsBuffer : ChildPc → Bool
  | .write | .read => true
  | .receiveFds | .create | .top | .notify | .wait | .exited => false

/-- The child has not got past its first `WaitReadable`. -/
def ChildHeld (child : ChildPc) (kk : Int32) : Prop :=
  (child = .receiveFds ∨ child = .create ∨ child = .top) ∧ kk = 0 ∨ child = .wait ∧ kk = 1

/-- Before the parent is in its loop nothing was written, and nothing was announced to the
child. -/
structure Starting (s : State) : Prop where
  notInLoop : s.parent.inLoop = false
  held : ChildHeld s.child s.kk
  silent : s.toChild.counter = 0
  empty : s.toParent.ring = [] ∧ s.toChild.ring = []
  first : s.parent = .initializeParentWrite → s.toParent.initialized = true

/-- The parent is in its loop, with both buffers initialized. -/
structure Started (s : State) : Prop where
  inLoop : s.parent.inLoop = true
  toParent : s.toParent.initialized = true
  toChild : s.toChild.initialized = true

theorem ChildHeld.not_callsBuffer {child : ChildPc} {kk : Int32} (h : ChildHeld child kk) :
    child.callsBuffer = false := by
  rcases h with ⟨rfl | rfl | rfl, -⟩ | ⟨rfl, -⟩ <;> rfl

theorem starting_initial : Starting {} where
  notInLoop := rfl
  held := .inl ⟨.inl rfl, rfl⟩
  silent := rfl
  empty := ⟨rfl, rfl⟩
  first := nofun

/-- The parent's loop keeps both buffers initialized. -/
theorem Started.step (hs : Started s) (h : StepTo s a t) : Started t := by
  obtain ⟨hloop, hparent, hchild⟩ := hs
  cases h with
  | createFds hpc | sendFds hpc | initializeChildWrite hpc | initializeParentWrite hpc =>
    rw [hpc] at hloop
    cases hloop
  | parentWrite hpc c hwrite =>
    rw [tryWrite_eq hwrite]
    exact ⟨rfl, hparent, hchild⟩
  | childWrite hpc c hwrite =>
    rw [tryWrite_eq hwrite]
    exact ⟨hloop, hparent, hchild⟩
  | parentSkip | parentNotify | parentNoEvent | parentEvent | parentRead =>
    exact ⟨rfl, hparent, hchild⟩
  | receiveFds | create | top | childSkip | childNotify | childEvent | childRead | orphaned =>
    exact ⟨hloop, hparent, hchild⟩

/-- The parent leaves the start-up by its second `Initialize`, and the child is held until then:
its counter is odd in the first turn, which therefore waits before it writes. -/
theorem Starting.step (hs : Starting s) (h : StepTo s a t) : Started t ∨ Starting t := by
  obtain ⟨hloop, hheld, hsilent, hempty, hfirst⟩ := hs
  have hcalls := hheld.not_callsBuffer
  cases h with
  | createFds | sendFds => exact .inr ⟨rfl, hheld, hsilent, hempty, nofun⟩
  | initializeChildWrite => exact .inr ⟨rfl, hheld, hsilent, ⟨rfl, hempty.2⟩, fun _ => rfl⟩
  | initializeParentWrite hpc => exact .inl ⟨rfl, hfirst hpc, rfl⟩
  | parentSkip hpc | parentWrite hpc | parentNotify hpc | parentNoEvent hpc | parentEvent hpc
  | parentRead hpc =>
    rw [hpc] at hloop
    cases hloop
  | receiveFds hpc =>
    have hkk : s.kk = 0 := by simpa [ChildHeld, hpc] using hheld
    exact .inr ⟨hloop, .inl ⟨.inr (.inl rfl), hkk⟩, hsilent, hempty, hfirst⟩
  | create hpc =>
    have hkk : s.kk = 0 := by simpa [ChildHeld, hpc] using hheld
    exact .inr ⟨hloop, .inl ⟨.inr (.inr rfl), hkk⟩, hsilent, hempty, hfirst⟩
  | top hpc =>
    have hkk : s.kk = 0 := by simpa [ChildHeld, hpc] using hheld
    refine .inr ⟨hloop, .inr ?_, hsilent, hempty, hfirst⟩
    simp [hkk]
  | childEvent hpc hcounter => exact absurd hsilent hcounter
  | childNotify hpc => simp [ChildHeld, hpc] at hheld
  | childSkip hpc | childWrite hpc | childRead hpc | orphaned hpc =>
    rw [hpc] at hcalls
    cases hcalls

theorem started_or_starting_of_step (hs : Started s ∨ Starting s) (h : StepTo s a t) :
    Started t ∨ Starting t := by
  rcases hs with hstarted | hstarting
  · exact .inl (hstarted.step h)
  · exact hstarting.step h

theorem started_or_starting (hrun : exec step {} acts = some s) : Started s ∨ Starting s := by
  refine exec_invariant (I := fun s => Started s ∨ Starting s) ?_ (.inr starting_initial) hrun
  intro s a t hs h
  exact started_or_starting_of_step hs (stepTo_of_step h)

/-- A step of the child that does not call a buffer leaves the contents of both as they are. -/
theorem ring_eq_of_not_callsBuffer (hcalls : s.child.callsBuffer = false)
    (h : StepTo s .child t) :
    t.toParent.ring = s.toParent.ring ∧ t.toChild.ring = s.toChild.ring := by
  cases h with
  | childSkip hpc | childWrite hpc | childRead hpc =>
    rw [hpc] at hcalls
    cases hcalls
  | receiveFds | create | top | childNotify | childEvent => exact ⟨rfl, rfl⟩

/-- As long as the parent has not initialized both buffers, no step of the child calls one. -/
theorem child_after_initialize (hrun : exec step {} acts = some s)
    (hstep : step s .child = some t) :
    s.toParent.initialized = true ∧ s.toChild.initialized = true ∨
      s.child.callsBuffer = false ∧
        t.toParent.ring = s.toParent.ring ∧ t.toChild.ring = s.toChild.ring := by
  rcases started_or_starting hrun with hstarted | hstarting
  · exact .inl ⟨hstarted.toParent, hstarted.toChild⟩
  · have hcalls := hstarting.held.not_callsBuffer
    exact .inr ⟨hcalls, ring_eq_of_not_callsBuffer hcalls (stepTo_of_step hstep)⟩

/-- The start-up of both processes, up to the first read of the child. -/
def startUp : List Act := List.flatten [List.replicate 6 .parent, List.replicate 4 .child]

theorem child_after_initialize_startUp :
    ∃ s t, exec step {} startUp = some s ∧ step s .child = some t ∧ s.child = .read ∧
      s.toParent.initialized = true ∧ s.toChild.initialized = true := by
  have hends : ∃ s, exec step {} startUp = some s ∧
      s.child = .read ∧ (step s .child).isSome = true :=
    exists_exec_of_decide (by decide)
  obtain ⟨s, hrun, hpc, hsome⟩ := hends
  obtain ⟨t, hstep⟩ := Option.isSome_iff_exists.mp hsome
  rcases child_after_initialize hrun hstep with hinit | ⟨hcalls, -⟩
  · exact ⟨s, t, hrun, hstep, hpc, hinit⟩
  · rw [hpc] at hcalls
    cases hcalls

/-! ## Messages -/

theorem readInt_toBytes (n : Int32) (rest : List UInt8) : readInt (toBytes n ++ rest) = n := by
  have hn : n.toUInt32.toNat < 2 ^ 32 := n.toUInt32.toNat_lt
  have hbytes : readInt (toBytes n ++ rest) = (UInt32.ofNat n.toUInt32.toNat).toInt32 := by
    unfold readInt toBytes
    simp only [List.range, List.range.loop, List.map_cons, List.map_nil, List.cons_append,
      List.nil_append, List.getD_cons_zero, List.getD_cons_succ, UInt8.toNat_ofNat']
    congr 2
    omega
  rw [hbytes, UInt32.ofNat_toNat]
  simp

theorem length_flatMap_toBytes (ns : List Int32) : (ns.flatMap toBytes).length = 4 * ns.length := by
  induction ns with
  | nil => rfl
  | cons n ns ih =>
    rw [List.flatMap_cons, List.length_append, ih, List.length_cons]
    change 4 + 4 * ns.length = _
    omega

namespace Channel

variable {c d : Channel} {n : Int32}

/-- What was written is what was read and what is in the buffer. -/
def Balanced (c : Channel) : Prop := c.written.flatMap toBytes = c.consumed ++ c.ring

/-- The integers reported are the first ones written, and every byte read belongs to one of
them. -/
def LossFree (c : Channel) : Prop :=
  c.reported <+: c.written ∧ c.consumed = c.reported.flatMap toBytes

theorem Balanced.initializeBuffer (hc : c.Balanced) (hempty : c.ring = []) :
    c.initializeBuffer.Balanced := by
  unfold Balanced at hc
  rw [hempty] at hc
  exact hc

theorem Balanced.tryWrite (hc : c.Balanced) (h : c.tryWrite n = (d, true)) : d.Balanced := by
  rw [tryWrite_eq h]
  unfold Balanced at hc ⊢
  simp [hc]

theorem Balanced.readLocked (hc : c.Balanced) : c.readLocked.Balanced := by
  unfold Balanced at hc ⊢
  rw [Channel.readLocked, List.append_assoc, List.take_append_drop]
  exact hc

theorem LossFree.tryWrite (hc : c.LossFree) (h : c.tryWrite n = (d, true)) : d.LossFree := by
  rw [tryWrite_eq h]
  exact ⟨hc.1.trans (List.prefix_append _ _), hc.2⟩

theorem four_lt_usableLen : 4 < usableLen := by decide

/-- A read loses nothing exactly when there is one integer in the buffer at most. -/
theorem readLocked_lossFree_iff (hc : c.Balanced) (hfree : c.LossFree) :
    c.readLocked.LossFree ↔ c.ring.length ≤ 4 := by
  obtain ⟨⟨rest, hrest⟩, hconsumed⟩ := hfree
  have hring : c.ring = rest.flatMap toBytes := by
    unfold Balanced at hc
    rw [← hrest, List.flatMap_append, hconsumed] at hc
    exact (List.append_cancel_left hc).symm
  have hlength : c.ring.length = 4 * rest.length := by rw [hring, length_flatMap_toBytes]
  have husable := four_lt_usableLen
  constructor
  · rintro ⟨-, hconsumed'⟩
    have htotal := congrArg List.length hconsumed'
    simp only [Channel.readLocked, hconsumed, length_flatMap_toBytes, List.length_append,
      List.length_take] at htotal
    split at htotal
    · omega
    · rw [List.length_append, List.length_singleton] at htotal
      omega
  · intro hle
    have htake : c.ring.take usableLen = c.ring := List.take_of_length_le (by omega)
    unfold LossFree Channel.readLocked
    dsimp only
    rw [htake]
    cases rest with
    | nil =>
      have hnil : c.ring = [] := by simpa using hring
      rw [hnil]
      exact ⟨⟨[], hrest⟩, by simpa using hconsumed⟩
    | cons n rest =>
      obtain rfl : rest = [] := by
        rw [List.length_cons] at hlength
        exact List.length_eq_zero_iff.mp (by omega)
      have hone : c.ring = toBytes n := by simpa using hring
      have hread : readInt c.ring = n := by
        have hfirst := readInt_toBytes n []
        rwa [List.append_nil, ← hone] at hfirst
      have hsome : ¬c.ring.isEmpty = true := by rw [hone]; exact Bool.false_ne_true
      rw [if_neg hsome, hread]
      refine ⟨⟨[], by simpa using hrest⟩, ?_⟩
      rw [hconsumed, hone]
      simp

end Channel

/-- What holds of the buffers on every run. -/
structure MessageInv (s : State) : Prop where
  phase : Started s ∨ Starting s
  toParent : s.toParent.Balanced
  toChild : s.toChild.Balanced

/-- Nothing is lost or reordered in either direction. -/
def LossFree (s : State) : Prop := s.toParent.LossFree ∧ s.toChild.LossFree

/-- A read finds one integer in the buffer at most. -/
def ReadsOne (s : State) : Act → Prop
  | .parent => s.parent = .read → s.toParent.ring.length ≤ 4
  | .child => s.child = .read → s.toChild.ring.length ≤ 4
  | .orphaned => True

instance (s : State) : DecidablePred (ReadsOne s)
  | .parent => inferInstanceAs (Decidable (_ → _))
  | .child => inferInstanceAs (Decidable (_ → _))
  | .orphaned => isTrue trivial

theorem MessageInv.step (hs : MessageInv s) (h : StepTo s a t) : MessageInv t := by
  obtain ⟨hphase, hparent, hchild⟩ := hs
  have hempty : s.parent.inLoop = false → s.toParent.ring = [] ∧ s.toChild.ring = [] := by
    intro hloop
    rcases hphase with hstarted | hstarting
    · rw [hstarted.inLoop] at hloop
      cases hloop
    · exact hstarting.empty
  refine ⟨started_or_starting_of_step hphase h, ?_, ?_⟩
  · cases h with
    | initializeChildWrite hpc => exact hparent.initializeBuffer (hempty (by rw [hpc]; rfl)).1
    | childWrite hpc c hwrite => exact hparent.tryWrite hwrite
    | parentRead => exact hparent.readLocked
    | createFds | sendFds | initializeParentWrite | parentSkip | parentWrite | parentNotify
    | parentNoEvent | parentEvent | receiveFds | create | top | childSkip | childNotify
    | childEvent | childRead | orphaned => exact hparent
  · cases h with
    | initializeParentWrite hpc => exact hchild.initializeBuffer (hempty (by rw [hpc]; rfl)).2
    | parentWrite hpc c hwrite => exact hchild.tryWrite hwrite
    | childRead => exact hchild.readLocked
    | createFds | sendFds | initializeChildWrite | parentSkip | childWrite | parentNotify
    | parentNoEvent | parentEvent | receiveFds | create | top | childSkip | childNotify
    | childEvent | parentRead | orphaned => exact hchild

/-- Only reads can lose anything. -/
theorem lossFree_iff_of_step (hs : MessageInv s) (hfree : LossFree s) (h : StepTo s a t) :
    LossFree t ↔ ReadsOne s a := by
  obtain ⟨hparent, hchild⟩ := hfree
  cases h with
  | parentRead hpc =>
    have hread := Channel.readLocked_lossFree_iff hs.toParent hparent
    simp [LossFree, ReadsOne, hpc, hread, hchild]
  | childRead hpc =>
    have hread := Channel.readLocked_lossFree_iff hs.toChild hchild
    simp [LossFree, ReadsOne, hpc, hread, hparent]
  | parentWrite hpc c hwrite =>
    exact iff_of_true ⟨hparent, hchild.tryWrite hwrite⟩ fun hread => by simp [hpc] at hread
  | childWrite hpc c hwrite =>
    exact iff_of_true ⟨hparent.tryWrite hwrite, hchild⟩ fun hread => by simp [hpc] at hread
  | createFds hpc | sendFds hpc | initializeChildWrite hpc | initializeParentWrite hpc
  | parentSkip hpc | parentNotify hpc | parentNoEvent hpc | parentEvent hpc | receiveFds hpc
  | create hpc | top hpc | childSkip hpc | childNotify hpc | childEvent hpc =>
    exact iff_of_true ⟨hparent, hchild⟩ fun hread => by simp [hpc] at hread
  | orphaned hpc => exact iff_of_true ⟨hparent, hchild⟩ trivial

/-- In every state of a run each process has reported the first integers that the other one wrote,
and nothing more was taken out of the buffers, exactly when every read of the run finds one integer
in its buffer at most. -/
theorem lossFree_iff (hrun : exec step {} acts = some t) :
    StepsMeet step ReadsOne {} acts ↔
      ∀ done s, done <+: acts → exec step {} done = some s → LossFree s := by
  have hinitial : MessageInv {} := ⟨.inr starting_initial, rfl, rfl⟩
  refine meets_iff_forall_reached (I := MessageInv) (P := LossFree) ?_ ?_ hinitial ?_ hrun
  · exact fun s a t hs h => hs.step (stepTo_of_step h)
  · exact fun s a t hs hfree h => lossFree_iff_of_step hs hfree (stepTo_of_step h)
  · exact ⟨⟨List.nil_prefix, rfl⟩, ⟨List.nil_prefix, rfl⟩⟩

/-- Both processes start up, the parent writes 100 and the child reads it; in its second turn the
child writes 2 and the parent reads it. -/
def exchange : List Act :=
  List.flatten [startUp, List.replicate 4 .child, List.replicate 2 .parent]

theorem lossFree_iff_exchange :
    ∃ t, exec step {} exchange = some t ∧ t.toChild.reported = [100] ∧ t.toParent.reported = [2] ∧
      LossFree t := by
  have hends : ∃ t, exec step {} exchange = some t ∧
      t.toChild.reported = [100] ∧ t.toParent.reported = [2] :=
    exists_exec_of_decide (by decide)
  have hmeet : StepsMeet step ReadsOne {} exchange := by decide
  obtain ⟨t, hrun, hchild, hparent⟩ := hends
  exact ⟨t, hrun, hchild, hparent,
    (lossFree_iff hrun).mp hmeet exchange t List.prefix_rfl hrun⟩

/-- The parent writes 100 and 102 before the child reads: the child takes both out of the buffer
and reports 100 only. -/
theorem child_skips_message :
    ∃ t, exec step {} (List.flatten [List.replicate 11 .parent, List.replicate 5 .child]) = some t ∧
      t.toChild.written = [100, 102] ∧ t.toChild.reported = [100] ∧ ¬LossFree t := by
  have hends : ∃ t,
      exec step {} (List.flatten [List.replicate 11 .parent, List.replicate 5 .child]) = some t ∧
      t.toChild.written = [100, 102] ∧ t.toChild.reported = [100] ∧ t.toChild.consumed.length = 8 :=
    exists_exec_of_decide (by decide)
  obtain ⟨t, hrun, hwritten, hreported, hconsumed⟩ := hends
  refine ⟨t, hrun, hwritten, hreported, fun hfree => ?_⟩
  have hbytes := congrArg List.length hfree.2.2
  rw [hconsumed, hreported, length_flatMap_toBytes] at hbytes
  exact absurd hbytes (by decide)

end Sparo.Demo.IpcDemo
