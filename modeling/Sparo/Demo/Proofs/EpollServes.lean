import Sparo.Demo.Proofs.EpollSteps
import Sparo.Misc.Potential

/-!
# What the epoll server leaves behind

Left alone, the server takes finitely many steps. `served_iff` says which of the choices in
`epoll_lt_et.c` make it read everything before it stops: level-triggered connections, or
edge-triggered ones that are non-blocking and read until nothing is left.
-/

namespace Sparo.Demo.EpollLtEt

open StepSystem ThreadSum

variable {config : Config} {s t : State} {a : Act}

/-! ## The invariant -/

/-- What the receive queue has to do with what was sent, received and closed. -/
structure ConnOk (c : Conn) : Prop where
  sent : c.sent = c.received ++ c.queue
  closed : c.status = .closed → c.queue = [] ∧ c.fin = true

/-- The `i`-th connection is one that the server may be about to read. -/
def Pending (s : State) (i : Nat) : Prop :=
  ∃ c, s.conns[i]? = some c ∧ c.status = .accepted ∧
    ((∀ events, s.pc ≠ .etLoop i events) → c.readable = true)

/-- The invariant. -/
structure Inv (config : Config) (s : State) : Prop where
  nodup : s.pc.events.Nodup
  listen : .listen ∈ s.pc.events → ∃ c ∈ s.conns, c.status = .queued
  pending : ∀ i, .conn i ∈ s.pc.events → Pending s i
  conns : ∀ c ∈ s.conns, ConnOk c
  /-- Only the handler that reads in a loop is ever in the loop. -/
  loop : ∀ i events, s.pc = .etLoop i events → config.handler = .epollEtLoop
  /-- A readable connection is reported again, or is still to be handled. -/
  reported : config.handler ≠ .epollEtNonloop → ∀ (i : Nat) (c : Conn), s.conns[i]? = some c →
    c.status = .accepted → c.readable = true →
      config.handler = .epollLt ∨ c.armed = true ∨ .conn i ∈ s.pc.events

theorem inv_init (config : Config) : Inv config {} where
  nodup := List.nodup_nil
  listen h := by cases h
  pending i h := by cases h
  conns c hc := by cases hc
  loop i events h := by cases h
  reported _ i c hi := by cases hi

theorem connOk_empty : ConnOk {} where
  sent := rfl
  closed h := by cases h

theorem ConnOk.send {c : Conn} (h : ConnOk c) (bytes : List UInt8) (hopen : c.status ≠ .closed) :
    ConnOk { c with queue := c.queue ++ bytes, sent := c.sent ++ bytes, armed := true } where
  sent := by rw [h.sent, List.append_assoc]
  closed hclosed := absurd hclosed hopen

theorem ConnOk.shutdown {c : Conn} (h : ConnOk c) (hopen : c.status ≠ .closed) :
    ConnOk { c with fin := true, armed := true } where
  sent := h.sent
  closed hclosed := absurd hclosed hopen

theorem ConnOk.accept {c : Conn} (h : ConnOk c) :
    ConnOk { c with status := .accepted, armed := c.readable } where
  sent := h.sent
  closed hclosed := by cases hclosed

theorem ConnOk.drained {c : Conn} (h : ConnOk c) (hqueue : c.queue ≠ []) : ConnOk c.drained where
  sent := by
    change c.sent = c.received ++ c.queue.take maxBufferSize ++ c.queue.drop maxBufferSize
    rw [List.append_assoc, List.take_append_drop, h.sent]
  closed hclosed := absurd (h.closed hclosed).1 hqueue

theorem ConnOk.close {c : Conn} (h : ConnOk c) (hqueue : c.queue = []) (hfin : c.fin = true) :
    ConnOk c.close where
  sent := h.sent
  closed _ := ⟨hqueue, hfin⟩

theorem Conn.readable_of_queue {c : Conn} (h : c.queue ≠ []) : c.readable = true := by
  cases hqueue : c.queue with
  | nil => exact absurd hqueue h
  | cons b queue => simp [Conn.readable, hqueue]

theorem Conn.fin_of_readable {c : Conn} (h : c.readable = true) (hqueue : c.queue = []) :
    c.fin = true := by
  simpa [Conn.readable, hqueue] using h

/-- `accept` takes a connection out of the backlog. -/
theorem accept_eq {conns : List Conn} (h : ∃ c ∈ conns, c.status = .queued) :
    ∃ i c, conns[i]? = some c ∧ c.status = .queued ∧
      accept conns = conns.set i { c with status := .accepted, armed := c.readable } := by
  have hsome := List.findIdx?_eq_some_of_exists (p := fun c : Conn => c.status = .queued)
    (by simpa using h)
  obtain ⟨hlt, hqueued, -⟩ := List.findIdx?_eq_some_iff_getElem.1 hsome
  refine ⟨_, _, List.getElem?_eq_getElem hlt, by simpa using hqueued, ?_⟩
  rw [accept, hsome]
  exact List.modify_eq_set_getElem? _ _ _ |>.trans (by rw [List.getElem?_eq_getElem hlt]; rfl)

/-- A step that changes one connection, and takes events off the front at most. -/
theorem Inv.change {i : Nat} {c c' : Conn} {pc' : Pc} (h : Inv config s)
    (hi : s.conns[i]? = some c) (hok : ConnOk c') (hsub : pc'.events.Sublist s.pc.events)
    (hlisten : .listen ∈ pc'.events → c.status = .queued → c'.status = .queued)
    (hpending : .conn i ∈ pc'.events →
      c'.status = .accepted ∧ ((∀ events, pc' ≠ .etLoop i events) → c'.readable = true))
    (hloop : ∀ j events, pc' = .etLoop j events → config.handler = .epollEtLoop)
    (hreported : config.handler ≠ .epollEtNonloop → c'.status = .accepted → c'.readable = true →
      config.handler = .epollLt ∨ c'.armed = true ∨ .conn i ∈ pc'.events)
    (hothers : ∀ j, j ≠ i → .conn j ∈ s.pc.events → .conn j ∈ pc'.events)
    (hsame : ∀ j events, j ≠ i → s.pc = .etLoop j events → pc' = s.pc) :
    Inv config ⟨s.conns.set i c', pc'⟩ where
  nodup := hsub.nodup h.nodup
  listen hmem := exists_mem_set hi (h.listen (hsub.subset hmem)) (hlisten hmem)
  pending j hmem := by
    obtain ⟨hlt, -⟩ := List.getElem?_eq_some_iff.1 hi
    by_cases hji : j = i
    · subst hji
      obtain ⟨hstatus, hreadable⟩ := hpending hmem
      exact ⟨c', List.getElem?_set_self hlt, hstatus, hreadable⟩
    · obtain ⟨x, hj, hstatus, hreadable⟩ := h.pending j (hsub.subset hmem)
      refine ⟨x, (List.getElem?_set_ne (Ne.symm hji)).trans hj, hstatus, fun hne => ?_⟩
      exact hreadable fun events hpc => hne events ((hsame j events hji hpc).trans hpc)
  conns x hx := by
    rcases List.mem_or_eq_of_mem_set hx with hold | rfl
    · exact h.conns x hold
    · exact hok
  loop := hloop
  reported hhandler j x hj hstatus hreadable := by
    obtain ⟨hlt, -⟩ := List.getElem?_eq_some_iff.1 hi
    by_cases hji : j = i
    · subst hji
      obtain rfl : c' = x := Option.some.inj ((List.getElem?_set_self hlt).symm.trans hj)
      exact hreported hhandler hstatus hreadable
    · rw [List.getElem?_set_ne (Ne.symm hji)] at hj
      rcases h.reported hhandler j x hj hstatus hreadable with hlt | harmed | hmem
      · exact .inl hlt
      · exact .inr (.inl harmed)
      · exact .inr (.inr (hothers j hji hmem))

theorem getElem?_report (events : List Event) (conns : List Conn) (i : Nat) :
    (report events conns)[i]? =
      (conns[i]?).map fun c => if .conn i ∈ events then { c with armed := false } else c := by
  rw [report, List.getElem?_mapIdx]

/-- Reporting only forgets that something has arrived. -/
theorem report_getElem? {events : List Event} {conns : List Conn} {i : Nat} {c : Conn}
    (hi : (report events conns)[i]? = some c) :
    ∃ x armed, conns[i]? = some x ∧ c = { x with armed := armed } ∧
      (.conn i ∉ events → armed = x.armed) := by
  rw [getElem?_report] at hi
  obtain ⟨x, hx, rfl⟩ := Option.map_eq_some_iff.1 hi
  by_cases hmem : Event.conn i ∈ events
  · exact ⟨x, false, hx, by rw [if_pos hmem], fun hnot => absurd hmem hnot⟩
  · exact ⟨x, x.armed, hx, by rw [if_neg hmem], fun _ => rfl⟩

theorem inv_connect (h : Inv config s) : Inv config { s with conns := s.conns ++ [{}] } where
  nodup := h.nodup
  listen hmem := by
    obtain ⟨c, hc, hqueued⟩ := h.listen hmem
    exact ⟨c, List.mem_append_left _ hc, hqueued⟩
  pending i hmem := by
    obtain ⟨c, hi, hc⟩ := h.pending i hmem
    obtain ⟨hlt, -⟩ := List.getElem?_eq_some_iff.1 hi
    exact ⟨c, (List.getElem?_append_left hlt).trans hi, hc⟩
  conns c hc := by
    rcases List.mem_append.1 hc with hold | hnew
    · exact h.conns c hold
    · rw [List.mem_singleton.1 hnew]
      exact connOk_empty
  loop := h.loop
  reported hhandler i c hi hstatus hreadable := by
    by_cases hlt : i < s.conns.length
    · rw [List.getElem?_append_left hlt] at hi
      exact h.reported hhandler i c hi hstatus hreadable
    · rw [List.getElem?_append_right (Nat.le_of_not_lt hlt)] at hi
      obtain rfl : c = {} := List.mem_singleton.1 (List.mem_of_getElem? hi)
      cases hstatus

theorem inv_epollWait {events : List Event} (h : Inv config s) (hpc : s.pc = .wait)
    (hnodup : events.Nodup) (hready : ∀ e ∈ events, ready config s.conns e = true) :
    Inv config ⟨report events s.conns, .process events⟩ where
  nodup := hnodup
  listen hmem := by
    obtain ⟨c, hc, hqueued⟩ := List.any_eq_true.1 (hready _ hmem)
    obtain ⟨i, hlt, rfl⟩ := List.mem_iff_getElem.1 hc
    have hi := getElem?_report events s.conns i
    rw [List.getElem?_eq_getElem hlt, Option.map_some] at hi
    refine ⟨_, List.mem_of_getElem? hi, ?_⟩
    split <;> simpa using hqueued
  pending i hmem := by
    obtain ⟨c, hi, hc⟩ := Option.any_eq_true _ _ |>.1 (hready _ hmem)
    simp only [Conn.ready, Bool.and_eq_true, decide_eq_true_eq] at hc
    refine ⟨{ c with armed := false }, ?_, hc.1.1, fun _ => hc.1.2⟩
    change Event.conn i ∈ events at hmem
    change (report events s.conns)[i]? = _
    rw [getElem?_report, hi, Option.map_some, if_pos hmem]
  conns c hc := by
    obtain ⟨i, hi⟩ := List.mem_iff_getElem?.1 hc
    obtain ⟨x, armed, hx, rfl, -⟩ := report_getElem? hi
    have hok := h.conns x (List.mem_of_getElem? hx)
    exact ⟨hok.sent, hok.closed⟩
  loop i events hloop := by cases hloop
  reported hhandler i c hi hstatus hreadable := by
    obtain ⟨x, armed, hx, rfl, harmed⟩ := report_getElem? hi
    by_cases hmem : Event.conn i ∈ events
    · exact .inr (.inr hmem)
    · rw [harmed hmem]
      rcases h.reported hhandler i x hx hstatus hreadable with hlt | harmed | hold
      · exact .inl hlt
      · exact .inr (.inl harmed)
      · rw [hpc] at hold
        cases hold

/-- A step of the server that only changes where it is. -/
theorem Inv.move {pc' : Pc} (h : Inv config s) (hsub : pc'.events.Sublist s.pc.events)
    (hpending : ∀ i, .conn i ∈ pc'.events → ∀ events, s.pc ≠ .etLoop i events)
    (hloop : ∀ i events, pc' = .etLoop i events → config.handler = .epollEtLoop)
    (hkept : ∀ i c, s.conns[i]? = some c → c.readable = true → .conn i ∈ s.pc.events →
      .conn i ∈ pc'.events) : Inv config { s with pc := pc' } where
  nodup := hsub.nodup h.nodup
  listen hmem := h.listen (hsub.subset hmem)
  pending i hmem := by
    obtain ⟨c, hi, hstatus, hreadable⟩ := h.pending i (hsub.subset hmem)
    exact ⟨c, hi, hstatus, fun _ => hreadable (hpending i hmem)⟩
  conns := h.conns
  loop := hloop
  reported hhandler i c hi hstatus hreadable := by
    rcases h.reported hhandler i c hi hstatus hreadable with hlt | harmed | hmem
    · exact .inl hlt
    · exact .inr (.inl harmed)
    · exact .inr (.inr (hkept i c hi hreadable hmem))

/-- The connection whose event is the first one is accepted, and no other event is about it. -/
theorem Inv.handled {i : Nat} {c : Conn} {events : List Event} (h : Inv config s)
    (hi : s.conns[i]? = some c) (hevents : s.pc.events = .conn i :: events) :
    c.status = .accepted ∧ .conn i ∉ events ∧
      ∀ j, j ≠ i → .conn j ∈ s.pc.events → .conn j ∈ events := by
  have hnodup := h.nodup
  rw [hevents] at hnodup ⊢
  obtain ⟨x, hx, hstatus, -⟩ := h.pending i (by rw [hevents]; exact List.mem_cons_self ..)
  cases hi.symm.trans hx
  refine ⟨hstatus, (List.nodup_cons.1 hnodup).1, fun j hne hmem => ?_⟩
  exact (List.mem_cons.1 hmem).resolve_left fun he => hne (Event.conn.inj he)

theorem Inv.step (h : Inv config s) (hstep : StepTo config s a t) : Inv config t := by
  obtain ⟨conns, pc⟩ := s
  cases hstep with
  | connect => exact inv_connect h
  | send i c bytes hi hne hfin hopen =>
    exact h.change hi ((h.conns c (List.mem_of_getElem? hi)).send bytes hopen) (.refl _)
      (fun _ hqueued => hqueued)
      (fun hmem => by
        obtain ⟨x, hx, hstatus, -⟩ := h.pending i hmem
        cases hi.symm.trans hx
        exact ⟨hstatus, fun _ => Conn.readable_of_queue (by simp [hne])⟩)
      h.loop (fun _ _ _ => .inr (.inl rfl)) (fun _ _ hmem => hmem) fun _ _ _ _ => rfl
  | shutdown i c hi hfin hopen =>
    exact h.change hi ((h.conns c (List.mem_of_getElem? hi)).shutdown hopen) (.refl _)
      (fun _ hqueued => hqueued)
      (fun hmem => by
        obtain ⟨x, hx, hstatus, -⟩ := h.pending i hmem
        cases hi.symm.trans hx
        exact ⟨hstatus, fun _ => by simp [Conn.readable]⟩)
      h.loop (fun _ _ _ => .inr (.inl rfl)) (fun _ _ hmem => hmem) fun _ _ _ _ => rfl
  | epollWait events hpc hne hnodup hready => exact inv_epollWait h hpc hnodup hready
  | finish hpc =>
    cases hpc
    exact h.move (.refl _) (fun _ hmem => by cases hmem) (fun _ _ hloop => by cases hloop)
      fun _ _ _ _ hmem => hmem
  | accept events hpc =>
    cases hpc
    obtain ⟨i, c, hi, hqueued, haccept⟩ := accept_eq (h.listen (List.mem_cons_self ..))
    have hnodup := List.nodup_cons.1 h.nodup
    rw [haccept]
    refine h.change hi (h.conns c (List.mem_of_getElem? hi)).accept (List.sublist_cons_self _ _)
      (fun hmem => absurd hmem hnodup.1) (fun hmem => ?_) (fun _ _ hloop => by cases hloop)
      (fun _ _ hreadable => .inr (.inl hreadable))
      (fun j _ hmem => (List.mem_cons.1 hmem).resolve_left fun he => by cases he)
      fun _ _ _ hloop => by cases hloop
    -- a connection in the backlog is not reported yet
    obtain ⟨x, hx, hstatus, -⟩ := h.pending i (List.mem_cons_of_mem _ hmem)
    cases hi.symm.trans hx
    rw [hqueued] at hstatus
    cases hstatus
  | enter i events hpc hhandler =>
    cases hpc
    exact h.move (.refl _) (fun _ _ _ hloop => by cases hloop) (fun _ _ _ => hhandler)
      fun _ _ _ _ hmem => hmem
  | read i events c hpc hhandler hi hqueue =>
    cases hpc
    obtain ⟨hstatus, hfirst, hothers⟩ := h.handled hi rfl
    refine h.change hi ((h.conns c (List.mem_of_getElem? hi)).drained hqueue)
      (List.sublist_cons_self _ _) (fun _ hqueued => hqueued) (fun hmem => absurd hmem hfirst)
      (fun _ _ hloop => by cases hloop) (fun hnonloop _ _ => .inl ?_) hothers
      fun _ _ _ hloop => by cases hloop
    cases hconfig : config.handler with
    | epollLt => rfl
    | epollEtLoop => exact absurd hconfig hhandler
    | epollEtNonloop => exact absurd hconfig hnonloop
  | close i events c hpc hhandler hi hqueue =>
    cases hpc
    obtain ⟨hstatus, hfirst, hothers⟩ := h.handled hi rfl
    obtain ⟨x, hx, -, hreadable⟩ := h.pending i (List.mem_cons_self ..)
    cases hi.symm.trans hx
    have hfin := Conn.fin_of_readable (hreadable fun _ hloop => by cases hloop) hqueue
    exact h.change hi ((h.conns c (List.mem_of_getElem? hi)).close hqueue hfin)
      (List.sublist_cons_self _ _) (fun _ hqueued => by rw [hstatus] at hqueued; cases hqueued)
      (fun hmem => absurd hmem hfirst) (fun _ _ hloop => by cases hloop)
      (fun _ hclosed => by cases hclosed) hothers fun _ _ _ hloop => by cases hloop
  | loopData i events c hpc hi hqueue =>
    cases hpc
    obtain ⟨hstatus, -, -⟩ := h.handled hi rfl
    exact h.change hi ((h.conns c (List.mem_of_getElem? hi)).drained hqueue) (.refl _)
      (fun _ hqueued => hqueued) (fun _ => ⟨hstatus, fun hne => absurd rfl (hne events)⟩)
      h.loop (fun _ _ _ => .inr (.inr (List.mem_cons_self ..))) (fun _ _ hmem => hmem)
      fun _ _ _ _ => rfl
  | loopEof i events c hpc hi hqueue hfin =>
    cases hpc
    obtain ⟨hstatus, hfirst, hothers⟩ := h.handled hi rfl
    exact h.change hi ((h.conns c (List.mem_of_getElem? hi)).close hqueue hfin)
      (List.sublist_cons_self _ _) (fun _ hqueued => by rw [hstatus] at hqueued; cases hqueued)
      (fun hmem => absurd hmem hfirst) (fun _ _ hloop => by cases hloop)
      (fun _ hclosed => by cases hclosed) hothers
      fun j _ hne hloop => by cases hloop; exact absurd rfl hne
  | loopAgain i events c hpc hi hreadable hnonblock =>
    cases hpc
    obtain ⟨-, hfirst, hothers⟩ := h.handled hi rfl
    refine h.move (List.sublist_cons_self _ _) (fun j hmem _ hloop => ?_)
      (fun _ _ hloop => by cases hloop) fun j x hj hx hmem => hothers j (fun hji => ?_) hmem
    · cases hloop
      exact absurd hmem hfirst
    · subst hji
      cases hi.symm.trans hj
      rw [hreadable] at hx
      cases hx

theorem inv_of_run {acts : List Act} (hrun : exec (step config) {} acts = some s) :
    Inv config s :=
  exec_invariant (fun _ _ _ h hstep => h.step (stepTo_of_step hstep)) (inv_init config) hrun

/-! ## The server comes to rest -/

/-- The steps of the server. -/
def Act.ofServer : Act → Bool
  | .epollWait _ | .server => true
  | _ => false

/-- What there is still to do about a connection. -/
def Conn.load (c : Conn) : Nat :=
  c.queue.length + match c.status with
    | .queued => 2
    | .accepted => 1
    | .closed => 0

/-- How far the server is from the next thing it does to a connection. -/
def pcWork (conns : List Conn) : Pc → Nat
  | .wait => 2
  | .process [] => 3
  | .process (_ :: _) => 1
  | .etLoop i _ => if (conns[i]?).any Conn.readable then 0 else 4

/-- The steps that the server can still take at most. -/
def work (s : State) : Nat := 5 * total Conn.load s.conns + pcWork s.conns s.pc

theorem pcWork_process_le (conns : List Conn) (events : List Event) :
    pcWork conns (.process events) ≤ 3 := by
  cases events <;> simp [pcWork]

theorem pcWork_le (conns : List Conn) (pc : Pc) : pcWork conns pc ≤ 4 := by
  cases pc with
  | wait => exact Nat.le_add_left 2 2
  | process events => exact (pcWork_process_le conns events).trans (Nat.le_succ 3)
  | etLoop i events =>
    rw [pcWork]
    split
    · exact Nat.zero_le 4
    · exact Nat.le_refl 4

theorem total_load_report (events : List Event) (conns : List Conn) :
    total Conn.load (report events conns) = total Conn.load conns :=
  total_mapIdx_of_eq (fun i c => by split <;> rfl) conns

theorem Conn.load_drained {c : Conn} (hqueue : c.queue ≠ []) : c.drained.load + 1 ≤ c.load := by
  have hlen := List.length_pos_of_ne_nil hqueue
  simp only [Conn.load, Conn.drained, List.length_drop, maxBufferSize]
  omega

theorem Conn.load_close {c : Conn} (hqueue : c.queue = []) (hstatus : c.status = .accepted) :
    c.close.load + 1 = c.load := by
  simp [Conn.load, Conn.close, hqueue, hstatus]

theorem Conn.load_accept {c : Conn} (hstatus : c.status = .queued) :
    Conn.load { c with status := .accepted, armed := c.readable } + 1 = c.load := by
  simp [Conn.load, hstatus]

/-- A step of the server uses up some of the work. -/
theorem work_step (h : Inv config s) (hserver : a.ofServer = true) (hstep : StepTo config s a t) :
    work t + 1 ≤ work s := by
  obtain ⟨conns, pc⟩ := s
  unfold work
  cases hstep with
  | connect => cases hserver
  | send i c bytes hi hne hfin hopen => cases hserver
  | shutdown i c hi hfin hopen => cases hserver
  | epollWait events hpc hne hnodup hready =>
    cases hpc
    cases events with
    | nil => exact absurd rfl hne
    | cons e events =>
      dsimp only
      rw [total_load_report]
      simp [pcWork]
  | finish hpc =>
    cases hpc
    simp [pcWork]
  | accept events hpc =>
    cases hpc
    obtain ⟨i, c, hi, hqueued, haccept⟩ := accept_eq (h.listen (List.mem_cons_self ..))
    have htotal := total_set hi Conn.load { c with status := .accepted, armed := c.readable }
    have hload := Conn.load_accept hqueued
    have hpc := pcWork_process_le (accept conns) events
    dsimp only at haccept htotal ⊢
    rw [haccept] at hpc ⊢
    omega
  | enter i events hpc hhandler =>
    cases hpc
    obtain ⟨c, hi, -, hreadable⟩ := h.pending i (List.mem_cons_self ..)
    have hreadable := hreadable fun _ hloop => by cases hloop
    dsimp only at hi ⊢
    simp [pcWork, hi, hreadable]
  | read i events c hpc hhandler hi hqueue =>
    cases hpc
    have htotal := total_set hi Conn.load c.drained
    have hload := Conn.load_drained hqueue
    have hpc := pcWork_process_le (conns.set i c.drained) events
    dsimp only at htotal ⊢
    omega
  | close i events c hpc hhandler hi hqueue =>
    cases hpc
    have htotal := total_set hi Conn.load c.close
    have hload := Conn.load_close hqueue (h.handled hi rfl).1
    have hpc := pcWork_process_le (conns.set i c.close) events
    dsimp only at htotal ⊢
    omega
  | loopData i events c hpc hi hqueue =>
    cases hpc
    have htotal := total_set hi Conn.load c.drained
    have hload := Conn.load_drained hqueue
    have hpc := pcWork_le (conns.set i c.drained) (.etLoop i events)
    dsimp only at htotal ⊢
    omega
  | loopEof i events c hpc hi hqueue hfin =>
    cases hpc
    have htotal := total_set hi Conn.load c.close
    have hload := Conn.load_close hqueue (h.handled hi rfl).1
    have hpc := pcWork_process_le (conns.set i c.close) events
    dsimp only at htotal ⊢
    omega
  | loopAgain i events c hpc hi hreadable hnonblock =>
    cases hpc
    have hpc := pcWork_process_le conns events
    have hloop : pcWork conns (.etLoop i events) = 4 := by
      dsimp only at hi
      simp [pcWork, hi, hreadable]
    dsimp only
    omega

/-- Left alone, the server stops after a bounded number of steps, whichever handler it has; nothing
is lost, doubled or overtaken on the way. -/
theorem server_comes_to_rest (config : Config) (acts acts' : List Act) (s t : State)
    (hrun : exec (step config) {} acts = some s) (hserver : ∀ a ∈ acts', a.ofServer = true)
    (hrun' : exec (step config) s acts' = some t) :
    acts'.length ≤ 5 * total Conn.load s.conns + 4 ∧
      ∀ c ∈ t.conns, c.sent = c.received ++ c.queue := by
  have hs := inv_of_run hrun
  have ht : Inv config t :=
    exec_invariant (fun _ _ _ h hstep => h.step (stepTo_of_step hstep)) hs hrun'
  have hmeet : StepsMeet (step config) (fun _ a => a.ofServer = true) s acts' :=
    stepsMeet_of_forall_mem hserver
  have hlength : work t + acts'.length ≤ work s + 0 * acts'.countP fun _ => false :=
    exec_length_le (I := Inv config) (φ := work) (fun u a v hu hserver hstep =>
      ⟨hu.step (stepTo_of_step hstep),
        (work_step hu hserver (stepTo_of_step hstep)).trans (Nat.le_add_right _ _)⟩) hs hmeet hrun'
  have hpc := pcWork_le s.conns s.pc
  unfold work at hlength
  exact ⟨by omega, fun c hc => (ht.conns c hc).sent⟩

/-- A connection that has sent more than one buffer, and the server with three steps to go. -/
theorem server_comes_to_rest_reading :
    ∃ s, (∀ a ∈ [Act.epollWait [.conn 0], .server, .server], a.ofServer = true) ∧
      exec (step ⟨.epollLt, false⟩) s [.epollWait [.conn 0], .server, .server] ≠ none ∧
      3 ≤ 5 * total Conn.load s.conns + 4 := by
  have hends : ∃ s, exec (step ⟨.epollLt, false⟩) {} [.connect, .epollWait [.listen], .server,
      .server, .send 0 [1, 2, 3, 4, 5, 6]] = some s ∧
      (exec (step ⟨.epollLt, false⟩) s [.epollWait [.conn 0], .server, .server]).isSome = true :=
    exists_exec_of_decide (by decide)
  obtain ⟨s, hs, hsome⟩ := hends
  obtain ⟨t, ht⟩ := Option.isSome_iff_exists.1 hsome
  have hserver : ∀ a ∈ [Act.epollWait [.conn 0], .server, .server], a.ofServer = true := by decide
  refine ⟨s, hserver, by rw [ht]; exact Option.some_ne_none t, ?_⟩
  exact (server_comes_to_rest ⟨.epollLt, false⟩ _ _ s t hs hserver ht).1

/-! ## What is left -/

/-- The server cannot move. -/
def AtRest (config : Config) (s : State) : Prop :=
  ∀ a : Act, a.ofServer = true → step config s a = none

/-- A server at rest waits for events, or is stuck in `recv` on a blocking connection. -/
theorem atRest_cases (h : Inv config s) (hrest : AtRest config s) :
    s.pc = .wait ∨ (config.handler = .epollEtLoop ∧ config.nonblock = false) := by
  have hnone := hrest .server rfl
  obtain ⟨conns, pc⟩ := s
  cases pc with
  | wait => exact .inl rfl
  | process events =>
    cases events with
    | nil => cases hnone
    | cons e events =>
      cases e with
      | listen => cases hnone
      | conn i =>
        obtain ⟨c, hi, -, hreadable⟩ := h.pending i (List.mem_cons_self ..)
        have hreadable := hreadable fun _ hloop => by cases hloop
        simp only [step, serverStep] at hnone hi
        split at hnone
        · cases hnone
        · rw [hi, Option.bind_some, Option.map_eq_none_iff, readOnce,
            Option.map_eq_none_iff] at hnone
          rw [(recv_eq_none hnone).1] at hreadable
          cases hreadable
  | etLoop i events =>
    obtain ⟨c, hi, -⟩ := h.pending i (List.mem_cons_self ..)
    refine .inr ⟨h.loop i events rfl, ?_⟩
    simp only [step, serverStep] at hnone hi
    rw [hi, Option.bind_some, etLoopStep, Option.map_eq_none_iff] at hnone
    exact (recv_eq_none hnone).2

/-- Where the server waits, nothing is ready. -/
theorem not_ready_of_wait (hrest : AtRest config s) (hpc : s.pc = .wait) (e : Event) :
    ready config s.conns e = false := by
  have hnone := hrest (.epollWait [e]) rfl
  simp only [step] at hnone
  split at hnone
  · cases hnone
  · next hguard =>
    refine Bool.eq_false_iff.2 fun hready => hguard ⟨hpc, List.cons_ne_nil _ _, ?_, ?_, ?_⟩
    · exact Nat.le_add_left 1 19
    · exact List.nodup_singleton e
    · intro e' he'
      rw [List.mem_singleton.1 he']
      exact hready

/-- A waiting server to which nothing is ready is at rest. -/
theorem atRest_of_wait (hpc : s.pc = .wait) (hready : ∀ e, ready config s.conns e = false) :
    AtRest config s := by
  intro a hserver
  cases a with
  | connect => cases hserver
  | send i bytes => cases hserver
  | shutdown i => cases hserver
  | epollWait events =>
    simp only [step]
    refine if_neg fun hguard => ?_
    obtain ⟨-, hne, -, -, hall⟩ := hguard
    obtain ⟨e, events, rfl⟩ := List.exists_cons_of_ne_nil hne
    have he := hall e (List.mem_cons_self ..)
    rw [hready e] at he
    cases he
  | server => rw [step, serverStep, hpc]

/-- No connection is in the backlog or ready to be reported. -/
def quiet (config : Config) (conns : List Conn) : Bool :=
  conns.all fun c => c.status ≠ .queued && !c.ready config

theorem not_ready_of_quiet {conns : List Conn} (h : quiet config conns = true) (e : Event) :
    ready config conns e = false := by
  have hall := List.all_eq_true.1 h
  cases e with
  | listen =>
    refine List.any_eq_false.2 fun c hc => ?_
    have hc := hall c hc
    simp only [Bool.and_eq_true, decide_eq_true_eq] at hc ⊢
    exact hc.1
  | conn i =>
    cases hi : conns[i]? with
    | none => rw [ready, hi, Option.any_none]
    | some c =>
      have hc := hall c (List.mem_of_getElem? hi)
      simp only [Bool.and_eq_true, Bool.not_eq_true'] at hc
      rw [ready, hi, Option.any_some, hc.2]

/-- A server that blocks in `recv` is at rest. -/
theorem atRest_of_blocked (hpc : s.pc ≠ .wait) (hserver : serverStep config s = none) :
    AtRest config s := by
  intro a ha
  cases a with
  | connect => cases ha
  | send i bytes => cases ha
  | shutdown i => cases ha
  | epollWait events =>
    simp only [step]
    exact if_neg fun hguard => hpc hguard.1
  | server => exact hserver

/-- Everything that arrived has been read, and closed where the client has closed its end. -/
def Conn.Served (c : Conn) : Prop :=
  c.status ≠ .queued ∧ c.received = c.sent ∧ (c.fin = true → c.status = .closed)

instance (c : Conn) : Decidable c.Served := inferInstanceAs (Decidable (_ ∧ _))

/-- A server that waits has served everything, unless its handler stops reading too early. -/
theorem served_of_wait (h : Inv config s) (hrest : AtRest config s) (hpc : s.pc = .wait)
    (hhandler : config.handler ≠ .epollEtNonloop) {c : Conn} (hc : c ∈ s.conns) : c.Served := by
  obtain ⟨i, hi⟩ := List.mem_iff_getElem?.1 hc
  have hok := h.conns c hc
  have hnone := not_ready_of_wait hrest hpc
  cases hstatus : c.status with
  | queued =>
    have hlisten := List.any_eq_false.1 (hnone .listen) c hc
    simp [hstatus] at hlisten
  | accepted =>
    have hreadable : c.readable = false := by
      refine Bool.eq_false_iff.2 fun hreadable => ?_
      have hconn := hnone (.conn i)
      rw [ready, hi, Option.any_some, Conn.ready, hstatus, hreadable] at hconn
      rcases h.reported hhandler i c hi hstatus hreadable with hlt | harmed | hmem
      · simp [hlt] at hconn
      · simp [harmed] at hconn
      · rw [hpc] at hmem
        cases hmem
    obtain ⟨hqueue, hfin⟩ := Conn.queue_of_not_readable hreadable
    refine ⟨by rw [hstatus]; decide, ?_, fun hfin' => ?_⟩
    · rw [hok.sent, hqueue, List.append_nil]
    · rw [hfin] at hfin'
      cases hfin'
  | closed =>
    refine ⟨by rw [hstatus]; decide, ?_, fun _ => hstatus⟩
    rw [hok.sent, (hok.closed hstatus).1, List.append_nil]

/-- A client sends more than one buffer at once. -/
def strandingRun : List Act :=
  [.connect, .epollWait [.listen], .server, .server, .send 0 [1, 2, 3, 4, 5, 6],
    .epollWait [.conn 0], .server, .server]

/-- One byte stays in the queue of an edge-triggered connection that is read once. -/
theorem stranded (nonblock : Bool) :
    ∃ s, exec (step ⟨.epollEtNonloop, nonblock⟩) {} strandingRun = some s ∧
      AtRest ⟨.epollEtNonloop, nonblock⟩ s ∧ ∃ c ∈ s.conns, ¬ c.Served := by
  have hends : ∃ s, exec (step ⟨.epollEtNonloop, nonblock⟩) {} strandingRun = some s ∧
      s.pc = .wait ∧ quiet ⟨.epollEtNonloop, nonblock⟩ s.conns = true ∧
      ∃ c ∈ s.conns, ¬ c.Served := by
    cases nonblock <;> exact exists_exec_of_decide (by decide)
  obtain ⟨s, hs, hpc, hquiet, hleft⟩ := hends
  exact ⟨s, hs, atRest_of_wait hpc (not_ready_of_quiet hquiet), hleft⟩

/-- A client sends one byte and leaves its end open, and another one connects. -/
def blockingRun : List Act :=
  [.connect, .epollWait [.listen], .server, .server, .send 0 [1], .epollWait [.conn 0], .server,
    .server, .connect]

/-- The second `recv` on a blocking connection keeps the server from everybody else. -/
theorem blocked :
    ∃ s, exec (step ⟨.epollEtLoop, false⟩) {} blockingRun = some s ∧
      AtRest ⟨.epollEtLoop, false⟩ s ∧ ∃ c ∈ s.conns, ¬ c.Served := by
  have hends : ∃ s, exec (step ⟨.epollEtLoop, false⟩) {} blockingRun = some s ∧
      s.pc ≠ .wait ∧ serverStep ⟨.epollEtLoop, false⟩ s = none ∧ ∃ c ∈ s.conns, ¬ c.Served :=
    exists_exec_of_decide (by decide)
  obtain ⟨s, hs, hpc, hnone, hleft⟩ := hends
  exact ⟨s, hs, atRest_of_blocked hpc hnone, hleft⟩

/-- The server is right, that is it has served everything whenever it cannot move, exactly where
the connections are level-triggered, or edge-triggered, non-blocking and read in a loop. -/
theorem served_iff (config : Config) :
    (∀ acts s, exec (step config) {} acts = some s → AtRest config s →
      ∀ c ∈ s.conns, c.Served) ↔
    config.handler = .epollLt ∨ (config.handler = .epollEtLoop ∧ config.nonblock = true) := by
  constructor
  · intro hserved
    obtain ⟨handler, nonblock⟩ := config
    cases handler with
    | epollLt => exact .inl rfl
    | epollEtLoop =>
      cases nonblock with
      | true => exact .inr ⟨rfl, rfl⟩
      | false =>
        obtain ⟨s, hs, hrest, c, hc, hleft⟩ := blocked
        exact absurd (hserved _ s hs hrest c hc) hleft
    | epollEtNonloop =>
      obtain ⟨s, hs, hrest, c, hc, hleft⟩ := stranded nonblock
      exact absurd (hserved _ s hs hrest c hc) hleft
  · intro hconfig acts s hrun hrest c hc
    have h := inv_of_run hrun
    rcases atRest_cases h hrest with hpc | ⟨hloop, hblock⟩
    · refine served_of_wait h hrest hpc (fun hnonloop => ?_) hc
      rcases hconfig with hlt | ⟨hloop, -⟩
      · rw [hlt] at hnonloop
        cases hnonloop
      · rw [hloop] at hnonloop
        cases hnonloop
    · rcases hconfig with hlt | ⟨-, hnonblock⟩
      · rw [hlt] at hloop
        cases hloop
      · rw [hnonblock] at hblock
        cases hblock

end Sparo.Demo.EpollLtEt
