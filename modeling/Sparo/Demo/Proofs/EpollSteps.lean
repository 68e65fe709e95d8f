import Sparo.Demo.EpollLtEt
import Sparo.Misc.ThreadSum

/-!
# The steps of the epoll server

`StepTo` lists what a step of a client or of the server can do. `Inv` is the invariant: bytes are
in the receive queue or received, every event that is still to be handled has something behind it,
and a readable connection is reported again, unless the handler stops reading too early.
-/

namespace Sparo.Demo.EpollLtEt

open StepSystem ThreadSum

variable {config : Config} {s t : State} {a : Act}

/-- The connection after a `recv` that returned bytes. -/
def Conn.drained (c : Conn) : Conn :=
  { c with
    queue := c.queue.drop maxBufferSize
    received := c.received ++ c.queue.take maxBufferSize }

/-- What `recv` can do. -/
theorem recv_cases {c c' : Conn} {ret : Recv} (h : recv config c = some (ret, c')) :
    (ret = .data ∧ c.queue ≠ [] ∧ c' = c.drained) ∨
    (ret = .eof ∧ c.queue = [] ∧ c.fin = true ∧ c' = c) ∨
    (ret = .again ∧ c.readable = false ∧ config.nonblock = true ∧ c' = c) := by
  unfold recv at h
  split at h
  · next hqueue =>
    cases h
    exact .inl ⟨rfl, by simpa using hqueue, rfl⟩
  · next hqueue =>
    have hnil : c.queue = [] := by simpa using hqueue
    split at h
    · next hfin =>
      cases h
      exact .inr (.inl ⟨rfl, hnil, hfin, rfl⟩)
    · next hfin =>
      split at h
      · next hnonblock =>
        cases h
        have hfin : c.fin = false := by simpa using hfin
        exact .inr (.inr ⟨rfl, by simp [Conn.readable, hnil, hfin], hnonblock, rfl⟩)
      · cases h

/-- `recv` blocks only where there is nothing to read. -/
theorem recv_eq_none {c : Conn} (h : recv config c = none) :
    c.readable = false ∧ config.nonblock = false := by
  unfold recv at h
  split at h
  · cases h
  · next hqueue =>
    split at h
    · cases h
    · next hfin =>
      split at h
      · cases h
      · next hblock =>
        refine ⟨?_, by simpa using hblock⟩
        simp only [Bool.not_eq_true] at hqueue hfin
        rw [Conn.readable, hqueue, hfin, Bool.or_self]

/-- The events that are left, with the one whose handler has not returned. -/
def Pc.events : Pc → List Event
  | .wait => []
  | .process events => events
  | .etLoop i events => .conn i :: events

/-- What a step can do. -/
inductive StepTo (config : Config) (s : State) : Act → State → Prop where
  | connect : StepTo config s .connect { s with conns := s.conns ++ [{}] }
  | send (i : Nat) (c : Conn) (bytes : List UInt8) (hi : s.conns[i]? = some c)
      (hne : bytes ≠ []) (hfin : c.fin = false) (hopen : c.status ≠ .closed) :
      StepTo config s (.send i bytes)
        { s with
          conns := s.conns.set i
            { c with queue := c.queue ++ bytes, sent := c.sent ++ bytes, armed := true } }
  | shutdown (i : Nat) (c : Conn) (hi : s.conns[i]? = some c) (hfin : c.fin = false)
      (hopen : c.status ≠ .closed) :
      StepTo config s (.shutdown i)
        { s with conns := s.conns.set i { c with fin := true, armed := true } }
  | epollWait (events : List Event) (hpc : s.pc = .wait) (hne : events ≠ [])
      (hnodup : events.Nodup) (hready : ∀ e ∈ events, ready config s.conns e = true) :
      StepTo config s (.epollWait events)
        { conns := report events s.conns, pc := .process events }
  | finish (hpc : s.pc = .process []) : StepTo config s .server { s with pc := .wait }
  | accept (events : List Event) (hpc : s.pc = .process (.listen :: events)) :
      StepTo config s .server { conns := accept s.conns, pc := .process events }
  | enter (i : Nat) (events : List Event) (hpc : s.pc = .process (.conn i :: events))
      (hhandler : config.handler = .epollEtLoop) :
      StepTo config s .server { s with pc := .etLoop i events }
  | read (i : Nat) (events : List Event) (c : Conn) (hpc : s.pc = .process (.conn i :: events))
      (hhandler : config.handler ≠ .epollEtLoop) (hi : s.conns[i]? = some c)
      (hqueue : c.queue ≠ []) :
      StepTo config s .server { conns := s.conns.set i c.drained, pc := .process events }
  | close (i : Nat) (events : List Event) (c : Conn) (hpc : s.pc = .process (.conn i :: events))
      (hhandler : config.handler ≠ .epollEtLoop) (hi : s.conns[i]? = some c)
      (hqueue : c.queue = []) :
      StepTo config s .server { conns := s.conns.set i c.close, pc := .process events }
  | loopData (i : Nat) (events : List Event) (c : Conn) (hpc : s.pc = .etLoop i events)
      (hi : s.conns[i]? = some c) (hqueue : c.queue ≠ []) :
      StepTo config s .server { s with conns := s.conns.set i c.drained }
  | loopEof (i : Nat) (events : List Event) (c : Conn) (hpc : s.pc = .etLoop i events)
      (hi : s.conns[i]? = some c) (hqueue : c.queue = []) (hfin : c.fin = true) :
      StepTo config s .server { conns := s.conns.set i c.close, pc := .process events }
  | loopAgain (i : Nat) (events : List Event) (c : Conn) (hpc : s.pc = .etLoop i events)
      (hi : s.conns[i]? = some c) (hreadable : c.readable = false)
      (hnonblock : config.nonblock = true) :
      StepTo config s .server { s with pc := .process events }

theorem Conn.queue_of_not_readable {c : Conn} (h : c.readable = false) :
    c.queue = [] ∧ c.fin = false := by
  simpa [Conn.readable] using h

theorem stepTo_of_serverStep (h : serverStep config s = some t) : StepTo config s .server t := by
  obtain ⟨conns, pc⟩ := s
  cases pc with
  | wait => cases h
  | process events =>
    cases events with
    | nil =>
      cases h
      exact .finish rfl
    | cons e events =>
      cases e with
      | listen =>
        cases h
        exact .accept events rfl
      | conn i =>
        simp only [serverStep] at h
        split at h
        · next hhandler =>
          cases h
          exact .enter i events rfl hhandler
        · next hhandler =>
          obtain ⟨c, hi, h⟩ := Option.bind_eq_some_iff.1 h
          obtain ⟨c', hread, rfl⟩ := Option.map_eq_some_iff.1 h
          obtain ⟨⟨ret, c''⟩, hrecv, rfl⟩ := Option.map_eq_some_iff.1 hread
          rcases recv_cases hrecv with ⟨rfl, hqueue, rfl⟩ | ⟨rfl, hqueue, -, rfl⟩ |
            ⟨rfl, hreadable, -, rfl⟩
          · exact .read i events c rfl hhandler hi hqueue
          · exact .close i events c'' rfl hhandler hi hqueue
          · exact .close i events c'' rfl hhandler hi (Conn.queue_of_not_readable hreadable).1
  | etLoop i events =>
    obtain ⟨c, hi, h⟩ := Option.bind_eq_some_iff.1 h
    obtain ⟨⟨ret, c''⟩, hrecv, rfl⟩ := Option.map_eq_some_iff.1 h
    rcases recv_cases hrecv with ⟨rfl, hqueue, rfl⟩ | ⟨rfl, hqueue, hfin, rfl⟩ |
      ⟨rfl, hreadable, hnonblock, rfl⟩
    · exact .loopData i events c rfl hi hqueue
    · exact .loopEof i events c'' rfl hi hqueue hfin
    · have hset : conns.set i c'' = conns := by
        obtain ⟨hlt, rfl⟩ := List.getElem?_eq_some_iff.1 hi
        exact List.set_getElem_self hlt
      dsimp only
      rw [hset]
      exact .loopAgain i events c'' rfl hi hreadable hnonblock

theorem stepTo_of_step (h : step config s a = some t) : StepTo config s a t := by
  cases a with
  | connect =>
    cases h
    exact .connect
  | send i bytes =>
    obtain ⟨c, hi, h⟩ := Option.bind_eq_some_iff.1 h
    split at h
    · cases h
    · next hguard =>
      cases h
      simp only [not_or, Bool.not_eq_true] at hguard
      exact .send i c bytes hi hguard.1 hguard.2.1 hguard.2.2
  | shutdown i =>
    obtain ⟨c, hi, h⟩ := Option.bind_eq_some_iff.1 h
    split at h
    · cases h
    · next hguard =>
      cases h
      simp only [not_or, Bool.not_eq_true] at hguard
      exact .shutdown i c hi hguard.1 hguard.2
  | epollWait events =>
    simp only [step] at h
    split at h
    · next hguard =>
      cases h
      obtain ⟨hpc, hne, -, hnodup, hready⟩ := hguard
      exact .epollWait events hpc hne hnodup hready
    · cases h
  | server => exact stepTo_of_serverStep h

end Sparo.Demo.EpollLtEt
