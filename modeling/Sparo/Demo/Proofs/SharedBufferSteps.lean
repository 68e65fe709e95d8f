import Sparo.Demo.SharedBuffer

/-!
# The steps of the shared buffer

`StepTo` lists everything a step of the buffer can do; `WriterTo` and `ReaderTo` do so for the
step of one `TryWrite` call and of one reader.
-/

namespace Sparo.Demo.SharedBuffer

variable {len k : Nat} {s t : State} {a : Act}

/-- What a `TryWrite` call can do. -/
inductive WriterTo (len : Nat) (s : State) : Writer → State → Writer → Prop where
  | busy (data : List UInt8) (hflag : s.writeFlag = true) :
      WriterTo len s ⟨.lock, data⟩ s ⟨.returned .kGeneralError, data⟩
  | acquire (data : List UInt8) (hflag : s.writeFlag = false) :
      WriterTo len s ⟨.lock, data⟩ { s with writeFlag := true } ⟨.loadRead, data⟩
  | loadRead (data : List UInt8) :
      WriterTo len s ⟨.loadRead, data⟩ s ⟨.loadWrite s.readPos, data⟩
  | loadWrite (data : List UInt8) (curReadPos : Nat) :
      WriterTo len s ⟨.loadWrite curReadPos, data⟩ s
        ⟨checkSpace len curReadPos s.writePos data.length, data⟩
  | move (data : List UInt8) (curWritePos k : Nat) (moves : List Move) (dst src : Nat)
      (hmove : moves[k]? = some (dst, src)) :
      WriterTo len s ⟨.copy curWritePos moves, data⟩
        { s with region := Function.update s.region dst (data.getD src 0) }
        ⟨.copy curWritePos (moves.eraseIdx k), data⟩
  | exchange (data : List UInt8) (curWritePos : Nat) :
      WriterTo len s ⟨.copy curWritePos [], data⟩
        (exchangeWritePos len s ⟨.copy curWritePos [], data⟩ curWritePos).1
        (exchangeWritePos len s ⟨.copy curWritePos [], data⟩ curWritePos).2
  | unlock (data : List UInt8) (error : Error) :
      WriterTo len s ⟨.unlock error, data⟩ { s with writeFlag := false } ⟨.returned error, data⟩

theorem writerTo_of_writerStep {w w' : Writer} (h : writerStep len s w k = some (t, w')) :
    WriterTo len s w t w' := by
  obtain ⟨pc, data⟩ := w
  cases pc with
  | lock =>
    simp only [writerStep] at h
    split at h
    · next hflag => cases h; exact .busy data hflag
    · next hflag => cases h; exact .acquire data (Bool.eq_false_iff.2 hflag)
  | loadRead => cases h; exact .loadRead data
  | loadWrite curReadPos => cases h; exact .loadWrite data curReadPos
  | copy curWritePos moves =>
    cases moves with
    | nil =>
      have hto := @WriterTo.exchange len s data curWritePos
      rw [show exchangeWritePos len s ⟨.copy curWritePos [], data⟩ curWritePos = (t, w') from
        Option.some.inj h] at hto
      exact hto
    | cons m moves =>
      obtain ⟨⟨dst, src⟩, hmove, heq⟩ := Option.map_eq_some_iff.1 h
      cases heq
      exact .move data curWritePos k (m :: moves) dst src hmove
  | unlock error => cases h; exact .unlock data error
  | returned error => cases h

/-- What a reader can do. -/
inductive ReaderTo (len : Nat) (s : State) : Reader → State → Reader → Prop where
  | busy (data : List UInt8) (bytesRead : Nat) (hflag : s.readFlag = true) :
      ReaderTo len s ⟨.lock, data, bytesRead⟩ s ⟨.locked, data, bytesRead⟩
  | acquire (data : List UInt8) (bytesRead : Nat) (hflag : s.readFlag = false) :
      ReaderTo len s ⟨.lock, data, bytesRead⟩ { s with readFlag := true }
        ⟨.loadRead, data, bytesRead⟩
  | loadRead (data : List UInt8) (bytesRead : Nat) :
      ReaderTo len s ⟨.loadRead, data, bytesRead⟩ s ⟨.loadWrite s.readPos, data, bytesRead⟩
  | loadWrite (data : List UInt8) (bytesRead curReadPos : Nat) :
      ReaderTo len s ⟨.loadWrite curReadPos, data, bytesRead⟩ s
        (checkAvailable len curReadPos s.writePos ⟨.loadWrite curReadPos, data, bytesRead⟩)
  | move (data : List UInt8) (bytesRead curReadPos bytesAvailable k : Nat) (moves : List Move)
      (dst src : Nat) (hmove : moves[k]? = some (dst, src)) :
      ReaderTo len s ⟨.copy curReadPos bytesAvailable moves, data, bytesRead⟩ s
        ⟨.copy curReadPos bytesAvailable (moves.eraseIdx k), data.set dst (s.region src),
          bytesRead⟩
  | exchange (data : List UInt8) (bytesRead curReadPos bytesAvailable : Nat) :
      ReaderTo len s ⟨.copy curReadPos bytesAvailable [], data, bytesRead⟩
        (exchangeReadPos len s ⟨.copy curReadPos bytesAvailable [], data, bytesRead⟩ curReadPos
          bytesAvailable).1
        (exchangeReadPos len s ⟨.copy curReadPos bytesAvailable [], data, bytesRead⟩ curReadPos
          bytesAvailable).2
  | unlock (data : List UInt8) (bytesRead : Nat) (error : Error) :
      ReaderTo len s ⟨.unlock error, data, bytesRead⟩ { s with readFlag := false }
        ⟨.returned error, data, bytesRead⟩

theorem readerTo_of_readerStep {r r' : Reader} (h : readerStep len s r k = some (t, r')) :
    ReaderTo len s r t r' := by
  obtain ⟨pc, data, bytesRead⟩ := r
  cases pc with
  | lock =>
    simp only [readerStep] at h
    split at h
    · next hflag => cases h; exact .busy data bytesRead hflag
    · next hflag => cases h; exact .acquire data bytesRead (Bool.eq_false_iff.2 hflag)
  | loadRead => cases h; exact .loadRead data bytesRead
  | loadWrite curReadPos =>
    have hto := @ReaderTo.loadWrite len s data bytesRead curReadPos
    cases h
    exact hto
  | copy curReadPos bytesAvailable moves =>
    cases moves with
    | nil =>
      have hto := @ReaderTo.exchange len s data bytesRead curReadPos bytesAvailable
      rw [show exchangeReadPos len s ⟨.copy curReadPos bytesAvailable [], data, bytesRead⟩
        curReadPos bytesAvailable = (t, r') from Option.some.inj h] at hto
      exact hto
    | cons m moves =>
      obtain ⟨⟨dst, src⟩, hmove, heq⟩ := Option.map_eq_some_iff.1 h
      cases heq
      exact .move data bytesRead curReadPos bytesAvailable k (m :: moves) dst src hmove
  | unlock error => cases h; exact .unlock data bytesRead error
  | locked => cases h
  | returned error => cases h

/-- What a step of the buffer can do. -/
inductive StepTo (len : Nat) (s : State) : Act → State → Prop where
  | tryWrite (data : List UInt8) :
      StepTo len s (.tryWrite data) { s with writers := s.writers ++ [tryWrite len data] }
  | tryRead (data : List UInt8) (bytesRead : Nat) :
      StepTo len s (.tryRead data bytesRead)
        { s with readers := s.readers ++ [⟨.lock, data, bytesRead⟩] }
  | writer (i k : Nat) (w w' : Writer) (t : State) (hi : s.writers[i]? = some w)
      (h : WriterTo len s w t w') :
      StepTo len s (.writer i k) { t with writers := t.writers.set i w' }
  | reader (i k : Nat) (r r' : Reader) (t : State) (hi : s.readers[i]? = some r)
      (h : ReaderTo len s r t r') :
      StepTo len s (.reader i k) { t with readers := t.readers.set i r' }

/-- Every step is one of the listed ones. -/
theorem stepTo_of_step (h : step len s a = some t) : StepTo len s a t := by
  cases a with
  | tryWrite data => cases h; exact .tryWrite data
  | tryRead data bytesRead => cases h; exact .tryRead data bytesRead
  | writer i k =>
    simp only [step] at h
    split at h
    · cases h
    · next w hi =>
      obtain ⟨⟨u, w'⟩, hu, rfl⟩ := Option.map_eq_some_iff.1 h
      exact .writer i k w w' u hi (writerTo_of_writerStep hu)
  | reader i k =>
    simp only [step] at h
    split at h
    · cases h
    · next r hi =>
      obtain ⟨⟨u, r'⟩, hu, rfl⟩ := Option.map_eq_some_iff.1 h
      exact .reader i k r r' u hi (readerTo_of_readerStep hu)

end Sparo.Demo.SharedBuffer
