import Sparo.Misc.StepSystem
import Mathlib.Algebra.Ring.Nat
import Mathlib.Logic.Function.Basic

/-!
# `SharedBuffer`

The byte ring in shared memory of `src/demo/shared_buffer.cc` as a step system. Its parties are
any number of `TryWrite` calls and any number of readers, each of which does
`TryLockForReading`, `TryReadLocked` and `UnlockForReading`. A step is one access to the shared
region: a `test_and_set` or `clear` of a flag, a load or an exchange of a position, or the copy of
one byte. A thread that makes several calls is several entries whose steps come one after the
other.

`uint32_t` and `size_t` values are natural numbers; each operation that can wrap is reduced as the
type it is computed in demands.
-/

namespace Sparo.Demo.SharedBuffer

/-- `SharedBuffer::Error`. -/
inductive Error where
  | kSuccess
  | kGeneralError
  | kControlCorruption
  deriving DecidableEq, Repr

/-- `AlignUp` on `size_t` (`shared_buffer.cc:20-23`). -/
def alignUp (size alignment : UInt64) : UInt64 := (size + alignment - 1) &&& ~~~(alignment - 1)

/-- `RoundUpToWordBoundary`, with `sizeof(void*) = 8`. -/
def roundUpToWordBoundary (size : UInt64) : UInt64 := alignUp size 8

/-- The space of the control structure. `sizeof(ControlStructure)` is 20: two flags of one byte
and three 32-bit words, each aligned to 4. -/
def kReservedSpace : Nat := (roundUpToWordBoundary 20).toNat

/-- A subtraction of `size_t` values. -/
def subSize (a b : Nat) : Nat := (a + 2 ^ 64 - b) % 2 ^ 64

/-- A conversion to `uint32_t`. -/
def toUint32 (a : Nat) : Nat := a % 2 ^ 32

/-- `SharedBuffer::Create` (`shared_buffer.cc:53-70`). `mapped` says whether `mmap` of `size` bytes
succeeded, and the result is `len_`, the number of bytes mapped at `base_ptr_`. -/
def create (memfd : Int) (size : Nat) (mapped : Bool) : Option Nat :=
  if memfd < 0 then none else if !mapped then none else some size

/-- `usable_region_ptr()` as an offset from `base_ptr_`. -/
def usableRegionPtr : Nat := kReservedSpace

/-- `usable_len()` of a region of `len_ = len` bytes. -/
def usableLen (len : Nat) : Nat := subSize len kReservedSpace

/-- `ValidateReadWritePositions` (`shared_buffer.cc:239-258`). -/
def validateReadWritePositions (len readPos writePos : Nat) : Bool :=
  if writePos ≥ usableLen len then false
  else if readPos ≥ usableLen len then false
  else true

/-- `NumBytesInUse` (`shared_buffer.cc:262-271`). -/
def numBytesInUse (len readPos writePos : Nat) : Nat :=
  if readPos ≤ writePos then writePos - readPos
  else toUint32 ((writePos + subSize (usableLen len) readPos) % 2 ^ 64)

/-- `space_available` in `TryWrite`. -/
def spaceAvailable (len readPos writePos : Nat) : Nat :=
  toUint32 (subSize (usableLen len) (numBytesInUse len readPos writePos))

/-- The copy of one byte: the offset it goes to and the offset it comes from. -/
abbrev Move := Nat × Nat

/-- The copies that `memcpy(dst, src, n)` makes. -/
def memcpy (dst src n : Nat) : List Move := (List.range n).map fun i => (dst + i, src + i)

/-- The copies of `TryWrite` (`shared_buffer.cc:129-137`), from an offset in `data` to one in the
region. -/
def writeMoves (len writePos dataLen : Nat) : List Move :=
  if subSize (usableLen len) writePos > dataLen then
    memcpy (usableRegionPtr + writePos) 0 dataLen
  else
    let copy1Len := subSize (usableLen len) writePos
    memcpy (usableRegionPtr + writePos) 0 copy1Len ++
      memcpy usableRegionPtr copy1Len (subSize dataLen copy1Len)

/-- The copies of `TryReadLocked` (`shared_buffer.cc:184-199`), from an offset in the region to
one in `data`. -/
def readMoves (len readPos writePos bytesAvailable : Nat) : List Move :=
  if readPos < writePos then memcpy 0 (usableRegionPtr + readPos) bytesAvailable
  else
    let toEnd := min (toUint32 (subSize (usableLen len) readPos)) bytesAvailable
    memcpy 0 (usableRegionPtr + readPos) toEnd ++
      if toEnd < bytesAvailable then memcpy toEnd usableRegionPtr (bytesAvailable - toEnd) else []

/-- Where a caller is in `TryWrite` (`shared_buffer.cc:97-156`). -/
inductive WriterPc where
  /-- Before `write_flag().test_and_set()`. -/
  | lock
  /-- Before `read_pos().load()`. -/
  | loadRead
  /-- Before `write_pos().load()`. -/
  | loadWrite (curReadPos : Nat)
  /-- The copies of `memcpy` that are left, and after them the exchange of `write_pos`. -/
  | copy (curWritePos : Nat) (moves : List Move)
  /-- Before `write_flag().clear()`. -/
  | unlock (error : Error)
  | returned (error : Error)
  deriving DecidableEq, Repr

/-- A call of `TryWrite`, with the bytes at `data`; `len` is their number. -/
structure Writer where
  pc : WriterPc
  data : List UInt8
  deriving DecidableEq, Repr

/-- Where a reader is in `TryLockForReading`, `TryReadLocked` (`shared_buffer.cc:158-212`) and
`UnlockForReading`. -/
inductive ReaderPc where
  /-- Before `read_flag().test_and_set()`. -/
  | lock
  /-- `TryLockForReading` returned `false`. -/
  | locked
  /-- Before `read_pos().load()`. -/
  | loadRead
  /-- Before `write_pos().load()`. -/
  | loadWrite (curReadPos : Nat)
  /-- The copies of `memcpy` that are left, and after them the exchange of `read_pos`. -/
  | copy (curReadPos bytesAvailable : Nat) (moves : List Move)
  /-- `TryReadLocked` returned; before `read_flag().clear()`. -/
  | unlock (error : Error)
  | returned (error : Error)
  deriving DecidableEq, Repr

/-- A reader, with the bytes at its `data`, whose number is the `len` it passes, and the value of
its `*bytes_read`. -/
structure Reader where
  pc : ReaderPc
  data : List UInt8
  bytesRead : Nat
  deriving DecidableEq, Repr

/-- The control structure, the bytes of the region, the calls, and what went through the buffer so
far. -/
structure State where
  writeFlag : Bool := false
  writePos : Nat := 0
  readFlag : Bool := false
  readPos : Nat := 0
  /-- The bytes of the region, by their offset from `base_ptr_`. -/
  region : Nat → UInt8
  writers : List Writer := []
  readers : List Reader := []
  /-- The payloads of the successful writes, in the order of their exchanges of `write_pos`. -/
  written : List UInt8 := []
  /-- The bytes of the successful reads, in the order of their exchanges of `read_pos`. -/
  readOut : List UInt8 := []

/-- A label picks the caller that moves. `memcpy` copies its bytes in no particular order, so `k`
picks which of the copies that are left comes next; the two calls of a copy that wraps around are
not ordered either. -/
inductive Act where
  /-- `TryWrite(data, len)` is called. -/
  | tryWrite (data : List UInt8)
  /-- A reader with a buffer of `data.length` bytes begins. -/
  | tryRead (data : List UInt8) (bytesRead : Nat)
  | writer (i k : Nat)
  | reader (i k : Nat)
  deriving DecidableEq, Repr

/-- `TryWrite` up to its first access to the region. -/
def tryWrite (len : Nat) (data : List UInt8) : Writer :=
  if data.length > usableLen len then ⟨.returned .kGeneralError, data⟩ else ⟨.lock, data⟩

/-- `TryWrite` between the loads and the copies (`shared_buffer.cc:114-127`). -/
def checkSpace (len curReadPos curWritePos dataLen : Nat) : WriterPc :=
  if !validateReadWritePositions len curReadPos curWritePos then .unlock .kControlCorruption
  else if spaceAvailable len curReadPos curWritePos ≤ dataLen then .unlock .kGeneralError
  else .copy curWritePos (writeMoves len curWritePos dataLen)

/-- `write_pos().exchange(...)` and the comparison after it (`shared_buffer.cc:143-151`). -/
def exchangeWritePos (len : Nat) (s : State) (w : Writer) (curWritePos : Nat) : State × Writer :=
  let newPos := toUint32 ((curWritePos + w.data.length) % 2 ^ 64 % usableLen len)
  if s.writePos ≠ curWritePos then
    ({ s with writePos := newPos }, { w with pc := .unlock .kControlCorruption })
  else
    ({ s with writePos := newPos, written := s.written ++ w.data },
      { w with pc := .unlock .kSuccess })

/-- The next step of a `TryWrite` call. -/
def writerStep (len : Nat) (s : State) (w : Writer) (k : Nat) : Option (State × Writer) :=
  match w.pc with
  | .lock =>
    if s.writeFlag then some (s, { w with pc := .returned .kGeneralError })
    else some ({ s with writeFlag := true }, { w with pc := .loadRead })
  | .loadRead => some (s, { w with pc := .loadWrite s.readPos })
  | .loadWrite curReadPos =>
    some (s, { w with pc := checkSpace len curReadPos s.writePos w.data.length })
  | .copy curWritePos [] => some (exchangeWritePos len s w curWritePos)
  | .copy curWritePos moves => moves[k]?.map fun (dst, src) =>
      ({ s with region := Function.update s.region dst (w.data.getD src 0) },
        { w with pc := .copy curWritePos (moves.eraseIdx k) })
  | .unlock error => some ({ s with writeFlag := false }, { w with pc := .returned error })
  | .returned _ => none

/-- `TryReadLocked` between the loads and the copies (`shared_buffer.cc:162-199`). -/
def checkAvailable (len curReadPos curWritePos : Nat) (r : Reader) : Reader :=
  if !validateReadWritePositions len curReadPos curWritePos then
    { r with pc := .unlock .kControlCorruption }
  else
    let bytesAvailable := min (numBytesInUse len curReadPos curWritePos) r.data.length
    if bytesAvailable = 0 then { r with pc := .unlock .kSuccess, bytesRead := 0 }
    else { r with
      pc := .copy curReadPos bytesAvailable
        (readMoves len curReadPos curWritePos bytesAvailable) }

/-- `read_pos().exchange(...)` and the comparison after it (`shared_buffer.cc:204-211`). -/
def exchangeReadPos (len : Nat) (s : State) (r : Reader) (curReadPos bytesAvailable : Nat) :
    State × Reader :=
  let newPos := toUint32 (toUint32 (curReadPos + bytesAvailable) % usableLen len)
  if s.readPos ≠ curReadPos then
    ({ s with readPos := newPos }, { r with pc := .unlock .kControlCorruption, bytesRead := 0 })
  else
    ({ s with readPos := newPos, readOut := s.readOut ++ r.data.take bytesAvailable },
      { r with pc := .unlock .kSuccess, bytesRead := bytesAvailable })

/-- The next step of a reader. -/
def readerStep (len : Nat) (s : State) (r : Reader) (k : Nat) : Option (State × Reader) :=
  match r.pc with
  | .lock =>
    if s.readFlag then some (s, { r with pc := .locked })
    else some ({ s with readFlag := true }, { r with pc := .loadRead })
  | .loadRead => some (s, { r with pc := .loadWrite s.readPos })
  | .loadWrite curReadPos => some (s, checkAvailable len curReadPos s.writePos r)
  | .copy curReadPos bytesAvailable [] => some (exchangeReadPos len s r curReadPos bytesAvailable)
  | .copy curReadPos bytesAvailable moves => moves[k]?.map fun (dst, src) =>
      (s, { r with
        pc := .copy curReadPos bytesAvailable (moves.eraseIdx k)
        data := r.data.set dst (s.region src) })
  | .unlock error => some ({ s with readFlag := false }, { r with pc := .returned error })
  | .locked | .returned _ => none

/-- One step of a buffer over a region of `len` bytes. -/
def step (len : Nat) (s : State) : Act → Option State
  | .tryWrite data => some { s with writers := s.writers ++ [tryWrite len data] }
  | .tryRead data bytesRead => some { s with readers := s.readers ++ [⟨.lock, data, bytesRead⟩] }
  | .writer i k =>
    match s.writers[i]? with
    | none => none
    | some w => (writerStep len s w k).map fun (t, w') =>
        { t with writers := t.writers.set i w' }
  | .reader i k =>
    match s.readers[i]? with
    | none => none
    | some r => (readerStep len s r k).map fun (t, r') =>
        { t with readers := t.readers.set i r' }

/-- A region after `Initialize()`; its other bytes are what they were. -/
def initialized (region : Nat → UInt8) : State := { region }

/-- The bytes in the ring from `read_pos` up to `write_pos`. -/
def State.stored (len : Nat) (s : State) : List UInt8 :=
  (List.range (numBytesInUse len s.readPos s.writePos)).map fun i =>
    s.region (usableRegionPtr + (s.readPos + i) % usableLen len)

end Sparo.Demo.SharedBuffer
