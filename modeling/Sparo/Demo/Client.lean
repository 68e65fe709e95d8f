import Sparo.Misc.StepSystem
import Mathlib.Data.Int.Order.Basic

/-!
# `itoa_r` and `ReadWithoutBlocking`

Two functions of `src/demo/client.cc`: the formatter that the signal handler uses, and the loop that
reads from a socket. A store outside the array, and a pointer moved before it, is `none` in the
formatter. `size_t` values are naturals: an array has less than `2 ^ 63` elements, so that counting
one beyond its size does not wrap.
-/

namespace Sparo.Demo

/-! ## `itoa_r` (`client.cc:316-374`) -/

namespace Client

def nul : Char := Char.ofNat 0

/-- `buf[k] = c`. -/
def store (buf : List Char) (k : Nat) (c : Char) : Option (List Char) :=
  if k < buf.length then some (buf.set k c) else none

def digitChars : List Char := "0123456789abcdef".toList

/-- The loop that outputs the digits; it gives the pointer behind the last one, or nothing if the
function has returned null. -/
def outputDigits (base sz : Nat) (buf : List Char) (ptr n j padding : Nat) :
    Option (List Char × Option Nat) :=
  if n + 1 > sz then (store buf 0 nul).map fun buf => (buf, none)
  else
    digitChars[j % base]?.bind fun digit =>
      (store buf ptr digit).bind fun buf =>
        if j / base > 0 ∨ padding - 1 > 0 then
          outputDigits base sz buf (ptr + 1) (n + 1) (j / base) (padding - 1)
        else some (buf, some (ptr + 1))
termination_by sz - n

/-- The loop that reverses the digits; its condition decrements `ptr`. -/
def reverseDigits (buf : List Char) (start : Nat) : (ptr : Nat) → Option (List Char)
  | 0 => none
  | ptr + 1 =>
    if ptr > start then
      buf[ptr]?.bind fun ch =>
        buf[start]?.bind fun c =>
          (store buf ptr c).bind fun buf =>
            (store buf start ch).bind fun buf => reverseDigits buf (start + 1) ptr
    else some buf

/-- From the first digit on, with `n` characters accounted for. -/
def convert (base sz : Nat) (buf : List Char) (start n j padding : Nat) :
    Option (List Char × Bool) :=
  (outputDigits base sz buf start n j padding).bind fun out =>
    match out with
    | (buf, none) => some (buf, false)
    | (buf, some ptr) =>
      (store buf ptr nul).bind fun buf =>
        (reverseDigits buf start ptr).map fun buf => (buf, true)

/-- `itoa_r(i, buf, sz, base, padding)` for an array of `sz` elements: the array, and whether the
function returns it or null. -/
def itoaR (i : BitVec 64) (buf : List Char) (base : Int) (padding : Nat) :
    Option (List Char × Bool) :=
  let sz := buf.length
  if 1 > sz then some (buf, false)
  else if base < 2 ∨ base > 16 then (store buf 0 nul).map fun buf => (buf, false)
  else if i.toInt < 0 ∧ base = 10 then
    let j := -(i + 1) + 1
    if 2 > sz then (store buf 0 nul).map fun buf => (buf, false)
    else (store buf 0 '-').bind fun buf => convert base.toNat sz buf 1 2 j.toNat padding
  else convert base.toNat sz buf 0 1 i.toNat padding

end Client

/-! ## `ReadWithoutBlocking` (`client.cc:112-136`) -/

/-- What a call of `read` comes back with. `HANDLE_EINTR` calls it again after `EINTR`. -/
inductive ReadResult where
  | bytes (data : List UInt8)
  | endOfFile
  /-- `EAGAIN` or `EWOULDBLOCK`. -/
  | wouldBlock
  /-- `EINTR`. -/
  | interrupted
  /-- Any other `errno`. -/
  | error
  deriving DecidableEq, Repr

/-- The variables of `ReadWithoutBlocking`, the bytes that its calls of `read` took from the
descriptor, and the stores: a byte and its offset from `buf`. -/
structure Reader where
  /-- The parameter, which the loop does not use. -/
  size : Int16
  bytesRead : Nat := 0
  taken : List UInt8 := []
  stored : List (UInt8 × Nat) := []
  returned : Option Int := none
  deriving DecidableEq, Repr

namespace Reader

/-- `sizeof(buf)`, the size of a pointer. -/
def sizeofBuf : Nat := 8

def start (size : Int16) : Reader := { size := size }

/-- The turn of the loop in which `read` comes back with this result. It takes at most as many bytes
as requested. -/
def turn (s : Reader) : ReadResult → Option Reader
  | .bytes data =>
    if data ≠ [] ∧ data.length ≤ sizeofBuf - s.bytesRead then
      let bytesRead := s.bytesRead + data.length
      some { s with
        bytesRead := bytesRead
        taken := s.taken ++ data
        stored := s.stored ++ data.zipIdx s.bytesRead
        returned := if bytesRead < sizeofBuf then none else some bytesRead }
    else none
  | .endOfFile | .wouldBlock => some { s with returned := some 0 }
  | .interrupted => some s
  | .error => some { s with returned := some (-1) }

def step (s : Reader) (r : ReadResult) : Option Reader :=
  if s.returned = none then s.turn r else none

end Reader

end Sparo.Demo
