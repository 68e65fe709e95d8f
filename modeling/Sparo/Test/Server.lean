import Sparo.Misc.StepSystem
import Mathlib.Algebra.Ring.Nat

/-!
# The struct server

One connection of `src/test/server.cpp`: the loop of `handle_client_data` on a non-blocking socket
and the event loop that calls it again for each edge. What the kernel answers is given turn by turn.
The machine is little-endian.
-/

namespace Sparo.Test

open StepSystem

/-- `MyStruct`, packed. -/
structure MyStruct where
  len : Int32
  type : UInt8
  c : UInt8
  d : UInt16
  e : UInt16
  deriving DecidableEq, Repr

/-- `sizeof(MyStruct)`. -/
def sizeofMyStruct : Nat := 10

namespace MyStruct

/-- The bytes of a struct in memory. -/
def toBytes (s : MyStruct) : List UInt8 :=
  let len := s.len.toUInt32.toNat
  [UInt8.ofNat len, UInt8.ofNat (len / 2 ^ 8), UInt8.ofNat (len / 2 ^ 16),
    UInt8.ofNat (len / 2 ^ 24), s.type, s.c, UInt8.ofNat s.d.toNat,
    UInt8.ofNat (s.d.toNat / 2 ^ 8), UInt8.ofNat s.e.toNat, UInt8.ofNat (s.e.toNat / 2 ^ 8)]

/-- The struct that lies in memory. -/
def ofBytes (bytes : List UInt8) : MyStruct :=
  let byte := fun i => bytes.getD i 0
  { len := ⟨UInt32.ofNat ((byte 0).toNat + 2 ^ 8 * (byte 1).toNat + 2 ^ 16 * (byte 2).toNat +
      2 ^ 24 * (byte 3).toNat)⟩
    type := byte 4
    c := byte 5
    d := UInt16.ofNat ((byte 6).toNat + 2 ^ 8 * (byte 7).toNat)
    e := UInt16.ofNat ((byte 8).toNat + 2 ^ 8 * (byte 9).toNat) }

end MyStruct

/-- `MyStruct{}`, as its bytes. -/
def zeroStruct : List UInt8 := List.replicate sizeofMyStruct 0

/-- `send_struct`. -/
def sendStruct : MyStruct := { len := 10, type := 2, c := 8, d := 9, e := 13 }

/-- `additional_data`. -/
def additionalData : List UInt8 := [0x01, 0x02, 0x0F, 0x04]

/-- What a `recv` for `sizeof(MyStruct)` bytes returns when it returns data. -/
structure Received where
  bytes : List UInt8
  nonempty : 1 ≤ bytes.length
  fits : bytes.length ≤ sizeofMyStruct
  deriving DecidableEq, Repr

/-- One turn of the loop, as the kernel answers it: with the `recv`, and whether the two calls of
`send`, if they are made, succeed. -/
inductive Turn where
  | received (r : Received) (sent sentMore : Bool)
  /-- `recv` returned 0. -/
  | disconnected
  /-- `EAGAIN` or `EWOULDBLOCK`. -/
  | wouldBlock
  | receiveError
  deriving DecidableEq, Repr

/-- A connection. -/
structure Connection where
  /-- The local `recv_struct` of the call in progress, as its bytes. -/
  recvStruct : List UInt8 := zeroStruct
  /-- The structs that were logged as received. -/
  handled : List MyStruct := []
  /-- The bytes that were sent. -/
  sent : List UInt8 := []
  /-- `start_server` has closed it. -/
  closed : Bool := false
  deriving DecidableEq, Repr

namespace Connection

/-- The reply to a received struct (`server.cpp:83-116`). Where a `send` fails, the call returns
false, and `start_server` closes the connection. -/
def reply (conn : Connection) (sent sentMore : Bool) : Connection :=
  let conn := { conn with handled := conn.handled ++ [MyStruct.ofBytes conn.recvStruct] }
  if !sent then { conn with closed := true }
  else
    let conn := { conn with sent := conn.sent ++ sendStruct.toBytes }
    if !sentMore then { conn with closed := true }
    else { conn with sent := conn.sent ++ additionalData }

/-- One turn of the loop of `handle_client_data` (`server.cpp:63-117`). Where it returns true, the
next edge calls it again, with a new `recv_struct`. -/
def handleClientData (conn : Connection) (turn : Turn) : Option Connection :=
  if conn.closed then none
  else
    match turn with
    | .disconnected => some { conn with closed := true }
    | .wouldBlock => some { conn with recvStruct := zeroStruct }
    | .receiveError => some { conn with closed := true }
    | .received r sent sentMore =>
      let conn := { conn with recvStruct := r.bytes ++ conn.recvStruct.drop r.bytes.length }
      if r.bytes.length = sizeofMyStruct then some (conn.reply sent sentMore) else some conn

end Connection

end Sparo.Test
