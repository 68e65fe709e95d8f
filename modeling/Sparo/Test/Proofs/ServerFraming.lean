import Sparo.Misc.Records
import Sparo.Test.Server

/-!
# The framing of the struct server

`handle_client_data` drops what a `recv` returned unless it is as long as a struct, within one call
and between calls. So the structs it handles are the records of the client's stream only where the
kernel cuts the stream at the records.
-/

namespace Sparo.Test

open StepSystem Records

variable {conn t : Connection} {turn : Turn} {turns : List Turn}

/-- A number of two bytes is cut into them again. -/
theorem halves_of_bytes (a b : UInt8) :
    UInt8.ofNat (UInt16.ofNat (a.toNat + 2 ^ 8 * b.toNat)).toNat = a ∧
      UInt8.ofNat ((UInt16.ofNat (a.toNat + 2 ^ 8 * b.toNat)).toNat / 2 ^ 8) = b := by
  have ha := a.toNat_lt
  have hb := b.toNat_lt
  rw [← UInt8.toNat_inj, ← UInt8.toNat_inj, UInt16.toNat_ofNat', UInt8.toNat_ofNat',
    UInt8.toNat_ofNat']
  omega

/-- A number of four bytes is cut into them again. -/
theorem quarters_of_bytes (a b c d : UInt8) {n : Nat}
    (hn : n = (UInt32.ofNat (a.toNat + 2 ^ 8 * b.toNat + 2 ^ 16 * c.toNat +
      2 ^ 24 * d.toNat)).toNat) :
    UInt8.ofNat n = a ∧ UInt8.ofNat (n / 2 ^ 8) = b ∧ UInt8.ofNat (n / 2 ^ 16) = c ∧
      UInt8.ofNat (n / 2 ^ 24) = d := by
  have ha := a.toNat_lt
  have hb := b.toNat_lt
  have hc := c.toNat_lt
  have hd := d.toNat_lt
  rw [UInt32.toNat_ofNat'] at hn
  simp only [← UInt8.toNat_inj, UInt8.toNat_ofNat']
  omega

/-- A struct keeps all the bytes it was read from. -/
theorem toBytes_ofBytes {bytes : List UInt8} (hlength : bytes.length = sizeofMyStruct) :
    (MyStruct.ofBytes bytes).toBytes = bytes := by
  match bytes, hlength with
  | [b0, b1, b2, b3, b4, b5, b6, b7, b8, b9], _ =>
    obtain ⟨h0, h1, h2, h3⟩ := quarters_of_bytes b0 b1 b2 b3 rfl
    obtain ⟨h6, h7⟩ := halves_of_bytes b6 b7
    obtain ⟨h8, h9⟩ := halves_of_bytes b8 b9
    simp only [MyStruct.toBytes, MyStruct.ofBytes, List.getD_cons_zero, List.getD_cons_succ,
      h0, h1, h2, h3, h6, h7, h8, h9]

/-- The bytes that a turn received. -/
def Turn.bytes? : Turn → Option (List UInt8)
  | .received r _ _ => some r.bytes
  | .disconnected | .wouldBlock | .receiveError => none

/-- The results of the calls of `recv` that returned data. -/
def segments (turns : List Turn) : List (List UInt8) := turns.filterMap Turn.bytes?

/-- What the client sent. -/
def stream (turns : List Turn) : List UInt8 := (segments turns).flatten

/-- No call fails, except that `recv` would block. -/
def Turn.NoError : Turn → Prop
  | .received _ sent sentMore => sent = true ∧ sentMore = true
  | .disconnected | .wouldBlock => True
  | .receiveError => False

instance : DecidablePred Turn.NoError
  | .received .. => inferInstanceAs (Decidable (_ ∧ _))
  | .disconnected | .wouldBlock => isTrue trivial
  | .receiveError => isFalse id

/-- What is sent for one struct. -/
def response : List UInt8 := sendStruct.toBytes ++ additionalData

namespace Connection

/-- The structs in these records were handled and answered, and no others. -/
def Serves (conn : Connection) (recs : List (List UInt8)) : Prop :=
  conn.handled = recs.map MyStruct.ofBytes ∧ conn.sent = recs.flatMap fun _ => response

/-- After a run the connection has served the segments that are as long as a struct. -/
structure Inv (conn : Connection) (turns : List Turn) : Prop where
  length_recvStruct : conn.recvStruct.length = sizeofMyStruct
  serves : conn.Serves (wholes sizeofMyStruct (segments turns))

theorem init_inv : ({} : Connection).Inv [] := ⟨rfl, rfl, rfl⟩

theorem segments_concat (turns : List Turn) (turn : Turn) :
    segments (turns ++ [turn]) = segments turns ++ (turn.bytes?).toList := by
  rw [segments, segments, List.filterMap_append]
  cases hbytes : turn.bytes? <;> simp [hbytes]

/-- A turn without data serves nothing. -/
theorem Inv.of_no_bytes (h : conn.Inv turns) (hbytes : turn.bytes? = none)
    (hlength : t.recvStruct.length = sizeofMyStruct) (hhandled : t.handled = conn.handled)
    (hsent : t.sent = conn.sent) : t.Inv (turns ++ [turn]) := by
  refine ⟨hlength, ?_⟩
  rw [segments_concat, hbytes, Option.toList_none, List.append_nil, Serves, hhandled, hsent]
  exact h.serves

/-- The struct that is handled is what a whole segment holds; of a shorter segment nothing is
handled. -/
theorem Inv.received (h : conn.Inv turns) (r : Received)
    (hstep : conn.handleClientData (.received r true true) = some t) :
    t.Inv (turns ++ [.received r true true]) := by
  have hstruct : (r.bytes ++ conn.recvStruct.drop r.bytes.length).length = sizeofMyStruct := by
    rw [List.length_append, List.length_drop, h.length_recvStruct]
    exact Nat.add_sub_cancel' r.fits
  obtain ⟨hhandled, hsent⟩ := h.serves
  have hsegments : segments (turns ++ [.received r true true]) = segments turns ++ [r.bytes] :=
    segments_concat turns _
  unfold handleClientData at hstep
  split at hstep
  · cases hstep
  · dsimp only at hstep
    by_cases hwhole : r.bytes.length = sizeofMyStruct
    · rw [if_pos hwhole, Option.some.injEq] at hstep
      have hread : r.bytes ++ conn.recvStruct.drop r.bytes.length = r.bytes := by
        rw [List.drop_eq_nil_of_le (by rw [hwhole, h.length_recvStruct]), List.append_nil]
      have hserved : wholes sizeofMyStruct (segments turns ++ [r.bytes]) =
          wholes sizeofMyStruct (segments turns) ++ [r.bytes] := by
        simp [wholes, hwhole]
      subst hstep
      refine ⟨hstruct, ?_, ?_⟩
      · rw [hsegments, hserved, List.map_append, ← hhandled]
        simp [reply, hread]
      · rw [hsegments, hserved, List.flatMap_append, ← hsent]
        simp [reply, response]
    · rw [if_neg hwhole, Option.some.injEq] at hstep
      have hserved : wholes sizeofMyStruct (segments turns ++ [r.bytes]) =
          wholes sizeofMyStruct (segments turns) := by
        simp [wholes, hwhole]
      subst hstep
      refine ⟨hstruct, ?_⟩
      rw [hsegments, hserved]
      exact ⟨hhandled, hsent⟩

theorem Inv.step (h : conn.Inv turns) (hok : turn.NoError)
    (hstep : conn.handleClientData turn = some t) : t.Inv (turns ++ [turn]) := by
  cases turn with
  | received r sent sentMore =>
    obtain ⟨rfl, rfl⟩ := hok
    exact h.received r hstep
  | disconnected =>
    unfold handleClientData at hstep
    split at hstep
    · cases hstep
    · cases hstep
      exact h.of_no_bytes rfl h.length_recvStruct rfl rfl
  | wouldBlock =>
    unfold handleClientData at hstep
    split at hstep
    · cases hstep
    · cases hstep
      exact h.of_no_bytes rfl rfl rfl rfl
  | receiveError => cases hok

/-- A connection without errors serves the segments that are as long as a struct. -/
theorem inv_of_run (hok : ∀ turn ∈ turns, turn.NoError)
    (hrun : exec handleClientData {} turns = some t) : t.Inv turns := by
  induction turns using List.reverseRecOn generalizing t with
  | nil =>
    rw [exec_nil, Option.some.injEq] at hrun
    rw [← hrun]
    exact init_inv
  | append_singleton turns turn ih =>
    obtain ⟨conn, hconn, hstep⟩ := exec_concat_eq_some.mp hrun
    have hbefore := ih (fun b hb => hok b (List.mem_append_left _ hb)) hconn
    exact hbefore.step (hok turn (by simp)) hstep

theorem map_toBytes_ofBytes {recs : List (List UInt8)}
    (hrecs : ∀ bytes ∈ recs, bytes.length = sizeofMyStruct) :
    (recs.map MyStruct.ofBytes).map MyStruct.toBytes = recs := by
  rw [List.map_map]
  calc recs.map (MyStruct.toBytes ∘ MyStruct.ofBytes)
      = recs.map id := List.map_congr_left fun bytes hmem => toBytes_ofBytes (hrecs bytes hmem)
    _ = recs := List.map_id recs

/-- What was served tells the records, since a struct keeps its bytes. -/
theorem Serves.inj {recs recs' : List (List UInt8)}
    (hrecs : ∀ bytes ∈ recs, bytes.length = sizeofMyStruct)
    (hrecs' : ∀ bytes ∈ recs', bytes.length = sizeofMyStruct)
    (h : conn.Serves recs) (h' : conn.Serves recs') : recs = recs' := by
  rw [← map_toBytes_ofBytes hrecs, ← h.1, h'.1, map_toBytes_ofBytes hrecs']

/-- Over any calls of `handle_client_data` without errors, the structs that are handled and
answered are the records of the stream exactly when the segments keep the records: what came in
shorter segments never makes up a struct, and a segment as long as a struct repeats what came in
front of it in shorter ones. -/
theorem serves_records_iff (hok : ∀ turn ∈ turns, turn.NoError)
    (hrun : exec handleClientData {} turns = some t) :
    t.Serves (records sizeofMyStruct (stream turns)) ↔
      Repeats sizeofMyStruct [] (segments turns) := by
  have hserves := (inv_of_run hok hrun).serves
  have hsegs : ∀ seg ∈ segments turns, seg.length ≤ sizeofMyStruct := by
    intro seg hseg
    obtain ⟨turn, -, hbytes⟩ := List.mem_filterMap.mp hseg
    cases turn with
    | received r sent sentMore =>
      cases hbytes
      exact r.fits
    | disconnected | wouldBlock | receiveError => cases hbytes
  rw [← wholes_eq_records_iff (by decide) hsegs (by decide), List.nil_append, ← stream]
  constructor
  · intro hrecords
    exact Serves.inj (fun _ hrec => length_of_mem_wholes hrec)
      (fun _ hrec => length_of_mem_records hrec) hserves hrecords
  · intro heq
    rw [← heq]
    exact hserves

/-- The bytes of a struct. -/
def oneStruct : List UInt8 := [10, 0, 0, 0, 1, 2, 3, 0, 4, 0]

/-- Two structs, the second one sent after the first was answered, and the beginning of a third. -/
def twoStructs : List Turn :=
  [.received ⟨oneStruct, by decide, by decide⟩ true true, .wouldBlock,
    .received ⟨oneStruct, by decide, by decide⟩ true true,
    .received ⟨[10, 0], by decide, by decide⟩ true true, .disconnected]

theorem serves_records_iff_two :
    ∃ t, exec handleClientData {} twoStructs = some t ∧
      t.Serves (records sizeofMyStruct (stream twoStructs)) := by
  have hok : ∀ turn ∈ twoStructs, turn.NoError := by decide
  exact ⟨_, rfl, (serves_records_iff hok rfl).mpr (by decide)⟩

/-- A struct that arrives in two segments, with an `EAGAIN` between them or without one, is not
handled. -/
theorem struct_in_two_segments :
    (∃ t, exec handleClientData {} [.received ⟨oneStruct.take 4, by decide, by decide⟩ true true,
        .received ⟨oneStruct.drop 4, by decide, by decide⟩ true true] = some t ∧
      t.handled = [] ∧ t.sent = []) ∧
    (∃ t, exec handleClientData {} [.received ⟨oneStruct.take 4, by decide, by decide⟩ true true,
        .wouldBlock, .received ⟨oneStruct.drop 4, by decide, by decide⟩ true true] = some t ∧
      t.handled = [] ∧ t.sent = []) ∧
    records sizeofMyStruct (oneStruct.take 4 ++ oneStruct.drop 4) = [oneStruct] :=
  ⟨⟨_, rfl, rfl, rfl⟩, ⟨_, rfl, rfl, rfl⟩, by decide⟩

end Connection

end Sparo.Test
