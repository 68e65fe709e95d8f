import Sparo.Demo.Proofs.SharedBufferBounds
import Sparo.Demo.Proofs.SharedBufferFifo

/-!
# `TryWrite` without interference

A `TryWrite` that runs alone, from any contents of the control structure and the ring. It either
gives up with everything as it was, or appends its data behind the bytes in use.
-/

namespace Sparo.Demo.SharedBuffer

open StepSystem CircularIndex

variable {len readPos writePos n : Nat} {s t : State} {data : List UInt8}

/-! ## Bytes in use -/

/-- The bytes from the read position up to the write position, around the ring. -/
def bytesInUse (len readPos writePos : Nat) : Nat :=
  (writePos + usableLen len - readPos) % usableLen len

theorem bytesInUse_lt (hpos : 1 ≤ usableLen len) :
    bytesInUse len readPos writePos < usableLen len := Nat.mod_lt _ hpos

theorem bytesInUse_of_lt (hr : readPos < usableLen len) (hw : writePos < usableLen len) :
    bytesInUse len readPos writePos =
      if readPos ≤ writePos then writePos - readPos
      else writePos + (usableLen len - readPos) := by
  unfold bytesInUse
  split
  · next hle =>
    rw [show writePos + usableLen len - readPos = writePos - readPos + usableLen len by omega,
      Nat.add_mod_right, Nat.mod_eq_of_lt (by omega)]
  · next hgt => rw [Nat.mod_eq_of_lt (by omega), Nat.add_sub_assoc hr.le]

/-- `NumBytesInUse` computes them up to 4 GiB. -/
theorem numBytesInUse_eq (hle : usableLen len ≤ 2 ^ 32) (hr : readPos < usableLen len)
    (hw : writePos < usableLen len) :
    numBytesInUse len readPos writePos = bytesInUse len readPos writePos := by
  rw [numBytesInUse_of_lt hle hr hw, bytesInUse_of_lt hr hw]

/-- The write position lies behind the bytes in use. -/
theorem add_bytesInUse_mod (hr : readPos < usableLen len) (hw : writePos < usableLen len) :
    (readPos + bytesInUse len readPos writePos) % usableLen len = writePos := by
  rw [bytesInUse_of_lt hr hw]
  split
  · rw [Nat.add_sub_cancel' (by omega), Nat.mod_eq_of_lt hw]
  · rw [show readPos + (writePos + (usableLen len - readPos)) = writePos + usableLen len by omega,
      Nat.add_mod_right, Nat.mod_eq_of_lt hw]

/-- `space_available` is the free space modulo 4 GiB. -/
theorem spaceAvailable_eq (hle : usableLen len ≤ 2 ^ 32) (hr : readPos < usableLen len)
    (hw : writePos < usableLen len) :
    spaceAvailable len readPos writePos =
      (usableLen len - bytesInUse len readPos writePos) % 2 ^ 32 := by
  have hlt : bytesInUse len readPos writePos < usableLen len := bytesInUse_lt (by omega)
  rw [spaceAvailable, numBytesInUse_eq hle hr hw, subSize_of_le hlt.le (usableLen_lt len), toUint32]

/-! ## What the call does -/

/-- The write flag is clear, the positions are valid, and there is more space than the data
needs. -/
def Accepts (len : Nat) (s : State) (data : List UInt8) : Prop :=
  s.writeFlag = false ∧ s.readPos < usableLen len ∧ s.writePos < usableLen len ∧
    data.length < spaceAvailable len s.readPos s.writePos

/-- Nothing but the write flag has changed. -/
def Unchanged (s t : State) (flag : Bool) : Prop :=
  t.region = s.region ∧ t.writePos = s.writePos ∧ t.readPos = s.readPos ∧
    t.readFlag = s.readFlag ∧ t.writeFlag = flag

/-- The data is in the cells from the write position on, the other bytes are as they were, and the
write position has moved behind the data. -/
def Appended (len : Nat) (s t : State) (data : List UInt8) (flag : Bool) : Prop :=
  (∀ i < data.length,
      t.region (usableRegionPtr + (s.writePos + i) % usableLen len) = data.getD i 0) ∧
    (∀ offset, (∀ i < data.length, offset ≠ usableRegionPtr + (s.writePos + i) % usableLen len) →
      t.region offset = s.region offset) ∧
    t.writePos = (s.writePos + data.length) % usableLen len ∧ t.readPos = s.readPos ∧
    t.readFlag = s.readFlag ∧ t.writeFlag = flag

/-- A call that runs alone is at its copies: some are made, and the bytes they do not go to are as
they were. -/
def Copying (len : Nat) (s t : State) (data : List UInt8) (curWritePos : Nat) (moves : List Move) :
    Prop :=
  Filling len s.readPos (s.readPos + bytesInUse len s.readPos s.writePos) t.region data curWritePos
      moves ∧
    (∀ offset, (∀ i < data.length, offset ≠ usableRegionPtr + (s.writePos + i) % usableLen len) →
      t.region offset = s.region offset) ∧
    t.writePos = s.writePos ∧ t.readPos = s.readPos ∧ t.readFlag = s.readFlag ∧ t.writeFlag = true

/-- Where a `TryWrite` is that runs alone from `s`. -/
def SoloWrite (len : Nat) (s t : State) (data : List UInt8) : WriterPc → Prop
  | .lock => Unchanged s t s.writeFlag
  | .loadRead => s.writeFlag = false ∧ Unchanged s t true
  | .loadWrite curReadPos => s.writeFlag = false ∧ curReadPos = s.readPos ∧ Unchanged s t true
  | .copy curWritePos moves =>
    Accepts len s data ∧ curWritePos = s.writePos ∧ Copying len s t data curWritePos moves
  | .unlock .kSuccess => Accepts len s data ∧ Appended len s t data true
  | .unlock _ => s.writeFlag = false ∧ ¬Accepts len s data ∧ Unchanged s t true
  | .returned .kSuccess => Accepts len s data ∧ Appended len s t data s.writeFlag
  | .returned _ => ¬Accepts len s data ∧ Unchanged s t s.writeFlag

/-- The steps that are left. -/
def WriterPc.remaining (n : Nat) : WriterPc → Nat
  | .lock => n + 5
  | .loadRead => n + 4
  | .loadWrite _ => n + 3
  | .copy _ moves => moves.length + 2
  | .unlock _ => 1
  | .returned _ => 0

theorem length_writeMoves (hw : writePos < usableLen len) (hn : n ≤ usableLen len) :
    (writeMoves len writePos n).length = n := by
  have hlen := usableLen_lt len
  unfold writeMoves
  rw [subSize_of_le hw.le hlen]
  split
  · simp [memcpy]
  · dsimp only
    rw [subSize_of_le (by omega) (by omega)]
    simp only [memcpy, List.length_append, List.length_map, List.length_range]
    omega

/-- The cells of the data, counted from the read position on. -/
theorem Accepts.cell_eq (h : Accepts len s data) (i : Nat) :
    cell len (s.readPos + bytesInUse len s.readPos s.writePos + i) =
      usableRegionPtr + (s.writePos + i) % usableLen len := by
  rw [cell, ← Nat.mod_add_mod, add_bytesInUse_mod h.2.1 h.2.2.1]

/-- The copy of one byte. -/
theorem Copying.move {curWritePos k dst src : Nat} {moves : List Move}
    (haccept : Accepts len s data) (h : Copying len s t data curWritePos moves)
    (hmove : moves[k]? = some (dst, src)) :
    Copying len s { t with region := Function.update t.region dst (data.getD src 0) } data
      curWritePos (moves.eraseIdx k) := by
  obtain ⟨hfill, hframe, hrest⟩ := h
  obtain ⟨i, hi, heq⟩ := hfill.left _ (List.mem_of_getElem? hmove)
  cases heq
  refine ⟨hfill.move (Nat.le_add_right _ _) hmove hi, fun offset hoffset => ?_, hrest⟩
  have hne : offset ≠ cell len (s.readPos + bytesInUse len s.readPos s.writePos + src) := by
    rw [haccept.cell_eq]
    exact hoffset src hi
  dsimp only
  rw [Function.update_of_ne hne]
  exact hframe offset hoffset

section

variable (hle : usableLen len ≤ 2 ^ 32)

include hle

/-- What is accepted fits behind the bytes in use. -/
theorem Accepts.room (h : Accepts len s data) :
    bytesInUse len s.readPos s.writePos + data.length < usableLen len := by
  obtain ⟨-, hr, hw, hspace⟩ := h
  rw [spaceAvailable_eq hle hr hw] at hspace
  have hlt : data.length < usableLen len - bytesInUse len s.readPos s.writePos :=
    Nat.lt_of_lt_of_le hspace (Nat.mod_le _ _)
  omega

/-- After the loads. -/
theorem soloWrite_checkSpace (hflag : s.writeFlag = false) (h : Unchanged s t true) :
    SoloWrite len s t data (checkSpace len s.readPos t.writePos data.length) ∧
      (checkSpace len s.readPos t.writePos data.length).remaining data.length <
        data.length + 3 := by
  obtain ⟨hregion, hwrite, hread⟩ := h
  rw [hwrite]
  unfold checkSpace
  by_cases hvalid : validateReadWritePositions len s.readPos s.writePos = true
  · obtain ⟨hr, hw⟩ := validateReadWritePositions_eq_true.mp hvalid
    rw [hvalid, Bool.not_true, if_neg Bool.false_ne_true]
    by_cases hspace : spaceAvailable len s.readPos s.writePos ≤ data.length
    · rw [if_pos hspace]
      refine ⟨⟨hflag, fun haccept => ?_, hregion, hwrite, hread⟩, Nat.succ_lt_succ (by omega)⟩
      exact Nat.not_lt.mpr hspace haccept.2.2.2
    · rw [if_neg hspace]
      have haccept : Accepts len s data := ⟨hflag, hr, hw, Nat.lt_of_not_le hspace⟩
      have hroom := haccept.room hle
      have hn : data.length ≤ usableLen len := by omega
      have hmoves : ∀ m, m ∈ writeMoves len s.writePos data.length ↔ ∃ i < data.length,
          m = (cell len (s.readPos + bytesInUse len s.readPos s.writePos + i), i) := by
        intro m
        simp only [haccept.cell_eq]
        exact mem_writeMoves hw hn
      refine ⟨⟨haccept, rfl, ⟨?_, by omega, fun m hm => (hmoves m).mp hm, fun i hi => ?_⟩,
        fun offset _ => by rw [hregion], hwrite, hread⟩, ?_⟩
      · exact (add_bytesInUse_mod hr hw).symm
      · exact .inl ((hmoves _).mpr ⟨i, hi, rfl⟩)
      · rw [WriterPc.remaining, length_writeMoves hw hn]
        omega
  · rw [Bool.eq_false_iff.mpr hvalid, Bool.not_false, if_pos rfl]
    refine ⟨⟨hflag, fun haccept => ?_, hregion, hwrite, hread⟩, Nat.succ_lt_succ (by omega)⟩
    exact hvalid (validateReadWritePositions_eq_true.mpr ⟨haccept.2.1, haccept.2.2.1⟩)

/-- The exchange of the write position, which nobody else has changed. -/
theorem Copying.exchange (haccept : Accepts len s data)
    (h : Copying len s t data s.writePos []) :
    ∃ u, exchangeWritePos len t ⟨.copy s.writePos [], data⟩ s.writePos =
        (u, ⟨.unlock .kSuccess, data⟩) ∧
      u.writers = t.writers ∧ Appended len s u data true := by
  obtain ⟨hfill, hframe, hwrite, hread⟩ := h
  have hroom := haccept.room hle
  have hw : s.writePos < usableLen len := haccept.2.2.1
  have hnew : toUint32 ((s.writePos + data.length) % 2 ^ 64 % usableLen len) =
      (s.writePos + data.length) % usableLen len := by
    have hlt : (s.writePos + data.length) % usableLen len < usableLen len :=
      Nat.mod_lt _ (by omega)
    rw [Nat.mod_eq_of_lt (b := 2 ^ 64) (by omega), toUint32, Nat.mod_eq_of_lt (by omega)]
  unfold exchangeWritePos
  dsimp only
  rw [if_neg (by rw [hwrite]; exact fun h => h rfl), hnew]
  refine ⟨_, rfl, rfl, fun i hi => ?_, hframe, rfl, hread⟩
  have hdone := (hfill.done i hi).resolve_left List.not_mem_nil
  rwa [haccept.cell_eq] at hdone

/-- A `TryWrite` that runs alone goes on until it returns. -/
theorem SoloWrite.step {pc : WriterPc} (h : SoloWrite len s t data pc) {k : Nat} {u : State}
    {x : Writer} (hstep : writerStep len t ⟨pc, data⟩ k = some (u, x)) :
    ∃ pc', x = ⟨pc', data⟩ ∧ u.writers = t.writers ∧ SoloWrite len s u data pc' ∧
      pc'.remaining data.length < pc.remaining data.length := by
  cases writerTo_of_writerStep hstep with
  | busy _ hflag =>
    have hset : s.writeFlag = true := h.2.2.2.2.symm.trans hflag
    refine ⟨_, rfl, rfl, ⟨fun haccept => ?_, h⟩, Nat.succ_pos _⟩
    exact Bool.false_ne_true (haccept.1.symm.trans hset)
  | acquire _ hflag =>
    have hclear : s.writeFlag = false := h.2.2.2.2.symm.trans hflag
    exact ⟨_, rfl, rfl, ⟨hclear, h.1, h.2.1, h.2.2.1, h.2.2.2.1, rfl⟩, Nat.lt_succ_self _⟩
  | loadRead =>
    obtain ⟨hflag, hsame⟩ := h
    exact ⟨_, rfl, rfl, ⟨hflag, hsame.2.2.1, hsame⟩, Nat.lt_succ_self _⟩
  | loadWrite =>
    obtain ⟨hflag, rfl, hsame⟩ := h
    exact ⟨_, rfl, rfl, soloWrite_checkSpace hle hflag hsame⟩
  | move _ curWritePos k moves dst src hmove =>
    obtain ⟨haccept, hcur, hcopying⟩ := h
    refine ⟨_, rfl, rfl, ⟨haccept, hcur, hcopying.move haccept hmove⟩, ?_⟩
    have hk : k < moves.length := (List.getElem?_eq_some_iff.mp hmove).1
    have hlength := List.length_eraseIdx_of_lt hk
    simp only [WriterPc.remaining]
    omega
  | exchange _ curWritePos =>
    obtain ⟨haccept, rfl, hcopying⟩ := h
    obtain ⟨u, hu, hwriters, happended⟩ := hcopying.exchange hle haccept
    rw [hu]
    exact ⟨_, rfl, hwriters, ⟨haccept, happended⟩, Nat.lt_succ_self 1⟩
  | unlock _ error =>
    cases error with
    | kSuccess =>
      obtain ⟨haccept, hdata, hframe, hwrite, hread, hreadFlag, -⟩ := h
      exact ⟨_, rfl, rfl, ⟨haccept, hdata, hframe, hwrite, hread, hreadFlag, haccept.1.symm⟩,
        Nat.one_pos⟩
    | kGeneralError | kControlCorruption =>
      obtain ⟨hflag, haccept, hregion, hwrite, hread, hreadFlag, -⟩ := h
      exact ⟨_, rfl, rfl, ⟨haccept, hregion, hwrite, hread, hreadFlag, hflag.symm⟩, Nat.one_pos⟩

end

/-- Until it has returned, a call has a step. -/
theorem exists_writerStep (len : Nat) (t : State) {x : Writer}
    (hpc : ∀ error, x.pc ≠ .returned error) : ∃ y, writerStep len t x 0 = some y := by
  obtain ⟨pc, data⟩ := x
  cases pc with
  | lock =>
    simp only [writerStep]
    split <;> exact ⟨_, rfl⟩
  | loadRead | loadWrite | unlock => exact ⟨_, rfl⟩
  | copy curWritePos moves =>
    cases moves with
    | nil => exact ⟨_, rfl⟩
    | cons m moves => exact ⟨_, rfl⟩
  | returned error => exact absurd rfl (hpc error)

/-! ## Runs -/

/-- The calls of `s` and one more `TryWrite`, which runs alone and has `n` steps left. -/
def WithWrite (len : Nat) (s : State) (data : List UInt8) (n : Nat) (t : State) : Prop :=
  ∃ pc : WriterPc, t.writers = s.writers ++ [⟨pc, data⟩] ∧ pc.remaining data.length = n ∧
    SoloWrite len s t data pc

theorem WithWrite.step (hle : usableLen len ≤ 2 ^ 32) {k : Nat} {u : State}
    (h : WithWrite len s data n t)
    (hstep : SharedBuffer.step len t (.writer s.writers.length k) = some u) :
    ∃ m < n, WithWrite len s data m u := by
  obtain ⟨pc, hcalls, rfl, hsolo⟩ := h
  have hcall : t.writers[s.writers.length]? = some ⟨pc, data⟩ := by simp [hcalls]
  simp only [SharedBuffer.step, hcall] at hstep
  obtain ⟨⟨v, x⟩, hv, rfl⟩ := Option.map_eq_some_iff.mp hstep
  obtain ⟨pc', rfl, hkept, hsolo', hless⟩ := hsolo.step hle hv
  refine ⟨_, hless, pc', ?_, rfl, ?_⟩
  · simp [hkept, hcalls]
  · cases pc' with
    | unlock error | returned error => cases error <;> exact hsolo'
    | _ => exact hsolo'

/-- `t` is reached from `s` by a new `TryWrite(data)` that runs alone and returned `error`. -/
def WriteAlone (len : Nat) (s : State) (data : List UInt8) (t : State) (error : Error) : Prop :=
  ∃ ks : List Nat, exec (step len) s
      (.tryWrite data :: ks.map (.writer s.writers.length)) = some t ∧
    t.writers[s.writers.length]? = some ⟨.returned error, data⟩

section

variable (hle : usableLen len ≤ 2 ^ 32)

include hle

/-- `TryWrite` before its first access to the region. -/
theorem withWrite_tryWrite (s : State) (data : List UInt8) :
    ∃ n, WithWrite len s data n { s with writers := s.writers ++ [tryWrite len data] } := by
  unfold tryWrite
  split
  · next hlong =>
    refine ⟨_, .returned .kGeneralError, rfl, rfl, fun haccept => ?_, rfl, rfl, rfl, rfl, rfl⟩
    have hroom := haccept.room hle
    omega
  · exact ⟨_, .lock, rfl, rfl, rfl, rfl, rfl, rfl, rfl⟩

theorem writeAlone_returns (s : State) (data : List UInt8) :
    ∃ t error, WriteAlone len s data t error := by
  obtain ⟨n, hstart⟩ := withWrite_tryWrite hle s data
  have hcountdown : ∀ n t, WithWrite len s data n t →
      (∃ error, t.writers[s.writers.length]? = some ⟨.returned error, data⟩) ∨
        ∃ m u, m < n ∧ SharedBuffer.step len t (.writer s.writers.length 0) = some u ∧
          WithWrite len s data m u := by
    intro n t h
    obtain ⟨pc, hcalls, -, -⟩ := id h
    have hcall : t.writers[s.writers.length]? = some ⟨pc, data⟩ := by simp [hcalls]
    by_cases hpc : ∃ error, pc = .returned error
    · obtain ⟨error, rfl⟩ := hpc
      exact .inl ⟨error, hcall⟩
    · obtain ⟨y, hy⟩ := exists_writerStep len t (x := ⟨pc, data⟩)
        fun error heq => hpc ⟨error, heq⟩
      have hstep : SharedBuffer.step len t (.writer s.writers.length 0) =
          some { y.1 with writers := y.1.writers.set s.writers.length y.2 } := by
        simp only [SharedBuffer.step, hcall, hy, Option.map_some]
      obtain ⟨m, hless, hwith⟩ := h.step hle hstep
      exact .inr ⟨m, _, hless, hstep, hwith⟩
  obtain ⟨k, t, hrun, error, hcall⟩ := exists_exec_replicate hcountdown hstart
  refine ⟨t, error, List.replicate k 0, ?_, hcall⟩
  rw [List.map_replicate]
  exact exec_cons_eq_some.mpr ⟨_, rfl, hrun⟩

theorem WriteAlone.soloWrite {error : Error} (h : WriteAlone len s data t error) :
    SoloWrite len s t data (.returned error) := by
  obtain ⟨ks, hrun, hcall⟩ := h
  obtain ⟨u, hu, hrun⟩ := exec_cons_eq_some.mp hrun
  cases hu
  obtain ⟨n, pc, hcalls, -, hsolo⟩ := exec_map_invariant
      (I := fun t => ∃ n, WithWrite len s data n t) (fun t k u h hu => by
    obtain ⟨n, h⟩ := h
    obtain ⟨m, -, hwith⟩ := h.step hle hu
    exact ⟨m, hwith⟩) (withWrite_tryWrite hle s data) hrun
  obtain rfl : pc = .returned error := by simpa [hcalls] using hcall
  exact hsolo

/-- The data does not reach the bytes in use. -/
theorem Appended.unread (haccept : Accepts len s data) {flag : Bool}
    (h : Appended len s t data flag) {j : Nat} (hj : j < bytesInUse len s.readPos s.writePos) :
    t.region (usableRegionPtr + (s.readPos + j) % usableLen len) =
      s.region (usableRegionPtr + (s.readPos + j) % usableLen len) := by
  have hroom := haccept.room hle
  refine h.2.1 _ fun i hi => ?_
  rw [← haccept.cell_eq]
  exact (cell_ne (by omega) (by omega)).symm

end

/-- A `TryWrite` that runs alone returns. It succeeds exactly when the write flag is clear, both
positions are valid, and the data is smaller than the space that is not in use. If it fails, the
region, the positions and the flags are as they were. If it succeeds, the data is in the cells from
the write position on, which has moved behind it, and all else is as it was, the bytes in use
included. -/
theorem writeAlone_success_iff (hlen : usableLen len < 2 ^ 32) (s : State) (data : List UInt8) :
    (∃ t error, WriteAlone len s data t error) ∧
    ∀ t error, WriteAlone len s data t error →
      (error = .kSuccess ↔
        s.writeFlag = false ∧ s.readPos < usableLen len ∧ s.writePos < usableLen len ∧
          data.length < usableLen len - bytesInUse len s.readPos s.writePos) ∧
      (error ≠ .kSuccess → Unchanged s t s.writeFlag) ∧
      (error = .kSuccess → Appended len s t data s.writeFlag ∧
        ∀ j < bytesInUse len s.readPos s.writePos,
          t.region (usableRegionPtr + (s.readPos + j) % usableLen len) =
            s.region (usableRegionPtr + (s.readPos + j) % usableLen len)) := by
  refine ⟨writeAlone_returns hlen.le s data, fun t error h => ?_⟩
  have haccepts : Accepts len s data ↔
      s.writeFlag = false ∧ s.readPos < usableLen len ∧ s.writePos < usableLen len ∧
        data.length < usableLen len - bytesInUse len s.readPos s.writePos := by
    refine and_congr_right fun _ => and_congr_right fun hr => and_congr_right fun hw => ?_
    rw [spaceAvailable_eq hlen.le hr hw, Nat.mod_eq_of_lt (by omega)]
  rw [← haccepts]
  have hsolo := h.soloWrite hlen.le
  cases error with
  | kSuccess =>
    obtain ⟨haccept, happended⟩ := hsolo
    exact ⟨iff_of_true rfl haccept, fun hne => absurd rfl hne,
      fun _ => ⟨happended, fun j hj => happended.unread hlen.le haccept hj⟩⟩
  | kGeneralError | kControlCorruption =>
    obtain ⟨hrefuse, hsame⟩ := hsolo
    exact ⟨iff_of_false (by decide) hrefuse, fun _ => hsame, fun heq => by cases heq⟩

/-- Two bytes that go around the end of a ring of four, behind one byte in use. -/
def nearEnd : State := { region := fun offset => offset.toUInt8, readPos := 2, writePos := 3 }

theorem writeAlone_success_iff_nearEnd :
    usableLen 28 = 4 ∧ ∃ t, WriteAlone 28 nearEnd [8, 9] t .kSuccess ∧
      Appended 28 nearEnd t [8, 9] false ∧ t.region (usableRegionPtr + 2) = 26 := by
  have husable : usableLen 28 = 4 := by decide
  have hlen : usableLen 28 < 2 ^ 32 := by decide
  obtain ⟨⟨t, error, h⟩, hall⟩ := writeAlone_success_iff hlen nearEnd [8, 9]
  obtain ⟨hiff, -, happends⟩ := hall t error h
  obtain rfl := hiff.mpr (by decide)
  obtain ⟨happended, hunread⟩ := happends rfl
  exact ⟨husable, t, h, happended, hunread 0 (by decide)⟩

end Sparo.Demo.SharedBuffer
