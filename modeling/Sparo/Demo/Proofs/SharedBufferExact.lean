import Sparo.Demo.Proofs.SharedBufferAlone

/-!
# The 32-bit arithmetic of the shared buffer

`TryWrite` adds the length of its data to the write position as `size_t` values and converts the
remainder to `uint32_t`. `TryReadLocked` adds two `uint32_t` values and takes the remainder of a
sum that may have wrapped. The free space is a `size_t` difference that is kept in a `uint32_t`.
Up to a usable length of 4 GiB it is these two that can be wrong.
-/

namespace Sparo.Demo.SharedBuffer

open StepSystem

variable {len readPos writePos n : Nat} {s t : State} {data : List UInt8}

/-! ## The values -/

/-- The read position after `n` bytes were read, as `TryReadLocked` computes it. -/
def newReadPos (len readPos n : Nat) : Nat := toUint32 (toUint32 (readPos + n) % usableLen len)

/-- The bytes in use as a remainder of integers. -/
theorem bytesInUse_eq_emod (hr : readPos < usableLen len) :
    (bytesInUse len readPos writePos : Int) =
      ((writePos : Int) - readPos) % usableLen len := by
  rw [bytesInUse, Int.natCast_mod, Nat.cast_sub (by omega), Nat.cast_add,
    show (writePos + usableLen len - readPos : Int) = writePos - readPos + usableLen len by ring,
    Int.add_emod_right]

section

variable (hle : usableLen len ≤ 2 ^ 32) (hr : readPos < usableLen len)

include hle hr

/-- The free space is lost in the conversion when it is all of 4 GiB. -/
theorem spaceAvailable_eq_sub_iff (hw : writePos < usableLen len) :
    spaceAvailable len readPos writePos = usableLen len - bytesInUse len readPos writePos ↔
      usableLen len ≠ 2 ^ 32 ∨ readPos ≠ writePos := by
  have hlt : bytesInUse len readPos writePos < usableLen len := bytesInUse_lt (by omega)
  have hzero : bytesInUse len readPos writePos = 0 ↔ readPos = writePos := by
    rw [bytesInUse_of_lt hr hw]
    split <;> omega
  rw [spaceAvailable_eq hle hr hw]
  by_cases hfull : usableLen len - bytesInUse len readPos writePos = 2 ^ 32
  · rw [hfull]
    refine iff_of_false (by decide) ?_
    omega
  · rw [Nat.mod_eq_of_lt (by omega)]
    refine iff_of_true rfl ?_
    omega

/-- The sum wraps at 4 GiB and the position at the usable length. -/
theorem newReadPos_eq_mod_iff (hn : n ≤ usableLen len) :
    newReadPos len readPos n = (readPos + n) % usableLen len ↔
      usableLen len = 2 ^ 32 ∨ readPos + n < 2 ^ 32 := by
  have hlt : toUint32 (readPos + n) % usableLen len < usableLen len := Nat.mod_lt _ (by omega)
  have hnew : newReadPos len readPos n = toUint32 (readPos + n) % usableLen len :=
    Nat.mod_eq_of_lt (by omega)
  rw [hnew, toUint32]
  by_cases hwhole : usableLen len = 2 ^ 32
  · rw [hwhole, Nat.mod_mod]
    exact iff_of_true rfl (.inl rfl)
  by_cases hfits : readPos + n < 2 ^ 32
  · rw [Nat.mod_eq_of_lt hfits]
    exact iff_of_true rfl (.inr hfits)
  · -- both are the sum less one revolution, of 4 GiB and of the usable length
    have hcode : (readPos + n) % 2 ^ 32 % usableLen len = readPos + n - 2 ^ 32 := by
      rw [Nat.mod_eq_sub_mod (Nat.le_of_not_lt hfits), Nat.mod_eq_of_lt (b := 2 ^ 32) (by omega),
        Nat.mod_eq_of_lt (by omega)]
    have hright : (readPos + n) % usableLen len = readPos + n - usableLen len := by
      rw [Nat.mod_eq_sub_mod (by omega), Nat.mod_eq_of_lt (by omega)]
    rw [hcode, hright]
    omega

end

/-! ## A read that runs alone -/

theorem length_readMoves : (readMoves len readPos writePos n).length = n := by
  unfold readMoves
  split
  · simp [memcpy]
  · dsimp only
    split
    · simp only [memcpy, List.length_append, List.length_map, List.length_range]
      omega
    · simp only [memcpy, List.length_append, List.length_map, List.length_range, List.length_nil]
      omega

/-- The bytes that a reader with a buffer of `m` bytes gets. -/
def bytesTaken (len m : Nat) (s : State) : Nat := min (bytesInUse len s.readPos s.writePos) m

/-- The read with a buffer of `m` bytes is over. -/
def Taken (len m : Nat) (s t : State) (error : Error) (bytesRead : Nat) : Prop :=
  error = .kSuccess ∧ bytesRead = bytesTaken len m s ∧
    t.readPos = newReadPos len s.readPos bytesRead

/-- Where a reader is that runs alone from `s`. -/
def SoloRead (len m : Nat) (s t : State) (bytesRead : Nat) : ReaderPc → Prop
  | .lock => t.readFlag = s.readFlag ∧ t.readPos = s.readPos ∧ t.writePos = s.writePos
  | .locked => s.readFlag = true
  | .loadRead => t.readPos = s.readPos ∧ t.writePos = s.writePos
  | .loadWrite curReadPos =>
    curReadPos = s.readPos ∧ t.readPos = s.readPos ∧ t.writePos = s.writePos
  | .copy curReadPos bytesAvailable _ =>
    curReadPos = s.readPos ∧ bytesAvailable = bytesTaken len m s ∧ t.readPos = s.readPos
  | .unlock error | .returned error => Taken len m s t error bytesRead

/-- The steps that are left. -/
def ReaderPc.remaining (m : Nat) : ReaderPc → Nat
  | .lock => m + 5
  | .loadRead => m + 4
  | .loadWrite _ => m + 3
  | .copy _ _ moves => moves.length + 2
  | .unlock _ => 1
  | .locked | .returned _ => 0

section

variable {m : Nat} (hle : usableLen len ≤ 2 ^ 32) (hr : s.readPos < usableLen len)
  (hw : s.writePos < usableLen len)

include hle hr hw

/-- After the loads. -/
theorem soloRead_checkAvailable (r : Reader) (hread : t.readPos = s.readPos)
    (hwrite : t.writePos = s.writePos) (hm : r.data.length = m) :
    ∃ pc bytesRead, checkAvailable len s.readPos t.writePos r = ⟨pc, r.data, bytesRead⟩ ∧
      SoloRead len m s t bytesRead pc ∧ pc.remaining m < m + 3 := by
  have htaken : min (numBytesInUse len s.readPos s.writePos) r.data.length =
      bytesTaken len m s := by rw [numBytesInUse_eq hle hr hw, hm, bytesTaken]
  unfold checkAvailable
  rw [hwrite, validateReadWritePositions_of_lt hr hw, Bool.not_true, if_neg Bool.false_ne_true,
    htaken]
  dsimp only
  split
  · next hzero =>
    refine ⟨_, _, rfl, ⟨rfl, hzero.symm, ?_⟩, Nat.succ_lt_succ (by omega)⟩
    rw [hread, newReadPos, toUint32, toUint32, Nat.add_zero, Nat.mod_eq_of_lt (b := 2 ^ 32),
      Nat.mod_eq_of_lt (b := 2 ^ 32), Nat.mod_eq_of_lt hr]
    · exact Nat.lt_of_lt_of_le hr hle
    · exact Nat.lt_of_lt_of_le (Nat.mod_lt _ (by omega)) hle
  · refine ⟨_, _, rfl, ⟨rfl, rfl, hread⟩, ?_⟩
    have hleft : bytesTaken len m s ≤ m := Nat.min_le_right _ _
    rw [ReaderPc.remaining, length_readMoves]
    omega

/-- A reader that runs alone goes on until it returns. -/
theorem SoloRead.step {pc : ReaderPc} {bytesRead : Nat} (h : SoloRead len m s t bytesRead pc)
    (hm : data.length = m) {k : Nat} {u : State} {x : Reader}
    (hstep : readerStep len t ⟨pc, data, bytesRead⟩ k = some (u, x)) :
    x.data.length = m ∧ u.readers = t.readers ∧ SoloRead len m s u x.bytesRead x.pc ∧
      x.pc.remaining m < pc.remaining m := by
  cases readerTo_of_readerStep hstep with
  | busy _ _ hflag => exact ⟨hm, rfl, h.1.symm.trans hflag, Nat.succ_pos _⟩
  | acquire => exact ⟨hm, rfl, h.2, Nat.lt_succ_self _⟩
  | loadRead => exact ⟨hm, rfl, ⟨h.1, h⟩, Nat.lt_succ_self _⟩
  | loadWrite =>
    obtain ⟨rfl, hread, hwrite⟩ := h
    obtain ⟨pc, bytesRead', heq, hsolo⟩ := soloRead_checkAvailable hle hr hw
      ⟨.loadWrite s.readPos, data, bytesRead⟩ hread hwrite hm
    rw [heq]
    exact ⟨hm, rfl, hsolo⟩
  | move _ _ curReadPos bytesAvailable k moves dst src hmove =>
    refine ⟨by rw [List.length_set, hm], rfl, h, ?_⟩
    have hk : k < moves.length := (List.getElem?_eq_some_iff.mp hmove).1
    have hlength := List.length_eraseIdx_of_lt hk
    simp only [ReaderPc.remaining]
    omega
  | exchange _ _ curReadPos bytesAvailable =>
    obtain ⟨rfl, htaken, hread⟩ := h
    have hsame : ¬t.readPos ≠ s.readPos := fun hne => hne hread
    unfold exchangeReadPos
    dsimp only
    rw [if_neg hsame]
    exact ⟨hm, rfl, ⟨rfl, htaken, rfl⟩, Nat.lt_succ_self 1⟩
  | unlock => exact ⟨hm, rfl, h, Nat.one_pos⟩

end

/-- Until it has returned, a reader has a step. -/
theorem exists_readerStep (len : Nat) (t : State) {x : Reader} (hlocked : x.pc ≠ .locked)
    (hpc : ∀ error, x.pc ≠ .returned error) : ∃ y, readerStep len t x 0 = some y := by
  obtain ⟨pc, data, bytesRead⟩ := x
  cases pc with
  | lock =>
    simp only [readerStep]
    split <;> exact ⟨_, rfl⟩
  | locked => exact absurd rfl hlocked
  | loadRead | loadWrite | unlock => exact ⟨_, rfl⟩
  | copy curReadPos bytesAvailable moves =>
    cases moves with
    | nil => exact ⟨_, rfl⟩
    | cons m moves => exact ⟨_, rfl⟩
  | returned error => exact absurd rfl (hpc error)

/-- The calls of `s` and one more reader with a buffer of `m` bytes, which runs alone and has `n`
steps left. -/
def WithRead (len m : Nat) (s : State) (n : Nat) (t : State) : Prop :=
  ∃ r : Reader, t.readers = s.readers ++ [r] ∧ r.data.length = m ∧ r.pc.remaining m = n ∧
    SoloRead len m s t r.bytesRead r.pc

/-- `t` is reached from `s` by a new reader with the buffer `data` that runs alone and whose
`TryReadLocked` returned `n` bytes and `kSuccess`. -/
def ReadAlone (len : Nat) (s : State) (data : List UInt8) (t : State) (n : Nat) : Prop :=
  ∃ bytesRead data', ∃ ks : List Nat, exec (step len) s
      (.tryRead data bytesRead :: ks.map (.reader s.readers.length)) = some t ∧
    t.readers[s.readers.length]? = some ⟨.returned .kSuccess, data', n⟩

section

variable (hle : usableLen len ≤ 2 ^ 32) (hr : s.readPos < usableLen len)
  (hw : s.writePos < usableLen len)

include hle hr hw

theorem WithRead.step {m k : Nat} {u : State} (h : WithRead len m s n t)
    (hstep : SharedBuffer.step len t (.reader s.readers.length k) = some u) :
    ∃ n' < n, WithRead len m s n' u := by
  obtain ⟨⟨pc, data, bytesRead⟩, hcalls, hm, rfl, hsolo⟩ := h
  have hcall : t.readers[s.readers.length]? = some ⟨pc, data, bytesRead⟩ := by simp [hcalls]
  simp only [SharedBuffer.step, hcall] at hstep
  obtain ⟨⟨v, r⟩, hv, rfl⟩ := Option.map_eq_some_iff.mp hstep
  obtain ⟨hm', hkept, hsolo', hless⟩ := hsolo.step hle hr hw hm hv
  refine ⟨_, hless, r, ?_, hm', rfl, ?_⟩
  · simp [hkept, hcalls]
  · obtain ⟨pc', data', bytesRead'⟩ := r
    cases pc' <;> exact hsolo'

theorem ReadAlone.taken (h : ReadAlone len s data t n) :
    n = bytesTaken len data.length s ∧ t.readPos = newReadPos len s.readPos n := by
  obtain ⟨bytesRead, data', ks, hrun, hcall⟩ := h
  obtain ⟨u, hu, hrun⟩ := exec_cons_eq_some.mp hrun
  cases hu
  have hstart : ∃ k, WithRead len data.length s k
      { s with readers := s.readers ++ [⟨.lock, data, bytesRead⟩] } :=
    ⟨_, ⟨.lock, data, bytesRead⟩, rfl, rfl, rfl, rfl, rfl, rfl⟩
  obtain ⟨k, r, hcalls, -, -, hsolo⟩ := exec_map_invariant
      (I := fun t => ∃ k, WithRead len data.length s k t) (fun t k u h hu => by
    obtain ⟨k, h⟩ := h
    obtain ⟨k', -, hwith⟩ := h.step hle hr hw hu
    exact ⟨k', hwith⟩) hstart hrun
  obtain rfl : r = ⟨.returned .kSuccess, data', n⟩ := by simpa [hcalls] using hcall
  exact hsolo.2

/-- A reader that finds the flag clear and the positions valid succeeds. -/
theorem readAlone_returns (hflag : s.readFlag = false) (data : List UInt8) :
    ∃ t, ReadAlone len s data t (bytesTaken len data.length s) := by
  have hstart : WithRead len data.length s (data.length + 5)
      { s with readers := s.readers ++ [⟨.lock, data, 0⟩] } :=
    ⟨⟨.lock, data, 0⟩, rfl, rfl, rfl, rfl, rfl, rfl⟩
  have hcountdown : ∀ n t, WithRead len data.length s n t →
      (∃ data', t.readers[s.readers.length]? =
        some ⟨.returned .kSuccess, data', bytesTaken len data.length s⟩) ∨
        ∃ m u, m < n ∧ SharedBuffer.step len t (.reader s.readers.length 0) = some u ∧
          WithRead len data.length s m u := by
    intro n t h
    obtain ⟨⟨pc, data', bytesRead⟩, hcalls, -, -, hsolo⟩ := id h
    have hcall : t.readers[s.readers.length]? = some ⟨pc, data', bytesRead⟩ := by simp [hcalls]
    have hunlocked : pc ≠ .locked := by
      rintro rfl
      exact Bool.false_ne_true (hflag.symm.trans hsolo)
    by_cases hpc : ∃ error, pc = .returned error
    · obtain ⟨error, rfl⟩ := hpc
      obtain ⟨rfl, rfl, -⟩ := hsolo
      exact .inl ⟨data', hcall⟩
    · obtain ⟨y, hy⟩ := exists_readerStep len t (x := ⟨pc, data', bytesRead⟩) hunlocked
        fun error heq => hpc ⟨error, heq⟩
      have hstep : SharedBuffer.step len t (.reader s.readers.length 0) =
          some { y.1 with readers := y.1.readers.set s.readers.length y.2 } := by
        simp only [SharedBuffer.step, hcall, hy, Option.map_some]
      obtain ⟨m, hless, hwith⟩ := h.step hle hr hw hstep
      exact .inr ⟨m, _, hless, hstep, hwith⟩
  obtain ⟨k, t, hrun, data', hcall⟩ := exists_exec_replicate hcountdown hstart
  refine ⟨t, 0, data', List.replicate k 0, ?_, hcall⟩
  rw [List.map_replicate]
  exact exec_cons_eq_some.mpr ⟨_, rfl, hrun⟩

end

/-! ## Exactness -/

/-- At these positions the calls compute the bytes in use, the free space and the new positions as
integers, a reader with a buffer of `m` bytes and a `TryWrite` of any data. -/
structure ExactPositions (len readPos writePos m : Nat) : Prop where
  bytesInUse : (numBytesInUse len readPos writePos : Int) =
    ((writePos : Int) - readPos) % usableLen len
  spaceAvailable : (spaceAvailable len readPos writePos : Int) =
    usableLen len - ((writePos : Int) - readPos) % usableLen len
  tryReadLocked : ∀ s t data n, s.readPos = readPos → s.writePos = writePos → data.length = m →
    ReadAlone len s data t n → t.readPos = (readPos + n) % usableLen len
  tryWrite : ∀ s t data, s.readPos = readPos → s.writePos = writePos →
    WriteAlone len s data t .kSuccess → t.writePos = (writePos + data.length) % usableLen len

/-- Up to a usable length of 4 GiB the arithmetic is exact unless an empty ring has just that
length, or a read goes over the end of a shorter ring and over 4 GiB. -/
theorem exactPositions_iff (hle : usableLen len ≤ 2 ^ 32) (hr : readPos < usableLen len)
    (hw : writePos < usableLen len) (m : Nat) :
    ExactPositions len readPos writePos m ↔
      (usableLen len ≠ 2 ^ 32 ∨ readPos ≠ writePos) ∧
      (usableLen len = 2 ^ 32 ∨ readPos + min (bytesInUse len readPos writePos) m < 2 ^ 32) := by
  have hlt : bytesInUse len readPos writePos < usableLen len := bytesInUse_lt (by omega)
  have htaken : min (bytesInUse len readPos writePos) m ≤ usableLen len := by omega
  have hspace : (spaceAvailable len readPos writePos : Int) =
        usableLen len - ((writePos : Int) - readPos) % usableLen len ↔
      spaceAvailable len readPos writePos =
        usableLen len - bytesInUse len readPos writePos := by
    rw [← bytesInUse_eq_emod hr]
    omega
  rw [← spaceAvailable_eq_sub_iff hle hr hw, ← newReadPos_eq_mod_iff hle hr htaken, ← hspace]
  constructor
  · intro h
    -- an idle reader at these positions
    have hidle : ∃ t, ReadAlone len { region := fun _ => 0, readPos, writePos }
        (List.replicate m 0) t (bytesTaken len (List.replicate m (0 : UInt8)).length
          { region := fun _ => 0, readPos, writePos }) :=
      readAlone_returns hle hr hw rfl _
    obtain ⟨t, ht⟩ := hidle
    rw [List.length_replicate] at ht
    refine ⟨h.spaceAvailable, ?_⟩
    have hexact := h.tryReadLocked _ t _ _ rfl rfl List.length_replicate ht
    rw [(ht.taken hle hr hw).2] at hexact
    exact hexact
  · rintro ⟨hfree, hread⟩
    refine ⟨?_, hfree, ?_, ?_⟩
    · rw [numBytesInUse_eq hle hr hw, bytesInUse_eq_emod hr]
    · rintro s t data n rfl rfl rfl h
      obtain ⟨rfl, hnew⟩ := h.taken hle hr hw
      exact hnew.trans hread
    · rintro s t data rfl rfl h
      obtain ⟨-, -, -, hwrite, -⟩ := h.soloWrite hle
      exact hwrite

/-- A read around the end of a ring of four bytes. -/
theorem exactPositions_iff_28 : usableLen 28 = 4 ∧ ExactPositions 28 3 1 2 :=
  ⟨by decide, (@exactPositions_iff 28 3 1 (by decide) (by decide) (by decide) 2).mpr (by decide)⟩

/-- Two bytes around the end of a ring of one byte less than 4 GiB. -/
def largeRing : State := { region := fun _ => 0, readPos := 2 ^ 32 - 2, writePos := 1 }

/-- `TryReadLocked` returns the two bytes and leaves position 0 instead of 1. On an empty ring of
4 GiB there is no free space. -/
theorem not_exactPositions_largeRing :
    (usableLen (2 ^ 32 + 23) = 2 ^ 32 - 1 ∧ ¬ExactPositions (2 ^ 32 + 23) (2 ^ 32 - 2) 1 2) ∧
    (usableLen (2 ^ 32 + 24) = 2 ^ 32 ∧ ∀ m, ¬ExactPositions (2 ^ 32 + 24) 0 0 m) := by
  have husable : usableLen (2 ^ 32 + 23) = 2 ^ 32 - 1 := by decide
  have hwhole : usableLen (2 ^ 32 + 24) = 2 ^ 32 := by decide
  refine ⟨⟨husable, fun h => ?_⟩, hwhole, fun m h => ?_⟩
  · have hends : ∃ t, exec (step (2 ^ 32 + 23)) largeRing
          (.tryRead [0, 0] 0 :: (List.replicate 7 0).map (.reader 0)) = some t ∧
        t.readers[0]? = some ⟨.returned .kSuccess, [0, 0], 2⟩ ∧ t.readPos = 0 :=
      exists_exec_of_decide (by decide +kernel)
    obtain ⟨t, hrun, hcall, hpos⟩ := hends
    have hexact := h.tryReadLocked largeRing t [0, 0] 2 rfl rfl rfl ⟨0, [0, 0], _, hrun, hcall⟩
    rw [hpos, husable] at hexact
    exact absurd hexact (by decide)
  · have hfree : spaceAvailable (2 ^ 32 + 24) 0 0 = 0 := by decide
    have hexact := h.spaceAvailable
    rw [hfree, hwhole] at hexact
    exact absurd hexact (by decide)

end Sparo.Demo.SharedBuffer
