import Sparo.Demo.Proofs.SharedBufferPositions

/-!
# The shared buffer and its mapping

The peer shares the control structure and may store any 32-bit values as positions. A call checks
the values it loaded and computes its copies from nothing else, so where the copies go depends on
the size of the mapping, the two loaded values and the length of the data only.
-/

namespace Sparo.Demo.SharedBuffer

variable {len readPos writePos n : Nat} {m : Move}

/-- The offset lies in the mapping and behind the control structure. -/
def InRegion (len offset : Nat) : Prop := kReservedSpace ≤ offset ∧ offset < len

/-- Whatever 32-bit positions a call loads, no copy it makes leaves the region or the data of its
caller. The length is a `size_t` in `TryWrite` and a `uint32_t` in `TryReadLocked`. -/
structure CopiesInBounds (len : Nat) : Prop where
  tryWrite : ∀ curReadPos < 2 ^ 32, ∀ curWritePos < 2 ^ 32, ∀ data : List UInt8,
    data.length < 2 ^ 64 → (tryWrite len data).pc = .lock →
      ∀ moves, checkSpace len curReadPos curWritePos data.length = .copy curWritePos moves →
        ∀ m ∈ moves, InRegion len m.1 ∧ m.2 < data.length
  tryReadLocked : ∀ curReadPos < 2 ^ 32, ∀ curWritePos < 2 ^ 32, ∀ r : Reader,
    r.data.length < 2 ^ 32 → ∀ n moves,
      (checkAvailable len curReadPos curWritePos r).pc = .copy curReadPos n moves →
        ∀ m ∈ moves, InRegion len m.2 ∧ m.1 < r.data.length

theorem validateReadWritePositions_eq_true :
    validateReadWritePositions len readPos writePos = true ↔
      readPos < usableLen len ∧ writePos < usableLen len := by
  unfold validateReadWritePositions
  by_cases hw : writePos ≥ usableLen len
  · simp [hw]
  · by_cases hr : readPos ≥ usableLen len
    · simp [hw, hr]
    · simp only [hw, hr, if_false, true_iff]
      omega

theorem usableLen_of_le (hlen : kReservedSpace ≤ len) (hsize : len < 2 ^ 64) :
    usableLen len = len - kReservedSpace := subSize_of_le hlen hsize

/-- A cell of the usable region is in the mapping. -/
theorem inRegion_of_lt (hlen : kReservedSpace ≤ len) (hsize : len < 2 ^ 64) {cell : Nat}
    (hcell : cell < usableLen len) : InRegion len (usableRegionPtr + cell) := by
  rw [usableLen_of_le hlen hsize] at hcell
  unfold InRegion usableRegionPtr
  omega

theorem tryWrite_eq_lock {data : List UInt8} :
    (tryWrite len data).pc = .lock ↔ data.length ≤ usableLen len := by
  unfold tryWrite
  split
  · next hlong => exact iff_of_false nofun (by omega)
  · next hfits => exact iff_of_true rfl (by omega)

/-- What a `TryWrite` has checked when it copies. -/
theorem checkSpace_eq_copy {moves : List Move}
    (h : checkSpace len readPos writePos n = .copy writePos moves) :
    writePos < usableLen len ∧ moves = writeMoves len writePos n := by
  unfold checkSpace at h
  split at h
  · cases h
  · next hvalid =>
    split at h
    · cases h
    · cases h
      exact ⟨(validateReadWritePositions_eq_true.mp (by simpa using hvalid)).2, rfl⟩

/-- What a `TryReadLocked` has checked when it copies. -/
theorem checkAvailable_eq_copy {r : Reader} {moves : List Move}
    (h : (checkAvailable len readPos writePos r).pc = .copy readPos n moves) :
    readPos < usableLen len ∧ writePos < usableLen len ∧ 0 < n ∧ n ≤ r.data.length ∧
      n ≤ numBytesInUse len readPos writePos ∧ moves = readMoves len readPos writePos n := by
  unfold checkAvailable at h
  split at h
  · cases h
  · next hvalid =>
    obtain ⟨hr, hw⟩ := validateReadWritePositions_eq_true.mp (by simpa using hvalid)
    dsimp only at h
    split at h
    · cases h
    · next hsome =>
      cases h
      exact ⟨hr, hw, Nat.pos_of_ne_zero hsome, Nat.min_le_right _ _, Nat.min_le_left _ _, rfl⟩

/-- `bytes_from_read_to_end` and the rest that is read from the start of the region. Above 4 GiB
both conversions to `uint32_t` may lose bits, but then the rest is shorter than the region
anyway. -/
theorem rest_le_usableLen (hr : readPos < usableLen len) (hw : writePos < usableLen len)
    (hn : n ≤ numBytesInUse len readPos writePos) (hlt : writePos ≤ readPos) (hpos : 0 < n)
    (hsmall : n < 2 ^ 32) :
    n - min (toUint32 (subSize (usableLen len) readPos)) n ≤ usableLen len := by
  by_cases hlarge : 2 ^ 32 ≤ usableLen len
  · omega
  · rw [numBytesInUse_of_lt (by omega) hr hw] at hn
    by_cases heq : readPos ≤ writePos
    · rw [if_pos heq] at hn
      omega
    · rw [if_neg heq] at hn
      rw [subSize_of_le hr.le (usableLen_lt len), toUint32, Nat.mod_eq_of_lt (by omega)]
      omega

/-- The copies of a read, at every size of the region. -/
theorem readMoves_bounds (hr : readPos < usableLen len) (hw : writePos < usableLen len)
    (hn : n ≤ numBytesInUse len readPos writePos) (hpos : 0 < n) (hsmall : n < 2 ^ 32)
    (hm : m ∈ readMoves len readPos writePos n) :
    m.1 < n ∧ ∃ cell < usableLen len, m.2 = usableRegionPtr + cell := by
  unfold readMoves at hm
  by_cases hlt : readPos < writePos
  · rw [if_pos hlt, mem_memcpy] at hm
    obtain ⟨i, hi, rfl⟩ := hm
    have huse : numBytesInUse len readPos writePos = writePos - readPos := by
      rw [numBytesInUse, if_pos hlt.le]
    exact ⟨by omega, readPos + i, by omega, by omega⟩
  · rw [if_neg hlt] at hm
    dsimp only at hm
    have hend : toUint32 (subSize (usableLen len) readPos) ≤ usableLen len - readPos := by
      rw [subSize_of_le hr.le (usableLen_lt len)]
      apply Nat.mod_le
    have hrest := rest_le_usableLen hr hw hn (by omega) hpos hsmall
    rcases List.mem_append.mp hm with hm | hm
    · rw [mem_memcpy] at hm
      obtain ⟨i, hi, rfl⟩ := hm
      exact ⟨by omega, readPos + i, by omega, by omega⟩
    · by_cases hmore : min (toUint32 (subSize (usableLen len) readPos)) n < n
      · rw [if_pos hmore, mem_memcpy] at hm
        obtain ⟨i, hi, rfl⟩ := hm
        exact ⟨by dsimp only; omega, i, by omega, rfl⟩
      · simp [hmore] at hm

/-- A mapping that holds the control structure is never left. -/
theorem copiesInBounds_of_le (hlen : kReservedSpace ≤ len) (hsize : len < 2 ^ 64) :
    CopiesInBounds len where
  tryWrite curReadPos _ curWritePos _ data _ hlock moves hcopy m hm := by
    obtain ⟨hw, rfl⟩ := checkSpace_eq_copy hcopy
    obtain ⟨i, hi, rfl⟩ := (mem_writeMoves hw (tryWrite_eq_lock.mp hlock)).mp hm
    refine ⟨?_, hi⟩
    apply inRegion_of_lt hlen hsize
    exact Nat.mod_lt _ (by omega)
  tryReadLocked curReadPos _ curWritePos _ r hdata n moves hcopy m hm := by
    obtain ⟨hr, hw, hpos, hndata, hn, rfl⟩ := checkAvailable_eq_copy hcopy
    obtain ⟨hdst, cell, hcell, hsrc⟩ := readMoves_bounds hr hw hn hpos (by omega) hm
    rw [hsrc]
    exact ⟨inRegion_of_lt hlen hsize hcell, by omega⟩

/-- On a smaller mapping `usable_len()` wraps around to nearly 2 ^ 64. -/
theorem usableLen_of_lt (hlen : len < kReservedSpace) :
    usableLen len = 2 ^ 64 - (kReservedSpace - len) := by
  have hres : kReservedSpace = 24 := by decide
  unfold usableLen subSize
  omega

/-- On a smaller mapping, and with positions as `Initialize` leaves them, the first byte of a
write goes behind the mapping. -/
theorem checkSpace_of_lt (hlen : len < kReservedSpace) :
    checkSpace len 0 0 1 = .copy 0 [(kReservedSpace, 0)] := by
  have hres : kReservedSpace = 24 := by decide
  have husable := usableLen_of_lt hlen
  have hspace : spaceAvailable len 0 0 = 2 ^ 32 - (kReservedSpace - len) := by
    rw [spaceAvailable, show numBytesInUse len 0 0 = 0 from rfl,
      subSize_of_le (Nat.zero_le _) (usableLen_lt len), husable, toUint32]
    omega
  have hmoves : writeMoves len 0 1 = [(kReservedSpace, 0)] := by
    unfold writeMoves
    rw [subSize_of_le (Nat.zero_le _) (usableLen_lt len), if_pos (by omega)]
    rfl
  unfold checkSpace
  rw [validateReadWritePositions_of_lt (by omega) (by omega), if_neg (by decide),
    if_neg (by omega), hmoves]

theorem le_of_copiesInBounds (hbounds : CopiesInBounds len) : kReservedSpace ≤ len := by
  by_contra hsmall
  have hres : kReservedSpace = 24 := by decide
  have husable := usableLen_of_lt (by omega : len < kReservedSpace)
  have hlock : (SharedBuffer.tryWrite len [0]).pc = .lock :=
    tryWrite_eq_lock.mpr (by rw [List.length_singleton]; omega)
  have hin := hbounds.tryWrite 0 (by decide) 0 (by decide) [0] (by decide) hlock _
    (checkSpace_of_lt (by omega)) _ (List.mem_singleton_self _)
  have hbehind : kReservedSpace < len := hin.1.2
  omega

theorem create_eq_some {memfd : Int} {size : Nat} {mapped : Bool}
    (h : create memfd size mapped = some len) : len = size := by
  unfold create at h
  split at h
  · cases h
  · split at h
    · cases h
    · exact (Option.some.inj h).symm

/-- `Create` does not compare `size` with the space it reserves. The copies stay in the mapping and
in the data for exactly those sizes that hold the control structure. -/
theorem copiesInBounds_iff {memfd : Int} {size : Nat} {mapped : Bool} (hsize : size < 2 ^ 64)
    (hcreate : create memfd size mapped = some len) :
    CopiesInBounds len ↔ kReservedSpace ≤ size := by
  obtain rfl := create_eq_some hcreate
  constructor
  · exact le_of_copiesInBounds
  · intro hlen
    exact copiesInBounds_of_le hlen hsize

/-- The buffers of `ipc_demo.cc` have 4096 bytes each. -/
theorem copiesInBounds_iff_4096 :
    create 3 4096 true = some 4096 ∧ CopiesInBounds 4096 :=
  ⟨by decide, (@copiesInBounds_iff 4096 3 4096 true (by decide) rfl).mpr (by decide)⟩

/-- A mapping of 16 bytes is created and then left by a write of one byte. -/
theorem not_copiesInBounds_16 : create 3 16 true = some 16 ∧ ¬CopiesInBounds 16 :=
  ⟨by decide, fun hbounds => absurd (le_of_copiesInBounds hbounds) (by decide)⟩

end Sparo.Demo.SharedBuffer
