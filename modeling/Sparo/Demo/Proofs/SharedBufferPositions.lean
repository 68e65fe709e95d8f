import Sparo.Demo.SharedBuffer
import Sparo.Misc.CircularIndex

/-!
# Positions of the shared buffer

The positions are remainders of the numbers of bytes written and read so far. While the two
numbers are less than a revolution apart, the arithmetic of `shared_buffer.cc` on the positions
computes their difference, and its copies are those of consecutive bytes around the ring.
-/

namespace Sparo.Demo.SharedBuffer

open CircularIndex

variable {len readPos writePos n a b : Nat} {m : Move}

theorem subSize_of_le (hba : b ≤ a) (ha : a < 2 ^ 64) : subSize a b = a - b := by
  rw [subSize, show a + 2 ^ 64 - b = a - b + 2 ^ 64 by omega, Nat.add_mod_right,
    Nat.mod_eq_of_lt (by omega)]

theorem usableLen_lt (len : Nat) : usableLen len < 2 ^ 64 := Nat.mod_lt _ (by decide)

/-- Positions below the usable length pass the check. -/
theorem validateReadWritePositions_of_lt (hr : readPos < usableLen len)
    (hw : writePos < usableLen len) : validateReadWritePositions len readPos writePos = true := by
  rw [validateReadWritePositions, if_neg (by omega), if_neg (by omega)]

/-- On valid positions nothing wraps in `NumBytesInUse`. -/
theorem numBytesInUse_of_lt (hlen : usableLen len ≤ 2 ^ 32) (hr : readPos < usableLen len)
    (hw : writePos < usableLen len) : numBytesInUse len readPos writePos =
      if readPos ≤ writePos then writePos - readPos
      else writePos + (usableLen len - readPos) := by
  unfold numBytesInUse toUint32
  split
  · rfl
  · rw [subSize_of_le (by omega) (usableLen_lt len), Nat.mod_eq_of_lt (by omega),
      Nat.mod_eq_of_lt (by omega)]

/-- The bytes in use are those written and not yet read. -/
theorem numBytesInUse_mod (hlen : usableLen len ≤ 2 ^ 32) (hab : a ≤ b)
    (hba : b < a + usableLen len) :
    numBytesInUse len (a % usableLen len) (b % usableLen len) = b - a := by
  have hpos : 0 < usableLen len := by omega
  rw [numBytesInUse_of_lt hlen (Nat.mod_lt _ hpos) (Nat.mod_lt _ hpos)]
  rcases mod_cases hab hba with ⟨hle, heq⟩ | ⟨hlt, heq⟩
  · rw [if_pos hle, heq]
  · rw [if_neg (by omega), heq]

theorem spaceAvailable_mod (hlen : usableLen len < 2 ^ 32) (hab : a ≤ b)
    (hba : b < a + usableLen len) :
    spaceAvailable len (a % usableLen len) (b % usableLen len) = usableLen len - (b - a) := by
  rw [spaceAvailable, numBytesInUse_mod (by omega) hab hba,
    subSize_of_le (by omega) (usableLen_lt len), toUint32, Nat.mod_eq_of_lt (by omega)]

theorem mem_memcpy {dst src : Nat} : m ∈ memcpy dst src n ↔ ∃ i < n, m = (dst + i, src + i) := by
  simp [memcpy, eq_comm]

/-- `TryWrite` copies byte `i` of its data to the `i`-th cell from the write position on,
whether or not it wraps around. -/
theorem mem_writeMoves (hw : writePos < usableLen len) (hn : n ≤ usableLen len) :
    m ∈ writeMoves len writePos n ↔
      ∃ i < n, m = (usableRegionPtr + (writePos + i) % usableLen len, i) := by
  have hlen := usableLen_lt len
  unfold writeMoves
  rw [subSize_of_le hw.le hlen]
  split
  · next hfits =>
    rw [mem_memcpy]
    refine exists_congr fun i => and_congr_right fun hi => ?_
    rw [Nat.mod_eq_of_lt (by omega), Nat.zero_add, Nat.add_assoc]
  · next hwraps =>
    dsimp only
    rw [List.mem_append, mem_memcpy, mem_memcpy, subSize_of_le (by omega) (by omega),
      exists_mod_iff (P := fun cell i => m = (usableRegionPtr + cell, i)) hw hn
        (e := usableLen len - writePos) (by omega)]
    simp only [Nat.zero_add, Nat.add_assoc]

/-- `TryReadLocked` copies the `i`-th cell from the read position on to byte `i` of its data,
whether or not it wraps around. -/
theorem mem_readMoves (hlen : usableLen len ≤ 2 ^ 32) (hr : readPos < usableLen len)
    (hw : writePos < usableLen len) (hn : n ≤ numBytesInUse len readPos writePos) :
    m ∈ readMoves len readPos writePos n ↔
      ∃ i < n, m = (i, usableRegionPtr + (readPos + i) % usableLen len) := by
  rw [numBytesInUse_of_lt hlen hr hw] at hn
  unfold readMoves
  split
  · next hlt =>
    rw [if_pos hlt.le] at hn
    rw [mem_memcpy]
    refine exists_congr fun i => and_congr_right fun hi => ?_
    rw [Nat.mod_eq_of_lt (by omega), Nat.zero_add, Nat.add_assoc]
  · next hge =>
    -- with nothing in use both positions may be 0, and then `bytes_from_read_to_end` may wrap
    have hend : min (toUint32 (subSize (usableLen len) readPos)) n =
        min (usableLen len - readPos) n := by
      rw [subSize_of_le hr.le (usableLen_lt len), toUint32]
      by_cases hzero : readPos = 0
      · rw [if_pos (by omega)] at hn
        omega
      · rw [Nat.mod_eq_of_lt (by omega)]
    dsimp only
    rw [hend, exists_mod_iff (P := fun cell i => m = (i, usableRegionPtr + cell)) hr
      (e := min (usableLen len - readPos) n) (by split at hn <;> omega) rfl, List.mem_append,
      mem_memcpy]
    simp only [Nat.zero_add, Nat.add_assoc]
    split
    · rw [mem_memcpy]
    · next hall => simp [show n - min (usableLen len - readPos) n = 0 by omega]

end Sparo.Demo.SharedBuffer
