import Sparo.Demo.Proofs.SharedBufferPositions
import Sparo.Demo.Proofs.SharedBufferSteps
import Sparo.Misc.ThreadSum

/-!
# The shared buffer is a byte FIFO

Let `W` bytes have been written and `R` bytes been read. The positions are `W` and `R` modulo the
usable length, `W - R` is less than it, and the bytes numbered `R` to `W` are in their cells. A
writer may have loaded an old read position; the space it computes from it is not more than
there is, because `R` only grows. It fills cells from `W` on, which are in nobody's use until it
exchanges the write position. A reader may have loaded an old write position; the bytes it copies
have been written, and their cells stay as they are until it exchanges the read position.
-/

namespace Sparo.Demo.SharedBuffer

open StepSystem ThreadSum CircularIndex

variable {len i : Nat} {s t : State} {a : Act}

/-- The cell of the byte numbered `k`. -/
def cell (len k : Nat) : Nat := usableRegionPtr + k % usableLen len

theorem cell_ne {k j : Nat} (hkj : k < j) (hjk : j < k + usableLen len) :
    cell len j ≠ cell len k := by
  intro h
  exact mod_ne_mod hkj hjk (Nat.add_left_cancel h).symm

/-- The positions and the bytes between them are those of a FIFO. -/
structure RingOk (len : Nat) (s : State) : Prop where
  readPos : s.readPos = s.readOut.length % usableLen len
  writePos : s.writePos = s.written.length % usableLen len
  taken : s.readOut <+: s.written
  room : s.written.length < s.readOut.length + usableLen len
  held : ∀ k, s.readOut.length ≤ k → k < s.written.length →
    s.written[k]? = some (s.region (cell len k))

/-- A writer of `data` that has found enough space, with `r` bytes read and `w` written so far.
Each of its bytes is in its cell or still to be copied there. -/
structure Filling (len r w : Nat) (region : Nat → UInt8) (data : List UInt8) (curWritePos : Nat)
    (moves : List Move) : Prop where
  pos : curWritePos = w % usableLen len
  room : w + data.length < r + usableLen len
  left : ∀ m ∈ moves, ∃ i < data.length, m = (cell len (w + i), i)
  done : ∀ i < data.length,
    (cell len (w + i), i) ∈ moves ∨ region (cell len (w + i)) = data.getD i 0

/-- What a `TryWrite` call knows. -/
def WriterOk (len r w : Nat) (region : Nat → UInt8) (x : Writer) : Prop :=
  match x.pc with
  | .lock | .loadRead => x.data.length ≤ usableLen len
  | .loadWrite curReadPos =>
    x.data.length ≤ usableLen len ∧ ∃ r₀ ≤ r, curReadPos = r₀ % usableLen len ∧
      w < r₀ + usableLen len
  | .copy curWritePos moves => Filling len r w region x.data curWritePos moves
  | .unlock error | .returned error => error ≠ .kControlCorruption

/-- A reader of `n` bytes, with `r` bytes read so far. Each of the bytes is in its buffer or still
to be copied there. -/
structure Draining (len r : Nat) (written data : List UInt8) (curReadPos n : Nat)
    (moves : List Move) : Prop where
  pos : curReadPos = r % usableLen len
  available : r + n ≤ written.length
  fits : n ≤ data.length
  left : ∀ m ∈ moves, ∃ i < n, m = (i, cell len (r + i))
  done : ∀ i < n, (i, cell len (r + i)) ∈ moves ∨ data[i]? = written[r + i]?

/-- What a reader knows. -/
def ReaderOk (len r : Nat) (written : List UInt8) (x : Reader) : Prop :=
  match x.pc with
  | .lock | .locked | .loadRead => True
  | .loadWrite curReadPos => curReadPos = r % usableLen len
  | .copy curReadPos n moves => Draining len r written x.data curReadPos n moves
  | .unlock error | .returned error => error ≠ .kControlCorruption

/-- The call holds the write flag. -/
def WriterPc.holdsFlag : WriterPc → Bool
  | .loadRead | .loadWrite _ | .copy _ _ | .unlock _ => true
  | _ => false

/-- The reader holds the read flag. -/
def ReaderPc.holdsFlag : ReaderPc → Bool
  | .loadRead | .loadWrite _ | .copy _ _ _ | .unlock _ => true
  | _ => false

/-- The number of writers that hold the write flag, for one call. -/
def Writer.holders (x : Writer) : Nat := x.pc.holdsFlag.toNat

/-- The number of readers that hold the read flag, for one reader. -/
def Reader.holders (x : Reader) : Nat := x.pc.holdsFlag.toNat

/-- The invariant of the buffer. -/
structure BufferOk (len : Nat) (s : State) : Prop where
  ring : RingOk len s
  writeFlag : total Writer.holders s.writers = s.writeFlag.toNat
  readFlag : total Reader.holders s.readers = s.readFlag.toNat
  writers : ∀ x ∈ s.writers, WriterOk len s.readOut.length s.written.length s.region x
  readers : ∀ x ∈ s.readers, ReaderOk len s.readOut.length s.written x

/-! ## What a caller knows stays true -/

/-- More bytes read leave a writer more space. -/
theorem WriterOk.mono {r r' w : Nat} {region : Nat → UInt8} {x : Writer} (hr : r ≤ r')
    (h : WriterOk len r w region x) : WriterOk len r' w region x := by
  obtain ⟨pc, data⟩ := x
  cases pc with
  | loadWrite curReadPos =>
    obtain ⟨hlen, r₀, hr₀, hpos, hroom⟩ := h
    exact ⟨hlen, r₀, hr₀.trans hr, hpos, hroom⟩
  | copy curWritePos moves => exact ⟨h.pos, Nat.lt_of_lt_of_le h.room (by omega), h.left, h.done⟩
  | _ => exact h

/-- A call without the flag knows nothing that a writer changes. -/
theorem WriterOk.of_not_holding {r r' w w' : Nat} {region region' : Nat → UInt8} {x : Writer}
    (hx : x.holders = 0) (h : WriterOk len r w region x) : WriterOk len r' w' region' x := by
  obtain ⟨pc, data⟩ := x
  cases pc with
  | lock | returned _ => exact h
  | _ => cases hx

/-- A reader's bytes stay where they are when more is written. -/
theorem ReaderOk.append {r : Nat} {written data : List UInt8} {x : Reader}
    (h : ReaderOk len r written x) : ReaderOk len r (written ++ data) x := by
  obtain ⟨pc, buf, bytesRead⟩ := x
  cases pc with
  | copy curReadPos n moves =>
    have havailable : r + n ≤ written.length := h.available
    refine ⟨h.pos, ?_, h.fits, h.left, fun i hi => ?_⟩
    · rw [List.length_append]
      omega
    · rw [List.getElem?_append_left (by omega)]
      exact h.done i hi
  | _ => exact h

/-- A reader without the flag knows nothing that a reader changes. -/
theorem ReaderOk.of_not_holding {r r' : Nat} {written : List UInt8} {x : Reader}
    (hx : x.holders = 0) (h : ReaderOk len r written x) : ReaderOk len r' written x := by
  obtain ⟨pc, data, bytesRead⟩ := x
  cases pc with
  | lock | locked | returned _ => exact h
  | _ => cases hx

/-! ## The steps of a writer -/

/-- A step of a writer that changes nothing but the flag. -/
theorem BufferOk.writer_local {x x' : Writer} (h : BufferOk len s)
    (hi : s.writers[i]? = some x) (flag : Bool)
    (hflag : s.writeFlag.toNat + x'.holders = flag.toNat + x.holders)
    (hx' : WriterOk len s.readOut.length s.written.length s.region x') :
    BufferOk len { s with writeFlag := flag, writers := s.writers.set i x' } := by
  obtain ⟨⟨hread, hwrite, htaken, hroom, hheld⟩, hwriteFlag, hreadFlag, hwriters, hreaders⟩ := h
  refine ⟨⟨hread, hwrite, htaken, hroom, hheld⟩, ?_, hreadFlag, ?_, hreaders⟩
  · have hset := total_set hi Writer.holders x'
    dsimp only
    omega
  · intro y hy
    rcases List.mem_or_eq_of_mem_set hy with hold | rfl
    · exact hwriters y hold
    · exact hx'

/-- The holder of the write flag is the only one. -/
theorem BufferOk.writer_alone {x : Writer} (h : BufferOk len s) (hx : x.holders = 1) :
    total Writer.holders s.writers ≤ x.holders := by
  rw [h.writeFlag, hx]
  exact Bool.toNat_le _

/-- After the loads a writer gives up or has found enough space. -/
theorem checkSpace_ok {data : List UInt8} {curReadPos : Nat} (hpos : 1 ≤ usableLen len)
    (hle : usableLen len ≤ 2 ^ 31) (hring : RingOk len s)
    (hok : WriterOk len s.readOut.length s.written.length s.region
      ⟨.loadWrite curReadPos, data⟩) :
    ∃ pc, checkSpace len curReadPos s.writePos data.length = pc ∧ pc.holdsFlag = true ∧
      WriterOk len s.readOut.length s.written.length s.region ⟨pc, data⟩ := by
  obtain ⟨hlen, r₀, hr₀, rfl, hroom⟩ := hok
  have htaken := hring.taken.length_le
  rw [hring.writePos, checkSpace, validateReadWritePositions_of_lt (Nat.mod_lt _ hpos)
    (Nat.mod_lt _ hpos), spaceAvailable_mod (by omega) (by omega) hroom]
  simp only [Bool.not_true, Bool.false_eq_true, if_false]
  split
  · exact ⟨_, rfl, rfl, by simp [WriterOk]⟩
  · next hspace =>
    have hmoves : ∀ m, m ∈ writeMoves len (s.written.length % usableLen len) data.length ↔
        ∃ i < data.length, m = (cell len (s.written.length + i), i) := by
      intro m
      rw [mem_writeMoves (Nat.mod_lt _ hpos) hlen]
      simp only [cell, Nat.mod_add_mod]
    refine ⟨_, rfl, rfl, rfl, by dsimp only; omega, fun m hm => (hmoves m).1 hm, fun i hi => ?_⟩
    exact Or.inl ((hmoves _).2 ⟨i, hi, rfl⟩)

/-- The other copies are left after one of them was made. -/
theorem mem_eraseIdx_of_ne {moves : List Move} {k : Nat} {m m' : Move} (hk : moves[k]? = some m')
    (hmem : m ∈ moves) (hne : m ≠ m') : m ∈ moves.eraseIdx k := by
  obtain ⟨j, hj⟩ := List.getElem?_of_mem hmem
  refine List.mem_eraseIdx_iff_getElem?.2 ⟨j, ?_, hj⟩
  rintro rfl
  exact hne (Option.some.inj (hj.symm.trans hk))

/-- The copy of one byte of a writer into its cell. -/
theorem Filling.move {r w curWritePos k src : Nat} {region : Nat → UInt8} {data : List UInt8}
    {moves : List Move} (h : Filling len r w region data curWritePos moves) (hrw : r ≤ w)
    (hmove : moves[k]? = some (cell len (w + src), src)) (hsrc : src < data.length) :
    Filling len r w (Function.update region (cell len (w + src)) (data.getD src 0)) data
      curWritePos (moves.eraseIdx k) := by
  have hroom := h.room
  refine ⟨h.pos, hroom, fun m hm => h.left m (List.mem_of_mem_eraseIdx hm), fun j hj => ?_⟩
  by_cases hjsrc : j = src
  · subst hjsrc
    exact Or.inr (Function.update_self ..)
  · have hcell : cell len (w + j) ≠ cell len (w + src) := by
      rcases Nat.lt_or_gt_of_ne hjsrc with hlt | hgt
      · exact (cell_ne (by omega) (by omega)).symm
      · exact cell_ne (by omega) (by omega)
    rw [Function.update_of_ne hcell]
    refine (h.done j hj).imp_left fun hmem => mem_eraseIdx_of_ne hmove hmem fun heq => ?_
    exact hjsrc (Prod.ext_iff.1 heq).2

/-- The copy of one byte into a free cell. -/
theorem bufferOk_writer_move {data : List UInt8} {curWritePos k dst src : Nat} {moves : List Move}
    (h : BufferOk len s) (hi : s.writers[i]? = some ⟨.copy curWritePos moves, data⟩)
    (hmove : moves[k]? = some (dst, src)) :
    BufferOk len { s with
      region := Function.update s.region dst (data.getD src 0)
      writers := s.writers.set i ⟨.copy curWritePos (moves.eraseIdx k), data⟩ } := by
  have hfill : Filling len s.readOut.length s.written.length s.region data curWritePos moves :=
    h.writers _ (List.mem_of_getElem? hi)
  have htaken := h.ring.taken.length_le
  have hroom := hfill.room
  obtain ⟨n, hn, heq⟩ := hfill.left _ (List.mem_of_getElem? hmove)
  cases heq
  refine ⟨⟨h.ring.readPos, h.ring.writePos, h.ring.taken, h.ring.room, ?_⟩, ?_, h.readFlag, ?_,
    h.readers⟩
  · -- the cell is not one of those that hold unread bytes
    intro k hk hkw
    dsimp only at hk hkw ⊢
    rw [Function.update_of_ne (cell_ne (by omega) (by omega)).symm]
    exact h.ring.held k hk hkw
  · rw [← h.writeFlag]
    exact total_set_of_eq hi rfl
  · exact forall_mem_set_of_alone hi (h.writer_alone rfl) (hfill.move htaken hmove hn)
      fun y hy hy0 => (h.writers y hy).of_not_holding hy0

/-- The exchange of the write position publishes the bytes. -/
theorem bufferOk_writer_exchange {data : List UInt8} {curWritePos : Nat}
    (hpos : 1 ≤ usableLen len) (hle : usableLen len ≤ 2 ^ 31) (h : BufferOk len s)
    (hi : s.writers[i]? = some ⟨.copy curWritePos [], data⟩) :
    let x : Writer := ⟨.copy curWritePos [], data⟩
    BufferOk len { (exchangeWritePos len s x curWritePos).1 with
      writers := (exchangeWritePos len s x curWritePos).1.writers.set i
        (exchangeWritePos len s x curWritePos).2 } := by
  intro x
  have hfill : Filling len s.readOut.length s.written.length s.region data curWritePos [] :=
    h.writers _ (List.mem_of_getElem? hi)
  have htaken := h.ring.taken.length_le
  have hroom := hfill.room
  have hcur : s.writePos = curWritePos := h.ring.writePos.trans hfill.pos.symm
  have hnew : toUint32 ((curWritePos + data.length) % 2 ^ 64 % usableLen len) =
      (s.written ++ data).length % usableLen len := by
    have hlt := Nat.mod_lt s.written.length hpos
    have hlt' := Nat.mod_lt (s.written.length % usableLen len + data.length) hpos
    rw [hfill.pos, toUint32, Nat.mod_eq_of_lt (a := _ + _) (by omega), Nat.mod_eq_of_lt (by omega),
      Nat.mod_add_mod, List.length_append]
  rw [exchangeWritePos, if_neg (by simp [hcur])]
  dsimp only [x]
  refine ⟨⟨h.ring.readPos, hnew, h.ring.taken.trans (List.prefix_append _ _), ?_, ?_⟩, ?_,
    h.readFlag, ?_, fun y hy => (h.readers y hy).append⟩
  · simp only [List.length_append]
    omega
  · intro k hk hkw
    simp only [List.length_append] at hkw
    dsimp only at hk ⊢
    by_cases hold : k < s.written.length
    · rw [List.getElem?_append_left hold]
      exact h.ring.held k hk hold
    · obtain ⟨j, rfl⟩ := Nat.exists_eq_add_of_le (Nat.le_of_not_lt hold)
      have hj : j < data.length := by omega
      rw [List.getElem?_append_right (by omega), Nat.add_sub_cancel_left]
      rcases hfill.done j hj with hmem | hdone
      · cases hmem
      · rw [hdone, List.getD_eq_getElem?_getD, List.getElem?_eq_getElem hj]
        rfl
  · rw [← h.writeFlag]
    exact total_set_of_eq hi rfl
  · refine forall_mem_set_of_alone hi (h.writer_alone rfl) ?_ fun y hy hy0 =>
      (h.writers y hy).of_not_holding hy0
    simp [WriterOk]

theorem bufferOk_writer {x x' : Writer} (hpos : 1 ≤ usableLen len)
    (hle : usableLen len ≤ 2 ^ 31) (h : BufferOk len s) (hi : s.writers[i]? = some x)
    (hto : WriterTo len s x t x') : BufferOk len { t with writers := t.writers.set i x' } := by
  have hmem := List.mem_of_getElem? hi
  have hx := h.writers x hmem
  cases hto with
  | busy data hflag => exact h.writer_local hi s.writeFlag rfl (by simp [WriterOk])
  | acquire data hflag =>
    exact h.writer_local hi true (by rw [hflag]; rfl) hx
  | loadRead data =>
    exact h.writer_local hi s.writeFlag rfl ⟨hx, _, le_rfl, h.ring.readPos, h.ring.room⟩
  | loadWrite data curReadPos =>
    obtain ⟨pc, hpc, hholds, hok⟩ := checkSpace_ok hpos hle h.ring hx
    rw [hpc]
    exact h.writer_local hi s.writeFlag (by simp only [Writer.holders, hholds]; rfl) hok
  | move data curWritePos k moves dst src hmove => exact bufferOk_writer_move h hi hmove
  | exchange data curWritePos => exact bufferOk_writer_exchange hpos hle h hi
  | unlock data error =>
    have hflag : 1 ≤ s.writeFlag.toNat := h.writeFlag ▸ le_total (f := Writer.holders) hmem
    have := Bool.toNat_le s.writeFlag
    refine h.writer_local hi false ?_ hx
    show s.writeFlag.toNat + 0 = 0 + 1
    omega

/-! ## The steps of a reader -/

/-- A step of a reader that changes nothing but the flag. -/
theorem BufferOk.reader_local {x x' : Reader} (h : BufferOk len s)
    (hi : s.readers[i]? = some x) (flag : Bool)
    (hflag : s.readFlag.toNat + x'.holders = flag.toNat + x.holders)
    (hx' : ReaderOk len s.readOut.length s.written x') :
    BufferOk len { s with readFlag := flag, readers := s.readers.set i x' } := by
  obtain ⟨⟨hread, hwrite, htaken, hroom, hheld⟩, hwriteFlag, hreadFlag, hwriters, hreaders⟩ := h
  refine ⟨⟨hread, hwrite, htaken, hroom, hheld⟩, hwriteFlag, ?_, hwriters, ?_⟩
  · have hset := total_set hi Reader.holders x'
    dsimp only
    omega
  · intro y hy
    rcases List.mem_or_eq_of_mem_set hy with hold | rfl
    · exact hreaders y hold
    · exact hx'

/-- The holder of the read flag is the only one. -/
theorem BufferOk.reader_alone {x : Reader} (h : BufferOk len s) (hx : x.holders = 1) :
    total Reader.holders s.readers ≤ x.holders := by
  rw [h.readFlag, hx]
  exact Bool.toNat_le _

/-- After the loads a reader has nothing to read or copies bytes that have been written. -/
theorem checkAvailable_ok {data : List UInt8} {bytesRead curReadPos : Nat}
    (hpos : 1 ≤ usableLen len) (hle : usableLen len ≤ 2 ^ 31) (hring : RingOk len s)
    (hok : curReadPos = s.readOut.length % usableLen len) :
    ∃ x, checkAvailable len curReadPos s.writePos ⟨.loadWrite curReadPos, data, bytesRead⟩ = x ∧
      x.pc.holdsFlag = true ∧ ReaderOk len s.readOut.length s.written x := by
  subst hok
  have hr := Nat.mod_lt s.readOut.length hpos
  have hw := Nat.mod_lt s.written.length hpos
  have htaken := hring.taken.length_le
  rw [hring.writePos, checkAvailable, validateReadWritePositions_of_lt hr hw,
    numBytesInUse_mod (by omega) htaken hring.room]
  simp only [Bool.not_true, Bool.false_eq_true, if_false]
  split
  · exact ⟨_, rfl, rfl, by simp [ReaderOk]⟩
  · have hmoves : ∀ m, m ∈ readMoves len (s.readOut.length % usableLen len)
        (s.written.length % usableLen len)
        (min (s.written.length - s.readOut.length) data.length) ↔
        ∃ i < min (s.written.length - s.readOut.length) data.length,
          m = (i, cell len (s.readOut.length + i)) := by
      intro m
      rw [mem_readMoves (by omega) hr hw
        (by rw [numBytesInUse_mod (by omega) htaken hring.room]; omega)]
      simp only [cell, Nat.mod_add_mod]
    refine ⟨_, rfl, rfl, rfl, by omega, by dsimp only; omega, fun m hm => (hmoves m).1 hm,
      fun i hi => ?_⟩
    exact Or.inl ((hmoves _).2 ⟨i, hi, rfl⟩)

/-- The copy of one byte out of the ring. -/
theorem Draining.move {curReadPos n k dst : Nat} {data : List UInt8} {moves : List Move}
    (hring : RingOk len s)
    (h : Draining len s.readOut.length s.written data curReadPos n moves)
    (hmove : moves[k]? = some (dst, cell len (s.readOut.length + dst))) (hdst : dst < n) :
    Draining len s.readOut.length s.written
      (data.set dst (s.region (cell len (s.readOut.length + dst)))) curReadPos n
      (moves.eraseIdx k) := by
  have havailable := h.available
  have hfits := h.fits
  refine ⟨h.pos, havailable, by rw [List.length_set]; exact hfits,
    fun m hm => h.left m (List.mem_of_mem_eraseIdx hm), fun j hj => ?_⟩
  by_cases hjdst : j = dst
  · subst hjdst
    right
    rw [List.getElem?_set_self (by omega), hring.held _ (by omega) (by omega)]
  · rw [List.getElem?_set_ne (Ne.symm hjdst)]
    refine (h.done j hj).imp_left fun hmem => mem_eraseIdx_of_ne hmove hmem fun heq => ?_
    exact hjdst (Prod.ext_iff.1 heq).1

/-- The exchange of the read position takes the bytes out. -/
theorem bufferOk_reader_exchange {data : List UInt8} {bytesRead curReadPos n : Nat}
    (hpos : 1 ≤ usableLen len) (hle : usableLen len ≤ 2 ^ 31) (h : BufferOk len s)
    (hi : s.readers[i]? = some ⟨.copy curReadPos n [], data, bytesRead⟩) :
    BufferOk len { s with
      readPos := toUint32 (toUint32 (curReadPos + n) % usableLen len)
      readOut := s.readOut ++ data.take n
      readers := s.readers.set i ⟨.unlock .kSuccess, data, n⟩ } := by
  have hdrain : Draining len s.readOut.length s.written data curReadPos n [] :=
    h.readers _ (List.mem_of_getElem? hi)
  have hroom := h.ring.room
  have havailable := hdrain.available
  have hlen : (data.take n).length = n := List.length_take_of_le hdrain.fits
  have hnew : toUint32 (toUint32 (curReadPos + n) % usableLen len) =
      (s.readOut ++ data.take n).length % usableLen len := by
    have hlt := Nat.mod_lt s.readOut.length hpos
    have hlt' := Nat.mod_lt (s.readOut.length % usableLen len + n) hpos
    rw [hdrain.pos, toUint32, toUint32, Nat.mod_eq_of_lt (a := _ + _) (by omega),
      Nat.mod_eq_of_lt (by omega), Nat.mod_add_mod, List.length_append, hlen]
  have htaken : s.readOut ++ data.take n <+: s.written := by
    obtain ⟨rest, hrest⟩ := h.ring.taken
    rw [← hrest]
    refine (List.prefix_append_right_inj _).2 (List.prefix_iff_getElem?.2 fun j hj => ?_)
    rw [hlen] at hj
    rcases hdrain.done j hj with hmem | hdone
    · cases hmem
    · rw [List.getElem_take, ← List.getElem?_eq_getElem, hdone, ← hrest,
        List.getElem?_append_right (by omega), Nat.add_sub_cancel_left]
  refine ⟨⟨hnew, h.ring.writePos, htaken, ?_, ?_⟩, h.writeFlag, ?_, ?_, ?_⟩
  · simp only [List.length_append, hlen]
    omega
  · intro k hk hkw
    simp only [List.length_append, hlen] at hk
    exact h.ring.held k (by omega) hkw
  · rw [← h.readFlag]
    exact total_set_of_eq hi rfl
  · intro y hy
    exact (h.writers y hy).mono (by simp)
  · refine forall_mem_set_of_alone hi (h.reader_alone rfl) ?_ fun y hy hy0 =>
      (h.readers y hy).of_not_holding hy0
    simp [ReaderOk]

theorem bufferOk_reader {x x' : Reader} (hpos : 1 ≤ usableLen len)
    (hle : usableLen len ≤ 2 ^ 31) (h : BufferOk len s) (hi : s.readers[i]? = some x)
    (hto : ReaderTo len s x t x') : BufferOk len { t with readers := t.readers.set i x' } := by
  have hmem := List.mem_of_getElem? hi
  have hx := h.readers x hmem
  cases hto with
  | busy data bytesRead hflag => exact h.reader_local hi s.readFlag rfl trivial
  | acquire data bytesRead hflag => exact h.reader_local hi true (by rw [hflag]; rfl) trivial
  | loadRead data bytesRead => exact h.reader_local hi s.readFlag rfl h.ring.readPos
  | loadWrite data bytesRead curReadPos =>
    obtain ⟨x', hx', hholds, hok⟩ := checkAvailable_ok hpos hle h.ring hx
    rw [hx']
    exact h.reader_local hi s.readFlag (by simp only [Reader.holders, hholds]; rfl) hok
  | move data bytesRead curReadPos n k moves dst src hmove =>
    obtain ⟨j, hj, heq⟩ := hx.left _ (List.mem_of_getElem? hmove)
    cases heq
    exact h.reader_local hi s.readFlag rfl (Draining.move h.ring hx hmove hj)
  | exchange data bytesRead curReadPos n =>
    have hcur : s.readPos = curReadPos := h.ring.readPos.trans hx.pos.symm
    rw [exchangeReadPos, if_neg (by simp [hcur])]
    exact bufferOk_reader_exchange hpos hle h hi
  | unlock data bytesRead error =>
    have hflag : 1 ≤ s.readFlag.toNat := h.readFlag ▸ le_total (f := Reader.holders) hmem
    have := Bool.toNat_le s.readFlag
    refine h.reader_local hi false ?_ hx
    show s.readFlag.toNat + 0 = 0 + 1
    omega

/-! ## Runs -/

theorem bufferOk_step (hpos : 1 ≤ usableLen len) (hle : usableLen len ≤ 2 ^ 31)
    (h : BufferOk len s) (hstep : StepTo len s a t) : BufferOk len t := by
  cases hstep with
  | tryWrite data =>
    obtain ⟨⟨hread, hwrite, htaken, hroom, hheld⟩, hwriteFlag, hreadFlag, hwriters, hreaders⟩ := h
    have hnew : WriterOk len s.readOut.length s.written.length s.region (tryWrite len data) ∧
        (tryWrite len data).holders = 0 := by
      unfold tryWrite
      split
      · exact ⟨by simp [WriterOk], rfl⟩
      · next hfits => exact ⟨Nat.le_of_not_lt hfits, rfl⟩
    refine ⟨⟨hread, hwrite, htaken, hroom, hheld⟩, ?_, hreadFlag, fun y hy => ?_, hreaders⟩
    · rw [total_append, total_singleton, hnew.2, Nat.add_zero]
      exact hwriteFlag
    · rcases List.mem_append.1 hy with hold | hlast
      · exact hwriters y hold
      · rw [List.mem_singleton.1 hlast]
        exact hnew.1
  | tryRead data bytesRead =>
    obtain ⟨⟨hread, hwrite, htaken, hroom, hheld⟩, hwriteFlag, hreadFlag, hwriters, hreaders⟩ := h
    refine ⟨⟨hread, hwrite, htaken, hroom, hheld⟩, hwriteFlag, ?_, hwriters, fun y hy => ?_⟩
    · rw [total_append, total_singleton]
      exact hreadFlag
    · rcases List.mem_append.1 hy with hold | hlast
      · exact hreaders y hold
      · rw [List.mem_singleton.1 hlast]
        trivial
  | writer i k x x' t hi hto => exact bufferOk_writer hpos hle h hi hto
  | reader i k x x' t hi hto => exact bufferOk_reader hpos hle h hi hto

theorem bufferOk_initialized (hpos : 1 ≤ usableLen len) (region : Nat → UInt8) :
    BufferOk len (initialized region) := by
  refine ⟨⟨?_, ?_, List.prefix_refl _, ?_, ?_⟩, rfl, rfl, ?_, ?_⟩
  · exact (Nat.zero_mod _).symm
  · exact (Nat.zero_mod _).symm
  · show 0 < 0 + usableLen len
    omega
  · intro k _ hk
    cases hk
  · intro x hx
    cases hx
  · intro x hx
    cases hx

/-- The ring holds the bytes that have been written and not yet read. -/
theorem RingOk.written_eq (hle : usableLen len ≤ 2 ^ 31) (h : RingOk len s) :
    s.written = s.readOut ++ s.stored len := by
  obtain ⟨rest, hrest⟩ := h.taken
  have hlen : s.written.length - s.readOut.length = rest.length := by
    rw [← hrest, List.length_append, Nat.add_sub_cancel_left]
  rw [← hrest]
  refine congrArg (s.readOut ++ ·) ?_
  rw [State.stored, h.readPos, h.writePos,
    numBytesInUse_mod (by omega) h.taken.length_le h.room, hlen]
  refine List.ext_getElem? fun j => ?_
  by_cases hj : j < rest.length
  · have hheld := h.held (s.readOut.length + j) (by omega) (by omega)
    rw [← hrest, List.getElem?_append_right (by omega), Nat.add_sub_cancel_left] at hheld
    rw [hheld, List.getElem?_map, List.getElem?_range hj, Option.map_some, cell, Nat.mod_add_mod]
  · rw [List.getElem?_eq_none (by omega), List.getElem?_eq_none (by simp; omega)]

/-- In every state that a run reaches, no call has ended with `kControlCorruption`, and the bytes
written are those read out followed by those in the ring. -/
theorem shared_buffer_fifo (len : Nat) (hpos : 1 ≤ usableLen len) (hle : usableLen len ≤ 2 ^ 31)
    (region : Nat → UInt8) (acts : List Act) (s : State)
    (hrun : exec (step len) (initialized region) acts = some s) :
    (∀ x ∈ s.writers, ∀ error, x.pc = .unlock error ∨ x.pc = .returned error →
        error ≠ .kControlCorruption) ∧
      (∀ x ∈ s.readers, ∀ error, x.pc = .unlock error ∨ x.pc = .returned error →
        error ≠ .kControlCorruption) ∧
      s.written = s.readOut ++ s.stored len := by
  have hinv : BufferOk len s := by
    refine exec_invariant (I := BufferOk len) ?_ (bufferOk_initialized hpos region) hrun
    intro s a t h hstep
    exact bufferOk_step hpos hle h (stepTo_of_step hstep)
  refine ⟨fun x hx error hpc => ?_, fun x hx error hpc => ?_, hinv.ring.written_eq hle⟩
  · have hok := hinv.writers x hx
    rcases hpc with hpc | hpc <;> simpa only [WriterOk, hpc] using hok
  · have hok := hinv.readers x hx
    rcases hpc with hpc | hpc <;> simpa only [ReaderOk, hpc] using hok

/-- Four usable bytes: three are written, two are read, and two more are written, one at the end
of the ring and one at its start. -/
def wrappingRun : List Act :=
  List.flatten [[.tryWrite [1, 2, 3]], List.replicate 8 (.writer 0 0), [.tryRead [0, 0] 0],
    List.replicate 7 (.reader 0 0), [.tryWrite [4, 5]], List.replicate 7 (.writer 1 0)]

theorem shared_buffer_fifo_wrapping :
    ∃ s, exec (step 28) (initialized fun _ => 0) wrappingRun = some s ∧
      s.readOut = [1, 2] ∧ s.stored 28 = [3, 4, 5] ∧
      (∀ x ∈ s.writers, ∀ error, x.pc = .unlock error ∨ x.pc = .returned error →
        error ≠ .kControlCorruption) ∧
      (∀ x ∈ s.readers, ∀ error, x.pc = .unlock error ∨ x.pc = .returned error →
        error ≠ .kControlCorruption) ∧
      s.written = s.readOut ++ s.stored 28 := by
  have hends : ∃ s, exec (step 28) (initialized fun _ => 0) wrappingRun = some s ∧
      s.readOut = [1, 2] ∧ s.stored 28 = [3, 4, 5] := exists_exec_of_decide (by decide)
  obtain ⟨s, hs, hread, hstored⟩ := hends
  exact ⟨s, hs, hread, hstored,
    shared_buffer_fifo 28 (by decide) (by decide) (fun _ => 0) wrappingRun s hs⟩

end Sparo.Demo.SharedBuffer
