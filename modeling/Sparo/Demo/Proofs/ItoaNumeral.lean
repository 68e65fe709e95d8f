import Sparo.Demo.Client
import Sparo.Misc.Numerals

/-!
# What `itoa_r` writes

The digits come out in reverse and with their padding, one store at a time, and the reversal in
place gives the numeral.
-/

namespace Sparo.Demo.Client

open Numerals

variable {base sz : Nat}

/-! ## The array -/

theorem store_eq {buf : List Char} {k : Nat} (c : Char) (h : k < buf.length) :
    store buf k c = some (buf.set k c) := if_pos h

/-- A store right behind a prefix. -/
theorem store_append (pre : List Char) (old c : Char) (post : List Char) :
    store (pre ++ old :: post) pre.length c = some (pre ++ c :: post) := by
  rw [store_eq]
  · rw [List.set_append_right _ _ (Nat.le_refl _), Nat.sub_self, List.set_cons_zero]
  · rw [List.length_append, List.length_cons]
    omega

theorem getElem?_append_self (pre : List Char) (c : Char) (post : List Char) :
    (pre ++ c :: post)[pre.length]? = some c := by
  rw [List.getElem?_append_right (Nat.le_refl _), Nat.sub_self, List.getElem?_cons_zero]

/-- Returning null leaves an empty string. -/
theorem store_nul (buf : List Char) (h : 0 < buf.length) :
    ∃ buf', store buf 0 nul = some buf' ∧ buf'.length = buf.length ∧ buf'.head? = some nul := by
  cases buf with
  | nil => cases h
  | cons c buf => exact ⟨nul :: buf, store_append [] c nul buf, rfl, rfl⟩

/-! ## The digits -/

/-- The character for a digit. -/
def digitChar (d : Nat) : Char := digitChars.getD d nul

theorem digitChars_getElem? {d : Nat} (h : d < 16) : digitChars[d]? = some (digitChar d) := by
  have hlength : digitChars.length = 16 := by decide
  rw [digitChar, List.getD_eq_getElem?_getD, List.getElem?_eq_getElem (by omega)]
  rfl

/-- One turn of the loop, with room for the digit and the NUL character. -/
theorem outputDigits_cons (hbase : 1 < base) (hbase' : base ≤ 16) (pre : List Char) (old : Char)
    {post : List Char} (hpost : 0 < post.length) (hsz : sz = pre.length + (post.length + 1))
    (j padding : Nat) :
    outputDigits base sz (pre ++ old :: post) pre.length (pre.length + 1) j padding =
      if j / base > 0 ∨ padding - 1 > 0 then
        outputDigits base sz (pre ++ [digitChar (j % base)] ++ post)
          (pre ++ [digitChar (j % base)]).length ((pre ++ [digitChar (j % base)]).length + 1)
          (j / base) (padding - 1)
      else some (pre ++ digitChar (j % base) :: post, some (pre.length + 1)) := by
  have hdigit : j % base < 16 := Nat.lt_of_lt_of_le (Nat.mod_lt _ (by omega)) hbase'
  rw [outputDigits, if_neg (by omega), digitChars_getElem? hdigit, Option.bind_some, store_append,
    Option.bind_some, List.append_assoc, List.length_append]
  rfl

/-- `outputDigits` appends the padded digits of `j`, least significant first, if they and the NUL
character fit. -/
theorem outputDigits_eq (hbase : 1 < base) (hbase' : base ≤ 16) {pre post : List Char}
    {j padding : Nat} (hsz : sz = pre.length + post.length)
    (hroom : width base j padding < post.length) :
    outputDigits base sz (pre ++ post) pre.length (pre.length + 1) j padding =
      some (pre ++ (padded base j padding).map digitChar ++ post.drop (width base j padding),
        some (pre.length + width base j padding)) := by
  induction post generalizing pre j padding with
  | nil => cases hroom
  | cons old post ih =>
    have hwidth := width_step hbase j padding
    rw [List.length_cons] at hsz hroom
    rw [outputDigits_cons hbase hbase' pre old (by omega) hsz, hwidth, padded_step hbase]
    rw [hwidth] at hroom
    split_ifs at hroom ⊢ with hmore
    · rw [ih (by rw [List.length_append, List.length_singleton]; omega) (by omega),
        List.map_cons, Nat.add_comm 1, List.drop_succ_cons, List.length_append,
        List.length_singleton, List.append_assoc pre, List.singleton_append]
      congr 3
      omega
    · rw [List.map_cons, List.map_nil, List.append_assoc, List.singleton_append,
        Nat.add_zero, List.drop_succ_cons, List.drop_zero]

/-- One turn of the loop, with no such room. -/
theorem outputDigits_full {buf : List Char} {ptr n j padding : Nat} (hpos : 0 < sz)
    (hsz : buf.length = sz) (hfull : n + 1 > sz) :
    ∃ buf', outputDigits base sz buf ptr n j padding = some (buf', none) ∧ buf'.length = sz ∧
      buf'.head? = some nul := by
  obtain ⟨buf', hstore, hlength, hhead⟩ := store_nul buf (by omega)
  rw [outputDigits, if_pos hfull, hstore]
  exact ⟨buf', rfl, hlength.trans hsz, hhead⟩

/-- Otherwise it returns null. -/
theorem outputDigits_null (hbase : 1 < base) (hbase' : base ≤ 16) {pre post : List Char}
    {j padding : Nat} (hpos : 0 < sz) (hsz : sz = pre.length + post.length)
    (hroom : post.length ≤ width base j padding) :
    ∃ buf, outputDigits base sz (pre ++ post) pre.length (pre.length + 1) j padding =
        some (buf, none) ∧ buf.length = sz ∧ buf.head? = some nul := by
  have hlength : (pre ++ post).length = sz := by rw [List.length_append, hsz]
  induction post generalizing pre j padding with
  | nil => exact outputDigits_full hpos hlength (by rw [hsz, List.length_nil]; omega)
  | cons old post ih =>
    rw [List.length_cons] at hsz hroom
    rcases Nat.eq_zero_or_pos post.length with hpost | hpost
    · exact outputDigits_full hpos hlength (by omega)
    · rw [outputDigits_cons hbase hbase' pre old hpost hsz]
      rw [width_step hbase] at hroom
      have hsz' : sz = (pre ++ [digitChar (j % base)]).length + post.length := by
        rw [List.length_append, List.length_singleton]
        omega
      split_ifs at hroom ⊢ with hmore
      · exact ih hsz' (by omega) (by rw [List.length_append, hsz'])
      · omega

/-! ## The reversal -/

/-- The outermost digits change places, and then those between them are reversed. -/
theorem reverseDigits_eq {pre mid post : List Char} (hptr : 0 < pre.length + mid.length) :
    reverseDigits (pre ++ mid ++ post) pre.length (pre.length + mid.length) =
      some (pre ++ mid.reverse ++ post) := by
  induction mid using List.bidirectionalRec generalizing pre post with
  | nil =>
    obtain ⟨k, hk⟩ := Nat.exists_eq_succ_of_ne_zero (Nat.ne_of_gt hptr)
    rw [hk, reverseDigits, if_neg (by rw [List.length_nil] at hk; omega), List.reverse_nil]
  | singleton a =>
    rw [List.length_singleton, reverseDigits, if_neg (by omega), List.reverse_singleton]
  | cons_append a mid b ih =>
    have houter (c d : Char) : pre ++ c :: (mid ++ [d]) ++ post = pre ++ c :: mid ++ d :: post := by
      simp only [List.append_assoc, List.cons_append, List.nil_append]
    have hinside (c d : Char) : pre ++ c :: mid ++ d :: post = pre ++ c :: (mid ++ d :: post) := by
      rw [List.append_assoc, List.cons_append]
    have hlast : (pre ++ a :: mid).length = pre.length + mid.length + 1 := by
      rw [List.length_append, List.length_cons, Nat.add_assoc]
    have hptr : pre.length + (a :: (mid ++ [b])).length = (pre ++ a :: mid).length + 1 := by
      simp only [List.length_cons, List.length_append, List.length_nil]
      omega
    have hinner := @ih (pre ++ [b]) (a :: post) (by
      rw [List.length_append, List.length_singleton]
      omega)
    have hlength : (pre ++ [b]).length = pre.length + 1 := by
      rw [List.length_append, List.length_singleton]
    rw [hlength] at hinner
    rw [hptr, reverseDigits, if_pos (by omega), houter, getElem?_append_self, Option.bind_some,
      hinside, getElem?_append_self, Option.bind_some, ← hinside, store_append, Option.bind_some,
      hinside, store_append, Option.bind_some, hlast]
    have hstart : pre ++ b :: (mid ++ a :: post) = pre ++ [b] ++ mid ++ a :: post := by
      simp only [List.append_assoc, List.cons_append, List.nil_append]
    have hend : pre ++ [b] ++ mid.reverse ++ a :: post =
        pre ++ (a :: (mid ++ [b])).reverse ++ post := by
      simp only [List.reverse_cons, List.reverse_append, List.reverse_nil, List.nil_append,
        List.append_assoc, List.cons_append]
    have hbetween : pre.length + mid.length + 1 = pre.length + 1 + mid.length := by omega
    rw [hstart, hbetween, hinner, hend]

/-- With room for all of them, the digits stand most significant first, and NUL behind them. -/
theorem convert_eq (hbase : 1 < base) (hbase' : base ≤ 16) {pre post : List Char} {j padding : Nat}
    (hsz : sz = pre.length + post.length) (hroom : width base j padding < post.length) :
    convert base sz (pre ++ post) pre.length (pre.length + 1) j padding =
      some (pre ++ (padded base j padding).reverse.map digitChar ++
        nul :: post.drop (width base j padding + 1), true) := by
  have hlength : ((padded base j padding).map digitChar).length = width base j padding := by
    rw [List.length_map, length_padded]
  have hptr : pre.length + width base j padding =
      (pre ++ (padded base j padding).map digitChar).length := by
    rw [List.length_append, hlength]
  have hpos : 0 < width base j padding := Nat.lt_of_lt_of_le Nat.zero_lt_one (Nat.le_max_left _ _)
  rw [convert, outputDigits_eq hbase hbase' hsz hroom, Option.bind_some]
  dsimp only
  rw [List.drop_eq_getElem_cons hroom, hptr, store_append, Option.bind_some, List.length_append,
    reverseDigits_eq (by rw [hlength]; omega), Option.map_some, List.map_reverse]

theorem convert_null (hbase : 1 < base) (hbase' : base ≤ 16) {pre post : List Char}
    {j padding : Nat} (hpos : 0 < sz) (hsz : sz = pre.length + post.length)
    (hroom : post.length ≤ width base j padding) :
    ∃ buf, convert base sz (pre ++ post) pre.length (pre.length + 1) j padding = some (buf, false) ∧
      buf.length = sz ∧ buf.head? = some nul := by
  obtain ⟨buf, hbuf, hlength, hhead⟩ := outputDigits_null hbase hbase' hpos hsz hroom
  rw [convert, hbuf]
  exact ⟨buf, rfl, hlength, hhead⟩

/-! ## The numeral -/

/-- The digit that a character stands for. -/
def digitOf (c : Char) : Option Nat :=
  if '0' ≤ c ∧ c ≤ '9' then some (c.toNat - '0'.toNat)
  else if 'a' ≤ c ∧ c ≤ 'f' then some (c.toNat - 'a'.toNat + 10)
  else none

/-- The number that a string denotes, if it is a numeral of the base. -/
def decode (base : Nat) (s : List Char) : Option Int :=
  let number (s : List Char) : Option Nat :=
    (s.mapM fun c => (digitOf c).filter fun d => decide (d < base)).map (value base)
  if s.head? = some '-' then (number s.tail).map fun (n : Nat) => -(n : Int)
  else (number s).map fun (n : Nat) => (n : Int)

/-- The sign character. -/
def sign (i : BitVec 64) (base : Int) : List Char := if i.toInt < 0 ∧ base = 10 then ['-'] else []

/-- The number whose digits are written. -/
def magnitude (i : BitVec 64) (base : Int) : Nat :=
  if i.toInt < 0 ∧ base = 10 then (-i.toInt).toNat else i.toNat

/-- What the numeral is to denote: the number in base 10, its unsigned pattern in the others. -/
def denoted (i : BitVec 64) (base : Int) : Int := if base = 10 then i.toInt else i.toNat

theorem digitOf_digitChar {d : Nat} (h : d < 16) : digitOf (digitChar d) = some d := by
  have hall : ∀ d < 16, digitOf (digitChar d) = some d := by decide
  exact hall d h

/-- The digits are read as they were written. -/
theorem mapM_digitOf (hbase' : base ≤ 16) {ds : List Nat} (hds : ∀ d ∈ ds, d < base) :
    (ds.map digitChar).mapM (fun c => (digitOf c).filter fun d => decide (d < base)) = some ds := by
  induction ds with
  | nil => rfl
  | cons d ds ih =>
    have hd : d < base := hds d List.mem_cons_self
    have hfilter : (some d).filter (fun d => decide (d < base)) = some d := by
      rw [Option.filter_some, if_pos (decide_eq_true hd)]
    rw [List.map_cons, List.mapM_cons, ih fun d hd => hds d (List.mem_cons_of_mem _ hd),
      digitOf_digitChar (Nat.lt_of_lt_of_le hd hbase'), hfilter]
    rfl

/-- `-(i + 1) + 1` on patterns is the magnitude also for the least number. -/
theorem negated_toNat {i : BitVec 64} (h : i.toInt < 0) :
    (-(i + 1) + 1).toNat = (-i.toInt).toNat := by
  have hneg : -(i + 1) + 1 = -i := by grind
  have hi := i.isLt
  rw [hneg, BitVec.toNat_neg, BitVec.toInt_eq_toNat_cond]
  rw [BitVec.toInt_eq_toNat_cond] at h
  split_ifs at h ⊢ <;> omega

theorem digitChar_ne {d : Nat} (h : d < 16) : digitChar d ≠ '-' ∧ digitChar d ≠ nul := by
  have hall : ∀ d < 16, digitChar d ≠ '-' ∧ digitChar d ≠ nul := by decide
  exact hall d h

/-- The digits of the magnitude with the sign denote the number. -/
theorem decode_numeral (i : BitVec 64) {base : Int} (hbase : 2 ≤ base) (hbase' : base ≤ 16)
    (padding : Nat) :
    decode base.toNat (sign i base ++
      (padded base.toNat (magnitude i base) padding).reverse.map digitChar) =
      some (denoted i base) := by
  have hvalue := value_padded base.toNat (magnitude i base) padding
  have hlength := length_padded base.toNat (magnitude i base) padding
  have hds : ∀ d ∈ (padded base.toNat (magnitude i base) padding).reverse, d < base.toNat :=
    fun d hd => lt_of_mem_padded (by omega) (List.mem_reverse.mp hd)
  rw [← List.length_reverse] at hlength
  generalize (padded base.toNat (magnitude i base) padding).reverse = ds at hvalue hlength hds
  have hread := mapM_digitOf (by omega : base.toNat ≤ 16) hds
  unfold decode sign
  by_cases hneg : i.toInt < 0 ∧ base = 10
  · have hmagnitude : (magnitude i base : Int) = -i.toInt := by
      rw [magnitude, if_pos hneg]
      omega
    rw [if_pos hneg, List.singleton_append, List.head?_cons, if_pos rfl, List.tail_cons]
    dsimp only
    rw [hread, Option.map_some, Option.map_some, hvalue, hmagnitude, Int.neg_neg, denoted,
      if_pos hneg.2]
  · have hmagnitude : magnitude i base = i.toNat := if_neg hneg
    have hdenoted : denoted i base = i.toNat := by
      unfold denoted
      split_ifs with hten
      · have hi := i.isLt
        rw [BitVec.toInt_eq_toNat_cond] at hneg ⊢
        split_ifs at hneg ⊢ <;> omega
      · rfl
    have hhead : ([] ++ ds.map digitChar).head? ≠ some '-' := by
      cases ds with
      | nil =>
        have hpos : 1 ≤ width base.toNat (magnitude i base) padding := Nat.le_max_left _ _
        rw [← hlength] at hpos
        cases hpos
      | cons d ds =>
        have hd := hds d List.mem_cons_self
        have hne := (digitChar_ne (d := d) (by omega)).1
        intro h
        exact hne (Option.some.inj h)
    rw [if_neg hneg, if_neg hhead, List.nil_append]
    dsimp only
    rw [hread, Option.map_some, Option.map_some, hvalue, hmagnitude, hdenoted]

/-- No character of the numeral ends the string. -/
theorem nul_notMem_numeral (i : BitVec 64) {base : Int} (hbase : 2 ≤ base) (hbase' : base ≤ 16)
    (padding : Nat) :
    nul ∉ sign i base ++ (padded base.toNat (magnitude i base) padding).reverse.map digitChar := by
  intro h
  rcases List.mem_append.mp h with h | h
  · unfold sign at h
    split_ifs at h
    · exact absurd (List.mem_singleton.mp h) (by decide)
    · cases h
  · obtain ⟨d, hd, hnul⟩ := List.mem_map.mp h
    have hlt := lt_of_mem_padded (b := base.toNat) (by omega) (List.mem_reverse.mp hd)
    exact (digitChar_ne (d := d) (by omega)).2 hnul

/-- `itoa_r` from the first digit on. -/
theorem itoaR_eq (i : BitVec 64) (buf : List Char) {base : Int} (hbase : 2 ≤ base)
    (hbase' : base ≤ 16) (padding : Nat) (hroom : 1 + (sign i base).length ≤ buf.length) :
    itoaR i buf base padding =
      convert base.toNat buf.length (sign i base ++ buf.drop (sign i base).length)
        (sign i base).length ((sign i base).length + 1) (magnitude i base) padding := by
  unfold itoaR
  dsimp only
  rw [if_neg (by omega), if_neg (by omega)]
  unfold sign magnitude at *
  by_cases hneg : i.toInt < 0 ∧ base = 10
  · rw [if_pos hneg] at hroom
    have hroom' : 2 ≤ buf.length := hroom
    rw [if_pos hneg, if_pos hneg, if_pos hneg, negated_toNat hneg.1, if_neg (Nat.not_lt.mpr hroom')]
    cases buf with
    | nil => cases hroom
    | cons c buf =>
      have hstore : store (c :: buf) 0 '-' = some ('-' :: buf) := store_append [] c '-' buf
      rw [hstore]
      rfl
  · rw [if_neg hneg, if_neg hneg, if_neg hneg]
    rfl

/-- A base that there are no digits for. -/
theorem itoaR_of_base (i : BitVec 64) {buf : List Char} {base : Int}
    (hbase : base < 2 ∨ base > 16) (padding : Nat) (hpos : 0 < buf.length) :
    ∃ buf', itoaR i buf base padding = some (buf', false) ∧ buf'.length = buf.length ∧
      buf'.head? = some nul := by
  obtain ⟨buf', hstore, hlength, hhead⟩ := store_nul buf hpos
  refine ⟨buf', ?_, hlength, hhead⟩
  rw [itoaR, if_neg (by omega), if_pos hbase, hstore]
  rfl

/-- The sign, the digits and NUL all fit. -/
theorem itoaR_of_fits (i : BitVec 64) {buf : List Char} {base : Int} (hbase : 2 ≤ base)
    (hbase' : base ≤ 16) (padding : Nat)
    (hfits : 1 + (sign i base).length + width base.toNat (magnitude i base) padding ≤ buf.length) :
    itoaR i buf base padding =
      some (sign i base ++ (padded base.toNat (magnitude i base) padding).reverse.map digitChar ++
        nul :: (buf.drop (sign i base).length).drop
          (width base.toNat (magnitude i base) padding + 1), true) := by
  rw [itoaR_eq i buf hbase hbase' padding (by omega)]
  apply convert_eq
  · omega
  · omega
  · rw [List.length_drop]
    omega
  · rw [List.length_drop]
    omega

/-- Something does not fit: the sign, which leaves no room for a digit, or one of the digits. -/
theorem itoaR_of_not_fits (i : BitVec 64) {buf : List Char} {base : Int} (hbase : 2 ≤ base)
    (hbase' : base ≤ 16) (padding : Nat) (hpos : 0 < buf.length)
    (hfull : buf.length <
      1 + (sign i base).length + width base.toNat (magnitude i base) padding) :
    ∃ buf', itoaR i buf base padding = some (buf', false) ∧ buf'.length = buf.length ∧
      buf'.head? = some nul := by
  by_cases hroom : 1 + (sign i base).length ≤ buf.length
  · rw [itoaR_eq i buf hbase hbase' padding hroom]
    apply convert_null (by omega) (by omega) hpos
    · rw [List.length_drop]
      omega
    · rw [List.length_drop]
      omega
  · have hneg : i.toInt < 0 ∧ base = 10 := by
      by_contra hneg
      rw [sign, if_neg hneg] at hroom
      exact hroom hpos
    rw [sign, if_pos hneg, List.length_singleton] at hroom
    obtain ⟨buf', hstore, hlength, hhead⟩ := store_nul buf hpos
    refine ⟨buf', ?_, hlength, hhead⟩
    rw [itoaR, if_neg (by omega), if_neg (by omega), if_pos hneg, if_pos (by omega), hstore]
    rfl

/-- `itoa_r` never writes outside the array; it returns null exactly if the sign, the digits and
NUL do not all fit, and leaves an empty string then; otherwise the array holds a string that denotes
the number, with as many digits as there are and as many as asked for. -/
theorem itoaR_formats (i : BitVec 64) (buf : List Char) (base : Int) (padding : Nat) :
    ∃ buf' returned, itoaR i buf base padding = some (buf', returned) ∧
      buf'.length = buf.length ∧
      (returned = false → 1 ≤ buf.length → buf'.head? = some nul) ∧
      (2 ≤ base → base ≤ 16 →
        (returned = false ↔ buf.length <
          1 + (sign i base).length + width base.toNat (magnitude i base) padding) ∧
        (returned = true → ∃ digits rest,
          buf' = sign i base ++ digits ++ nul :: rest ∧
          nul ∉ sign i base ++ digits ∧
          digits.length = width base.toNat (magnitude i base) padding ∧
          decode base.toNat (sign i base ++ digits) = some (denoted i base))) := by
  rcases Nat.eq_zero_or_pos buf.length with hempty | hpos
  · refine ⟨buf, false, if_pos (by omega), rfl, fun _ h => ?_, fun _ _ => ⟨?_, Bool.noConfusion⟩⟩
    · omega
    · exact iff_of_true rfl (by omega)
  by_cases hbase : base < 2 ∨ base > 16
  · obtain ⟨buf', hnull, hlength, hhead⟩ := itoaR_of_base i hbase padding hpos
    refine ⟨buf', false, hnull, hlength, fun _ _ => hhead, fun h h' => ?_⟩
    omega
  have hbase₂ : 2 ≤ base := by omega
  have hbase₁₆ : base ≤ 16 := by omega
  by_cases hfits :
      1 + (sign i base).length + width base.toNat (magnitude i base) padding ≤ buf.length
  · refine ⟨_, true, itoaR_of_fits i hbase₂ hbase₁₆ padding hfits, ?_, Bool.noConfusion,
      fun _ _ => ⟨?_, fun _ => ⟨_, _, rfl, ?_, ?_, ?_⟩⟩⟩
    · simp only [List.length_append, List.length_cons, List.length_map, List.length_reverse,
        List.length_drop, length_padded]
      omega
    · exact iff_of_false Bool.noConfusion (Nat.not_lt.mpr hfits)
    · exact nul_notMem_numeral i hbase₂ hbase₁₆ padding
    · rw [List.length_map, List.length_reverse, length_padded]
    · exact decode_numeral i hbase₂ hbase₁₆ padding
  · have hfull := Nat.lt_of_not_le hfits
    obtain ⟨buf', hnull, hlength, hhead⟩ :=
      itoaR_of_not_fits i hbase₂ hbase₁₆ padding hpos hfull
    exact ⟨buf', false, hnull, hlength, fun _ _ => hhead, fun _ _ =>
      ⟨iff_of_true rfl hfull, Bool.noConfusion⟩⟩

end Sparo.Demo.Client
