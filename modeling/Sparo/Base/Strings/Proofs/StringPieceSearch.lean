import Sparo.Base.Strings.StringPiece

/-!
# The searches of a string piece agree

What the six searches are for, as the first or the last position that meets a condition, and that
every version of each returns it. The generic `find_first_of` forms an iterator to the start
position before it compares anything, so it needs a start position within the piece.
-/

namespace Sparo.Base.StringPiece

open LinearScan

variable {CharT : Type}

/-! ## What is searched for -/

/-- `s` stands at `p`. -/
def Occurs (self s : StringPiece CharT) (p : Nat) : Prop :=
  p ≤ self.size ∧ s.data <+: self.data.drop p

/-- The character at `p` is one of `s`. -/
def IsOneOf (self s : StringPiece CharT) (p : Nat) : Prop :=
  ∃ ch, self.charAt p = some ch ∧ ch ∈ s.data

/-- The character at `p` is none of `s`. -/
def IsNoneOf (self s : StringPiece CharT) (p : Nat) : Prop :=
  ∃ ch, self.charAt p = some ch ∧ ch ∉ s.data

variable {self s : StringPiece CharT} {P : Nat → Prop} {pos p : Nat} {test : Nat → Option Bool}

theorem charAt_of_lt (hp : p < self.size) : ∃ ch, self.charAt p = some ch :=
  ⟨_, List.getElem?_eq_getElem hp⟩

theorem lt_size_of_charAt {ch : CharT} (h : self.charAt p = some ch) : p < self.size :=
  (List.getElem?_eq_some_iff.mp h).1

theorem not_isOneOf_of_le (hp : self.size ≤ p) : ¬IsOneOf self s p := by
  rintro ⟨ch, hch, -⟩
  exact Nat.not_lt.mpr hp (lt_size_of_charAt hch)

theorem not_isNoneOf_of_le (hp : self.size ≤ p) : ¬IsNoneOf self s p := by
  rintro ⟨ch, hch, -⟩
  exact Nat.not_lt.mpr hp (lt_size_of_charAt hch)

theorem not_isOneOf_iff (hp : p < self.size) : ¬IsOneOf self s p ↔ IsNoneOf self s p := by
  obtain ⟨ch, hch⟩ := charAt_of_lt hp
  simp [IsOneOf, IsNoneOf, hch]

/-- A test for one of the characters of `s`, negated. -/
theorem decides_isNoneOf (h : Decides test (IsOneOf self s) p) (hp : p < self.size) :
    Decides (fun i => (test i).map (!·)) (IsNoneOf self s) p := by
  obtain ⟨found, hfound, hP⟩ := h.not
  exact ⟨found, hfound, hP.trans (not_isOneOf_iff hp)⟩

/-- The loop over the positions of the piece from `pos` on. -/
theorem scanUp_size (htest : ∀ p < self.size, Decides test P p)
    (hout : ∀ p, self.size ≤ p → ¬P p) (pos : Nat) :
    ∃ r, (scanUp test (self.size - pos) pos).map index = some (index r) ∧ IsFirst P pos r := by
  obtain ⟨r, hr, hfirst⟩ : ∃ r, scanUp test (self.size - pos) pos = some r ∧ IsFirst P pos r :=
    scanUp_isFirst (fun p hle hlt => htest p (by omega)) fun p hle => hout p (by omega)
  exact ⟨r, by rw [hr, Option.map_some], hfirst⟩

/-- The loop down from `pos` or the last position of the piece. -/
theorem scanDown_size (hne : self.size ≠ 0) (htest : ∀ p < self.size, Decides test P p)
    (hout : ∀ p, self.size ≤ p → ¬P p) (pos : Nat) :
    ∃ r, (scanDown test (min pos (self.size - 1))).map index = some (index r) ∧
      IsLast P pos r := by
  obtain ⟨r, hr, hlast⟩ : ∃ r, scanDown test (min pos (self.size - 1)) = some r ∧
      IsLast P (min pos (self.size - 1)) r :=
    scanDown_isLast fun p hle => htest p (by omega)
  exact ⟨r, by rw [hr, Option.map_some], hlast.of_min fun p hlt => hout p (by omega)⟩

/-- A search behind a test for those that find nothing. -/
theorem search_unless {c : Prop} [Decidable c] {found : Option Nat} {Q : Option Nat → Prop}
    (hc : c → Q none) (hfound : ¬c → ∃ r, found = some (index r) ∧ Q r) :
    ∃ r, (if c then some npos else found) = some (index r) ∧ Q r := by
  by_cases h : c
  · rw [if_pos h]
    exact ⟨none, rfl, hc h⟩
  · rw [if_neg h]
    exact hfound h

/-- The loop behind a test for searches that find nothing. -/
theorem scanUp_unless {c : Prop} [Decidable c] (hc : c → ∀ p, ¬P p)
    (htest : ∀ p < self.size, Decides test P p) (hout : ∀ p, self.size ≤ p → ¬P p) (pos : Nat) :
    ∃ r, (if c then some npos else (scanUp test (self.size - pos) pos).map index) =
      some (index r) ∧ IsFirst P pos r := by
  apply search_unless
  · intro h p _
    exact hc h p
  · intro _
    exact scanUp_size htest hout pos

/-- The same downwards; the test also keeps out an empty piece. -/
theorem scanDown_unless {c : Prop} [Decidable c] (hc : c → ∀ p, ¬P p)
    (hne : ¬c → self.size ≠ 0) (htest : ∀ p < self.size, Decides test P p)
    (hout : ∀ p, self.size ≤ p → ¬P p) (pos : Nat) :
    ∃ r, (if c then some npos else (scanDown test (min pos (self.size - 1))).map index) =
      some (index r) ∧ IsLast P pos r := by
  apply search_unless
  · intro h p _
    exact hc h p
  · intro h
    exact scanDown_size (hne h) htest hout pos

/-- In an empty piece nothing is found. -/
theorem not_of_size (hself : self.size = 0) (hout : ∀ p, self.size ≤ p → ¬P p) (p : Nat) :
    ¬P p := hout p (hself ▸ Nat.zero_le p)

theorem not_isOneOf_of_empty (hs : s.size = 0) (p : Nat) : ¬IsOneOf self s p := by
  rintro ⟨ch, -, hmem⟩
  rw [List.eq_nil_of_length_eq_zero hs] at hmem
  cases hmem

/-! ## Tests of one position -/

theorem at_zero_of_size_one (hs : s.size = 1) : ∃ ch, s.charAt 0 = some ch ∧ s.data = [ch] := by
  obtain ⟨ch, hch⟩ := List.length_eq_one_iff.mp hs
  exact ⟨ch, by rw [charAt, hch]; rfl, hch⟩

variable [DecidableEq CharT]

/-- The comparison with the only character of `s`. -/
theorem decides_eq {c : CharT} (hs : s.data = [c]) (hp : p < self.size) :
    Decides (fun i => (self.charAt i).map fun d => decide (d = c)) (IsOneOf self s) p := by
  obtain ⟨ch, hch⟩ := charAt_of_lt hp
  refine ⟨decide (ch = c), by simp only [hch, Option.map_some], ?_⟩
  simp [IsOneOf, hch, hs]

theorem decides_ne {c : CharT} (hs : s.data = [c]) (hp : p < self.size) :
    Decides (fun i => (self.charAt i).map fun d => decide (d ≠ c)) (IsNoneOf self s) p := by
  obtain ⟨ch, hch⟩ := charAt_of_lt hp
  refine ⟨decide (ch ≠ c), by simp only [hch, Option.map_some], ?_⟩
  simp [IsNoneOf, hch, hs]

/-- `find(ch, pos)` returns the first position of the character. -/
theorem findChar_isFirst (self : StringPiece CharT) {c : CharT} (hs : s.data = [c]) (pos : Nat) :
    ∃ r, self.findChar c pos = some (index r) ∧ IsFirst (IsOneOf self s) pos r := by
  unfold findChar
  by_cases hpos : pos ≥ self.size
  · rw [if_pos hpos]
    exact ⟨none, rfl, fun p hle => not_isOneOf_of_le (Nat.le_trans hpos hle)⟩
  · have hlt : pos < self.size := Nat.lt_of_not_ge hpos
    have hiff : ∀ p, pos ≤ p → (IsOneOf self s p ↔ (self.data.drop pos)[p - pos]? = some c) := by
      intro p hle
      rw [List.getElem?_drop, Nat.add_sub_cancel' hle]
      simp [IsOneOf, hs, charAt]
    rw [if_neg hpos, fromPos, if_pos (Nat.le_of_lt hlt), Option.map_some]
    refine ⟨_, rfl, ?_⟩
    cases hfound : (self.data.drop pos).findIdx? (· = c) with
    | none =>
      intro p hle hone
      rw [hiff p hle] at hone
      have hnone := List.findIdx?_eq_none_iff.mp hfound c (List.mem_of_getElem? hone)
      simp at hnone
    | some i =>
      obtain ⟨hi, hat, hbefore⟩ := List.findIdx?_eq_some_iff_getElem.mp hfound
      refine ⟨Nat.le_add_right pos i, ?_, ?_⟩
      · rw [hiff _ (Nat.le_add_right pos i), Nat.add_sub_cancel_left,
          List.getElem?_eq_getElem hi]
        simpa using hat
      · intro p hle hp hone
        change p < pos + i at hp
        rw [hiff p hle] at hone
        have hj : p - pos < i := by omega
        have hfail := hbefore (p - pos) hj
        rw [List.getElem?_eq_getElem (Nat.lt_trans hj hi), Option.some.injEq] at hone
        simp [hone] at hfail

omit [DecidableEq CharT] in
theorem lt_npos_of_lt_size (hp : p < self.size) : p ≠ npos := by
  have hsize : self.size < 2 ^ 63 := self.size_lt
  rw [npos]
  omega

/-- `find(ch) != npos` tells whether the character is there. -/
theorem findChar_ne_npos (v : StringPiece CharT) (ch : CharT) :
    ∃ i, v.findChar ch 0 = some i ∧ (i ≠ npos ↔ ch ∈ v.data) := by
  obtain ⟨r, hr, hfirst⟩ := findChar_isFirst v (s := ⟨[ch], by simp⟩) rfl 0
  refine ⟨index r, hr, ?_⟩
  cases r with
  | none =>
    refine ⟨fun h => absurd rfl h, fun hmem => ?_⟩
    obtain ⟨i, hi⟩ := List.getElem?_of_mem hmem
    exact absurd ⟨ch, hi, List.mem_singleton_self ch⟩ (hfirst i (Nat.zero_le i))
  | some i =>
    obtain ⟨c, hc, hmem⟩ := hfirst.2.1
    obtain rfl := List.mem_singleton.mp hmem
    exact ⟨fun _ => List.mem_of_getElem? hc, fun _ => lt_npos_of_lt_size (lt_size_of_charAt hc)⟩

theorem decides_charIn (hp : p < self.size) :
    Decides (ConstantEvaluated.charIn self s) (IsOneOf self s) p := by
  obtain ⟨ch, hch⟩ := charAt_of_lt hp
  obtain ⟨i, hi, hiff⟩ := findChar_ne_npos s ch
  refine ⟨decide (i ≠ npos), ?_, ?_⟩
  · rw [ConstantEvaluated.charIn, hch, Option.bind_some, hi, Option.map_some]
  · rw [decide_eq_true_iff, hiff]
    simp [IsOneOf, hch]

theorem decides_foundIn (hp : p < self.size) :
    Decides (fun i => Generic.foundIn self i s.data) (IsOneOf self s) p := by
  obtain ⟨ch, hch⟩ := charAt_of_lt hp
  have hfound : ∀ cs : List CharT, Generic.foundIn self p cs = some (decide (ch ∈ cs)) := by
    intro cs
    induction cs with
    | nil => rfl
    | cons c cs ih =>
      rw [Generic.foundIn, hch, Option.bind_some]
      by_cases hc : ch = c
      · simp [hc]
      · simp [hc, ih]
  refine ⟨_, hfound s.data, ?_⟩
  simp [IsOneOf, hch]

theorem decides_lookupAt {self s : StringPiece UInt8} (hp : p < self.size) :
    Decides (EightBit.lookupAt self (EightBit.buildLookupTable s.data)) (IsOneOf self s) p := by
  obtain ⟨ch, hch⟩ := charAt_of_lt hp
  have htable : ∀ (cs : List UInt8) (table : List Bool), table.length = 256 →
      (cs.foldl (fun table c => table.set c.toNat true) table)[ch.toNat]? =
        some (decide (ch ∈ cs) || (table[ch.toNat]?).getD false) := by
    intro cs
    induction cs with
    | nil =>
      intro table hlength
      have hlt : ch.toNat < table.length := hlength ▸ ch.toNat_lt
      simp [List.getElem?_eq_getElem hlt]
    | cons c cs ih =>
      intro table hlength
      have hlt : ch.toNat < table.length := hlength ▸ ch.toNat_lt
      rw [List.foldl_cons, ih _ (by rw [List.length_set, hlength])]
      by_cases hc : ch = c
      · simp [hc, List.getElem?_set_self (hc ▸ hlt)]
      · have hne : c.toNat ≠ ch.toNat := fun h => hc (UInt8.toNat_inj.mp h.symm)
        simp [hc, List.getElem?_set_ne hne]
  refine ⟨decide (ch ∈ s.data), ?_, ?_⟩
  · rw [EightBit.lookupAt, hch, Option.bind_some, EightBit.buildLookupTable,
      htable s.data _ List.length_replicate, List.getElem?_replicate, if_pos ch.toNat_lt,
      Option.getD_some, Bool.or_false]
  · simp [IsOneOf, hch]

/-! ## Searches for a string -/

omit [DecidableEq CharT] in
theorem Occurs.add_size_le (h : Occurs self s p) : p + s.size ≤ self.size := by
  have hle : s.data.length ≤ (self.data.drop p).length := h.2.length_le
  have hp : p ≤ self.data.length := h.1
  rw [List.length_drop] at hle
  change p + s.data.length ≤ self.data.length
  omega

omit [DecidableEq CharT] in
/-- A longer string does not occur. -/
theorem not_occurs_of_size_lt (h : self.size < s.size) (p : Nat) : ¬Occurs self s p := by
  intro hoccurs
  have := hoccurs.add_size_le
  omega

theorem compareEqual_iff (a b : StringPiece CharT) :
    a.compareEqual b = true ↔ a.data = b.data := by
  unfold compareEqual
  by_cases htake : a.data.take (min a.size b.size) = b.data.take (min a.size b.size)
  · rw [if_neg (not_not.mpr htake), beq_iff_eq]
    refine ⟨fun hsize => ?_, fun heq => congrArg List.length heq⟩
    rw [hsize, Nat.min_self] at htake
    have hall : a.data.take b.size = a.data := List.take_of_length_le (Nat.le_of_eq hsize)
    rw [← hall, htake]
    exact List.take_length
  · rw [if_pos htake]
    refine ⟨fun h => absurd h Bool.false_ne_true, fun heq => absurd ?_ htake⟩
    rw [heq]

/-- Within a piece, the comparison of a part of it with `s` finds whether `s` stands there. -/
theorem decides_compareEqualAt (hp : p + s.size ≤ self.size) :
    Decides (fun i => self.compareEqualAt i s.size s) (Occurs self s) p := by
  have hle : p ≤ self.size := Nat.le_of_add_right_le hp
  have hcount : min s.size (self.size - p) = s.size := by omega
  simp only [Decides, compareEqualAt, substr, if_pos hle, Option.map_some]
  refine ⟨_, rfl, ?_⟩
  rw [compareEqual_iff]
  change (self.data.drop p).take (min s.size (self.size - p)) = s.data ↔ _
  rw [hcount, Occurs, List.prefix_iff_eq_take]
  exact ⟨fun h => ⟨hle, h.symm⟩, fun h => h.2.symm⟩

theorem constantFind_isFirst (self s : StringPiece CharT) (pos : Nat) :
    ∃ r, ConstantEvaluated.find self s pos = some (index r) ∧ IsFirst (Occurs self s) pos r := by
  unfold ConstantEvaluated.find
  by_cases hsize : s.size > self.size
  · rw [if_pos hsize]
    exact ⟨none, rfl, fun p _ => not_occurs_of_size_lt hsize p⟩
  · rw [if_neg hsize]
    obtain ⟨r, hr, hfirst⟩ : ∃ r, scanUp (fun p => self.compareEqualAt p s.size s)
        (self.size - s.size + 1 - pos) pos = some r ∧ IsFirst (Occurs self s) pos r := by
      refine scanUp_isFirst (fun p hle hlt => decides_compareEqualAt (by omega)) ?_
      intro p hle hoccurs
      have := hoccurs.add_size_le
      omega
    exact ⟨r, by rw [hr, Option.map_some], hfirst⟩

theorem constantRfind_isLast (self s : StringPiece CharT) (pos : Nat) :
    ∃ r, ConstantEvaluated.rfind self s pos = some (index r) ∧ IsLast (Occurs self s) pos r := by
  unfold ConstantEvaluated.rfind
  by_cases hsize : s.size > self.size
  · rw [if_pos hsize]
    exact ⟨none, rfl, fun p _ => not_occurs_of_size_lt hsize p⟩
  · rw [if_neg hsize, Nat.min_comm]
    obtain ⟨r, hr, hlast⟩ : ∃ r, scanDown (fun p => self.compareEqualAt p s.size s)
        (min pos (self.size - s.size)) = some r ∧
          IsLast (Occurs self s) (min pos (self.size - s.size)) r :=
      scanDown_isLast fun p hle => decides_compareEqualAt (by omega)
    refine ⟨r, by rw [hr, Option.map_some], hlast.of_min fun p hlt hoccurs => ?_⟩
    have := hoccurs.add_size_le
    omega

/-- `std::search` goes past every position where the needle is not. -/
theorem search_spec (needle hay : List CharT) :
    search needle hay ≤ hay.length ∧
      (search needle hay < hay.length → needle <+: hay.drop (search needle hay)) ∧
      ∀ i < search needle hay, ¬needle <+: hay.drop i := by
  induction hay with
  | nil => exact ⟨Nat.le_refl 0, fun h => absurd h (Nat.lt_irrefl 0), fun i hi => by cases hi⟩
  | cons ch rest ih =>
    obtain ⟨hle, hfound, hbefore⟩ := ih
    rw [search]
    by_cases hstarts : needle.isPrefixOf (ch :: rest) = true
    · rw [if_pos hstarts]
      exact ⟨Nat.zero_le _, fun _ => List.isPrefixOf_iff_prefix.mp hstarts, fun i hi => by cases hi⟩
    · rw [if_neg hstarts]
      refine ⟨Nat.succ_le_succ hle, fun hlt => hfound (Nat.lt_of_succ_lt_succ hlt), ?_⟩
      intro i hi
      cases i with
      | zero => exact fun h => hstarts (List.isPrefixOf_iff_prefix.mpr h)
      | succ i => exact hbefore i (Nat.lt_of_succ_lt_succ hi)

theorem genericFind_isFirst (self s : StringPiece CharT) (pos : Nat) :
    ∃ r, Generic.find self s pos = some (index r) ∧ IsFirst (Occurs self s) pos r := by
  unfold Generic.find
  by_cases hpos : pos > self.size
  · rw [if_pos hpos]
    refine ⟨none, rfl, fun p hle hoccurs => ?_⟩
    have := hoccurs.1
    omega
  · have hle : pos ≤ self.size := Nat.le_of_not_lt hpos
    obtain ⟨hend, hfound, hbefore⟩ := search_spec s.data (self.data.drop pos)
    have hlength : (self.data.drop pos).length = self.size - pos := List.length_drop
    rw [if_neg hpos, fromPos, if_pos hle, Option.map_some]
    dsimp only
    have hskipped : ∀ p, pos ≤ p → p < pos + search s.data (self.data.drop pos) →
        ¬Occurs self s p := by
      rintro p hle hlt ⟨-, hstarts⟩
      refine hbefore (p - pos) (by omega) ?_
      rwa [List.drop_drop, Nat.add_sub_cancel' hle]
    by_cases hfits : pos + search s.data (self.data.drop pos) + s.size ≤ self.size
    · rw [if_pos hfits]
      refine ⟨some _, rfl, Nat.le_add_right pos _, ⟨by omega, ?_⟩, hskipped⟩
      rw [← List.drop_drop]
      by_cases hlt : search s.data (self.data.drop pos) < (self.data.drop pos).length
      · exact hfound hlt
      · -- At the end only the empty string fits.
        have hzero : s.data.length = 0 := by
          change _ + s.data.length ≤ _ at hfits
          omega
        rw [List.eq_nil_of_length_eq_zero hzero]
        exact List.nil_prefix
    · rw [if_neg hfits]
      refine ⟨none, rfl, fun p hle hoccurs => ?_⟩
      have hsize := hoccurs.add_size_le
      exact hskipped p hle (by omega) hoccurs

/-- `std::find_end` with a needle that is not empty. -/
theorem findEnd_spec {needle : List CharT} (hne : needle ≠ []) (hay : List CharT) :
    match findEnd needle hay with
    | some i => needle <+: hay.drop i ∧ ∀ j, i < j → ¬needle <+: hay.drop j
    | none => ∀ j, ¬needle <+: hay.drop j := by
  induction hay with
  | nil =>
    intro j hstarts
    rw [List.drop_nil] at hstarts
    exact hne (List.prefix_nil.mp hstarts)
  | cons ch rest ih =>
    rw [findEnd]
    cases hrest : findEnd needle rest with
    | some i =>
      rw [hrest] at ih
      rw [Option.map_some, Option.some_or]
      refine ⟨ih.1, fun j hj => ?_⟩
      cases j with
      | zero => cases hj
      | succ j => exact ih.2 j (Nat.lt_of_succ_lt_succ hj)
    | none =>
      rw [hrest] at ih
      rw [Option.map_none, Option.none_or]
      by_cases hstarts : needle.isPrefixOf (ch :: rest) = true
      · have hnot : needle.isEmpty = false := by
          cases needle with
          | nil => exact absurd rfl hne
          | cons _ _ => rfl
        rw [hstarts, hnot, Bool.not_false, Bool.and_self, if_pos rfl]
        refine ⟨List.isPrefixOf_iff_prefix.mp hstarts, fun j hj => ?_⟩
        cases j with
        | zero => cases hj
        | succ j => exact ih j
      · rw [Bool.eq_false_iff.mpr hstarts, Bool.false_and, if_neg Bool.false_ne_true]
        intro j
        cases j with
        | zero => exact fun h => hstarts (List.isPrefixOf_iff_prefix.mpr h)
        | succ j => exact ih j

theorem genericRfind_isLast (self s : StringPiece CharT) (pos : Nat) :
    ∃ r, Generic.rfind self s pos = some (index r) ∧ IsLast (Occurs self s) pos r := by
  unfold Generic.rfind
  by_cases hsize : self.size < s.size
  · rw [if_pos hsize]
    exact ⟨none, rfl, fun p _ => not_occurs_of_size_lt hsize p⟩
  · rw [if_neg hsize]
    by_cases hempty : s.empty = true
    · have hnil : s.data = [] := List.eq_nil_of_length_eq_zero (beq_iff_eq.mp hempty)
      rw [if_pos hempty]
      refine ⟨some (min self.size pos), rfl, Nat.min_le_right _ _, ⟨Nat.min_le_left _ _, ?_⟩, ?_⟩
      · rw [hnil]
        exact List.nil_prefix
      · intro p hlt hle hoccurs
        have := hoccurs.1
        omega
    · have hne : s.data ≠ [] := fun hnil => hempty (by rw [empty, size, hnil]; rfl)
      have hlast : min (self.size - s.size) pos + s.size ≤ self.size := by omega
      rw [if_neg hempty]
      dsimp only
      rw [if_pos hlast]
      have hiff : ∀ j, s.data <+: (self.data.take (min (self.size - s.size) pos + s.size)).drop j ↔
          Occurs self s j ∧ j ≤ pos := by
        intro j
        have hpos : 0 < s.size := List.length_pos_iff.mpr hne
        rw [List.drop_take, List.prefix_take_iff]
        change _ ∧ s.size ≤ _ ↔ _
        refine ⟨fun ⟨hstarts, hle⟩ => ⟨⟨by omega, hstarts⟩, by omega⟩, ?_⟩
        rintro ⟨hoccurs, hle⟩
        have := hoccurs.add_size_le
        exact ⟨hoccurs.2, by omega⟩
      have hspec := findEnd_spec hne (self.data.take (min (self.size - s.size) pos + s.size))
      refine ⟨_, rfl, ?_⟩
      cases hfound : findEnd s.data (self.data.take (min (self.size - s.size) pos + s.size)) with
      | none =>
        rw [hfound] at hspec
        exact fun p hle hoccurs => hspec p ((hiff p).mpr ⟨hoccurs, hle⟩)
      | some i =>
        rw [hfound] at hspec
        obtain ⟨hoccurs, hle⟩ := (hiff i).mp hspec.1
        refine ⟨hle, hoccurs, fun p hlt hle hoccurs => ?_⟩
        exact hspec.2 p hlt ((hiff p).mpr ⟨hoccurs, hle⟩)

/-! ## Searches for characters -/

omit [DecidableEq CharT] in
/-- Nothing is one of no characters, and no characters are one of anything. -/
theorem not_isOneOf_of_or (h : self.size = 0 ∨ s.size = 0) (p : Nat) : ¬IsOneOf self s p := by
  rcases h with hself | hs
  · exact not_of_size hself (fun p => not_isOneOf_of_le) p
  · exact not_isOneOf_of_empty hs p

omit [DecidableEq CharT] in
theorem empty_or_iff : (self.empty || s.empty) = true ↔ self.size = 0 ∨ s.size = 0 := by
  simp [empty]

theorem constantFindFirstOf_isFirst (self s : StringPiece CharT) (pos : Nat) :
    ∃ r, ConstantEvaluated.findFirstOf self s pos = some (index r) ∧
      IsFirst (IsOneOf self s) pos r := by
  apply scanUp_unless
  · intro hempty
    exact not_isOneOf_of_or (empty_or_iff.mp hempty)
  · intro p hp
    exact decides_charIn hp
  · intro p hp
    exact not_isOneOf_of_le hp

theorem constantFindLastOf_isLast (self s : StringPiece CharT) (pos : Nat) :
    ∃ r, ConstantEvaluated.findLastOf self s pos = some (index r) ∧
      IsLast (IsOneOf self s) pos r := by
  apply scanDown_unless
  · intro hempty
    exact not_isOneOf_of_or (empty_or_iff.mp hempty)
  · intro hempty hself
    exact hempty (empty_or_iff.mpr (.inl hself))
  · intro p hp
    exact decides_charIn hp
  · intro p hp
    exact not_isOneOf_of_le hp

theorem constantFindFirstNotOf_isFirst (self s : StringPiece CharT) (pos : Nat) :
    ∃ r, ConstantEvaluated.findFirstNotOf self s pos = some (index r) ∧
      IsFirst (IsNoneOf self s) pos r := by
  apply scanUp_unless
  · intro hempty
    exact not_of_size (beq_iff_eq.mp hempty) fun p => not_isNoneOf_of_le
  · intro p hp
    exact decides_isNoneOf (decides_charIn hp) hp
  · intro p hp
    exact not_isNoneOf_of_le hp

theorem constantFindLastNotOf_isLast (self s : StringPiece CharT) (pos : Nat) :
    ∃ r, ConstantEvaluated.findLastNotOf self s pos = some (index r) ∧
      IsLast (IsNoneOf self s) pos r := by
  apply scanDown_unless
  · intro hempty
    exact not_of_size (beq_iff_eq.mp hempty) fun p => not_isNoneOf_of_le
  · intro hempty hself
    exact hempty (beq_iff_eq.mpr hself)
  · intro p hp
    exact decides_isNoneOf (decides_charIn hp) hp
  · intro p hp
    exact not_isNoneOf_of_le hp

/-- Behind the test for a single character both searches of the generic version are the same. -/
theorem genericFindFirstOf_eq (hpos : pos ≤ self.size) : Generic.findFirstOf self s pos =
    some (if (self.data.drop pos).findIdx (· ∈ s.data) = (self.data.drop pos).length then npos
      else pos + (self.data.drop pos).findIdx (· ∈ s.data)) := by
  rw [Generic.findFirstOf, fromPos, if_pos hpos, Option.bind_some]
  by_cases hone : s.size = 1
  · obtain ⟨ch, hch, hdata⟩ := at_zero_of_size_one hone
    rw [if_pos hone, hch, hdata]
    simp only [Option.map_some, List.mem_singleton]
  · rw [if_neg hone, Option.map_some]

theorem genericFindFirstOf_isFirst (hpos : pos ≤ self.size) :
    ∃ r, Generic.findFirstOf self s pos = some (index r) ∧ IsFirst (IsOneOf self s) pos r := by
  rw [genericFindFirstOf_eq hpos]
  have hiff : ∀ p, pos ≤ p → (IsOneOf self s p ↔
      ∃ ch, (self.data.drop pos)[p - pos]? = some ch ∧ ch ∈ s.data) := by
    intro p hle
    rw [List.getElem?_drop, Nat.add_sub_cancel' hle]
    rfl
  have hbefore : ∀ p, pos ≤ p → p < pos + (self.data.drop pos).findIdx (· ∈ s.data) →
      ¬IsOneOf self s p := by
    intro p hle hlt hone
    obtain ⟨ch, hch, hmem⟩ := (hiff p hle).mp hone
    obtain ⟨hp, rfl⟩ := List.getElem?_eq_some_iff.mp hch
    have hj : p - pos < (self.data.drop pos).findIdx (· ∈ s.data) := by omega
    exact of_decide_eq_false (List.not_of_lt_findIdx hj) hmem
  by_cases hend : (self.data.drop pos).findIdx (· ∈ s.data) = (self.data.drop pos).length
  · rw [if_pos hend]
    refine ⟨none, rfl, fun p hle hone => ?_⟩
    obtain ⟨ch, hch, -⟩ := (hiff p hle).mp hone
    have hp := (List.getElem?_eq_some_iff.mp hch).1
    exact hbefore p hle (by omega) hone
  · rw [if_neg hend]
    have hlt := Nat.lt_of_le_of_ne List.findIdx_le_length hend
    refine ⟨some _, rfl, Nat.le_add_right pos _, ?_, hbefore⟩
    rw [hiff _ (Nat.le_add_right pos _), Nat.add_sub_cancel_left]
    refine ⟨_, List.getElem?_eq_getElem hlt, ?_⟩
    exact of_decide_eq_true (List.findIdx_getElem (w := hlt))

theorem genericFindFirstNotOf_isFirst (self s : StringPiece CharT) (pos : Nat) :
    ∃ r, Generic.findFirstNotOf self s pos = some (index r) ∧
      IsFirst (IsNoneOf self s) pos r := by
  apply scanUp_unless
  · intro hself
    exact not_of_size hself fun p => not_isNoneOf_of_le
  · intro p hp
    exact decides_isNoneOf (decides_foundIn hp) hp
  · intro p hp
    exact not_isNoneOf_of_le hp

theorem genericFindLastOf_isLast (self s : StringPiece CharT) (pos : Nat) :
    ∃ r, Generic.findLastOf self s pos = some (index r) ∧ IsLast (IsOneOf self s) pos r := by
  apply scanDown_unless
  · intro hself
    exact not_of_size hself fun p => not_isOneOf_of_le
  · exact id
  · intro p hp
    exact decides_foundIn hp
  · intro p hp
    exact not_isOneOf_of_le hp

theorem genericFindLastNotOf_isLast (self s : StringPiece CharT) (pos : Nat) :
    ∃ r, Generic.findLastNotOf self s pos = some (index r) ∧ IsLast (IsNoneOf self s) pos r := by
  apply scanDown_unless
  · intro hself
    exact not_of_size hself fun p => not_isNoneOf_of_le
  · exact id
  · intro p hp
    exact decides_isNoneOf (decides_foundIn hp) hp
  · intro p hp
    exact not_isNoneOf_of_le hp

/-! ## Searches with a lookup table -/

section EightBit

variable {self s : StringPiece UInt8}

theorem eightBitFindFirstOf_isFirst (self s : StringPiece UInt8) (pos : Nat) :
    ∃ r, EightBit.findFirstOf self s pos = some (index r) ∧ IsFirst (IsOneOf self s) pos r := by
  unfold EightBit.findFirstOf
  by_cases hempty : self.size = 0 ∨ s.size = 0
  · rw [if_pos hempty]
    exact ⟨none, rfl, fun p _ => not_isOneOf_of_or hempty p⟩
  · rw [if_neg hempty]
    by_cases hone : s.size = 1
    · obtain ⟨ch, hch, hdata⟩ := at_zero_of_size_one hone
      rw [if_pos hone, hch, Option.bind_some]
      exact findChar_isFirst self hdata pos
    · rw [if_neg hone]
      exact scanUp_size (fun p hp => decides_lookupAt hp) (fun p => not_isOneOf_of_le) pos

theorem eightBitFindLastOf_isLast (self s : StringPiece UInt8) (pos : Nat) :
    ∃ r, EightBit.findLastOf self s pos = some (index r) ∧ IsLast (IsOneOf self s) pos r := by
  unfold EightBit.findLastOf
  by_cases hempty : self.size = 0 ∨ s.size = 0
  · rw [if_pos hempty]
    exact ⟨none, rfl, fun p _ => not_isOneOf_of_or hempty p⟩
  · have hself : self.size ≠ 0 := fun h => hempty (.inl h)
    rw [if_neg hempty]
    by_cases hone : s.size = 1
    · obtain ⟨ch, hch, hdata⟩ := at_zero_of_size_one hone
      have hne : ¬self.empty = true := fun h => hself (beq_iff_eq.mp h)
      rw [if_pos hone, hch, Option.bind_some, rfindChar, if_neg hne]
      exact scanDown_size hself (fun p hp => decides_eq hdata hp) (fun p => not_isOneOf_of_le) pos
    · rw [if_neg hone]
      exact scanDown_size hself (fun p hp => decides_lookupAt hp) (fun p => not_isOneOf_of_le) pos

theorem isNoneOf_of_empty (hs : s.size = 0) {p : Nat} (hp : p < self.size) : IsNoneOf self s p :=
  (not_isOneOf_iff hp).mp (not_isOneOf_of_empty hs p)

theorem eightBitFindFirstNotOf_isFirst (self s : StringPiece UInt8) (pos : Nat) :
    ∃ r, EightBit.findFirstNotOf self s pos = some (index r) ∧
      IsFirst (IsNoneOf self s) pos r := by
  unfold EightBit.findFirstNotOf
  by_cases hpos : pos ≥ self.size
  · rw [if_pos hpos]
    exact ⟨none, rfl, fun p hle => not_isNoneOf_of_le (Nat.le_trans hpos hle)⟩
  · have hlt : pos < self.size := Nat.lt_of_not_ge hpos
    rw [if_neg hpos]
    by_cases hempty : s.size = 0
    · rw [if_pos hempty]
      refine ⟨some pos, rfl, Nat.le_refl pos, isNoneOf_of_empty hempty hlt, ?_⟩
      intro p hle hp
      omega
    · rw [if_neg hempty]
      by_cases hone : s.size = 1
      · obtain ⟨ch, hch, hdata⟩ := at_zero_of_size_one hone
        have hne : ¬self.empty = true := fun h => Nat.not_lt_zero pos (beq_iff_eq.mp h ▸ hlt)
        rw [if_pos hone, hch, Option.bind_some, findFirstNotOfChar, if_neg hne]
        exact scanUp_size (fun p hp => decides_ne hdata hp) (fun p => not_isNoneOf_of_le) pos
      · rw [if_neg hone]
        exact scanUp_size (fun p hp => decides_isNoneOf (decides_lookupAt hp) hp)
          (fun p => not_isNoneOf_of_le) pos

theorem eightBitFindLastNotOf_isLast (self s : StringPiece UInt8) (pos : Nat) :
    ∃ r, EightBit.findLastNotOf self s pos = some (index r) ∧
      IsLast (IsNoneOf self s) pos r := by
  unfold EightBit.findLastNotOf
  by_cases hself : self.size = 0
  · rw [if_pos hself]
    exact ⟨none, rfl, fun p _ => not_of_size hself (fun p => not_isNoneOf_of_le) p⟩
  · rw [if_neg hself]
    dsimp only
    by_cases hempty : s.size = 0
    · rw [if_pos hempty]
      refine ⟨some (min pos (self.size - 1)), rfl, Nat.min_le_left _ _,
        isNoneOf_of_empty hempty (by omega), ?_⟩
      intro p hlt hle
      exact not_isNoneOf_of_le (by omega)
    · rw [if_neg hempty]
      by_cases hone : s.size = 1
      · obtain ⟨ch, hch, hdata⟩ := at_zero_of_size_one hone
        have hne : ¬self.empty = true := fun h => hself (beq_iff_eq.mp h)
        rw [if_pos hone, hch, Option.bind_some, findLastNotOfChar, if_neg hne]
        exact scanDown_size hself (fun p hp => decides_ne hdata hp)
          (fun p => not_isNoneOf_of_le) pos
      · rw [if_neg hone]
        exact scanDown_size hself (fun p hp => decides_isNoneOf (decides_lookupAt hp) hp)
          (fun p => not_isNoneOf_of_le) pos

end EightBit

end Sparo.Base.StringPiece
