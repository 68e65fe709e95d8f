import Sparo.Base.Strings.Proofs.StringPieceSearch

/-!
# One answer to every search

The three versions of the six searches side by side. Each search is defined by the position it is
to return, and the loop for constant evaluation returns that position for characters of any type.
So does the version with a lookup table for 8-bit characters, and so do the generic versions, but
for `find_first_of` from a start position behind the end.
-/

namespace Sparo.Base.StringPiece

open LinearScan

/-- The searches with a version for each way to evaluate them. -/
inductive Search where
  | find
  | rfind
  | findFirstOf
  | findLastOf
  | findFirstNotOf
  | findLastNotOf

namespace Search

variable {CharT : Type}

/-- `found` is the position that the search is defined by, or none where there is no such
position. -/
def Right (self s : StringPiece CharT) (pos : Nat) : Search → Option Nat → Prop
  | find => IsFirst (Occurs self s) pos
  | rfind => IsLast (Occurs self s) pos
  | findFirstOf => IsFirst (IsOneOf self s) pos
  | findLastOf => IsLast (IsOneOf self s) pos
  | findFirstNotOf => IsFirst (IsNoneOf self s) pos
  | findLastNotOf => IsLast (IsNoneOf self s) pos

/-- There is one right answer. -/
theorem Right.unique {self s : StringPiece CharT} {pos : Nat} {search : Search}
    {found found' : Option Nat} (h : Right self s pos search found)
    (h' : Right self s pos search found') : found = found' := by
  cases search with
  | find => exact IsFirst.unique h h'
  | rfind => exact IsLast.unique h h'
  | findFirstOf => exact IsFirst.unique h h'
  | findLastOf => exact IsLast.unique h h'
  | findFirstNotOf => exact IsFirst.unique h h'
  | findLastNotOf => exact IsLast.unique h h'

variable [DecidableEq CharT]

/-- The loops for constant evaluation. -/
def constantEvaluated (self s : StringPiece CharT) (pos : Nat) : Search → Option Nat
  | find => ConstantEvaluated.find self s pos
  | rfind => ConstantEvaluated.rfind self s pos
  | findFirstOf => ConstantEvaluated.findFirstOf self s pos
  | findLastOf => ConstantEvaluated.findLastOf self s pos
  | findFirstNotOf => ConstantEvaluated.findFirstNotOf self s pos
  | findLastNotOf => ConstantEvaluated.findLastNotOf self s pos

/-- `internal::find` and the others for 16-bit and wide characters. -/
def generic (self s : StringPiece CharT) (pos : Nat) : Search → Option Nat
  | find => Generic.find self s pos
  | rfind => Generic.rfind self s pos
  | findFirstOf => Generic.findFirstOf self s pos
  | findLastOf => Generic.findLastOf self s pos
  | findFirstNotOf => Generic.findFirstNotOf self s pos
  | findLastNotOf => Generic.findLastNotOf self s pos

/-- `internal::find` and the others for 8-bit characters. -/
def eightBit (self s : StringPiece UInt8) (pos : Nat) : Search → Option Nat
  | find => Generic.find self s pos
  | rfind => Generic.rfind self s pos
  | findFirstOf => EightBit.findFirstOf self s pos
  | findLastOf => EightBit.findLastOf self s pos
  | findFirstNotOf => EightBit.findFirstNotOf self s pos
  | findLastNotOf => EightBit.findLastNotOf self s pos

end Search

open Search

variable {CharT : Type} [DecidableEq CharT] {self s : StringPiece CharT} {pos : Nat}

theorem constantEvaluated_right (self s : StringPiece CharT) (pos : Nat) (search : Search) :
    ∃ r, constantEvaluated self s pos search = some (index r) ∧ Right self s pos search r := by
  cases search with
  | find => exact constantFind_isFirst self s pos
  | rfind => exact constantRfind_isLast self s pos
  | findFirstOf => exact constantFindFirstOf_isFirst self s pos
  | findLastOf => exact constantFindLastOf_isLast self s pos
  | findFirstNotOf => exact constantFindFirstNotOf_isFirst self s pos
  | findLastNotOf => exact constantFindLastNotOf_isLast self s pos

/-- The generic versions of the other searches test the start position. -/
theorem generic_right {search : Search} (h : search = .findFirstOf → pos ≤ self.size) :
    ∃ r, generic self s pos search = some (index r) ∧ Right self s pos search r := by
  cases search with
  | find => exact genericFind_isFirst self s pos
  | rfind => exact genericRfind_isLast self s pos
  | findFirstOf => exact genericFindFirstOf_isFirst (h rfl)
  | findLastOf => exact genericFindLastOf_isLast self s pos
  | findFirstNotOf => exact genericFindFirstNotOf_isFirst self s pos
  | findLastNotOf => exact genericFindLastNotOf_isLast self s pos

theorem eightBit_right (self s : StringPiece UInt8) (pos : Nat) (search : Search) :
    ∃ r, eightBit self s pos search = some (index r) ∧ Right self s pos search r := by
  cases search with
  | find => exact genericFind_isFirst self s pos
  | rfind => exact genericRfind_isLast self s pos
  | findFirstOf => exact eightBitFindFirstOf_isFirst self s pos
  | findLastOf => exact eightBitFindLastOf_isLast self s pos
  | findFirstNotOf => exact eightBitFindFirstNotOf_isFirst self s pos
  | findLastNotOf => exact eightBitFindLastNotOf_isLast self s pos

/-- The iterator to a start position behind the end must not be formed. -/
theorem genericFindFirstOf_undefined (hpos : ¬pos ≤ self.size) :
    Generic.findFirstOf self s pos = none := by
  rw [Generic.findFirstOf, fromPos, if_neg hpos, Option.bind_none]

/-- For each search, characters of any type and any start position, the loop for constant
evaluation returns the position that the search is defined by, and the generic version returns it
too exactly if this is not `find_first_of` from behind the end. The version for 8-bit characters
returns it for each search and any start position. -/
theorem searches_agree_iff (search : Search) (self s : StringPiece CharT)
    (bytes byteSet : StringPiece UInt8) (pos : Nat) :
    (∃ r, Right self s pos search r ∧ constantEvaluated self s pos search = some (index r) ∧
      (generic self s pos search = some (index r) ↔
        (search = .findFirstOf → pos ≤ self.size))) ∧
    ∃ r, Right bytes byteSet pos search r ∧
      constantEvaluated bytes byteSet pos search = some (index r) ∧
      eightBit bytes byteSet pos search = some (index r) := by
  constructor
  · obtain ⟨r, hconstant, hright⟩ := constantEvaluated_right self s pos search
    refine ⟨r, hright, hconstant, ?_, ?_⟩
    · rintro hgeneric rfl
      by_contra hpos
      rw [generic, genericFindFirstOf_undefined hpos] at hgeneric
      cases hgeneric
    · intro h
      obtain ⟨r', hgeneric, hright'⟩ := generic_right (s := s) h
      rw [hgeneric, hright.unique hright']
  · obtain ⟨r, hconstant, hright⟩ := constantEvaluated_right bytes byteSet pos search
    obtain ⟨r', height, hright'⟩ := eightBit_right bytes byteSet pos search
    obtain rfl := hright.unique hright'
    exact ⟨r, hright, hconstant, height⟩

/-- `find_first_of(u"ab", 1)` on an empty piece: the loop for constant evaluation returns `npos`,
and the version for 16-bit characters forms an iterator behind the end. -/
theorem searches_disagree_behind_end :
    ∃ self s : StringPiece UInt16, self.data = [] ∧ s.data = [0x61, 0x62] ∧
      constantEvaluated self s 1 .findFirstOf = some npos ∧
      generic self s 1 .findFirstOf = none ∧
      ¬∃ r, Right self s 1 .findFirstOf r ∧
        constantEvaluated self s 1 .findFirstOf = some (index r) ∧
        generic self s 1 .findFirstOf = some (index r) := by
  refine ⟨⟨[], by decide⟩, ⟨[0x61, 0x62], by decide⟩, rfl, rfl, rfl, rfl, ?_⟩
  rintro ⟨r, -, -, hgeneric⟩
  cases hgeneric

end Sparo.Base.StringPiece
