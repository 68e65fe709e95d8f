import Sparo.Misc.LinearScan
import Mathlib.Algebra.Ring.Nat

/-!
# `base::StringPiece`

The searches of `src/base/strings/string_piece.h` and `string_piece.cc`. Each is written three
times: as a loop for constant evaluation, with a lookup table for 8-bit characters, and over the
algorithms of the standard library or with plain loops for all others. A search is `none` where it
forms a pointer outside the piece or reads a character that is not there. `size_t` values are
naturals: the number of characters of a piece is less than `2 ^ 63`, so no sum of two of them wraps.
-/

namespace Sparo.Base

open LinearScan

/-- `BasicStringPiece<CharT>`: the characters from `ptr_` on. -/
structure StringPiece (CharT : Type) where
  data : List CharT
  /-- The characters lie in one object, whose size is a `ptrdiff_t`. -/
  size_lt : data.length < 2 ^ 63

namespace StringPiece

/-- `npos`, which is `size_type(-1)`. -/
def npos : Nat := 2 ^ 64 - 1

/-- A position or `npos`. -/
def index (found : Option Nat) : Nat := found.getD npos

variable {CharT : Type}

def size (self : StringPiece CharT) : Nat := self.data.length

def empty (self : StringPiece CharT) : Bool := self.size == 0

/-- `at`, `operator[]` and `data()[pos]`. -/
def charAt (self : StringPiece CharT) (pos : Nat) : Option CharT := self.data[pos]?

/-- The characters from `begin() + pos` to `end()`; the iterator must not lie behind the end. -/
def fromPos (self : StringPiece CharT) (pos : Nat) : Option (List CharT) :=
  if pos ≤ self.size then some (self.data.drop pos) else none

/-- `substr(pos, count)`. -/
def substr (self : StringPiece CharT) (pos count : Nat) : Option (StringPiece CharT) :=
  if pos ≤ self.size then
    some ⟨(self.data.drop pos).take (min count (self.size - pos)), by
      have hsize := self.size_lt
      rw [List.length_take, List.length_drop]
      omega⟩
  else none

variable [DecidableEq CharT]

/-- `compare(v) == 0`. -/
def compareEqual (self v : StringPiece CharT) : Bool :=
  let rlen := min self.size v.size
  if self.data.take rlen ≠ v.data.take rlen then false else self.size == v.size

/-- `compare(pos1, count1, v) == 0`. -/
def compareEqualAt (self : StringPiece CharT) (pos1 count1 : Nat) (v : StringPiece CharT) :
    Option Bool :=
  (self.substr pos1 count1).map fun piece => piece.compareEqual v

/-! ## Searches for one character -/

/-- `find(ch, pos)`; `traits_type::find` returns null if the character is not in the range. -/
def findChar (self : StringPiece CharT) (ch : CharT) (pos : Nat) : Option Nat :=
  if pos ≥ self.size then some npos
  else (self.fromPos pos).map fun range =>
    index ((range.findIdx? (· = ch)).map (pos + ·))

/-- `rfind(c, pos)`. -/
def rfindChar (self : StringPiece CharT) (c : CharT) (pos : Nat) : Option Nat :=
  if self.empty then some npos
  else (scanDown (fun i => (self.charAt i).map fun d => decide (d = c))
    (min pos (self.size - 1))).map index

/-- `find_first_not_of(c, pos)`. -/
def findFirstNotOfChar (self : StringPiece CharT) (c : CharT) (pos : Nat) : Option Nat :=
  if self.empty then some npos
  else
    (scanUp (fun i => (self.charAt i).map fun d => decide (d ≠ c)) (self.size - pos) pos).map index

/-- `find_last_not_of(c, pos)`. -/
def findLastNotOfChar (self : StringPiece CharT) (c : CharT) (pos : Nat) : Option Nat :=
  if self.empty then some npos
  else (scanDown (fun i => (self.charAt i).map fun d => decide (d ≠ c))
    (min pos (self.size - 1))).map index

/-! ## Constant evaluation (`string_piece.h:265-452`) -/

namespace ConstantEvaluated

/-- `v.find(data()[p]) != npos`. -/
def charIn (self v : StringPiece CharT) (p : Nat) : Option Bool :=
  (self.charAt p).bind fun ch => (v.findChar ch 0).map fun i => decide (i ≠ npos)

def find (self v : StringPiece CharT) (pos : Nat) : Option Nat :=
  if v.size > self.size then some npos
  else (scanUp (fun p => self.compareEqualAt p v.size v) (self.size - v.size + 1 - pos) pos).map
    index

def rfind (self v : StringPiece CharT) (pos : Nat) : Option Nat :=
  if v.size > self.size then some npos
  else (scanDown (fun p => self.compareEqualAt p v.size v) (min (self.size - v.size) pos)).map index

def findFirstOf (self v : StringPiece CharT) (pos : Nat) : Option Nat :=
  if self.empty || v.empty then some npos
  else (scanUp (charIn self v) (self.size - pos) pos).map index

def findLastOf (self v : StringPiece CharT) (pos : Nat) : Option Nat :=
  if self.empty || v.empty then some npos
  else (scanDown (charIn self v) (min pos (self.size - 1))).map index

def findFirstNotOf (self v : StringPiece CharT) (pos : Nat) : Option Nat :=
  if self.empty then some npos
  else (scanUp (fun p => (charIn self v p).map (!·)) (self.size - pos) pos).map index

def findLastNotOf (self v : StringPiece CharT) (pos : Nat) : Option Nat :=
  if self.empty then some npos
  else (scanDown (fun p => (charIn self v p).map (!·)) (min pos (self.size - 1))).map index

end ConstantEvaluated

/-! ## The standard library -/

/-- `std::search`: the first position of `needle`, or the end. -/
def search (needle : List CharT) : List CharT → Nat
  | [] => 0
  | ch :: rest => if needle.isPrefixOf (ch :: rest) then 0 else search needle rest + 1

/-- `std::find_end`: the last position of `needle`, or the end if it is empty or not there. -/
def findEnd (needle : List CharT) : List CharT → Option Nat
  | [] => none
  | ch :: rest => ((findEnd needle rest).map (· + 1)).or
      (if needle.isPrefixOf (ch :: rest) && !needle.isEmpty then some 0 else none)

/-! ## The generic versions (`string_piece.cc:59-275`) -/

namespace Generic

/-- `findT`; `xpos + s.size()` is a sum of two sizes. -/
def find (self s : StringPiece CharT) (pos : Nat) : Option Nat :=
  if pos > self.size then some npos
  else (self.fromPos pos).map fun range =>
    let xpos := pos + search s.data range
    if xpos + s.size ≤ self.size then xpos else npos

/-- `rfindT`. -/
def rfind (self s : StringPiece CharT) (pos : Nat) : Option Nat :=
  if self.size < s.size then some npos
  else if s.empty then some (min self.size pos)
  else
    let last := min (self.size - s.size) pos + s.size
    if last ≤ self.size then some (index (findEnd s.data (self.data.take last))) else none

/-- `find_first_ofT`: the iterator `begin() + pos` is formed whatever `pos` is. -/
def findFirstOf (self s : StringPiece CharT) (pos : Nat) : Option Nat :=
  (self.fromPos pos).bind fun range =>
    (if s.size = 1 then (s.charAt 0).map fun ch => range.findIdx (· = ch)
      else some (range.findIdx (· ∈ s.data))).map fun found =>
        if found = range.length then npos else pos + found

/-- The loop `for (auto c : s)` that compares the character at `i`. -/
def foundIn (self : StringPiece CharT) (i : Nat) : List CharT → Option Bool
  | [] => some false
  | c :: rest => (self.charAt i).bind fun ch => if ch = c then some true else foundIn self i rest

/-- `find_first_not_ofT`. -/
def findFirstNotOf (self s : StringPiece CharT) (pos : Nat) : Option Nat :=
  if self.size = 0 then some npos
  else (scanUp (fun i => (foundIn self i s.data).map (!·)) (self.size - pos) pos).map index

/-- `find_last_ofT`. -/
def findLastOf (self s : StringPiece CharT) (pos : Nat) : Option Nat :=
  if self.size = 0 then some npos
  else (scanDown (fun i => foundIn self i s.data) (min pos (self.size - 1))).map index

/-- `find_last_not_ofT`. -/
def findLastNotOf (self s : StringPiece CharT) (pos : Nat) : Option Nat :=
  if self.size = 0 then some npos
  else (scanDown (fun i => (foundIn self i s.data).map (!·)) (min pos (self.size - 1))).map index

end Generic

/-! ## The versions with a lookup table (`string_piece.cc:101-250`) -/

namespace EightBit

/-- `BuildLookupTable` on a table of `UCHAR_MAX + 1` entries. -/
def buildLookupTable (charactersWanted : List UInt8) : List Bool :=
  charactersWanted.foldl (fun table ch => table.set ch.toNat true) (List.replicate 256 false)

/-- `lookup[static_cast<unsigned char>(self.data()[i])]`. -/
def lookupAt (self : StringPiece UInt8) (lookup : List Bool) (i : Nat) : Option Bool :=
  (self.charAt i).bind fun ch => lookup[ch.toNat]?

/-- `find_first_of`. -/
def findFirstOf (self s : StringPiece UInt8) (pos : Nat) : Option Nat :=
  if self.size = 0 ∨ s.size = 0 then some npos
  else if s.size = 1 then (s.charAt 0).bind fun ch => self.findChar ch pos
  else (scanUp (lookupAt self (buildLookupTable s.data)) (self.size - pos) pos).map index

/-- `find_first_not_of`. -/
def findFirstNotOf (self s : StringPiece UInt8) (pos : Nat) : Option Nat :=
  if pos ≥ self.size then some npos
  else if s.size = 0 then some pos
  else if s.size = 1 then (s.charAt 0).bind fun ch => self.findFirstNotOfChar ch pos
  else (scanUp (fun i => (lookupAt self (buildLookupTable s.data) i).map (!·)) (self.size - pos)
    pos).map index

/-- `find_last_of`. -/
def findLastOf (self s : StringPiece UInt8) (pos : Nat) : Option Nat :=
  if self.size = 0 ∨ s.size = 0 then some npos
  else if s.size = 1 then (s.charAt 0).bind fun ch => self.rfindChar ch pos
  else (scanDown (lookupAt self (buildLookupTable s.data)) (min pos (self.size - 1))).map index

/-- `find_last_not_of`. -/
def findLastNotOf (self s : StringPiece UInt8) (pos : Nat) : Option Nat :=
  if self.size = 0 then some npos
  else
    let i := min pos (self.size - 1)
    if s.size = 0 then some i
    else if s.size = 1 then (s.charAt 0).bind fun ch => self.findLastNotOfChar ch pos
    else (scanDown (fun i => (lookupAt self (buildLookupTable s.data) i).map (!·)) i).map index

end EightBit

end StringPiece

end Sparo.Base
