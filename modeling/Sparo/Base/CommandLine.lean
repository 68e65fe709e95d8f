import Sparo.Misc.StepSystem
import Mathlib.Logic.Function.Basic

/-!
# `base::CommandLine`

The command line of `src/base/command_line.cc` in its POSIX build: the normal form of an argument
vector, the map of its switches and the divider between switches and arguments. `insert` and the
iterator arithmetic on `argv_` are undefined behind its end, so the operations that use the divider
are partial: their result is `none` where they form an invalid iterator. So is a call that reads a
view of the object's own after it has changed what the view shows.
-/

namespace Sparo.Base

open StepSystem

/-- `CommandLine::StringType`, a `std::string`, as its bytes. -/
abbrev StringType := List UInt8

/-- The byte `-`. -/
def hyphen : UInt8 := 0x2D

/-- `kSwitchTerminator`, the string `--`. -/
def kSwitchTerminator : StringType := [hyphen, hyphen]

/-- `kSwitchValueSeparator`, the byte `=`. -/
def kSwitchValueSeparator : UInt8 := 0x3D

/-- `kSwitchPrefixes` of the POSIX build: `--` and `-`. -/
def kSwitchPrefixes : List StringType := [[hyphen, hyphen], [hyphen]]

/-- `GetSwitchPrefixLength` (`command_line.cc:70-77`): the first prefix that matches. -/
def getSwitchPrefixLength (string : StringType) : Nat :=
  match kSwitchPrefixes.find? fun pre => string.take pre.length = pre with
  | some pre => pre.length
  | none => 0

/-- `string.find(kSwitchValueSeparator)`, with `none` for `npos`. -/
def equalsPosition (string : StringType) : Option Nat :=
  string.findIdx? (· = kSwitchValueSeparator)

/-- `IsSwitch` (`command_line.cc:81-95`): the switch string, its prefix included, and the value. -/
def isSwitch (string : StringType) : Option (StringType × StringType) :=
  if getSwitchPrefixLength string = 0 ∨ getSwitchPrefixLength string = string.length then none
  else
    match equalsPosition string with
    | none => some (string, [])
    | some equals => some (string.take equals, string.drop (equals + 1))

/-- `IsSwitchWithKey` (`command_line.cc:99-108`). -/
def isSwitchWithKey (string switchKeyWithoutPrefix : StringType) : Bool :=
  let prefixLength := getSwitchPrefixLength string
  if prefixLength = 0 ∨ prefixLength = string.length then false
  else
    match equalsPosition string with
    | none => string.drop prefixLength = switchKeyWithoutPrefix
    | some equals =>
      (string.drop prefixLength).take (equals - prefixLength) = switchKeyWithoutPrefix

/-- `CommandLine::SwitchMap`. -/
abbrev SwitchMap := StringType → Option StringType

/-- `CommandLine`. -/
structure CommandLine where
  /-- `{ program, [(--|-)switch[=value]]*, [--], [argument]* }`. -/
  argv : List StringType
  switches : SwitchMap
  /-- The index after the program and switches. -/
  beginArgs : Nat

namespace CommandLine

/-- `CommandLine(NO_PROGRAM)`. -/
def noProgram : CommandLine := { argv := [[]], switches := fun _ => none, beginArgs := 1 }

/-- The string that `AppendSwitchNative` puts into `argv_`. -/
def combinedSwitchString (switchString value : StringType) : StringType :=
  let combined :=
    if getSwitchPrefixLength switchString = 0 then kSwitchTerminator ++ switchString
    else switchString
  if value.isEmpty then combined else combined ++ kSwitchValueSeparator :: value

/-- `AppendSwitchNative` (`command_line.cc:294-321`) for a value that the object does not own. -/
def appendSwitchNative (c : CommandLine) (switchString value : StringType) : Option CommandLine :=
  let key := switchString.drop (getSwitchPrefixLength switchString)
  if c.argv.length < c.beginArgs then none
  else some {
    argv := c.argv.insertIdx c.beginArgs (combinedSwitchString switchString value)
    switches := Function.update c.switches key (some value)
    beginArgs := c.beginArgs + 1 }

/-- `AppendSwitch`. -/
def appendSwitch (c : CommandLine) (switchString : StringType) : Option CommandLine :=
  c.appendSwitchNative switchString []

/-- The value that a caller passes to `AppendSwitchNative`: a text of its own, or a view of a part
of what `GetSwitches()` of this object has under a key. -/
inductive ValuePiece where
  | text (string : StringType)
  | ofSwitches (key : StringType) (start length : Nat)
  deriving DecidableEq, Repr

/-- The text that the view shows. -/
def ValuePiece.read (c : CommandLine) : ValuePiece → StringType
  | text string => string
  | ofSwitches key start length => (((c.switches key).getD []).drop start).take length

/-- The view is of the map entry that `AppendSwitchNative` assigns. -/
def ValuePiece.IsOf (switchString : StringType) : ValuePiece → Prop
  | text _ => False
  | ofSwitches key _ _ => key = switchString.drop (getSwitchPrefixLength switchString)

instance (switchString : StringType) : DecidablePred (ValuePiece.IsOf switchString)
  | .text _ => isFalse id
  | .ofSwitches .. => inferInstanceAs (Decidable (_ = _))

/-- `AppendSwitchNative` for such a value. A value that is not empty is read again for `argv_`,
after `switches_[key]` has been assigned; a view of that entry then shows characters that are
gone. -/
def appendSwitchNativePiece (c : CommandLine) (switchString : StringType) (value : ValuePiece) :
    Option CommandLine :=
  if value.IsOf switchString ∧ value.read c ≠ [] then none
  else c.appendSwitchNative switchString (value.read c)

/-- `AppendSwitchASCII`. -/
def appendSwitchASCII (c : CommandLine) (switchString : StringType) (value : ValuePiece) :
    Option CommandLine :=
  c.appendSwitchNativePiece switchString value

/-- `AppendArgNative`; `AppendArg` does the same. -/
def appendArgNative (c : CommandLine) (value : StringType) : CommandLine :=
  { c with argv := c.argv ++ [value] }

/-- The loop of `AppendSwitchesAndArguments` (`command_line.cc:444-478`) over the elements that
are left. -/
def appendTokens (parseSwitches : Bool) : List StringType → CommandLine → Option CommandLine
  | [], c => some c
  | arg :: args, c =>
    let parseSwitches := parseSwitches && arg ≠ kSwitchTerminator
    match if parseSwitches then isSwitch arg else none with
    | some (switchString, switchValue) =>
      (c.appendSwitchNative switchString switchValue).bind (appendTokens parseSwitches args)
    | none => appendTokens parseSwitches args (c.appendArgNative arg)

/-- `AppendSwitchesAndArguments`: the program is skipped. -/
def appendSwitchesAndArguments (c : CommandLine) (argv : List StringType) : Option CommandLine :=
  appendTokens true argv.tail c

/-- `InitFromArgv`, in both its forms (`command_line.cc:250-262`). -/
def initFromArgv (c : CommandLine) (argv : List StringType) : Option CommandLine :=
  appendSwitchesAndArguments { c with argv := [[]], switches := fun _ => none } argv

/-- `InitFromArgv(argv())`: the vector has been replaced by `StringVector(1)` before its elements
are appended. -/
def initFromOwnArgv (c : CommandLine) : Option CommandLine :=
  appendSwitchesAndArguments { c with argv := [[]], switches := fun _ => none } [[]]

/-- `CommandLine(argv)` and `CommandLine(argc, argv)`. -/
def ofArgv (argv : List StringType) : Option CommandLine :=
  initFromArgv noProgram argv

/-- `HasSwitch`; the result of its `ToLowerASCII` is dropped. -/
def hasSwitch (c : CommandLine) (switchString : StringType) : Bool :=
  (c.switches switchString).isSome

/-- `GetSwitchValueNative`. -/
def getSwitchValueNative (c : CommandLine) (switchString : StringType) : StringType :=
  (c.switches switchString).getD []

/-- `RemoveSwitch` (`command_line.cc:335-364`). The switches in `argv_` are `[1, begin_args_)`. -/
def removeSwitch (c : CommandLine) (key : StringType) : Option CommandLine :=
  if c.switches key = none then some c
  else if c.beginArgs < 1 ∨ c.argv.length < c.beginArgs then none
  else
    let argvSwitches := (c.argv.take c.beginArgs).drop 1
    let kept := argvSwitches.filter fun arg => !isSwitchWithKey arg key
    some {
      argv := c.argv.take 1 ++ kept ++ c.argv.drop c.beginArgs
      switches := Function.update c.switches key none
      beginArgs := c.beginArgs - (argvSwitches.length - kept.length) }

/-- `CopySwitchesFrom` (`command_line.cc:366-373`). The source may be the object itself, and is
then read as the loop has left it. -/
def copySwitchesFrom (source : CommandLine → CommandLine) :
    List StringType → CommandLine → Option CommandLine
  | [], c => some c
  | name :: names, c =>
    if (source c).hasSwitch name then
      (c.appendSwitchNative name ((source c).getSwitchValueNative name)).bind
        (copySwitchesFrom source names)
    else copySwitchesFrom source names c

/-- `GetArgs` (`command_line.cc:375-384`). -/
def getArgs (c : CommandLine) : Option (List StringType) :=
  if c.argv.length < c.beginArgs then none
  else some ((c.argv.drop c.beginArgs).erase kSwitchTerminator)

/-- The divider lies behind the program and not behind the end. -/
def DividerValid (c : CommandLine) : Prop := 1 ≤ c.beginArgs ∧ c.beginArgs ≤ c.argv.length

instance (c : CommandLine) : Decidable c.DividerValid := inferInstanceAs (Decidable (_ ∧ _))

end CommandLine

/-- The command lines of a program, and whether an operation on one was undefined. -/
structure CommandLines where
  objects : List CommandLine := []
  undefined : Bool := false

namespace CommandLines

/-- The public operations; `i` is the object they are called on. -/
inductive Act where
  | noProgram
  | ofArgv (argv : List StringType)
  /-- The copy constructor. -/
  | copy (other : Nat)
  | assign (i other : Nat)
  /-- With a vector that is not the one of the object. -/
  | initFromArgv (i : Nat) (argv : List StringType)
  /-- With the object's own `argv()`. -/
  | initFromOwnArgv (i : Nat)
  | appendSwitch (i : Nat) (switchString : StringType)
  | appendSwitchNative (i : Nat) (switchString : StringType) (value : CommandLine.ValuePiece)
  | appendSwitchASCII (i : Nat) (switchString : StringType) (value : CommandLine.ValuePiece)
  /-- `AppendArg` and `AppendArgNative`. -/
  | appendArg (i : Nat) (value : StringType)
  | appendArguments (i other : Nat)
  | copySwitchesFrom (i source : Nat) (names : List StringType)
  | removeSwitch (i : Nat) (key : StringType)
  deriving DecidableEq, Repr

/-- A new object. -/
def push (s : CommandLines) : Option CommandLine → CommandLines
  | some c => { s with objects := s.objects ++ [c] }
  | none => { s with undefined := true }

/-- A new value of object `i`. -/
def store (s : CommandLines) (i : Nat) : Option CommandLine → CommandLines
  | some c => { s with objects := s.objects.set i c }
  | none => { s with undefined := true }

/-- `AppendArguments(other, include_program)`. The loop of an object over its own `argv_` appends
an element in each turn and does not end, unless there is nothing to append. -/
def appendArguments (i other : Nat) (c d : CommandLine) : Option (Option CommandLine) :=
  if i = other ∧ 1 < d.argv.length then none else some (c.appendSwitchesAndArguments d.argv)

/-- One operation. Nothing is called after an undefined one. -/
def step (s : CommandLines) (a : Act) : Option CommandLines :=
  if s.undefined then none
  else
    match a with
    | .noProgram => some (s.push (some .noProgram))
    | .ofArgv argv => some (s.push (CommandLine.ofArgv argv))
    | .copy other => s.objects[other]?.map fun c => s.push (some c)
    | .assign i other => s.objects[i]?.bind fun _ => s.objects[other]?.map fun d =>
        s.store i (some d)
    | .initFromArgv i argv => s.objects[i]?.map fun c => s.store i (c.initFromArgv argv)
    | .initFromOwnArgv i => s.objects[i]?.map fun c => s.store i c.initFromOwnArgv
    | .appendSwitch i switchString => s.objects[i]?.map fun c =>
        s.store i (c.appendSwitch switchString)
    | .appendSwitchNative i switchString value => s.objects[i]?.map fun c =>
        s.store i (c.appendSwitchNativePiece switchString value)
    | .appendSwitchASCII i switchString value => s.objects[i]?.map fun c =>
        s.store i (c.appendSwitchASCII switchString value)
    | .appendArg i value => s.objects[i]?.map fun c => s.store i (some (c.appendArgNative value))
    | .appendArguments i other => s.objects[i]?.bind fun c => s.objects[other]?.bind fun d =>
        (appendArguments i other c d).map (s.store i)
    | .copySwitchesFrom i source names => s.objects[i]?.bind fun c =>
        s.objects[source]?.map fun d =>
          s.store i (c.copySwitchesFrom (fun self => if i = source then self else d) names)
    | .removeSwitch i key => s.objects[i]?.map fun c => s.store i (c.removeSwitch key)

end CommandLines

end Sparo.Base
