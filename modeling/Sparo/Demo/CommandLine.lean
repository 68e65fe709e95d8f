import Mathlib.Logic.Function.Basic

/-!
# The command line of the demos

`CommandLine` of `src/demo/command_line.cc` in its POSIX build. A program builds the command line
of its child on its own one: it parses what it was started with, appends switches, and starts the
child with `GetArgs()`.
-/

namespace Sparo.Demo

/-- `CommandLine::StringType`, a `std::string`, as its bytes. -/
abbrev StringType := List UInt8

/-- `CommandLine::SwitchMap`. -/
abbrev SwitchMap := StringType → Option StringType

/-- The byte `-`. -/
def hyphen : UInt8 := 0x2D

/-- `kSwitchPrefixes`: `--` and `-`. -/
def kSwitchPrefixes : List StringType := [[hyphen, hyphen], [hyphen]]

/-- `kSwitchTerminator`, the string `--`. -/
def kSwitchTerminator : StringType := [hyphen, hyphen]

/-- `kSwitchValueSeparator`, the byte `=`. -/
def kSwitchValueSeparator : UInt8 := 0x3D

/-- `isdigit`, `isupper` and `islower` of the C locale. -/
def isDigit (c : UInt8) : Bool := 0x30 ≤ c && c ≤ 0x39

@[inherit_doc isDigit]
def isUpper (c : UInt8) : Bool := 0x41 ≤ c && c ≤ 0x5A

@[inherit_doc isDigit]
def isLower (c : UInt8) : Bool := 0x61 ≤ c && c ≤ 0x7A

/-- `isalnum` of the C locale. -/
def isalnum (c : UInt8) : Bool := isDigit c || isUpper c || isLower c

/-- `tolower` of the C locale. -/
def tolower (c : UInt8) : UInt8 := if isUpper c then c + 0x20 else c

/-- The string behind a `const char*`: it ends at the first NUL. -/
def cString (string : StringType) : StringType := string.takeWhile (· ≠ 0)

/-- The name and the value of a switch without its prefix (`command_line.cc:40-71`). Without a
`=` the value starts at the first byte that is not alphanumeric, and includes it. -/
def splitSwitch (body : StringType) : StringType × StringType :=
  match body.findIdx? (· = kSwitchValueSeparator) with
  | some equals => ((body.take equals).map tolower, body.drop (equals + 1))
  | none =>
    match body.findIdx? (!isalnum ·) with
    | some switchEnd => ((body.take switchEnd).map tolower, body.drop switchEnd)
    | none => (body.map tolower, [])

/-- `IsSwitch` (`command_line.cc:25-77`): the first prefix that the string starts with and is
not. -/
def isSwitch (string : StringType) : Option (StringType × StringType) :=
  (kSwitchPrefixes.find? fun pre => pre.isPrefixOf string && string ≠ pre).map fun pre =>
    splitSwitch (string.drop pre.length)

/-- `CommandLine`. -/
structure CommandLine where
  argv : List StringType
  switches : SwitchMap

namespace CommandLine

/-- The loop of the constructor (`command_line.cc:134-165`) over the elements that are left. A
switch without a value takes the next element for its value unless that is a switch too. -/
def parseSwitches : List StringType → SwitchMap → SwitchMap
  | [], switches => switches
  | [arg], switches =>
    if arg = kSwitchTerminator then switches
    else
      match isSwitch arg with
      | none => switches
      | some (name, value) => Function.update switches name (some value)
  | arg :: next :: rest, switches =>
    if arg = kSwitchTerminator then switches
    else
      match isSwitch arg with
      | none => switches
      | some (name, value) =>
        if value.isEmpty && (isSwitch next).isNone then
          parseSwitches rest (Function.update switches name (some next))
        else parseSwitches (next :: rest) (Function.update switches name (some value))

/-- `CommandLine(argc, argv)`. The elements are C strings. -/
def ofArgv (argv : List StringType) : CommandLine :=
  let argv := if argv.isEmpty then [[]] else argv.map cString
  { argv, switches := parseSwitches argv.tail fun _ => none }

/-- `CommandLine(const StringVector& argv)`, which goes through the other constructor. -/
def ofStringVector (argv : List StringType) : CommandLine :=
  ofArgv (if argv.isEmpty then [[]] else argv)

/-- `HasSwitch`. -/
def hasSwitch (c : CommandLine) (switchString : StringType) : Bool :=
  (c.switches switchString).isSome

/-- `GetSwitchValue`. -/
def getSwitchValue (c : CommandLine) (switchString : StringType) : StringType :=
  (c.switches switchString).getD []

/-- `GetArgs`. -/
def getArgs (c : CommandLine) : List StringType := c.argv

/-- The element that `AppendSwitch` adds. -/
def switchWithPrefix (switchString value : StringType) : StringType :=
  let lowerSwitch := switchString.map tolower
  kSwitchTerminator ++ lowerSwitch ++ if value.isEmpty then [] else kSwitchValueSeparator :: value

/-- `AppendSwitch(switch_string, value)` (`command_line.cc:242-262`); the form without a value
passes the empty string. -/
def appendSwitch (c : CommandLine) (switchString value : StringType) : CommandLine where
  argv := c.argv ++ [switchWithPrefix switchString value]
  switches := Function.update c.switches (switchString.map tolower) (some value)

/-- A sequence of `AppendSwitch` calls. -/
def appendSwitches (c : CommandLine) (appended : List (StringType × StringType)) : CommandLine :=
  appended.foldl (fun c p => c.appendSwitch p.1 p.2) c

end CommandLine

end Sparo.Demo
