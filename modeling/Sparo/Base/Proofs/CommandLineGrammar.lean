import Sparo.Base.CommandLine
import Mathlib.Data.List.TakeWhile

/-!
# The grammar of the command line

What the header of `command_line.h` says of the elements of an argument vector, and that the
parser takes them so. Both matches of the prefix, in `IsSwitch` and on the truncated switch string
in `AppendSwitchNative`, find the same prefix.
-/

namespace Sparo.Base

/-- The length of the longest prefix, `--` or `-`, that the token starts with. -/
def prefixLength (token : StringType) : Nat :=
  if kSwitchTerminator.isPrefixOf token then 2 else if [hyphen].isPrefixOf token then 1 else 0

/-- The token starts with a prefix and is longer than it. -/
def isSwitchToken (token : StringType) : Bool :=
  0 < prefixLength token && prefixLength token < token.length

/-- The text before the first `=`. -/
def beforeSeparator (token : StringType) : StringType :=
  token.takeWhile (· ≠ kSwitchValueSeparator)

/-- The text between the prefix and the first `=`. -/
def tokenKey (token : StringType) : StringType := beforeSeparator (token.drop (prefixLength token))

/-- The text after the first `=`, empty if there is none. -/
def tokenValue (token : StringType) : StringType :=
  (token.dropWhile (· ≠ kSwitchValueSeparator)).drop 1

/-- The elements after the program and before the first `--`. -/
def beforeTerminator (argv : List StringType) : List StringType :=
  argv.tail.takeWhile (· ≠ kSwitchTerminator)

/-- The elements from the first `--` on. -/
def fromTerminator (argv : List StringType) : List StringType :=
  argv.tail.dropWhile (· ≠ kSwitchTerminator)

/-- Of several values of one key the last one stays. -/
def insertSwitch (switches : SwitchMap) (token : StringType) : SwitchMap :=
  Function.update switches (tokenKey token) (some (tokenValue token))

/-- A switch as it is written into `argv_`: without the `=` of an empty value. -/
def normalToken (token : StringType) : StringType :=
  if (tokenValue token).isEmpty then beforeSeparator token
  else beforeSeparator token ++ kSwitchValueSeparator :: tokenValue token

variable {token : StringType}

theorem getSwitchPrefixLength_eq (token : StringType) :
    getSwitchPrefixLength token = prefixLength token := by
  match token with
  | [] => rfl
  | [a] =>
    by_cases ha : a = hyphen <;>
      simp [getSwitchPrefixLength, prefixLength, kSwitchPrefixes, kSwitchTerminator, ha,
        eq_comm (a := hyphen)]
  | a :: b :: rest =>
    by_cases ha : a = hyphen <;> by_cases hb : b = hyphen <;>
      simp [getSwitchPrefixLength, prefixLength, kSwitchPrefixes, kSwitchTerminator, ha, hb,
        eq_comm (a := hyphen)]

/-- A switch is a prefix with a text behind it; after the short prefix this text does not start
with another hyphen. -/
theorem isSwitchToken_iff : isSwitchToken token = true ↔
    (∃ rest, rest ≠ [] ∧ token = hyphen :: hyphen :: rest) ∨
      ∃ b rest, b ≠ hyphen ∧ token = hyphen :: b :: rest := by
  match token with
  | [] => simp [isSwitchToken, prefixLength, kSwitchTerminator]
  | [a] =>
    by_cases ha : a = hyphen <;>
      simp [isSwitchToken, prefixLength, kSwitchTerminator, ha, eq_comm (a := hyphen)]
  | a :: b :: rest =>
    by_cases ha : a = hyphen <;> by_cases hb : b = hyphen <;>
      simp [isSwitchToken, prefixLength, kSwitchTerminator, ha, hb, eq_comm (a := hyphen),
        List.length_pos_iff]

theorem separator_ne_hyphen : hyphen ≠ kSwitchValueSeparator := by decide

@[simp] theorem beforeSeparator_hyphen (rest : StringType) :
    beforeSeparator (hyphen :: rest) = hyphen :: beforeSeparator rest := by
  simp [beforeSeparator, separator_ne_hyphen]

@[simp] theorem prefixLength_long (rest : StringType) :
    prefixLength (hyphen :: hyphen :: rest) = 2 := by
  simp [prefixLength, kSwitchTerminator]

theorem prefixLength_short {rest : StringType} (hrest : rest.head? ≠ some hyphen) :
    prefixLength (hyphen :: rest) = 1 := by
  cases rest with
  | nil => rfl
  | cons b rest =>
    have hb : hyphen ≠ b := by simpa [eq_comm] using hrest
    simp [prefixLength, kSwitchTerminator, hb]

theorem beforeSeparator_head_ne {b : UInt8} (hb : b ≠ hyphen) (rest : StringType) :
    (beforeSeparator (b :: rest)).head? ≠ some hyphen := by
  unfold beforeSeparator
  rw [List.takeWhile_cons]
  split
  · simpa using hb
  · simp

/-- Cutting a switch off at the separator leaves its prefix as it was. -/
theorem prefixLength_beforeSeparator (htoken : isSwitchToken token = true) :
    prefixLength (beforeSeparator token) = prefixLength token := by
  rcases isSwitchToken_iff.mp htoken with ⟨rest, -, rfl⟩ | ⟨b, rest, hb, rfl⟩
  · rw [beforeSeparator_hyphen, beforeSeparator_hyphen, prefixLength_long, prefixLength_long]
  · have hhead : (b :: rest).head? ≠ some hyphen := by simpa using hb
    rw [beforeSeparator_hyphen, prefixLength_short (beforeSeparator_head_ne hb rest),
      prefixLength_short hhead]

/-- The key can be read off before or after the cut. -/
theorem drop_beforeSeparator (htoken : isSwitchToken token = true) :
    (beforeSeparator token).drop (prefixLength token) = tokenKey token := by
  rcases isSwitchToken_iff.mp htoken with ⟨rest, -, rfl⟩ | ⟨b, rest, hb, rfl⟩
  · simp [tokenKey]
  · have hhead : (b :: rest).head? ≠ some hyphen := by simpa using hb
    simp [tokenKey, prefixLength_short hhead]

theorem equalsPosition_eq_none (h : equalsPosition token = none) :
    beforeSeparator token = token ∧ tokenValue token = [] := by
  have hne : ∀ b ∈ token, decide (b ≠ kSwitchValueSeparator) = true := by
    simpa [equalsPosition, List.findIdx?_eq_none_iff] using h
  refine ⟨List.takeWhile_eq_self_iff.mpr hne, ?_⟩
  rw [tokenValue, List.dropWhile_eq_nil_iff.mpr hne, List.drop_nil]

theorem equalsPosition_eq_some {equals : Nat} (h : equalsPosition token = some equals) :
    beforeSeparator token = token.take equals ∧ tokenValue token = token.drop (equals + 1) := by
  have hfind : token.findIdx (fun b => !decide (b ≠ kSwitchValueSeparator)) = equals := by
    simpa using (List.findIdx?_eq_some_iff_findIdx_eq.mp h).2
  constructor
  · rw [beforeSeparator, List.takeWhile_eq_take_findIdx_not, hfind]
  · rw [tokenValue, List.dropWhile_eq_drop_findIdx_not, hfind, List.drop_drop, Nat.add_comm]

theorem prefixLength_le (token : StringType) : prefixLength token ≤ token.length := by
  unfold prefixLength kSwitchTerminator
  split
  · next hlong => simpa using (List.isPrefixOf_iff_prefix.mp hlong).length_le
  · split
    · next hshort => simpa using (List.isPrefixOf_iff_prefix.mp hshort).length_le
    · exact Nat.zero_le _

/-- The test of `IsSwitch` and `IsSwitchWithKey`. -/
theorem isSwitchToken_iff_test (token : StringType) : isSwitchToken token = true ↔
    ¬(prefixLength token = 0 ∨ prefixLength token = token.length) := by
  have hle := prefixLength_le token
  rw [isSwitchToken, Bool.and_eq_true, decide_eq_true_eq, decide_eq_true_eq]
  omega

/-- `IsSwitch` takes the tokens of the grammar and splits them at the separator. -/
theorem isSwitch_eq (token : StringType) :
    isSwitch token =
      if isSwitchToken token then some (beforeSeparator token, tokenValue token) else none := by
  have hswitch := isSwitchToken_iff_test token
  unfold isSwitch
  rw [getSwitchPrefixLength_eq]
  by_cases htoken : isSwitchToken token = true
  · rw [if_neg (hswitch.mp htoken), if_pos htoken]
    cases hpos : equalsPosition token with
    | none =>
      obtain ⟨hbefore, hvalue⟩ := equalsPosition_eq_none hpos
      rw [hbefore, hvalue]
    | some equals =>
      obtain ⟨hbefore, hvalue⟩ := equalsPosition_eq_some hpos
      rw [hbefore, hvalue]
  · rw [if_pos (by_contra fun hno => htoken (hswitch.mpr hno)), if_neg htoken]

/-- `IsSwitchWithKey` matches the switches that have the key. -/
theorem isSwitchWithKey_iff (token key : StringType) : isSwitchWithKey token key = true ↔
    isSwitchToken token = true ∧ tokenKey token = key := by
  have hswitch := isSwitchToken_iff_test token
  unfold isSwitchWithKey
  dsimp only
  rw [getSwitchPrefixLength_eq]
  by_cases htoken : isSwitchToken token = true
  · rw [if_neg (hswitch.mp htoken), ← drop_beforeSeparator htoken]
    cases hpos : equalsPosition token with
    | none => simp [(equalsPosition_eq_none hpos).1, htoken]
    | some equals => simp [(equalsPosition_eq_some hpos).1, htoken, List.drop_take]
  · rw [if_pos (by_contra fun hno => htoken (hswitch.mpr hno))]
    simp [htoken]

/-- What `AppendSwitchNative` writes for a token. -/
theorem combinedSwitchString_eq (htoken : isSwitchToken token = true) :
    CommandLine.combinedSwitchString (beforeSeparator token) (tokenValue token) =
      normalToken token := by
  have hpre : ¬prefixLength token = 0 := by
    unfold isSwitchToken at htoken
    simp only [Bool.and_eq_true, decide_eq_true_eq] at htoken
    omega
  unfold CommandLine.combinedSwitchString normalToken
  rw [getSwitchPrefixLength_eq, prefixLength_beforeSeparator htoken, if_neg hpre]

theorem insertIdx_append_length {α : Type*} (as bs : List α) (x : α) :
    (as ++ bs).insertIdx as.length x = as ++ x :: bs := by
  induction as with
  | nil => rfl
  | cons a as ih => simpa using ih

namespace CommandLine

variable {c : CommandLine} {tokens : List StringType}

/-- One switch of the loop. -/
theorem appendSwitchNative_eq (htoken : isSwitchToken token = true)
    (switches args : List StringType) (hargv : c.argv = switches ++ args)
    (hdivider : c.beginArgs = switches.length) :
    c.appendSwitchNative (beforeSeparator token) (tokenValue token) = some {
      argv := (switches ++ [normalToken token]) ++ args
      switches := insertSwitch c.switches token
      beginArgs := (switches ++ [normalToken token]).length } := by
  have hle : ¬(switches ++ args).length < switches.length := by
    rw [List.length_append]
    omega
  unfold appendSwitchNative
  rw [getSwitchPrefixLength_eq, prefixLength_beforeSeparator htoken, drop_beforeSeparator htoken,
    combinedSwitchString_eq htoken, hargv, hdivider, insertIdx_append_length]
  dsimp only
  rw [if_neg hle]
  simp [insertSwitch]

/-- After the terminator every element is an argument. -/
theorem appendTokens_false (tokens : List StringType) (c : CommandLine) :
    appendTokens false tokens c = some { c with argv := c.argv ++ tokens } := by
  induction tokens generalizing c with
  | nil => simp [appendTokens]
  | cons arg args ih =>
    simp only [appendTokens, Bool.false_and, Bool.false_eq_true, if_false]
    rw [ih]
    simp [appendArgNative]

/-- The loop stops parsing switches at the first terminator. -/
theorem appendTokens_true (tokens : List StringType) (c : CommandLine) :
    appendTokens true tokens c =
      (appendTokens true (tokens.takeWhile (· ≠ kSwitchTerminator)) c).bind
        (appendTokens false (tokens.dropWhile (· ≠ kSwitchTerminator))) := by
  induction tokens generalizing c with
  | nil => rfl
  | cons arg args ih =>
    by_cases harg : arg = kSwitchTerminator
    · subst harg
      simp [appendTokens]
    · simp only [appendTokens, harg, ne_eq, not_false_eq_true, decide_true, Bool.and_self,
        List.takeWhile_cons_of_pos, List.dropWhile_cons_of_pos, if_true]
      cases isSwitch arg with
      | none => exact ih _
      | some found =>
        obtain ⟨switchString, value⟩ := found
        dsimp only
        cases c.appendSwitchNative switchString value with
        | none => rfl
        | some d => exact ih d

/-- The loop over elements none of which is the terminator. -/
theorem appendTokens_of_ne (hne : ∀ arg ∈ tokens, arg ≠ kSwitchTerminator)
    (switches args : List StringType) (hargv : c.argv = switches ++ args)
    (hdivider : c.beginArgs = switches.length) :
    appendTokens true tokens c = some {
      argv := switches ++ (tokens.filter isSwitchToken).map normalToken ++
        (args ++ tokens.filter (!isSwitchToken ·))
      switches := (tokens.filter isSwitchToken).foldl insertSwitch c.switches
      beginArgs := (switches ++ (tokens.filter isSwitchToken).map normalToken).length } := by
  induction tokens generalizing c switches args with
  | nil =>
    obtain ⟨argv, map, beginArgs⟩ := c
    subst hargv hdivider
    simp [appendTokens]
  | cons arg tokens ih =>
    have harg : arg ≠ kSwitchTerminator := hne arg List.mem_cons_self
    have htokens : ∀ arg ∈ tokens, arg ≠ kSwitchTerminator :=
      fun b hb => hne b (List.mem_cons_of_mem arg hb)
    rw [appendTokens]
    simp only [harg, ne_eq, not_false_eq_true, decide_true, Bool.and_self, if_true]
    rw [isSwitch_eq]
    by_cases htoken : isSwitchToken arg = true
    · rw [if_pos htoken]
      dsimp only
      rw [appendSwitchNative_eq htoken switches args hargv hdivider, Option.bind_some,
        ih htokens _ args rfl rfl]
      simp [htoken]
    · rw [if_neg htoken]
      dsimp only
      have hnext : (c.appendArgNative arg).argv = switches ++ (args ++ [arg]) := by
        rw [appendArgNative, hargv, List.append_assoc]
      rw [ih htokens switches (args ++ [arg]) hnext hdivider]
      simp [htoken, appendArgNative]

theorem ne_of_mem_beforeTerminator {argv : List StringType} {arg : StringType}
    (harg : arg ∈ beforeTerminator argv) : arg ≠ kSwitchTerminator := by
  simpa using List.mem_takeWhile_imp harg

/-- The whole loop: the switches go in front of the divider, the other elements to the end. -/
theorem appendSwitchesAndArguments_eq (argv switches args : List StringType)
    (hargv : c.argv = switches ++ args) (hdivider : c.beginArgs = switches.length) :
    c.appendSwitchesAndArguments argv = some {
      argv := (switches ++ ((beforeTerminator argv).filter isSwitchToken).map normalToken) ++
        (args ++ (beforeTerminator argv).filter (!isSwitchToken ·) ++ fromTerminator argv)
      switches := ((beforeTerminator argv).filter isSwitchToken).foldl insertSwitch c.switches
      beginArgs :=
        (switches ++ ((beforeTerminator argv).filter isSwitchToken).map normalToken).length } := by
  have hne : ∀ arg ∈ beforeTerminator argv, arg ≠ kSwitchTerminator :=
    fun arg harg => ne_of_mem_beforeTerminator harg
  unfold appendSwitchesAndArguments
  rw [appendTokens_true]
  change (appendTokens true (beforeTerminator argv) c).bind
    (appendTokens false (fromTerminator argv)) = _
  rw [appendTokens_of_ne hne switches args hargv hdivider, Option.bind_some, appendTokens_false]
  simp

/-- The normal form: the program's place, the switches, and the arguments, which keep their
order. -/
theorem ofArgv_eq (argv : List StringType) :
    ofArgv argv = some {
      argv := [] :: ((beforeTerminator argv).filter isSwitchToken).map normalToken ++
        ((beforeTerminator argv).filter (!isSwitchToken ·) ++ fromTerminator argv)
      switches := ((beforeTerminator argv).filter isSwitchToken).foldl insertSwitch fun _ => none
      beginArgs := 1 + ((beforeTerminator argv).filter isSwitchToken).length } := by
  change noProgram.appendSwitchesAndArguments argv = _
  rw [appendSwitchesAndArguments_eq argv [[]] [] rfl rfl]
  simp [noProgram, Nat.add_comm]

theorem fromTerminator_cases (argv : List StringType) :
    fromTerminator argv = [] ∨ ∃ rest, fromTerminator argv = kSwitchTerminator :: rest := by
  cases hfrom : fromTerminator argv with
  | nil => exact .inl rfl
  | cons arg rest =>
    have hstop := List.head?_dropWhile_not (· ≠ kSwitchTerminator) argv.tail
    rw [show argv.tail.dropWhile (· ≠ kSwitchTerminator) = arg :: rest from hfrom] at hstop
    have harg : arg = kSwitchTerminator := by simpa using hstop
    exact .inr ⟨rest, by rw [harg]⟩

theorem terminator_not_mem_args {argv : List StringType} :
    kSwitchTerminator ∉ (beforeTerminator argv).filter (!isSwitchToken ·) :=
  fun hmem => ne_of_mem_beforeTerminator (List.mem_of_mem_filter hmem) rfl

/-- `GetArgs` finds the terminator that ended the parsing of switches: no argument before it
equals it. -/
theorem erase_terminator (argv : List StringType) :
    ((beforeTerminator argv).filter (!isSwitchToken ·) ++ fromTerminator argv).erase
        kSwitchTerminator =
      (beforeTerminator argv).filter (!isSwitchToken ·) ++ (fromTerminator argv).tail := by
  rw [List.erase_append_right _ terminator_not_mem_args]
  rcases fromTerminator_cases argv with hfrom | ⟨rest, hfrom⟩
  · rw [hfrom]
    rfl
  · rw [hfrom, List.erase_cons_head, List.tail_cons]

/-- What lies behind the divider, less the first terminator. -/
theorem getArgs_of_split (switches args : List StringType) (hargv : c.argv = switches ++ args)
    (hdivider : c.beginArgs = switches.length) :
    c.getArgs = some (args.erase kSwitchTerminator) := by
  have hle : ¬(switches ++ args).length < switches.length := by
    rw [List.length_append]
    omega
  rw [getArgs, hargv, hdivider, if_neg hle, List.drop_left]

theorem getArgs_eq {argv : List StringType} (h : ofArgv argv = some c) :
    c.getArgs = some ((beforeTerminator argv).filter (!isSwitchToken ·) ++
      (fromTerminator argv).tail) := by
  rw [ofArgv_eq] at h
  cases h
  rw [getArgs_of_split _ _ rfl (by simp [Nat.add_comm]), erase_terminator]

theorem switches_eq {argv : List StringType} (h : ofArgv argv = some c) :
    c.switches = ((beforeTerminator argv).filter isSwitchToken).foldl insertSwitch
      (fun _ => none) := by
  rw [ofArgv_eq] at h
  cases h
  rfl

/-- A command line constructed from any argument vector holds what the grammar says: the switches
before the terminator with the last value of each key, the divider behind them, and as arguments
the other elements, less the terminator. -/
theorem ofArgv_grammar (argv : List StringType) :
    ∃ c, ofArgv argv = some c ∧
      c.switches = ((beforeTerminator argv).filter isSwitchToken).foldl insertSwitch
        (fun _ => none) ∧
      c.beginArgs = 1 + ((beforeTerminator argv).filter isSwitchToken).length ∧
      c.getArgs = some ((beforeTerminator argv).filter (!isSwitchToken ·) ++
        (fromTerminator argv).tail) := by
  refine ⟨_, ofArgv_eq argv, rfl, rfl, ?_⟩
  exact getArgs_eq (ofArgv_eq argv)

end CommandLine

end Sparo.Base
