import Sparo.Demo.CommandLine
import Sparo.Misc.LastWins
import Mathlib.Data.List.Nodup
import Mathlib.Data.List.TakeWhile

/-!
# Relaunching with appended switches

The child parses the elements its parent was started with and then those that `AppendSwitch`
added behind them. It sees the added switches if the parser gets that far and if each of them is
decoded to what was appended.
-/

namespace Sparo.Demo

open LastWins

variable {name value : StringType}

/-- The names of switches: alphanumeric bytes and hyphens, and at least one of them. -/
def IsSwitchName (name : StringType) : Prop :=
  name ≠ [] ∧ ∀ c ∈ name, isalnum c = true ∨ c = hyphen

instance : DecidablePred IsSwitchName := fun name =>
  @instDecidableAnd (name ≠ []) _ inferInstance (List.decidableBAll _ name)

/-! ## Bytes of names -/

theorem isalnum_iff (c : UInt8) : isalnum c = true ↔
    (0x30 ≤ c.toNat ∧ c.toNat ≤ 0x39) ∨ (0x41 ≤ c.toNat ∧ c.toNat ≤ 0x5A) ∨
      (0x61 ≤ c.toNat ∧ c.toNat ≤ 0x7A) := by
  simp [isalnum, isDigit, isUpper, isLower, UInt8.le_iff_toNat_le, or_assoc]

theorem toNat_tolower (c : UInt8) :
    (tolower c).toNat = if 0x41 ≤ c.toNat ∧ c.toNat ≤ 0x5A then c.toNat + 0x20 else c.toNat := by
  have hupper : isUpper c = true ↔ 0x41 ≤ c.toNat ∧ c.toNat ≤ 0x5A := by
    simp [isUpper, UInt8.le_iff_toNat_le]
  unfold tolower
  by_cases hc : isUpper c = true
  · have hrange := hupper.mp hc
    rw [if_pos hc, if_pos hrange, UInt8.toNat_add]
    simp only [UInt8.reduceToNat]
    omega
  · rw [if_neg hc, if_neg (fun hrange => hc (hupper.mpr hrange))]

theorem toNat_hyphen : hyphen.toNat = 0x2D := rfl

theorem isalnum_tolower (c : UInt8) : isalnum (tolower c) = isalnum c := by
  rw [Bool.eq_iff_iff, isalnum_iff, isalnum_iff, toNat_tolower]
  split <;> omega

theorem tolower_eq_hyphen (c : UInt8) : tolower c = hyphen ↔ c = hyphen := by
  rw [← UInt8.toNat_inj, ← UInt8.toNat_inj, toNat_tolower, toNat_hyphen]
  split <;> omega

theorem tolower_tolower (c : UInt8) : tolower (tolower c) = tolower c := by
  rw [← UInt8.toNat_inj, toNat_tolower, if_neg]
  rw [toNat_tolower]
  split <;> omega

theorem map_tolower_map_tolower (s : StringType) : (s.map tolower).map tolower = s.map tolower := by
  rw [List.map_map]
  exact List.map_congr_left fun c _ => tolower_tolower c

theorem IsSwitchName.map_tolower (hname : IsSwitchName name) : IsSwitchName (name.map tolower) := by
  refine ⟨by simpa using hname.1, fun c hc => ?_⟩
  obtain ⟨b, hb, rfl⟩ := List.mem_map.mp hc
  rw [isalnum_tolower, tolower_eq_hyphen]
  exact hname.2 b hb

theorem hyphen_mem_map_tolower : hyphen ∈ name.map tolower ↔ hyphen ∈ name := by
  simp [List.mem_map, tolower_eq_hyphen]

/-- The bytes of a name are neither the separator nor NUL. -/
theorem IsSwitchName.ne (hname : IsSwitchName name) {c : UInt8} (hc : c ∈ name) :
    c ≠ kSwitchValueSeparator ∧ c ≠ 0 := by
  rcases hname.2 c hc with halnum | rfl
  · rw [isalnum_iff] at halnum
    constructor <;> rintro rfl <;> revert halnum <;> decide
  · decide

/-- A byte of a name that is not alphanumeric is a hyphen. -/
theorem IsSwitchName.alnum_iff (hname : IsSwitchName name) :
    (∀ c ∈ name.map tolower, isalnum c = true) ↔ hyphen ∉ name := by
  rw [← hyphen_mem_map_tolower]
  constructor
  · intro hall hmem
    exact absurd (hall hyphen hmem) (by decide)
  · intro hmem c hc
    exact (hname.map_tolower.2 c hc).resolve_right (ne_of_mem_of_not_mem hc hmem)

/-! ## Decoding what was appended -/

theorem splitSwitch_of_mem (hname : IsSwitchName name) :
    splitSwitch (name ++ kSwitchValueSeparator :: value) = (name.map tolower, value) := by
  have hfind : (name ++ kSwitchValueSeparator :: value).findIdx? (· = kSwitchValueSeparator) =
      some name.length := by
    rw [List.findIdx?_append, List.findIdx?_eq_none_iff.mpr fun c hc => by simp [(hname.ne hc).1]]
    simp [List.findIdx?_cons]
  unfold splitSwitch
  rw [hfind]
  simp

theorem splitSwitch_of_not_mem (hname : IsSwitchName name) :
    splitSwitch name = ((name.takeWhile isalnum).map tolower, name.dropWhile isalnum) := by
  have hfind : name.findIdx? (· = kSwitchValueSeparator) = none :=
    List.findIdx?_eq_none_iff.mpr fun c hc => by simp [(hname.ne hc).1]
  unfold splitSwitch
  rw [hfind]
  dsimp only
  cases hend : name.findIdx? (!isalnum ·) with
  | none =>
    have hall : ∀ c ∈ name, isalnum c = true := by
      simpa [List.findIdx?_eq_none_iff] using hend
    rw [List.takeWhile_eq_self_iff.mpr hall, List.dropWhile_eq_nil_iff.mpr hall]
  | some switchEnd =>
    have hidx := (List.findIdx?_eq_some_iff_findIdx_eq.mp hend).2
    rw [List.takeWhile_eq_take_findIdx_not, List.dropWhile_eq_drop_findIdx_not, hidx]

theorem isSwitch_long {body : StringType} (hbody : body ≠ []) :
    isSwitch (kSwitchTerminator ++ body) = some (splitSwitch body) := by
  simp [isSwitch, kSwitchPrefixes, kSwitchTerminator, hbody]

/-- What the child decodes an appended switch to. -/
def decoded (appended : StringType × StringType) : StringType × StringType :=
  let name := appended.1.map tolower
  if appended.2.isEmpty then (name.takeWhile isalnum, name.dropWhile isalnum)
  else (name, cString appended.2)

theorem cString_switchWithPrefix (hname : IsSwitchName name) :
    cString (CommandLine.switchWithPrefix name value) = kSwitchTerminator ++ (name.map tolower ++
      if value.isEmpty then [] else kSwitchValueSeparator :: cString value) := by
  have hne : ∀ c ∈ kSwitchTerminator ++ name.map tolower, decide (c ≠ 0) = true := by
    intro c hc
    rcases List.mem_append.mp hc with hc | hc
    · obtain rfl : c = hyphen := by simpa [kSwitchTerminator] using hc
      decide
    · simpa using (hname.map_tolower.ne hc).2
  unfold CommandLine.switchWithPrefix cString
  dsimp only
  rw [List.takeWhile_append_of_pos hne, List.append_assoc]
  by_cases hvalue : value.isEmpty = true
  · simp [hvalue]
  · simp only [hvalue, Bool.false_eq_true, if_false]
    rw [List.takeWhile_cons_of_pos (by decide)]

theorem isSwitch_appended (hname : IsSwitchName name) :
    isSwitch (cString (CommandLine.switchWithPrefix name value)) =
      some (decoded (name, value)) := by
  have hlower := hname.map_tolower
  rw [cString_switchWithPrefix hname]
  by_cases hvalue : value.isEmpty = true
  · rw [if_pos hvalue, List.append_nil, isSwitch_long hlower.1, splitSwitch_of_not_mem hlower]
    have hfixed : ∀ c ∈ (name.map tolower).takeWhile isalnum, tolower c = c := by
      intro c hc
      obtain ⟨b, -, rfl⟩ := List.mem_map.mp ((List.takeWhile_prefix _).subset hc)
      exact tolower_tolower b
    rw [List.map_congr_left hfixed, List.map_id']
    simp [decoded, hvalue]
  · rw [if_neg hvalue, isSwitch_long (by simp), splitSwitch_of_mem hlower, map_tolower_map_tolower]
    simp [decoded, hvalue]

namespace CommandLine

variable {argv : List StringType} {appended : List (StringType × StringType)}

/-! ## How far the parser gets -/

/-- The parser gets to the end: each element is a switch, or the value that the switch without a
value before it takes. -/
def onlySwitches : List StringType → Bool
  | [] => true
  | [arg] => arg ≠ kSwitchTerminator && (isSwitch arg).isSome
  | arg :: next :: rest =>
    arg ≠ kSwitchTerminator &&
      match isSwitch arg with
      | none => false
      | some (_, value) =>
        if value.isEmpty && (isSwitch next).isNone then onlySwitches rest
        else onlySwitches (next :: rest)

section

variable {arg next name value : StringType} {rest tokens args : List StringType}

/-- A switch that takes the next element for its value. -/
theorem parseSwitches_taking (switches : SwitchMap) (harg : arg ≠ kSwitchTerminator)
    (hswitch : isSwitch arg = some (name, value))
    (htake : (value.isEmpty && (isSwitch next).isNone) = true) :
    parseSwitches (arg :: next :: rest) switches =
        parseSwitches rest (Function.update switches name (some next)) ∧
      onlySwitches (arg :: next :: rest) = onlySwitches rest := by
  rw [parseSwitches, onlySwitches, if_neg harg, hswitch]
  dsimp only
  rw [if_pos htake, if_pos htake]
  simp [harg]

/-- A switch that leaves the next element. -/
theorem parseSwitches_leaving (switches : SwitchMap) (harg : arg ≠ kSwitchTerminator)
    (hswitch : isSwitch arg = some (name, value))
    (hleave : ¬(value.isEmpty && (isSwitch next).isNone) = true) :
    parseSwitches (arg :: next :: rest) switches =
        parseSwitches (next :: rest) (Function.update switches name (some value)) ∧
      onlySwitches (arg :: next :: rest) = onlySwitches (next :: rest) := by
  rw [parseSwitches, onlySwitches, if_neg harg, hswitch]
  dsimp only
  rw [if_neg hleave, if_neg hleave]
  simp [harg]

/-- A parser that stops does not see what comes behind. -/
theorem parseSwitches_append_of_not (tokens : List StringType) (switches : SwitchMap)
    (hargs : onlySwitches args = false) :
    parseSwitches (args ++ tokens) switches = parseSwitches args switches := by
  fun_induction parseSwitches args switches with
  | case1 switches => simp [onlySwitches] at hargs
  | case2 switches => cases tokens <;> simp [parseSwitches]
  | case3 switches arg harg hnone => cases tokens <;> simp [parseSwitches, harg, hnone]
  | case4 switches arg harg name value hswitch => simp [onlySwitches, harg, hswitch] at hargs
  | case5 => simp [parseSwitches]
  | case6 switches arg next rest harg hnone => simp [parseSwitches, harg, hnone]
  | case7 arg next rest switches harg name value hswitch htake ih =>
    rw [(parseSwitches_taking switches harg hswitch htake).2] at hargs
    rw [List.cons_append, List.cons_append, (parseSwitches_taking _ harg hswitch htake).1, ih hargs]
  | case8 arg next rest switches harg name value hswitch hleave ih =>
    rw [(parseSwitches_leaving switches harg hswitch hleave).2] at hargs
    rw [List.cons_append, List.cons_append, (parseSwitches_leaving _ harg hswitch hleave).1,
      ← List.cons_append, ih hargs]

/-- A parser that gets to the end goes on with what comes behind, if that starts with a switch. -/
theorem parseSwitches_append (switches : SwitchMap) (hargs : onlySwitches args = true)
    (htokens : ∀ token ∈ tokens.head?, (isSwitch token).isSome) :
    parseSwitches (args ++ tokens) switches =
      parseSwitches tokens (parseSwitches args switches) := by
  fun_induction parseSwitches args switches with
  | case1 switches => rfl
  | case2 switches => simp [onlySwitches] at hargs
  | case3 switches arg harg hnone => simp [onlySwitches, hnone] at hargs
  | case4 switches arg harg name value hswitch =>
    cases tokens with
    | nil => simp [parseSwitches, harg, hswitch]
    | cons token tokens =>
      -- the value is not taken from the next element, which is a switch
      have hnext : (isSwitch token).isNone = false := by
        simpa using htokens token rfl
      rw [List.cons_append, List.nil_append,
        (parseSwitches_leaving _ harg hswitch (by simp [hnext])).1]
  | case5 => simp [onlySwitches] at hargs
  | case6 switches arg next rest harg hnone => simp [onlySwitches, hnone] at hargs
  | case7 arg next rest switches harg name value hswitch htake ih =>
    rw [(parseSwitches_taking switches harg hswitch htake).2] at hargs
    rw [List.cons_append, List.cons_append, (parseSwitches_taking _ harg hswitch htake).1, ih hargs]
  | case8 arg next rest switches harg name value hswitch hleave ih =>
    rw [(parseSwitches_leaving switches harg hswitch hleave).2] at hargs
    rw [List.cons_append, List.cons_append, (parseSwitches_leaving _ harg hswitch hleave).1,
      ← List.cons_append, ih hargs]

end

/-- A parser that meets switches only inserts them one after the other. -/
theorem parseSwitches_map {α : Type*} {as : List α} (switches : SwitchMap) {encode : α → StringType}
    {decode : α → StringType × StringType}
    (has : ∀ a ∈ as, encode a ≠ kSwitchTerminator ∧ isSwitch (encode a) = some (decode a)) :
    parseSwitches (as.map encode) switches = insertAll switches (as.map decode) := by
  induction as generalizing switches with
  | nil => rfl
  | cons a as ih =>
    obtain ⟨hne, hswitch⟩ := has a List.mem_cons_self
    have hrest := fun b hb => has b (List.mem_cons_of_mem a hb)
    change _ = insertAll (Function.update switches (decode a).1 (some (decode a).2)) _
    rw [← ih _ hrest]
    cases as with
    | nil => simp [parseSwitches, hne, hswitch]
    | cons b as =>
      have hnext := (hrest b List.mem_cons_self).2
      rw [List.map_cons, List.map_cons, (parseSwitches_leaving _ hne hswitch (by simp [hnext])).1]

/-! ## Parent and child -/

/-- The command line that a child of the process started with `argv` constructs from the
`GetArgs()` of its parent. -/
def relaunched (argv : List StringType) (appended : List (StringType × StringType)) : CommandLine :=
  ofStringVector ((ofArgv argv).appendSwitches appended).getArgs

/-- The value appended last under a lowercase name. -/
def lastAppended (appended : List (StringType × StringType)) (key : StringType) :
    Option StringType :=
  lastValue (appended.map fun p => (p.1.map tolower, p.2)) key

/-- The child has every appended switch, with the value appended last. -/
def Survives (argv : List StringType) (appended : List (StringType × StringType)) : Prop :=
  ∀ p ∈ appended, (relaunched argv appended).hasSwitch (p.1.map tolower) = true ∧
    lastAppended appended (p.1.map tolower) =
      some ((relaunched argv appended).getSwitchValue (p.1.map tolower))

/-- What the child decodes of the appended switches: nothing where its parser stops before them. -/
def reachedSwitches (argv : List StringType) (appended : List (StringType × StringType)) :
    List (StringType × StringType) :=
  if onlySwitches (ofArgv argv).argv.tail then appended.map decoded else []

/-- The parser gets to the end of the parent's elements, a name appended without a value has no
hyphen, and no value has a NUL. -/
def Relaunchable (argv : List StringType) (appended : List (StringType × StringType)) : Prop :=
  ∀ p ∈ appended, onlySwitches (ofArgv argv).argv.tail = true ∧ (p.2 = [] → hyphen ∉ p.1) ∧ 0 ∉ p.2

/-- Each name is appended once, and the parent was not started with it. -/
def Fresh (argv : List StringType) (appended : List (StringType × StringType)) : Prop :=
  (appended.map fun p => p.1.map tolower).Nodup ∧
    ∀ p ∈ appended, (ofArgv argv).switches (p.1.map tolower) = none

theorem appendSwitches_argv (c : CommandLine) (appended : List (StringType × StringType)) :
    (c.appendSwitches appended).argv =
      c.argv ++ appended.map fun p => switchWithPrefix p.1 p.2 := by
  induction appended generalizing c with
  | nil => simp [appendSwitches]
  | cons p appended ih =>
    change ((c.appendSwitch p.1 p.2).appendSwitches appended).argv = _
    rw [ih]
    simp [appendSwitch]

theorem ofArgv_argv (argv : List StringType) :
    (ofArgv argv).argv ≠ [] ∧ (ofArgv argv).argv.map cString = (ofArgv argv).argv := by
  have hfixed : ∀ string : StringType, cString (cString string) = cString string := by
    intro string
    refine List.takeWhile_eq_self_iff.mpr fun c hc => ?_
    exact List.mem_takeWhile_imp (p := fun c => decide (c ≠ 0)) hc
  unfold ofArgv
  by_cases hempty : argv.isEmpty = true
  · simp [hempty, cString]
  · simp only [hempty, Bool.false_eq_true, if_false, List.map_map]
    refine ⟨by simpa using hempty, List.map_congr_left fun string _ => hfixed string⟩

theorem ofStringVector_switches {args : List StringType} (hargs : args ≠ []) :
    (ofStringVector args).switches = parseSwitches (args.map cString).tail fun _ => none := by
  have hempty : ¬args.isEmpty = true := by simpa using hargs
  simp [ofStringVector, ofArgv, hempty]

/-- The child parses the elements of its parent, and behind them the appended ones. -/
theorem relaunched_switches (hnames : ∀ p ∈ appended, IsSwitchName p.1) :
    (relaunched argv appended).switches =
      insertAll (ofArgv argv).switches (reachedSwitches argv appended) := by
  obtain ⟨hne, hfixed⟩ := ofArgv_argv argv
  have htokens : ∀ p ∈ appended, cString (switchWithPrefix p.1 p.2) ≠ kSwitchTerminator ∧
      isSwitch (cString (switchWithPrefix p.1 p.2)) = some (decoded p) := by
    intro p hp
    refine ⟨?_, isSwitch_appended (hnames p hp)⟩
    rw [cString_switchWithPrefix (hnames p hp)]
    simp [(hnames p hp).1]
  have hparse := parseSwitches_map (ofArgv argv).switches htokens
  unfold relaunched getArgs reachedSwitches
  rw [appendSwitches_argv, ofStringVector_switches (by simp [hne]), List.map_append, hfixed,
    List.tail_append_of_ne_nil hne, List.map_map]
  split
  · next hargs =>
    rw [parseSwitches_append _ hargs, ← hparse]
    · rfl
    · intro token htoken
      cases appended with
      | nil => cases htoken
      | cons p appended =>
        obtain rfl : cString (switchWithPrefix p.1 p.2) = token := by simpa using htoken
        rw [(htokens p List.mem_cons_self).2]
        rfl
  · next hargs =>
    rw [parseSwitches_append_of_not _ _ (by simpa using hargs)]
    rfl

/-- A switch is decoded to what was appended unless it is a name with a hyphen and no value, or
its value has a NUL. -/
theorem decoded_eq_iff {p : StringType × StringType} (hname : IsSwitchName p.1) :
    decoded p = (p.1.map tolower, p.2) ↔ (p.2 = [] → hyphen ∉ p.1) ∧ 0 ∉ p.2 := by
  unfold decoded
  by_cases hvalue : p.2 = []
  · simp only [hvalue, List.isEmpty_nil, if_true, Prod.mk.injEq, List.takeWhile_eq_self_iff,
      List.dropWhile_eq_nil_iff, and_self, hname.alnum_iff, true_imp_iff, List.not_mem_nil,
      not_false_eq_true, and_true]
  · have hvalue' : ¬p.2.isEmpty = true := by simpa using hvalue
    have hnul : cString p.2 = p.2 ↔ 0 ∉ p.2 := by
      unfold cString
      rw [List.takeWhile_eq_self_iff]
      simp only [decide_eq_true_eq]
      exact ⟨fun h hmem => h 0 hmem rfl, fun h c hc => ne_of_mem_of_not_mem hc h⟩
    simp only [hvalue', Bool.false_eq_true, if_false, Prod.mk.injEq, true_and, hnul, hvalue,
      false_imp_iff]

/-- The condition is that the child meets every appended switch and decodes it to what was
appended. -/
theorem relaunchable_iff (hnames : ∀ p ∈ appended, IsSwitchName p.1) :
    Relaunchable argv appended ↔
      reachedSwitches argv appended = appended.map fun p => (p.1.map tolower, p.2) := by
  constructor
  · intro h
    cases appended with
    | nil => simp [reachedSwitches]
    | cons p appended =>
      rw [reachedSwitches, if_pos (h p List.mem_cons_self).1]
      exact List.map_congr_left fun q hq => (decoded_eq_iff (hnames q hq)).mpr (h q hq).2
  · intro hreached p hp
    have hargs : onlySwitches (ofArgv argv).argv.tail = true := by
      by_contra hstops
      rw [reachedSwitches, if_neg hstops] at hreached
      rw [List.map_eq_nil_iff.mp hreached.symm] at hp
      cases hp
    rw [reachedSwitches, if_pos hargs] at hreached
    exact ⟨hargs, (decoded_eq_iff (hnames p hp)).mp (List.map_inj_left.mp hreached p hp)⟩

/-- Where a switch is decoded wrongly, its value is not found under its name again. -/
theorem decoded_ne {p q : StringType × StringType} (hq : IsSwitchName q.1)
    (hkey : (decoded q).1 = p.1.map tolower) (hdistinct : q.1.map tolower = p.1.map tolower → q = p)
    (hbad : p.2 = [] ∧ hyphen ∈ p.1 ∨ 0 ∈ p.2) : (decoded q).2 ≠ p.2 := by
  intro hvalue
  by_cases hempty : q.2.isEmpty = true
  · simp only [decoded, hempty, if_true] at hkey hvalue
    by_cases hhyphen : hyphen ∈ q.1
    · -- the value is the rest of the name, from the hyphen on
      have hrest : p.2 ≠ [] := by
        rw [← hvalue, ne_eq, List.dropWhile_eq_nil_iff, hq.alnum_iff]
        exact not_not.mpr hhyphen
      have hnul : 0 ∈ p.2 := hbad.resolve_left fun h => hrest h.1
      rw [← hvalue] at hnul
      exact (hq.map_tolower.ne ((List.dropWhile_suffix _).subset hnul)).2 rfl
    · have hall : ∀ c ∈ q.1.map tolower, isalnum c = true := hq.alnum_iff.mpr hhyphen
      rw [List.takeWhile_eq_self_iff.mpr hall] at hkey
      obtain rfl := hdistinct hkey
      have hnil : q.2 = [] := by simpa using hempty
      rcases hbad with hbad | hbad
      · exact hhyphen hbad.2
      · rw [hnil] at hbad
        cases hbad
  · simp only [decoded, hempty, Bool.false_eq_true, if_false] at hkey hvalue
    obtain rfl := hdistinct hkey
    have hnul : 0 ∈ q.2 := hbad.resolve_left fun h => hempty (by simp [h.1])
    rw [← hvalue] at hnul
    exact absurd (List.mem_takeWhile_imp hnul) (by decide)

theorem lastAppended_eq_some {p : StringType × StringType} (hp : p ∈ appended) :
    ∃ value, lastAppended appended (p.1.map tolower) = some value := by
  rw [← Option.ne_none_iff_exists', ne_eq, lastAppended, lastValue_eq_none, not_not, List.map_map]
  exact List.mem_map.mpr ⟨p, hp, rfl⟩

/-- What the child has for a name comes from the last switch decoded to it, or from its parent. -/
theorem survives_iff (hnames : ∀ p ∈ appended, IsSwitchName p.1) :
    Survives argv appended ↔
      ∀ p ∈ appended, (lastValue (reachedSwitches argv appended) (p.1.map tolower)).or
        ((ofArgv argv).switches (p.1.map tolower)) = lastAppended appended (p.1.map tolower) := by
  refine forall₂_congr fun p hp => ?_
  obtain ⟨value, hlast⟩ := lastAppended_eq_some hp
  rw [hasSwitch, getSwitchValue, relaunched_switches hnames, insertAll_apply, hlast]
  cases (lastValue (reachedSwitches argv appended) (p.1.map tolower)).or
      ((ofArgv argv).switches (p.1.map tolower)) with
  | none => simp
  | some found => simp [eq_comm]

theorem survives_of_relaunchable (hnames : ∀ p ∈ appended, IsSwitchName p.1)
    (h : Relaunchable argv appended) : Survives argv appended := by
  rw [survives_iff hnames, (relaunchable_iff hnames).mp h]
  intro p hp
  obtain ⟨value, hlast⟩ := lastAppended_eq_some hp
  rw [← lastAppended, hlast, Option.some_or]

theorem relaunchable_of_survives (hnames : ∀ p ∈ appended, IsSwitchName p.1)
    (hfresh : Fresh argv appended) (h : Survives argv appended) : Relaunchable argv appended := by
  intro p hp
  obtain ⟨hnodup, hnew⟩ := hfresh
  have hlast : lastAppended appended (p.1.map tolower) = some p.2 := by
    refine lastValue_of_nodup ?_ (List.mem_map.mpr ⟨p, hp, rfl⟩)
    rw [List.map_map]
    exact hnodup
  have hreached : (p.1.map tolower, p.2) ∈ reachedSwitches argv appended := by
    have hfound := (survives_iff hnames).mp h p hp
    rw [hnew p hp, Option.or_none, hlast] at hfound
    exact mem_of_lastValue hfound
  unfold reachedSwitches at hreached
  split at hreached
  · next hargs =>
    by_contra hbad
    obtain ⟨q, hq, heq⟩ := List.mem_map.mp hreached
    have hdistinct : q.1.map tolower = p.1.map tolower → q = p :=
      List.inj_on_of_nodup_map hnodup hq hp
    apply decoded_ne (hnames q hq) (by rw [heq]) hdistinct ?_ (by rw [heq])
    by_contra hgood
    rw [not_or, not_and] at hgood
    exact hbad ⟨hargs, hgood.1, hgood.2⟩
  · cases hreached

/-- A child sees the switches appended for it if the parser gets to the end of the elements its
parent was started with, no name appended without a value has a hyphen, and no value has a NUL;
and only then where each name is appended once and the parent was not started with it. -/
theorem relaunch_survives (hnames : ∀ p ∈ appended, IsSwitchName p.1) :
    (Relaunchable argv appended → Survives argv appended) ∧
      (Fresh argv appended → (Survives argv appended ↔ Relaunchable argv appended)) :=
  ⟨survives_of_relaunchable hnames, fun hfresh =>
    ⟨relaunchable_of_survives hnames hfresh, survives_of_relaunchable hnames⟩⟩

/-- The program `p`, started with `-v`, appends `a-b` with the value `7` and `c` without one. -/
theorem relaunch_survives_switches :
    Survives [[0x70], [0x2D, 0x76]] [([0x61, 0x2D, 0x62], [0x37]), ([0x63], [])] := by
  have hok : Relaunchable [[0x70], [0x2D, 0x76]] [([0x61, 0x2D, 0x62], [0x37]), ([0x63], [])] := by
    unfold Relaunchable
    decide
  exact (relaunch_survives (by decide)).1 hok

/-- The program `p`, started with the argument `x`, appends `a` with the value `1`. The child
stops at `x` and does not have the switch. -/
theorem relaunch_stops_at_argument :
    (relaunched [[0x70], [0x78]] [([0x61], [0x31])]).hasSwitch [0x61] = false ∧
      ¬Survives [[0x70], [0x78]] [([0x61], [0x31])] := by
  have hlost : (relaunched [[0x70], [0x78]] [([0x61], [0x31])]).hasSwitch [0x61] = false := by
    decide
  refine ⟨hlost, fun h => ?_⟩
  have hhas := (h ([0x61], [0x31]) List.mem_cons_self).1
  rw [show ([0x61] : StringType).map tolower = [0x61] from by decide, hlost] at hhas
  cases hhas

end CommandLine

end Sparo.Demo
