import Sparo.Base.Proofs.CommandLineDivider
import Sparo.Base.Proofs.CommandLineReparse

/-!
# The map and the vector of a command line

Every switch is stored twice, in `switches_` and as an entry of `argv_` in front of the divider.
The operations on one object keep the two in agreement while every key they append has a text and
no separator in it, and no value they append is a view of the entry that it replaces. The other
objects that they read may be any command lines.
-/

namespace Sparo.Base

open StepSystem

/-- The key is what is left of a switch string without its prefix. -/
def switchKey (switchString : StringType) : StringType :=
  switchString.drop (prefixLength switchString)

/-- The key of a switch string is not empty and has no separator. -/
def SwitchKeyOk (switchString : StringType) : Prop :=
  switchKey switchString ≠ [] ∧ kSwitchValueSeparator ∉ switchKey switchString

instance : DecidablePred SwitchKeyOk := fun _ => inferInstanceAs (Decidable (_ ∧ _))

/-- A map agrees with a list of entries: it has the keys of the entries, each with the text after
the first separator of the last entry for it. -/
def AgreesWith (switches : SwitchMap) (entries : List StringType) : Prop :=
  ∀ key, switches key = (entries.filter (isSwitchWithKey · key)).getLast?.map tokenValue

variable {switches : SwitchMap} {entries : List StringType} {token switchString : StringType}

theorem AgreesWith.snoc (h : AgreesWith switches entries) (htoken : isSwitchToken token = true) :
    AgreesWith (insertSwitch switches token) (entries ++ [token]) := by
  intro key
  rw [insertSwitch, Function.update_apply, List.filter_append, List.getLast?_append]
  by_cases hkey : tokenKey token = key
  · have hmatch : isSwitchWithKey token key = true :=
      (isSwitchWithKey_iff token key).mpr ⟨htoken, hkey⟩
    rw [if_pos hkey.symm, List.filter_cons, if_pos hmatch]
    rfl
  · have hmatch : ¬isSwitchWithKey token key = true :=
      fun hmatch => hkey ((isSwitchWithKey_iff token key).mp hmatch).2
    rw [if_neg (Ne.symm hkey), List.filter_cons, if_neg hmatch]
    exact h key

theorem AgreesWith.append {tokens : List StringType} (h : AgreesWith switches entries)
    (htokens : ∀ token ∈ tokens, isSwitchToken token = true) :
    AgreesWith (tokens.foldl insertSwitch switches) (entries ++ tokens) := by
  induction tokens generalizing switches entries with
  | nil => simpa using h
  | cons token tokens ih =>
    have hnext := h.snoc (htokens token List.mem_cons_self)
    have hall := ih hnext fun b hb => htokens b (List.mem_cons_of_mem token hb)
    rwa [List.append_assoc] at hall

/-- An entry is an entry for one key only. -/
theorem AgreesWith.remove (h : AgreesWith switches entries) (key : StringType) :
    AgreesWith (Function.update switches key none)
      (entries.filter fun arg => !isSwitchWithKey arg key) := by
  intro other
  rw [Function.update_apply, List.filter_filter]
  by_cases hother : other = key
  · subst hother
    simp
  · have hsame : ∀ arg ∈ entries,
        (isSwitchWithKey arg other && !isSwitchWithKey arg key) = isSwitchWithKey arg other := by
      intro arg _
      by_cases hmatch : isSwitchWithKey arg other = true
      · have hkey : ¬isSwitchWithKey arg key = true := fun hkey =>
          hother (((isSwitchWithKey_iff arg other).mp hmatch).2.symm.trans
            ((isSwitchWithKey_iff arg key).mp hkey).2)
        simp [hmatch, hkey]
      · simp [hmatch]
    rw [if_neg hother, List.filter_congr hsame]
    exact h other

/-- Without the key in the map no entry is one for it. -/
theorem AgreesWith.filter_eq_self (h : AgreesWith switches entries) {key : StringType}
    (hkey : switches key = none) :
    (entries.filter fun arg => !isSwitchWithKey arg key) = entries := by
  have hnone : entries.filter (isSwitchWithKey · key) = [] := by
    simpa [hkey, eq_comm (a := none)] using h key
  refine List.filter_eq_self.mpr fun arg harg => ?_
  simpa using List.filter_eq_nil_iff.mp hnone arg harg

theorem beforeSeparator_append {key : StringType} (hkey : kSwitchValueSeparator ∉ key)
    (value : StringType) :
    beforeSeparator (key ++ if value.isEmpty then [] else kSwitchValueSeparator :: value) = key ∧
      tokenValue (key ++ if value.isEmpty then [] else kSwitchValueSeparator :: value) = value := by
  have hne : ∀ b ∈ key, decide (b ≠ kSwitchValueSeparator) = true :=
    fun b hb => decide_eq_true (ne_of_mem_of_not_mem hb hkey)
  rw [beforeSeparator, tokenValue, List.takeWhile_append_of_pos hne,
    List.dropWhile_append_of_pos hne]
  cases value <;> simp

/-- A prefix in front of a text that does not continue it. -/
theorem prefixed_parts (pre : StringType) {body : StringType} (hbody : body ≠ [])
    (hpre : pre = kSwitchTerminator ∨ pre = [hyphen] ∧ body.head? ≠ some hyphen) :
    isSwitchToken (pre ++ body) = true ∧ tokenKey (pre ++ body) = beforeSeparator body ∧
      tokenValue (pre ++ body) = tokenValue body := by
  rcases hpre with rfl | ⟨rfl, hhead⟩
  · refine ⟨isSwitchToken_iff.mpr (.inl ⟨body, hbody, rfl⟩), ?_, ?_⟩
    · simp [tokenKey, kSwitchTerminator]
    · simp [tokenValue, kSwitchTerminator, separator_ne_hyphen]
  · refine ⟨?_, ?_, ?_⟩
    · cases body with
      | nil => exact absurd rfl hbody
      | cons b rest => exact isSwitchToken_iff.mpr (.inr ⟨b, rest, by simpa using hhead, rfl⟩)
    · simp [tokenKey, prefixLength_short hhead]
    · simp [tokenValue, separator_ne_hyphen]

/-- A switch string is its prefix, if it brings one, and its key. -/
theorem switchString_cases (switchString : StringType) :
    (prefixLength switchString = 0 ∧ switchKey switchString = switchString) ∨
      ∃ pre, prefixLength switchString ≠ 0 ∧ switchString = pre ++ switchKey switchString ∧
        (pre = kSwitchTerminator ∨
          pre = [hyphen] ∧ (switchKey switchString).head? ≠ some hyphen) := by
  match switchString with
  | [] => exact .inl ⟨rfl, rfl⟩
  | [a] =>
    by_cases ha : a = hyphen
    · subst ha
      exact .inr ⟨[hyphen], by decide, rfl, .inr ⟨rfl, by decide⟩⟩
    · have hzero : prefixLength [a] = 0 := by
        simp [prefixLength, kSwitchTerminator, eq_comm (a := hyphen), ha]
      exact .inl ⟨hzero, by rw [switchKey, hzero, List.drop_zero]⟩
  | a :: b :: rest =>
    by_cases ha : a = hyphen
    · subst ha
      by_cases hb : b = hyphen
      · subst hb
        have hkey : switchKey (hyphen :: hyphen :: rest) = rest := by simp [switchKey]
        exact .inr ⟨kSwitchTerminator, by simp, by rw [hkey]; rfl, .inl rfl⟩
      · have hhead : (b :: rest).head? ≠ some hyphen := by simpa using hb
        have hkey : switchKey (hyphen :: b :: rest) = b :: rest := by
          simp [switchKey, prefixLength_short hhead]
        refine .inr ⟨[hyphen], ?_, by rw [hkey]; rfl, .inr ⟨rfl, by rw [hkey]; exact hhead⟩⟩
        rw [prefixLength_short hhead]
        exact Nat.one_ne_zero
    · have hzero : prefixLength (a :: b :: rest) = 0 := by
        simp [prefixLength, kSwitchTerminator, eq_comm (a := hyphen), ha]
      exact .inl ⟨hzero, by rw [switchKey, hzero, List.drop_zero]⟩

/-- What is written for a switch string is read back as a switch with its key and value, whether
the string brings its own prefix or is given one. -/
theorem combinedSwitchString_parts (hkey : SwitchKeyOk switchString) (value : StringType) :
    isSwitchToken (CommandLine.combinedSwitchString switchString value) = true ∧
      tokenKey (CommandLine.combinedSwitchString switchString value) = switchKey switchString ∧
      tokenValue (CommandLine.combinedSwitchString switchString value) = value := by
  obtain ⟨hne, hsep⟩ := hkey
  obtain ⟨pre, hpre, hcombined⟩ : ∃ pre, (pre = kSwitchTerminator ∨
      pre = [hyphen] ∧ (switchKey switchString).head? ≠ some hyphen) ∧
      CommandLine.combinedSwitchString switchString value = pre ++ (switchKey switchString ++
        if value.isEmpty then [] else kSwitchValueSeparator :: value) := by
    unfold CommandLine.combinedSwitchString
    rw [getSwitchPrefixLength_eq]
    rcases switchString_cases switchString with ⟨hzero, hself⟩ | ⟨pre, hpos, hself, hpre⟩
    · refine ⟨kSwitchTerminator, .inl rfl, ?_⟩
      rw [if_pos hzero, hself]
      split <;> simp
    · refine ⟨pre, hpre, ?_⟩
      rw [if_neg hpos, ← List.append_assoc, ← hself]
      split <;> simp
  have hhead : ∀ tail : StringType,
      (switchKey switchString ++ tail).head? = (switchKey switchString).head? := by
    intro tail
    rw [List.head?_append_of_ne_nil _ hne]
  obtain ⟨hbefore, hvalue⟩ := beforeSeparator_append hsep value
  have hparts := prefixed_parts pre (List.append_ne_nil_of_left_ne_nil hne
    (if value.isEmpty then [] else kSwitchValueSeparator :: value)) (by rwa [hhead])
  rwa [← hcombined, hbefore, hvalue] at hparts

namespace CommandLine

variable {c d : CommandLine}

/-- The entries of `argv_` with index in `[1, begin_args_)`. -/
def switchEntries (c : CommandLine) : List StringType := (c.argv.take c.beginArgs).drop 1

/-- The map agrees with the entries of `argv_` in front of a valid divider. -/
structure Agrees (c : CommandLine) : Prop where
  divider : c.DividerValid
  agrees : AgreesWith c.switches c.switchEntries

/-- `argv_` is the program, the switches and the rest. -/
theorem argv_eq (hc : c.DividerValid) :
    c.argv = c.argv.take 1 ++ c.switchEntries ++ c.argv.drop c.beginArgs := by
  have htake : (c.argv.take c.beginArgs).take 1 = c.argv.take 1 := by
    rw [List.take_take, Nat.min_eq_left hc.1]
  rw [switchEntries, ← htake, List.take_append_drop, List.take_append_drop]

theorem length_switchEntries (hc : c.DividerValid) :
    c.switchEntries.length = c.beginArgs - 1 := by
  rw [switchEntries, List.length_drop, List.length_take, Nat.min_eq_left hc.2]

theorem switchEntries_of_split (front entries rest : List StringType)
    (hargv : c.argv = front ++ entries ++ rest) (hfront : front.length = 1)
    (hdivider : c.beginArgs = 1 + entries.length) : c.switchEntries = entries := by
  rw [switchEntries, hargv, List.take_left' (by simp [hdivider, hfront]), List.drop_left' hfront]

theorem length_take_one (hc : c.DividerValid) : (c.argv.take 1).length = 1 := by
  rw [List.length_take, Nat.min_eq_left (hc.1.trans hc.2)]

theorem length_front (hc : c.DividerValid) :
    (c.argv.take 1 ++ c.switchEntries).length = c.beginArgs := by
  rw [List.length_append, length_take_one hc, length_switchEntries hc]
  exact Nat.add_sub_cancel' hc.1

theorem noProgram_agrees : noProgram.Agrees :=
  ⟨noProgram_dividerValid, fun _ => rfl⟩

theorem Agrees.appendSwitchNative (hc : c.Agrees) {switchString : StringType}
    (hkey : SwitchKeyOk switchString) (value : StringType) :
    ∃ d, c.appendSwitchNative switchString value = some d ∧ d.Agrees := by
  obtain ⟨d, hd, hvalid, -⟩ := appendSwitchNative_dividerValid switchString value hc.divider
  obtain ⟨hswitch, hkeyEq, hvalue⟩ := combinedSwitchString_parts hkey value
  have hle : ¬c.argv.length < c.beginArgs := Nat.not_lt.mpr hc.divider.2
  refine ⟨d, hd, hvalid, ?_⟩
  unfold CommandLine.appendSwitchNative at hd
  rw [if_neg hle, getSwitchPrefixLength_eq] at hd
  cases hd
  have hargv : c.argv.insertIdx c.beginArgs (combinedSwitchString switchString value) =
      c.argv.take 1 ++ (c.switchEntries ++ [combinedSwitchString switchString value]) ++
        c.argv.drop c.beginArgs := by
    have hinsert := insertIdx_append_length (c.argv.take 1 ++ c.switchEntries)
      (c.argv.drop c.beginArgs) (combinedSwitchString switchString value)
    rw [← argv_eq hc.divider, length_front hc.divider] at hinsert
    rw [hinsert]
    simp
  have hbegin : c.beginArgs + 1 =
      1 + (c.switchEntries ++ [combinedSwitchString switchString value]).length := by
    have hpos : 1 ≤ c.beginArgs := hc.divider.1
    rw [List.length_append, length_switchEntries hc.divider, List.length_singleton]
    omega
  have hentries := switchEntries_of_split
    (c := ⟨_, Function.update c.switches (switchKey switchString) (some value), c.beginArgs + 1⟩)
    _ _ _ hargv (length_take_one hc.divider) hbegin
  have hagrees := hc.agrees.snoc hswitch
  rw [insertSwitch, hkeyEq, hvalue] at hagrees
  rw [← hentries] at hagrees
  exact hagrees

theorem Agrees.appendArgNative (hc : c.Agrees) (value : StringType) :
    (c.appendArgNative value).Agrees := by
  have hentries : (c.appendArgNative value).switchEntries = c.switchEntries := by
    rw [switchEntries, switchEntries, CommandLine.appendArgNative,
      List.take_append_of_le_length hc.divider.2]
  refine ⟨appendArgNative_dividerValid value hc.divider, ?_⟩
  rw [hentries]
  exact hc.agrees

/-- The switches that are parsed from the other object's `argv_` have keys. -/
def ParsedKeysOk (argv : List StringType) : Prop :=
  ∀ token ∈ (beforeTerminator argv).filter isSwitchToken, tokenKey token ≠ []

instance : DecidablePred ParsedKeysOk := fun _ => inferInstanceAs (Decidable (∀ _ ∈ _, _))

theorem Agrees.appendSwitchesAndArguments (hc : c.Agrees) {argv : List StringType}
    (hkeys : ParsedKeysOk argv) :
    ∃ d, c.appendSwitchesAndArguments argv = some d ∧ d.Agrees := by
  obtain ⟨d, hd, hvalid⟩ := appendSwitchesAndArguments_dividerValid hc.divider argv
  refine ⟨d, hd, hvalid, ?_⟩
  have hsplit : c.argv = (c.argv.take 1 ++ c.switchEntries) ++ c.argv.drop c.beginArgs :=
    argv_eq hc.divider
  have htokens : ∀ token ∈ (beforeTerminator argv).filter isSwitchToken,
      isSwitchToken token = true := fun token hmem => (List.mem_filter.mp hmem).2
  have hnormal : ∀ token ∈ ((beforeTerminator argv).filter isSwitchToken).map normalToken,
      isSwitchToken token = true := by
    simp only [List.forall_mem_map]
    intro token hmem
    refine (isSwitchToken_normalToken (htokens token hmem)).mpr ?_
    rintro (rfl | rfl) <;> exact hkeys _ hmem (by decide)
  rw [appendSwitchesAndArguments_eq argv _ _ hsplit (length_front hc.divider).symm,
    ← foldl_normalToken _ htokens hnormal, Option.some.injEq] at hd
  have hentries : d.switchEntries =
      c.switchEntries ++ ((beforeTerminator argv).filter isSwitchToken).map normalToken := by
    refine switchEntries_of_split (c.argv.take 1) _ (c.argv.drop c.beginArgs ++
      (beforeTerminator argv).filter (!isSwitchToken ·) ++ fromTerminator argv) ?_
      (length_take_one hc.divider) ?_
    · rw [← hd, List.append_assoc (c.argv.take 1)]
    · rw [← hd]
      dsimp only
      rw [List.append_assoc, List.length_append, length_take_one hc.divider]
  rw [hentries, ← hd]
  exact hc.agrees.append hnormal

/-- The names that `CopySwitchesFrom` finds in the source, and so appends, have keys. -/
def CopiedKeysOk (source : CommandLine → CommandLine) : List StringType → CommandLine → Prop
  | [], _ => True
  | name :: names, c =>
    if (source c).hasSwitch name then
      SwitchKeyOk name ∧
        ∀ d ∈ c.appendSwitchNative name ((source c).getSwitchValueNative name),
          CopiedKeysOk source names d
    else CopiedKeysOk source names c

instance decidableCopiedKeysOk (source : CommandLine → CommandLine) :
    ∀ names, DecidablePred (CopiedKeysOk source names)
  | [], _ => isTrue trivial
  | name :: names, c =>
    have := decidableCopiedKeysOk source names
    inferInstanceAs (Decidable (if (source c).hasSwitch name then _ ∧ _ else _))

theorem Agrees.copySwitchesFrom (source : CommandLine → CommandLine) {names : List StringType}
    (hc : c.Agrees) (hkeys : CopiedKeysOk source names c) :
    ∃ d, c.copySwitchesFrom source names = some d ∧ d.Agrees := by
  induction names generalizing c with
  | nil => exact ⟨c, rfl, hc⟩
  | cons name names ih =>
    rw [CopiedKeysOk] at hkeys
    rw [CommandLine.copySwitchesFrom]
    by_cases hhas : (source c).hasSwitch name = true
    · rw [if_pos hhas] at hkeys ⊢
      obtain ⟨d, hd, hagrees⟩ :=
        hc.appendSwitchNative hkeys.1 ((source c).getSwitchValueNative name)
      rw [hd, Option.bind_some]
      exact ih hagrees (hkeys.2 d hd)
    · rw [if_neg hhas] at hkeys ⊢
      exact ih hc hkeys

/-- `RemoveSwitch` takes a key and all its entries and leaves the rest, in order. -/
theorem Agrees.removeSwitch_eq (hc : c.Agrees) (key : StringType) :
    c.removeSwitch key = some {
      argv := c.argv.take 1 ++ c.switchEntries.filter (fun arg => !isSwitchWithKey arg key) ++
        c.argv.drop c.beginArgs
      switches := Function.update c.switches key none
      beginArgs := 1 + (c.switchEntries.filter fun arg => !isSwitchWithKey arg key).length } := by
  have hlength := length_switchEntries hc.divider
  have hpos : 1 ≤ c.beginArgs := hc.divider.1
  unfold removeSwitch
  by_cases hkey : c.switches key = none
  · rw [if_pos hkey, hc.agrees.filter_eq_self hkey, ← argv_eq hc.divider,
      Function.update_eq_self_iff.mpr hkey.symm, hlength, Nat.add_sub_cancel' hpos]
  · have hle : ¬(c.beginArgs < 1 ∨ c.argv.length < c.beginArgs) :=
      fun h => h.elim (Nat.not_lt.mpr hpos) (Nat.not_lt.mpr hc.divider.2)
    have hkept := List.length_filter_le (fun arg => !isSwitchWithKey arg key) c.switchEntries
    rw [if_neg hkey, if_neg hle]
    dsimp only
    rw [← switchEntries]
    congr 2
    omega

theorem Agrees.removeSwitch (hc : c.Agrees) (key : StringType) :
    ∃ d, c.removeSwitch key = some d ∧ d.Agrees := by
  obtain ⟨d, hd, hvalid⟩ := removeSwitch_dividerValid hc.divider key
  refine ⟨d, hd, hvalid, ?_⟩
  rw [hc.removeSwitch_eq, Option.some.injEq] at hd
  have hentries : d.switchEntries =
      c.switchEntries.filter fun arg => !isSwitchWithKey arg key := by
    refine switchEntries_of_split (c.argv.take 1) _ (c.argv.drop c.beginArgs) ?_
      (length_take_one hc.divider) ?_
    · rw [← hd]
    · rw [← hd]
  rw [hentries, ← hd]
  exact hc.agrees.remove key

/-- The operations on one object that write switches and arguments. -/
inductive Op where
  | appendSwitch (switchString : StringType)
  | appendSwitchNative (switchString : StringType) (value : ValuePiece)
  | appendSwitchASCII (switchString : StringType) (value : ValuePiece)
  /-- `AppendArg` and `AppendArgNative`. -/
  | appendArg (value : StringType)
  | removeSwitch (key : StringType)
  /-- From another object, or without one from the object itself. -/
  | copySwitchesFrom (source : Option CommandLine) (names : List StringType)
  | appendArguments (other : CommandLine)

/-- The source as the loop of `CopySwitchesFrom` reads it. -/
def readSource (source : Option CommandLine) (self : CommandLine) : CommandLine :=
  source.getD self

/-- One operation. -/
def apply (c : CommandLine) : Op → Option CommandLine
  | .appendSwitch switchString => c.appendSwitch switchString
  | .appendSwitchNative switchString value => c.appendSwitchNativePiece switchString value
  | .appendSwitchASCII switchString value => c.appendSwitchASCII switchString value
  | .appendArg value => some (c.appendArgNative value)
  | .removeSwitch key => c.removeSwitch key
  | .copySwitchesFrom source names => c.copySwitchesFrom (readSource source) names
  | .appendArguments other => c.appendSwitchesAndArguments other.argv

/-- Every key that the operation appends has a text and no separator. -/
def KeysOk (c : CommandLine) : Op → Prop
  | .appendSwitch switchString | .appendSwitchNative switchString _
  | .appendSwitchASCII switchString _ => SwitchKeyOk switchString
  | .appendArg _ | .removeSwitch _ => True
  | .copySwitchesFrom source names => CopiedKeysOk (readSource source) names c
  | .appendArguments other => ParsedKeysOk other.argv

instance (c : CommandLine) : DecidablePred c.KeysOk
  | .appendSwitch _ | .appendSwitchNative .. | .appendSwitchASCII .. =>
    inferInstanceAs (Decidable (SwitchKeyOk _))
  | .appendArg _ | .removeSwitch _ => isTrue trivial
  | .copySwitchesFrom source names =>
    inferInstanceAs (Decidable (CopiedKeysOk (readSource source) names c))
  | .appendArguments other => inferInstanceAs (Decidable (ParsedKeysOk other.argv))

/-- The value of an `AppendSwitchNative` is no view of the map entry that it assigns, unless it is
empty. -/
def ValueStays (c : CommandLine) : Op → Prop
  | .appendSwitchNative switchString value | .appendSwitchASCII switchString value =>
    value.IsOf switchString → value.read c = []
  | _ => True

instance (c : CommandLine) : DecidablePred c.ValueStays
  | .appendSwitchNative .. | .appendSwitchASCII .. => inferInstanceAs (Decidable (_ → _))
  | .appendSwitch _ | .appendArg _ | .removeSwitch _ | .copySwitchesFrom .. | .appendArguments _ =>
    isTrue trivial

theorem Agrees.appendSwitchNativePiece (hc : c.Agrees) {switchString : StringType}
    (hkey : SwitchKeyOk switchString) {value : ValuePiece}
    (hstays : value.IsOf switchString → value.read c = []) :
    ∃ d, c.appendSwitchNativePiece switchString value = some d ∧ d.Agrees := by
  rw [appendSwitchNativePiece_of_stays hstays]
  exact hc.appendSwitchNative hkey (value.read c)

/-- An operation whose value stays keeps the agreement, and any other one is undefined. -/
theorem apply_agrees (c : CommandLine) (op : Op) (hc : c.Agrees)
    (hop : c.KeysOk op ∧ c.ValueStays op) : ∃ d, c.apply op = some d ∧ d.Agrees := by
  obtain ⟨hkeys, hstays⟩ := hop
  cases op with
  | appendSwitch switchString => exact hc.appendSwitchNative hkeys []
  | appendSwitchNative switchString value | appendSwitchASCII switchString value =>
    exact hc.appendSwitchNativePiece hkeys hstays
  | appendArg value => exact ⟨_, rfl, hc.appendArgNative value⟩
  | removeSwitch key => exact hc.removeSwitch key
  | copySwitchesFrom source names => exact hc.copySwitchesFrom (readSource source) hkeys
  | appendArguments other => exact hc.appendSwitchesAndArguments hkeys

theorem valueStays_of_apply (c : CommandLine) (op : Op) (d : CommandLine)
    (h : c.apply op = some d) : c.ValueStays op := by
  cases op with
  | appendSwitchNative switchString value | appendSwitchASCII switchString value =>
    exact stays_of_appendSwitchNativePiece h
  | appendSwitch _ | appendArg _ | removeSwitch _ | copySwitchesFrom _ _ | appendArguments _ =>
    trivial

/-- A key is in the map exactly when an entry of `argv_` in front of the divider has it, with the
text after the first separator of the last such entry; and `RemoveSwitch` takes out the key and its
entries and nothing else. -/
def KeepsBoth (c : CommandLine) : Prop :=
  (∀ key, c.switches key =
    (c.switchEntries.filter (isSwitchWithKey · key)).getLast?.map tokenValue) ∧
  ∀ key, ∃ d, c.removeSwitch key = some d ∧
    d.switches = Function.update c.switches key none ∧
    d.argv = c.argv.take 1 ++ c.switchEntries.filter (fun arg => !isSwitchWithKey arg key) ++
      c.argv.drop c.beginArgs ∧
    d.switchEntries = c.switchEntries.filter fun arg => !isSwitchWithKey arg key

theorem Agrees.keepsBoth (hc : c.Agrees) : c.KeepsBoth := by
  refine ⟨hc.agrees, fun key => ⟨_, hc.removeSwitch_eq key, rfl, rfl, ?_⟩⟩
  exact switchEntries_of_split _ _ _ rfl (length_take_one hc.divider) rfl

/-- Along any sequence of operations that append non-empty keys without a separator, the map and
`argv_` keep both in agreement exactly when no `AppendSwitchNative` takes its value away before it
has read it. -/
theorem keepsBoth_iff (ops : List Op) (hkeys : StepsMeet apply KeysOk noProgram ops) :
    StepsMeet apply ValueStays noProgram ops ↔
      ∀ done, done <+: ops → ∃ c, exec apply noProgram done = some c ∧ c.KeepsBoth := by
  constructor
  · intro hstays done hdone
    have hmeet := (hkeys.and hstays).initial hdone
    obtain ⟨c, hrun, hc⟩ := exec_total apply_agrees noProgram_agrees hmeet
    exact ⟨c, hrun, hc.keepsBoth⟩
  · intro h
    obtain ⟨c, hrun, -⟩ := h ops List.prefix_rfl
    exact stepsMeet_of_exec valueStays_of_apply hrun

/-- `-a` with two values, `--b`, an argument between them, a copy from the object itself, the switch
`-c=` of another object, `b` with the value of `a`, and `a` removed. -/
def twice : List Op :=
  [.appendSwitchNative [0x2D, 0x61] (.text [0x31]), .appendArg [0x78], .appendSwitch [0x62],
    .appendSwitchASCII [0x61] (.text [0x32]), .copySwitchesFrom none [[0x61]],
    .appendArguments { argv := [[], [0x2D, 0x63, 0x3D]], switches := fun _ => none,
                       beginArgs := 1 },
    .appendSwitchNative [0x62] (.ofSwitches [0x61] 0 1), .removeSwitch [0x61]]

theorem keepsBoth_iff_twice :
    ∃ c, exec apply noProgram twice = some c ∧ c.KeepsBoth :=
  (keepsBoth_iff twice (by decide)).mp (by decide) twice List.prefix_rfl

/-- `--a=12`, and then the switch `a` again with the second character of its value: the map entry
holds the one character `2` when the value is read for `argv_`. -/
def ownValue : List Op :=
  [.appendSwitchNative [0x61] (.text [0x31, 0x32]),
    .appendSwitchNative [0x61] (.ofSwitches [0x61] 1 1)]

theorem ownValue_is_gone :
    StepsMeet apply KeysOk noProgram ownValue ∧
      ¬∀ done, done <+: ownValue → ∃ c, exec apply noProgram done = some c ∧ c.KeepsBoth := by
  refine ⟨by decide, fun h => ?_⟩
  obtain ⟨c, hrun, -⟩ := h ownValue List.prefix_rfl
  have hundefined : (exec apply noProgram ownValue).isNone = true := by decide
  rw [hrun] at hundefined
  cases hundefined

end CommandLine

end Sparo.Base
