import Sparo.Base.Proofs.CommandLineGrammar
import Sparo.Misc.LastWins

/-!
# Parsing the normal form of a command line

`argv()` is the form a process hands to its child. A switch without a value is written there
without its `=`, so what is left of a switch that has neither key nor value is a bare prefix, and
a bare prefix is no switch: `--` even ends the parsing of switches.
-/

namespace Sparo.Base

open LastWins

variable {token : StringType}

/-- The tokens `--=` and `-=`, switches with neither key nor value. -/
def IsEmptySwitch (token : StringType) : Prop :=
  token = [hyphen, hyphen, kSwitchValueSeparator] ∨ token = [hyphen, kSwitchValueSeparator]

instance : DecidablePred IsEmptySwitch := fun _ => inferInstanceAs (Decidable (_ ∨ _))

theorem normalToken_cons {b : UInt8} (hb : b ≠ kSwitchValueSeparator) (rest : StringType) :
    normalToken (b :: rest) = b :: normalToken rest := by
  have hbefore : beforeSeparator (b :: rest) = b :: beforeSeparator rest := by
    simp [beforeSeparator, hb]
  have hvalue : tokenValue (b :: rest) = tokenValue rest := by simp [tokenValue, hb]
  unfold normalToken
  rw [hbefore, hvalue]
  split <;> rfl

theorem normalToken_separator (rest : StringType) :
    normalToken (kSwitchValueSeparator :: rest) =
      if rest.isEmpty then [] else kSwitchValueSeparator :: rest := by
  simp [normalToken, beforeSeparator, tokenValue]

theorem normalToken_eq_nil :
    normalToken token = [] ↔ token = [] ∨ token = [kSwitchValueSeparator] := by
  cases token with
  | nil => simp [normalToken, tokenValue, beforeSeparator]
  | cons b rest =>
    by_cases hb : b = kSwitchValueSeparator
    · subst hb
      rw [normalToken_separator]
      cases rest <;> simp
    · simp [normalToken_cons hb, hb]

/-- The normal form keeps what stands before and after the separator. -/
theorem normalToken_parts (token : StringType) :
    beforeSeparator (normalToken token) = beforeSeparator token ∧
      tokenValue (normalToken token) = tokenValue token := by
  induction token with
  | nil => exact ⟨rfl, rfl⟩
  | cons b rest ih =>
    by_cases hb : b = kSwitchValueSeparator
    · subst hb
      rw [normalToken_separator]
      cases rest <;> simp [beforeSeparator, tokenValue]
    · rw [normalToken_cons hb]
      simp only [beforeSeparator, tokenValue, hb, ne_eq, not_false_eq_true, decide_true,
        List.takeWhile_cons_of_pos, List.dropWhile_cons_of_pos] at ih ⊢
      exact ⟨by rw [ih.1], ih.2⟩

theorem normalToken_normalToken (token : StringType) :
    normalToken (normalToken token) = normalToken token := by
  obtain ⟨hbefore, hvalue⟩ := normalToken_parts token
  rw [normalToken, hbefore, hvalue, ← normalToken]

/-- Only the normal forms of the empty switches are no switches. -/
theorem isSwitchToken_normalToken (htoken : isSwitchToken token = true) :
    isSwitchToken (normalToken token) = true ↔ ¬IsEmptySwitch token := by
  rcases isSwitchToken_iff.mp htoken with ⟨rest, hrest, rfl⟩ | ⟨b, rest, hb, rfl⟩
  · rw [normalToken_cons separator_ne_hyphen, normalToken_cons separator_ne_hyphen]
    have hempty : normalToken rest = [] ↔ rest = [kSwitchValueSeparator] := by
      rw [normalToken_eq_nil]
      exact or_iff_right hrest
    simp [isSwitchToken, List.length_pos_iff, hempty, IsEmptySwitch, separator_ne_hyphen]
  · rw [normalToken_cons separator_ne_hyphen]
    by_cases hsep : b = kSwitchValueSeparator
    · subst hsep
      rw [normalToken_separator]
      cases rest with
      | nil => simp [isSwitchToken, prefixLength, kSwitchTerminator, IsEmptySwitch]
      | cons d rest =>
        refine iff_of_true (isSwitchToken_iff.mpr (.inr ⟨_, _, hb, by simp; rfl⟩)) ?_
        simp [IsEmptySwitch, hb]
    · rw [normalToken_cons hsep]
      refine iff_of_true (isSwitchToken_iff.mpr (.inr ⟨b, _, hb, rfl⟩)) ?_
      simp [IsEmptySwitch, hsep, hb]

/-- A normal form that is a switch is the same switch. -/
theorem insertSwitch_normalToken (htoken : isSwitchToken token = true)
    (hnormal : isSwitchToken (normalToken token) = true) (switches : SwitchMap) :
    insertSwitch switches (normalToken token) = insertSwitch switches token := by
  obtain ⟨hbefore, hvalue⟩ := normalToken_parts token
  have hlength : prefixLength (normalToken token) = prefixLength token := by
    rw [← prefixLength_beforeSeparator hnormal, hbefore, prefixLength_beforeSeparator htoken]
  have hkey : tokenKey (normalToken token) = tokenKey token := by
    rw [← drop_beforeSeparator hnormal, hbefore, hlength, drop_beforeSeparator htoken]
  rw [insertSwitch, insertSwitch, hkey, hvalue]

theorem isSwitchToken_terminator : isSwitchToken kSwitchTerminator = false := by decide

/-- The terminator is not among switches. -/
theorem terminator_not_mem_switches {tokens : List StringType}
    (h : ∀ token ∈ tokens, isSwitchToken token = true) : kSwitchTerminator ∉ tokens := by
  intro hmem
  have hswitch := h _ hmem
  rw [isSwitchToken_terminator] at hswitch
  cases hswitch

/-- Switches leave no argument. -/
theorem forall_isSwitchToken_iff {tokens : List StringType} :
    (∀ token ∈ tokens, isSwitchToken token = true) ↔ tokens.filter (!isSwitchToken ·) = [] := by
  simp [List.filter_eq_nil_iff]

theorem foldl_insertSwitch (tokens : List StringType) (switches : SwitchMap) :
    tokens.foldl insertSwitch switches =
      insertAll switches (tokens.map fun token => (tokenKey token, tokenValue token)) := by
  rw [insertAll, List.foldl_map]
  rfl

/-- A switch with neither key nor value. -/
theorem isEmptySwitch_of_parts (htoken : isSwitchToken token = true) (hkey : tokenKey token = [])
    (hvalue : tokenValue token = []) : IsEmptySwitch token := by
  by_contra hempty
  have hnormal := (isSwitchToken_normalToken htoken).mpr hempty
  have hbefore : (beforeSeparator token).length ≤ prefixLength token := by
    rw [← drop_beforeSeparator htoken] at hkey
    exact List.drop_eq_nil_iff.mp hkey
  have heq : normalToken token = beforeSeparator token := by simp [normalToken, hvalue]
  rw [heq, isSwitchToken, prefixLength_beforeSeparator htoken, Bool.and_eq_true,
    decide_eq_true_eq, decide_eq_true_eq] at hnormal
  omega

theorem parts_of_normalToken_eq (htoken : isSwitchToken token = true)
    (hnormal : normalToken token = kSwitchTerminator) :
    tokenKey token = [] ∧ tokenValue token = [] := by
  obtain ⟨hbefore, hvalue⟩ := normalToken_parts token
  rw [hnormal] at hbefore hvalue
  have hlength := prefixLength_beforeSeparator htoken
  rw [← drop_beforeSeparator htoken, ← hlength, ← hbefore, ← hvalue]
  exact ⟨by decide, by decide⟩

/-- A normal form that is a switch has a key or a value. -/
theorem not_isEmptySwitch_normalToken (hnormal : isSwitchToken (normalToken token) = true) :
    ¬IsEmptySwitch (normalToken token) := by
  rw [← isSwitchToken_normalToken hnormal, normalToken_normalToken]
  exact hnormal

namespace CommandLine

variable {argv : List StringType}

/-- The switches of an argument vector as they are written into `argv_`. -/
def normalSwitches (argv : List StringType) : List StringType :=
  ((beforeTerminator argv).filter isSwitchToken).map normalToken

/-- The arguments of an argument vector, with the terminator. -/
def normalArgs (argv : List StringType) : List StringType :=
  (beforeTerminator argv).filter (!isSwitchToken ·) ++ fromTerminator argv

/-- While no switch was turned into the terminator, the parser stops at the same place again. -/
theorem reparse_split (hswitches : kSwitchTerminator ∉ normalSwitches argv) :
    beforeTerminator ([] :: normalSwitches argv ++ normalArgs argv) =
        normalSwitches argv ++ (beforeTerminator argv).filter (!isSwitchToken ·) ∧
      fromTerminator ([] :: normalSwitches argv ++ normalArgs argv) = fromTerminator argv := by
  have hne : ∀ token ∈ normalSwitches argv ++ (beforeTerminator argv).filter (!isSwitchToken ·),
      decide (token ≠ kSwitchTerminator) = true := by
    intro token htoken
    rcases List.mem_append.mp htoken with hmem | hmem
    · exact decide_eq_true (ne_of_mem_of_not_mem hmem hswitches)
    · exact decide_eq_true (ne_of_mem_of_not_mem hmem terminator_not_mem_args)
  have hstop : (fromTerminator argv).takeWhile (· ≠ kSwitchTerminator) = [] ∧
      (fromTerminator argv).dropWhile (· ≠ kSwitchTerminator) = fromTerminator argv := by
    rcases fromTerminator_cases argv with hfrom | ⟨rest, hfrom⟩
    · rw [hfrom]
      exact ⟨rfl, rfl⟩
    · rw [hfrom]
      simp
  constructor
  · rw [beforeTerminator, List.cons_append, List.tail_cons, normalArgs, ← List.append_assoc,
      List.takeWhile_append_of_pos hne, hstop.1, List.append_nil]
  · rw [fromTerminator, List.cons_append, List.tail_cons, normalArgs, ← List.append_assoc,
      List.dropWhile_append_of_pos hne, hstop.2]

theorem ofArgv_argv {c : CommandLine} (h : ofArgv argv = some c) :
    c.argv = [] :: normalSwitches argv ++ normalArgs argv := by
  rw [ofArgv_eq] at h
  cases h
  rfl

theorem foldl_normalToken {tokens : List StringType} (switches : SwitchMap)
    (htokens : ∀ token ∈ tokens, isSwitchToken token = true)
    (hnormal : ∀ token ∈ tokens.map normalToken, isSwitchToken token = true) :
    (tokens.map normalToken).foldl insertSwitch switches = tokens.foldl insertSwitch switches := by
  induction tokens generalizing switches with
  | nil => rfl
  | cons token tokens ih =>
    simp only [List.map_cons, List.mem_cons, forall_eq_or_imp] at htokens hnormal
    rw [List.map_cons, List.foldl_cons, List.foldl_cons,
      insertSwitch_normalToken htokens.1 hnormal.1, ih _ htokens.2 hnormal.2]

theorem map_normalToken_normalSwitches :
    (normalSwitches argv).map normalToken = normalSwitches argv := by
  unfold normalSwitches
  rw [List.map_map]
  exact List.map_congr_left fun token _ => normalToken_normalToken token

/-- Where all switches are written as switches, the normal form is parsed to what it came from. -/
theorem ofArgv_normal {c : CommandLine} (h : ofArgv argv = some c)
    (hnormal : ∀ token ∈ normalSwitches argv, isSwitchToken token = true) :
    ofArgv c.argv = some c := by
  obtain ⟨hbefore, hfrom⟩ := reparse_split (terminator_not_mem_switches hnormal)
  have hswitches : (normalSwitches argv).filter isSwitchToken = normalSwitches argv :=
    List.filter_eq_self.mpr hnormal
  have hnone : (normalSwitches argv).filter (!isSwitchToken ·) = [] :=
    forall_isSwitchToken_iff.mp hnormal
  have hargs : ((beforeTerminator argv).filter (!isSwitchToken ·)).filter isSwitchToken = [] :=
    List.filter_eq_nil_iff.mpr fun token hmem => by
      simpa using (List.mem_filter.mp hmem).2
  have hfold := foldl_normalToken (fun _ => none)
    (fun token hmem => (List.mem_filter.mp hmem).2) hnormal
  rw [ofArgv_argv h, ofArgv_eq, hbefore, hfrom, List.filter_append, hswitches, hargs,
    List.append_nil, List.filter_append, hnone, List.filter_filter, ← h, ofArgv_eq,
    map_normalToken_normalSwitches]
  simp only [Bool.and_self, List.nil_append, Option.some.injEq, mk.injEq]
  refine ⟨rfl, hfold, ?_⟩
  rw [normalSwitches, List.length_map]

/-- A switch that was turned into the terminator makes arguments of everything behind it. -/
theorem split_at_terminator {before after : List StringType}
    (hsplit : normalSwitches argv = before ++ kSwitchTerminator :: after)
    (hbefore : kSwitchTerminator ∉ before) :
    beforeTerminator ([] :: normalSwitches argv ++ normalArgs argv) = before ∧
      fromTerminator ([] :: normalSwitches argv ++ normalArgs argv) =
        kSwitchTerminator :: (after ++ normalArgs argv) := by
  have hne : ∀ token ∈ before, decide (token ≠ kSwitchTerminator) = true :=
    fun token hmem => decide_eq_true (ne_of_mem_of_not_mem hmem hbefore)
  constructor
  · rw [hsplit, beforeTerminator, List.cons_append, List.tail_cons, List.append_assoc,
      List.takeWhile_append_of_pos hne]
    simp
  · rw [hsplit, fromTerminator, List.cons_append, List.tail_cons, List.append_assoc,
      List.dropWhile_append_of_pos hne]
    simp

/-- The arguments that a terminator among the switches adds are too many, unless it stands behind
all of them. -/
theorem reparse_at_terminator {before after : List StringType} {c c' : CommandLine}
    (h : ofArgv argv = some c) (h' : ofArgv c.argv = some c')
    (hsplit : normalSwitches argv = before ++ kSwitchTerminator :: after)
    (hbefore : kSwitchTerminator ∉ before) (hargs : c'.getArgs = c.getArgs) :
    after = [] ∧ beforeTerminator c.argv = before := by
  obtain ⟨hbeforeEq, hfromEq⟩ := split_at_terminator hsplit hbefore
  rw [← ofArgv_argv h] at hbeforeEq hfromEq
  rw [getArgs_eq h, getArgs_eq h', hbeforeEq, hfromEq, List.tail_cons, Option.some.injEq] at hargs
  have hlength := congrArg List.length hargs
  simp only [normalArgs, List.length_append, List.length_tail] at hlength
  exact ⟨List.length_eq_zero_iff.mp (by omega), hbeforeEq⟩

/-- Without the last switch, which has neither key nor value, the map is another one. -/
theorem switches_ne_of_last {before : List StringType}
    (hsplit : normalSwitches argv = before ++ [kSwitchTerminator]) :
    (before.filter isSwitchToken).foldl insertSwitch (fun _ => none) ≠
      ((beforeTerminator argv).filter isSwitchToken).foldl insertSwitch (fun _ => none) := by
  obtain ⟨firsts, lasts, hsw, hfirsts, hlasts⟩ := List.map_eq_append_iff.mp hsplit
  obtain ⟨last, rfl, hlast⟩ := List.map_eq_singleton_iff.mp hlasts
  have hmem : last ∈ (beforeTerminator argv).filter isSwitchToken := by simp [hsw]
  obtain ⟨hkey, hvalue⟩ := parts_of_normalToken_eq (List.mem_filter.mp hmem).2 hlast
  have hfull : ((beforeTerminator argv).filter isSwitchToken).foldl insertSwitch (fun _ => none) []
      = some [] := by
    rw [hsw, List.foldl_append, List.foldl_cons, List.foldl_nil, insertSwitch, hkey, hvalue,
      Function.update_self]
  have hpart : (before.filter isSwitchToken).foldl insertSwitch (fun _ => none) [] ≠ some [] := by
    rw [foldl_insertSwitch]
    apply insertAll_ne (by simp)
    intro hinserted
    obtain ⟨token, htoken, hparts⟩ := List.mem_map.mp hinserted
    obtain ⟨hkey, hvalue⟩ := Prod.mk.inj hparts
    obtain ⟨hbefore, hswitch⟩ := List.mem_filter.mp htoken
    rw [← hfirsts] at hbefore
    obtain ⟨origin, -, rfl⟩ := List.mem_map.mp hbefore
    exact not_isEmptySwitch_normalToken hswitch (isEmptySwitch_of_parts hswitch hkey hvalue)
  intro heq
  exact hpart (by rw [heq, hfull])

/-- A command line that its normal form gives back has all its switches written as switches. -/
theorem normal_of_reparse {c c' : CommandLine} (h : ofArgv argv = some c)
    (h' : ofArgv c.argv = some c') (hswitches : c'.switches = c.switches)
    (hargs : c'.getArgs = c.getArgs) :
    ∀ token ∈ normalSwitches argv, isSwitchToken token = true := by
  by_cases hterm : kSwitchTerminator ∈ normalSwitches argv
  · -- the last switch would be the terminator; then the map lost its empty key
    exfalso
    obtain ⟨before, after, hsplit, hbefore⟩ := List.eq_append_cons_of_mem hterm
    obtain ⟨rfl, hbeforeEq⟩ := reparse_at_terminator h h' hsplit hbefore hargs
    exact switches_ne_of_last hsplit
      (by rw [← hbeforeEq, ← switches_eq h', hswitches, switches_eq h])
  · obtain ⟨hbefore, hfrom⟩ := reparse_split hterm
    rw [getArgs_eq h, getArgs_eq h', ofArgv_argv h, hbefore, hfrom, Option.some.injEq] at hargs
    have hlength := congrArg List.length hargs
    simp only [List.filter_append, List.filter_filter, Bool.and_self, List.length_append]
      at hlength
    have hnone : (normalSwitches argv).filter (!isSwitchToken ·) = [] :=
      List.length_eq_zero_iff.mp (by omega)
    exact forall_isSwitchToken_iff.mpr hnone

theorem normal_iff : (∀ token ∈ normalSwitches argv, isSwitchToken token = true) ↔
    ∀ token ∈ beforeTerminator argv, ¬IsEmptySwitch token := by
  have hswitch : ∀ token, IsEmptySwitch token → isSwitchToken token = true := by
    rintro token (rfl | rfl) <;> decide
  simp only [normalSwitches, List.forall_mem_map, List.mem_filter, and_imp]
  constructor
  · intro h token hmem hempty
    exact (isSwitchToken_normalToken (hswitch token hempty)).mp
      (h token hmem (hswitch token hempty)) hempty
  · intro h token hmem htoken
    exact (isSwitchToken_normalToken htoken).mpr (h token hmem)

/-- Parsing the normal form of a command line again gives the same command line exactly when no
switch before the terminator is `--=` or `-=`. -/
theorem reparse_iff (argv : List StringType) :
    (∃ c c', ofArgv argv = some c ∧ ofArgv c.argv = some c' ∧ c'.argv = c.argv ∧
        c'.switches = c.switches ∧ c'.getArgs = c.getArgs) ↔
      ∀ token ∈ beforeTerminator argv, ¬IsEmptySwitch token := by
  rw [← normal_iff]
  constructor
  · rintro ⟨c, c', h, h', -, hswitches, hargs⟩
    exact normal_of_reparse h h' hswitches hargs
  · intro hnormal
    have h := ofArgv_eq argv
    exact ⟨_, _, h, ofArgv_normal h hnormal, rfl, rfl, rfl⟩

/-- The switch `--=` is written as `--`, which the child takes for the terminator: it has no
switch, and the switch `--a` behind it is an argument there. -/
theorem reparse_loses_switches :
    ∃ c c', ofArgv [[], [0x2D, 0x2D, 0x3D], [0x2D, 0x2D, 0x61]] = some c ∧
      ofArgv c.argv = some c' ∧
      c.switches [0x61] = some [] ∧ c'.switches [0x61] = none ∧
      c.getArgs = some [] ∧ c'.getArgs = some [[0x2D, 0x2D, 0x61]] :=
  ⟨_, _, rfl, rfl, by decide, by decide, by decide, by decide⟩

end CommandLine

end Sparo.Base
