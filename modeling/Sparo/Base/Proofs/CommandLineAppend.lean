import Sparo.Base.Proofs.CommandLineReparse

/-!
# Appending one command line to another

`AppendArguments` parses the other object's `argv()` into an object that may hold a terminator of
its own. Of two terminators `GetArgs` takes out only the first, and a switch with neither key nor
value arrives as a bare prefix.
-/

namespace Sparo.Base

open LastWins StepSystem

variable {token : StringType}

/-- Only `--=` is written as the terminator. -/
theorem normalToken_eq_terminator (htoken : isSwitchToken token = true) :
    normalToken token = kSwitchTerminator ↔
      token = [hyphen, hyphen, kSwitchValueSeparator] := by
  constructor
  · intro hnormal
    have hempty : IsEmptySwitch token := by
      by_contra hempty
      have hswitch := (isSwitchToken_normalToken htoken).mpr hempty
      rw [hnormal, isSwitchToken_terminator] at hswitch
      cases hswitch
    rcases hempty with rfl | rfl
    · rfl
    · exact absurd hnormal (by decide)
  · rintro rfl
    decide

namespace CommandLine

variable {a b c : CommandLine} {argv other : List StringType}

theorem mem_fromTerminator : kSwitchTerminator ∈ fromTerminator argv ↔
    kSwitchTerminator ∈ argv.tail := by
  constructor
  · exact fun hmem => (List.dropWhile_sublist _).subset hmem
  · intro hmem
    rw [← List.takeWhile_append_dropWhile (p := (· ≠ kSwitchTerminator)) (l := argv.tail)] at hmem
    rcases List.mem_append.mp hmem with hbefore | hfrom
    · exact absurd rfl (ne_of_mem_beforeTerminator hbefore)
    · exact hfrom

theorem fromTerminator_eq_nil : fromTerminator argv = [] ↔ kSwitchTerminator ∉ argv.tail := by
  rw [← mem_fromTerminator]
  rcases fromTerminator_cases argv with hfrom | ⟨rest, hfrom⟩ <;> simp [hfrom]

theorem mem_normalArgs : kSwitchTerminator ∈ normalArgs argv ↔
    kSwitchTerminator ∈ argv.tail := by
  rw [normalArgs, List.mem_append, mem_fromTerminator]
  exact or_iff_right terminator_not_mem_args

/-- The arguments that the other object's elements become, as `GetArgs` returns them behind those
of an object that has a terminator or has none. -/
def appendedArgs (argv tokens : List StringType) : List StringType :=
  (beforeTerminator tokens).filter (!isSwitchToken ·) ++
    if kSwitchTerminator ∈ argv.tail then fromTerminator tokens else (fromTerminator tokens).tail

/-- What `AppendArguments` does to an object made from `argv`: its switches are overridden by what
is parsed, and only a first terminator of the appended elements goes. -/
theorem appended_eq (h : ofArgv argv = some a) (tokens : List StringType) :
    ∃ c, a.appendSwitchesAndArguments tokens = some c ∧
      c.switches = ((beforeTerminator tokens).filter isSwitchToken).foldl insertSwitch a.switches ∧
      ∀ as, a.getArgs = some as → c.getArgs = some (as ++ appendedArgs argv tokens) := by
  have hargv := ofArgv_argv h
  have hdivider : a.beginArgs = ([] :: normalSwitches argv).length := by
    rw [ofArgv_eq] at h
    cases h
    simp [normalSwitches, Nat.add_comm]
  refine ⟨_, appendSwitchesAndArguments_eq tokens _ _ hargv hdivider, rfl, ?_⟩
  intro as has
  rw [getArgs_of_split _ _ hargv hdivider, Option.some.injEq] at has
  rw [getArgs_of_split _ _ rfl rfl, ← has, appendedArgs, List.append_assoc, Option.some.injEq]
  by_cases hterm : kSwitchTerminator ∈ argv.tail
  · rw [if_pos hterm, List.erase_append_left _ (mem_normalArgs.mpr hterm)]
  · have hnone : kSwitchTerminator ∉ normalArgs argv := fun hmem => hterm (mem_normalArgs.mp hmem)
    rw [if_neg hterm, List.erase_append_right _ hnone, erase_terminator,
      List.erase_of_not_mem hnone]

/-- The appended arguments are exactly those of the other object. -/
def ArgsKept (argv other : List StringType) : Prop :=
  appendedArgs argv ([] :: normalSwitches other ++ normalArgs other) =
    (beforeTerminator other).filter (!isSwitchToken ·) ++ (fromTerminator other).tail

/-- While no switch was turned into the terminator, the arguments are kept if all switches are
written as switches and there are not two terminators. -/
theorem argsKept_of_not_mem (hswitches : kSwitchTerminator ∉ normalSwitches other) :
    ArgsKept argv other ↔ (∀ token ∈ normalSwitches other, isSwitchToken token = true) ∧
      (kSwitchTerminator ∉ argv.tail ∨ kSwitchTerminator ∉ other.tail) := by
  obtain ⟨hbefore, hfrom⟩ := reparse_split hswitches
  rw [ArgsKept, appendedArgs, hbefore, hfrom, List.filter_append, List.filter_filter,
    forall_isSwitchToken_iff]
  simp only [Bool.and_self]
  constructor
  · intro heq
    have hlength := congrArg List.length heq
    by_cases hterm : kSwitchTerminator ∈ argv.tail
    · simp only [if_pos hterm, List.length_append, List.length_tail] at hlength
      have hnone : fromTerminator other = [] := List.length_eq_zero_iff.mp (by omega)
      exact ⟨List.length_eq_zero_iff.mp (by omega), .inr (fromTerminator_eq_nil.mp hnone)⟩
    · simp only [if_neg hterm, List.length_append, List.length_tail] at hlength
      exact ⟨List.length_eq_zero_iff.mp (by omega), .inl hterm⟩
  · rintro ⟨hnil, hterm⟩
    rw [hnil, List.nil_append]
    rcases hterm with hterm | hterm
    · rw [if_neg hterm]
    · rw [fromTerminator_eq_nil.mpr hterm, List.tail_nil, ite_self]

/-- A switch that was turned into the terminator leaves the arguments as they are only as the last
switch, where neither vector has a terminator. -/
theorem argsKept_of_split {before after : List StringType}
    (hsplit : normalSwitches other = before ++ kSwitchTerminator :: after)
    (hbefore : kSwitchTerminator ∉ before) :
    ArgsKept argv other ↔ after = [] ∧ (∀ token ∈ before, isSwitchToken token = true) ∧
      kSwitchTerminator ∉ argv.tail ∧ kSwitchTerminator ∉ other.tail := by
  obtain ⟨hbeforeEq, hfromEq⟩ := split_at_terminator hsplit hbefore
  rw [ArgsKept, appendedArgs, hbeforeEq, hfromEq, forall_isSwitchToken_iff, normalArgs,
    List.tail_cons]
  constructor
  · intro heq
    have hlength := congrArg List.length heq
    by_cases hterm : kSwitchTerminator ∈ argv.tail
    · simp only [if_pos hterm, List.length_append, List.length_cons, List.length_tail] at hlength
      omega
    · simp only [if_neg hterm, List.length_append, List.length_tail] at hlength
      have hnone : fromTerminator other = [] := List.length_eq_zero_iff.mp (by omega)
      exact ⟨List.length_eq_zero_iff.mp (by omega), List.length_eq_zero_iff.mp (by omega), hterm,
        fromTerminator_eq_nil.mp hnone⟩
  · rintro ⟨rfl, hnil, hterm, hother⟩
    rw [if_neg hterm, hnil, fromTerminator_eq_nil.mpr hother]
    simp

/-- `b`'s switches override those of `a`. -/
def Overridden (a b c : CommandLine) : Prop :=
  ∀ key, c.switches key = (b.switches key).or (a.switches key)

/-- The switches that are parsed from the normal form override the old ones as the other object's
switches do. -/
theorem overridden_of_normal (hb : ofArgv other = some b)
    (hnormal : ∀ token ∈ normalSwitches other, isSwitchToken token = true)
    (hc : c.switches = (normalSwitches other).foldl insertSwitch a.switches) :
    Overridden a b c := by
  have hfold := foldl_normalToken a.switches (fun token hmem => (List.mem_filter.mp hmem).2) hnormal
  rw [← normalSwitches, ← hc] at hfold
  intro key
  rw [hfold, switches_eq hb, foldl_insertSwitch, foldl_insertSwitch, insertAll_eq_or]

/-- Without its last switch, `--=`, the other object has no empty key with an empty value, so only
an object that has one already looks as it should. -/
theorem overridden_of_last {firsts : List StringType} (hb : ofArgv other = some b)
    (hswitches : (beforeTerminator other).filter isSwitchToken =
      firsts ++ [[hyphen, hyphen, kSwitchValueSeparator]])
    (hnormal : ∀ token ∈ firsts.map normalToken, isSwitchToken token = true)
    (hc : c.switches = (firsts.map normalToken).foldl insertSwitch a.switches) :
    Overridden a b c ↔ a.switches [] = some [] ∧ ∀ token ∈ firsts, tokenKey token ≠ [] := by
  have hfirsts : ∀ token ∈ firsts, isSwitchToken token = true := fun token hmem => by
    have hmem : token ∈ (beforeTerminator other).filter isSwitchToken := by
      rw [hswitches]
      exact List.mem_append_left _ hmem
    exact (List.mem_filter.mp hmem).2
  rw [foldl_normalToken _ hfirsts hnormal, foldl_insertSwitch] at hc
  have hbkey : ∀ key, b.switches key = if key = [] then some [] else
      lastValue (firsts.map fun token => (tokenKey token, tokenValue token)) key := by
    intro key
    rw [switches_eq hb, hswitches, List.foldl_append, List.foldl_cons, List.foldl_nil,
      foldl_insertSwitch, insertSwitch, Function.update_apply, insertAll_apply, Option.or_none]
    rfl
  have hempty : lastValue (firsts.map fun token => (tokenKey token, tokenValue token)) [] ≠
      some [] := by
    intro hlast
    obtain ⟨token, hmem, hparts⟩ := List.mem_map.mp (mem_of_lastValue hlast)
    obtain ⟨hkey, hvalue⟩ := Prod.mk.inj hparts
    have hswitch := hfirsts token hmem
    exact (isSwitchToken_normalToken hswitch).mp (hnormal _ (List.mem_map_of_mem hmem))
      (isEmptySwitch_of_parts hswitch hkey hvalue)
  have hkeys : (∀ token ∈ firsts, tokenKey token ≠ []) ↔
      lastValue (firsts.map fun token => (tokenKey token, tokenValue token)) [] = none := by
    simp [lastValue_eq_none]
  rw [hkeys, Overridden]
  constructor
  · intro hover
    have hover := hover []
    rw [hbkey, hc, insertAll_apply, if_pos rfl, Option.some_or] at hover
    rcases Option.or_eq_some_iff.mp hover with hlast | ⟨hnone, ha⟩
    · exact absurd hlast hempty
    · exact ⟨ha, hnone⟩
  · rintro ⟨ha, hnone⟩ key
    rw [hbkey, hc, insertAll_apply]
    by_cases hkey : key = []
    · rw [if_pos hkey, hkey, hnone, ha, Option.none_or, Option.some_or]
    · rw [if_neg hkey]

/-- The two vectors do not both have a terminator, and no switch of the other one is `--=` or
`-=`. -/
def Appendable (argv other : List StringType) : Prop :=
  (kSwitchTerminator ∉ argv.tail ∨ kSwitchTerminator ∉ other.tail) ∧
    ∀ token ∈ beforeTerminator other, ¬IsEmptySwitch token

instance (argv other : List StringType) : Decidable (Appendable argv other) :=
  inferInstanceAs (Decidable (_ ∧ _))

/-- Neither vector has a terminator, and the other one ends with the switch `--=`, the only one
with an empty key, which `a` holds already with an empty value. -/
def RepeatsEmptyKey (a : CommandLine) (argv other : List StringType) : Prop :=
  kSwitchTerminator ∉ argv.tail ∧ kSwitchTerminator ∉ other.tail ∧ a.switches [] = some [] ∧
    ∃ firsts, (beforeTerminator other).filter isSwitchToken =
        firsts ++ [[hyphen, hyphen, kSwitchValueSeparator]] ∧
      ∀ token ∈ firsts, tokenKey token ≠ []

section Appended

/-! `c` is `a` with the switches that are parsed from `b.argv()`. -/

variable (hb : ofArgv other = some b)
  (hc : c.switches = ((beforeTerminator b.argv).filter isSwitchToken).foldl insertSwitch a.switches)

include hb hc

theorem kept_of_appendable (happend : Appendable argv other) :
    Overridden a b c ∧ ArgsKept argv other := by
  obtain ⟨hterms, hempty⟩ := happend
  have hnormal := normal_iff.mpr hempty
  have hterm := terminator_not_mem_switches hnormal
  have hargs : ((beforeTerminator other).filter (!isSwitchToken ·)).filter isSwitchToken = [] := by
    simp
  rw [ofArgv_argv hb, (reparse_split hterm).1, List.filter_append,
    List.filter_eq_self.mpr hnormal, hargs, List.append_nil] at hc
  exact ⟨overridden_of_normal hb hnormal hc, (argsKept_of_not_mem hterm).mpr ⟨hnormal, hterms⟩⟩

theorem kept_of_repeats (hrepeat : RepeatsEmptyKey a argv other) :
    Overridden a b c ∧ ArgsKept argv other := by
  obtain ⟨hargv, hother, hkey, firsts, hswitches, hkeys⟩ := hrepeat
  have hsplit : normalSwitches other = firsts.map normalToken ++ kSwitchTerminator :: [] := by
    rw [normalSwitches, hswitches, List.map_append]
    rfl
  have hfirsts : ∀ token ∈ firsts.map normalToken, isSwitchToken token = true := by
    simp only [List.forall_mem_map]
    intro token hmem
    have hswitch : token ∈ (beforeTerminator other).filter isSwitchToken := by
      rw [hswitches]
      exact List.mem_append_left _ hmem
    refine (isSwitchToken_normalToken (List.mem_filter.mp hswitch).2).mpr ?_
    rintro (rfl | rfl) <;> exact hkeys _ hmem (by decide)
  have hbefore := terminator_not_mem_switches hfirsts
  rw [ofArgv_argv hb, (split_at_terminator hsplit hbefore).1,
    List.filter_eq_self.mpr hfirsts] at hc
  exact ⟨(overridden_of_last hb hswitches hfirsts hc).mpr ⟨hkey, hkeys⟩,
    (argsKept_of_split hsplit hbefore).mpr ⟨rfl, hfirsts, hargv, hother⟩⟩

theorem appendable_or_repeats (hover : Overridden a b c) (hkept : ArgsKept argv other) :
    Appendable argv other ∨ RepeatsEmptyKey a argv other := by
  by_cases hterm : kSwitchTerminator ∈ normalSwitches other
  · obtain ⟨before, after, hsplit, hbefore⟩ := List.eq_append_cons_of_mem hterm
    obtain ⟨rfl, hnormal, hargv, hother⟩ := (argsKept_of_split hsplit hbefore).mp hkept
    obtain ⟨firsts, lasts, hswitches, rfl, hlasts⟩ := List.map_eq_append_iff.mp hsplit
    obtain ⟨last, rfl, hlast⟩ := List.map_eq_singleton_iff.mp hlasts
    have hswitch : last ∈ (beforeTerminator other).filter isSwitchToken := by simp [hswitches]
    rw [normalToken_eq_terminator (List.mem_filter.mp hswitch).2] at hlast
    subst hlast
    rw [ofArgv_argv hb, (split_at_terminator hsplit hbefore).1,
      List.filter_eq_self.mpr hnormal] at hc
    obtain ⟨hkey, hkeys⟩ := (overridden_of_last hb hswitches hnormal hc).mp hover
    exact .inr ⟨hargv, hother, hkey, firsts, hswitches, hkeys⟩
  · obtain ⟨hnormal, hterms⟩ := (argsKept_of_not_mem hterm).mp hkept
    exact .inl ⟨hterms, normal_iff.mp hnormal⟩

end Appended

/-- Of two objects made from argument vectors, `AppendArguments` puts the switches of the second
over those of the first and its arguments behind the other's exactly when at most one of the
vectors has a terminator and no switch of the second is `--=` or `-=`, or when the only such switch
is a last `--=` that repeats what the first has for the empty key. -/
theorem appendArguments_iff (argv other : List StringType) :
    (∃ a b c as bs, ofArgv argv = some a ∧ ofArgv other = some b ∧
        exec CommandLines.step {} [.ofArgv argv, .ofArgv other, .appendArguments 0 1] =
          some { objects := [c, b] } ∧
        Overridden a b c ∧
        a.getArgs = some as ∧ b.getArgs = some bs ∧ c.getArgs = some (as ++ bs)) ↔
      Appendable argv other ∨ ∃ a, ofArgv argv = some a ∧ RepeatsEmptyKey a argv other := by
  obtain ⟨a, ha⟩ : ∃ a, ofArgv argv = some a := ⟨_, ofArgv_eq argv⟩
  obtain ⟨b, hb⟩ : ∃ b, ofArgv other = some b := ⟨_, ofArgv_eq other⟩
  obtain ⟨c, hc, hswitches, hargs⟩ := appended_eq ha b.argv
  have hrun : exec CommandLines.step {} [.ofArgv argv, .ofArgv other, .appendArguments 0 1] =
      some { objects := [c, b] } := by
    simp [exec, CommandLines.step, CommandLines.push, CommandLines.store,
      CommandLines.appendArguments, ha, hb, hc]
  have hkept : (∃ as bs, a.getArgs = some as ∧ b.getArgs = some bs ∧
      c.getArgs = some (as ++ bs)) ↔ ArgsKept argv other := by
    rw [getArgs_eq ha] at hargs ⊢
    rw [getArgs_eq hb, ArgsKept, ← ofArgv_argv hb]
    simp [hargs]
  have hiff : Overridden a b c ∧ ArgsKept argv other ↔
      Appendable argv other ∨ RepeatsEmptyKey a argv other := by
    constructor
    · exact fun h => appendable_or_repeats hb hswitches h.1 h.2
    · rintro (h | h)
      · exact kept_of_appendable hb hswitches h
      · exact kept_of_repeats hb hswitches h
  constructor
  · rintro ⟨a', b', c', as, bs, ha', hb', hrun', hover, hrest⟩
    obtain rfl : a = a' := Option.some.inj (ha.symm.trans ha')
    obtain rfl : b = b' := Option.some.inj (hb.symm.trans hb')
    obtain rfl : c = c' := by simpa using hrun.symm.trans hrun'
    exact (hiff.mp ⟨hover, hkept.mp ⟨as, bs, hrest⟩⟩).imp_right fun h => ⟨a, ha, h⟩
  · intro h
    have h : Appendable argv other ∨ RepeatsEmptyKey a argv other :=
      h.imp_right (by
        rintro ⟨a', ha', h⟩
        obtain rfl : a = a' := Option.some.inj (ha.symm.trans ha')
        exact h)
    obtain ⟨hover, hargs⟩ := hiff.mpr h
    obtain ⟨as, bs, hrest⟩ := hkept.mpr hargs
    exact ⟨a, b, c, as, bs, ha, hb, hrun, hover, hrest⟩

/-- With a terminator in both vectors the second one stays among the arguments, and a switch `--=`
makes an argument of the switch `--a` behind it. -/
theorem appendArguments_loses :
    (∃ a b c, ofArgv [[], kSwitchTerminator, [0x78]] = some a ∧
      ofArgv [[], kSwitchTerminator, [0x79]] = some b ∧
      a.appendSwitchesAndArguments b.argv = some c ∧ a.getArgs = some [[0x78]] ∧
      b.getArgs = some [[0x79]] ∧ c.getArgs = some [[0x78], kSwitchTerminator, [0x79]]) ∧
    ∃ a b c, ofArgv [[]] = some a ∧
      ofArgv [[], [0x2D, 0x2D, 0x3D], [0x2D, 0x2D, 0x61]] = some b ∧
      a.appendSwitchesAndArguments b.argv = some c ∧ b.switches [0x61] = some [] ∧
      c.switches [0x61] = none ∧ c.getArgs = some [[0x2D, 0x2D, 0x61]] :=
  ⟨⟨_, _, _, rfl, rfl, rfl, by decide, by decide, by decide⟩,
    ⟨_, _, _, rfl, rfl, rfl, by decide, by decide, by decide⟩⟩

end CommandLine

end Sparo.Base
