import Sparo.Base.CommandLine

/-!
# The divider of the command line

`begin_args_` is moved by the operations that insert or remove switches. `InitFromArgv` replaces
`argv_` and leaves the divider where it was, so on an object that has switches it may lie behind
the end of the new vector, and it does so when this vector is the object's own.
-/

namespace Sparo.Base

open StepSystem

namespace CommandLine

variable {c d : CommandLine} {tokens names : List StringType}

/-- How many elements the loop of `AppendSwitchesAndArguments` appends as arguments before the
first switch. -/
def leadingArgs : List StringType → Nat
  | [] => 0
  | arg :: args =>
    if arg = kSwitchTerminator then args.length + 1
    else if (isSwitch arg).isSome then 0
    else leadingArgs args + 1

theorem appendSwitchNative_dividerValid (switchString value : StringType) (hc : c.DividerValid) :
    ∃ d, c.appendSwitchNative switchString value = some d ∧ d.DividerValid ∧
      d.argv.length = c.argv.length + 1 ∧ d.beginArgs = c.beginArgs + 1 := by
  have hle : c.beginArgs ≤ c.argv.length := hc.2
  have hlength := List.length_insertIdx_of_le_length hle (combinedSwitchString switchString value)
  refine ⟨_, if_neg (by omega), ⟨?_, ?_⟩, hlength, rfl⟩
  · exact Nat.le_add_left 1 _
  · dsimp only
    omega

theorem appendArgNative_dividerValid (value : StringType) (hc : c.DividerValid) :
    (c.appendArgNative value).DividerValid := by
  refine ⟨hc.1, ?_⟩
  have hlength : (c.appendArgNative value).argv.length = c.argv.length + 1 := by
    simp [appendArgNative]
  exact (Nat.le_succ_of_le hc.2).trans_eq hlength.symm

/-- With parsing switched off the loop only appends. -/
theorem appendTokens_false_valid_iff (hc : 1 ≤ c.beginArgs) :
    (∃ d, appendTokens false tokens c = some d ∧ d.DividerValid) ↔
      c.beginArgs ≤ c.argv.length + tokens.length := by
  induction tokens generalizing c with
  | nil => simp [appendTokens, DividerValid, hc]
  | cons arg args ih =>
    simp only [appendTokens, Bool.false_and, Bool.false_eq_true, if_false]
    rw [ih (c := c.appendArgNative arg) hc]
    simp only [appendArgNative, List.length_append, List.length_cons, List.length_nil]
    omega

/-- The loop is defined and leaves a valid divider exactly when the arguments before the first
switch fill `argv_` up to the divider. -/
theorem appendTokens_valid_iff (hc : 1 ≤ c.beginArgs) :
    (∃ d, appendTokens true tokens c = some d ∧ d.DividerValid) ↔
      c.beginArgs ≤ c.argv.length + leadingArgs tokens := by
  induction tokens generalizing c with
  | nil => simp [appendTokens, leadingArgs, DividerValid, hc]
  | cons arg args ih =>
    have happend : (c.appendArgNative arg).argv.length = c.argv.length + 1 := by
      simp [appendArgNative]
    have hsame : (c.appendArgNative arg).beginArgs = c.beginArgs := rfl
    by_cases harg : arg = kSwitchTerminator
    · simp only [appendTokens, leadingArgs, harg, ne_eq, not_true_eq_false, decide_false,
        Bool.and_false, Bool.false_eq_true, if_false, if_true]
      rw [← harg, appendTokens_false_valid_iff (c := c.appendArgNative arg) hc, happend, hsame]
      omega
    · simp only [appendTokens, leadingArgs, harg, ne_eq, not_false_eq_true, decide_true,
        Bool.and_true, if_true, if_false]
      cases hswitch : isSwitch arg with
      | none =>
        simp only [Option.isSome_none, Bool.false_eq_true, if_false]
        rw [ih (c := c.appendArgNative arg) hc, happend, hsame]
        omega
      | some found =>
        obtain ⟨switchString, value⟩ := found
        simp only [Option.isSome_some, if_true, Nat.add_zero]
        by_cases hle : c.beginArgs ≤ c.argv.length
        · obtain ⟨d, hd, hvalid, hlength, hbegin⟩ :=
            appendSwitchNative_dividerValid switchString value ⟨hc, hle⟩
          rw [hd, Option.bind_some, ih hvalid.1, hlength, hbegin]
          omega
        · have hundef : c.appendSwitchNative switchString value = none := if_pos (by omega)
          rw [hundef, Option.bind_none]
          exact iff_of_false (by simp) hle

/-- On a command line with a valid divider the loop keeps it valid. -/
theorem appendSwitchesAndArguments_dividerValid (hc : c.DividerValid) (argv : List StringType) :
    ∃ d, c.appendSwitchesAndArguments argv = some d ∧ d.DividerValid :=
  (appendTokens_valid_iff hc.1).mpr (Nat.le_add_right_of_le hc.2)

/-- `InitFromArgv` starts from a vector of one element and the old divider. -/
theorem initFromArgv_valid_iff (hc : c.DividerValid) (argv : List StringType) :
    (∃ d, c.initFromArgv argv = some d ∧ d.DividerValid) ↔
      c.beginArgs ≤ 1 + leadingArgs argv.tail :=
  appendTokens_valid_iff hc.1

/-- With the object's own vector nothing is left to append. -/
theorem initFromOwnArgv_valid_iff (hc : c.DividerValid) :
    (∃ d, c.initFromOwnArgv = some d ∧ d.DividerValid) ↔ c.beginArgs ≤ 1 :=
  appendTokens_valid_iff hc.1

/-- A value that stays until it has been read is as good as its text. -/
theorem appendSwitchNativePiece_of_stays {switchString : StringType} {value : ValuePiece}
    (h : value.IsOf switchString → value.read c = []) :
    c.appendSwitchNativePiece switchString value =
      c.appendSwitchNative switchString (value.read c) :=
  if_neg fun hgone => hgone.2 (h hgone.1)

/-- A view of the entry that is assigned is gone when it is read. -/
theorem stays_of_appendSwitchNativePiece {switchString : StringType} {value : ValuePiece}
    (h : c.appendSwitchNativePiece switchString value = some d) (hof : value.IsOf switchString) :
    value.read c = [] := by
  by_contra hne
  rw [appendSwitchNativePiece, if_pos ⟨hof, hne⟩] at h
  cases h

theorem appendSwitchNativePiece_valid_iff (hc : c.DividerValid) (switchString : StringType)
    (value : ValuePiece) :
    (∃ d, c.appendSwitchNativePiece switchString value = some d ∧ d.DividerValid) ↔
      (value.IsOf switchString → value.read c = []) := by
  constructor
  · rintro ⟨d, hd, -⟩
    exact stays_of_appendSwitchNativePiece hd
  · intro hstays
    obtain ⟨d, hd, hvalid, -⟩ := appendSwitchNative_dividerValid switchString (value.read c) hc
    rw [appendSwitchNativePiece_of_stays hstays]
    exact ⟨d, hd, hvalid⟩

theorem noProgram_dividerValid : noProgram.DividerValid := by decide

theorem ofArgv_dividerValid (argv : List StringType) :
    ∃ d, ofArgv argv = some d ∧ d.DividerValid :=
  (initFromArgv_valid_iff noProgram_dividerValid argv).mpr (Nat.le_add_right 1 _)

theorem copySwitchesFrom_dividerValid (source : CommandLine → CommandLine) (hc : c.DividerValid) :
    ∃ d, c.copySwitchesFrom source names = some d ∧ d.DividerValid := by
  induction names generalizing c with
  | nil => exact ⟨c, rfl, hc⟩
  | cons name names ih =>
    rw [copySwitchesFrom]
    by_cases hhas : (source c).hasSwitch name = true
    · rw [if_pos hhas]
      obtain ⟨d, hd, hvalid, -⟩ :=
        appendSwitchNative_dividerValid name ((source c).getSwitchValueNative name) hc
      rw [hd, Option.bind_some]
      exact ih hvalid
    · rw [if_neg hhas]
      exact ih hc

/-- What `RemoveSwitch` takes out of `argv_` it takes off the divider. -/
theorem removeSwitch_dividerValid (hc : c.DividerValid) (key : StringType) :
    ∃ d, c.removeSwitch key = some d ∧ d.DividerValid := by
  obtain ⟨hpos, hle⟩ := hc
  unfold removeSwitch
  by_cases hkey : c.switches key = none
  · exact ⟨c, if_pos hkey, hpos, hle⟩
  · rw [if_neg hkey, if_neg (by omega)]
    refine ⟨_, rfl, ?_⟩
    have hswitches : ((c.argv.take c.beginArgs).drop 1).length = c.beginArgs - 1 := by
      rw [List.length_drop, List.length_take, Nat.min_eq_left hle]
    have hkept := List.length_filter_le (fun arg => !isSwitchWithKey arg key)
      ((c.argv.take c.beginArgs).drop 1)
    unfold DividerValid
    simp only [List.length_append, List.length_take, List.length_drop] at hswitches hkept ⊢
    omega

end CommandLine

namespace CommandLines

variable {s t : CommandLines} {a : Act}

/-- Nothing undefined has happened, and the divider of every object is valid. -/
def DividersValid (s : CommandLines) : Prop :=
  s.undefined = false ∧ ∀ c ∈ s.objects, c.DividerValid

instance (s : CommandLines) : Decidable s.DividersValid := inferInstanceAs (Decidable (_ ∧ _))

/-- An `InitFromArgv` finds the divider no further than the arguments before the first switch of
the new vector will fill `argv_`; on the object's own `argv()` these are none. The value of an
`AppendSwitchNative` is no view of the map entry that it assigns, unless it is empty. -/
def KeepsDividers (s : CommandLines) : Act → Prop
  | .initFromArgv i argv =>
    ∀ c ∈ s.objects[i]?, c.beginArgs ≤ 1 + CommandLine.leadingArgs argv.tail
  | .initFromOwnArgv i => ∀ c ∈ s.objects[i]?, c.beginArgs ≤ 1
  | .appendSwitchNative i switchString value | .appendSwitchASCII i switchString value =>
    ∀ c ∈ s.objects[i]?, value.IsOf switchString → value.read c = []
  | _ => True

instance (s : CommandLines) : DecidablePred s.KeepsDividers
  | .initFromArgv .. | .initFromOwnArgv _ | .appendSwitchNative .. | .appendSwitchASCII .. =>
    inferInstanceAs (Decidable (∀ c ∈ _, _))
  | .noProgram | .ofArgv .. | .copy .. | .assign .. | .appendSwitch .. | .appendArg ..
  | .appendArguments .. | .copySwitchesFrom .. | .removeSwitch .. => isTrue trivial

theorem push_dividersValid (hs : s.DividersValid) (r : Option CommandLine) :
    (s.push r).DividersValid ↔ ∃ d, r = some d ∧ d.DividerValid := by
  cases r with
  | none => simp [push, DividersValid]
  | some d =>
    simp only [push, DividersValid, hs.1, List.mem_append, List.mem_singleton, true_and,
      Option.some.injEq, exists_eq_left']
    constructor
    · exact fun h => h d (.inr rfl)
    · rintro hd c (hc | rfl)
      · exact hs.2 c hc
      · exact hd

theorem store_dividersValid (hs : s.DividersValid) {i : Nat} {c : CommandLine}
    (hi : s.objects[i]? = some c) (r : Option CommandLine) :
    (s.store i r).DividersValid ↔ ∃ d, r = some d ∧ d.DividerValid := by
  cases r with
  | none => simp [store, DividersValid]
  | some d =>
    simp only [store, DividersValid, hs.1, true_and, Option.some.injEq, exists_eq_left']
    constructor
    · intro h
      exact h d (List.mem_set (List.getElem?_eq_some_iff.mp hi).1 d)
    · intro hd b hb
      rcases List.mem_or_eq_of_mem_set hb with hb | rfl
      · exact hs.2 b hb
      · exact hd

theorem dividerValid_of_getElem? (hs : s.DividersValid) {i : Nat} {c : CommandLine}
    (hi : s.objects[i]? = some c) : c.DividerValid :=
  hs.2 c (List.mem_of_getElem? hi)

/-- From valid dividers an operation leads to valid dividers, or it is an `InitFromArgv` that finds
the divider too far or an `AppendSwitchNative` whose value is gone when it is read again. -/
theorem step_dividersValid_iff (hs : s.DividersValid) (h : step s a = some t) :
    t.DividersValid ↔ KeepsDividers s a := by
  unfold step at h
  rw [hs.1, if_neg (by decide)] at h
  cases a with
  | noProgram =>
    cases h
    rw [push_dividersValid hs]
    exact iff_of_true ⟨_, rfl, CommandLine.noProgram_dividerValid⟩ trivial
  | ofArgv argv =>
    cases h
    rw [push_dividersValid hs]
    exact iff_of_true (CommandLine.ofArgv_dividerValid argv) trivial
  | copy other =>
    obtain ⟨c, hc, rfl⟩ := Option.map_eq_some_iff.mp h
    rw [push_dividersValid hs]
    exact iff_of_true ⟨c, rfl, dividerValid_of_getElem? hs hc⟩ trivial
  | assign i other =>
    obtain ⟨c, hc, h⟩ := Option.bind_eq_some_iff.mp h
    obtain ⟨d, hd, rfl⟩ := Option.map_eq_some_iff.mp h
    rw [store_dividersValid hs hc]
    exact iff_of_true ⟨d, rfl, dividerValid_of_getElem? hs hd⟩ trivial
  | initFromArgv i argv =>
    obtain ⟨c, hc, rfl⟩ := Option.map_eq_some_iff.mp h
    rw [store_dividersValid hs hc,
      CommandLine.initFromArgv_valid_iff (dividerValid_of_getElem? hs hc)]
    simp [KeepsDividers, hc]
  | initFromOwnArgv i =>
    obtain ⟨c, hc, rfl⟩ := Option.map_eq_some_iff.mp h
    rw [store_dividersValid hs hc,
      CommandLine.initFromOwnArgv_valid_iff (dividerValid_of_getElem? hs hc)]
    simp [KeepsDividers, hc]
  | appendSwitch i switchString =>
    obtain ⟨c, hc, rfl⟩ := Option.map_eq_some_iff.mp h
    obtain ⟨d, hd, hvalid, -⟩ := CommandLine.appendSwitchNative_dividerValid switchString []
      (dividerValid_of_getElem? hs hc)
    rw [store_dividersValid hs hc]
    exact iff_of_true ⟨d, hd, hvalid⟩ trivial
  | appendSwitchNative i switchString value | appendSwitchASCII i switchString value =>
    obtain ⟨c, hc, rfl⟩ := Option.map_eq_some_iff.mp h
    have hpiece := CommandLine.appendSwitchNativePiece_valid_iff (dividerValid_of_getElem? hs hc)
      switchString value
    rw [store_dividersValid hs hc]
    refine hpiece.trans ?_
    simp [KeepsDividers, hc]
  | appendArg i value =>
    obtain ⟨c, hc, rfl⟩ := Option.map_eq_some_iff.mp h
    have hvalid := CommandLine.appendArgNative_dividerValid value (dividerValid_of_getElem? hs hc)
    rw [store_dividersValid hs hc]
    exact iff_of_true ⟨_, rfl, hvalid⟩ trivial
  | appendArguments i other =>
    obtain ⟨c, hc, h⟩ := Option.bind_eq_some_iff.mp h
    obtain ⟨d, -, h⟩ := Option.bind_eq_some_iff.mp h
    obtain ⟨r, hr, rfl⟩ := Option.map_eq_some_iff.mp h
    have hdefined : c.appendSwitchesAndArguments d.argv = r := by
      unfold appendArguments at hr
      split at hr
      · cases hr
      · exact Option.some.inj hr
    rw [store_dividersValid hs hc, ← hdefined]
    exact iff_of_true (CommandLine.appendSwitchesAndArguments_dividerValid
      (dividerValid_of_getElem? hs hc) d.argv) trivial
  | copySwitchesFrom i source names =>
    obtain ⟨c, hc, h⟩ := Option.bind_eq_some_iff.mp h
    obtain ⟨d, -, rfl⟩ := Option.map_eq_some_iff.mp h
    rw [store_dividersValid hs hc]
    exact iff_of_true (CommandLine.copySwitchesFrom_dividerValid _
      (dividerValid_of_getElem? hs hc)) trivial
  | removeSwitch i key =>
    obtain ⟨c, hc, rfl⟩ := Option.map_eq_some_iff.mp h
    rw [store_dividersValid hs hc]
    exact iff_of_true (CommandLine.removeSwitch_dividerValid (dividerValid_of_getElem? hs hc) key)
      trivial

/-- Along a sequence of operations every divider stays valid, and nothing undefined happens,
exactly when each `InitFromArgv` finds the divider of its object no further than the arguments
before the first switch fill the new vector, and no `AppendSwitchNative` has a value that it takes
away before it has read it. -/
theorem dividersValid_iff {ops : List Act} (hrun : exec step {} ops = some t) :
    StepsMeet step KeepsDividers {} ops ↔
      ∀ done s, done <+: ops → exec step {} done = some s → s.DividersValid := by
  refine meets_iff_forall_reached (I := fun _ => True) (P := DividersValid) ?_ ?_ trivial
    (by decide) hrun
  · exact fun _ _ _ _ _ => trivial
  · exact fun s a t _ hs h => step_dividersValid_iff hs h

/-- A command line with the switch `-a`, initialized again with an argument `x` and a switch
`-b`. -/
def reinitialized : List Act := [.ofArgv [[], [0x2D, 0x61]],
  .initFromArgv 0 [[], [0x78], [0x2D, 0x62]], .removeSwitch 0 [0x62]]

theorem dividersValid_iff_reinitialized :
    ∃ t, exec step {} reinitialized = some t ∧ StepsMeet step KeepsDividers {} reinitialized ∧
      t.DividersValid := by
  have hends : ∃ t, exec step {} reinitialized = some t ∧ t.objects.length = 1 :=
    exists_exec_of_decide (by decide)
  have hmeet : StepsMeet step KeepsDividers {} reinitialized := by decide
  obtain ⟨t, hrun, -⟩ := hends
  exact ⟨t, hrun, hmeet, (dividersValid_iff hrun).mp hmeet reinitialized t List.prefix_rfl hrun⟩

/-- `InitFromArgv` with no arguments on a command line with the switch `-a` leaves `argv_` with
one element and the divider at 2, and the next `AppendSwitch` inserts behind the end. -/
theorem divider_behind_end :
    (∃ t, exec step {} [.ofArgv [[], [0x2D, 0x61]], .initFromArgv 0 [[]]] = some t ∧
      t.undefined = false ∧ ¬t.DividersValid) ∧
    ∃ t, exec step {} [.ofArgv [[], [0x2D, 0x61]], .initFromArgv 0 [[]], .appendSwitch 0 [0x62]] =
      some t ∧ t.undefined = true :=
  ⟨exists_exec_of_decide (by decide), exists_exec_of_decide (by decide)⟩

end CommandLines

end Sparo.Base
