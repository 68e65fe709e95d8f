import Sparo.Base.Proofs.CommandLineAgreement
import Sparo.Misc.LastWins
import Mathlib.Data.Finset.Max

/-!
# Copying switches between command lines

`CopySwitchesFrom` looks a name up in the source as it stands and hands it to `AppendSwitchNative`,
which takes a prefix off it. The parser can leave a prefix in front of a key (the key of `---x` is
`-x`), and such a key arrives in the destination under another name.
-/

namespace Sparo.Base

namespace CommandLine

open LastWins

variable {c : CommandLine} {names : List StringType}

/-- What `CopySwitchesFrom` is for: every listed switch of the source, with its value, and nothing
else. The source is the object itself where there is no other. -/
def CopiesFaithfully (c : CommandLine) (source : Option CommandLine) (names : List StringType) :
    Prop :=
  ∃ d, c.copySwitchesFrom (readSource source) names = some d ∧
    (∀ name ∈ names,
      (d.hasSwitch name = true ↔
        c.hasSwitch name = true ∨ (readSource source c).hasSwitch name = true) ∧
      d.getSwitchValueNative name =
        if (readSource source c).hasSwitch name then
          (readSource source c).getSwitchValueNative name
        else c.getSwitchValueNative name) ∧
    ∀ key ∉ names, d.switches key = c.switches key

/-- No listed name that the source has starts with a prefix; and if there is one to copy, the
divider of the destination does not lie behind the end of its `argv_`. -/
def CopiesBareNames (c source : CommandLine) (names : List StringType) : Prop :=
  ∀ name ∈ names, source.hasSwitch name = true →
    getSwitchPrefixLength name = 0 ∧ c.beginArgs ≤ c.argv.length

/-- The insertions into the map that the loop makes, in order. -/
def copiedSwitches (source : CommandLine) (names : List StringType) :
    List (StringType × StringType) :=
  (names.filter source.hasSwitch).map fun name => (switchKey name, source.getSwitchValueNative name)

theorem switches_of_hasSwitch {key : StringType} (h : c.hasSwitch key = true) :
    c.switches key = some (c.getSwitchValueNative key) := by
  obtain ⟨value, hvalue⟩ := Option.isSome_iff_exists.mp h
  rw [getSwitchValueNative, hvalue, Option.getD_some]

theorem appendSwitchNative_switches (switchString value : StringType)
    (hc : c.beginArgs ≤ c.argv.length) :
    ∃ d, c.appendSwitchNative switchString value = some d ∧
      d.switches = Function.update c.switches (switchKey switchString) (some value) ∧
      d.beginArgs ≤ d.argv.length := by
  refine ⟨_, if_neg (Nat.not_lt.mpr hc), ?_, ?_⟩
  · rw [switchKey, getSwitchPrefixLength_eq]
  · rw [List.length_insertIdx_of_le_length hc]
    exact Nat.succ_le_succ hc

/-- The map of the destination after the loop. -/
theorem copySwitchesFrom_switches (names : List StringType) (source : CommandLine)
    (hc : c.beginArgs ≤ c.argv.length) :
    ∃ d, c.copySwitchesFrom (fun _ => source) names = some d ∧
      d.switches = insertAll c.switches (copiedSwitches source names) := by
  induction names generalizing c with
  | nil => exact ⟨c, rfl, rfl⟩
  | cons name names ih =>
    rw [copySwitchesFrom]
    by_cases hhas : source.hasSwitch name = true
    · obtain ⟨d, hd, hswitches, hle⟩ :=
        appendSwitchNative_switches name (source.getSwitchValueNative name) hc
      obtain ⟨e, he, hrest⟩ := ih hle
      refine ⟨e, ?_, ?_⟩
      · rw [if_pos hhas, hd, Option.bind_some, he]
      · rw [hrest, hswitches, copiedSwitches, copiedSwitches, List.filter_cons_of_pos hhas]
        rfl
    · obtain ⟨e, he, hrest⟩ := ih hc
      refine ⟨e, by rw [if_neg hhas, he], ?_⟩
      rw [hrest, copiedSwitches, copiedSwitches, List.filter_cons_of_neg hhas]

/-- A switch that an object appends to itself under its own key is there already. -/
theorem copySwitchesFrom_self (hbare : CopiesBareNames c c names) :
    ∃ d, c.copySwitchesFrom id names = some d ∧ d.switches = c.switches := by
  induction names generalizing c with
  | nil => exact ⟨c, rfl, rfl⟩
  | cons name names ih =>
    rw [copySwitchesFrom]
    by_cases hhas : c.hasSwitch name = true
    · obtain ⟨hzero, hle⟩ := hbare name List.mem_cons_self hhas
      obtain ⟨d, hd, hswitches, hle'⟩ :=
        appendSwitchNative_switches name (c.getSwitchValueNative name) hle
      have hsame : d.switches = c.switches := by
        rw [hswitches, switchKey, ← getSwitchPrefixLength_eq, hzero, List.drop_zero,
          ← switches_of_hasSwitch hhas, Function.update_eq_self]
      have hrest : CopiesBareNames d d names := by
        intro other hother hd
        rw [hasSwitch, hsame] at hd
        exact ⟨(hbare other (List.mem_cons_of_mem name hother) hd).1, hle'⟩
      obtain ⟨e, he, hmap⟩ := ih hrest
      refine ⟨e, ?_, hmap.trans hsame⟩
      rw [id, if_pos hhas, hd, Option.bind_some, he]
    · obtain ⟨e, he, hmap⟩ := ih fun other hother =>
        hbare other (List.mem_cons_of_mem name hother)
      exact ⟨e, by rw [id, if_neg hhas, he], hmap⟩

/-- With bare names every insertion is one of a listed name, with the source's value for it. -/
theorem insertAll_copiedSwitches {source : CommandLine} (hbare : CopiesBareNames c source names)
    (key : StringType) :
    insertAll c.switches (copiedSwitches source names) key =
      if key ∈ names ∧ source.hasSwitch key = true then source.switches key
      else c.switches key := by
  have hmem : ∀ value, (key, value) ∈ copiedSwitches source names →
      key ∈ names ∧ source.hasSwitch key = true ∧ source.switches key = some value := by
    intro value hvalue
    obtain ⟨name, hname, heq⟩ := List.mem_map.mp hvalue
    obtain ⟨hlisted, hhas⟩ := List.mem_filter.mp hname
    obtain ⟨hkey, hval⟩ := Prod.mk.inj heq
    rw [switchKey, ← getSwitchPrefixLength_eq, (hbare name hlisted hhas).1, List.drop_zero]
      at hkey
    subst hkey
    exact ⟨hlisted, hhas, by rw [switches_of_hasSwitch hhas, hval]⟩
  rw [insertAll_apply]
  cases hlast : lastValue (copiedSwitches source names) key with
  | some value =>
    obtain ⟨hlisted, hhas, hval⟩ := hmem value (mem_of_lastValue hlast)
    rw [Option.some_or, if_pos ⟨hlisted, hhas⟩, hval]
  | none =>
    have hout : ¬(key ∈ names ∧ source.hasSwitch key = true) := by
      rintro ⟨hlisted, hhas⟩
      refine lastValue_eq_none.mp hlast (List.mem_map.mpr
        ⟨_, List.mem_map.mpr ⟨key, List.mem_filter.mpr ⟨hlisted, hhas⟩, rfl⟩, ?_⟩)
      rw [switchKey, ← getSwitchPrefixLength_eq, (hbare key hlisted hhas).1, List.drop_zero]
    rw [Option.none_or, if_neg hout]

/-- A map with the source's value of every listed switch is what the copy is for. -/
theorem CopiesFaithfully.of_switches {source : Option CommandLine} {d : CommandLine}
    (hd : c.copySwitchesFrom (readSource source) names = some d)
    (hswitches : ∀ key, d.switches key =
      if key ∈ names ∧ (readSource source c).hasSwitch key = true then
        (readSource source c).switches key
      else c.switches key) : CopiesFaithfully c source names := by
  refine ⟨d, hd, ?_, ?_⟩
  · intro name hname
    by_cases hhas : (readSource source c).hasSwitch name = true
    · have hvalue := (hswitches name).trans (if_pos ⟨hname, hhas⟩)
      refine ⟨?_, ?_⟩
      · rw [hasSwitch, hvalue]
        exact ⟨fun _ => .inr hhas, fun _ => hhas⟩
      · rw [if_pos hhas, getSwitchValueNative, hvalue, getSwitchValueNative]
    · have hvalue := (hswitches name).trans (if_neg fun h => hhas h.2)
      refine ⟨?_, ?_⟩
      · rw [hasSwitch, hvalue]
        exact ⟨.inl, fun h => h.elim id fun h => absurd h hhas⟩
      · rw [if_neg hhas, getSwitchValueNative, hvalue, getSwitchValueNative]
  · intro key hkey
    rw [hswitches, if_neg fun h => hkey h.1]

theorem copySwitchesFrom_nothing (source : CommandLine)
    (hnothing : ∀ name ∈ names, ¬source.hasSwitch name = true) :
    c.copySwitchesFrom (fun _ => source) names = some c := by
  induction names with
  | nil => rfl
  | cons name names ih =>
    rw [copySwitchesFrom, if_neg (hnothing name List.mem_cons_self)]
    exact ih fun other hother => hnothing other (List.mem_cons_of_mem name hother)

/-- The first switch to copy is inserted behind the end. -/
theorem copySwitchesFrom_behind_end (source : CommandLine) (hc : c.argv.length < c.beginArgs)
    {name : StringType} (hname : name ∈ names) (hhas : source.hasSwitch name = true) :
    c.copySwitchesFrom (fun _ => source) names = none := by
  induction names with
  | nil => cases hname
  | cons other names ih =>
    rw [copySwitchesFrom]
    by_cases hother : source.hasSwitch other = true
    · rw [if_pos hother, appendSwitchNative]
      exact congrArg (Option.bind · _) (if_pos hc)
    · rw [if_neg hother]
      refine ih ((List.mem_cons.mp hname).resolve_left ?_)
      rintro rfl
      exact hother hhas

theorem copiesFaithfully_of_bareNames (source : Option CommandLine)
    (hbare : CopiesBareNames c (readSource source c) names) : CopiesFaithfully c source names := by
  cases source with
  | none =>
    obtain ⟨d, hd, hswitches⟩ := copySwitchesFrom_self hbare
    refine .of_switches hd fun key => ?_
    rw [hswitches]
    exact (ite_self _).symm
  | some source =>
    by_cases hany : ∃ name ∈ names, source.hasSwitch name = true
    · obtain ⟨name, hname, hhas⟩ := hany
      obtain ⟨d, hd, hswitches⟩ :=
        copySwitchesFrom_switches names source (hbare name hname hhas).2
      refine .of_switches hd fun key => ?_
      rw [hswitches]
      exact insertAll_copiedSwitches hbare key
    · have hnothing : ∀ name ∈ names, ¬source.hasSwitch name = true :=
        fun name hname hhas => hany ⟨name, hname, hhas⟩
      refine .of_switches (copySwitchesFrom_nothing source hnothing) fun key => ?_
      exact (if_neg fun h => hnothing key h.1 h.2).symm

/-- A name with a prefix is longer than the key it is stored under, so the longest of these that
are copied is itself not written. -/
theorem exists_name_not_copied {source : CommandLine}
    (hprefixed : ∃ name ∈ names, source.hasSwitch name = true ∧ prefixLength name ≠ 0) :
    ∃ name ∈ names, source.hasSwitch name = true ∧ prefixLength name ≠ 0 ∧
      lastValue (copiedSwitches source names) name = none := by
  obtain ⟨first, hfirst, hfirstHas, hfirstPos⟩ := hprefixed
  obtain ⟨longest, hlongest, hmax⟩ := Finset.exists_max_image
    (names.toFinset.filter fun name => source.hasSwitch name = true ∧ prefixLength name ≠ 0)
    List.length ⟨first, by simp [hfirst, hfirstHas, hfirstPos]⟩
  simp only [Finset.mem_filter, List.mem_toFinset] at hlongest hmax
  obtain ⟨hlisted, hhas, hpos⟩ := hlongest
  refine ⟨longest, hlisted, hhas, hpos, lastValue_eq_none.mpr fun hmem => ?_⟩
  obtain ⟨entry, hentry, hkey⟩ := List.mem_map.mp hmem
  obtain ⟨writer, hwriter, rfl⟩ := List.mem_map.mp hentry
  obtain ⟨hwlisted, hwhas⟩ := List.mem_filter.mp hwriter
  change switchKey writer = longest at hkey
  by_cases hzero : prefixLength writer = 0
  · rw [switchKey, hzero, List.drop_zero] at hkey
    exact hpos (hkey ▸ hzero)
  · have hle := hmax writer ⟨hwlisted, hwhas, hzero⟩
    have hstripped := prefixLength_le writer
    rw [← hkey, switchKey, List.length_drop] at hle
    omega

/-- A copy that is faithful although a name carries a prefix goes to a destination that had the
value before. -/
theorem CopiesFaithfully.bareNames_or {source : CommandLine}
    (hfaithful : CopiesFaithfully c (some source) names) :
    CopiesBareNames c source names ∨ ∃ name ∈ names, getSwitchPrefixLength name ≠ 0 ∧
      source.hasSwitch name = true ∧ c.switches name = source.switches name := by
  by_cases hbare : CopiesBareNames c source names
  · exact .inl hbare
  · right
    obtain ⟨d, hd, hlisted, -⟩ := hfaithful
    obtain ⟨name, hname, hhas, hnot⟩ : ∃ name ∈ names, source.hasSwitch name = true ∧
        ¬(getSwitchPrefixLength name = 0 ∧ c.beginArgs ≤ c.argv.length) := by
      simpa [CopiesBareNames] using hbare
    have hle : c.beginArgs ≤ c.argv.length := by
      refine Nat.not_lt.mp fun hlt => ?_
      rw [show readSource (some source) = fun _ => source from rfl,
        copySwitchesFrom_behind_end source hlt hname hhas] at hd
      cases hd
    have hpos : prefixLength name ≠ 0 := fun hzero =>
      hnot ⟨(getSwitchPrefixLength_eq name).trans hzero, hle⟩
    obtain ⟨longest, hmem, hlongestHas, hlongestPos, hlast⟩ :=
      exists_name_not_copied ⟨name, hname, hhas, hpos⟩
    obtain ⟨e, he, hswitches⟩ := copySwitchesFrom_switches names source hle
    obtain rfl : d = e := Option.some.inj (hd.symm.trans he)
    have hunchanged : d.switches longest = c.switches longest := by
      rw [hswitches, insertAll_apply, hlast, Option.none_or]
    have hdHas : d.hasSwitch longest = true := (hlisted longest hmem).1.mpr (.inr hlongestHas)
    have hdValue : d.getSwitchValueNative longest = source.getSwitchValueNative longest :=
      (hlisted longest hmem).2.trans (if_pos hlongestHas)
    refine ⟨longest, hmem, ?_, hlongestHas, ?_⟩
    · rwa [getSwitchPrefixLength_eq]
    · rw [← hunchanged, switches_of_hasSwitch hdHas, hdValue,
        switches_of_hasSwitch hlongestHas]

/-- The copy is faithful while no listed name that the source has starts with a prefix and the
destination's divider is valid, also from an object to itself. Otherwise it is not faithful for
every map of the destination; and where it is for one, this map had the value of a name with a
prefix before. -/
theorem copySwitchesFrom_faithful_iff (c : CommandLine) (names : List StringType) :
    (∀ source, CopiesBareNames c (readSource source c) names →
      CopiesFaithfully c source names) ∧
    (∀ source, (∀ switches, CopiesFaithfully { c with switches } (some source) names) ↔
      CopiesBareNames c source names) ∧
    ∀ source, CopiesFaithfully c (some source) names →
      CopiesBareNames c source names ∨ ∃ name ∈ names, getSwitchPrefixLength name ≠ 0 ∧
        source.hasSwitch name = true ∧ c.switches name = source.switches name := by
  refine ⟨fun source => copiesFaithfully_of_bareNames source, ?_, ?_⟩
  · intro source
    refine ⟨fun hall => ?_, fun hbare switches => ?_⟩
    · rcases (hall fun _ => none).bareNames_or with hbare | ⟨name, -, -, hhas, heq⟩
      · exact hbare
      · rw [hasSwitch, ← heq] at hhas
        cases hhas
    · exact copiesFaithfully_of_bareNames (c := { c with switches }) (some source) hbare
  · intro source hfaithful
    exact hfaithful.bareNames_or

/-- The source of `---x=1` has the switch `-x`. Copied into an empty command line it becomes `x`:
the listed switch is missing and one that is not listed has appeared. -/
theorem copySwitchesFrom_not_faithful :
    ∃ source d, ofArgv [[], [0x2D, 0x2D, 0x2D, 0x78, 0x3D, 0x31]] = some source ∧
      source.hasSwitch [0x2D, 0x78] = true ∧
      noProgram.copySwitchesFrom (readSource (some source)) [[0x2D, 0x78]] = some d ∧
      d.hasSwitch [0x2D, 0x78] = false ∧ d.hasSwitch [0x78] = true ∧
      ¬CopiesFaithfully noProgram (some source) [[0x2D, 0x78]] := by
  refine ⟨_, _, rfl, by decide, rfl, by decide, by decide, ?_⟩
  rintro ⟨d, hd, hlisted, -⟩
  obtain rfl := Option.some.inj hd
  exact absurd ((hlisted [0x2D, 0x78] (by decide)).1.mpr (.inr (by decide))) (by decide)

end CommandLine

end Sparo.Base
