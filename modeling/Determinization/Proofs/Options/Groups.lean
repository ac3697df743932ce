import Determinization.Options.CommandLine
import Determinization.Proofs.Fallible
import Determinization.Proofs.Options.Argument

/-!
# Groups of arguments

A command line is written in groups: an option with its value, in one of several spellings, or a
switch.  Groups do not disturb each other, whatever their values look like, and the input may stand
between them; so what a command line asks for is read off the effects of its groups, in order.

The one exception is a value that is just the separator.  It can only be attached, and then it gets
lost.

**Results.**
* `classifyAll_group` and `takeArguments_asks`: one group is read as its effect.
* `reads_groups`: so is a sequence of groups, whatever follows it.
* `readCommandLine_groups`: what a command line of groups yields, and which settings are yielded.
-/

namespace Determinization
namespace Options

/-- What a group of arguments asks for. -/
inductive Effect
  | output (value : String)
  | word (value : String)
  | table
  | level (level : Level)
  deriving DecidableEq

/-- What a parameter asks for with a value; a level is asked for by its name. -/
def Parameter.effect? : Parameter → String → Option Effect
  | .output, value => some (.output value)
  | .word, value => some (.word value)
  | .level, value => (Level.ofName? value).map .level

namespace Effect

def output? : Effect → Option String
  | .output value => some value
  | _ => none

def word? : Effect → Option String
  | .word value => some value
  | _ => none

def level? : Effect → Option Level
  | .level threshold => some threshold
  | _ => none

/-- The value is the separator, which gets lost. -/
def IsLost (e : Effect) : Prop :=
  e = .output separator ∨ e = .word separator

instance : DecidablePred IsLost :=
  fun e => inferInstanceAs (Decidable (e = .output separator ∨ e = .word separator))

end Effect

/-- The groups of arguments and what they ask for. -/
inductive IsGroup : List String → Effect → Prop
  | longThen
      {p : Parameter} {cut value : String} {e : Effect}
      (hcut : IsCut cut (.parameter p))
      (hvalue : IsPlain value)
      (heffect : p.effect? value = some e) :
      IsGroup ["--" ++ cut, value] e
  | longEquals
      {p : Parameter} {cut value : String} {e : Effect}
      (hcut : IsCut cut (.parameter p))
      (heffect : p.effect? value = some e) :
      IsGroup ["--" ++ cut ++ "=" ++ value] e
  | letterThen
      {p : Parameter} {c : Char} {value : String} {e : Effect}
      (hletter : (OptionName.parameter p).letter? = some c)
      (hvalue : IsPlain value)
      (heffect : p.effect? value = some e) :
      IsGroup ["-" ++ String.singleton c, value] e
  | letterEquals
      {p : Parameter} {c : Char} {value : String} {e : Effect}
      (hletter : (OptionName.parameter p).letter? = some c)
      (heffect : p.effect? value = some e) :
      IsGroup ["-" ++ String.singleton c ++ "=" ++ value] e
  | letterAttached
      {p : Parameter} {c : Char} {value : String} {e : Effect}
      (hletter : (OptionName.parameter p).letter? = some c)
      (hne : value.toList ≠ [])
      (hequals : value.toList.head? ≠ some '=')
      (heffect : p.effect? value = some e) :
      IsGroup ["-" ++ String.singleton c ++ value] e
  | table
      {cut : String}
      (hcut : IsCut cut (.switch .table)) :
      IsGroup ["--" ++ cut] .table

/-- A group of arguments with its effect. -/
structure ArgumentGroup where
  texts : List String
  effect : Effect
  isGroup : IsGroup texts effect

/-- The arguments of a sequence of groups. -/
def groupTexts (groups : List ArgumentGroup) : List String :=
  groups.flatMap ArgumentGroup.texts

/-- The settings that effects ask for together: of several outputs or levels the last one counts. -/
def requestedSettings
    (effects : List Effect)
    (input : Option String) :
    Settings where
  input := input.getD Settings.defaultInput
  output := some ((effects.filterMap Effect.output?).getLast?.getD Settings.defaultOutput)
  words := (effects.filterMap Effect.word?).map some
  table := decide (.table ∈ effects)
  level := some ((effects.filterMap Effect.level?).getLast?.getD .warning)

section OneGroup

/-- Put classified arguments in front of others. -/
def ArgumentList.prepend
    (arguments : List Argument)
    (list : ArgumentList) :
    ArgumentList :=
  ⟨arguments ++ list.arguments, list.literals⟩

/-- The classified arguments ask for an effect. -/
inductive Asks : List Argument → Effect → Prop
  | attached
      {p : Parameter} {value : String} {e : Effect}
      (heffect : p.effect? value = some e) :
      Asks [.parameter p (some value)] e
  | behind
      {p : Parameter} {value : String} {e : Effect}
      (heffect : p.effect? value = some e) :
      Asks [.parameter p none, .plain value] e
  | table : Asks [.switch .table .long none] .table

theorem classifyAll_cons
    {text : String}
    {argument : Argument}
    {rest : List String}
    {list : ArgumentList}
    (htext : classify text = .ok argument)
    (hrest : classifyAll rest = .ok list) :
    classifyAll (text :: rest) = .ok (list.prepend [argument]) := by
  rw [classifyAll, if_neg (ne_separator_of_classify htext), htext, hrest]
  rfl

/-- The arguments of a group are classified as arguments that ask for its effect. -/
theorem classifyAll_group
    {texts : List String}
    {e : Effect}
    (h : IsGroup texts e) :
    ∃ arguments,
      Asks arguments e ∧
      ∀ rest list, classifyAll rest = .ok list →
        classifyAll (texts ++ rest) = .ok (list.prepend arguments) := by
  cases h with
  | longThen hcut hvalue heffect =>
      exact ⟨_, .behind heffect, fun rest list hrest =>
        classifyAll_cons (classify_long hcut)
          (classifyAll_cons (classify_of_isPlain hvalue) hrest)⟩
  | longEquals hcut heffect =>
      exact ⟨_, .attached heffect, fun rest list hrest =>
        classifyAll_cons (classify_long_equals hcut _) hrest⟩
  | letterThen hletter hvalue heffect =>
      exact ⟨_, .behind heffect, fun rest list hrest =>
        classifyAll_cons (classify_letter hletter)
          (classifyAll_cons (classify_of_isPlain hvalue) hrest)⟩
  | letterEquals hletter heffect =>
      exact ⟨_, .attached heffect, fun rest list hrest =>
        classifyAll_cons (classify_letter_equals hletter _) hrest⟩
  | letterAttached hletter hne hequals heffect =>
      exact ⟨_, .attached heffect, fun rest list hrest =>
        classifyAll_cons (classify_letter_attached hletter hne hequals) hrest⟩
  | table hcut =>
      exact ⟨_, .table, fun rest list hrest => classifyAll_cons (classify_long hcut) hrest⟩

/-- The draft after an effect. -/
def Draft.apply
    (d : Draft) :
    Effect → Draft
  | .output value => { d with output := some value, inputIsLast := false }
  | .word value => { d with words := d.words ++ [some value], inputIsLast := false }
  | .table => { d with table := true, inputIsLast := false }
  | .level level => { d with level := some level, inputIsLast := false }

theorem parameterValue_of_ne
    {value : String}
    (h : value ≠ separator) :
    Draft.parameterValue value = some value :=
  if_neg h

/-- A parameter has its effect if its value does not get lost. -/
theorem takeParameter_eq
    {p : Parameter}
    {value : String}
    {e : Effect}
    (heffect : p.effect? value = some e)
    (hkept : ¬ e.IsLost)
    (d : Draft) :
    d.takeParameter p value = .ok (d.apply e) := by
  cases p with
  | output =>
      cases heffect
      have hne : value ≠ separator := fun h => hkept (Or.inl (h ▸ rfl))
      rw [Draft.takeParameter, parameterValue_of_ne hne]
      rfl
  | word =>
      cases heffect
      have hne : value ≠ separator := fun h => hkept (Or.inr (h ▸ rfl))
      rw [Draft.takeParameter, parameterValue_of_ne hne]
      rfl
  | level =>
      obtain ⟨level, hlevel, rfl⟩ := Option.map_eq_some_iff.mp heffect
      have hne : value ≠ separator := by
        rintro rfl
        cases hlevel
      simp only [Draft.takeParameter, parameterValue_of_ne hne, Draft.levelValue, hlevel]
      rfl

/-- Arguments that ask for an effect are taken with this effect, whatever follows them. -/
theorem takeArguments_asks
    {arguments : List Argument}
    {e : Effect}
    (h : Asks arguments e)
    (hkept : ¬ e.IsLost)
    (d : Draft)
    (rest : List Argument) :
    takeArguments d (arguments ++ rest) = takeArguments (d.apply e) rest := by
  cases h with
  | attached heffect =>
      rw [List.singleton_append, takeArguments, takeParameter_eq heffect hkept]
      rfl
  | behind heffect =>
      rw [List.cons_append, List.singleton_append, takeArguments, takeParameter_eq heffect hkept]
      rfl
  | table => rfl

end OneGroup

section Groups

variable {groups before after : List ArgumentGroup}

/-- A sequence of groups is read as the effects of its groups, whatever follows it. -/
theorem reads_groups
    (hkept : ∀ g ∈ groups, ¬ g.effect.IsLost) :
    ∃ arguments,
      (∀ rest list, classifyAll rest = .ok list →
        classifyAll (groupTexts groups ++ rest) = .ok (list.prepend arguments)) ∧
      ∀ d rest,
        takeArguments d (arguments ++ rest)
          =
        takeArguments ((groups.map ArgumentGroup.effect).foldl Draft.apply d) rest := by
  induction groups with
  | nil => exact ⟨[], fun _ _ hrest => hrest, fun _ _ => rfl⟩
  | cons g groups ih =>
      obtain ⟨hg, hgroups⟩ := List.forall_mem_cons.mp hkept
      obtain ⟨first, hasks, hclassify⟩ := classifyAll_group g.isGroup
      obtain ⟨others, hclassifyOthers, htake⟩ := ih hgroups
      refine ⟨first ++ others, fun rest list hrest => ?_, fun d rest => ?_⟩
      · have hall := hclassify _ _ (hclassifyOthers rest list hrest)
        rw [groupTexts, List.flatMap_cons, List.append_assoc]
        rw [ArgumentList.prepend, List.append_assoc]
        exact hall
      · rw [List.append_assoc, takeArguments_asks hasks hg, htake]
        rfl

/-- The draft holds what the effects ask for, and the input. -/
structure Draft.Holds
    (d : Draft)
    (effects : List Effect)
    (input : Option String) :
    Prop where
  input_eq : d.input = input
  output_eq : d.output = (requestedSettings effects input).output
  words_eq : d.words = (requestedSettings effects input).words
  table_eq : d.table = (requestedSettings effects input).table
  level_eq : d.level = (requestedSettings effects input).level
  surplus_eq : d.surplus = []

variable {d : Draft} {effects more : List Effect} {input : Option String}

theorem Draft.holds_initial :
    Draft.initial.Holds [] none :=
  ⟨rfl, rfl, rfl, rfl, rfl, rfl⟩

/-- One more effect is added to the draft. -/
theorem Draft.Holds.apply
    (h : d.Holds effects input)
    (e : Effect) :
    (d.apply e).Holds (effects ++ [e]) input := by
  obtain ⟨hinput, houtput, hwords, htable, hlevel, hsurplus⟩ := h
  cases e <;> constructor <;>
    simp [Draft.apply, requestedSettings, Effect.output?, Effect.word?, Effect.level?, hinput,
      houtput, hwords, htable, hlevel, hsurplus]

theorem Draft.Holds.foldl
    (h : d.Holds effects input)
    (more : List Effect) :
    (more.foldl Draft.apply d).Holds (effects ++ more) input := by
  induction more generalizing d effects with
  | nil => rwa [List.append_nil]
  | cons e more ih =>
      rw [List.append_cons]
      exact ih (h.apply e)

/-- The first plain argument that is no value names the input. -/
theorem Draft.Holds.takePlain
    (h : d.Holds effects none)
    (text : String) :
    (d.takePlain text).Holds effects (some text) := by
  obtain ⟨hinput, houtput, hwords, htable, hlevel, hsurplus⟩ := h
  have htake : d.takePlain text = { d with input := some text, inputIsLast := true } := by
    rw [Draft.takePlain, hinput]
  rw [htake]
  exact ⟨rfl, houtput, hwords, htable, hlevel, hsurplus⟩

theorem Draft.Holds.settings_eq
    (h : d.Holds effects input) :
    d.settings = .ok (requestedSettings effects input) := by
  obtain ⟨hinput, houtput, hwords, htable, hlevel, hsurplus⟩ := h
  rw [Draft.settings, hinput, houtput, hwords, htable, hlevel, hsurplus]
  rfl

/-- A literal argument names the input if nothing else does. -/
theorem Draft.Holds.settings_takeLiterals
    (h : d.Holds effects none)
    (text : String) :
    (takeLiterals d (some [text])).settings = .ok (requestedSettings effects (some text)) := by
  obtain ⟨hinput, houtput, hwords, htable, hlevel, hsurplus⟩ := h
  have htake :
      takeLiterals d (some [text]) = { d with input := some text, surplus := d.surplus ++ [] } := by
    rw [takeLiterals, hinput]
  rw [htake]
  refine Draft.Holds.settings_eq ⟨rfl, houtput, hwords, htable, hlevel, ?_⟩
  rw [hsurplus, List.append_nil]

/-- A command line is read by classifying its arguments and taking them in order. -/
theorem readCommandLine_eq_ok_iff
    {texts : List String}
    {s : Settings} :
    readCommandLine texts = .ok s
      ↔
    ∃ list d,
      classifyAll texts = .ok list ∧
      takeArguments Draft.initial list.arguments = .ok d ∧
      (takeLiterals d list.literals).settings = .ok s := by
  rw [readCommandLine]
  cases classifyAll texts with
  | error e => simp [bind, Except.bind]
  | ok list =>
      change
        (takeArguments Draft.initial list.arguments >>= fun d =>
          (takeLiterals d list.literals).settings) = .ok s ↔ _
      simp [bind_eq_ok_iff]

theorem readCommandLine_groupTexts
    (hkept : ∀ g ∈ groups, ¬ g.effect.IsLost) :
    readCommandLine (groupTexts groups)
      =
    .ok (requestedSettings (groups.map ArgumentGroup.effect) none) := by
  obtain ⟨arguments, hclassify, htake⟩ := reads_groups hkept
  have hlist := hclassify [] ⟨[], none⟩ rfl
  rw [List.append_nil] at hlist
  exact readCommandLine_eq_ok_iff.mpr
    ⟨_, _, hlist, htake _ _, (Draft.holds_initial.foldl _).settings_eq⟩

/-- The input may stand in front of any group or behind the last one. -/
theorem readCommandLine_groupTexts_plain
    {text : String}
    (hbefore : ∀ g ∈ before, ¬ g.effect.IsLost)
    (hafter : ∀ g ∈ after, ¬ g.effect.IsLost)
    (htext : IsPlain text) :
    readCommandLine (groupTexts before ++ text :: groupTexts after)
      =
    .ok (requestedSettings ((before ++ after).map ArgumentGroup.effect) (some text)) := by
  obtain ⟨first, hclassify, htake⟩ := reads_groups hbefore
  obtain ⟨others, hclassifyOthers, htakeOthers⟩ := reads_groups hafter
  have hrest := hclassifyOthers [] ⟨[], none⟩ rfl
  rw [List.append_nil] at hrest
  have hlist := hclassify _ _ (classifyAll_cons (classify_of_isPlain htext) hrest)
  have hfirst := (Draft.holds_initial.foldl (before.map ArgumentGroup.effect)).takePlain text
  have hholds := hfirst.foldl (after.map ArgumentGroup.effect)
  rw [List.nil_append, ← List.map_append] at hholds
  exact readCommandLine_eq_ok_iff.mpr
    ⟨_, _, hlist, (htake _ _).trans (htakeOthers _ _), hholds.settings_eq⟩

/-- Behind the separator, the input may be any text. -/
theorem readCommandLine_groupTexts_literal
    (hkept : ∀ g ∈ groups, ¬ g.effect.IsLost)
    (text : String) :
    readCommandLine (groupTexts groups ++ [separator, text])
      =
    .ok (requestedSettings (groups.map ArgumentGroup.effect) (some text)) := by
  obtain ⟨arguments, hclassify, htake⟩ := reads_groups hkept
  have hlist := hclassify [separator, text] ⟨[], some [text]⟩ rfl
  exact readCommandLine_eq_ok_iff.mpr
    ⟨_, _, hlist, htake _ _, (Draft.holds_initial.foldl _).settings_takeLiterals text⟩

end Groups

section Attainable

/-- Every effect is asked for by some group. -/
theorem exists_group
    (e : Effect) :
    ∃ g : ArgumentGroup, g.effect = e := by
  have hcut : ∀ o : OptionName, IsCut o.long o := by
    rintro ((_ | _ | _) | (_ | _)) <;> exact ⟨by decide, List.prefix_refl _⟩
  cases e with
  | output value => exact ⟨⟨_, _, .longEquals (p := .output) (hcut _) rfl⟩, rfl⟩
  | word value => exact ⟨⟨_, _, .longEquals (p := .word) (hcut _) rfl⟩, rfl⟩
  | table => exact ⟨⟨_, _, .table (hcut _)⟩, rfl⟩
  | level level =>
      have heffect : Parameter.level.effect? level.name = some (.level level) := by
        rw [Parameter.effect?, Level.ofName?_name, Option.map_some]
      exact ⟨⟨_, _, .longEquals (p := .level) (hcut _) heffect⟩, rfl⟩

theorem exists_groups
    (effects : List Effect) :
    ∃ groups : List ArgumentGroup, groups.map ArgumentGroup.effect = effects :=
  List.map_surjective_iff.mpr exists_group effects

/-- The effects that ask for given settings. -/
def effectsFor
    (output : String)
    (words : List String)
    (table : Bool)
    (level : Level) :
    List Effect :=
  (if table then [.table] else []) ++ .output output :: .level level :: words.map .word

theorem requestedSettings_effectsFor
    (input output : String)
    (words : List String)
    (table : Bool)
    (level : Level) :
    requestedSettings (effectsFor output words table level) (some input)
      =
    ⟨input, some output, words.map some, table, some level⟩ := by
  have hwords : (words.map Effect.word).filterMap Effect.word? = words := by
    rw [List.filterMap_map]
    exact List.filterMap_some
  have houtputs : (words.map Effect.word).filterMap Effect.output? = [] := by
    simp [Effect.output?]
  have hlevels : (words.map Effect.word).filterMap Effect.level? = [] := by
    simp [Effect.level?]
  cases table <;>
    simp [requestedSettings, effectsFor, List.filterMap_cons, Effect.output?, Effect.word?,
      Effect.level?, hwords, houtputs, hlevels, -List.filterMap_map, -List.getLast?_filterMap]

/-- No value of the draft is the separator. -/
structure Draft.LacksSeparator (d : Draft) : Prop where
  output_ne : d.output ≠ some separator
  not_mem_words : some separator ∉ d.words

variable {d next : Draft}

theorem parameterValue_ne_separator
    (value : String) :
    Draft.parameterValue value ≠ some separator := by
  rw [Draft.parameterValue]
  split
  · simp
  · next hne => simpa using hne

/-- Whatever text a parameter takes, the separator does not become a value. -/
theorem Draft.LacksSeparator.takeParameter
    (h : d.LacksSeparator)
    {p : Parameter}
    {value : String}
    (htake : d.takeParameter p value = .ok next) :
    next.LacksSeparator := by
  cases p with
  | output =>
      cases htake
      exact ⟨parameterValue_ne_separator value, h.not_mem_words⟩
  | word =>
      cases htake
      refine ⟨h.output_ne, ?_⟩
      rw [List.mem_append, List.mem_singleton, not_or]
      exact ⟨h.not_mem_words, (parameterValue_ne_separator value).symm⟩
  | level =>
      obtain ⟨level, -, htake⟩ := bind_eq_ok_iff.mp htake
      cases htake
      exact ⟨h.output_ne, h.not_mem_words⟩

theorem Draft.LacksSeparator.takePlain
    (h : d.LacksSeparator)
    (text : String) :
    (d.takePlain text).LacksSeparator := by
  rw [Draft.takePlain]
  split
  · exact ⟨h.output_ne, h.not_mem_words⟩
  · exact ⟨h.output_ne, h.not_mem_words⟩

theorem Draft.LacksSeparator.takeSwitch
    (h : d.LacksSeparator)
    {s : Switch}
    (htake : d.takeSwitch s = .ok next) :
    next.LacksSeparator := by
  cases s with
  | help => cases htake
  | table =>
      cases htake
      exact ⟨h.output_ne, h.not_mem_words⟩

/-- Taking arguments brings no separator among the values. -/
theorem Draft.LacksSeparator.takeArguments
    (h : d.LacksSeparator)
    {arguments : List Argument}
    (htake : Options.takeArguments d arguments = .ok next) :
    next.LacksSeparator := by
  fun_induction Options.takeArguments d arguments with
  | case1 d =>
      cases htake
      exact h
  | case2 d text rest ih => exact ih (h.takePlain text) htake
  | case3 d text rest ih => exact ih ⟨h.output_ne, h.not_mem_words⟩ htake
  | case4 d s form attached rest ih =>
      obtain ⟨-, -, htake⟩ := bind_eq_ok_iff.mp htake
      obtain ⟨d', hswitch, htake⟩ := bind_eq_ok_iff.mp htake
      exact ih d' (h.takeSwitch hswitch) htake
  | case5 d p text rest ih =>
      obtain ⟨d', hparameter, htake⟩ := bind_eq_ok_iff.mp htake
      exact ih d' (h.takeParameter hparameter) htake
  | case6 d p text rest ih =>
      obtain ⟨d', hparameter, htake⟩ := bind_eq_ok_iff.mp htake
      exact ih d' (h.takeParameter hparameter) htake
  | case7 => cases htake

theorem Draft.LacksSeparator.takeLiterals
    (h : d.LacksSeparator)
    (literals : Option (List String)) :
    (Options.takeLiterals d literals).LacksSeparator := by
  rw [Options.takeLiterals.eq_def]
  repeat' split
  all_goals exact ⟨h.output_ne, h.not_mem_words⟩

/-- No command line yields the separator as the name of the output or as a word. -/
theorem lacksSeparator_of_readCommandLine
    {texts : List String}
    {s : Settings}
    (h : readCommandLine texts = .ok s) :
    s.output ≠ some separator ∧ some separator ∉ s.words := by
  obtain ⟨list, d, -, htake, h⟩ := readCommandLine_eq_ok_iff.mp h
  have hinitial : Draft.initial.LacksSeparator := ⟨by decide, by decide⟩
  obtain ⟨houtput, hwords⟩ := (hinitial.takeArguments htake).takeLiterals list.literals
  rw [Draft.settings] at h
  split at h
  · cases h
    exact ⟨houtput, hwords⟩
  · cases h

/-- Settings with all their values are yielded by a command line if no value is the separator. -/
theorem exists_readCommandLine_iff
    {input output : String}
    {words : List String}
    {table : Bool}
    {level : Level} :
    (∃ texts, readCommandLine texts = .ok ⟨input, some output, words.map some, table, some level⟩)
      ↔
    output ≠ separator ∧ separator ∉ words := by
  constructor
  · rintro ⟨texts, h⟩
    simpa using lacksSeparator_of_readCommandLine h
  · rintro ⟨houtput, hwords⟩
    obtain ⟨groups, hgroups⟩ := exists_groups (effectsFor output words table level)
    have hkept : ∀ g ∈ groups, ¬ g.effect.IsLost := by
      intro g hg hlost
      have hmem : g.effect ∈ effectsFor output words table level :=
        hgroups ▸ List.mem_map_of_mem hg
      rcases hlost with heffect | heffect
      · rw [heffect] at hmem
        exact houtput (by cases table <;> simpa [effectsFor, eq_comm] using hmem)
      · rw [heffect] at hmem
        exact hwords (by cases table <;> simpa [effectsFor] using hmem)
    refine ⟨_, (readCommandLine_groupTexts_literal hkept input).trans ?_⟩
    rw [hgroups, requestedSettings_effectsFor]

end Attainable

/--
Groups compose, if none of their values gets lost: a command line of groups, with at most one
further plain argument anywhere between them or one literal argument at the end, yields what the
groups ask for together.  All settings can be asked for in this way, except those with the separator
for a value.
-/
theorem readCommandLine_groups :
    (∀ groups,
        (∀ g ∈ groups, ¬ g.effect.IsLost) →
        readCommandLine (groupTexts groups)
          =
        .ok (requestedSettings (groups.map ArgumentGroup.effect) none))
      ∧
    (∀ before after text,
        (∀ g ∈ before ++ after, ¬ g.effect.IsLost) →
        IsPlain text →
        readCommandLine (groupTexts before ++ text :: groupTexts after)
          =
        .ok (requestedSettings ((before ++ after).map ArgumentGroup.effect) (some text)))
      ∧
    (∀ groups text,
        (∀ g ∈ groups, ¬ g.effect.IsLost) →
        readCommandLine (groupTexts groups ++ [separator, text])
          =
        .ok (requestedSettings (groups.map ArgumentGroup.effect) (some text)))
      ∧
    ∀ (input output : String) (words : List String) (table : Bool) (level : Level),
      (∃ texts,
          readCommandLine texts = .ok ⟨input, some output, words.map some, table, some level⟩)
        ↔
      output ≠ separator ∧ separator ∉ words := by
  refine ⟨fun _ => readCommandLine_groupTexts, fun before after text hkept htext => ?_,
    fun _ text hkept => readCommandLine_groupTexts_literal hkept text,
    fun _ _ _ _ _ => exists_readCommandLine_iff⟩
  obtain ⟨hbefore, hafter⟩ := List.forall_mem_append.mp hkept
  exact readCommandLine_groupTexts_plain hbefore hafter htext

/-- Groups whose values look like options, with an input that looks like a number between them. -/
theorem readCommandLine_groups_like_options :
    readCommandLine
        ["--out", "-", "-w--table", "--word==a b", "-5", "--t", "--log-l=INFO", "-w", "", "-o", "-12"]
      =
    .ok ⟨"-5", some "-12", [some "--table", some "=a b", some ""], true, some .info⟩ := by
  have hcuts :
      IsCut "out" (.parameter .output) ∧ IsCut "word" (.parameter .word) ∧
        IsCut "log-l" (.parameter .level) ∧ IsCut "t" (.switch .table) :=
    ⟨⟨by decide, by decide⟩, ⟨by decide, by decide⟩, ⟨by decide, by decide⟩,
      ⟨by decide, by decide⟩⟩
  obtain ⟨hout, hword, hlevel, htable⟩ := hcuts
  have hvalue : ∀ value, Parameter.word.effect? value = some (.word value) := fun _ => rfl
  have hinfo : Parameter.level.effect? "INFO" = some (.level .info) := by decide
  have hfirst : IsGroup ["--out", "-"] (.output "-") := by
    simpa using IsGroup.longThen hout (by decide) rfl
  have hsecond : IsGroup ["-w--table"] (.word "--table") := by
    simpa using IsGroup.letterAttached rfl (by decide) (by decide) (hvalue "--table")
  have hthird : IsGroup ["--word==a b"] (.word "=a b") := by
    simpa using IsGroup.longEquals hword (hvalue "=a b")
  have hfourth : IsGroup ["--t"] .table := by
    simpa using IsGroup.table htable
  have hfifth : IsGroup ["--log-l=INFO"] (.level .info) := by
    simpa using IsGroup.longEquals hlevel hinfo
  have hsixth : IsGroup ["-w", ""] (.word "") := by
    simpa using IsGroup.letterThen rfl (by decide) (hvalue "")
  have hseventh : IsGroup ["-o", "-12"] (.output "-12") := by
    simpa using IsGroup.letterThen (p := .output) rfl (by decide) rfl
  have hkept : ∀ g ∈ [ArgumentGroup.mk _ _ hfirst, ⟨_, _, hsecond⟩, ⟨_, _, hthird⟩] ++
      [⟨_, _, hfourth⟩, ⟨_, _, hfifth⟩, ⟨_, _, hsixth⟩, ⟨_, _, hseventh⟩],
      ¬ g.effect.IsLost := by
    simp only [List.cons_append, List.nil_append, List.forall_mem_cons]
    exact ⟨by decide, by decide, by decide, by decide, by decide, by decide, by decide, by simp⟩
  have hread := readCommandLine_groups.2.1 _ _ "-5" hkept (by decide)
  have hsettings :
      requestedSettings
          [.output "-", .word "--table", .word "=a b", .table, .level .info, .word "",
            .output "-12"]
          (some "-5")
        =
      ⟨"-5", some "-12", [some "--table", some "=a b", some ""], true, some .info⟩ := by
    decide +kernel
  exact hread.trans (congrArg Except.ok hsettings)

/-- A value that is just the separator gets lost when it is attached. -/
theorem readCommandLine_lost_word :
    IsGroup ["--word=--"] (.word "--") ∧
      IsGroup ["-w", "a"] (.word "a") ∧
      readCommandLine ["--word=--", "-w", "a"]
        =
      .ok { Settings.default with words := [none, some "a"] } ∧
      readCommandLine ["--word=--", "-w", "a"]
        ≠
      .ok (requestedSettings [.word "--", .word "a"] none) := by
  have hword : IsCut "word" (.parameter .word) := ⟨by decide, by decide⟩
  have hvalue : ∀ value, Parameter.word.effect? value = some (.word value) := fun _ => rfl
  have hlost : IsGroup ["--word=--"] (.word "--") := by
    simpa using IsGroup.longEquals hword (hvalue "--")
  have hkept : IsGroup ["-w", "a"] (.word "a") := by
    simpa using IsGroup.letterThen rfl (by decide) (hvalue "a")
  exact ⟨hlost, hkept, by decide +kernel, by decide +kernel⟩

end Options
end Determinization
