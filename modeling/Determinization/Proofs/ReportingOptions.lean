import Determinization.Proofs.Program

/-!
# What the reporting options change

The words, the table switch and the level of a session decide what is shown.  Reading, construction
and writing do not look at them.  Only the comparison of words could give another exit code, and it
always agrees.  The level does not even reach the session: it selects among the records that the
session has made.  A lost level, however, selects nothing, and ends the program; so the level may
be lost in both of two runs or in neither.

**Results.**
* `runSession_same`: ending, records, complaint and volume of a session depend on its paths only.
* `mem_records_warning_iff`: the only warning of a session is the one about dangling states.
* `runSettings_inertReporting`: these together, for two runs of the program.
-/

namespace Determinization

/-- The automaton refers to the state: as its start, as accepting, as a source or as a target. -/
def NFA.RefersTo
    (N : NFA)
    (q : Int) :
    Prop :=
  q = N.start ∨ q ∈ N.accepts ∨ q ∈ N.transitions ∨ ∃ p a, q ∈ N.targets p a

/-- The automaton refers to a state out of its range. -/
def NFA.RefersOutOfRange (N : NFA) : Prop :=
  ∃ q, N.RefersTo q ∧ ¬ (0 ≤ q ∧ q < N.numStates)

/--
What two runs of the program have in common if their settings have the same paths.  The words and the
table switch matter for the output only, and the level for the records.
-/
structure InertReporting
    (s t : Settings)
    (v : Volume) :
    Prop where
  /-- These are the runs that a command line with the settings asks for. -/
  program :
    (∀ arguments, Options.readCommandLine arguments = .ok s →
        runProgram arguments v = runSettings s v) ∧
      ∀ arguments, Options.readCommandLine arguments = .ok t →
        runProgram arguments v = runSettings t v
  ending : (runSettings s v).outcome.ending = (runSettings t v).outcome.ending
  volume : (runSettings s v).volume = (runSettings t v).volume
  complaint : (runSettings s v).outcome.complaint = (runSettings t v).outcome.complaint
  output :
    s.words = t.words → s.table = t.table →
      (runSettings s v).outcome.output = (runSettings t v).outcome.output
  records :
    ∀ a b,
      s.level = some a →
      t.level = some b →
      a.severity ≤ b.severity →
      (runSettings t v).outcome.records = shownRecords b (runSettings s v).outcome.records
  warning :
    ∀ a,
      s.level = some a →
      a.severity ≤ Level.warning.severity →
      ∀ r : LogRecord,
        r ∈ (runSettings s v).outcome.records ∧ r.level = .warning
          ↔
        ∃ N, v.Describes s.input N ∧ N.RefersOutOfRange ∧ r = danglingWarning N

/-- A higher threshold selects from what a lower one has selected. -/
theorem shownRecords_shownRecords
    {a b : Level}
    (h : a.severity ≤ b.severity)
    (records : List LogRecord) :
    shownRecords b (shownRecords a records) = shownRecords b records := by
  simp only [shownRecords, List.filter_filter]
  refine List.filter_congr fun r _ => ?_
  rw [Bool.and_eq_left_iff_imp]
  simp only [decide_eq_true_eq]
  exact h.trans

theorem mem_shownRecords_iff
    {threshold : Level}
    {records : List LogRecord}
    {r : LogRecord} :
    r ∈ shownRecords threshold records
      ↔
    r ∈ records ∧ threshold.severity ≤ r.level.severity := by
  simp [shownRecords]

namespace NFA

/-- Some state dangles if the automaton refers to a state out of its range. -/
theorem dangling_ne_empty_iff
    {N : NFA} :
    N.dangling ≠ ∅ ↔ N.RefersOutOfRange := by
  simp only [StateSet.ne_empty_iff, mem_dangling_iff, mem_mentioned_iff, RefersOutOfRange, RefersTo]

end NFA

/-- The warning does not show in which order the states were met. -/
@[simp] theorem danglingWarning_forgetOrder
    (L : OrderedNFA) :
    danglingWarning L.forgetOrder = danglingWarning L := by
  simp only [danglingWarning, NFA.dangling_forgetOrder]
  rfl

theorem mem_danglingRecords_iff
    {L : OrderedNFA}
    {r : LogRecord} :
    r ∈ danglingRecords L
      ↔
    L.forgetOrder.RefersOutOfRange ∧ r = danglingWarning L.forgetOrder := by
  rw [← NFA.dangling_ne_empty_iff, NFA.dangling_forgetOrder, danglingWarning_forgetOrder]
  by_cases hempty : L.dangling = ∅
  · simp [danglingRecords, hempty]
  · simp [danglingRecords, danglingWarning, hempty, Std.ExtTreeSet.isEmpty_iff]

/-- Up to the writing there is no other warning. -/
theorem mem_planRecords_warning_iff
    {L : OrderedNFA}
    {r : LogRecord} :
    r ∈ (Plan.ofNFA L).records ∧ r.level = .warning
      ↔
    L.forgetOrder.RefersOutOfRange ∧ r = danglingWarning L.forgetOrder := by
  have hprogress : ∀ r ∈ progressRecords L, r.level ≠ .warning := by
    simp [progressRecords]
  constructor
  · rintro ⟨hr, hlevel⟩
    rcases List.mem_append.mp hr with hr | hr
    · exact mem_danglingRecords_iff.mp hr
    · exact absurd hlevel (hprogress r hr)
  · rintro ⟨hout, rfl⟩
    exact ⟨List.mem_append_left _ (mem_danglingRecords_iff.mpr ⟨hout, rfl⟩), rfl⟩

section Session

variable {s t : Settings} {v : Volume}

/-- Preparation looks at the input only. -/
theorem prepare_congr
    (hinput : s.input = t.input)
    (content : Except PathFault (List UInt8)) :
    prepare s content = prepare t content := by
  simp only [prepare, hinput]

/-- Sessions that read and write under the same paths differ in their output only. -/
theorem runSession_same
    (hinput : s.input = t.input)
    (houtput : s.output = t.output)
    (v : Volume) :
    (runSession s v).outcome.ending = (runSession t v).outcome.ending ∧
      (runSession s v).outcome.records = (runSession t v).outcome.records ∧
      (runSession s v).outcome.complaint = (runSession t v).outcome.complaint ∧
      (runSession s v).volume = (runSession t v).volume := by
  rw [runSession_eq, runSession_eq, ← hinput, ← houtput, ← prepare_congr hinput]
  cases hprepare : prepare s (v.readFile s.input) with
  | error o => exact ⟨rfl, rfl, rfl, rfl⟩
  | ok p =>
      obtain ⟨-, c, -, -, rfl⟩ := prepare_eq_ok_iff.mp hprepare
      cases s.output with
      | none => exact ⟨rfl, rfl, rfl, rfl⟩
      | some path =>
          simp only
          cases v.writeFile path (Plan.ofNFA c.orderedNFA).bytes with
          | error f => exact ⟨rfl, rfl, rfl, rfl⟩
          | ok after =>
              -- The exit code depends on the words, but they never tell the automata apart.
              have hagree : ∀ words : List ShownWord,
                  verdictsAgree (Plan.ofNFA c.orderedNFA).nfa (Plan.ofNFA c.orderedNFA).dfa words
                    = true :=
                verdictsAgree_determinize c.orderedNFA
              simp [finish, hagree]

/-- After the writing there is one record more. -/
theorem records_finish_written
    (p : Plan)
    (path : String) :
    (finish s p path (.ok ())).records = p.records ++ [writtenRecord p.dfa path] := by
  simp only [finish]
  split <;> rfl

/-- A session that cannot open a file keeps the records that it has. -/
@[simp] theorem records_unopened
    (records : List LogRecord)
    (path : String)
    (f : PathFault) :
    (Outcome.unopened records path f).records = records := by
  cases f <;> rfl

/-- A session has the records of its plan, and behind them at most that of the written file. -/
theorem records_runSession
    {L : OrderedNFA}
    (hprepare : prepare s (v.readFile s.input) = .ok (Plan.ofNFA L)) :
    ∃ behind,
      (runSession s v).outcome.records = (Plan.ofNFA L).records ++ behind ∧
        ∀ r ∈ behind, r.level = .info := by
  cases hpath : s.output with
  | none =>
      refine ⟨[], ?_, by simp⟩
      simp [runSession_eq, hprepare, hpath, Outcome.escape]
  | some path =>
      cases hwrite : v.writeFile path (Plan.ofNFA L).bytes with
      | error f =>
          refine ⟨[], ?_, by simp⟩
          simp [runSession_eq, hprepare, hpath, hwrite, finish]
      | ok after =>
          refine ⟨[writtenRecord (Plan.ofNFA L).dfa path], ?_, by simp [writtenRecord]⟩
          simp only [runSession_eq, hprepare, hpath, hwrite, records_finish_written]

/-- What fails before the construction has no records. -/
theorem records_of_prepare_eq_error
    {content : Except PathFault (List UInt8)}
    {o : Outcome}
    (h : prepare s content = .error o) :
    o.records = [] := by
  unfold prepare at h
  cases content with
  | error f =>
      cases h
      exact records_unopened [] s.input f
  | ok bytes =>
      cases hcontents : Description.contentsOfBytes bytes with
      | error e =>
          simp only [hcontents] at h
          cases h
          rfl
      | ok c => simp [hcontents] at h

/-- Without a description a session has no records. -/
theorem records_runSession_of_unreadable
    (h : ∀ N, ¬ v.Describes s.input N) :
    (runSession s v).outcome.records = [] := by
  cases hprepare : prepare s (v.readFile s.input) with
  | error o =>
      rw [runSession_eq, hprepare]
      exact records_of_prepare_eq_error hprepare
  | ok p =>
      obtain ⟨bytes, c, hread, hcontents, -⟩ := prepare_eq_ok_iff.mp hprepare
      exact absurd ⟨bytes, hread, map_eq_ok_iff.mpr ⟨c, hcontents, rfl⟩⟩ (h c.nfa)

/-- The only warning of a session is about the states out of range. -/
theorem mem_records_warning_iff
    {r : LogRecord} :
    r ∈ (runSession s v).outcome.records ∧ r.level = .warning
      ↔
    ∃ N, v.Describes s.input N ∧ N.RefersOutOfRange ∧ r = danglingWarning N := by
  by_cases hinput : ∃ N, v.Describes s.input N
  · obtain ⟨N, hN⟩ := hinput
    obtain ⟨L, rfl, hprepare⟩ := exists_prepare_eq_ok hN
    obtain ⟨behind, hrecords, hbehind⟩ := records_runSession hprepare
    have hnot : r.level = .warning → r ∉ behind := by
      intro hlevel hr
      simp [hbehind r hr] at hlevel
    calc
      r ∈ (runSession s v).outcome.records ∧ r.level = .warning
        ↔ r ∈ (Plan.ofNFA L).records ∧ r.level = .warning := by
          rw [hrecords, List.mem_append]
          refine and_congr_left fun hlevel => ?_
          exact or_iff_left (hnot hlevel)
      _ ↔ L.forgetOrder.RefersOutOfRange ∧ r = danglingWarning L.forgetOrder :=
          mem_planRecords_warning_iff
      _ ↔ ∃ M, v.Describes s.input M ∧ M.RefersOutOfRange ∧ r = danglingWarning M := by
          constructor
          · exact fun h => ⟨L.forgetOrder, hN, h⟩
          · rintro ⟨M, hM, h⟩
            rwa [hM.unique hN] at h
  · push Not at hinput
    simp [records_runSession_of_unreadable hinput, hinput]

end Session

section Program

variable {s t : Settings} {a b : Level} {v : Volume}

/-- Sessions with the same paths, words and table switch differ in nothing. -/
theorem runSession_congr
    (hinput : s.input = t.input)
    (houtput : s.output = t.output)
    (hwords : s.words = t.words)
    (htable : s.table = t.table) :
    runSession s v = runSession t v := by
  obtain ⟨input, output, words, table, level⟩ := s
  cases hinput
  cases houtput
  cases hwords
  cases htable
  rfl

/-- Without a level two runs end alike. -/
theorem inertReporting_of_lost_levels
    (hs : s.level = none)
    (ht : t.level = none) :
    InertReporting s t v := by
  have hsame : runSettings s v = runSettings t v := by
    rw [runSettings_eq_of_lost_level hs, runSettings_eq_of_lost_level ht]
  have hnever : ∀ a, s.level ≠ some a := by
    simp [hs]
  exact
    { program :=
        ⟨fun _ => runProgram_eq_runSettings, fun _ => runProgram_eq_runSettings⟩
      ending := by rw [hsame]
      volume := by rw [hsame]
      complaint := by rw [hsame]
      output := fun _ _ => by rw [hsame]
      records := fun a _ ha => absurd ha (hnever a)
      warning := fun a ha => absurd ha (hnever a) }

/-- With two levels two runs show the same session. -/
theorem inertReporting_of_levels
    (hs : s.level = some a)
    (ht : t.level = some b)
    (hinput : s.input = t.input)
    (houtput : s.output = t.output) :
    InertReporting s t v := by
  obtain ⟨hending, hrecords, hcomplaint, hvolume⟩ := runSession_same hinput houtput v
  refine
    { program :=
        ⟨fun _ => runProgram_eq_runSettings, fun _ => runProgram_eq_runSettings⟩
      ending := ?_
      volume := ?_
      complaint := ?_
      output := ?_
      records := ?_
      warning := ?_ }
  all_goals simp only [runSettings_eq hs, runSettings_eq ht, Outcome.restrict]
  · exact hending
  · exact hvolume
  · exact hcomplaint
  · intro hwords htable
    rw [runSession_congr hinput houtput hwords htable]
  · intro a' b' ha hb hab
    cases hs.symm.trans ha
    cases ht.symm.trans hb
    rw [shownRecords_shownRecords hab, hrecords]
  · intro a' ha hwarning r
    cases hs.symm.trans ha
    rw [← mem_records_warning_iff, mem_shownRecords_iff]
    refine and_congr_left fun hlevel => and_iff_left ?_
    rwa [hlevel]

/-- The words, the table switch and the level of a run do not matter for what it does. -/
theorem runSettings_inertReporting
    (hlevel : s.level = none ↔ t.level = none)
    (hinput : s.input = t.input)
    (houtput : s.output = t.output)
    (v : Volume) :
    InertReporting s t v := by
  cases hs : s.level with
  | none => exact inertReporting_of_lost_levels hs (hlevel.mp hs)
  | some a =>
      have hsome : t.level ≠ none := by
        rw [Ne, ← hlevel, hs]
        exact Option.some_ne_none a
      obtain ⟨b, ht⟩ := Option.ne_none_iff_exists'.mp hsome
      exact inertReporting_of_levels hs ht hinput houtput

/-- A run with all reports and a silent one, over a description that refers to the state 5 of 2. -/
theorem runSettings_inertReporting_of_state_five :
    ∃ s t v N,
      Options.readCommandLine ["in", "-w", "a", "--table", "--log-level", "DEBUG"] = .ok s ∧
      Options.readCommandLine ["in", "--log-level", "ERROR"] = .ok t ∧
      v.Describes s.input N ∧
      N.RefersOutOfRange ∧
      InertReporting s t v := by
  let description := ["2", "a", "0", "1", "0 a 5"]
  let text := ("\n".intercalate description).toList
  let v := (Volume.empty []).put ["in"] (.file (Text.Utf8.encode text))
  let N := NFA.build 2 ["a"] 0 [1] [⟨0, "a", 5⟩]
  let s : Settings := ⟨"in", some Settings.defaultOutput, [some "a"], true, some .debug⟩
  let t : Settings := ⟨"in", some Settings.defaultOutput, [], false, some .error⟩
  have hN : v.Describes "in" N :=
    .of_single_file (by decide +kernel)
  have hout : N.RefersOutOfRange := by
    refine ⟨5, Or.inr (Or.inr (Or.inr ⟨0, "a", ?_⟩)), by decide⟩
    exact NFA.mem_targets_build_iff.mpr (by decide)
  exact ⟨s, t, v, N, by decide +kernel, by decide +kernel, hN, hout,
    runSettings_inertReporting (s := s) (t := t) (by decide) rfl rfl v⟩

/-- Two command lines whose settings differ in the level only, which got lost in the second: the first
run writes a file, and from the second one an exception escapes. -/
theorem runProgram_differs_of_lost_level :
    ∃ s v,
      Options.readCommandLine ["in"] = .ok s ∧
      Options.readCommandLine ["in", "--log-level=--"] = .ok { s with level := none } ∧
      (runProgram ["in"] v).outcome.ending = .returned 0 ∧
      (runProgram ["in", "--log-level=--"] v).outcome.ending = .escaped .lostLevel ∧
      (runProgram ["in"] v).volume ≠ (runProgram ["in", "--log-level=--"] v).volume := by
  let description := ["2", "a", "0", "1", "0 a 1"]
  let text := ("\n".intercalate description).toList
  let v := (Volume.empty []).put ["in"] (.file (Text.Utf8.encode text))
  let s : Settings := ⟨"in", some Settings.defaultOutput, [], false, some .warning⟩
  have hs : Options.readCommandLine ["in"] = .ok s := by
    decide +kernel
  have ht : Options.readCommandLine ["in", "--log-level=--"] = .ok { s with level := none } := by
    decide +kernel
  have hN : v.Describes "in" (NFA.build 2 ["a"] 0 [1] [⟨0, "a", 1⟩]) :=
    .of_single_file (by decide +kernel)
  have hopens : v.Opens Settings.defaultOutput [Settings.defaultOutput] :=
    Volume.placeToWrite_eq_ok_iff.mp (by decide +kernel)
  have hwrote := (runSession_wrote (s := s) hN rfl hopens).restrict .warning
  have hescaped : (runSettings { s with level := none } v).Escaped v .lostLevel :=
    runSettings_escaped (.lostLevel rfl)
  refine ⟨s, v, hs, ht, ?_⟩
  rw [runProgram_eq_runSettings hs, runProgram_eq_runSettings ht, runSettings_eq (s := s) rfl]
  refine ⟨hwrote.ending, hescaped.ending, ?_⟩
  intro hvolume
  have hnode := hwrote.node
  rw [hvolume, hescaped.volume] at hnode
  have hnone : v.node? [Settings.defaultOutput] = none := by
    decide +kernel
  cases hnone.symm.trans hnode

end Program

end Determinization
