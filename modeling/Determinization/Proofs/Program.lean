import Determinization.Program
import Determinization.Proofs.Describing
import Determinization.Proofs.InsertionOrder
import Determinization.Proofs.Language
import Determinization.Proofs.Volume

/-!
# The program as a whole

A run of the program that returns either fails, and then it prints nothing and leaves the volume as
it was, or it writes the file that it was asked for and nothing else.  The file is written only when
the whole input has been read, so the same file may be read and written.  The exit code for
automata that disagree never occurs, since a determinization agrees with its automaton.

A run does not return if an exception escapes from it: the level got lost, a path holds the character
zero, or the input is a description and the path to be written got lost.  Such a run prints nothing
and changes nothing either.

**Results.** `runProgram_allOrNothing`: which of these happens is decided by the settings, the input
and the path to be written.
-/

namespace Determinization

namespace Volume

/-- The file under a path is a description of the automaton. -/
def Describes
    (v : Volume)
    (path : String)
    (N : NFA) :
    Prop :=
  ∃ bytes, v.readFile path = .ok bytes ∧ Description.readBytes bytes = .ok N

section Describes

variable {v : Volume} {path : String} {N M : NFA}

/-- A file describes at most one automaton. -/
theorem Describes.unique
    (hN : v.Describes path N)
    (hM : v.Describes path M) :
    N = M := by
  obtain ⟨bytes, hread, hdescription⟩ := hN
  obtain ⟨others, hothers, hother⟩ := hM
  cases hread.symm.trans hothers
  cases hdescription.symm.trans hother
  rfl

/-- A path that can be read does not hold the character zero. -/
theorem Describes.hasNull_eq_false
    (hN : v.Describes path N) :
    hasNull path = false := by
  obtain ⟨bytes, hread, -⟩ := hN
  obtain ⟨place, hleads, -⟩ := readFile_eq_ok_iff.mp hread
  exact hleads.hasNull

/-- A file that was written with the text of a description describes what the text describes. -/
theorem Describes.of_put
    {place : Place}
    {text : List Char}
    (hopens : v.Opens path place)
    (htext : Description.readText text = .ok N) :
    (v.put place (.file (Text.Utf8.encode text))).Describes path N :=
  ⟨_, readFile_put hopens, (Description.readBytes_encode text).trans htext⟩

theorem Describes.of_single_file
    {text : List Char}
    (htext : Description.readText text = .ok N) :
    ((Volume.empty []).put ["in"] (.file (Text.Utf8.encode text))).Describes "in" N :=
  .of_put (placeToWrite_eq_ok_iff.mp (by decide +kernel)) htext

end Describes

end Volume

/-- With the settings, the program cannot go on on the volume: an exception escapes from it. -/
inductive Settings.Raises
    (s : Settings)
    (v : Volume) :
    Escape → Prop
  | lostLevel :
      s.level = none →
      Raises s v .lostLevel
  | nullInput :
      s.level ≠ none →
      hasNull s.input = true →
      Raises s v .nullCharacter
  | lostOutput {N : NFA} :
      s.level ≠ none →
      v.Describes s.input N →
      s.output = none →
      Raises s v .lostOutput
  | nullOutput {N : NFA} {path : String} :
      s.level ≠ none →
      v.Describes s.input N →
      s.output = some path →
      hasNull path = true →
      Raises s v .nullCharacter

namespace VolumeOutcome

/-- The program failed on the volume: it printed nothing and changed nothing. -/
structure Failed
    (v : Volume)
    (r : VolumeOutcome) :
    Prop where
  ending : r.outcome.ending = .returned 1
  output : r.outcome.output = ""
  volume : r.volume = v

/-- An exception escaped from the program, which printed nothing and changed nothing. -/
structure Escaped
    (v : Volume)
    (e : Escape)
    (r : VolumeOutcome) :
    Prop where
  ending : r.outcome.ending = .escaped e
  output : r.outcome.output = ""
  volume : r.volume = v

/-- The program wrote the automaton at the place of the path, changed nothing else, and said so. -/
structure Wrote
    (v : Volume)
    (path : String)
    (place : Place)
    (D : DFA)
    (r : VolumeOutcome) :
    Prop where
  ending : r.outcome.ending = .returned 0
  output : ∃ report, r.outcome.output = report ++ "\n[ok] dfa записан в " ++ path ++ "\n"
  content : r.volume.readFile path = .ok (Text.Utf8.encode D.fileText.toList)
  node : r.volume.node? place = some (.file (Text.Utf8.encode D.fileText.toList))
  elsewhere : ∀ other, other ≠ place → r.volume.node? other = v.node? other

section Restricted

variable {v : Volume} {r : VolumeOutcome} (level : Level)

/-- The records that are shown make no difference to a failure. -/
theorem Failed.restrict
    (h : r.Failed v) :
    Failed v ⟨r.outcome.restrict level, r.volume⟩ :=
  ⟨h.ending, h.output, h.volume⟩

theorem Escaped.restrict
    {e : Escape}
    (h : r.Escaped v e) :
    Escaped v e ⟨r.outcome.restrict level, r.volume⟩ :=
  ⟨h.ending, h.output, h.volume⟩

theorem Wrote.restrict
    {path : String}
    {place : Place}
    {D : DFA}
    (h : r.Wrote v path place D) :
    Wrote v path place D ⟨r.outcome.restrict level, r.volume⟩ :=
  ⟨h.ending, h.output, h.content, h.node, h.elsewhere⟩

end Restricted

section Escaped

variable {v : Volume} {e : Escape} {r : VolumeOutcome}

theorem Escaped.not_failed
    (h : r.Escaped v e) :
    ¬ r.Failed v := by
  intro hfailed
  cases h.ending.symm.trans hfailed.ending

theorem Escaped.not_wrote
    (h : r.Escaped v e)
    (path : String)
    (place : Place)
    (D : DFA) :
    ¬ r.Wrote v path place D := by
  intro hwrote
  cases h.ending.symm.trans hwrote.ending

end Escaped

end VolumeOutcome

/--
The program with the given settings wrote the automaton of its input, or failed, or an exception
escaped from it.  Unless an exception is raised, it wrote if the input is a description and the path
to be written can be opened.
-/
structure AllOrNothing
    (s : Settings)
    (v : Volume)
    (r : VolumeOutcome) :
    Prop where
  unreadable :
    (∀ e, ¬ s.Raises v e) → (∀ N, ¬ v.Describes s.input N) → r.Failed v
  unwritable :
    (∀ e, ¬ s.Raises v e) →
      (∀ path place, s.output = some path → ¬ v.Opens path place) → r.Failed v
  written :
    ∀ N path place,
      (∀ e, ¬ s.Raises v e) →
      v.Describes s.input N →
      s.output = some path →
      v.Opens path place →
      r.Wrote v path place N.determinize
  raised :
    ∀ e, s.Raises v e → r.Escaped v e
  ending_ne_two :
    r.outcome.ending ≠ .returned 2

section Session

variable {s : Settings} {v : Volume}

/-- A session on a volume, with the volume passed on. -/
theorem runSession_eq :
    runSession s v
      =
    match prepare s (v.readFile s.input) with
    | .error o => ⟨o, v⟩
    | .ok p =>
        match s.output with
        | none => ⟨Outcome.escape p.records .lostOutput, v⟩
        | some path =>
            match v.writeFile path p.bytes with
            | .error f => ⟨finish s p path (.error f), v⟩
            | .ok after => ⟨finish s p path (.ok ()), after⟩ := by
  simp only [runSession, session, StateT.run, bind, StateT.bind, Volume.access]
  cases prepare s (v.readFile s.input) with
  | error o => rfl
  | ok p =>
      cases s.output with
      | none => rfl
      | some path =>
          simp only [StateT.bind]
          cases v.writeFile path p.bytes <;> rfl

/-- Preparation plans for the automaton of what the input says, in the order of its edges. -/
theorem prepare_eq_ok_iff
    {content : Except PathFault (List UInt8)}
    {p : Plan} :
    prepare s content = .ok p
      ↔
    ∃ bytes c,
      content = .ok bytes ∧
      Description.contentsOfBytes bytes = .ok c ∧
      Plan.ofNFA c.orderedNFA = p := by
  unfold prepare
  cases content with
  | error f => simp
  | ok bytes => cases hcontents : Description.contentsOfBytes bytes <;> simp [hcontents]

theorem exists_prepare_eq_ok
    {N : NFA}
    (hN : v.Describes s.input N) :
    ∃ L : OrderedNFA,
      L.forgetOrder = N ∧ prepare s (v.readFile s.input) = .ok (Plan.ofNFA L) := by
  obtain ⟨bytes, hread, hdescription⟩ := hN
  obtain ⟨c, hcontents, rfl⟩ := map_eq_ok_iff.mp hdescription
  exact ⟨c.orderedNFA, c.forgetOrder_orderedNFA,
    prepare_eq_ok_iff.mpr ⟨bytes, c, hread, hcontents, rfl⟩⟩

/-- Without a description preparation fails, with a complaint only. -/
theorem prepare_eq_error
    (hnull : hasNull s.input = false)
    (h : ∀ N, ¬ v.Describes s.input N) :
    ∃ complaint, prepare s (v.readFile s.input) = .error (Outcome.failure [] complaint) := by
  unfold prepare
  cases hread : v.readFile s.input with
  | error f =>
      cases f with
      | system fault => exact ⟨_, rfl⟩
      | nullCharacter => simp [Volume.readFile_eq_null_iff.mp hread] at hnull
  | ok bytes =>
      cases hcontents : Description.contentsOfBytes bytes with
      | error e => exact ⟨descriptionComplaint s.input e, by simp only [hcontents]⟩
      | ok c => exact absurd ⟨bytes, hread, map_eq_ok_iff.mpr ⟨c, hcontents, rfl⟩⟩ (h c.nfa)

/-- All comparisons of an automaton with its determinization agree. -/
theorem verdictsAgree_determinize
    (L : OrderedNFA)
    (words : List ShownWord) :
    verdictsAgree L L.determinize words = true := by
  refine verdictsAgree_iff.mpr fun w _ => ?_
  rw [← NFA.run_forgetOrder, ← NFA.determinize_forgetOrder, Bool.eq_iff_iff, NFA.run_accepted_iff,
    NFA.run_determinize_accepted_iff]

/-- A session that has written its file ends well and says so at the end. -/
theorem finish_ofNFA
    (L : OrderedNFA)
    (path : String) :
    (finish s (Plan.ofNFA L) path (.ok ())).ending = .returned 0 ∧
      ∃ report,
        (finish s (Plan.ofNFA L) path (.ok ())).output
          =
        report ++ "\n[ok] dfa записан в " ++ path ++ "\n" := by
  have hagree :
      verdictsAgree (Plan.ofNFA L).nfa (Plan.ofNFA L).dfa (s.words.map settingWord) = true :=
    verdictsAgree_determinize L _
  simp only [finish, hagree, if_true]
  exact ⟨trivial, _, rfl⟩

theorem runSession_failed_of_unreadable
    (hnull : hasNull s.input = false)
    (h : ∀ N, ¬ v.Describes s.input N) :
    (runSession s v).Failed v := by
  obtain ⟨complaint, hprepare⟩ := prepare_eq_error hnull h
  rw [runSession_eq, hprepare]
  exact ⟨rfl, rfl, rfl⟩

theorem runSession_failed_of_unwritable
    {N : NFA}
    {path : String}
    (hN : v.Describes s.input N)
    (hpath : s.output = some path)
    (hnull : hasNull path = false)
    (h : ∀ place, ¬ v.Opens path place) :
    (runSession s v).Failed v := by
  obtain ⟨L, -, hprepare⟩ := exists_prepare_eq_ok hN
  cases hwrite : v.writeFile path (Plan.ofNFA L).bytes with
  | error f =>
      simp only [runSession_eq, hprepare, hpath, hwrite]
      cases f with
      | system fault => exact ⟨rfl, rfl, rfl⟩
      | nullCharacter => simp [Volume.writeFile_eq_null_iff.mp hwrite] at hnull
  | ok after =>
      obtain ⟨place, hopens, -⟩ := Volume.writeFile_eq_ok_iff.mp hwrite
      exact absurd hopens (h place)

theorem runSession_wrote
    {N : NFA}
    {path : String}
    {place : Place}
    (hN : v.Describes s.input N)
    (hpath : s.output = some path)
    (hopens : v.Opens path place) :
    (runSession s v).Wrote v path place N.determinize := by
  obtain ⟨L, rfl, hprepare⟩ := exists_prepare_eq_ok hN
  have hwrite :
      v.writeFile path (Plan.ofNFA L).bytes = .ok (v.put place (.file (Plan.ofNFA L).bytes)) :=
    Volume.writeFile_eq_ok_iff.mpr ⟨place, hopens, rfl⟩
  obtain ⟨hending, houtput⟩ := finish_ofNFA (s := s) L path
  simp only [runSession_eq, hprepare, hpath, hwrite, NFA.determinize_forgetOrder]
  refine
    { ending := hending
      output := houtput
      content := Volume.readFile_put hopens
      node := ?_
      elsewhere := ?_ }
  · rw [Volume.node?_put hopens.place_ne_nil, if_pos rfl]
    rfl
  · intro other hother
    rw [Volume.node?_put hopens.place_ne_nil, if_neg (Ne.symm hother)]

/-- With a level, an exception that is raised escapes from the session. -/
theorem runSession_escaped
    {e : Escape}
    (hlevel : s.level ≠ none)
    (h : s.Raises v e) :
    (runSession s v).Escaped v e := by
  cases h with
  | lostLevel hnone => exact absurd hnone hlevel
  | nullInput _ hnull =>
      have hread : v.readFile s.input = .error .nullCharacter :=
        Volume.readFile_eq_null_iff.mpr hnull
      simp only [runSession_eq, hread, prepare]
      exact ⟨rfl, rfl, rfl⟩
  | lostOutput _ hN hpath =>
      obtain ⟨L, -, hprepare⟩ := exists_prepare_eq_ok hN
      simp only [runSession_eq, hprepare, hpath]
      exact ⟨rfl, rfl, rfl⟩
  | nullOutput _ hN hpath hnull =>
      obtain ⟨L, -, hprepare⟩ := exists_prepare_eq_ok hN
      simp only [runSession_eq, hprepare, hpath, Volume.writeFile_eq_null_iff.mpr hnull]
      exact ⟨rfl, rfl, rfl⟩

end Session

section Settings

variable {s : Settings} {v : Volume}

/-- With a level, the program runs a session and shows the records that the level lets through. -/
theorem runSettings_eq
    {level : Level}
    (hlevel : s.level = some level) :
    runSettings s v = ⟨(runSession s v).outcome.restrict level, (runSession s v).volume⟩ := by
  simp only [runSettings, programFor, hlevel]
  rfl

/-- Without a level there is no session. -/
theorem runSettings_eq_of_lost_level
    (hlevel : s.level = none) :
    runSettings s v = ⟨Outcome.escape [] .lostLevel, v⟩ := by
  simp only [runSettings, programFor, hlevel]
  rfl

/-- An exception that is raised escapes from the program. -/
theorem runSettings_escaped
    {e : Escape}
    (h : s.Raises v e) :
    (runSettings s v).Escaped v e := by
  cases hlevel : s.level with
  | none =>
      rw [runSettings_eq_of_lost_level hlevel]
      cases h with
      | lostLevel => exact ⟨rfl, rfl, rfl⟩
      | nullInput hsome => exact absurd hlevel hsome
      | lostOutput hsome => exact absurd hlevel hsome
      | nullOutput hsome => exact absurd hlevel hsome
  | some level =>
      rw [runSettings_eq hlevel]
      exact (runSession_escaped (by simp [hlevel]) h).restrict level

variable (hraises : ∀ e, ¬ s.Raises v e)
include hraises

theorem exists_level_of_not_raises :
    ∃ level, s.level = some level := by
  rw [← Option.ne_none_iff_exists']
  exact fun hnone => hraises .lostLevel (.lostLevel hnone)

theorem hasNull_input_of_not_raises :
    hasNull s.input = false := by
  obtain ⟨level, hlevel⟩ := exists_level_of_not_raises hraises
  rw [← Bool.not_eq_true]
  exact fun hnull => hraises .nullCharacter (.nullInput (by simp [hlevel]) hnull)

theorem exists_output_of_not_raises
    {N : NFA}
    (hN : v.Describes s.input N) :
    ∃ path, s.output = some path ∧ hasNull path = false := by
  obtain ⟨level, hlevel⟩ := exists_level_of_not_raises hraises
  have hsome : s.level ≠ none := by
    simp [hlevel]
  cases hpath : s.output with
  | none => exact absurd (.lostOutput hsome hN hpath) (hraises .lostOutput)
  | some path =>
      refine ⟨path, rfl, ?_⟩
      rw [← Bool.not_eq_true]
      exact fun hnull => hraises .nullCharacter (.nullOutput hsome hN hpath hnull)

theorem runSettings_failed_of_unreadable
    (h : ∀ N, ¬ v.Describes s.input N) :
    (runSettings s v).Failed v := by
  obtain ⟨level, hlevel⟩ := exists_level_of_not_raises hraises
  rw [runSettings_eq hlevel]
  exact (runSession_failed_of_unreadable (hasNull_input_of_not_raises hraises) h).restrict level

theorem runSettings_failed_of_unwritable
    (h : ∀ path place, s.output = some path → ¬ v.Opens path place) :
    (runSettings s v).Failed v := by
  by_cases hinput : ∃ N, v.Describes s.input N
  · obtain ⟨N, hN⟩ := hinput
    obtain ⟨level, hlevel⟩ := exists_level_of_not_raises hraises
    obtain ⟨path, hpath, hnull⟩ := exists_output_of_not_raises hraises hN
    rw [runSettings_eq hlevel]
    exact (runSession_failed_of_unwritable hN hpath hnull fun place => h path place hpath).restrict
      level
  · push Not at hinput
    exact runSettings_failed_of_unreadable hraises hinput

theorem runSettings_wrote
    {N : NFA}
    {path : String}
    {place : Place}
    (hN : v.Describes s.input N)
    (hpath : s.output = some path)
    (hopens : v.Opens path place) :
    (runSettings s v).Wrote v path place N.determinize := by
  obtain ⟨level, hlevel⟩ := exists_level_of_not_raises hraises
  rw [runSettings_eq hlevel]
  exact (runSession_wrote hN hpath hopens).restrict level

end Settings

section Program

variable {arguments : List String} {s : Settings} {v : Volume}

/-- A run with settings has failed, or has written its file, or an exception has escaped from it, and
so it did not find a disagreement. -/
theorem ending_runSettings_ne_two :
    (runSettings s v).outcome.ending ≠ .returned 2 := by
  by_cases hraised : ∃ e, s.Raises v e
  · obtain ⟨e, he⟩ := hraised
    simp [(runSettings_escaped he).ending]
  push Not at hraised
  by_cases hwritable :
      ∃ N path place, v.Describes s.input N ∧ s.output = some path ∧ v.Opens path place
  · obtain ⟨N, path, place, hN, hpath, hopens⟩ := hwritable
    simp [(runSettings_wrote hraised hN hpath hopens).ending]
  · have hfailed : (runSettings s v).Failed v := by
      by_cases hinput : ∃ N, v.Describes s.input N
      · obtain ⟨N, hN⟩ := hinput
        exact runSettings_failed_of_unwritable hraised fun path place hpath hopens =>
          hwritable ⟨N, path, place, hN, hpath, hopens⟩
      · push Not at hinput
        exact runSettings_failed_of_unreadable hraised hinput
    simp [hfailed.ending]

/-- The program runs the settings of its command line. -/
theorem runProgram_eq_runSettings
    (hs : Options.readCommandLine arguments = .ok s) :
    runProgram arguments v = runSettings s v := by
  simp only [runProgram, program, hs]
  rfl

/--
Whatever the command line asks for and whatever the volume holds, the program either writes the
automaton of its input and changes nothing else, or it ends without output and without a change: it
fails, or an exception escapes from it.
-/
theorem runProgram_allOrNothing
    (hs : Options.readCommandLine arguments = .ok s)
    (v : Volume) :
    AllOrNothing s v (runProgram arguments v) := by
  rw [runProgram_eq_runSettings hs]
  exact
    { unreadable := runSettings_failed_of_unreadable
      unwritable := runSettings_failed_of_unwritable
      written := fun _ _ _ hraises => runSettings_wrote hraises
      raised := fun _ => runSettings_escaped
      ending_ne_two := ending_runSettings_ne_two }

/-- The program writes over the description that it has read. -/
theorem runProgram_over_its_input :
    ∃ v N,
      v.Describes "in" N ∧
      (runProgram ["in", "-o", "in"] v).Wrote v "in" ["in"] N.determinize := by
  let description := ["2", "a", "0", "1", "0 a 1"]
  let text := ("\n".intercalate description).toList
  let v := (Volume.empty []).put ["in"] (.file (Text.Utf8.encode text))
  let N := NFA.build 2 ["a"] 0 [1] [⟨0, "a", 1⟩]
  let s : Settings := ⟨"in", some "in", [], false, some .warning⟩
  have hs : Options.readCommandLine ["in", "-o", "in"] = .ok s := by
    decide +kernel
  have hopens : v.Opens "in" ["in"] :=
    Volume.placeToWrite_eq_ok_iff.mp (by decide +kernel)
  have hN : v.Describes "in" N :=
    .of_single_file (by decide +kernel)
  have hraises : ∀ e, ¬ s.Raises v e := by
    rintro e (hlevel | ⟨-, hnull⟩ | ⟨-, -, hpath⟩ | ⟨-, -, hpath, hnull⟩)
    · cases hlevel
    · simp [hN.hasNull_eq_false, s] at hnull
    · cases hpath
    · cases hpath
      simp [hN.hasNull_eq_false] at hnull
  exact ⟨v, N, hN,
    (runProgram_allOrNothing hs v).written N "in" ["in"] hraises hN rfl hopens⟩

/-- With a lost level, a lost path or a path that no file can have, the program neither fails nor
writes, although its input is a description. -/
theorem runProgram_lost_values :
    ∃ v N,
      v.Describes "in" N ∧
      ∀ arguments ∈ [["in", "--log-level=--"], ["in", "--output=--"], ["in", "--output=\x00"]],
        (∃ s, Options.readCommandLine arguments = .ok s ∧ s.input = "in") ∧
          (∃ e, (runProgram arguments v).Escaped v e) ∧
          ¬ (runProgram arguments v).Failed v ∧
          ∀ path place D, ¬ (runProgram arguments v).Wrote v path place D := by
  let description := ["2", "a", "0", "1", "0 a 1"]
  let text := ("\n".intercalate description).toList
  let v := (Volume.empty []).put ["in"] (.file (Text.Utf8.encode text))
  let N := NFA.build 2 ["a"] 0 [1] [⟨0, "a", 1⟩]
  have hN : v.Describes "in" N :=
    .of_single_file (by decide +kernel)
  have hall : ∀ arguments s e, Options.readCommandLine arguments = .ok s → s.input = "in" →
      s.Raises v e →
      (∃ s, Options.readCommandLine arguments = .ok s ∧ s.input = "in") ∧
        (∃ e, (runProgram arguments v).Escaped v e) ∧
        ¬ (runProgram arguments v).Failed v ∧
        ∀ path place D, ¬ (runProgram arguments v).Wrote v path place D := by
    intro arguments s e hs hinput hraises
    have hescaped := runSettings_escaped hraises
    rw [runProgram_eq_runSettings hs]
    exact ⟨⟨s, hs, hinput⟩, ⟨e, hescaped⟩, hescaped.not_failed, hescaped.not_wrote⟩
  refine ⟨v, N, hN, ?_⟩
  simp only [List.forall_mem_cons, List.not_mem_nil, false_implies, implies_true, and_true]
  refine ⟨?_, ?_, ?_⟩
  · exact hall _ ⟨"in", some Settings.defaultOutput, [], false, none⟩ .lostLevel
      (by decide +kernel) rfl (.lostLevel rfl)
  · exact hall _ ⟨"in", none, [], false, some .warning⟩ .lostOutput
      (by decide +kernel) rfl (.lostOutput (by simp) hN rfl)
  · exact hall _ ⟨"in", some "\x00", [], false, some .warning⟩ .nullCharacter
      (by decide +kernel) rfl (.nullOutput (by simp) hN rfl (by decide +kernel))

end Program

end Determinization
