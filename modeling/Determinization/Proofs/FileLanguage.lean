import Determinization.Proofs.FileText
import Determinization.Proofs.Language

/-!
# The language of a description and of the file made from it

Both texts are read as graphs.  The nodes of a description are integers, and a transition line
leads from its first token by the first character of its second token to each further token.
The nodes of an automaton file are literals, and a line from the fifth on leads from the literal
at its beginning by one character to the literal at its end.  A text spells a word if some path
does, from the node of the third line to a node of the fourth.

**Results.** `spells_iff` says that a description and the file of its determinization spell the
same words.
-/

namespace Determinization

namespace Description

/-- The text of a line, empty if the line is missing. -/
def lineAt
    (lines : List String)
    (index : Nat) :
    List Char :=
  (lines[index]?.getD "").toList

/-- The character is the first one of some token of the second line. -/
def HasSymbol
    (lines : List String)
    (c : Char) :
    Prop :=
  ∃ token ∈ Text.tokens (lineAt lines 1), token.head? = some c

/-- The third line consists of the integer. -/
def IsStart
    (lines : List String)
    (q : Int) :
    Prop :=
  Text.integer? (Text.trim (lineAt lines 2)) = some q

/-- The integer is a token of the fourth line. -/
def IsAccepting
    (lines : List String)
    (p : Int) :
    Prop :=
  ∃ token ∈ Text.tokens (lineAt lines 3), Text.integer? token = some p

/-- Some transition line leads from one integer to another by a character. -/
def Step
    (lines : List String)
    (q : Int)
    (c : Char)
    (p : Int) :
    Prop :=
  ∃ line ∈ lines.drop 4, ∃ source symbol targets target,
    Text.tokens line.toList = source :: symbol :: targets ∧
    Text.integer? source = some q ∧
    symbol.head? = some c ∧
    target ∈ targets ∧
    Text.integer? target = some p

/-- The word has symbols only, and a path from the start to an accepting integer spells it. -/
def Spells
    (lines : List String)
    (word : List Char) :
    Prop :=
  (∀ c ∈ word, HasSymbol lines c) ∧
    ∃ q p, IsStart lines q ∧ Path (Step lines) q word p ∧ IsAccepting lines p

section Described

variable {lines : List String} {N : NFA} (hN : Describes lines N)
include hN

theorem hasSymbol_iff
    {c : Char} :
    HasSymbol lines c ↔ String.singleton c ∈ N.alphabet := by
  obtain ⟨line, hline, halphabet⟩ := hN.alphabet_line
  simp [HasSymbol, lineAt, hline, halphabet, tokenSymbol_eq_singleton_iff]

theorem isStart_iff
    {q : Int} :
    IsStart lines q ↔ N.start = q := by
  obtain ⟨line, hline, hstart⟩ := hN.start_line
  simp [IsStart, lineAt, hline, hstart]

theorem step_iff
    {q p : Int}
    {c : Char} :
    Step lines q c p ↔ N.Step q c p := by
  rw [NFA.Step, hN.mem_targets_iff]
  simp only [Step, LineHasEdge, tokenSymbol_eq_singleton_iff]

/-- A description spells the words that the automaton accepts. -/
theorem spells_iff_accepts
    {word : List Char} :
    Spells lines word ↔ N.Accepts word := by
  have hstep : Step lines = N.Step := by
    funext q c p
    exact propext (step_iff hN)
  have haccepting : ∀ p, IsAccepting lines p ↔ p ∈ N.accepts := fun p =>
    (hN.mem_accepts_iff p).symm
  rw [NFA.accepts_iff_path]
  simp only [Spells, hasSymbol_iff hN, isStart_iff hN, hstep, haccepting]
  refine and_congr_right fun _ => ?_
  constructor
  · rintro ⟨_, p, rfl, hpath, hp⟩
    exact ⟨p, hpath, hp⟩
  · rintro ⟨p, hpath, hp⟩
    exact ⟨N.start, p, rfl, hpath, hp⟩

end Described

end Description

namespace AutomatonFile

/-- The text is the literal of some set. -/
def IsLiteral (text : String) : Prop :=
  ∃ s : StateSet, text = s.brackets

/-- A line from the fifth on leads from one literal to another by a character. -/
def Step
    (lines : List String)
    (source : String)
    (c : Char)
    (target : String) :
    Prop :=
  IsLiteral source ∧
    IsLiteral target ∧
    source ++ " " ++ String.singleton c ++ " " ++ target ∈ lines.drop 4

/-- The text is one of the literals of which the fourth line consists. -/
def IsAccepting
    (lines : List String)
    (text : String) :
    Prop :=
  ∃ literals : List String,
    (∀ literal ∈ literals, IsLiteral literal) ∧
    lines[3]? = some (" ".intercalate literals) ∧
    text ∈ literals

/-- A path from the literal of the third line to an accepting one spells the word. -/
def Spells
    (lines : List String)
    (word : List Char) :
    Prop :=
  ∃ source target,
    lines[2]? = some source ∧
    Path (Step lines) source word target ∧
    IsAccepting lines target

theorem exists_map_brackets
    {literals : List String}
    (h : ∀ literal ∈ literals, IsLiteral literal) :
    ∃ sets : List StateSet, sets.map StateSet.brackets = literals := by
  induction literals with
  | nil => exact ⟨[], rfl⟩
  | cons literal literals ih =>
      obtain ⟨⟨s, rfl⟩, hrest⟩ := List.forall_mem_cons.mp h
      obtain ⟨sets, rfl⟩ := ih hrest
      exact ⟨s :: sets, rfl⟩

section Written

variable {D : DFA}

/-- The accepting literals of a file are those of the accepting sets. -/
theorem isAccepting_fileLines_iff
    {text : String} :
    IsAccepting D.fileLines text ↔ ∃ s ∈ D.accepts, s.brackets = text := by
  have hline :
      D.fileLines[3]? = some (" ".intercalate (D.accepts.map StateSet.brackets)) :=
    rfl
  constructor
  · rintro ⟨literals, hliterals, hfile, htext⟩
    obtain ⟨sets, rfl⟩ := exists_map_brackets hliterals
    rw [hline, Option.some.injEq] at hfile
    rw [DFA.accepts_line_inj hfile]
    exact List.mem_map.mp htext
  · rintro ⟨s, hs, rfl⟩
    refine ⟨_, ?_, hline, List.mem_map_of_mem hs⟩
    intro literal hliteral
    obtain ⟨t, -, rfl⟩ := List.mem_map.mp hliteral
    exact ⟨t, rfl⟩

/-- The steps from a literal of a file lead to the literals at the ends of the edges. -/
theorem step_fileLines_iff
    (hD : D.HasTokenSymbols)
    {s : StateSet}
    {c : Char}
    {text : String} :
    Step D.fileLines s.brackets c text ↔ ∃ t, D.Step s c t ∧ t.brackets = text := by
  have hedges : D.fileLines.drop 4 = D.edges.map Move.fileLine := rfl
  constructor
  · rintro ⟨-, ⟨t, rfl⟩, hline⟩
    rw [hedges] at hline
    obtain ⟨m, hm, hfile⟩ := List.mem_map.mp hline
    obtain rfl : m = ⟨s, String.singleton c, t⟩ :=
      eq_of_fileLine_eq_singleton (hD.edges m hm) hfile
    exact ⟨t, hm, rfl⟩
  · rintro ⟨t, hedge, rfl⟩
    refine ⟨⟨s, rfl⟩, ⟨t, rfl⟩, ?_⟩
    rw [hedges]
    exact List.mem_map.mpr ⟨_, hedge, rfl⟩

/-- A file spells the words of the paths from the start set to an accepting set. -/
theorem spells_fileLines_iff
    (hD : D.HasTokenSymbols)
    {word : List Char} :
    Spells D.fileLines word ↔ ∃ t ∈ D.accepts, Path D.Step D.start word t := by
  have hstart : D.fileLines[2]? = some D.start.brackets := rfl
  have hpath : ∀ text,
      Path (Step D.fileLines) D.start.brackets word text
        ↔
      ∃ t, Path D.Step D.start word t ∧ t.brackets = text :=
    fun _ => Path.map_iff fun _ _ _ => step_fileLines_iff hD
  constructor
  · rintro ⟨_, _, hsource, htext, haccepting⟩
    rw [hstart, Option.some.injEq] at hsource
    subst hsource
    obtain ⟨t, hread, rfl⟩ := (hpath _).mp htext
    obtain ⟨s, hs, hst⟩ := isAccepting_fileLines_iff.mp haccepting
    exact ⟨t, StateSet.brackets_injective hst ▸ hs, hread⟩
  · rintro ⟨t, ht, hread⟩
    exact ⟨_, _, hstart, (hpath _).mpr ⟨t, hread, rfl⟩,
      isAccepting_fileLines_iff.mpr ⟨t, ht, rfl⟩⟩

end Written

end AutomatonFile

/--
A description that is read and the file of the determinization of its automaton spell the same
words.
-/
theorem spells_iff
    {lines : List String}
    {N : NFA}
    (hN : Description.read lines = .ok N)
    (word : List Char) :
    Description.Spells lines word
      ↔
    AutomatonFile.Spells (Description.linesOf N.determinize.fileText.toList) word := by
  have hD := (NFA.hasTokenAlphabet_of_read hN).hasTokenSymbols
  calc
    Description.Spells lines word
      ↔ N.Accepts word :=
        Description.spells_iff_accepts (Description.describes_of_read hN)
    _ ↔ ∃ t ∈ N.determinize.accepts, Path N.determinize.Step N.determinize.start word t :=
        NFA.accepts_iff_path_determinize
    _ ↔ AutomatonFile.Spells N.determinize.fileLines word :=
        (AutomatonFile.spells_fileLines_iff hD).symm
    _ ↔ AutomatonFile.Spells (Description.linesOf N.determinize.fileText.toList) word := by
        rw [DFA.linesOf_fileText hD]

/-- A word that a path through a set of two states spells. -/
theorem spells_through_pair :
    ∃ N,
      Description.read ["3", "a b", "0", "10", "0 a 0 -1", "-1 b 10"] = .ok N ∧
      AutomatonFile.Spells (Description.linesOf N.determinize.fileText.toList) ['a', 'b'] := by
  let lines := ["3", "a b", "0", "10", "0 a 0 -1", "-1 b 10"]
  let N := NFA.build 3 ["a", "b"] 0 [10] [⟨0, "a", 0⟩, ⟨0, "a", -1⟩, ⟨-1, "b", 10⟩]
  have hN : Description.read lines = .ok N := by
    decide +kernel
  have htokens : Text.tokens (Description.lineAt lines 1) = [['a'], ['b']] := by
    decide +kernel
  have hsymbols : ∀ c ∈ ['a', 'b'], Description.HasSymbol lines c := by
    intro c hc
    rw [Description.HasSymbol, htokens]
    exact ⟨[c], by simpa using hc, rfl⟩
  have hfirst : Description.Step lines 0 'a' (-1) := by
    refine ⟨"0 a 0 -1", by simp [lines], ['0'], ['a'], [['0'], ['-', '1']], ['-', '1'], ?_⟩
    exact ⟨rfl, rfl, rfl, by simp, rfl⟩
  have hsecond : Description.Step lines (-1) 'b' 10 := by
    refine ⟨"-1 b 10", by simp [lines], ['-', '1'], ['b'], [['1', '0']], ['1', '0'], ?_⟩
    exact ⟨rfl, rfl, rfl, by simp, rfl⟩
  have hpath : Path (Description.Step lines) 0 ['a', 'b'] 10 :=
    Path.read hfirst (Path.read hsecond (Path.stop 10))
  have hstart : Description.IsStart lines 0 := by
    rw [Description.IsStart]
    decide +kernel
  have haccepting : Description.IsAccepting lines 10 :=
    ⟨['1', '0'], by decide +kernel, rfl⟩
  exact ⟨N, hN, (spells_iff hN ['a', 'b']).mp ⟨hsymbols, 0, 10, hstart, hpath, haccepting⟩⟩

end Determinization
