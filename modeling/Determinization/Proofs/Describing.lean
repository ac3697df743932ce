import Mathlib.Data.List.TFAE
import Mathlib.Tactic.TFAE
import Determinization.Proofs.FirstOccurrences
import Determinization.Proofs.ReadingBytes
import Determinization.Proofs.Text.IntegerToken

/-!
# Describing an automaton

An automaton is written down as a description: the header lines, and one line for each entry of
its transition map.  A symbol is read as the first character of a token, integers have a limited
number of digits, and a map that is read is compact, so not every automaton has a description.
These are the only restrictions.

**Results.** `describable_tfae`: an automaton can be read from some description if and only if it
obeys the restrictions, and then it is read from the description written for it, line by line
as well as from the bytes.
-/

namespace Determinization

/-- The targets of one state by one symbol. -/
structure TransitionEntry where
  source : Int
  symbol : Symbol
  targets : StateSet

namespace TransitionEntry

/-- The transition line of an entry. -/
def line (e : TransitionEntry) : String :=
  " ".intercalate (Text.numeral e.source :: e.symbol :: e.targets.toList.map Text.numeral)

def edges (e : TransitionEntry) : List Edge :=
  e.targets.toList.map fun p => ⟨e.source, e.symbol, p⟩

end TransitionEntry

/-- The entries of a transition map, in ascending order of states and symbols. -/
def TransitionMap.entries (transitions : TransitionMap) : List TransitionEntry :=
  transitions.toList.flatMap fun row => row.2.toList.map fun entry => ⟨row.1, entry.1, entry.2⟩

/-- The description of an automaton. -/
def NFA.describe (N : NFA) : List String :=
  Text.numeral N.numStates
    :: " ".intercalate N.alphabet
    :: Text.numeral N.start
    :: " ".intercalate (N.accepts.toList.map Text.numeral)
    :: (TransitionMap.entries N.transitions).map TransitionEntry.line

/-- The automaton obeys the restrictions of descriptions. -/
structure NFA.IsDescribable (N : NFA) : Prop where
  nodup_alphabet : N.alphabet.Nodup
  isLetter_alphabet : ∀ a ∈ N.alphabet, Description.IsLetter a
  isLetter_keys : ∀ (q : Int) (a : Symbol), a ∈ N.transitions[q]?.getD ∅ → Description.IsLetter a
  isCompact : TransitionMap.IsCompact N.transitions
  numStates : Text.WithinLimit N.numStates
  start : Text.WithinLimit N.start
  accepts : ∀ q ∈ N.accepts, Text.WithinLimit q
  sources : ∀ q ∈ N.transitions, Text.WithinLimit q
  targets : ∀ q a p, p ∈ N.targets q a → Text.WithinLimit p

namespace TransitionMap

/-- The entries are the target sets of the map. -/
theorem mem_entries_iff
    {transitions : TransitionMap}
    {e : TransitionEntry} :
    e ∈ entries transitions ↔ (transitions[e.source]?.getD ∅)[e.symbol]? = some e.targets := by
  obtain ⟨q, a, s⟩ := e
  simp only [entries, List.mem_flatMap, List.mem_map, TransitionEntry.mk.injEq, Prod.exists,
    Std.ExtTreeMap.mem_toList_iff_getElem?_eq_some]
  constructor
  · rintro ⟨_, row, hrow, _, _, hentry, rfl, rfl, rfl⟩
    rw [hrow, Option.getD_some, hentry]
  · intro hentry
    cases hrow : transitions[q]? with
    | none => simp [hrow] at hentry
    | some row => exact ⟨q, row, hrow, a, s, by simpa [hrow] using hentry, rfl, rfl, rfl⟩

/-- The edges of the entries are the edges of the map. -/
theorem mem_edges_entries_iff
    {transitions : TransitionMap}
    {edge : Edge} :
    edge ∈ (entries transitions).flatMap TransitionEntry.edges
      ↔
    edge.target ∈ targets transitions edge.source edge.symbol := by
  obtain ⟨q, a, p⟩ := edge
  simp only [List.mem_flatMap, TransitionEntry.edges, List.mem_map, mem_entries_iff, targets,
    Std.ExtTreeSet.mem_toList, Edge.mk.injEq]
  constructor
  · rintro ⟨⟨source, symbol, s⟩, hentry, _, hp, rfl, rfl, rfl⟩
    rw [hentry, Option.getD_some]
    exact hp
  · intro hp
    cases hentry : (transitions[q]?.getD ∅)[a]? with
    | none => simp [hentry] at hp
    | some s => exact ⟨⟨q, a, s⟩, hentry, p, by simpa [hentry] using hp, rfl, rfl, rfl⟩

/-- A compact map is built from the edges of its entries. -/
theorem IsCompact.ofEdges_entries
    {transitions : TransitionMap}
    (h : IsCompact transitions) :
    ofEdges ((entries transitions).flatMap TransitionEntry.edges) = transitions := by
  refine (isCompact_ofEdges _).eq_of_targets_eq h fun q a => ?_
  refine StateSet.ext_mem fun p => ?_
  rw [mem_targets_ofEdges_iff, mem_edges_entries_iff]

end TransitionMap

/-- The entries of an automaton that obeys the restrictions are made of letters and of integers
within the limit. -/
theorem NFA.IsDescribable.of_mem_entries
    {N : NFA}
    (h : N.IsDescribable)
    {e : TransitionEntry}
    (he : e ∈ TransitionMap.entries N.transitions) :
    Text.WithinLimit e.source ∧
      Description.IsLetter e.symbol ∧
      ∀ p ∈ e.targets, Text.WithinLimit p := by
  have hentry := TransitionMap.mem_entries_iff.mp he
  have hkey : e.symbol ∈ N.transitions[e.source]?.getD ∅ := by
    rw [Std.ExtTreeMap.mem_iff_isSome_getElem?, hentry]
    rfl
  have hsource : e.source ∈ N.transitions := by
    rw [Std.ExtTreeMap.mem_iff_isSome_getElem?, Option.isSome_iff_ne_none]
    intro hnone
    simp [hnone] at hkey
  refine ⟨h.sources _ hsource, h.isLetter_keys _ _ hkey, fun p hp => ?_⟩
  refine h.targets e.source e.symbol p ?_
  rw [NFA.targets_eq, hentry]
  exact hp

namespace Description

section Restrictions

variable {lines : List String} {N : NFA}

/-- A symbol that leads somewhere in an automaton that is read is a letter, and the integers of
its edges are within the limit. -/
theorem of_mem_targets
    (h : Describes lines N)
    {q p : Int}
    {a : Symbol}
    (hp : p ∈ N.targets q a) :
    Text.WithinLimit q ∧ IsLetter a ∧ Text.WithinLimit p := by
  obtain ⟨line, -, source, symbol, targets, target, htokens, hsource, rfl, -, htarget⟩ :=
    (h.mem_targets_iff q a p).mp hp
  have hsymbol : symbol ∈ Text.tokens line.toList := by
    simp [htokens]
  exact ⟨Text.withinLimit_of_integer? hsource,
    isLetter_tokenSymbol (Text.isToken_of_mem_tokens hsymbol),
    Text.withinLimit_of_integer? htarget⟩

/-- An automaton that is read has a compact transition map. -/
theorem isCompact_of_read
    (h : read lines = .ok N) :
    TransitionMap.IsCompact N.transitions := by
  obtain ⟨_, _, _, _, edges, -, -, -, -, -, rfl⟩ := read_eq_ok_iff.mp h
  exact TransitionMap.isCompact_ofEdges edges

theorem isDescribable_of_read
    (h : read lines = .ok N) :
    N.IsDescribable := by
  have hdescribes := describes_of_read h
  have hcompact := isCompact_of_read h
  obtain ⟨line, -, halphabet⟩ := hdescribes.alphabet_line
  obtain ⟨_, -, hnumStates⟩ := hdescribes.numStates_line
  obtain ⟨_, -, hstart⟩ := hdescribes.start_line
  refine
    { nodup_alphabet := ?_
      isLetter_alphabet := fun _ ha => hdescribes.isLetter_of_mem_alphabet ha
      isLetter_keys := ?_
      isCompact := hcompact
      numStates := Text.withinLimit_of_integer? hnumStates
      start := Text.withinLimit_of_integer? hstart
      accepts := ?_
      sources := ?_
      targets := fun q a p hp => (of_mem_targets hdescribes hp).2.2 }
  · rw [halphabet]
    exact nodup_eraseDups _
  · intro q a ha
    obtain ⟨p, hp⟩ := hcompact.exists_target ha
    exact (of_mem_targets hdescribes hp).2.1
  · intro q hq
    obtain ⟨token, -, htoken⟩ := (hdescribes.mem_accepts_iff q).mp hq
    exact Text.withinLimit_of_integer? htoken
  · intro q hq
    obtain ⟨a, ha⟩ := hcompact.exists_symbol hq
    obtain ⟨p, hp⟩ := hcompact.exists_target ha
    exact (of_mem_targets hdescribes hp).1

end Restrictions

section Written

/-- Integers within the limit are read from their numerals. -/
theorem mapM_readInteger_numeral
    {line : Nat}
    {field : Field}
    {states : List Int}
    (h : ∀ q ∈ states, Text.WithinLimit q) :
    (states.map fun q => (Text.numeral q).toList).mapM (readInteger line field) = .ok states := by
  rw [mapM_eq_ok_iff, List.forall₂_map_left_iff, List.forall₂_same]
  exact fun q hq => readInteger_eq_ok_iff.mpr (Text.integer?_numeral (h q hq))

/-- A header line with a numeral is read as the integer. -/
theorem headerInteger_numeral
    {lines : List String}
    {index : Nat}
    {field : Field}
    {n : Int}
    (hline : lines[index]? = some (Text.numeral n))
    (hn : Text.WithinLimit n) :
    headerInteger lines index field = .ok n := by
  refine headerInteger_eq_ok_iff.mpr ⟨_, hline, ?_⟩
  rw [(Text.isToken_numeral n).trim_eq, Text.integer?_numeral hn]

/-- The tokens of a line of numerals. -/
theorem tokens_numerals
    (states : List Int) :
    Text.tokens (" ".intercalate (states.map Text.numeral)).toList
      =
    states.map fun q => (Text.numeral q).toList := by
  rw [Text.tokens_intercalate, List.map_map]
  · rfl
  · intro text htext
    obtain ⟨q, -, rfl⟩ := List.mem_map.mp htext
    exact Text.isToken_numeral q

/-- The tokens of an entry line. -/
theorem tokens_line
    {e : TransitionEntry}
    (h : IsLetter e.symbol) :
    Text.tokens e.line.toList
      =
    (Text.numeral e.source).toList
      :: e.symbol.toList
      :: e.targets.toList.map fun p => (Text.numeral p).toList := by
  rw [TransitionEntry.line, Text.tokens_intercalate, List.map_cons, List.map_cons, List.map_map]
  · rfl
  · intro text htext
    rw [List.mem_cons, List.mem_cons, List.mem_map] at htext
    rcases htext with rfl | rfl | ⟨p, -, rfl⟩
    · exact Text.isToken_numeral _
    · exact h.isToken
    · exact Text.isToken_numeral p

/-- The edges of an entry are read from its line. -/
theorem readTransitionLine_line
    {number : Nat}
    {e : TransitionEntry}
    (hsource : Text.WithinLimit e.source)
    (hsymbol : IsLetter e.symbol)
    (htargets : ∀ p ∈ e.targets, Text.WithinLimit p) :
    readTransitionLine number e.line = .ok e.edges := by
  have hq : readInteger number .source (Text.numeral e.source).toList = .ok e.source :=
    readInteger_eq_ok_iff.mpr (Text.integer?_numeral hsource)
  rw [readTransitionLine, tokens_line hsymbol]
  refine bind_eq_ok_iff.mpr ⟨e.source, hq, ?_⟩
  rw [mapM_eq_ok_iff, TransitionEntry.edges, List.forall₂_map_left_iff, List.forall₂_map_right_iff,
    List.forall₂_same]
  intro p hp
  have hp : readInteger number .target (Text.numeral p).toList = .ok p :=
    readInteger_eq_ok_iff.mpr
      (Text.integer?_numeral (htargets p (Std.ExtTreeSet.mem_toList.mp hp)))
  rw [hsymbol.tokenSymbol_eq]
  exact bind_eq_ok_iff.mpr ⟨p, hp, rfl⟩

/-- The edges of entries are read from their lines. -/
theorem readTransitionLines_lines
    {number : Nat}
    {entries : List TransitionEntry}
    (h : ∀ e ∈ entries, ∀ n, readTransitionLine n e.line = .ok e.edges) :
    readTransitionLines number (entries.map TransitionEntry.line)
      =
    .ok (entries.flatMap TransitionEntry.edges) := by
  induction entries generalizing number with
  | nil => rfl
  | cons e entries ih =>
      have hfirst : readTransitionLine number e.line = .ok e.edges :=
        h e List.mem_cons_self number
      have hmore :
          readTransitionLines (number + 1) (entries.map TransitionEntry.line)
            =
          .ok (entries.flatMap TransitionEntry.edges) :=
        ih fun f hf => h f (List.mem_cons_of_mem e hf)
      exact bind_eq_ok_iff.mpr ⟨e.edges, hfirst, bind_eq_ok_iff.mpr ⟨_, hmore, rfl⟩⟩

/-- An automaton that obeys the restrictions is read from its description. -/
theorem read_describe
    {N : NFA}
    (h : N.IsDescribable) :
    read N.describe = .ok N := by
  have halphabet :
      (Text.tokens (Text.trim (" ".intercalate N.alphabet).toList)).map tokenSymbol
        =
      N.alphabet := by
    rw [Text.tokens_trim, Text.tokens_intercalate fun a ha => (h.isLetter_alphabet a ha).isToken,
      List.map_map]
    refine (List.map_congr_left fun a ha => ?_).trans (List.map_id _)
    exact (h.isLetter_alphabet a ha).tokenSymbol_eq
  have haccepts : readAccepting N.describe = .ok N.accepts.toList := by
    have hline : N.describe[3]?.getD "" = " ".intercalate (N.accepts.toList.map Text.numeral) := rfl
    rw [readAccepting, hline, tokens_numerals]
    exact mapM_readInteger_numeral fun q hq => h.accepts q (Std.ExtTreeSet.mem_toList.mp hq)
  have hentries : ∀ e ∈ TransitionMap.entries N.transitions, ∀ number,
      readTransitionLine number e.line = .ok e.edges := by
    intro e he number
    obtain ⟨hsource, hsymbol, htargets⟩ := h.of_mem_entries he
    exact readTransitionLine_line hsource hsymbol htargets
  refine read_eq_ok_iff.mpr
    ⟨N.numStates, Text.trim (" ".intercalate N.alphabet).toList, N.start, N.accepts.toList,
      (TransitionMap.entries N.transitions).flatMap TransitionEntry.edges,
      headerInteger_numeral rfl h.numStates, rfl, headerInteger_numeral rfl h.start, haccepts,
      readTransitionLines_lines hentries, ?_⟩
  have hsame : StateSet.ofList N.accepts.toList = N.accepts :=
    StateSet.ext_mem fun q => by rw [StateSet.mem_ofList, Std.ExtTreeSet.mem_toList]
  rw [NFA.build, NFA.assemble, halphabet, eraseDups_of_nodup h.nodup_alphabet,
    h.isCompact.ofEdges_entries, hsame]

/-- The lines of a description have no breaks. -/
theorem isLine_of_mem_describe
    {N : NFA}
    (h : N.IsDescribable) :
    ∀ line ∈ N.describe, Text.IsLine line.toList := by
  intro line hline
  simp only [NFA.describe, List.mem_cons, List.mem_map] at hline
  rcases hline with rfl | rfl | rfl | rfl | ⟨e, he, rfl⟩
  · exact Text.isLine_numeral _
  · exact Text.isLine_intercalate_space fun a ha => (h.isLetter_alphabet a ha).isToken.isLine
  · exact Text.isLine_numeral _
  · refine Text.isLine_intercalate_space fun text htext => ?_
    obtain ⟨q, -, rfl⟩ := List.mem_map.mp htext
    exact Text.isLine_numeral q
  · refine Text.isLine_intercalate_space fun text htext => ?_
    rw [List.mem_cons, List.mem_cons, List.mem_map] at htext
    rcases htext with rfl | rfl | ⟨p, -, rfl⟩
    · exact Text.isLine_numeral _
    · exact (h.of_mem_entries he).2.1.isToken.isLine
    · exact Text.isLine_numeral p

/-- Reading lines with line feeds between them is reading the lines. -/
theorem readText_intercalate
    {lines : List String}
    (hlength : 3 < lines.length)
    (hlines : ∀ line ∈ lines, Text.IsLine line.toList) :
    readText ("\n".intercalate lines).toList = read lines := by
  have hne : lines ≠ [] := List.ne_nil_of_length_pos (by omega)
  obtain ⟨init, last, rfl⟩ : ∃ init last, lines = init ++ [last] :=
    ⟨lines.dropLast, lines.getLast hne, (List.dropLast_append_getLast hne).symm⟩
  rw [List.length_append, List.length_singleton] at hlength
  have hinit : ∀ text ∈ init.map String.toList, Text.IsLine text := by
    intro text htext
    obtain ⟨line, hline, rfl⟩ := List.mem_map.mp htext
    exact hlines line (List.mem_append_left _ hline)
  have hback : (init.map String.toList).map String.ofList = init := by
    simp
  have hsplit :
      linesOf ("\n".intercalate (init ++ [last])).toList
        =
      init ++ (Text.splitLines last.toList).map String.ofList := by
    have hfeed : "\n".toList = ['\n'] := rfl
    rw [linesOf, String.toList_intercalate, List.map_append, List.map_singleton, hfeed,
      Text.splitLines_intercalate_feed hinit, List.map_append, hback]
  rw [readText, hsplit]
  by_cases hempty : last.toList = []
  · -- An empty last line is no line of the text, but it has no effect either.
    have hblank : Text.tokens last.toList = [] := by
      rw [hempty]
      rfl
    rw [hempty, read_append_blank (by omega) hblank, Text.splitLines, List.map_nil, List.append_nil]
  · rw [Text.splitLines_of_isLine (hlines last (by simp)) hempty, List.map_singleton,
      String.ofList_toList]

end Written

end Description

/--
The automata that are read from lines are those that obey the restrictions of descriptions, and
each of them is read from its own description, given as lines or as bytes.
-/
theorem NFA.describable_tfae
    (N : NFA) :
    List.TFAE
      [ N.IsDescribable,
        ∃ lines, Description.read lines = .ok N,
        Description.read N.describe = .ok N,
        Description.readBytes (Text.Utf8.encode ("\n".intercalate N.describe).toList) = .ok N ] := by
  tfae_have 2 → 1 := by
    rintro ⟨lines, hlines⟩
    exact Description.isDescribable_of_read hlines
  tfae_have 1 → 3 := Description.read_describe
  tfae_have 3 → 2 := fun h => ⟨N.describe, h⟩
  tfae_have 1 → 4 := by
    intro h
    have hlength : 3 < N.describe.length := by
      simp [NFA.describe]
    rw [Description.readBytes_encode,
      Description.readText_intercalate hlength (Description.isLine_of_mem_describe h)]
    exact Description.read_describe h
  tfae_have 4 → 2 := by
    intro h
    rw [Description.readBytes_encode] at h
    exact ⟨_, h⟩
  tfae_finish

example :
    (NFA.build 2 ["a", "b"] 0 [1] [⟨0, "a", 1⟩, ⟨-1, "c", 0⟩, ⟨0, "a", -3⟩]).describe
      =
    ["2", "a b", "0", "1", "-1 c 0", "0 a -3 1"] := by
  decide +kernel

end Determinization
