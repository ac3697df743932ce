import Mathlib.Logic.Relation
import Determinization.Listing
import Determinization.Proofs.Describing
import Determinization.Proofs.Grammar
import Determinization.Proofs.InsertionOrder

/-!
# How transitions are written down

The transition lines of a description are a way to write down a set of triples: source, symbol and
target.  The same triples can be written in another order, several times, on more lines or on fewer,
with other blanks, with another spelling of an integer or another token for a symbol, and between
lines that have no targets.

The automaton that is put together from the lines keeps the order of the triples.  Without this order
its transitions are a map that is determined by the set of triples, and nothing that is computed from
the automaton shows the order.

**Results.**
* `eq_of_sameTransitions`: descriptions with the same first four lines and the same triples are read
  as the same automaton, if its order is left aside.
* `Edit.sameTransitions` and `Edit.forall_isTransitionLine_iff`: a single edit keeps the triples, and
  whether the lines can be read.
* `reports_eq_of_sameTransitions` puts these together.
-/

namespace Determinization

theorem NFA.eq_of_parts_eq
    {M N : NFA}
    (hnumStates : M.numStates = N.numStates)
    (halphabet : M.alphabet = N.alphabet)
    (htransitions : M.transitions = N.transitions)
    (hstart : M.start = N.start)
    (haccepts : M.accepts = N.accepts) :
    M = N := by
  cases M
  cases N
  cases hnumStates
  cases halphabet
  cases htransitions
  cases hstart
  cases haccepts
  rfl

namespace Description

/-- The lines lead from the same integers by the same characters to the same integers. -/
def SameTransitions (lines others : List String) : Prop :=
  ∀ q c p, (∃ line ∈ lines, LineLeads line q c p) ↔ ∃ line ∈ others, LineLeads line q c p

/-- The two tokens denote the same integer, or neither denotes any. -/
def SameValue (token other : List Char) : Prop :=
  ∀ n, Text.Denotes token n ↔ Text.Denotes other n

/-- The line has no targets, and nothing that would have to be an integer and is none. -/
def IsIdle (line : String) : Prop :=
  ∀ source symbol targets,
    Text.tokens line.toList = source :: symbol :: targets →
    Text.IsIntegerToken source ∧ targets = []

/-- A change in the way in which transitions are written down, at the first lines; a change at other
lines is one between two changes of the order. -/
inductive Edit : List String → List String → Prop
  | reorder {lines others : List String} :
      lines.Perm others →
      Edit lines others
  | duplicate (line : String) (lines : List String) :
      Edit (line :: lines) (line :: line :: lines)
  | split {line first second : String} {source symbol : List Char} {targets more : List (List Char)}
      (lines : List String) :
      Text.tokens line.toList = source :: symbol :: (targets ++ more) →
      Text.tokens first.toList = source :: symbol :: targets →
      Text.tokens second.toList = source :: symbol :: more →
      Edit (line :: lines) (first :: second :: lines)
  | idle {line : String} (lines : List String) :
      IsIdle line →
      Edit lines (line :: lines)
  | respace {line other : String} (lines : List String) :
      Text.tokens line.toList = Text.tokens other.toList →
      Edit (line :: lines) (other :: lines)
  | respell {line other : String} {source symbol source' symbol' : List Char}
      {targets targets' : List (List Char)} (lines : List String) :
      Text.tokens line.toList = source :: symbol :: targets →
      Text.tokens other.toList = source' :: symbol' :: targets' →
      SameValue source source' →
      symbol.head? = symbol'.head? →
      List.Forall₂ SameValue targets targets' →
      Edit (line :: lines) (other :: lines)

/-- Edits lead from one list of transition lines to the other, each forwards or backwards. -/
def Rewritten : List String → List String → Prop :=
  Relation.EqvGen Edit

section Triples

/-- A line has an edge if its symbol is one character by which it leads from source to target. -/
theorem lineHasEdge_iff
    {line : String}
    {q p : Int}
    {a : Symbol} :
    LineHasEdge line ⟨q, a, p⟩ ↔ ∃ c, a = String.singleton c ∧ LineLeads line q c p := by
  simp only [LineHasEdge, LineLeads, Text.integer?_eq_some_iff]
  constructor
  · rintro ⟨source, symbol, targets, target, htokens, hsource, hsymbol, htarget, hp⟩
    have hmem : symbol ∈ Text.tokens line.toList := by
      simp [htokens]
    obtain ⟨c, hc⟩ : ∃ c, symbol.head? = some c := by
      rw [← Option.isSome_iff_exists, List.isSome_head?]
      simpa using Text.ne_nil_of_mem_tokens hmem
    exact ⟨c, hsymbol ▸ tokenSymbol_eq_singleton_iff.mpr hc, source, symbol, targets, target,
      htokens, hsource, hc, htarget, hp⟩
  · rintro ⟨c, rfl, source, symbol, targets, target, htokens, hsource, hc, htarget, hp⟩
    exact ⟨source, symbol, targets, target, htokens, hsource,
      tokenSymbol_eq_singleton_iff.mpr hc, htarget, hp⟩

/-- The header lines, which stand before the transition lines, are the same one by one. -/
theorem getElem?_eq_of_take_eq
    {lines others : List String}
    (h : lines.take 4 = others.take 4)
    {i : Nat}
    (hi : i < 4) :
    lines[i]? = others[i]? := by
  rw [← List.getElem?_take_of_lt hi, h, List.getElem?_take_of_lt hi]

/-- The integer of a header line is the same for descriptions with the same line. -/
theorem eq_of_integer_line
    {line? : Option String}
    {m n : Int}
    (hm : ∃ line, line? = some line ∧ Text.integer? (Text.trim line.toList) = some m)
    (hn : ∃ line, line? = some line ∧ Text.integer? (Text.trim line.toList) = some n) :
    m = n := by
  obtain ⟨line, rfl, hm⟩ := hm
  obtain ⟨_, hline, hn⟩ := hn
  cases hline
  exact Option.some.inj (hm.symm.trans hn)

/-- A description is read as one automaton, whichever way its transitions are written down. -/
theorem eq_of_sameTransitions
    {lines others : List String}
    {M N : NFA}
    (hM : read lines = .ok M)
    (hN : read others = .ok N)
    (hheader : lines.take 4 = others.take 4)
    (htransitions : SameTransitions (lines.drop 4) (others.drop 4)) :
    M = N := by
  have hMlines := describes_of_read hM
  have hNlines := describes_of_read hN
  have hline : ∀ i < 4, others[i]? = lines[i]? := fun i hi =>
    (getElem?_eq_of_take_eq hheader hi).symm
  have hnumStates : M.numStates = N.numStates :=
    eq_of_integer_line hMlines.numStates_line (hline 0 (by decide) ▸ hNlines.numStates_line)
  have hstart : M.start = N.start :=
    eq_of_integer_line hMlines.start_line (hline 2 (by decide) ▸ hNlines.start_line)
  have halphabet : M.alphabet = N.alphabet := by
    obtain ⟨second, hsecond, hM⟩ := hMlines.alphabet_line
    obtain ⟨other, hother, hN⟩ := hNlines.alphabet_line
    rw [hline 1 (by decide), hsecond, Option.some.injEq] at hother
    rw [hM, hN, hother]
  have haccepts : M.accepts = N.accepts := by
    refine StateSet.ext_mem fun q => ?_
    rw [hMlines.mem_accepts_iff, hNlines.mem_accepts_iff, hline 3 (by decide)]
  have htargets : ∀ q a, M.targets q a = N.targets q a := by
    intro q a
    refine StateSet.ext_mem fun p => ?_
    rw [hMlines.mem_targets_iff, hNlines.mem_targets_iff]
    simp only [lineHasEdge_iff]
    constructor
    · rintro ⟨line, hline, c, rfl, hleads⟩
      obtain ⟨other, hother, hleads⟩ := (htransitions q c p).mp ⟨line, hline, hleads⟩
      exact ⟨other, hother, c, rfl, hleads⟩
    · rintro ⟨other, hother, c, rfl, hleads⟩
      obtain ⟨line, hline, hleads⟩ := (htransitions q c p).mpr ⟨other, hother, hleads⟩
      exact ⟨line, hline, c, rfl, hleads⟩
  have htransitions : M.transitions = N.transitions :=
    (isCompact_of_read hM).eq_of_targets_eq (isCompact_of_read hN) htargets
  exact NFA.eq_of_parts_eq hnumStates halphabet htransitions hstart haccepts

end Triples

section Edits

/-- An idle line leads nowhere. -/
theorem IsIdle.not_lineLeads
    {line : String}
    (h : IsIdle line)
    (q : Int)
    (c : Char)
    (p : Int) :
    ¬ LineLeads line q c p := by
  rintro ⟨source, symbol, targets, target, htokens, -, -, htarget, -⟩
  rw [(h source symbol targets htokens).2] at htarget
  simp at htarget

theorem IsIdle.isTransitionLine
    {line : String}
    (h : IsIdle line) :
    IsTransitionLine line := by
  intro source symbol targets htokens
  obtain ⟨hsource, rfl⟩ := h source symbol targets htokens
  exact ⟨hsource, by simp⟩

/-- Whether a line leads from one integer to another is seen from its tokens. -/
theorem lineLeads_iff_of_tokens_eq
    {line : String}
    {source symbol : List Char}
    {targets : List (List Char)}
    (h : Text.tokens line.toList = source :: symbol :: targets)
    {q p : Int}
    {c : Char} :
    LineLeads line q c p
      ↔
    Text.Denotes source q ∧ symbol.head? = some c ∧ ∃ target ∈ targets, Text.Denotes target p := by
  constructor
  · rintro ⟨source', symbol', targets', target, htokens, hsource, hc, htarget, hp⟩
    rw [h] at htokens
    cases htokens
    exact ⟨hsource, hc, target, htarget, hp⟩
  · rintro ⟨hsource, hc, target, htarget, hp⟩
    exact ⟨source, symbol, targets, target, h, hsource, hc, htarget, hp⟩

/-- Whether two tokens have the same value is found out by reading them. -/
theorem sameValue_iff
    {token other : List Char} :
    SameValue token other ↔ Text.integer? token = Text.integer? other := by
  simp only [SameValue, ← Text.integer?_eq_some_iff]
  exact Option.ext_iff.symm

theorem isTransitionLine_iff_of_tokens_eq
    {line : String}
    {source symbol : List Char}
    {targets : List (List Char)}
    (h : Text.tokens line.toList = source :: symbol :: targets) :
    IsTransitionLine line
      ↔
    Text.IsIntegerToken source ∧ ∀ target ∈ targets, Text.IsIntegerToken target := by
  simp [IsTransitionLine, h]

/-- Tokens with the same values one by one denote the same integers. -/
theorem exists_denotes_iff_of_sameValue
    {targets others : List (List Char)}
    (h : List.Forall₂ SameValue targets others)
    (p : Int) :
    (∃ target ∈ targets, Text.Denotes target p) ↔ ∃ other ∈ others, Text.Denotes other p := by
  induction h with
  | nil => simp
  | cons hhead _ ih =>
      simp only [List.exists_mem_cons_iff, ih]
      exact or_congr_left (hhead p)

theorem forall_isIntegerToken_iff_of_sameValue
    {targets others : List (List Char)}
    (h : List.Forall₂ SameValue targets others) :
    (∀ target ∈ targets, Text.IsIntegerToken target)
      ↔
    ∀ other ∈ others, Text.IsIntegerToken other := by
  induction h with
  | nil => simp
  | cons hhead _ ih =>
      simp only [List.forall_mem_cons, ih]
      exact and_congr_left' (exists_congr hhead)

/-- An edit keeps the triples. -/
theorem Edit.sameTransitions
    {lines others : List String}
    (h : Edit lines others) :
    SameTransitions lines others := by
  intro q c p
  cases h with
  | reorder hperm => simp only [hperm.mem_iff]
  | duplicate line lines => simp
  | split lines hline hfirst hsecond =>
      simp only [List.exists_mem_cons_iff, lineLeads_iff_of_tokens_eq hline,
        lineLeads_iff_of_tokens_eq hfirst, lineLeads_iff_of_tokens_eq hsecond, List.mem_append,
        or_and_right, exists_or, and_or_left, or_assoc]
  | idle lines hidle => simp [hidle.not_lineLeads]
  | respace lines htokens => simp [LineLeads, htokens]
  | respell lines hline hother hsource hsymbol htargets =>
      simp only [List.exists_mem_cons_iff, lineLeads_iff_of_tokens_eq hline,
        lineLeads_iff_of_tokens_eq hother, hsource q, hsymbol,
        exists_denotes_iff_of_sameValue htargets p]

/-- An edit keeps the lines readable, or unreadable. -/
theorem Edit.forall_isTransitionLine_iff
    {lines others : List String}
    (h : Edit lines others) :
    (∀ line ∈ lines, IsTransitionLine line) ↔ ∀ line ∈ others, IsTransitionLine line := by
  cases h with
  | reorder hperm => simp only [hperm.mem_iff]
  | duplicate line lines => simp
  | @split line first second source symbol targets more lines hline hfirst hsecond =>
      simp only [List.forall_mem_cons, isTransitionLine_iff_of_tokens_eq hline,
        isTransitionLine_iff_of_tokens_eq hfirst, isTransitionLine_iff_of_tokens_eq hsecond,
        List.forall_mem_append]
      tauto
  | idle lines hidle => simp [hidle.isTransitionLine]
  | respace lines htokens => simp [IsTransitionLine, htokens]
  | respell lines hline hother hsource hsymbol htargets =>
      simp only [List.forall_mem_cons, isTransitionLine_iff_of_tokens_eq hline,
        isTransitionLine_iff_of_tokens_eq hother, forall_isIntegerToken_iff_of_sameValue htargets]
      exact and_congr_left' (and_congr_left' (exists_congr hsource))

theorem Rewritten.sameTransitions
    {lines others : List String}
    (h : Rewritten lines others) :
    SameTransitions lines others := by
  intro q c p
  induction h with
  | rel lines others hedit => exact hedit.sameTransitions q c p
  | refl lines => rfl
  | symm lines others _ ih => exact ih.symm
  | trans lines others more _ _ ih ihmore => exact ih.trans ihmore

theorem Rewritten.forall_isTransitionLine_iff
    {lines others : List String}
    (h : Rewritten lines others) :
    (∀ line ∈ lines, IsTransitionLine line) ↔ ∀ line ∈ others, IsTransitionLine line := by
  induction h with
  | rel lines others hedit => exact hedit.forall_isTransitionLine_iff
  | refl lines => rfl
  | symm lines others _ ih => exact ih.symm
  | trans lines others more _ _ ih ihmore => exact ih.trans ihmore

/-- A description stays one when its transitions are written down in another way. -/
theorem IsDescription.of_rewritten
    {lines others : List String}
    (h : IsDescription lines)
    (hheader : lines.take 4 = others.take 4)
    (hrewritten : Rewritten (lines.drop 4) (others.drop 4)) :
    IsDescription others := by
  have hline : ∀ i < 4, others[i]? = lines[i]? := fun i hi =>
    (getElem?_eq_of_take_eq hheader hi).symm
  have hlength : 2 < others.length := by
    have hthird := List.getElem?_eq_getElem (l := lines) (i := 2) h.three_le_length
    rw [← hline 2 (by decide)] at hthird
    exact (List.getElem?_eq_some_iff.mp hthird).1
  exact
    { three_le_length := hlength
      stateCount := hline 0 (by decide) ▸ h.stateCount
      start := hline 2 (by decide) ▸ h.start
      accepting := hline 3 (by decide) ▸ h.accepting
      transitions := hrewritten.forall_isTransitionLine_iff.mp h.transitions }

end Edits

/-- Without their order the automata are equal, and with it they have the same file, the same summary
and the same tables. -/
structure SameReports (L K : OrderedNFA) : Prop where
  forgetOrder_eq : L.forgetOrder = K.forgetOrder
  fileText_eq : L.determinize.fileText = K.determinize.fileText
  summaryText_eq : L.determinize.summaryText = K.determinize.summaryText
  table_eq : L.table = K.table
  determinize_table_eq : L.determinize.table = K.determinize.table

/-- What is computed does not show the order, so automata that differ only in the order have the same
reports. -/
theorem SameReports.of_forgetOrder_eq
    {L K : OrderedNFA}
    (h : L.forgetOrder = K.forgetOrder) :
    SameReports L K := by
  have hdeterminize : L.determinize = K.determinize := by
    rw [← NFA.determinize_forgetOrder, h, NFA.determinize_forgetOrder]
  have htable : L.table = K.table := by
    rw [← NFA.table_forgetOrder, h, NFA.table_forgetOrder]
  exact
    { forgetOrder_eq := h
      fileText_eq := by rw [hdeterminize]
      summaryText_eq := by rw [hdeterminize]
      table_eq := htable
      determinize_table_eq := by rw [hdeterminize] }

/-- Descriptions that are read in different orders have the same reports, if their first four lines
and their triples are the same. -/
theorem sameReports_of_sameTransitions
    {lines others : List String}
    {L K : OrderedNFA}
    (hL : readOrdered lines = .ok L)
    (hK : readOrdered others = .ok K)
    (hheader : lines.take 4 = others.take 4)
    (htransitions : SameTransitions (lines.drop 4) (others.drop 4)) :
    SameReports L K := by
  have hM : read lines = .ok L.forgetOrder := read_eq_ok_iff_readOrdered.mpr ⟨L, hL, rfl⟩
  have hN : read others = .ok K.forgetOrder := read_eq_ok_iff_readOrdered.mpr ⟨K, hK, rfl⟩
  exact .of_forgetOrder_eq (eq_of_sameTransitions hM hN hheader htransitions)

/--
Two descriptions with the same first four lines whose further lines write down the same triples, in
whatever order, are read as the same automaton but for its order, with the same reports.  In
particular, whatever edits turn the further lines of one list into those of the other, the other list
is a description if the first one is, and has the same reports.
-/
theorem reports_eq_of_sameTransitions :
    (∀ lines others L K,
      readOrdered lines = .ok L →
      readOrdered others = .ok K →
      lines.take 4 = others.take 4 →
      SameTransitions (lines.drop 4) (others.drop 4) →
      SameReports L K) ∧
    ∀ lines others,
      lines.take 4 = others.take 4 →
      Rewritten (lines.drop 4) (others.drop 4) →
      ∀ L, readOrdered lines = .ok L → ∃ K, readOrdered others = .ok K ∧ SameReports L K := by
  refine ⟨fun lines others L K hL hK hheader htransitions =>
    sameReports_of_sameTransitions hL hK hheader htransitions, ?_⟩
  intro lines others hheader hrewritten L hL
  have hread : read lines = .ok L.forgetOrder := read_eq_ok_iff_readOrdered.mpr ⟨L, hL, rfl⟩
  have hdescription : IsDescription others :=
    (exists_read_eq_ok_iff.mp ⟨_, hread⟩).of_rewritten hheader hrewritten
  obtain ⟨N, hN⟩ := exists_read_eq_ok_iff.mpr hdescription
  obtain ⟨K, hK, -⟩ := read_eq_ok_iff_readOrdered.mp hN
  exact ⟨K, hK, sameReports_of_sameTransitions hL hK hheader hrewritten.sameTransitions⟩

/-- Transition lines that are respaced, reordered, split and respelled, and stand among idle lines;
the states come in another order. -/
theorem reports_eq_of_rewritten_lines :
    ∃ L K,
      readOrdered ["2", "a b", "0", "1", "0 a 1", "1 b 0 1"] = .ok L ∧
      readOrdered ["2", "a b", "0", "1", "7 x", "", "+1 bcd 0_0", "1 b 1", "0 a  1"] = .ok K ∧
      L.transitions.keys = [0, 1] ∧
      K.transitions.keys = [1, 0] ∧
      SameReports L K := by
  let lines := ["2", "a b", "0", "1", "0 a 1", "1 b 0 1"]
  let others := ["2", "a b", "0", "1", "7 x", "", "+1 bcd 0_0", "1 b 1", "0 a  1"]
  have hrespace : Edit ["0 a 1", "1 b 0 1"] ["0 a  1", "1 b 0 1"] :=
    .respace _ (by decide +kernel)
  have hreorder : Edit ["0 a  1", "1 b 0 1"] ["1 b 0 1", "0 a  1"] :=
    .reorder (.swap _ _ _)
  have hsplit : Edit ["1 b 0 1", "0 a  1"] ["1 b 0", "1 b 1", "0 a  1"] := by
    have hline : Text.tokens "1 b 0 1".toList = ['1'] :: ['b'] :: ([['0']] ++ [['1']]) := by
      decide +kernel
    exact .split _ hline (by decide +kernel) (by decide +kernel)
  have hrespell : Edit ["1 b 0", "1 b 1", "0 a  1"] ["+1 bcd 0_0", "1 b 1", "0 a  1"] := by
    have hline : Text.tokens "1 b 0".toList = ['1'] :: ['b'] :: [['0']] := by
      decide +kernel
    have hother :
        Text.tokens "+1 bcd 0_0".toList = ['+', '1'] :: ['b', 'c', 'd'] :: [['0', '_', '0']] := by
      decide +kernel
    have hsource : SameValue ['1'] ['+', '1'] :=
      sameValue_iff.mpr (by decide +kernel)
    have htarget : SameValue ['0'] ['0', '_', '0'] :=
      sameValue_iff.mpr (by decide +kernel)
    exact .respell _ hline hother hsource rfl (.cons htarget .nil)
  have hempty : IsIdle "" := by
    intro source symbol targets htokens
    have hnone : Text.tokens "".toList = [] := by
      decide +kernel
    cases hnone.symm.trans htokens
  have htwo : IsIdle "7 x" := by
    intro source symbol targets htokens
    have htokens' : Text.tokens "7 x".toList = [['7'], ['x']] := by
      decide +kernel
    cases htokens'.symm.trans htokens
    exact ⟨Text.isIntegerToken_iff.mpr ⟨7, by decide +kernel⟩, rfl⟩
  have hrewritten : Rewritten (lines.drop 4) (others.drop 4) := by
    refine .trans _ _ _ (.rel _ _ hrespace) (.trans _ _ _ (.rel _ _ hreorder) ?_)
    refine .trans _ _ _ (.rel _ _ hsplit) (.trans _ _ _ (.rel _ _ hrespell) ?_)
    exact .trans _ _ _ (.rel _ _ (.idle _ hempty)) (.rel _ _ (.idle _ htwo))
  let L := OrderedNFA.build 2 ["a", "b"] 0 [1] [⟨0, "a", 1⟩, ⟨1, "b", 0⟩, ⟨1, "b", 1⟩]
  let K := OrderedNFA.build 2 ["a", "b"] 0 [1] [⟨1, "b", 0⟩, ⟨1, "b", 1⟩, ⟨0, "a", 1⟩]
  have hL : readOrdered lines = .ok L := by
    decide +kernel
  have hK : readOrdered others = .ok K := by
    decide +kernel
  have hLkeys : L.transitions.keys = [0, 1] := by
    decide +kernel
  have hKkeys : K.transitions.keys = [1, 0] := by
    decide +kernel
  exact ⟨L, K, hL, hK, hLkeys, hKkeys,
    reports_eq_of_sameTransitions.1 lines others L K hL hK rfl hrewritten.sameTransitions⟩

end Description
end Determinization
