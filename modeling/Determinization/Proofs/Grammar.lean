import Determinization.Proofs.Reading
import Determinization.Proofs.Text.IntegerToken

/-!
# The grammar of descriptions

A list of lines is a description if it has at least three lines, of which the first and the third
consist of an integer, if the tokens of the fourth line are integers, and if every later line with
two tokens or more has integers at its beginning and from its third token on.  A description means
the automaton with these integers, with the first characters of the tokens of the second line as
its alphabet, and with a transition for each target on a later line.

**Results.** `read_spec`: reading succeeds on descriptions only, on all of them, and returns an
automaton that the description means; on any other list of lines it reports a fault.
-/

namespace Determinization
namespace Description

/-- In a line with two tokens or more, the first token and all from the third on are integers. -/
def IsTransitionLine (line : String) : Prop :=
  ∀ source symbol targets,
    Text.tokens line.toList = source :: symbol :: targets →
    Text.IsIntegerToken source ∧ ∀ target ∈ targets, Text.IsIntegerToken target

/-- The lines follow the grammar of descriptions. -/
structure IsDescription (lines : List String) : Prop where
  three_le_length : 3 ≤ lines.length
  stateCount :
    ∀ line, lines[0]? = some line → Text.IsIntegerToken (Text.trim line.toList)
  start :
    ∀ line, lines[2]? = some line → Text.IsIntegerToken (Text.trim line.toList)
  accepting :
    ∀ line, lines[3]? = some line → ∀ token ∈ Text.tokens line.toList, Text.IsIntegerToken token
  transitions :
    ∀ line ∈ lines.drop 4, IsTransitionLine line

/-- The line leads from one integer to another by a character. -/
def LineLeads
    (line : String)
    (q : Int)
    (c : Char)
    (p : Int) :
    Prop :=
  ∃ source symbol targets target,
    Text.tokens line.toList = source :: symbol :: targets ∧
    Text.Denotes source q ∧
    symbol.head? = some c ∧
    target ∈ targets ∧
    Text.Denotes target p

/-- The lines mean the automaton. -/
structure Means
    (lines : List String)
    (N : NFA) :
    Prop where
  numStates :
    ∃ line, lines[0]? = some line ∧ Text.Denotes (Text.trim line.toList) N.numStates
  alphabet :
    ∃ line, lines[1]? = some line ∧
      N.alphabet
        =
      (((Text.tokens line.toList).filterMap List.head?).map String.singleton).eraseDups
  start :
    ∃ line, lines[2]? = some line ∧ Text.Denotes (Text.trim line.toList) N.start
  mem_accepts_iff :
    ∀ p, p ∈ N.accepts
      ↔
    ∃ line, lines[3]? = some line ∧ ∃ token ∈ Text.tokens line.toList, Text.Denotes token p
  mem_targets_iff :
    ∀ q c p, p ∈ N.targets q (String.singleton c) ↔ ∃ line ∈ lines.drop 4, LineLeads line q c p

/-- A missing line has no tokens. -/
theorem mem_tokens_getD_iff
    {line? : Option String}
    {token : List Char} :
    token ∈ Text.tokens (line?.getD "").toList
      ↔
    ∃ line, line? = some line ∧ token ∈ Text.tokens line.toList := by
  cases line? with
  | none => simp [Text.tokens]
  | some line => simp

section Success

theorem exists_readInteger_eq_ok_iff
    (number : Nat)
    (field : Field)
    {token : List Char} :
    (∃ n, readInteger number field token = .ok n) ↔ Text.IsIntegerToken token := by
  simp only [readInteger_eq_ok_iff, Text.isIntegerToken_iff]

theorem exists_headerInteger_eq_ok_iff
    (field : Field)
    {lines : List String}
    {index : Nat} :
    (∃ n, headerInteger lines index field = .ok n)
      ↔
    ∃ line, lines[index]? = some line ∧ Text.IsIntegerToken (Text.trim line.toList) := by
  simp only [headerInteger_eq_ok_iff, Text.isIntegerToken_iff]
  constructor
  · rintro ⟨n, line, hline, hn⟩
    exact ⟨line, hline, n, hn⟩
  · rintro ⟨line, hline, n, hn⟩
    exact ⟨n, line, hline, hn⟩

theorem exists_readTransitionLine_eq_ok_iff
    (number : Nat)
    {line : String} :
    (∃ edges, readTransitionLine number line = .ok edges) ↔ IsTransitionLine line := by
  unfold readTransitionLine
  split
  · next source symbol targets htokens =>
      have htargets : ∀ q : Int,
          (∃ edges, (targets.mapM fun target => do
              let p ← readInteger number .target target
              return (⟨q, tokenSymbol symbol, p⟩ : Edge)) = .ok edges)
            ↔
          ∀ target ∈ targets, Text.IsIntegerToken target := by
        intro q
        simp only [exists_mapM_eq_ok_iff, exists_bind_pure_eq_ok_iff, exists_readInteger_eq_ok_iff]
      have hline : IsTransitionLine line ↔
          Text.IsIntegerToken source ∧ ∀ target ∈ targets, Text.IsIntegerToken target := by
        simp [IsTransitionLine, htokens]
      rw [hline, ← exists_readInteger_eq_ok_iff number .source]
      simp only [bind_eq_ok_iff]
      constructor
      · rintro ⟨edges, q, hq, hedges⟩
        exact ⟨⟨q, hq⟩, (htargets q).mp ⟨edges, hedges⟩⟩
      · rintro ⟨⟨q, hq⟩, hall⟩
        obtain ⟨edges, hedges⟩ := (htargets q).mpr hall
        exact ⟨edges, q, hq, hedges⟩
  · next hshort =>
      refine iff_of_true ⟨[], rfl⟩ ?_
      intro source symbol targets htokens
      exact absurd htokens (hshort source symbol targets)

theorem exists_readTransitionLines_eq_ok_iff
    (number : Nat)
    {lines : List String} :
    (∃ edges, readTransitionLines number lines = .ok edges)
      ↔
    ∀ line ∈ lines, IsTransitionLine line := by
  induction lines generalizing number with
  | nil => exact iff_of_true ⟨[], rfl⟩ (by simp)
  | cons line lines ih =>
      rw [List.forall_mem_cons, ← exists_readTransitionLine_eq_ok_iff number, ← ih (number + 1)]
      simp only [readTransitionLines, bind_eq_ok_iff]
      constructor
      · rintro ⟨_, edges, hedges, more, hmore, -⟩
        exact ⟨⟨edges, hedges⟩, more, hmore⟩
      · rintro ⟨⟨edges, hedges⟩, more, hmore⟩
        exact ⟨edges ++ more, edges, hedges, more, hmore, rfl⟩

theorem exists_readAccepting_eq_ok_iff
    {lines : List String} :
    (∃ accepts, readAccepting lines = .ok accepts)
      ↔
    ∀ line, lines[3]? = some line →
      ∀ token ∈ Text.tokens line.toList, Text.IsIntegerToken token := by
  simp only [readAccepting, exists_mapM_eq_ok_iff, exists_readInteger_eq_ok_iff,
    mem_tokens_getD_iff]
  constructor
  · intro h line hline token htoken
    exact h token ⟨line, hline, htoken⟩
  · rintro h token ⟨line, hline, htoken⟩
    exact h line hline token htoken

/-- Reading succeeds if the lines follow the grammar. -/
theorem exists_read_eq_ok_iff
    {lines : List String} :
    (∃ N, read lines = .ok N) ↔ IsDescription lines := by
  constructor
  · rintro ⟨N, hN⟩
    obtain ⟨numStates, alphabet, start, accepts, edges, hnum, halphabet, hstart, haccepts, hedges,
      -⟩ := read_eq_ok_iff.mp hN
    obtain ⟨first, hfirst, hcount⟩ :=
      (exists_headerInteger_eq_ok_iff .stateCount).mp ⟨numStates, hnum⟩
    obtain ⟨third, hthird, hinteger⟩ :=
      (exists_headerInteger_eq_ok_iff .start).mp ⟨start, hstart⟩
    have hlength : 2 < lines.length := (List.getElem?_eq_some_iff.mp hthird).1
    refine
      { three_le_length := hlength
        stateCount := ?_
        start := ?_
        accepting := exists_readAccepting_eq_ok_iff.mp ⟨accepts, haccepts⟩
        transitions := (exists_readTransitionLines_eq_ok_iff 5).mp ⟨edges, hedges⟩ }
    · intro line hline
      rw [hfirst, Option.some.injEq] at hline
      exact hline ▸ hcount
    · intro line hline
      rw [hthird, Option.some.injEq] at hline
      exact hline ▸ hinteger
  · intro h
    have hlength := h.three_le_length
    have hfirst := List.getElem?_eq_getElem (l := lines) (i := 0) (by omega)
    have hsecond := List.getElem?_eq_getElem (l := lines) (i := 1) (by omega)
    have hthird := List.getElem?_eq_getElem (l := lines) (i := 2) (by omega)
    obtain ⟨numStates, hnum⟩ := (exists_headerInteger_eq_ok_iff .stateCount).mpr
      ⟨_, hfirst, h.stateCount _ hfirst⟩
    obtain ⟨start, hstart⟩ := (exists_headerInteger_eq_ok_iff .start).mpr
      ⟨_, hthird, h.start _ hthird⟩
    obtain ⟨accepts, haccepts⟩ := exists_readAccepting_eq_ok_iff.mpr h.accepting
    obtain ⟨edges, hedges⟩ := (exists_readTransitionLines_eq_ok_iff 5).mpr h.transitions
    have halphabet : headerLine lines 1 .alphabet = .ok (Text.trim lines[1].toList) :=
      headerLine_eq_ok_iff.mpr ⟨_, hsecond, rfl⟩
    exact ⟨_, read_eq_ok_iff.mpr
      ⟨numStates, _, start, accepts, edges, hnum, halphabet, hstart, haccepts, hedges, rfl⟩⟩

end Success

section Meaning

/-- Tokens stand for their first characters. -/
theorem map_tokenSymbol
    {tokens : List (List Char)}
    (h : ∀ token ∈ tokens, token ≠ []) :
    tokens.map tokenSymbol = (tokens.filterMap List.head?).map String.singleton := by
  induction tokens with
  | nil => rfl
  | cons token tokens ih =>
      have hrest := ih fun other hother => h other (List.mem_cons_of_mem _ hother)
      cases token with
      | nil => exact absurd rfl (h [] List.mem_cons_self)
      | cons c rest =>
          have hfirst : tokenSymbol (c :: rest) = String.singleton c :=
            tokenSymbol_eq_singleton_iff.mpr rfl
          rw [List.map_cons, hrest, hfirst]
          rfl

/-- The lines mean the automaton that is read from them. -/
theorem means_of_read
    {lines : List String}
    {N : NFA}
    (h : read lines = .ok N) :
    Means lines N := by
  have hdescribes := describes_of_read h
  obtain ⟨first, hfirst, hnum⟩ := hdescribes.numStates_line
  obtain ⟨second, hsecond, halphabet⟩ := hdescribes.alphabet_line
  obtain ⟨third, hthird, hstart⟩ := hdescribes.start_line
  refine
    { numStates := ⟨first, hfirst, Text.integer?_eq_some_iff.mp hnum⟩
      alphabet := ⟨second, hsecond, ?_⟩
      start := ⟨third, hthird, Text.integer?_eq_some_iff.mp hstart⟩
      mem_accepts_iff := ?_
      mem_targets_iff := ?_ }
  · rw [halphabet, map_tokenSymbol fun _ => Text.ne_nil_of_mem_tokens]
  · intro p
    rw [hdescribes.mem_accepts_iff]
    simp only [Text.integer?_eq_some_iff, mem_tokens_getD_iff]
    constructor
    · rintro ⟨token, ⟨line, hline, htoken⟩, hp⟩
      exact ⟨line, hline, token, htoken, hp⟩
    · rintro ⟨line, hline, token, htoken, hp⟩
      exact ⟨token, ⟨line, hline, htoken⟩, hp⟩
  · intro q c p
    rw [hdescribes.mem_targets_iff]
    simp only [LineHasEdge, LineLeads, tokenSymbol_eq_singleton_iff, Text.integer?_eq_some_iff]

end Meaning

/--
Reading succeeds on the lists of lines that follow the grammar, with an automaton that they mean,
and reports a fault on all others.
-/
theorem read_spec
    (lines : List String) :
    (IsDescription lines ∧ ∃ N, read lines = .ok N ∧ Means lines N)
      ∨
    (¬ IsDescription lines ∧ ∃ e : FormatError, read lines = .error e) := by
  rw [← exists_read_eq_ok_iff]
  cases hread : read lines with
  | ok N => exact Or.inl ⟨⟨N, rfl⟩, N, rfl, means_of_read hread⟩
  | error e => exact Or.inr ⟨by simp, e, rfl⟩

end Description
end Determinization
