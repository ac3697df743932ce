import Determinization.Description
import Determinization.Proofs.Build
import Determinization.Proofs.Fallible
import Determinization.Proofs.Text.Token

/-!
# What a description describes

Reading a description succeeds if each of its parts does.  The automaton that is read has the
integers of the header lines, the first characters of the alphabet tokens, the integers of the
accepting line, and one edge for each target token of a transition line.

**Results.** `read_eq_ok_iff` takes a successful reading apart, and `describes_of_read` says
what the automaton is in terms of the tokens of the lines.
-/

namespace Determinization

namespace Description

section Letters

/-- The symbol is one character, which is no blank. -/
def IsLetter (a : Symbol) : Prop :=
  ∃ c, Text.isBlank c = false ∧ a = String.singleton c

/-- A token stands for the symbol of one character if it begins with this character. -/
theorem tokenSymbol_eq_singleton_iff
    {token : List Char}
    {c : Char} :
    tokenSymbol token = String.singleton c ↔ token.head? = some c := by
  rw [← String.toList_inj, tokenSymbol, String.toList_ofList]
  cases token <;> simp

theorem IsLetter.isToken
    {a : Symbol}
    (h : IsLetter a) :
    Text.IsToken a.toList := by
  obtain ⟨c, hc, rfl⟩ := h
  exact ⟨by simp, by simpa using hc⟩

/-- A letter is a token that stands for itself. -/
theorem IsLetter.tokenSymbol_eq
    {a : Symbol}
    (h : IsLetter a) :
    tokenSymbol a.toList = a := by
  obtain ⟨c, -, rfl⟩ := h
  rw [tokenSymbol_eq_singleton_iff]
  simp

/-- Tokens stand for letters. -/
theorem isLetter_tokenSymbol
    {token : List Char}
    (h : Text.IsToken token) :
    IsLetter (tokenSymbol token) := by
  obtain ⟨hne, hblank⟩ := h
  cases token with
  | nil => exact absurd rfl hne
  | cons c rest =>
      refine ⟨c, hblank c List.mem_cons_self, ?_⟩
      rw [tokenSymbol_eq_singleton_iff]
      rfl

end Letters

section Messages

variable {e : FormatError} {field : Field}

theorem FormatError.message_of_missingLine
    (h : e.fault = .missingLine field) :
    e.message
      =
    "строка " ++ Text.numeral e.line ++ ": " ++ ("нет строки '" ++ field.name ++ "'") := by
  cases e
  cases h
  rfl

theorem FormatError.message_of_notInteger
    {token : String}
    (h : e.fault = .notInteger field token) :
    e.message
      =
    "строка " ++ Text.numeral e.line ++ ": "
      ++ (field.name ++ ": ожидалось целое, получено '" ++ token ++ "'") := by
  cases e
  cases h
  rfl

end Messages

theorem readInteger_eq_ok_iff
    {line : Nat}
    {field : Field}
    {token : List Char}
    {n : Int} :
    readInteger line field token = .ok n ↔ Text.integer? token = some n := by
  unfold readInteger
  cases Text.integer? token <;> simp

theorem headerLine_eq_ok_iff
    {lines : List String}
    {index : Nat}
    {field : Field}
    {text : List Char} :
    headerLine lines index field = .ok text
      ↔
    ∃ line, lines[index]? = some line ∧ Text.trim line.toList = text := by
  unfold headerLine
  cases lines[index]? <;> simp

/-- The integer of a header line is read if the trimmed line is an integer token. -/
theorem headerInteger_eq_ok_iff
    {lines : List String}
    {index : Nat}
    {field : Field}
    {n : Int} :
    headerInteger lines index field = .ok n
      ↔
    ∃ line, lines[index]? = some line ∧ Text.integer? (Text.trim line.toList) = some n := by
  simp only [headerInteger, bind_eq_ok_iff, headerLine_eq_ok_iff, readInteger_eq_ok_iff]
  constructor
  · rintro ⟨_, ⟨line, hline, rfl⟩, hn⟩
    exact ⟨line, hline, hn⟩
  · rintro ⟨line, hline, hn⟩
    exact ⟨_, ⟨line, hline, rfl⟩, hn⟩

/-- The line has a token for the source of the edge, one for its symbol, and later one for its
target. -/
def LineHasEdge
    (line : String)
    (edge : Edge) :
    Prop :=
  ∃ source symbol targets target,
    Text.tokens line.toList = source :: symbol :: targets ∧
    Text.integer? source = some edge.source ∧
    tokenSymbol symbol = edge.symbol ∧
    target ∈ targets ∧
    Text.integer? target = some edge.target

/-- The edges that are read from a transition line are those that the line has. -/
theorem mem_of_readTransitionLine
    {number : Nat}
    {line : String}
    {edges : List Edge}
    (h : readTransitionLine number line = .ok edges)
    {edge : Edge} :
    edge ∈ edges ↔ LineHasEdge line edge := by
  unfold readTransitionLine at h
  split at h
  · next source symbol targets htokens =>
      obtain ⟨q, hq, hedges⟩ := bind_eq_ok_iff.mp h
      rw [readInteger_eq_ok_iff] at hq
      rw [mem_of_mapM_eq_ok hedges]
      constructor
      · rintro ⟨target, htarget, hedge⟩
        obtain ⟨p, hp, hpedge⟩ := bind_eq_ok_iff.mp hedge
        rw [readInteger_eq_ok_iff] at hp
        cases hpedge
        exact ⟨source, symbol, targets, target, htokens, hq, rfl, htarget, hp⟩
      · rintro ⟨source', symbol', targets', target, htokens', hq', hsymbol, htarget, hp⟩
        rw [htokens] at htokens'
        simp only [List.cons.injEq] at htokens'
        obtain ⟨rfl, rfl, rfl⟩ := htokens'
        rw [hq, Option.some.injEq] at hq'
        refine ⟨target, htarget, bind_eq_ok_iff.mpr ⟨_, readInteger_eq_ok_iff.mpr hp, ?_⟩⟩
        rw [hsymbol, hq']
        rfl
  · next hshort =>
      cases h
      constructor
      · simp
      · rintro ⟨source, symbol, targets, _, htokens, -⟩
        exact absurd htokens (hshort source symbol targets)

/-- The edges that are read from transition lines are those that some line has. -/
theorem mem_of_readTransitionLines
    {number : Nat}
    {lines : List String}
    {edges : List Edge}
    (h : readTransitionLines number lines = .ok edges)
    {edge : Edge} :
    edge ∈ edges ↔ ∃ line ∈ lines, LineHasEdge line edge := by
  induction lines generalizing number edges with
  | nil =>
      cases h
      simp
  | cons line lines ih =>
      obtain ⟨first, hfirst, hrest⟩ := bind_eq_ok_iff.mp h
      obtain ⟨more, hmore, hedges⟩ := bind_eq_ok_iff.mp hrest
      cases hedges
      rw [List.mem_append, mem_of_readTransitionLine hfirst, ih hmore]
      simp

theorem read_eq_ok_iff
    {lines : List String}
    {N : NFA} :
    read lines = .ok N
      ↔
    ∃ numStates alphabet start accepts edges,
      headerInteger lines 0 .stateCount = .ok numStates ∧
      headerLine lines 1 .alphabet = .ok alphabet ∧
      headerInteger lines 2 .start = .ok start ∧
      readAccepting lines = .ok accepts ∧
      readTransitionLines 5 (lines.drop 4) = .ok edges ∧
      NFA.build numStates ((Text.tokens alphabet).map tokenSymbol) start accepts edges = N := by
  simp only [read, map_eq_ok_iff, contents, bind_eq_ok_iff]
  constructor
  · rintro ⟨_, ⟨numStates, hnum, alphabet, halphabet, start, hstart, accepts, haccepts, edges, hedges,
      hcontents⟩, hN⟩
    cases hcontents
    exact ⟨numStates, alphabet, start, accepts, edges, hnum, halphabet, hstart, haccepts, hedges, hN⟩
  · rintro ⟨numStates, alphabet, start, accepts, edges, hnum, halphabet, hstart, haccepts, hedges, hN⟩
    exact ⟨_, ⟨numStates, hnum, alphabet, halphabet, start, hstart, accepts, haccepts, edges, hedges,
      rfl⟩, hN⟩

/-- The automaton is what the tokens of the lines say. -/
structure Describes
    (lines : List String)
    (N : NFA) :
    Prop where
  numStates_line :
    ∃ line, lines[0]? = some line ∧ Text.integer? (Text.trim line.toList) = some N.numStates
  alphabet_line :
    ∃ line, lines[1]? = some line ∧
      N.alphabet = ((Text.tokens line.toList).map tokenSymbol).eraseDups
  start_line :
    ∃ line, lines[2]? = some line ∧ Text.integer? (Text.trim line.toList) = some N.start
  mem_accepts_iff :
    ∀ p, p ∈ N.accepts
      ↔
    ∃ token ∈ Text.tokens (lines[3]?.getD "").toList, Text.integer? token = some p
  mem_targets_iff :
    ∀ q a p, p ∈ N.targets q a ↔ ∃ line ∈ lines.drop 4, LineHasEdge line ⟨q, a, p⟩

/-- The automaton that is read is the one that the lines describe. -/
theorem describes_of_read
    {lines : List String}
    {N : NFA}
    (h : read lines = .ok N) :
    Describes lines N := by
  obtain ⟨numStates, alphabet, start, accepts, edges, hnum, halphabet, hstart, haccepts, hedges,
    rfl⟩ := read_eq_ok_iff.mp h
  obtain ⟨line, hline, rfl⟩ := headerLine_eq_ok_iff.mp halphabet
  refine
    { numStates_line := headerInteger_eq_ok_iff.mp hnum
      alphabet_line := ⟨line, hline, by simp [NFA.build, NFA.assemble]⟩
      start_line := headerInteger_eq_ok_iff.mp hstart
      mem_accepts_iff := ?_
      mem_targets_iff := ?_ }
  · intro p
    simp only [NFA.build, NFA.assemble, StateSet.mem_ofList, mem_of_mapM_eq_ok haccepts, readInteger_eq_ok_iff]
  · intro q a p
    rw [NFA.mem_targets_build_iff, mem_of_readTransitionLines hedges]

/-- The symbols of an alphabet that is read are letters. -/
theorem Describes.isLetter_of_mem_alphabet
    {lines : List String}
    {N : NFA}
    (h : Describes lines N)
    {a : Symbol}
    (ha : a ∈ N.alphabet) :
    IsLetter a := by
  obtain ⟨line, -, halphabet⟩ := h.alphabet_line
  rw [halphabet, List.mem_eraseDups, List.mem_map] at ha
  obtain ⟨token, htoken, rfl⟩ := ha
  exact isLetter_tokenSymbol (Text.isToken_of_mem_tokens htoken)

section BlankLines

/-- A transition line without tokens has no edges. -/
theorem readTransitionLine_of_tokens_eq_nil
    {number : Nat}
    {line : String}
    (h : Text.tokens line.toList = []) :
    readTransitionLine number line = .ok [] := by
  rw [readTransitionLine, h]

/-- A line without tokens after the transition lines has no effect. -/
theorem readTransitionLines_append_blank
    {number : Nat}
    {lines : List String}
    {blank : String}
    (h : Text.tokens blank.toList = []) :
    readTransitionLines number (lines ++ [blank]) = readTransitionLines number lines := by
  induction lines generalizing number with
  | nil =>
      simp only [List.nil_append, readTransitionLines, readTransitionLine_of_tokens_eq_nil h]
      rfl
  | cons line lines ih => rw [List.cons_append, readTransitionLines, ih, readTransitionLines]

/-- A line without tokens after the third line or any later one has no effect. -/
theorem read_append_blank
    {lines : List String}
    {blank : String}
    (hlength : 3 ≤ lines.length)
    (h : Text.tokens blank.toList = []) :
    read (lines ++ [blank]) = read lines := by
  have hheader : ∀ index field, index < 3 →
      headerLine (lines ++ [blank]) index field = headerLine lines index field := by
    intro index field hindex
    rw [headerLine, headerLine, List.getElem?_append_left (by omega)]
  have haccepting : readAccepting (lines ++ [blank]) = readAccepting lines := by
    by_cases hthree : lines.length = 3
    · have hmissing : lines[3]? = none := by
        simp [hthree]
      have hblank : (lines ++ [blank])[3]? = some blank := by
        rw [← hthree, List.getElem?_concat_length]
      have hempty : Text.tokens "".toList = [] := by
        decide
      rw [readAccepting, readAccepting, hmissing, hblank, Option.getD_some, Option.getD_none, h,
        hempty]
    · rw [readAccepting, readAccepting, List.getElem?_append_left (by omega)]
  have hedges :
      readTransitionLines 5 ((lines ++ [blank]).drop 4)
        =
      readTransitionLines 5 (lines.drop 4) := by
    by_cases hthree : lines.length = 3
    · rw [List.drop_of_length_le (by simp [hthree]), List.drop_of_length_le (by omega)]
    · rw [List.drop_append_of_le_length (by omega), readTransitionLines_append_blank h]
  simp only [read, contents, headerInteger, hheader 0 _ (by decide), hheader 1 _ (by decide),
    hheader 2 _ (by decide), haccepting, hedges]

end BlankLines

end Description

end Determinization
