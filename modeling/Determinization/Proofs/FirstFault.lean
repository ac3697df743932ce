import Determinization.Proofs.Faults

/-!
# The first fault of a description

**Approach.** A step of the reader that reads one line *checks* the demands of the line from left
to right.  A step that reads several lines *scans* them: if it succeeds none of them has a fault,
and if it fails it reports the first of them that has one.  Scans follow one another, so reading
is a scan of all lines.

**Results.**
* `read_eq_error_iff`: the reader reports an error if and only if it is the first fault.
* `read_reportsFirstFault`: the lines after the reported one do not matter, those before it are
  in order, and the error quotes the leftmost token at fault.
-/

namespace Determinization
namespace Description

section Checks

variable {α β : Type}

/-- The step checks the demands of the line with the given number from left to right. -/
structure Checks
    (number : Nat)
    (step : Except FormatError α)
    (ds : List Demand) :
    Prop where
  of_ok : ∀ a, step = .ok a → ∀ d ∈ ds, d.IsMet
  of_error : ∀ e, step = .error e → ∃ d, IsFirstUnmet ds d ∧ e = ⟨number, d.fault⟩

theorem checks_pure
    {number : Nat}
    {a : α} :
    Checks number (pure a) [] where
  of_ok := by simp
  of_error := by
    intro e he
    cases he

theorem checks_readInteger
    (number : Nat)
    (field : Field)
    (token : List Char) :
    Checks number (readInteger number field token) [⟨field, token⟩] where
  of_ok := by
    intro n hn d hd
    rw [List.mem_singleton.mp hd]
    exact (exists_readInteger_eq_ok_iff number field).mp ⟨n, hn⟩
  of_error := by
    intro e he
    have hunmet : ¬ (⟨field, token⟩ : Demand).IsMet := by
      intro hmet
      obtain ⟨n, hn⟩ := (exists_readInteger_eq_ok_iff number field).mpr hmet
      rw [hn] at he
      cases he
    refine ⟨⟨field, token⟩, isFirstUnmet_cons_iff.mpr (Or.inl ⟨hunmet, rfl⟩), ?_⟩
    unfold readInteger at he
    split at he
    · cases he
    · exact (Except.error.inj he).symm

/-- The checks of two steps follow one another. -/
theorem Checks.bind
    {number : Nat}
    {step : Except FormatError α}
    {next : α → Except FormatError β}
    {ds es : List Demand}
    (hstep : Checks number step ds)
    (hnext : ∀ a, Checks number (next a) es) :
    Checks number (step >>= next) (ds ++ es) where
  of_ok := by
    intro b hb
    obtain ⟨a, ha, hb⟩ := bind_eq_ok_iff.mp hb
    exact List.forall_mem_append.mpr ⟨hstep.of_ok a ha, (hnext a).of_ok b hb⟩
  of_error := by
    intro e he
    rcases bind_eq_error_iff.mp he with he | ⟨a, ha, he⟩
    · obtain ⟨d, hfirst, rfl⟩ := hstep.of_error e he
      exact ⟨d, hfirst.append_right es, rfl⟩
    · obtain ⟨d, hfirst, rfl⟩ := (hnext a).of_error e he
      exact ⟨d, hfirst.append_left (hstep.of_ok a ha), rfl⟩

/-- Passing on a value checks nothing more. -/
theorem Checks.map
    {number : Nat}
    {step : Except FormatError α}
    {g : α → β}
    {ds : List Demand}
    (hstep : Checks number step ds) :
    Checks number (step >>= fun a => pure (g a)) ds := by
  rw [← List.append_nil ds]
  exact hstep.bind fun _ => checks_pure

/-- A step on every member of a list checks their demands in order. -/
theorem checks_mapM
    {number : Nat}
    {step : List Char → Except FormatError β}
    {demand : List Char → Demand}
    (h : ∀ token, Checks number (step token) [demand token])
    (tokens : List (List Char)) :
    Checks number (tokens.mapM step) (tokens.map demand) := by
  induction tokens with
  | nil => exact checks_pure
  | cons token tokens ih =>
      rw [List.mapM_cons]
      exact (h token).bind fun b => ih.map

theorem checks_headerInteger
    {lines : List String}
    {index : Nat}
    (field : Field)
    {line : String}
    (hline : lines[index]? = some line) :
    Checks (index + 1) (headerInteger lines index field) [⟨field, Text.trim line.toList⟩] := by
  have hheader : headerLine lines index field = .ok (Text.trim line.toList) :=
    headerLine_eq_ok_iff.mpr ⟨line, hline, rfl⟩
  rw [headerInteger, hheader]
  exact checks_readInteger _ field _

theorem checks_readTransitionLine
    (number : Nat)
    (line : String) :
    Checks number (readTransitionLine number line) (transitionDemands line) := by
  unfold readTransitionLine
  split
  · next source symbol targets htokens =>
      rw [transitionDemands, htokens]
      exact (checks_readInteger number .source source).bind fun q =>
        checks_mapM (fun target => (checks_readInteger number .target target).map) targets
  · next hshort =>
      have hnone : transitionDemands line = [] := by
        unfold transitionDemands
        split
        · next source symbol targets htokens => exact absurd htokens (hshort source symbol targets)
        · rfl
      rw [hnone]
      exact checks_pure

end Checks

section Scans

variable {α β : Type} {lines : List String}

/-- The step succeeds only if the lines from the first number up to the next one have no fault, and
it fails only with the fault of the first of them that has one. -/
structure Scans
    (lines : List String)
    (first next : Nat)
    (step : Except FormatError α) :
    Prop where
  of_ok : ∀ a, step = .ok a → Faultless lines first next
  of_error :
    ∀ e, step = .error e →
      first ≤ e.line ∧
      e.line < next ∧
      FaultAt lines e.line e.fault ∧
      Faultless lines first e.line

theorem scans_pure
    (lines : List String)
    (number : Nat)
    (a : α) :
    Scans lines number number (pure a) where
  of_ok := fun _ _ => faultless_self lines number
  of_error := by
    intro e he
    cases he

/-- Scans follow one another. -/
theorem Scans.bind
    {first middle next : Nat}
    {step : Except FormatError α}
    {more : α → Except FormatError β}
    (hle : first ≤ middle)
    (hle' : middle ≤ next)
    (hstep : Scans lines first middle step)
    (hmore : ∀ a, Scans lines middle next (more a)) :
    Scans lines first next (step >>= more) where
  of_ok := by
    intro b hb
    obtain ⟨a, ha, hb⟩ := bind_eq_ok_iff.mp hb
    exact (hstep.of_ok a ha).append ((hmore a).of_ok b hb)
  of_error := by
    intro e he
    rcases bind_eq_error_iff.mp he with he | ⟨a, ha, he⟩
    · obtain ⟨hfirst, hnext, hfault, hbefore⟩ := hstep.of_error e he
      exact ⟨hfirst, by omega, hfault, hbefore⟩
    · obtain ⟨hfirst, hnext, hfault, hbefore⟩ := (hmore a).of_error e he
      exact ⟨by omega, hnext, hfault, (hstep.of_ok a ha).append hbefore⟩

/-- Passing on a value scans nothing more. -/
theorem Scans.map
    {first next : Nat}
    {step : Except FormatError α}
    {g : α → β}
    (hstep : Scans lines first next step) :
    Scans lines first next (step.map g) where
  of_ok := by
    intro b hb
    obtain ⟨a, ha, -⟩ := map_eq_ok_iff.mp hb
    exact hstep.of_ok a ha
  of_error := fun e he => hstep.of_error e (map_eq_error_iff.mp he)

/-- To check the demands of a line is to scan it. -/
theorem Checks.scans
    (number : Nat)
    {line : String}
    {step : Except FormatError α}
    (hline : lines[number - 1]? = some line)
    (h : Checks number step (demands number line)) :
    Scans lines number (number + 1) step where
  of_ok := by
    intro a ha
    refine faultless_one fun fault hfault => ?_
    cases hfault with
    | missing _ hmissing =>
        rw [hline] at hmissing
        cases hmissing
    | unmet hline' hfirst =>
        rw [hline, Option.some.injEq] at hline'
        subst hline'
        exact not_isFirstUnmet_of_forall (h.of_ok a ha) _ hfirst
  of_error := by
    intro e he
    obtain ⟨d, hfirst, rfl⟩ := h.of_error e he
    exact ⟨Nat.le_refl _, Nat.lt_succ_self _, .unmet hline hfirst, faultless_self lines _⟩

/-- A header line that is missing is at fault. -/
theorem scans_of_missing
    {number : Nat}
    {field : Field}
    (hfield : headerField? number = some field)
    (hline : lines[number - 1]? = none) :
    Scans lines number (number + 1) (.error ⟨number, .missingLine field⟩ : Except FormatError α) where
  of_ok := by
    intro a ha
    cases ha
  of_error := by
    intro e he
    cases he
    exact ⟨Nat.le_refl _, Nat.lt_succ_self _, .missing hfield hline, faultless_self lines _⟩

theorem scans_headerLine
    (lines : List String) :
    Scans lines 2 3 (headerLine lines 1 .alphabet) := by
  unfold headerLine
  cases hline : lines[1]? with
  | none => exact scans_of_missing rfl hline
  | some line => exact Checks.scans 2 hline checks_pure

theorem scans_headerInteger
    (lines : List String)
    {index : Nat}
    {field : Field}
    (hfield : headerField? (index + 1) = some field)
    (hdemands :
      ∀ line, demands (index + 1) line = [⟨field, Text.trim line.toList⟩]) :
    Scans lines (index + 1) (index + 2) (headerInteger lines index field) := by
  cases hline : lines[index]? with
  | none =>
      have hmissing : headerLine lines index field = .error ⟨index + 1, .missingLine field⟩ := by
        rw [headerLine, hline]
      rw [headerInteger, hmissing]
      exact scans_of_missing hfield hline
  | some line =>
      refine Checks.scans (index + 1) hline ?_
      rw [hdemands]
      exact checks_headerInteger field hline

theorem scans_readAccepting
    (lines : List String) :
    Scans lines 4 5 (readAccepting lines) := by
  unfold readAccepting
  cases hline : lines[3]? with
  | none =>
      have hlength := List.getElem?_eq_none_iff.mp hline
      refine
        { of_ok := fun _ _ => faultless_one (not_faultAt_of_optional (by decide) (by omega))
          of_error := ?_ }
      intro e he
      cases he
  | some line => exact Checks.scans 4 hline (checks_mapM (checks_readInteger 4 .accepting) _)

/-- The transition lines are scanned from the first to the last. -/
theorem scans_readTransitionLines
    (index : Nat)
    {rest : List String}
    (hrest : lines.drop (index + 4) = rest) :
    Scans lines (index + 5) (index + 5 + rest.length) (readTransitionLines (index + 5) rest) := by
  induction rest generalizing index with
  | nil => exact scans_pure lines _ []
  | cons line rest ih =>
      have hline : lines[index + 4]? = some line := by
        rw [← List.head?_drop, hrest, List.head?_cons]
      have hlater : lines.drop (index + 1 + 4) = rest := by
        rw [Nat.add_right_comm, ← List.tail_drop, hrest, List.tail_cons]
      have hfirst : Scans lines (index + 5) (index + 6) (readTransitionLine (index + 5) line) :=
        Checks.scans (index + 5) hline (checks_readTransitionLine _ line)
      have hnext : index + 5 + (rest.length + 1) = index + 6 + rest.length := by
        omega
      rw [readTransitionLines, List.length_cons, hnext]
      refine hfirst.bind (by omega) (by omega) fun edges => ?_
      have hmore :
          Scans lines (index + 6) (index + 6 + rest.length) (readTransitionLines (index + 6) rest) :=
        ih (index + 1) hlater
      exact hmore.bind (by omega) (by omega) fun more => scans_pure lines _ _

/-- Reading is a scan of all lines. -/
theorem scans_read
    (lines : List String) :
    Scans lines 1 (5 + (lines.drop 4).length) (read lines) := by
  have htransitions :
      Scans lines 5 (5 + (lines.drop 4).length) (readTransitionLines 5 (lines.drop 4)) :=
    scans_readTransitionLines 0 rfl
  refine Scans.map ?_
  unfold contents
  refine (scans_headerInteger lines rfl fun _ => rfl).bind (by omega) (by omega) fun numStates => ?_
  refine (scans_headerLine lines).bind (by omega) (by omega) fun alphabet => ?_
  refine (scans_headerInteger lines rfl fun _ => rfl).bind (by omega) (by omega) fun start => ?_
  refine (scans_readAccepting lines).bind (by omega) (by omega) fun accepts => ?_
  exact htransitions.bind (by omega) (by omega) fun edges => scans_pure lines _ _

end Scans

section FirstFault

variable {lines : List String} {e : FormatError}

/-- A description that is read has no fault. -/
theorem not_faultAt_of_read
    {N : NFA}
    (h : read lines = .ok N)
    (number : Nat)
    (fault : Fault) :
    ¬ FaultAt lines number fault := by
  intro hfault
  by_cases hnumber : number < 5 + (lines.drop 4).length
  · exact (scans_read lines).of_ok N h number hfault.number_pos hnumber fault hfault
  · rw [List.length_drop] at hnumber
    exact not_faultAt_of_optional (by omega) (by omega) fault hfault

/-- What the reader reports is the first fault. -/
theorem isFirstFault_of_read
    (h : read lines = .error e) :
    IsFirstFault lines e := by
  obtain ⟨-, -, hfault, hbefore⟩ := (scans_read lines).of_error e h
  refine ⟨hfault, fun number _ hnext fault hearlier => ?_⟩
  exact hbefore number hearlier.number_pos hnext fault hearlier

theorem read_eq_error_iff :
    read lines = .error e ↔ IsFirstFault lines e := by
  constructor
  · exact isFirstFault_of_read
  · intro hfirst
    cases hread : read lines with
    | ok N => exact absurd hfirst.faultAt (not_faultAt_of_read hread _ _)
    | error e' => rw [(isFirstFault_of_read hread).unique hfirst]

/-- Of the header lines, the first that is missing is reported. -/
theorem IsFirstFault.length_eq
    (h : IsFirstFault lines e)
    (hline : lines.length < e.line) :
    lines.length = e.line - 1 := by
  by_contra hne
  obtain ⟨field, hfield, -⟩ := h.faultAt.exists_missing hline
  have hheader := (exists_headerField?_iff _).mp ⟨field, hfield⟩
  obtain ⟨earlier, hearlier⟩ := (exists_headerField?_iff (lines.length + 1)).mpr (by omega)
  have hmissing : lines[lines.length + 1 - 1]? = none := by
    simp
  exact h.faultless _ (Nat.zero_le _) (by omega) _ (.missing hearlier hmissing)

/-- The lines after the first fault may be replaced. -/
theorem IsFirstFault.take_append
    (h : IsFirstFault lines e)
    (hline : e.line ≤ lines.length)
    (more : List String) :
    IsFirstFault (lines.take e.line ++ more) e := by
  refine h.congr fun index hindex => ?_
  rw [List.getElem?_append_left (by rw [List.length_take]; omega), List.getElem?_take_of_lt hindex]

/-- The lines before the first fault are a description if the header is among them. -/
theorem IsFirstFault.exists_read_take
    (h : IsFirstFault lines e)
    (hheader : 4 ≤ e.line)
    (hline : e.line ≤ lines.length) :
    ∃ N, read (lines.take (e.line - 1)) = .ok N := by
  cases hread : read (lines.take (e.line - 1)) with
  | ok N => exact ⟨N, rfl⟩
  | error e' =>
      have hfault := (isFirstFault_of_read hread).faultAt
      have hpos := hfault.number_pos
      exfalso
      by_cases hbefore : e'.line < e.line
      · refine h.faultless e'.line (Nat.zero_le _) hbefore e'.fault (hfault.congr ?_)
        exact List.getElem?_take_of_lt (by omega)
      · refine not_faultAt_of_optional ?_ ?_ e'.fault hfault
        · omega
        · rw [List.length_take]
          omega

end FirstFault

/-- The error is that a header line is missing, with all lines before it there. -/
structure ReportsMissingLine
    (lines : List String)
    (e : FormatError) :
    Prop where
  line_le : e.line ≤ 3
  length_eq : lines.length = e.line - 1
  quotes :
    ∃ field,
      headerField? e.line = some field ∧
      e.fault = .missingLine field ∧
      e.message
        =
      "строка " ++ Text.numeral e.line ++ ": " ++ ("нет строки '" ++ field.name ++ "'")

/-- The error quotes the leftmost token of its line that should be an integer and is none; all
lines before it are in order, and those after it do not matter. -/
structure ReportsToken
    (lines : List String)
    (e : FormatError) :
    Prop where
  line_pos : 0 < e.line
  line_le : e.line ≤ lines.length
  line_ne_two : e.line ≠ 2
  read_append : ∀ more, read (lines.take e.line ++ more) = .error e
  read_before : 4 ≤ e.line → ∃ N, read (lines.take (e.line - 1)) = .ok N
  quotes :
    ∃ line d,
      lines[e.line - 1]? = some line ∧
      IsFirstUnmet (demands e.line line) d ∧
      e.fault = .notInteger d.field (String.ofList d.token) ∧
      e.message
        =
      "строка " ++ Text.numeral e.line ++ ": "
        ++ (d.field.name ++ ": ожидалось целое, получено '" ++ String.ofList d.token ++ "'")

/--
A reported error is that a header line is missing, or it is about the leftmost token that should be
an integer and is none, on the first line with such a token.
-/
theorem read_reportsFirstFault
    {lines : List String}
    {e : FormatError}
    (h : read lines = .error e) :
    ReportsMissingLine lines e ∨ ReportsToken lines e := by
  have hfirst := isFirstFault_of_read h
  rcases Nat.lt_or_ge lines.length e.line with hmissing | hline
  · obtain ⟨field, hfield, hfault⟩ := hfirst.faultAt.exists_missing hmissing
    exact Or.inl
      { line_le := ((exists_headerField?_iff _).mp ⟨field, hfield⟩).2
        length_eq := hfirst.length_eq hmissing
        quotes := ⟨field, hfield, hfault, FormatError.message_of_missingLine hfault⟩ }
  · obtain ⟨line, d, hsome, hunmet, hfault⟩ := hfirst.faultAt.exists_unmet hline
    refine Or.inr
      { line_pos := hfirst.faultAt.number_pos
        line_le := hline
        line_ne_two := ?_
        read_append := fun more => read_eq_error_iff.mpr (hfirst.take_append hline more)
        read_before := fun hheader => hfirst.exists_read_take hheader hline
        quotes := ⟨line, d, hsome, hunmet, hfault, FormatError.message_of_notInteger hfault⟩ }
    intro htwo
    rw [htwo] at hunmet
    exact not_isFirstUnmet_of_forall (by simp [demands]) d hunmet

/-- Of the bad tokens on the seventh and the ninth line, the leftmost of the seventh is reported. -/
theorem read_reportsFirstFault_seventh :
    read ["3", "a b", " 0 ", "1 2", "x", "0 ? 2", "+1 b 2 1_0_ y", "q", "zz a 1"]
        =
      .error ⟨7, .notInteger .target "1_0_"⟩
      ∧
    (ReportsMissingLine ["3", "a b", " 0 ", "1 2", "x", "0 ? 2", "+1 b 2 1_0_ y", "q", "zz a 1"]
        ⟨7, .notInteger .target "1_0_"⟩
      ∨
    ReportsToken ["3", "a b", " 0 ", "1 2", "x", "0 ? 2", "+1 b 2 1_0_ y", "q", "zz a 1"]
        ⟨7, .notInteger .target "1_0_"⟩) := by
  have hread :
      read ["3", "a b", " 0 ", "1 2", "x", "0 ? 2", "+1 b 2 1_0_ y", "q", "zz a 1"]
        =
      .error ⟨7, .notInteger .target "1_0_"⟩ := by
    decide +kernel
  exact ⟨hread, read_reportsFirstFault hread⟩

end Description
end Determinization
