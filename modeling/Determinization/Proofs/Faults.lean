import Determinization.Proofs.Grammar

/-!
# Faults of a description

Every line of a description demands that some of its tokens are integers, and the first three
lines have to be there.  So a line has a fault or none, and which one it is depends on nothing but
this line and its number.

**Results.** `IsFirstFault.unique` and `IsFirstFault.congr`: there is at most one first fault, and
it depends only on the lines up to its own.
-/

namespace Determinization
namespace Description

/-- A token that has to be an integer, and what is expected in its place. -/
structure Demand where
  field : Field
  token : List Char

namespace Demand

/-- The demand is met. -/
def IsMet (d : Demand) : Prop :=
  Text.IsIntegerToken d.token

/-- The fault of a line in which the demand is not met. -/
def fault (d : Demand) : Fault :=
  .notInteger d.field (String.ofList d.token)

end Demand

/-- The demands of a transition line: its source and its targets, but not its symbol. -/
def transitionDemands (line : String) : List Demand :=
  match Text.tokens line.toList with
  | source :: _ :: targets => ⟨.source, source⟩ :: targets.map fun target => ⟨.target, target⟩
  | _ => []

/-- The demands of the line with the given number, from left to right. -/
def demands : Nat → String → List Demand
  | 1, line => [⟨.stateCount, Text.trim line.toList⟩]
  | 3, line => [⟨.start, Text.trim line.toList⟩]
  | 4, line => (Text.tokens line.toList).map fun token => ⟨.accepting, token⟩
  | _ + 5, line => transitionDemands line
  | _, _ => []

/-- What the lines that must not be missing are needed for. -/
def headerField? : Nat → Option Field
  | 1 => some .stateCount
  | 2 => some .alphabet
  | 3 => some .start
  | _ => none

/-- The demand is the leftmost that is not met. -/
def IsFirstUnmet
    (ds : List Demand)
    (d : Demand) :
    Prop :=
  ∃ before after,
    ds = before ++ d :: after ∧
    (∀ earlier ∈ before, earlier.IsMet) ∧
    ¬ d.IsMet

/-- The line with the given number has the fault. -/
inductive FaultAt
    (lines : List String)
    (number : Nat) :
    Fault → Prop
  | missing
      {field : Field}
      (hfield : headerField? number = some field)
      (hline : lines[number - 1]? = none) :
      FaultAt lines number (.missingLine field)
  | unmet
      {line : String}
      {d : Demand}
      (hline : lines[number - 1]? = some line)
      (hfirst : IsFirstUnmet (demands number line) d) :
      FaultAt lines number d.fault

/-- None of the lines from the first number up to the next one has a fault. -/
def Faultless
    (lines : List String)
    (first next : Nat) :
    Prop :=
  ∀ number, first ≤ number → number < next → ∀ fault, ¬ FaultAt lines number fault

/-- The error is the fault of a line, and no line before it has one. -/
structure IsFirstFault
    (lines : List String)
    (e : FormatError) :
    Prop where
  faultAt : FaultAt lines e.line e.fault
  faultless : Faultless lines 0 e.line

section Demands

theorem isFirstUnmet_cons_iff
    {d earlier : Demand}
    {ds : List Demand} :
    IsFirstUnmet (earlier :: ds) d
      ↔
    (¬ earlier.IsMet ∧ d = earlier) ∨ (earlier.IsMet ∧ IsFirstUnmet ds d) := by
  constructor
  · rintro ⟨before, after, hds, hbefore, hd⟩
    cases before with
    | nil =>
        obtain ⟨rfl, rfl⟩ := List.cons.inj hds
        exact Or.inl ⟨hd, rfl⟩
    | cons b before =>
        obtain ⟨rfl, rfl⟩ := List.cons.inj hds
        obtain ⟨hmet, hrest⟩ := List.forall_mem_cons.mp hbefore
        exact Or.inr ⟨hmet, before, after, rfl, hrest, hd⟩
  · rintro (⟨hunmet, rfl⟩ | ⟨hmet, before, after, rfl, hbefore, hd⟩)
    · exact ⟨[], ds, rfl, by simp, hunmet⟩
    · exact ⟨earlier :: before, after, rfl, List.forall_mem_cons.mpr ⟨hmet, hbefore⟩, hd⟩

/-- The demands after the first that is not met do not matter. -/
theorem IsFirstUnmet.append_right
    {ds : List Demand}
    {d : Demand}
    (h : IsFirstUnmet ds d)
    (es : List Demand) :
    IsFirstUnmet (ds ++ es) d := by
  obtain ⟨before, after, rfl, hbefore, hd⟩ := h
  exact ⟨before, after ++ es, by simp, hbefore, hd⟩

/-- Demands that are met may stand in front. -/
theorem IsFirstUnmet.append_left
    {ds es : List Demand}
    {d : Demand}
    (hmet : ∀ earlier ∈ ds, earlier.IsMet)
    (h : IsFirstUnmet es d) :
    IsFirstUnmet (ds ++ es) d := by
  obtain ⟨before, after, rfl, hbefore, hd⟩ := h
  exact ⟨ds ++ before, after, by simp, List.forall_mem_append.mpr ⟨hmet, hbefore⟩, hd⟩

theorem not_isFirstUnmet_of_forall
    {ds : List Demand}
    (h : ∀ d ∈ ds, d.IsMet)
    (d : Demand) :
    ¬ IsFirstUnmet ds d := by
  rintro ⟨before, after, rfl, -, hd⟩
  exact hd (h d (by simp))

theorem IsFirstUnmet.unique
    {ds : List Demand}
    {d d' : Demand}
    (h : IsFirstUnmet ds d)
    (h' : IsFirstUnmet ds d') :
    d = d' := by
  induction ds with
  | nil =>
      obtain ⟨before, after, hds, -⟩ := h
      simp at hds
  | cons earlier ds ih =>
      rw [isFirstUnmet_cons_iff] at h h'
      rcases h with ⟨hunmet, rfl⟩ | ⟨hmet, h⟩
      · rcases h' with ⟨-, rfl⟩ | ⟨hmet, -⟩
        · rfl
        · exact absurd hmet hunmet
      · rcases h' with ⟨hunmet, -⟩ | ⟨-, h'⟩
        · exact absurd hmet hunmet
        · exact ih h h'

end Demands

section Faults

variable {lines others : List String} {number : Nat} {fault : Fault}

theorem FaultAt.unique
    {fault' : Fault}
    (h : FaultAt lines number fault)
    (h' : FaultAt lines number fault') :
    fault = fault' := by
  cases h with
  | missing hfield hline =>
      cases h' with
      | missing hfield' _ =>
          rw [hfield, Option.some.injEq] at hfield'
          rw [hfield']
      | unmet hline' _ =>
          rw [hline] at hline'
          cases hline'
  | unmet hline hfirst =>
      cases h' with
      | missing _ hline' =>
          rw [hline] at hline'
          cases hline'
      | unmet hline' hfirst' =>
          rw [hline, Option.some.injEq] at hline'
          subst hline'
          rw [hfirst.unique hfirst']

/-- The fault of a line depends on this line only. -/
theorem FaultAt.congr
    (h : lines[number - 1]? = others[number - 1]?)
    (hfault : FaultAt lines number fault) :
    FaultAt others number fault := by
  cases hfault with
  | missing hfield hline => exact .missing hfield (h ▸ hline)
  | unmet hline hfirst => exact .unmet (h ▸ hline) hfirst

/-- There is no line with number zero. -/
theorem FaultAt.number_pos
    (h : FaultAt lines number fault) :
    0 < number := by
  rw [Nat.pos_iff_ne_zero]
  rintro rfl
  cases h with
  | missing hfield _ => cases hfield
  | unmet _ hfirst => exact not_isFirstUnmet_of_forall (by simp [demands]) _ hfirst

/-- A line that is there has no other fault than a demand that is not met. -/
theorem FaultAt.exists_unmet
    (h : FaultAt lines number fault)
    (hnumber : number ≤ lines.length) :
    ∃ line d,
      lines[number - 1]? = some line ∧
      IsFirstUnmet (demands number line) d ∧
      fault = d.fault := by
  have hpos := h.number_pos
  cases h with
  | missing _ hline =>
      have hlength := List.getElem?_eq_none_iff.mp hline
      omega
  | unmet hline hfirst => exact ⟨_, _, hline, hfirst, rfl⟩

/-- A line that is missing has a fault only if it is one of the header lines. -/
theorem FaultAt.exists_missing
    (h : FaultAt lines number fault)
    (hnumber : lines.length < number) :
    ∃ field, headerField? number = some field ∧ fault = .missingLine field := by
  cases h with
  | missing hfield _ => exact ⟨_, hfield, rfl⟩
  | unmet hline _ =>
      have hlength := (List.getElem?_eq_some_iff.mp hline).1
      omega

theorem faultless_self
    (lines : List String)
    (number : Nat) :
    Faultless lines number number := by
  intro k hfirst hnext
  omega

theorem Faultless.append
    {first middle next : Nat}
    (h : Faultless lines first middle)
    (hmore : Faultless lines middle next) :
    Faultless lines first next := by
  intro number hfirst hnext
  rcases Nat.lt_or_ge number middle with hlt | hge
  · exact h number hfirst hlt
  · exact hmore number hge hnext

theorem faultless_one
    {number : Nat}
    (h : ∀ fault, ¬ FaultAt lines number fault) :
    Faultless lines number (number + 1) := by
  intro k hfirst hnext
  obtain rfl : k = number := by
    omega
  exact h

/-- The header lines are the first three. -/
theorem exists_headerField?_iff
    (number : Nat) :
    (∃ field, headerField? number = some field) ↔ 0 < number ∧ number ≤ 3 := by
  rcases number with _ | _ | _ | _ | number
  · simp [headerField?]
  · simp [headerField?]
  · simp [headerField?]
  · simp [headerField?]
  · simp [headerField?]

/-- A line after the header lines may be missing. -/
theorem not_faultAt_of_optional
    (hnumber : 3 < number)
    (hline : lines.length < number)
    (fault : Fault) :
    ¬ FaultAt lines number fault := by
  intro hfault
  obtain ⟨field, hfield, -⟩ := hfault.exists_missing hline
  have hheader := (exists_headerField?_iff _).mp ⟨field, hfield⟩
  omega

/-- The first fault depends only on the lines up to it. -/
theorem IsFirstFault.congr
    {e : FormatError}
    (h : ∀ index, index < e.line → lines[index]? = others[index]?)
    (hfirst : IsFirstFault lines e) :
    IsFirstFault others e where
  faultAt := hfirst.faultAt.congr (h _ (Nat.sub_one_lt_of_lt hfirst.faultAt.number_pos))
  faultless := by
    intro number hzero hnext fault hfault
    have hpos := hfault.number_pos
    exact hfirst.faultless number hzero hnext fault
      (hfault.congr (h (number - 1) (by omega)).symm)

theorem IsFirstFault.unique
    {e e' : FormatError}
    (h : IsFirstFault lines e)
    (h' : IsFirstFault lines e') :
    e = e' := by
  have hline : e.line = e'.line := by
    rcases Nat.lt_trichotomy e.line e'.line with hlt | heq | hgt
    · exact absurd h.faultAt (h'.faultless e.line (Nat.zero_le _) hlt e.fault)
    · exact heq
    · exact absurd h'.faultAt (h.faultless e'.line (Nat.zero_le _) hgt e'.fault)
  have hfault : e.fault = e'.fault := h.faultAt.unique (hline ▸ h'.faultAt)
  cases e
  cases e'
  cases hline
  cases hfault
  rfl

end Faults

end Description
end Determinization
