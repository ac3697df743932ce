import Mathlib.Data.List.Shortlex
import Determinization.Construction
import Determinization.Proofs.Moves

/-!
# Access words

A sequence of symbols leads to a set if successive moves along it end there.  Of the sequences
that lead to a set the access word is the least: a shorter sequence comes before a longer one,
and sequences of one length are compared symbol by symbol, where a symbol counts as early as its
first occurrence in the alphabet.

**Results.**
* `exists_isAccessWord` and `IsAccessWord.unique`: a set to which some sequence leads has exactly
  one access word.
* `IsAccessWord.of_concat`: without its last symbol an access word is the access word of the set
  that it passes last.
-/

namespace Determinization
namespace NFA

variable {N : NFA}

/-- Moves along symbols of the alphabet lead from the start set to the set. -/
structure LeadsTo
    (N : NFA)
    (symbols : List Symbol)
    (s : StateSet) :
    Prop where
  mem_alphabet : ∀ a ∈ symbols, a ∈ N.alphabet
  moveAlong_eq : N.moveAlong N.startSet symbols = s

/-- The places of symbols in the alphabet, where a repeated symbol has its first place. -/
def places
    (N : NFA)
    (symbols : List Symbol) :
    List Nat :=
  symbols.map fun a => N.alphabet.idxOf a

/-- The shortlex order of sequences: by length, and then symbol by symbol by the places. -/
def Precedes
    (N : NFA)
    (u v : List Symbol) :
    Prop :=
  List.Shortlex (· < ·) (N.places u) (N.places v)

/-- The sequence is the least of those that lead to the set. -/
structure IsAccessWord
    (N : NFA)
    (s : StateSet)
    (w : List Symbol) :
    Prop where
  leadsTo : N.LeadsTo w s
  least : ∀ v, N.LeadsTo v s → v = w ∨ N.Precedes w v

section Order

@[simp] theorem length_places
    (symbols : List Symbol) :
    (N.places symbols).length = symbols.length := by
  simp [places]

theorem places_append
    (u v : List Symbol) :
    N.places (u ++ v) = N.places u ++ N.places v := by
  simp [places]

/-- Sequences of symbols of the alphabet are told apart by their places. -/
theorem places_inj
    {u v : List Symbol}
    (hu : ∀ a ∈ u, a ∈ N.alphabet)
    (hv : ∀ a ∈ v, a ∈ N.alphabet)
    (h : N.places u = N.places v) :
    u = v := by
  have hread : ∀ w : List Symbol, (∀ a ∈ w, a ∈ N.alphabet) →
      (N.places w).map (fun i => N.alphabet[i]?) = w.map some := by
    intro w hw
    rw [places, List.map_map]
    refine List.map_congr_left fun a ha => ?_
    exact List.getElem?_idxOf (hw a ha)
  have hsome : u.map some = v.map some := by
    rw [← hread u hu, h, hread v hv]
  exact List.map_injective_iff.mpr (Option.some_injective Symbol) hsome

theorem precedes_wellFounded
    (N : NFA) :
    WellFounded N.Precedes :=
  InvImage.wf N.places (List.Shortlex.wf Nat.lt_wfRel.wf)

theorem Precedes.asymm
    {u v : List Symbol}
    (h : N.Precedes u v) :
    ¬ N.Precedes v u :=
  Std.Asymm.asymm (r := List.Shortlex fun i j : Nat => i < j) _ _ h

theorem precedes_trichotomous
    {u v : List Symbol}
    (hu : ∀ a ∈ u, a ∈ N.alphabet)
    (hv : ∀ a ∈ v, a ∈ N.alphabet) :
    v = u ∨ N.Precedes u v ∨ N.Precedes v u := by
  by_cases huv : N.Precedes u v
  · exact Or.inr (Or.inl huv)
  · by_cases hvu : N.Precedes v u
    · exact Or.inr (Or.inr hvu)
    · have hplaces : N.places v = N.places u :=
        Std.Trichotomous.trichotomous (r := List.Shortlex fun i j : Nat => i < j) _ _ hvu huv
      exact Or.inl (places_inj hv hu hplaces)

theorem precedes_of_length_lt
    {u v : List Symbol}
    (h : u.length < v.length) :
    N.Precedes u v :=
  List.Shortlex.of_length_lt (by simpa using h)

theorem Precedes.length_le
    {u v : List Symbol}
    (h : N.Precedes u v) :
    u.length ≤ v.length := by
  rcases List.shortlex_def.mp h with hlt | ⟨heq, -⟩
  · simpa using hlt.le
  · simpa using heq.le

/-- The order of sequences of one length does not depend on what is appended. -/
theorem lex_append
    {i j k l : List Nat}
    (hlength : i.length = j.length)
    (h : List.Lex (· < ·) i j) :
    List.Lex (· < ·) (i ++ k) (j ++ l) := by
  induction h with
  | nil => simp at hlength
  | cons _ ih => exact List.Lex.cons (ih (by simpa using hlength))
  | rel hlt => exact List.Lex.rel hlt

/-- The order of sequences is the order of their extensions by one symbol. -/
theorem Precedes.concat
    {u v : List Symbol}
    (h : N.Precedes u v)
    (a b : Symbol) :
    N.Precedes (u ++ [a]) (v ++ [b]) := by
  rcases List.shortlex_def.mp h with hlt | ⟨heq, hlex⟩
  · refine precedes_of_length_lt ?_
    simpa using hlt
  · refine List.Shortlex.of_lex ?_ ?_
    · simpa using heq
    · rw [places_append, places_append]
      exact lex_append heq hlex

/-- Extensions of one sequence are in the order of the places of their last symbols. -/
theorem precedes_concat_iff
    {u : List Symbol}
    {a b : Symbol} :
    N.Precedes (u ++ [a]) (u ++ [b]) ↔ N.alphabet.idxOf a < N.alphabet.idxOf b := by
  have hextend : ∀ {c d : Symbol},
      N.alphabet.idxOf c < N.alphabet.idxOf d → N.Precedes (u ++ [c]) (u ++ [d]) := by
    intro c d hcd
    rw [Precedes, places_append, places_append]
    refine List.Shortlex.append_left ?_ (N.places u)
    simpa [places] using hcd
  constructor
  · intro h
    by_contra hle
    rcases Nat.lt_or_eq_of_le (Nat.le_of_not_lt hle) with hlt | heq
    · exact h.asymm (hextend hlt)
    · have hplaces : N.places (u ++ [a]) = N.places (u ++ [b]) := by
        simp [places, heq]
      have hself : N.Precedes (u ++ [b]) (u ++ [b]) := by
        rw [Precedes, hplaces] at h
        exact h
      exact hself.asymm hself
  · exact hextend

end Order

section AccessWords

theorem leadsTo_nil
    (N : NFA) :
    N.LeadsTo [] N.startSet :=
  ⟨by simp, rfl⟩

theorem LeadsTo.concat
    {u : List Symbol}
    {s : StateSet}
    (h : N.LeadsTo u s)
    {a : Symbol}
    (ha : a ∈ N.alphabet) :
    N.LeadsTo (u ++ [a]) (N.move s a) := by
  refine ⟨?_, by rw [moveAlong_concat, h.moveAlong_eq]⟩
  intro b hb
  rcases List.mem_append.mp hb with hb | hb
  · exact h.mem_alphabet b hb
  · exact List.mem_singleton.mp hb ▸ ha

/-- The sequence without its last symbol leads to the set from which the last move starts. -/
theorem LeadsTo.of_concat
    {u : List Symbol}
    {a : Symbol}
    {t : StateSet}
    (h : N.LeadsTo (u ++ [a]) t) :
    ∃ s, N.LeadsTo u s ∧ a ∈ N.alphabet ∧ N.move s a = t := by
  refine ⟨N.moveAlong N.startSet u, ⟨?_, rfl⟩, h.mem_alphabet a (by simp), ?_⟩
  · intro b hb
    exact h.mem_alphabet b (List.mem_append_left _ hb)
  · rw [← moveAlong_concat]
    exact h.moveAlong_eq

/-- A set to which some sequence leads has an access word. -/
theorem exists_isAccessWord
    {w : List Symbol}
    {s : StateSet}
    (h : N.LeadsTo w s) :
    ∃ u, N.IsAccessWord s u := by
  obtain ⟨u, hu, hleast⟩ :=
    (precedes_wellFounded N).has_min {v | N.LeadsTo v s} ⟨w, h⟩
  refine ⟨u, hu, fun v hv => ?_⟩
  rcases precedes_trichotomous hu.mem_alphabet hv.mem_alphabet with heq | huv | hvu
  · exact Or.inl heq
  · exact Or.inr huv
  · exact absurd hvu (hleast v hv)

theorem IsAccessWord.unique
    {s : StateSet}
    {u v : List Symbol}
    (hu : N.IsAccessWord s u)
    (hv : N.IsAccessWord s v) :
    v = u := by
  rcases hu.least v hv.leadsTo with heq | huv
  · exact heq
  · rcases hv.least u hu.leadsTo with heq | hvu
    · exact heq.symm
    · exact absurd hvu huv.asymm

theorem isAccessWord_nil
    (N : NFA) :
    N.IsAccessWord N.startSet [] := by
  refine ⟨leadsTo_nil N, fun v _ => ?_⟩
  cases v with
  | nil => exact Or.inl rfl
  | cons a v => exact Or.inr (precedes_of_length_lt (by simp))

/-- An access word without its last symbol is the access word of the set before the last move. -/
theorem IsAccessWord.of_concat
    {u : List Symbol}
    {a : Symbol}
    {t : StateSet}
    (h : N.IsAccessWord t (u ++ [a])) :
    ∃ s, N.IsAccessWord s u ∧ a ∈ N.alphabet ∧ N.move s a = t := by
  obtain ⟨s, hs, ha, hmove⟩ := h.leadsTo.of_concat
  refine ⟨s, ⟨hs, fun v hv => ?_⟩, ha, hmove⟩
  rcases precedes_trichotomous hs.mem_alphabet hv.mem_alphabet with heq | huv | hvu
  · exact Or.inl heq
  · exact Or.inr huv
  · -- A lesser sequence to the set before would give a lesser one to the set itself.
    have hless : N.Precedes (v ++ [a]) (u ++ [a]) := hvu.concat a a
    rcases h.least (v ++ [a]) (hmove ▸ hv.concat ha) with heq | hmore
    · rw [heq] at hless
      exact absurd hless hless.asymm
    · exact absurd hmore hless.asymm

end AccessWords

end NFA

end Determinization
