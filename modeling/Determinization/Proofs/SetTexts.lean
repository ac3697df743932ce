import Determinization.Proofs.Ascending
import Determinization.Proofs.FileText

/-!
# Texts of sets as names

A set of states is written as the list of its members in ascending order, so its text does not
depend on the order in which the members are given.  Both ways of writing, between brackets and
between braces, end at their closing sign.  Hence no text of a set is the beginning of another one,
and a line of such texts is read back although the spaces between them may occur in them as well.

**Results.** `namesSets_of_append_inj`: a way of writing lists that is read back whatever follows gives
names to sets.  `setTexts_canonical`: this holds of both ways of writing.
-/

namespace Determinization

/--
A way of writing lists of states gives names to sets.  In whatever order the members of a set are
listed, their text is the name of the set; different sets have different names, of which none begins
another; and a line of names tells the sets.
-/
structure NamesSets
    (text : List Int → String)
    (name : StateSet → String) :
    Prop where
  text_ascending_eq_iff :
    ∀ states others,
      text (ascending states) = text (ascending others) ↔ states.Perm others
  text_of_listing :
    ∀ (s : StateSet) (states : List Int),
      states.Nodup → (∀ q, q ∈ states ↔ q ∈ s) →
      text (ascending states) = name s
  eq_iff : ∀ s t, name s = name t ↔ s = t
  not_prefix : ∀ s t, s ≠ t → ¬ (name s).toList <+: (name t).toList
  joined_eq_iff :
    ∀ sets others : List StateSet,
      " ".intercalate (sets.map name) = " ".intercalate (others.map name) ↔ sets = others

/-- If a list is read back from its text whatever follows, the texts of sets are names. -/
theorem namesSets_of_append_inj
    {text : List Int → String}
    (hne : ∀ states, (text states).toList ≠ [])
    (happend :
      ∀ states others u v,
        (text states).toList ++ u = (text others).toList ++ v → states = others ∧ u = v) :
    NamesSets text fun s => text s.toList := by
  have hread : ∀ (s t : StateSet) (u v : List Char),
      (text s.toList).toList ++ u = (text t.toList).toList ++ v → s = t ∧ u = v :=
    fun s t u v h => (happend _ _ u v h).imp_left StateSet.toList_inj.mp
  have hinjective : ∀ states others, text states = text others → states = others :=
    fun states others h => (happend states others [] [] (by rw [h])).1
  refine
    { text_ascending_eq_iff := fun states others => ?_
      text_of_listing := fun s states hnodup hmem => ?_
      eq_iff := fun s t => ⟨fun h => ?_, fun h => by rw [h]⟩
      not_prefix := fun s t hst hprefix => ?_
      joined_eq_iff := fun sets others => ⟨fun h => ?_, fun h => by rw [h]⟩ }
  · rw [← ascending_eq_iff]
    exact ⟨hinjective _ _, congrArg text⟩
  · rw [ascending_of_listing hnodup hmem]
  · exact StateSet.toList_inj.mp (hinjective _ _ h)
  · obtain ⟨rest, hrest⟩ := hprefix
    exact hst (hread s t rest [] (by rw [hrest, List.append_nil])).1
  · exact DFA.literals_line_inj (fun s => hne s.toList) hread h

/-- Both ways of writing a set name it, and their names are read back from a line of them. -/
theorem setTexts_canonical :
    NamesSets bracesText StateSet.braces ∧ NamesSets bracketsText StateSet.brackets := by
  constructor
  · refine namesSets_of_append_inj (fun states hnil => ?_) fun _ _ _ _ => bracesText_append_inj
    by_cases hstates : states = []
    · simp [hstates] at hnil
    · simp [toList_bracesText_of_ne_nil hstates] at hnil
  · refine namesSets_of_append_inj (fun states hnil => ?_) fun _ _ _ _ => bracketsText_append_inj
    simp [toList_bracketsText] at hnil

end Determinization
