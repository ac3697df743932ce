import Determinization.Proofs.Simulation

/-!
# Renaming of states

A function on integers renames the states of an automaton: start, accepting states, sources and
targets.  If it takes no two mentioned states to one, the construction commutes with it: the
determinization of the renamed automaton is the determinization with every set replaced by its
image.  So the order of discovery depends neither on the names of the states nor on the order
in which the members of a set are listed, which a renaming may change at will.

**Results.**
* `targets_rename` and `move_rename`: targets and moves of the renamed automaton.
* `image_injective`: images keep sets of mentioned states apart.
* `isImage_determinize_rename`: the construction commutes with renaming.
-/

namespace Determinization

namespace StateSet

/-- The set of the images of the members. -/
def image
    (f : Int → Int)
    (s : StateSet) :
    StateSet :=
  ofList (s.toList.map f)

@[simp] theorem mem_image
    {f : Int → Int}
    {s : StateSet}
    {p : Int} :
    p ∈ s.image f ↔ ∃ q ∈ s, f q = p := by
  simp [image, Std.ExtTreeSet.mem_toList]

@[simp] theorem image_empty
    (f : Int → Int) :
    image f ∅ = ∅ := by
  refine ext_mem fun p => ?_
  simp

@[simp] theorem image_singleton
    (f : Int → Int)
    (q : Int) :
    (singleton q).image f = singleton (f q) := by
  refine ext_mem fun p => ?_
  simp [eq_comm]

end StateSet

/-- The row with renamed targets. -/
def TargetRow.rename
    (f : Int → Int)
    (row : TargetRow) :
    TargetRow :=
  row.map fun _ targets => targets.image f

/-- The transitions with renamed sources and targets. -/
def TransitionMap.rename
    (f : Int → Int)
    (transitions : TransitionMap) :
    TransitionMap :=
  Std.ExtTreeMap.ofList
    (transitions.toList.map fun entry => (f entry.1, TargetRow.rename f entry.2))

namespace NFA

/-- The automaton with renamed states, and with a number of states of its own. -/
def rename
    (f : Int → Int)
    (numStates : Int)
    (N : NFA) :
    NFA where
  numStates := numStates
  alphabet := N.alphabet
  transitions := N.transitions.rename f
  start := f N.start
  accepts := N.accepts.image f

variable {f : Int → Int} {numStates : Int} {N : NFA}

section Mentioned

theorem mem_mentioned_of_mem_accepts
    {q : Int}
    (hq : q ∈ N.accepts) :
    q ∈ N.mentioned :=
  mem_mentioned_iff.mpr (Or.inr (Or.inl hq))

theorem mem_mentioned_of_row
    {q : Int}
    {row : TargetRow}
    (hrow : N.transitions[q]? = some row) :
    q ∈ N.mentioned := by
  have hmem : q ∈ N.transitions := by
    rw [Std.ExtTreeMap.mem_iff_isSome_getElem?, hrow]
    rfl
  exact mem_mentioned_iff.mpr (Or.inr (Or.inr (Or.inl hmem)))

end Mentioned

section Renamed

variable (hf : Set.InjOn f {q | q ∈ N.mentioned})
include hf

/-- The row of a renamed state is its row with renamed targets. -/
theorem getElem?_rename
    {q : Int}
    (hq : q ∈ N.mentioned) :
    (N.transitions.rename f)[f q]? = (N.transitions[q]?).map (TargetRow.rename f) := by
  have hsource : ∀ entry ∈ N.transitions.toList, entry.1 ∈ N.mentioned := by
    intro entry hentry
    exact mem_mentioned_of_row (Std.ExtTreeMap.mem_toList_iff_getElem?_eq_some.mp hentry)
  cases hrow : N.transitions[q]? with
  | none =>
      have hnone : f q ∉ N.transitions.toList.map fun entry => f entry.1 := by
        intro hmem
        obtain ⟨⟨p, row⟩, hentry, heq⟩ := List.mem_map.mp hmem
        have hp := Std.ExtTreeMap.mem_toList_iff_getElem?_eq_some.mp hentry
        obtain rfl : p = q := hf (hsource _ hentry) hq heq
        rw [hrow] at hp
        cases hp
      refine Std.ExtTreeMap.getElem?_ofList_of_contains_eq_false ?_
      simpa using hnone
  | some row =>
      have hdistinct :
          N.transitions.toList.Pairwise fun entry other =>
            ¬ compare (f entry.1) (f other.1) = .eq := by
        refine Std.ExtTreeMap.distinct_keys_toList.imp_of_mem ?_
        intro entry other hentry hother hne heq
        rw [Std.compare_eq_iff_eq] at hne heq
        exact hne (hf (hsource entry hentry) (hsource other hother) heq)
      refine Std.ExtTreeMap.getElem?_ofList_of_mem (k := f q) (by simp) ?_ ?_
      · rw [List.pairwise_map]
        exact hdistinct
      · exact List.mem_map.mpr
          ⟨(q, row), Std.ExtTreeMap.mem_toList_iff_getElem?_eq_some.mpr hrow, rfl⟩

/-- The targets of a renamed state are the renamed targets. -/
theorem targets_rename
    {q : Int}
    (hq : q ∈ N.mentioned)
    (a : Symbol) :
    (N.rename f numStates).targets (f q) a = (N.targets q a).image f := by
  rw [targets_eq, targets_eq, rename, getElem?_rename hf hq]
  cases N.transitions[q]? with
  | none => simp
  | some row =>
      cases hrow : row[a]? <;> simp [TargetRow.rename, hrow]

/-- The move of the image of a set is the image of its move. -/
theorem move_rename
    {s : StateSet}
    (hs : ∀ q ∈ s, q ∈ N.mentioned)
    (a : Symbol) :
    (N.rename f numStates).move (s.image f) a = (N.move s a).image f := by
  refine StateSet.ext_mem fun p => ?_
  simp only [mem_move_iff, StateSet.mem_image]
  constructor
  · rintro ⟨_, ⟨q, hq, rfl⟩, hp⟩
    rw [targets_rename hf (hs q hq), StateSet.mem_image] at hp
    obtain ⟨r, hr, rfl⟩ := hp
    exact ⟨r, ⟨q, hq, hr⟩, rfl⟩
  · rintro ⟨r, ⟨q, hq, hr⟩, rfl⟩
    refine ⟨f q, ⟨q, hq, rfl⟩, ?_⟩
    rw [targets_rename hf (hs q hq), StateSet.mem_image]
    exact ⟨r, hr, rfl⟩

/-- The image of a set accepts if and only if the set does. -/
theorem isAccepting_rename
    {s : StateSet}
    (hs : ∀ q ∈ s, q ∈ N.mentioned) :
    (N.rename f numStates).isAccepting (s.image f) = N.isAccepting s := by
  rw [Bool.eq_iff_iff, isAccepting, isAccepting, StateSet.meets_iff, StateSet.meets_iff]
  simp only [rename, StateSet.mem_image]
  constructor
  · rintro ⟨_, ⟨q, hq, rfl⟩, p, hp, heq⟩
    have hpq : p = q := hf (mem_mentioned_of_mem_accepts hp) (hs q hq) heq
    exact ⟨q, hq, hpq ▸ hp⟩
  · rintro ⟨q, hq, hp⟩
    exact ⟨f q, ⟨q, hq, rfl⟩, q, hp, rfl⟩

/-- A member of a set is told from its image, if all members are mentioned. -/
theorem mem_of_mem_image
    {s : StateSet}
    {q : Int}
    (hs : ∀ p ∈ s, p ∈ N.mentioned)
    (hq : q ∈ N.mentioned)
    (hmem : f q ∈ s.image f) :
    q ∈ s := by
  obtain ⟨p, hp, heq⟩ := StateSet.mem_image.mp hmem
  exact hf (hs p hp) hq heq ▸ hp

/-- Images keep sets of mentioned states apart. -/
theorem image_injective
    {s t : StateSet}
    (hs : ∀ q ∈ s, q ∈ N.mentioned)
    (ht : ∀ q ∈ t, q ∈ N.mentioned)
    (heq : s.image f = t.image f) :
    s = t := by
  refine StateSet.ext_mem fun q => ?_
  constructor
  · intro hq
    refine mem_of_mem_image hf ht (hs q hq) ?_
    rw [← heq]
    exact StateSet.mem_image.mpr ⟨q, hq, rfl⟩
  · intro hq
    refine mem_of_mem_image hf hs (ht q hq) ?_
    rw [heq]
    exact StateSet.mem_image.mpr ⟨q, hq, rfl⟩

theorem carries_rename
    (numStates : Int) :
    Carries (StateSet.image f) (fun s => ∀ q ∈ s, q ∈ N.mentioned) N (N.rename f numStates) where
  alphabet_eq := rfl
  startSet_eq := (StateSet.image_singleton f N.start).symm
  empty_eq := StateSet.image_empty f
  start := (startSet_isPartOf_mentioned N).2
  empty := by simp
  closed _ _ _ _ := fun _ hp => mem_mentioned_of_mem_move hp
  move_eq _ hs a _ := move_rename hf hs a
  isAccepting_eq _ hs := isAccepting_rename hf hs
  injective _ _ hs ht heq := image_injective hf hs ht heq

end Renamed

/--
If a renaming takes no two mentioned states to one, the determinization of the renamed automaton is
the determinization with every set replaced by its image.
-/
theorem isImage_determinize_rename
    (N : NFA)
    (f : Int → Int)
    (numStates : Int)
    (hf : Set.InjOn f {q | q ∈ N.mentioned}) :
    DFA.IsImage (StateSet.image f) N.determinize (N.rename f numStates).determinize :=
  (carries_rename hf numStates).isImage_determinize

/-- A renaming that is not injective, but keeps the states 0, 1 and 2 apart and turns their order. -/
theorem isImage_determinize_rename_square :
    ∃ N : NFA,
      N = build 3 ["a", "b"] 0 [2] [⟨0, "a", 1⟩, ⟨0, "a", 2⟩, ⟨1, "b", 0⟩] ∧
      Set.InjOn (fun q : Int => (q - 3) ^ 2) {q | q ∈ N.mentioned} ∧
      N.determinize.states.map (fun s => s.toList) = [[0], [1, 2]] ∧
      DFA.IsImage (StateSet.image fun q => (q - 3) ^ 2) N.determinize
        (N.rename (fun q => (q - 3) ^ 2) 7).determinize := by
  let N := build 3 ["a", "b"] 0 [2] [⟨0, "a", 1⟩, ⟨0, "a", 2⟩, ⟨1, "b", 0⟩]
  have hmentioned : N.mentioned.toList = [0, 1, 2] := by
    decide +kernel
  have hf : Set.InjOn (fun q : Int => (q - 3) ^ 2) {q | q ∈ N.mentioned} := by
    have hmembers : ∀ q ∈ N.mentioned, q = 0 ∨ q = 1 ∨ q = 2 := by
      intro q hq
      simpa [hmentioned] using Std.ExtTreeSet.mem_toList.mpr hq
    intro p hp q hq heq
    rcases hmembers p hp with rfl | rfl | rfl <;> rcases hmembers q hq with rfl | rfl | rfl <;>
      simp_all
  have hstates : N.determinize.states.map (fun s => s.toList) = [[0], [1, 2]] := by
    decide +kernel
  exact ⟨N, rfl, hf, hstates, isImage_determinize_rename N _ 7 hf⟩

end NFA

end Determinization
