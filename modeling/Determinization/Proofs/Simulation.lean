import Determinization.Proofs.Accessible

/-!
# Constructions in lockstep

A map of sets of states carries one automaton to another if the moves of images are the images
of moves.  It suffices that this holds of some sets, the start set and the empty set among them,
provided moves do not lead out of these sets and the map takes no two of them to one.  Then
the two constructions run in lockstep: they discover, visit and report a set and its image
at the same time.

**Results.**
* `discoveries_map` and `Carries.queueAfter_map`: one visit discovers the images of what the
  other discovers.
* `Carries.exploration_image`: explorations are carried to explorations.
* `Carries.visits_eq`: the visits of the second construction are the images of those of the first.
* `Carries.isImage_determinize`: the second deterministic automaton is the image of the first, and
  `Carries.edges_eq` says the same of the edges.
-/

namespace Determinization

/-- The visit with each set replaced by its image. -/
def Visit.image
    (g : StateSet → StateSet)
    (v : Visit) :
    Visit :=
  ⟨g v.state, v.row.mapValues g, v.waiting⟩

/-- The move with its source and its target replaced by their images. -/
def Move.image
    (g : StateSet → StateSet)
    (m : Move) :
    Move :=
  ⟨g m.source, m.symbol, g m.target⟩

/--
The second deterministic automaton is the first one with each set replaced by its image: states, rows,
entries of rows and accepting states stand where they stood.
-/
structure DFA.IsImage
    (g : StateSet → StateSet)
    (D E : DFA) :
    Prop where
  states_eq : E.states = D.states.map g
  alphabet_eq : E.alphabet = D.alphabet
  entries_eq :
    E.transitions.entries
      =
    D.transitions.entries.map fun entry => (g entry.1, entry.2.mapValues g)
  start_eq : E.start = g D.start
  accepts_eq : E.accepts = D.accepts.map g

/-- The image under the identity is the automaton itself. -/
theorem DFA.IsImage.eq
    {D E : DFA}
    (h : DFA.IsImage id D E) :
    E = D := by
  obtain ⟨hstates, halphabet, hentries, hstart, haccepts⟩ := h
  have htransitions : E.transitions = D.transitions :=
    OrderedMap.ext (by simpa using hentries)
  rw [List.map_id] at hstates haccepts
  exact DFA.eq_of_parts_eq hstates halphabet htransitions hstart haccepts

namespace NFA

variable {g : StateSet → StateSet} {P : StateSet → Prop} {N M : NFA}

section Discoveries

/-- A map that is injective on the sets met, the empty set included, keeps sets nonempty. -/
theorem isEmpty_map
    {s : StateSet}
    (hinjective : ∀ s t, P s → P t → g s = g t → s = t)
    (hempty : P ∅)
    (hg : g ∅ = ∅)
    (hs : P s) :
    (g s).isEmpty = s.isEmpty := by
  rw [Bool.eq_iff_iff, Std.ExtTreeSet.isEmpty_iff, Std.ExtTreeSet.isEmpty_iff]
  constructor
  · intro h
    exact hinjective s ∅ hs hempty (h.trans hg.symm)
  · rintro rfl
    exact hg

/-- A map that is injective on the sets met, the empty set included, carries discoveries along. -/
theorem discoveries_map
    {known sets : List StateSet}
    (hinjective : ∀ s t, P s → P t → g s = g t → s = t)
    (hempty : P ∅)
    (hg : g ∅ = ∅)
    (hknown : ∀ s ∈ known, P s)
    (hsets : ∀ s ∈ sets, P s) :
    discoveries (known.map g) (sets.map g) = (discoveries known sets).map g := by
  induction sets generalizing known with
  | nil => rfl
  | cons s sets ih =>
      obtain ⟨hs, hsets⟩ := List.forall_mem_cons.mp hsets
      have hisEmpty : (g s).isEmpty = s.isEmpty := isEmpty_map hinjective hempty hg hs
      have hmem : g s ∈ known.map g ↔ s ∈ known := by
        rw [List.mem_map]
        constructor
        · rintro ⟨t, ht, heq⟩
          exact hinjective t s (hknown t ht) hs heq ▸ ht
        · exact fun h => ⟨s, h, rfl⟩
      simp only [List.map_cons, discoveries, hisEmpty, hmem]
      split
      · exact ih hknown hsets
      · rw [← List.map_cons, ih (List.forall_mem_cons.mpr ⟨hs, hknown⟩) hsets, List.map_cons]

end Discoveries

/--
A map of sets carries the first automaton to the second on the sets with a property: it takes start
set to start set, empty set to empty set and moves to moves, and keeps sets apart.
-/
structure Carries
    (g : StateSet → StateSet)
    (P : StateSet → Prop)
    (N M : NFA) :
    Prop where
  alphabet_eq : M.alphabet = N.alphabet
  startSet_eq : M.startSet = g N.startSet
  empty_eq : g ∅ = ∅
  start : P N.startSet
  empty : P ∅
  closed : ∀ s, P s → ∀ a ∈ N.alphabet, P (N.move s a)
  move_eq : ∀ s, P s → ∀ a ∈ N.alphabet, M.move (g s) a = g (N.move s a)
  isAccepting_eq : ∀ s, P s → M.isAccepting (g s) = N.isAccepting s
  injective : ∀ s t, P s → P t → g s = g t → s = t

/-- The visits that empty a queue are determined by the sets visited before and the queue. -/
theorem Exploration.unique
    {visited queue : List StateSet}
    {visits others : List Visit}
    (h : N.Exploration visited queue visits)
    (hothers : N.Exploration visited queue others) :
    visits = others := by
  induction h generalizing others with
  | done =>
      cases hothers
      rfl
  | visit _ ih =>
      cases hothers with
      | visit hrest => rw [ih hrest]

namespace Carries

variable {visited queue : List StateSet} {visits : List Visit}

theorem moveRow_eq
    (h : Carries g P N M)
    {s : StateSet}
    (hs : P s) :
    M.moveRow (g s) = (N.moveRow s).mapValues g := by
  refine OrderedMap.ext ?_
  rw [OrderedMap.entries_mapValues, entries_moveRow, entries_moveRow, h.alphabet_eq, List.map_map]
  refine List.map_congr_left fun a ha => ?_
  rw [h.move_eq s hs a (List.mem_eraseDups.mp ha)]
  rfl

theorem of_mem_values
    (h : Carries g P N M)
    {s : StateSet}
    (hs : P s) :
    ∀ t ∈ (N.moveRow s).values, P t := by
  intro t ht
  rw [OrderedMap.values, entries_moveRow, List.map_map, List.mem_map] at ht
  obtain ⟨a, ha, rfl⟩ := ht
  exact h.closed s hs a (List.mem_eraseDups.mp ha)

theorem of_mem_successors
    (h : Carries g P N M)
    {s : StateSet}
    (hs : P s) :
    ∀ t ∈ N.successors s, P t := by
  intro t ht
  obtain ⟨-, a, ha, rfl⟩ := mem_successors_iff.mp ht
  exact h.closed s hs a ha

/-- After a visit of an image the queue holds the images of the other queue. -/
theorem queueAfter_map
    (h : Carries g P N M)
    {s : StateSet}
    (hknown : ∀ t ∈ visited ++ s :: queue, P t) :
    M.queueAfter (visited.map g) (g s) (queue.map g) = (N.queueAfter visited s queue).map g := by
  have hs : P s := hknown s (by simp)
  have hmap := discoveries_map h.injective h.empty h.empty_eq hknown (h.of_mem_values hs)
  rw [List.map_append, List.map_cons] at hmap
  rw [queueAfter, queueAfter, h.moveRow_eq hs, OrderedMap.values_mapValues, hmap, List.map_append]

/-- An exploration is carried to the exploration of the images. -/
theorem exploration_image
    (h : Carries g P N M)
    (hexploration : N.Exploration visited queue visits)
    (hnodup : (visited ++ queue).Nodup)
    (hknown : ∀ s ∈ visited ++ queue, P s) :
    M.Exploration (visited.map g) (queue.map g) (visits.map (Visit.image g)) := by
  induction hexploration with
  | done visited => exact .done _
  | @visit visited queue s visits _ ih =>
      have hs : P s := hknown s (by simp)
      have hqueue := h.queueAfter_map hknown
      have hrest := ih (nodup_append_queueAfter hnodup) fun t ht => by
        rcases (mem_append_queueAfter_iff hnodup).mp ht with ht | ht
        · exact hknown t ht
        · exact h.of_mem_successors hs t ht
      rw [List.map_append, List.map_singleton, ← hqueue] at hrest
      have hvisit := Exploration.visit hrest
      rwa [hqueue, List.length_map, h.moveRow_eq hs] at hvisit

/-- The visits of the second construction are the images of the visits of the first. -/
theorem visits_eq
    (h : Carries g P N M) :
    M.visits = N.visits.map (Visit.image g) := by
  have himage := h.exploration_image (exploration_visits N) (by simp) (by simpa using h.start)
  rw [List.map_nil, List.map_singleton, ← h.startSet_eq] at himage
  exact (exploration_visits M).unique himage

theorem of_mem_states
    (h : Carries g P N M) :
    ∀ s ∈ N.determinize.states, P s :=
  forall_mem_states h.start fun _ hs => h.of_mem_successors hs

/-- The states of the second deterministic automaton are the images of the states of the first. -/
theorem states_eq
    (h : Carries g P N M) :
    M.determinize.states = N.determinize.states.map g := by
  rw [states_determinize, states_determinize, h.visits_eq, List.map_map, List.map_map]
  rfl

/-- The edges of the second deterministic automaton are the images of the edges of the first. -/
theorem edges_eq
    (h : Carries g P N M) :
    M.determinize.edges = N.determinize.edges.map (Move.image g) := by
  have hmoves : ∀ s ∈ N.determinize.states,
      M.determinize.movesFrom (g s) = (N.determinize.movesFrom s).map (Move.image g) := by
    intro s hs
    have hP : P s := h.of_mem_states s hs
    have himage : g s ∈ M.determinize.states := h.states_eq ▸ List.mem_map_of_mem hs
    have hkeep : ∀ a ∈ N.alphabet.eraseDups,
        (!(M.move (g s) a).isEmpty) = !(N.move s a).isEmpty := by
      intro a ha
      have hmem := List.mem_eraseDups.mp ha
      rw [h.move_eq s hP a hmem,
        isEmpty_map h.injective h.empty h.empty_eq (h.closed s hP a hmem)]
    rw [movesFrom_determinize hs, movesFrom_determinize himage, h.alphabet_eq,
      List.filter_congr hkeep, List.map_map]
    refine List.map_congr_left fun a ha => ?_
    have hmem := List.mem_eraseDups.mp (List.mem_filter.mp ha).1
    simp [Move.image, h.move_eq s hP a hmem]
  rw [DFA.edges, DFA.edges, h.states_eq, List.flatMap_map, List.map_flatMap]
  exact List.flatMap_congr hmoves

/-- The second deterministic automaton is the image of the first. -/
theorem isImage_determinize
    (h : Carries g P N M) :
    DFA.IsImage g N.determinize M.determinize := by
  refine ⟨h.states_eq, h.alphabet_eq, ?_, h.startSet_eq, ?_⟩
  · rw [entries_transitions, entries_transitions, h.states_eq, List.map_map, List.map_map]
    refine List.map_congr_left fun s hs => ?_
    simp [h.moveRow_eq (h.of_mem_states s hs)]
  · have haccepts : ∀ s ∈ N.determinize.states, (M.isAccepting ∘ g) s = N.isAccepting s :=
      fun s hs => h.isAccepting_eq s (h.of_mem_states s hs)
    rw [accepts_determinize, accepts_determinize, h.states_eq, List.filter_map,
      List.filter_congr haccepts]

end Carries

end NFA

end Determinization
