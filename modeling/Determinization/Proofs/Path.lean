import Mathlib.Tactic.Common

/-!
# Paths that spell a word

A labelled step leads from a node by a character to a node.  A path follows such steps, and
its labels spell a word.  The nodes may be states of an automaton, sets of states, or texts:
every reading of a word in this library is a path for some step relation.

**Results.** `Path.iff_exists_sequence` says that a path is a sequence of nodes, one more than
characters, and `Path.map_iff` carries paths along a map of nodes that steps respect in both
directions.
-/

namespace Determinization

universe u v

/-- A node is reached from another along steps whose labels spell the word. -/
inductive Path
    {Node : Type u}
    (step : Node → Char → Node → Prop) :
    Node → List Char → Node → Prop
  | stop (node : Node) : Path step node [] node
  | read {source middle target : Node} {c : Char} {word : List Char} :
      step source c middle →
      Path step middle word target →
      Path step source (c :: word) target

namespace Path

variable {Node : Type u} {step : Node → Char → Node → Prop}

@[simp] theorem nil_iff
    {source target : Node} :
    Path step source [] target ↔ source = target := by
  constructor
  · rintro ⟨⟩
    rfl
  · rintro rfl
    exact stop source

@[simp] theorem cons_iff
    {source target : Node}
    {c : Char}
    {word : List Char} :
    Path step source (c :: word) target
      ↔
    ∃ middle, step source c middle ∧ Path step middle word target := by
  constructor
  · rintro ⟨⟩
    exact ⟨_, ‹_›, ‹_›⟩
  · rintro ⟨middle, hstep, hrest⟩
    exact read hstep hrest

/-- A path is a sequence of nodes in which each step reads the next character. -/
theorem iff_exists_sequence
    {source target : Node}
    {word : List Char} :
    Path step source word target
      ↔
    ∃ node : Nat → Node,
      node 0 = source ∧
      (∀ k (hk : k < word.length), step (node k) word[k] (node (k + 1))) ∧
      node word.length = target := by
  constructor
  · intro hpath
    induction hpath with
    | stop source =>
        exact ⟨fun _ => source, rfl, by simp, rfl⟩
    | @read source middle target c word hstep _ ih =>
        obtain ⟨node, hfirst, hsteps, hlast⟩ := ih
        refine ⟨fun k => k.casesOn source node, rfl, ?_, hlast⟩
        intro k hk
        cases k with
        | zero =>
            subst hfirst
            exact hstep
        | succ k => exact hsteps k (by simpa using hk)
  · rintro ⟨node, hfirst, hsteps, hlast⟩
    induction word generalizing source node with
    | nil =>
        simpa using hfirst.symm.trans hlast
    | cons c word ih =>
        have hstep : step source c (node 1) := by
          rw [← hfirst]
          exact hsteps 0 (by simp)
        refine read hstep (ih (fun k => node (k + 1)) rfl ?_ hlast)
        intro k hk
        exact hsteps (k + 1) (by simpa using hk)

/-- If a map of nodes carries the steps of its images back and forth, it carries the paths. -/
theorem map_iff
    {Image : Type v}
    {imageStep : Image → Char → Image → Prop}
    {f : Node → Image}
    (hf : ∀ source c image,
      imageStep (f source) c image ↔ ∃ target, step source c target ∧ f target = image)
    {source : Node}
    {word : List Char}
    {image : Image} :
    Path imageStep (f source) word image
      ↔
    ∃ target, Path step source word target ∧ f target = image := by
  induction word generalizing source with
  | nil => simp
  | cons c word ih =>
      simp only [cons_iff]
      constructor
      · rintro ⟨_, hstep, hrest⟩
        obtain ⟨middle, hread, rfl⟩ := (hf source c _).mp hstep
        obtain ⟨target, hrest, htarget⟩ := ih.mp hrest
        exact ⟨target, ⟨middle, hread, hrest⟩, htarget⟩
      · rintro ⟨target, ⟨middle, hstep, hrest⟩, htarget⟩
        exact ⟨f middle, (hf source c _).mpr ⟨middle, hstep, rfl⟩, ih.mpr ⟨target, hrest, htarget⟩⟩

end Path

end Determinization
