import Mathlib.Data.Finset.Powerset
import Determinization.NFA

/-!
# Sets of states as parts of a whole

A set of states is determined by its members, and by the list of its members.  The nonempty
subsets of a set with `n` members are fewer than `2 ^ n`, which bounds every list of such
sets without repetitions.

**Results.** `length_lt_two_pow_size` is the bound.
-/

namespace Determinization
namespace StateSet

theorem ext_mem
    {s t : StateSet}
    (h : ∀ q, q ∈ s ↔ q ∈ t) :
    s = t :=
  Std.ExtTreeSet.ext_mem h

theorem toList_inj
    {s t : StateSet} :
    s.toList = t.toList ↔ s = t := by
  constructor
  · intro h
    exact Std.ExtTreeSet.ext_toList (h ▸ List.Perm.refl _)
  · rintro rfl
    rfl

theorem ne_empty_iff
    {s : StateSet} :
    s ≠ ∅ ↔ ∃ q, q ∈ s := by
  constructor
  · intro hs
    by_contra hnone
    push Not at hnone
    exact hs (ext_mem (by simpa using hnone))
  · rintro ⟨q, hq⟩ rfl
    simp at hq

/-- The set is a nonempty subset of another. -/
def IsPartOf (s whole : StateSet) : Prop :=
  s ≠ ∅ ∧ ∀ q ∈ s, q ∈ whole

/-- The members of a set, as a finite set of integers. -/
def members (s : StateSet) : Finset Int :=
  s.toList.toFinset

@[simp] theorem mem_members
    {s : StateSet}
    {q : Int} :
    q ∈ s.members ↔ q ∈ s := by
  simp [members, Std.ExtTreeSet.mem_toList]

theorem members_injective :
    Function.Injective members := by
  intro s t h
  refine ext_mem fun q => ?_
  rw [← mem_members, h, mem_members]

@[simp] theorem card_members
    (s : StateSet) :
    s.members.card = s.size := by
  have hnodup : s.toList.Nodup :=
    (pairwise_lt_toList s).imp fun h => Int.ne_of_lt h
  rw [members, List.toFinset_card_of_nodup hnodup, Std.ExtTreeSet.length_toList]

/-- A set of size `n` has fewer than `2 ^ n` nonempty subsets. -/
theorem length_lt_two_pow_size
    {whole : StateSet}
    {sets : List StateSet}
    (hnodup : sets.Nodup)
    (hparts : ∀ s ∈ sets, s.IsPartOf whole) :
    sets.length < 2 ^ whole.size := by
  have hcard : (sets.map members).toFinset.card = sets.length := by
    rw [List.toFinset_card_of_nodup (hnodup.map members_injective), List.length_map]
  have hsubset : (sets.map members).toFinset ⊆ whole.members.powerset.erase ∅ := by
    intro part hpart
    simp only [List.mem_toFinset, List.mem_map] at hpart
    obtain ⟨s, hs, rfl⟩ := hpart
    obtain ⟨hne, hsub⟩ := hparts s hs
    obtain ⟨q, hq⟩ := ne_empty_iff.mp hne
    refine Finset.mem_erase.mpr ⟨Finset.ne_empty_of_mem (mem_members.mpr hq), ?_⟩
    refine Finset.mem_powerset.mpr fun p hp => ?_
    exact mem_members.mpr (hsub p (mem_members.mp hp))
  have hle := Finset.card_le_card hsubset
  rw [hcard, Finset.card_erase_of_mem (Finset.empty_mem_powerset _), Finset.card_powerset,
    card_members] at hle
  have hpos : 0 < 2 ^ whole.size := Nat.two_pow_pos _
  omega

end StateSet

end Determinization
