import Determinization.Proofs.AccessWord
import Determinization.Proofs.Accessible

/-!
# The order of discovery

The construction discovers sets in the shortlex order of their access words.  While it runs, the
sets discovered so far are a beginning of that order: they are listed by their access words, and
every set discovered later has an access word behind all of theirs.  A visit keeps this up, since
an undiscovered set whose access word passes the visited set last is discovered by the visit, in
the order of the alphabet, and every other undiscovered set is passed by a later word.

**Results.**
* `pairwise_discoveries`: the order of discovery within one visit.
* `InShortlexOrder.visit`: what a visit preserves.
* `Exploration.pairwise_accessedBefore`: the visited sets are in the order of their access words.
* `states_inShortlexOrder`: so are the states of the deterministic automaton, and no state is
  nearer to the start than one listed before it.
-/

namespace Determinization
namespace NFA

variable {N : NFA}

section Discoveries

theorem mem_discoveries_iff
    {known sets : List StateSet}
    {t : StateSet} :
    t ∈ discoveries known sets
      ↔
    (t ∈ sets ∧ t ≠ ∅) ∧ t ∉ known := by
  rw [discoveries_eq, List.mem_eraseDups]
  simp [List.removeAll, and_assoc, and_comm (a := t ∉ known)]

/--
A set discovered before another is the value of a key that stands before every key of the other.
-/
theorem pairwise_discoveries
    {R : Symbol → Symbol → Prop}
    {keys : List Symbol}
    (hkeys : keys.Pairwise R)
    (f : Symbol → StateSet)
    (known : List StateSet) :
    (discoveries known (keys.map f)).Pairwise fun s t =>
      ∃ a ∈ keys, f a = s ∧ ∀ b ∈ keys, f b = t → R a b := by
  induction keys generalizing known with
  | nil => simp [discoveries]
  | cons key keys ih =>
      obtain ⟨hkey, hrest⟩ := List.pairwise_cons.mp hkeys
      -- A later set is not the value of the first key, which is empty, known or discovered first.
      have hextend : ∀ known : List StateSet,
          f key = ∅ ∨ f key ∈ known →
          (discoveries known (keys.map f)).Pairwise fun s t =>
            ∃ a ∈ key :: keys, f a = s ∧ ∀ b ∈ key :: keys, f b = t → R a b := by
        intro known hfirst
        refine (ih hrest known).imp_of_mem ?_
        rintro s t - ht ⟨a, ha, rfl, hbefore⟩
        obtain ⟨⟨-, hne⟩, hnew⟩ := mem_discoveries_iff.mp ht
        refine ⟨a, List.mem_cons_of_mem key ha, rfl, fun b hb hbt => ?_⟩
        rcases List.mem_cons.mp hb with rfl | hb
        · rcases hfirst with hempty | hknown
          · exact absurd (hbt.symm.trans hempty) hne
          · exact absurd (hbt ▸ hknown) hnew
        · exact hbefore b hb hbt
      simp only [List.map_cons, discoveries]
      split
      · next hskip =>
          refine hextend known ?_
          simpa [Std.ExtTreeSet.isEmpty_iff] using hskip
      · refine List.pairwise_cons.mpr ⟨?_, hextend _ (Or.inr List.mem_cons_self)⟩
        intro t ht
        obtain ⟨-, hnew⟩ := mem_discoveries_iff.mp ht
        refine ⟨key, List.mem_cons_self, rfl, fun b hb hbt => ?_⟩
        rcases List.mem_cons.mp hb with rfl | hb
        · exact absurd (hbt ▸ List.mem_cons_self) hnew
        · exact hkey b hb

theorem values_moveRow
    (N : NFA)
    (s : StateSet) :
    (N.moveRow s).values = N.alphabet.eraseDups.map (N.move s) := by
  rw [OrderedMap.values, entries_moveRow, List.map_map]
  rfl

/-- A visit discovers the successors that are not known. -/
theorem mem_discoveries_moveRow_iff
    {known : List StateSet}
    {s t : StateSet} :
    t ∈ discoveries known (N.moveRow s).values
      ↔
    t ∈ N.successors s ∧ t ∉ known := by
  rw [mem_discoveries_iff]
  simp [successors]

end Discoveries

/-- The access word of one set precedes the access word of another. -/
def AccessedBefore
    (N : NFA)
    (s t : StateSet) :
    Prop :=
  ∃ u v, N.IsAccessWord s u ∧ N.IsAccessWord t v ∧ N.Precedes u v

/--
The discovered sets, visited or waiting, are a beginning of the shortlex order of all nonempty sets
with an access word, and the successors of visited sets are among them.
-/
structure InShortlexOrder
    (N : NFA)
    (visited queue : List StateSet) :
    Prop where
  start_mem : N.startSet ∈ visited ++ queue
  accessible : ∀ s ∈ visited ++ queue, ∃ u, N.IsAccessWord s u
  sorted : (visited ++ queue).Pairwise N.AccessedBefore
  before_others :
    ∀ s ∈ visited ++ queue, ∀ t w,
      t ∉ visited ++ queue → t ≠ ∅ → N.IsAccessWord t w → N.AccessedBefore s t
  closed : ∀ s ∈ visited, ∀ t ∈ N.successors s, t ∈ visited ++ queue

theorem inShortlexOrder_start
    (N : NFA) :
    N.InShortlexOrder [] [N.startSet] where
  start_mem := by simp
  accessible := by
    intro s hs
    rw [List.mem_singleton.mp hs]
    exact ⟨[], isAccessWord_nil N⟩
  sorted := List.pairwise_singleton _ _
  before_others := by
    intro s hs t w ht _ hw
    rw [List.mem_singleton.mp hs]
    refine ⟨[], w, isAccessWord_nil N, hw, precedes_of_length_lt ?_⟩
    refine List.length_pos_iff.mpr ?_
    rintro rfl
    have hstart : N.startSet = t := hw.leadsTo.moveAlong_eq
    exact ht (by simp [hstart])
  closed := by simp

namespace InShortlexOrder

variable {visited queue : List StateSet} {s : StateSet}
  (h : N.InShortlexOrder visited (s :: queue))
include h

/-- The next set to be visited is the first of all nonempty sets that were not visited. -/
theorem eq_or_accessedBefore
    {p : StateSet}
    {v : List Symbol}
    (hne : p ≠ ∅)
    (hv : N.IsAccessWord p v)
    (hunvisited : p ∉ visited) :
    p = s ∨ N.AccessedBefore s p := by
  by_cases hp : p ∈ visited ++ s :: queue
  · have hwaiting : p = s ∨ p ∈ queue := by
      simpa [hunvisited] using hp
    refine hwaiting.imp_right fun hq => ?_
    have hqueue := (List.pairwise_append.mp h.sorted).2.1
    exact (List.pairwise_cons.mp hqueue).1 p hq
  · exact Or.inr (h.before_others s (by simp) p v hp hne hv)

/-- A successor of the next set has an access word. -/
theorem exists_accessWord_of_successor
    {t : StateSet}
    (ht : t ∈ N.successors s) :
    ∃ w, N.IsAccessWord t w := by
  obtain ⟨u, hu⟩ := h.accessible s (by simp)
  obtain ⟨-, a, ha, rfl⟩ := mem_successors_iff.mp ht
  exact exists_isAccessWord (hu.leadsTo.concat ha)

/-- The access word of an undiscovered set extends that of the next set or a later word. -/
theorem accessWord_of_not_mem
    {t : StateSet}
    {u w : List Symbol}
    (hu : N.IsAccessWord s u)
    (ht : t ∉ visited ++ s :: queue)
    (hne : t ≠ ∅)
    (hw : N.IsAccessWord t w) :
    (∃ a ∈ N.alphabet, N.move s a = t ∧ w = u ++ [a])
      ∨
    ∃ v a, N.Precedes u v ∧ w = v ++ [a] := by
  rcases List.eq_nil_or_concat w with rfl | ⟨v, a, rfl⟩
  · have hstart : N.startSet = t := hw.leadsTo.moveAlong_eq
    exact absurd (hstart ▸ h.start_mem) ht
  · rw [List.concat_eq_append] at hw ⊢
    obtain ⟨p, hp, ha, hmove⟩ := hw.of_concat
    have hpne : p ≠ ∅ := by
      rintro rfl
      rw [move_empty] at hmove
      exact hne hmove.symm
    have hunvisited : p ∉ visited := fun hmem =>
      ht (h.closed p hmem t (mem_successors_iff.mpr ⟨hne, a, ha, hmove⟩))
    rcases h.eq_or_accessedBefore hpne hp hunvisited with rfl | ⟨u', v', hu', hv', hbefore⟩
    · exact Or.inl ⟨a, ha, hmove, by rw [hu.unique hp]⟩
    · rw [hu.unique hu', hp.unique hv'] at hbefore
      exact Or.inr ⟨v, a, hbefore, rfl⟩

/-- A discovery of the visit is accessed through the visited set, by its first symbol to it. -/
theorem accessWord_of_successor
    {t : StateSet}
    {u w : List Symbol}
    (hu : N.IsAccessWord s u)
    (ht : t ∉ visited ++ s :: queue)
    (hsuccessor : t ∈ N.successors s)
    (hw : N.IsAccessWord t w) :
    ∃ a ∈ N.alphabet,
      N.move s a = t ∧
      w = u ++ [a] ∧
      ∀ b ∈ N.alphabet, N.move s b = t → N.alphabet.idxOf a ≤ N.alphabet.idxOf b := by
  obtain ⟨hne, c, hc, hct⟩ := mem_successors_iff.mp hsuccessor
  have hextend : ∀ b ∈ N.alphabet, N.move s b = t →
      u ++ [b] = w ∨ N.Precedes w (u ++ [b]) :=
    fun b hb hbt => hw.least _ (hbt ▸ hu.leadsTo.concat hb)
  rcases h.accessWord_of_not_mem hu ht hne hw with ⟨a, ha, hat, rfl⟩ | ⟨v, a, hlater, rfl⟩
  · refine ⟨a, ha, hat, rfl, fun b hb hbt => ?_⟩
    rcases hextend b hb hbt with heq | hless
    · have hba : b = a := by simpa using heq
      rw [hba]
    · exact (precedes_concat_iff.mp hless).le
  · have hless : N.Precedes (u ++ [c]) (v ++ [a]) := hlater.concat c a
    rcases hextend c hc hct with heq | hmore
    · rw [heq] at hless
      exact absurd hless hless.asymm
    · exact absurd hmore hless.asymm

/-- The sets discovered by a visit are in the order of their access words. -/
theorem pairwise_discoveries_moveRow :
    (discoveries (visited ++ s :: queue) (N.moveRow s).values).Pairwise N.AccessedBefore := by
  obtain ⟨u, hu⟩ := h.accessible s (by simp)
  rw [values_moveRow]
  refine (pairwise_discoveries (pairwise_idxOf_eraseDups N.alphabet) (N.move s) _).imp_of_mem ?_
  rintro x y hx hy ⟨a, ha, hax, hbefore⟩
  rw [← values_moveRow, mem_discoveries_moveRow_iff] at hx hy
  obtain ⟨wx, hwx⟩ := h.exists_accessWord_of_successor hx.1
  obtain ⟨wy, hwy⟩ := h.exists_accessWord_of_successor hy.1
  obtain ⟨a', -, -, rfl, hfirst⟩ := h.accessWord_of_successor hu hx.2 hx.1 hwx
  obtain ⟨b, hb, hby, rfl, -⟩ := h.accessWord_of_successor hu hy.2 hy.1 hwy
  refine ⟨_, _, hwx, hwy, precedes_concat_iff.mpr ?_⟩
  have hle := hfirst a (List.mem_eraseDups.mp ha) hax
  have hlt := hbefore b (List.mem_eraseDups.mpr hb) hby
  omega

/-- What a visit discovers comes before all that is still undiscovered after it. -/
theorem successor_accessedBefore
    {r t : StateSet}
    {w : List Symbol}
    (hr : r ∈ N.successors s)
    (hold : r ∉ visited ++ s :: queue)
    (ht : t ∉ visited ++ s :: queue)
    (hno : t ∉ N.successors s)
    (hne : t ≠ ∅)
    (hw : N.IsAccessWord t w) :
    N.AccessedBefore r t := by
  obtain ⟨u, hu⟩ := h.accessible s (by simp)
  obtain ⟨wr, hwr⟩ := h.exists_accessWord_of_successor hr
  obtain ⟨a, -, -, rfl, -⟩ := h.accessWord_of_successor hu hold hr hwr
  rcases h.accessWord_of_not_mem hu ht hne hw with ⟨b, hb, hbt, -⟩ | ⟨v, b, hlater, rfl⟩
  · exact absurd (mem_successors_iff.mpr ⟨hne, b, hb, hbt⟩) hno
  · exact ⟨_, _, hwr, hw, hlater.concat a b⟩

/-- A visit keeps the discovered sets in order. -/
theorem visit
    (hnodup : (visited ++ s :: queue).Nodup) :
    N.InShortlexOrder (visited ++ [s]) (N.queueAfter visited s queue) := by
  have hmem : ∀ t,
      t ∈ (visited ++ [s]) ++ N.queueAfter visited s queue
        ↔
      t ∈ visited ++ s :: queue ∨ t ∈ N.successors s :=
    fun t => mem_append_queueAfter_iff hnodup
  have hsorted : ((visited ++ [s]) ++ N.queueAfter visited s queue).Pairwise N.AccessedBefore := by
    have hknown :
        (visited ++ [s]) ++ N.queueAfter visited s queue
          =
        (visited ++ s :: queue) ++ discoveries (visited ++ s :: queue) (N.moveRow s).values := by
      simp [queueAfter]
    rw [hknown]
    refine List.pairwise_append.mpr ⟨h.sorted, h.pairwise_discoveries_moveRow, ?_⟩
    intro r hr t ht
    obtain ⟨ht, hnew⟩ := mem_discoveries_moveRow_iff.mp ht
    obtain ⟨w, hw⟩ := h.exists_accessWord_of_successor ht
    exact h.before_others r hr t w hnew (mem_successors_iff.mp ht).1 hw
  refine
    { start_mem := (hmem _).mpr (Or.inl h.start_mem)
      accessible := ?_
      sorted := hsorted
      before_others := ?_
      closed := ?_ }
  · intro t ht
    rcases (hmem t).mp ht with ht | ht
    · exact h.accessible t ht
    · exact h.exists_accessWord_of_successor ht
  · intro r hr t w ht hne hw
    rw [hmem, not_or] at ht
    by_cases hold : r ∈ visited ++ s :: queue
    · exact h.before_others r hold t w ht.1 hne hw
    · have hrs : r ∈ N.successors s := ((hmem r).mp hr).resolve_left hold
      exact h.successor_accessedBefore hrs hold ht.1 ht.2 hne hw
  · intro r hr t ht
    rw [hmem]
    rcases List.mem_append.mp hr with hr | hr
    · exact Or.inl (h.closed r hr t ht)
    · exact Or.inr (List.mem_singleton.mp hr ▸ ht)

end InShortlexOrder

/-- The visited sets are in the order of their access words. -/
theorem Exploration.pairwise_accessedBefore
    {visited queue : List StateSet}
    {visits : List Visit}
    (h : N.Exploration visited queue visits)
    (hnodup : (visited ++ queue).Nodup)
    (horder : N.InShortlexOrder visited queue) :
    (visited ++ visits.map Visit.state).Pairwise N.AccessedBefore := by
  induction h with
  | done visited => simpa using horder.sorted
  | visit _ ih =>
      simpa using ih (nodup_append_queueAfter hnodup) (horder.visit hnodup)

theorem pairwise_accessedBefore_states
    (N : NFA) :
    N.determinize.states.Pairwise N.AccessedBefore :=
  (exploration_visits N).pairwise_accessedBefore (by simp) (inShortlexOrder_start N)

/--
Every state of the deterministic automaton has exactly one access word, and the states are listed
in the shortlex order of their access words.  So the lengths of the access words never decrease,
and no state is nearer to the start than one listed before it.
-/
theorem states_inShortlexOrder
    (N : NFA) :
    ∃ access : StateSet → List Symbol,
      (∀ s ∈ N.determinize.states, ∀ w, N.IsAccessWord s w ↔ w = access s) ∧
      N.determinize.states.Pairwise (fun s t => N.Precedes (access s) (access t)) ∧
      N.determinize.states.Pairwise (fun s t => (access s).length ≤ (access t).length) ∧
      N.determinize.states.Pairwise (fun s t =>
        ∀ v, N.LeadsTo v t → ∃ u, N.LeadsTo u s ∧ u.length ≤ v.length) := by
  have hexists : ∀ s ∈ N.determinize.states, ∃ w, N.IsAccessWord s w := by
    intro s hs
    obtain ⟨-, symbols, hsymbols, hmove⟩ := mem_states_iff.mp hs
    exact exists_isAccessWord ⟨hsymbols, hmove⟩
  choose! access haccess using hexists
  have hunique : ∀ s ∈ N.determinize.states, ∀ w, N.IsAccessWord s w ↔ w = access s := by
    intro s hs w
    constructor
    · exact fun hw => (haccess s hs).unique hw
    · rintro rfl
      exact haccess s hs
  have hsorted :
      N.determinize.states.Pairwise fun s t => N.Precedes (access s) (access t) := by
    refine (pairwise_accessedBefore_states N).imp_of_mem ?_
    rintro s t hs ht ⟨u, v, hu, hv, hbefore⟩
    rw [← (hunique s hs u).mp hu, ← (hunique t ht v).mp hv]
    exact hbefore
  refine ⟨access, hunique, hsorted, hsorted.imp fun h => h.length_le, ?_⟩
  refine hsorted.imp_of_mem ?_
  intro s t hs ht hbefore v hv
  refine ⟨access s, (haccess s hs).leadsTo, ?_⟩
  have hst : (access s).length ≤ (access t).length := hbefore.length_le
  rcases (haccess t ht).least v hv with rfl | hless
  · exact hst
  · exact hst.trans hless.length_le

end NFA

end Determinization
