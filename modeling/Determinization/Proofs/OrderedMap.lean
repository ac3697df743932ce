import Mathlib.Data.List.Nodup
import Determinization.OrderedMap
import Determinization.Proofs.FirstOccurrences

/-!
# Lookups in ordered maps, and tables of functions

A lookup in an ordered map sees its entries and not their order, so it is a lookup in the map without
its order.  Two maps are equal without their order if the entries of one are those of the other in
some order.

The table of a function on a list of keys is the ordered map that arises by inserting the key
and its value for each key of the list.  A repeated key is inserted again with the same value,
which changes nothing.

**Results.** `get?_eq_some_iff` and `getElem?_forgetOrder` say what a lookup sees, and
`forgetOrder_eq_iff_perm` what is left of a map without its order.  `entries_ofList_map` lists the
entries of a table, each key at its first place, and `get?_ofList_map` says what a lookup in a table
sees.
-/

namespace Determinization
namespace OrderedMap

universe u v w

variable {κ : Type u} {ν : Type v} [DecidableEq κ]

/-- If no key is repeated, an entry is found under its key. -/
theorem find?_eq_some_iff
    {entries : List (κ × ν)}
    (hnodup : (entries.map Prod.fst).Nodup)
    {k : κ}
    {v : ν} :
    find? k entries = some v ↔ (k, v) ∈ entries := by
  induction entries with
  | nil => simp [find?]
  | cons entry rest ih =>
      obtain ⟨key, value⟩ := entry
      obtain ⟨hnew, hrest⟩ := List.nodup_cons.mp hnodup
      by_cases hkey : key = k
      · subst hkey
        have hlater : (key, v) ∉ rest := fun hmem =>
          hnew (List.mem_map.mpr ⟨_, hmem, rfl⟩)
        simp [find?, hlater, eq_comm]
      · have hkey' : ¬ k = key := fun h => hkey h.symm
        simp [find?, hkey, hkey', ih hrest]

/-- A lookup sees the entries of a map. -/
theorem get?_eq_some_iff
    {m : OrderedMap κ ν}
    {k : κ}
    {v : ν} :
    m.get? k = some v ↔ (k, v) ∈ m.entries :=
  find?_eq_some_iff m.nodup_keys

theorem get?_eq_none_iff
    {m : OrderedMap κ ν}
    {k : κ} :
    m.get? k = none ↔ k ∉ m.keys := by
  rw [Option.eq_none_iff_forall_ne_some]
  simp [get?_eq_some_iff, keys]

theorem get?_mapValues
    {μ : Type w}
    (f : ν → μ)
    (m : OrderedMap κ ν)
    (k : κ) :
    (m.mapValues f).get? k = (m.get? k).map f := by
  refine Option.ext fun value => ?_
  simp [get?_eq_some_iff]

section ForgetOrder

variable [Ord κ] [Std.TransOrd κ] [Std.LawfulEqOrd κ]

/-- A lookup does not see the order. -/
theorem getElem?_forgetOrder
    (m : OrderedMap κ ν)
    (k : κ) :
    m.forgetOrder[k]? = m.get? k := by
  cases hvalue : m.get? k with
  | none =>
      refine Std.ExtTreeMap.getElem?_ofList_of_contains_eq_false ?_
      simpa [keys] using get?_eq_none_iff.mp hvalue
  | some v =>
      have hdistinct : m.entries.Pairwise fun entry other => ¬ compare entry.1 other.1 = .eq := by
        refine (List.pairwise_map.mp m.nodup_keys).imp ?_
        intro entry other hne heq
        exact hne (Std.compare_eq_iff_eq.mp heq)
      exact Std.ExtTreeMap.getElem?_ofList_of_mem (k := k) (by simp) hdistinct
        (get?_eq_some_iff.mp hvalue)

theorem mem_forgetOrder_iff
    {m : OrderedMap κ ν}
    {k : κ} :
    k ∈ m.forgetOrder ↔ k ∈ m.keys := by
  rw [Std.ExtTreeMap.mem_iff_isSome_getElem?, getElem?_forgetOrder, Option.isSome_iff_ne_none, Ne,
    get?_eq_none_iff, not_not]

/-- To change a value and forget the order is to forget the order and change the value. -/
theorem forgetOrder_modify
    (m : OrderedMap κ ν)
    (k : κ)
    (f : Option ν → ν) :
    (m.modify k f).forgetOrder = m.forgetOrder.alter k fun value => some (f value) := by
  refine Std.ExtTreeMap.ext_getElem? fun l => ?_
  rw [getElem?_forgetOrder, get?_modify, Std.ExtTreeMap.getElem?_alter, getElem?_forgetOrder,
    getElem?_forgetOrder]
  simp only [Std.compare_eq_iff_eq]

/-- Without their order, maps are equal if one lists the entries of the other in some order. -/
theorem forgetOrder_eq_iff_perm
    {m n : OrderedMap κ ν} :
    m.forgetOrder = n.forgetOrder ↔ m.entries.Perm n.entries := by
  rw [List.perm_ext_iff_of_nodup (List.Nodup.of_map _ m.nodup_keys)
    (List.Nodup.of_map _ n.nodup_keys)]
  constructor
  · rintro h ⟨k, v⟩
    rw [← get?_eq_some_iff, ← get?_eq_some_iff, ← getElem?_forgetOrder, h, getElem?_forgetOrder]
  · intro h
    refine Std.ExtTreeMap.ext_getElem? fun k => Option.ext fun v => ?_
    rw [getElem?_forgetOrder, getElem?_forgetOrder, get?_eq_some_iff, get?_eq_some_iff, h]

end ForgetOrder

variable [BEq κ] [LawfulBEq κ]

/-- Putting the value of a function into its table appends a new key only. -/
theorem put_map
    (f : κ → ν)
    (k : κ)
    (keys : List κ) :
    put k (f k) (keys.map fun l => (l, f l))
      =
    if k ∈ keys then
      keys.map fun l => (l, f l)
    else
      (keys ++ [k]).map fun l => (l, f l) := by
  induction keys with
  | nil => simp [put]
  | cons key keys ih =>
      by_cases hkey : key = k
      · subst hkey
        simp [put]
      · have hkey' : ¬ k = key := fun h => hkey h.symm
        simp only [List.map_cons, put, hkey, if_false, ih, List.mem_cons, hkey', false_or]
        split <;> simp

/-- The entries of a table stand in the order of the first occurrences of their keys. -/
theorem entries_ofList_map
    (f : κ → ν)
    (keys : List κ) :
    (ofList (keys.map fun k => (k, f k))).entries
      =
    keys.eraseDups.map fun k => (k, f k) := by
  induction keys using List.reverseRecOn with
  | nil => rfl
  | append_singleton keys k ih =>
      have hlast :
          (ofList ((keys ++ [k]).map fun k => (k, f k))).entries
            =
          put k (f k) (ofList (keys.map fun k => (k, f k))).entries := by
        simp [ofList, insert]
      rw [hlast, ih, put_map, eraseDups_concat]
      simp only [List.mem_eraseDups]
      split <;> rfl

@[simp] theorem keys_ofList_map
    (f : κ → ν)
    (keys : List κ) :
    (ofList (keys.map fun k => (k, f k))).keys = keys.eraseDups := by
  simp [OrderedMap.keys, entries_ofList_map, Function.comp_def]

/-- A lookup in the table of a function sees the value of the function, if the key is there. -/
theorem get?_ofList_map
    (f : κ → ν)
    (keys : List κ)
    (k : κ) [Decidable (k ∈ keys)] :
    (ofList (keys.map fun l => (l, f l))).get? k
      =
    if k ∈ keys then some (f k) else none := by
  classical
  have hfind : ∀ keys : List κ,
      find? k (keys.map fun l => (l, f l)) = if k ∈ keys then some (f k) else none := by
    intro keys
    induction keys with
    | nil => rfl
    | cons key keys ih =>
        by_cases hkey : key = k
        · subst hkey
          simp [find?]
        · have hkey' : ¬ k = key := fun h => hkey h.symm
          simp [find?, hkey, hkey', ih]
  rw [get?, entries_ofList_map, hfind]
  simp

end OrderedMap
end Determinization
