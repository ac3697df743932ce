import Std.Data.ExtTreeMap

/-!
# Finite maps in insertion order

A finite map that lists its keys in the order in which they were first inserted.  Inserting a
value under a key that is present replaces the value and keeps the place of the key.  The map
without its order is an extensional map.

**Results.** `get?_insert` says what a lookup sees after an insertion, and `keys_insert` where
the key stands.
-/

namespace Determinization

universe u v w

/-- The entries of a finite map, each key once, in insertion order. -/
structure OrderedMap (κ : Type u) (ν : Type v) where
  entries : List (κ × ν)
  nodup_keys : (entries.map Prod.fst).Nodup

namespace OrderedMap

variable {κ : Type u} {ν : Type v} {μ : Type w}

def keys (m : OrderedMap κ ν) : List κ :=
  m.entries.map Prod.fst

def values (m : OrderedMap κ ν) : List ν :=
  m.entries.map Prod.snd

def empty : OrderedMap κ ν :=
  ⟨[], by simp⟩

/-- The map without its order. -/
def forgetOrder [Ord κ] [Std.TransOrd κ] (m : OrderedMap κ ν) : Std.ExtTreeMap κ ν :=
  Std.ExtTreeMap.ofList m.entries

@[simp] theorem forgetOrder_empty [Ord κ] [Std.TransOrd κ] :
    (empty : OrderedMap κ ν).forgetOrder = ∅ :=
  rfl

/-- Maps with the same entries in the same order are equal. -/
@[ext] theorem ext
    {m n : OrderedMap κ ν}
    (h : m.entries = n.entries) :
    m = n := by
  cases m
  cases n
  cases h
  rfl

/-- The map with each value replaced by its image, in place. -/
def mapValues
    (f : ν → μ)
    (m : OrderedMap κ ν) :
    OrderedMap κ μ where
  entries := m.entries.map fun entry => (entry.1, f entry.2)
  nodup_keys := by
    rw [List.map_map]
    exact m.nodup_keys

@[simp] theorem entries_mapValues
    (f : ν → μ)
    (m : OrderedMap κ ν) :
    (m.mapValues f).entries = m.entries.map fun entry => (entry.1, f entry.2) :=
  rfl

@[simp] theorem keys_mapValues
    (f : ν → μ)
    (m : OrderedMap κ ν) :
    (m.mapValues f).keys = m.keys := by
  simp [keys]

@[simp] theorem values_mapValues
    (f : ν → μ)
    (m : OrderedMap κ ν) :
    (m.mapValues f).values = m.values.map f := by
  simp [values]

@[simp] theorem mapValues_id
    (m : OrderedMap κ ν) :
    m.mapValues id = m := by
  refine OrderedMap.ext ?_
  simp

instance [DecidableEq κ] [DecidableEq ν] : DecidableEq (OrderedMap κ ν) :=
  fun m n =>
    if h : m.entries = n.entries then
      isTrue (ext h)
    else
      isFalse fun heq => h (congrArg entries heq)

section Lookup

variable [DecidableEq κ]

/-- The value of a key in a list of entries. -/
def find? (k : κ) : List (κ × ν) → Option ν
  | [] => none
  | (key, value) :: rest => if key = k then some value else find? k rest

/-- Put a value under a key: in its place if the key occurs, and else at the end. -/
def put (k : κ) (v : ν) : List (κ × ν) → List (κ × ν)
  | [] => [(k, v)]
  | (key, value) :: rest =>
      if key = k then
        (k, v) :: rest
      else
        (key, value) :: put k v rest

/-- Putting a value changes the keys only by appending a new one. -/
theorem map_fst_put
    (k : κ)
    (v : ν)
    (entries : List (κ × ν)) :
    (put k v entries).map Prod.fst
      =
    if k ∈ entries.map Prod.fst then
      entries.map Prod.fst
    else
      entries.map Prod.fst ++ [k] := by
  induction entries with
  | nil => simp [put]
  | cons entry rest ih =>
      obtain ⟨key, value⟩ := entry
      by_cases hkey : key = k
      · simp [put, hkey]
      · have hkey' : ¬ k = key := fun h => hkey h.symm
        simp only [put, hkey, if_false, List.map_cons, List.mem_cons, hkey', false_or, ih]
        split <;> simp

/-- After a put, the key has the new value and every other key its old one. -/
theorem find?_put
    (k l : κ)
    (v : ν)
    (entries : List (κ × ν)) :
    find? l (put k v entries)
      =
    if k = l then some v else find? l entries := by
  induction entries with
  | nil => simp [put, find?]
  | cons entry rest ih =>
      obtain ⟨key, value⟩ := entry
      by_cases hkey : key = k
      · subst hkey
        by_cases hl : key = l <;> simp [put, find?, hl]
      · by_cases hl : key = l
        · subst hl
          have hkl : ¬ k = key := fun h => hkey h.symm
          simp [put, find?, hkey, hkl]
        · simp [put, find?, hkey, hl, ih]

def get? (m : OrderedMap κ ν) (k : κ) : Option ν :=
  find? k m.entries

/-- Set the value of a key; a new key comes last. -/
def insert (m : OrderedMap κ ν) (k : κ) (v : ν) : OrderedMap κ ν where
  entries := put k v m.entries
  nodup_keys := by
    rw [map_fst_put]
    split
    · exact m.nodup_keys
    · next h =>
        refine List.nodup_append.mpr ⟨m.nodup_keys, by simp, ?_⟩
        intro a ha b hb
        rw [List.mem_singleton.mp hb]
        intro hab
        exact h (hab ▸ ha)

/-- Compute the value of a key from its old one, if there is one; a new key comes last. -/
def modify (m : OrderedMap κ ν) (k : κ) (f : Option ν → ν) : OrderedMap κ ν :=
  m.insert k (f (m.get? k))

/-- The map that arises by inserting the pairs of a list one after the other. -/
def ofList (pairs : List (κ × ν)) : OrderedMap κ ν :=
  pairs.foldl (fun m pair => m.insert pair.1 pair.2) empty

@[simp] theorem get?_empty
    (k : κ) :
    (empty : OrderedMap κ ν).get? k = none :=
  rfl

/-- An insertion changes the value of its key and of no other. -/
theorem get?_insert
    (m : OrderedMap κ ν)
    (k l : κ)
    (v : ν) :
    (m.insert k v).get? l
      =
    if k = l then some v else m.get? l :=
  find?_put k l v m.entries

theorem get?_modify
    (m : OrderedMap κ ν)
    (k l : κ)
    (f : Option ν → ν) :
    (m.modify k f).get? l
      =
    if k = l then some (f (m.get? k)) else m.get? l :=
  m.get?_insert k l _

/-- An insertion keeps the keys in place and appends a new key. -/
theorem keys_insert
    (m : OrderedMap κ ν)
    (k : κ)
    (v : ν) :
    (m.insert k v).keys
      =
    if k ∈ m.keys then m.keys else m.keys ++ [k] :=
  map_fst_put k v m.entries

end Lookup

end OrderedMap

end Determinization
