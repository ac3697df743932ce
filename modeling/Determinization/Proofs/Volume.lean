import Mathlib.Tactic.Common
import Determinization.Volume
import Determinization.Proofs.Fallible

/-!
# Following paths

A path leads from a folder through folders to the place that its last name gives.  It can be
opened for writing if nothing stands there or a file does.

**Results.** `placeToWrite_eq_ok_iff` and `readFile_eq_ok_iff` say which paths can be written and
read.  A written file is read back under its path, `readFile_put`, and `node?_put` says that
nothing else changes.
-/

namespace Determinization
namespace Volume

/-- The names lead from one folder to another, through folders. -/
inductive Walk (v : Volume) : Place → List String → Place → Prop
  | stay (folder : Place) :
      Walk v folder [] folder
  | into {folder next last : Place} {name : String} {names : List String} :
      step folder name = .ok next →
      v.node? next = some .folder →
      Walk v next names last →
      Walk v folder (name :: names) last

/-- The folder in which a path begins. -/
def startOf
    (v : Volume)
    (path : String) :
    Place :=
  if (PathParts.ofString path).fromTop then [] else v.workingFolder

/-- The path leads through folders to the place. -/
structure Leads
    (v : Volume)
    (path : String)
    (place : Place) :
    Prop where
  ne_empty : path ≠ ""
  hasNull : hasNull path = false
  length_le : path.utf8ByteSize ≤ maxPathBytes
  walk :
    ∃ folders name last,
      (PathParts.ofString path).names = folders ++ [name] ∧
      v.Walk (v.startOf path) folders last ∧
      step last name = .ok place

/-- The path can be opened for writing, and leads to the place. -/
structure Opens
    (v : Volume)
    (path : String)
    (place : Place) :
    Prop where
  leads : v.Leads path place
  slashAtEnd : (PathParts.ofString path).slashAtEnd = false
  not_folder : v.node? place ≠ some .folder

section Paths

variable {v : Volume}

theorem enter_eq_ok_iff
    {folder last : Place}
    {names : List String} :
    v.enter folder names = .ok last ↔ v.Walk folder names last := by
  induction names generalizing folder with
  | nil =>
      constructor
      · intro h
        cases h
        exact .stay _
      · intro h
        cases h
        rfl
  | cons name names ih =>
      rw [enter, bind_eq_ok_iff]
      constructor
      · rintro ⟨next, hstep, henter⟩
        cases hnode : v.node? next with
        | none => simp [hnode] at henter
        | some node =>
            cases node with
            | file bytes => simp [hnode] at henter
            | folder =>
                rw [hnode] at henter
                exact .into hstep hnode (ih.mp henter)
      · intro h
        cases h with
        | @into _ next _ _ _ hstep hnode hrest =>
            refine ⟨next, hstep, ?_⟩
            rw [hnode]
            exact ih.mpr hrest

/-- A path is followed through folders up to its last name. -/
theorem follow_eq_ok_iff
    {path : String}
    {pathEnd : PathEnd} :
    v.follow path = .ok pathEnd
      ↔
    path ≠ "" ∧
      hasNull path = false ∧
      path.utf8ByteSize ≤ maxPathBytes ∧
      (∃ folders,
        (PathParts.ofString path).names = folders ++ [pathEnd.name] ∧
        v.Walk (v.startOf path) folders pathEnd.folder) ∧
      pathEnd.slashAtEnd = (PathParts.ofString path).slashAtEnd := by
  rw [follow]
  by_cases hempty : path = ""
  · simp [hempty]
  by_cases hnull : hasNull path = true
  · simp [hempty, hnull]
  rw [Bool.not_eq_true] at hnull
  by_cases hlong : maxPathBytes < path.utf8ByteSize
  · have hnot : ¬ path.utf8ByteSize ≤ maxPathBytes := by
      omega
    simp [hempty, hnull, hlong, hnot]
  have hshort : path.utf8ByteSize ≤ maxPathBytes := by
    omega
  simp only [String.isEmpty_iff, hempty, hnull, hlong, Bool.false_eq_true, if_false]
  cases hlast : (PathParts.ofString path).names.getLast? with
  | none =>
      have hnames : (PathParts.ofString path).names = [] := List.getLast?_eq_none_iff.mp hlast
      simp [hnames]
  | some name =>
      obtain ⟨folders, hnames⟩ := List.getLast?_eq_some_iff.mp hlast
      have hfolders : (PathParts.ofString path).names.dropLast = folders := by
        rw [hnames, List.dropLast_concat]
      simp only [hfolders, bind_eq_ok_iff, enter_eq_ok_iff]
      constructor
      · rintro ⟨folder, hwalk, hend⟩
        cases hend
        exact ⟨hempty, trivial, hshort, ⟨folders, hnames, hwalk⟩, rfl⟩
      · rintro ⟨-, -, -, ⟨others, hothers, hwalk⟩, hslash⟩
        obtain ⟨rfl, hname⟩ := List.append_inj' (hnames.symm.trans hothers) rfl
        obtain ⟨folder, last, slash⟩ := pathEnd
        cases hname
        cases hslash
        exact ⟨folder, hwalk, rfl⟩

/-- The place to which a path leads is one step behind the folder of its last name. -/
theorem leads_iff
    {path : String}
    {place : Place} :
    v.Leads path place
      ↔
    ∃ pathEnd,
      v.follow path = .ok pathEnd ∧
      step pathEnd.folder pathEnd.name = .ok place := by
  constructor
  · rintro ⟨hne, hnull, hlength, folders, name, last, hnames, hwalk, hstep⟩
    refine ⟨⟨last, name, (PathParts.ofString path).slashAtEnd⟩, ?_, hstep⟩
    exact follow_eq_ok_iff.mpr ⟨hne, hnull, hlength, ⟨folders, hnames, hwalk⟩, rfl⟩
  · rintro ⟨pathEnd, hfollow, hstep⟩
    obtain ⟨hne, hnull, hlength, ⟨folders, hnames, hwalk⟩, -⟩ := follow_eq_ok_iff.mp hfollow
    exact ⟨hne, hnull, hlength, folders, pathEnd.name, pathEnd.folder, hnames, hwalk, hstep⟩

theorem slashAtEnd_of_follow
    {path : String}
    {pathEnd : PathEnd}
    (h : v.follow path = .ok pathEnd) :
    pathEnd.slashAtEnd = (PathParts.ofString path).slashAtEnd :=
  (follow_eq_ok_iff.mp h).2.2.2.2

theorem readFile_eq_ok_iff
    {path : String}
    {bytes : List UInt8} :
    v.readFile path = .ok bytes
      ↔
    ∃ place,
      v.Leads path place ∧
      (PathParts.ofString path).slashAtEnd = false ∧
      v.node? place = some (.file bytes) := by
  simp only [readFile, bind_eq_ok_iff, leads_iff]
  constructor
  · rintro ⟨pathEnd, hfollow, place, hstep, hread⟩
    refine ⟨place, ⟨pathEnd, hfollow, hstep⟩, ?_⟩
    rw [← slashAtEnd_of_follow hfollow]
    cases hnode : v.node? place with
    | none => simp [hnode] at hread
    | some node =>
        cases node with
        | folder => simp [hnode] at hread
        | file content =>
            cases hslash : pathEnd.slashAtEnd with
            | true => simp [hnode, hslash] at hread
            | false => simpa [hnode, hslash] using hread
  · rintro ⟨place, ⟨pathEnd, hfollow, hstep⟩, hslash, hnode⟩
    rw [← slashAtEnd_of_follow hfollow] at hslash
    refine ⟨pathEnd, hfollow, place, hstep, ?_⟩
    simp [hnode, hslash]

theorem placeToWrite_eq_ok_iff
    {path : String}
    {place : Place} :
    v.placeToWrite path = .ok place ↔ v.Opens path place := by
  rw [placeToWrite, bind_eq_ok_iff]
  constructor
  · rintro ⟨pathEnd, hfollow, hplace⟩
    cases hslash : pathEnd.slashAtEnd with
    | true => simp [hslash] at hplace
    | false =>
        simp only [hslash, Bool.false_eq_true, if_false, bind_eq_ok_iff] at hplace
        obtain ⟨target, hstep, hnode⟩ := hplace
        have hsame : target = place ∧ v.node? target ≠ some .folder := by
          cases hfound : v.node? target with
          | none => simpa [hfound] using hnode
          | some node =>
              cases node with
              | folder => simp [hfound] at hnode
              | file bytes => simpa [hfound] using hnode
        obtain ⟨rfl, hfolder⟩ := hsame
        exact
          { leads := leads_iff.mpr ⟨pathEnd, hfollow, hstep⟩
            slashAtEnd := slashAtEnd_of_follow hfollow ▸ hslash
            not_folder := hfolder }
  · rintro ⟨hleads, hslash, hfolder⟩
    obtain ⟨pathEnd, hfollow, hstep⟩ := leads_iff.mp hleads
    rw [← slashAtEnd_of_follow hfollow] at hslash
    refine ⟨pathEnd, hfollow, ?_⟩
    simp only [hslash, Bool.false_eq_true, if_false, bind_eq_ok_iff]
    refine ⟨place, hstep, ?_⟩
    cases hfound : v.node? place with
    | none => rfl
    | some node =>
        cases node with
        | folder => exact absurd hfound hfolder
        | file bytes => rfl

end Paths

section NullCharacter

variable {v : Volume} {path : String}

theorem step_ne_null
    (folder : Place)
    (name : String) :
    step folder name ≠ .error .nullCharacter := by
  unfold step
  split_ifs <;> simp

theorem enter_ne_null
    (folder : Place)
    (names : List String) :
    v.enter folder names ≠ .error .nullCharacter := by
  induction names generalizing folder with
  | nil => simp [enter]
  | cons name names ih =>
      intro h
      rw [enter, bind_eq_error_iff] at h
      rcases h with hstep | ⟨next, -, henter⟩
      · exact step_ne_null folder name hstep
      · cases hnode : v.node? next with
        | none => simp [hnode] at henter
        | some node =>
            cases node with
            | file bytes => simp [hnode] at henter
            | folder => exact ih next (by simpa [hnode] using henter)

/-- The character zero is what is found first, and nothing else is taken for it. -/
theorem follow_eq_null_iff :
    v.follow path = .error .nullCharacter ↔ hasNull path = true := by
  unfold follow
  by_cases hempty : path = ""
  · subst hempty
    simp [hasNull]
  by_cases hnull : hasNull path = true
  · simp [hempty, hnull]
  by_cases hlong : maxPathBytes < path.utf8ByteSize
  · simp [hempty, hnull, hlong]
  simp only [String.isEmpty_iff, hempty, hnull, hlong, Bool.false_eq_true, if_false, iff_false]
  cases (PathParts.ofString path).names.getLast? with
  | none => simp
  | some name =>
      rw [bind_eq_error_iff]
      rintro (henter | ⟨folder, -, hend⟩)
      · exact enter_ne_null _ _ henter
      · cases hend

theorem readFile_eq_null_iff :
    v.readFile path = .error .nullCharacter ↔ hasNull path = true := by
  rw [readFile, bind_eq_error_iff, follow_eq_null_iff, or_iff_left_iff_imp]
  rintro ⟨pathEnd, -, h⟩
  exfalso
  rcases bind_eq_error_iff.mp h with hstep | ⟨place, -, hread⟩
  · exact step_ne_null _ _ hstep
  · split at hread
    · simp at hread
    · simp at hread
    · split_ifs at hread
      simp at hread

theorem writeFile_eq_null_iff
    {bytes : List UInt8} :
    v.writeFile path bytes = .error .nullCharacter ↔ hasNull path = true := by
  have hput : ∀ place, (pure (v.put place (.file bytes)) : Except PathFault Volume)
      ≠ .error .nullCharacter := by
    intro place h
    cases h
  simp only [writeFile, placeToWrite, bind_eq_error_iff, follow_eq_null_iff, hput, and_false,
    exists_false, or_false, or_iff_left_iff_imp]
  rintro ⟨pathEnd, -, h⟩
  exfalso
  split_ifs at h
  · simp at h
  · rcases bind_eq_error_iff.mp h with hstep | ⟨place, -, hplace⟩
    · exact step_ne_null _ _ hstep
    · split at hplace <;> simp at hplace

end NullCharacter

section Writing

variable {v : Volume} {place : Place} {node : Node}

/-- Putting a node changes what stands at its place and nothing else. -/
theorem node?_put
    (hplace : place ≠ [])
    (other : Place) :
    (v.put place node).node? other = if place = other then some node else v.node? other := by
  by_cases htop : other = []
  · subst htop
    simp [node?, hplace]
  · simp only [node?, put, htop, if_false, OrderedMap.get?_insert]

/-- There is no file at the top. -/
theorem Opens.place_ne_nil
    {path : String}
    (h : v.Opens path place) :
    place ≠ [] := by
  rintro rfl
  exact h.not_folder (by simp [node?])

/-- A way through folders stays open when a node is put where no folder stands. -/
theorem Walk.put
    (hplace : place ≠ [])
    (hfolder : v.node? place ≠ some .folder)
    {folder last : Place}
    {names : List String}
    (h : v.Walk folder names last) :
    (v.put place node).Walk folder names last := by
  induction h with
  | stay folder => exact .stay folder
  | @into folder next last name names hstep hnode _ ih =>
      have hother : place ≠ next := by
        rintro rfl
        exact hfolder hnode
      refine .into hstep ?_ ih
      rw [node?_put hplace, if_neg hother]
      exact hnode

/-- A written file is read back under the path under which it was written. -/
theorem readFile_put
    {path : String}
    {bytes : List UInt8}
    (h : v.Opens path place) :
    (v.put place (.file bytes)).readFile path = .ok bytes := by
  obtain ⟨hne, hnull, hlength, folders, name, last, hnames, hwalk, hstep⟩ := h.leads
  have hput : (v.put place (.file bytes)).Walk (v.startOf path) folders last :=
    hwalk.put h.place_ne_nil h.not_folder
  refine readFile_eq_ok_iff.mpr ⟨place, ?_, h.slashAtEnd, ?_⟩
  · exact ⟨hne, hnull, hlength, folders, name, last, hnames, hput, hstep⟩
  · rw [node?_put h.place_ne_nil, if_pos rfl]

/-- A file is written by putting it at the place to which its path leads. -/
theorem writeFile_eq_ok_iff
    {path : String}
    {bytes : List UInt8}
    {after : Volume} :
    v.writeFile path bytes = .ok after
      ↔
    ∃ place, v.Opens path place ∧ v.put place (.file bytes) = after := by
  simp only [writeFile, bind_eq_ok_iff, placeToWrite_eq_ok_iff]
  refine exists_congr fun place => and_congr_right fun _ => ?_
  exact ⟨Except.ok.inj, congrArg Except.ok⟩

end Writing

end Volume
end Determinization
