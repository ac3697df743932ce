import Mathlib.Data.List.Basic

/-!
# Unique reading of separated texts

Texts are joined by a separator, which may occur in other places as well.  The join can be
read in one way only if each text is determined by what follows: the separator or the end.
Two kinds of texts are such: texts without the first character of the separator, and texts of
which none is a proper beginning of another.

**Results.** `intercalate_inj` reads a join back, `intercalate_map_inj` reads back the values whose
texts are joined, `map_inj_of_mem` the values whose texts are listed, and `append_cons_inj` a text that
ends at the first occurrence of a character.
-/

namespace Determinization
namespace Text

universe u v

/-- A text that lacks a character is read back up to the first occurrence of it. -/
theorem append_cons_inj
    {c : Char}
    {x y u v : List Char}
    (hx : c ∉ x)
    (hy : c ∉ y) :
    x ++ c :: u = y ++ c :: v ↔ x = y ∧ u = v := by
  constructor
  · intro h
    induction x generalizing y with
    | nil =>
        cases y with
        | nil => simpa using h
        | cons d y =>
            simp only [List.nil_append, List.cons_append, List.cons.injEq] at h
            exact absurd (h.1 ▸ List.mem_cons_self) hy
    | cons d x ih =>
        cases y with
        | nil =>
            simp only [List.nil_append, List.cons_append, List.cons.injEq] at h
            exact absurd (h.1 ▸ List.mem_cons_self) hx
        | cons e y =>
            simp only [List.cons_append, List.cons.injEq] at h
            have hrest :=
              ih (fun hc => hx (List.mem_cons_of_mem d hc))
                (fun hc => hy (List.mem_cons_of_mem e hc)) h.2
            exact ⟨by rw [h.1, hrest.1], hrest.2⟩
  · rintro ⟨rfl, rfl⟩
    rfl

/-- The rest of a text ends here or goes on with the separator. -/
def EndsOrSeparates
    (separator rest : List Char) :
    Prop :=
  rest = [] ∨ ∃ more, rest = separator ++ more

/-- Texts of a class are determined where the separator or the end follows. -/
def Separable
    (P : List Char → Prop)
    (separator : List Char) :
    Prop :=
  ∀ x y u v,
    P x → P y →
    EndsOrSeparates separator u → EndsOrSeparates separator v →
    x ++ u = y ++ v → x = y

theorem separable_of_not_mem
    {P : List Char → Prop}
    {c : Char}
    {separator : List Char}
    (hP : ∀ x, P x → c ∉ x) :
    Separable P (c :: separator) := by
  rintro x y u v hx hy (rfl | ⟨u, rfl⟩) (rfl | ⟨v, rfl⟩) h
  · simpa using h
  · rw [List.append_nil] at h
    exact absurd (h ▸ by simp) (hP x hx)
  · rw [List.append_nil] at h
    exact absurd (h ▸ by simp) (hP y hy)
  · exact ((append_cons_inj (hP x hx) (hP y hy)).mp h).1

/-- What follows the first text of a join ends or goes on with the separator. -/
theorem endsOrSeparates_flatMap
    (separator : List Char)
    (texts : List (List Char)) :
    EndsOrSeparates separator (texts.flatMap fun x => separator ++ x) := by
  cases texts with
  | nil => exact Or.inl rfl
  | cons x texts =>
      exact Or.inr ⟨x ++ texts.flatMap fun x => separator ++ x, by simp⟩

/-- A join is its first text followed by the others, the separator before each of them. -/
theorem intercalate_cons
    (separator x : List Char)
    (texts : List (List Char)) :
    separator.intercalate (x :: texts)
      =
    x ++ texts.flatMap fun y => separator ++ y := by
  induction texts generalizing x with
  | nil => simp
  | cons y texts ih => simp [ih]

theorem mem_intercalate
    {separator : List Char}
    {texts : List (List Char)}
    {c : Char}
    (h : c ∈ separator.intercalate texts) :
    (∃ x ∈ texts, c ∈ x) ∨ c ∈ separator := by
  cases texts with
  | nil => simp at h
  | cons x texts =>
      rw [intercalate_cons] at h
      simp only [List.mem_append, List.mem_flatMap] at h
      rcases h with hx | ⟨y, hy, hseparator | hmem⟩
      · exact Or.inl ⟨x, List.mem_cons_self, hx⟩
      · exact Or.inr hseparator
      · exact Or.inl ⟨y, List.mem_cons_of_mem x hy, hmem⟩

/-- Texts with the separator before each of them are read back. -/
theorem flatMap_separator_inj
    {P : List Char → Prop}
    {separator : List Char}
    (hP : Separable P separator)
    (hseparator : separator ≠ [])
    {xs ys : List (List Char)}
    (hxs : ∀ x ∈ xs, P x)
    (hys : ∀ y ∈ ys, P y)
    (h : (xs.flatMap fun x => separator ++ x) = ys.flatMap fun y => separator ++ y) :
    xs = ys := by
  induction xs generalizing ys with
  | nil =>
      cases ys with
      | nil => rfl
      | cons y ys => simp_all
  | cons x xs ih =>
      cases ys with
      | nil => simp_all
      | cons y ys =>
          simp only [List.flatMap_cons, List.append_assoc, List.append_cancel_left_eq] at h
          have hxy : x = y :=
            hP x y _ _ (hxs x List.mem_cons_self) (hys y List.mem_cons_self)
              (endsOrSeparates_flatMap separator xs) (endsOrSeparates_flatMap separator ys) h
          subst hxy
          have hrest : xs = ys :=
            ih (fun z hz => hxs z (List.mem_cons_of_mem x hz))
              (fun z hz => hys z (List.mem_cons_of_mem x hz)) (List.append_cancel_left h)
          rw [hrest]

/-- Nonempty separable texts are read back from their join. -/
theorem intercalate_inj
    {P : List Char → Prop}
    {separator : List Char}
    (hP : Separable P separator)
    (hseparator : separator ≠ [])
    (hne : ∀ x, P x → x ≠ [])
    {xs ys : List (List Char)}
    (hxs : ∀ x ∈ xs, P x)
    (hys : ∀ y ∈ ys, P y)
    (h : separator.intercalate xs = separator.intercalate ys) :
    xs = ys := by
  cases xs with
  | nil =>
      cases ys with
      | nil => rfl
      | cons y ys =>
          rw [intercalate_cons] at h
          exact absurd (List.append_eq_nil_iff.mp h.symm).1 (hne y (hys y List.mem_cons_self))
  | cons x xs =>
      cases ys with
      | nil =>
          rw [intercalate_cons] at h
          exact absurd (List.append_eq_nil_iff.mp h).1 (hne x (hxs x List.mem_cons_self))
      | cons y ys =>
          -- With a separator before the first text the two joins are lists of marked texts.
          refine flatMap_separator_inj hP hseparator hxs hys ?_
          rw [intercalate_cons, intercalate_cons] at h
          simp [h]

/-- Values are read back one by one from a list of texts, each of which determines its value. -/
theorem map_inj_of_mem
    {α : Type u}
    {β : Type v}
    {f g : α → β}
    {xs ys : List α}
    (hfg : ∀ x ∈ xs, ∀ y ∈ ys, f x = g y → x = y)
    (h : xs.map f = ys.map g) :
    xs = ys := by
  induction xs generalizing ys with
  | nil => exact (List.map_eq_nil_iff.mp h.symm).symm
  | cons x xs ih =>
      cases ys with
      | nil => simp at h
      | cons y ys =>
          obtain ⟨hhead, htail⟩ := List.cons.inj h
          have hxy : x = y := hfg x List.mem_cons_self y List.mem_cons_self hhead
          have hrest : xs = ys :=
            ih (fun z hz w hw => hfg z (List.mem_cons_of_mem x hz) w (List.mem_cons_of_mem y hw)) htail
          rw [hxy, hrest]

/-- Values with nonempty separable texts of their own are read back from the join of the texts. -/
theorem intercalate_map_inj
    {α : Type u}
    {f : α → List Char}
    {P : List Char → Prop}
    {separator : List Char}
    (hf : Function.Injective f)
    (hP : Separable P separator)
    (hseparator : separator ≠ [])
    (hne : ∀ x, P x → x ≠ [])
    {xs ys : List α}
    (hxs : ∀ x ∈ xs, P (f x))
    (hys : ∀ y ∈ ys, P (f y))
    (h : separator.intercalate (xs.map f) = separator.intercalate (ys.map f)) :
    xs = ys := by
  have htexts : ∀ zs : List α, (∀ z ∈ zs, P (f z)) → ∀ text ∈ zs.map f, P text := by
    intro zs hzs text htext
    obtain ⟨z, hz, rfl⟩ := List.mem_map.mp htext
    exact hzs z hz
  have hmap : xs.map f = ys.map f :=
    intercalate_inj hP hseparator hne (htexts xs hxs) (htexts ys hys) h
  exact List.map_injective_iff.mpr hf hmap

end Text
end Determinization
