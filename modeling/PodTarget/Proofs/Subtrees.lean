import PodTarget.Podspec.Subspecs

/-! The paths of the subspecs of a pod. Whatever is nested in a subspec is among the
subspecs of the pod, and lies below the path of that subspec if the path is not
empty. -/

namespace PodTarget

/-- A path that goes on after another one with a slash. -/
def Below (q p : String) : Prop := ∃ rest, q = p ++ "/" ++ rest

theorem isBelow_iff {q p : String} : isBelow q p = true ↔ Below q p := by
  rw [isBelow, Option.isSome_iff_exists]
  constructor
  · rintro ⟨t, ht⟩
    rw [Text.after?_eq_some_iff] at ht
    exact ⟨.ofList t, String.toList_injective (by simp [ht])⟩
  · rintro ⟨rest, rfl⟩
    exact ⟨rest.toList, Text.after?_eq_some_iff.2 (by simp)⟩

theorem below_trans {p q r : String} (h : Below q p) (h' : Below r q) : Below r p := by
  obtain ⟨a, rfl⟩ := h
  obtain ⟨b, rfl⟩ := h'
  exact ⟨a ++ "/" ++ b, by simp only [String.append_assoc]⟩

theorem below_childPath {p : String} (hp : p ≠ "") (name : String) : Below (childPath p name) p :=
  ⟨name, by simp [childPath, hp]⟩

theorem childPath_ne_empty {p : String} (hp : p ≠ "") (name : String) : childPath p name ≠ "" := by
  obtain ⟨rest, h⟩ := below_childPath hp name
  simp [h, hp]

namespace Podspec

def paths (s : Podspec) : List String := s.flatten.map (·.1)

theorem paths_eq_map (s : Podspec) : s.paths = s.subtrees.map (·.1) := by
  rw [paths, flatten, List.map_map]
  rfl

theorem mem_paths {s : Podspec} {e : String × Podspec} (he : e ∈ s.subtrees) : e.1 ∈ s.paths := by
  rw [paths_eq_map]
  exact List.mem_map_of_mem he

mutual

theorem mem_subtreesBelow_of_nested : ∀ (s : Podspec) (parent : String) {p : String} {t : Podspec}
    {e : String × Podspec}, (p, t) ∈ subtreesBelow s parent → e ∈ subtreesAll t.subspecs p →
    e ∈ subtreesBelow s parent
  | ⟨d, subspecs⟩, parent, p, t, e, ht, he => by
    rw [subtreesBelow, List.mem_cons] at ht ⊢
    rcases ht with ht | ht
    · obtain ⟨rfl, rfl⟩ := Prod.mk.inj ht
      exact Or.inr he
    · exact Or.inr (mem_subtreesAll_of_nested subspecs _ ht he)

theorem mem_subtreesAll_of_nested : ∀ (ss : List Podspec) (parent : String) {p : String}
    {t : Podspec} {e : String × Podspec}, (p, t) ∈ subtreesAll ss parent →
    e ∈ subtreesAll t.subspecs p → e ∈ subtreesAll ss parent
  | [], _, _, _, _, ht, _ => by simp [subtreesAll] at ht
  | s :: ss, parent, p, t, e, ht, he => by
    rw [subtreesAll, List.mem_append] at ht ⊢
    rcases ht with ht | ht
    · exact Or.inl (mem_subtreesBelow_of_nested s parent ht he)
    · exact Or.inr (mem_subtreesAll_of_nested ss parent ht he)

end

/-- What is nested in a subspec is among the subspecs of the pod. -/
theorem mem_subtrees_of_nested {s : Podspec} {p : String} {t : Podspec} {e : String × Podspec}
    (ht : (p, t) ∈ s.subtrees) (he : e ∈ t.nested p) : e ∈ s.subtrees :=
  mem_subtreesAll_of_nested _ _ ht he

theorem mem_subtreesAll_iff {ss : List Podspec} {parent : String} {e : String × Podspec} :
    e ∈ subtreesAll ss parent ↔ ∃ t ∈ ss, e = (childPath parent t.name, t) ∨
      e ∈ t.nested (childPath parent t.name) := by
  induction ss with
  | nil => simp [subtreesAll]
  | cons t ss ih =>
    obtain ⟨d, subspecs⟩ := t
    rw [subtreesAll, List.mem_append, subtreesBelow, List.mem_cons, ih]
    simp [nested, name]

/-- Every subspec is a direct one, whose path is its name, or nested in one. -/
theorem exists_direct {s : Podspec} {e : String × Podspec} (he : e ∈ s.subtrees) :
    ∃ t ∈ s.subspecs, (t.name, t) ∈ s.subtrees ∧ (e = (t.name, t) ∨ e ∈ t.nested t.name) := by
  obtain ⟨t, ht, hte⟩ := mem_subtreesAll_iff.1 he
  have hpath : childPath "" t.name = t.name := by simp [childPath]
  rw [hpath] at hte
  exact ⟨t, ht, mem_subtreesAll_iff.2 ⟨t, ht, Or.inl (by rw [hpath])⟩, hte⟩

mutual

theorem below_of_mem_subtreesBelow : ∀ (s : Podspec) {parent : String} (_ : parent ≠ "")
    {e : String × Podspec}, e ∈ subtreesBelow s parent → Below e.1 parent
  | ⟨d, subspecs⟩, parent, hp, e, he => by
    have hc := below_childPath hp d.name
    rw [subtreesBelow, List.mem_cons] at he
    rcases he with rfl | he
    · exact hc
    · exact below_trans hc (below_of_mem_subtreesAll subspecs (childPath_ne_empty hp _) he)

theorem below_of_mem_subtreesAll : ∀ (ss : List Podspec) {parent : String} (_ : parent ≠ "")
    {e : String × Podspec}, e ∈ subtreesAll ss parent → Below e.1 parent
  | [], _, _, _, he => by simp [subtreesAll] at he
  | s :: ss, parent, hp, e, he => by
    rw [subtreesAll, List.mem_append] at he
    rcases he with he | he
    · exact below_of_mem_subtreesBelow s hp he
    · exact below_of_mem_subtreesAll ss hp he

end

theorem below_of_nested {t : Podspec} {p : String} (hp : p ≠ "") {e : String × Podspec}
    (he : e ∈ t.nested p) : Below e.1 p := below_of_mem_subtreesAll _ hp he

end Podspec

end PodTarget
