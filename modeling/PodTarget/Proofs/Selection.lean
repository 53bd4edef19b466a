import PodTarget.Proofs.Search
import PodTarget.Proofs.Subtrees

/-! Which subspecs are chosen. The paths chosen are the least set with the roots
that is closed under nesting and under dependencies in the pod; the search finds
all of it and nothing else, as no step loses a path and the bound leaves none queued. -/

namespace PodTarget

open Text

/-- A dependency declared for all platforms or for one of them. -/
def Declaration.DependsOn (d : Declaration) (name : String) : Prop :=
  name ∈ d.attributes.dependencies ∨
    ∃ p s, d.sections.get p = some s ∧ name ∈ s.dependencies

theorem mem_parents {p q : String} (h : Below q p) : p ∈ parents q := by
  obtain ⟨rest, rfl⟩ := h
  rw [parents, List.mem_filterMap]
  refine ⟨p.toList.length, by simp, ?_⟩
  simp

section BroughtIn

variable {pod : String} {sep : Separator} {all : List (String × Declaration)}

theorem mem_broughtIn {p q : String} :
    q ∈ broughtIn pod sep all p ↔ (q ∈ all.map (·.1) ∧ Below q p) ∨
      ∃ e, all.find? (·.1 = p) = some e ∧
        ∃ n ∈ e.2.dependencyNames, localPath? pod n sep = some q := by
  rw [broughtIn, List.mem_append, List.mem_filter, isBelow_iff]
  refine or_congr Iff.rfl ?_
  cases all.find? (·.1 = p) with
  | none => simp
  | some e => simp

/-- Only the paths there are and the texts in front of their slashes bring
anything in, so that the bound of the search covers them. -/
theorem mem_places_of_broughtIn {p : String} (h : broughtIn pod sep all p ≠ []) :
    p ∈ (all.map (·.1)).flatMap fun q => q :: parents q := by
  obtain ⟨q, hq⟩ := List.exists_mem_of_ne_nil _ h
  rw [List.mem_flatMap]
  rcases mem_broughtIn.1 hq with ⟨hq, hb⟩ | ⟨e, he, -⟩
  · exact ⟨q, hq, List.mem_cons_of_mem _ (mem_parents hb)⟩
  · have hp : e.1 = p := by simpa using List.find?_some he
    exact ⟨e.1, List.mem_map_of_mem (List.mem_of_find?_eq_some he), by simp [hp]⟩

theorem find?_eq_some_iff_mem (hd : (all.map (·.1)).Nodup) {e : String × Declaration} :
    all.find? (·.1 = e.1) = some e ↔ e ∈ all := by
  refine ⟨List.mem_of_find?_eq_some, fun he => ?_⟩
  induction all with
  | nil => simp at he
  | cons a all ih =>
    rw [List.map_cons, List.nodup_cons] at hd
    rcases List.mem_cons.1 he with rfl | he
    · simp
    · have ha : a.1 ≠ e.1 := fun h => hd.1 (h ▸ List.mem_map_of_mem he)
      simpa [ha] using ih hd.2 he

end BroughtIn

namespace Podspec

/-- A name from which the choice starts: a requested one, or a default subspec
if nothing is requested, or any direct subspec if there are no defaults either. -/
def IsRootName (s : Podspec) (requested : List String) (n : String) : Prop :=
  n ∈ requested ∨
    requested = [] ∧
      (n ∈ s.declaration.defaultSubspecs ∨
        s.declaration.defaultSubspecs = [] ∧ ∃ t ∈ s.subspecs, t.name = n)

theorem mem_rootNames {s : Podspec} {requested : List String} {n : String} :
    n ∈ s.rootNames requested ↔ s.IsRootName requested n := by
  rw [rootNames, IsRootName]
  cases requested with
  | cons r requested => simp
  | nil =>
    cases s.declaration.defaultSubspecs with
    | cons d defaults => simp
    | nil => simp

/-- The least set of paths that has those of the root names, what lies below a
member, and what the subspec at a member depends on in the pod. -/
inductive Chosen (s : Podspec) (requested : List String) (sep : Separator) : String → Prop
  | root {n : String} (h : s.IsRootName requested n) : Chosen s requested sep (pathOf s.name sep n)
  | nested {p q : String} (h : Chosen s requested sep p) (hq : q ∈ s.paths) (hb : Below q p) :
      Chosen s requested sep q
  | dependency {p q n : String} {t : Podspec} (h : Chosen s requested sep p)
      (ht : (p, t) ∈ s.subtrees) (hn : t.declaration.DependsOn n)
      (hq : localPath? s.name n sep = some q) : Chosen s requested sep q

theorem mem_flatten_iff {s : Podspec} {p : String} {d : Declaration} :
    (p, d) ∈ s.flatten ↔ ∃ t, (p, t) ∈ s.subtrees ∧ t.declaration = d := by
  rw [flatten, List.mem_map]
  constructor
  · rintro ⟨⟨p', t⟩, ht, he⟩
    obtain ⟨rfl, rfl⟩ := Prod.mk.inj he
    exact ⟨t, ht, rfl⟩
  · rintro ⟨t, ht, rfl⟩
    exact ⟨(p, t), ht, rfl⟩

theorem reached_iff_chosen {s : Podspec} (hd : s.paths.Nodup) {requested : List String}
    {sep : Separator} {p : String} :
    Reached (broughtIn s.name sep s.flatten) ((s.rootNames requested).map (pathOf s.name sep)) p ↔
      s.Chosen requested sep p := by
  constructor
  · intro h
    induction h with
    | root hp =>
      obtain ⟨n, hn, rfl⟩ := List.mem_map.1 hp
      exact .root (mem_rootNames.1 hn)
    | @step p q _ hq ih =>
      rcases mem_broughtIn.1 hq with ⟨hq, hb⟩ | ⟨⟨p', d⟩, he, n, hn, hl⟩
      · exact .nested ih hq hb
      · have hp : p' = p := by simpa using List.find?_some he
        subst hp
        obtain ⟨t, ht, rfl⟩ := mem_flatten_iff.1 (List.mem_of_find?_eq_some he)
        exact .dependency ih ht (Declaration.mem_dependencyNames.1 hn) hl
  · intro h
    induction h with
    | root hn => exact .root (List.mem_map_of_mem (mem_rootNames.2 hn))
    | nested _ hq hb ih => exact .step ih (mem_broughtIn.2 (Or.inl ⟨hq, hb⟩))
    | dependency _ ht hn hl ih =>
      have he := (find?_eq_some_iff_mem hd).2 (mem_flatten_iff.2 ⟨_, ht, rfl⟩)
      exact .step ih
        (mem_broughtIn.2 (Or.inr ⟨_, he, _, Declaration.mem_dependencyNames.2 hn, hl⟩))

theorem mem_chosenPaths_broughtIn {s : Podspec} {sep : Separator} {roots : List String}
    {p : String} : p ∈ chosenPaths (broughtIn s.name sep s.flatten) roots s.paths ↔
      Reached (broughtIn s.name sep s.flatten) roots p :=
  mem_chosenPaths fun _ => mem_places_of_broughtIn

/-- What is selected are the subspecs at the paths reached, in their order. -/
theorem exists_selection_eq_map (s : Podspec) (requested : List String) (sep : Separator) :
    ∃ kept : List (String × Podspec), kept.Sublist s.subtrees ∧
      (∀ e, e ∈ kept ↔ e ∈ s.subtrees ∧ Reached (broughtIn s.name sep s.flatten)
        ((s.rootNames requested).map (pathOf s.name sep)) e.1) ∧
      s.selection requested sep = kept.map fun e => { e.2 with subspecs := [] } := by
  refine ⟨s.subtrees.filter fun e => e.1 ∈ chosenPaths (broughtIn s.name sep s.flatten)
    ((s.rootNames requested).map (pathOf s.name sep)) s.paths, List.filter_sublist, ?_, rfl⟩
  intro e
  rw [List.mem_filter, decide_eq_true_eq, mem_chosenPaths_broughtIn]

theorem exists_select_eq_map (s : Podspec) (requested : List String) (sep : Separator) :
    ∃ kept : List (String × Podspec), kept.Sublist s.subtrees ∧
      (∀ e, e ∈ kept ↔ e ∈ s.subtrees ∧ Reached (broughtIn s.name sep s.flatten)
        ((s.rootNames requested).map (pathOf s.name sep)) e.1) ∧
      s.select requested sep = kept.map (·.2.declaration) := by
  obtain ⟨kept, hsub, hmem, hsel⟩ := s.exists_selection_eq_map requested sep
  refine ⟨kept, hsub, hmem, ?_⟩
  rw [select, hsel, List.map_map]
  rfl

theorem select_eq_filter (s : Podspec) (requested : List String) (sep : Separator) :
    s.select requested sep = (s.flatten.filter fun e =>
      e.1 ∈ chosenPaths (broughtIn s.name sep s.flatten)
        ((s.rootNames requested).map (pathOf s.name sep)) s.paths).map (·.2) := by
  simp only [select, selection, paths, flatten, List.filter_map, List.map_map]
  rfl

/-- The subspecs selected are those at the paths of the least set, in the order
of declaration, each once and without its own subspecs. -/
theorem select_eq_chosen_subtrees (s : Podspec) (hd : s.paths.Nodup) (requested : List String)
    (sep : String) :
    ∃ kept : List (String × Podspec), kept.Sublist s.subtrees ∧ (kept.map (·.1)).Nodup ∧
      (∀ e, e ∈ kept ↔ e ∈ s.subtrees ∧ s.Chosen requested (.ofString sep) e.1) ∧
      s.selection requested (.ofString sep) = kept.map fun e => { e.2 with subspecs := [] } := by
  obtain ⟨kept, hsub, hmem, hsel⟩ := s.exists_selection_eq_map requested (.ofString sep)
  refine ⟨kept, hsub, ?_, ?_, hsel⟩
  · rw [paths_eq_map] at hd
    exact hd.sublist (hsub.map _)
  · intro e
    rw [hmem, reached_iff_chosen hd]

def screen : Declaration :=
  (Declaration.named "UI").modifySection .osx ({ · with dependencies := ["Foo::Net"] })

/-- A subspec with a dependency on a subspec that is not there. -/
def net : Podspec :=
  ⟨{ Declaration.named "Net" with
      attributes := { Attributes.empty with dependencies := ["Foo::UI", "Foo::Nope"] } },
    [⟨.named "Cache", []⟩]⟩

def cyclic : Podspec :=
  ⟨{ Declaration.named "Foo" with defaultSubspecs := ["Foo::UI"] },
    [⟨.named "Core", []⟩, ⟨screen, []⟩, net]⟩

theorem select_eq_chosen_subtrees_cyclic :
    cyclic.paths.Nodup ∧
    ∃ kept : List (String × Podspec), kept.Sublist cyclic.subtrees ∧ (kept.map (·.1)).Nodup ∧
      (∀ e, e ∈ kept ↔ e ∈ cyclic.subtrees ∧ cyclic.Chosen [] (.ofString "::") e.1) ∧
      cyclic.selection [] (.ofString "::") = kept.map fun e => { e.2 with subspecs := [] } :=
  ⟨by decide +kernel, select_eq_chosen_subtrees cyclic (by decide +kernel) [] "::"⟩

end Podspec

end PodTarget
