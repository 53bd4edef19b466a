import PodTarget.Command.Run
import PodTarget.Proofs.Selection

/-! Whether a subspec is selected by its own path. A name from which the search
starts is first tried as a name written with the pod in front, and only then taken
as a path. Where it is not read that way it selects the subspec at the path, with
all that is nested there; where it is, it stands for the path that is read. -/

namespace PodTarget.Podspec

open Command

variable {s : Podspec} {requested : List String} {sep : Text.Separator}

theorem reached_of_isRootName {n : String} (h : s.IsRootName requested n) :
    Reached (broughtIn s.name sep s.flatten) ((s.rootNames requested).map (pathOf s.name sep))
      (pathOf s.name sep n) :=
  .root (List.mem_map_of_mem (mem_rootNames.2 h))

theorem reached_of_nested {roots : List String} {p : String} {t : Podspec}
    (h : Reached (broughtIn s.name sep s.flatten) roots p) (hp : p ≠ "") (ht : (p, t) ∈ s.subtrees)
    {e : String × Podspec} (he : e ∈ t.nested p) :
    Reached (broughtIn s.name sep s.flatten) roots e.1 :=
  .step h (mem_broughtIn.2
    (Or.inl ⟨mem_paths (mem_subtrees_of_nested ht he), below_of_nested hp he⟩))

/-- What is selected has the subspec at a path, with all that is nested there. An
empty path is in front of no other one. -/
def SelectsAt (s : Podspec) (requested : List String) (sep : Text.Separator) (p : String) : Prop :=
  ∃ kept : List (String × Podspec), kept.Sublist s.subtrees ∧
    s.select requested sep = kept.map (·.2.declaration) ∧
      ∀ t, (p, t) ∈ s.subtrees → (p, t) ∈ kept ∧ (p ≠ "" → ∀ e ∈ t.nested p, e ∈ kept)

theorem selectsAt_of_isRootName {n : String} (h : s.IsRootName requested n) :
    s.SelectsAt requested sep (pathOf s.name sep n) := by
  obtain ⟨kept, hsub, hmem, hsel⟩ := s.exists_select_eq_map requested sep
  have hreached : Reached (broughtIn s.name sep s.flatten) _ (pathOf s.name sep n) :=
    reached_of_isRootName h
  refine ⟨kept, hsub, hsel, fun t ht => ⟨(hmem _).2 ⟨ht, hreached⟩, fun hp e he => ?_⟩⟩
  exact (hmem e).2 ⟨mem_subtrees_of_nested ht he, reached_of_nested hreached hp ht he⟩

/-- A request for one subspec gets a target exactly if what its name is read as is
the path of a subspec. -/
theorem exists_text_iff {r : Request} {o : Options} {name : String} (hr : r.subspecs = [name]) :
    (∃ text, r.text s o = .ok text) ↔ pathOf s.name o.separator name ∈ s.paths := by
  have hknown : firstUnknown? s o.separator r.subspecs = none ↔
      pathOf s.name o.separator name ∈ s.paths := by
    rw [hr, firstUnknown?, List.find?_singleton]
    simp [paths]
  rw [← hknown, Request.text]
  cases firstUnknown? s o.separator r.subspecs with
  | none => cases r.format <;> simp
  | some unknown => simp

theorem pathOf_of_eq_none {pod name : String} (h : localPath? pod name sep = none) :
    pathOf pod sep name = name := by
  rw [pathOf, h, Option.getD_none]

theorem pathOf_of_eq_some {pod name q : String} (h : localPath? pod name sep = some q) :
    pathOf pod sep name = q := by
  rw [pathOf, h, Option.getD_some]

theorem select_eq_of_reached (h : ∀ e ∈ s.subtrees, Reached (broughtIn s.name sep s.flatten)
      ((s.rootNames requested).map (pathOf s.name sep)) e.1) :
    s.select requested sep = s.flatten.map (·.2) := by
  rw [select_eq_filter, List.filter_eq_self.2]
  rintro ⟨p, d⟩ hp
  obtain ⟨t, ht, -⟩ := mem_flatten_iff.1 hp
  rw [decide_eq_true_eq, mem_chosenPaths_broughtIn]
  exact h _ ht

/-- Nothing is left out where every direct subspec is found by its name. One
without a name is not in front of what is nested in it. -/
theorem select_nil_eq (hdefault : s.declaration.defaultSubspecs = [])
    (h : ∀ t ∈ s.subspecs, localPath? s.name t.name sep = none ∧ (t.name = "" → t.subspecs = [])) :
    s.select [] sep = s.flatten.map (·.2) := by
  refine select_eq_of_reached fun e he => ?_
  obtain ⟨t, ht, htop, hte⟩ := exists_direct he
  obtain ⟨hlocal, hempty⟩ := h t ht
  have hroot : Reached (broughtIn s.name sep s.flatten)
      ((s.rootNames []).map (pathOf s.name sep)) t.name := by
    have hname : s.IsRootName [] t.name := Or.inr ⟨rfl, Or.inr ⟨hdefault, t, ht, rfl⟩⟩
    rw [← pathOf_of_eq_none hlocal]
    exact reached_of_isRootName hname
  rcases hte with rfl | hte
  · exact hroot
  · by_cases hne : t.name = ""
    · rw [nested, hempty hne, subtreesAll] at hte
      exact absurd hte List.not_mem_nil
    · exact reached_of_nested hroot hne htop hte

/-- A subspec is selected by its own path, unless that is read as a name with the
pod in front: then it stands for the path that is read. With nothing requested and
no defaults, so is each direct subspec by its name. -/
theorem select_own_path (s : Podspec) (sep : String) :
    (∀ p ∈ s.paths, localPath? s.name p (.ofString sep) = none →
      s.SelectsAt [p] (.ofString sep) p ∧
        ∀ (r : Request) (o : Options), r.subspecs = [p] → o.subspecSeparator = sep →
          ∃ text, r.text s o = .ok text) ∧
    (∀ p q, localPath? s.name p (.ofString sep) = some q →
      s.SelectsAt [p] (.ofString sep) q ∧
        ∀ (r : Request) (o : Options), r.subspecs = [p] → o.subspecSeparator = sep →
          ((∃ text, r.text s o = .ok text) ↔ q ∈ s.paths)) ∧
    (s.declaration.defaultSubspecs = [] →
      (∀ t ∈ s.subspecs, localPath? s.name t.name (.ofString sep) = none →
        s.SelectsAt [] (.ofString sep) t.name) ∧
      ((∀ t ∈ s.subspecs, localPath? s.name t.name (.ofString sep) = none ∧
          (t.name = "" → t.subspecs = [])) →
        s.select [] (.ofString sep) = s.flatten.map (·.2))) := by
  have hrequested (p : String) :
      s.SelectsAt [p] (.ofString sep) (pathOf s.name (.ofString sep) p) :=
    selectsAt_of_isRootName (Or.inl (List.mem_singleton_self p))
  refine ⟨fun p hp hlocal => ?_, fun p q hlocal => ?_, fun hdefault => ⟨fun t ht hlocal => ?_, ?_⟩⟩
  · have hselected := hrequested p
    rw [pathOf_of_eq_none hlocal] at hselected
    refine ⟨hselected, fun r o hr ho => (exists_text_iff hr).2 ?_⟩
    rw [Options.separator, ho, pathOf_of_eq_none hlocal]
    exact hp
  · have hselected := hrequested p
    rw [pathOf_of_eq_some hlocal] at hselected
    refine ⟨hselected, fun r o hr ho => ?_⟩
    rw [exists_text_iff hr, Options.separator, ho, pathOf_of_eq_some hlocal]
  · have hname : s.IsRootName [] t.name := Or.inr ⟨rfl, Or.inr ⟨hdefault, t, ht, rfl⟩⟩
    rw [← pathOf_of_eq_none hlocal]
    exact selectsAt_of_isRootName hname
  · exact select_nil_eq hdefault

def layered : Podspec :=
  ⟨.named "Foo", [⟨.named "Core", [⟨.named "Extras", []⟩]⟩, ⟨.named "UI", []⟩]⟩

def requestFor (name : String) : Request :=
  ⟨"Foo.podspec.json", [name], [], [], none, none, .starlark, false, none, none⟩

theorem select_own_path_layered :
    "Core/Extras" ∈ layered.paths ∧ localPath? layered.name "Core/Extras" (.ofString "/") = none ∧
    layered.SelectsAt ["Core/Extras"] (.ofString "/") "Core/Extras" ∧
    (∃ text, (requestFor "Core/Extras").text layered .default = .ok text) ∧
    localPath? layered.name "Foo/Core" (.ofString "/") = some "Core" ∧
    layered.SelectsAt ["Foo/Core"] (.ofString "/") "Core" ∧
    layered.declaration.defaultSubspecs = [] ∧
    layered.SelectsAt [] (.ofString "/") "UI" ∧
    layered.select [] (.ofString "/") = layered.flatten.map (·.2) := by
  obtain ⟨hpath, hread, hdefault⟩ := select_own_path layered "/"
  have hp : "Core/Extras" ∈ layered.paths := by decide +kernel
  have hlocal : localPath? layered.name "Core/Extras" (.ofString "/") = none := by decide +kernel
  have hcore : localPath? layered.name "Foo/Core" (.ofString "/") = some "Core" := by
    decide +kernel
  have hnames : ∀ t ∈ layered.subspecs, localPath? layered.name t.name (.ofString "/") = none ∧
      (t.name = "" → t.subspecs = []) := by
    intro t ht
    obtain rfl | rfl : t = ⟨.named "Core", [⟨.named "Extras", []⟩]⟩ ∨ t = ⟨.named "UI", []⟩ := by
      simpa [layered] using ht
    · decide +kernel
    · decide +kernel
  obtain ⟨hselected, haccepted⟩ := hpath _ hp hlocal
  obtain ⟨hui, hall⟩ := hdefault rfl
  exact ⟨hp, hlocal, hselected, haccepted _ _ rfl rfl, hcore, (hread _ _ hcore).1, rfl,
    hui ⟨.named "UI", []⟩ (by simp [layered]) (by decide +kernel), hall hnames⟩

/-- A pod with a subspec that has the pod's own name, and one whose subspecs have a
name that starts like the pod's and none at all. -/
def selfNamed : Podspec := ⟨.named "Foo", [⟨.named "Foo", [⟨.named "Core", []⟩]⟩]⟩

def hyphened : Podspec := ⟨.named "Foo", [⟨.named "Foo-Core", []⟩, ⟨.named "", [⟨.named "Kit", []⟩]⟩]⟩

/-- The path of a subspec may be read as another one, which is not there. -/
theorem own_path_selects_nothing :
    selfNamed.paths.Nodup ∧ "Foo/Core" ∈ selfNamed.paths ∧
      selfNamed.select ["Foo/Core"] (.ofString "/") = [] ∧
      (requestFor "Foo/Core").text selfNamed .default =
        .error (.unknownSubspec "Foo" "Foo/Core") ∧
    hyphened.paths.Nodup ∧ hyphened.declaration.defaultSubspecs = [] ∧
      hyphened.flatten.map (·.2.name) = ["Foo-Core", "", "Kit"] ∧
      hyphened.select [] (.ofString "-") = [.named ""] := by
  refine ⟨?_, ?_, ?_, ?_, ?_, rfl, ?_, ?_⟩
  · decide +kernel
  · decide +kernel
  · decide +kernel
  · rfl
  · decide +kernel
  · decide +kernel
  · decide +kernel

end PodTarget.Podspec
