import Mathlib.Data.List.Forall2
import Mathlib.Data.List.Nodup
import PodTarget.Proofs.FileNames
import PodTarget.Vendored.Artifact

/-! What vendored binaries are sorted into. What a path becomes is told from its
extension and from what the probe says of it, so that no path becomes two things,
and what is made of a set of paths stands in the order of the paths. -/

namespace PodTarget

def Artifact.path : Artifact → String
  | staticLibrary p => p
  | staticFramework p => p
  | dynamicFramework p => p
  | xcframework x => x.path

/-- The only slice of a dynamic framework that is taken as a bundle. -/
def onlySlice (p : Platform) (archs : List String) (file : String) : Slice where
  identifier := p.id ++ "-" ++ String.intercalate "_" archs
  platform := p
  variant := none
  archs := archs
  path := file
  linkage := .dynamic
  packaging := .framework

/-- What a path becomes as a bundle of slices. It is named after its last component. -/
inductive BecomesBundle (probe : Probe) : String → Artifact → Prop
  | readable {path name : String} {slices : List Slice}
      (hext : Glob.extension? path = some "xcframework")
      (hname : EndsIn path.toList (name ++ "." ++ "xcframework").toList)
      (hslices : probe.slices path = some slices) :
      BecomesBundle probe path (.xcframework ⟨name, path, slices⟩)

/-- What a path becomes as a framework: a bundle of one slice if it is dynamic and
has an architecture, a static framework if it is not dynamic. -/
inductive BecomesFramework (probe : Probe) (p : Platform) : String → Artifact → Prop
  | wrapped {path name : String} (hext : Glob.extension? path = some "framework")
      (hname : EndsIn path.toList (name ++ "." ++ "framework").toList)
      (hdynamic : probe.isDynamic path = true) (harchs : probe.archs path ≠ []) :
      BecomesFramework probe p path (.xcframework
        ⟨name, path, [onlySlice p (probe.archs path) (name ++ "." ++ "framework")]⟩)
  | static {path : String} (hext : Glob.extension? path = some "framework")
      (hstatic : probe.isDynamic path = false) :
      BecomesFramework probe p path (.staticFramework path)

inductive BecomesLibrary : String → Artifact → Prop
  | archive {path : String} (hext : Glob.extension? path = some "a") :
      BecomesLibrary path (.staticLibrary path)

/-- A bundle whose slices are known. -/
def Readable (probe : Probe) (path : String) : Prop :=
  Glob.extension? path = some "xcframework" ∧ ∃ slices, probe.slices path = some slices

/-- A framework that is not dynamic or has an architecture. -/
def Usable (probe : Probe) (path : String) : Prop :=
  Glob.extension? path = some "framework" ∧
    (probe.isDynamic path = true → probe.archs path ≠ [])

/-- What those paths of a set become that are used, in the order of the paths and
each once. -/
def InOrder (paths : StringSet) (used : String → Prop) (becomes : String → Artifact → Prop)
    (l : List Artifact) : Prop :=
  ∃ kept : List String, kept.Pairwise (compare · · = .lt) ∧
    (∀ path, path ∈ kept ↔ path ∈ paths ∧ used path) ∧ List.Forall₂ becomes kept l

/-! Each path becomes what the relations say. -/

theorem bundleName_of_endsIn {path name ext : String} (h : Glob.extension? path = some ext)
    (hext : ext ≠ "") (hname : EndsIn path.toList (name ++ "." ++ ext).toList) :
    bundleName path = name := by
  have heq := Glob.eq_of_endsIn (endsIn_of_extension? h hext).1 hname
  rw [String.toList_append, String.toList_append, String.toList_append, String.toList_append,
    List.append_cancel_right_eq, List.append_cancel_right_eq] at heq
  exact String.toList_injective heq

theorem artifactOfBundle?_eq_some_iff {probe : Probe} {path : String} {a : Artifact} :
    artifactOfBundle? probe path = some a ↔ BecomesBundle probe path a := by
  rw [artifactOfBundle?]
  constructor
  · intro h
    split at h
    · next hext =>
      obtain ⟨x, hx, rfl⟩ := Option.map_eq_some_iff.1 h
      obtain ⟨slices, hslices, rfl⟩ := Option.map_eq_some_iff.1 hx
      exact .readable hext (endsIn_of_extension? hext (by decide)).1 hslices
    · nomatch h
  · rintro ⟨hext, hname, hslices⟩
    rw [if_pos hext, bundle?, hslices, bundleName_of_endsIn hext (by decide) hname]
    rfl

theorem isSome_artifactOfBundle? (probe : Probe) (path : String) :
    (artifactOfBundle? probe path).isSome ↔ Readable probe path := by
  rw [artifactOfBundle?, Readable]
  split
  case isTrue hext =>
    rw [Option.isSome_map, bundle?, Option.isSome_map, Option.isSome_iff_exists]
    exact (and_iff_right hext).symm
  case isFalse hext => exact iff_of_false Bool.false_ne_true fun h => hext h.1

theorem wrap?_eq_some_iff {probe : Probe} {p : Platform} {path : String} {x : XcFramework} :
    wrap? probe p path = some x ↔ probe.archs path ≠ [] ∧
      x = ⟨bundleName path, path, [onlySlice p (probe.archs path) (fileNameOr path)]⟩ := by
  rw [wrap?]
  cases probe.archs path with
  | nil => simp
  | cons arch archs => simp [onlySlice, eq_comm]

theorem isSome_wrap? {probe : Probe} {p : Platform} {path : String} :
    (wrap? probe p path).isSome ↔ probe.archs path ≠ [] := by
  rw [Option.isSome_iff_exists]
  simp only [wrap?_eq_some_iff, exists_and_left, exists_eq, and_true]

theorem artifactOfFramework?_eq_some_iff {probe : Probe} {p : Platform} {path : String}
    {a : Artifact} :
    artifactOfFramework? probe p path = some a ↔ BecomesFramework probe p path a := by
  rw [artifactOfFramework?]
  constructor
  · intro h
    split at h
    · next hext =>
      split at h
      · next hdynamic =>
        obtain ⟨x, hx, rfl⟩ := Option.map_eq_some_iff.1 h
        obtain ⟨harchs, rfl⟩ := wrap?_eq_some_iff.1 hx
        obtain ⟨hends, hfile⟩ := endsIn_of_extension? hext (by decide)
        rw [hfile]
        exact .wrapped hext hends hdynamic harchs
      · next hstatic =>
        obtain rfl := Option.some.inj h
        exact .static hext (Bool.eq_false_iff.2 hstatic)
    · nomatch h
  · rintro (⟨hext, hname, hdynamic, harchs⟩ | ⟨hext, hstatic⟩)
    · obtain ⟨-, hfile⟩ := endsIn_of_extension? hext (by decide)
      have hx := wrap?_eq_some_iff (p := p) |>.2 ⟨harchs, rfl⟩
      rw [hfile, bundleName_of_endsIn hext (by decide) hname] at hx
      rw [if_pos hext, if_pos hdynamic, hx, Option.map_some]
    · rw [if_pos hext, hstatic]
      rfl

theorem isSome_artifactOfFramework? (probe : Probe) (p : Platform) (path : String) :
    (artifactOfFramework? probe p path).isSome ↔ Usable probe path := by
  rw [artifactOfFramework?, Usable]
  split
  case isTrue hext =>
    split
    case isTrue hdynamic =>
      rw [Option.isSome_map, isSome_wrap?]
      exact ⟨fun harchs => ⟨hext, fun _ => harchs⟩, fun h => h.2 hdynamic⟩
    case isFalse hstatic => exact iff_of_true rfl ⟨hext, fun h => absurd h hstatic⟩
  case isFalse hext => exact iff_of_false Bool.false_ne_true fun h => hext h.1

theorem artifactOfLibrary?_eq_some_iff {path : String} {a : Artifact} :
    artifactOfLibrary? path = some a ↔ BecomesLibrary path a := by
  rw [artifactOfLibrary?]
  constructor
  · intro h
    split at h
    · next hext =>
      obtain rfl := Option.some.inj h
      exact .archive hext
    · nomatch h
  · rintro ⟨hext⟩
    rw [if_pos hext]

theorem isSome_artifactOfLibrary? (path : String) :
    (artifactOfLibrary? path).isSome ↔ Glob.extension? path = some "a" := by
  rw [artifactOfLibrary?]
  split
  case isTrue hext => exact iff_of_true rfl hext
  case isFalse hext => exact iff_of_false Bool.false_ne_true hext

theorem forall₂_filterMap {α β : Type} {f : α → Option β} {R : α → β → Prop}
    (h : ∀ a b, f a = some b ↔ R a b) (l : List α) :
    List.Forall₂ R (l.filter fun a => (f a).isSome) (l.filterMap f) := by
  induction l with
  | nil => exact .nil
  | cons a l ih =>
    cases hf : f a with
    | none => simpa [hf] using ih
    | some b => simpa [hf] using And.intro ((h a b).1 hf) ih

theorem inOrder_filterMap {f : String → Option Artifact} {used : String → Prop}
    {becomes : String → Artifact → Prop} (hused : ∀ path, (f path).isSome ↔ used path)
    (h : ∀ path a, f path = some a ↔ becomes path a) (paths : StringSet) :
    InOrder paths used becomes (paths.toList.filterMap f) := by
  refine ⟨_, paths.ordered_toList.filter _, fun path => ?_, forall₂_filterMap h _⟩
  rw [List.mem_filter, Std.ExtTreeSet.mem_toList, hused]

theorem mem_classify {probe : Probe} {p : Platform} {frameworks libraries : StringSet}
    {a : Artifact} : a ∈ classify probe p frameworks libraries ↔
      (∃ path ∈ frameworks, BecomesBundle probe path a) ∨
        (∃ path ∈ frameworks, BecomesFramework probe p path a) ∨
          ∃ path ∈ libraries, BecomesLibrary path a := by
  simp only [classify, List.mem_append, List.mem_filterMap, Std.ExtTreeSet.mem_toList,
    artifactOfBundle?_eq_some_iff, artifactOfFramework?_eq_some_iff,
    artifactOfLibrary?_eq_some_iff, or_assoc]

/-! An artifact has the path it was made of, and the extension of the path tells by
which of the relations, so that the paths of all artifacts are different. -/

theorem BecomesBundle.path_eq {probe : Probe} {path : String} {a : Artifact}
    (h : BecomesBundle probe path a) :
    a.path = path ∧ Glob.extension? path = some "xcframework" := by
  obtain ⟨hext, -, -⟩ := h
  exact ⟨rfl, hext⟩

theorem BecomesFramework.path_eq {probe : Probe} {p : Platform} {path : String} {a : Artifact}
    (h : BecomesFramework probe p path a) :
    a.path = path ∧ Glob.extension? path = some "framework" := by
  cases h with
  | wrapped hext => exact ⟨rfl, hext⟩
  | static hext => exact ⟨rfl, hext⟩

theorem BecomesLibrary.path_eq {path : String} {a : Artifact} (h : BecomesLibrary path a) :
    a.path = path ∧ Glob.extension? path = some "a" := by
  obtain ⟨hext⟩ := h
  exact ⟨rfl, hext⟩

section Paths

variable {f : String → Option Artifact} {ext : String}
  (h : ∀ path a, f path = some a → a.path = path ∧ Glob.extension? path = some ext)

include h

theorem sublist_map_path (paths : List String) :
    ((paths.filterMap f).map (·.path)).Sublist paths := by
  induction paths with
  | nil => exact .slnil
  | cons path paths ih =>
    cases hf : f path with
    | none => simpa [hf] using ih.cons path
    | some a => simpa [hf, (h path a hf).1] using ih

theorem nodup_map_path (paths : StringSet) : ((paths.toList.filterMap f).map (·.path)).Nodup :=
  paths.nodup_toList.sublist (sublist_map_path h _)

theorem extension?_of_mem_map_path {paths : List String} {path : String}
    (hp : path ∈ (paths.filterMap f).map (·.path)) : Glob.extension? path = some ext := by
  obtain ⟨a, ha, rfl⟩ := List.mem_map.1 hp
  obtain ⟨path, -, hf⟩ := List.mem_filterMap.1 ha
  obtain ⟨hpath, hext⟩ := h path a hf
  rw [hpath, hext]

end Paths

theorem nodup_map_path_classify (probe : Probe) (p : Platform) (frameworks libraries : StringSet) :
    ((classify probe p frameworks libraries).map (·.path)).Nodup := by
  have hbundle (path : String) (a : Artifact) (h : artifactOfBundle? probe path = some a) :=
    (artifactOfBundle?_eq_some_iff.1 h).path_eq
  have hframework (path : String) (a : Artifact) (h : artifactOfFramework? probe p path = some a) :=
    (artifactOfFramework?_eq_some_iff.1 h).path_eq
  have hlibrary (path : String) (a : Artifact) (h : artifactOfLibrary? path = some a) :=
    (artifactOfLibrary?_eq_some_iff.1 h).path_eq
  rw [classify, List.map_append, List.map_append, List.nodup_append, List.nodup_append]
  refine ⟨⟨nodup_map_path hbundle _, nodup_map_path hframework _, ?_⟩,
    nodup_map_path hlibrary _, ?_⟩
  · rintro q hq _ hq' rfl
    have := extension?_of_mem_map_path hbundle hq
    rw [extension?_of_mem_map_path hframework hq'] at this
    exact absurd this (by decide)
  · rintro q hq _ hq' rfl
    have hlib := extension?_of_mem_map_path hlibrary hq'
    rcases List.mem_append.1 hq with hq | hq
    · rw [extension?_of_mem_map_path hbundle hq] at hlib
      exact absurd hlib (by decide)
    · rw [extension?_of_mem_map_path hframework hq] at hlib
      exact absurd hlib (by decide)

namespace Artifacts

/-- An artifact is among those of its kind. -/
def Has (g : Artifacts) : Artifact → Prop
  | .staticLibrary p => p ∈ g.staticLibraries
  | .staticFramework p => p ∈ g.staticFrameworks
  | .dynamicFramework p => p ∈ g.dynamicFrameworks
  | .xcframework x => x ∈ g.xcframeworks

theorem has_add (g : Artifacts) (a b : Artifact) : (g.add a).Has b ↔ g.Has b ∨ a = b := by
  cases a with
  | xcframework x => cases b <;> simp [add, Has, eq_comm]
  | _ => cases b <;> simp [add, Has, or_comm]

theorem has_foldl_add (l : List Artifact) (g : Artifacts) (a : Artifact) :
    (l.foldl add g).Has a ↔ g.Has a ∨ a ∈ l := by
  induction l generalizing g with
  | nil => simp
  | cons b l ih => rw [List.foldl_cons, ih, has_add, List.mem_cons, or_assoc, eq_comm]

/-- Sorting by kind loses no artifact and adds none. -/
theorem has_ofList (l : List Artifact) (a : Artifact) : (ofList l).Has a ↔ a ∈ l := by
  rw [ofList, has_foldl_add]
  cases a <;> simp [empty, Has]

theorem sublist_foldl_add (l : List Artifact) (g : Artifacts) :
    ((l.foldl add g).xcframeworks.map .xcframework).Sublist
      (g.xcframeworks.map .xcframework ++ l) := by
  induction l generalizing g with
  | nil => simp
  | cons b l ih =>
    refine (ih (g.add b)).trans ?_
    cases b with
    | xcframework x => simp [add]
    | _ => exact (List.Sublist.refl _).append (List.sublist_cons_self ..)

/-- Bundles stay in the order in which they come. -/
theorem sublist_ofList (l : List Artifact) :
    ((ofList l).xcframeworks.map .xcframework).Sublist l := sublist_foldl_add l empty

end Artifacts

/-- Vendored paths become the bundles that can be read, then frameworks, then
libraries, each in the order of the paths. No path becomes two things, no dynamic
framework is left as it is, and bundles have the names of the files. -/
theorem classify_in_order (probe : Probe) (p : Platform) (frameworks libraries : StringSet) :
    let made := classify probe p frameworks libraries
    let groups := Artifacts.ofList made
    (∃ bundles singles archives, made = bundles ++ singles ++ archives ∧
        InOrder frameworks (Readable probe) (BecomesBundle probe) bundles ∧
        InOrder frameworks (Usable probe) (BecomesFramework probe p) singles ∧
        InOrder libraries (Glob.extension? · = some "a") BecomesLibrary archives) ∧
      (made.map (·.path)).Nodup ∧
      groups.dynamicFrameworks = ∅ ∧
      (∀ x ∈ groups.xcframeworks, x.path ∉ groups.staticFrameworks) ∧
      ∀ x, .xcframework x ∈ made → ∃ ext, Glob.extension? x.path = some ext ∧
        EndsIn x.path.toList (x.name ++ "." ++ ext).toList ∧
        (ext = "framework" → ∃ slice, x.slices = [slice] ∧ slice.path = x.name ++ "." ++ ext) := by
  intro made groups
  have hnodup := nodup_map_path_classify probe p frameworks libraries
  have hgroups (a : Artifact) : groups.Has a ↔ a ∈ made := Artifacts.has_ofList made a
  have hbundles := inOrder_filterMap (isSome_artifactOfBundle? probe)
    (fun _ _ => artifactOfBundle?_eq_some_iff) frameworks
  have hsingles := inOrder_filterMap (isSome_artifactOfFramework? probe p)
    (fun _ _ => artifactOfFramework?_eq_some_iff) frameworks
  have harchives := inOrder_filterMap isSome_artifactOfLibrary?
    (fun _ _ => artifactOfLibrary?_eq_some_iff) libraries
  refine ⟨⟨_, _, _, rfl, hbundles, hsingles, harchives⟩, hnodup, ?_, ?_, ?_⟩
  · rw [Std.ExtTreeSet.eq_empty_iff_forall_not_mem]
    intro q hq
    rcases mem_classify.1 ((hgroups (.dynamicFramework q)).1 hq) with
      ⟨_, -, h⟩ | ⟨_, -, h⟩ | ⟨_, -, h⟩ <;> cases h
  · intro x hx hstatic
    have heq := List.inj_on_of_nodup_map hnodup ((hgroups (.xcframework x)).1 hx)
      ((hgroups (.staticFramework x.path)).1 hstatic) rfl
    cases heq
  · intro x hx
    rcases mem_classify.1 hx with ⟨_, -, h⟩ | ⟨_, -, h⟩ | ⟨_, -, h⟩
    · cases h with
      | readable hext hname =>
        exact ⟨"xcframework", hext, hname, fun h => absurd h (by decide)⟩
    · cases h with
      | wrapped hext hname => exact ⟨"framework", hext, hname, fun _ => ⟨_, rfl, rfl⟩⟩
    · cases h

/-- Options with a dynamic framework listed by its file name and one by its path. -/
def vendoring : Options :=
  { Options.default with
    dynamicFrameworks := ["Dyn.framework", "V/Whole.framework"]
    xcframeworks := .ofList [("V/X.xcframework", [onlySlice .ios ["arm64"] "X.framework"])] }

theorem classify_in_order_vendoring :
    let made := classify (.ofOptions vendoring) .tvos
      (.ofList ["V/X.xcframework", "V/Dyn.framework/", "V/.framework"]) (.ofList ["V/libfoo.a"])
    let dyn : XcFramework :=
      ⟨"Dyn", "V/Dyn.framework/", [onlySlice .tvos ["arm64"] "Dyn.framework"]⟩
    .xcframework dyn ∈ made ∧ (made.map (·.path)).Nodup ∧
      dyn.path ∉ (Artifacts.ofList made).staticFrameworks ∧
      ∃ ext, Glob.extension? dyn.path = some ext ∧
        EndsIn dyn.path.toList (dyn.name ++ "." ++ ext).toList ∧
        (ext = "framework" →
          ∃ slice, dyn.slices = [slice] ∧ slice.path = dyn.name ++ "." ++ ext) := by
  intro made dyn
  have hdyn : .xcframework dyn ∈ made := by decide +kernel
  obtain ⟨-, hnodup, -, hstatic, hnames⟩ := classify_in_order (.ofOptions vendoring) .tvos
    (.ofList ["V/X.xcframework", "V/Dyn.framework/", "V/.framework"]) (.ofList ["V/libfoo.a"])
  exact ⟨hdyn, hnodup, hstatic dyn ((Artifacts.has_ofList made _).2 hdyn), hnames dyn hdyn⟩

end PodTarget
