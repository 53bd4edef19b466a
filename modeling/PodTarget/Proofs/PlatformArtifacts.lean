import PodTarget.Proofs.Classification

/-! The artifacts of each platform. A platform with vendored paths of its own, of
either kind, has them classified for itself; for any other one the default stands
in, classified for the primary platform. All that a classification takes from the
platform is the slice that a dynamic framework is wrapped in. -/

namespace PodTarget

theorem get_classifyAll (probe : Probe) (frameworks libraries : PlatformValue StringSet)
    (p : Platform) :
    (classifyAll probe frameworks libraries).get p =
      .ofList (classify probe
        (if p = .ios ∨ (frameworks.overrides.get p).isSome ∨ (libraries.overrides.get p).isSome
          then p else .ios)
        (frameworks.get p) (libraries.get p)) := by
  have hzip : (frameworks.zip libraries).get p = (frameworks.get p, libraries.get p) :=
    PlatformValue.get_zipWith ..
  have hown : ((frameworks.zip libraries).overrides.get p).isSome ↔
      (frameworks.overrides.get p).isSome ∨ (libraries.overrides.get p).isSome := by
    rw [PlatformValue.zip, PlatformValue.isSome_overrides_zipWith, Bool.or_eq_true]
  have hplatform : (if ((frameworks.zip libraries).overrides.get p).isSome then some p
      else none).getD .primary =
        if p = .ios ∨ (frameworks.overrides.get p).isSome ∨ (libraries.overrides.get p).isSome
          then p else .ios := by
    simp only [hown]
    by_cases hp : p = .ios
    · -- the default is made for this platform in any case
      subst hp
      split <;> rfl
    · simp only [hp, false_or]
      split <;> rfl
  rw [classifyAll, PlatformValue.get_mapSlots_eq, hzip, ← hplatform]

/-- What one path becomes for two platforms: the same, but for a dynamic framework,
whose slice has the platform and starts its identifier with it. -/
inductive SameForBoth (p q : Platform) : Artifact → Artifact → Prop
  | library (path : String) : SameForBoth p q (.staticLibrary path) (.staticLibrary path)
  | static (path : String) : SameForBoth p q (.staticFramework path) (.staticFramework path)
  | bundle {x : XcFramework} (hext : Glob.extension? x.path = some "xcframework") :
      SameForBoth p q (.xcframework x) (.xcframework x)
  | wrapped {name path : String} (slice : Slice) (rest : String)
      (hext : Glob.extension? path = some "framework") :
      SameForBoth p q
        (.xcframework ⟨name, path,
          [{ slice with identifier := p.id ++ "-" ++ rest, platform := p }]⟩)
        (.xcframework ⟨name, path,
          [{ slice with identifier := q.id ++ "-" ++ rest, platform := q }]⟩)

theorem rel_artifactOfFramework? (probe : Probe) (p q : Platform) (path : String) :
    Option.Rel (SameForBoth p q) (artifactOfFramework? probe p path)
      (artifactOfFramework? probe q path) := by
  rw [artifactOfFramework?, artifactOfFramework?]
  split
  case isFalse => exact .none
  case isTrue hext =>
    split
    case isFalse => exact .some (.static path)
    case isTrue =>
      rw [wrap?, wrap?]
      cases harchs : probe.archs path with
      | nil => exact .none
      | cons arch archs =>
        exact .some (.wrapped (onlySlice p (arch :: archs) (fileNameOr path)) _ hext)

theorem forall₂_classify (probe : Probe) (p q : Platform) (frameworks libraries : StringSet) :
    List.Forall₂ (SameForBoth p q) (classify probe p frameworks libraries)
      (classify probe q frameworks libraries) := by
  refine List.rel_append (List.rel_append (List.forall₂_same.2 fun a ha => ?_) ?_)
    (List.forall₂_same.2 fun a ha => ?_)
  · obtain ⟨path, -, h⟩ := List.mem_filterMap.1 ha
    obtain ⟨hext, -, -⟩ := artifactOfBundle?_eq_some_iff.1 h
    exact .bundle hext
  · refine List.rel_filterMap (R := Eq) ?_ (List.forall₂_refl _)
    rintro path _ rfl
    exact rel_artifactOfFramework? probe p q path
  · obtain ⟨path, -, h⟩ := List.mem_filterMap.1 ha
    obtain ⟨-⟩ := artifactOfLibrary?_eq_some_iff.1 h
    exact .library path

/-- A platform has its own paths classified for itself, and those of the default
for the primary platform. What comes of it is found by kind, the bundles in their
order. For two platforms the same paths become the same but for the slices that
dynamic frameworks are wrapped in. -/
theorem classifyAll_by_platform (probe : Probe)
    (frameworks libraries : PlatformValue StringSet) (p : Platform) :
    let made := classify probe
      (if p = .ios ∨ (frameworks.overrides.get p).isSome ∨ (libraries.overrides.get p).isSome
        then p else .ios)
      (frameworks.get p) (libraries.get p)
    let groups := (classifyAll probe frameworks libraries).get p
    groups = .ofList made ∧ (∀ a, groups.Has a ↔ a ∈ made) ∧
      (groups.xcframeworks.map .xcframework).Sublist made ∧
      ∀ (q : Platform) (fs ls : StringSet),
        List.Forall₂ (SameForBoth p q) (classify probe p fs ls) (classify probe q fs ls) := by
  intro made groups
  have hgroups : groups = .ofList made := get_classifyAll probe frameworks libraries p
  rw [hgroups]
  exact ⟨rfl, Artifacts.has_ofList made, Artifacts.sublist_ofList made, forall₂_classify probe p⟩

end PodTarget
