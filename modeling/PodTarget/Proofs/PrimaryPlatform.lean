import PodTarget.Proofs.Collection
import PodTarget.Proofs.Emission
import PodTarget.Proofs.PlatformArtifacts
import PodTarget.Target.BuildFile

/-! What is declared for other platforms than the primary one does not get into
the build file. A build file shows of a target what is in effect for the primary
platform, but for the Swift version, of which it shows what is in effect for
each. Whatever is gathered for a platform is told from the sections of it. -/

namespace PodTarget

theorem get_primary_classifyAll (probe : Probe) (frameworks libraries : PlatformValue StringSet) :
    (classifyAll probe frameworks libraries).get .primary =
      .ofList (classify probe .primary (frameworks.get .primary) (libraries.get .primary)) := by
  have hprimary : Platform.primary = .ios := rfl
  rw [get_classifyAll, if_pos (Or.inl hprimary)]

namespace Declaration

/-- A declaration without its sections for other platforms. -/
def only (p : Platform) (d : Declaration) : Declaration :=
  { d with sections := PerPlatform.none.set p (d.sections.get p) }

theorem effective_only {α : Type} [Merge α] (p : Platform) (d : Declaration)
    (f : Attributes → α) : (d.only p).effective f p = d.effective f p := by
  rw [effective, effective, only, PerPlatform.get_set, if_pos rfl]

/-- Two pods with subspecs that are the same but for the sections of platforms
other than `p`. -/
structure SameFor (p : Platform) (root root' : Declaration) (l l' : List Declaration) : Prop where
  root : root.only p = root'.only p
  subspecs : l.map (·.only p) = l'.map (·.only p)

namespace SameFor

variable {p : Platform} {root root' : Declaration} {l l' : List Declaration}

/-- All but the sections is the same. -/
theorem fields (h : SameFor p root root' l l') : root.name = root'.name ∧
    root.version = root'.version ∧ root.platforms = root'.platforms ∧
      root.staticFramework = root'.staticFramework ∧ root.attributes = root'.attributes := by
  have hroot := h.root
  rw [only, only, Declaration.mk.injEq] at hroot
  obtain ⟨hname, hversion, hplatforms, hstatic, -, -, hattributes⟩ := hroot
  exact ⟨hname, hversion, hplatforms, hstatic, hattributes⟩

theorem effective {α : Type} [Merge α] (h : SameFor p root root' l l') (f : Attributes → α) :
    root.effective f p = root'.effective f p := by
  rw [← effective_only, h.root, effective_only]

theorem get_collect {α : Type} [Merge α] (h : SameFor p root root' l l') (f : Attributes → α) :
    (root.collect l f).get p = (root'.collect l' f).get p := by
  have effectives (l : List Declaration) :
      l.map (·.effective f p) = (l.map (·.only p)).map (·.effective f p) := by
    rw [List.map_map]
    exact List.map_congr_left fun d _ => (effective_only p d f).symm
  rw [Declaration.get_collect, Declaration.get_collect, h.effective, effectives l, h.subspecs,
    ← effectives l']

theorem get_collectFiles (h : SameFor p root root' l l') (types : List String)
    (incl excl : Attributes → List String) : (root.collectFiles l types incl excl).get p =
      (root'.collectFiles l' types incl excl).get p := by
  simp only [collectFiles, PlatformValue.get_map, PlatformValue.zip, PlatformValue.get_zipWith,
    h.get_collect]

theorem get_moduleNames (h : SameFor p root root' l l') :
    root.moduleNames.get p = root'.moduleNames.get p := by
  obtain ⟨hname, -⟩ := h.fields
  rw [moduleNames, moduleNames, PlatformValue.get_map, PlatformValue.get_map, get_attr, get_attr,
    h.effective, hname]

theorem collect_flags (h : SameFor .primary root root' l l') :
    Flags.collect root l = Flags.collect root' l' := by
  have hcompiler := h.get_collect (·.compilerFlags)
  have hsettings := h.get_collect Flags.settings
  rw [Flags.collect, Flags.collect, PlatformValue.primary, PlatformValue.primary,
    PlatformValue.primary, PlatformValue.primary, hcompiler, hsettings]

end SameFor

end Declaration

namespace FrameworkTarget

open Declaration Starlark

/-- What of a target its build file shows. -/
def visible (t : FrameworkTarget) : FrameworkTarget :=
  { t with
    moduleName := .uniform t.moduleName.primary
    swiftVersion := t.swiftVersion.spread
    sourceFiles := .uniform t.sourceFiles.primary
    publicHeaders := .uniform t.publicHeaders.primary
    privateHeaders := .uniform t.privateHeaders.primary
    resources := .uniform t.resources.primary
    bundles := .uniform t.bundles.primary
    resourceBundles := .uniform t.resourceBundles.primary
    deps := .uniform t.deps.primary
    vendored := .uniform t.vendored.primary
    sdkDylibs := .uniform t.sdkDylibs.primary
    sdkFrameworks := .uniform t.sdkFrameworks.primary
    weakSdkFrameworks := .uniform t.weakSdkFrameworks.primary }

theorem attributes_visible (t : FrameworkTarget) : t.visible.attributes = t.attributes := by
  have hswift : (toNode t.swiftVersion.spread : Node) = toNode t.swiftVersion :=
    toNode_congr rfl t.swiftVersion.get_spread
  rw [attributes, attributes]
  simp only [visible, hswift]
  rfl

theorem render_visible (t : FrameworkTarget) :
    t.visible.buildFile.render = t.buildFile.render := by
  simp only [buildFile, toNode, attributes_visible]

variable {root root' : Declaration} {l l' : List Declaration}

theorem spread_swiftVersions (h : SameFor .primary root root' l l')
    (hswift : ∀ p, root.swiftVersions.get p = root'.swiftVersions.get p) :
    root.swiftVersions.spread = root'.swiftVersions.spread := by
  obtain ⟨-, -, -, -, hattributes⟩ := h.fields
  have hdefault : root.swiftVersions.default = root'.swiftVersions.default := by
    show root.attributes.swiftVersions.bind swiftVersion? = _
    rw [hattributes]
    rfl
  rw [PlatformValue.spread, PlatformValue.spread, hdefault]
  refine congrArg _ (PerPlatform.ext_get fun p => ?_)
  simp only [PlatformValue.unpack, PerPlatform.get_ofFn, hswift]

theorem visible_assemble (h : SameFor .primary root root' l l')
    (hswift : ∀ p, root.swiftVersions.get p = root'.swiftVersions.get p) (o : Options)
    (probe : Probe) (deps : StringSet) :
    (assemble ⟨o, probe, Flags.collect⟩ root l deps).visible =
      (assemble ⟨o, probe, Flags.collect⟩ root' l' deps).visible := by
  obtain ⟨hname, hversion, hplatforms, hstatic, -⟩ := h.fields
  have hset (field : Attributes → List String) :
      (root.collectSet l field).get .primary = (root'.collectSet l' field).get .primary :=
    h.get_collect _
  simp only [assemble, visible, leastVersions, hname, hversion, hplatforms, hstatic,
    PlatformValue.primary, PlatformValue.get_map, PlatformValue.get_merge,
    PlatformValue.get_spread, get_primary_classifyAll, hset, h.get_collect, h.get_collectFiles,
    h.get_moduleNames, h.collect_flags, spread_swiftVersions h hswift]

/-- Sections for other platforms change nothing in the build file, as long as
the Swift versions in effect stay the same. -/
theorem render_of_sameFor_primary (o : Options) (probe : Probe) (deps : StringSet)
    (h : SameFor .primary root root' l l')
    (hswift : ∀ p, root.swiftVersions.get p = root'.swiftVersions.get p) :
    (assemble ⟨o, probe, Flags.collect⟩ root l deps).buildFile.render =
      (assemble ⟨o, probe, Flags.collect⟩ root' l' deps).buildFile.render := by
  rw [← render_visible, visible_assemble h hswift, render_visible]

/-- A pod, and the same with a section for another platform, where the Swift
version is a newer one that counts as the same. -/
def player : Declaration :=
  { Declaration.named "Player" with
    attributes := { Attributes.empty with
      sourceFiles := ["src/*.swift"], swiftVersions := some ["5.0"] } }

def desktopPlayer : Declaration :=
  player.modifySection .osx ({ · with
    sourceFiles := ["mac/*.swift"], frameworks := ["AppKit"], swiftVersions := some ["5.1"] })

/-- A subspec, and the same with sections for two other platforms. -/
def controls : Declaration :=
  (Declaration.named "Controls").modifySection .ios ({ · with frameworks := ["UIKit"] })

def remoteControls : Declaration :=
  (controls.modifySection .tvos ({ · with frameworks := ["TVUIKit"], moduleName := some "Remote" }))
    |>.modifySection .watchos ({ · with compilerFlags := ["-DWATCH"] })

theorem render_of_desktopPlayer :
    SameFor .primary player desktopPlayer [controls] [remoteControls] ∧
      (∀ p, player.swiftVersions.get p = desktopPlayer.swiftVersions.get p) ∧
      (assemble (.ofOptions .default) player [controls] ∅).buildFile.render =
        (assemble (.ofOptions .default) desktopPlayer [remoteControls] ∅).buildFile.render := by
  have h : SameFor .primary player desktopPlayer [controls] [remoteControls] := ⟨rfl, rfl⟩
  have hswift (p : Platform) : player.swiftVersions.get p = desktopPlayer.swiftVersions.get p := by
    cases p <;> decide +kernel
  exact ⟨h, hswift, render_of_sameFor_primary .default (.ofOptions .default) ∅ h hswift⟩

end FrameworkTarget

end PodTarget
