import PodTarget.Glob.Extension
import PodTarget.Vendored.Probe

/-! Sorting vendored binaries by kind. A dynamic framework is taken as a bundle
of one slice, so that dynamic binaries have one form only; paths with any other
extension are left out. -/

namespace PodTarget

inductive Artifact
  | staticLibrary (path : String)
  | staticFramework (path : String)
  | dynamicFramework (path : String)
  | xcframework (bundle : XcFramework)
deriving DecidableEq, Repr

def bundle? (probe : Probe) (path : String) : Option XcFramework :=
  (probe.slices path).map fun slices => ⟨bundleName path, path, slices⟩

/-- A dynamic framework as a bundle, unless it has no architecture. -/
def wrap? (probe : Probe) (p : Platform) (path : String) : Option XcFramework :=
  match probe.archs path with
  | [] => none
  | archs =>
    some ⟨bundleName path, path,
      [{ identifier := p.id ++ "-" ++ String.intercalate "_" archs
         platform := p
         variant := none
         archs
         path := fileNameOr path
         linkage := .dynamic
         packaging := .framework }]⟩

def artifactOfBundle? (probe : Probe) (path : String) : Option Artifact :=
  if Glob.extension? path = some "xcframework" then (bundle? probe path).map .xcframework
  else none

def artifactOfFramework? (probe : Probe) (p : Platform) (path : String) : Option Artifact :=
  if Glob.extension? path = some "framework" then
    if probe.isDynamic path then (wrap? probe p path).map .xcframework
    else some (.staticFramework path)
  else none

def artifactOfLibrary? (path : String) : Option Artifact :=
  if Glob.extension? path = some "a" then some (.staticLibrary path) else none

/-- The artifacts of one platform: bundles, then frameworks, then libraries,
each in the order of their paths. -/
def classify (probe : Probe) (p : Platform) (frameworks libraries : StringSet) : List Artifact :=
  frameworks.toList.filterMap (artifactOfBundle? probe) ++
    frameworks.toList.filterMap (artifactOfFramework? probe p) ++
    libraries.toList.filterMap artifactOfLibrary?

structure Artifacts where
  xcframeworks : List XcFramework
  staticFrameworks : StringSet
  dynamicFrameworks : StringSet
  staticLibraries : StringSet
deriving DecidableEq

namespace Artifacts

def empty : Artifacts := ⟨[], ∅, ∅, ∅⟩

def isEmpty (a : Artifacts) : Bool :=
  a.xcframeworks.isEmpty && a.staticFrameworks.isEmpty && a.dynamicFrameworks.isEmpty &&
    a.staticLibraries.isEmpty

def add (a : Artifacts) : Artifact → Artifacts
  | .staticLibrary p => { a with staticLibraries := a.staticLibraries.insert p }
  | .staticFramework p => { a with staticFrameworks := a.staticFrameworks.insert p }
  | .dynamicFramework p => { a with dynamicFrameworks := a.dynamicFrameworks.insert p }
  | .xcframework x => { a with xcframeworks := a.xcframeworks ++ [x] }

def ofList (l : List Artifact) : Artifacts := l.foldl add empty

end Artifacts

/-- The artifacts of every platform. Those of the default are made for the
primary platform. -/
def classifyAll (probe : Probe) (frameworks libraries : PlatformValue StringSet) :
    PlatformValue Artifacts :=
  (frameworks.zip libraries).mapSlots fun p (fs, ls) =>
    .ofList (classify probe (p.getD .primary) fs ls)

end PodTarget
