import PodTarget.PlatformValue
import PodTarget.Podspec.Attributes

/-! A podspec: a pod with its subspecs, which are of the same kind. What one of
them declares stands apart from the subspecs nested in it. The platforms supported
come with the least version of each. -/

namespace PodTarget

structure Declaration where
  name : String
  version : Option String
  platforms : PerPlatform (Option String)
  staticFramework : Bool
  defaultSubspecs : List String
  sections : PerPlatform (Option Attributes)
  attributes : Attributes
deriving DecidableEq

structure Podspec where
  declaration : Declaration
  subspecs : List Podspec

namespace Declaration

def named (name : String) : Declaration :=
  ⟨name, none, .none, false, [], .none, .empty⟩

/-- Changes the section of a platform, which is made if it is not there. -/
def modifySection (d : Declaration) (p : Platform) (f : Attributes → Attributes) : Declaration :=
  { d with sections := d.sections.set p (some (f ((d.sections.get p).getD .empty))) }

/-- One attribute by platform: a section adds to what holds for all platforms. -/
def attr {α : Type} [Merge α] (d : Declaration) (f : Attributes → α) : PlatformValue α where
  default := f d.attributes
  overrides := d.sections.map (·.map fun s => merge (f d.attributes) (f s))

/-- One attribute gathered over a pod and some of its subspecs, in order. -/
def collect {α : Type} [Merge α] (root : Declaration) (subspecs : List Declaration)
    (f : Attributes → α) : PlatformValue α :=
  subspecs.foldl (fun v d => merge v (d.attr f)) (root.attr f)

def dependencyNames (d : Declaration) : List String :=
  d.attributes.dependencies ++ d.sections.entries.flatMap fun (_, s) => s.dependencies

theorem mem_dependencyNames {d : Declaration} {n : String} :
    n ∈ d.dependencyNames ↔ n ∈ d.attributes.dependencies ∨
      ∃ p s, d.sections.get p = some s ∧ n ∈ s.dependencies := by
  simp [dependencyNames, PerPlatform.mem_entries]

end Declaration

namespace Podspec

def name (s : Podspec) : String := s.declaration.name

mutual

def same : Podspec → Podspec → Bool
  | ⟨d, ss⟩, ⟨e, ts⟩ => d = e && allSame ss ts

def allSame : List Podspec → List Podspec → Bool
  | [], [] => true
  | s :: ss, t :: ts => same s t && allSame ss ts
  | _, _ => false

end

end Podspec

end PodTarget
