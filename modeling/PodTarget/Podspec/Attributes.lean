import PodTarget.Collections

/-! What a pod, a subspec or a platform section of either may declare. The attributes
are listed in the order of declaration. -/

namespace PodTarget

structure Attributes where
  sourceFiles : List String
  excludeFiles : List String
  publicHeaderFiles : List String
  privateHeaderFiles : List String
  resources : List String
  resourceBundles : StringMap (List String)
  dependencies : List String
  vendoredFrameworks : List String
  vendoredLibraries : List String
  frameworks : List String
  weakFrameworks : List String
  libraries : List String
  compilerFlags : List String
  xcconfig : StringMap String
  swiftVersions : Option (List String)
  moduleName : Option String
deriving DecidableEq

def Attributes.empty : Attributes :=
  ⟨[], [], [], [], [], ∅, [], [], [], [], [], [], [], ∅, none, none⟩

/-- The attributes whose value is a list. -/
inductive ListAttribute
  | sourceFiles
  | excludeFiles
  | publicHeaderFiles
  | privateHeaderFiles
  | resources
  | dependencies
  | vendoredFrameworks
  | vendoredLibraries
  | frameworks
  | weakFrameworks
  | libraries
  | compilerFlags
deriving DecidableEq, Repr

namespace ListAttribute

def name : ListAttribute → String
  | sourceFiles => "source_files"
  | excludeFiles => "exclude_files"
  | publicHeaderFiles => "public_header_files"
  | privateHeaderFiles => "private_header_files"
  | resources => "resources"
  | dependencies => "dependencies"
  | vendoredFrameworks => "vendored_frameworks"
  | vendoredLibraries => "vendored_libraries"
  | frameworks => "frameworks"
  | weakFrameworks => "weak_frameworks"
  | libraries => "libraries"
  | compilerFlags => "compiler_flags"

def get : ListAttribute → Attributes → List String
  | sourceFiles, a => a.sourceFiles
  | excludeFiles, a => a.excludeFiles
  | publicHeaderFiles, a => a.publicHeaderFiles
  | privateHeaderFiles, a => a.privateHeaderFiles
  | resources, a => a.resources
  | dependencies, a => a.dependencies
  | vendoredFrameworks, a => a.vendoredFrameworks
  | vendoredLibraries, a => a.vendoredLibraries
  | frameworks, a => a.frameworks
  | weakFrameworks, a => a.weakFrameworks
  | libraries, a => a.libraries
  | compilerFlags, a => a.compilerFlags

def set (x : ListAttribute) (l : List String) (a : Attributes) : Attributes :=
  match x with
  | sourceFiles => { a with sourceFiles := l }
  | excludeFiles => { a with excludeFiles := l }
  | publicHeaderFiles => { a with publicHeaderFiles := l }
  | privateHeaderFiles => { a with privateHeaderFiles := l }
  | resources => { a with resources := l }
  | dependencies => { a with dependencies := l }
  | vendoredFrameworks => { a with vendoredFrameworks := l }
  | vendoredLibraries => { a with vendoredLibraries := l }
  | frameworks => { a with frameworks := l }
  | weakFrameworks => { a with weakFrameworks := l }
  | libraries => { a with libraries := l }
  | compilerFlags => { a with compilerFlags := l }

theorem get_set (x : ListAttribute) (l : List String) (a : Attributes) : x.get (x.set l a) = l := by
  cases x <;> rfl

end ListAttribute

inductive Attribute
  | list (of : ListAttribute)
  | resourceBundles
  | xcconfig
  | swiftVersions
  | moduleName
deriving DecidableEq, Repr

namespace Attribute

def name : Attribute → String
  | list a => a.name
  | resourceBundles => "resource_bundles"
  | xcconfig => "pod_target_xcconfig"
  | swiftVersions => "swift_versions"
  | moduleName => "module_name"

def all : List Attribute :=
  [list .sourceFiles, list .excludeFiles, list .publicHeaderFiles, list .privateHeaderFiles,
   list .resources, resourceBundles, list .dependencies, list .vendoredFrameworks,
   list .vendoredLibraries, list .frameworks, list .weakFrameworks, list .libraries,
   list .compilerFlags, xcconfig, swiftVersions, moduleName]

theorem mem_all (a : Attribute) : a ∈ all := by
  cases a with
  | list a => cases a <;> decide
  | _ => decide

/-- The attribute that a key names. The single Swift version of older podspecs
counts as the list of versions. -/
def ofKey? (key : String) : Option Attribute :=
  if key = "swift_version" then some swiftVersions else all.find? (·.name = key)

theorem ofKey?_name (a : Attribute) : ofKey? a.name = some a := by
  cases a with
  | list a => cases a <;> decide
  | _ => decide

end Attribute

end PodTarget
