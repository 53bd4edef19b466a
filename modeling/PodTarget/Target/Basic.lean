import PodTarget.Flags
import PodTarget.Glob.Files
import PodTarget.Label
import PodTarget.SwiftVersion
import PodTarget.Vendored.Artifact

/-! The framework target of a pod, put together from the pod and the subspecs
chosen, with all that depends on the platform kept for every platform. The bundles
among the resources are kept apart from the globs of the other ones. -/

namespace PodTarget

structure FrameworkTarget where
  name : String
  version : String
  moduleName : PlatformValue String
  linkDynamic : Bool
  infoPlists : List String
  platforms : PerPlatform (Option String)
  swiftVersion : PlatformValue (Option String)
  sourceFiles : PlatformValue FilePattern
  publicHeaders : PlatformValue FilePattern
  privateHeaders : PlatformValue FilePattern
  resources : PlatformValue StringSet
  bundles : PlatformValue StringSet
  resourceBundles : PlatformValue (StringMap StringSet)
  deps : PlatformValue StringSet
  vendored : PlatformValue Artifacts
  objcDefines : List String
  swiftDefines : List String
  sdkDylibs : PlatformValue StringSet
  sdkFrameworks : PlatformValue StringSet
  weakSdkFrameworks : PlatformValue StringSet
  flags : Flags

/-- What a target is put together with: options, and how to look into binaries
and find flags. -/
structure Assembly where
  options : Options
  probe : Probe
  flags : Declaration → List Declaration → Flags

def Assembly.ofOptions (o : Options) : Assembly := ⟨o, .ofOptions o, Flags.collect⟩

namespace Declaration

def replaceHyphens (s : String) : String :=
  .ofList (s.toList.map fun c => if c = '-' then '_' else c)

/-- The module name that is declared and not empty, else the pod's name. -/
def moduleNames (d : Declaration) : PlatformValue String :=
  (d.attr (·.moduleName)).map fun
    | some n => if n.isEmpty then replaceHyphens d.name else n
    | none => replaceHyphens d.name

def swiftVersions (d : Declaration) : PlatformValue (Option String) :=
  (d.attr (·.swiftVersions)).map fun v => v.bind swiftVersion?

/-- The least versions, that of the primary platform filled in. -/
def leastVersions (d : Declaration) (o : Options) : PerPlatform (Option String) :=
  d.platforms.set .primary (some ((d.platforms.get .primary).getD o.iosPlatform))

/-- The globs of the files of one attribute, without those of another. -/
def collectFiles (root : Declaration) (subspecs : List Declaration) (types : List String)
    (incl excl : Attributes → List String) : PlatformValue FilePattern :=
  ((root.collect subspecs fun a => Glob.extractFiles types (incl a)).zip
    (root.collect subspecs fun a => Glob.extractFiles types (excl a))).map
    fun (i, e) => .ofMatches i e

def collectSet (root : Declaration) (subspecs : List Declaration)
    (field : Attributes → List String) : PlatformValue StringSet :=
  root.collect subspecs fun a => .ofList (field a)

def bundleGlobs (a : Attributes) : StringMap StringSet :=
  a.resourceBundles.map fun _ patterns => Glob.extractResources patterns

end Declaration

def isBundle (path : String) : Bool :=
  let s := (Glob.trimSlashes path.toList).reverse
  (Text.after? ".bundle".toList.reverse s).isSome

namespace FrameworkTarget

/-- The target of a pod with the subspecs chosen and the dependencies added by
name, which are local. -/
def assemble (assembly : Assembly) (root : Declaration) (subspecs : List Declaration)
    (deps : StringSet) : FrameworkTarget :=
  let o := assembly.options
  let sources :=
    root.collectFiles subspecs Glob.sourceTypes (·.sourceFiles) (·.excludeFiles)
  let resources := (root.collectSet subspecs (·.resources)).spread
  { name := root.name
    version := root.version.getD "1.0"
    moduleName := root.moduleNames
    linkDynamic := o.linkDynamic && !sources.primary.isEmpty && !root.staticFramework
    infoPlists := []
    platforms := root.leastVersions o
    swiftVersion := root.swiftVersions
    sourceFiles := sources
    publicHeaders :=
      root.collectFiles subspecs Glob.headerTypes (·.publicHeaderFiles) (·.privateHeaderFiles)
    privateHeaders :=
      root.collectFiles subspecs Glob.headerTypes (·.privateHeaderFiles) fun _ => []
    resources := resources.map fun s => Glob.extractResources (s.where (!isBundle ·)).toList
    bundles := resources.map fun s => s.where isBundle
    resourceBundles := root.collect subspecs Declaration.bundleGlobs
    deps :=
      merge (.uniform (deps.bind fun d => [localLabel d]))
        ((root.collectSet subspecs (·.dependencies)).map (labelsOf o root.name))
    vendored :=
      classifyAll assembly.probe (root.collectSet subspecs (·.vendoredFrameworks))
        (root.collectSet subspecs (·.vendoredLibraries))
    objcDefines := ["COCOAPODS=1"]
    swiftDefines := ["COCOAPODS"]
    sdkDylibs := root.collectSet subspecs (·.libraries)
    sdkFrameworks := root.collectSet subspecs (·.frameworks)
    weakSdkFrameworks := root.collectSet subspecs (·.weakFrameworks)
    flags := assembly.flags root subspecs }

def bundleId (t : FrameworkTarget) : String := "org.cocoapods." ++ t.name

def canLinkDynamic (t : FrameworkTarget) : Bool := !t.sourceFiles.primary.isEmpty

def addInfoPlist (t : FrameworkTarget) (name : String) : FrameworkTarget :=
  { t with infoPlists := t.infoPlists ++ [localLabel name] }

end FrameworkTarget

end PodTarget
