import PodTarget.Starlark.Layout
import PodTarget.Target.Basic

/-! The build file of a framework target: the rule is loaded, then called with
the values for the primary platform. An attribute whose value is empty is left
out. -/

namespace PodTarget.FrameworkTarget

open Starlark

def rule : String := "apple_framework"

def loadNode : Node := .load "@build_bazel_rules_ios//rules:framework.bzl" [rule]

/-- Globbed resources and bundles, added where there are both. -/
def dataNode (t : FrameworkTarget) : Node :=
  let globs := toNode (FilePattern.includeOnly t.resources.primary)
  let bundles := toNode t.bundles.primary
  match t.resources.primary.isEmpty, t.bundles.primary.isEmpty with
  | true, true => .empty
  | false, true => globs
  | true, false => bundles
  | false, false => .add globs bundles

/-- Defines that hold always, and those for release and other builds. -/
def definesNode (base release debug : List String) : Node :=
  .add (toNode base)
    (.select [(":release", toNode release), (defaultCondition, toNode debug)])

def bundlePatterns (t : FrameworkTarget) : StringMap FilePattern :=
  t.resourceBundles.primary.map fun _ globs => .includeOnly globs

def attributes (t : FrameworkTarget) : List (String × Node) :=
  let v := t.vendored.primary
  [("name", toNode t.name),
   ("module_name", toNode t.moduleName.primary),
   ("bundle_id", toNode t.bundleId),
   ("swift_version", toNode t.swiftVersion),
   ("link_dynamic", toNode t.linkDynamic),
   ("infoplists", toNode t.infoPlists),
   ("platforms", toNode t.platforms),
   ("srcs", toNode t.sourceFiles.primary),
   ("public_headers", toNode t.publicHeaders.primary),
   ("private_headers", toNode t.privateHeaders.primary),
   ("data", t.dataNode),
   ("resource_bundles", toNode t.bundlePatterns),
   ("deps", toNode t.deps.primary),
   ("vendored_xcframeworks", toNode v.xcframeworks),
   ("vendored_static_frameworks", toNode v.staticFrameworks),
   ("vendored_dynamic_frameworks", toNode v.dynamicFrameworks),
   ("vendored_static_libraries", toNode v.staticLibraries),
   ("objc_defines",
    definesNode t.objcDefines ["POD_CONFIGURATION_RELEASE=1"]
      ["POD_CONFIGURATION_DEBUG=1", "DEBUG=1"]),
   ("swift_defines", definesNode t.swiftDefines [] ["DEBUG"]),
   ("sdk_dylibs", toNode t.sdkDylibs.primary),
   ("sdk_frameworks", toNode t.sdkFrameworks.primary),
   ("weak_sdk_frameworks", toNode t.weakSdkFrameworks.primary),
   ("objc_copts", toNode t.flags.objcOpts),
   ("swift_copts", toNode t.flags.swiftOpts),
   ("linkopts", toNode t.flags.linkOpts),
   ("xcconfig", toNode t.flags.xcconfig),
   ("visibility", toNode ["//visibility:public"])]

instance : ToNode FrameworkTarget :=
  ⟨fun t => .callWith rule (t.attributes.map fun (n, v) => .named n v)⟩

def buildFile (t : FrameworkTarget) : BuildFile := ⟨[loadNode, toNode t]⟩

end PodTarget.FrameworkTarget
