import PodTarget.Json.Printer
import PodTarget.Target.Basic

/-! A framework target in JSON, with the values for every platform. -/

namespace PodTarget

open Json

def ofSet (s : StringSet) : Document := .ofStrings s.toList

def ofMap {α : Type} (f : α → Document) (m : StringMap α) : Document :=
  .ofMembers (m.toList.map fun (k, v) => (k, f v))

def ofPlatforms {α : Type} (f : α → Document) (v : PerPlatform (Option α)) : Document :=
  .ofMembers (v.entries.map fun (p, a) => (p.id, f a))

def ofPlatformValue {α : Type} (f : α → Document) (v : PlatformValue α) : Document :=
  .ofMembers [("default", f v.default), ("overrides", ofPlatforms f v.overrides)]

def FilePattern.toDocument (p : FilePattern) : Document :=
  .ofMembers [("include", ofSet p.incl), ("exclude", ofSet p.excl)]

def Slice.toDocument (s : Slice) : Document :=
  .ofMembers <|
    [("identifier", .string s.identifier), ("platform", .string s.platform.id)] ++
      (s.variant.elim [] fun v => [("platform-variant", .string v)]) ++
      [("supported-archs", .ofStrings s.archs), ("path", .string s.path),
       ("linkage", .string s.linkage.name), ("packaging", .string s.packaging.name)]

def XcFramework.toDocument (x : XcFramework) : Document :=
  .ofMembers
    [("name", .string x.name), ("path", .string x.path),
     ("slices", .array (x.slices.map Slice.toDocument))]

def Artifacts.toDocument (a : Artifacts) : Document :=
  .ofMembers
    [("xcframeworks", .array (a.xcframeworks.map XcFramework.toDocument)),
     ("static_frameworks", ofSet a.staticFrameworks),
     ("dynamic_frameworks", ofSet a.dynamicFrameworks),
     ("static_libraries", ofSet a.staticLibraries)]

def Flags.toDocument (f : Flags) : Document :=
  .ofMembers
    [("objc_copts", .ofStrings f.objcOpts), ("swift_copts", .ofStrings f.swiftOpts),
     ("linkopts", .ofStrings f.linkOpts), ("xcconfig", ofMap .string f.xcconfig)]

def FrameworkTarget.toDocument (t : FrameworkTarget) : Document :=
  .ofMembers
    [("name", .string t.name),
     ("version", .string t.version),
     ("module_name", ofPlatformValue .string t.moduleName),
     ("link_dynamic", .boolean t.linkDynamic),
     ("infoplists", .ofStrings t.infoPlists),
     ("platforms", ofPlatforms .string t.platforms),
     ("swift_version", ofPlatformValue (fun v => v.elim .null .string) t.swiftVersion),
     ("source_files", ofPlatformValue FilePattern.toDocument t.sourceFiles),
     ("public_headers", ofPlatformValue FilePattern.toDocument t.publicHeaders),
     ("private_headers", ofPlatformValue FilePattern.toDocument t.privateHeaders),
     ("resources", ofPlatformValue ofSet t.resources),
     ("bundles", ofPlatformValue ofSet t.bundles),
     ("resource_bundles", ofPlatformValue (ofMap ofSet) t.resourceBundles),
     ("deps", ofPlatformValue ofSet t.deps),
     ("vendored", ofPlatformValue Artifacts.toDocument t.vendored),
     ("objc_defines", .ofStrings t.objcDefines),
     ("swift_defines", .ofStrings t.swiftDefines),
     ("sdk_dylibs", ofPlatformValue ofSet t.sdkDylibs),
     ("sdk_frameworks", ofPlatformValue ofSet t.sdkFrameworks),
     ("weak_sdk_frameworks", ofPlatformValue ofSet t.weakSdkFrameworks),
     ("flags", t.flags.toDocument)]

/-- The text of the record, on lines. -/
def FrameworkTarget.record (t : FrameworkTarget) : String := t.toDocument.print ++ "\n"

end PodTarget
