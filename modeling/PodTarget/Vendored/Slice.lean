import PodTarget.Starlark.Emit

/-! The slices of a vendored bundle: its binaries for one platform each. A slice has a
directory of its own in the bundle, and the path of the binary starts there. -/

namespace PodTarget

inductive Linkage
  | static
  | dynamic
deriving DecidableEq, Repr

inductive Packaging
  | framework
  | library
deriving DecidableEq, Repr

namespace Linkage

def name : Linkage → String
  | static => "static"
  | dynamic => "dynamic"

def all : List Linkage := [static, dynamic]

def ofName? (s : String) : Option Linkage := all.find? (·.name = s)

end Linkage

namespace Packaging

def name : Packaging → String
  | framework => "framework"
  | library => "library"

def all : List Packaging := [framework, library]

def ofName? (s : String) : Option Packaging := all.find? (·.name = s)

end Packaging

structure Slice where
  identifier : String
  platform : Platform
  variant : Option String
  archs : List String
  path : String
  linkage : Linkage
  packaging : Packaging
deriving DecidableEq, Repr

structure XcFramework where
  name : String
  path : String
  slices : List Slice
deriving DecidableEq, Repr

open Starlark

instance : ToNode Slice :=
  ⟨fun s =>
    .dict
      [(.str "identifier", .str s.identifier),
       (.str "platform", .str s.platform.id),
       (.str "platform_variant", .str (s.variant.getD "")),
       (.str "supported_archs", toNode s.archs),
       (.str "path", .str s.path),
       (.str "build_type",
        .dict
          [(.str "linkage", .str s.linkage.name), (.str "packaging", .str s.packaging.name)])]⟩

instance : ToNode XcFramework :=
  ⟨fun x => .dict [(.str "name", .str x.name), (.str "slices", toNode x.slices)]⟩

end PodTarget
