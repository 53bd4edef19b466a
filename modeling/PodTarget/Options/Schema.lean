import PodTarget.Options
import PodTarget.Toml.Decode
import PodTarget.Toml.Printer
import PodTarget.Toml.Reader

/-! Options in TOML. What is not given keeps its default, and unknown keys mean
nothing. -/

namespace PodTarget

open Toml

/-! ### Reading -/

/-- A slice of which a part of the members have been read. -/
structure SliceDraft where
  identifier : Option String
  platform : Option Platform
  variant : Option String
  archs : Option (List String)
  path : Option String
  linkage : Option Linkage
  packaging : Option Packaging

namespace SliceDraft

def start : SliceDraft := ⟨none, none, none, none, none, none, none⟩

def keys : List String :=
  ["identifier", "platform", "platform-variant", "supported-archs", "path", "linkage",
   "packaging"]

def put (d : SliceDraft) (key : String) (v : Value) : Except Error SliceDraft :=
  match key with
  | "identifier" => (Decode.string v).map fun a => { d with identifier := some a }
  | "platform" => (Decode.variant Platform.all Platform.id v).map fun a => { d with platform := some a }
  | "platform-variant" => (Decode.string v).map fun a => { d with variant := some a }
  | "supported-archs" => (Decode.list Decode.string v).map fun a => { d with archs := some a }
  | "path" => (Decode.string v).map fun a => { d with path := some a }
  | "linkage" => (Decode.variant Linkage.all Linkage.name v).map fun a => { d with linkage := some a }
  | "packaging" =>
    (Decode.variant Packaging.all Packaging.name v).map fun a => { d with packaging := some a }
  | _ => .ok d

/-- Puts values by position. Only the variant of the platform may be missing. -/
def putItems : List String → Nat → List Value → SliceDraft → Except Error SliceDraft
  | [], _, _, d => .ok d
  | k :: ks, n, [], d =>
    if k = "platform-variant" then putItems ks (n + 1) [] d
    else .error (.invalidLength n "struct XcFrameworkSlice with 7 elements")
  | k :: ks, n, v :: vs, d => do putItems ks (n + 1) vs (← d.put k v)

def required {α : Type} (name : String) : Option α → Except Error α
  | some a => .ok a
  | none => .error (.missingField name)

def finish (d : SliceDraft) : Except Error Slice := do
  return {
    identifier := ← required "identifier" d.identifier
    platform := ← required "platform" d.platform
    variant := d.variant
    archs := ← required "supported-archs" d.archs
    path := ← required "path" d.path
    linkage := ← required "linkage" d.linkage
    packaging := ← required "packaging" d.packaging }

end SliceDraft

/-- A slice, which may also be an array of its values by position. -/
def Slice.decode (v : Value) : Except Error Slice :=
  match v, Decode.members? v with
  | .array items, _ | .tables items, _ =>
    SliceDraft.putItems SliceDraft.keys 0 items .start >>= SliceDraft.finish
  | _, some ms => ms.foldlM (fun d (k, v) => d.put k v) SliceDraft.start >>= SliceDraft.finish
  | v, none => mismatch v "struct XcFrameworkSlice"

namespace Options

def decodeBundles (v : Value) : Except Error (StringMap (List Slice)) :=
  match Decode.members? v with
  | some ms => do
    let entries ← ms.mapM fun (k, v) => do return (k, ← Decode.list Slice.decode v)
    return .ofList entries
  | none => mismatch v "a map"

def put (o : Options) (key : String) (v : Value) : Except Error Options :=
  match key with
  | "ios-platform" => (Decode.string v).map fun a => { o with iosPlatform := a }
  | "link-dynamic" => (Decode.boolean v).map fun a => { o with linkDynamic := a }
  | "deps-prefix" => (Decode.string v).map fun a => { o with depsPrefix := a }
  | "dependency-template" => (Decode.string v).map fun a => { o with dependencyTemplate := a }
  | "subspec-separator" => (Decode.string v).map fun a => { o with subspecSeparator := a }
  | "dynamic-frameworks" =>
    (Decode.list Decode.string v).map fun a => { o with dynamicFrameworks := a }
  | "xcframeworks" => (decodeBundles v).map fun a => { o with xcframeworks := a }
  | _ => .ok o

def decode (ms : Members) : Except Error Options := ms.foldlM (fun o (k, v) => o.put k v) default

def ofToml (s : String) : Except Error Options :=
  match Toml.read? s with
  | some ms => decode ms
  | none => .error .malformed

end Options

/-! ### Writing -/

def Slice.statements (s : Slice) : List Statement :=
  [.assign ["identifier"] (.string s.identifier), .assign ["platform"] (.string s.platform.id)] ++
    (s.variant.elim [] fun v => [.assign ["platform-variant"] (.string v)]) ++
    [.assign ["supported-archs"] (.ofStrings s.archs), .assign ["path"] (.string s.path),
     .assign ["linkage"] (.string s.linkage.name), .assign ["packaging"] (.string s.packaging.name)]

namespace Options

/-- The bundles without slices, under a header unless it would have nothing to
say. -/
def emptyBundles (o : Options) : List Statement :=
  let bundles := o.xcframeworks.toList
  if bundles.isEmpty ∨ bundles.any (·.2.isEmpty) then
    .table ["xcframeworks"] ::
      (bundles.filter (·.2.isEmpty)).map fun (path, _) => .assign [path] (.array [])
  else []

def bundleSlices (o : Options) : List Statement :=
  o.xcframeworks.toList.flatMap fun (path, slices) =>
    slices.flatMap fun s => .element ["xcframeworks", path] :: s.statements

def statements (o : Options) : List Statement :=
  [.assign ["ios-platform"] (.string o.iosPlatform),
   .assign ["link-dynamic"] (.boolean o.linkDynamic),
   .assign ["deps-prefix"] (.string o.depsPrefix),
   .assign ["dependency-template"] (.string o.dependencyTemplate),
   .assign ["subspec-separator"] (.string o.subspecSeparator),
   .assign ["dynamic-frameworks"] (.ofStrings o.dynamicFrameworks)] ++
    o.emptyBundles ++ o.bundleSlices

def toToml (o : Options) : String := Toml.print o.statements

end Options

end PodTarget
