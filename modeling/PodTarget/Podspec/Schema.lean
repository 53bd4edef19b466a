import PodTarget.Json.Decode
import PodTarget.Json.Reader
import PodTarget.Podspec.Basic

/-! Podspecs in JSON. The properties of a spec are read as they come; its
attributes are set aside and read when the object ends, and unknown members are
only looked through. In a platform section, which may also be an array of
attributes by position, everything is read as it comes and unknown members are
skipped. -/

namespace PodTarget

open Json

/-- The properties of a spec other than its attributes. -/
inductive Property
  | name
  | version
  | platforms
  | staticFramework
  | defaultSubspecs
  | platformSection (platform : Platform)
  | subspecs
deriving DecidableEq, Repr

namespace Property

def key : Property → String
  | name => "name"
  | version => "version"
  | platforms => "platforms"
  | staticFramework => "static_framework"
  | defaultSubspecs => "default_subspecs"
  | platformSection p => p.id
  | subspecs => "subspecs"

def all : List Property :=
  [name, version, platforms, staticFramework, defaultSubspecs] ++
    Platform.all.map platformSection ++ [subspecs]

/-- The property that a key names. A single default subspec counts as the list
of them. -/
def ofKey? (k : String) : Option Property :=
  if k = "default_subspec" then some defaultSubspecs else all.find? (·.key = k)

end Property

/-! ### Reading -/

/-- No value stands for the empty list. -/
def stringList : Decoder (List String) := fun room d =>
  (Decoder.optional Decoder.oneOrMany room d).map (·.getD [])

namespace Attribute

def decode (a : Attribute) : Decoder (Attributes → Attributes) := fun room d =>
  match a with
  | list .dependencies =>
    (Decoder.optional Decoder.names room d).map fun v s => { s with dependencies := v.getD [] }
  | list l => (stringList room d).map fun v => l.set v
  | resourceBundles =>
    (Decoder.optional (Decoder.map Decoder.oneOrMany) room d).map fun v s =>
      { s with resourceBundles := v.getD ∅ }
  | xcconfig => (Decoder.map Decoder.string room d).map fun v s => { s with xcconfig := v }
  | swiftVersions =>
    (Decoder.optional Decoder.oneOrMany room d).map fun v s => { s with swiftVersions := v }
  | moduleName =>
    (Decoder.optional Decoder.string room d).map fun v s => { s with moduleName := v }

end Attribute

namespace Attributes

def decodeAll (room : Nat) :
    List (Attribute × Document) → List Attribute → Attributes → Except Error Attributes
  | [], _, s => .ok s
  | (a, d) :: rest, seen, s =>
    if a ∈ seen then .error (.duplicateField a.name)
    else do
      let put ← a.decode room d
      decodeAll room rest (a :: seen) (put s)

def decodeMembers (room : Nat) :
    List (Option String × Document) → List Attribute → Attributes → Except Error Attributes
  | [], _, s => .ok s
  | (none, _) :: _, _, _ => .error .malformed
  | (some k, d) :: ms, seen, s =>
    match Attribute.ofKey? k with
    | none => if d.whole then decodeMembers room ms seen s else .error .malformed
    | some a =>
      if a ∈ seen then .error (.duplicateField a.name)
      else do
        let put ← a.decode room d
        decodeMembers room ms (a :: seen) (put s)

def decodeItems (room : Nat) :
    List Document → List Attribute → Attributes → Except Error Attributes
  | [], _, s => .ok s
  | _ :: _, [], _ => .error .malformed
  | d :: ds, a :: as, s => do
    let put ← a.decode room d
    decodeItems room ds as (put s)

def decode : Decoder Attributes
  | 0, .object _ | 0, .array _ => .error .malformed
  | room + 1, .object ms => decodeMembers room ms [] empty
  | room + 1, .array ds => decodeItems room ds Attribute.all empty
  | _, d => .error (mismatch d "struct SpecAttributes")

end Attributes

/-- Unknown platforms and those without a least version are left out, and the
version for `osx` comes before the one for `macos`. -/
def platformVersions (m : StringMap (Option String)) : PerPlatform (Option String) :=
  .ofFn fun p =>
    match m[p.id]?.join with
    | some v => some v
    | none => if p = .osx then m["macos"]?.join else none

/-- A spec of which a part of the members have been read. The attributes set aside
come in reverse order. -/
structure Draft where
  seen : List Property
  name : Option String
  declaration : Declaration
  subspecs : List Podspec
  aside : List (Attribute × Document)

namespace Draft

def start : Draft := ⟨[], none, .named "", [], []⟩

def update (f : Draft) (g : Declaration → Declaration) : Draft :=
  { f with declaration := g f.declaration }

/-- Reads a property that holds no subspecs. -/
def readProperty (f : Draft) (room : Nat) (p : Property) (d : Document) : Except Error Draft :=
  match p with
  | .name => (Decoder.string room d).map fun v => { f with name := some v }
  | .version =>
    (Decoder.optional Decoder.string room d).map fun v => f.update ({ · with version := v })
  | .platforms =>
    (Decoder.optional (Decoder.map (Decoder.optional Decoder.string)) room d).map fun v =>
      f.update ({ · with platforms := platformVersions (v.getD ∅) })
  | .staticFramework =>
    (Decoder.boolean room d).map fun v => f.update ({ · with staticFramework := v })
  | .defaultSubspecs =>
    (stringList room d).map fun v => f.update ({ · with defaultSubspecs := v })
  | .platformSection q =>
    (Decoder.optional Attributes.decode room d).map fun v =>
      f.update fun s => { s with sections := s.sections.set q v }
  | .subspecs => .ok f

def finish (f : Draft) (room : Nat) : Except Error Podspec :=
  match f.name with
  | none => .error (.missingField "name")
  | some name => do
    let attributes ← Attributes.decodeAll room f.aside.reverse [] .empty
    return ⟨{ f.declaration with name, attributes }, f.subspecs⟩

end Draft

namespace Podspec

mutual

def decode : Document → Nat → Except Error Podspec
  | .object _, 0 => .error .malformed
  | .object ms, room + 1 => decodeMembers ms room .start
  | d, _ => .error (mismatch d "struct Specification")

def decodeMembers : List (Option String × Document) → Nat → Draft → Except Error Podspec
  | [], room, f => f.finish room
  | (none, _) :: _, _, _ => .error .malformed
  | (some k, d) :: ms, room, f =>
    match Property.ofKey? k with
    | some p =>
      if p ∈ f.seen then .error (.duplicateField p.key)
      else
        let f := { f with seen := p :: f.seen }
        match p with
        | .subspecs =>
          match decodeSubspecs d room with
          | .error e => .error e
          | .ok subspecs => decodeMembers ms room { f with subspecs }
        | p =>
          match f.readProperty room p d with
          | .error e => .error e
          | .ok f => decodeMembers ms room f
    | none =>
      if d.sound room then
        match Attribute.ofKey? k with
        | some a => decodeMembers ms room { f with aside := (a, d) :: f.aside }
        | none => decodeMembers ms room f
      else .error .malformed

def decodeSubspecs : Document → Nat → Except Error (List Podspec)
  | .array _, 0 => .error .malformed
  | .array ds, room + 1 => decodeItems ds room
  | d, _ => .error (mismatch d "a sequence")

def decodeItems : List Document → Nat → Except Error (List Podspec)
  | [], _ => .ok []
  | d :: ds, room =>
    match decode d room with
    | .error e => .error e
    | .ok s =>
      match decodeItems ds room with
      | .error e => .error e
      | .ok ss => .ok (s :: ss)

end

/-- Arrays and objects may be nested this deep. -/
def mostLevels : Nat := 127

theorem mostLevels_eq : mostLevels = 127 := rfl

def ofJson (s : String) : Except Error Podspec := do
  let (d, complete) := read s
  let spec ← decode d mostLevels
  if complete then .ok spec else .error .malformed

end Podspec

/-! ### Writing -/

def ofOption (s : Option String) : Document := s.elim .null .string

def Attribute.toDocument (s : Attributes) : Attribute → Document
  | list l => .ofStrings (l.get s)
  | resourceBundles => .ofMembers (s.resourceBundles.toList.map fun (k, v) => (k, .ofStrings v))
  | xcconfig => .ofMembers (s.xcconfig.toList.map fun (k, v) => (k, .string v))
  | swiftVersions => s.swiftVersions.elim .null .ofStrings
  | moduleName => ofOption s.moduleName

def Attributes.members (s : Attributes) : List (String × Document) :=
  Attribute.all.map fun a => (a.name, a.toDocument s)

def Attributes.toDocument (s : Attributes) : Document := .ofMembers s.members

namespace Declaration

def platformsDocument (d : Declaration) : Document :=
  .ofMembers (d.platforms.entries.map fun (p, v) => (p.id, .string v))

def members (d : Declaration) : List (String × Document) :=
  [("name", .string d.name), ("version", ofOption d.version), ("platforms", d.platformsDocument),
   ("static_framework", .boolean d.staticFramework),
   ("default_subspecs", .ofStrings d.defaultSubspecs)] ++
    d.sections.entries.map fun (p, s) => (p.id, s.toDocument)

end Declaration

namespace Podspec

mutual

def toDocument : Podspec → Document
  | ⟨d, subspecs⟩ =>
    .ofMembers (d.members ++
      (match subspecs with
        | [] => []
        | s :: ss => [("subspecs", .array (toDocument s :: toDocuments ss))]) ++
      d.attributes.members)

def toDocuments : List Podspec → List Document
  | [] => []
  | s :: ss => toDocument s :: toDocuments ss

end

def toJson (s : Podspec) : String := s.toDocument.print

end Podspec

end PodTarget
