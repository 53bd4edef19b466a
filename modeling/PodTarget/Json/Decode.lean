import PodTarget.Collections
import PodTarget.Json.Printer
import PodTarget.Text.Shown

/-! Values read from a document of JSON. A decoder goes through the document from
left to right and stops at the first error, be it that the document breaks off or
that it has another shape than expected. What JSON leaves to its readers is settled
as follows. Where a value may be missing null stands for none. A map takes the last
of the values under one key; a record refuses a field that comes twice, and passes
over members that are no fields of its own. Where a value may have several shapes
the document is read as a whole first and the shapes are tried in order. -/

namespace PodTarget.Json

open Text

inductive Error
  | malformed
  | invalidType (found expected : String)
  | duplicateField (name : String)
  | missingField (name : String)
  | noVariant (kind : String)
deriving DecidableEq, Repr

def Error.message : Error → String
  | malformed => "not JSON"
  | invalidType found expected => "invalid type: " ++ found ++ ", expected " ++ expected
  | duplicateField name => "duplicate field " ++ ticked name
  | missingField name => "missing field " ++ ticked name
  | noVariant kind => "data did not match any variant of untagged enum " ++ kind

/-- What a document is called in errors; nothing where it has no value. -/
def Document.shape? : Document → Option String
  | null => some "null"
  | boolean b => some ("boolean " ++ ticked (if b then "true" else "false"))
  | number (.whole i) => some ("integer " ++ ticked (toString i))
  | number (.real x) => some ("floating point " ++ ticked (x.text realStyle))
  | string s => some ("string " ++ shown s)
  | array _ => some "sequence"
  | object _ => some "map"
  | valueless | torn => none

def mismatch (d : Document) (expected : String) : Error :=
  match d.shape? with
  | some found => .invalidType found expected
  | none => .malformed

/-- A decoder is told how many more levels the document may have. -/
abbrev Decoder (α : Type) := Nat → Document → Except Error α

namespace Decoder

variable {α : Type}

def string : Decoder String
  | _, .string s => .ok s
  | _, d => .error (mismatch d "a string")

def boolean : Decoder Bool
  | _, .boolean b => .ok b
  | _, d => .error (mismatch d "a boolean")

def optional (inner : Decoder α) : Decoder (Option α)
  | _, .null => .ok none
  | room, d => (inner room d).map some

def entries (inner : Decoder α) (room : Nat) :
    List (Option String × Document) → Except Error (List (String × α))
  | [] => .ok []
  | (none, _) :: _ => .error .malformed
  | (some k, d) :: ms => do
    let a ← inner room d
    let rest ← entries inner room ms
    return (k, a) :: rest

def map (inner : Decoder α) : Decoder (StringMap α)
  | 0, .object _ => .error .malformed
  | room + 1, .object ms => (entries inner room ms).map fun es => .ofList es
  | _, d => .error (mismatch d "a map")

/-- A document that is read as a whole before its shape is looked at. -/
def buffered (kind : String) (shape : Document → Option α) : Decoder α := fun room d =>
  if d.sound room then
    match shape d with
    | some a => .ok a
    | none => .error (.noVariant kind)
  else .error .malformed

def string? : Document → Option String
  | .string s => some s
  | _ => none

def strings? : Document → Option (List String)
  | .array items => items.mapM string?
  | _ => none

def oneOrMany? (d : Document) : Option (List String) := (string? d).map ([·]) <|> strings? d

def oneOrMany : Decoder (List String) := buffered "OneOrMany" oneOrMany?

def keys (members : List (Option String × Document)) : List String :=
  (Std.ExtTreeSet.ofList (members.filterMap (·.1)) : StringSet).toList

/-- Names, which may also be the keys of an object. -/
def namesOf? : Document → Option (List String)
  | .object members => some (keys members)
  | d => oneOrMany? d

def names : Decoder (List String) := buffered "Dependencies" namesOf?

end Decoder

end PodTarget.Json
