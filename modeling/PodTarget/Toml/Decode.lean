import PodTarget.Text.Shown
import PodTarget.Toml.Value

/-! Values read from a document of TOML. Decoding stops at the first error. One of
several names is written as a text, or as a table with the name as its only key and
nothing under it; a date or a time counts as a table of its text. -/

namespace PodTarget.Toml

inductive Error
  | malformed
  | invalidType (found expected : String)
  | invalidLength (length : Nat) (expected : String)
  | missingField (name : String)
  | unknownVariant (name : String) (known : List String)
  | noVariant
  | noKey
  | severalKeys
  | notEmpty (kind : String)
  | noTable (found : String)
deriving DecidableEq, Repr

open Text

def expectedVariants : List String → String
  | [a, b] => ticked a ++ " or " ++ ticked b
  | names => "one of " ++ String.intercalate ", " (names.map ticked)

def Error.message : Error → String
  | malformed => "not TOML"
  | invalidType found expected => "invalid type: " ++ found ++ ", expected " ++ expected
  | invalidLength n expected => "invalid length " ++ toString n ++ ", expected " ++ expected
  | missingField name => "missing field " ++ ticked name
  | unknownVariant name known =>
    "unknown variant " ++ ticked name ++ ", expected " ++ expectedVariants known
  | noVariant => "wanted string or table"
  | noKey => "wanted exactly 1 element, found 0 elements"
  | severalKeys => "wanted exactly 1 element, more than 1 element"
  | notEmpty kind => "expected empty " ++ kind
  | noTable found => "expected table, found " ++ found

/-- What a value is called in errors. -/
def Value.shape : Value → String
  | string s => "string " ++ shown s
  | integer i => "integer " ++ ticked (toString i)
  | real x => "floating point " ++ ticked (x.text realStyle)
  | boolean b => "boolean " ++ ticked (if b then "true" else "false")
  | array _ | tables _ => "sequence"
  | moment _ | table _ => "map"

def mismatch {α : Type} (v : Value) (expected : String) : Except Error α :=
  .error (.invalidType v.shape expected)

namespace Decode

def string : Value → Except Error String
  | .string s => .ok s
  | v => mismatch v "a string"

def boolean : Value → Except Error Bool
  | .boolean b => .ok b
  | v => mismatch v "a boolean"

def list {α : Type} (item : Value → Except Error α) : Value → Except Error (List α)
  | .array items | .tables items => items.mapM item
  | v => mismatch v "a sequence"

def members? : Value → Option Members
  | .table ms => some ms
  | .moment t => some [("moment", .string t)]
  | _ => none

def nothing : Value → Except Error Unit
  | .array [] | .tables [] | .table [] => .ok ()
  | .array _ | .table _ => .error (.notEmpty "table")
  | .tables _ => .error (.notEmpty "array")
  | .string _ => .error (.noTable "string")
  | .integer _ => .error (.noTable "integer")
  | .real _ => .error (.noTable "float")
  | .boolean _ => .error (.noTable "boolean")
  | .moment _ => .error (.noTable "datetime")

/-- One of the things that have the names given. -/
def variant {α : Type} (known : List α) (name : α → String) (v : Value) : Except Error α :=
  let ofName (s : String) : Except Error α :=
    match known.find? (name · = s) with
    | some a => .ok a
    | none => .error (.unknownVariant s (known.map name))
  match v with
  | .string s => ofName s
  | .table [(k, v)] => do
    let a ← ofName k
    nothing v
    return a
  | .table [] => .error .noKey
  | .table _ => .error .severalKeys
  | _ => .error .noVariant

end Decode

end PodTarget.Toml
