import PodTarget.Number.Shortest

/-! Documents of JSON (RFC 8259) as they are read: the members of an object in their
order, repeated ones included, and everything in front of where the text stops
being JSON, which is where the document is torn. A number beyond the largest double
and a string with half of a surrogate pair are well-formed, but have no value. A key
is missing where it is such a string or the text breaks off in it. -/

namespace PodTarget.Json

/-- A number is kept whole where 64 bits hold it. -/
inductive Number
  | whole (value : Int)
  | real (value : PodTarget.Number.Binary64)
deriving DecidableEq, Repr

inductive Document
  | null
  | boolean (value : Bool)
  | number (value : Number)
  | string (text : String)
  | array (items : List Document)
  | object (members : List (Option String × Document))
  | valueless
  | torn

namespace Document

def ofStrings (items : List String) : Document := .array (items.map .string)

def ofMembers (members : List (String × Document)) : Document :=
  .object (members.map fun (k, v) => (some k, v))

mutual

/-- Everything in the document has a value, and its arrays and objects are
nested at most `room` deep. -/
def sound : Document → Nat → Bool
  | .null, _ | .boolean _, _ | .number _, _ | .string _, _ => true
  | .array _, 0 | .object _, 0 => false
  | .array items, room + 1 => allSound items room
  | .object members, room + 1 => membersSound members room
  | .valueless, _ | .torn, _ => false

def allSound : List Document → Nat → Bool
  | [], _ => true
  | d :: ds, room => sound d room && allSound ds room

def membersSound : List (Option String × Document) → Nat → Bool
  | [], _ => true
  | (k, d) :: ms, room => k.isSome && sound d room && membersSound ms room

end

mutual

def whole : Document → Bool
  | .torn => false
  | .array items => allWhole items
  | .object members => membersWhole members
  | _ => true

def allWhole : List Document → Bool
  | [] => true
  | d :: ds => whole d && allWhole ds

def membersWhole : List (Option String × Document) → Bool
  | [] => true
  | (_, d) :: ms => whole d && membersWhole ms

end

end Document

end PodTarget.Json
