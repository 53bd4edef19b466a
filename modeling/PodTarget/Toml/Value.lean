import PodTarget.Number.Shortest

/-! What a document of TOML 1.0 says, and the lines it is written in. A moment is a
date, a time or both, in a text that has one form only. Arrays whose items are tables
with headers of their own are told apart from those written between brackets. A line
that is not blank puts a value at a path from the table that is being written, or has
the header of the table, or of one more table of an array, that is written next; a
path is a list of keys and is not empty. -/

namespace PodTarget.Toml

inductive Value
  | string (text : String)
  | integer (value : Int)
  | real (value : Number.Binary64)
  | boolean (value : Bool)
  | moment (text : String)
  | array (items : List Value)
  | tables (items : List Value)
  | table (members : List (String × Value))

abbrev Members := List (String × Value)

/-- A number is written out without an exponent. -/
def realStyle : Number.Style := ⟨none, none, "", .up⟩

def Value.ofStrings (items : List String) : Value := .array (items.map .string)

inductive Statement
  | assign (path : List String) (value : Value)
  | table (path : List String)
  | element (path : List String)

end PodTarget.Toml
