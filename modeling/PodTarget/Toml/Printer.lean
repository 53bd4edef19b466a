import PodTarget.Toml.Quoted
import PodTarget.Toml.Value

/-! Writing TOML 1.0. An array of two or more items has each of them on a line of
its own, four blanks further in and with a comma behind it; one with fewer and a table
inside a value stand on one line. A header has a blank line in front of it. -/

namespace PodTarget.Toml

def pathText (path : List String) : List Char :=
  ((path.map fun k => keyText k.toList).intersperse ['.']).flatten

def realText : Number.Binary64 → List Char
  | .nan => "nan".toList
  | x => (x.text realStyle).toList

def bracketed (items : List (List Char)) : List Char :=
  match items with
  | [] | [_] => '[' :: (items.flatten ++ [']'])
  | items => '[' :: (items.flatMap fun t => "\n    ".toList ++ t ++ [',']) ++ ['\n', ']']

def braced (members : List (List Char)) : List Char :=
  match members with
  | [] => ['\x7b', '\x7d']
  | members => "\x7b ".toList ++ (members.intersperse [',', ' ']).flatten ++ " \x7d".toList

mutual

def Value.text : Value → List Char
  | .string s => quote s.toList
  | .integer i => (toString i).toList
  | .real x => realText x
  | .boolean b => (if b then "true" else "false").toList
  | .moment t => t.toList
  | .array items | .tables items => bracketed (itemTexts items)
  | .table members => braced (memberTexts members)

def itemTexts : List Value → List (List Char)
  | [] => []
  | v :: vs => v.text :: itemTexts vs

def memberTexts : Members → List (List Char)
  | [] => []
  | (k, v) :: ms => (keyText k.toList ++ " = ".toList ++ v.text) :: memberTexts ms

end

def Statement.text : Statement → List Char
  | .assign path v => pathText path ++ " = ".toList ++ v.text ++ ['\n']
  | .table path => "\n[".toList ++ pathText path ++ "]\n".toList
  | .element path => "\n[[".toList ++ pathText path ++ "]]\n".toList

def print (statements : List Statement) : String := .ofList (statements.flatMap Statement.text)

end PodTarget.Toml
