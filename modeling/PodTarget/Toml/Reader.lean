import PodTarget.Toml.Moment
import PodTarget.Toml.Numeral
import PodTarget.Toml.Quoted
import PodTarget.Toml.Tree

/-! Reading TOML 1.0 line by line. A line holds a header or a key with its value, and
may end in a comment; a table between braces stands on one line and has no comma
behind its last member. A mark of the byte order may stand in front of the text. A
path has fewer than eighty parts, and a value as many levels. -/

namespace PodTarget.Toml

open Text

def skipGap (s : List Char) : List Char := s.dropWhile isGap

def skipComment (s : List Char) : List Char :=
  match s with
  | '#' :: s => s.dropWhile isPlain
  | s => s

def newline? : List Char → Option (List Char)
  | '\n' :: s => some s
  | '\r' :: '\n' :: s => some s
  | _ => none

def lineEnd? (s : List Char) : Option (List Char) :=
  match skipComment (skipGap s) with
  | [] => some []
  | s => newline? s

/-- Passes over blanks, comments and the ends of so many lines. -/
def skipLines : Nat → List Char → List Char
  | 0, s => s
  | n + 1, s =>
    match newline? (skipComment (skipGap s)) with
    | some rest => skipLines n rest
    | none => skipGap s

def skipAll (s : List Char) : List Char := skipLines s.length s

/-! ### Keys -/

def limit : Nat := 80

def keys? : Nat → List Char → Option (List String × List Char)
  | 0, _ => none
  | n + 1, s => do
    let (k, s) ← key? (skipGap s)
    match skipGap s with
    | '.' :: s =>
      let (ks, s) ← keys? n s
      return (.ofList k :: ks, s)
    | s => return ([.ofList k], s)

def path? (s : List Char) : Option (List String × List Char) := keys? (limit - 1) s

/-! ### Values -/

def wordValue? (s : List Char) : Option (Value × List Char) :=
  (after? "true".toList s).map (Value.boolean true, ·) <|>
    (after? "false".toList s).map (Value.boolean false, ·)

def scalarValue? (s : List Char) : Option (Value × List Char) :=
  match delimiter? s with
  | some d => (d.read? s).map fun (t, rest) => (.string (.ofList t), rest)
  | none =>
    wordValue? s <|> (moment? s).map (fun (t, rest) => (.moment (.ofList t), rest)) <|> numeral? s

/-- The items of an array up to its end, after each of which a comma may
follow. -/
def items? (item? : List Char → Option (Value × List Char)) :
    Nat → List Char → Option (List Value × List Char)
  | 0, _ => none
  | n + 1, s =>
    match skipAll s with
    | ']' :: rest => some ([], rest)
    | s => do
      let (v, s) ← item? s
      match skipAll s with
      | ',' :: s =>
        let (vs, rest) ← items? item? n s
        return (v :: vs, rest)
      | ']' :: rest => return ([v], rest)
      | _ => none

def assignment? (item? : List Char → Option (Value × List Char)) (s : List Char) :
    Option ((List String × Value) × List Char) := do
  let (path, s) ← path? s
  let s ← after? ['='] s
  let (v, s) ← item? (skipGap s)
  return ((path, v), s)

/-- The assignments of a table on one line, one at least, up to its end. -/
def assignments? (item? : List Char → Option (Value × List Char)) :
    Nat → List Char → Option (List (List String × Value) × List Char)
  | 0, _ => none
  | n + 1, s => do
    let (a, s) ← assignment? item? s
    match skipGap s with
    | ',' :: s =>
      let (as, rest) ← assignments? item? n s
      return (a :: as, rest)
    | '\x7d' :: rest => return ([a], rest)
    | _ => none

def tableOnLine? (item? : List Char → Option (Value × List Char)) (s : List Char) :
    Option (Value × List Char) :=
  match skipGap s with
  | '\x7d' :: rest => some (.table [], rest)
  | s => do
    let (as, rest) ← assignments? item? s.length s
    return (← tableOf? as, rest)

def value? : Nat → List Char → Option (Value × List Char)
  | 0, '[' :: _ | 0, '\x7b' :: _ => none
  | levels + 1, '[' :: s =>
    (items? (value? levels) (s.length + 1) s).map fun (vs, rest) => (.array vs, rest)
  | levels + 1, '\x7b' :: s => tableOnLine? (value? levels) s
  | _, s => scalarValue? s

/-! ### Lines -/

def statement? (s : List Char) : Option (Statement × List Char) :=
  match s with
  | '[' :: '[' :: s => do
    let (path, s) ← path? s
    return (.element path, ← after? [']', ']'] s)
  | '[' :: s => do
    let (path, s) ← path? s
    return (.table path, ← after? [']'] s)
  | s => (assignment? (value? (limit - 1)) s).map fun ((path, v), rest) => (.assign path v, rest)

/-- Each step passes over a line. -/
def statements? : Nat → List Char → Option (List Statement)
  | 0, s => if s.isEmpty then some [] else none
  | n + 1, s =>
    if s.isEmpty then some []
    else
      match lineEnd? s with
      | some rest => statements? n rest
      | none => do
        let (x, s) ← statement? (skipGap s)
        let s ← lineEnd? s
        return x :: (← statements? n s)

def dropMark : List Char → List Char
  | '\uFEFF' :: s => s
  | s => s

def read? (s : String) : Option Members :=
  let s := dropMark s.toList
  (statements? s.length s).bind membersOf?

end PodTarget.Toml
