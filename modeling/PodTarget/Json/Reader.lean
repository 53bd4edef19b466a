import PodTarget.Json.Numeral
import PodTarget.Json.Quoted
import PodTarget.Text.Split

/-! Reading JSON from left to right, by the grammar of RFC 8259: white space is a
blank, a tab or the end of a line, there is no comma after the last item, and a text
holds one document of any kind. Where the text stops being JSON the document is torn,
and there is no rest to go on with. -/

namespace PodTarget.Json

open Text

def isSpace (c : Char) : Bool := c = ' ' || c = '\n' || c = '\t' || c = '\r'

def skip (s : List Char) : List Char := s.dropWhile isSpace

def wordOr (word : String) (d : Document) (s : List Char) : Document × Option (List Char) :=
  match after? word.toList s with
  | some rest => (d, some rest)
  | none => (.torn, none)

def readNumber (s : List Char) : Document × Option (List Char) :=
  match numeral? s with
  | some (n, rest) => (n.value?.elim .valueless .number, some rest)
  | none => (.torn, none)

def readScalar (s : List Char) : Document × Option (List Char) :=
  match s with
  | 'n' :: _ => wordOr "null" .null s
  | 't' :: _ => wordOr "true" (.boolean true) s
  | 'f' :: _ => wordOr "false" (.boolean false) s
  | _ => readNumber s

def text? (s : List Char) : Option (Option String × List Char) :=
  (units? s).map fun (us, rest) => ((ofUnits? us).map .ofList, rest)

mutual

def readValue : Nat → List Char → Document × Option (List Char)
  | 0, _ => (.torn, none)
  | n + 1, s =>
    match skip s with
    | '"' :: s =>
      match text? s with
      | some (t, rest) => (t.elim .valueless .string, some rest)
      | none => (.torn, none)
    | '[' :: s =>
      match skip s with
      | ']' :: rest => (.array [], some rest)
      | _ =>
        let (items, rest) := readItems n s
        (.array items, rest)
    | '\x7b' :: s =>
      match skip s with
      | '\x7d' :: rest => (.object [], some rest)
      | _ =>
        let (members, rest) := readMembers n s
        (.object members, rest)
    | s => readScalar s

/-- Items up to the closing bracket, one at least. -/
def readItems : Nat → List Char → List Document × Option (List Char)
  | 0, _ => ([.torn], none)
  | n + 1, s =>
    match readValue n s with
    | (d, none) => ([d], none)
    | (d, some s) =>
      match skip s with
      | ']' :: rest => ([d], some rest)
      | ',' :: s =>
        let (ds, rest) := readItems n s
        (d :: ds, rest)
      | _ => ([d, .torn], none)

/-- Members up to the closing brace, one at least. -/
def readMembers : Nat → List Char → List (Option String × Document) × Option (List Char)
  | 0, _ => ([(none, .torn)], none)
  | n + 1, s =>
    match skip s with
    | '"' :: s =>
      match text? s with
      | none => ([(none, .torn)], none)
      | some (k, s) =>
        match skip s with
        | ':' :: s =>
          match readValue n s with
          | (d, none) => ([(k, d)], none)
          | (d, some s) =>
            match skip s with
            | '\x7d' :: rest => ([(k, d)], some rest)
            | ',' :: s =>
              let (ms, rest) := readMembers n s
              ((k, d) :: ms, rest)
            | _ => ([(k, d), (none, .torn)], none)
        | _ => ([(k, .torn)], none)
    | _ => ([(none, .torn)], none)

end

/-- A whole text, and whether nothing but white space follows the document.
Two steps at most go by without using up a character. -/
def read (s : String) : Document × Bool :=
  let (d, rest) := readValue (2 * s.toList.length + 2) s.toList
  (d, rest.elim false fun r => (skip r).isEmpty)

end PodTarget.Json
