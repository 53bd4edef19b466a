import PodTarget.Text.Hex
import PodTarget.Text.Split

/-! Strings and keys of TOML 1.0. Strings stand between single or double quotes, and
between three of them where they may have more than one line. Between double quotes a
backslash escapes, and one at the end of a line takes with it the blanks and lines
that follow. Of control characters only tabs may stand for themselves. A string is
written in the simplest way that needs no escape, if there is one. -/

namespace PodTarget.Toml

open Text

structure Delimiter where
  quote : Char
  long : Bool
deriving DecidableEq, Repr

namespace Delimiter

def basic : Delimiter := ⟨'"', false⟩

def literal : Delimiter := ⟨'\'', false⟩

def longBasic : Delimiter := ⟨'"', true⟩

def longLiteral : Delimiter := ⟨'\'', true⟩

def escapes (d : Delimiter) : Bool := d.quote = '"'

def text (d : Delimiter) : List Char := List.replicate (if d.long then 3 else 1) d.quote

end Delimiter

/-- A character and the letter that stands for it after a backslash. -/
def shortEscapes : List (Char × Char) :=
  [('\x08', 'b'), ('\t', 't'), ('\n', 'n'), ('\x0c', 'f'), ('\r', 'r'), ('"', '"'), ('\\', '\\')]

def isPlain (c : Char) : Bool := c = '\t' || (0x20 ≤ c.toNat && c.toNat ≠ 0x7F)

/-! ### Reading -/

def scalar? (digits : List Char) : Option Char :=
  (hexNumber? digits).bind fun n => if n.isValidChar then some (.ofNat n) else none

def unescape? (e : Char) : Option Char := (shortEscapes.find? (·.2 = e)).map (·.1)

def isGap (c : Char) : Bool := c = ' ' || c = '\t'

def endsLine (s : List Char) : Bool :=
  match s.dropWhile isGap with
  | '\n' :: _ | '\r' :: '\n' :: _ => true
  | _ => false

/-- The end of a long string: of three to five quotes the last three. -/
def closing? (quote : Char) (s : List Char) : Option (List Char × List Char) :=
  let run := min 5 (s.takeWhile (· = quote)).length
  if 3 ≤ run then some (List.replicate (run - 3) quote, s.drop run) else none

def prepend (c : Char) : List Char × List Char → List Char × List Char
  | (s, rest) => (c :: s, rest)

/-- The characters up to the end of a string, and the text after it. After a
backslash at the end of a line blanks and lines are passed over (`folding`). -/
def Delimiter.body? (d : Delimiter) : Bool → List Char → Option (List Char × List Char)
  | _, [] => none
  | folding, c :: s =>
    if c = d.quote then
      if d.long then
        match closing? d.quote (c :: s) with
        | some r => some r
        | none => (d.body? false s).map (prepend c)
      else some ([], s)
    else if c = '\\' ∧ d.escapes then
      if d.long ∧ endsLine s then d.body? true s
      else
        match s with
        | 'u' :: e :: f :: g :: h :: s =>
          (scalar? [e, f, g, h]).bind fun c => (d.body? false s).map (prepend c)
        | 'U' :: i :: j :: k :: l :: e :: f :: g :: h :: s =>
          (scalar? [i, j, k, l, e, f, g, h]).bind fun c => (d.body? false s).map (prepend c)
        | e :: s => (unescape? e).bind fun c => (d.body? false s).map (prepend c)
        | [] => none
    else if folding ∧ (isGap c ∨ c = '\n') then d.body? true s
    else if c = '\n' then
      if d.long then (d.body? false s).map (prepend c) else none
    else if c = '\r' then
      if d.long ∧ s.head? = some '\n' then d.body? folding s else none
    else if isPlain c then (d.body? false s).map (prepend c)
    else none

def dropNewline : List Char → List Char
  | '\n' :: s => s
  | '\r' :: '\n' :: s => s
  | s => s

def Delimiter.read? (d : Delimiter) (s : List Char) : Option (List Char × List Char) :=
  (after? d.text s).bind fun s => d.body? false (if d.long then dropNewline s else s)

def delimiter? (s : List Char) : Option Delimiter :=
  [.longBasic, .longLiteral, .basic, .literal].find? fun (d : Delimiter) =>
    (after? d.text s).isSome

/-! ### Writing -/

def isCode (c : Char) : Bool := !isPlain c && c ≠ '\n'

def longestRun (q : Char) : Nat → List Char → Nat
  | n, [] => n
  | n, c :: s => if c = q then max n (longestRun q (n + 1) s) else max n (longestRun q 0 s)

/-- An escape by letter, where there is one, or else by number. -/
def escape (c : Char) : List Char :=
  match shortEscapes.lookup c with
  | some e => ['\\', e]
  | none =>
    ['\\', 'u', '0', '0', (hexDigit (c.toNat / 16)).toUpper, (hexDigit (c.toNat % 16)).toUpper]

/-- The characters of a string between double quotes, of which `run` stand in
front. A quote is escaped where too many would stand together. -/
def escapeAll (long : Bool) : Nat → List Char → List Char
  | _, [] => []
  | run, c :: s =>
    if c = '"' then
      if run < (if long then 2 else 0) then c :: escapeAll long (run + 1) s
      else escape c ++ escapeAll long 0 s
    else if c = '\n' ∧ long then c :: escapeAll long 0 s
    else if c = '\\' ∨ c = '\t' ∨ !isPlain c then escape c ++ escapeAll long 0 s
    else c :: escapeAll long 0 s

def Delimiter.write (d : Delimiter) (s : List Char) : List Char :=
  d.text ++ (if d.long ∧ '\n' ∈ s then ['\n'] else []) ++
    (if d.escapes then escapeAll d.long 0 s else s) ++ d.text

def delimiterOf (s : List Char) : Delimiter :=
  let codes := s.any isCode
  let lines := '\n' ∈ s
  if !codes ∧ '\\' ∉ s ∧ '"' ∉ s ∧ !lines then .basic
  else if !codes ∧ '\'' ∉ s ∧ !lines then .literal
  else if !codes ∧ '\\' ∉ s ∧ longestRun '"' 0 s ≤ 2 then .longBasic
  else if !codes ∧ longestRun '\'' 0 s ≤ 2 then .longLiteral
  else if lines then .longBasic
  else .basic

def quote (s : List Char) : List Char := (delimiterOf s).write s

/-! ### Keys -/

def isKeyChar (c : Char) : Bool := c.isAlphanum || c = '_' || c = '-'

/-- A key is written without quotes where it can be, and never on two lines. -/
def keyText (s : List Char) : List Char :=
  if s ≠ [] ∧ s.all isKeyChar then s
  else if s.all isPlain ∧ ('"' ∈ s ∨ '\\' ∈ s) ∧ '\'' ∉ s then Delimiter.literal.write s
  else Delimiter.basic.write s

def key? (s : List Char) : Option (List Char × List Char) :=
  match s with
  | '"' :: _ => Delimiter.basic.read? s
  | '\'' :: _ => Delimiter.literal.read? s
  | _ =>
    match s.takeWhile isKeyChar with
    | [] => none
    | k => some (k, s.dropWhile isKeyChar)

end PodTarget.Toml
