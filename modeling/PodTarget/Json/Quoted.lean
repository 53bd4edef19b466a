import PodTarget.Text.Hex

/-! String literals of JSON (RFC 8259). Only what has to be escaped is escaped when
written: quotes, backslashes and control characters, by a letter where there is one
and by number otherwise. Read, an escape by number stands for a UTF-16 unit, and two
of them may stand for one character. A control character is refused as it is. -/

namespace PodTarget.Json

open Text

/-- A character and the letter that stands for it after a backslash. -/
def shortEscapes : List (Char × Char) :=
  [('"', '"'), ('\\', '\\'), ('\x08', 'b'), ('\x0c', 'f'), ('\n', 'n'), ('\r', 'r'), ('\t', 't')]

def escape (c : Char) : List Char :=
  match shortEscapes.lookup c with
  | some e => ['\\', e]
  | none =>
    if c.toNat < 0x20 then ['\\', 'u', '0', '0', hexDigit (c.toNat / 16), hexDigit (c.toNat % 16)]
    else [c]

def quote (s : List Char) : List Char := '"' :: (s.flatMap escape ++ ['"'])

def unescape? (e : Char) : Option Char :=
  if e = '/' then some '/' else (shortEscapes.find? (·.2 = e)).map (·.1)

/-- The code points and surrogates up to the closing quote, and the text after
it; nothing where there is no closing quote or an error before it. -/
def units? : List Char → Option (List Nat × List Char)
  | [] => none
  | '"' :: rest => some ([], rest)
  | '\\' :: 'u' :: a :: b :: c :: d :: s => do
    let u ← hexNumber? [a, b, c, d]
    let (us, rest) ← units? s
    some (u :: us, rest)
  | '\\' :: e :: s => do
    let c ← unescape? e
    let (us, rest) ← units? s
    some (c.toNat :: us, rest)
  | c :: s =>
    if c.toNat < 0x20 ∨ c = '\\' then none
    else (units? s).map fun (us, rest) => (c.toNat :: us, rest)

def isHigh (u : Nat) : Bool := 0xD800 ≤ u && u < 0xDC00

def isLow (u : Nat) : Bool := 0xDC00 ≤ u && u < 0xE000

def ofUnits? : List Nat → Option (List Char)
  | [] => some []
  | [u] => if isHigh u || isLow u then none else some [.ofNat u]
  | u :: v :: us =>
    if isHigh u then
      if isLow v then
        (ofUnits? us).map (Char.ofNat (0x10000 + (u - 0xD800) * 0x400 + (v - 0xDC00)) :: ·)
      else none
    else if isLow u then none
    else (ofUnits? (v :: us)).map (Char.ofNat u :: ·)

end PodTarget.Json
