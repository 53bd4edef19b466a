import PodTarget.Number.Digits
import PodTarget.Text.Hex
import PodTarget.Text.Split
import PodTarget.Toml.Value

/-! Numbers of TOML 1.0: in base ten with a sign, a fraction and an exponent, whole
ones in base two, eight and sixteen without a sign, infinities, and what is not a
number. Underscores may part the digits, and no further digit follows a zero in front.
Whole numbers have 64 bits. -/

namespace PodTarget.Toml

open Number Text

/-- What follows a digit: more digits, each with an underscore before it or
none. -/
def moreDigits (isDigit : Char → Bool) : List Char → List Char × List Char
  | [] => ([], [])
  | [c] => if isDigit c then ([c], []) else ([], [c])
  | c :: d :: s =>
    if isDigit c then
      let (ds, rest) := moreDigits isDigit (d :: s)
      (c :: ds, rest)
    else if c = '_' ∧ isDigit d then
      let (ds, rest) := moreDigits isDigit s
      (d :: ds, rest)
    else ([], c :: d :: s)

def digitRun? (isDigit : Char → Bool) : List Char → Option (List Char × List Char)
  | [] => none
  | c :: s =>
    if isDigit c then
      let (ds, rest) := moreDigits isDigit s
      some (c :: ds, rest)
    else none

def wholeDigits? (s : List Char) : Option (List Char × List Char) :=
  match s with
  | '0' :: s => some (['0'], s)
  | s => digitRun? Char.isDigit s

def fractionDigits? (s : List Char) : Option (Option (List Char) × List Char) :=
  match s with
  | '.' :: s => (digitRun? Char.isDigit s).map fun (ds, rest) => (some ds, rest)
  | s => some (none, s)

def exponentPart? (s : List Char) : Option (Option Int × List Char) :=
  match s with
  | [] => some (none, [])
  | e :: s =>
    if e = 'e' ∨ e = 'E' then
      let (negative, s) := sign s
      (digitRun? Char.isDigit s).map fun (ds, rest) =>
        let n : Int := digitsValue ds
        (some (if negative then -n else n), rest)
    else some (none, e :: s)

def wholeValue? (i : Int) : Option Value :=
  if -(Nat.pow 2 63 : Int) ≤ i ∧ i < (Nat.pow 2 63 : Int) then some (.integer i) else none

/-- A number beyond the largest double is none, but one below the least is an
infinity. -/
def realValue? (negative : Bool) (d : Decimal) : Option Value :=
  match d.toBinary64 negative with
  | .infinite false => none
  | x => some (.real x)

def decimal? (s : List Char) : Option (Value × List Char) := do
  let (negative, s) := sign s
  let (whole, s) ← wholeDigits? s
  let (fraction, s) ← fractionDigits? s
  let (exponent, s) ← exponentPart? s
  let value ←
    if fraction.isNone && exponent.isNone then
      let n : Int := digitsValue whole
      wholeValue? (if negative then -n else n)
    else realValue? negative (.ofDigits whole (fraction.getD []) (exponent.getD 0))
  return (value, s)

def digitBelow (base : Nat) (c : Char) : Bool := (hexValue? c).any (· < base)

def radixValue (base : Nat) (ds : List Char) : Nat :=
  ds.foldl (fun n c => base * n + (hexValue? c).getD 0) 0

/-- A number of another base than ten, the letter of which stands behind a
zero. -/
def radix? (letter : Char) (base : Nat) (s : List Char) : Option (Value × List Char) := do
  let s ← after? ['0', letter] s
  let (ds, s) ← digitRun? (digitBelow base) s
  return (← wholeValue? (radixValue base ds), s)

def special? (s : List Char) : Option (Value × List Char) :=
  let (negative, s) := sign s
  match after? "inf".toList s, after? "nan".toList s with
  | some rest, _ => some (.real (.infinite negative), rest)
  | none, some rest => some (.real .nan, rest)
  | none, none => none

def numeral? (s : List Char) : Option (Value × List Char) :=
  radix? 'x' 16 s <|> radix? 'o' 8 s <|> radix? 'b' 2 s <|> special? s <|> decimal? s

end PodTarget.Toml
