import PodTarget.Number.Binary64

/-! Numbers written in decimal digits. What is read off the front of a text is given
back with the rest. A sign and an exponent may be missing, and so may the point and the
digits on one side of it. -/

namespace PodTarget.Number

def digitsValue (ds : List Char) : Nat := ds.foldl (fun n c => 10 * n + (c.toNat - '0'.toNat)) 0

def digits? (s : List Char) : Option (List Char × List Char) :=
  match s.takeWhile Char.isDigit with
  | [] => none
  | ds => some (ds, s.dropWhile Char.isDigit)

def sign (s : List Char) : Bool × List Char :=
  match s with
  | '+' :: s => (false, s)
  | '-' :: s => (true, s)
  | s => (false, s)

def exponent? (s : List Char) : Option (Option Int × List Char) :=
  match s with
  | [] => some (none, [])
  | e :: s =>
    if e = 'e' ∨ e = 'E' then
      let (negative, s) := sign s
      (digits? s).map fun (ds, rest) =>
        let n : Int := digitsValue ds
        (some (if negative then -n else n), rest)
    else some (none, e :: s)

def Decimal.ofDigits (whole fraction : List Char) (exponent : Int) : Decimal :=
  ⟨digitsValue (whole ++ fraction), exponent - fraction.length⟩

def mantissa? (s : List Char) : Option (List Char × List Char × List Char) :=
  let whole := s.takeWhile Char.isDigit
  let (fraction, rest) :=
    match s.dropWhile Char.isDigit with
    | '.' :: s => (s.takeWhile Char.isDigit, s.dropWhile Char.isDigit)
    | s => ([], s)
  if whole.isEmpty && fraction.isEmpty then none else some (whole, fraction, rest)

def unsignedDecimal? (s : List Char) : Option Decimal := do
  let (whole, fraction, s) ← mantissa? s
  let (exponent, rest) ← exponent? s
  if rest.isEmpty then some (.ofDigits whole fraction (exponent.getD 0)) else none

/-- A double from its text: a decimal, an infinity or not a number. -/
def Binary64.ofText? (s : List Char) : Option Binary64 :=
  let (negative, s) := sign s
  let word := String.ofList (s.map Char.toLower)
  if word = "inf" ∨ word = "infinity" then some (.infinite negative)
  else if word = "nan" then some .nan
  else (unsignedDecimal? s).map (Decimal.toBinary64 negative)

end PodTarget.Number
