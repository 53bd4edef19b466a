import PodTarget.Number.Digits

/-! Dates and times of TOML 1.0, which are those of RFC 3339, of the days that there
are: with an offset, without one, a date alone or a time alone. One that is read is
brought into the form that RFC 3339 prefers, with nine digits after the point at
most. -/

namespace PodTarget.Toml

open Number

/-- A number of so many digits within bounds, and the text after it. -/
def bounded? (width low high : Nat) (s : List Char) : Option (List Char × List Char) :=
  let ds := s.take width
  let n := digitsValue ds
  if ds.length = width ∧ ds.all Char.isDigit ∧ low ≤ n ∧ n ≤ high then some (ds, s.drop width)
  else none

def mark? (marks : List Char) : List Char → Option (List Char)
  | c :: s => if c ∈ marks then some s else none
  | [] => none

def isLeap (year : Nat) : Bool := year % 4 = 0 && (year % 100 ≠ 0 || year % 400 = 0)

def daysIn (year month : Nat) : Nat :=
  if month = 2 then if isLeap year then 29 else 28
  else if month ∈ [4, 6, 9, 11] then 30
  else 31

def date? (s : List Char) : Option (List Char × List Char) := do
  let (year, s) ← bounded? 4 0 9999 s
  let s ← mark? ['-'] s
  let (month, s) ← bounded? 2 1 12 s
  let s ← mark? ['-'] s
  let (day, s) ← bounded? 2 1 (daysIn (digitsValue year) (digitsValue month)) s
  return (year ++ ['-'] ++ month ++ ['-'] ++ day, s)

/-- A fraction of a second, of which nine digits count. -/
def secondFraction (s : List Char) : List Char × List Char :=
  match s with
  | '.' :: r =>
    match digits? r with
    | none => ([], s)
    | some (ds, rest) =>
      match ((ds.take 9).reverse.dropWhile (· = '0')).reverse with
      | [] => ([], rest)
      | ds => ('.' :: ds, rest)
  | s => ([], s)

/-- A minute may have a leap second. -/
def time? (s : List Char) : Option (List Char × List Char) := do
  let (hour, s) ← bounded? 2 0 23 s
  let s ← mark? [':'] s
  let (minute, s) ← bounded? 2 0 59 s
  let s ← mark? [':'] s
  let (second, s) ← bounded? 2 0 60 s
  let (fraction, s) := secondFraction s
  return (hour ++ [':'] ++ minute ++ [':'] ++ second ++ fraction, s)

def numericOffset? (s : List Char) : Option (List Char × List Char) := do
  let rest ← mark? ['+', '-'] s
  let (hour, rest) ← bounded? 2 0 23 rest
  let rest ← mark? [':'] rest
  let (minute, rest) ← bounded? 2 0 59 rest
  let sign := if digitsValue (hour ++ minute) = 0 then ['+'] else s.take 1
  return (sign ++ hour ++ [':'] ++ minute, rest)

def offset (s : List Char) : List Char × List Char :=
  match mark? ['Z', 'z'] s with
  | some rest => (['Z'], rest)
  | none => (numericOffset? s).getD ([], s)

def dayTime (s : List Char) : List Char × List Char :=
  match (mark? ['T', 't', ' '] s).bind time? with
  | some (time, rest) =>
    let (zone, rest) := offset rest
    ('T' :: (time ++ zone), rest)
  | none => ([], s)

def moment? (s : List Char) : Option (List Char × List Char) :=
  match date? s with
  | some (date, rest) =>
    let (time, rest) := dayTime rest
    some (date ++ time, rest)
  | none => time? s

end PodTarget.Toml
