import PodTarget.Json.Document
import PodTarget.Number.Digits

/-! Numbers of JSON, by the grammar of RFC 8259: no further digit after a zero in
front, and digits on both sides of a point. That grammar leaves range and precision
open. One that has neither a fraction nor an exponent and fits into 64 bits, with or
without a sign, is kept as it is. Any other becomes a double in two steps: as many
leading digits as fit into 64 bits, and the power of ten they are scaled by, are each
rounded first. -/

namespace PodTarget.Json

open PodTarget.Number

structure Numeral where
  negative : Bool
  whole : List Char
  fraction : Option (List Char)
  exponent : Option Int
deriving Repr

def fraction? : List Char → Option (Option (List Char) × List Char)
  | '.' :: s => (digits? s).map fun (ds, rest) => (some ds, rest)
  | s => some (none, s)

def numeral? (s : List Char) : Option (Numeral × List Char) := do
  let (negative, s) :=
    match s with
    | '-' :: s => (true, s)
    | s => (false, s)
  let (whole, s) ← digits? s
  if whole.head? = some '0' ∧ whole.length ≠ 1 then none
  else
    let (fraction, s) ← fraction? s
    let (exponent, s) ← exponent? s
    some (⟨negative, whole, fraction, exponent⟩, s)

def most : Nat := Nat.pow 2 64 - 1

structure Scaled where
  digits : Nat
  exponent : Int

/-- Digits before the point: those that no longer fit only scale the rest. -/
def Scaled.takeWhole (s : Scaled) : List Char → Scaled
  | [] => s
  | c :: cs =>
    let n := 10 * s.digits + (c.toNat - '0'.toNat)
    if n ≤ most then takeWhole ⟨n, s.exponent⟩ cs
    else ⟨s.digits, s.exponent + (c :: cs).length⟩

/-- Digits after the point: from the first that does not fit on they do not
count. -/
def Scaled.takeFraction (s : Scaled) : List Char → Scaled
  | [] => s
  | c :: cs =>
    let n := 10 * s.digits + (c.toNat - '0'.toNat)
    if n ≤ most then takeFraction ⟨n, s.exponent - 1⟩ cs else s

def bigStep : Nat := 308

def tenTo (k : Nat) : Nat := (nearest? (Nat.pow 10 k) 1).getD 0

/-- Scales `u` units by a power of ten, rounding after each step. Three steps
down leave nothing of a number below `2 ^ 64`. -/
def scale? : Nat → Nat → Int → Option Nat
  | 0, _, _ => some 0
  | n + 1, u, e =>
    if e.natAbs ≤ bigStep then
      if 0 ≤ e then nearest? (u * tenTo e.natAbs) (one * one) else nearest? u (tenTo e.natAbs)
    else if u = 0 then some 0
    else if 0 ≤ e then none
    else (nearest? u (tenTo bigStep)).bind fun u => scale? n u (e + bigStep)

def Numeral.scaled (n : Numeral) : Scaled :=
  let s := (Scaled.takeWhole ⟨0, 0⟩ n.whole).takeFraction (n.fraction.getD [])
  ⟨s.digits, s.exponent + n.exponent.getD 0⟩

def Numeral.isWhole (n : Numeral) : Bool := n.fraction.isNone && n.exponent.isNone

/-- The value, where it is within the range of doubles. -/
def Numeral.value? (n : Numeral) : Option Number :=
  let i := digitsValue n.whole
  if n.isWhole ∧ ¬n.negative ∧ i ≤ most then some (.whole i)
  else if n.isWhole ∧ n.negative ∧ 0 < i ∧ i ≤ Nat.pow 2 63 then some (.whole (-i))
  else
    let s := n.scaled
    (nearest? s.digits 1).bind fun u =>
      (scale? 4 u s.exponent).map fun v => .real (.finite n.negative v)

end PodTarget.Json
