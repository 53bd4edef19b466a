/-! Double-precision numbers, exactly. A finite magnitude is a whole number of
units, the unit being the smallest positive double. -/

namespace PodTarget.Number

/-- Which neighbor a number goes to that is halfway between two. -/
inductive Tie
  | toEven
  | up
deriving DecidableEq, Repr

def Tie.step : Tie → Nat → Nat
  | toEven, q => q % 2
  | up, _ => 1

theorem Tie.step_eq (tie : Tie) (q : Nat) : tie.step q = 0 ∨ tie.step q = 1 := by
  cases tie
  · exact Nat.mod_two_eq_zero_or_one q
  · exact .inr rfl

/-- `num / den` to the nearest whole number. -/
def divRound (tie : Tie) (num den : Nat) : Nat :=
  let q := num / den
  let r := num % den
  if 2 * r < den then q
  else if den < 2 * r then q + 1
  else q + tie.step q

def one : Nat := Nat.pow 2 1074

/-- The distance between doubles from `u` units to the next power of two. -/
def spacing (u : Nat) : Nat := Nat.pow 2 (u.log2 - 52)

/-- The double nearest to `num / den`, with an even significand if there are two,
or nothing where that lies beyond the largest one. -/
def nearest? (num den : Nat) : Option Nat :=
  let n := num * one
  let s := spacing (n / den)
  let u := divRound .toEven n (den * s) * s
  if u < Nat.pow 2 2098 then some u else none

structure Decimal where
  digits : Nat
  exponent : Int
deriving DecidableEq, Repr

/-- The double nearest to a decimal. Far outside the range of doubles the
exponent alone decides. -/
def Decimal.nearest? (d : Decimal) : Option Nat :=
  if d.digits = 0 then some 0
  else if 400 < d.exponent then none
  else if d.digits.log2 + d.exponent < -400 then some 0
  else Number.nearest? (d.digits * Nat.pow 10 d.exponent.toNat) (Nat.pow 10 (-d.exponent).toNat)

inductive Binary64
  | finite (negative : Bool) (units : Nat)
  | infinite (negative : Bool)
  | nan
deriving DecidableEq, Repr

def Decimal.toBinary64 (negative : Bool) (d : Decimal) : Binary64 :=
  match d.nearest? with
  | some u => .finite negative u
  | none => .infinite negative

/-- Whether a double is finite and at least the given number of units. -/
def Binary64.atLeast (bound : Nat) : Binary64 → Bool
  | .finite false u => bound ≤ u
  | .finite true u => bound = 0 && u = 0
  | _ => false

end PodTarget.Number
