import PodTarget.Number.Binary64

/-! The shortest decimal that reads back as a given double: the fewest digits, of
which seventeen are always enough, and of those the nearest. A style says which of two
is written that are equally near, how many digits in front of the point and zeros
behind it are written out, and what stands before an exponent that is not negative. -/

namespace PodTarget.Number

def decimalExponent (u : Nat) : Int :=
  ((toString (u * Nat.pow 10 400 / one)).length : Int) - 400

/-- Whether `c · 10 ^ g` rounds to `u` units. The numbers that do form an
interval with half a spacing on either side, less below a power of two. -/
def readsBack (u c : Nat) (g : Int) : Bool :=
  let s := spacing u
  let below := if u = Nat.pow 2 52 * s ∧ 1 < s then s else 2 * s
  let scale := Nat.pow 10 (-g).toNat
  let x := 4 * c * Nat.pow 10 g.toNat * one
  let low := (4 * u - below) * scale
  let high := (4 * u + 2 * s) * scale
  if u / s % 2 = 0 then low ≤ x && x ≤ high else low < x && x < high

/-- The decimal on the grid `10 ^ g` that rounds to `u` units and is nearest to it. -/
def onGrid? (tie : Tie) (u : Nat) (g : Int) : Option Nat :=
  let num := u * Nat.pow 10 (-g).toNat
  let den := one * Nat.pow 10 g.toNat
  let q := num / den
  match readsBack u q g, readsBack u (q + 1) g with
  | true, true => some (divRound tie num den)
  | true, false => some q
  | false, true => some (q + 1)
  | false, false => none

def dropZeros : Nat → Decimal → Decimal
  | 0, d => d
  | n + 1, d =>
    if d.digits ≠ 0 ∧ d.digits % 10 = 0 then dropZeros n ⟨d.digits / 10, d.exponent + 1⟩ else d

def shortest (tie : Tie) (u : Nat) : Decimal :=
  if u = 0 then ⟨0, 0⟩
  else
    let e := decimalExponent u
    let found := (List.range 17).findSome? fun (n : Nat) =>
      let g := e - (n + 1)
      (onGrid? tie u g).map fun c => dropZeros 17 ⟨c, g⟩
    found.getD ⟨0, 0⟩

structure Style where
  mostDigits : Option Nat
  mostZeros : Option Nat
  plus : String
  tie : Tie

def within (limit : Option Nat) (n : Nat) : Bool :=
  match limit with
  | some m => n ≤ m
  | none => true

def Style.text (style : Style) (d : Decimal) : String :=
  let ds := toString d.digits
  let zeros (n : Nat) : String := .ofList (List.replicate n '0')
  let point : Int := ds.length + d.exponent
  if 0 ≤ d.exponent ∧ within style.mostDigits point.toNat then
    ds ++ zeros d.exponent.toNat ++ ".0"
  else if 0 < point ∧ within style.mostDigits point.toNat then
    .ofList (ds.toList.take point.toNat) ++ "." ++ .ofList (ds.toList.drop point.toNat)
  else if point ≤ 0 ∧ within style.mostZeros (-point).toNat then
    "0." ++ zeros (-point).toNat ++ ds
  else
    let rest := ds.toList.drop 1
    .ofList (ds.toList.take 1) ++ (if rest.isEmpty then "" else "." ++ .ofList rest) ++ "e" ++
      (if 0 < point then style.plus else "") ++ toString (point - 1)

def Binary64.text (style : Style) : Binary64 → String
  | .finite negative u => (if negative then "-" else "") ++ style.text (shortest style.tie u)
  | .infinite negative => if negative then "-inf" else "inf"
  | .nan => "NaN"

end PodTarget.Number
