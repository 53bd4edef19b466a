import PodTarget.Number.Digits
import PodTarget.Text.Blank

/-! The Swift version of a target. Of the versions declared only the newest
that matters decides; what is not a finite number is no version. -/

namespace PodTarget

open Number

def versionNumber? (s : String) : Option Binary64 :=
  match Binary64.ofText? (Text.trim s.toList) with
  | some (.finite negative u) => some (.finite negative u)
  | _ => none

/-- A bound as the double nearest to it. -/
def boundUnits (num den : Nat) : Nat := (nearest? num den).getD 0

def swiftVersion? (versions : List String) : Option String :=
  let numbers := versions.filterMap versionNumber?
  if numbers.any (Binary64.atLeast (boundUnits 5 1)) then some "5"
  else if numbers.any (Binary64.atLeast (boundUnits 42 10)) then some "4.2"
  else if numbers.isEmpty then none
  else some "4"

end PodTarget
