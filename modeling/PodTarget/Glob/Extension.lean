/-! The last component of a slash-separated pattern and its extension. -/

namespace PodTarget.Glob

def trimSlashes (s : List Char) : List Char := (s.reverse.dropWhile (· = '/')).reverse

def lastComponent (s : List Char) : List Char :=
  ((s.reverse.dropWhile (· = '/')).takeWhile (· ≠ '/')).reverse

def cutLastDot? (s : List Char) : Option (List Char × List Char) :=
  match s.reverse.dropWhile (· ≠ '.') with
  | [] => none
  | _ :: stem => some (stem.reverse, (s.reverse.takeWhile (· ≠ '.')).reverse)

/-- The extension of the last component. A dot in front marks a hidden name
and no extension. -/
def extensionOf? (s : List Char) : Option (List Char) :=
  match cutLastDot? (lastComponent s) with
  | some (_ :: _, ext) => some ext
  | _ => none

def extension? (pattern : String) : Option String := (extensionOf? pattern.toList).map .ofList

end PodTarget.Glob
