import PodTarget.Options

/-! Labels for dependencies. The name of a subspec of the pod itself becomes a
local label; any other name becomes the label that the template gives it. -/

namespace PodTarget

open Text

def isLabelChar (c : Char) : Bool := c.isAlphanum || c = '_' || c = '-' || c = '.'

/-- A name with an underscore for each character that a target name may not
have. -/
def sanitize (s : List Char) : List Char := s.map fun c => if isLabelChar c then c else '_'

def sanitizeName (name : String) : String := .ofList (sanitize name.toList)

def localLabel (name : String) : String := ":" ++ name

def localParts? (pod : String) (sep : Separator) (dependency : String) :
    Option (List (List Char)) :=
  match split sep.text dependency.toList with
  | first :: rest =>
    if first = pod.toList ∧ !rest.isEmpty ∧ !rest.any (·.isEmpty) then some rest else none
  | [] => none

def placePrefix : List Char := "\x7bprefix\x7d".toList

def placePod : List Char := "\x7bpod\x7d".toList

def placeSubspec : List Char := "\x7bsubspec\x7d".toList

/-- Fills the places of a template one kind after the other. -/
def fill (template lead pod subspec : List Char) : List Char :=
  replace placeSubspec subspec (replace placePod pod (replace placePrefix lead template))

def labelOf (o : Options) (pod dependency : String) : String :=
  match localParts? pod o.separator dependency with
  | some parts =>
    .ofList (':' :: (sanitize pod.toList ++ '_' :: sanitize (join ['_'] parts)))
  | none =>
    let parts := split o.separator.text dependency.toList
    .ofList (fill o.dependencyTemplate.toList o.depsPrefix.toList
      (sanitize (parts.headD [])) (sanitize (join ['_'] parts.tail)))

/-- A local label is kept only if it starts as the labels of other pods do. -/
def keepsLabel (o : Options) (label : String) : Bool :=
  label.toList.head? ≠ some ':' || (after? o.depsPrefix.toList label.toList).isSome

def labelsOf (o : Options) (pod : String) (dependencies : StringSet) : StringSet :=
  (dependencies.bind fun d => [labelOf o pod d]).where (keepsLabel o)

end PodTarget
