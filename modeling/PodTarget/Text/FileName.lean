/-! File names in slash-separated paths. Empty components and dots mean nothing, and a
component that leads upwards is no file name. A dot in front of a file name marks a
hidden file and no extension. -/

namespace PodTarget.Text

def components (path : List Char) : List (List Char) :=
  (path.splitOnP (· = '/')).filter fun c => c ≠ [] ∧ c ≠ ['.']

def fileName? (path : List Char) : Option (List Char) :=
  match (components path).getLast? with
  | some name => if name = ['.', '.'] then none else some name
  | none => none

/-- A file name without its extension. -/
def stem (name : List Char) : List Char :=
  match name.reverse.dropWhile (· ≠ '.') with
  | _ :: c :: rest => (c :: rest).reverse
  | _ => name

end PodTarget.Text
