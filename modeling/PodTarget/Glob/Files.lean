import PodTarget.Collections
import PodTarget.Glob.Braces
import PodTarget.Glob.Extension

/-! Turning podspec patterns into globs. A podspec pattern may end in a
wildcard or name a directory; a build glob needs a pattern per extension. No
file is looked at. -/

namespace PodTarget.Glob

def headerTypes : List String := ["h", "hh", "hpp", "hxx", "ipp", "tpp"]

def sourceTypes : List String :=
  headerTypes ++ ["c", "cc", "cpp", "cxx", "c++", "m", "mm", "s", "S", "swift"]

/-- Directories whose files are the resource. -/
def resourceDirectoryTypes : List String := ["xcassets", "xcdatamodeld", "lproj", "scnassets", "atlas"]

/-- The globs of one pattern without groups, for the file types `types`. -/
def typedGlobs (types : List (List Char)) (pattern : List Char) : List (List Char) :=
  let s := trimSlashes pattern
  match extensionOf? s with
  | some ext =>
    if ext = ['*'] then types.map (s.dropLast ++ ·)
    else if ext ∈ types then [s]
    else []
  | none =>
    let last := lastComponent s
    if last = ['*', '*'] then types.map (s ++ ['/', '*', '.'] ++ ·)
    else if last.getLast? = some '*' then types.map (s ++ ['.'] ++ ·)
    else types.map (s ++ ['/', '*', '*', '/', '*', '.'] ++ ·)

def filesOf (types : List String) (pattern : String) : List String :=
  ((expand pattern.toList).flatMap (typedGlobs (types.map (·.toList)))).map .ofList

def extractFiles (types : List String) (patterns : List String) : StringSet :=
  .ofList (patterns.flatMap (filesOf types))

theorem mem_extractFiles {types patterns : List String} {glob : String} :
    glob ∈ extractFiles types patterns ↔ ∃ p ∈ patterns, glob ∈ filesOf types p := by
  simp [extractFiles]

/-- The glob of one resource pattern without groups: a trailing `**` stands for
every file beneath, and a resource directory for all its contents. -/
def resourceGlob (pattern : List Char) : List Char :=
  let s := trimSlashes pattern
  if lastComponent s = ['*', '*'] then s ++ ['/', '*']
  else
    match extensionOf? s with
    | some ext => if .ofList ext ∈ resourceDirectoryTypes then s ++ ['/', '*', '*'] else s
    | none => s

def resourcesOf (pattern : String) : List String :=
  ((expand pattern.toList).map resourceGlob).map .ofList

def extractResources (patterns : List String) : StringSet :=
  .ofList (patterns.flatMap resourcesOf)

theorem mem_extractResources {patterns : List String} {glob : String} :
    glob ∈ extractResources patterns ↔ ∃ p ∈ patterns, glob ∈ resourcesOf p := by
  simp [extractResources]

end PodTarget.Glob
