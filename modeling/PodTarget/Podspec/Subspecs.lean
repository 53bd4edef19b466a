import PodTarget.Podspec.Basic
import PodTarget.Text.Split

/-! The subspecs of a pod by their paths, and the choice of those to build. The
choice starts from the names requested, else from the default subspecs, else from
every direct subspec. A chosen path brings in everything nested below it and the
subspecs of the same pod that the subspec at the path depends on, and so on. -/

namespace PodTarget

open Text

def childPath (parent name : String) : String :=
  if parent.isEmpty then name else parent ++ "/" ++ name

namespace Podspec

mutual

/-- A subspec and everything nested in it, each with its path and in front of what
is nested in it. -/
def subtreesBelow : Podspec → String → List (String × Podspec)
  | ⟨d, subspecs⟩, parent =>
    (childPath parent d.name, ⟨d, subspecs⟩) :: subtreesAll subspecs (childPath parent d.name)

def subtreesAll : List Podspec → String → List (String × Podspec)
  | [], _ => []
  | s :: ss, parent => subtreesBelow s parent ++ subtreesAll ss parent

end

def nested (s : Podspec) (path : String) : List (String × Podspec) := subtreesAll s.subspecs path

def subtrees (s : Podspec) : List (String × Podspec) := s.nested ""

def flatten (s : Podspec) : List (String × Declaration) :=
  s.subtrees.map fun e => (e.1, e.2.declaration)

end Podspec

/-- The path that a dependency names if it lies in the pod itself: the name of
the pod, a separator, and parts none of which is empty. -/
def localPath? (pod dependency : String) (sep : Separator) : Option String := do
  let rest ← (after? pod.toList dependency.toList).bind (after? sep.text)
  let parts := split sep.text rest
  if parts.any (·.isEmpty) then none else some (.ofList (join ['/'] parts))

/-- A name as a path, where it may be written as a dependency. -/
def pathOf (pod : String) (sep : Separator) (name : String) : String :=
  (localPath? pod name sep).getD name

def isBelow (path parent : String) : Bool :=
  (after? (parent.toList ++ ['/']) path.toList).isSome

def broughtIn (pod : String) (sep : Separator) (all : List (String × Declaration))
    (path : String) : List String :=
  ((all.map (·.1)).filter (isBelow · path)) ++
    match all.find? (·.1 = path) with
    | some (_, d) => d.dependencyNames.filterMap (localPath? pod · sep)
    | none => []

structure Search where
  queue : List String
  chosen : List String

/-- A path is followed the first time it is taken from the queue. -/
def Search.step (next : String → List String) (s : Search) : Search :=
  match s.queue with
  | [] => s
  | p :: queue =>
    if p ∈ s.chosen then ⟨queue, s.chosen⟩ else ⟨queue ++ next p, p :: s.chosen⟩

def Search.run (next : String → List String) : Nat → Search → Search
  | 0, s => s
  | n + 1, s => if s.queue.isEmpty then s else run next n (s.step next)

def parents (path : String) : List String :=
  let s := path.toList
  (List.range s.length).filterMap fun n =>
    if s[n]? = some '/' then some (.ofList (s.take n)) else none

/-- The number of paths that are ever put into the queue: the roots, and what
each path that brings something in does bring in. -/
def searchBound (next : String → List String) (roots paths : List String) : Nat :=
  roots.length + ((paths.flatMap fun p => p :: parents p).flatMap next).length

def chosenPaths (next : String → List String) (roots paths : List String) : List String :=
  (Search.run next (searchBound next roots paths) ⟨roots, []⟩).chosen

namespace Podspec

def rootNames (s : Podspec) (requested : List String) : List String :=
  if !requested.isEmpty then requested
  else if !s.declaration.defaultSubspecs.isEmpty then s.declaration.defaultSubspecs
  else s.subspecs.map (·.name)

/-- The subspecs to build, in the order of declaration. Whatever is nested in one of
them and built as well stands beside it, so nothing is left in it. -/
def selection (s : Podspec) (requested : List String) (sep : Separator) : List Podspec :=
  let all := s.flatten
  let roots := (s.rootNames requested).map (pathOf s.name sep)
  let chosen := chosenPaths (broughtIn s.name sep all) roots (all.map (·.1))
  (s.subtrees.filter fun e => e.1 ∈ chosen).map fun e => { e.2 with subspecs := [] }

/-- What the subspecs to build declare, which is all that a target takes from them. -/
def select (s : Podspec) (requested : List String) (sep : Separator) : List Declaration :=
  (s.selection requested sep).map (·.declaration)

end Podspec

end PodTarget
