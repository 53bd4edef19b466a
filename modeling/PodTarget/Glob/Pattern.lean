import PodTarget.Merge

/-! The files matched by some globs and by none of some others. -/

namespace PodTarget

structure FilePattern where
  incl : StringSet
  excl : StringSet
deriving DecidableEq

namespace FilePattern

def empty : FilePattern := ⟨∅, ∅⟩

def includeOnly (incl : StringSet) : FilePattern := ⟨incl, ∅⟩

/-- A glob that is also excluded, letter for letter, is not worth including. -/
def ofMatches (incl excl : StringSet) : FilePattern :=
  ⟨incl.where fun glob => ¬excl.contains glob, excl⟩

def isEmpty (p : FilePattern) : Bool := p.incl.isEmpty

/-- The files selected, given which glob matches which file. -/
def Selects (matched : String → String → Prop) (p : FilePattern) (file : String) : Prop :=
  (∃ glob ∈ p.incl, matched glob file) ∧ ∀ glob ∈ p.excl, ¬matched glob file

end FilePattern

instance : Merge FilePattern := ⟨fun a b => ⟨merge a.incl b.incl, merge a.excl b.excl⟩⟩

end PodTarget
