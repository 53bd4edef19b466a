import PodTarget.Podspec.Basic
import PodTarget.Text.Blank
import PodTarget.Text.Split

/-! Compiler and linker flags of a target, for the primary platform. Build settings
that are not flags are kept as they are. -/

namespace PodTarget

open Text

structure Flags where
  objcOpts : List String
  swiftOpts : List String
  linkOpts : List String
  xcconfig : StringMap String
deriving DecidableEq

namespace Flags

def empty : Flags := ⟨[], [], [], ∅⟩

/-- Stands for flags that are there without being named. -/
def inherited : String := "$(inherited)"

def addWord (flags : List String) (word : String) : List String :=
  if word = inherited ∨ word ∈ flags then flags else flags ++ [word]

def addWords (flags : List String) (text : String) : List String :=
  ((words text.toList).map .ofList).foldl addWord flags

def addSetting (f : Flags) (setting : String × List String) : Flags :=
  let (key, values) := setting
  let text := String.intercalate " " values
  if key = "OTHER_CFLAGS" then { f with objcOpts := addWords f.objcOpts text }
  else if key = "OTHER_SWIFT_FLAGS" then { f with swiftOpts := addWords f.swiftOpts text }
  else if key = "OTHER_LDFLAGS" then { f with linkOpts := addWords f.linkOpts text }
  else { f with xcconfig := f.xcconfig.insert key text }

/-- Build settings, each with the list of its values. -/
def settings (a : Attributes) : StringMap (List String) := a.xcconfig.map fun _ v => [v]

def collect (root : Declaration) (subspecs : List Declaration) : Flags :=
  let compiler := (root.collect subspecs (·.compilerFlags)).primary
  let start := { empty with objcOpts := compiler.foldl addWords [] }
  (root.collect subspecs settings).primary.toList.foldl addSetting start

end Flags

end PodTarget
