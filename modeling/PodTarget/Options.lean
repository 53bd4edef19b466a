import PodTarget.Vendored.Slice
import PodTarget.Text.Split

/-! What is set once for all targets: the least iOS version of pods that declare none,
whether targets with sources are linked dynamically, what the labels of other pods
start with and the template of those labels, the separator in the names of subspecs,
and of vendored frameworks which are dynamic, by path or by file name, and which
slices the bundles have. -/

namespace PodTarget

structure Options where
  iosPlatform : String
  linkDynamic : Bool
  depsPrefix : String
  dependencyTemplate : String
  subspecSeparator : String
  dynamicFrameworks : List String
  xcframeworks : StringMap (List Slice)
deriving DecidableEq

namespace Options

def default : Options :=
  ⟨"13.0", false, "//Pods", "\x7bprefix\x7d/\x7bpod\x7d", "/", [], ∅⟩

def separator (o : Options) : Text.Separator := .ofString o.subspecSeparator

end Options

end PodTarget
