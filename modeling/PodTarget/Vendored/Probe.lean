import PodTarget.Options
import PodTarget.Text.FileName

/-! What can be asked about vendored binaries: whether a framework is dynamic, which
slices a bundle has, if it can be read, and for which architectures a binary is. -/

namespace PodTarget

structure Probe where
  isDynamic : String → Bool
  slices : String → Option (List Slice)
  archs : String → List String

def fileNameOr (path : String) : String := ((Text.fileName? path.toList).map .ofList).getD path

def bundleName (path : String) : String :=
  ((Text.fileName? path.toList).map fun n => .ofList (Text.stem n)).getD path

/-- A probe that knows what the options say and nothing else. -/
def Probe.ofOptions (o : Options) : Probe where
  isDynamic path := o.dynamicFrameworks.any fun d => d = path || d = fileNameOr path
  slices path := o.xcframeworks[path]?
  archs _ := ["arm64"]

end PodTarget
