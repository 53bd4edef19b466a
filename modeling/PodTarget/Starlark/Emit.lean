import PodTarget.PlatformValue
import PodTarget.Glob.Pattern
import PodTarget.Starlark.Node

/-! How values become nodes. A value that says nothing becomes the empty node,
so that the argument holding it is left out; a value that differs between
platforms becomes a choice with one branch for each platform that differs from
the default, and the default last. -/

namespace PodTarget.Starlark

class ToNode (α : Type) where
  toNode : α → Node

export ToNode (toNode)

instance : ToNode Node := ⟨id⟩

instance : ToNode String := ⟨.str⟩

instance : ToNode Bool := ⟨.bool⟩

instance : ToNode Int := ⟨.int⟩

variable {α : Type} [ToNode α]

instance : ToNode (Option α) := ⟨fun a => a.elim .empty toNode⟩

instance : ToNode (List α) := ⟨fun items => .list (items.map toNode)⟩

instance [Ord α] [Std.TransOrd α] : ToNode (Std.ExtTreeSet α) :=
  ⟨fun items => .set (items.toList.map toNode)⟩

/-- The entries of a dictionary, without those that have no value. -/
def dictOf (entries : List (String × α)) : Node :=
  .dict <| entries.filterMap fun (k, v) =>
    match toNode v with
    | .empty => none
    | n => some (.str k, n)

instance : ToNode (StringMap α) := ⟨fun m => dictOf m.toList⟩

instance : ToNode (PerPlatform (Option α)) :=
  ⟨fun v => dictOf (v.entries.map fun (p, a) => (p.id, a))⟩

def globArgs (p : FilePattern) : List Arg :=
  .positional (.strings p.incl.toList) ::
    (if p.excl.isEmpty then [] else [.named "exclude" (.strings p.excl.toList)])

instance : ToNode FilePattern :=
  ⟨fun p => if p.isEmpty then .empty else .call "glob" (globArgs p)⟩

def defaultCondition : String := "//conditions:default"

def platformCondition (p : Platform) : String :=
  "@build_bazel_rules_ios//rules/apple_platform:" ++ p.id

def branch (a : α) : Node :=
  match toNode a with
  | .empty => .none
  | n => n

def differing [DecidableEq α] (v : PlatformValue α) : List (Platform × α) :=
  v.overrides.entries.filter fun (_, a) => a ≠ v.default

def choice (default : α) (own : List (Platform × α)) : Node :=
  .select <| own.map (fun (p, a) => (platformCondition p, branch a)) ++
    [(defaultCondition, branch default)]

instance [DecidableEq α] : ToNode (PlatformValue α) :=
  ⟨fun v =>
    match differing v with
    | [] => toNode v.default
    | own => choice v.default own⟩

end PodTarget.Starlark
