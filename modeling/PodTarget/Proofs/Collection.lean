import Mathlib.Logic.Basic
import PodTarget.Podspec.Basic

/-! What an attribute gathered over a pod and its subspecs says for a platform:
the values in effect there, merged in the order in which they are declared. A
section that comes up in one subspec only is merged with the defaults of all the
others, before and after it. -/

namespace PodTarget

namespace PlatformValue

variable {α : Type} [Merge α]

theorem get_foldl_merge (l : List (PlatformValue α)) (v : PlatformValue α) (p : Platform) :
    (l.foldl merge v).get p = (l.map (·.get p)).foldl merge (v.get p) := by
  induction l generalizing v with
  | nil => rfl
  | cons w l ih => rw [List.foldl_cons, ih, get_merge, List.map_cons, List.foldl_cons]

theorem default_foldl_merge (l : List (PlatformValue α)) (v : PlatformValue α) :
    (l.foldl merge v).default = (l.map (·.default)).foldl merge v.default := by
  induction l generalizing v with
  | nil => rfl
  | cons w l ih =>
    rw [List.foldl_cons, ih, default_merge, List.map_cons, List.foldl_cons]

theorem isSome_overrides_foldl_merge (l : List (PlatformValue α)) (v : PlatformValue α)
    (p : Platform) : ((l.foldl merge v).overrides.get p).isSome ↔
      ∃ w ∈ v :: l, (w.overrides.get p).isSome := by
  induction l generalizing v with
  | nil => simp
  | cons w l ih =>
    rw [List.foldl_cons, ih]
    simp only [List.mem_cons, exists_eq_or_imp, isSome_overrides_merge, Bool.or_eq_true, or_assoc]

end PlatformValue

namespace Declaration

variable {α : Type} [Merge α]

/-- The value in effect for a platform: that for all platforms, merged with that
of the platform's section where there is one. -/
def effective (d : Declaration) (f : Attributes → α) (p : Platform) : α :=
  match d.sections.get p with
  | some s => merge (f d.attributes) (f s)
  | none => f d.attributes

theorem get_attr (d : Declaration) (f : Attributes → α) (p : Platform) :
    (d.attr f).get p = d.effective f p := by
  rw [attr, PlatformValue.get, PerPlatform.get_map, effective]
  cases d.sections.get p <;> rfl

theorem isSome_overrides_attr (d : Declaration) (f : Attributes → α) (p : Platform) :
    ((d.attr f).overrides.get p).isSome = (d.sections.get p).isSome := by
  rw [attr, PerPlatform.get_map, Option.isSome_map]

theorem collect_eq_foldl (root : Declaration) (subspecs : List Declaration)
    (f : Attributes → α) :
    root.collect subspecs f = (subspecs.map (·.attr f)).foldl merge (root.attr f) := by
  rw [collect, List.foldl_map]

theorem get_collect (root : Declaration) (subspecs : List Declaration) (f : Attributes → α)
    (p : Platform) : (root.collect subspecs f).get p =
      (subspecs.map (·.effective f p)).foldl merge (root.effective f p) := by
  rw [collect_eq_foldl, PlatformValue.get_foldl_merge, List.map_map, get_attr]
  congr 1
  exact List.map_congr_left fun d _ => get_attr d f p

theorem default_collect (root : Declaration) (subspecs : List Declaration)
    (f : Attributes → α) : (root.collect subspecs f).default =
      (subspecs.map (f ·.attributes)).foldl merge (f root.attributes) := by
  rw [collect_eq_foldl, PlatformValue.default_foldl_merge, List.map_map]
  rfl

theorem isSome_overrides_collect (root : Declaration) (subspecs : List Declaration)
    (f : Attributes → α) (p : Platform) : ((root.collect subspecs f).overrides.get p).isSome ↔
      ∃ d ∈ root :: subspecs, (d.sections.get p).isSome := by
  rw [collect_eq_foldl, PlatformValue.isSome_overrides_foldl_merge]
  simp [isSome_overrides_attr]

section Holds

-- a property that a merged value has as soon as one of its parts has it, such
-- as having some member
variable {P : α → Prop} (hP : ∀ a b, P (merge a b) ↔ P a ∨ P b)

include hP

theorem holds_foldl_merge (l : List α) (a : α) :
    P (l.foldl merge a) ↔ ∃ b ∈ a :: l, P b := by
  induction l generalizing a with
  | nil => simp
  | cons b l ih =>
    rw [List.foldl_cons, ih]
    simp only [List.mem_cons, exists_eq_or_imp, hP, or_assoc]

theorem holds_effective (d : Declaration) (f : Attributes → α) (p : Platform) :
    P (d.effective f p) ↔ P (f d.attributes) ∨ ∃ s, d.sections.get p = some s ∧ P (f s) := by
  rw [effective]
  cases d.sections.get p with
  | none => simp
  | some s => simp [hP]

theorem holds_collect (root : Declaration) (subspecs : List Declaration) (f : Attributes → α)
    (p : Platform) : P ((root.collect subspecs f).get p) ↔
      ∃ d ∈ root :: subspecs,
        P (f d.attributes) ∨ ∃ s, d.sections.get p = some s ∧ P (f s) := by
  rw [get_collect, holds_foldl_merge hP]
  simp [holds_effective hP]

end Holds

/-- An attribute gathered over a pod and its subspecs is the merge, in their
order, of what is in effect for each of them. -/
theorem collect_merges_effective {β : Type} [Ord β] [Std.TransOrd β] (root : Declaration)
    (subspecs : List Declaration) (f : Attributes → α) (g : Attributes → Std.ExtTreeSet β)
    (p : Platform) :
    (root.collect subspecs f).get p =
        (subspecs.map (·.effective f p)).foldl merge (root.effective f p) ∧
      (root.collect subspecs f).default =
        (subspecs.map (f ·.attributes)).foldl merge (f root.attributes) ∧
      (((root.collect subspecs f).overrides.get p).isSome ↔
        ∃ d ∈ root :: subspecs, (d.sections.get p).isSome) ∧
      ∀ x, x ∈ (root.collect subspecs g).get p ↔
        ∃ d ∈ root :: subspecs,
          x ∈ g d.attributes ∨ ∃ s, d.sections.get p = some s ∧ x ∈ g s := by
  refine ⟨get_collect root subspecs f p, default_collect root subspecs f,
    isSome_overrides_collect root subspecs f p, fun x => ?_⟩
  exact holds_collect (P := (x ∈ ·)) (fun _ _ => mem_merge) root subspecs g p

/-- A subspec with flags for a single platform, the last one of its pod. -/
def desktop : Declaration :=
  (Declaration.named "Desktop").modifySection .osx ({ · with compilerFlags := ["-DDESKTOP"] })

def flagged (name flag : String) : Declaration :=
  { Declaration.named name with
    attributes := { Attributes.empty with compilerFlags := [flag] } }

theorem collect_merges_effective_desktop :
    let pod := flagged "Foo" "-DFOO"
    let subspecs := [flagged "Core" "-DCORE", desktop]
    let flags (a : Attributes) : StringSet := .ofList a.compilerFlags
    (pod.collect subspecs (·.compilerFlags)).get .osx = ["-DFOO", "-DCORE", "-DDESKTOP"] ∧
      (pod.collect subspecs (·.compilerFlags)).default = ["-DFOO", "-DCORE"] ∧
      ((pod.collect subspecs (·.compilerFlags)).overrides.get .osx).isSome ∧
      ∀ x, x ∈ (pod.collect subspecs flags).get .osx ↔ ∃ d ∈ pod :: subspecs,
        x ∈ flags d.attributes ∨ ∃ s, d.sections.get .osx = some s ∧ x ∈ flags s := by
  intro pod subspecs flags
  obtain ⟨hget, hdefault, hsome, hset⟩ :=
    collect_merges_effective pod subspecs (·.compilerFlags) flags .osx
  exact ⟨hget, hdefault, hsome.2 ⟨desktop, by simp [subspecs], rfl⟩, hset⟩

end Declaration

end PodTarget
