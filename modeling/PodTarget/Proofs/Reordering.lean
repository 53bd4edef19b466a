import PodTarget.Proofs.FlagWords
import PodTarget.Proofs.MergeLaws
import PodTarget.Target.Basic

/-! The order of the subspecs of a target, and naming one of them twice, change
nothing but the order of flags. All else is gathered by merges that forget both;
of the flags, which are lists, the members stay the same. -/

namespace PodTarget

namespace Declaration

variable {α : Type} [Merge α] {l l' : List Declaration}

theorem collect_congr [JoinMerge α] (h : ∀ d, d ∈ l ↔ d ∈ l') (root : Declaration)
    (f : Attributes → α) : root.collect l f = root.collect l' f := by
  rw [collect_eq_foldl, collect_eq_foldl]
  refine foldl_merge_congr (fun v => ?_) _
  simp only [List.mem_map, h]

theorem holds_collect_congr {P : α → Prop} (hP : ∀ a b, P (merge a b) ↔ P a ∨ P b)
    (h : ∀ d, d ∈ l ↔ d ∈ l') (root : Declaration) (f : Attributes → α) (p : Platform) :
    P ((root.collect l f).get p) ↔ P ((root.collect l' f).get p) := by
  rw [holds_collect hP, holds_collect hP]
  simp only [List.mem_cons, h]

end Declaration

namespace Flags

variable {l l' : List Declaration} (h : ∀ d, d ∈ l ↔ d ∈ l') (root : Declaration)

include h

theorem mem_compilerWords_congr (w : String) :
    w ∈ compilerWords root l ↔ w ∈ compilerWords root l' := by
  have hmem (t : String) := Declaration.holds_collect_congr (P := (t ∈ ·))
    (fun _ _ => List.mem_append) h root (·.compilerFlags) .primary
  simp only [compilerWords, List.mem_flatMap]
  exact exists_congr fun t => and_congr_left' (hmem t)

theorem mem_valuesOf_congr (key v : String) : v ∈ valuesOf root l key ↔ v ∈ valuesOf root l' key :=
  Declaration.holds_collect_congr (P := fun m => v ∈ m[key]?.getD [])
    (fun a b => mem_getD_merge a b key v) h root settings .primary

theorem mem_foldl_words_congr (key w : String) :
    w ∈ ((valuesOf root l key).flatMap wordsOf).foldl addWord [] ↔
      w ∈ ((valuesOf root l' key).flatMap wordsOf).foldl addWord [] := by
  simp only [mem_foldl_addWord, List.mem_flatMap, mem_valuesOf_congr h root key]

theorem mem_xcconfig_congr (key : String) :
    key ∈ (collect root l).xcconfig ↔ key ∈ (collect root l').xcconfig := by
  have hkey := Declaration.holds_collect_congr (P := (·[key]?.isSome))
    (fun a b => isSome_getElem?_merge a b key) h root settings .primary
  rw [Std.ExtTreeMap.mem_iff_isSome_getElem?, Std.ExtTreeMap.mem_iff_isSome_getElem?,
    getElem?_xcconfig_collect, getElem?_xcconfig_collect]
  split
  · rfl
  · simpa [PlatformValue.primary] using hkey

end Flags

namespace FrameworkTarget

/-- Subspecs with the same members, in whatever order and number, make the same
target, except for the order of its flags and of the values of its settings. -/
theorem assemble_of_same_subspecs (o : Options) (probe : Probe) (root : Declaration)
    {l l' : List Declaration} (h : ∀ d, d ∈ l ↔ d ∈ l') (deps : StringSet) :
    let t := assemble ⟨o, probe, Flags.collect⟩ root l deps
    let t' := assemble ⟨o, probe, Flags.collect⟩ root l' deps
    { t with flags := .empty } = { t' with flags := .empty } ∧
      (∀ w, w ∈ t.flags.objcOpts ↔ w ∈ t'.flags.objcOpts) ∧
      (∀ w, w ∈ t.flags.swiftOpts ↔ w ∈ t'.flags.swiftOpts) ∧
      (∀ w, w ∈ t.flags.linkOpts ↔ w ∈ t'.flags.linkOpts) ∧
      ∀ key, key ∈ t.flags.xcconfig ↔ key ∈ t'.flags.xcconfig := by
  refine ⟨?_, fun w => ?_, fun w => ?_, fun w => ?_, Flags.mem_xcconfig_congr h root⟩
  · simp only [assemble, Declaration.collectFiles, Declaration.collectSet,
      Declaration.collect_congr h root]
  · show w ∈ (Flags.collect root l).objcOpts ↔ w ∈ (Flags.collect root l').objcOpts
    rw [Flags.objcOpts_collect, Flags.objcOpts_collect]
    simp only [Flags.mem_foldl_addWord, List.mem_append, List.mem_flatMap,
      Flags.mem_compilerWords_congr h root, Flags.mem_valuesOf_congr h root]
  · show w ∈ (Flags.collect root l).swiftOpts ↔ w ∈ (Flags.collect root l').swiftOpts
    rw [Flags.swiftOpts_collect, Flags.swiftOpts_collect, Flags.mem_foldl_words_congr h root]
  · show w ∈ (Flags.collect root l).linkOpts ↔ w ∈ (Flags.collect root l').linkOpts
    rw [Flags.linkOpts_collect, Flags.linkOpts_collect, Flags.mem_foldl_words_congr h root]

/-- Two subspecs with sections for different platforms. -/
def engine : Declaration :=
  (Declaration.named "Engine").modifySection .ios
    ({ · with compilerFlags := ["-DENGINE -O2"], libraries := ["z"] })

def screen : Declaration :=
  { (Declaration.named "Screen").modifySection .osx ({ · with frameworks := ["AppKit"] }) with
    attributes := { Attributes.empty with
      compilerFlags := ["-O2"], dependencies := ["Foo/Engine", "Bar"] } }

theorem assemble_of_swapped_subspecs :
    (∀ d, d ∈ [engine, screen] ↔ d ∈ [screen, engine, screen]) ∧
    let t := assemble (.ofOptions .default) (.named "Foo") [engine, screen] ∅
    let t' := assemble (.ofOptions .default) (.named "Foo") [screen, engine, screen] ∅
    { t with flags := .empty } = { t' with flags := .empty } ∧
      (∀ w, w ∈ t.flags.objcOpts ↔ w ∈ t'.flags.objcOpts) ∧
      (∀ w, w ∈ t.flags.swiftOpts ↔ w ∈ t'.flags.swiftOpts) ∧
      (∀ w, w ∈ t.flags.linkOpts ↔ w ∈ t'.flags.linkOpts) ∧
      ∀ key, key ∈ t.flags.xcconfig ↔ key ∈ t'.flags.xcconfig := by
  have h : ∀ d, d ∈ [engine, screen] ↔ d ∈ [screen, engine, screen] := by
    intro d
    simp only [List.mem_cons, List.not_mem_nil, or_false]
    grind
  exact ⟨h, assemble_of_same_subspecs .default (.ofOptions .default) (.named "Foo") h ∅⟩

end FrameworkTarget

end PodTarget
