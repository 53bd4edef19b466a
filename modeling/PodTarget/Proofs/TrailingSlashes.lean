import Mathlib.Data.List.Perm.Basic
import PodTarget.Proofs.Classification

/-! Slashes at the end of a vendored path. They count neither for the extension nor
for the file name, so with a probe that knows the options only they matter where the
options are asked for the whole path. Replacing one path of a set takes what it
becomes out of the list and puts what the other one becomes in its place. -/

namespace PodTarget

/-- A set with `y` for `x`. -/
def StringSet.replace (s : StringSet) (x y : String) : StringSet := (s.erase x).insert y

theorem StringSet.insert_erase {s : StringSet} {x : String} (h : x ∈ s) :
    (s.erase x).insert x = s := by
  refine Std.ExtTreeSet.ext_mem fun y => ?_
  rw [Std.ExtTreeSet.mem_insert, Std.ExtTreeSet.mem_erase, Std.LawfulEqCmp.compare_eq_iff_eq]
  by_cases hxy : x = y
  · subst hxy
    simp [h]
  · simp [hxy]

theorem StringSet.toList_insert_perm {s : StringSet} {x : String} (h : x ∉ s) :
    (s.insert x).toList.Perm (x :: s.toList) := by
  have hnodup : (x :: s.toList).Nodup :=
    List.nodup_cons.2 ⟨by rwa [Std.ExtTreeSet.mem_toList], s.nodup_toList⟩
  refine (List.perm_ext_iff_of_nodup (StringSet.nodup_toList _) hnodup).2 fun y => ?_
  rw [List.mem_cons, Std.ExtTreeSet.mem_toList, Std.ExtTreeSet.mem_toList,
    Std.ExtTreeSet.mem_insert, Std.LawfulEqCmp.compare_eq_iff_eq, eq_comm]

/-- Where each new element adds what it becomes, an element can be put for another
one exactly if they become the same. -/
theorem StringSet.replace_perm_iff {α : Type} (made : StringSet → List α)
    (becomes : String → List α)
    (hinsert : ∀ {s x}, x ∉ s → (made (s.insert x)).Perm (becomes x ++ made s))
    {s : StringSet} {x y : String} (hx : x ∈ s) (hy : y ∉ s) :
    (made (s.replace x y)).Perm (made s) ↔ (becomes y).Perm (becomes x) := by
  have hbefore : (made s).Perm (becomes x ++ made (s.erase x)) := by
    have herased : x ∉ s.erase x := by simp
    simpa only [StringSet.insert_erase hx] using hinsert herased
  have hafter : (made (s.replace x y)).Perm (becomes y ++ made (s.erase x)) :=
    hinsert fun hmem => hy (Std.ExtTreeSet.mem_of_mem_erase hmem)
  exact (hafter.congr_left _).trans
    ((hbefore.congr_right _).trans (List.perm_append_right_iff _))

theorem filterMap_insert_perm {β : Type} (f : String → Option β) {s : StringSet} {x : String}
    (h : x ∉ s) :
    ((s.insert x).toList.filterMap f).Perm ((f x).toList ++ s.toList.filterMap f) := by
  refine ((StringSet.toList_insert_perm h).filterMap f).trans (List.Perm.of_eq ?_)
  cases hf : f x with
  | none => simp [hf]
  | some b => simp [hf]

/-- What one of the paths of frameworks becomes. -/
def artifactsOf (probe : Probe) (p : Platform) (path : String) : List Artifact :=
  (artifactOfBundle? probe path).toList ++ (artifactOfFramework? probe p path).toList

theorem classify_insert_perm (probe : Probe) (p : Platform) {frameworks : StringSet} {x : String}
    (h : x ∉ frameworks) (libraries : StringSet) :
    (classify probe p (frameworks.insert x) libraries).Perm
      (artifactsOf probe p x ++ classify probe p frameworks libraries) := by
  have hbundles := filterMap_insert_perm (artifactOfBundle? probe) h
  have hframeworks := filterMap_insert_perm (artifactOfFramework? probe p) h
  rw [List.perm_iff_count] at hbundles hframeworks ⊢
  intro a
  have hb := hbundles a
  have hf := hframeworks a
  simp only [List.count_append] at hb hf
  simp only [classify, artifactsOf, List.count_append, hb, hf]
  omega

theorem classify_insert_library_perm (probe : Probe) (p : Platform) {libraries : StringSet}
    {x : String} (h : x ∉ libraries) (frameworks : StringSet) :
    (classify probe p frameworks (libraries.insert x)).Perm
      ((artifactOfLibrary? x).toList ++ classify probe p frameworks libraries) := by
  have hlibraries := filterMap_insert_perm artifactOfLibrary? h
  rw [List.perm_iff_count] at hlibraries ⊢
  intro a
  have hl := hlibraries a
  simp only [List.count_append] at hl
  simp only [classify, List.count_append, hl]
  omega

namespace Artifact

def trimmedPath (path : String) : String := .ofList (Glob.trimSlashes path.toList)

/-- The same artifact at its path without the slashes at the end. -/
def trimmed : Artifact → Artifact
  | staticLibrary p => staticLibrary (trimmedPath p)
  | staticFramework p => staticFramework (trimmedPath p)
  | dynamicFramework p => dynamicFramework (trimmedPath p)
  | xcframework x => xcframework { x with path := trimmedPath x.path }

end Artifact

/-- Options that say the same of two paths: of frameworks, that both or none of them
is dynamic, by the file name or by the whole path; of bundles, the same slices. -/
structure Options.SaysSame (o : Options) (x y : String) : Prop where
  frameworks : Glob.extension? x = some "framework" →
    fileNameOr x ∈ o.dynamicFrameworks ∨ (x ∈ o.dynamicFrameworks ↔ y ∈ o.dynamicFrameworks)
  bundles : Glob.extension? x = some "xcframework" → o.xcframeworks[x]? = o.xcframeworks[y]?

/-- A path with slashes at the end. -/
def slashed (path : String) (n : Nat) : String := path ++ .ofList (List.replicate n '/')

section Slashed

variable (path : String) (n : Nat)

theorem toList_slashed : (slashed path n).toList = path.toList ++ List.replicate n '/' := by
  simp [slashed]

theorem extension?_slashed : Glob.extension? (slashed path n) = Glob.extension? path := by
  rw [Glob.extension?, toList_slashed, Glob.extensionOf?_append_slashes, Glob.extension?]

theorem trimmedPath_slashed :
    Artifact.trimmedPath (slashed path n) = Artifact.trimmedPath path := by
  rw [Artifact.trimmedPath, toList_slashed, Glob.trimSlashes_append_slashes,
    Artifact.trimmedPath]

theorem names_slashed {ext : String} (h : Glob.extension? path = some ext) (hext : ext ≠ "") :
    bundleName (slashed path n) = bundleName path ∧
      fileNameOr (slashed path n) = fileNameOr path := by
  obtain ⟨hends, hfile⟩ := endsIn_of_extension? h hext
  have h' := (extension?_slashed path n).trans h
  obtain ⟨-, hfile'⟩ := endsIn_of_extension? h' hext
  have hname : bundleName (slashed path n) = bundleName path := by
    refine bundleName_of_endsIn h' hext ?_
    rw [toList_slashed]
    exact hends.append_slashes n
  exact ⟨hname, by rw [hfile', hfile, hname]⟩

end Slashed

section Options

variable {o : Options} {p : Platform} {path : String}

theorem artifactsOf_bundle (h : Glob.extension? path = some "xcframework") :
    artifactsOf (.ofOptions o) p path =
      (o.xcframeworks[path]?.map fun slices =>
        Artifact.xcframework ⟨bundleName path, path, slices⟩).toList := by
  have hnone : artifactOfFramework? (.ofOptions o) p path = none := by
    rw [artifactOfFramework?, h, if_neg (by decide)]
  rw [artifactsOf, hnone, artifactOfBundle?, if_pos h, bundle?, Option.map_map]
  exact List.append_nil _

theorem isDynamic_ofOptions_iff : (Probe.ofOptions o).isDynamic path = true ↔
    fileNameOr path ∈ o.dynamicFrameworks ∨ path ∈ o.dynamicFrameworks := by
  simp only [Probe.ofOptions, List.any_eq_true, Bool.or_eq_true, decide_eq_true_eq]
  constructor
  · rintro ⟨listed, hmem, rfl | rfl⟩
    · exact Or.inr hmem
    · exact Or.inl hmem
  · rintro (hmem | hmem)
    · exact ⟨_, hmem, Or.inr rfl⟩
    · exact ⟨_, hmem, Or.inl rfl⟩

theorem artifactsOf_framework (h : Glob.extension? path = some "framework") :
    artifactsOf (.ofOptions o) p path =
      if (Probe.ofOptions o).isDynamic path then
        [.xcframework ⟨bundleName path, path, [onlySlice p ["arm64"] (fileNameOr path)]⟩]
      else [.staticFramework path] := by
  have hnone : artifactOfBundle? (.ofOptions o) path = none := by
    rw [artifactOfBundle?, h, if_neg (by decide)]
  have hx : wrap? (.ofOptions o) p path =
      some ⟨bundleName path, path, [onlySlice p ["arm64"] (fileNameOr path)]⟩ := rfl
  rw [artifactsOf, hnone, artifactOfFramework?, if_pos h, hx]
  split <;> rfl

theorem artifactsOf_other (hbundle : Glob.extension? path ≠ some "xcframework")
    (hframework : Glob.extension? path ≠ some "framework") :
    artifactsOf (.ofOptions o) p path = [] := by
  rw [artifactsOf, artifactOfBundle?, if_neg hbundle, artifactOfFramework?, if_neg hframework]
  rfl

theorem saysSame_iff_of_bundle {path' : String} (h : Glob.extension? path = some "xcframework") :
    o.SaysSame path path' ↔ o.xcframeworks[path']? = o.xcframeworks[path]? := by
  constructor
  · exact fun hsame => (hsame.bundles h).symm
  · intro heq
    refine ⟨fun hframework => ?_, fun _ => heq.symm⟩
    rw [h] at hframework
    exact absurd hframework (by decide)

theorem saysSame_iff_of_framework {path' : String} (h : Glob.extension? path = some "framework")
    (hfile : fileNameOr path' = fileNameOr path) : o.SaysSame path path' ↔
      (Probe.ofOptions o).isDynamic path' = (Probe.ofOptions o).isDynamic path := by
  have hsame : o.SaysSame path path' ↔ fileNameOr path ∈ o.dynamicFrameworks ∨
      (path ∈ o.dynamicFrameworks ↔ path' ∈ o.dynamicFrameworks) := by
    constructor
    · exact fun hsame => hsame.frameworks h
    · intro heq
      refine ⟨fun _ => heq, fun hbundle => ?_⟩
      rw [h] at hbundle
      exact absurd hbundle (by decide)
  rw [hsame, Bool.eq_iff_iff, isDynamic_ofOptions_iff, isDynamic_ofOptions_iff, hfile]
  by_cases hlisted : fileNameOr path ∈ o.dynamicFrameworks
  · simp only [hlisted, true_or]
  · simp only [hlisted, false_or]
    exact iff_comm

end Options

/-- The path with slashes becomes the same exactly if the options say the same of it. -/
theorem artifactsOf_slashed_perm_iff (o : Options) (p : Platform) (path : String) (n : Nat) :
    ((artifactsOf (.ofOptions o) p (slashed path n)).map (·.trimmed)).Perm
        ((artifactsOf (.ofOptions o) p path).map (·.trimmed)) ↔
      o.SaysSame path (slashed path n) := by
  have hext := extension?_slashed path n
  have htrim := trimmedPath_slashed path n
  by_cases hbundle : Glob.extension? path = some "xcframework"
  · obtain ⟨hname, -⟩ := names_slashed path n hbundle (by decide)
    rw [artifactsOf_bundle hbundle, artifactsOf_bundle (hext.trans hbundle), hname,
      saysSame_iff_of_bundle hbundle]
    cases o.xcframeworks[slashed path n]? <;> cases o.xcframeworks[path]? <;>
      simp [Artifact.trimmed, htrim]
  by_cases hframework : Glob.extension? path = some "framework"
  · obtain ⟨hname, hfile⟩ := names_slashed path n hframework (by decide)
    rw [artifactsOf_framework hframework, artifactsOf_framework (hext.trans hframework), hname,
      hfile, saysSame_iff_of_framework hframework hfile]
    cases (Probe.ofOptions o).isDynamic (slashed path n) <;>
      cases (Probe.ofOptions o).isDynamic path <;> simp [Artifact.trimmed, htrim]
  · rw [artifactsOf_other hbundle hframework,
      artifactsOf_other (hext.trans_ne hbundle) (hext.trans_ne hframework)]
    exact iff_of_true (List.Perm.refl _)
      ⟨fun h => absurd h hframework, fun h => absurd h hbundle⟩

theorem artifactOfLibrary?_slashed (path : String) (n : Nat) :
    ((artifactOfLibrary? (slashed path n)).toList.map (·.trimmed)) =
      (artifactOfLibrary? path).toList.map (·.trimmed) := by
  rw [artifactOfLibrary?, artifactOfLibrary?, extension?_slashed]
  split
  · simp [Artifact.trimmed, trimmedPath_slashed]
  · rfl

/-- Slashes at the end of a path change nothing but the order and the stored path,
unless a framework or a bundle is looked up by the whole path. -/
theorem classify_slashed_perm_iff (o : Options) (p : Platform) (frameworks libraries : StringSet)
    (path : String) (n : Nat) :
    let path' := slashed path (n + 1)
    let made frameworks libraries :=
      (classify (.ofOptions o) p frameworks libraries).map (·.trimmed)
    (path ∈ frameworks → path' ∉ frameworks →
      ((made (frameworks.replace path path') libraries).Perm (made frameworks libraries) ↔
        o.SaysSame path path')) ∧
    (path ∈ libraries → path' ∉ libraries →
      (made frameworks (libraries.replace path path')).Perm (made frameworks libraries)) := by
  intro path' made
  constructor
  · intro hp hp'
    rw [← artifactsOf_slashed_perm_iff o p path (n + 1)]
    refine StringSet.replace_perm_iff (made · libraries)
      (fun x => (artifactsOf (.ofOptions o) p x).map (·.trimmed)) (fun hx => ?_) hp hp'
    rw [← List.map_append]
    exact (classify_insert_perm (.ofOptions o) p hx libraries).map _
  · intro hp hp'
    refine (StringSet.replace_perm_iff (made frameworks ·)
      (fun x => (artifactOfLibrary? x).toList.map (·.trimmed)) (fun hx => ?_) hp hp').2
        (.of_eq (artifactOfLibrary?_slashed path (n + 1)))
    rw [← List.map_append]
    exact (classify_insert_library_perm (.ofOptions o) p hx frameworks).map _

theorem classify_slashed_perm_vendoring :
    let fs : StringSet := .ofList ["V/Dyn.framework", "V/X.xcframework"]
    let ls : StringSet := .ofList ["V/libfoo.a"]
    let made fs ls := (classify (.ofOptions vendoring) .ios fs ls).map (·.trimmed)
    let dyn := slashed "V/Dyn.framework" 2
    let lib := slashed "V/libfoo.a" 1
    "V/Dyn.framework" ∈ fs ∧ dyn ∉ fs ∧ vendoring.SaysSame "V/Dyn.framework" dyn ∧
      (made (fs.replace "V/Dyn.framework" dyn) ls).Perm (made fs ls) ∧
      "V/libfoo.a" ∈ ls ∧ lib ∉ ls ∧
      (made fs (ls.replace "V/libfoo.a" lib)).Perm (made fs ls) := by
  intro fs ls made dyn lib
  have hin : "V/Dyn.framework" ∈ fs := by decide +kernel
  have hout : dyn ∉ fs := by decide +kernel
  have hsame : vendoring.SaysSame "V/Dyn.framework" dyn :=
    ⟨fun _ => Or.inl (by decide +kernel), fun h => absurd h (by decide +kernel)⟩
  have hlib : "V/libfoo.a" ∈ ls := by decide +kernel
  have hlib' : lib ∉ ls := by decide +kernel
  obtain ⟨hframework, -⟩ := classify_slashed_perm_iff vendoring .ios fs ls "V/Dyn.framework" 1
  obtain ⟨-, hlibrary⟩ := classify_slashed_perm_iff vendoring .ios fs ls "V/libfoo.a" 0
  exact ⟨hin, hout, hsame, (hframework hin hout).2 hsame, hlib, hlib', hlibrary hlib hlib'⟩

/-- Options that list a framework or a bundle by its path do not list it with a slash. -/
theorem slashed_whole_is_static :
    let whole : XcFramework :=
      ⟨"Whole", "V/Whole.framework", [onlySlice .ios ["arm64"] "Whole.framework"]⟩
    let x : XcFramework :=
      ⟨"X", "V/X.xcframework", [onlySlice .ios ["arm64"] "X.framework"]⟩
    let made (fs : List String) := classify (.ofOptions vendoring) .ios (.ofList fs) ∅
    made ["V/Whole.framework", "V/X.xcframework"] = [.xcframework x, .xcframework whole] ∧
      made ["V/Whole.framework/", "V/X.xcframework"] =
        [.xcframework x, .staticFramework "V/Whole.framework/"] ∧
      made ["V/Whole.framework", "V/X.xcframework/"] = [.xcframework whole] := by
  decide +kernel

end PodTarget
