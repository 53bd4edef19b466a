import PodTarget.Proofs.BraceGroups
import PodTarget.Proofs.FileNames
import PodTarget.Proofs.FileSelection
import PodTarget.Proofs.KeptLabels

/-! Which resources become bundles. A pattern is told to be a bundle by how it ends,
as it is declared, while groups are opened up among the other patterns only. What is
put behind a pattern to make a glob of it never makes or hides a bundle, so bundles and
loose resources are kept apart if opening up a pattern does not either. -/

namespace PodTarget

open Text

theorem isBundle_ofList_iff {s : List Char} :
    isBundle (.ofList s) ↔ ".bundle".toList <:+ Glob.trimSlashes s := by
  rw [isBundle, isSome_after?_iff, List.reverse_prefix, @String.toList_ofList s]

theorem isBundle_trimSlashes (s : List Char) :
    isBundle (.ofList (Glob.trimSlashes s)) = isBundle (.ofList s) := by
  rw [Bool.eq_iff_iff, isBundle_ofList_iff, isBundle_ofList_iff, Glob.trimSlashes_trimSlashes]

theorem isBundle_append_wildcard (lead : List Char) :
    isBundle (.ofList (lead ++ ['*'])) = false := by
  rw [← Bool.not_eq_true, isBundle_ofList_iff, Glob.trimSlashes_append (by simp) (by decide)]
  rintro ⟨stem, h⟩
  have := congrArg List.getLast? h
  rw [List.getLast?_concat, List.getLast?_append_of_ne_nil _ (by decide)] at this
  exact absurd this (by decide)

theorem eq_of_isBundle {s ext : List Char} (h : isBundle (.ofList s))
    (hext : Glob.extensionOf? s = some ext) : ext = "bundle".toList := by
  obtain ⟨stem, -, hdot, hlast⟩ := Glob.extensionOf?_eq_some_iff.1 hext
  obtain ⟨front, hs, -, -⟩ := Glob.exists_front (s := s) (by simp [hlast])
  obtain ⟨lead, hlead⟩ := isBundle_ofList_iff.1 h
  have hcut : Glob.cutLastDot? (Glob.trimSlashes s) = some (front ++ stem, ext) :=
    Glob.cutLastDot?_eq_some_iff.2 ⟨by rw [hs, hlast, List.append_assoc], hdot⟩
  have hbundle : Glob.cutLastDot? (Glob.trimSlashes s) = some (lead, "bundle".toList) :=
    Glob.cutLastDot?_eq_some_iff.2 ⟨hlead.symm, by decide⟩
  exact (Prod.mk.inj (Option.some.inj (hcut.symm.trans hbundle))).2

theorem isBundle_resourceGlob (s : List Char) :
    isBundle (.ofList (Glob.resourceGlob s)) = isBundle (.ofList s) := by
  rw [← isBundle_trimSlashes s]
  have hfront := Glob.exists_front (s := Glob.trimSlashes s)
  rw [Glob.trimSlashes_trimSlashes] at hfront
  simp only [Glob.resourceGlob]
  generalize Glob.trimSlashes s = trimmed at hfront
  split
  · next hall =>
    -- the wildcards at the end are neither a bundle, nor with another one behind them
    obtain ⟨front, htrimmed, -, -⟩ := hfront (by simp [hall])
    rw [hall] at htrimmed
    have hglob := isBundle_append_wildcard (trimmed ++ ['/'])
    have hplain := isBundle_append_wildcard (front ++ ['*'])
    rw [List.append_assoc] at hglob hplain
    rw [htrimmed] at hglob ⊢
    exact hglob.trans hplain.symm
  · split
    · next ext hext =>
      split
      · next hmem =>
        have hglob := isBundle_append_wildcard (trimmed ++ ['/', '*'])
        rw [List.append_assoc] at hglob
        have hplain : isBundle (.ofList trimmed) = false := by
          rw [Bool.eq_false_iff]
          intro h
          rw [eq_of_isBundle h hext] at hmem
          exact absurd hmem (by decide)
        exact hglob.trans hplain.symm
      · rfl
    · rfl

/-- Whether a pattern gives bundles is seen before its groups are opened up: one that
ends as a bundle has none, and opening up another one does not make a bundle. -/
structure ShowsKind (pattern : String) : Prop where
  bundle : isBundle pattern → ¬Glob.HasGroup pattern.toList
  loose : ¬isBundle pattern → ∀ result ∈ Glob.expandBraces pattern, ¬isBundle result

theorem showsKind_of_not_hasGroup {pattern : String} (h : ¬Glob.HasGroup pattern.toList) :
    ShowsKind pattern where
  bundle _ := h
  loose hloose result hr := by
    rw [Glob.expandBraces_eq_singleton_iff.2 h, List.mem_singleton] at hr
    rwa [hr]

/-- A pattern gives a bundle among its globs where it is opened up to one. -/
theorem exists_isBundle_resourcesOf_iff {pattern : String} :
    (∃ glob ∈ Glob.resourcesOf pattern, isBundle glob) ↔
      ∃ result ∈ Glob.expandBraces pattern, isBundle result := by
  simp only [Glob.resourcesOf, Glob.expandBraces, List.map_map, List.mem_map,
    Function.comp_apply, exists_exists_and_eq_and, isBundle_resourceGlob]

namespace FrameworkTarget

section Resources

variable (assembly : Assembly) (root : Declaration) (subspecs : List Declaration)
  (deps : StringSet) (p : Platform)

theorem mem_get_bundles {bundle : String} :
    bundle ∈ (assemble assembly root subspecs deps).bundles.get p ↔
      bundle ∈ root.patternsFor subspecs (·.resources) p ∧ isBundle bundle := by
  rw [assemble, PlatformValue.get_map, PlatformValue.get_spread, StringSet.mem_where,
    Declaration.mem_get_collectSet, Declaration.patternsFor, List.mem_flatMap]

theorem mem_get_resources {glob : String} :
    glob ∈ (assemble assembly root subspecs deps).resources.get p ↔
      ∃ pattern ∈ root.patternsFor subspecs (·.resources) p,
        ¬isBundle pattern ∧ glob ∈ Glob.resourcesOf pattern := by
  rw [assemble, PlatformValue.get_map, PlatformValue.get_spread, Glob.mem_extractResources]
  simp only [Std.ExtTreeSet.mem_toList, StringSet.mem_where, Declaration.mem_get_collectSet,
    Declaration.patternsFor, List.mem_flatMap, and_assoc, Bool.not_eq_true', Bool.not_eq_true]

end Resources

/-- The bundles are the patterns in effect that end as one, as they are declared. They are
kept apart from the loose resources, and opened up, exactly if each pattern shows its kind,
as all do that have no groups. -/
theorem assemble_separates (assembly : Assembly) (root : Declaration)
    (subspecs : List Declaration) (deps : StringSet) (p : Platform) :
    let t := assemble assembly root subspecs deps
    let patterns := root.patternsFor subspecs (·.resources) p
    (∀ bundle, bundle ∈ t.bundles.get p ↔ bundle ∈ patterns ∧ isBundle bundle) ∧
      ((∀ glob ∈ t.resources.get p, ¬isBundle glob) ∧
          (∀ bundle ∈ t.bundles.get p, Glob.expandBraces bundle = [bundle]) ∧
          (∀ pattern ∈ patterns, ∀ result ∈ Glob.expandBraces pattern,
            result ∈ t.bundles.get p ↔ isBundle result) ↔
        ∀ pattern ∈ patterns, ShowsKind pattern) ∧
      ∀ pattern, ¬Glob.HasGroup pattern.toList → ShowsKind pattern := by
  intro t patterns
  have hbundles (bundle : String) :
      bundle ∈ t.bundles.get p ↔ bundle ∈ patterns ∧ isBundle bundle :=
    mem_get_bundles assembly root subspecs deps p
  have hresources (glob : String) : glob ∈ t.resources.get p ↔
      ∃ pattern ∈ patterns, ¬isBundle pattern ∧ glob ∈ Glob.resourcesOf pattern :=
    mem_get_resources assembly root subspecs deps p
  refine ⟨hbundles, ⟨?_, ?_⟩, fun pattern => showsKind_of_not_hasGroup⟩
  · rintro ⟨hloose, hplain, -⟩ pattern hp
    constructor
    · intro hbundle
      exact Glob.expandBraces_eq_singleton_iff.1 (hplain pattern ((hbundles _).2 ⟨hp, hbundle⟩))
    · intro hkind result hr hbundle
      obtain ⟨glob, hglob, hg⟩ := exists_isBundle_resourcesOf_iff.2 ⟨result, hr, hbundle⟩
      exact hloose glob ((hresources glob).2 ⟨pattern, hp, hkind, hglob⟩) hg
  · intro hshows
    refine ⟨?_, ?_, ?_⟩
    · intro glob hglob hg
      obtain ⟨pattern, hp, hkind, hof⟩ := (hresources glob).1 hglob
      obtain ⟨result, hr, hbundle⟩ := exists_isBundle_resourcesOf_iff.1 ⟨glob, hof, hg⟩
      exact (hshows pattern hp).loose hkind result hr hbundle
    · intro bundle hbundle
      obtain ⟨hp, hkind⟩ := (hbundles bundle).1 hbundle
      exact Glob.expandBraces_eq_singleton_iff.2 ((hshows bundle hp).bundle hkind)
    · intro pattern hp result hr
      refine ⟨fun h => ((hbundles result).1 h).2, fun hbundle => ?_⟩
      by_cases hkind : isBundle pattern
      · -- a bundle is opened up to itself
        rw [Glob.expandBraces_eq_singleton_iff.2 ((hshows pattern hp).bundle hkind),
          List.mem_singleton] at hr
        exact (hbundles result).2 ⟨hr ▸ hp, hbundle⟩
      · exact absurd hbundle ((hshows pattern hp).loose hkind result hr)

/-- A bundle beside another file in one group is taken for loose, and bundles that are
named by a group stay one text with braces. -/
theorem grouped_bundles_are_not_separated :
    let patterns := ["{A.bundle,B.png}", "Kit/{C,D}.bundle"]
    let root :=
      { Declaration.named "Foo" with
        attributes := { Attributes.empty with resources := patterns } }
    let t := assemble (.ofOptions Options.default) root [] ∅
    "A.bundle" ∈ Glob.expandBraces "{A.bundle,B.png}" ∧ isBundle "A.bundle" ∧
      "A.bundle" ∈ t.resources.get .ios ∧ t.bundles.get .ios = {"Kit/{C,D}.bundle"} ∧
      Glob.expandBraces "Kit/{C,D}.bundle" = ["Kit/C.bundle", "Kit/D.bundle"] := by
  decide +kernel

end FrameworkTarget

end PodTarget
