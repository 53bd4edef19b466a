import PodTarget.Proofs.Collection
import PodTarget.Target.Basic

/-! Which files a target takes, whatever the globs match. Dropping a glob from
the included ones because it is excluded letter for letter changes no choice of
files, so what is selected can be told from the patterns declared: those of the
pod and its subspecs that are in effect for the platform, all taken together. -/

namespace PodTarget

namespace FilePattern

variable (matched : String → String → Prop) (file : String)

theorem selects_ofMatches (incl excl : StringSet) :
    (ofMatches incl excl).Selects matched file ↔
      (∃ glob ∈ incl, matched glob file) ∧ ∀ glob ∈ excl, ¬matched glob file := by
  rw [Selects, ofMatches]
  constructor
  · rintro ⟨⟨glob, hglob, hm⟩, hexcl⟩
    exact ⟨⟨glob, (StringSet.mem_where.1 hglob).1, hm⟩, hexcl⟩
  · rintro ⟨⟨glob, hglob, hm⟩, hexcl⟩
    -- a glob that matches the file is not among those excluded, as none of them does
    have hkept : glob ∉ excl := fun h => hexcl glob h hm
    exact ⟨⟨glob, StringSet.mem_where.2 ⟨hglob, by simpa using hkept⟩, hm⟩, hexcl⟩

def Disjoint (p : FilePattern) : Prop := ∀ glob ∈ p.incl, glob ∉ p.excl

theorem disjoint_ofMatches (incl excl : StringSet) : (ofMatches incl excl).Disjoint := by
  intro glob hglob
  have hkept := (StringSet.mem_where.1 hglob).2
  simpa [ofMatches] using hkept

end FilePattern

namespace Declaration

variable (root : Declaration) (subspecs : List Declaration)

/-- The patterns of a pod and its subspecs that are in effect for a platform. -/
def patternsFor (field : Attributes → List String) (p : Platform) : List String :=
  (root :: subspecs).flatMap (·.effective field p)

theorem mem_patternsFor {field : Attributes → List String} {p : Platform} {pattern : String} :
    pattern ∈ root.patternsFor subspecs field p ↔ ∃ d ∈ root :: subspecs,
      pattern ∈ field d.attributes ∨ ∃ s, d.sections.get p = some s ∧ pattern ∈ field s := by
  rw [patternsFor, List.mem_flatMap]
  refine exists_congr fun d => and_congr_right' ?_
  exact holds_effective (P := (pattern ∈ ·)) (fun _ _ => List.mem_append) d field p

theorem get_collect_extractFiles (types : List String) (field : Attributes → List String)
    (p : Platform) : (root.collect subspecs fun a => Glob.extractFiles types (field a)).get p =
      Glob.extractFiles types (root.patternsFor subspecs field p) := by
  refine Std.ExtTreeSet.ext_mem fun glob => ?_
  rw [holds_collect (P := (glob ∈ ·)) (fun _ _ => mem_merge)]
  simp only [Glob.mem_extractFiles, mem_patternsFor]
  constructor
  · rintro ⟨d, hd, ⟨pattern, hp, hg⟩ | ⟨s, hs, pattern, hp, hg⟩⟩
    · exact ⟨pattern, ⟨d, hd, Or.inl hp⟩, hg⟩
    · exact ⟨pattern, ⟨d, hd, Or.inr ⟨s, hs, hp⟩⟩, hg⟩
  · rintro ⟨pattern, ⟨d, hd, hp | ⟨s, hs, hp⟩⟩, hg⟩
    · exact ⟨d, hd, Or.inl ⟨pattern, hp, hg⟩⟩
    · exact ⟨d, hd, Or.inr ⟨s, hs, pattern, hp, hg⟩⟩

theorem get_collectFiles (types : List String) (incl excl : Attributes → List String)
    (p : Platform) : (root.collectFiles subspecs types incl excl).get p =
      .ofMatches (Glob.extractFiles types (root.patternsFor subspecs incl p))
        (Glob.extractFiles types (root.patternsFor subspecs excl p)) := by
  rw [collectFiles, PlatformValue.get_map, PlatformValue.zip, PlatformValue.get_zipWith,
    get_collect_extractFiles, get_collect_extractFiles]

/-- Nothing is both included and excluded, for a platform or where no platform
has a value of its own. -/
theorem disjoint_collectFiles (types : List String) (incl excl : Attributes → List String)
    (p : Platform) : ((root.collectFiles subspecs types incl excl).get p).Disjoint ∧
      (root.collectFiles subspecs types incl excl).default.Disjoint := by
  constructor
  · rw [get_collectFiles]
    exact FilePattern.disjoint_ofMatches _ _
  · exact FilePattern.disjoint_ofMatches _ _

theorem patternsFor_nil (p : Platform) : root.patternsFor subspecs (fun _ => []) p = [] := by
  rw [List.eq_nil_iff_forall_not_mem]
  intro pattern hp
  obtain ⟨d, -, h | ⟨s, -, h⟩⟩ := (root.mem_patternsFor subspecs).1 hp
  · exact List.not_mem_nil h
  · exact List.not_mem_nil h

end Declaration

namespace FrameworkTarget

/-- The sources, public headers and private headers of a target are the files
that the patterns declared for them match and those declared against them do not. -/
theorem assemble_selects (assembly : Assembly) (root : Declaration) (subspecs : List Declaration)
    (deps : StringSet) (p : Platform) (matched : String → String → Prop) :
    let t := assemble assembly root subspecs deps
    let sources field := Glob.extractFiles Glob.sourceTypes (root.patternsFor subspecs field p)
    let headers field := Glob.extractFiles Glob.headerTypes (root.patternsFor subspecs field p)
    (∀ file, (t.sourceFiles.get p).Selects matched file ↔
      (∃ glob ∈ sources (·.sourceFiles), matched glob file) ∧
        ∀ glob ∈ sources (·.excludeFiles), ¬matched glob file) ∧
      (∀ file, (t.publicHeaders.get p).Selects matched file ↔
        (∃ glob ∈ headers (·.publicHeaderFiles), matched glob file) ∧
          ∀ glob ∈ headers (·.privateHeaderFiles), ¬matched glob file) ∧
      (∀ file, (t.privateHeaders.get p).Selects matched file ↔
        ∃ glob ∈ headers (·.privateHeaderFiles), matched glob file) ∧
      (∀ file, ¬((t.publicHeaders.get p).Selects matched file ∧
        (t.privateHeaders.get p).Selects matched file)) ∧
      ∀ v ∈ [t.sourceFiles, t.publicHeaders, t.privateHeaders],
        (v.get p).Disjoint ∧ v.default.Disjoint := by
  intro t sources headers
  have hpublic (file : String) : (t.publicHeaders.get p).Selects matched file ↔
      (∃ glob ∈ headers (·.publicHeaderFiles), matched glob file) ∧
        ∀ glob ∈ headers (·.privateHeaderFiles), ¬matched glob file := by
    rw [← FilePattern.selects_ofMatches, ← Declaration.get_collectFiles]
    rfl
  have hprivate (file : String) : (t.privateHeaders.get p).Selects matched file ↔
      ∃ glob ∈ headers (·.privateHeaderFiles), matched glob file := by
    have hget : t.privateHeaders.get p = .ofMatches (headers (·.privateHeaderFiles))
        (headers fun _ => []) := root.get_collectFiles ..
    have hnone : headers (fun _ => []) = ∅ := by
      simp [headers, Declaration.patternsFor_nil, Glob.extractFiles]
    rw [hget, FilePattern.selects_ofMatches, hnone]
    simp
  refine ⟨fun file => ?_, hpublic, hprivate, ?_, ?_⟩
  · rw [← FilePattern.selects_ofMatches, ← Declaration.get_collectFiles]
    rfl
  · -- a public header is matched by no private glob, a private one by some
    rintro file ⟨h, h'⟩
    obtain ⟨glob, hglob, hm⟩ := (hprivate file).1 h'
    exact ((hpublic file).1 h).2 glob hglob hm
  · intro v hv
    simp only [List.mem_cons, List.not_mem_nil, or_false] at hv
    rcases hv with rfl | rfl | rfl
    all_goals exact Declaration.disjoint_collectFiles ..

end FrameworkTarget

end PodTarget
