import PodTarget.Proofs.Collection
import PodTarget.Proofs.Splitting
import PodTarget.Target.Basic

/-! The labels that a target depends on. Those added by name are there for every
platform, as they are. A dependency that is declared gives the label that its name
resolves to, unless that label is a local one without the prefix of the labels of
other pods. -/

namespace PodTarget

open Text

def StartsWith (lead label : String) : Prop := lead.toList <+: label.toList

instance (lead label : String) : Decidable (StartsWith lead label) :=
  inferInstanceAs (Decidable (_ <+: _))

theorem startsWith_colon_iff {label : String} :
    StartsWith ":" label ↔ label.toList.head? = some ':' := by
  rw [StartsWith]
  cases label.toList with
  | nil => simp
  | cons c s => simp [List.cons_prefix_cons, eq_comm]

/-- A label is not local, or it starts as the labels of other pods do. -/
def Kept (o : Options) (label : String) : Prop :=
  ¬StartsWith ":" label ∨ StartsWith o.depsPrefix label

theorem keepsLabel_iff {o : Options} {label : String} : keepsLabel o label ↔ Kept o label := by
  rw [Kept, startsWith_colon_iff, StartsWith, ← isSome_after?_iff]
  simp [keepsLabel]

theorem mem_labelsOf {o : Options} {pod x : String} {names : StringSet} :
    x ∈ labelsOf o pod names ↔ ∃ n ∈ names, x = labelOf o pod n ∧ keepsLabel o x := by
  simp only [labelsOf, StringSet.mem_where, StringSet.mem_bind, List.mem_singleton]
  constructor
  · rintro ⟨⟨n, hn, hx⟩, hk⟩
    exact ⟨n, hn, hx, hk⟩
  · rintro ⟨n, hn, hx, hk⟩
    exact ⟨⟨n, hn, hx⟩, hk⟩

/-- A name of the pod itself gives a label that is local and is not kept, unless
the prefix is that of a local label. -/
theorem not_kept_of_localParts? {o : Options} {pod n : String} (hne : o.depsPrefix ≠ "")
    (hcolon : ¬StartsWith ":" o.depsPrefix) (h : localParts? pod o.separator n ≠ none) :
    ¬Kept o (labelOf o pod n) := by
  obtain ⟨parts, hparts⟩ := Option.ne_none_iff_exists'.1 h
  have hlabel : (labelOf o pod n).toList =
      ':' :: (sanitize pod.toList ++ '_' :: sanitize (join ['_'] parts)) := by
    simp [labelOf, hparts]
  have hlocal : StartsWith ":" (labelOf o pod n) := by
    rw [startsWith_colon_iff, hlabel, List.head?_cons]
  rintro (hl | hp)
  · exact hl hlocal
  · -- the prefix is not empty, so its first character is the colon of the label
    obtain ⟨c, lead, hlead⟩ := List.exists_cons_of_ne_nil (mt String.toList_eq_nil_iff.1 hne)
    rw [StartsWith, hlabel, hlead, List.cons_prefix_cons] at hp
    rw [startsWith_colon_iff, hlead, List.head?_cons, hp.1] at hcolon
    exact hcolon rfl

theorem Declaration.mem_get_collectSet (root : Declaration) (subspecs : List Declaration)
    (field : Attributes → List String) (p : Platform) (x : String) :
    x ∈ (root.collectSet subspecs field).get p ↔
      ∃ d ∈ root :: subspecs, x ∈ d.effective field p := by
  rw [collectSet, holds_collect (P := (x ∈ ·)) (fun _ _ => mem_merge)]
  refine exists_congr fun d => and_congr_right' ?_
  rw [holds_effective (P := (x ∈ ·)) fun _ _ => List.mem_append]
  simp

namespace FrameworkTarget

theorem mem_get_deps (assembly : Assembly) (root : Declaration) (subspecs : List Declaration)
    (added : StringSet) (p : Platform) (x : String) :
    x ∈ (assemble assembly root subspecs added).deps.get p ↔
      (∃ d ∈ added, x = ":" ++ d) ∨
        x ∈ labelsOf assembly.options root.name
          ((root.collectSet subspecs (·.dependencies)).get p) := by
  rw [assemble, PlatformValue.get_merge, PlatformValue.get_uniform, PlatformValue.get_map,
    mem_merge, StringSet.mem_bind]
  simp only [List.mem_singleton, localLabel]

/-- The labels of a target are those added by name and those that the names
declared for the platform resolve to and that are not local, or have the prefix. -/
theorem assemble_deps (assembly : Assembly) (root : Declaration) (subspecs : List Declaration)
    (added : StringSet) (p : Platform) :
    let o := assembly.options
    let labels := (assemble assembly root subspecs added).deps.get p
    let Named n := ∃ d ∈ root :: subspecs, n ∈ d.effective (·.dependencies) p
    let label n := labelOf o root.name n
    (∀ x, x ∈ labels ↔ (∃ d ∈ added, x = ":" ++ d) ∨ ∃ n, Named n ∧ x = label n ∧ Kept o x) ∧
      (∀ x ∈ labels, StartsWith ":" x →
        (∃ d ∈ added, x = ":" ++ d) ∨ StartsWith o.depsPrefix x) ∧
      (∀ n, Named n → ¬StartsWith ":" (label n) → label n ∈ labels) ∧
      (o.depsPrefix ≠ "" → ¬StartsWith ":" o.depsPrefix →
        ∀ x, x ∈ labels ↔ (∃ d ∈ added, x = ":" ++ d) ∨
          ∃ n, Named n ∧ localParts? root.name o.separator n = none ∧ x = label n ∧ Kept o x) := by
  intro o labels Named label
  have hmem (x : String) :
      x ∈ labels ↔ (∃ d ∈ added, x = ":" ++ d) ∨ ∃ n, Named n ∧ x = label n ∧ Kept o x := by
    simp only [labels, mem_get_deps, mem_labelsOf, Declaration.mem_get_collectSet, keepsLabel_iff]
    rfl
  refine ⟨hmem, fun x hx hcolon => ?_, fun n hn hl => ?_, fun hne hcolon x => ?_⟩
  · rcases (hmem x).1 hx with hadded | ⟨n, -, -, hl | hp⟩
    · exact Or.inl hadded
    · exact absurd hcolon hl
    · exact Or.inr hp
  · exact (hmem _).2 (Or.inr ⟨n, hn, rfl, Or.inl hl⟩)
  · rw [hmem]
    refine or_congr_right (exists_congr fun n => and_congr_right fun _ => ?_)
    constructor
    · rintro ⟨rfl, hk⟩
      refine ⟨?_, rfl, hk⟩
      by_contra hlocal
      exact not_kept_of_localParts? hne hcolon hlocal hk
    · exact fun h => h.2

/-- A pod that depends on a subspec of its own, and on another pod for the desktop. -/
def dependent : Declaration :=
  { Declaration.named "Foo" with
    attributes := { Attributes.empty with dependencies := ["Foo/Core"] }
    sections := PerPlatform.none.set .osx
      (some { Attributes.empty with dependencies := ["Baz/UI"] }) }

theorem assemble_deps_dependent :
    let o := Options.default
    let labels := (assemble (.ofOptions o) dependent [] {"Foo_InfoPlist"}).deps.get .osx
    o.depsPrefix ≠ "" ∧ ¬StartsWith ":" o.depsPrefix ∧
      localParts? "Foo" o.separator "Foo/Core" ≠ none ∧ ":Foo_InfoPlist" ∈ labels ∧
      "//Pods/Baz" ∈ labels ∧ ":Foo_Core" ∉ labels := by
  intro o labels
  have hne : o.depsPrefix ≠ "" := by decide
  have hcolon : ¬StartsWith ":" o.depsPrefix := by decide
  obtain ⟨hmem, -, hother, hunlike⟩ :=
    assemble_deps (.ofOptions o) dependent [] {"Foo_InfoPlist"} .osx
  refine ⟨hne, hcolon, by decide, ?_, ?_, fun hcore => ?_⟩
  · exact (hmem _).2 (Or.inl ⟨"Foo_InfoPlist", by simp, rfl⟩)
  · have hlabel : labelOf o dependent.name "Baz/UI" = "//Pods/Baz" := by decide +kernel
    have hnamed : "Baz/UI" ∈ dependent.effective (·.dependencies) .osx := by decide
    have hremote : ¬StartsWith ":" (labelOf o dependent.name "Baz/UI") := by
      rw [hlabel]
      decide
    rw [← hlabel]
    exact hother "Baz/UI" ⟨dependent, by simp, hnamed⟩ hremote
  · rcases (hunlike hne hcolon _).1 hcore with ⟨d, hd, he⟩ | ⟨n, -, -, -, hl | hp⟩
    · obtain rfl : "Foo_InfoPlist" = d := by simpa using hd
      exact absurd he (by decide)
    · exact hl (by decide)
    · exact absurd hp (by decide)

end FrameworkTarget

end PodTarget
