import Mathlib.Data.List.Forall2
import Mathlib.Data.List.Nodup
import PodTarget.Proofs.Emission
import PodTarget.Target.BuildFile

/-! Which attributes of a target are written. Each has a condition of its own:
that there is something to say for the primary platform, or nothing at all. What
is written has no empty node anywhere, though values are left out at several
depths: as options, as entries of a map, as branches of a choice, as arguments. -/

namespace PodTarget

open Starlark

theorem PerPlatform.entries_ne_nil_iff {α : Type} {v : PerPlatform (Option α)} :
    v.entries ≠ [] ↔ ∃ p, (v.get p).isSome := by
  constructor
  · intro h
    obtain ⟨⟨p, a⟩, he⟩ := List.exists_mem_of_ne_nil _ h
    exact ⟨p, by rw [mem_entries.1 he]; rfl⟩
  · rintro ⟨p, hp⟩
    obtain ⟨a, ha⟩ := Option.isSome_iff_exists.1 hp
    exact List.ne_nil_of_mem (mem_entries.2 ha)

namespace Starlark

section Emptiness

variable {α : Type} [ToNode α]

theorem isEmpty_string {s : String} : (toNode s : Node).isEmpty = false ↔ s ≠ "" := by
  simp [toNode, Node.isEmpty]

theorem isEmpty_list {l : List α} : (toNode l).isEmpty = false ↔ l ≠ [] := by
  simp [toNode, Node.isEmpty]

theorem isEmpty_set {s : StringSet} : (toNode s).isEmpty = false ↔ s ≠ ∅ := by
  simp [toNode, Node.isEmpty]

theorem isEmpty_option {a : Option α} :
    (toNode a).isEmpty = false ↔ ∃ b, a = some b ∧ (toNode b).isEmpty = false := by
  cases a with
  | none => simp [toNode, Node.isEmpty]
  | some b => simp [toNode]

theorem isEmpty_pattern {p : FilePattern} : (toNode p).isEmpty = false ↔ p.incl ≠ ∅ := by
  have hp : p.isEmpty = true ↔ p.incl = ∅ := Std.ExtTreeSet.isEmpty_iff
  by_cases h : p.isEmpty = true
  · simp [toNode, h, hp.1 h, Node.isEmpty]
  · simp only [toNode, h]
    exact ⟨fun _ hne => h (hp.2 hne), fun _ => rfl⟩

theorem isEmpty_dictOf [Expressed α] {entries : List (String × α)} :
    (dictOf entries).isEmpty = false ↔ entries ≠ [] := by
  rw [dictOf_eq (fun _ => true) fun a => ⟨fun _ => (expression a).ne_empty, fun _ => rfl⟩]
  simp [Node.isEmpty]

theorem isEmpty_map [Expressed α] {m : StringMap α} : (toNode m).isEmpty = false ↔ m ≠ ∅ := by
  have hm : m.toList = [] ↔ m = ∅ := by simp
  exact isEmpty_dictOf.trans (not_congr hm)

theorem isEmpty_perPlatform [Expressed α] {v : PerPlatform (Option α)} :
    (toNode v).isEmpty = false ↔ ∃ p, (v.get p).isSome := by
  rw [← PerPlatform.entries_ne_nil_iff]
  exact isEmpty_dictOf.trans (not_congr List.map_eq_nil_iff)

theorem isEmpty_platformValue [DecidableEq α] {v : PlatformValue α} : (toNode v).isEmpty = false ↔
    (∃ p, v.get p ≠ v.default) ∨ (toNode v.default).isEmpty = false := by
  by_cases h : ∀ p, v.get p = v.default
  · have hno : ¬∃ p, v.get p ≠ v.default := fun ⟨p, hp⟩ => hp (h p)
    rw [toNode_of_uniform h, or_iff_right hno]
  · have hdiff := not_forall.1 h
    rw [toNode_of_differing hdiff]
    exact ⟨fun _ => Or.inl hdiff, fun _ => rfl⟩

end Emptiness

end Starlark

theorem exists_of_forall₂ {α β : Type} {R : α → β → Prop} {as : List α} {bs : List β}
    (h : List.Forall₂ R as bs) {b : β} (hb : b ∈ bs) : ∃ a ∈ as, R a b := by
  induction h with
  | nil => exact absurd hb List.not_mem_nil
  | cons hab _ ih =>
    rcases List.mem_cons.1 hb with rfl | hb
    · exact ⟨_, List.mem_cons_self, hab⟩
    · obtain ⟨a, ha, hab⟩ := ih hb
      exact ⟨a, List.mem_cons_of_mem _ ha, hab⟩

namespace FrameworkTarget

/-- The attributes of the rule, in the order of emission. -/
def attributeNames : List String :=
  ["name", "module_name", "bundle_id", "swift_version", "link_dynamic", "infoplists", "platforms",
   "srcs", "public_headers", "private_headers", "data", "resource_bundles", "deps",
   "vendored_xcframeworks", "vendored_static_frameworks", "vendored_dynamic_frameworks",
   "vendored_static_libraries", "objc_defines", "swift_defines", "sdk_dylibs", "sdk_frameworks",
   "weak_sdk_frameworks", "objc_copts", "swift_copts", "linkopts", "xcconfig", "visibility"]

theorem nodup_attributeNames : attributeNames.Nodup := by decide

/-- What it takes for each attribute to be written. -/
def presence (t : FrameworkTarget) : List (String × Prop) :=
  [("name", t.name ≠ ""),
   ("module_name", t.moduleName.primary ≠ ""),
   ("bundle_id", True),
   ("swift_version", (∃ p, t.swiftVersion.get p ≠ t.swiftVersion.default) ∨
     ∃ v, t.swiftVersion.default = some v ∧ v ≠ ""),
   ("link_dynamic", True),
   ("infoplists", t.infoPlists ≠ []),
   ("platforms", ∃ p, (t.platforms.get p).isSome),
   ("srcs", t.sourceFiles.primary.incl ≠ ∅),
   ("public_headers", t.publicHeaders.primary.incl ≠ ∅),
   ("private_headers", t.privateHeaders.primary.incl ≠ ∅),
   ("data", t.resources.primary ≠ ∅ ∨ t.bundles.primary ≠ ∅),
   ("resource_bundles", ∃ (name : String) (globs : StringSet),
     t.resourceBundles.primary[name]? = some globs ∧ globs ≠ ∅),
   ("deps", t.deps.primary ≠ ∅),
   ("vendored_xcframeworks", t.vendored.primary.xcframeworks ≠ []),
   ("vendored_static_frameworks", t.vendored.primary.staticFrameworks ≠ ∅),
   ("vendored_dynamic_frameworks", t.vendored.primary.dynamicFrameworks ≠ ∅),
   ("vendored_static_libraries", t.vendored.primary.staticLibraries ≠ ∅),
   ("objc_defines", True),
   ("swift_defines", True),
   ("sdk_dylibs", t.sdkDylibs.primary ≠ ∅),
   ("sdk_frameworks", t.sdkFrameworks.primary ≠ ∅),
   ("weak_sdk_frameworks", t.weakSdkFrameworks.primary ≠ ∅),
   ("objc_copts", t.flags.objcOpts ≠ []),
   ("swift_copts", t.flags.swiftOpts ≠ []),
   ("linkopts", t.flags.linkOpts ≠ []),
   ("xcconfig", t.flags.xcconfig ≠ ∅),
   ("visibility", True)]

variable (t : FrameworkTarget)

theorem map_fst_presence : t.presence.map (·.1) = attributeNames := rfl

theorem map_fst_attributes : t.attributes.map (·.1) = attributeNames := rfl

/-- The bundles that have globs, each with its globs. -/
theorem toNode_bundlePatterns : toNode t.bundlePatterns =
    .dict ((t.resourceBundles.primary.toList.filter fun e => !e.2.isEmpty).map fun e =>
      (.str e.1, .call "glob" [.positional (.strings e.2.toList)])) := by
  have hvalued (p : FilePattern) : (!p.isEmpty) = true ↔ toNode p ≠ .empty := by
    rw [pattern_ne_empty_iff, Bool.not_eq_true']
  refine (dictOf_eq (fun p => !p.isEmpty) hvalued _).trans (congrArg Node.dict ?_)
  rw [bundlePatterns, Std.ExtTreeMap.toList_map, List.filter_map, List.map_map]
  refine List.map_congr_left fun e he => ?_
  have hglobs : (FilePattern.includeOnly e.2).isEmpty = false := by
    simpa using (List.mem_filter.1 he).2
  have hnone : (FilePattern.includeOnly e.2).excl.isEmpty = true := rfl
  simp only [Function.comp_apply, toNode, hglobs, globArgs, hnone]
  rfl

theorem isEmpty_bundlePatterns : (toNode t.bundlePatterns).isEmpty = false ↔
    ∃ (name : String) (globs : StringSet),
      t.resourceBundles.primary[name]? = some globs ∧ globs ≠ ∅ := by
  have hdict (l : List (Node × Node)) : (Node.dict l).isEmpty = false ↔ l ≠ [] := by
    simp [Node.isEmpty]
  rw [toNode_bundlePatterns, hdict, Ne, List.map_eq_nil_iff]
  constructor
  · intro h
    obtain ⟨⟨name, globs⟩, he⟩ := List.exists_mem_of_ne_nil _ h
    rw [List.mem_filter, Std.ExtTreeMap.mem_toList_iff_getElem?_eq_some] at he
    exact ⟨name, globs, he.1, by simpa using he.2⟩
  · rintro ⟨name, globs, hname, hglobs⟩
    have he := Std.ExtTreeMap.mem_toList_iff_getElem?_eq_some.2 hname
    exact List.ne_nil_of_mem (List.mem_filter.2 ⟨he, by simpa using hglobs⟩)

theorem isEmpty_dataNode :
    t.dataNode.isEmpty = false ↔ t.resources.primary ≠ ∅ ∨ t.bundles.primary ≠ ∅ := by
  have hresources : t.resources.primary.isEmpty = true ↔ t.resources.primary = ∅ :=
    Std.ExtTreeSet.isEmpty_iff
  have hbundles : t.bundles.primary.isEmpty = true ↔ t.bundles.primary = ∅ :=
    Std.ExtTreeSet.isEmpty_iff
  rw [dataNode]
  by_cases hr : t.resources.primary = ∅
  · by_cases hb : t.bundles.primary = ∅
    · rw [hresources.2 hr, hbundles.2 hb]
      simp [hr, hb, Node.isEmpty]
    · rw [hresources.2 hr, Bool.eq_false_iff.2 (mt hbundles.1 hb)]
      exact ⟨fun _ => Or.inr hb, fun _ => isEmpty_set.2 hb⟩
  · refine ⟨fun _ => Or.inl hr, fun _ => ?_⟩
    rw [Bool.eq_false_iff.2 (mt hresources.1 hr)]
    cases t.bundles.primary.isEmpty with
    | true => exact isEmpty_pattern.2 hr
    | false => rfl

theorem isEmpty_bundleId : (toNode t.bundleId : Node).isEmpty = false := by
  rw [isEmpty_string, bundleId]
  simp

theorem isEmpty_swiftVersion : (toNode t.swiftVersion).isEmpty = false ↔
    (∃ p, t.swiftVersion.get p ≠ t.swiftVersion.default) ∨
      ∃ v, t.swiftVersion.default = some v ∧ v ≠ "" := by
  rw [isEmpty_platformValue, isEmpty_option]
  simp only [isEmpty_string]

/-- An attribute has a value that is not empty where its condition holds. -/
theorem attributes_presence : List.Forall₂
    (fun a c => a.1 = c.1 ∧ (a.2.isEmpty = false ↔ c.2)) t.attributes t.presence := by
  have always {n : Node} (h : n.isEmpty = false) : n.isEmpty = false ↔ True := iff_true_intro h
  simp only [attributes, presence, List.forall₂_cons, List.forall₂_nil_left_iff, true_and,
    and_true]
  exact ⟨isEmpty_string, isEmpty_string, always t.isEmpty_bundleId, t.isEmpty_swiftVersion,
    always rfl, isEmpty_list, isEmpty_perPlatform, isEmpty_pattern, isEmpty_pattern,
    isEmpty_pattern, t.isEmpty_dataNode, t.isEmpty_bundlePatterns, isEmpty_set, isEmpty_list,
    isEmpty_set, isEmpty_set, isEmpty_set, always rfl, always rfl, isEmpty_set, isEmpty_set,
    isEmpty_set, isEmpty_list, isEmpty_list, isEmpty_list, isEmpty_map, always rfl⟩

theorem value_dataNode (h : t.dataNode ≠ .empty) : Value true t.dataNode := by
  rw [dataNode] at h ⊢
  cases hr : t.resources.primary.isEmpty <;> cases hb : t.bundles.primary.isEmpty
  · refine .sum (expression_of_ne _ ?_) (expression _)
    exact pattern_ne_empty_iff.2 hr
  · exact .single (expression_of_ne _ (pattern_ne_empty_iff.2 hr))
  · exact .single (expression _)
  · simp only [hr, hb, ne_eq, not_true_eq_false] at h

theorem value_definesNode (base release debug : List String) :
    Value true (definesNode base release debug) := by
  refine .sum (expression _) (.select fun b hb => ?_)
  rcases List.mem_cons.1 hb with rfl | hb
  · exact expression _
  · rw [List.mem_singleton.1 hb]
    exact expression _

theorem value_of_mem_attributes : ∀ a ∈ t.attributes, a.2 ≠ .empty → Value true a.2 := by
  have single {α : Type} [ToNode α] [Expressible α] (a : α) (h : toNode a ≠ .empty) :
      Value true (toNode a) := .single (expression_of_ne a h)
  simp only [attributes, List.forall_mem_cons]
  exact ⟨single _, single _, single _, single _, single _, single _, single _, single _,
    single _, single _, t.value_dataNode, single _, single _, single _, single _, single _,
    single _, fun _ => value_definesNode .., fun _ => value_definesNode .., single _, single _,
    single _, single _, single _, single _, single _, single _,
    fun _ h => absurd h List.not_mem_nil⟩

/-- The attributes that are written. -/
def written : List (String × Node) := t.attributes.filter fun a => !a.2.isEmpty

theorem toNode_eq : toNode t = .call rule (t.written.map fun a => .named a.1 a.2) := by
  show Node.callWith rule (t.attributes.map fun a => .named a.1 a.2) = _
  rw [Node.callWith, written, List.filter_map]
  rfl

theorem value_of_mem_written : ∀ a ∈ t.written, Value true a.2 := by
  intro a ha
  obtain ⟨hmem, hval⟩ := List.mem_filter.1 ha
  refine t.value_of_mem_attributes a hmem fun h => ?_
  simp [h, Node.isEmpty] at hval

theorem sublist_written : (t.written.map (·.1)).Sublist attributeNames := by
  rw [← t.map_fst_attributes]
  exact List.filter_sublist.map _

theorem eq_of_mem_attributes {a b : String × Node} (ha : a ∈ t.attributes)
    (hb : b ∈ t.attributes) (h : a.1 = b.1) : a = b := by
  have hnodup : (t.attributes.map (·.1)).Nodup := by
    rw [map_fst_attributes]
    exact nodup_attributeNames
  exact List.inj_on_of_nodup_map hnodup ha hb h

/-- An attribute is written just where its condition holds. -/
theorem mem_written_iff {name : String} {needed : Prop} (h : (name, needed) ∈ t.presence) :
    name ∈ t.written.map (·.1) ↔ needed := by
  obtain ⟨⟨name', v⟩, hv, rfl, hneeded⟩ := exists_of_forall₂ t.attributes_presence h
  refine Iff.trans ?_ hneeded
  rw [List.mem_map]
  constructor
  · rintro ⟨b, hb, hname⟩
    obtain ⟨hmem, hval⟩ := List.mem_filter.1 hb
    rw [t.eq_of_mem_attributes hmem hv hname] at hval
    simpa using hval
  · intro hval
    exact ⟨_, List.mem_filter.2 ⟨hv, by simpa using hval⟩, rfl⟩

/-- The attributes written are those whose condition holds, in the order of
emission, with values that are not empty and have no empty node in them. -/
theorem toNode_writes_present (t : FrameworkTarget) : ∃ args : List (String × Node),
    toNode t = .call rule (args.map fun a => .named a.1 a.2) ∧
      (args.map (·.1)).Sublist attributeNames ∧ (args.map (·.1)).Nodup ∧
      (∀ a ∈ args, a.2.isEmpty = false) ∧ ¬Node.Occurs .empty (toNode t) ∧
      t.presence.map (·.1) = attributeNames ∧
      (∀ name needed, (name, needed) ∈ t.presence → (name ∈ args.map (·.1) ↔ needed)) ∧
      ∀ v, ("resource_bundles", v) ∈ args → v = .dict
        ((t.resourceBundles.primary.toList.filter fun e => !e.2.isEmpty).map fun e =>
          (.str e.1, .call "glob" [.positional (.strings e.2.toList)])) := by
  refine ⟨t.written, t.toNode_eq, t.sublist_written,
    nodup_attributeNames.sublist t.sublist_written, ?_, ?_, t.map_fst_presence,
    fun name needed h => t.mem_written_iff h, ?_⟩
  · intro a ha
    simpa using (List.mem_filter.1 ha).2
  · rw [toNode_eq]
    intro ho
    cases ho with
    | inside hc ho =>
      simp only [Node.children, List.map_map] at hc
      obtain ⟨a, ha, rfl⟩ := List.mem_map.1 hc
      exact (t.value_of_mem_written a ha).not_occurs_empty ho
  · intro v hv
    have hbundles : ("resource_bundles", toNode t.bundlePatterns) ∈ t.attributes := by
      simp [attributes]
    have heq := t.eq_of_mem_attributes (List.mem_of_mem_filter hv) hbundles rfl
    rw [(Prod.mk.inj heq).2, toNode_bundlePatterns]

end FrameworkTarget

end PodTarget
