import PodTarget.Options.Schema
import PodTarget.Proofs.TomlLines
import PodTarget.Proofs.TomlTables

/-! Options that are written are read back. The text says members, with the bundles in
a table at the end, those without slices in front of the others; decoding puts them
together again whatever their order. -/

namespace PodTarget

open Toml

theorem Toml.plain_ofStrings (items : List String) (n : Nat) : Plain (n + 1) (.ofStrings items) := by
  refine .array fun v hv => ?_
  obtain ⟨s, -, rfl⟩ := List.mem_map.1 hv
  exact .string s

theorem Toml.plain_assigned {ms : Members} (h : ∀ m ∈ ms, Plain (limit - 1) m.2) :
    ∀ x ∈ (assigned ms).map fun a => Statement.assign a.1 a.2, x.Plain := by
  intro x hx
  obtain ⟨a, ha, rfl⟩ := List.mem_map.1 hx
  obtain ⟨m, hm, rfl⟩ := List.mem_map.1 ha
  exact ⟨List.cons_ne_nil _ _, by simp [limit], h m hm⟩

/-- Where each item is read back, so is a list. -/
theorem Toml.mapM_map_eq_ok {α β : Type} (write : α → β) (read : β → Except Error α)
    (h : ∀ a, read (write a) = .ok a) (l : List α) : (l.map write).mapM read = .ok l := by
  have hread : read ∘ write = pure := funext h
  rw [List.mapM_map, hread, List.mapM_pure, List.map_id']
  rfl

theorem Toml.Decode.strings_ofStrings (items : List String) :
    Decode.list Decode.string (.ofStrings items) = .ok items :=
  mapM_map_eq_ok Value.string Decode.string (fun _ => rfl) items

/-! ### Slices -/

namespace Slice

def members (s : Slice) : Members :=
  [("identifier", .string s.identifier), ("platform", .string s.platform.id)] ++
    (s.variant.elim [] fun v => [("platform-variant", .string v)]) ++
    [("supported-archs", .ofStrings s.archs), ("path", .string s.path),
     ("linkage", .string s.linkage.name), ("packaging", .string s.packaging.name)]

variable (s : Slice)

theorem statements_eq : s.statements = (assigned s.members).map fun a => .assign a.1 a.2 := by
  rw [statements, members]
  cases s.variant <;> rfl

theorem nodup_members : (s.members.map (·.1)).Nodup := by
  rw [members]
  cases s.variant <;> simp

theorem plain_members (n : Nat) : ∀ m ∈ s.members, Plain (n + 1) m.2 := by
  simp only [members, List.forall_mem_append, List.forall_mem_cons]
  refine ⟨⟨⟨.string _, .string _, List.forall_mem_nil _⟩, ?_⟩,
    plain_ofStrings _ _, .string _, .string _, .string _, List.forall_mem_nil _⟩
  cases s.variant with
  | none => exact List.forall_mem_nil _
  | some v => exact List.forall_mem_singleton.2 (.string v)

theorem decode_members : decode (.table s.members) = .ok s := by
  obtain ⟨identifier, platform, variant, archs, path, linkage, packaging⟩ := s
  have hplatform : Decode.variant Platform.all Platform.id (.string platform.id) = .ok platform := by
    cases platform <;> decide
  have hlinkage : Decode.variant Linkage.all Linkage.name (.string linkage.name) = .ok linkage := by
    cases linkage <;> decide
  have hpackaging : Decode.variant Packaging.all Packaging.name (.string packaging.name) =
      .ok packaging := by
    cases packaging <;> decide
  cases variant <;>
    simp [members, decode, Decode.members?, SliceDraft.put, Decode.string, hplatform, hlinkage,
      hpackaging, Decode.strings_ofStrings, Except.map, bind, Except.bind, pure, Except.pure,
      SliceDraft.start, SliceDraft.finish, SliceDraft.required]

end Slice

/-! ### Bundles -/

/-- The slices of a bundle. Those that have elements have a header each. -/
def bundleValue (slices : List Slice) : Value :=
  if slices.isEmpty then .array [] else .tables (slices.map fun s => .table s.members)

theorem decode_bundleValue (slices : List Slice) :
    Decode.list Slice.decode (bundleValue slices) = .ok slices := by
  rw [bundleValue]
  split
  · next h => rw [List.isEmpty_iff.1 h]; rfl
  · exact mapM_map_eq_ok _ _ Slice.decode_members slices

theorem Options.decodeBundles_map (bundles : List (String × List Slice)) :
    decodeBundles (.table (bundles.map fun b => (b.1, bundleValue b.2))) = .ok (.ofList bundles) := by
  have hread (b : String × List Slice) :
      (do return (b.1, ← Decode.list Slice.decode (bundleValue b.2)) : Except Error _) = .ok b := by
    rw [decode_bundleValue]
    rfl
  have hall := mapM_map_eq_ok (fun b => (b.1, bundleValue b.2))
    (fun e => do return (e.1, ← Decode.list Slice.decode e.2)) hread bundles
  rw [decodeBundles, Decode.members?]
  simp only [hall]
  rfl

namespace Options

variable (o : Options)

def emptied : List (String × List Slice) := o.xcframeworks.toList.filter (·.2.isEmpty)

def filled : List (String × List Slice) := o.xcframeworks.toList.filter (!·.2.isEmpty)

theorem emptied_append_filled_perm : (o.emptied ++ o.filled).Perm o.xcframeworks.toList :=
  List.filter_append_perm _ _

theorem nodup_bundles : ((o.emptied ++ o.filled).map (·.1)).Nodup :=
  (o.emptied_append_filled_perm.map _).nodup_iff.2 (nodup_keys_toList _)

theorem ofList_bundles : (.ofList (o.emptied ++ o.filled) : StringMap (List Slice)) = o.xcframeworks := by
  refine Std.ExtTreeMap.ext_getElem? fun k => Option.ext fun a => ?_
  rw [getElem?_ofList_eq_some_iff o.nodup_bundles, o.emptied_append_filled_perm.mem_iff,
    Std.ExtTreeMap.mem_toList_iff_getElem?_eq_some]

/-! ### What the lines say -/

/-- The members in front of the bundles. -/
def settings : Members :=
  [("ios-platform", .string o.iosPlatform), ("link-dynamic", .boolean o.linkDynamic),
   ("deps-prefix", .string o.depsPrefix), ("dependency-template", .string o.dependencyTemplate),
   ("subspec-separator", .string o.subspecSeparator),
   ("dynamic-frameworks", .ofStrings o.dynamicFrameworks)]

def emptyMembers : Members := o.emptied.map fun b => (b.1, .array [])

def arrays : List (String × List Members) := o.filled.map fun b => (b.1, b.2.map Slice.members)

/-- The sections of bundles without slices, which is one at most. -/
def emptySections : List Section :=
  if o.xcframeworks.toList.isEmpty ∨ o.xcframeworks.toList.any (·.2.isEmpty) then
    [⟨false, ["xcframeworks"], assigned o.emptyMembers⟩]
  else []

def sliceSections : List Section :=
  (Tree.elementsIn o.arrays).map (Tree.elementSection "xcframeworks")

theorem emptyBundles_eq : o.emptyBundles = o.emptySections.flatMap Section.statements := by
  rw [emptyBundles, emptySections]
  split
  · simp [Section.statements, assigned, emptyMembers, emptied]
  · rfl

theorem bundleSlices_eq : o.bundleSlices = o.sliceSections.flatMap Section.statements := by
  rw [bundleSlices, sliceSections, arrays, filled]
  induction o.xcframeworks.toList with
  | nil => rfl
  | cons b bundles ih =>
    obtain ⟨path, slices⟩ := b
    rw [List.flatMap_cons, ih]
    cases slices with
    -- no slice, no section
    | nil => rfl
    | cons s slices =>
      rw [List.filter_cons_of_pos rfl, List.map_cons, Tree.elementsIn_cons, List.map_append,
        List.flatMap_append]
      congr 1
      simp only [List.map_map, List.flatMap_map]
      congr 1
      funext s
      rw [s.statements_eq]
      rfl

theorem statements_eq :
    o.statements = ((assigned o.settings).map fun a => .assign a.1 a.2) ++
      (o.emptySections ++ o.sliceSections).flatMap Section.statements := by
  rw [statements, emptyBundles_eq, bundleSlices_eq, List.flatMap_append, ← List.append_assoc]
  rfl

/-- All members of the document, with the bundles in the last. -/
def documentMembers : Members :=
  o.settings ++
    [("xcframeworks", .table ((o.emptied ++ o.filled).map fun b => (b.1, bundleValue b.2)))]

theorem emptyMembers_append_arrayMembers :
    o.emptyMembers ++ arrayMembers o.arrays =
      (o.emptied ++ o.filled).map fun b => (b.1, bundleValue b.2) := by
  rw [List.map_append, emptyMembers, arrayMembers, arrays, List.map_map]
  congr 1
  · refine List.map_congr_left fun b hb => ?_
    rw [bundleValue, if_pos (List.mem_filter.1 hb).2]
  · refine List.map_congr_left fun b hb => ?_
    have hne : ¬b.2.isEmpty := by simpa using (List.mem_filter.1 hb).2
    rw [bundleValue, if_neg hne, Function.comp_apply, List.map_map]
    rfl

theorem membersOf?_statements : membersOf? o.statements = some o.documentMembers := by
  have hk : (o.settings.map (·.1) ++ ["xcframeworks"]).Nodup := by simp [settings]
  have hkeys : (o.emptyMembers.map (·.1) ++ o.arrays.map (·.1)).Nodup := by
    simpa [emptyMembers, arrays, Function.comp_def] using o.nodup_bundles
  have hne : ∀ a ∈ o.arrays, a.2 ≠ [] := by
    rw [arrays, List.forall_mem_map]
    intro b hb
    simpa using (List.mem_filter.1 hb).2
  have hnodup : ∀ a ∈ o.arrays, ∀ ms ∈ a.2, (ms.map (·.1)).Nodup := by
    rw [arrays, List.forall_mem_map]
    intro b _
    rw [List.forall_mem_map]
    exact fun s _ => s.nodup_members
  rw [statements_eq, documentMembers, ← emptyMembers_append_arrayMembers, emptySections]
  split
  · exact membersOf?_headed hk hne hnodup hkeys
  · next hheader =>
    -- every bundle has a slice, and there is one
    rw [not_or, Bool.not_eq_true, Bool.not_eq_true, List.any_eq_false] at hheader
    have hempty : o.emptied = [] := List.filter_eq_nil_iff.2 hheader.2
    have hfilled : o.filled = o.xcframeworks.toList :=
      List.filter_eq_self.2 fun b hb => by simpa using hheader.2 b hb
    have harrays : o.arrays ≠ [] := by
      rw [arrays, hfilled, Ne, List.map_eq_nil_iff, ← List.isEmpty_iff, hheader.1]
      exact Bool.false_ne_true
    have hmembers : o.emptyMembers = [] := by rw [emptyMembers, hempty, List.map_nil]
    rw [hmembers] at hkeys ⊢
    exact membersOf?_implied hk hne hnodup harrays hkeys

theorem decode_documentMembers : decode o.documentMembers = .ok o := by
  have hbundles := decodeBundles_map (o.emptied ++ o.filled)
  rw [ofList_bundles] at hbundles
  rw [documentMembers]
  generalize (o.emptied ++ o.filled).map _ = bundles at hbundles ⊢
  simp [decode, settings, put, Decode.string, Decode.boolean,
    Decode.strings_ofStrings, hbundles, Except.map, bind, Except.bind, pure, Except.pure]

/-! ### The text -/

theorem plain_settings : ∀ m ∈ o.settings, Plain (limit - 1) m.2 := by
  simp only [settings, List.forall_mem_cons]
  exact ⟨.string _, .boolean _, .string _, .string _, .string _, plain_ofStrings _ _,
    List.forall_mem_nil _⟩

theorem plain_emptyMembers : ∀ m ∈ o.emptyMembers, Plain (limit - 1) m.2 := by
  rw [emptyMembers, List.forall_mem_map]
  exact fun _ _ => .array (List.forall_mem_nil _)

theorem plain_elementsIn_arrays :
    ∀ e ∈ Tree.elementsIn o.arrays, ∀ m ∈ e.2, Plain (limit - 1) m.2 := by
  intro e he
  rw [Tree.elementsIn, List.mem_flatMap] at he
  obtain ⟨a, ha, he⟩ := he
  obtain ⟨ms, hms, rfl⟩ := List.mem_map.1 he
  obtain ⟨b, -, rfl⟩ := List.mem_map.1 ha
  obtain ⟨s, -, rfl⟩ := List.mem_map.1 hms
  exact s.plain_members _

theorem plain_statements : ∀ x ∈ o.statements, x.Plain := by
  rw [statements_eq, List.forall_mem_append, List.flatMap_append, List.forall_mem_append]
  refine ⟨plain_assigned o.plain_settings, ?_, ?_⟩
  · rw [emptySections]
    split
    · rw [List.flatMap_singleton, Section.statements, List.forall_mem_cons]
      exact ⟨⟨List.cons_ne_nil _ _, by simp [limit]⟩, plain_assigned o.plain_emptyMembers⟩
    · exact List.forall_mem_nil _
  · rw [sliceSections]
    intro x hx
    rw [List.flatMap_map, List.mem_flatMap] at hx
    obtain ⟨e, he, hx⟩ := hx
    rw [Section.statements, List.mem_cons] at hx
    rcases hx with rfl | hx
    · exact ⟨List.cons_ne_nil _ _, by simp [limit, Tree.elementSection]⟩
    · exact plain_assigned (o.plain_elementsIn_arrays e he) x hx

/-- Options are what their text says, whatever strings, frameworks and bundles they have. -/
theorem ofToml_toToml : ofToml o.toToml = .ok o := by
  rw [ofToml, toToml, Toml.read?_print o.plain_statements, membersOf?_statements]
  exact o.decode_documentMembers

end Options

end PodTarget
