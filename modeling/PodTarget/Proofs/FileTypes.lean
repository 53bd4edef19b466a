import PodTarget.Glob.Files
import PodTarget.Proofs.BraceGroups
import PodTarget.Proofs.FileNames

/-! The globs made for a list of file types. However a pattern ends, its globs are
either itself, if it has one of the types already, or one text for all types with the
type put behind it. That text ends in a dot with something in front of it, so a glob
has the type that was put there, and a glob that is made again stays what it is. -/

namespace PodTarget.Glob

open Text

/-- What may stand behind the last dot of a glob: no other component or dot, no group,
and no wildcard alone. -/
structure IsFileType (t : List Char) : Prop where
  noDot : '.' ∉ t
  noSlash : '/' ∉ t
  noOpening : '{' ∉ t
  noClosing : '}' ∉ t
  ne_wildcard : t ≠ ['*']

instance (t : List Char) : Decidable (IsFileType t) :=
  decidable_of_iff ('.' ∉ t ∧ '/' ∉ t ∧ '{' ∉ t ∧ '}' ∉ t ∧ t ≠ ['*'])
    ⟨fun ⟨a, b, c, d, e⟩ => ⟨a, b, c, d, e⟩, fun ⟨a, b, c, d, e⟩ => ⟨a, b, c, d, e⟩⟩

/-- A text that only lacks a file type: it ends in the dot, with something in front of
the dot in the last component. -/
def Stub (lead : List Char) : Prop :=
  ∃ front stem, lead = front ++ (stem ++ ['.']) ∧
    (front = [] ∨ ∃ directory, front = directory ++ ['/']) ∧ stem ≠ [] ∧ '/' ∉ stem

theorem Stub.append {lead t : List Char} (h : Stub lead) (ht : IsFileType t) :
    trimSlashes (lead ++ t) = lead ++ t ∧ extensionOf? (lead ++ t) = some t := by
  obtain ⟨front, stem, rfl, hfront, hstem, hslash⟩ := h
  have hsplit : front ++ (stem ++ ['.']) ++ t = front ++ (stem ++ '.' :: t) := by simp
  have hne : stem ++ '.' :: t ≠ [] := by simp
  have hname : '/' ∉ stem ++ '.' :: t := by simp [hslash, ht.noSlash]
  have hends : EndsIn (front ++ (stem ++ '.' :: t)) (stem ++ '.' :: t) :=
    ⟨front, 0, by simp, hfront, hne, hname⟩
  rw [hsplit]
  exact ⟨trimSlashes_append hne hname,
    extensionOf?_eq_some_iff.2 ⟨stem, hstem, ht.noDot, lastComponent_of_endsIn hends⟩⟩

theorem stub_of_directory (directory : List Char) : Stub (directory ++ ['/', '*', '.']) :=
  ⟨directory ++ ['/'], ['*'], by simp, Or.inr ⟨directory, rfl⟩, by simp, by decide⟩

/-- A pattern without groups is one text for all types, or has its type already. -/
theorem typedGlobs_cases (pattern : List Char) :
    (∃ lead, Stub lead ∧ (HasGroup lead → HasGroup pattern) ∧
        ∀ types, typedGlobs types pattern = types.map (lead ++ ·)) ∨
      ∃ ext, ext ≠ ['*'] ∧ extensionOf? (trimSlashes pattern) = some ext ∧
        ∀ types, typedGlobs types pattern = if ext ∈ types then [trimSlashes pattern] else [] := by
  have hfront := exists_front (s := trimSlashes pattern)
  have hgroup : HasGroup (trimSlashes pattern) → HasGroup pattern :=
    fun h => h.trans (trimSlashes_prefix_self pattern).sublist
  rw [trimSlashes_trimSlashes] at hfront
  generalize hs : trimSlashes pattern = s at hfront hgroup
  cases hext : extensionOf? s with
  | some ext =>
    by_cases hstar : ext = ['*']
    · -- the wildcard after the dot makes room for the type
      left
      obtain ⟨stem, hstem, -, hlast⟩ := extensionOf?_eq_some_iff.1 hext
      obtain ⟨front, hsplit, hfront, hslash⟩ := hfront (by simp [hlast])
      have hlead : s.dropLast = front ++ (stem ++ ['.']) := by
        rw [hsplit, hlast, hstar, List.append_cons, ← List.append_assoc, List.dropLast_concat]
      refine ⟨s.dropLast, ⟨front, stem, hlead, hfront, hstem, ?_⟩, ?_, fun types => ?_⟩
      · exact fun h => hslash (hlast ▸ List.mem_append_left _ h)
      · exact fun h => hgroup (h.trans s.dropLast_sublist)
      · simp [typedGlobs, hs, hext, hstar]
    · exact Or.inr ⟨ext, hstar, rfl, fun types => by simp [typedGlobs, hs, hext, hstar]⟩
  | none =>
    left
    by_cases hall : lastComponent s = ['*', '*']
    · refine ⟨s ++ ['/', '*', '.'], stub_of_directory s, ?_, fun types => ?_⟩
      · rwa [hasGroup_append_iff (by decide)]
      · simp [typedGlobs, hs, hext, hall]
    · by_cases hwild : (lastComponent s).getLast? = some '*'
      · have hne : lastComponent s ≠ [] := by
          intro hnil
          rw [hnil] at hwild
          nomatch hwild
        obtain ⟨front, hsplit, hfront, hslash⟩ := hfront hne
        refine ⟨s ++ ['.'], ⟨front, lastComponent s, ?_, hfront, hne, hslash⟩, ?_, fun types => ?_⟩
        · rw [← List.append_assoc, ← hsplit]
        · rwa [hasGroup_append_iff (by decide)]
        · simp [typedGlobs, hs, hext, hall, hwild]
      · refine ⟨s ++ ['/', '*', '*', '/', '*', '.'], ?_, ?_, fun types => ?_⟩
        · simpa using stub_of_directory (s ++ ['/', '*', '*'])
        · rwa [hasGroup_append_iff (by decide)]
        · simp [typedGlobs, hs, hext, hall, hwild]

section Types

variable {types few : List (List Char)} {pattern glob t : List Char}

/-- The globs for some types are those for each of them. -/
theorem mem_typedGlobs_iff :
    glob ∈ typedGlobs types pattern ↔ ∃ t ∈ types, glob ∈ typedGlobs [t] pattern := by
  rcases typedGlobs_cases pattern with ⟨lead, -, -, heq⟩ | ⟨ext, -, -, heq⟩
  · simp only [heq, List.mem_map, List.map_singleton, List.mem_singleton, eq_comm]
  · simp only [heq, List.mem_singleton]
    constructor
    · intro h
      split at h
      · next hext => exact ⟨ext, hext, by simpa using h⟩
      · exact absurd h List.not_mem_nil
    · rintro ⟨t, ht, h⟩
      split at h
      · next hext => rwa [hext, if_pos ht]
      · exact absurd h List.not_mem_nil

/-- A glob made for a type has it, is trimmed, and has no group if the pattern has none. -/
theorem of_mem_typedGlobs (ht : IsFileType t) (h : glob ∈ typedGlobs [t] pattern) :
    extensionOf? glob = some t ∧ trimSlashes glob = glob ∧ (HasGroup glob → HasGroup pattern) := by
  rcases typedGlobs_cases pattern with ⟨lead, hstub, hgroup, heq⟩ | ⟨ext, -, hext, heq⟩
  · rw [heq, List.map_singleton, List.mem_singleton] at h
    obtain ⟨htrim, htype⟩ := hstub.append ht
    rw [h]
    refine ⟨htype, htrim, ?_⟩
    rwa [hasGroup_append_iff ht.noClosing]
  · rw [heq] at h
    split at h
    · next hmem =>
      obtain rfl := List.mem_singleton.1 hmem
      obtain rfl := List.mem_singleton.1 h
      exact ⟨hext, trimSlashes_trimSlashes pattern,
        fun hg => hg.trans (trimSlashes_prefix_self pattern).sublist⟩
    · exact absurd h List.not_mem_nil

theorem exists_type_of_mem (htypes : ∀ t ∈ types, IsFileType t)
    (h : glob ∈ typedGlobs types pattern) : ∃ t ∈ types, extensionOf? glob = some t := by
  obtain ⟨t, ht, hglob⟩ := mem_typedGlobs_iff.1 h
  exact ⟨t, ht, (of_mem_typedGlobs (htypes t ht) hglob).1⟩

/-- A glob that is made again stays what it is. -/
theorem typedGlobs_of_mem (htypes : ∀ t ∈ types, IsFileType t)
    (h : glob ∈ typedGlobs types pattern) : typedGlobs types glob = [glob] := by
  obtain ⟨t, ht, hglob⟩ := mem_typedGlobs_iff.1 h
  obtain ⟨hext, htrim, -⟩ := of_mem_typedGlobs (htypes t ht) hglob
  simp [typedGlobs, htrim, hext, (htypes t ht).ne_wildcard, ht]

theorem not_hasGroup_of_mem (htypes : ∀ t ∈ types, IsFileType t)
    (h : glob ∈ typedGlobs types pattern) (hpattern : ¬HasGroup pattern) : ¬HasGroup glob := by
  obtain ⟨t, ht, hglob⟩ := mem_typedGlobs_iff.1 h
  exact fun hg => hpattern ((of_mem_typedGlobs (htypes t ht) hglob).2.2 hg)

theorem mem_typedGlobs_of_subset (htypes : ∀ t ∈ types, IsFileType t) (hfew : few ⊆ types) :
    glob ∈ typedGlobs few pattern ↔
      glob ∈ typedGlobs types pattern ∧ ∃ t ∈ few, extensionOf? glob = some t := by
  constructor
  · intro h
    obtain ⟨t, ht, hglob⟩ := mem_typedGlobs_iff.1 h
    exact ⟨mem_typedGlobs_iff.2 ⟨t, hfew ht, hglob⟩,
      exists_type_of_mem (fun t ht => htypes t (hfew ht)) h⟩
  · rintro ⟨h, t, ht, hext⟩
    obtain ⟨t', ht', hglob⟩ := mem_typedGlobs_iff.1 h
    have hext' := (of_mem_typedGlobs (htypes t' ht') hglob).1
    obtain rfl : t' = t := Option.some.inj (hext'.symm.trans hext)
    exact mem_typedGlobs_iff.2 ⟨t', ht, hglob⟩

end Types

theorem extension?_eq_some_iff {glob t : String} :
    extension? glob = some t ↔ extensionOf? glob.toList = some t.toList := by
  rw [extension?, Option.map_eq_some_iff]
  constructor
  · rintro ⟨ext, hext, rfl⟩
    rwa [String.toList_ofList]
  · exact fun h => ⟨t.toList, h, String.ofList_toList⟩

theorem mem_filesOf {types : List String} {pattern glob : String} :
    glob ∈ filesOf types pattern ↔ ∃ result ∈ expand pattern.toList,
      glob.toList ∈ typedGlobs (types.map (·.toList)) result := by
  rw [filesOf, List.mem_map]
  simp only [List.mem_flatMap]
  constructor
  · rintro ⟨g, ⟨result, hr, hg⟩, rfl⟩
    exact ⟨result, hr, by rwa [String.toList_ofList]⟩
  · rintro ⟨result, hr, hg⟩
    exact ⟨glob.toList, ⟨result, hr, hg⟩, String.ofList_toList⟩

section Files

variable {types : List String} (htypes : ∀ t ∈ types, IsFileType t.toList)
include htypes

theorem isFileType_of_mem_map : ∀ t ∈ types.map (·.toList), IsFileType t := by
  rw [List.forall_mem_map]
  exact htypes

theorem exists_type_of_mem_filesOf {pattern glob : String} (h : glob ∈ filesOf types pattern) :
    ∃ t ∈ types, extension? glob = some t := by
  obtain ⟨result, -, hglob⟩ := mem_filesOf.1 h
  obtain ⟨ext, hmem, hext⟩ := exists_type_of_mem (isFileType_of_mem_map htypes) hglob
  obtain ⟨t, ht, rfl⟩ := List.mem_map.1 hmem
  exact ⟨t, ht, extension?_eq_some_iff.2 hext⟩

/-- No group is left to open up in a glob, and it has one of the types. -/
theorem filesOf_of_mem {pattern glob : String} (h : glob ∈ filesOf types pattern) :
    filesOf types glob = [glob] := by
  obtain ⟨result, hr, hglob⟩ := mem_filesOf.1 h
  have hchars := isFileType_of_mem_map htypes
  have hplain := not_hasGroup_of_mem hchars hglob (not_hasGroup_of_mem_expand hr)
  rw [filesOf, expand_of_not_hasGroup hplain, List.flatMap_singleton,
    typedGlobs_of_mem hchars hglob, List.map_singleton, String.ofList_toList]

theorem mem_filesOf_of_subset {few : List String} (hfew : few ⊆ types) {pattern glob : String} :
    glob ∈ filesOf few pattern ↔
      glob ∈ filesOf types pattern ∧ ∃ t ∈ few, extension? glob = some t := by
  have htype : (∃ t ∈ few.map (·.toList), extensionOf? glob.toList = some t) ↔
      ∃ t ∈ few, extension? glob = some t := by
    simp only [List.mem_map, extension?_eq_some_iff, exists_exists_and_eq_and]
  have hchars := isFileType_of_mem_map htypes
  simp only [mem_filesOf, mem_typedGlobs_of_subset hchars (List.map_subset _ hfew), htype]
  constructor
  · rintro ⟨result, hr, hglob, ht⟩
    exact ⟨⟨result, hr, hglob⟩, ht⟩
  · rintro ⟨⟨result, hr, hglob⟩, ht⟩
    exact ⟨result, hr, hglob, ht⟩

end Files

/-- The types that are used are such types. The globs made for some types have one of them,
are made again from themselves, and those for fewer types are the ones that have these. -/
theorem extractFiles_by_type :
    (∀ t ∈ headerTypes ++ sourceTypes, IsFileType t.toList) ∧
      ∀ types patterns : List String, (∀ t ∈ types, IsFileType t.toList) →
        (∀ glob ∈ extractFiles types patterns, ∃ t ∈ types, extension? glob = some t) ∧
        extractFiles types (extractFiles types patterns).toList = extractFiles types patterns ∧
        ∀ few ⊆ types, ∀ glob, glob ∈ extractFiles few patterns ↔
          glob ∈ extractFiles types patterns ∧ ∃ t ∈ few, extension? glob = some t := by
  refine ⟨by decide +kernel, fun types patterns htypes => ⟨?_, ?_, ?_⟩⟩
  · intro glob hglob
    obtain ⟨pattern, -, hfile⟩ := mem_extractFiles.1 hglob
    exact exists_type_of_mem_filesOf htypes hfile
  · have hstays (glob : String) (h : glob ∈ extractFiles types patterns) :
        filesOf types glob = [glob] := by
      obtain ⟨pattern, -, hfile⟩ := mem_extractFiles.1 h
      exact filesOf_of_mem htypes hfile
    refine Std.ExtTreeSet.ext_mem fun glob => ?_
    rw [mem_extractFiles]
    constructor
    · rintro ⟨g, hg, hglob⟩
      rw [Std.ExtTreeSet.mem_toList] at hg
      rw [hstays g hg, List.mem_singleton] at hglob
      rwa [hglob]
    · intro hglob
      refine ⟨glob, Std.ExtTreeSet.mem_toList.2 hglob, ?_⟩
      rw [hstays glob hglob]
      exact List.mem_singleton_self glob
  · intro few hfew glob
    simp only [mem_extractFiles, mem_filesOf_of_subset htypes hfew]
    constructor
    · rintro ⟨pattern, hp, hglob, ht⟩
      exact ⟨⟨pattern, hp, hglob⟩, ht⟩
    · rintro ⟨⟨pattern, hp, hglob⟩, ht⟩
      exact ⟨pattern, hp, hglob, ht⟩

theorem extractFiles_by_type_headers :
    let patterns := ["Kit/{.hidden,Core.*}/", "", "a\x7b"]
    (∀ t ∈ sourceTypes, IsFileType t.toList) ∧ headerTypes ⊆ sourceTypes ∧
      (∀ glob ∈ extractFiles sourceTypes patterns, ∃ t ∈ sourceTypes, extension? glob = some t) ∧
      extractFiles sourceTypes (extractFiles sourceTypes patterns).toList =
        extractFiles sourceTypes patterns ∧
      (∀ glob, glob ∈ extractFiles headerTypes patterns ↔
        glob ∈ extractFiles sourceTypes patterns ∧
          ∃ t ∈ headerTypes, extension? glob = some t) ∧
      "Kit/Core.hpp" ∈ extractFiles headerTypes patterns ∧
      "Kit/.hidden/**/*.swift" ∈ extractFiles sourceTypes patterns := by
  intro patterns
  have hsource : ∀ t ∈ sourceTypes, IsFileType t.toList := by decide +kernel
  have hheader : headerTypes ⊆ sourceTypes := List.subset_append_left _ _
  obtain ⟨htype, hagain, hfew⟩ := extractFiles_by_type.2 sourceTypes patterns hsource
  have hfirst (types : List String) (glob : String)
      (h : glob ∈ filesOf types "Kit/{.hidden,Core.*}/") : glob ∈ extractFiles types patterns :=
    mem_extractFiles.2 ⟨_, List.mem_cons_self, h⟩
  exact ⟨hsource, hheader, htype, hagain, hfew headerTypes hheader,
    hfirst _ _ (by decide +kernel), hfirst _ _ (by decide +kernel)⟩

end PodTarget.Glob
