import PodTarget.Proofs.Description
import PodTarget.Proofs.JsonPrinting
import PodTarget.Proofs.Shapes

/-! A spec that is printed is read back. What is written of each field is a
document that its decoder takes for the value, as long as there is room for it;
where the field is left out, its value is that of the empty spec. The only thing
that can come between is the depth: each level of subspecs is two levels of JSON. -/

namespace PodTarget

open Json

namespace Json

section Reads

variable {α β : Type} {dec : Decoder α} {d : Document} {a : α}

/-- The decoder takes the document for `a` wherever there is room for it. -/
def Reads (dec : Decoder α) (d : Document) (a : α) : Prop :=
  ∀ room, dec room d = if d.depth ≤ room then .ok a else .error .malformed

theorem Reads.eq_ok_iff (h : Reads dec d a) (room : Nat) :
    dec room d = .ok a ↔ d.depth ≤ room := by
  rw [h room]
  split
  next hd => exact iff_of_true rfl hd
  next hd => exact iff_of_false nofun hd

theorem Reads.map (h : Reads dec d a) (f : α → β) :
    Reads (fun room d => (dec room d).map f) d (f a) := by
  intro room
  show (dec room d).map f = _
  rw [h room]
  split <;> rfl

/-- What is taken for `a` given enough room is malformed otherwise. -/
theorem reads_of_confined
    (hconfined : ∀ r r', r ≤ r' → Confined (r < d.depth) (dec r d) (dec r' d))
    (h : ∀ room, dec room d = .ok a ↔ d.depth ≤ room) : Reads dec d a := by
  intro room
  split
  next hd => exact (h room).2 hd
  next hd =>
    have hdepth := (h d.depth).2 (Nat.le_refl _)
    rcases hconfined room d.depth (Nat.le_of_not_le hd) with heq | ⟨hmalformed, -⟩
    · exact absurd ((h room).1 (heq.trans hdepth)) hd
    · exact hmalformed

theorem reads_of_depth_eq_zero (hd : d.depth = 0) (h : ∀ room, dec room d = .ok a) :
    Reads dec d a := by
  intro room
  rw [h room, hd, if_pos (Nat.zero_le room)]

theorem reads_string (s : String) : Reads Decoder.string (.string s) s :=
  reads_of_depth_eq_zero rfl fun _ => rfl

theorem reads_boolean (b : Bool) : Reads Decoder.boolean (.boolean b) b :=
  reads_of_depth_eq_zero rfl fun _ => rfl

theorem reads_null (dec : Decoder α) : Reads (Decoder.optional dec) .null none :=
  reads_of_depth_eq_zero rfl fun _ => rfl

theorem Reads.optional (h : Reads dec d a) (hd : d ≠ .null) :
    Reads (Decoder.optional dec) d (some a) := by
  intro room
  rw [Decoder.optional_of_ne_null hd, h room]
  split <;> rfl

theorem reads_ofOption (s : Option String) :
    Reads (Decoder.optional Decoder.string) (ofOption s) s := by
  cases s with
  | none => exact reads_null _
  | some s => exact (reads_string s).optional nofun

theorem reads_buffered {kind : String} {shape : Document → Option α} (hv : d.valued = true)
    (h : shape d = some a) : Reads (Decoder.buffered kind shape) d a := by
  intro room
  simp only [Decoder.buffered, d.sound_iff, hv, true_and, h]

theorem reads_oneOrMany (l : List String) : Reads Decoder.oneOrMany (.ofStrings l) l :=
  reads_buffered (valued_ofStrings l) (strings?_eq_some_iff.2 rfl)

theorem reads_names (l : List String) : Reads Decoder.names (.ofStrings l) l :=
  reads_buffered (valued_ofStrings l) (strings?_eq_some_iff.2 rfl)

theorem reads_stringList (l : List String) : Reads stringList (.ofStrings l) l :=
  ((reads_oneOrMany l).optional nofun).map _

section Members

variable {ι : Type} (key : ι → String) {doc : ι → Document} {val : ι → α} {l : List ι}

theorem decode_entries (h : ∀ i ∈ l, Reads dec (doc i) (val i)) (room : Nat) :
    Decoder.entries dec room (l.map fun i => (some (key i), doc i)) =
      if ∀ i ∈ l, (doc i).depth ≤ room then .ok (l.map fun i => (key i, val i))
      else .error .malformed := by
  induction l with
  | nil => rw [if_pos nofun]; rfl
  | cons i l ih =>
    rw [List.forall_mem_cons] at h
    rw [List.map_cons, Decoder.entries, h.1 room, ih h.2]
    simp only [List.forall_mem_cons]
    by_cases hi : (doc i).depth ≤ room
    · simp only [hi, if_true, true_and]
      split <;> rfl
    · simp only [hi, if_false, false_and]
      rfl

/-- A map is read if each of its values is. -/
theorem reads_map (h : ∀ i ∈ l, Reads dec (doc i) (val i)) :
    Reads (Decoder.map dec) (.ofMembers (l.map fun i => (key i, doc i)))
      (.ofList (l.map fun i => (key i, val i))) := by
  intro room
  rw [Document.ofMembers, List.map_map]
  cases room with
  | zero => rw [Decoder.map, if_neg (by rw [Document.depth]; omega)]
  | succ room =>
    have hentries := decode_entries key h room
    simp only [Decoder.map, Document.depth_object_le_iff, List.forall_mem_map, Function.comp_def,
      hentries]
    split <;> rfl

/-- The entries of a map, written one by one, are read back as the map. -/
theorem reads_toList {m : StringMap α} {doc : α → Document} (h : ∀ a, Reads dec (doc a) a) :
    Reads (Decoder.map dec) (.ofMembers (m.toList.map fun (k, a) => (k, doc a))) m := by
  have hmap := reads_map (l := m.toList) (·.1) fun e _ => h e.2
  rwa [List.map_id'' fun _ => rfl, ofList_toList] at hmap

end Members

end Reads

end Json

/-- Once every value is taken for what the field holds, only the depth counts. -/
theorem told_iff_depth_le {φ σ : Type} {V : φ → Type} {decoder : (a : φ) → Decoder (V a)}
    {get : (a : φ) → σ → V a} {absent s : σ} {l : List (φ × Document)}
    (once : (l.map (·.1)).Nodup) (said : ∀ a d, (a, d) ∈ l → Reads (decoder a) d (get a s))
    (unsaid : ∀ a, a ∉ l.map (·.1) → get a s = get a absent) (room : Nat) :
    Told decoder get absent room l s ↔ ∀ e ∈ l, e.2.depth ≤ room := by
  constructor
  · rintro h ⟨a, d⟩ he
    exact ((said a d he).eq_ok_iff room).1 (h.said a d he)
  · intro h
    exact ⟨once, fun a d he => ((said a d he).eq_ok_iff room).2 (h (a, d) he), unsaid⟩

/-! ### Attributes -/

theorem plain_ofOption (s : Option String) : Plain (ofOption s) := by
  cases s with
  | none => exact .null
  | some s => exact .string s

namespace Attribute

theorem plain_toDocument (a : Attribute) (s : Attributes) : Plain (a.toDocument s) := by
  cases a with
  | list l => exact .ofStrings _
  | resourceBundles =>
    refine .ofMembers fun m hm => ?_
    obtain ⟨e, -, rfl⟩ := List.mem_map.1 hm
    exact .ofStrings _
  | xcconfig =>
    refine .ofMembers fun m hm => ?_
    obtain ⟨e, -, rfl⟩ := List.mem_map.1 hm
    exact .string _
  | swiftVersions =>
    show Plain (s.swiftVersions.elim .null .ofStrings)
    cases s.swiftVersions with
    | none => exact .null
    | some l => exact .ofStrings l
  | moduleName => exact plain_ofOption _

theorem reads_toDocument (a : Attribute) (s : Attributes) :
    Reads a.decoder (a.toDocument s) (a.get s) := by
  cases a with
  | list l =>
    cases l with
    | dependencies => exact ((reads_names s.dependencies).optional nofun).map _
    | _ => exact reads_stringList _
  | resourceBundles => exact ((reads_toList reads_oneOrMany).optional nofun).map _
  | xcconfig => exact reads_toList reads_string
  | swiftVersions =>
    show Reads (Decoder.optional Decoder.oneOrMany) (s.swiftVersions.elim .null .ofStrings)
      s.swiftVersions
    cases s.swiftVersions with
    | none => exact reads_null _
    | some l => exact (reads_oneOrMany l).optional nofun
  | moduleName => exact reads_ofOption _

end Attribute

section Known

variable {φ ι : Type} {ofKey? : String → Option φ} {key : ι → String} {l : List ι}

theorem known_map {field : ι → φ} (h : ∀ i ∈ l, ofKey? (key i) = some (field i))
    (doc : ι → Document) :
    known ofKey? (l.map fun i => (some (key i), doc i)) = l.map fun i => (field i, doc i) := by
  induction l with
  | nil => rfl
  | cons i l ih =>
    rw [List.forall_mem_cons] at h
    rw [List.map_cons, known_cons_some h.1, ih h.2, List.map_cons]

theorem known_map_none (h : ∀ i ∈ l, ofKey? (key i) = none) (doc : ι → Document) :
    known ofKey? (l.map fun i => (some (key i), doc i)) = [] := by
  induction l with
  | nil => rfl
  | cons i l ih =>
    rw [List.forall_mem_cons] at h
    rw [List.map_cons, known_cons_none h.1, ih h.2]

end Known

namespace Attributes

theorem plain_members (s : Attributes) : ∀ m ∈ s.members, Plain m.2 := by
  intro m hm
  obtain ⟨a, -, rfl⟩ := List.mem_map.1 hm
  exact a.plain_toDocument s

theorem plain_toDocument (s : Attributes) : Plain s.toDocument := .ofMembers s.plain_members

/-- Every attribute is written, in the order of declaration. -/
def written (s : Attributes) : List (Attribute × Document) :=
  Attribute.all.map fun a => (a, a.toDocument s)

theorem known_members (s : Attributes) :
    known Attribute.ofKey? (s.members.map fun (k, d) => (some k, d)) = s.written := by
  rw [members, List.map_map]
  exact known_map (fun a _ => Attribute.ofKey?_name a) (Attribute.toDocument s)

theorem told_written_iff (s : Attributes) (room : Nat) :
    Told room s.written s ↔ ∀ m ∈ s.members, m.2.depth ≤ room := by
  have hkeys : s.written.map (·.1) = Attribute.all := by
    rw [written, List.map_map]
    exact List.map_id _
  rw [Told, told_iff_depth_le (hkeys ▸ nodup_all)]
  · rw [written, members]
    simp
  · intro a d hm
    obtain ⟨b, -, heq⟩ := List.mem_map.1 hm
    obtain ⟨rfl, rfl⟩ := Prod.mk.inj heq
    exact b.reads_toDocument s
  · intro a ha
    rw [hkeys] at ha
    exact absurd a.mem_all ha

theorem reads_toDocument (s : Attributes) : Reads decode s.toDocument s := by
  apply reads_of_confined
  · intro r r' hr
    exact bounded_decode s.toDocument r r' hr
  · intro room
    rw [toDocument, Document.ofMembers]
    cases room with
    | zero => exact iff_of_false nofun (by rw [Document.depth]; omega)
    | succ room =>
      have hkeyed : Keyed Attribute.ofKey? (·.whole = true)
          (s.members.map fun (k, d) => (some k, d)) := by
        intro m hm
        obtain ⟨⟨k, d⟩, he, rfl⟩ := List.mem_map.1 hm
        exact ⟨k, rfl, fun _ => Document.whole_of_valued d (s.plain_members _ he).valued⟩
      have htold := s.told_written_iff room
      rw [← known_members] at htold
      rw [decode_object_eq_ok_iff, Document.depth_object_le_iff, List.forall_mem_map]
      exact ⟨fun h => htold.1 h.told, fun h => ⟨hkeyed, htold.2 h⟩⟩

end Attributes

/-! ### Properties -/

theorem Platform.id_injective : Function.Injective id := by
  intro p q h
  have hq := ofId?_id q
  rw [← h, ofId?_id p] at hq
  exact Option.some.inj hq

theorem nodup_keys_filterMap {φ δ : Type} {l : List φ} (h : l.Nodup) (f : φ → Option δ) :
    ((l.filterMap fun p => (f p).map (p, ·)).map (·.1)).Nodup := by
  rw [List.map_filterMap]
  refine h.filterMap fun p q r hp hq => ?_
  simp only [Option.map_map, Option.mem_def, Option.map_eq_some_iff] at hp hq
  obtain ⟨_, -, rfl⟩ := hp
  obtain ⟨_, -, rfl⟩ := hq
  rfl

/-- The versions written are those that are read, since no platform is written
under the name `macos`. -/
theorem platformVersions_entries (v : PerPlatform (Option String)) :
    platformVersions (.ofList (v.entries.map fun e => (e.1.id, some e.2))) = v := by
  have hnodup : ((v.entries.map fun e => (e.1.id, some e.2)).map (·.1)).Nodup := by
    have hplatforms : Platform.all.Nodup := by decide
    have h := (nodup_keys_filterMap hplatforms v.get).map Platform.id_injective
    rw [List.map_map] at h ⊢
    exact h
  generalize hm : (.ofList (v.entries.map fun e => (e.1.id, some e.2)) :
    StringMap (Option String)) = m
  have hget (k : String) (o : Option String) :
      m[k]? = some o ↔ ∃ p s, v.get p = some s ∧ p.id = k ∧ some s = o := by
    rw [← hm, getElem?_ofList_eq_some_iff hnodup]
    simp [PerPlatform.mem_entries]
  have hmacos : m["macos"]? = none := by
    rw [Option.eq_none_iff_forall_ne_some]
    intro o ho
    obtain ⟨p, -, -, hp, -⟩ := (hget "macos" o).1 ho
    cases p <;> nomatch hp
  refine PerPlatform.ext_get fun p => ?_
  rw [platformVersions, PerPlatform.get_ofFn, hmacos]
  cases hp : v.get p with
  | some s => rw [(hget p.id (some s)).2 ⟨p, s, hp, rfl, rfl⟩]; rfl
  | none =>
    have hnone : m[p.id]? = none := by
      rw [Option.eq_none_iff_forall_ne_some]
      intro o ho
      obtain ⟨q, s, hq, hqp, -⟩ := (hget p.id o).1 ho
      rw [Platform.id_injective hqp, hp] at hq
      nomatch hq
    simp [hnone]

namespace Property

/-- What is written of a property, if anything is. -/
def written? (s : Podspec) : Property → Option Document
  | name => some (.string s.declaration.name)
  | version => some (ofOption s.declaration.version)
  | platforms => some s.declaration.platformsDocument
  | staticFramework => some (.boolean s.declaration.staticFramework)
  | defaultSubspecs => some (.ofStrings s.declaration.defaultSubspecs)
  | platformSection q => (s.declaration.sections.get q).map Attributes.toDocument
  | subspecs =>
    match s.subspecs with
    | [] => none
    | s :: ss => some (.array (Podspec.toDocuments (s :: ss)))

variable {s : Podspec} {p : Property} {d : Document}

theorem plain_of_written (hsubspecs : Plain (.array (Podspec.toDocuments s.subspecs)))
    (hd : p.written? s = some d) : Plain d := by
  cases p with
  | name =>
    obtain rfl := Option.some.inj hd
    exact .string _
  | version =>
    obtain rfl := Option.some.inj hd
    exact plain_ofOption _
  | platforms =>
    obtain rfl := Option.some.inj hd
    refine .ofMembers fun m hm => ?_
    obtain ⟨e, -, rfl⟩ := List.mem_map.1 hm
    exact .string _
  | staticFramework =>
    obtain rfl := Option.some.inj hd
    exact .boolean _
  | defaultSubspecs =>
    obtain rfl := Option.some.inj hd
    exact .ofStrings _
  | platformSection q =>
    obtain ⟨t, -, rfl⟩ := Option.map_eq_some_iff.1 hd
    exact t.plain_toDocument
  | subspecs =>
    rw [written?] at hd
    split at hd
    next => nomatch hd
    next s ss hs =>
      rw [hs] at hsubspecs
      exact Option.some.inj hd ▸ hsubspecs

theorem reads_written
    (hsubspecs : Reads subspecs.decoder (.array (Podspec.toDocuments s.subspecs)) s.subspecs)
    (hd : p.written? s = some d) : Reads p.decoder d (p.get s) := by
  cases p with
  | name =>
    obtain rfl := Option.some.inj hd
    exact reads_string _
  | version =>
    obtain rfl := Option.some.inj hd
    exact reads_ofOption _
  | platforms =>
    obtain rfl := Option.some.inj hd
    have hversions := reads_map (l := s.declaration.platforms.entries) (·.1.id)
      fun e _ => (reads_string e.2).optional nofun
    have hread := (hversions.optional nofun).map fun v => platformVersions (v.getD ∅)
    simp only [Option.getD_some, platformVersions_entries] at hread
    exact hread
  | staticFramework =>
    obtain rfl := Option.some.inj hd
    exact reads_boolean _
  | defaultSubspecs =>
    obtain rfl := Option.some.inj hd
    exact reads_stringList _
  | platformSection q =>
    obtain ⟨t, ht, rfl⟩ := Option.map_eq_some_iff.1 hd
    rw [show get (.platformSection q) s = some t from ht]
    exact t.reads_toDocument.optional nofun
  | subspecs =>
    rw [written?] at hd
    split at hd
    next => nomatch hd
    next t ts hs =>
      rw [hs] at hsubspecs
      rw [show get .subspecs s = t :: ts from hs, ← Option.some.inj hd]
      exact hsubspecs

/-- What is not written is as in the empty spec. -/
theorem get_of_not_written (h : p.written? s = none) : p.get s = p.get Draft.start.spec := by
  cases p with
  | platformSection q =>
    have hq : s.declaration.sections.get q = none := by simpa [written?] using h
    rw [show get (.platformSection q) s = none from hq]
    exact (PerPlatform.get_none q).symm
  | subspecs =>
    rw [written?] at h
    split at h
    next hs => exact hs
    next => nomatch h
  | _ => nomatch h

end Property

namespace Podspec

def written (s : Podspec) : List (Property × Document) :=
  Property.all.filterMap fun p => (p.written? s).map (p, ·)

/-- The members that are written, the properties before the attributes. -/
def members (s : Podspec) : List (String × Document) :=
  s.written.map (fun e => (e.1.key, e.2)) ++ s.declaration.attributes.members

theorem toDocument_eq (s : Podspec) : s.toDocument = .ofMembers s.members := by
  obtain ⟨d, subspecs⟩ := s
  have hsections : d.sections.entries.map (fun e => (e.1.id, e.2.toDocument)) =
      ((Platform.all.map Property.platformSection).filterMap fun p =>
        (p.written? ⟨d, subspecs⟩).map (p, ·)).map fun e => (e.1.key, e.2) := by
    rw [PerPlatform.entries, List.filterMap_map, List.map_filterMap, List.map_filterMap]
    congr 1
    funext q
    simp [Property.written?, Property.key, Function.comp_def]
  cases subspecs with
  | nil | cons =>
    rw [toDocument, Declaration.members, hsections, members, written, Property.all,
      List.filterMap_append, List.filterMap_append, List.map_append, List.map_append]
    rfl

theorem mem_written {s : Podspec} {p : Property} {d : Document} :
    (p, d) ∈ s.written ↔ p.written? s = some d := by
  simp [written, Property.mem_all]

theorem known_property_members (s : Podspec) :
    known Property.ofKey? (s.members.map fun (k, d) => (some k, d)) = s.written := by
  rw [members, List.map_append, known_append, List.map_map, Attributes.members, List.map_map]
  have hprops := known_map (l := s.written) (fun e _ => e.1.ofKey?_key) (·.2)
  have hattrs := known_map_none (l := Attribute.all) (fun a _ => Property.ofKey?_name a)
    (·.toDocument s.declaration.attributes)
  refine (congrArg₂ (· ++ ·) hprops hattrs).trans ?_
  rw [List.append_nil]
  exact List.map_id _

theorem known_attribute_members (s : Podspec) :
    known Attribute.ofKey? (s.members.map fun (k, d) => (some k, d)) =
      s.declaration.attributes.written := by
  rw [members, List.map_append, known_append, List.map_map, Attributes.known_members]
  have hprops := known_map_none (l := s.written)
    (fun e _ => Property.ofKey?_attribute e.1.ofKey?_key) (·.2)
  exact (congrArg (· ++ _) hprops).trans (List.nil_append _)

theorem plain_members_of_subspecs {s : Podspec} (h : Plain (.array (toDocuments s.subspecs))) :
    ∀ m ∈ s.members, Plain m.2 := by
  intro m hm
  rcases List.mem_append.1 hm with hm | hm
  · obtain ⟨⟨p, d⟩, he, rfl⟩ := List.mem_map.1 hm
    exact p.plain_of_written h (mem_written.1 he)
  · exact s.declaration.attributes.plain_members m hm

mutual

theorem plain_toDocument : ∀ s : Podspec, Plain s.toDocument
  | ⟨d, ss⟩ => by
    rw [toDocument_eq]
    exact .ofMembers (plain_members_of_subspecs (.array (plain_toDocuments ss)))

theorem plain_toDocuments : ∀ ss : List Podspec, ∀ d ∈ toDocuments ss, Plain d
  | [] => by
    rw [toDocuments]
    nofun
  | s :: ss => by
    rw [toDocuments, List.forall_mem_cons]
    exact ⟨plain_toDocument s, plain_toDocuments ss⟩

end

/-- What is written describes the spec as far as it is not nested too deep. -/
theorem described_members_iff {s : Podspec} (hsubspecs :
    Reads Property.subspecs.decoder (.array (toDocuments s.subspecs)) s.subspecs) (room : Nat) :
    Described room (s.members.map fun (k, d) => (some k, d)) s ↔
      ∀ m ∈ s.members, m.2.depth ≤ room := by
  have hprops : Told Property.decoder Property.get Draft.start.spec room s.written s ↔
      ∀ e ∈ s.written, e.2.depth ≤ room := by
    apply told_iff_depth_le
    · exact nodup_keys_filterMap (by decide) _
    · intro p d hm
      exact p.reads_written hsubspecs (mem_written.1 hm)
    · intro p hp
      apply p.get_of_not_written
      rw [Option.eq_none_iff_forall_ne_some]
      intro d hd
      exact hp (List.mem_map_of_mem (mem_written.2 hd))
  have hattrs := s.declaration.attributes.told_written_iff room
  constructor
  · rintro ⟨-, -, htold, htoldAttrs⟩
    rw [known_property_members] at htold
    rw [known_attribute_members] at htoldAttrs
    rw [members, List.forall_mem_append, List.forall_mem_map]
    exact ⟨hprops.1 htold, hattrs.1 htoldAttrs⟩
  · intro h
    have hparts := h
    rw [members, List.forall_mem_append, List.forall_mem_map] at hparts
    refine ⟨?_, ?_, ?_, ?_⟩
    · intro m hm
      obtain ⟨⟨k, d⟩, he, rfl⟩ := List.mem_map.1 hm
      have hplain := plain_members_of_subspecs (.array (plain_toDocuments s.subspecs)) _ he
      exact ⟨k, rfl, fun _ => (d.sound_iff room).2 ⟨hplain.valued, h _ he⟩⟩
    · rw [known_property_members]
      exact List.mem_map_of_mem (mem_written.2 rfl)
    · rw [known_property_members]
      exact hprops.2 hparts.1
    · rw [known_attribute_members]
      exact hattrs.2 hparts.2

theorem reads_of_subspecs {s : Podspec} (hsubspecs :
    Reads Property.subspecs.decoder (.array (toDocuments s.subspecs)) s.subspecs) :
    Reads (fun room d => decode d room) s.toDocument s := by
  apply reads_of_confined
  · intro r r' hr
    exact bounded_decode s.toDocument hr
  · intro room
    rw [toDocument_eq, Document.ofMembers]
    cases room with
    | zero =>
      rw [decode]
      exact iff_of_false nofun (by rw [Document.depth]; omega)
    | succ room =>
      rw [decode_object_eq_ok_iff, described_members_iff hsubspecs, Document.depth_object_le_iff,
        List.forall_mem_map]

theorem reads_subspecs {ss : List Podspec} (h : ∀ room, decodeItems (toDocuments ss) room =
    if ∀ d ∈ toDocuments ss, d.depth ≤ room then .ok ss else .error .malformed) :
    Reads Property.subspecs.decoder (.array (toDocuments ss)) ss := by
  intro room
  show decodeSubspecs (.array (toDocuments ss)) room = _
  cases room with
  | zero => rw [decodeSubspecs, if_neg (by rw [Document.depth]; omega)]
  | succ room =>
    rw [decodeSubspecs, h]
    simp only [Document.depth_array_le_iff]

mutual

theorem reads_toDocument : ∀ s : Podspec, Reads (fun room d => decode d room) s.toDocument s
  | ⟨_, ss⟩ => reads_of_subspecs (reads_subspecs (decodeItems_toDocuments ss))

theorem decodeItems_toDocuments : ∀ (ss : List Podspec) (room : Nat),
    decodeItems (toDocuments ss) room =
      if ∀ d ∈ toDocuments ss, d.depth ≤ room then .ok ss else .error .malformed
  | [], room => by
    rw [toDocuments, decodeItems, if_pos nofun]
  | s :: ss, room => by
    have hs := reads_toDocument s room
    rw [toDocuments, decodeItems_cons, decodeItems_toDocuments ss room]
    simp only [hs, List.forall_mem_cons]
    by_cases hd : s.toDocument.depth ≤ room
    · simp only [hd, if_true, true_and]
      split <;> rfl
    · simp only [hd, if_false, false_and]
      rfl

end

/-- A spec that is printed is read back as it was, unless its text is nested
deeper than any that is read. -/
theorem ofJson_toJson (s : Podspec) :
    ofJson s.toJson = if s.toDocument.depth ≤ 127 then .ok s else .error .malformed := by
  rw [toJson, ofJson_eq_decode (plain_toDocument s).printed.textOf]
  exact reads_toDocument s 127

end Podspec

end PodTarget
