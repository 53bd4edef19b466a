import Mathlib.Data.String.Basic
import PodTarget.Proofs.Places

/-! The spellings of a spec. The order of members, a list of one text without its
brackets, the older name of a field, an object of dependencies instead of their
names, members that are no fields, and platforms that are not known: none of
these, anywhere in the document of a spec, changes the spec that is read. -/

namespace PodTarget

open Json Json.Document

/-! ### Maps -/

section Maps

variable {α : Type} {dec : Decoder α} {ms ms' : List (Option String × Document)}

theorem Json.Passes.perm (h : ms.Perm ms') : Passes (.object ms) (.object ms') where
  valued hd := by
    rw [valued_object_iff] at hd ⊢
    exact fun m hm => hd m (h.mem_iff.2 hm)
  whole hd := by
    rw [whole_object_iff] at hd ⊢
    exact fun m hm => hd m (h.mem_iff.2 hm)

theorem same_map_perm (h : ms.Perm ms') (hkeys : (ms.map (·.1)).Nodup) :
    Same (Decoder.map dec) (.object ms) (.object ms') := by
  apply same_object
  intro room m _ _ hm
  rw [map_object_eq_ok_iff hkeys] at hm
  rw [map_object_eq_ok_iff ((h.map _).nodup_iff.1 hkeys)]
  simpa only [← h.mem_iff] using hm

theorem keys_eq {ks : List String} (h : (ms.map (·.1)).Perm (ks.map some))
    (hks : ks.Pairwise (· < ·)) : Decoder.keys ms = ks := by
  have hkeys : (ms.filterMap (·.1)).Perm ks := by
    have hperm := h.filterMap id
    simpa [List.filterMap_map, List.map_eq_flatMap] using hperm
  have hlt (a b : String) : compare a b = .lt ↔ a < b := compare_lt_iff_lt
  have hsorted : (Decoder.keys ms).Pairwise (· < ·) :=
    Std.ExtTreeSet.ordered_toList.imp fun hab => (hlt _ _).1 hab
  apply List.Perm.eq_of_pairwise (fun a b _ _ hab hba => absurd hba (lt_asymm hab)) hsorted hks
  rw [List.perm_ext_iff_of_nodup (hsorted.imp ne_of_lt) (hks.imp ne_of_lt)]
  intro k
  rw [Decoder.keys, Std.ExtTreeSet.mem_toList, Std.ExtTreeSet.mem_ofList, List.contains_iff_mem,
    hkeys.mem_iff]

theorem same_names_perm (h : ms.Perm ms') :
    Same Decoder.names (.object ms) (.object ms') := by
  intro room ns hdepth hdepth' hns
  rw [names_object_eq_ok_iff hdepth] at hns
  rw [names_object_eq_ok_iff hdepth']
  refine ⟨(Passes.perm h).valued hns.1, ?_⟩
  rw [← hns.2, Decoder.keys, Decoder.keys]
  congr 1
  refine Std.ExtTreeSet.ext_mem fun k => ?_
  simp only [Std.ExtTreeSet.mem_ofList, List.contains_iff_mem, List.mem_filterMap, h.mem_iff]

end Maps

/-! ### The rules -/

namespace Place

/-- A list of texts is read here, or a single one. -/
def listed : Place → Bool
  | ofProperty .defaultSubspecs => true
  | ofAttribute (.list _) | ofAttribute .swiftVersions => true
  | bundle => true
  | _ => false

/-- What counts here for a key is its last value. -/
def isMap : Place → Bool
  | ofProperty .platforms | ofAttribute .resourceBundles | ofAttribute .xcconfig => true
  | _ => false

/-- Both keys name the same field, or neither names one. -/
def SameField : Place → String → String → Prop
  | spec, k, k' =>
    Property.ofKey? k = Property.ofKey? k' ∧ Attribute.ofKey? k = Attribute.ofKey? k'
  | ofProperty (.platformSection _), k, k' => Attribute.ofKey? k = Attribute.ofKey? k'
  | _, _, _ => False

/-- The key names no field, and the value can be passed over. -/
def Ignores : Place → String → Document → Prop
  | spec, k, d => Property.ofKey? k = none ∧ Attribute.ofKey? k = none ∧ d.valued = true
  | ofProperty (.platformSection _), k, d => Attribute.ofKey? k = none ∧ d.whole = true
  | _, _, _ => False

end Place

/-- An entry that tells no version of a platform beside the others. -/
def Negligible (ms : List (Option String × Document)) (k : String) (d : Document) : Prop :=
  d = .null ∨ d.IsText ∧
    (Platform.ofName? k = none ∨ k = "macos" ∧ ∃ v, (some "osx", Document.string v) ∈ ms)

/-- Another way to write what stands in a place. -/
inductive Respelling : Place → Document → Document → Prop
  | reordered {p : Place} {ms ms' : List (Option String × Document)} (h : ms.Perm ms')
      (hkeys : p.isMap = true → (ms.map (·.1)).Nodup) : Respelling p (.object ms) (.object ms')
  | wrapped {p : Place} (h : p.listed = true) (s : String) :
      Respelling p (.string s) (.ofStrings [s])
  | unwrapped {p : Place} (h : p.listed = true) (s : String) :
      Respelling p (.ofStrings [s]) (.string s)
  | renamed {p : Place} {k k' : String} (h : p.SameField k k') (d : Document)
      (l r : List (Option String × Document)) :
      Respelling p (.object (l ++ (some k, d) :: r)) (.object (l ++ (some k', d) :: r))
  | namesOnly {ms : List (Option String × Document)} {ks : List String}
      (h : (ms.map (·.1)).Perm (ks.map some)) (hks : ks.Pairwise (· < ·)) :
      Respelling (.ofAttribute (.list .dependencies)) (.object ms) (.ofStrings ks)
  | ignored {p : Place} {k : String} {d : Document} (h : p.Ignores k d)
      (l r : List (Option String × Document)) :
      Respelling p (.object (l ++ r)) (.object (l ++ (some k, d) :: r))
  | platformAdded {k : String} {d : Document} {l r : List (Option String × Document)}
      (h : Negligible (l ++ r) k d) (hkeys : ((l ++ (some k, d) :: r).map (·.1)).Nodup) :
      Respelling (.ofProperty .platforms) (.object (l ++ r)) (.object (l ++ (some k, d) :: r))
  | platformRemoved {k : String} {d : Document} {l r : List (Option String × Document)}
      (h : Negligible (l ++ r) k d) (hkeys : ((l ++ (some k, d) :: r).map (·.1)).Nodup) :
      Respelling (.ofProperty .platforms) (.object (l ++ (some k, d) :: r)) (.object (l ++ r))

/-- One part of the document is written in another way. -/
inductive Respelled : Place → Document → Document → Prop
  | here {p : Place} {d d' : Document} (h : Respelling p d d') : Respelled p d d'
  | member {p : Place} {k : Option String} {d d' : Document} (h : Respelled (p.member k) d d')
      (l r : List (Option String × Document)) :
      Respelled p (.object (l ++ (k, d) :: r)) (.object (l ++ (k, d') :: r))
  | item {p : Place} {d d' : Document} {l : List Document} (h : Respelled (p.item l.length) d d')
      (r : List Document) : Respelled p (.array (l ++ d :: r)) (.array (l ++ d' :: r))

/-! ### What the rules keep -/

section Known

variable {room : Nat} {k k' : String} {d : Document} {ms ms' : List (Option String × Document)}

/-- Members that name the same fields with the same values describe the same spec. -/
theorem Podspec.Described.of_known {s : Podspec} (h : Described room ms s)
    (hkeyed : Keyed Property.ofKey? (·.sound room = true) ms')
    (hprops : known Property.ofKey? ms' = known Property.ofKey? ms)
    (hattrs : known Attribute.ofKey? ms' = known Attribute.ofKey? ms) : Described room ms' s where
  keyed := hkeyed
  named := hprops ▸ h.named
  properties := hprops ▸ h.properties
  attributes := hattrs ▸ h.attributes

theorem Attributes.Described.of_known {t : Attributes} (h : Described room ms t)
    (hkeyed : Keyed Attribute.ofKey? (·.whole = true) ms')
    (hattrs : known Attribute.ofKey? ms' = known Attribute.ofKey? ms) : Described room ms' t where
  keyed := hkeyed
  told := hattrs ▸ h.told

theorem known_cons_congr {φ : Type} {ofKey? : String → Option φ} (h : ofKey? k = ofKey? k') :
    known ofKey? ((some k', d) :: ms) = known ofKey? ((some k, d) :: ms) := by
  simp only [known, List.filterMap_cons, Option.bind_some, h]

theorem Keyed.cons_congr {φ : Type} {ofKey? : String → Option φ} {P : Document → Prop}
    (hk : ofKey? k = ofKey? k') (h : Keyed ofKey? P ((some k, d) :: ms)) :
    Keyed ofKey? P ((some k', d) :: ms) := by
  rw [keyed_cons_iff] at h ⊢
  rwa [← hk]

theorem Podspec.Described.rename_head {s : Podspec} (h : Described room ((some k, d) :: ms) s)
    (hprop : Property.ofKey? k = Property.ofKey? k')
    (hattr : Attribute.ofKey? k = Attribute.ofKey? k') :
    Described room ((some k', d) :: ms) s :=
  h.of_known (h.keyed.cons_congr hprop) (known_cons_congr hprop) (known_cons_congr hattr)

theorem Attributes.Described.rename_head {t : Attributes} (h : Described room ((some k, d) :: ms) t)
    (hattr : Attribute.ofKey? k = Attribute.ofKey? k') : Described room ((some k', d) :: ms) t :=
  h.of_known (h.keyed.cons_congr hattr) (known_cons_congr hattr)

theorem Podspec.Described.cons_ignored {s : Podspec} (h : Described room ms s)
    (hk : Place.spec.Ignores k d) (hd : d.depth ≤ room) : Described room ((some k, d) :: ms) s := by
  obtain ⟨hprop, hattr, hvalued⟩ := hk
  have hsound : d.sound room = true := (d.sound_iff room).2 ⟨hvalued, hd⟩
  exact h.of_known ((keyed_cons_of_none hprop).2 ⟨hsound, h.keyed⟩) (known_cons_none hprop d ms)
    (known_cons_none hattr d ms)

theorem Attributes.Described.cons_ignored {t : Attributes} (h : Described room ms t)
    (hk : Attribute.ofKey? k = none) (hd : d.whole = true) :
    Described room ((some k, d) :: ms) t :=
  h.of_known ((keyed_cons_of_none hk).2 ⟨hd, h.keyed⟩) (known_cons_none hk d ms)

end Known

namespace Place

variable {p : Place} {k k' : String} {d : Document} {ms ms' l r : List (Option String × Document)}

theorem keeps_reordered (h : ms.Perm ms') (hkeys : p.isMap = true → (ms.map (·.1)).Nodup) :
    p.Keeps (.object ms) (.object ms') := by
  cases p with
  | spec => exact same_spec fun _ _ _ _ hs => hs.perm h
  | ofProperty p =>
    cases p with
    | platforms => exact ((same_map_perm h (hkeys rfl)).optional nofun nofun).map _
    | platformSection q => exact same_section fun _ _ _ _ ht => ht.perm h
    | _ => exact same_object_of_property nofun nofun
  | ofAttribute a =>
    refine ⟨?_, .perm h⟩
    cases a with
    | list a =>
      cases a with
      | dependencies => exact ((same_names_perm h).optional nofun nofun).map _
      | _ => exact same_object_of_attribute nofun nofun nofun
    | resourceBundles => exact ((same_map_perm h (hkeys rfl)).optional nofun nofun).map _
    | xcconfig => exact same_map_perm h (hkeys rfl)
    | swiftVersions | moduleName => exact same_object_of_attribute nofun nofun nofun
  | bundle => exact ⟨same_of_not takes_oneOrMany object_not_oneOrMany, .perm h⟩
  | other => exact ⟨.inr ⟨ms, rfl⟩, .perm h⟩

theorem keeps_renamed (h : p.SameField k k') :
    p.Keeps (.object (l ++ (some k, d) :: r)) (.object (l ++ (some k', d) :: r)) := by
  cases p with
  | spec =>
    refine same_spec fun room s _ _ hs => ?_
    have hhead := (hs.perm List.perm_middle).rename_head h.1 h.2
    exact hhead.perm List.perm_middle.symm
  | ofProperty p =>
    cases p with
    | platformSection q =>
      refine same_section fun room t _ _ ht => ?_
      have hhead := (ht.perm List.perm_middle).rename_head h
      exact hhead.perm List.perm_middle.symm
    | _ => exact h.elim
  | _ => exact h.elim

theorem keeps_ignored (h : p.Ignores k d) :
    p.Keeps (.object (l ++ r)) (.object (l ++ (some k, d) :: r)) := by
  cases p with
  | spec =>
    refine same_spec fun room s _ hms hs => ?_
    rw [List.forall_mem_append, List.forall_mem_cons] at hms
    exact (hs.cons_ignored h hms.2.1).perm List.perm_middle.symm
  | ofProperty p =>
    cases p with
    | platformSection q =>
      refine same_section fun room t _ _ ht => ?_
      exact (ht.cons_ignored h.1 h.2).perm List.perm_middle.symm
    | _ => exact h.elim
  | _ => exact h.elim

/-- Where a list of texts is read, what counts is which list it is. -/
theorem keeps_listed {d d' : Document} (hp : p.listed = true) (h : Same Decoder.oneOrMany d d')
    (hd : d.OneOrMany) (hd' : d'.OneOrMany) : p.Keeps d d' := by
  have hpasses : Passes d d' :=
    ⟨fun _ => hd'.valued, fun _ => whole_of_valued d' hd'.valued⟩
  have not_object {d : Document} (hd : d.OneOrMany) (ms : List (Option String × Document)) :
      d ≠ .object ms := by
    rintro rfl
    exact object_not_oneOrMany hd
  have ne_null {d : Document} (hd : d.OneOrMany) : d ≠ .null := by
    rintro rfl
    rcases hd with ⟨_, h⟩ | ⟨_, h⟩ <;> nomatch h
  have hoptional := h.optional (ne_null hd) (ne_null hd')
  cases p with
  | ofProperty p =>
    cases p with
    | defaultSubspecs => exact hoptional.map _
    | _ => nomatch hp
  | ofAttribute a =>
    refine ⟨?_, hpasses⟩
    cases a with
    | list a =>
      cases a with
      | dependencies =>
        have hnames : Same Decoder.names d d' := by
          intro room ns hdepth hdepth' hns
          rw [names_eq_ok_iff hdepth (not_object hd)] at hns
          rw [names_eq_ok_iff hdepth' (not_object hd')]
          exact h room ns hdepth hdepth' hns
        exact (hnames.optional (ne_null hd) (ne_null hd')).map _
      | _ => exact hoptional.map _
    | swiftVersions => exact hoptional
    | _ => nomatch hp
  | bundle => exact ⟨h, hpasses⟩
  | _ => nomatch hp

theorem same_wrapped (s : String) : Same Decoder.oneOrMany (.string s) (.ofStrings [s]) := by
  intro room l hdepth hdepth' hl
  rw [oneOrMany_eq_ok_iff hdepth] at hl
  rw [oneOrMany_eq_ok_iff hdepth']
  rcases hl with ⟨_, heq, rfl⟩ | heq
  · rw [Document.string.inj heq]
    exact .inr rfl
  · nomatch heq

theorem same_unwrapped (s : String) : Same Decoder.oneOrMany (.ofStrings [s]) (.string s) := by
  intro room l hdepth hdepth' hl
  rw [oneOrMany_eq_ok_iff hdepth] at hl
  rw [oneOrMany_eq_ok_iff hdepth']
  rcases hl with ⟨_, heq, -⟩ | heq
  · nomatch heq
  · exact .inl ⟨s, rfl, (ofStrings_injective heq).symm⟩

theorem keeps_namesOnly {ks : List String} (h : (ms.map (·.1)).Perm (ks.map some))
    (hks : ks.Pairwise (· < ·)) :
    (ofAttribute (.list .dependencies)).Keeps (.object ms) (.ofStrings ks) := by
  have hnames : Same Decoder.names (.object ms) (.ofStrings ks) := by
    intro room ns hdepth hdepth' hns
    rw [names_object_eq_ok_iff hdepth, keys_eq h hks] at hns
    rw [names_eq_ok_iff hdepth' nofun, oneOrMany_eq_ok_iff hdepth', hns.2]
    exact .inr rfl
  have hvalued := valued_ofStrings ks
  exact ⟨(hnames.optional nofun nofun).map _, fun _ => hvalued, fun _ => whole_of_valued _ hvalued⟩

end Place

/-! ### Platforms -/

/-- An entry without a version, one for an unknown platform, and one for `macos`
beside one for `osx` do not count. -/
theorem platformVersions_insert {m : StringMap (Option String)} {k : String} {o : Option String}
    (hk : m[k]? = none) (ho : o = none ∨ Platform.ofName? k = none ∨
      k = "macos" ∧ ∃ v, m["osx"]? = some (some v)) :
    platformVersions (m.insert k o) = platformVersions m := by
  have hjoin {k' : String} (h : k' = k → o = none) : (m.insert k o)[k']?.join = m[k']?.join := by
    by_cases hkk : k' = k
    · subst hkk
      rw [Std.ExtTreeMap.getElem?_insert_self, h rfl, hk]
      rfl
    · have hcompare : ¬compare k k' = .eq := by simpa using Ne.symm hkk
      rw [Std.ExtTreeMap.getElem?_insert, if_neg hcompare]
  have hid (p : Platform) : (m.insert k o)[p.id]?.join = m[p.id]?.join := by
    refine hjoin ?_
    rintro rfl
    rcases ho with ho | hname | ⟨hmacos, -⟩
    · exact ho
    · rw [p.ofName?_id] at hname
      nomatch hname
    · cases p <;> nomatch hmacos
  have hmacos : (m.insert k o)["macos"]?.join = m["macos"]?.join ∨
      ∃ v, m[Platform.osx.id]?.join = some v := by
    rcases ho with ho | hname | ⟨-, v, hv⟩
    · exact .inl (hjoin fun _ => ho)
    · refine .inl (hjoin ?_)
      rintro rfl
      nomatch hname
    · exact .inr ⟨v, congrArg Option.join hv⟩
  refine PerPlatform.ext_get fun p => ?_
  rw [platformVersions, platformVersions, PerPlatform.get_ofFn, PerPlatform.get_ofFn, hid]
  rcases hmacos with hmacos | ⟨v, hv⟩
  · rw [hmacos]
  · by_cases hp : p = .osx
    · rw [hp, hv]
    · rw [if_neg hp, if_neg hp]

section Platforms

variable {k : String} {d : Document} {l r : List (Option String × Document)}

theorem nodup_middle_iff : ((l ++ (some k, d) :: r).map (·.1)).Nodup ↔
    some k ∉ (l ++ r).map (·.1) ∧ ((l ++ r).map (·.1)).Nodup := by
  have hcons : ((l ++ (some k, d) :: r).map (·.1)).Perm (some k :: (l ++ r).map (·.1)) :=
    List.perm_middle.map _
  rw [hcons.nodup_iff, List.nodup_cons]

/-- With one more entry the map has one more value. -/
theorem map_insert {α : Type} {dec : Decoder α} {room : Nat} {m : StringMap α} {a : α}
    (hkeys : ((l ++ (some k, d) :: r).map (·.1)).Nodup) (ha : dec room d = .ok a)
    (hm : Decoder.map dec (room + 1) (.object (l ++ r)) = .ok m) :
    Decoder.map dec (room + 1) (.object (l ++ (some k, d) :: r)) = .ok (m.insert k a) := by
  obtain ⟨hfresh, hnodup⟩ := nodup_middle_iff.1 hkeys
  have hmem (k' : String) (e : Document) : (some k', e) ∈ l ++ (some k, d) :: r ↔
      k' = k ∧ e = d ∨ (some k', e) ∈ l ++ r := by
    rw [List.perm_middle.mem_iff, List.mem_cons, Prod.mk.injEq, Option.some.injEq]
  rw [map_object_eq_ok_iff hnodup] at hm
  obtain ⟨hdecoded, hget⟩ := hm
  rw [map_object_eq_ok_iff hkeys]
  constructor
  · rw [List.forall_mem_append] at hdecoded ⊢
    rw [List.forall_mem_cons]
    exact ⟨hdecoded.1, ⟨rfl, a, ha⟩, hdecoded.2⟩
  · intro k' b
    simp only [hmem]
    by_cases hk : k' = k
    · subst hk
      rw [Std.ExtTreeMap.getElem?_insert_self, Option.some.injEq]
      constructor
      · rintro rfl
        exact ⟨d, .inl ⟨rfl, rfl⟩, ha⟩
      · rintro ⟨e, ⟨-, rfl⟩ | he, hb⟩
        · exact Except.ok.inj (ha.symm.trans hb)
        · exact absurd (List.mem_map_of_mem he) hfresh
    · have hcompare : ¬compare k k' = .eq := by simpa using Ne.symm hk
      rw [Std.ExtTreeMap.getElem?_insert, if_neg hcompare, hget]
      simp only [hk, false_and, false_or]

/-- A negligible entry changes the map but not the versions. -/
theorem exists_map_negligible {room : Nat} {m : StringMap (Option String)}
    (h : Negligible (l ++ r) k d) (hkeys : ((l ++ (some k, d) :: r).map (·.1)).Nodup)
    (hm : Decoder.map (Decoder.optional Decoder.string) (room + 1) (.object (l ++ r)) = .ok m) :
    ∃ m', platformVersions m' = platformVersions m ∧
      Decoder.map (Decoder.optional Decoder.string) (room + 1) (.object (l ++ (some k, d) :: r)) =
        .ok m' := by
  obtain ⟨hfresh, hnodup⟩ := nodup_middle_iff.1 hkeys
  have hget := ((map_object_eq_ok_iff hnodup).1 hm).2
  have hk : m[k]? = none := by
    rw [Option.eq_none_iff_forall_ne_some]
    intro o ho
    obtain ⟨e, he, -⟩ := (hget k o).1 ho
    exact hfresh (List.mem_map_of_mem he)
  rcases h with rfl | ⟨⟨s, rfl⟩, h⟩
  · exact ⟨_, platformVersions_insert hk (.inl rfl), map_insert hkeys rfl hm⟩
  · refine ⟨_, platformVersions_insert hk (.inr (h.imp_right ?_)), map_insert hkeys rfl hm⟩
    rintro ⟨rfl, v, hv⟩
    exact ⟨rfl, v, (hget "osx" (some v)).2 ⟨_, hv, rfl⟩⟩

theorem platforms_decoder_object_eq_ok_iff {ms : List (Option String × Document)} {room : Nat}
    {v : PerPlatform (Option String)} : Property.platforms.decoder room (.object ms) = .ok v ↔
      ∃ m, Decoder.map (Decoder.optional Decoder.string) room (.object ms) = .ok m ∧
        platformVersions m = v := by
  show ((Decoder.optional (Decoder.map _) room (.object ms)).map _) = .ok v ↔ _
  rw [Decoder.optional_of_ne_null (d := .object ms) nofun, map_map, map_eq_ok_iff]
  rfl

theorem keeps_platformAdded (h : Negligible (l ++ r) k d)
    (hkeys : ((l ++ (some k, d) :: r).map (·.1)).Nodup) :
    (Place.ofProperty .platforms).Keeps (.object (l ++ r)) (.object (l ++ (some k, d) :: r)) := by
  show Same Property.platforms.decoder _ _
  apply same_object
  intro room v _ _ hv
  rw [platforms_decoder_object_eq_ok_iff] at hv ⊢
  obtain ⟨m, hm, rfl⟩ := hv
  obtain ⟨m', hversions, hm'⟩ := exists_map_negligible h hkeys hm
  exact ⟨m', hm', hversions⟩

theorem keeps_platformRemoved (h : Negligible (l ++ r) k d)
    (hkeys : ((l ++ (some k, d) :: r).map (·.1)).Nodup) :
    (Place.ofProperty .platforms).Keeps (.object (l ++ (some k, d) :: r)) (.object (l ++ r)) := by
  show Same Property.platforms.decoder _ _
  apply same_object
  intro room v _ _ hv
  rw [platforms_decoder_object_eq_ok_iff] at hv ⊢
  obtain ⟨m', hm', rfl⟩ := hv
  obtain ⟨m, hm⟩ : ∃ m, Decoder.map (Decoder.optional Decoder.string) (room + 1)
      (.object (l ++ r)) = .ok m := by
    have hentries := ((map_object_eq_ok_iff hkeys).1 hm').1
    rw [List.forall_mem_append, List.forall_mem_cons] at hentries
    rw [Decoder.map, exists_map_eq_ok_iff, exists_entries_iff, List.forall_mem_append]
    exact ⟨hentries.1, hentries.2.2⟩
  obtain ⟨m'', hversions, hm''⟩ := exists_map_negligible h hkeys hm
  obtain rfl := Except.ok.inj (hm'.symm.trans hm'')
  exact ⟨m, hm, hversions.symm⟩

end Platforms

/-! ### Documents and texts -/

theorem Respelling.keeps {p : Place} {d d' : Document} (h : Respelling p d d') : p.Keeps d d' := by
  cases h with
  | reordered h hkeys => exact Place.keeps_reordered h hkeys
  | wrapped h s =>
    exact Place.keeps_listed h (Place.same_wrapped s) (.inl ⟨s, rfl⟩) (.inr ⟨[s], rfl⟩)
  | unwrapped h s =>
    exact Place.keeps_listed h (Place.same_unwrapped s) (.inr ⟨[s], rfl⟩) (.inl ⟨s, rfl⟩)
  | renamed h d l r => exact Place.keeps_renamed h
  | namesOnly h hks => exact Place.keeps_namesOnly h hks
  | ignored h l r => exact Place.keeps_ignored h
  | platformAdded h hkeys => exact keeps_platformAdded h hkeys
  | platformRemoved h hkeys => exact keeps_platformRemoved h hkeys

/-- The rules may be used at any depth. -/
theorem Respelled.keeps {p : Place} {d d' : Document} (h : Respelled p d d') : p.Keeps d d' := by
  induction h with
  | here h => exact h.keeps
  | member _ l r ih => exact ih.member
  | item _ r ih => exact ih.item

namespace Podspec

/-- What is read in any room from some size on is read from every spelling. -/
theorem decode_of_respelled {d d' : Document} {least : Nat} {spec : Podspec}
    (h : Relation.ReflTransGen (Respelled .spec) d d')
    (hspec : ∀ room, least ≤ room → d.depth ≤ room → decode d room = .ok spec) :
    ∀ room, least ≤ room → d'.depth ≤ room → decode d' room = .ok spec := by
  induction h with
  | refl => exact hspec
  | @tail e e' _ hstep ih =>
    intro room hleast hdepth
    -- the document before may be nested deeper, so it is read in more room
    have hmore : room ≤ max room e.depth := Nat.le_max_left ..
    have he := ih (max room e.depth) (Nat.le_trans hleast hmore) (Nat.le_max_right ..)
    have he' : decode e' (max room e.depth) = .ok spec :=
      hstep.keeps _ _ (Nat.le_max_right ..) (Nat.le_trans hdepth hmore) he
    rw [← he']
    exact (bounded_decode e' hmore).eq_of_not (Nat.not_lt.2 hdepth)

/-- Every spelling of a document that is read as a spec is read as the same one. -/
theorem ofJson_of_respelled {d d' : Document} {s t : String} {spec : Podspec}
    (hs : TextOf d s.toList) (ht : TextOf d' t.toList)
    (h : Relation.ReflTransGen (Respelled .spec) d d') (hdepth : d'.depth ≤ 127)
    (hspec : ofJson s = .ok spec) : ofJson t = .ok spec := by
  rw [ofJson_eq_decode hs] at hspec
  rw [ofJson_eq_decode ht]
  refine decode_of_respelled h (fun room hmost _ => ?_) 127 (Nat.le_refl _) hdepth
  rcases bounded_decode d hmost with heq | ⟨hmalformed, -⟩
  · rw [← heq, hspec]
  · rw [hspec] at hmalformed
    nomatch hmalformed

/-- A pod in few characters. -/
def terse : List (String × Document) :=
  [("name", .string "A"), ("frameworks", .string "UIKit"), ("swift_version", .string "5")]

/-- The same pod as it is usually written. -/
def usual : List (String × Document) :=
  [("name", .string "A"), ("swift_versions", .string "5"), ("frameworks", .ofStrings ["UIKit"])]

theorem respelled_usual :
    Relation.ReflTransGen (Respelled .spec) (.ofMembers terse) (.ofMembers usual) := by
  have hwrapped : Respelled .spec (.ofMembers terse)
      (.ofMembers [("name", .string "A"), ("frameworks", .ofStrings ["UIKit"]),
        ("swift_version", .string "5")]) :=
    .member (k := some "frameworks") (.here (.wrapped rfl "UIKit")) [(some "name", .string "A")]
      [(some "swift_version", .string "5")]
  have hsame : Place.spec.SameField "swift_version" "swift_versions" :=
    ⟨rfl, rfl⟩
  have hrenamed : Respelled .spec
      (.ofMembers [("name", .string "A"), ("frameworks", .ofStrings ["UIKit"]),
        ("swift_version", .string "5")])
      (.ofMembers [("name", .string "A"), ("frameworks", .ofStrings ["UIKit"]),
        ("swift_versions", .string "5")]) :=
    .here (.renamed hsame (.string "5")
      [(some "name", .string "A"), (some "frameworks", .ofStrings ["UIKit"])] [])
  have hreordered : Respelled .spec
      (.ofMembers [("name", .string "A"), ("frameworks", .ofStrings ["UIKit"]),
        ("swift_versions", .string "5")]) (.ofMembers usual) :=
    .here (.reordered ((List.Perm.swap _ _ _).cons _) nofun)
  exact ((Relation.ReflTransGen.single hwrapped).tail hrenamed).tail hreordered

theorem plain_terse : Plain (.ofMembers terse) := by
  refine .ofMembers fun m hm => ?_
  simp only [terse, List.mem_cons, List.not_mem_nil, or_false] at hm
  rcases hm with rfl | rfl | rfl <;> exact .string _

theorem plain_usual : Plain (.ofMembers usual) := by
  refine .ofMembers fun m hm => ?_
  simp only [usual, List.mem_cons, List.not_mem_nil, or_false] at hm
  rcases hm with rfl | rfl | rfl
  · exact .string _
  · exact .string _
  · exact .ofStrings _

theorem ofJson_usual : ∃ spec,
    TextOf (.ofMembers terse) (Document.ofMembers terse).print.toList ∧
      TextOf (.ofMembers usual) (Document.ofMembers usual).print.toList ∧
      Relation.ReflTransGen (Respelled .spec) (.ofMembers terse) (.ofMembers usual) ∧
      (Document.ofMembers usual).depth ≤ 127 ∧
      ofJson (Document.ofMembers terse).print = .ok spec ∧
      ofJson (Document.ofMembers usual).print = .ok spec := by
  have hterse := plain_terse.printed.textOf
  have husual := plain_usual.printed.textOf
  have hspec : ofJson (Document.ofMembers terse).print = .ok
      ⟨{ Declaration.named "A" with attributes :=
        { Attributes.empty with frameworks := ["UIKit"], swiftVersions := some ["5"] } }, []⟩ :=
    (ofJson_eq_decode hterse).trans rfl
  exact ⟨_, hterse, husual, respelled_usual, by decide, hspec,
    ofJson_of_respelled hterse husual respelled_usual (by decide) hspec⟩

/-- A member that is no field cannot have just any value. -/
theorem ofJson_extended_tooLarge :
    (TextOf (.ofMembers [("name", .string "A")]) "\x7b\"name\":\"A\"\x7d".toList ∧
        ofJson "\x7b\"name\":\"A\"\x7d" = .ok ⟨.named "A", []⟩) ∧
      (Property.ofKey? "x" = none ∧ Attribute.ofKey? "x" = none ∧
        TextOf .valueless "1e999".toList) ∧
      TextOf (.object [(some "name", .string "A"), (some "x", .valueless)])
        "\x7b\"name\":\"A\",\"x\":1e999\x7d".toList ∧
      ofJson "\x7b\"name\":\"A\",\"x\":1e999\x7d" = .error .malformed := by
  have hname : Literal ("name".toList.map Char.toNat) "name\"".toList := literal_escapes _
  have hvalue : Literal ("A".toList.map Char.toNat) "A\"".toList := literal_escapes _
  have hbefore : TextOf (.ofMembers [("name", .string "A")]) "\x7b\"name\":\"A\"\x7d".toList :=
    .of_written (.object (.last (.keyed (w := []) (v := []) nofun hname nofun
      (.of_written (.string hvalue)))))
  have hlarge : Written .valueless "1e999".toList :=
    written_tooLarge "1".toList "999".toList (digits_of_all nofun rfl) (by decide)
      (digits_of_all nofun rfl) (by decide +kernel)
  have hafter := textOf_besideValueless hlarge
  exact ⟨⟨hbefore, (ofJson_eq_decode hbefore).trans rfl⟩, ⟨rfl, rfl, .of_written hlarge⟩, hafter,
    (ofJson_eq_decode hafter).trans rfl⟩

end Podspec

end PodTarget
