import PodTarget.Proofs.Acceptance

/-! The places in the document of a spec, and what it takes to exchange a part
of the document without changing what is read. Only the decoder that meets the
part has to be satisfied, and whoever looks through it. -/

namespace PodTarget

open Json Json.Document

/-- What a part of the document of a spec stands for. A bundle is the patterns of a
resource bundle; any other part may not be an array or an object, unless it is only
looked through. -/
inductive Place
  | spec
  | ofProperty (p : Property)
  | ofAttribute (a : Attribute)
  | bundle
  | other

namespace Place

/-- What the value of a member stands for. -/
def member : Place → Option String → Place
  | spec, some k =>
    match Property.ofKey? k with
    | some p => ofProperty p
    | none => (Attribute.ofKey? k).elim other ofAttribute
  | ofProperty (.platformSection _), some k => (Attribute.ofKey? k).elim other ofAttribute
  | ofAttribute .resourceBundles, _ => bundle
  | _, _ => other

/-- What an item stands for. -/
def item : Place → Nat → Place
  | ofProperty .subspecs, _ => spec
  | ofProperty (.platformSection _), i => Attribute.all[i]?.elim other ofAttribute
  | _, _ => other

end Place

namespace Json

section Same

variable {α β : Type} {dec : Decoder α} {d d' : Document} {P : Document → Prop}

/-- Where there is room for both documents, what the decoder makes of the first
it makes of the second. -/
def Same (dec : Decoder α) (d d' : Document) : Prop :=
  ∀ room a, d.depth ≤ room → d'.depth ≤ room → dec room d = .ok a → dec room d' = .ok a

theorem same_of_not (h : Takes dec P) (hd : ¬P d) : Same dec d d' :=
  fun room a hdepth _ ha => absurd ((h d room hdepth).1 ⟨a, ha⟩) hd

theorem map_eq_ok_iff {x : Except Error α} {f : α → β} {b : β} :
    x.map f = .ok b ↔ ∃ a, x = .ok a ∧ f a = b := by
  cases x with
  | error e => exact ⟨nofun, fun ⟨_, h, _⟩ => nomatch h⟩
  | ok a =>
    constructor
    · intro h
      exact ⟨a, rfl, Except.ok.inj h⟩
    · rintro ⟨_, h, rfl⟩
      rw [Except.ok.inj h]
      rfl

theorem Same.map (h : Same dec d d') (f : α → β) :
    Same (fun room d => (dec room d).map f) d d' := by
  intro room b hd hd' hb
  obtain ⟨a, ha, rfl⟩ := map_eq_ok_iff.1 hb
  exact map_eq_ok_iff.2 ⟨a, h room a hd hd' ha, rfl⟩

theorem Same.optional (h : Same dec d d') (hd : d ≠ .null) (hd' : d' ≠ .null) :
    Same (Decoder.optional dec) d d' := by
  intro room o hdepth hdepth' ho
  rw [Decoder.optional_of_ne_null hd] at ho
  rw [Decoder.optional_of_ne_null hd']
  exact (h.map some) room o hdepth hdepth' ho

/-- Objects are the same for a decoder that goes by their members. -/
theorem same_object {ms ms' : List (Option String × Document)}
    (h : ∀ room a, (∀ m ∈ ms, m.2.depth ≤ room) → (∀ m ∈ ms', m.2.depth ≤ room) →
      dec (room + 1) (.object ms) = .ok a → dec (room + 1) (.object ms') = .ok a) :
    Same dec (.object ms) (.object ms') := by
  intro room a hd hd' ha
  cases room with
  | zero => rw [depth] at hd; omega
  | succ room => exact h room a (depth_object_le_iff.1 hd) (depth_object_le_iff.1 hd') ha

theorem same_array {ds ds' : List Document}
    (h : ∀ room a, (∀ d ∈ ds, d.depth ≤ room) → (∀ d ∈ ds', d.depth ≤ room) →
      dec (room + 1) (.array ds) = .ok a → dec (room + 1) (.array ds') = .ok a) :
    Same dec (.array ds) (.array ds') := by
  intro room a hd hd' ha
  cases room with
  | zero => rw [depth] at hd; omega
  | succ room => exact h room a (depth_array_le_iff.1 hd) (depth_array_le_iff.1 hd') ha

/-- Looking through the second document goes as well as through the first. -/
structure Passes (d d' : Document) : Prop where
  valued : d.valued = true → d'.valued = true
  whole : d.whole = true → d'.whole = true

theorem Passes.sound (h : Passes d d') {room : Nat} (hd' : d'.depth ≤ room)
    (hd : d.sound room = true) : d'.sound room = true :=
  (d'.sound_iff room).2 ⟨h.valued ((d.sound_iff room).1 hd).1, hd'⟩

def Nested (d : Document) : Prop := (∃ ds, d = .array ds) ∨ ∃ ms, d = .object ms

theorem Nested.not_isText (h : Nested d) : ¬d.IsText := by
  rintro ⟨s, rfl⟩
  rcases h with ⟨_, h⟩ | ⟨_, h⟩ <;> nomatch h

theorem Nested.ne_null (h : Nested d) : d ≠ .null := by
  rintro rfl
  rcases h with ⟨_, h⟩ | ⟨_, h⟩ <;> nomatch h

end Same

end Json

namespace Place

/-- What has to hold for a part to be exchanged for another one. -/
def Keeps : Place → Document → Document → Prop
  | spec, d, d' => Same (fun room d => Podspec.decode d room) d d'
  | ofProperty p, d, d' => Same p.decoder d d'
  | ofAttribute a, d, d' => Same a.decoder d d' ∧ Passes d d'
  | bundle, d, d' => Same Decoder.oneOrMany d d' ∧ Passes d d'
  | other, d, d' => Nested d ∧ Passes d d'

/-- Only a part that is not looked through may be exchanged for one with less
value. -/
def looked : Place → Bool
  | spec | ofProperty _ => false
  | _ => true

theorem Keeps.passes {p : Place} (hp : p.looked = true) {d d' : Document} (h : p.Keeps d d') :
    Passes d d' := by
  cases p with
  | spec | ofProperty => nomatch hp
  | ofAttribute | bundle | other => exact h.2

end Place

/-! ### Members -/

section Members

variable {φ σ : Type} {V : φ → Type} {decoder : (a : φ) → Decoder (V a)} {get : (a : φ) → σ → V a}
  {absent s : σ} {room : Nat} {l : List (φ × Document)} {a : φ} {d d' : Document}

theorem Told.congr_head (h : Told decoder get absent room ((a, d) :: l) s)
    (hd : decoder a room d = .ok (get a s) → decoder a room d' = .ok (get a s)) :
    Told decoder get absent room ((a, d') :: l) s where
  once := h.once
  said b e hm := by
    rcases List.mem_cons.1 hm with heq | hm
    · obtain ⟨rfl, rfl⟩ := Prod.mk.inj heq
      exact hd (h.said _ _ List.mem_cons_self)
    · exact h.said b e (List.mem_cons_of_mem _ hm)
  unsaid b hm := h.unsaid b hm

/-- A field may be given another value in the same place. -/
theorem Told.congr_middle {r : List (φ × Document)}
    (h : Told decoder get absent room (l ++ (a, d) :: r) s)
    (hd : decoder a room d = .ok (get a s) → decoder a room d' = .ok (get a s)) :
    Told decoder get absent room (l ++ (a, d') :: r) s :=
  ((h.perm List.perm_middle).congr_head hd).perm List.perm_middle.symm

end Members

namespace Json.Passes

variable {d d' : Document} {k : Option String} {l r : List (Option String × Document)}

theorem member (h : Passes d d') :
    Passes (.object (l ++ (k, d) :: r)) (.object (l ++ (k, d') :: r)) where
  valued hd := by
    rw [valued_object_iff, List.forall_mem_append, List.forall_mem_cons] at hd ⊢
    exact ⟨hd.1, ⟨hd.2.1.1, h.valued hd.2.1.2⟩, hd.2.2⟩
  whole hd := by
    rw [whole_object_iff, List.forall_mem_append, List.forall_mem_cons] at hd ⊢
    exact ⟨hd.1, h.whole hd.2.1, hd.2.2⟩

theorem item {l r : List Document} (h : Passes d d') :
    Passes (.array (l ++ d :: r)) (.array (l ++ d' :: r)) where
  valued hd := by
    rw [valued_array_iff, List.forall_mem_append, List.forall_mem_cons] at hd ⊢
    exact ⟨hd.1, h.valued hd.2.1, hd.2.2⟩
  whole hd := by
    rw [whole_array_iff, List.forall_mem_append, List.forall_mem_cons] at hd ⊢
    exact ⟨hd.1, h.whole hd.2.1, hd.2.2⟩

end Json.Passes

namespace Attributes

variable {room : Nat} {ms : List (Option String × Document)} {t : Attributes}
  {k : Option String} {d d' : Document}

theorem Described.congr_head {q : Platform} (h : Described room ((k, d) :: ms) t)
    (hd : ((Place.ofProperty (.platformSection q)).member k).Keeps d d')
    (hdepth : d.depth ≤ room) (hdepth' : d'.depth ≤ room) :
    Described room ((k, d') :: ms) t := by
  obtain ⟨hkeyed, htold⟩ := h
  obtain ⟨k', hk, -⟩ := hkeyed _ List.mem_cons_self
  obtain rfl : k = some k' := hk
  cases hk : Attribute.ofKey? k' with
  | none =>
    simp only [Place.member, hk] at hd
    rw [keyed_cons_of_none hk] at hkeyed
    rw [known_cons_none hk] at htold
    refine ⟨(keyed_cons_of_none hk).2 ⟨hd.2.whole hkeyed.1, hkeyed.2⟩, ?_⟩
    rwa [known_cons_none hk]
  | some a =>
    simp only [Place.member, hk] at hd
    rw [keyed_cons_of_some hk] at hkeyed
    rw [known_cons_some hk] at htold
    refine ⟨(keyed_cons_of_some hk).2 hkeyed, ?_⟩
    rw [known_cons_some hk]
    exact Told.congr_head htold (hd.1 room _ hdepth hdepth')

end Attributes

namespace Podspec

variable {room : Nat} {ms : List (Option String × Document)} {s : Podspec}
  {k : Option String} {d d' : Document}

theorem Described.congr_head (h : Described room ((k, d) :: ms) s)
    (hd : (Place.spec.member k).Keeps d d') (hdepth : d.depth ≤ room) (hdepth' : d'.depth ≤ room) :
    Described room ((k, d') :: ms) s := by
  obtain ⟨hkeyed, hnamed, hprops, hattrs⟩ := h
  obtain ⟨k', hk, -⟩ := hkeyed _ List.mem_cons_self
  obtain rfl : k = some k' := hk
  cases hk : Property.ofKey? k' with
  | some p =>
    have ha := Property.ofKey?_attribute hk
    simp only [Place.member, hk] at hd
    rw [keyed_cons_of_some hk] at hkeyed
    rw [known_cons_some hk] at hnamed hprops
    rw [known_cons_none ha] at hattrs
    refine ⟨(keyed_cons_of_some hk).2 hkeyed, ?_, ?_, ?_⟩
    · rwa [known_cons_some hk]
    · rw [known_cons_some hk]
      exact hprops.congr_head (hd room _ hdepth hdepth')
    · rwa [known_cons_none ha]
  | none =>
    have hpasses : Passes d d' := by
      apply Place.Keeps.passes _ hd
      simp only [Place.member, hk]
      cases Attribute.ofKey? k' <;> rfl
    rw [keyed_cons_of_none hk] at hkeyed
    rw [known_cons_none hk] at hnamed hprops
    refine ⟨(keyed_cons_of_none hk).2 ⟨hpasses.sound hdepth' hkeyed.1, hkeyed.2⟩, ?_, ?_, ?_⟩
    · rwa [known_cons_none hk]
    · rwa [known_cons_none hk]
    · cases ha : Attribute.ofKey? k' with
      | none =>
        rw [known_cons_none ha] at hattrs
        rwa [known_cons_none ha]
      | some a =>
        simp only [Place.member, hk, ha] at hd
        rw [known_cons_some ha] at hattrs
        rw [known_cons_some ha]
        exact Told.congr_head hattrs (hd.1 room _ hdepth hdepth')

theorem decodeItems_congr_middle {l r : List Document} {ss : List Podspec}
    (h : ∀ s, decode d room = .ok s → decode d' room = .ok s)
    (hss : decodeItems (l ++ d :: r) room = .ok ss) :
    decodeItems (l ++ d' :: r) room = .ok ss := by
  induction l generalizing ss with
  | nil =>
    rw [List.nil_append, decodeItems_cons] at hss ⊢
    cases hd : decode d room with
    | error e => rw [hd] at hss; nomatch hss
    | ok s => rw [h s hd]; rwa [hd] at hss
  | cons e l ih =>
    rw [List.cons_append, decodeItems_cons] at hss ⊢
    cases he : decode e room with
    | error e => rw [he] at hss; nomatch hss
    | ok s =>
      cases htail : decodeItems (l ++ d :: r) room with
      | error e => rw [he, htail] at hss; nomatch hss
      | ok ss' => rw [ih htail]; rwa [he, htail] at hss

end Podspec

theorem entries_congr_middle {α : Type} {dec : Decoder α} {room : Nat} {k : Option String}
    {d d' : Document} {l r : List (Option String × Document)} {es : List (String × α)}
    (h : ∀ a, dec room d = .ok a → dec room d' = .ok a)
    (hes : Decoder.entries dec room (l ++ (k, d) :: r) = .ok es) :
    Decoder.entries dec room (l ++ (k, d') :: r) = .ok es := by
  induction l generalizing es with
  | nil =>
    cases k with
    | none => nomatch hes
    | some k =>
      obtain ⟨a, es', ha, hes', rfl⟩ := entries_cons_eq_ok_iff.1 hes
      exact entries_cons_eq_ok_iff.2 ⟨a, es', h a ha, hes', rfl⟩
  | cons m l ih =>
    obtain ⟨k', e⟩ := m
    cases k' with
    | none => nomatch hes
    | some k' =>
      obtain ⟨a, es', ha, hes', rfl⟩ := entries_cons_eq_ok_iff.1 hes
      exact entries_cons_eq_ok_iff.2 ⟨a, es', ha, ih hes', rfl⟩

section Congruence

variable {k : Option String} {d d' : Document} {l r : List (Option String × Document)}

theorem same_map_member {α : Type} {dec : Decoder α} (h : Same dec d d') :
    Same (Decoder.map dec) (.object (l ++ (k, d) :: r)) (.object (l ++ (k, d') :: r)) := by
  apply same_object
  intro room m hms hms' hm
  rw [List.forall_mem_append, List.forall_mem_cons] at hms hms'
  obtain ⟨es, hes, rfl⟩ := map_eq_ok_iff.1 hm
  exact map_eq_ok_iff.2
    ⟨es, entries_congr_middle (fun a => h room a hms.2.1 hms'.2.1) hes, rfl⟩

theorem names_object_eq_ok_iff {ms : List (Option String × Document)} {room : Nat}
    (hd : (Document.object ms).depth ≤ room) {ns : List String} :
    Decoder.names room (.object ms) = .ok ns ↔
      (Document.object ms).valued = true ∧ Decoder.keys ms = ns := by
  rw [Decoder.names, buffered_eq_ok_iff hd, Decoder.namesOf?, Option.some.injEq]

theorem same_names_member (h : Passes d d') :
    Same Decoder.names (.object (l ++ (k, d) :: r)) (.object (l ++ (k, d') :: r)) := by
  intro room ns hdepth hdepth' hns
  rw [names_object_eq_ok_iff hdepth] at hns
  rw [names_object_eq_ok_iff hdepth']
  refine ⟨h.member.valued hns.1, ?_⟩
  rw [← hns.2, Decoder.keys, Decoder.keys, List.filterMap_append, List.filterMap_append]
  rfl

end Congruence

/-! ### Parts of objects and arrays -/

section Rejected

variable {ms : List (Option String × Document)} {ds l r : List Document} {d d' : Document}

theorem object_not_isText : ¬(Document.object ms).IsText := Nested.not_isText (.inr ⟨ms, rfl⟩)

theorem object_not_oneOrMany : ¬(Document.object ms).OneOrMany := by
  rintro (h | ⟨ns, h⟩)
  · exact object_not_isText h
  · nomatch h

theorem array_not_isText : ¬(Document.array ds).IsText := Nested.not_isText (.inl ⟨ds, rfl⟩)

theorem array_not_mapOf {P : Document → Prop} : ¬(Document.array ds).MapOf P := by
  rintro ⟨ms, h, -⟩
  nomatch h

/-- An item of a list of texts is neither an array nor an object. -/
theorem array_not_oneOrMany (hd : Nested d) : ¬(Document.array (l ++ d :: r)).OneOrMany := by
  rintro (h | ⟨ns, h⟩)
  · exact array_not_isText h
  · have hmem : d ∈ ns.map Document.string :=
      Document.array.inj h ▸ List.mem_append_right l List.mem_cons_self
    obtain ⟨s, -, rfl⟩ := List.mem_map.1 hmem
    exact hd.not_isText ⟨s, rfl⟩

theorem same_names_array (hd : Nested d) :
    Same Decoder.names (.array (l ++ d :: r)) (.array (l ++ d' :: r)) := by
  apply same_of_not takes_names
  rintro (h | ⟨⟨ms, h⟩, -⟩)
  · exact array_not_oneOrMany hd h
  · nomatch h

/-- The other properties are never objects. -/
theorem same_object_of_property {p : Property} (hplatforms : p ≠ .platforms)
    (hsection : ∀ q, p ≠ .platformSection q) : Same p.decoder (.object ms) d' := by
  cases p with
  | name => exact same_of_not takes_string object_not_isText
  | version => exact same_of_not takes_string.optional (not_or.2 ⟨nofun, object_not_isText⟩)
  | platforms => exact absurd rfl hplatforms
  | staticFramework => exact same_of_not takes_boolean nofun
  | defaultSubspecs =>
    exact same_of_not (takes_oneOrMany.optional.map _) (not_or.2 ⟨nofun, object_not_oneOrMany⟩)
  | platformSection q => exact absurd rfl (hsection q)
  | subspecs =>
    intro room ss _ _ hss
    simp [Property.decoder, Podspec.decodeSubspecs] at hss

/-- Neither are the other attributes. -/
theorem same_object_of_attribute {a : Attribute} (hnames : a ≠ .list .dependencies)
    (hbundles : a ≠ .resourceBundles) (hxcconfig : a ≠ .xcconfig) :
    Same a.decoder (.object ms) d' := by
  cases a with
  | list a =>
    cases a with
    | dependencies => exact absurd rfl hnames
    | _ =>
      exact same_of_not (takes_oneOrMany.optional.map _)
        (not_or.2 ⟨nofun, object_not_oneOrMany⟩)
  | resourceBundles => exact absurd rfl hbundles
  | xcconfig => exact absurd rfl hxcconfig
  | swiftVersions =>
    exact same_of_not takes_oneOrMany.optional (not_or.2 ⟨nofun, object_not_oneOrMany⟩)
  | moduleName => exact same_of_not takes_string.optional (not_or.2 ⟨nofun, object_not_isText⟩)

end Rejected

namespace Place

section Described

variable {ms ms' : List (Option String × Document)}

theorem same_spec (h : ∀ room s, (∀ m ∈ ms, m.2.depth ≤ room) → (∀ m ∈ ms', m.2.depth ≤ room) →
      Podspec.Described room ms s → Podspec.Described room ms' s) :
    Same (fun room d => Podspec.decode d room) (.object ms) (.object ms') := by
  apply same_object
  intro room s hms hms' hs
  rw [Podspec.decode_object_eq_ok_iff] at hs ⊢
  exact h room s hms hms' hs

theorem same_section (h : ∀ room t, (∀ m ∈ ms, m.2.depth ≤ room) → (∀ m ∈ ms', m.2.depth ≤ room) →
      Attributes.Described room ms t → Attributes.Described room ms' t) :
    Same (Decoder.optional Attributes.decode) (.object ms) (.object ms') := by
  refine Same.optional (same_object ?_) nofun nofun
  intro room t hms hms' ht
  rw [Attributes.decode_object_eq_ok_iff] at ht ⊢
  exact h room t hms hms' ht

end Described

variable {k : Option String} {d d' : Document} {l r : List (Option String × Document)}

theorem looked_member (a : Attribute) (k : Option String) :
    ((ofAttribute a).member k).looked = true := by
  cases a <;> rfl

theorem keeps_member_of_property {p : Property} (h : ((ofProperty p).member k).Keeps d d') :
    Same p.decoder (.object (l ++ (k, d) :: r)) (.object (l ++ (k, d') :: r)) := by
  cases p with
  | platforms =>
    have hentry : Same (Decoder.optional Decoder.string) d d' := by
      apply same_of_not takes_string.optional
      rintro (hnull | htext)
      · exact h.1.ne_null hnull
      · exact h.1.not_isText htext
    exact ((same_map_member hentry).optional nofun nofun).map _
  | platformSection q =>
    refine same_section fun room t hms hms' ht => ?_
    rw [List.forall_mem_append, List.forall_mem_cons] at hms hms'
    have hhead := (ht.perm List.perm_middle).congr_head h hms.2.1 hms'.2.1
    exact hhead.perm List.perm_middle.symm
  | _ => exact same_object_of_property nofun nofun

theorem keeps_member_of_attribute {a : Attribute} (h : ((ofAttribute a).member k).Keeps d d') :
    Same a.decoder (.object (l ++ (k, d) :: r)) (.object (l ++ (k, d') :: r)) := by
  cases a with
  | list a =>
    cases a with
    | dependencies => exact ((same_names_member h.2).optional nofun nofun).map _
    | _ => exact same_object_of_attribute nofun nofun nofun
  | resourceBundles => exact ((same_map_member h.1).optional nofun nofun).map _
  | xcconfig => exact same_map_member (same_of_not takes_string h.1.not_isText)
  | swiftVersions | moduleName => exact same_object_of_attribute nofun nofun nofun

/-- A member may be exchanged if its value may. -/
theorem Keeps.member {p : Place} (h : (p.member k).Keeps d d') :
    p.Keeps (.object (l ++ (k, d) :: r)) (.object (l ++ (k, d') :: r)) := by
  cases p with
  | spec =>
    refine same_spec fun room s hms hms' hs => ?_
    rw [List.forall_mem_append, List.forall_mem_cons] at hms hms'
    have hhead := (hs.perm List.perm_middle).congr_head h hms.2.1 hms'.2.1
    exact hhead.perm List.perm_middle.symm
  | ofProperty p => exact keeps_member_of_property h
  | ofAttribute a => exact ⟨keeps_member_of_attribute h, (h.passes (looked_member a k)).member⟩
  | bundle => exact ⟨same_of_not takes_oneOrMany object_not_oneOrMany, h.2.member⟩
  | other => exact ⟨.inr ⟨_, rfl⟩, h.2.member⟩

section Items

variable {l r : List Document}

theorem zip_middle {α : Type} {as : List α} (h : l.length < as.length) (d : Document) :
    as.zip (l ++ d :: r) = (as.take l.length).zip l ++
      (as[l.length], d) :: (as.drop (l.length + 1)).zip r := by
  induction l generalizing as with
  | nil =>
    cases as with
    | nil => nomatch h
    | cons a as => rfl
  | cons e l ih =>
    cases as with
    | nil => nomatch h
    | cons a as => simpa using ih (Nat.lt_of_succ_lt_succ h)

/-- Of a section that lists its attributes the item says which one it is. -/
theorem same_section_item {q : Platform}
    (h : ((ofProperty (.platformSection q)).item l.length).Keeps d d') :
    Same Attributes.decode (.array (l ++ d :: r)) (.array (l ++ d' :: r)) := by
  apply same_array
  intro room t hds hds' ht
  rw [List.forall_mem_append, List.forall_mem_cons] at hds hds'
  rw [Attributes.decode_array_eq_ok_iff] at ht ⊢
  obtain ⟨hlength, htold⟩ := ht
  have hl : l.length < Attribute.all.length := by
    rw [List.length_append, List.length_cons] at hlength
    omega
  simp only [item, List.getElem?_eq_getElem hl, Option.elim_some] at h
  rw [zip_middle hl] at htold ⊢
  refine ⟨by simpa using hlength, htold.congr_middle (h.1 room _ hds.2.1 hds'.2.1)⟩

theorem keeps_item_of_property {p : Property} (h : ((ofProperty p).item l.length).Keeps d d') :
    Same p.decoder (.array (l ++ d :: r)) (.array (l ++ d' :: r)) := by
  cases p with
  | name => exact same_of_not takes_string array_not_isText
  | version => exact same_of_not takes_string.optional (not_or.2 ⟨nofun, array_not_isText⟩)
  | platforms =>
    exact same_of_not (takes_string.optional.mapOf.optional.map _)
      (not_or.2 ⟨nofun, array_not_mapOf⟩)
  | staticFramework => exact same_of_not takes_boolean nofun
  | defaultSubspecs =>
    exact same_of_not (takes_oneOrMany.optional.map _)
      (not_or.2 ⟨nofun, array_not_oneOrMany h.1⟩)
  | platformSection q => exact (same_section_item h).optional nofun nofun
  | subspecs =>
    apply same_array
    intro room ss hds hds' hss
    rw [List.forall_mem_append, List.forall_mem_cons] at hds hds'
    simp only [Property.decoder, Podspec.decodeSubspecs] at hss ⊢
    exact Podspec.decodeItems_congr_middle (fun s => h room s hds.2.1 hds'.2.1) hss

theorem keeps_item_of_attribute {a : Attribute} (h : Nested d) :
    Same a.decoder (.array (l ++ d :: r)) (.array (l ++ d' :: r)) := by
  cases a with
  | list a =>
    cases a with
    | dependencies => exact ((same_names_array h).optional nofun nofun).map _
    | _ =>
      exact same_of_not (takes_oneOrMany.optional.map _)
        (not_or.2 ⟨nofun, array_not_oneOrMany h⟩)
  | resourceBundles =>
    exact same_of_not (takes_oneOrMany.mapOf.optional.map _)
      (not_or.2 ⟨nofun, array_not_mapOf⟩)
  | xcconfig => exact same_of_not takes_string.mapOf array_not_mapOf
  | swiftVersions =>
    exact same_of_not takes_oneOrMany.optional (not_or.2 ⟨nofun, array_not_oneOrMany h⟩)
  | moduleName => exact same_of_not takes_string.optional (not_or.2 ⟨nofun, array_not_isText⟩)

/-- An item may be exchanged if what it stands for may. -/
theorem Keeps.item {p : Place} (h : (p.item l.length).Keeps d d') :
    p.Keeps (.array (l ++ d :: r)) (.array (l ++ d' :: r)) := by
  cases p with
  | spec =>
    intro room s _ _ hs
    simp [Podspec.decode] at hs
  | ofProperty p => exact keeps_item_of_property h
  | ofAttribute a => exact ⟨keeps_item_of_attribute h.1, h.2.item⟩
  | bundle => exact ⟨same_of_not takes_oneOrMany (array_not_oneOrMany h.1), h.2.item⟩
  | other => exact ⟨.inl ⟨_, rfl⟩, h.2.item⟩

end Items

end Place

end PodTarget
