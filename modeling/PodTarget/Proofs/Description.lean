import Mathlib.Data.List.Nodup
import PodTarget.Proofs.JsonReading
import PodTarget.Proofs.Room

/-! What a document says of a spec. Reading goes through the members in their
order, but what is read is told field by field: each is given at most once, what
is given is what the spec holds, and what is not given is as in the empty spec.
Nothing else about the order of the members is left. -/

namespace PodTarget

open Json

section Told

variable {φ σ : Type} {V : φ → Type}

/-- The members whose keys name a field, with that field. -/
def known (ofKey? : String → Option φ) (ms : List (Option String × Document)) :
    List (φ × Document) :=
  ms.filterMap fun m => (m.1.bind ofKey?).map (·, m.2)

theorem mem_known {ofKey? : String → Option φ} {ms : List (Option String × Document)} {a : φ}
    {d : Document} : (a, d) ∈ known ofKey? ms ↔ ∃ k, ofKey? k = some a ∧ (some k, d) ∈ ms := by
  simp only [known, List.mem_filterMap, Option.map_eq_some_iff, Option.bind_eq_some_iff,
    Prod.mk.injEq]
  constructor
  · rintro ⟨⟨_, _⟩, hm, _, ⟨k, rfl, hk⟩, rfl, rfl⟩
    exact ⟨k, hk, hm⟩
  · rintro ⟨k, hk, hm⟩
    exact ⟨_, hm, a, ⟨k, rfl, hk⟩, rfl, rfl⟩

theorem known_append (ofKey? : String → Option φ) (l r : List (Option String × Document)) :
    known ofKey? (l ++ r) = known ofKey? l ++ known ofKey? r := List.filterMap_append ..

theorem known_cons_some {ofKey? : String → Option φ} {k : String} {a : φ} (h : ofKey? k = some a)
    (d : Document) (ms : List (Option String × Document)) :
    known ofKey? ((some k, d) :: ms) = (a, d) :: known ofKey? ms := by
  simp [known, h]

theorem known_cons_none {ofKey? : String → Option φ} {k : String} (h : ofKey? k = none)
    (d : Document) (ms : List (Option String × Document)) :
    known ofKey? ((some k, d) :: ms) = known ofKey? ms := by
  simp [known, h]

theorem known_perm {ofKey? : String → Option φ} {ms ms' : List (Option String × Document)}
    (h : ms.Perm ms') : (known ofKey? ms).Perm (known ofKey? ms') := h.filterMap _

/-- Every member has a key, and `P` holds of those that are no fields. -/
def Keyed (ofKey? : String → Option φ) (P : Document → Prop)
    (ms : List (Option String × Document)) : Prop :=
  ∀ m ∈ ms, ∃ k, m.1 = some k ∧ (ofKey? k = none → P m.2)

section Keyed

variable {ofKey? : String → Option φ} {P : Document → Prop} {k : String} {d : Document}
  {ms : List (Option String × Document)}

theorem Keyed.perm {ms' : List (Option String × Document)} (h : Keyed ofKey? P ms)
    (hp : ms.Perm ms') : Keyed ofKey? P ms' := fun m hm => h m (hp.mem_iff.2 hm)

theorem not_keyed_cons_none : ¬Keyed ofKey? P ((none, d) :: ms) := fun h =>
  let ⟨_, hk, _⟩ := h _ List.mem_cons_self
  nomatch hk

theorem keyed_cons_iff :
    Keyed ofKey? P ((some k, d) :: ms) ↔ (ofKey? k = none → P d) ∧ Keyed ofKey? P ms := by
  rw [Keyed, List.forall_mem_cons, Keyed]
  simp

theorem keyed_cons_of_some {a : φ} (h : ofKey? k = some a) :
    Keyed ofKey? P ((some k, d) :: ms) ↔ Keyed ofKey? P ms := by
  simp [keyed_cons_iff, h]

theorem keyed_cons_of_none (h : ofKey? k = none) :
    Keyed ofKey? P ((some k, d) :: ms) ↔ P d ∧ Keyed ofKey? P ms := by
  simp [keyed_cons_iff, h]

end Keyed

/-- What fields with their values say of something. -/
structure Told (decoder : (a : φ) → Decoder (V a)) (get : (a : φ) → σ → V a) (absent : σ)
    (room : Nat) (l : List (φ × Document)) (s : σ) : Prop where
  once : (l.map (·.1)).Nodup
  said : ∀ a d, (a, d) ∈ l → decoder a room d = .ok (get a s)
  unsaid : ∀ a, a ∉ l.map (·.1) → get a s = get a absent

variable {decoder : (a : φ) → Decoder (V a)} {get : (a : φ) → σ → V a} {absent s : σ} {room : Nat}
  {l l' : List (φ × Document)}

theorem Told.perm (h : Told decoder get absent room l s) (hp : l.Perm l') :
    Told decoder get absent room l' s where
  once := (hp.map _).nodup_iff.1 h.once
  said a d hm := h.said a d (hp.mem_iff.2 hm)
  unsaid a hm := h.unsaid a fun hl => hm ((hp.map _).mem_iff.1 hl)

/-- Only what the fields hold is told. -/
theorem Told.congr (h : Told decoder get absent room l s) {t : σ} (ht : ∀ a, get a t = get a s) :
    Told decoder get absent room l t where
  once := h.once
  said a d hm := by rw [ht]; exact h.said a d hm
  unsaid a hm := by rw [ht]; exact h.unsaid a hm

/-- The first field may be put in its place before the others are told. -/
theorem told_cons_iff {a : φ} {d : Document} {absent' : σ}
    (self : decoder a room d = .ok (get a absent'))
    (other : ∀ b, a ≠ b → get b absent' = get b absent) :
    Told decoder get absent room ((a, d) :: l) s ↔
      a ∉ l.map (·.1) ∧ Told decoder get absent' room l s := by
  constructor
  · rintro ⟨honce, hsaid, hunsaid⟩
    rw [List.map_cons, List.nodup_cons] at honce
    refine ⟨honce.1, honce.2, fun b e hm => hsaid b e (List.mem_cons_of_mem _ hm), fun b hb => ?_⟩
    by_cases hab : a = b
    · subst hab
      exact Except.ok.inj ((hsaid a d List.mem_cons_self).symm.trans self)
    · rw [other b hab]
      refine hunsaid b fun hm => ?_
      rcases List.mem_cons.1 hm with rfl | hm
      · exact hab rfl
      · exact hb hm
  · rintro ⟨ha, honce, hsaid, hunsaid⟩
    refine ⟨List.nodup_cons.2 ⟨ha, honce⟩, fun b e hm => ?_, fun b hb => ?_⟩
    · rcases List.mem_cons.1 hm with heq | hm
      · obtain ⟨rfl, rfl⟩ := Prod.mk.inj heq
        rw [hunsaid b ha, self]
      · exact hsaid b e hm
    · rw [List.map_cons, List.mem_cons, not_or] at hb
      rw [hunsaid b hb.2, other b (Ne.symm hb.1)]

/-- Something is told as soon as each field is given once, with a value that can
be decoded. -/
theorem exists_told_iff (make : ((a : φ) → V a) → σ) (get_make : ∀ v a, get a (make v) = v a) :
    (∃ s, Told decoder get absent room l s) ↔
      (l.map (·.1)).Nodup ∧ ∀ a d, (a, d) ∈ l → ∃ v, decoder a room d = .ok v := by
  constructor
  · rintro ⟨s, hs⟩
    exact ⟨hs.once, fun a d hm => ⟨_, hs.said a d hm⟩⟩
  · rintro ⟨honce, hdecoded⟩
    have value (a : φ) : ∃ v : V a, (∀ d, (a, d) ∈ l → decoder a room d = .ok v) ∧
        (a ∉ l.map (·.1) → v = get a absent) := by
      by_cases ha : a ∈ l.map (·.1)
      · obtain ⟨⟨a, d⟩, hm, rfl⟩ := List.mem_map.1 ha
        obtain ⟨v, hv⟩ := hdecoded a d hm
        refine ⟨v, fun e he => ?_, fun h => absurd ha h⟩
        obtain rfl : d = e := by
          exact congrArg Prod.snd (List.inj_on_of_nodup_map honce hm he rfl)
        exact hv
      · exact ⟨_, fun d hm => absurd (List.mem_map_of_mem hm) ha, fun _ => rfl⟩
    choose v hsaid hunsaid using value
    exact ⟨make v, honce, fun a d hm => by rw [get_make]; exact hsaid a d hm,
      fun a ha => by rw [get_make]; exact hunsaid a ha⟩

end Told

namespace Attributes

variable {room : Nat} {s t : Attributes}

abbrev Told (room : Nat) (l : List (Attribute × Document)) (s : Attributes) : Prop :=
  PodTarget.Told Attribute.decoder Attribute.get .empty room l s

theorem decodeAll_eq_ok_iff {l : List (Attribute × Document)} {seen : List Attribute} :
    decodeAll room l seen s = .ok t ↔ (∀ a ∈ l.map (·.1), a ∉ seen) ∧
      PodTarget.Told Attribute.decoder Attribute.get s room l t := by
  induction l generalizing seen s with
  | nil =>
    rw [decodeAll, Except.ok.injEq]
    constructor
    · rintro rfl
      exact ⟨fun _ h => absurd h List.not_mem_nil, List.nodup_nil,
        fun _ _ h => absurd h List.not_mem_nil, fun _ _ => rfl⟩
    · rintro ⟨-, h⟩
      exact ext_get fun a => (h.unsaid a List.not_mem_nil).symm
  | cons e l ih =>
    obtain ⟨a, d⟩ := e
    rw [decodeAll, a.decode_eq]
    by_cases hseen : a ∈ seen
    · rw [if_pos hseen]
      exact iff_of_false (by simp) fun h => absurd hseen (h.1 a List.mem_cons_self)
    rw [if_neg hseen]
    cases hd : a.decoder room d with
    | error e =>
      refine iff_of_false (fun h => by cases h) fun h => ?_
      have hsaid := h.2.said a d List.mem_cons_self
      rw [hd] at hsaid
      cases hsaid
    | ok v =>
      have hself : a.decoder room d = .ok (a.get (a.put v s)) := by rw [hd, a.get_put_self]
      rw [told_cons_iff hself fun b hb => Attribute.get_put_of_ne hb v s, List.map_cons,
        List.forall_mem_cons]
      refine (@ih (a.put v s) (a :: seen)).trans ?_
      simp only [List.mem_cons, not_or]
      constructor
      · rintro ⟨hunseen, htold⟩
        exact ⟨⟨hseen, fun b hb => (hunseen b hb).2⟩, fun ha => (hunseen a ha).1 rfl, htold⟩
      · rintro ⟨⟨-, hunseen⟩, ha, htold⟩
        exact ⟨fun b hb => ⟨fun h => ha (h ▸ hb), hunseen b hb⟩, htold⟩

/-- The attributes that are set aside, read from nothing. -/
theorem decodeAll_empty_eq_ok_iff {l : List (Attribute × Document)} :
    decodeAll room l [] .empty = .ok t ↔ Told room l t := by
  simp [decodeAll_eq_ok_iff, Told]

/-- The members of a section that are no attributes are skipped. -/
theorem decodeMembers_eq_ok_iff {ms : List (Option String × Document)} {seen : List Attribute} :
    decodeMembers room ms seen s = .ok t ↔ Keyed Attribute.ofKey? (·.whole = true) ms ∧
      decodeAll room (known Attribute.ofKey? ms) seen s = .ok t := by
  induction ms generalizing seen s with
  | nil => simp [decodeMembers, known, decodeAll, Keyed]
  | cons m ms ih =>
    obtain ⟨k, d⟩ := m
    cases k with
    | none => simp [decodeMembers, not_keyed_cons_none]
    | some k =>
      cases hk : Attribute.ofKey? k with
      | none =>
        rw [known_cons_none hk, keyed_cons_of_none hk]
        simp only [decodeMembers, hk]
        by_cases hd : d.whole = true
        · rw [if_pos hd, ih, and_assoc, and_iff_right hd]
        · rw [if_neg hd, and_assoc]
          exact iff_of_false (by simp) fun h => absurd h.1 hd
      | some a =>
        rw [known_cons_some hk, keyed_cons_of_some hk]
        simp only [decodeMembers, hk, decodeAll]
        by_cases hseen : a ∈ seen
        · simp [hseen]
        · rw [if_neg hseen, if_neg hseen]
          cases a.decode room d with
          | error e => simp [bind, Except.bind]
          | ok put => exact ih

theorem nodup_all : Attribute.all.Nodup := by decide

/-- Attributes given by position are given once each. -/
theorem decodeItems_eq_ok_iff {ds : List Document} {as seen : List Attribute}
    (has : as.Nodup) (hseen : ∀ a ∈ as, a ∉ seen) :
    decodeItems room ds as s = .ok t ↔
      ds.length ≤ as.length ∧ decodeAll room (as.zip ds) seen s = .ok t := by
  induction ds generalizing as seen s with
  | nil => simp [decodeItems, decodeAll]
  | cons d ds ih =>
    cases as with
    | nil => simp [decodeItems]
    | cons a as =>
      rw [List.nodup_cons] at has
      rw [List.forall_mem_cons] at hseen
      rw [decodeItems, List.zip_cons_cons, decodeAll, if_neg hseen.1, List.length_cons,
        List.length_cons, Nat.add_le_add_iff_right]
      cases a.decode room d with
      | error e => simp [bind, Except.bind]
      | ok put =>
        refine ih has.2 fun b hb => ?_
        rw [List.mem_cons, not_or]
        exact ⟨fun h => has.1 (h ▸ hb), hseen.2 b hb⟩

/-- What the members of an object say of a section. -/
structure Described (room : Nat) (ms : List (Option String × Document)) (t : Attributes) :
    Prop where
  keyed : Keyed Attribute.ofKey? (·.whole = true) ms
  told : Told room (known Attribute.ofKey? ms) t

theorem Described.perm {ms ms' : List (Option String × Document)} (h : Described room ms t)
    (hp : ms.Perm ms') : Described room ms' t where
  keyed := h.keyed.perm hp
  told := PodTarget.Told.perm h.told (known_perm hp)

theorem decode_object_eq_ok_iff {ms : List (Option String × Document)} :
    decode (room + 1) (.object ms) = .ok t ↔ Described room ms t := by
  rw [decode, decodeMembers_eq_ok_iff, decodeAll_empty_eq_ok_iff]
  exact ⟨fun h => ⟨h.1, h.2⟩, fun h => ⟨h.keyed, h.told⟩⟩

theorem decode_array_eq_ok_iff {ds : List Document} :
    decode (room + 1) (.array ds) = .ok t ↔
      ds.length ≤ Attribute.all.length ∧ Told room (Attribute.all.zip ds) t := by
  rw [decode, decodeItems_eq_ok_iff nodup_all fun _ _ => List.not_mem_nil,
    decodeAll_empty_eq_ok_iff]

end Attributes

/-! ### Keys -/

namespace Property

theorem mem_all (p : Property) : p ∈ all := by
  cases p with
  | platformSection q => cases q <;> decide
  | _ => decide

theorem ofKey?_key (p : Property) : ofKey? p.key = some p := by
  cases p with
  | platformSection q => cases q <;> decide
  | _ => decide

theorem ofKey?_eq_some_iff {k : String} {p : Property} :
    ofKey? k = some p ↔ k = p.key ∨ k = "default_subspec" ∧ p = .defaultSubspecs := by
  constructor
  · intro h
    rw [ofKey?] at h
    split at h
    next hk => exact .inr ⟨hk, (Option.some.inj h).symm⟩
    next => exact .inl (by simpa [eq_comm] using List.find?_some h)
  · rintro (rfl | ⟨rfl, rfl⟩)
    · exact p.ofKey?_key
    · rfl

/-- No property is an attribute. -/
theorem ofKey?_attribute {k : String} {p : Property} (h : ofKey? k = some p) :
    Attribute.ofKey? k = none := by
  rcases ofKey?_eq_some_iff.1 h with rfl | ⟨rfl, -⟩
  · cases p with
    | platformSection q => cases q <;> decide
    | _ => decide
  · decide

theorem ofKey?_name (a : Attribute) : ofKey? a.name = none := by
  cases h : ofKey? a.name with
  | none => rfl
  | some p =>
    have hnone := ofKey?_attribute h
    rw [a.ofKey?_name] at hnone
    nomatch hnone

end Property

/-! ### Specs -/

namespace Podspec

/-- What the members of an object say of a spec. -/
structure Described (room : Nat) (ms : List (Option String × Document)) (s : Podspec) : Prop where
  keyed : Keyed Property.ofKey? (·.sound room = true) ms
  named : Property.name ∈ (known Property.ofKey? ms).map (·.1)
  properties : Told Property.decoder Property.get Draft.start.spec room (known Property.ofKey? ms) s
  attributes : Attributes.Told room (known Attribute.ofKey? ms) s.declaration.attributes

theorem Described.perm {room : Nat} {ms ms' : List (Option String × Document)} {s : Podspec}
    (h : Described room ms s) (hp : ms.Perm ms') : Described room ms' s where
  keyed := h.keyed.perm hp
  named := ((known_perm hp).map _).mem_iff.1 h.named
  properties := h.properties.perm (known_perm hp)
  attributes := PodTarget.Told.perm h.attributes (known_perm hp)

/-- What the members that are left have to say for a draft to be completed. -/
structure Completes (room : Nat) (ms : List (Option String × Document)) (f : Draft) (s : Podspec) :
    Prop where
  keyed : Keyed Property.ofKey? (·.sound room = true) ms
  named : f.name.isSome = true ∨ Property.name ∈ (known Property.ofKey? ms).map (·.1)
  unseen : ∀ p ∈ (known Property.ofKey? ms).map (·.1), p ∉ f.seen
  properties : Told Property.decoder Property.get f.spec room (known Property.ofKey? ms) s
  attributes : Attributes.decodeAll room (f.aside.reverse ++ known Attribute.ofKey? ms) [] .empty =
    .ok s.declaration.attributes

section Completes

variable {room : Nat} {s : Podspec} {k : String} {d : Document}
  {ms : List (Option String × Document)} {f : Draft}

theorem completes_nil_iff : Completes room [] f s ↔ f.finish room = .ok s := by
  rw [f.finish_eq_ok_iff]
  constructor
  · rintro ⟨-, hname, -, htold, hall⟩
    exact ⟨hname.resolve_right List.not_mem_nil, fun p => htold.unsaid p List.not_mem_nil,
      by simpa [known] using hall⟩
  · rintro ⟨hname, hget, hall⟩
    exact ⟨nofun, .inl hname, nofun, ⟨List.nodup_nil, nofun, fun p _ => hget p⟩,
      by simpa [known] using hall⟩

theorem completes_property_iff {p : Property} {v : p.Value} (hk : Property.ofKey? k = some p)
    (hseen : p ∉ f.seen) (hd : p.decoder room d = .ok v) :
    Completes room ((some k, d) :: ms) f s ↔
      Completes room ms (Draft.put { f with seen := p :: f.seen } p v) s := by
  have hself : p.decoder room d =
      .ok (p.get (Draft.put { f with seen := p :: f.seen } p v).spec) := by
    rw [hd, Draft.get_put_self]
  have htold := told_cons_iff (l := known Property.ofKey? ms) (s := s) hself fun q hq =>
    Draft.get_put_of_ne { f with seen := p :: f.seen } v hq
  constructor
  · rintro ⟨hkeyed, hnamed, hunseen, hprops, hall⟩
    rw [keyed_cons_of_some hk] at hkeyed
    rw [known_cons_some hk] at hnamed hunseen hprops
    rw [known_cons_none (Property.ofKey?_attribute hk)] at hall
    rw [List.map_cons, List.mem_cons] at hnamed
    rw [List.map_cons, List.forall_mem_cons] at hunseen
    obtain ⟨hp, hprops⟩ := htold.1 hprops
    refine ⟨hkeyed, ?_, fun q hq => ?_, hprops, by rwa [Draft.aside_put]⟩
    · rw [Draft.isSome_name_put, or_assoc]
      exact hnamed.imp_right (Or.imp_left Eq.symm)
    · rw [Draft.seen_put, List.mem_cons, not_or]
      exact ⟨fun h => hp (h ▸ hq), hunseen.2 q hq⟩
  · rintro ⟨hkeyed, hnamed, hunseen, hprops, hall⟩
    rw [Draft.aside_put] at hall
    rw [Draft.isSome_name_put, or_assoc] at hnamed
    simp only [Draft.seen_put, List.mem_cons, not_or] at hunseen
    refine ⟨(keyed_cons_of_some hk).2 hkeyed, ?_, ?_, ?_, ?_⟩
    · rw [known_cons_some hk, List.map_cons, List.mem_cons]
      exact hnamed.imp_right (Or.imp_left Eq.symm)
    · rw [known_cons_some hk, List.map_cons, List.forall_mem_cons]
      exact ⟨hseen, fun q hq => (hunseen q hq).2⟩
    · rw [known_cons_some hk]
      exact htold.2 ⟨fun hp => (hunseen p hp).1 rfl, hprops⟩
    · rwa [known_cons_none (Property.ofKey?_attribute hk)]

theorem completes_other_iff (hk : Property.ofKey? k = none) :
    Completes room ((some k, d) :: ms) f s ↔ d.sound room = true ∧
      Completes room ms { f with aside := ((Attribute.ofKey? k).map (·, d)).toList ++ f.aside }
        s := by
  have hall : f.aside.reverse ++ known Attribute.ofKey? ((some k, d) :: ms) =
      (((Attribute.ofKey? k).map (·, d)).toList ++ f.aside).reverse ++
        known Attribute.ofKey? ms := by
    cases ha : Attribute.ofKey? k with
    | none => rw [known_cons_none ha]; rfl
    | some a => rw [known_cons_some ha]; simp
  constructor
  · rintro ⟨hkeyed, hnamed, hunseen, hprops, hattrs⟩
    rw [keyed_cons_of_none hk] at hkeyed
    rw [known_cons_none hk] at hnamed hunseen hprops
    exact ⟨hkeyed.1, hkeyed.2, hnamed, hunseen, hprops, hall ▸ hattrs⟩
  · rintro ⟨hsound, hkeyed, hnamed, hunseen, hprops, hattrs⟩
    refine ⟨(keyed_cons_of_none hk).2 ⟨hsound, hkeyed⟩, ?_, ?_, ?_, hall ▸ hattrs⟩
    all_goals rwa [known_cons_none hk]

end Completes

/-- The members that are left complete a draft, in whatever order they come. -/
theorem decodeMembers_eq_ok_iff {room : Nat} {s : Podspec} {ms : List (Option String × Document)}
    {f : Draft} : decodeMembers ms room f = .ok s ↔ Completes room ms f s := by
  induction ms generalizing f with
  | nil => rw [decodeMembers, completes_nil_iff]
  | cons m ms ih =>
    obtain ⟨k, d⟩ := m
    cases k with
    | none =>
      rw [decodeMembers]
      exact ⟨nofun, fun h => absurd h.keyed not_keyed_cons_none⟩
    | some k =>
      cases hk : Property.ofKey? k with
      | some p =>
        by_cases hseen : p ∈ f.seen
        · rw [decodeMembers_seen hk hseen]
          refine ⟨nofun, fun h => absurd hseen (h.unseen p ?_)⟩
          rw [known_cons_some hk]
          exact List.mem_cons_self
        rw [decodeMembers_property hk hseen]
        cases hd : p.decoder room d with
        | error e =>
          refine ⟨nofun, fun h => ?_⟩
          have hsaid := h.properties.said p d (by rw [known_cons_some hk]; exact List.mem_cons_self)
          rw [hd] at hsaid
          nomatch hsaid
        | ok v => exact ih.trans (completes_property_iff hk hseen hd).symm
      | none =>
        rw [decodeMembers_other hk, completes_other_iff hk]
        by_cases hd : d.sound room = true
        · rw [if_pos hd, ih, and_iff_right hd]
        · rw [if_neg hd]
          exact ⟨nofun, fun h => absurd h.1 hd⟩

theorem decode_object_eq_ok_iff {room : Nat} {s : Podspec} {ms : List (Option String × Document)} :
    decode (.object ms) (room + 1) = .ok s ↔ Described room ms s := by
  rw [decode, decodeMembers_eq_ok_iff]
  constructor
  · rintro ⟨hkeyed, hnamed, -, htold, hall⟩
    exact ⟨hkeyed, hnamed.resolve_left nofun, htold, Attributes.decodeAll_empty_eq_ok_iff.1 hall⟩
  · rintro ⟨hkeyed, hnamed, htold, hall⟩
    exact ⟨hkeyed, .inr hnamed, fun _ _ => List.not_mem_nil, htold,
      Attributes.decodeAll_empty_eq_ok_iff.2 hall⟩

/-- Whatever else there is to a text, only its document counts. -/
theorem ofJson_eq_decode {d : Document} {s : String} (h : TextOf d s.toList) :
    ofJson s = decode d 127 := by
  rw [ofJson, read_of_textOf h, mostLevels_eq]
  show (decode d 127 >>= fun spec => .ok spec) = _
  cases decode d 127 <;> rfl

/-- Only from the text of a document is a spec read. -/
theorem ofJson_eq_ok_iff {s : String} {spec : Podspec} :
    ofJson s = .ok spec ↔ ∃ d, TextOf d s.toList ∧ decode d 127 = .ok spec := by
  constructor
  · intro h
    obtain ⟨d, complete, hread⟩ : ∃ d complete, read s = (d, complete) := ⟨_, _, rfl⟩
    rw [ofJson, hread, mostLevels_eq] at h
    cases hspec : decode d 127 with
    | error e => simp [hspec, bind, Except.bind] at h
    | ok spec' =>
      cases complete with
      | false => simp [hspec, bind, Except.bind] at h
      | true =>
        obtain rfl : spec' = spec := by simpa [hspec, bind, Except.bind] using h
        exact ⟨d, textOf_iff_read.2 hread, hspec⟩
  · rintro ⟨d, htext, hspec⟩
    rw [ofJson_eq_decode htext, hspec]

end Podspec

end PodTarget
