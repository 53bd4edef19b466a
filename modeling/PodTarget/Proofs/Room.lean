import PodTarget.Proofs.Fields
import PodTarget.Proofs.Nesting

/-! What the room for further levels has to do with the outcome of a decoder.
With less room the outcome stays the same, unless something is nested deeper
than the room allows: then the document is malformed. -/

namespace PodTarget

open Json

namespace Json

/-- Two outcomes are the same, or the first one is that the document is
malformed because of `deep`. -/
def Confined {α : Type} (deep : Prop) (x y : Except Error α) : Prop :=
  x = y ∨ x = .error .malformed ∧ deep

namespace Confined

variable {α β : Type} {deep deep' : Prop} {x y : Except Error α}

theorem refl (deep : Prop) (x : Except Error α) : Confined deep x x := .inl rfl

theorem imp (h : Confined deep x y) (hd : deep → deep') : Confined deep' x y :=
  Or.imp_right (And.imp_right hd) h

theorem map (h : Confined deep x y) (f : α → β) : Confined deep (x.map f) (y.map f) := by
  rcases h with rfl | ⟨rfl, hd⟩
  · exact refl ..
  · exact .inr ⟨rfl, hd⟩

theorem bind {f g : α → Except Error β} (h : Confined deep x y)
    (hf : ∀ a, x = .ok a → Confined deep (f a) (g a)) :
    Confined deep (x >>= f) (y >>= g) := by
  rcases h with rfl | ⟨rfl, hd⟩
  · cases x with
    | error e => exact refl ..
    | ok a => exact hf a rfl
  · exact .inr ⟨rfl, hd⟩

theorem eq_of_not (h : Confined deep x y) (hd : ¬deep) : x = y :=
  h.resolve_right fun h => hd h.2

end Confined

/-- A document is looked through before anything is made of it. -/
theorem confined_sound {α : Type} {deep : Prop} {x y : Except Error α} (d : Document) {r r' : Nat}
    (hr : r ≤ r') (hdeep : r < d.depth → deep) (h : d.sound r = true → Confined deep x y) :
    Confined deep (if d.sound r then x else .error .malformed)
      (if d.sound r' then y else .error .malformed) := by
  by_cases hs : d.sound r = true
  · obtain ⟨hv, hd⟩ := (d.sound_iff r).1 hs
    rw [if_pos hs, if_pos ((d.sound_iff r').2 ⟨hv, Nat.le_trans hd hr⟩)]
    exact h hs
  · rw [if_neg hs]
    by_cases hd : r < d.depth
    · exact .inr ⟨rfl, hdeep hd⟩
    · have hs' : ¬d.sound r' = true := by
        rw [Document.sound_iff] at hs ⊢
        exact fun h => hs ⟨h.1, Nat.le_of_not_lt hd⟩
      rw [if_neg hs']
      exact .refl ..

namespace Decoder

variable {α : Type} {inner : Decoder α}

/-- More room makes a difference only for what is nested too deep. -/
def Bounded (dec : Decoder α) : Prop :=
  ∀ (d : Document) (r r' : Nat), r ≤ r' → Confined (r < d.depth) (dec r d) (dec r' d)

theorem bounded_string : Bounded string := by
  intro d r r' _
  cases d <;> exact .refl ..

theorem bounded_boolean : Bounded boolean := by
  intro d r r' _
  cases d <;> exact .refl ..

theorem optional_of_ne_null {d : Document} (h : d ≠ .null) (room : Nat) :
    optional inner room d = (inner room d).map some := by
  cases d with
  | null => exact absurd rfl h
  | _ => rfl

theorem Bounded.optional (h : Bounded inner) : Bounded (Decoder.optional inner) := by
  intro d r r' hr
  by_cases hd : d = .null
  · subst hd; exact .refl ..
  · rw [optional_of_ne_null hd, optional_of_ne_null hd]
    exact (h d r r' hr).map some

theorem bounded_entries (h : Bounded inner) (ms : List (Option String × Document)) {r r' : Nat}
    (hr : r ≤ r') :
    Confined (∃ m ∈ ms, r < m.2.depth) (entries inner r ms) (entries inner r' ms) := by
  induction ms with
  | nil => exact .refl ..
  | cons m ms ih =>
    obtain ⟨k, d⟩ := m
    cases k with
    | none => exact .refl ..
    | some k =>
      have hhead := (h d r r' hr).imp fun hd =>
        (⟨(some k, d), List.mem_cons_self, hd⟩ : ∃ m ∈ (some k, d) :: ms, r < m.2.depth)
      have htail := ih.imp fun ⟨m, hm, hd⟩ =>
        (⟨m, List.mem_cons_of_mem _ hm, hd⟩ : ∃ m ∈ (some k, d) :: ms, r < m.2.depth)
      exact hhead.bind fun _ _ => htail.bind fun _ _ => .refl ..

theorem Bounded.map (h : Bounded inner) : Bounded (Decoder.map inner) := by
  intro d r r' hr
  cases d with
  | object ms =>
    cases r with
    | zero => exact .inr ⟨rfl, by rw [Document.depth]; omega⟩
    | succ r =>
      obtain ⟨r', rfl⟩ : ∃ n, r' = n + 1 := ⟨r' - 1, by omega⟩
      have hentries := bounded_entries h ms (Nat.le_of_succ_le_succ hr)
      exact (hentries.imp Document.lt_depth_object_iff.2).map _
  | _ => cases r <;> cases r' <;> exact .refl ..

theorem bounded_buffered (kind : String) (shape : Document → Option α) :
    Bounded (buffered kind shape) := fun d _ _ hr =>
  confined_sound d hr id fun _ => .refl ..

theorem bounded_oneOrMany : Bounded oneOrMany := bounded_buffered _ _

theorem bounded_names : Bounded names := bounded_buffered _ _

end Decoder

end Json

open Decoder

theorem bounded_stringList : Bounded stringList := fun d r r' hr =>
  (bounded_oneOrMany.optional d r r' hr).map _

theorem Attribute.bounded_decoder (a : Attribute) : Bounded a.decoder := by
  intro d r r' hr
  cases a with
  | list l =>
    cases l with
    | dependencies => exact (bounded_names.optional d r r' hr).map _
    | _ => exact bounded_stringList d r r' hr
  | resourceBundles => exact (bounded_oneOrMany.map.optional d r r' hr).map _
  | xcconfig => exact bounded_string.map d r r' hr
  | swiftVersions => exact bounded_oneOrMany.optional d r r' hr
  | moduleName => exact bounded_string.optional d r r' hr

theorem Attribute.bounded_decode (a : Attribute) : Bounded a.decode := by
  intro d r r' hr
  rw [a.decode_eq, a.decode_eq]
  exact (a.bounded_decoder d r r' hr).map _

namespace Attributes

theorem bounded_decodeAll (l : List (Attribute × Document)) (seen : List Attribute)
    (s : Attributes) {r r' : Nat} (hr : r ≤ r') :
    Confined (∃ e ∈ l, r < e.2.depth) (decodeAll r l seen s) (decodeAll r' l seen s) := by
  induction l generalizing seen s with
  | nil => exact .refl ..
  | cons e l ih =>
    obtain ⟨a, d⟩ := e
    rw [decodeAll, decodeAll]
    split
    · exact .refl ..
    · have hhead := (a.bounded_decode d r r' hr).imp fun hd =>
        (⟨(a, d), List.mem_cons_self, hd⟩ : ∃ e ∈ (a, d) :: l, r < e.2.depth)
      refine hhead.bind fun put _ => (ih _ _).imp ?_
      exact fun ⟨e, he, hd⟩ => ⟨e, List.mem_cons_of_mem _ he, hd⟩

theorem bounded_decodeMembers (ms : List (Option String × Document)) (seen : List Attribute)
    (s : Attributes) {r r' : Nat} (hr : r ≤ r') :
    Confined (∃ m ∈ ms, r < m.2.depth) (decodeMembers r ms seen s)
      (decodeMembers r' ms seen s) := by
  induction ms generalizing seen s with
  | nil => exact .refl ..
  | cons m ms ih =>
    obtain ⟨k, d⟩ := m
    have hrest (seen : List Attribute) (s : Attributes) := (ih seen s).imp fun ⟨m, hm, hd⟩ =>
      (⟨m, List.mem_cons_of_mem _ hm, hd⟩ : ∃ m ∈ (k, d) :: ms, r < m.2.depth)
    cases k with
    | none => exact .refl ..
    | some k =>
      cases hk : Attribute.ofKey? k with
      | none =>
        simp only [decodeMembers, hk]
        split
        · exact hrest seen s
        · exact .refl ..
      | some a =>
        simp only [decodeMembers, hk]
        split
        · exact .refl ..
        · have hhead := (a.bounded_decode d r r' hr).imp fun hd =>
            (⟨(some k, d), List.mem_cons_self, hd⟩ : ∃ m ∈ (some k, d) :: ms, r < m.2.depth)
          exact hhead.bind fun put _ => hrest _ _

theorem bounded_decodeItems (ds : List Document) (as : List Attribute) (s : Attributes)
    {r r' : Nat} (hr : r ≤ r') :
    Confined (∃ d ∈ ds, r < d.depth) (decodeItems r ds as s) (decodeItems r' ds as s) := by
  induction ds generalizing as s with
  | nil => exact .refl ..
  | cons d ds ih =>
    cases as with
    | nil => exact .refl ..
    | cons a as =>
      have hhead := (a.bounded_decode d r r' hr).imp fun hd =>
        (⟨d, List.mem_cons_self, hd⟩ : ∃ e ∈ d :: ds, r < e.depth)
      refine hhead.bind fun put _ => (ih _ _).imp ?_
      exact fun ⟨e, he, hd⟩ => ⟨e, List.mem_cons_of_mem _ he, hd⟩

theorem bounded_decode : Bounded decode := by
  intro d r r' hr
  cases d with
  | object ms =>
    cases r with
    | zero => exact .inr ⟨rfl, by rw [Document.depth]; omega⟩
    | succ r =>
      obtain ⟨r', rfl⟩ : ∃ n, r' = n + 1 := ⟨r' - 1, by omega⟩
      exact (bounded_decodeMembers ms [] empty (Nat.le_of_succ_le_succ hr)).imp
        Document.lt_depth_object_iff.2
  | array ds =>
    cases r with
    | zero => exact .inr ⟨rfl, by rw [Document.depth]; omega⟩
    | succ r =>
      obtain ⟨r', rfl⟩ : ∃ n, r' = n + 1 := ⟨r' - 1, by omega⟩
      exact (bounded_decodeItems ds Attribute.all empty (Nat.le_of_succ_le_succ hr)).imp
        Document.lt_depth_array_iff.2
  | _ => cases r <;> cases r' <;> exact .refl ..

end Attributes

/-- The properties whose decoding does not depend on that of other specs. -/
theorem Property.bounded_decoder {p : Property} (hp : p ≠ .subspecs) : Bounded p.decoder := by
  intro d r r' hr
  cases p with
  | name => exact bounded_string d r r' hr
  | version => exact bounded_string.optional d r r' hr
  | platforms => exact (bounded_string.optional.map.optional d r r' hr).map _
  | staticFramework => exact bounded_boolean d r r' hr
  | defaultSubspecs => exact bounded_stringList d r r' hr
  | platformSection q => exact Attributes.bounded_decode.optional d r r' hr
  | subspecs => exact absurd rfl hp

namespace Podspec

section Steps

variable {k : String} {d : Document} {ms : List (Option String × Document)} {room : Nat} {f : Draft}

/-- A property is decoded when it is met. -/
theorem decodeMembers_property {p : Property} (hk : Property.ofKey? k = some p)
    (hseen : p ∉ f.seen) : decodeMembers ((some k, d) :: ms) room f =
      p.decoder room d >>= fun v =>
        decodeMembers ms room (Draft.put { f with seen := p :: f.seen } p v) := by
  rw [decodeMembers]
  simp only [hk, if_neg hseen]
  by_cases hp : p = .subspecs
  · subst hp
    simp only [Property.decoder]
    cases decodeSubspecs d room <;> rfl
  · have hread := Draft.readProperty_eq { f with seen := p :: f.seen } hp room d
    cases p with
    | subspecs => exact absurd rfl hp
    | _ =>
      simp only [hread]
      generalize Property.decoder _ room d = x
      cases x <;> rfl

theorem decodeMembers_seen {p : Property} (hk : Property.ofKey? k = some p) (hseen : p ∈ f.seen) :
    decodeMembers ((some k, d) :: ms) room f = .error (.duplicateField p.key) := by
  rw [decodeMembers]
  simp only [hk, if_pos hseen]

/-- Any other member is looked through, and set aside if it is an attribute. -/
theorem decodeMembers_other (hk : Property.ofKey? k = none) :
    decodeMembers ((some k, d) :: ms) room f =
      if d.sound room then
        decodeMembers ms room
          { f with aside := ((Attribute.ofKey? k).map (·, d)).toList ++ f.aside }
      else .error .malformed := by
  rw [decodeMembers]
  simp only [hk]
  cases Attribute.ofKey? k <;> rfl

theorem decodeItems_cons (d : Document) (ds : List Document) (room : Nat) :
    decodeItems (d :: ds) room =
      decode d room >>= fun s => decodeItems ds room >>= fun ss => .ok (s :: ss) := by
  rw [decodeItems]
  cases decode d room with
  | error e => rfl
  | ok s => cases decodeItems ds room <;> rfl

end Steps

theorem bounded_finish (f : Draft) {r r' : Nat} (hr : r ≤ r') :
    Confined (∃ e ∈ f.aside, r < e.2.depth) (f.finish r) (f.finish r') := by
  rw [Draft.finish, Draft.finish]
  cases f.name with
  | none => exact .refl ..
  | some n =>
    have hall := Attributes.bounded_decodeAll f.aside.reverse [] .empty hr
    simp only [List.mem_reverse] at hall
    exact hall.bind fun _ _ => .refl ..

mutual

theorem bounded_decode : ∀ (d : Document) {r r' : Nat}, r ≤ r' →
    Confined (r < d.depth) (decode d r) (decode d r')
  | .object ms, 0, _, _ => .inr ⟨by rw [decode], by rw [Document.depth]; omega⟩
  | .object ms, r + 1, r' + 1, hr => by
    rw [decode, decode]
    exact (bounded_decodeMembers ms .start (Nat.le_of_succ_le_succ hr) nofun).imp
      Document.lt_depth_object_iff.2
  | .null, _, _, _ | .boolean _, _, _, _ | .number _, _, _, _ | .string _, _, _, _
  | .array _, _, _, _ | .valueless, _, _, _ | .torn, _, _, _ => by
    simp only [decode]
    exact .refl ..

theorem bounded_decodeMembers : ∀ (ms : List (Option String × Document)) (f : Draft) {r r' : Nat},
    r ≤ r' → (∀ e ∈ f.aside, e.2.depth ≤ r) →
    Confined (∃ m ∈ ms, r < m.2.depth) (decodeMembers ms r f) (decodeMembers ms r' f)
  | [], f, r, r', hr, hf => by
    rw [decodeMembers, decodeMembers]
    exact (bounded_finish f hr).imp fun ⟨e, he, hd⟩ => absurd (hf e he) (Nat.not_le.2 hd)
  | (none, d) :: ms, f, r, r', hr, hf => by
    rw [decodeMembers, decodeMembers]
    exact .refl ..
  | (some k, d) :: ms, f, r, r', hr, hf => by
    have hrest (g : Draft) (hg : ∀ e ∈ g.aside, e.2.depth ≤ r) :=
      (bounded_decodeMembers ms g hr hg).imp fun ⟨m, hm, hd⟩ =>
        (⟨m, List.mem_cons_of_mem _ hm, hd⟩ : ∃ m ∈ (some k, d) :: ms, r < m.2.depth)
    have hhead (hd : r < d.depth) : ∃ m ∈ (some k, d) :: ms, r < m.2.depth :=
      ⟨(some k, d), List.mem_cons_self, hd⟩
    cases hk : Property.ofKey? k with
    | some p =>
      by_cases hseen : p ∈ f.seen
      · rw [decodeMembers_seen hk hseen, decodeMembers_seen hk hseen]
        exact .refl ..
      · rw [decodeMembers_property hk hseen, decodeMembers_property hk hseen]
        refine Confined.bind ?_ fun v _ => hrest _ (by rw [Draft.aside_put]; exact hf)
        by_cases hp : p = .subspecs
        · subst hp
          exact (bounded_decodeSubspecs d hr).imp hhead
        · exact (p.bounded_decoder hp d r r' hr).imp hhead
    | none =>
      rw [decodeMembers_other hk, decodeMembers_other hk]
      refine confined_sound d hr hhead fun hs => hrest _ fun e he => ?_
      rcases List.mem_append.1 he with he | he
      · obtain ⟨a, -, rfl⟩ := Option.map_eq_some_iff.1 (Option.mem_toList.1 he)
        exact ((d.sound_iff r).1 hs).2
      · exact hf e he

theorem bounded_decodeSubspecs : ∀ (d : Document) {r r' : Nat}, r ≤ r' →
    Confined (r < d.depth) (decodeSubspecs d r) (decodeSubspecs d r')
  | .array ds, 0, _, _ => .inr ⟨by rw [decodeSubspecs], by rw [Document.depth]; omega⟩
  | .array ds, r + 1, r' + 1, hr => by
    rw [decodeSubspecs, decodeSubspecs]
    exact (bounded_decodeItems ds (Nat.le_of_succ_le_succ hr)).imp Document.lt_depth_array_iff.2
  | .null, _, _, _ | .boolean _, _, _, _ | .number _, _, _, _ | .string _, _, _, _
  | .object _, _, _, _ | .valueless, _, _, _ | .torn, _, _, _ => by
    simp only [decodeSubspecs]
    exact .refl ..

theorem bounded_decodeItems : ∀ (ds : List Document) {r r' : Nat}, r ≤ r' →
    Confined (∃ d ∈ ds, r < d.depth) (decodeItems ds r) (decodeItems ds r')
  | [], _, _, _ => by
    rw [decodeItems, decodeItems]
    exact .refl ..
  | d :: ds, r, r', hr => by
    have hhead := (bounded_decode d hr).imp fun hd =>
      (⟨d, List.mem_cons_self, hd⟩ : ∃ e ∈ d :: ds, r < e.depth)
    have htail := (bounded_decodeItems ds hr).imp fun ⟨e, he, hd⟩ =>
      (⟨e, List.mem_cons_of_mem _ he, hd⟩ : ∃ e ∈ d :: ds, r < e.depth)
    rw [decodeItems_cons, decodeItems_cons]
    exact hhead.bind fun _ _ => htail.bind fun _ _ => .refl ..

end

end Podspec

end PodTarget
